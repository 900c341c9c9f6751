/-
The directory of Tiny-FS.

A descriptor is in order (`Fd.Ok`) if its fields fit, its file has a first cluster as soon as
it has bytes, its name is terminated and, unless it is erased, has the characters of a file
name, and it is not read-only.  No call needs more of the cluster table to keep it so: the
runs here may fill the volume, write nothing, and write to files that were deleted.

* `run_orderly` — in every run on a device that keeps what it is given, all descriptors are
  in order, in memory and in the table that `mipos_tfs_setup` would find, provided that only
  the file in the first slot is renamed.
-/
import Mathlib.Data.List.TakeWhile
import Mipos.TfsRooted

namespace Tfs

open Function Relation

variable {δ : Type} {port : Port δ} {bytes : δ → ℕ → UInt8} {fs fs' : Fs δ} {h : ℕ}
  {name : List UInt8} {fd : Fd} {w : δ → List UInt8 → ℕ → δ × ℤ}

/-! ### Names -/

theorem cstr_append_zero {l : List UInt8} (hl : ∀ x ∈ l, x ≠ 0) (rest : List UInt8) :
    cstr (l ++ 0 :: rest) = l := by
  have hall : ∀ x ∈ l, decide (x ≠ 0) = true := fun x hx => decide_eq_true (hl x hx)
  rw [cstr, List.takeWhile_append_of_pos hall]
  simp

theorem cstr_ne_zero (s : List UInt8) : ∀ x ∈ cstr s, x ≠ 0 := by
  intro x hx
  simpa using List.mem_takeWhile_imp hx

/-- A name in the array of a descriptor. -/
def padded (name : List UInt8) : List UInt8 :=
  cstr name ++ 0 :: List.replicate (maxFilenameLength - 1 - strlen name) 0

theorem cstr_padded (name : List UInt8) : cstr (padded name) = cstr name :=
  cstr_append_zero (cstr_ne_zero name) _

theorem checkFileName_padded : checkFileName (padded name) = checkFileName name := by
  rw [checkFileName, checkFileName, strlen, strlen, cstr_padded]

theorem padded_eq (name : List UInt8) : padded name
    = cstr name ++ List.replicate (maxFilenameLength - 1 - strlen name) 0 ++ [0] := by
  rw [padded, List.append_assoc, ← List.replicate_succ, List.replicate_succ']

section

variable (hname : checkFileName name = true)

include hname in
theorem strlen_lt : strlen name < maxFilenameLength := by
  rw [checkFileName, Bool.and_eq_true, decide_eq_true_eq] at hname
  exact hname.1

include hname in
theorem drop_padded : (padded name).drop (maxFilenameLength - 1) = [0] := by
  have hlt := strlen_lt hname
  have hlen : (cstr name ++ List.replicate (maxFilenameLength - 1 - strlen name) 0).length
      = maxFilenameLength - 1 := by
    rw [List.length_append, List.length_replicate, ← strlen]
    omega
  rw [padded_eq, List.drop_left' hlen]

include hname in
/-- What `mipos_tfs_rename_file` copies. -/
theorem strncpy_eq_padded : strncpy name maxFilenameLength = padded name := by
  have hlt := strlen_lt hname
  have htake : (cstr name).take maxFilenameLength = cstr name :=
    List.take_of_length_le (Nat.le_of_lt hlt)
  have hrest : maxFilenameLength - strlen name = maxFilenameLength - 1 - strlen name + 1 := by omega
  rw [strncpy, padded, htake, hrest, List.replicate_succ]

include hname in
theorem length_padded : (padded name).length = maxFilenameLength := by
  rw [← strncpy_eq_padded hname, length_strncpy]

include hname in
/-- What `mipos_tfs_create_file` copies, over a name that is terminated. -/
theorem overwrite_eq_padded {old : List UInt8} (hold : old.drop (maxFilenameLength - 1) = [0]) :
    overwrite old (strncpy name (maxFilenameLength - 1)) = padded name := by
  have hlt := strlen_lt hname
  have htake : (cstr name).take (maxFilenameLength - 1) = cstr name := by
    refine List.take_of_length_le ?_
    rw [← strlen]
    omega
  rw [overwrite, length_strncpy, hold, strncpy, htake, padded_eq]

end

/-! ### Descriptors -/

/-- A descriptor in order. -/
structure Fd.Ok (fd : Fd) : Prop where
  fits : fd.Fits
  rooted : fd.Rooted
  /-- the last byte of the array terminates the name -/
  ends : fd.filename.drop (maxFilenameLength - 1) = [0]
  name : fd.erased = 0 → checkFileName fd.filename = true
  writable : fd.readonly = 0

/-- A descriptor after `mipos_tfs_mkfs` and `mipos_tfs_delete_file`. -/
theorem Fd.Ok.blank : Fd.Ok { Fd.zero with erased := 1 } where
  fits := ⟨by decide, by decide, by decide⟩
  rooted hpos := absurd hpos (by decide)
  ends := by decide
  name hzero := absurd hzero (by decide)
  writable := rfl

/-- A new file. -/
theorem Fd.Ok.created (hname : checkFileName name = true) : Fd.Ok
    { filename := padded name, size := 0, firstCluster := emptyCluster, erased := 0,
      readonly := 0 } where
  fits := ⟨length_padded hname, Nat.two_pow_pos 32, show emptyCluster < 2 ^ 16 by decide⟩
  rooted hpos := absurd hpos (Nat.lt_irrefl 0)
  ends := drop_padded hname
  name _ := checkFileName_padded.trans hname
  writable := rfl

/-- A write leaves the name and the flags alone. -/
theorem Fd.Ok.written (hfd : fd.Ok) {size first : ℕ}
    (hfits : Fd.Fits { fd with size := size, firstCluster := first })
    (hroot : Fd.Rooted { fd with size := size, firstCluster := first }) :
    Fd.Ok { fd with size := size, firstCluster := first } :=
  ⟨hfits, hroot, hfd.ends, hfd.name, hfd.writable⟩

theorem Fd.Ok.renamed (hfd : fd.Ok) (hname : checkFileName name = true) :
    Fd.Ok { fd with filename := padded name } where
  fits := ⟨length_padded hname, hfd.fits.size, hfd.fits.firstCluster⟩
  rooted := hfd.rooted
  ends := drop_padded hname
  name _ := checkFileName_padded.trans hname
  writable := hfd.writable

/-! ### States -/

/-- What holds between two calls. -/
structure Orderly (bytes : δ → ℕ → UInt8) (fs : Fs δ) : Prop where
  lock : fs.lock = false
  fds : ∀ i, i < maxNOfFiles → (fs.ftbl.fileFsDesc i).Ok
  unlocked : ∀ i, fs.ftbl.Live i → (fs.fileCtl i).locked = false
  /-- the table that `mipos_tfs_setup` would find -/
  stored : ∃ t : Ftbl, (∀ i, i < maxNOfFiles → (t.fileFsDesc i).Ok) ∧
    storedTable bytes fs.dev = t.bytes

theorem Orderly.touched (hr : port.Reliable bytes) (ho : Orderly bytes fs)
    (ht : Touched port fs h fs') : Orderly bytes fs' where
  lock := ht.lock_eq.trans ho.lock
  fds := ht.ftbl_eq ▸ ho.fds
  unlocked i hlive := by
    rw [ht.ftbl_eq] at hlive
    by_contra hlocked
    have hold := ht.locked_of (Bool.eq_true_of_not_eq_false hlocked)
    exact absurd ((ho.unlocked i hlive).symm.trans hold) (by decide)
  stored := by
    rw [storedTable, hr.reads ht.reads]
    exact ho.stored

/-- The control entries change, but no lock is taken. -/
theorem Orderly.setCtl (ho : Orderly bytes fs) {ctl : Ctl}
    (hlock : ctl.locked = (fs.fileCtl h).locked) : Orderly bytes (setCtl fs h ctl) where
  lock := ho.lock
  fds := ho.fds
  unlocked i hlive := by
    rcases eq_or_ne i h with rfl | hne
    · rw [setCtl_fileCtl, update_self, hlock]
      exact ho.unlocked i hlive
    · rw [setCtl_fileCtl, update_of_ne hne]
      exact ho.unlocked i hlive
  stored := ho.stored

/-- The table is stored. -/
theorem orderly_flush (hr : port.Reliable bytes) (hl : fs.lock = false)
    (hfds : ∀ i, i < maxNOfFiles → (fs.ftbl.fileFsDesc i).Ok)
    (hfree : ∀ i, fs.ftbl.Live i → (fs.fileCtl i).locked = false) :
    Orderly bytes (flush port fs) :=
  ⟨hl, hfds, hfree, fs.ftbl, hfds, storedTable_flush hr fs⟩

theorem orderly_formatted (hr : port.Reliable bytes) (hl : fs.lock = false)
    (label : Option (List UInt8)) : Orderly bytes (flush port (formatted port fs label)) := by
  refine orderly_flush hr hl (fun i hi => ?_) fun i hlive => ?_
  · show Fd.Ok (if i < maxNOfFiles then _ else _)
    rw [if_pos hi]
    exact .blank
  · show Ctl.locked (if i < maxNOfFiles then _ else _) = false
    rw [if_pos hlive.1]
    rfl

/-- One descriptor changes. -/
theorem ok_update {f : ℕ → Fd} (hf : ∀ i, i < maxNOfFiles → (f i).Ok) {k : ℕ} (hfd : fd.Ok) :
    ∀ i, i < maxNOfFiles → (update f k fd i).Ok := by
  intro i hi
  rcases eq_or_ne i k with rfl | hne
  · rwa [update_self]
  · rw [update_of_ne hne]
    exact hf i hi

/-- Whether it fails or not, the driver changes no bytes but those it is given to write. -/
def Confined (bytes : δ → ℕ → UInt8) (w : δ → List UInt8 → ℕ → δ × ℤ) : Prop :=
  ∀ dev data addr a, addr + data.length ≤ volumeSize → a < volumeSize →
    ¬(addr ≤ a ∧ a < addr + data.length) → bytes (w dev data addr).1 a = bytes dev a

theorem Port.Reliable.confined (hr : port.Reliable bytes) :
    Confined bytes fun dev data addr => (port.put dev data addr, 0) := by
  intro dev data addr a hfits ha hout
  exact (hr.put dev data addr a hfits ha).trans (if_neg hout)

/-- Writes to the clusters leave the stored table alone. -/
theorem Puts.stored (hw : Confined bytes w) {dev dev' : δ} {ret : ℤ} (hputs : Puts w dev ret dev') :
    storedTable bytes dev' = storedTable bytes dev := by
  have hput : ∀ (dev : δ) {c off : ℕ} {data : List UInt8}, InCluster c off data.length →
      storedTable bytes (w dev data (clusterAddr c off)).1 = storedTable bytes dev := by
    intro dev c off data hin
    obtain ⟨hlow, hfits⟩ := hin.addr
    refine storedTable_congr fun a ha => ?_
    have hbelow : a < tfsSize := Nat.lt_trans ha (by decide)
    exact hw dev data _ a hfits (Nat.lt_trans hbelow (by decide)) (by omega)
  induction hputs with
  | none dev => rfl
  | last dev hin => exact hput dev hin
  | more hin _ _ ih => exact ih.trans (hput _ hin)

theorem Puts.ret_eq_zero (hw : ∀ dev data addr, (w dev data addr).2 = 0) {dev dev' : δ} {ret : ℤ}
    (hputs : Puts w dev ret dev') : ret = 0 := by
  induction hputs with
  | none dev => rfl
  | last dev hin => exact hw dev _ _
  | more _ _ _ ih => exact ih

/-- A write, if the file has a first cluster after it as soon as it has bytes. -/
theorem Orderly.wrote (ho : Orderly bytes fs) (hw : Confined bytes w) {n : ℕ} {ret : ℤ}
    (hran : WriteRan w fs fs' h n ret)
    (hroot : h < maxNOfFiles → (fs'.ftbl.fileFsDesc h).Rooted) : Orderly bytes fs' := by
  obtain ⟨size, first, hfds⟩ := hran.fds
  have hlive : ∀ i, fs'.ftbl.Live i → fs.ftbl.Live i := by
    rintro i ⟨hi, herased⟩
    refine ⟨hi, ?_⟩
    rcases eq_or_ne i h with rfl | hne
    · simpa [hfds] using herased
    · simpa [hfds, hne] using herased
  constructor
  case lock => exact hran.lock
  case fds =>
    intro i hi
    rcases eq_or_ne i h with rfl | hne
    · have hfits := hran.fits (ho.fds i hi).fits
      have hroot := hroot hi
      rw [hfds, update_self] at hfits hroot ⊢
      exact (ho.fds i hi).written hfits hroot
    · rw [hfds, update_of_ne hne]
      exact ho.fds i hi
  case unlocked =>
    intro i hi
    have hold := ho.unlocked i (hlive i hi)
    rcases eq_or_ne i h with rfl | hne
    · by_contra hlocked
      have htrue := hran.locked (Bool.eq_true_of_not_eq_false hlocked)
      exact absurd (hold.symm.trans htrue) (by decide)
    · rwa [hran.others i hne]
  case stored =>
    rw [hran.puts.stored hw]
    exact ho.stored

theorem Orderly.writeFile (hr : port.Reliable bytes) (ho : Orderly bytes fs) {data : List UInt8}
    {n : ℕ} {r : Bool × ℕ} (hrun : Tfs.writeFile port fs data n h = some (fs', r)) :
    Orderly bytes fs' := by
  obtain ⟨fs₁, ok, k, ret, heq, hran, -⟩ :=
    writeFile_ran hr.succeeds.ioWrite ho.lock (fun hh => (ho.fds h hh).rooted) data n
  cases heq.symm.trans hrun
  have hret := hran.puts.ret_eq_zero fun _ _ _ => rfl
  exact ho.wrote hr.confined hran (hran.rooted hret)

theorem Orderly.createFile (hr : port.Reliable bytes) (ho : Orderly bytes fs) {ok : Bool} {i : ℕ}
    (hrun : Tfs.createFile port fs name = some (fs', ok, i)) : Orderly bytes fs' := by
  rcases createFile_cases hr.succeeds ho.lock hrun with ⟨-, e, rfl⟩ | ⟨rfl, hlt, -, e, rfl⟩
  · exact ho.touched hr (.of_error 0 e)
  · have hname := createFile_checks hrun
    refine orderly_flush hr ho.lock ?_ fun k hlive => ?_
    · show ∀ k, k < maxNOfFiles → (update fs.ftbl.fileFsDesc i _ k).Ok
      rw [setError_ftbl, overwrite_eq_padded hname (ho.fds i hlt).ends]
      exact ok_update ho.fds (.created hname)
    · rcases eq_or_ne k i with rfl | hne
      · simp [created]
      · have herased := hlive.2
        simp only [created, setCtl_ftbl, setFd_fileFsDesc, update_of_ne hne] at herased
        simpa [created, hne] using ho.unlocked k ⟨hlive.1, herased⟩

theorem Orderly.deleteFile (hr : port.Reliable bytes) (ho : Orderly bytes fs)
    {name : Option (List UInt8)} {ok : Bool} (hrun : Tfs.deleteFile port fs name = some (fs', ok)) :
    Orderly bytes fs' := by
  rcases deleteFile_cases hr.succeeds ho.lock hrun with
    ⟨-, k, ht⟩ | ⟨-, i, e, fs₁, -, -, hloop, rfl⟩
  · exact ho.touched hr ht
  · have hl₁ : (erased (setError fs e) i).lock = false := ho.lock
    obtain ⟨tbl, rfl⟩ := deleteLoop_some hl₁ hloop
    refine orderly_flush hr ho.lock (ok_update ho.fds .blank) fun k hlive => ?_
    have herased := hlive.2
    rcases eq_or_ne k i with rfl | hne
    · simp [erased] at herased
    · simp only [erased, setFd_fileFsDesc, update_of_ne hne] at herased
      simpa [erased, hne] using ho.unlocked k ⟨hlive.1, herased⟩

theorem Orderly.renameFile (hr : port.Reliable bytes) (ho : Orderly bytes fs)
    {name : Option (List UInt8)} {newName : List UInt8} {ok : Bool}
    (hrun : Tfs.renameFile port fs name newName = some (fs', ok))
    (hfirst : ∀ fs₁ i, ffirst fs name = some (fs₁, some i) → i = 0) : Orderly bytes fs' := by
  rcases renameFile_cases hr.succeeds ho.lock hrun hfirst (ho.fds 0 (by decide)).fits with
    ⟨-, e, rfl⟩ | ⟨rfl, hlive, e, rfl⟩
  · exact ho.touched hr (.of_error 0 e)
  · have hname := renameFile_checks hrun
    have hfd := (ho.fds 0 hlive.1).renamed hname
    rw [strncpy_eq_padded hname]
    refine orderly_flush hr ho.lock (ok_update ho.fds hfd) fun k hk => ?_
    rcases eq_or_ne k 0 with rfl | hne
    · exact ho.unlocked 0 hlive
    · have herased := hk.2
      simp only [setFd_fileFsDesc, update_of_ne hne] at herased
      exact ho.unlocked k ⟨hk.1, herased⟩

theorem Orderly.mounted (hr : port.Reliable bytes) (ho : Orderly bytes fs) :
    Orderly bytes (mounted port fs) := by
  obtain ⟨t, ht, hstored⟩ := ho.stored
  have hread : (port.get fs.dev sizeofFtbl tfsOffset).2 = t.bytes :=
    (hr.get _ _ _ (by decide)).trans hstored
  refine orderly_flush hr rfl (fun i hi => ?_) fun i hlive => ?_
  · dsimp only
    rw [hread, ofBytes_fileFsDesc t hi]
    rw [Fd.ofBytes_bytes (ht i hi).fits]
    exact ht i hi
  · dsimp only
    rw [if_pos hlive.1]
    rfl

/-! ### Runs -/

/-- The calls of a run: the only file to be renamed is the one in the first slot. -/
def Call.RenamesFirst (fs : Fs δ) : Call → Prop
  | .renameFile name _ => ∀ fs₁ i, ffirst fs name = some (fs₁, some i) → i = 0
  | _ => True

def Call.isRename : Call → Bool
  | .renameFile _ _ => true
  | _ => false

theorem Call.renamesFirst_of_not (fs : Fs δ) (call : Call) (hno : (!call.isRename) = true) :
    call.RenamesFirst fs := by
  cases call with
  | renameFile name newName => cases hno
  | _ => trivial

/-- **Every call keeps the descriptors in order.** -/
theorem Orderly.exec (hr : port.Reliable bytes) (ho : Orderly bytes fs) {call : Call} {ok : Bool}
    (hcall : call.RenamesFirst fs) (hexec : call.exec port fs = some (fs', ok)) :
    Orderly bytes fs' := by
  cases call with
  | mkfs label =>
    rw [Call.exec, mkfs_eq hr.succeeds ho.lock] at hexec
    cases hexec
    exact orderly_formatted hr ho.lock label
  | setup =>
    rw [Call.exec, setup_eq hr.succeeds] at hexec
    cases hexec
    exact ho.mounted hr
  | createFile name =>
    obtain ⟨⟨ok', i⟩, hrun, -⟩ := exec_map hexec
    exact ho.createFile hr hrun
  | openFile name mode =>
    obtain ⟨⟨ok', i⟩, hrun, -⟩ := exec_map hexec
    rcases openFile_cases ho.lock hrun with ⟨-, rfl⟩ | ⟨-, rfl, -⟩
    · exact ho
    · exact ho.setCtl rfl
  | closeFile k =>
    rcases closeFile_cases ho.lock hexec with ⟨-, rfl⟩ | ⟨-, rfl⟩
    · exact ho.touched hr (.of_error k _)
    · exact ho.setCtl rfl
  | seekFile code seekpos k => exact ho.touched hr (seekFile_touched ho.lock hexec)
  | readFile rbytes k =>
    obtain ⟨r, hrun, -⟩ := exec_map hexec
    exact ho.touched hr (readFile_touched hr.succeeds ho.lock hrun)
  | writeFile data k =>
    obtain ⟨r, hrun, -⟩ := exec_map hexec
    exact ho.writeFile hr hrun
  | deleteFile name => exact ho.deleteFile hr hexec
  | renameFile name newName => exact ho.renameFile hr hexec hcall

/-- **Every run** from a formatted device keeps them in order. -/
theorem run_orderly (hr : port.Reliable bytes) {fs₀ fs₁ : Fs δ} {label : Option (List UInt8)}
    {ok : Bool} (hmkfs : mkfs port fs₀ label = some (fs₁, ok))
    (hrun : ReflTransGen (CallStep port Call.RenamesFirst) fs₁ fs) : Orderly bytes fs := by
  induction hrun with
  | refl =>
    have hl := lock_of_mkfs hmkfs
    rw [mkfs_eq hr.succeeds hl] at hmkfs
    cases hmkfs
    exact orderly_formatted hr hl label
  | tail _ hstep ih =>
    obtain ⟨call, ok, hexec, hcall⟩ := hstep
    exact ih.exec hr hcall hexec

/-- The state after calls on a formatted device, none of which is a rename. -/
def plainRun (port : Port δ) (dev : δ) (calls : List Call) : Option (Fs δ) :=
  (mkfs port (blankFs dev) none).bind fun r =>
    if r.2 then runTested port (fun _ call => !call.isRename) r.1 calls else none

theorem run_of_plainRun {dev : δ} {calls : List Call} (hrun : plainRun port dev calls = some fs) :
    ∃ fs₁, mkfs port (blankFs dev) none = some (fs₁, true) ∧
      ReflTransGen (CallStep port Call.RenamesFirst) fs₁ fs := by
  obtain ⟨⟨fs₁, ok⟩, hmkfs, hrun⟩ := Option.bind_eq_some_iff.mp hrun
  dsimp only at hrun
  split at hrun
  · rename_i hok
    subst hok
    exact ⟨fs₁, hmkfs, run_of_runTested Call.renamesFirst_of_not hrun⟩
  · cases hrun

end Tfs
