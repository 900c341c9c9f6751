/-
Looking up a file.

`mipos_tfs_ffirst` serves wildcards and plain names alike: it compares as many characters as
stand before the first `*`, so that a plain name finds every file whose name starts with it.

* `ffirst_found` — in runs, a plain name finds the first file whose name starts with it
  (`lookup`);
* `exact_lookup_iff` — the lookups, the deletion and the creation of a file go by its whole
  name just if the first file whose name starts with it has that very name;
* `lookup_finds_longer_name` — a directory in which it has not.
-/
import Mipos.TfsDelete
import Mipos.TfsDirectory

namespace Tfs

open Function Relation

variable {δ : Type} {port : Port δ} {bytes : δ → ℕ → UInt8} {fs fs' : Fs δ} {h : ℕ}
  {name : List UInt8} {fd : Fd}

/-! ### Names that match -/

theorem cstr_of_ne_zero {l : List UInt8} (hl : ∀ x ∈ l, x ≠ 0) : cstr l = l := by
  rw [cstr, List.takeWhile_eq_self_iff]
  exact fun x hx => decide_eq_true (hl x hx)

/-- `strncpy` keeps the first `n` characters. -/
theorem cstr_strncpy (s : List UInt8) (n : ℕ) : cstr (strncpy s n) = (cstr s).take n := by
  have hne : ∀ x ∈ (cstr s).take n, x ≠ 0 := fun x hx => cstr_ne_zero s x (List.mem_of_mem_take hx)
  rw [strncpy]
  cases n - strlen s with
  | zero => rw [List.replicate_zero, List.append_nil, cstr_of_ne_zero hne]
  | succ k => rw [List.replicate_succ, cstr_append_zero hne]

/-- A name without wildcard, with room for its terminator. -/
structure PlainName (name : List UInt8) : Prop where
  short : strlen name < maxFilenameLength
  noStar : 42 ∉ cstr name

theorem PlainName.jollyPos_eq (hp : PlainName name) : jollyPos name = strlen name := by
  have hself : (cstr name).takeWhile (· ≠ 42) = cstr name := by
    rw [List.takeWhile_eq_self_iff]
    intro x hx
    refine decide_eq_true fun heq => hp.noStar ?_
    rwa [← heq]
  rw [jollyPos, hself, strlen]

theorem cstr_strncpy_self (name : List UInt8) : cstr (strncpy name (strlen name)) = cstr name := by
  rw [cstr_strncpy, strlen, List.take_length]

/-- The descriptor is of a live file whose name starts with `name`. -/
def Starts (fs : Fs δ) (i : ℕ) (name : List UInt8) : Prop :=
  fs.ftbl.Live i ∧ cstr name <+: cstr (fs.ftbl.fileFsDesc i).filename

/-- The descriptor is of a live file with that very name. -/
def Bears (fs : Fs δ) (i : ℕ) (name : List UInt8) : Prop :=
  fs.ftbl.Live i ∧ cstr (fs.ftbl.fileFsDesc i).filename = cstr name

instance (fs : Fs δ) (i : ℕ) (name : List UInt8) : Decidable (Bears fs i name) :=
  inferInstanceAs (Decidable (_ ∧ _))

theorem Bears.starts {i : ℕ} (hb : Bears fs i name) : Starts fs i name :=
  ⟨hb.1, hb.2 ▸ List.prefix_rfl⟩

theorem PlainName.matchesName_iff (hp : PlainName name) :
    matchesName name fd = true ↔ fd.erased = 0 ∧ cstr name <+: cstr fd.filename := by
  rw [matchesName, Bool.and_eq_true, beq_iff_eq, beq_iff_eq, hp.jollyPos_eq, cstr_strncpy_self,
    cstr_strncpy, List.prefix_iff_eq_take, strlen]
  exact and_congr_right fun _ => eq_comm

/-- The first file that `mipos_tfs_ffirst` compares equal. -/
def lookup (fs : Fs δ) (name : List UInt8) : Option ℕ :=
  (List.range maxNOfFiles).find? fun i => matchesName name (fs.ftbl.fileFsDesc i)

theorem PlainName.lookup_eq_some (hp : PlainName name) {i : ℕ} :
    lookup fs name = some i ↔ Starts fs i name ∧ ∀ j, j < i → ¬Starts fs j name := by
  have hmatch : ∀ j, j < maxNOfFiles →
      (matchesName name (fs.ftbl.fileFsDesc j) = true ↔ Starts fs j name) := by
    intro j hj
    rw [hp.matchesName_iff, Starts, Ftbl.Live]
    simp [hj]
  rw [lookup, List.find?_range_eq_some, List.mem_range]
  constructor
  · rintro ⟨hi, hlt, hbefore⟩
    refine ⟨(hmatch i hlt).mp hi, fun j hj hstarts => ?_⟩
    have hno := hbefore j hj
    rw [(hmatch j (hj.trans hlt)).mpr hstarts] at hno
    cases hno
  · rintro ⟨hstarts, hbefore⟩
    have hlt := hstarts.1.1
    refine ⟨(hmatch i hlt).mpr hstarts, hlt, fun j hj => ?_⟩
    have hno := mt (hmatch j (hj.trans hlt)).mp (hbefore j hj)
    rw [eq_false_of_ne_true hno]
    rfl

theorem PlainName.lookup_eq_none (hp : PlainName name) :
    lookup fs name = none ↔ ∀ i, ¬Starts fs i name := by
  constructor
  · intro hnone i hstarts
    rw [lookup, List.find?_range_eq_none] at hnone
    have hno := hnone i hstarts.1.1
    rw [hp.matchesName_iff.mpr ⟨hstarts.1.2, hstarts.2⟩] at hno
    cases hno
  · intro hno
    cases hfound : lookup fs name with
    | none => rfl
    | some i => exact absurd (hp.lookup_eq_some.mp hfound).1 (hno i)

/-- **A plain name finds the first file whose name starts with it.**  A name with other
characters than those of file names finds nothing, and there is nothing to find. -/
theorem ffirst_found (ho : Orderly bytes fs) (hp : PlainName name) :
    ∃ e, ffirst fs (some name) = some (setError fs e, lookup fs name) := by
  have hcheck : checkFileName (strncpy name (jollyPos name)) = checkFileName name := by
    rw [hp.jollyPos_eq, checkFileName, checkFileName, strlen, cstr_strncpy_self, strlen]
  rw [ffirst, if_neg (Nat.not_le.mpr (hp.jollyPos_eq ▸ hp.short)), hcheck]
  split
  · rename_i hbad
    have hnone : lookup fs name = none := by
      refine hp.lookup_eq_none.mpr fun i hstarts => ?_
      have hvalid := (ho.fds i hstarts.1.1).name hstarts.1.2
      rw [checkFileName, Bool.and_eq_true, List.all_eq_true] at hvalid
      rw [checkFileName, decide_eq_true hp.short, Bool.true_and, List.all_eq_false] at hbad
      obtain ⟨x, hx, hxbad⟩ := hbad
      exact hxbad (hvalid.2 x (hstarts.2.mem hx))
    exact ⟨.badFilename, by rw [hnone]⟩
  · rw [scan_eq ho.lock]
    exact ⟨fs.lastErrorCode, rfl⟩

/-! ### Deleting -/

/-- `mipos_tfs_delete_file` of a plain name: the file that is found is erased, and no other
descriptor changes. -/
theorem deleteFile_found (hr : port.Reliable bytes) (ho : Orderly bytes fs) (hp : PlainName name) :
    (lookup fs name = none ∧
      deleteFile port fs (some name) = some (setError fs .closeFailed, false)) ∨
    ∃ i fs', lookup fs name = some i ∧ deleteFile port fs (some name) = some (fs', true) ∧
      fs'.ftbl.fileFsDesc = update fs.ftbl.fileFsDesc i { Fd.zero with erased := 1 } := by
  obtain ⟨e, hfirst⟩ := ffirst_found ho hp
  cases hfound : lookup fs name with
  | none =>
    refine .inl ⟨rfl, ?_⟩
    rw [deleteFile, hfirst, hfound]
    rfl
  | some i =>
    have hlive := (hp.lookup_eq_some.mp hfound).1.1
    have hl₂ : (erased (setError fs e) i).lock = false := ho.lock
    obtain ⟨fs₁, hloop⟩ : ∃ fs₁, deleteLoop (clustersCount + 2) (erased (setError fs e) i)
        (fs.ftbl.fileFsDesc i).firstCluster = some fs₁ :=
      deleteLoop_total hl₂ (Nat.lt_of_le_of_lt (linkedClusters_le _) (by decide))
    have hfds : fs₁.ftbl.fileFsDesc
        = update fs.ftbl.fileFsDesc i { Fd.zero with erased := 1 } := by
      obtain ⟨tbl, rfl⟩ := deleteLoop_some hl₂ hloop
      rfl
    refine .inr ⟨i, flush port fs₁, rfl, ?_, hfds⟩
    rw [hfound] at hfirst
    rw [deleteFile_eq ho.lock hfirst (ho.unlocked i hlive) (ho.fds i hlive.1).writable, hloop,
      Option.bind_some, updateFsOnDisk_eq hr.succeeds]
    rfl

/-! ### Lookups by the whole name -/

/-- The calls that look for a file go by its whole name. -/
structure ExactLookup (port : Port δ) (fs : Fs δ) (name : List UInt8) : Prop where
  ffirst : ∃ fs' found, ffirst fs (some name) = some (fs', found) ∧
    (∀ i, found = some i → Bears fs i name) ∧ (found = none → ∀ i, ¬Bears fs i name)
  fexist : ∃ fs' found, fexist fs (some name) = some (fs', found) ∧
    (found = true ↔ ∃ i, Bears fs i name)
  getFsize : ∃ fs' size, getFsize fs (some name) = some (fs', size) ∧
    (∀ n, size = some n → ∃ i, Bears fs i name ∧ n = (fs.ftbl.fileFsDesc i).size) ∧
    (size = none → ∀ i, ¬Bears fs i name)
  deleteFile : ∃ fs' ok, deleteFile port fs (some name) = some (fs', ok) ∧
    (ok = true ↔ ∃ i, Bears fs i name) ∧
    (ok = true → ∃ i, Bears fs i name ∧ ¬fs'.ftbl.Live i) ∧
    ∀ i, fs.ftbl.Live i → ¬Bears fs i name → fs'.ftbl.fileFsDesc i = fs.ftbl.fileFsDesc i
  createFile : (∀ i, ¬Bears fs i name) → ∀ fs' i, createFile port fs name = some (fs', false, i) →
    fs'.lastErrorCode ≠ .filenameAlreadyPresent

section Found

variable (ho : Orderly bytes fs) (hp : PlainName name)

include ho hp in
theorem fexist_found : ∃ fs', fexist fs (some name) = some (fs', (lookup fs name).isSome) := by
  obtain ⟨e, hfirst⟩ := ffirst_found ho hp
  rw [fexist, hfirst]
  exact ⟨_, rfl⟩

include ho hp in
theorem getFsize_found : ∃ fs', getFsize fs (some name)
    = some (fs', (lookup fs name).map fun i => (fs.ftbl.fileFsDesc i).size) := by
  obtain ⟨e, hfirst⟩ := ffirst_found ho hp
  rw [getFsize, hfirst]
  cases hfound : lookup fs name with
  | none => exact ⟨_, rfl⟩
  | some i =>
    have hl₁ : (setError fs e).lock = false := ho.lock
    have hlive := (hp.lookup_eq_some.mp hfound).1.1
    dsimp only [Option.bind_eq_bind, Option.bind_some]
    rw [getFdCtl_eq hl₁]
    dsimp only [Option.bind_some]
    rw [setError_ftbl, if_pos hlive.2]
    exact ⟨_, rfl⟩

include ho hp in
/-- A name that finds no file is not refused as present. -/
theorem createFile_absent (hr : port.Reliable bytes) (hnone : lookup fs name = none) {i : ℕ}
    (hrun : createFile port fs name = some (fs', false, i)) :
    fs'.lastErrorCode ≠ .filenameAlreadyPresent := by
  obtain ⟨e, hfirst⟩ := ffirst_found ho hp
  have hl₁ : (setError fs e).lock = false := ho.lock
  rw [createFile, hfirst, hnone] at hrun
  split at hrun
  · cases hrun
    simp [setError]
  · dsimp only [Option.bind_eq_bind, Option.bind_some] at hrun
    rw [if_neg (by decide), scan_eq hl₁] at hrun
    dsimp only [Option.bind_some] at hrun
    split at hrun
    · cases hrun
      simp [setError]
    · -- a device that succeeds leaves no other failure
      obtain ⟨r, -, hstore⟩ := Option.bind_eq_some_iff.mp hrun
      rw [updateFsOnDisk_eq hr.succeeds] at hstore
      simp at hstore

end Found

/-- **Lookups by the whole name.**  In every state of every run in which only the file in the
first slot is renamed, and for every plain name: the lookups go by the whole name just if the
first file whose name starts with it has that very name. -/
theorem exact_lookup_iff (hr : port.Reliable bytes) {fs₀ fs₁ : Fs δ}
    {label : Option (List UInt8)} {ok : Bool} (hmkfs : mkfs port fs₀ label = some (fs₁, ok))
    (hrun : ReflTransGen (CallStep port Call.RenamesFirst) fs₁ fs)
    (hshort : strlen name < maxFilenameLength) (hstar : 42 ∉ cstr name) :
    ExactLookup port fs name ↔
      ∀ i, Starts fs i name → (∀ j, j < i → ¬Starts fs j name) → Bears fs i name := by
  have ho := run_orderly hr hmkfs hrun
  have hp : PlainName name := ⟨hshort, hstar⟩
  obtain ⟨e, hfirst⟩ := ffirst_found ho hp
  constructor
  · intro hexact i hstarts hbefore
    obtain ⟨fs', found, hrun', hbears, -⟩ := hexact.ffirst
    cases hfirst.symm.trans hrun'
    exact hbears i (hp.lookup_eq_some.mpr ⟨hstarts, hbefore⟩)
  · intro hcond
    have hsome : ∀ i, lookup fs name = some i → Bears fs i name := by
      intro i hi
      obtain ⟨hstarts, hbefore⟩ := hp.lookup_eq_some.mp hi
      exact hcond i hstarts hbefore
    have hnone : lookup fs name = none → ∀ i, ¬Bears fs i name :=
      fun hno i hb => hp.lookup_eq_none.mp hno i hb.starts
    have hiff : (lookup fs name).isSome = true ↔ ∃ i, Bears fs i name := by
      cases hfound : lookup fs name with
      | none => simpa using hnone hfound
      | some i => simpa using ⟨i, hsome i hfound⟩
    constructor
    case ffirst => exact ⟨_, _, hfirst, hsome, hnone⟩
    case fexist =>
      obtain ⟨fs', hfexist⟩ := fexist_found ho hp
      exact ⟨fs', _, hfexist, hiff⟩
    case getFsize =>
      obtain ⟨fs', hsize⟩ := getFsize_found ho hp
      refine ⟨fs', _, hsize, fun n hn => ?_, fun hn => hnone (Option.map_eq_none_iff.mp hn)⟩
      obtain ⟨i, hi, rfl⟩ := Option.map_eq_some_iff.mp hn
      exact ⟨i, hsome i hi, rfl⟩
    case deleteFile =>
      rcases deleteFile_found hr ho hp with ⟨hno, hdel⟩ | ⟨i, fs', hi, hdel, hfds⟩
      · refine ⟨_, _, hdel, ?_, nofun, fun _ _ _ => rfl⟩
        rw [hno] at hiff
        exact hiff
      · have hb := hsome i hi
        refine ⟨fs', _, hdel, iff_of_true rfl ⟨i, hb⟩, fun _ => ⟨i, hb, fun hlive => ?_⟩,
          fun k _ hk => ?_⟩
        · have herased := hlive.2
          rw [hfds, update_self] at herased
          cases herased
        · have hne : k ≠ i := fun heq => hk (heq ▸ hb)
          rw [hfds, update_of_ne hne]
    case createFile =>
      intro hno fs' i hcreate
      refine createFile_absent ho hp hr ?_ hcreate
      cases hfound : lookup fs name with
      | none => rfl
      | some k => exact absurd (hsome k hfound) (hno k)

theorem exact_lookup_iff_two_files : ∃ fs₁ fs : Fs (ℕ → UInt8),
    mkfs memPort (blankFs fun _ => 0) none = some (fs₁, true) ∧
    ReflTransGen (CallStep memPort Call.RenamesFirst) fs₁ fs ∧
    Bears fs 0 [97] ∧ Bears fs 1 [98] ∧ ExactLookup memPort fs [98] := by
  have heval : ∃ fs, plainRun memPort (fun _ => 0) [.createFile [97], .createFile [98]] = some fs ∧
      Bears fs 0 [97] ∧ Bears fs 1 [98] ∧ lookup fs [98] = some 1 := by decide +kernel
  obtain ⟨fs, hcalls, hfirst, hsecond, hfound⟩ := heval
  obtain ⟨fs₁, hmkfs, hrun⟩ := run_of_plainRun hcalls
  have hp : PlainName [98] := ⟨by decide, by decide⟩
  refine ⟨fs₁, fs, hmkfs, hrun, hfirst, hsecond,
    (exact_lookup_iff memPort_reliable hmkfs hrun hp.short hp.noStar).mpr ?_⟩
  intro i hstarts hbefore
  cases hfound.symm.trans (hp.lookup_eq_some.mpr ⟨hstarts, hbefore⟩)
  exact hsecond

/-- **A longer name is found.**  The only file is called "ab": "a" finds it, cannot be
created, and deletes it. -/
theorem lookup_finds_longer_name : ∃ fs₁ fs : Fs (ℕ → UInt8),
    mkfs memPort (blankFs fun _ => 0) none = some (fs₁, true) ∧
    ReflTransGen (CallStep memPort Call.RenamesFirst) fs₁ fs ∧
    Bears fs 0 [97, 98] ∧ (∀ i, ¬Bears fs i [97]) ∧ ¬ExactLookup memPort fs [97] ∧
    (∃ fs', ffirst fs (some [97]) = some (fs', some 0)) ∧
    (∃ fs' i, createFile memPort fs [97] = some (fs', false, i) ∧
      fs'.lastErrorCode = .filenameAlreadyPresent) ∧
    ∃ fs', deleteFile memPort fs (some [97]) = some (fs', true) ∧ ¬fs'.ftbl.Live 0 := by
  have heval : ∃ fs, plainRun memPort (fun _ => 0) [.createFile [97, 98]] = some fs ∧
      Bears fs 0 [97, 98] ∧ (∀ i, i < maxNOfFiles → ¬Bears fs i [97]) ∧
      (∃ fs', ffirst fs (some [97]) = some (fs', some 0)) ∧
      (∃ r, createFile memPort fs [97] = some r ∧ r.2.1 = false ∧
        r.1.lastErrorCode = .filenameAlreadyPresent) ∧
      ∃ fs', deleteFile memPort fs (some [97]) = some (fs', true) ∧ ¬fs'.ftbl.Live 0 := by
    decide +kernel
  obtain ⟨fs, hcalls, hlong, hshort, hfirst, ⟨⟨fs₃, ok, i⟩, hcreate, rfl, hcode⟩, hdelete⟩ := heval
  obtain ⟨fs₁, hmkfs, hrun⟩ := run_of_plainRun hcalls
  have hno : ∀ i, ¬Bears fs i [97] := fun i hb => hshort i hb.1.1 hb
  refine ⟨fs₁, fs, hmkfs, hrun, hlong, hno, fun hexact => ?_, hfirst,
    ⟨fs₃, i, hcreate, hcode⟩, hdelete⟩
  exact hexact.createFile hno fs₃ i hcreate hcode

end Tfs
