/-
Renaming a file.

`mipos_tfs_rename_file` copies the new name to `file_fs_desc->filename[file_handle]`, a byte of
the first descriptor, and not to the descriptor of the file.  The two are the same for the
file in the first slot.

* `openFile_first` — a closed file in the first slot is opened by its name;
* `rename_renames_iff` — in runs, a rename that succeeds gives the file its new name and
  changes nothing else just if the file is in the first slot;
* `rename_changes_first_file` — a file in the second slot.
-/
import Mipos.TfsLookup
import Mipos.TfsUnread

namespace Tfs

open Relation

variable {δ : Type} {port : Port δ} {bytes : δ → ℕ → UInt8} {fs fs' : Fs δ} {i : ℕ}
  {name newName : List UInt8}

/-- The file in slot `i` has a new name, and nothing else has changed.  It is opened by the
new name, and what is read is what was to be read before. -/
structure Renamed (port : Port δ) (fs fs' : Fs δ) (i : ℕ) (name newName : List UInt8) :
    Prop where
  bears : Bears fs' i newName
  fd : ∃ filename, fs'.ftbl.fileFsDesc i = { fs.ftbl.fileFsDesc i with filename := filename }
  tbl : fs'.ftbl.clusterTbl = fs.ftbl.clusterTbl
  others : ∀ k, k < maxNOfFiles → k ≠ i → fs'.ftbl.fileFsDesc k = fs.ftbl.fileFsDesc k
  opens : (fs.fileCtl i).isOpen = false → ∀ mode, ∃ fs₁ fs₁',
    openFile fs name mode = some (fs₁, true, i) ∧ openFile fs' newName mode = some (fs₁', true, i) ∧
    ∀ n, (readFile port fs₁' n i).map Prod.snd = (readFile port fs₁ n i).map Prod.snd

/-! ### The file in the first slot -/

theorem checkFileName_congr (hname : cstr name = cstr newName) :
    checkFileName name = checkFileName newName := by
  rw [checkFileName, checkFileName, strlen, strlen, hname]

/-- The name of a file has no wildcard. -/
theorem Bears.plainName (ho : Orderly bytes fs) (hb : Bears fs i name) : PlainName name := by
  have hvalid : checkFileName name = true :=
    (checkFileName_congr hb.2.symm).trans ((ho.fds i hb.1.1).name hb.1.2)
  refine ⟨strlen_lt hvalid, fun hstar => ?_⟩
  rw [checkFileName, Bool.and_eq_true, List.all_eq_true] at hvalid
  exact absurd (hvalid.2 42 hstar) (by decide)

/-- A closed file in the first slot is the first that its name finds. -/
theorem openFile_first (ho : Orderly bytes fs) (hb : Bears fs 0 name)
    (hclosed : (fs.fileCtl 0).isOpen = false) (mode : OpenMode) :
    openFile fs name mode = some (opened fs 0 mode, true, 0) := by
  have hfd := ho.fds 0 hb.1.1
  have hvalid := hfd.name hb.1.2
  have hfound : openLoop fs name mode (List.range maxNOfFiles) = some (some 0) := by
    show openLoop fs name mode (0 :: (List.range (maxNOfFiles - 1)).map (· + 1)) = some (some 0)
    rw [openLoop, if_neg (not_not.mpr hb.1.2), if_neg (Nat.not_le.mpr (strlen_lt hvalid)),
      if_pos ⟨hb.2.symm, ho.unlocked 0 hb.1, hclosed⟩, if_neg (by simp [hfd.writable])]
  have hlock : (opened fs 0 mode).lock = false := ho.lock
  rw [openFile, if_neg (by simp [checkFileName_congr hb.2.symm, hvalid])]
  refine withAccess_eq ho.lock hlock ?_
  rw [openLoop_lock, hfound]
  rfl

/-- The name finds it. -/
theorem Bears.ffirst_eq (ho : Orderly bytes fs) (hb : Bears fs 0 name) {fs₁ : Fs δ} {j : ℕ}
    (hfound : ffirst fs (some name) = some (fs₁, some j)) : j = 0 := by
  have hp := hb.plainName ho
  obtain ⟨e, heq⟩ := ffirst_found ho hp
  obtain ⟨-, hlookup⟩ := Prod.mk.inj (Option.some.inj (heq.symm.trans hfound))
  by_contra hne
  exact (hp.lookup_eq_some.mp hlookup).2 0 (Nat.pos_of_ne_zero hne) hb.starts

/-- Another name makes no difference to what is read, nor does the stored table. -/
theorem readFile_renamed (hr : port.Reliable bytes) (ho : Orderly bytes fs) (e : ErrCode)
    (filename : List UInt8) (mode : OpenMode) (n : ℕ) :
    (readFile port (opened (flush port (setFd (setError fs e) 0
        { fs.ftbl.fileFsDesc 0 with filename := filename })) 0 mode) n 0).map Prod.snd
      = (readFile port (opened fs 0 mode) n 0).map Prod.snd := by
  generalize hfs : opened (flush port _) 0 mode = fs₁
  -- under the old names, the states agree on the file
  have htwins : Twins bytes 0 (· < clustersCount) (opened fs 0 mode)
      (masked fs₁ e fun k => (fs.ftbl.fileFsDesc k).filename) := by
    subst hfs
    constructor
    case lock => exact ho.lock
    case lock' => exact ho.lock
    case fd => simp [masked, opened]
    case ctl => simp [masked, opened]
    case valid => exact fun _ => id
    case tbl => exact fun _ _ => rfl
    case link => exact fun _ _ => id
    case dev =>
      intro c o hc hlt
      have haddr := clusterAddr_lt hc hlt
      exact hr.flush _ haddr.1 haddr.2
  have hroot : ((opened fs 0 mode).ftbl.fileFsDesc 0).Rooted := (ho.fds 0 (by decide)).rooted
  rw [← htwins.readFile_eq hr hroot n, readFile_masked]

theorem renamed_first (hr : port.Reliable bytes) (ho : Orderly bytes fs) (hb : Bears fs 0 name)
    (hrun : renameFile port fs (some name) newName = some (fs', true)) :
    Renamed port fs fs' 0 name newName := by
  have hvalid := renameFile_checks hrun
  have hfirst : ∀ fs₁ j, ffirst fs (some name) = some (fs₁, some j) → j = 0 :=
    fun fs₁ j hfound => hb.ffirst_eq ho hfound
  have ho' := ho.renameFile hr hrun hfirst
  rcases renameFile_cases hr.succeeds ho.lock hrun hfirst (ho.fds 0 hb.1.1).fits with
    ⟨hfalse, -⟩ | ⟨-, hlive, e, rfl⟩
  · cases hfalse
  · have hbears : Bears (flush port (setFd (setError fs e) 0 { fs.ftbl.fileFsDesc 0 with
        filename := strncpy newName maxFilenameLength })) 0 newName := by
      refine ⟨⟨hlive.1, ?_⟩, ?_⟩
      · simpa using hlive.2
      · simpa [strncpy_eq_padded hvalid] using cstr_padded newName
    constructor
    case bears => exact hbears
    case fd => exact ⟨strncpy newName maxFilenameLength, by simp⟩
    case tbl => rfl
    case others => exact fun k _ hk => Function.update_of_ne hk _ _
    case opens =>
      intro hclosed mode
      exact ⟨_, _, openFile_first ho hb hclosed mode, openFile_first ho' hbears hclosed mode,
        readFile_renamed hr ho e _ mode⟩

/-! ### Files in other slots -/

/-- No descriptor but the first changes. -/
theorem renameFile_others (hp : port.Succeeds) (hl : fs.lock = false) {name : Option (List UInt8)}
    {ok : Bool} (hrun : renameFile port fs name newName = some (fs', ok)) {k : ℕ} (hk : k ≠ 0) :
    fs'.ftbl.fileFsDesc k = fs.ftbl.fileFsDesc k := by
  rcases renameFile_found hp hl hrun with ⟨-, e, rfl⟩ | ⟨-, h, e, -, -, rfl⟩
  · rfl
  · exact Function.update_of_ne hk _ _

/-- **Renaming.**  In every state of every run in which only the file in the first slot has
been renamed: a rename of a file to a name that no file has gives it that name, and
changes nothing else, just if the file is in the first slot. -/
theorem rename_renames_iff (hr : port.Reliable bytes) {fs₀ fs₁ : Fs δ}
    {label : Option (List UInt8)} {ok : Bool} (hmkfs : mkfs port fs₀ label = some (fs₁, ok))
    (hsteps : ReflTransGen (CallStep port Call.RenamesFirst) fs₁ fs)
    (hb : Bears fs i name) (hnew : ∀ k, ¬Bears fs k newName)
    (hrun : renameFile port fs (some name) newName = some (fs', true)) :
    Renamed port fs fs' i name newName ↔ i = 0 := by
  have ho := run_orderly hr hmkfs hsteps
  constructor
  · intro hrenamed
    by_contra hi
    have hsame := renameFile_others hr.succeeds ho.lock hrun hi
    have hcstr := hrenamed.bears.2
    rw [hsame] at hcstr
    exact hnew i ⟨hb.1, hcstr⟩
  · rintro rfl
    exact renamed_first hr ho hb hrun

theorem rename_renames_iff_first_slot : ∃ fs₁ fs fs' : Fs (ℕ → UInt8),
    mkfs memPort (blankFs fun _ => 0) none = some (fs₁, true) ∧
    ReflTransGen (CallStep memPort Call.RenamesFirst) fs₁ fs ∧
    Bears fs 0 [97] ∧ (∀ k, ¬Bears fs k [99]) ∧
    renameFile memPort fs (some [97]) [99] = some (fs', true) ∧
    Renamed memPort fs fs' 0 [97] [99] := by
  have heval : ∃ fs, plainRun memPort (fun _ => 0) [.createFile [97], .openFile [97] .write,
        .writeFile [1, 2, 3] 0, .closeFile 0, .createFile [98]] = some fs ∧ Bears fs 0 [97] ∧
      (∀ k, k < maxNOfFiles → ¬Bears fs k [99]) ∧
      ∃ fs', renameFile memPort fs (some [97]) [99] = some (fs', true) := by decide +kernel
  obtain ⟨fs, hcalls, hb, hnew, fs', hrename⟩ := heval
  obtain ⟨fs₁, hmkfs, hrun⟩ := run_of_plainRun hcalls
  have hno : ∀ k, ¬Bears fs k [99] := fun k hk => hnew k hk.1.1 hk
  exact ⟨fs₁, fs, fs', hmkfs, hrun, hb, hno, hrename,
    (rename_renames_iff memPort_reliable hmkfs hrun hb hno hrename).mpr rfl⟩

/-- **The wrong file is renamed.**  Of the files "a" and "b" the second is renamed to "c".
The call succeeds; "b" keeps its name and "a" is called "ac". -/
theorem rename_changes_first_file : ∃ fs₁ fs fs' : Fs (ℕ → UInt8),
    mkfs memPort (blankFs fun _ => 0) none = some (fs₁, true) ∧
    ReflTransGen (CallStep memPort Call.RenamesFirst) fs₁ fs ∧
    Bears fs 0 [97] ∧ Bears fs 1 [98] ∧ (∀ k, ¬Bears fs k [99]) ∧
    renameFile memPort fs (some [98]) [99] = some (fs', true) ∧
    ¬Renamed memPort fs fs' 1 [98] [99] ∧ Bears fs' 0 [97, 99] ∧ Bears fs' 1 [98] := by
  have heval : ∃ fs, plainRun memPort (fun _ => 0) [.createFile [97], .createFile [98]] = some fs ∧
      Bears fs 0 [97] ∧ Bears fs 1 [98] ∧ (∀ k, k < maxNOfFiles → ¬Bears fs k [99]) ∧
      ∃ fs', renameFile memPort fs (some [98]) [99] = some (fs', true) ∧ Bears fs' 0 [97, 99] ∧
      Bears fs' 1 [98] := by decide +kernel
  obtain ⟨fs, hcalls, hfirst, hsecond, hnew, fs', hrename, hfirst', hsecond'⟩ := heval
  obtain ⟨fs₁, hmkfs, hrun⟩ := run_of_plainRun hcalls
  refine ⟨fs₁, fs, fs', hmkfs, hrun, hfirst, hsecond, fun k hk => hnew k hk.1.1 hk, hrename, ?_,
    hfirst', hsecond'⟩
  intro hrenamed
  cases hrenamed.bears.2.symm.trans hsecond'.2

end Tfs
