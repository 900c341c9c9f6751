/-
Opening a stream that fails.

`mipos_tfs_fopen` compares the first seven characters of its mode with "r", "r+", "w" and "w+".
In the first two modes it opens the file, in the others it deletes it and creates it again; then
it asks for the memory of the stream.  Whatever it has done until a step fails stays done.

* `Openable`, `Deletable`, `Creatable` — the states in which opening, deleting and creating do
  anything;
* `fopen_clean_iff` — a call that returns null has left nothing behind just if its mode is not
  empty, and before it there was nothing to be opened, deleted or created, or nothing to fail;
* `failed_fopen_deletes` — the name `a*` with mode "w", and a file opened without memory.
-/
import Mipos.TfsAtomic
import Mipos.TfsMount
import Mipos.TfsNames

namespace Stdio

open Tfs

variable {δ : Type} {port : Port δ} {fs fs' : Fs δ} {name : List UInt8} {log : δ → List Io}
  {w : δ → List UInt8 → ℕ → δ × ℤ}

/-! ### Opening -/

/-- The slot at which `mipos_tfs_open_file` ends its search: the name of the file there is not
terminated, or it is the name, and the file is neither locked nor open. -/
def candidate (fs : Fs δ) (name : List UInt8) : Option ℕ :=
  (List.range maxNOfFiles).find? fun i => (fs.ftbl.fileFsDesc i).erased = 0 ∧
    (strlen (fs.ftbl.fileFsDesc i).filename ≥ maxFilenameLength ∨
      cstr name = cstr (fs.ftbl.fileFsDesc i).filename ∧ (fs.fileCtl i).locked = false ∧
        (fs.fileCtl i).isOpen = false)

/-- The names that `mipos_tfs_open_file` comes to are terminated. -/
def Searchable (fs : Fs δ) (name : List UInt8) : Prop :=
  checkFileName name = true → ∀ i, candidate fs name = some i →
    strlen (fs.ftbl.fileFsDesc i).filename < maxFilenameLength

/-- `mipos_tfs_open_file` takes the name and finds a file, which may be opened in that mode. -/
def Openable (fs : Fs δ) (name : List UInt8) (mode : OpenMode) : Prop :=
  checkFileName name = true ∧ ∃ i, candidate fs name = some i ∧
    (mode = .write → (fs.ftbl.fileFsDesc i).readonly = 0)

theorem openLoop_eq (fs : Fs δ) (name : List UInt8) (mode : OpenMode) :
    openLoop fs name mode (List.range maxNOfFiles) = match candidate fs name with
      | none => some none
      | some i => if strlen (fs.ftbl.fileFsDesc i).filename ≥ maxFilenameLength then none
        else some (if mode = .write ∧ (fs.ftbl.fileFsDesc i).readonly ≠ 0 then none
          else some i) := by
  rw [candidate]
  induction List.range maxNOfFiles with
  | nil => rfl
  | cons i is ih =>
    rw [openLoop, List.find?_cons]
    by_cases herased : (fs.ftbl.fileFsDesc i).erased = 0
    · by_cases hlong : strlen (fs.ftbl.fileFsDesc i).filename ≥ maxFilenameLength
      · simp [herased, hlong]
      · by_cases hname : cstr name = cstr (fs.ftbl.fileFsDesc i).filename ∧
            (fs.fileCtl i).locked = false ∧ (fs.fileCtl i).isOpen = false
        · simp [herased, hlong, hname]
        · simpa [herased, hlong, hname] using ih
    · simpa [herased] using ih

/-- What `mipos_tfs_open_file` returns, by the state before. -/
theorem openFile_iff (hl : fs.lock = false) (name : List UInt8) (mode : OpenMode) (p : Prop) :
    (∃ r, openFile fs name mode = some r ∧ (r.2.1 = true → p)) ↔
      Searchable fs name ∧ (Openable fs name mode → p) := by
  have hresult := openFile_result hl name mode
  rw [openLoop_eq] at hresult
  have hret : (∃ r, openFile fs name mode = some r ∧ (r.2.1 = true → p)) ↔
      ∃ r, (openFile fs name mode).map (·.2) = some r ∧ (r.1 = true → p) := by
    simp only [Option.map_eq_some_iff]
    constructor
    · rintro ⟨r, hr, hp⟩
      exact ⟨r.2, ⟨r, hr, rfl⟩, hp⟩
    · rintro ⟨_, ⟨r, hr, rfl⟩, hp⟩
      exact ⟨r, hr, hp⟩
  rw [hret, hresult, Searchable, Openable]
  by_cases hcheck : checkFileName name = false
  · simp [hcheck]
  · rw [if_neg hcheck, Bool.eq_true_of_not_eq_false hcheck]
    cases candidate fs name with
    | none => simp
    | some i =>
      by_cases hlong : strlen (fs.ftbl.fileFsDesc i).filename ≥ maxFilenameLength
      · simp [hlong, Nat.not_lt.mpr hlong]
      · have hmay : (mode = .write → (fs.ftbl.fileFsDesc i).readonly = 0) ↔
            ¬(mode = .write ∧ (fs.ftbl.fileFsDesc i).readonly ≠ 0) := by simp
        by_cases hro : mode = .write ∧ (fs.ftbl.fileFsDesc i).readonly ≠ 0
        · simp [hlong, hro, Nat.lt_of_not_le hlong]
        · simp [hlong, hmay, hro, Nat.lt_of_not_le hlong]

/-! ### Deleting and creating -/

/-- The file that `mipos_tfs_ffirst` finds. -/
def found (fs : Fs δ) (name : List UInt8) : Option ℕ :=
  if checkFileName (strncpy name (jollyPos name)) = false then none else lookup fs name

/-- There is a file for `mipos_tfs_delete_file`, and neither is it locked nor read-only. -/
def Deletable (fs : Fs δ) (name : List UInt8) : Prop :=
  ∃ i, found fs name = some i ∧ (fs.fileCtl i).locked = false ∧
    (fs.ftbl.fileFsDesc i).readonly = 0

/-- `mipos_tfs_create_file` takes the name, finds no file, and has a slot for it. -/
def Creatable (fs : Fs δ) (name : List UInt8) : Prop :=
  checkFileName name = true ∧ found fs name = none ∧
    ∃ i, i < maxNOfFiles ∧ (fs.ftbl.fileFsDesc i).erased ≠ 0

/-- The descriptors when the file that is found has been deleted, if it can be. -/
def vacated (fs : Fs δ) (name : List UInt8) : Fs δ :=
  match found fs name with
  | some i => if (fs.fileCtl i).locked = false ∧ (fs.ftbl.fileFsDesc i).readonly = 0 then
      erased fs i else fs
  | none => fs

theorem vacated_of_not (hno : ¬Deletable fs name) : vacated fs name = fs := by
  rw [vacated]
  cases hfound : found fs name with
  | none => rfl
  | some i => exact if_neg fun h => hno ⟨i, hfound, h.1, h.2⟩

theorem creatable_congr (h : fs'.ftbl.fileFsDesc = fs.ftbl.fileFsDesc) :
    Creatable fs' name ↔ Creatable fs name := by
  rw [Creatable, Creatable, found, found, lookup, lookup, h]

theorem ffirst_eq (hl : fs.lock = false) (hn : jollyPos name < maxFilenameLength) :
    ∃ e, ffirst fs (some name) = some (setError fs e, found fs name) := by
  rw [ffirst, if_neg (Nat.not_le.mpr hn), found]
  split
  · exact ⟨.badFilename, rfl⟩
  · rw [scan_eq hl]
    exact ⟨fs.lastErrorCode, rfl⟩

/-- The name of a file that can be created is short enough to be looked up. -/
theorem jollyPos_lt (hcheck : checkFileName name = true) : jollyPos name < maxFilenameLength :=
  (List.takeWhile_prefix _).length_le.trans_lt (strlen_lt hcheck)

theorem delete_refused (hl : fs.lock = false) (hn : jollyPos name < maxFilenameLength)
    (hno : ¬Deletable fs name) :
    ∃ e, deleteFile port fs (some name) = some (setError fs e, false) := by
  obtain ⟨e, hfirst⟩ := ffirst_eq hl hn
  rw [deleteFile, hfirst]
  dsimp only [Option.bind_eq_bind, Option.bind_some]
  cases hfound : found fs name with
  | none => exact ⟨.closeFailed, rfl⟩
  | some i =>
    have hl₁ : (setCtl (setError fs e) i { (setError fs e).fileCtl i with locked := true }).lock
        = false := hl
    dsimp only
    rcases free_or_busy (setError fs e) i with ⟨hi, hfree⟩ | hbusy
    · have hreadonly : (fs.ftbl.fileFsDesc i).readonly ≠ 0 := fun hzero =>
        hno ⟨i, hfound, hfree, hzero⟩
      rw [lockFile_free hi hfree]
      dsimp only
      rw [getFdCtl_eq hl₁]
      dsimp only [Option.bind_some]
      rw [if_pos (.inr hreadonly), unlockFile_locked hi hfree]
      exact ⟨.deleteFailed, rfl⟩
    · rw [lockFile_busy hbusy]
      exact ⟨.deleteFailed, rfl⟩

theorem create_refused (hl : fs.lock = false) (hno : ¬Creatable fs name) :
    ∃ e, createFile port fs name = some (setError fs e, false, invalidFileHandle) := by
  rw [createFile]
  split
  · exact ⟨.badFilename, rfl⟩
  · rename_i hcheck
    have hcheck := Bool.eq_true_of_not_eq_false hcheck
    obtain ⟨e, hfirst⟩ := ffirst_eq hl (jollyPos_lt hcheck)
    have hl₁ : (setError fs e).lock = false := hl
    rw [hfirst]
    dsimp only [Option.bind_eq_bind, Option.bind_some]
    cases hfound : found fs name with
    | some i => exact ⟨.filenameAlreadyPresent, rfl⟩
    | none =>
      have hfull : (List.range maxNOfFiles).find? (fun i =>
          decide (((setError fs e).ftbl.fileFsDesc i).erased ≠ 0)) = none := by
        refine List.find?_eq_none.mpr fun i hi herased => ?_
        exact hno ⟨hcheck, hfound, i, List.mem_range.mp hi, of_decide_eq_true herased⟩
      rw [if_neg (by decide), scan_eq hl₁, hfull]
      exact ⟨.noEnoughFreeBlocks, rfl⟩

section Logs

variable (hl : fs.lock = false) (hw : port.ioWrite = some w) (hlog : port.Logs log)

include hw hlog in
/-- Storing the table is one more access. -/
theorem updateFsOnDisk_access (fs : Fs δ) :
    ∃ dev io, updateFsOnDisk port fs = some (setDev fs dev, io.ret) ∧ io.isWrite = true ∧
      log dev = log fs.dev ++ [io] := by
  rw [updateFsOnDisk, hw]
  exact ⟨_, _, rfl, rfl, hlog.write w hw _ _ _⟩

include hl hw hlog in
/-- Deleting, on any device: if there is anything to delete, the device is accessed. -/
theorem delete_access (hn : jollyPos name < maxFilenameLength) : ∃ fs' ok new,
    deleteFile port fs (some name) = some (fs', ok) ∧ fs'.lock = false ∧
      fs'.ftbl.fileFsDesc = (vacated fs name).ftbl.fileFsDesc ∧
      log fs'.dev = log fs.dev ++ new ∧ (new = [] → ¬Deletable fs name) := by
  by_cases hyes : Deletable fs name
  · obtain ⟨i, hfound, hfree, hwritable⟩ := hyes
    obtain ⟨e, hfirst⟩ := ffirst_eq hl hn
    rw [hfound] at hfirst
    have hl₁ : (erased (setError fs e) i).lock = false := hl
    obtain ⟨fs₁, hloop⟩ : ∃ fs₁, deleteLoop (clustersCount + 2) (erased (setError fs e) i)
        (fs.ftbl.fileFsDesc i).firstCluster = some fs₁ :=
      deleteLoop_total hl₁ (Nat.lt_of_le_of_lt (linkedClusters_le _) (by decide))
    obtain ⟨dev, io, hstore, -, hlogged⟩ := updateFsOnDisk_access hw hlog fs₁
    have hdelete : deleteFile port fs (some name) = _ := deleteFile_eq hl hfirst hfree hwritable
    rw [hloop, Option.bind_some, hstore] at hdelete
    obtain ⟨tbl, rfl⟩ := deleteLoop_some hl₁ hloop
    have hvacated : vacated fs name = erased fs i := by simp [vacated, hfound, hfree, hwritable]
    exact ⟨_, _, [io], hdelete, hl, by rw [hvacated]; rfl, hlogged, by simp⟩
  · obtain ⟨e, hrefused⟩ := delete_refused hl hn hyes
    exact ⟨_, _, [], hrefused, hl, by rw [vacated_of_not hyes]; rfl, (List.append_nil _).symm,
      fun _ => hyes⟩

include hl hw hlog in
/-- Creating, on any device: it succeeds if the driver takes the table. -/
theorem create_access (name : List UInt8) : ∃ fs' ok i new,
    createFile port fs name = some (fs', ok, i) ∧ log fs'.dev = log fs.dev ++ new ∧
      ((Creatable fs name ∧ ∃ io, new = [io] ∧ (ok = true ↔ ¬io.Failed)) ∨
        (¬Creatable fs name ∧ new = [] ∧ ok = false)) := by
  by_cases hyes : Creatable fs name
  · have ⟨hcheck, hfound, i, hi, herased⟩ := hyes
    obtain ⟨e, hfirst⟩ := ffirst_eq hl (jollyPos_lt hcheck)
    have hl₁ : (setError fs e).lock = false := hl
    cases hslot : (List.range maxNOfFiles).find? (fun i =>
        decide (((setError fs e).ftbl.fileFsDesc i).erased ≠ 0)) with
    | none =>
      have hno := List.find?_eq_none.mp hslot i (List.mem_range.mpr hi)
      exact absurd (decide_eq_true herased) hno
    | some j =>
      have hedit : withAccess (setError fs e) (fun fs => some (created fs j name, ()))
          = some (created (setError fs e) j name, ()) := withAccess_eq hl₁ hl₁ rfl
      obtain ⟨dev, io, hstore, hkind, hlogged⟩ :=
        updateFsOnDisk_access hw hlog (created (setError fs e) j name)
      refine ⟨setDev (created (setError fs e) j name) dev, decide (io.ret = 0), j, [io], ?_,
        hlogged, .inl ⟨hyes, io, rfl, ?_⟩⟩
      · rw [createFile, hcheck, if_neg (by decide), hfirst, hfound]
        dsimp only [Option.bind_eq_bind, Option.bind_some]
        rw [if_neg (by decide), scan_eq hl₁, hslot]
        dsimp only [Option.bind_some]
        show (withAccess (setError fs e) fun fs => some (created fs j name, ())).bind _ = _
        rw [hedit, Option.bind_some]
        dsimp only
        rw [hstore]
        rfl
      · simp [Io.Failed, hkind]
  · obtain ⟨e, hrefused⟩ := create_refused hl hyes
    exact ⟨_, _, _, [], hrefused, (List.append_nil _).symm, .inr ⟨hyes, rfl, rfl⟩⟩

end Logs

/-! ### Streams -/

/-- The memory is as it was, and the device was not accessed, as it is for every file that is
deleted or created. -/
structure NoEffect (log : δ → List Io) (fs fs' : Fs δ) : Prop where
  memory : SameMemory fs fs'
  device : accessed log fs fs' = []

theorem NoEffect.setError (log : δ → List Io) (fs : Fs δ) (e : ErrCode) :
    NoEffect log fs (setError fs e) where
  memory := ⟨rfl, rfl, rfl⟩
  device := List.drop_length

theorem NoEffect.log_eq {new : List Io} (h : NoEffect log fs fs')
    (hnew : log fs'.dev = log fs.dev ++ new) : new = [] := (accessed_eq hnew).symm.trans h.device

/-- The call is defined, and has had no effect if it returns null. -/
def Clean (log : δ → List Io) (fs : Fs δ) (result : Option (Fs δ × Option File)) : Prop :=
  ∃ fs' f, result = some (fs', f) ∧ (f = none → NoEffect log fs fs')

theorem openStream_clean_iff (hl : fs.lock = false) (name : List UInt8) (m : OpenMode)
    (mem : Bool) : Clean log fs (openStream fs name m mem) ↔
      Searchable fs name ∧ (Openable fs name m → mem = true) := by
  rw [← openFile_iff hl]
  constructor
  · rintro ⟨fs', f, hrun, hclean⟩
    obtain ⟨⟨fs₁, ok, h⟩, hopen, heq⟩ := Option.bind_eq_some_iff.mp hrun
    cases heq
    refine ⟨_, hopen, fun hok => ?_⟩
    rcases openFile_cases hl hopen with ⟨hfail, -⟩ | ⟨-, rfl, -, hclosed⟩
    · exact absurd (hfail.symm.trans hok) (by decide)
    · -- without memory the file would stay open
      by_contra hmem
      have hsame := (hclean (by simp [hmem])).memory
      have hnow := congrArg Ctl.isOpen (congrFun hsame.ctl h)
      simp [opened, hclosed] at hnow
  · rintro ⟨⟨fs₁, ok, h⟩, hopen, hmem⟩
    have hrun : openStream fs name m mem
        = some (fs₁, if ok && mem then some ⟨h, true⟩ else none) := by
      rw [openStream, hopen]
      rfl
    refine ⟨fs₁, _, hrun, fun hnull => ?_⟩
    rcases openFile_cases hl hopen with ⟨-, rfl⟩ | ⟨rfl, -, -⟩
    · exact .setError log fs₁ fs₁.lastErrorCode
    · simp [hmem rfl] at hnull

/-- The driver takes the table that a write mode stores last. -/
def Stored (log : δ → List Io) (port : Port δ) (fs : Fs δ) (name : List UInt8) (mem : Bool) :
    Prop :=
  ∀ fs' f, createStream port fs name mem = some (fs', f) →
    ∀ io ∈ (accessed log fs fs').getLast?, ¬io.Failed

/-- What it takes in each mode to leave nothing behind. -/
def Failsafe (log : δ → List Io) (port : Port δ) (fs : Fs δ) (name : List UInt8) (mem : Bool) :
    Mode → Prop
  | .r => Searchable fs name ∧ (Openable fs name .read → mem = true)
  | .rPlus => Searchable fs name ∧ (Openable fs name .write → mem = true)
  | .w | .wPlus => jollyPos name < maxFilenameLength ∧
      (¬Deletable fs name ∧ ¬Creatable fs name ∨
        mem = true ∧ Creatable (vacated fs name) name ∧ Stored log port fs name mem)

theorem createStream_clean_iff (hl : fs.lock = false) (hw : port.ioWrite = some w)
    (hlog : port.Logs log) (hn : jollyPos name < maxFilenameLength) (mem : Bool) :
    Clean log fs (createStream port fs name mem) ↔ ¬Deletable fs name ∧ ¬Creatable fs name ∨
      mem = true ∧ Creatable (vacated fs name) name ∧ Stored log port fs name mem := by
  obtain ⟨fs₁, ok₁, new₁, hdel, hl₁, hfds, hlog₁, hdeleted⟩ := delete_access hl hw hlog hn
  obtain ⟨fs₂, ok₂, i, new₂, hcre, hlog₂, hcases⟩ := create_access hl₁ hw hlog name
  have hrun : createStream port fs name mem
      = some (fs₂, if ok₂ && mem then some ⟨i, false⟩ else none) := by
    rw [createStream, hdel]
    dsimp only [Option.bind_eq_bind, Option.bind_some]
    rw [hcre]
    rfl
  rw [hlog₁, List.append_assoc] at hlog₂
  have haccessed := accessed_eq hlog₂
  rw [creatable_congr hfds] at hcases
  constructor
  · rintro ⟨fs', f, hrun', hclean⟩
    cases hrun.symm.trans hrun'
    obtain ⟨hyes, io, rfl, hok⟩ | ⟨hno, rfl, rfl⟩ := hcases
    · -- a file is created, and so the stream is returned
      have hboth : (ok₂ && mem) = true := by
        by_contra hnull
        exact absurd ((hclean (if_neg hnull)).log_eq hlog₂) (by simp)
      obtain ⟨hok₂, hmem⟩ := Bool.and_eq_true_iff.mp hboth
      refine .inr ⟨hmem, hyes, fun fs' f hrun'' io' hio => ?_⟩
      cases hrun.symm.trans hrun''
      rw [haccessed, List.getLast?_concat] at hio
      obtain rfl := Option.some.inj hio
      exact hok.mp hok₂
    · have hnew := (hclean rfl).log_eq hlog₂
      rw [List.append_nil] at hnew
      have hkept := hdeleted hnew
      rw [vacated_of_not hkept] at hno
      exact .inl ⟨hkept, hno⟩
  · rintro (⟨hkept, hno⟩ | ⟨hmem, hyes, hstored⟩)
    · obtain ⟨e, hrefused⟩ := delete_refused hl hn hkept
      cases hdel.symm.trans hrefused
      obtain ⟨e₂, hfails⟩ : ∃ e₂, createFile port (setError fs e) name
          = some (setError (setError fs e) e₂, false, invalidFileHandle) := create_refused hl₁ hno
      cases hcre.symm.trans hfails
      exact ⟨_, _, hrun, fun _ => .setError log fs e₂⟩
    · obtain ⟨-, io, rfl, hok⟩ | ⟨hno, -⟩ := hcases
      · have hio := hstored _ _ hrun io (by rw [haccessed, List.getLast?_concat]; rfl)
        refine ⟨_, _, hrun, fun hnull => ?_⟩
        simp [hok.mpr hio, hmem] at hnull
      · exact absurd hyes hno

theorem fopen_failsafe_iff (hl : fs.lock = false) (hw : port.ioWrite = some w)
    (hlog : port.Logs log) (name : List UInt8) (mode : Mode) (mem : Bool) :
    Clean log fs (fopen port fs name mode mem) ↔ Failsafe log port fs name mem mode := by
  have hwrite : Clean log fs (createStream port fs name mem) ↔
      Failsafe log port fs name mem .w := by
    by_cases hn : jollyPos name < maxFilenameLength
    · rw [createStream_clean_iff hl hw hlog hn]
      exact (and_iff_right hn).symm
    · refine iff_of_false ?_ fun h => hn h.1
      -- the name does not fit the array that it is copied to
      rintro ⟨fs', f, hrun, -⟩
      rw [createStream, deleteFile, ffirst, if_pos (Nat.not_lt.mp hn)] at hrun
      cases hrun
  cases mode with
  | r => exact openStream_clean_iff hl name .read mem
  | rPlus => exact openStream_clean_iff hl name .write mem
  | w => exact hwrite
  | wPlus => exact hwrite

/-- **A call of `mipos_tfs_fopen` that fails**, between calls, with any driver, name and mode: it
has had no effect just if the mode has a character, and either is none of the four or no file is
opened without memory, or deleted or created in vain. -/
theorem fopen_clean_iff (hl : fs.lock = false) (hw : port.ioWrite = some w)
    (hlog : port.Logs log) (name mode : List UInt8) (mem : Bool) :
    Clean log fs (fopenStr port fs name mode mem) ↔
      cstr mode ≠ [] ∧ ∀ m, modeOf (cstr (strncpy mode 7)) = some m →
        Failsafe log port fs name mem m := by
  have hempty : (cstr (strncpy mode 7)).length = 0 ↔ cstr mode = [] := by
    rw [List.length_eq_zero_iff, cstr_strncpy, List.take_eq_nil_iff]
    simp
  rw [fopenStr]
  split
  · rename_i hzero
    refine iff_of_false ?_ fun h => h.1 (hempty.mp hzero)
    rintro ⟨fs', f, hrun, -⟩
    cases hrun
  · rename_i hsome
    rw [and_iff_right (mt hempty.mpr hsome)]
    cases hmode : modeOf (cstr (strncpy mode 7)) with
    | none =>
      refine iff_of_true ⟨fs, none, rfl, fun _ => ?_⟩ nofun
      exact .setError log fs fs.lastErrorCode
    | some m =>
      dsimp only
      rw [fopen_failsafe_iff hl hw hlog]
      exact ⟨fun h _ heq => Option.some.inj heq ▸ h, fun h => h m rfl⟩

/-- The file `a` is open already. -/
theorem fopen_clean_iff_busy : ∃ fs fs' : Fs ((ℕ → UInt8) × List Io),
    plainRun memPort.logged (fun _ => 0, []) [.createFile [97]] = some fs ∧
    fopenStr memPort.logged fs [97] [114] true = some (fs', none) ∧
    Clean Prod.snd fs (fopenStr memPort.logged fs [97] [114] true) := by
  have heval : ∃ fs, plainRun memPort.logged (fun _ => 0, []) [.createFile [97]] = some fs ∧
      fs.lock = false ∧ candidate fs [97] = none ∧
      ∃ fs', fopenStr memPort.logged fs [97] [114] true = some (fs', none) := by decide +kernel
  obtain ⟨fs, hrun, hl, hnone, fs', hfopen⟩ := heval
  refine ⟨fs, fs', hrun, hfopen,
    (fopen_clean_iff hl rfl memPort.logged_logs [97] [114] true).mpr ⟨by decide, fun m hm => ?_⟩⟩
  obtain rfl : Mode.r = m := Option.some.inj hm
  exact ⟨fun _ i hi => absurd (hnone.symm.trans hi) (by simp), fun _ => rfl⟩

/-- **Calls that fail and leave something behind.**  The file is called `a` and closed: with `a*`
and mode "w" it is deleted, and no file of that name is created; with mode "r" and no memory it
stays open; and with an empty mode a byte in front of the buffer is read. -/
theorem failed_fopen_deletes : ∃ fs : Fs ((ℕ → UInt8) × List Io),
    plainRun memPort.logged (fun _ => 0, []) [.createFile [97], .closeFile 0] = some fs ∧
    fs.ftbl.Live 0 ∧ (fs.fileCtl 0).isOpen = false ∧
    (∃ fs', fopenStr memPort.logged fs [97, 42] [119] true = some (fs', none) ∧
      ¬fs'.ftbl.Live 0) ∧
    ¬Clean Prod.snd fs (fopenStr memPort.logged fs [97, 42] [119] true) ∧
    (∃ fs', fopenStr memPort.logged fs [97] [114] false = some (fs', none) ∧
      (fs'.fileCtl 0).isOpen = true) ∧
    ¬Clean Prod.snd fs (fopenStr memPort.logged fs [97] [114] false) ∧
    fopenStr memPort.logged fs [97] [] true = none ∧
    ¬Clean Prod.snd fs (fopenStr memPort.logged fs [97] [] true) := by
  have heval :
      ∃ fs, plainRun memPort.logged (fun _ => 0, []) [.createFile [97], .closeFile 0] = some fs ∧
      fs.ftbl.Live 0 ∧ (fs.fileCtl 0).isOpen = false ∧
      (∃ fs₁, fopenStr memPort.logged fs [97, 42] [119] true = some (fs₁, none) ∧
        ¬(fs₁.ftbl.Live 0)) ∧
      ∃ fs₂, fopenStr memPort.logged fs [97] [114] false = some (fs₂, none) ∧
      (fs₂.fileCtl 0).isOpen = true := by decide +kernel
  obtain ⟨fs, hrun, hlive, hclosed, ⟨fs₁, hdeletes, hgone⟩, fs₂, hopens, hopen⟩ := heval
  refine ⟨fs, hrun, hlive, hclosed, ⟨fs₁, hdeletes, hgone⟩, ?_, ⟨fs₂, hopens, hopen⟩, ?_, rfl, ?_⟩
  · rintro ⟨fs', f, hres, hclean⟩
    cases hdeletes.symm.trans hres
    refine hgone ⟨hlive.1, ?_⟩
    rw [(hclean rfl).memory.fds]
    exact hlive.2
  · rintro ⟨fs', f, hres, hclean⟩
    cases hopens.symm.trans hres
    rw [(hclean rfl).memory.ctl, hclosed] at hopen
    cases hopen
  · rintro ⟨fs', f, hres, -⟩
    cases hres

end Stdio
