/-
Directory operations that fail.

`mipos_tfs_create_file`, `mipos_tfs_delete_file` and `mipos_tfs_rename_file` change the memory
first and store the table on the device last.  Up to there they return `FALSE` with the memory
as it was; when the driver does not take the table they return `FALSE` as well, and nothing is
undone.

* `directory_cases` — such a call returns early, or ends with storing a table that it has
  changed;
* `directory_atomic_iff` — a call that returns `FALSE` has changed nothing just if the driver
  did not fail, or if it was a rename that writes the bytes that were there;
* `failed_directory_calls` — a failing driver, for all three.
-/
import Mipos.TfsDeviceErrors

namespace Tfs

open Function Relation

variable {δ : Type} {port : Port δ} {fs fs' fs₁ : Fs δ} {call : Call} {ok : Bool}

/-- The descriptors, the cluster table and the control entries are as they were. -/
structure SameMemory (fs fs' : Fs δ) : Prop where
  fds : fs'.ftbl.fileFsDesc = fs.ftbl.fileFsDesc
  clusters : fs'.ftbl.clusterTbl = fs.ftbl.clusterTbl
  ctl : fs'.fileCtl = fs.fileCtl

def Call.OnDirectory : Call → Prop
  | .createFile _ | .deleteFile _ | .renameFile _ _ => True
  | _ => False

/-- The first descriptor after a rename of the file in slot `h`. -/
def renamedFd (fd : Fd) (h : ℕ) (newName : List UInt8) : Fd :=
  Fd.ofBytes (fd.bytes.take h ++ overwrite (fd.bytes.drop h) (strncpy newName maxFilenameLength))

/-- A rename that writes the bytes that are there already. -/
def Call.Idle (fs : Fs δ) : Call → Prop
  | .renameFile name newName => ∃ fs₁ h, ffirst fs name = some (fs₁, some h) ∧
      renamedFd (fs.ftbl.fileFsDesc 0) h newName = fs.ftbl.fileFsDesc 0
  | _ => False

section

variable (hl : fs.lock = false)

include hl in
/-- **How a directory call ends**: early, with nothing changed, or with what `mipos_tfs_ftbl_t`
is then being stored. -/
theorem directory_cases (hdir : call.OnDirectory) (hexec : call.exec port fs = some (fs', ok)) :
    (ok = false ∧ ∃ e, fs' = setError fs e) ∨
      ∃ fs₁ ret, updateFsOnDisk port fs₁ = some (fs', ret) ∧ ok = decide (ret = 0) ∧
        fs₁.dev = fs.dev ∧ (SameMemory fs fs₁ ↔ call.Idle fs) := by
  cases call with
  | createFile name =>
    obtain ⟨⟨fs₂, ok', i⟩, hrun, heq⟩ := Option.map_eq_some_iff.mp hexec
    cases heq
    rcases createFile_spec hl hrun with hfail | ⟨-, herased, e, ret, hstore, hok⟩
    · exact .inl hfail
    · refine .inr ⟨_, ret, hstore, hok, rfl, fun hsame => herased ?_, False.elim⟩
      -- the slot is in use now
      have hslot := congrArg Fd.erased (congrFun hsame.fds i)
      simpa [created] using hslot.symm
  | deleteFile name =>
    rcases deleteFile_spec hl hexec with hfail | ⟨i, e, fs₁, ret, -, hlive, hloop, hstore, hok⟩
    · exact .inl hfail
    · have hl₁ : (erased (setError fs e) i).lock = false := hl
      obtain ⟨tbl, rfl⟩ := deleteLoop_some hl₁ hloop
      refine .inr ⟨_, ret, hstore, hok, rfl, fun hsame => ?_, False.elim⟩
      -- the slot is not in use any more
      have hslot := congrArg Fd.erased (congrFun hsame.fds i)
      simp [erased, hlive.2] at hslot
  | renameFile name newName =>
    rcases renameFile_spec hl hexec with hfail | ⟨h, e, ret, -, hfound, hstore, hok⟩
    · exact .inl hfail
    · refine .inr ⟨_, ret, hstore, hok, rfl, fun hsame => ⟨_, h, hfound, ?_⟩, ?_⟩
      · have hfd := congrFun hsame.fds 0
        rwa [setFd_fileFsDesc, update_self] at hfd
      · rintro ⟨fs₂, k, hfound', hself⟩
        rw [hfound] at hfound'
        cases hfound'
        refine ⟨?_, rfl, rfl⟩
        exact (congrArg (update fs.ftbl.fileFsDesc 0) hself).trans
          (update_eq_self 0 _)
  | _ => cases hdir

/-- Storing the table is one access to the device. -/
theorem updateFsOnDisk_logs {log : δ → List Io} (hlog : port.Logs log) {ret : ℤ}
    (hstore : updateFsOnDisk port fs₁ = some (fs', ret)) (hdev : fs₁.dev = fs.dev) :
    accessed log fs fs' = [⟨true, tfsOffset, fs₁.ftbl.bytes.length, ret⟩] := by
  obtain ⟨w, hw, hstore⟩ := Option.bind_eq_some_iff.mp hstore
  cases hstore
  rw [accessed, hlog.write w hw, hdev]
  exact List.drop_left

include hl in
/-- **Directory operations that return `FALSE`**, for every state of the table and every driver:
the memory is as it was just if the driver has not failed, a rename that changes no byte
apart. -/
theorem directory_atomic_iff {log : δ → List Io} (hlog : port.Logs log)
    (hdir : call.OnDirectory) (hexec : call.exec port fs = some (fs', ok)) :
    (ok = false → SameMemory fs fs') ↔
      (∀ io ∈ accessed log fs fs', ¬io.Failed) ∨ call.Idle fs := by
  rcases directory_cases hl hdir hexec with ⟨-, e, rfl⟩ | ⟨fs₁, ret, hstore, rfl, hdev, hsame⟩
  · have hnone : accessed log fs (setError fs e) = [] := List.drop_length
    rw [hnone]
    exact ⟨fun _ => .inl fun io hio => absurd hio List.not_mem_nil, fun _ _ => ⟨rfl, rfl, rfl⟩⟩
  · have hio := updateFsOnDisk_logs hlog hstore hdev
    obtain ⟨dev, rfl⟩ := updateFsOnDisk_some hstore
    have hfailed : (∀ io ∈ accessed log fs (setDev fs₁ dev), ¬io.Failed) ↔ ret = 0 := by
      rw [hio]
      simp [Io.Failed]
    have hmem : SameMemory fs (setDev fs₁ dev) ↔ call.Idle fs := by
      rw [← hsame]
      exact ⟨fun h => ⟨h.fds, h.clusters, h.ctl⟩, fun h => ⟨h.fds, h.clusters, h.ctl⟩⟩
    rw [hfailed, hmem, decide_eq_false_iff_not]
    exact or_iff_not_imp_left.symm

end

/-- There is such a file already, and the driver is not asked. -/
theorem directory_atomic_iff_present : ∃ fs₁ fs fs' : Fs ((ℕ → UInt8) × List Io),
    mkfs memPort.logged (blankFs (fun _ => 0, [])) none = some (fs₁, true) ∧
    ReflTransGen (CallStep memPort.logged Call.RenamesFirst) fs₁ fs ∧
    (Call.createFile [97]).exec brokenPort.logged fs = some (fs', false) ∧
    accessed Prod.snd fs fs' = [] ∧ SameMemory fs fs' := by
  have heval : ∃ fs, plainRun memPort.logged (fun _ => 0, []) [.createFile [97]] = some fs ∧
      fs.lock = false ∧
      ∃ fs', (Call.createFile [97]).exec brokenPort.logged fs = some (fs', false) ∧
        accessed Prod.snd fs fs' = [] := by decide +kernel
  obtain ⟨fs, hcalls, hl, fs', hexec, hnone⟩ := heval
  obtain ⟨fs₁, hmkfs, hrun⟩ := run_of_plainRun hcalls
  have hdir : (Call.createFile [97]).OnDirectory := trivial
  refine ⟨fs₁, fs, fs', hmkfs, hrun, hexec, hnone, ?_⟩
  refine (directory_atomic_iff hl brokenPort.logged_logs hdir hexec).mpr (.inl ?_) rfl
  rw [hnone]
  exact fun io hio => absurd hio List.not_mem_nil

/-- **The driver does not take the table.**  All three calls return `FALSE`, and what they have
done to the memory stays. -/
theorem failed_directory_calls : ∃ fs₁ fs : Fs ((ℕ → UInt8) × List Io),
    mkfs memPort.logged (blankFs (fun _ => 0, [])) none = some (fs₁, true) ∧
    ReflTransGen (CallStep memPort.logged Call.RenamesFirst) fs₁ fs ∧
    (∃ fs', createFile brokenPort.logged fs [98] = some (fs', false, 1) ∧
      (fs.ftbl.fileFsDesc 1).erased = 1 ∧ (fs'.ftbl.fileFsDesc 1).erased = 0 ∧
      (fs'.fileCtl 1).isOpen = true ∧ ¬SameMemory fs fs') ∧
    (∃ fs', deleteFile brokenPort.logged fs (some [97]) = some (fs', false) ∧
      (fs.ftbl.fileFsDesc 0).erased = 0 ∧ (fs'.ftbl.fileFsDesc 0).erased = 1 ∧
      (fs'.fileCtl 0).locked = true ∧ ¬SameMemory fs fs') ∧
    ∃ fs', renameFile brokenPort.logged fs (some [97]) [98] = some (fs', false) ∧
      cstr (fs.ftbl.fileFsDesc 0).filename = [97] ∧
      cstr (fs'.ftbl.fileFsDesc 0).filename = [98] ∧ ¬SameMemory fs fs' := by
  have heval : ∃ fs, plainRun memPort.logged (fun _ => 0, [])
        [.createFile [97], .writeFile [1, 2, 3] 0] = some fs ∧ (fs.ftbl.fileFsDesc 1).erased = 1 ∧
      (∃ fs₂, createFile brokenPort.logged fs [98] = some (fs₂, false, 1) ∧
        (fs₂.ftbl.fileFsDesc 1).erased = 0 ∧ (fs₂.fileCtl 1).isOpen = true) ∧
      (fs.ftbl.fileFsDesc 0).erased = 0 ∧
      (∃ fs₃, deleteFile brokenPort.logged fs (some [97]) = some (fs₃, false) ∧
        (fs₃.ftbl.fileFsDesc 0).erased = 1 ∧ (fs₃.fileCtl 0).locked = true) ∧
      cstr (fs.ftbl.fileFsDesc 0).filename = [97] ∧
      ∃ fs₄, renameFile brokenPort.logged fs (some [97]) [98] = some (fs₄, false) ∧
      cstr (fs₄.ftbl.fileFsDesc 0).filename = [98] := by decide +kernel
  obtain ⟨fs, hcalls, hunused, ⟨fs₂, hcreate, hused, hopen⟩, hlive, ⟨fs₃, hdelete, hgone, hlocked⟩,
    hold, fs₄, hrename, hnew⟩ := heval
  obtain ⟨fs₁, hmkfs, hrun⟩ := run_of_plainRun hcalls
  refine ⟨fs₁, fs, hmkfs, hrun, ⟨fs₂, hcreate, hunused, hused, hopen, fun hsame => ?_⟩,
    ⟨fs₃, hdelete, hlive, hgone, hlocked, fun hsame => ?_⟩,
    fs₄, hrename, hold, hnew, fun hsame => ?_⟩
  · rw [hsame.fds, hunused] at hused
    exact absurd hused (by decide)
  · rw [hsame.fds, hlive] at hgone
    exact absurd hgone (by decide)
  · rw [hsame.fds, hold] at hnew
    exact absurd hnew (by decide)

end Tfs
