/-
What calls on open files do not look at.

Reading, writing and seeking do not depend on the error code that earlier calls have left,
nor on the names of the files.

* `masked` — the state with another error code and other names;
* `Alike` — two results that differ in these only, with a rule for `bind`;
* `alike_writeFile`, `alike_readFile`, `alike_seekFile` — the calls.
-/
import Mipos.TfsCalls

namespace Tfs

variable {δ α β : Type} {port : Port δ} {names : ℕ → List UInt8}

/-- Another error code, and other file names. -/
def masked (fs : Fs δ) (e : ErrCode) (names : ℕ → List UInt8) : Fs δ :=
  { fs with
    ftbl := { fs.ftbl with
      fileFsDesc := fun i => { fs.ftbl.fileFsDesc i with filename := names i } }
    lastErrorCode := e }

theorem masked_lock (fs : Fs δ) (e : ErrCode) : (masked fs e names).lock = fs.lock := rfl

theorem masked_fileCtl (fs : Fs δ) (e : ErrCode) : (masked fs e names).fileCtl = fs.fileCtl := rfl

theorem masked_self (fs : Fs δ) (e : ErrCode) :
    masked fs e (fun i => (fs.ftbl.fileFsDesc i).filename) = setError fs e := rfl

theorem setFd_masked (fs : Fs δ) (e : ErrCode) (h : ℕ) (fd : Fd) :
    setFd (masked fs e names) h { fd with filename := names h } = masked (setFd fs h fd) e names := by
  have hupdate : Function.update (masked fs e names).ftbl.fileFsDesc h
      { fd with filename := names h } = (masked (setFd fs h fd) e names).ftbl.fileFsDesc := by
    funext i
    rcases eq_or_ne i h with rfl | hne
    · simp [masked]
    · simp [masked, hne]
  rw [setFd, hupdate]
  rfl

/-- The same result, in states that differ in the error code and the file names only. -/
def Alike (names : ℕ → List UInt8) (r r' : Option (Fs δ × α)) : Prop :=
  ∃ e, r' = r.map fun x => (masked x.1 e names, x.2)

theorem alike_some (fs : Fs δ) (e : ErrCode) (a : α) :
    Alike names (some (fs, a)) (some (masked fs e names, a)) := ⟨e, rfl⟩

theorem alike_none : Alike names (none : Option (Fs δ × α)) none := ⟨.success, rfl⟩

/-- One descriptor is set, but for its name. -/
theorem alike_setFd {k : Fs δ → Option (Fs δ × α)}
    (hk : ∀ fs e, Alike names (k fs) (k (masked fs e names))) (fs : Fs δ) (e : ErrCode) (h : ℕ)
    (fd : Fd) : Alike names (k (setFd fs h fd))
      (k (setFd (masked fs e names) h { fd with filename := names h })) := by
  rw [setFd_masked]
  exact hk (setFd fs h fd) e

theorem Alike.bind {r r' : Option (Fs δ × α)} {k : Fs δ × α → Option (Fs δ × β)}
    (hr : Alike names r r') (hk : ∀ fs e a, Alike names (k (fs, a)) (k (masked fs e names, a))) :
    Alike names (r.bind k) (r'.bind k) := by
  obtain ⟨e, rfl⟩ := hr
  cases r with
  | none => exact alike_none
  | some x => exact hk x.1 e x.2

theorem alike_withAccess {body : Fs δ → Option (Fs δ × α)}
    (hbody : ∀ fs e, Alike names (body fs) (body (masked fs e names))) (fs : Fs δ) (e : ErrCode) :
    Alike names (withAccess fs body) (withAccess (masked fs e names) body) := by
  rw [withAccess, withAccess, lockAccess, lockAccess, masked_lock]
  split_ifs
  · exact alike_none
  · exact (hbody { fs with lock := true } e).bind fun fs e a => alike_some (unlockAccess fs) e a

theorem alike_setClusterVal {c v : ℕ} {k : Fs δ → Option (Fs δ × α)}
    (hk : ∀ fs e, Alike names (k fs) (k (masked fs e names))) (fs : Fs δ) (e : ErrCode) :
    Alike names ((setClusterVal fs c v).bind k) ((setClusterVal (masked fs e names) c v).bind k) := by
  rw [setClusterVal, setClusterVal, Option.bind_eq_bind, Option.bind_assoc, Option.bind_assoc]
  refine (alike_withAccess (fun fs e => ?_) fs e).bind fun fs e _ => hk fs e
  split_ifs
  · exact alike_some (setCluster fs c v) e ()
  · exact alike_none

theorem alike_getNextCluster (fs : Fs δ) (e : ErrCode) (c : ℕ) :
    Alike names (getNextCluster fs c) (getNextCluster (masked fs e names) c) := by
  rw [getNextCluster, getNextCluster]
  split_ifs
  · exact alike_some fs e none
  · refine (alike_withAccess (fun fs e => ?_) fs e).bind fun fs e v => alike_some fs e _
    split_ifs
    · exact alike_some fs e _
    · exact alike_none

theorem alike_reserveCluster (fs : Fs δ) (e : ErrCode) :
    Alike names (reserveCluster fs) (reserveCluster (masked fs e names)) := by
  refine alike_withAccess (fun fs e => ?_) fs e
  have hsame : (masked fs e names).ftbl.clusterTbl = fs.ftbl.clusterTbl := rfl
  rw [hsame]
  cases (List.range clustersCount).find? fun i => decide (fs.ftbl.clusterTbl i = freeCluster) with
  | none => exact alike_some fs e none
  | some x => exact alike_some (setCluster fs x reservedCluster) e (some x)

theorem alike_linkCluster (fs : Fs δ) (e : ErrCode) (c d : ℕ) :
    Alike names (linkCluster fs c d) (linkCluster (masked fs e names) c d) := by
  rw [linkCluster, linkCluster]
  split_ifs
  · exact alike_some fs e false
  · exact alike_setClusterVal (fun fs e => alike_some fs e true) fs e

theorem alike_clusterWalk (fs : Fs δ) (e : ErrCode) (left c : ℕ) :
    Alike names (clusterWalk fs left c) (clusterWalk (masked fs e names) left c) := by
  induction left generalizing fs e c with
  | zero => exact alike_some fs e _
  | succ left ih =>
    rw [clusterWalk, clusterWalk]
    refine (alike_getNextCluster fs e c).bind fun fs e next => ?_
    cases next with
    | none => exact alike_some fs e _
    | some d => exact ih fs e d

theorem alike_writeCluster (fs : Fs δ) (e : ErrCode) (c off n : ℕ) (src : List UInt8) :
    Alike names (writeCluster port fs c off src n)
      (writeCluster port (masked fs e names) c off src n) := by
  refine alike_withAccess (fun fs e => ?_) fs e
  dsimp only
  split_ifs
  · exact alike_some fs e (0, 0)
  · cases port.ioWrite with
    | none => exact alike_none
    | some w => exact alike_some (setDev fs _) e _

theorem alike_readCluster (fs : Fs δ) (e : ErrCode) (c off n : ℕ) :
    Alike names (readCluster port fs c off n) (readCluster port (masked fs e names) c off n) := by
  refine alike_withAccess (fun fs e => ?_) fs e
  dsimp only
  split_ifs
  · exact alike_some fs e (0, 0, [])
  · cases port.ioRead with
    | none => exact alike_none
    | some r => exact alike_some (setDev fs _) e _

theorem alike_advance (fs : Fs δ) (e : ErrCode) (h t : ℕ) :
    Alike names (withAccess fs fun fs => some (advance fs h t, ()))
      (withAccess (masked fs e names) fun fs => some (advance fs h t, ())) :=
  alike_withAccess (fun fs e => alike_some (advance fs h t) e ()) fs e

/-- The end of `nextForWrite`: without a next cluster, this one is the last. -/
theorem alike_markLast (c : ℕ) (fs : Fs δ) (e : ErrCode) (next : Option ℕ) : Alike names
    (match next with
      | none => (markClusterLast fs c).bind fun fs => some (fs, none)
      | some d => some (fs, some d))
    (match next with
      | none => (markClusterLast (masked fs e names) c).bind fun fs => some (fs, none)
      | some d => some (masked fs e names, some d)) := by
  cases next with
  | none => exact alike_setClusterVal (fun fs e => alike_some fs e none) fs e
  | some d => exact alike_some fs e (some d)

theorem alike_nextForWrite (fs : Fs δ) (e : ErrCode) (grown : Bool) (c : ℕ) :
    Alike names (nextForWrite fs grown c) (nextForWrite (masked fs e names) grown c) := by
  rw [nextForWrite, nextForWrite]
  split_ifs
  · exact (alike_reserveCluster fs e).bind (alike_markLast c)
  · exact (alike_getNextCluster fs e c).bind (alike_markLast c)

theorem alike_writeLoop (fs : Fs δ) (e : ErrCode) (h fuel c off n : ℕ) (src : List UInt8) :
    Alike names (writeLoop port h fuel fs c off src n)
      (writeLoop port h fuel (masked fs e names) c off src n) := by
  -- the induction follows the rounds
  induction fuel generalizing fs e c off n src with
  | zero => exact alike_none
  | succ fuel ih =>
    rw [writeLoop, writeLoop]
    refine (alike_writeCluster fs e c off n src).bind fun fs e r =>
      (alike_advance fs e h r.2).bind fun fs e _ => ?_
    dsimp only
    by_cases hdone : n - r.2 = 0
    · rw [if_pos hdone, if_pos hdone]
      by_cases hpast : (fs.fileCtl h).seekPointer > (fs.ftbl.fileFsDesc h).size
      · rw [if_pos hpast, if_pos (by exact hpast)]
        exact alike_setFd (fun fs e => alike_setClusterVal (fun fs e => alike_some fs e _) fs e)
          fs e h _
      · rw [if_neg hpast, if_neg (by exact hpast)]
        exact alike_some fs e _
    · rw [if_neg hdone, if_neg hdone]
      refine (alike_nextForWrite fs e _ c).bind fun fs e next => ?_
      cases next with
      | none => exact alike_some fs e _
      | some d =>
        dsimp only
        split
        · exact alike_some fs e _
        · exact (alike_linkCluster fs e c d).bind fun fs e _ => ih fs e _ _ _ _

theorem alike_writeStart (fs : Fs δ) (e : ErrCode) (fd : Fd) (name : List UInt8) (ctl : Ctl) :
    Alike names (writeStart fs fd ctl)
      (writeStart (masked fs e names) { fd with filename := name } ctl) := by
  rw [writeStart, writeStart]
  dsimp only
  split_ifs
  · refine (alike_clusterWalk fs e _ _).bind fun fs e r => ?_
    dsimp only
    split
    · exact alike_some fs e none
    · refine (alike_reserveCluster fs e).bind fun fs e first => ?_
      cases first with
      | none => exact alike_some fs e none
      | some d => exact (alike_linkCluster fs e _ d).bind fun fs e _ => alike_some fs e _
  · exact alike_reserveCluster fs e
  · exact (alike_clusterWalk fs e _ _).bind fun fs e _ => alike_some fs e _

theorem alike_readLoop (fs : Fs δ) (e : ErrCode) (h total fuel c off got n : ℕ) :
    Alike names (readLoop port h total fuel fs c off got n)
      (readLoop port h total fuel (masked fs e names) c off got n) := by
  induction fuel generalizing fs e c off got n with
  | zero => exact alike_none
  | succ fuel ih =>
    rw [readLoop, readLoop]
    refine (alike_readCluster fs e c off n).bind fun fs e r => ?_
    dsimp only
    split_ifs
    · exact alike_some (setError fs .readNotCompleted) .readNotCompleted _
    · exact (alike_advance fs e h r.2.1).bind fun fs e _ => alike_some fs e _
    · refine (alike_advance fs e h r.2.1).bind fun fs e _ =>
        (alike_getNextCluster fs e c).bind fun fs e next => ?_
      cases next with
      | none => exact alike_some (setError fs .readNotCompleted) .readNotCompleted _
      | some d => exact (ih fs e d 0 _ _).bind fun fs e _ => alike_some fs e _

theorem alike_noteEof {h : ℕ} {atEnd : Bool} {k : Fs δ → Option (Fs δ × α)}
    (hk : ∀ fs e, Alike names (k fs) (k (masked fs e names))) (fs : Fs δ) (e : ErrCode) :
    Alike names ((noteEof fs h atEnd).bind k) ((noteEof (masked fs e names) h atEnd).bind k) := by
  rw [noteEof, noteEof]
  split_ifs
  · rw [Option.bind_eq_bind, Option.bind_assoc, Option.bind_assoc]
    refine (alike_withAccess (fun fs e => ?_) fs e).bind fun fs e _ => hk fs e
    exact alike_some (setCtl fs h _) e ()
  · exact hk fs e

theorem lockFile_masked (fs : Fs δ) (e : ErrCode) (h : ℕ) :
    lockFile (masked fs e names) h = (masked (lockFile fs h).1 e names, (lockFile fs h).2) := by
  rw [lockFile, lockFile, masked_fileCtl]
  split_ifs <;> rfl

theorem unlockFile_masked (fs : Fs δ) (e : ErrCode) (h : ℕ) :
    (unlockFile (masked fs e names) h).1 = masked (unlockFile fs h).1 e names := by
  rw [unlockFile, unlockFile, masked_fileCtl]
  split_ifs <;> rfl

/-- The lock of the file is given back. -/
theorem alike_unlockFile (fs : Fs δ) (e : ErrCode) (h : ℕ) (a : α) :
    Alike names (some ((unlockFile fs h).1, a)) (some ((unlockFile (masked fs e names) h).1, a)) := by
  rw [unlockFile_masked]
  exact alike_some _ e a

/-- An exception handler sets the code itself. -/
theorem alike_handler (fs : Fs δ) (e e' : ErrCode) (h : ℕ) (a : α) :
    Alike names (some ((unlockFile (setError fs e') h).1, a))
      (some ((unlockFile (setError (masked fs e names) e') h).1, a)) :=
  alike_unlockFile (setError fs e') e' h a

/-- The descriptor that a call gets, with another name. -/
theorem alike_getFdCtl {h : ℕ} {k : Fs δ × Fd × Ctl → Option (Fs δ × α)}
    (hk : ∀ fs e fd ctl, Alike names (k (fs, fd, ctl))
      (k (masked fs e names, { fd with filename := names h }, ctl))) (fs : Fs δ) (e : ErrCode) :
    Alike names ((getFdCtl fs h).bind k) ((getFdCtl (masked fs e names) h).bind k) := by
  by_cases hl : fs.lock = true
  · have hnone : ∀ fs : Fs δ, fs.lock = true → getFdCtl fs h = none := by
      intro fs hl
      rw [getFdCtl, withAccess, lockAccess, if_pos hl]
      rfl
    rw [hnone fs hl, hnone (masked fs e names) hl]
    exact alike_none
  · have hl' := eq_false_of_ne_true hl
    rw [getFdCtl_eq hl', getFdCtl_eq (by exact hl')]
    exact hk fs e _ _

theorem alike_writeFile (port : Port δ) (fs : Fs δ) (e : ErrCode) (src : List UInt8) (n h : ℕ) :
    Alike names (writeFile port fs src n h) (writeFile port (masked fs e names) src n h) := by
  rw [writeFile, writeFile, lockFile_masked]
  rcases lockFile fs h with ⟨fs, ok⟩
  cases ok with
  | false => exact alike_handler fs e _ h _
  | true =>
    refine alike_getFdCtl (fun fs e fd ctl => ?_) fs e
    dsimp only
    split
    · exact alike_handler fs e _ h _
    · split
      · exact alike_handler fs e _ h _
      · refine (alike_writeStart fs e fd _ ctl).bind fun fs e first => ?_
        cases first with
        | none => exact alike_handler fs e _ h _
        | some c =>
          refine (alike_writeLoop fs e h _ c _ n src).bind fun fs e r => ?_
          dsimp only
          split
          · exact alike_unlockFile fs e h _
          · refine (alike_withAccess (fun fs e => ?_) fs e).bind fun fs e _ =>
              alike_unlockFile fs e h _
            by_cases hfirst : (fs.ftbl.fileFsDesc h).firstCluster ≥ clustersCount
            · rw [if_pos hfirst, if_pos (by exact hfirst)]
              exact alike_setFd (fun fs e => alike_some fs e ()) fs e h _
            · rw [if_neg hfirst, if_neg (by exact hfirst)]
              exact alike_some fs e ()

theorem alike_readFile (port : Port δ) (fs : Fs δ) (e : ErrCode) (n h : ℕ) :
    Alike names (readFile port fs n h) (readFile port (masked fs e names) n h) := by
  rw [readFile, readFile, lockFile_masked]
  rcases lockFile fs h with ⟨fs, ok⟩
  cases ok with
  | false => exact alike_handler fs e _ h _
  | true =>
    refine alike_getFdCtl (fun fs e fd ctl => ?_) fs e
    dsimp only
    split
    · exact alike_handler fs e _ h _
    · refine (alike_clusterWalk fs e _ _).bind fun fs e s => ?_
      dsimp only
      split
      · exact alike_handler fs e _ h _
      · refine alike_noteEof (fun fs e => ?_) fs e
        exact (alike_readLoop fs e h _ _ _ _ _ _).bind fun fs e r => alike_unlockFile fs e h _

/-- A read delivers the same. -/
theorem readFile_masked (port : Port δ) (fs : Fs δ) (e : ErrCode) (n h : ℕ) :
    (readFile port (masked fs e names) n h).map Prod.snd = (readFile port fs n h).map Prod.snd := by
  obtain ⟨e', halike⟩ : Alike names _ _ := alike_readFile port fs e n h
  rw [halike, Option.map_map]
  rfl

theorem alike_seekFile (fs : Fs δ) (e : ErrCode) (code : SeekCode) (pos : ℤ) (h : ℕ) :
    Alike names (seekFile fs code pos h) (seekFile (masked fs e names) code pos h) := by
  rw [seekFile, seekFile, lockFile_masked]
  rcases lockFile fs h with ⟨fs, ok⟩
  cases ok with
  | false => exact alike_some (setError fs .seekFailed) .seekFailed _
  | true =>
    refine alike_getFdCtl (fun fs e fd ctl => ?_) fs e
    dsimp only
    split
    · rename_i htarget
      rw [htarget]
      exact alike_handler fs e _ h _
    · rename_i p htarget
      rw [htarget]
      refine (alike_withAccess (fun fs e => ?_) fs e).bind fun fs e _ => alike_unlockFile fs e h _
      exact alike_some (setCtl fs h _) e ()

end Tfs
