/-
The locks of the files, and who gives them back.

Several tasks read, write, seek and delete the same files.  A call takes the lock of
its file first and fails when it does not get it; seek and delete leave the lock alone
then, but the exception handlers of read and write unlock the file whether or not the
call has locked it.
* `two_holders` — a refused read unlocks the file under a writer that waits inside
  `reserve_cluster`, and the next call gets the lock as well;
* `file_lock_exclusive` — if no read or write starts on a locked file, a lock has at most
  one holder, only the holder gives it back, and a refused call fails and changes no lock.

The locks change in `mipos_tfs_lock_file` and `mipos_tfs_unlock_file` only; all the other
code is `Neutral`.
-/
import Mipos.TfsTasks
import Mipos.TfsRuns

namespace Tfs

open Coroutine Function Relation

variable {δ ι α : Type}

/-! ### Code that leaves the locks alone -/

/-- No lock of a file changes. -/
def SameLocks (fs fs' : Fs δ) : Prop := ∀ k, (fs'.fileCtl k).locked = (fs.fileCtl k).locked

/-- Neither the locks change nor where the calls stand with them. -/
def Neutral (x x' : Shared δ ι) : Prop := SameLocks x.fs x'.fs ∧ x'.phase = x.phase

theorem sameLocks_of_fileCtl {fs fs' : Fs δ} (h : fs'.fileCtl = fs.fileCtl) : SameLocks fs fs' :=
  fun _ => by rw [h]

theorem sameLocks_setCtl (fs : Fs δ) (h : ℕ) {ctl : Ctl}
    (hctl : ctl.locked = (fs.fileCtl h).locked) : SameLocks fs (setCtl fs h ctl) := by
  intro k
  rcases eq_or_ne k h with rfl | hk
  · simp [hctl]
  · simp [hk]

theorem sameLocks_withAccess {fs fs' : Fs δ} {body : Fs δ → Option (Fs δ × α)} {a : α}
    (hbody : ∀ fs fs' a, body fs = some (fs', a) → SameLocks fs fs')
    (hrun : withAccess fs body = some (fs', a)) : SameLocks fs fs' := by
  obtain ⟨fs₁, h₁, rfl⟩ := withAccess_some hrun
  exact fun k => hbody _ _ _ h₁ k

section Neutral

variable {f : Fs δ → Option (Fs δ × α)}

theorem neutral_atomic (hf : ∀ fs fs' a, f fs = some (fs', a) → SameLocks fs fs') :
    (Task.atomic f : Task.Op δ ι α).All Neutral := by
  refine all_atomic fun x x' a hrun => ?_
  obtain ⟨⟨fs', b⟩, hfs, heq⟩ := Option.map_eq_some_iff.mp hrun
  cases heq
  exact ⟨hf x.fs fs' b hfs, rfl⟩

theorem neutral_access (hf : ∀ fs fs' a, f fs = some (fs', a) → SameLocks fs fs') :
    (Task.access f : Task.Op δ ι α).All Neutral := neutral_atomic hf

theorem neutral_withAccess {body : Fs δ → Option (Fs δ × α)}
    (hbody : ∀ fs fs' a, body fs = some (fs', a) → SameLocks fs fs') :
    (Task.access fun fs => withAccess fs body : Task.Op δ ι α).All Neutral :=
  neutral_access fun _ _ _ => sameLocks_withAccess hbody

theorem neutral_setError (e : ErrCode) : (Task.setError e : Task.Op δ ι Unit).All Neutral := by
  refine neutral_atomic fun fs fs' a hrun => ?_
  cases hrun
  exact sameLocks_of_fileCtl rfl

theorem sameLocks_setClusterVal {fs fs' : Fs δ} {c v : ℕ}
    (hrun : Tfs.setClusterVal fs c v = some fs') : SameLocks fs fs' := by
  obtain ⟨⟨fs₁, u⟩, h₁, heq⟩ := Option.bind_eq_some_iff.mp hrun
  cases heq
  refine sameLocks_withAccess (fun fs fs' u hbody => ?_) h₁
  split at hbody
  · cases hbody
    exact sameLocks_of_fileCtl rfl
  · cases hbody

theorem neutral_setClusterVal (c v : ℕ) :
    (Task.setClusterVal c v : Task.Op δ ι Unit).All Neutral := by
  refine neutral_access fun fs fs' a hrun => ?_
  obtain ⟨fs₁, h₁, heq⟩ := Option.map_eq_some_iff.mp hrun
  cases heq
  exact sameLocks_setClusterVal h₁

theorem neutral_markClusterFree (c : ℕ) :
    (Task.markClusterFree c : Task.Op δ ι Unit).All Neutral := by
  refine all_atomic fun x x' a hrun => ?_
  obtain ⟨fs₁, h₁, heq⟩ := Option.map_eq_some_iff.mp hrun
  cases heq
  exact ⟨sameLocks_setClusterVal h₁, rfl⟩

theorem neutral_getNextCluster (c : ℕ) :
    (Task.getNextCluster c : Task.Op δ ι (Option ℕ)).All Neutral := by
  rw [Task.getNextCluster]
  split
  · exact all_pure _
  · refine Prog.All.bind (neutral_withAccess fun fs fs' a hbody => ?_) fun _ => all_pure _
    split at hbody
    · cases hbody
      exact sameLocks_of_fileCtl rfl
    · cases hbody

theorem neutral_linkCluster (c d : ℕ) :
    (Task.linkCluster c d : Task.Op δ ι Bool).All Neutral := by
  rw [Task.linkCluster]
  split
  · exact all_pure _
  · exact Prog.All.bind (neutral_setClusterVal c d) fun _ => all_pure _

theorem neutral_unlockAccess :
    (Task.atomic fun fs => some (unlockAccess fs, ()) : Task.Op δ ι Unit).All Neutral := by
  refine neutral_atomic fun fs fs' a hrun => ?_
  cases hrun
  exact sameLocks_of_fileCtl rfl

theorem neutral_reserveLoop (h : ℕ) (l : List ℕ) :
    (Task.reserveLoop h l : Task.Op δ ι (Option ℕ)).All Neutral := by
  induction l with
  | nil => exact Prog.All.bind neutral_unlockAccess fun _ => all_pure _
  | cons i is ih =>
    refine Prog.All.bind (all_atomic fun x x' a hrun => ?_) fun taken => ?_
    · split at hrun
      · cases hrun
        exact ⟨sameLocks_of_fileCtl rfl, rfl⟩
      · cases hrun
        exact ⟨sameLocks_of_fileCtl rfl, rfl⟩
    · cases taken with
      | true => exact Prog.All.bind neutral_unlockAccess fun _ => all_pure _
      | false => exact ih

theorem neutral_reserveCluster (h : ℕ) :
    (Task.reserveCluster h : Task.Op δ ι (Option ℕ)).All Neutral := by
  refine Prog.All.bind (neutral_atomic fun fs fs' a hrun => ?_) fun _ =>
    neutral_reserveLoop h (List.range clustersCount)
  obtain ⟨fs₁, h₁, heq⟩ := Option.map_eq_some_iff.mp hrun
  cases heq
  rw [lockAccess] at h₁
  split at h₁
  · cases h₁
  · cases h₁
    exact sameLocks_of_fileCtl rfl

theorem neutral_clusterWalk (left c : ℕ) :
    (Task.clusterWalk left c : Task.Op δ ι (Bool × ℕ)).All Neutral := by
  induction left generalizing c with
  | zero => exact all_pure _
  | succ left ih =>
    refine Prog.All.bind (neutral_getNextCluster c) fun next => ?_
    cases next with
    | none => exact all_pure _
    | some next => exact ih next

theorem neutral_getFdCtl (h : ℕ) : (Task.getFdCtl h : Task.Op δ ι (Fd × Ctl)).All Neutral := by
  refine neutral_withAccess fun fs fs' a hbody => ?_
  cases hbody
  exact sameLocks_of_fileCtl rfl

theorem neutral_editCtl (h : ℕ) {f : Fs δ → Ctl}
    (hf : ∀ fs, (f fs).locked = (fs.fileCtl h).locked) :
    (Task.editCtl h f : Task.Op δ ι Unit).All Neutral := by
  refine neutral_withAccess fun fs fs' a hbody => ?_
  cases hbody
  exact sameLocks_setCtl fs h (hf fs)

/-! ### Reading and writing -/

variable (port : Port δ)

theorem neutral_readCluster (c off n : ℕ) :
    (Task.access fun fs => readCluster port fs c off n :
      Task.Op δ ι (ℤ × ℕ × List UInt8)).All Neutral := by
  refine neutral_withAccess fun fs fs' a hbody => ?_
  dsimp only at hbody
  split at hbody
  · cases hbody
    exact sameLocks_of_fileCtl rfl
  · obtain ⟨ioRead, -, h₁⟩ := Option.bind_eq_some_iff.mp hbody
    cases h₁
    exact sameLocks_of_fileCtl rfl

theorem neutral_writeCluster (c off : ℕ) (src : List UInt8) (n : ℕ) :
    (Task.access fun fs => writeCluster port fs c off src n :
      Task.Op δ ι (ℤ × ℕ)).All Neutral := by
  refine neutral_withAccess fun fs fs' a hbody => ?_
  dsimp only at hbody
  split at hbody
  · cases hbody
    exact sameLocks_of_fileCtl rfl
  · obtain ⟨ioWrite, -, h₁⟩ := Option.bind_eq_some_iff.mp hbody
    cases h₁
    exact sameLocks_of_fileCtl rfl

theorem neutral_undefined : (Task.atomic fun _ => none : Task.Op δ ι α).All Neutral := by
  refine neutral_atomic ?_
  intro _ _ _ hnone
  cases hnone

theorem neutral_readLoop (h total fuel c off got n : ℕ) :
    (Task.readLoop port h total fuel c off got n :
      Task.Op δ ι (Bool × ℕ × List UInt8)).All Neutral := by
  induction fuel generalizing c off got n with
  | zero => exact neutral_undefined
  | succ fuel ih =>
    refine Prog.All.bind (neutral_readCluster port c off n) fun ⟨_, count, data⟩ => ?_
    dsimp only
    split
    · exact Prog.All.bind (neutral_setError _) fun _ => all_pure _
    · refine Prog.All.bind (neutral_editCtl h fun _ => rfl) fun _ => ?_
      split
      · exact all_pure _
      · refine Prog.All.bind (neutral_getNextCluster c) fun next => ?_
        cases next with
        | none => exact Prog.All.bind (neutral_setError _) fun _ => all_pure _
        | some next => exact Prog.All.bind (ih next 0 _ _) fun _ => all_pure _

theorem neutral_noteEof (h : ℕ) (atEnd : Bool) :
    (Task.noteEof h atEnd : Task.Op δ ι Unit).All Neutral := by
  rw [Task.noteEof]
  split
  · exact neutral_editCtl h fun _ => rfl
  · exact all_pure _

theorem neutral_markLast (c : ℕ) (next : Option ℕ) : (match next with
    | none => do
      Task.markClusterLast c
      return none
    | some next => return some next : Task.Op δ ι (Option ℕ)).All Neutral := by
  cases next with
  | none => exact Prog.All.bind (neutral_setClusterVal c _) fun _ => all_pure _
  | some next => exact all_pure _

theorem neutral_nextForWrite (h : ℕ) (pastEnd : Bool) (c : ℕ) :
    (Task.nextForWrite h pastEnd c : Task.Op δ ι (Option ℕ)).All Neutral := by
  cases pastEnd with
  | true => exact Prog.All.bind (neutral_reserveCluster h) (neutral_markLast c)
  | false => exact Prog.All.bind (neutral_getNextCluster c) (neutral_markLast c)

theorem neutral_endWrite (h c : ℕ) (grown : Bool) :
    (Task.endWrite h c grown : Task.Op δ ι Unit).All Neutral := by
  rw [Task.endWrite]
  split
  · refine Prog.All.bind (neutral_atomic fun fs fs' a hrun => ?_) fun _ =>
      neutral_setClusterVal c _
    cases hrun
    exact sameLocks_of_fileCtl rfl
  · exact all_pure _

theorem neutral_writeLoop (h fuel c off : ℕ) (src : List UInt8) (n : ℕ) :
    (Task.writeLoop port h fuel c off src n : Task.Op δ ι (ℕ × ℤ)).All Neutral := by
  induction fuel generalizing c off src n with
  | zero => exact neutral_undefined
  | succ fuel ih =>
    refine Prog.All.bind (neutral_writeCluster port c off src n) fun ⟨ret, count⟩ => ?_
    refine Prog.All.bind (neutral_editCtl h fun _ => rfl) fun _ => ?_
    refine Prog.All.bind (neutral_atomic fun fs fs' a hrun => ?_) fun grown => ?_
    · cases hrun
      exact sameLocks_of_fileCtl rfl
    split
    · exact Prog.All.bind (neutral_endWrite h c grown) fun _ => all_pure _
    · refine Prog.All.bind (neutral_nextForWrite h grown c) fun next => ?_
      cases next with
      | none => exact all_pure _
      | some next =>
        dsimp only
        split
        · exact all_pure _
        · exact Prog.All.bind (neutral_linkCluster c next) fun _ => ih next 0 _ _

theorem neutral_writeStart (h : ℕ) (fd : Fd) (ctl : Ctl) :
    (Task.writeStart h fd ctl : Task.Op δ ι (Option ℕ)).All Neutral := by
  rw [Task.writeStart]
  split
  · split
    · refine Prog.All.bind (neutral_clusterWalk _ _) fun ⟨arrived, c⟩ => ?_
      dsimp only
      split
      · exact all_pure _
      · refine Prog.All.bind (neutral_reserveCluster h) fun first => ?_
        cases first with
        | none => exact all_pure _
        | some first => exact Prog.All.bind (neutral_linkCluster c first) fun _ => all_pure _
    · exact neutral_reserveCluster h
  · exact Prog.All.bind (neutral_clusterWalk _ _) fun _ => all_pure _

theorem neutral_setFirst (h first : ℕ) :
    (Task.setFirst h first : Task.Op δ ι Unit).All Neutral := by
  refine neutral_withAccess fun fs fs' a hbody => ?_
  cases hbody
  split
  · exact sameLocks_of_fileCtl rfl
  · exact sameLocks_of_fileCtl rfl

/-! ### Deleting -/

theorem sameLocks_ffirst {fs fs' : Fs δ} {name : Option (List UInt8)} {found : Option ℕ}
    (hrun : Tfs.ffirst fs name = some (fs', found)) : SameLocks fs fs' := by
  cases name with
  | none =>
    cases hrun
    exact sameLocks_of_fileCtl rfl
  | some name =>
    rw [Tfs.ffirst] at hrun
    split at hrun
    · cases hrun
    · split at hrun
      · cases hrun
        exact sameLocks_of_fileCtl rfl
      · refine sameLocks_withAccess (fun fs fs' a hbody => ?_) hrun
        cases hbody
        exact sameLocks_of_fileCtl rfl

theorem neutral_ffirst (name : Option (List UInt8)) :
    (Task.ffirst name : Task.Op δ ι (Option ℕ)).All Neutral := by
  cases name with
  | none => exact neutral_atomic fun _ _ _ => sameLocks_ffirst
  | some name =>
    rw [Task.ffirst]
    split
    · exact neutral_atomic fun _ _ _ => sameLocks_ffirst
    · exact neutral_access fun _ _ _ => sameLocks_ffirst

theorem neutral_deleteNext {fuel : ℕ}
    (hrest : ∀ c, (Task.deleteLoop fuel c : Task.Op δ ι Unit).All Neutral) (next : Option ℕ) :
    (Prog.yield (match next with
      | none => return ()
      | some next => Task.deleteLoop fuel next) : Task.Op δ ι Unit).All Neutral := by
  cases next with
  | none => exact trivial
  | some next => exact hrest next

theorem neutral_deleteLoop (fuel c : ℕ) :
    (Task.deleteLoop fuel c : Task.Op δ ι Unit).All Neutral := by
  induction fuel generalizing c with
  | zero => exact neutral_undefined
  | succ fuel ih =>
    refine Prog.All.bind (neutral_getNextCluster c) fun next => ?_
    by_cases hc : c < clustersCount
    · rw [if_pos hc]
      exact Prog.All.bind (neutral_markClusterFree c) fun _ => neutral_deleteNext ih next
    · rw [if_neg hc]
      exact neutral_deleteNext ih next

theorem neutral_eraseFd (h : ℕ) : (Task.eraseFd h : Task.Op δ ι ℕ).All Neutral := by
  refine neutral_withAccess fun fs fs' a hbody => ?_
  cases hbody
  exact sameLocks_of_fileCtl rfl

theorem neutral_updateFsOnDisk :
    (Task.atomic (updateFsOnDisk port) : Task.Op δ ι ℤ).All Neutral := by
  refine neutral_atomic fun fs fs' a hrun => ?_
  obtain ⟨ioWrite, -, h₁⟩ := Option.bind_eq_some_iff.mp hrun
  cases h₁
  exact sameLocks_of_fileCtl rfl

end Neutral

/-! ### What a task does with the locks -/

section Tasks

variable {i : ι} {h : ℕ} {x x' : Shared δ ι}

/-- What a step of task `i` does with the locks: it takes one that is free, it gives back
the one it holds, or it changes none and does not become a holder. -/
structure LockStep (i : ι) (x x' : Shared δ ι) : Prop where
  others : ∀ j, j ≠ i → x'.phase j = x.phase j
  locks : (∃ h, x.phase i = .outside ∧ x'.phase i = .holding h ∧
      (x.fs.fileCtl h).locked = false ∧ (x'.fs.fileCtl h).locked = true ∧
      ∀ k, k ≠ h → (x'.fs.fileCtl k).locked = (x.fs.fileCtl k).locked) ∨
    (∃ h, x.phase i = .holding h ∧ x'.phase i = .outside ∧ (x'.fs.fileCtl h).locked = false ∧
      ∀ k, k ≠ h → (x'.fs.fileCtl k).locked = (x.fs.fileCtl k).locked) ∨
    (SameLocks x.fs x'.fs ∧ (x'.phase i = x.phase i ∨ ∀ h, x'.phase i ≠ .holding h))

/-- The holder of a lock: nobody else holds it, and the flag is set. -/
structure Locks (x : Shared δ ι) : Prop where
  unique : ∀ i j h, x.phase i = .holding h → x.phase j = .holding h → i = j
  locked : ∀ i h, x.phase i = .holding h → (x.fs.fileCtl h).locked = true

theorem Neutral.lockStep (hn : Neutral x x') : LockStep i x x' where
  others j _ := by rw [hn.2]
  locks := .inr (.inr ⟨hn.1, .inl (by rw [hn.2])⟩)

/-- **One step keeps the holders apart.** -/
theorem Locks.step (hx : Locks x) (hs : LockStep i x x') : Locks x' := by
  -- a task that holds a lock after the step held it before, or took it in the step
  have hheld : ∀ j h, x'.phase j = .holding h → x.phase j = .holding h ∨
      (j = i ∧ (x.fs.fileCtl h).locked = false ∧ (x'.fs.fileCtl h).locked = true) := by
    intro j h hj
    by_cases hji : j = i
    · subst hji
      rcases hs.locks with ⟨k, -, hk, hfree, hset, -⟩ | ⟨k, -, hk, -⟩ | ⟨-, hk | hk⟩
      · rw [hk] at hj
        cases hj
        exact .inr ⟨rfl, hfree, hset⟩
      · rw [hk] at hj
        cases hj
      · exact .inl (hk ▸ hj)
      · exact absurd hj (hk h)
    · exact .inl (hs.others j hji ▸ hj)
  constructor
  case unique =>
    intro j k h hj hk
    rcases hheld j h hj with hj | ⟨rfl, hfree, -⟩
    · rcases hheld k h hk with hk | ⟨rfl, hfree, -⟩
      · exact hx.unique j k h hj hk
      · rw [hx.locked j h hj] at hfree
        cases hfree
    · rcases hheld k h hk with hk | ⟨rfl, -, -⟩
      · rw [hx.locked k h hk] at hfree
        cases hfree
      · rfl
  case locked =>
    intro j h hj
    rcases hheld j h hj with hjx | ⟨-, -, hset⟩
    · have hlock := hx.locked j h hjx
      rcases hs.locks with ⟨k, -, -, hfree, hset, hrest⟩ | ⟨k, hk, hk', -, hrest⟩ | ⟨hsame, -⟩
      · by_cases hhk : h = k
        · rw [hhk, hset]
        · rw [hrest h hhk, hlock]
      · -- the lock given back is another one: its only holder is outside now
        by_cases hhk : h = k
        · subst hhk
          rw [hx.unique j i h hjx hk, hk'] at hj
          cases hj
        · rw [hrest h hhk, hlock]
      · rw [hsame h, hlock]
    · exact hset

/-- What the others leave alone. -/
def Undisturbed (i : ι) (x z : Shared δ ι) : Prop := z.phase i = x.phase i

/-- A call that has returned: it holds no lock, and if it was refused it has failed. -/
structure Returned (i : ι) (ok : Bool) (x : Shared δ ι) : Prop where
  free : ∀ h, x.phase i ≠ .holding h
  failed : ∀ h, x.phase i = .refused h → ok = false

theorem returned_outside {ok : Bool} (hx : x.phase i = .outside) : Returned i ok x where
  free _ heq := nomatch hx.symm.trans heq
  failed _ heq := nomatch hx.symm.trans heq

theorem returned_refused (hx : x.phase i = .refused h) : Returned i false x where
  free _ heq := nomatch hx.symm.trans heq
  failed _ _ := rfl

/-! ### The calls -/

theorem safe_neutral {p : Task.Op δ ι α} (hp : p.All Neutral) {phase : Phase}
    (hx : x.phase i = phase) :
    Safe False (Undisturbed i) (LockStep i) (fun _ z => z.phase i = phase) p x :=
  Safe.of_all hp (fun hx hz => hz.trans hx)
    (fun hx hn => ⟨by rw [hn.2, hx], hn.lockStep⟩) hx

/-- A neutral piece of code and what comes after it. -/
theorem safe_then {β : Type} {p : Task.Op δ ι α} {k : α → Task.Op δ ι β}
    {Q : β → Shared δ ι → Prop} {phase : Phase} (hp : p.All Neutral) (hx : x.phase i = phase)
    (hk : ∀ a z, z.phase i = phase → Safe False (Undisturbed i) (LockStep i) Q (k a) z) :
    Safe False (Undisturbed i) (LockStep i) Q (p >>= k) x :=
  (safe_neutral hp hx).andThen hk

variable [DecidableEq ι]

theorem safe_outside (i : ι) (x : Shared δ ι) :
    Safe False (Undisturbed i) (LockStep i) (fun _ z => z.phase i = .outside ∧ z.fs = x.fs)
      (Task.outside i) x := by
  have hstep : LockStep i x { x with phase := update x.phase i .outside } :=
    ⟨fun j hj => update_of_ne hj _ _, .inr (.inr ⟨fun _ => rfl, .inr fun h => by simp⟩)⟩
  exact Safe.atomic rfl hstep ⟨update_self i _ _, rfl⟩

/-- A lock that is free is taken, and a call that does not get it changes nothing. -/
theorem safe_tryLock (h : ℕ) (hx : x.phase i = .outside) :
    Safe False (Undisturbed i) (LockStep i) (fun ok z => (ok = true ∧ z.phase i = .holding h) ∨
      (ok = false ∧ z.phase i = .refused h ∧ (maxNOfFiles ≤ h ∨ (x.fs.fileCtl h).locked = true)))
      (Task.lockFile i h) x := by
  rcases free_or_busy x.fs h with ⟨hh, hfree⟩ | hbusy
  · have hlock := lockFile_free hh hfree
    have hstep : LockStep i x { x with
        fs := setCtl x.fs h { x.fs.fileCtl h with locked := true }
        phase := update x.phase i (.holding h) } := by
      refine ⟨fun j hj => update_of_ne hj _ _, .inl ⟨h, hx, ?_, hfree, ?_, ?_⟩⟩
      · exact update_self i _ _
      · simp
      · intro k hk
        simp [hk]
    exact Safe.atomic (by rw [hlock]; rfl) hstep (.inl ⟨rfl, update_self i _ _⟩)
  · have hlock := lockFile_busy hbusy
    have hstep : LockStep i x { x with phase := update x.phase i (.refused h) } := by
      refine ⟨fun j hj => update_of_ne hj _ _, .inr (.inr ⟨fun _ => rfl, .inr ?_⟩)⟩
      intro k
      simp
    exact Safe.atomic (by rw [hlock]; rfl) hstep (.inr ⟨rfl, update_self i _ _, hbusy⟩)

/-- The holder gives its lock back. -/
theorem safe_release (hx : x.phase i = .holding h) :
    Safe False (Undisturbed i) (LockStep i) (fun _ z => z.phase i = .outside)
      (Task.unlockFile i h) x := by
  have hleave : Task.Phase.leave (x.phase i) = .outside := by rw [hx]; rfl
  refine Safe.atomic rfl ⟨fun j hj => update_of_ne hj _ _, ?_⟩ ?_
  · rw [unlockFile]
    split
    · exact .inr (.inr ⟨fun _ => rfl, .inr fun k => by simp [hleave]⟩)
    · split
      · refine .inr (.inl ⟨h, hx, by simp [hleave], by simp, fun k hk => by simp [hk]⟩)
      · exact .inr (.inr ⟨fun _ => rfl, .inr fun k => by simp [hleave]⟩)
  · simp [hleave]

/-- A handle out of range names no lock. -/
theorem safe_unlock_invalid (hh : maxNOfFiles ≤ h) (hx : x.phase i = .refused h) :
    Safe False (Undisturbed i) (LockStep i) (fun _ z => z.phase i = .refused h)
      (Task.unlockFile i h) x := by
  have hfs : (unlockFile x.fs h).1 = x.fs := by rw [unlockFile, if_pos hh]
  have hleave : update x.phase i (Task.Phase.leave (x.phase i)) = x.phase := by
    rw [hx]
    exact update_eq_self_iff.mpr hx.symm
  refine Safe.atomic rfl (Neutral.lockStep ⟨fun k => ?_, hleave⟩) ?_
  · rw [hfs]
  · exact (congrFun hleave i).trans hx

section Calls

variable (port : Port δ)

theorem safe_seekTo {f : Fs δ → ℕ} (hx : x.phase i = .holding h) :
    Safe False (Undisturbed i) (LockStep i) (Returned i) (Task.seekTo i h f) x :=
  safe_then (neutral_editCtl h fun _ => rfl) hx fun _ _ hz =>
    (safe_release hz).andThen fun _ _ hz => returned_outside hz

/-- A call that unlocks the file it holds and fails. -/
theorem safe_fail (e : ErrCode) {β : Type} {Q : β → Shared δ ι → Prop} (b : β)
    (hx : x.phase i = .holding h) (hQ : ∀ z, z.phase i = .outside → Q b z) :
    Safe False (Undisturbed i) (LockStep i) Q (do
      Task.setError e
      Task.unlockFile i h
      return b) x :=
  safe_then (neutral_setError e) hx fun _ _ hz =>
    (safe_release hz).andThen fun _ _ hz => hQ _ hz

theorem safe_seekFile (code : SeekCode) (pos : ℤ) (h : ℕ) (hx : x.phase i = .outside) :
    Safe False (Undisturbed i) (LockStep i) (Returned i) (Task.seekFile i code pos h) x := by
  refine (safe_tryLock h hx).andThen ?_
  rintro ok z (⟨rfl, hz⟩ | ⟨rfl, hz, -⟩)
  · refine safe_then (neutral_getFdCtl h) hz fun ⟨fd, _⟩ z hz => ?_
    cases code with
    | begin =>
      dsimp only
      split
      · exact safe_seekTo hz
      · exact fun y hy _ => safe_fail _ _ (hy.trans hz) fun _ => returned_outside
    | current => exact safe_seekTo hz
    | fromEnd => exact safe_seekTo hz
    | invalid => exact safe_fail _ _ hz fun _ => returned_outside
  · exact safe_then (neutral_setError _) hz fun _ _ hz => returned_refused hz

/-- The handlers of read and write after a refusal, for a handle out of range. -/
theorem safe_refused (e : ErrCode) {β : Type} {Q : β → Shared δ ι → Prop} (b : β)
    (hh : maxNOfFiles ≤ h) (hx : x.phase i = .refused h)
    (hQ : ∀ z, z.phase i = .refused h → Q b z) :
    Safe False (Undisturbed i) (LockStep i) Q (do
      Task.setError e
      Task.unlockFile i h
      return b) x :=
  safe_then (neutral_setError e) hx fun _ _ hz =>
    (safe_unlock_invalid hh hz).andThen fun _ _ hz => hQ _ hz

/-- The file is not locked; a handle out of range names none. -/
def NotLocked (fs : Fs δ) (h : ℕ) : Prop := h < maxNOfFiles → (fs.fileCtl h).locked = false

theorem NotLocked.invalid {fs : Fs δ} (hfree : NotLocked fs h)
    (hbusy : maxNOfFiles ≤ h ∨ (fs.fileCtl h).locked = true) : maxNOfFiles ≤ h := by
  by_contra hh
  rw [hfree (Nat.lt_of_not_le hh)] at hbusy
  exact hbusy.elim hh Bool.false_ne_true

theorem safe_lockingRead (rbytes h : ℕ) (hfree : NotLocked x.fs h) (hx : x.phase i = .outside) :
    Safe False (Undisturbed i) (LockStep i) (fun r => Returned i r.1)
      (Task.readFile port i rbytes h) x := by
  refine (safe_tryLock h hx).andThen ?_
  rintro ok z (⟨rfl, hz⟩ | ⟨rfl, hz, hbusy⟩)
  · refine safe_then (neutral_getFdCtl h) hz fun ⟨fd, ctl⟩ z hz => ?_
    dsimp only
    split
    · exact safe_fail _ _ hz fun _ => returned_outside
    · refine safe_then (neutral_clusterWalk _ _) hz fun ⟨arrived, c⟩ z hz => ?_
      dsimp only
      split
      · exact safe_fail _ _ hz fun _ => returned_outside
      · refine safe_then (neutral_noteEof h _) hz fun _ z hz => ?_
        refine safe_then (neutral_readLoop port h _ _ _ _ _ _) hz fun r z hz => ?_
        exact (safe_release hz).andThen fun _ _ hz => returned_outside hz
  · exact safe_refused _ _ (hfree.invalid hbusy) hz fun _ => returned_refused

theorem safe_lockingWrite (src : List UInt8) (wbytes h : ℕ) (hfree : NotLocked x.fs h)
    (hx : x.phase i = .outside) :
    Safe False (Undisturbed i) (LockStep i) (fun r => Returned i r.1)
      (Task.writeFile port i src wbytes h) x := by
  refine (safe_tryLock h hx).andThen ?_
  rintro ok z (⟨rfl, hz⟩ | ⟨rfl, hz, hbusy⟩)
  · refine safe_then (neutral_getFdCtl h) hz fun ⟨fd, ctl⟩ z hz => ?_
    dsimp only
    split
    · exact safe_fail _ _ hz fun _ => returned_outside
    · split
      · exact safe_fail _ _ hz fun _ => returned_outside
      · refine safe_then (neutral_writeStart h fd ctl) hz fun first z hz => ?_
        cases first with
        | none => exact safe_fail _ _ hz fun _ => returned_outside
        | some first =>
          refine safe_then (neutral_writeLoop port h _ _ _ _ _) hz fun ⟨left, ret⟩ z hz => ?_
          dsimp only
          split
          · exact (safe_release hz).andThen fun _ _ hz => returned_outside hz
          · refine safe_then (neutral_setFirst h first) hz fun _ z hz => ?_
            exact (safe_release hz).andThen fun _ _ hz => returned_outside hz
  · exact safe_refused _ _ (hfree.invalid hbusy) hz fun _ => returned_refused

theorem safe_lockingDelete (name : Option (List UInt8)) (hx : x.phase i = .outside) :
    Safe False (Undisturbed i) (LockStep i) (Returned i) (Task.deleteFile port i name) x := by
  refine safe_then (neutral_ffirst name) hx fun found z hz => ?_
  cases found with
  | none => exact safe_then (neutral_setError _) hz fun _ _ hz => returned_outside hz
  | some h =>
    refine (safe_tryLock h hz).andThen ?_
    rintro ok z (⟨rfl, hz⟩ | ⟨rfl, hz, -⟩)
    · refine safe_then (neutral_getFdCtl h) hz fun ⟨fd, _⟩ z hz => ?_
      dsimp only
      split
      · refine (safe_release hz).andThen fun _ z hz => ?_
        exact safe_then (neutral_setError _) hz fun _ _ hz => returned_outside hz
      · refine safe_then (neutral_eraseFd h) hz fun first z hz => ?_
        refine safe_then (neutral_deleteLoop _ first) hz fun _ z hz => ?_
        refine safe_then (neutral_updateFsOnDisk port) hz fun ret z hz => ?_
        exact (safe_outside i z).andThen fun _ _ hz => returned_outside hz.1
    · exact safe_then (neutral_setError _) hz fun _ _ hz => returned_refused hz

/-- A read or a write starts only on a file that is not locked. -/
def FreeFile (x : Shared δ ι) (_ : ι) : TaskCall → Prop
  | .readFile _ h => NotLocked x.fs h
  | .writeFile _ h => NotLocked x.fs h
  | _ => True

instance (x : Shared δ ι) (i : ι) : (call : TaskCall) → Decidable (FreeFile x i call)
  | .readFile _ h => inferInstanceAs (Decidable (h < maxNOfFiles → _))
  | .writeFile _ h => inferInstanceAs (Decidable (h < maxNOfFiles → _))
  | .seekFile _ _ _ => inferInstanceAs (Decidable True)
  | .deleteFile _ => inferInstanceAs (Decidable True)

/-- The calls fit together. -/
theorem lock_relyGuarantee :
    RelyGuarantee False (fun i call => TaskCall.code port i call) FreeFile Locks Undisturbed
      (fun i (_ : TaskCall) => LockStep i) (Returned : ι → Bool → Shared δ ι → Prop) where
  refl _ _ := rfl
  trans h₁ h₂ := h₂.trans h₁
  compat hne _ hs := hs.others _ hne
  inv := Locks.step
  stable hq hz := ⟨fun h => by rw [hz]; exact hq.free h, fun h => by rw [hz]; exact hq.failed h⟩
  starts {i call ok x} _ _ hmay := by
    refine (safe_outside i x).andThen ?_
    rintro _ z ⟨hz, hfs⟩
    cases call with
    | readFile rbytes h =>
      rw [FreeFile, ← hfs] at hmay
      exact Safe.bind (safe_lockingRead port rbytes h hmay hz)
    | writeFile data h =>
      rw [FreeFile, ← hfs] at hmay
      exact Safe.bind (safe_lockingWrite port data data.length h hmay hz)
    | seekFile code pos h => exact safe_seekFile code pos h hz
    | deleteFile name => exact safe_lockingDelete port name hz

/-- A step of the tasks in which a call starts only where it may. -/
abbrev LockingStep (may : Shared δ ι → ι → TaskCall → Prop) : Tasks δ ι → Tasks δ ι → Prop :=
  PoolStep (fun i call => call.code port i) may

variable {port}

/-- **A lock is given back by its holder only**, if no read or write starts on a locked
file: in every state reached a lock has at most one holder, each step changes the locks as
the running task may (`LockStep`), and a call that was refused fails. -/
theorem file_lock_exclusive {x₀ : Shared δ ι} (hout : ∀ j, x₀.phase j = .outside) {i : ι}
    {pool : Tasks δ ι}
    (hrun : ReflTransGen (LockingStep port FreeFile) (Pool.idle x₀ i true) pool) :
    Locks pool.shared ∧
    (∀ pool', LockingStep port FreeFile pool pool' →
      LockStep pool.running pool.shared pool'.shared) ∧
    ∀ j h ok, pool.shared.phase j = .refused h → pool.prog j = .ret ok → ok = false := by
  have hstart : Locks x₀ :=
    ⟨fun j _ _ hj => (nomatch (hout j).symm.trans hj), fun j _ hj => nomatch (hout j).symm.trans hj⟩
  have hok := (lock_relyGuarantee port).run_ok
    (Pool.idle_ok hstart fun j => returned_outside (hout j)) hrun
  refine ⟨hok.inv, fun pool' hs => ?_, fun j h ok hj hret => ?_⟩
  · rcases ((lock_relyGuarantee port).step_ok hok hs).2 with hsame | ⟨call, -, hstep⟩
    · rw [hsame]
      exact Neutral.lockStep ⟨fun _ => rfl, rfl⟩
    · exact hstep
  · have hdone := hok.safe j
    rw [hret] at hdone
    exact Returned.failed hdone h hj

end Calls

end Tasks

/-- A write to the empty file of slot 0 that waits inside `reserve_cluster`; then the other
task makes the calls. -/
def duringWrite (calls : List (Action Bool TaskCall)) : List (Action Bool TaskCall) :=
  Action.start (TaskCall.writeFile [1, 2, 3] 0) :: List.replicate 6 .run ++
    Action.switch false :: calls

/-- A seek during the write is refused, and the lock stays with the writer. -/
theorem file_lock_exclusive_seek : ∃ (x₀ : Shared Unit Bool) (pool : Tasks Unit Bool),
    ReflTransGen (LockingStep nullPort FreeFile) (Pool.idle x₀ true true) pool ∧
    pool.shared.phase true = .holding 0 ∧ pool.shared.phase false = .refused 0 ∧
    Locks pool.shared ∧ ∀ ok, pool.prog false = .ret ok → ok = false := by
  have heval : ∃ fs, ((mkfs nullPort (blankFs ()) none).bind fun r => runCalls nullPort r.1
        [.createFile [97]]) = some fs ∧
      ∃ pool, (Pool.idle ⟨fs, fun _ => none, fun _ => .outside⟩ true true : Tasks Unit Bool).runActs
        (fun i call => call.code nullPort i) (fun x i call => decide (FreeFile x i call))
        (duringWrite (.start (.seekFile .begin 1 0) :: List.replicate 3 .run)) = some pool ∧
      pool.shared.phase true = .holding 0 ∧
      pool.shared.phase false = .refused 0 := by decide +kernel
  obtain ⟨fs, -, pool, hrun, htrue, hfalse⟩ := heval
  have hsteps := run_of_runActs (fun x i call => of_decide_eq_true) hrun
  obtain ⟨hlocks, -, hfailed⟩ := file_lock_exclusive (fun _ => rfl) hsteps
  exact ⟨_, pool, hsteps, htrue, hfalse, hlocks, fun ok => hfailed false 0 ok hfalse⟩

/-- **Two calls hold one lock**: the handler of a refused read unlocks the file during the
write, and the next write of that task locks it again. -/
theorem two_holders : ∃ (x₀ : Shared Unit Bool) (pool : Tasks Unit Bool),
    (∀ j, x₀.phase j = .outside) ∧
    ReflTransGen (LockingStep nullPort fun _ _ _ => True) (Pool.idle x₀ true true) pool ∧
    pool.shared.phase true = .holding 0 ∧ pool.shared.phase false = .holding 0 := by
  have heval : ∃ fs, ((mkfs nullPort (blankFs ()) none).bind fun r => runCalls nullPort r.1
        [.createFile [97]]) = some fs ∧
      ∃ pool, (Pool.idle ⟨fs, fun _ => none, fun _ => .outside⟩ true true : Tasks Unit Bool).runActs
        (fun i call => call.code nullPort i) (fun _ _ _ => true)
        (duringWrite (Action.start (TaskCall.readFile 1 0) :: List.replicate 4 .run ++
          Action.start (TaskCall.writeFile [4] 0) :: List.replicate 2 .run)) = some pool ∧
      pool.shared.phase true = .holding 0 ∧ pool.shared.phase false = .holding 0 := by
    decide +kernel
  obtain ⟨fs, -, pool, hrun, htrue, hfalse⟩ := heval
  exact ⟨_, pool, fun _ => rfl, run_of_runActs (fun _ _ _ _ => trivial) hrun, htrue, hfalse⟩

end Tfs
