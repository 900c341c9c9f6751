/-
The mutex (`mipos_mutex.h`): one state byte, and no owner.

`mipos_mu_lock` tests the byte and lets the other tasks run until it is
`MUTEX_UNLOCKED`; there is no switching point between the last test and the assignment.
`mipos_mu_unlock` assigns `MUTEX_UNLOCKED` whoever calls it, although it is documented to
have no effect for a caller that does not hold the mutex.

* `Excl.step` — an unlock by the holder, or while nobody holds the mutex, keeps the mutex
  exclusive;
* `mu_exclusive` — so do all runs with such unlocks only;
* `two_owners` — another unlock lets a second task in.
-/
import Mathlib.Data.Fintype.Basic
import Mipos.Coroutine

namespace Mutex

open Coroutine Function Relation

def mutexUnlocked : UInt8 := 0
def mutexLocked : UInt8 := 1

/-- `mipos_mtx_t`.  The tasks `ι` that are between the completion of their `mipos_mu_lock`
and their own next `mipos_mu_unlock` are recorded next to it, for the statements only. -/
structure Mtx (ι : Type) where
  state : UInt8
  holds : ι → Bool

/-- `MU_INIT` -/
def muInit (ι : Type) : Mtx ι := ⟨mutexUnlocked, fun _ => false⟩

variable {ι : Type} [DecidableEq ι]

/-- `state |= MUTEX_LOCKED`, with which the lock of task `i` is complete. -/
def Mtx.lockedBy (mtx : Mtx ι) (i : ι) : Mtx ι :=
  ⟨mtx.state ||| mutexLocked, update mtx.holds i true⟩

/-- `state = MUTEX_UNLOCKED`, by task `i`. -/
def Mtx.unlockedBy (mtx : Mtx ι) (i : ι) : Mtx ι :=
  ⟨mutexUnlocked, update mtx.holds i false⟩

theorem lockedBy_holds (mtx : Mtx ι) {i j : ι} (hne : j ≠ i) :
    (mtx.lockedBy i).holds j = mtx.holds j := update_of_ne hne _ _

theorem unlockedBy_holds (mtx : Mtx ι) {i j : ι} (hne : j ≠ i) :
    (mtx.unlockedBy i).holds j = mtx.holds j := update_of_ne hne _ _

@[simp] theorem unlockedBy_holds_self (mtx : Mtx ι) (i : ι) :
    (mtx.unlockedBy i).holds i = false := update_self _ _ _

/-- The loop with `mipos_tm_wkafter(0)` and the assignment after it. -/
def muLock (i : ι) : Prog (Mtx ι) Unit :=
  .await (fun mtx => mtx.state == mutexUnlocked) (.atomic fun mtx => some (mtx.lockedBy i, ()))

def muUnlock (i : ι) : Prog (Mtx ι) Unit := .atomic fun mtx => some (mtx.unlockedBy i, ())

inductive MuCall
  | lock
  | unlock

def muCode (i : ι) : MuCall → Prog (Mtx ι) Unit
  | .lock => muLock i
  | .unlock => muUnlock i

/-! ### What keeps the mutex exclusive -/

/-- At most one task holds the mutex, and then the byte says so. -/
structure Excl (mtx : Mtx ι) : Prop where
  unique : ∀ i j, mtx.holds i = true → mtx.holds j = true → i = j
  locked : ∀ i, mtx.holds i = true → mtx.state ≠ mutexUnlocked

/-- Task `i` unlocks only what no other task holds. -/
def OwnUnlock (mtx : Mtx ι) (i : ι) : MuCall → Prop
  | .lock => True
  | .unlock => ∀ j, mtx.holds j = true → j = i

instance [Fintype ι] (mtx : Mtx ι) (i : ι) : (c : MuCall) → Decidable (OwnUnlock mtx i c)
  | .lock => .isTrue trivial
  | .unlock => inferInstanceAs (Decidable (∀ j, mtx.holds j = true → j = i))

/-- What task `i` does to the mutex in a call. -/
def Does (i : ι) (c : MuCall) (mtx mtx' : Mtx ι) : Prop :=
  match c with
  | .lock => mtx.state = mutexUnlocked ∧ mtx' = mtx.lockedBy i
  | .unlock => OwnUnlock mtx i .unlock ∧ mtx' = mtx.unlockedBy i

omit [DecidableEq ι] in
theorem Excl.init : Excl (muInit ι) :=
  ⟨fun _ _ hi => absurd hi Bool.false_ne_true, fun _ hi => absurd hi Bool.false_ne_true⟩

/-- **One step** of a call keeps the mutex exclusive. -/
theorem Excl.step {i : ι} {c : MuCall} {mtx mtx' : Mtx ι} (h : Excl mtx)
    (hdoes : Does i c mtx mtx') : Excl mtx' := by
  cases c with
  | lock =>
    obtain ⟨hfree, rfl⟩ := hdoes
    -- nobody holds a mutex that is unlocked
    have honly : ∀ j, (mtx.lockedBy i).holds j = true → j = i := by
      intro j hj
      by_contra hne
      rw [lockedBy_holds mtx hne] at hj
      exact h.locked j hj hfree
    refine ⟨fun j k hj hk => (honly j hj).trans (honly k hk).symm, fun _ _ => ?_⟩
    show mtx.state ||| mutexLocked ≠ mutexUnlocked
    rw [hfree]
    decide
  | unlock =>
    obtain ⟨hown, rfl⟩ := hdoes
    have hnone : ∀ j, (mtx.unlockedBy i).holds j ≠ true := by
      intro j hj
      rcases eq_or_ne j i with rfl | hne
      · simp at hj
      · rw [unlockedBy_holds mtx hne] at hj
        exact hne (hown j hj)
    exact ⟨fun j _ hj => absurd hj (hnone j), fun j hj => absurd hj (hnone j)⟩

/-- The calls fit together without any assumption about the others. -/
theorem mu_relyGuarantee : RelyGuarantee True (muCode : ι → MuCall → Prog (Mtx ι) Unit) OwnUnlock
    Excl (fun _ _ _ => True) Does (fun _ _ _ => True) where
  refl _ _ := trivial
  trans _ _ := trivial
  compat _ _ _ := trivial
  inv h hdoes := h.step hdoes
  stable _ _ := trivial
  starts {i c _ mtx} _ _ hmay := by
    cases c with
    | lock =>
      intro z _ hready
      exact Safe.atomic rfl ⟨eq_of_beq hready, rfl⟩ trivial
    | unlock => exact Safe.atomic rfl ⟨hmay, rfl⟩ trivial

/-- **Mutual exclusion.**  In every run in which no task unlocks what another task holds,
at most one task is between its lock and its unlock. -/
theorem mu_exclusive (first : ι) {pool : Pool ι MuCall (Mtx ι) Unit}
    (hrun : ReflTransGen (PoolStep muCode OwnUnlock) (Pool.idle (muInit ι) first ()) pool)
    {i j : ι} (hi : pool.shared.holds i = true) (hj : pool.shared.holds j = true) : i = j := by
  have hok := mu_relyGuarantee.run_ok (Pool.idle_ok Excl.init fun _ => trivial) hrun
  exact hok.inv.unique i j hi hj

/-- Task 0 locks and unlocks the mutex, and task 1, which waits meanwhile, gets it. -/
theorem mu_exclusive_handover : ∃ pool : Pool (Fin 3) MuCall (Mtx (Fin 3)) Unit,
    pool.shared.holds 1 = true ∧ ∀ j, pool.shared.holds j = true → 1 = j := by
  have heval : ∃ pool, (Pool.idle (muInit (Fin 3)) 0 ()).runActs muCode
      (fun mtx i c => decide (OwnUnlock mtx i c))
      [.start .lock, .run, .run, .switch 1, .start .lock, .switch 0, .start .unlock, .run,
        .switch 1, .run, .run] = some pool ∧ pool.shared.holds 1 = true := by decide
  obtain ⟨pool, hacts, hone⟩ := heval
  have hrun := run_of_runActs (fun mtx i c => of_decide_eq_true) hacts
  exact ⟨pool, hone, fun j hj => mu_exclusive 0 hrun hone hj⟩

/-- **The unlock of another task lets a second one in**: task 0 holds the mutex, task 1
unlocks it and locks it. -/
theorem two_owners : ∃ pool : Pool (Fin 2) MuCall (Mtx (Fin 2)) Unit,
    ReflTransGen (PoolStep muCode fun _ _ _ => True) (Pool.idle (muInit (Fin 2)) 0 ())
      pool ∧ pool.shared.holds 0 = true ∧ pool.shared.holds 1 = true := by
  have heval : ∃ pool, (Pool.idle (muInit (Fin 2)) 0 ()).runActs muCode (fun _ _ _ => true)
      [.start .lock, .run, .run, .switch 1, .start .unlock, .run, .start .lock, .run, .run]
        = some pool ∧ pool.shared.holds 0 = true ∧ pool.shared.holds 1 = true := by decide
  obtain ⟨pool, hacts, hboth⟩ := heval
  exact ⟨pool, run_of_runActs (fun _ _ _ _ => trivial) hacts, hboth⟩

end Mutex
