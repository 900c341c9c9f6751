/-
Frozen tasks.

`mipos_t_freeze` sets a bit on top of the status of a task, whatever the task is doing,
and the selection loop passes over descriptors that have it.  Two writers of the status
do not keep the bit: a blocking call of the task itself, and the deferred call that an
RT task asks for; and RT tasks are called before the bit is looked at.

* `frozen_not_run` — a frozen task that is not RT is not visited by the task state
  machine until it is unfrozen or deleted, if it makes no blocking call and no RT task
  asks for it.
* `frozen_task_runs` — each of the three conditions is needed.
-/
import Mipos.KernelContexts

namespace Kernel

open Relation

variable {w : ℕ} {env env' env₁ env₂ : Env} {act : Act} {t : ℕ}

/-! ### The bit -/

/-- The bit `TASK_FROZEN` of the status. -/
def Task.isFrozen (task : Task) : Bool := task.status.getLsbD 5

theorem isFrozen_freeze (task : Task) : task.freeze.isFrozen = true := by
  simp [Task.isFrozen, Task.freeze, taskFrozen]

/-- The selection loop passes over a frozen task. -/
theorem skipped_of_isFrozen {task : Task} (h : task.isFrozen = true) : task.skipped = true := by
  have hbit : task.status &&& (taskNotRunning ||| taskZombie ||| taskFrozen) ≠ 0 := by
    intro hzero
    have hlow := congrArg (fun s => s.getLsbD 5) hzero
    simp only [BitVec.getLsbD_and, show task.status.getLsbD 5 = true from h] at hlow
    revert hlow
    decide
  exact Bool.or_eq_true_iff.mpr (.inr (decide_eq_true hbit))

/-! ### Steps that keep a task frozen -/

/-- The step freezes `t`. -/
def Freezes (env : Env) (act : Act) (t : ℕ) : Prop :=
  ∃ id, act = .api (.tFreeze id) ∧ env.getPTask id = some t

/-- The step unfreezes `t`. -/
def Unfreezes (env : Env) (act : Act) (t : ℕ) : Prop :=
  ∃ id, act = .api (.tUnfreeze id) ∧ env.getPTask id = some t

/-- The steps that neither delete `t` nor unfreeze it, and in which `t` makes no blocking
call and no RT task asks for it. -/
def KeepsFrozen (t : ℕ) (env : Env) (act : Act) : Prop :=
  ¬Deletes env act t ∧ ¬Unfreezes env act t ∧ ¬Blocks env act t ∧ ¬Promotes env act t

/-- A task that is frozen, and not RT. -/
structure FrozenSlot (sl : Slot) : Prop where
  live : sl.task.entryPoint ≠ none
  normal : sl.task.rtTask = false
  frozen : sl.task.isFrozen = true

/-- Calls on a descriptor keep the bit, except `mipos_t_unfreeze`. -/
theorem TaskEdit.frozenSlot {onCpu : Bool} {task task' : Task}
    (hedit : TaskEdit env act t task task') (hun : ¬Unfreezes env act t)
    (hf : FrozenSlot ⟨onCpu, task⟩) : FrozenSlot ⟨onCpu, task'⟩ := by
  obtain ⟨hlive, hrt, hfrozen⟩ := hf
  cases hedit with
  | same | retValue _ _ _ | notifySignal _ _ _ | notifyQueue _ _ _ | sigIgnore _ _ _
  | sigAllow _ _ _ => exact ⟨hlive, hrt, hfrozen⟩
  | freeze _ _ => exact ⟨hlive, hrt, isFrozen_freeze task⟩
  | unfreeze hact hid => exact absurd ⟨_, hact, hid⟩ hun
  | restart newParam _ _ =>
    -- only a zombie that is not frozen is restarted
    have hne : ¬(task.entryPoint.isSome ∧ task.status = taskZombie) := by
      rintro ⟨-, hstatus⟩
      exact absurd (hfrozen.symm.trans (congrArg (fun s => s.getLsbD 5) hstatus)) (by decide)
    rw [Task.restart, if_neg hne]
    exact ⟨hlive, hrt, hfrozen⟩

/-- **What one step does to a frozen task.** -/
theorem SlotStep.frozenSlot {sl sl' : Slot} (hstep : SlotStep env act t sl sl')
    (hcpu : sl.onCpu = true → env.pc = .running ∧ env.taskContextPtr = t)
    (hkeep : KeepsFrozen t env act) (hf : FrozenSlot sl) : FrozenSlot sl' := by
  obtain ⟨hdel, hun, hblock, hprom⟩ := hkeep
  -- the state machine compares the whole status word, so no case of it applies
  have hstatus : ∀ {status : BitVec 16}, status.getLsbD 5 = false → sl.task.status ≠ status := by
    rintro status hbit rfl
    exact absurd (hf.frozen.symm.trans hbit) (by decide)
  cases hstep with
  | edit hedit => exact hedit.frozenSlot hun hf
  | create hact hslot hfree => exact absurd hfree hf.live
  | delete h => exact absurd h hdel
  | promote h hne hedit => exact absurd h hprom
  | suspend signum queue ticks timeout hact =>
    obtain ⟨hpc, hptr⟩ := hcpu rfl
    exact absurd ⟨_, hact, hpc, hptr⟩ hblock
  | finish value hact => exact ⟨hf.live, hf.normal, hf.frozen⟩
  | zombie hvisit h => exact absurd h (hstatus (by decide))
  | visit hvisit h => exact absurd h (hstatus (by decide))
  | begin hvisit h hwkup => exact absurd h (hstatus (by decide))
  | resume hvisit h hwkup hstack => exact absurd h (hstatus (by decide))

theorem step_frozenSlot (hs : step w env act = some env') (hkeep : KeepsFrozen t env act)
    (hf : FrozenSlot (env.slot t)) : FrozenSlot (env'.slot t) := by
  refine (step_slot hs t).frozenSlot ?_ hkeep hf
  intro hon
  exact of_decide_eq_true hon

/-- The task stays frozen over a whole run. -/
theorem run_frozenSlot (hf : FrozenSlot (env.slot t))
    (hrun : ReflTransGen (StepWhere w (KeepsFrozen t)) env env') :
    FrozenSlot (env'.slot t) := by
  induction hrun with
  | refl => exact hf
  | tail _ hstep ih =>
    obtain ⟨act, hs, hkeep⟩ := hstep
    exact step_frozenSlot hs hkeep ih

/-! ### Frozen tasks do not run -/

/-- The selection loop calls the RT task in the slot `t`. -/
def CallsRt (env env' : Env) (t : ℕ) : Prop :=
  (∃ taskCount, env.pc = .select taskCount ∧ env'.pc = .inRt (taskCount + 1)) ∧
    env'.currentTask = t

instance (env env' : Env) (t : ℕ) : Decidable (CallsRt env env' t) :=
  decidable_of_iff ((match env.pc with
      | .select taskCount => env'.pc == .inRt (taskCount + 1)
      | _ => false) = true ∧ env'.currentTask = t) <| by
    rw [CallsRt]
    cases env.pc <;> simp

/-- Only RT tasks are called. -/
theorem CallsRt.rtTask (hcall : CallsRt env env' t) (hs : step w env .sched = some env') :
    (env.taskTable t).rtTask = true := by
  obtain ⟨⟨taskCount, hpc, hpc'⟩, hcur⟩ := hcall
  rw [step, Env.sched, hpc] at hs
  dsimp only at hs
  rw [Env.selectRound] at hs
  dsimp only at hs
  split at hs
  · rename_i hrt
    split at hs
    · cases hs
      cases hcur
      exact hrt
    · cases hs
  · -- the round ends without a call
    cases hs
    rcases selectEnd_pc _ (taskCount + 1) with h | h | h | ⟨h, -⟩
    all_goals
      rw [h] at hpc'
      cases hpc'

/-- **A frozen task does not run.**  After `mipos_t_freeze`, a task that is not RT is
neither visited by the task state machine nor called, as long as it is neither unfrozen
nor deleted, makes no blocking call, and no RT task asks for it. -/
theorem frozen_not_run (hr : Reachable w env) {id : ℕ}
    (hs : step w env (.api (.tFreeze id)) = some env₁) (hid : env.getPTask id = some t)
    (hlive : (env.taskTable t).entryPoint ≠ none) (hrt : (env.taskTable t).rtTask = false)
    (hrun : ReflTransGen (StepWhere w (KeepsFrozen t)) env₁ env₂) :
    ¬Visits env₂ .sched t ∧
      ∀ env₃, step w env₂ .sched = some env₃ → ¬CallsRt env₂ env₃ t := by
  have hslot : FrozenSlot (env₁.slot t) := by
    have htask : env₁.taskTable t = (env.taskTable t).freeze := by
      obtain ⟨-, hs⟩ := step_api hs
      cases hs
      show (env.modifyTask id Task.freeze).taskTable t = _
      rw [modifyTask_taskTable, if_pos hid]
    refine ⟨?_, ?_, ?_⟩
    · rwa [Env.slot, htask]
    · rwa [Env.slot, htask]
    · rw [Env.slot, htask]
      exact isFrozen_freeze _
  have hf := run_frozenSlot hslot hrun
  constructor
  · -- the selection loop has passed over it
    rintro ⟨-, hpc, rfl⟩
    have hskip := ((reachable_of_run (hr.step hs) hrun).inv.selected hpc).1
    exact Bool.false_ne_true (hskip.symm.trans (skipped_of_isFrozen hf.frozen))
  · intro env₃ hs₃ hcall
    exact Bool.false_ne_true (hf.normal.symm.trans (hcall.rtTask hs₃))

/-- Scheduler steps, and blocking calls of other tasks. -/
def keepsFrozen (t : ℕ) (env : Env) : Act → Bool
  | .sched => true
  | .block _ => env.taskContextPtr != t
  | _ => false

theorem keepsFrozen_spec (env : Env) (act : Act) (h : keepsFrozen t env act = true) :
    KeepsFrozen t env act := by
  refine ⟨?_, ?_, ?_, ?_⟩
  · rintro ⟨id, rfl, -⟩
    cases h
  · rintro ⟨id, rfl, -⟩
    cases h
  · rintro ⟨call, rfl, -, hptr⟩
    simp [keepsFrozen, hptr] at h
  · rintro ⟨taskCount, -, rfl⟩
    cases h

/-- The root task creates a task, freezes it and sleeps; the scheduler passes over the
task. -/
theorem frozen_not_run_worker :
    ∃ env env₁ env₂ : Env, Reachable 64 env ∧ (env.taskTable 2).entryPoint = some 5 ∧
      step 64 env (.api (.tFreeze 2)) = some env₁ ∧
      runWhere 64 (keepsFrozen 2) env₁ ([Act.block (.tmWkafter 1)] ++ List.replicate 9 Act.sched)
        = some env₂ ∧ ¬Visits env₂ .sched 2 := by
  have heval : ∃ env, runActs 64 boot (toRoot ++ [Act.api (.tCreate (some 5) 9 false)]) = some env ∧
      env.getPTask 2 = some 2 ∧ (env.taskTable 2).entryPoint = some 5 ∧
      (env.taskTable 2).rtTask = false ∧
      ∃ env₁, step 64 env (.api (.tFreeze 2)) = some env₁ ∧
      ∃ env, runWhere 64 (keepsFrozen 2) env₁ ([Act.block (.tmWkafter 1)] ++
        List.replicate 9 Act.sched) = some env := by decide +kernel
  obtain ⟨env, hrun, hid, hentry, hrt, env₁, hs, env₂, hrun'⟩ := heval
  have hr : Reachable 64 env := Reachable.runActs .boot hrun
  have hlive : (env.taskTable 2).entryPoint ≠ none := by
    rw [hentry]
    exact Option.some_ne_none 5
  exact ⟨env, env₁, env₂, hr, hentry, hs, hrun',
    (frozen_not_run hr hs hid hlive hrt (run_of_runWhere keepsFrozen_spec hrun')).1⟩

/-- Frozen tasks that run, with no call in between, and so none that unfreezes or deletes them: the
root task freezes itself and yields; an RT task asks for a frozen task; a frozen RT
task is called. -/
theorem frozen_task_runs :
    (∃ env₁ : Env, runActs 64 boot (List.replicate 3 Act.sched) = some env₁ ∧
      env₁.getPTask 0 = some 1 ∧ ∃ env₂, step 64 env₁ (.api (.tFreeze 0)) = some env₂ ∧
      ∃ env₃, runWhere 64 makesNoCall env₂
          ([Act.block (.tmWkafter 0)] ++ List.replicate 19 Act.sched) = some env₃ ∧
      Dispatches env₃ .sched 1) ∧
    (∃ env₁ : Env, runActs 64 boot (List.replicate 3 Act.sched ++
        [Act.api (.tCreate (some 2) 0 true), .api (.tCreate (some 5) 9 false)]) = some env₁ ∧
      (env₁.taskTable 3).rtTask = false ∧ ∃ env₂, step 64 env₁ (.api (.tFreeze 3)) = some env₂ ∧
      ∃ env₃, runWhere 64 makesNoCall env₂ [.block (.tmWkafter 0), .sched, .sched, .ret 3]
        = some env₃ ∧ Dispatches env₃ .sched 3) ∧
    ∃ env₁ : Env, runActs 64 boot (List.replicate 3 Act.sched ++
        [Act.api (.tCreate (some 2) 0 true)]) = some env₁ ∧
      ∃ env₂, step 64 env₁ (.api (.tFreeze 2)) = some env₂ ∧
      ∃ env₃, runWhere 64 makesNoCall env₂ [.block (.tmWkafter 0), .sched] = some env₃ ∧
      ∃ env₄, step 64 env₃ .sched = some env₄ ∧ CallsRt env₃ env₄ 2 := by
  decide +kernel

end Kernel
