/-
Identifier 0.

A task means itself by the identifier 0, which `_mipos_get_p_task` takes for
`task_context_ptr`.  That pointer is set at the task state machine, and RT tasks are called
from the selection loop, before it: for them 0 is the task that was visited last.

* `MeansCaller.unique` — the calls with identifier 0 are about `task_context_ptr` only;
* `means_caller_iff` — the calls with identifier 0 are about the caller just if it was
  dispatched, or is an RT task in the slot that was visited last;
* `rt_caller_means_other` — an RT task that freezes the root task when it means itself.
-/
import Mipos.KernelControl

namespace Kernel

variable {w : ℕ} {env env' : Env} {u : ℕ}

/-- The task, normal or RT, whose code is running. -/
def Env.caller (env : Env) : Option ℕ :=
  match env.pc with
  | .running => some env.currentTask
  | .inRt _ => some env.currentTask
  | _ => none

/-- The calls that change the descriptor of their caller when it passes 0. -/
inductive SelfCall
  | tDelete
  | tFreeze
  | tNotifySignal (signum : BitVec 8)
  | tSigIgnore (signum : BitVec 8)

def SelfCall.api : SelfCall → Api
  | .tDelete => .tDelete 0
  | .tFreeze => .tFreeze 0
  | .tNotifySignal signum => .tNotifySignal 0 signum
  | .tSigIgnore signum => .tSigIgnore 0 signum

def SelfCall.change : SelfCall → Task → Task
  | .tDelete => Task.delete
  | .tFreeze => Task.freeze
  | .tNotifySignal signum => fun task => task.notifySignal signum
  | .tSigIgnore signum => fun task => task.sigIgnore signum

/-- The calls with identifier 0 are about the descriptor `u`, and about no other. -/
structure MeansCaller (w : ℕ) (env : Env) (u : ℕ) : Prop where
  changes : ∀ call : SelfCall,
    env.api w call.api = some (env.setTask u (call.change (env.taskTable u)))
  status : env.tGetStatus 0 = some (env.taskTable u).status

/-- Each of the calls changes the descriptor that 0 means. -/
theorem SelfCall.api_eq (call : SelfCall) (w : ℕ) (env : Env) :
    env.api w call.api = some (env.setTask env.taskContextPtr
      (call.change (env.taskTable env.taskContextPtr))) := by
  cases call with
  | tDelete | tFreeze | tNotifySignal _ | tSigIgnore _ => rfl

theorem meansCaller_self (w : ℕ) (env : Env) : MeansCaller w env env.taskContextPtr :=
  ⟨fun call => call.api_eq w env, rfl⟩

/-- No descriptor is left alone both by being deleted and by being frozen. -/
theorem delete_freeze_ne (task : Task) : ¬(task.delete = task ∧ task.freeze = task) := by
  rintro ⟨hdelete, hfreeze⟩
  have hstatus := congrArg Task.status hfreeze
  rw [← hdelete] at hstatus
  exact absurd hstatus (by decide : taskNotRunning ||| taskFrozen ≠ taskNotRunning)

/-- 0 means one descriptor only. -/
theorem MeansCaller.unique (hm : MeansCaller w env u) : env.taskContextPtr = u := by
  by_contra hne
  -- the descriptor of `u` is not changed by a call
  have hkept : ∀ call : SelfCall, call.change (env.taskTable u) = env.taskTable u := by
    intro call
    have heq := Option.some.inj ((call.api_eq w env).symm.trans (hm.changes call))
    have htask := congrArg (fun env => env.taskTable u) heq
    simpa [Ne.symm hne] using htask.symm
  exact delete_freeze_ne (env.taskTable u) ⟨hkept .tDelete, hkept .tFreeze⟩

/-- **Identifier 0 and the caller.**  In every reachable state in which a task runs, normal or
RT: the calls with identifier 0 are about its own descriptor and about no other just if
it is a normal task, or the RT task of the slot that was visited last. -/
theorem means_caller_iff (hr : Reachable w env) (hcaller : env.caller = some u) :
    MeansCaller w env u ↔ env.pc = .running ∨ env.taskContextPtr = u := by
  constructor
  · intro hm
    exact .inr hm.unique
  · intro hself
    have hptr : env.taskContextPtr = u := by
      rcases hself with hpc | hptr
      · rw [Env.caller, hpc] at hcaller
        rw [hr.control.running hpc]
        exact Option.some.inj hcaller
      · exact hptr
    rw [← hptr]
    exact meansCaller_self w env

theorem means_caller_iff_root : ∃ env : Env, Reachable 64 env ∧ env.pc = .running ∧
    env.caller = some 1 ∧ MeansCaller 64 env 1 := by
  have heval : ∃ env, runActs 64 boot toRoot = some env ∧ env.pc = .running ∧
      env.caller = some 1 := by decide +kernel
  obtain ⟨env, hrun, hpc, hcaller⟩ := heval
  have hr : Reachable 64 env := Reachable.runActs .boot hrun
  exact ⟨env, hr, hpc, hcaller, (means_caller_iff hr hcaller).mpr (.inl hpc)⟩

/-- **An RT task means another.**  The root task has created an RT task in slot 2; when that
freezes the task 0, the root task is frozen, and so it is with its status. -/
theorem rt_caller_means_other : ∃ env env' : Env, Reachable 64 env ∧ env.pc = .inRt 1 ∧
    env.caller = some 2 ∧ (env.taskTable 2).rtTask = true ∧ ¬MeansCaller 64 env 2 ∧
    step 64 env (.api (.tFreeze 0)) = some env' ∧ env'.taskTable 2 = env.taskTable 2 ∧
    env'.taskTable 1 = (env.taskTable 1).freeze ∧
    env.tGetStatus 0 = some taskSuspended ∧ (env.taskTable 2).status = taskReady := by
  have heval : ∃ env, runActs 64 boot (toRoot ++ [Act.api (.tCreate (some 2) 0 true),
        .block (.tmWkafter 0), .sched, .sched]) = some env ∧ env.pc = .inRt 1 ∧
      env.caller = some 2 ∧ (env.taskTable 2).rtTask = true ∧ env.taskContextPtr = 1 ∧
      ∃ env', step 64 env (.api (.tFreeze 0)) = some env' ∧ env'.taskTable 2 = env.taskTable 2 ∧
      env'.taskTable 1 = (env.taskTable 1).freeze ∧ env.tGetStatus 0 = some taskSuspended ∧
      (env.taskTable 2).status = taskReady := by decide +kernel
  obtain ⟨env, hrun, hpc, hcaller, hrt, hptr, env', hs, hkept, hfrozen, hstatus, hready⟩ := heval
  refine ⟨env, env', Reachable.runActs .boot hrun, hpc, hcaller, hrt, fun hm => ?_, hs,
    hkept, hfrozen, hstatus, hready⟩
  rw [hm.unique] at hptr
  cases hptr

end Kernel
