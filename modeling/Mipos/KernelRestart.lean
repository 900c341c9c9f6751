/-
Restarting tasks.

A task whose entry point has returned keeps the status `TASK_RUNNING` until the scheduler comes
by and makes it a zombie.  `mipos_t_restart` restarts zombies only, so that it does nothing in
between.  An RT task stays ready, and the selection loop calls it again in any case.

* `SlotStep.finished`, `run_finished` — what becomes of a task that has returned;
* `SlotStep.rtSlot`, `run_rtSlot` — an RT task stays what it is;
* `restart_runs_iff` — a restart makes the task ready, and the next visit to it starts its entry
  point, just if the scheduler has seen that it has returned;
* `restart_lost` — a restart that comes before.
-/
import Mipos.KernelFrozen
import Mipos.KernelSelect

namespace Kernel

open Relation

variable {w : ℕ} {env env' env₀ env₁ env₂ env₃ : Env} {act : Act} {t : ℕ} {entryPoint : Option ℕ}
  {newParam : Option ℕ}

/-! ### Tasks that have returned -/

/-- The step restarts `t`, or would. -/
def Restarts (env : Env) (act : Act) (t : ℕ) : Prop :=
  ∃ id newParam, act = .api (.tRestart id newParam) ∧ env.getPTask id = some t

/-- The steps that neither delete, freeze nor restart `t`. -/
def LeavesFinished (t : ℕ) (env : Env) (act : Act) : Prop :=
  ¬Deletes env act t ∧ ¬Freezes env act t ∧ ¬Restarts env act t

/-- A task that is not RT and whose entry point has returned. -/
structure Finished (sl : Slot) : Prop where
  offCpu : sl.onCpu = false
  live : sl.task.entryPoint ≠ none
  normal : sl.task.rtTask = false
  stack : sl.task.stack = .returned
  wkup : sl.task.wkup = false
  status : (∃ frozen, sl.task.status = Phase.word .running frozen) ∨ sl.task.status = taskZombie

/-- An RT task has asked for `t`, which has returned: there is no context to go on with. -/
structure AskedInVain (env : Env) (t : ℕ) : Prop where
  pc : env.pc = .tsm
  currentTask : env.currentTask = t
  stack : (env.taskTable t).stack = .returned
  wkup : (env.taskTable t).wkup = true
  status : (env.taskTable t).status = taskReady

theorem Finished.status_ne {sl : Slot} (hf : Finished sl) (phase : Phase)
    (hrunning : phase ≠ .running) (hzombie : phase ≠ .zombie)
    (hstatus : sl.task.status = phase.word false) : False := by
  rcases hf.status with ⟨frozen, hword⟩ | hword
  · exact hrunning (Phase.word_inj (hstatus.symm.trans hword)).1
  · exact hzombie (Phase.eq_of_word .zombie (hstatus.symm.trans hword)).1

/-- Calls on the descriptor of a finished task. -/
theorem TaskEdit.finished {onCpu : Bool} {task task' : Task}
    (hedit : TaskEdit env act t task task') (hleave : LeavesFinished t env act)
    (hf : Finished ⟨onCpu, task⟩) : Finished ⟨onCpu, task'⟩ := by
  obtain ⟨-, hfreeze, hrestart⟩ := hleave
  cases hedit with
  | same | retValue _ _ _ | notifySignal _ _ _ | notifyQueue _ _ _ | sigIgnore _ _ _
  | sigAllow _ _ _ => exact ⟨hf.offCpu, hf.live, hf.normal, hf.stack, hf.wkup, hf.status⟩
  | freeze hact hid => exact absurd ⟨_, hact, hid⟩ hfreeze
  | unfreeze _ _ =>
    refine ⟨hf.offCpu, hf.live, hf.normal, hf.stack, hf.wkup, ?_⟩
    rcases hf.status with ⟨frozen, hstatus⟩ | hstatus
    · exact .inl ⟨false, (congrArg (· &&& ~~~taskFrozen) hstatus).trans (Phase.word_unfreeze _ _)⟩
    · exact .inr ((congrArg (· &&& ~~~taskFrozen) hstatus).trans (Phase.word_unfreeze .zombie false))
  | restart _ hact hid => exact absurd ⟨_, _, hact, hid⟩ hrestart

/-- **One step of a finished task.** -/
theorem SlotStep.finished {sl sl' : Slot} (hstep : SlotStep env act t sl sl')
    (hleave : LeavesFinished t env act) (hprom : ¬Promotes env act t) (hf : Finished sl) :
    Finished sl' := by
  cases hstep with
  | edit hedit => exact hedit.finished hleave hf
  | create _ _ hfree => exact absurd hfree hf.live
  | delete hdel => exact absurd hdel hleave.1
  | promote h _ _ => exact absurd h hprom
  | suspend _ _ _ _ _ => cases hf.offCpu
  | finish _ _ => cases hf.offCpu
  | zombie _ _ => exact ⟨rfl, hf.live, hf.normal, hf.stack, hf.wkup, .inr rfl⟩
  | visit _ hstatus => exact (hf.status_ne .suspended nofun nofun hstatus).elim
  | begin _ hstatus _ => exact (hf.status_ne .ready nofun nofun hstatus).elim
  | resume _ hstatus _ _ => exact (hf.status_ne .ready nofun nofun hstatus).elim

/-- An RT task asks for a finished task. -/
theorem Promotes.askedInVain (hprom : Promotes env act t) (hne : t ≠ idleTaskId)
    (hs : step w env act = some env') (hf : Finished (env.slot t)) : AskedInVain env' t := by
  obtain ⟨-, n, -, rfl⟩ := hprom.step_eq hne hs
  obtain ⟨value, htask⟩ := asked_taskTable env t
  have hcur : (env.asked t).currentTask = t := rfl
  have helig : Eligible (env.asked t) (env.asked t).currentTask := by
    rw [hcur]
    refine ⟨hne, ReadyTask.skipped ⟨?_, ?_, ?_⟩⟩ <;> rw [htask]
    · exact hf.live
    · exact hf.normal
  refine ⟨selectEnd_of_eligible helig, selectEnd_currentTask _ n, ?_, ?_, ?_⟩ <;>
    rw [selectEnd_taskTable, htask]
  exact hf.stack

/-- The dispatcher has nothing to resume, so that no step of the kernel follows. -/
theorem AskedInVain.step (h : AskedInVain env t) (hs : step w env act = some env') :
    AskedInVain env' t := by
  cases act with
  | updateRtc quantum =>
    cases hs
    exact ⟨h.pc, h.currentTask, h.stack, h.wkup, h.status⟩
  | sched =>
    have hdisp : Dispatches env .sched t := ⟨⟨rfl, h.pc, h.currentTask⟩, h.status⟩
    rcases hdisp.slot_cases hs with ⟨hwkup, -⟩ | ⟨-, signum, queue, hstack, -⟩
    · rw [h.wkup] at hwkup
      cases hwkup
    · rw [h.stack] at hstack
      cases hstack
  | api call =>
    rw [Kernel.step, h.pc] at hs
    cases hs
  | block call =>
    rw [Kernel.step, h.pc] at hs
    cases hs
  | ret value =>
    rw [Kernel.step, Env.ret, h.pc] at hs
    cases hs

/-- **A whole run after the return of a task** in which it is neither deleted, frozen nor
restarted. -/
theorem run_finished (hf : Finished (env.slot t)) (hne : t ≠ idleTaskId)
    (hrun : ReflTransGen (StepWhere w (LeavesFinished t)) env env') :
    Finished (env'.slot t) ∨ AskedInVain env' t := by
  induction hrun with
  | refl => exact .inl hf
  | @tail env₁ env₂ _ hstep ih =>
    obtain ⟨act, hs, hleave⟩ := hstep
    rcases ih with hf | hasked
    · by_cases hprom : Promotes env₁ act t
      · exact .inr (hprom.askedInVain hne hs hf)
      · exact .inl ((step_slot hs t).finished hleave hprom hf)
    · exact .inr (hasked.step hs)

/-! ### RT tasks -/

/-- An RT task with its entry point and parameter. -/
structure RtSlot (entryPoint : Option ℕ) (param : ℕ) (sl : Slot) : Prop where
  offCpu : sl.onCpu = false
  entryPoint : sl.task.entryPoint = entryPoint
  param : sl.task.param = param
  rtTask : sl.task.rtTask = true
  status : ∃ frozen, sl.task.status = Phase.word .ready frozen

theorem RtSlot.restart_eq {entryPoint newParam : Option ℕ} {param : ℕ} {sl : Slot}
    (h : RtSlot entryPoint param sl) : sl.task.restart newParam = sl.task := by
  obtain ⟨frozen, hstatus⟩ := h.status
  rw [Task.restart, if_neg]
  rintro ⟨-, hzombie⟩
  cases (Phase.eq_of_word .zombie (hstatus.symm.trans hzombie)).1

/-- Calls on the descriptor of an RT task. -/
theorem TaskEdit.rtSlot {onCpu : Bool} {task task' : Task} {param : ℕ}
    (hedit : TaskEdit env act t task task') (h : RtSlot entryPoint param ⟨onCpu, task⟩) :
    RtSlot entryPoint param ⟨onCpu, task'⟩ := by
  obtain ⟨frozen, hstatus⟩ := h.status
  cases hedit with
  | same | retValue _ _ _ | notifySignal _ _ _ | notifyQueue _ _ _ | sigIgnore _ _ _
  | sigAllow _ _ _ => exact ⟨h.offCpu, h.entryPoint, h.param, h.rtTask, h.status⟩
  | freeze _ _ =>
    exact ⟨h.offCpu, h.entryPoint, h.param, h.rtTask, true,
      (congrArg (· ||| taskFrozen) hstatus).trans (Phase.word_freeze _ _)⟩
  | unfreeze _ _ =>
    exact ⟨h.offCpu, h.entryPoint, h.param, h.rtTask, false,
      (congrArg (· &&& ~~~taskFrozen) hstatus).trans (Phase.word_unfreeze _ _)⟩
  | restart newParam _ _ =>
    have heq : task.restart newParam = task := h.restart_eq
    rw [heq]
    exact h

/-- The task state machine does not come to an RT task. -/
theorem Reachable.not_visits_rt (hr : Reachable w env) (hrt : (env.taskTable t).rtTask = true) :
    ¬Visits env act t := by
  rintro ⟨-, hpc, rfl⟩
  have hskip := (hr.inv.selected hpc).1
  simp [Task.skipped, hrt] at hskip

/-- **One step of an RT task.** -/
theorem SlotStep.rtSlot {sl sl' : Slot} {param : ℕ}
    (hstep : SlotStep env act t sl sl') (hlive : entryPoint ≠ none) (hdel : ¬Deletes env act t)
    (hvisit : ¬Visits env act t) (h : RtSlot entryPoint param sl) : RtSlot entryPoint param sl' := by
  cases hstep with
  | edit hedit => exact hedit.rtSlot h
  | create _ _ hfree => exact absurd (h.entryPoint.symm.trans hfree) hlive
  | delete hdelete => exact absurd hdelete hdel
  | promote _ _ hedit =>
    have h' := hedit.rtSlot h
    exact ⟨rfl, h'.entryPoint, h'.param, h'.rtTask, false, rfl⟩
  | suspend _ _ _ _ _ => cases h.offCpu
  | finish _ _ => cases h.offCpu
  | zombie hv _ | visit hv _ | begin hv _ _ | resume hv _ _ _ => exact absurd hv hvisit

/-- **A whole run in which an RT task is not deleted.** -/
theorem run_rtSlot {param : ℕ} (hr : Reachable w env)
    (hlive : entryPoint ≠ none) (h : RtSlot entryPoint param (env.slot t))
    (hrun : ReflTransGen (StepWhere w fun env act => ¬Deletes env act t) env env') :
    RtSlot entryPoint param (env'.slot t) := by
  induction hrun with
  | refl => exact h
  | tail hrun hstep ih =>
    obtain ⟨act, hs, hdel⟩ := hstep
    exact (step_slot hs t).rtSlot hlive hdel ((reachable_of_run hr hrun).not_visits_rt ih.rtTask) ih

/-! ### The task on the processor -/

/-- The task that has the processor is not about to be resumed. -/
theorem SlotStep.cpu_wkup {sl sl' : Slot} (hstep : SlotStep env act t sl sl')
    (h : sl.onCpu = true → sl.task.wkup = false) : sl'.onCpu = true → sl'.task.wkup = false := by
  cases hstep with
  | edit hedit =>
    cases hedit with
    | restart newParam _ _ =>
      rw [Task.restart]
      split <;> exact h
    | same | retValue _ _ _ | notifySignal _ _ _ | notifyQueue _ _ _ | sigIgnore _ _ _
    | sigAllow _ _ _ | freeze _ _ | unfreeze _ _ => exact h
  | create _ _ _ => exact fun _ => rfl
  | delete _ => exact fun _ => rfl
  | begin _ _ hwkup => exact fun _ => hwkup
  | resume _ _ _ _ => exact fun _ => rfl
  | promote _ _ _ | suspend _ _ _ _ _ | finish _ _ | zombie _ _ | visit _ _ =>
    intro hcpu
    cases hcpu

theorem Reachable.cpu_wkup (hr : Reachable w env) :
    (env.slot t).onCpu = true → (env.slot t).task.wkup = false := by
  obtain ⟨root, param, queues, hrun⟩ := hr
  induction hrun with
  | refl => exact nofun
  | tail _ hstep ih =>
    obtain ⟨act, hs⟩ := hstep
    exact (step_slot hs t).cpu_wkup ih

/-- The running task returns. -/
theorem finished_of_ret (hr : Reachable w env) (hpc : env.pc = .running) {value : ℤ}
    (hlive : (env.taskTable env.taskContextPtr).entryPoint ≠ none)
    (hrt : (env.taskTable env.taskContextPtr).rtTask = false)
    {frozen : Bool} (hstatus : (env.taskTable env.taskContextPtr).status = Phase.word .running frozen)
    (hs : step w env (.ret value) = some env') : Finished (env'.slot env.taskContextPtr) := by
  have hon : (env.slot env.taskContextPtr).onCpu = true := by simp [Env.slot, hpc]
  have hwkup := hr.cpu_wkup hon
  rw [step, Env.ret, hpc] at hs
  cases hs
  refine ⟨rfl, ?_, ?_, ?_, ?_, .inl ⟨frozen, ?_⟩⟩ <;> simp only [Env.slot, setTask_taskTable,
    Function.update_self]
  · exact hlive
  · exact hrt
  · exact hwkup
  · exact hstatus

/-! ### Restarts -/

/-- `t` is ready, and its entry point runs again with the parameter: when the scheduler comes to it
next, unless it was deleted, or an RT task has asked for it; and if it is an RT task, in
every round of the selection loop that comes to it, unless it was deleted. -/
structure RunsAgain (w : ℕ) (env : Env) (t : ℕ) (entryPoint : Option ℕ) (param : ℕ) : Prop where
  ready : (env.taskTable t).status = taskReady
  starts : ∀ env', ReflTransGen (StepWhere w fun env act =>
      (t ≠ idleTaskId → ¬Promotes env act t) ∧ ¬Starts env act t ∧ ¬Deletes env act t) env env' →
    Visits env' .sched t → Starts env' .sched t ∧ (step w env' .sched).isSome ∧
      (env'.taskTable t).entryPoint = entryPoint ∧ (env'.taskTable t).param = param
  called : (env.taskTable t).rtTask = true → ∀ env' taskCount,
    ReflTransGen (StepWhere w fun env act => ¬Deletes env act t) env env' →
    env'.pc = .select taskCount → (env'.currentTask + 1) % tasksTblEntriesCnt = t →
    ∃ env'', step w env' .sched = some env'' ∧ env''.pc = .inRt (taskCount + 1) ∧
      env''.currentTask = t ∧ (env''.taskTable t).entryPoint = entryPoint ∧
      (env''.taskTable t).param = param

/-- The code of `t` is running, and its descriptor is still its own: it was not deleted. -/
inductive Returning (env : Env) (t : ℕ) : Prop
  | task (hpc : env.pc = .running) (hptr : env.taskContextPtr = t)
      (hrt : (env.taskTable t).rtTask = false)
      (hstatus : ∃ frozen, (env.taskTable t).status = Phase.word .running frozen)
  | rt (hpc : ∃ taskCount, env.pc = .inRt taskCount) (hcur : env.currentTask = t)
      (hrt : (env.taskTable t).rtTask = true)
      (hstatus : ∃ frozen, (env.taskTable t).status = Phase.word .ready frozen)

/-- The dispatcher can start a task. -/
theorem Starts.step_isSome (hstart : Starts env .sched t) : (step w env .sched).isSome := by
  obtain ⟨⟨⟨-, hpc, rfl⟩, hstatus⟩, hwkup⟩ := hstart
  rw [step, Env.sched, hpc]
  dsimp only
  rw [Env.visitTask, if_neg (by rw [hstatus]; decide), if_neg (by rw [hstatus]; decide),
    if_pos hstatus, Env.dispatch]
  simp [hwkup]

/-- What is selected is not frozen. -/
theorem Unstarted.starts (hr : Reachable w env) (hu : Unstarted (env.slot t))
    (hvisit : Visits env .sched t) : Starts env .sched t := by
  obtain ⟨-, hwkup, frozen, hstatus⟩ := hu (hr.inv.live_of_visits hvisit)
  refine ⟨⟨hvisit, ?_⟩, hwkup⟩
  obtain ⟨-, hpc, rfl⟩ := hvisit
  have hskip := (hr.inv.selected hpc).1
  cases frozen with
  | false => exact hstatus
  | true =>
    have hword : (env.taskTable env.currentTask).status = Phase.word .ready true := hstatus
    simp [Task.skipped, hword, Phase.word, taskReady, taskFrozen, taskNotRunning, taskZombie] at hskip

/-- The selection loop calls an RT task. -/
theorem RtSlot.called {param taskCount : ℕ} (hlive : entryPoint ≠ none)
    (h : RtSlot entryPoint param (env.slot t)) (hpc : env.pc = .select taskCount)
    (hnext : (env.currentTask + 1) % tasksTblEntriesCnt = t) :
    ∃ env', step w env .sched = some env' ∧ env'.pc = .inRt (taskCount + 1) ∧
      env'.currentTask = t ∧ (env'.taskTable t).entryPoint = entryPoint ∧
      (env'.taskTable t).param = param := by
  have hentry : (env.taskTable t).entryPoint = entryPoint := h.entryPoint
  have hrt : (env.taskTable t).rtTask = true := h.rtTask
  have hsome : (env.taskTable t).entryPoint.isSome := by
    rw [hentry]
    exact Option.isSome_iff_ne_none.mpr hlive
  refine ⟨{ env with currentTask := t, pc := .inRt (taskCount + 1) }, ?_, rfl, rfl, hentry, h.param⟩
  rw [step, Env.sched, hpc]
  simp only [Env.selectRound, hnext, hrt, hsome, if_true]

/-- What the call changes. -/
theorem tRestart_spec {id : ℕ}
    (hs : step w env (.api (.tRestart id newParam)) = some env') (hid : env.getPTask id = some t) :
    env.pc.inUserCode = true ∧
      env'.slot t = ⟨(env.slot t).onCpu, (env.taskTable t).restart newParam⟩ := by
  obtain ⟨huser, hs⟩ := step_api hs
  refine ⟨huser, ?_⟩
  rw [slot_of_sameControl (api_sameControl hs)]
  cases hs
  show Slot.mk _ ((env.modifyTask id fun task => task.restart newParam).taskTable t) = _
  rw [modifyTask_taskTable, if_pos hid]

/-- A restart of a task that is not RT and has returned. -/
theorem Finished.restart_iff (hr : Reachable w env) (hf : Finished (env.slot t)) {id : ℕ}
    (hid : env.getPTask id = some t)
    (hs : step w env (.api (.tRestart id newParam)) = some env') :
    RunsAgain w env' t (env.taskTable t).entryPoint (newParam.getD (env.taskTable t).param) ↔
      (env.taskTable t).status = taskZombie := by
  obtain ⟨-, hslot⟩ := tRestart_spec hs hid
  have htask : env'.taskTable t = (env.taskTable t).restart newParam := congrArg Slot.task hslot
  constructor
  · intro hagain
    by_contra hne
    have hready := hagain.ready
    -- only a zombie is restarted
    rw [htask, Task.restart, if_neg fun h => hne h.2] at hready
    exact hf.status_ne .ready (by simp) (by simp) hready
  · intro hzombie
    have hrestarted : (env.taskTable t).restart newParam = { env.taskTable t with
        status := taskReady, param := newParam.getD (env.taskTable t).param } := by
      rw [Task.restart, if_pos ⟨Option.isSome_iff_ne_none.mpr hf.live, hzombie⟩]
    rw [hrestarted] at htask hslot
    have hlive : (env'.taskTable t).entryPoint ≠ none := by
      rw [htask]
      exact hf.live
    have hu : Unstarted (env'.slot t) := by
      intro _
      rw [hslot]
      exact ⟨hf.offCpu, hf.wkup, false, rfl⟩
    refine ⟨by rw [htask], fun env'' hrun hvisit => ?_, ?_⟩
    · obtain ⟨hu', hentry, hparam⟩ := run_given (hr.step hs) hu hlive hrun
      have hstart := hu'.starts (reachable_of_run (hr.step hs) hrun) hvisit
      rw [htask] at hentry hparam
      exact ⟨hstart, hstart.step_isSome, hentry, hparam⟩
    · intro hrt
      rw [htask] at hrt
      cases hf.normal.symm.trans hrt

/-- A restart of an RT task changes nothing. -/
theorem RtSlot.restart_iff {param : ℕ} (hr : Reachable w env)
    (hlive : entryPoint ≠ none) (h : RtSlot entryPoint param (env.slot t)) {id : ℕ}
    (hid : env.getPTask id = some t)
    (hs : step w env (.api (.tRestart id newParam)) = some env') :
    RunsAgain w env' t entryPoint param ↔ (env.taskTable t).status = taskReady := by
  obtain ⟨-, hslot⟩ := tRestart_spec hs hid
  have hkeep : (env.taskTable t).restart newParam = env.taskTable t := h.restart_eq
  rw [hkeep] at hslot
  have htask : env'.taskTable t = env.taskTable t := congrArg Slot.task hslot
  have h' : RtSlot entryPoint param (env'.slot t) := by
    rw [hslot]
    exact h
  constructor
  · intro hagain
    rw [← htask]
    exact hagain.ready
  · intro hready
    refine ⟨by rw [htask, hready], fun env'' hrun hvisit => ?_,
      fun _ env'' taskCount hrun hpc hnext => ?_⟩
    · have h'' := run_rtSlot (hr.step hs) hlive h' (run_mono (fun _ _ hleave => hleave.2.2) hrun)
      exact absurd hvisit ((reachable_of_run (hr.step hs) hrun).not_visits_rt h''.rtTask)
    · exact (run_rtSlot (hr.step hs) hlive h' hrun).called hlive hpc hnext

/-- **Restarting a task that has returned**, at any moment after the return, as long as it has
not been deleted, frozen or restarted: it runs again just if it is a zombie by then, or an RT
task that is ready. -/
theorem restart_runs_iff (hr : Reachable w env₀) (hcode : Returning env₀ t)
    (hlive : (env₀.taskTable t).entryPoint ≠ none) {value : ℤ}
    (hret : step w env₀ (.ret value) = some env₁)
    (hrun : ReflTransGen (StepWhere w (LeavesFinished t)) env₁ env₂) {id : ℕ}
    (hid : env₂.getPTask id = some t)
    (hrestart : step w env₂ (.api (.tRestart id newParam)) = some env₃) :
    RunsAgain w env₃ t (env₂.taskTable t).entryPoint
        (if (env₂.taskTable t).rtTask then (env₂.taskTable t).param
          else newParam.getD (env₂.taskTable t).param) ↔
      (env₂.taskTable t).status = taskZombie ∨
        (env₂.taskTable t).rtTask = true ∧ (env₂.taskTable t).status = taskReady := by
  have hr₂ : Reachable w env₂ := reachable_of_run (hr.step hret) hrun
  cases hcode with
  | task hpc hptr hrt hstatus =>
    subst hptr
    obtain ⟨frozen, hword⟩ := hstatus
    have hne : env₀.taskContextPtr ≠ idleTaskId := hr.control.ptr_ne (by rw [hpc]; rfl)
    have hf : Finished (env₂.slot env₀.taskContextPtr) := by
      refine (run_finished (finished_of_ret hr hpc hlive hrt hword hret) hne hrun).resolve_right ?_
      intro hasked
      obtain ⟨huser, -⟩ := tRestart_spec hrestart hid
      rw [hasked.pc] at huser
      cases huser
    have hnormal : (env₂.taskTable env₀.taskContextPtr).rtTask = false := hf.normal
    rw [hnormal, if_neg Bool.false_ne_true, hf.restart_iff hr₂ hid hrestart]
    simp
  | rt hpc hcur hrt hstatus =>
    obtain ⟨taskCount, hpc⟩ := hpc
    have hoff : (env₀.slot t).onCpu = false := by simp [Env.slot, hpc]
    have h₀ : RtSlot (env₀.taskTable t).entryPoint (env₀.taskTable t).param (env₀.slot t) :=
      ⟨hoff, rfl, rfl, hrt, hstatus⟩
    have hnodel : ¬Deletes env₀ (.ret value) t := by
      rintro ⟨_, hact, -⟩
      cases hact
    have h₁ := (step_slot hret t).rtSlot hlive hnodel (hr.not_visits_rt hrt) h₀
    have h₂ := run_rtSlot (hr.step hret) hlive h₁ (run_mono (fun _ _ hleave => hleave.1) hrun)
    have hrt₂ : (env₂.taskTable t).rtTask = true := h₂.rtTask
    have hentry₂ : (env₂.taskTable t).entryPoint = (env₀.taskTable t).entryPoint := h₂.entryPoint
    have hparam₂ : (env₂.taskTable t).param = (env₀.taskTable t).param := h₂.param
    obtain ⟨frozen, hword⟩ := h₂.status
    have hzombie : (env₂.taskTable t).status ≠ taskZombie := by
      intro hzombie
      cases (Phase.eq_of_word .zombie (hword.symm.trans hzombie)).1
    rw [hrt₂, if_pos rfl, hentry₂, hparam₂, h₂.restart_iff hr₂ hlive hid hrestart]
    simp [hzombie]

theorem leavesFinished_of_noCall (env : Env) (act : Act) (h : makesNoCall env act = true) :
    LeavesFinished t env act := by
  refine ⟨?_, ?_, ?_⟩
  · rintro ⟨id, rfl, -⟩
    cases h
  · rintro ⟨id, rfl, -⟩
    cases h
  · rintro ⟨id, newParam, rfl, -⟩
    cases h

/-- The task in slot 2 returns; the scheduler has seen it when the root task restarts it. -/
theorem restart_runs_iff_worker : ∃ env₀ env₁ env₂ env₃ : Env, Reachable 64 env₀ ∧
    env₀.pc = .running ∧ env₀.taskContextPtr = 2 ∧ step 64 env₀ (.ret 7) = some env₁ ∧
    runWhere 64 makesNoCall env₁ (List.replicate 21 Act.sched) = some env₂ ∧
    (env₂.taskTable 2).status = taskZombie ∧
    step 64 env₂ (.api (.tRestart 2 (some 4))) = some env₃ ∧ RunsAgain 64 env₃ 2 (some 5) 4 := by
  have heval : ∃ env₀, runActs 64 boot (toRoot ++ [Act.api (.tCreate (some 5) 9 false),
        .block (.tmWkafter 0), .sched, .sched, .sched]) = some env₀ ∧ env₀.pc = .running ∧
      env₀.taskContextPtr = 2 ∧ (env₀.taskTable 2).entryPoint = some 5 ∧
      (env₀.taskTable 2).rtTask = false ∧ (env₀.taskTable 2).status = taskRunning ∧
      ∃ env₁, step 64 env₀ (.ret 7) = some env₁ ∧
      ∃ env₂, runWhere 64 makesNoCall env₁ (List.replicate 21 Act.sched) = some env₂ ∧
      (env₂.taskTable 2).status = taskZombie ∧ (env₂.taskTable 2).entryPoint = some 5 ∧
      (env₂.taskTable 2).rtTask = false ∧
      ∃ env, step 64 env₂ (.api (.tRestart 2 (some 4))) = some env := by decide +kernel
  obtain ⟨env₀, hrun, hpc, hptr, hentry, hrt, hstatus, env₁, hret, env₂, hrun', hzombie, hentry',
      hrt', env₃, hrestart⟩ := heval
  have hr : Reachable 64 env₀ := Reachable.runActs .boot hrun
  have hlive : (env₀.taskTable 2).entryPoint ≠ none := by
    rw [hentry]
    exact Option.some_ne_none 5
  have hagain := (restart_runs_iff hr (.task hpc hptr hrt ⟨false, hstatus⟩) hlive hret
    (run_of_runWhere leavesFinished_of_noCall hrun') rfl hrestart).mpr (.inl hzombie)
  rw [hentry', hrt', if_neg Bool.false_ne_true] at hagain
  exact ⟨env₀, env₁, env₂, env₃, hr, hpc, hptr, hret, hrun', hzombie, hrestart, hagain⟩

/-- **A restart is lost.**  The root task creates a task in slot 2 and returns; that task runs
next, and restarts the root task, which still has the status of a running one.  When
the scheduler comes to the root task, it makes it a zombie. -/
theorem restart_lost : ∃ env₀ env₁ env₂ env₃ env₄ : Env, Reachable 64 env₀ ∧
    env₀.pc = .running ∧ env₀.taskContextPtr = 1 ∧ step 64 env₀ (.ret 0) = some env₁ ∧
    runWhere 64 makesNoCall env₁ (List.replicate 3 Act.sched) = some env₂ ∧
    env₂.pc = .running ∧ env₂.taskContextPtr = 2 ∧
    step 64 env₂ (.api (.tRestart 1 none)) = some env₃ ∧
    env₃.taskTable 1 = env₂.taskTable 1 ∧ ¬RunsAgain 64 env₃ 1 (some 1) 0 ∧
    runWhere 64 makesNoCall env₃ ([Act.block .tSuspend] ++ List.replicate 9 Act.sched) = some env₄ ∧
    (env₄.taskTable 1).status = taskZombie := by
  have heval : ∃ env₀, runActs 64 boot (toRoot ++ [Act.api (.tCreate (some 5) 9 false)])
        = some env₀ ∧ env₀.pc = .running ∧ env₀.taskContextPtr = 1 ∧
      ∃ env₁, step 64 env₀ (.ret 0) = some env₁ ∧
      ∃ env₂, runWhere 64 makesNoCall env₁ toRoot = some env₂ ∧ env₂.pc = .running ∧
      env₂.taskContextPtr = 2 ∧
      ∃ env₃, step 64 env₂ (.api (.tRestart 1 none)) = some env₃ ∧
      env₃.taskTable 1 = env₂.taskTable 1 ∧ (env₃.taskTable 1).status = taskRunning ∧
      ∃ env₄, runWhere 64 makesNoCall env₃ ([Act.block .tSuspend] ++ List.replicate 9 Act.sched)
        = some env₄ ∧ (env₄.taskTable 1).status = taskZombie := by decide +kernel
  obtain ⟨env₀, hrun, hpc, hptr, env₁, hret, env₂, hrun', hpc', hptr', env₃, hrestart, hkept,
      hstatus, env₄, hrun'', hzombie⟩ := heval
  refine ⟨env₀, env₁, env₂, env₃, env₄, Reachable.runActs .boot hrun, hpc, hptr, hret,
    hrun', hpc', hptr', hrestart, hkept, fun hagain => ?_, hrun'', hzombie⟩
  rw [hagain.ready] at hstatus
  exact absurd hstatus (by decide)

end Kernel
