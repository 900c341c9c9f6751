/-
Saved contexts.

The dispatcher either starts a task at its entry point or resumes the context that a
blocking call has saved in `reg_state`; the flag `wkup` decides.  A slot outlives its
task: a task that deletes itself goes on running in a free slot, and an RT task may
set `wkup` for a task that has never run.

* `deleted_not_resumed` — after `mipos_t_delete`, nothing is resumed in the slot until
  a task has been started there, unless the deleted task has itself created a task in
  its slot (`deleted_task_resumed`).
* `resumes_saved` — what is resumed has been saved by a blocking call of the same task,
  unless an RT task asks for a task without a saved context (`never_run_resumed`).
-/
import Mipos.KernelTasks

namespace Kernel

open Function Relation

variable {w : ℕ} {env env' env₁ env₂ : Env} {act : Act} {t : ℕ}

/-! ### The dispatcher -/

/-- The dispatcher gives the processor to `t`. -/
def Dispatches (env : Env) (act : Act) (t : ℕ) : Prop :=
  Visits env act t ∧ (env.taskTable t).status = taskReady

/-- It starts `t` at its entry point. -/
def Starts (env : Env) (act : Act) (t : ℕ) : Prop :=
  Dispatches env act t ∧ (env.taskTable t).wkup = false

/-- It resumes the saved context of `t`. -/
def Resumes (env : Env) (act : Act) (t : ℕ) : Prop :=
  Dispatches env act t ∧ (env.taskTable t).wkup = true

instance (env : Env) (t : ℕ) : Decidable (Dispatches env .sched t) :=
  inferInstanceAs (Decidable (Visits env .sched t ∧ _))

instance (env : Env) (t : ℕ) : Decidable (Starts env .sched t) :=
  inferInstanceAs (Decidable (Dispatches env .sched t ∧ _))

instance (env : Env) (t : ℕ) : Decidable (Resumes env .sched t) :=
  inferInstanceAs (Decidable (Dispatches env .sched t ∧ _))

/-- No task is created in the slot of the running task, which would have to be
deleted for that. -/
def NoSlotReuse (env : Env) (act : Act) : Prop :=
  ∀ entryPoint param rt, act = .api (.tCreate entryPoint param rt) → env.pc = .running →
    env.freeSlot ≠ some env.taskContextPtr

/-- RT tasks do not ask for deferred calls. -/
def RtReturnsZero (env : Env) (act : Act) : Prop :=
  ∀ taskCount value, env.pc = .inRt taskCount → act = .ret value → value = 0

theorem RtReturnsZero.not_promotes (hrt : RtReturnsZero env act) (hne : t ≠ idleTaskId) :
    ¬Promotes env act t := by
  rintro ⟨taskCount, hpc, hact⟩
  have hzero := hrt taskCount t hpc hact
  exact hne (by exact_mod_cast hzero)

/-- A new task does not find its slot in use. -/
theorem NoSlotReuse.off_cpu (hreuse : NoSlotReuse env act) {entryPoint : Option ℕ} {param : ℕ}
    {rt : Bool} (hact : act = .api (.tCreate entryPoint param rt))
    (hslot : env.freeSlot = some t) : (env.slot t).onCpu = false := by
  simp only [Env.slot, decide_eq_false_iff_not]
  rintro ⟨hpc, rfl⟩
  exact hreuse entryPoint param rt hact hpc hslot

/-- The selected task is in use. -/
theorem EnvInv.live_of_visits (hi : EnvInv env) (hvisit : Visits env act t) :
    (env.taskTable t).entryPoint ≠ none := by
  obtain ⟨-, hpc, rfl⟩ := hvisit
  have hskip := (hi.selected hpc).1
  intro hnone
  simp [Task.skipped, hnone] at hskip

/-- After `mipos_t_delete` the slot is free. -/
theorem Deletes.dead (hdel : Deletes env act t) (hs : step w env act = some env') :
    (env'.taskTable t).entryPoint = none := by
  obtain ⟨id, rfl, hid⟩ := hdel
  obtain ⟨-, hs⟩ := step_api hs
  cases hs
  show ((env.modifyTask id Task.delete).taskTable t).entryPoint = none
  rw [modifyTask_taskTable, if_pos hid]
  rfl

/-! ### Slots without a task that has run -/

/-- If there is a task in the slot, it has yet to be started. -/
def Unstarted (sl : Slot) : Prop :=
  sl.task.entryPoint ≠ none →
    sl.onCpu = false ∧ sl.task.wkup = false ∧ ∃ frozen, sl.task.status = Phase.word .ready frozen

/-- Calls on a descriptor do not start it. -/
theorem TaskEdit.unstarted {onCpu : Bool} {task task' : Task}
    (hedit : TaskEdit env act t task task') (hu : Unstarted ⟨onCpu, task⟩) :
    Unstarted ⟨onCpu, task'⟩ := by
  cases hedit with
  | same | retValue _ _ _ | notifySignal _ _ _ | notifyQueue _ _ _ | sigIgnore _ _ _
  | sigAllow _ _ _ => exact hu
  | freeze _ _ =>
    intro hlive
    obtain ⟨hoff, hwkup, frozen, hstatus⟩ := hu hlive
    refine ⟨hoff, hwkup, true, ?_⟩
    rw [Task.freeze, hstatus, Phase.word_freeze]
  | unfreeze _ _ =>
    intro hlive
    obtain ⟨hoff, hwkup, frozen, hstatus⟩ := hu hlive
    refine ⟨hoff, hwkup, false, ?_⟩
    rw [Task.unfreeze, hstatus, Phase.word_unfreeze]
  | restart newParam _ _ =>
    rw [Task.restart]
    split
    · intro hlive
      obtain ⟨hoff, hwkup, -⟩ := hu hlive
      exact ⟨hoff, hwkup, false, rfl⟩
    · exact hu

/-- **A slot without a started task stays so** until the dispatcher starts a task in it. -/
theorem SlotStep.unstarted {sl sl' : Slot} (hstep : SlotStep env act t sl sl')
    (hu : Unstarted sl) (hlive : Visits env act t → sl.task.entryPoint ≠ none)
    (hcreate : ∀ entryPoint param rt, act = .api (.tCreate entryPoint param rt) →
      env.freeSlot = some t → sl.onCpu = false)
    (hprom : t ≠ idleTaskId → ¬Promotes env act t)
    (hstart : ¬(Visits env act t ∧ sl.task.status = taskReady ∧ sl.task.wkup = false)) :
    Unstarted sl' := by
  -- what the scheduler visits is ready, for nothing else is in the slot
  have hready : Visits env act t → sl.task.wkup = false ∧
      ∃ frozen, sl.task.status = Phase.word .ready frozen := fun hvisit =>
    (hu (hlive hvisit)).2
  cases hstep with
  | edit hedit => exact hedit.unstarted hu
  | create hact hslot hfree =>
    intro _
    exact ⟨hcreate _ _ _ hact hslot, rfl, false, rfl⟩
  | delete hdel =>
    intro hlive'
    exact absurd rfl hlive'
  | promote h hne _ => exact absurd h (hprom hne)
  | suspend signum queue ticks timeout _ =>
    intro hlive'
    cases (hu hlive').1
  | finish value _ =>
    intro hlive'
    cases (hu hlive').1
  | zombie hvisit hstatus =>
    obtain ⟨-, frozen, hword⟩ := hready hvisit
    cases (Phase.eq_of_word .running (hword.symm.trans hstatus)).1
  | visit hvisit hstatus =>
    obtain ⟨-, frozen, hword⟩ := hready hvisit
    cases (Phase.eq_of_word .suspended (hword.symm.trans hstatus)).1
  | begin hvisit hstatus hwkup => exact absurd ⟨hvisit, hstatus, hwkup⟩ hstart
  | resume hvisit hstatus hwkup hstack =>
    have hoff : _ = false := (hready hvisit).1
    rw [hwkup] at hoff
    cases hoff

theorem step_unstarted (hi : EnvInv env) (hs : step w env act = some env')
    (hu : Unstarted (env.slot t)) (hreuse : NoSlotReuse env act) (hrt : RtReturnsZero env act)
    (hstart : ¬Starts env act t) : Unstarted (env'.slot t) := by
  refine (step_slot hs t).unstarted hu ?_ ?_ ?_ ?_
  · intro hvisit
    exact hi.live_of_visits hvisit
  · intro entryPoint param rt hact hslot
    exact hreuse.off_cpu hact hslot
  · intro hne
    exact hrt.not_promotes hne
  · rintro ⟨hvisit, hstatus, hwkup⟩
    exact hstart ⟨⟨hvisit, hstatus⟩, hwkup⟩

/-! ### Slots without a saved context -/

/-- The task of the slot has saved no context, and nothing else can be resumed. -/
def NothingSaved (sl : Slot) : Prop :=
  sl.task.wkup = false ∧ sl.task.stack.NotSaved

/-- **Only a blocking call saves a context.** -/
theorem SlotStep.nothingSaved {sl sl' : Slot} (hstep : SlotStep env act t sl sl')
    {phase : Phase} {frozen : Bool} (hok : SlotOk sl phase frozen) (hn : NothingSaved sl)
    (hprom : t ≠ idleTaskId → ¬Promotes env act t)
    (hblock : ∀ call, act = .block call → sl.onCpu = false) : NothingSaved sl' := by
  cases hstep with
  | edit hedit =>
    cases hedit with
    | restart newParam _ _ =>
      rw [Task.restart]
      split
      · exact hn
      · exact hn
    | same | retValue _ _ _ | notifySignal _ _ _ | notifyQueue _ _ _ | sigIgnore _ _ _
    | sigAllow _ _ _ | freeze _ _ | unfreeze _ _ => exact hn
  | create hact hslot hfree => exact ⟨rfl, fun _ _ h => by cases h⟩
  | delete hdel => exact ⟨rfl, hn.2⟩
  | promote h hne _ => exact absurd h (hprom hne)
  | suspend signum queue ticks timeout hact => cases hblock _ hact
  | finish value _ => exact ⟨hn.1, Stack.notSaved_of_returned rfl⟩
  | zombie hvisit hstatus => exact hn
  | visit hvisit hstatus =>
    -- a suspended task would have a saved context
    obtain ⟨rfl, rfl⟩ := Phase.eq_of_word .suspended (hok.status.symm.trans hstatus)
    obtain ⟨queue, hsaved⟩ := hok.suspended rfl
    exact absurd hsaved (hn.2 _ _)
  | begin hvisit hstatus hwkup => exact ⟨hwkup, fun _ _ h => by cases h⟩
  | resume hvisit hstatus hwkup hstack => exact absurd hstack (hn.2 _ _)

/-- The running task `t` makes a blocking call. -/
def Blocks (env : Env) (act : Act) (t : ℕ) : Prop :=
  ∃ call, act = .block call ∧ env.pc = .running ∧ env.taskContextPtr = t

theorem step_nothingSaved (hi : EnvInv env) (hs : step w env act = some env')
    (hn : NothingSaved (env.slot t)) (hrt : RtReturnsZero env act) (hblock : ¬Blocks env act t) :
    NothingSaved (env'.slot t) := by
  obtain ⟨phase, frozen, hok⟩ := hi.slots t
  refine (step_slot hs t).nothingSaved hok hn (fun hne => hrt.not_promotes hne) ?_
  intro call hact
  simp only [Env.slot, decide_eq_false_iff_not]
  rintro ⟨hpc, hptr⟩
  exact hblock ⟨call, hact, hpc, hptr⟩

/-- The step that starts a task, or resumes it. -/
theorem Dispatches.slot_cases (hdisp : Dispatches env act t) (hs : step w env act = some env') :
    ((env.taskTable t).wkup = false ∧ env'.slot t
        = ⟨true, { env.taskTable t with status := taskRunning, stack := .running }⟩) ∨
      ((env.taskTable t).wkup = true ∧ ∃ signum queue,
        (env.taskTable t).stack = .saved signum queue ∧ env'.slot t
        = ⟨true, { ({ env.taskTable t with wkup := false } : Task).resetSignalAndRun signum with
            stack := .running }⟩) := by
  obtain ⟨⟨rfl, hpc, rfl⟩, hstatus⟩ := hdisp
  have hnr : ¬(env.taskTable env.currentTask).status = taskRunning := by
    rw [hstatus]
    decide
  have hns : ¬(env.taskTable env.currentTask).status = taskSuspended := by
    rw [hstatus]
    decide
  rw [step, Env.sched, hpc] at hs
  dsimp only at hs
  rw [Env.visitTask, if_neg hnr, if_neg hns, if_pos hstatus] at hs
  obtain ⟨hpc', -, hptr, task', htable, hcase⟩ := dispatch_cases hs
  simp only [setTask_taskTable, setTask_currentTask, update_self, update_idem,
    setTask_taskContextPtr] at htable hcase hptr
  have hslot : env'.slot env.currentTask = ⟨true, task'⟩ := by
    simp [Env.slot, hpc', hptr, htable]
  rw [hslot]
  rcases hcase with ⟨hwkup, rfl⟩ | ⟨hwkup, signum, queue, hstack, rfl⟩
  · exact .inl ⟨hwkup, rfl⟩
  · exact .inr ⟨hwkup, signum, queue, hstack, rfl⟩

/-! ### Deleted tasks -/

/-- The task that a slot was given, as long as it has not been started. -/
theorem SlotStep.given {sl sl' : Slot} (hstep : SlotStep env act t sl sl') (hu : Unstarted sl)
    (hlive : sl.task.entryPoint ≠ none) (hdel : ¬Deletes env act t) :
    sl'.task.entryPoint = sl.task.entryPoint ∧ sl'.task.param = sl.task.param := by
  -- it is ready, and so no zombie that could be restarted
  obtain ⟨hoff, hwkup, frozen, hstatus⟩ := hu hlive
  have hedit : ∀ {task'}, TaskEdit env act t sl.task task' →
      task'.entryPoint = sl.task.entryPoint ∧ task'.param = sl.task.param := by
    intro task' hedit
    cases hedit with
    | restart newParam _ _ =>
      rw [Task.restart, if_neg]
      · exact ⟨rfl, rfl⟩
      · rintro ⟨-, hzombie⟩
        cases (Phase.eq_of_word .zombie (hstatus.symm.trans hzombie)).1
    | same | retValue _ _ _ | notifySignal _ _ _ | notifyQueue _ _ _ | sigIgnore _ _ _
    | sigAllow _ _ _ | freeze _ _ | unfreeze _ _ => exact ⟨rfl, rfl⟩
  cases hstep with
  | edit h => exact hedit h
  | create hact hslot hfree => exact absurd hfree hlive
  | delete h => exact absurd h hdel
  | promote hprom hne h =>
    obtain ⟨hentry, hparam⟩ := hedit h
    exact ⟨hentry, hparam⟩
  | @visit task hvisit h =>
    obtain ⟨_, _, _, _, _, heq⟩ := visitSuspended_same task env.rtcCounter
    rw [heq]
    exact ⟨rfl, rfl⟩
  | suspend _ _ _ _ _ | finish _ _ | zombie _ _ | begin _ _ _ | resume _ _ _ _ => exact ⟨rfl, rfl⟩

/-- The steps that create no task in the slot of the running one and ask for no deferred
call. -/
def Tidy (env : Env) (act : Act) : Prop := NoSlotReuse env act ∧ RtReturnsZero env act

theorem run_unstarted (hr : Reachable w env) (hu : Unstarted (env.slot t))
    (hrun : ReflTransGen
      (StepWhere w fun env act => Tidy env act ∧ ¬Starts env act t) env env') :
    Unstarted (env'.slot t) := by
  induction hrun with
  | refl => exact hu
  | tail hrun hstep ih =>
    obtain ⟨act, hs, ⟨hreuse, hrt⟩, hstart⟩ := hstep
    exact step_unstarted (reachable_of_run hr hrun).inv hs ih hreuse hrt hstart

theorem run_nothingSaved (hr : Reachable w env) (hn : NothingSaved (env.slot t))
    (hrun : ReflTransGen
      (StepWhere w fun env act => Tidy env act ∧ ¬Blocks env act t) env env') :
    NothingSaved (env'.slot t) := by
  induction hrun with
  | refl => exact hn
  | tail hrun hstep ih =>
    obtain ⟨act, hs, ⟨-, hrt⟩, hblock⟩ := hstep
    exact step_nothingSaved (reachable_of_run hr hrun).inv hs ih hrt hblock

/-- As long as the task is neither deleted, asked for nor started, nothing else is in its
slot. -/
theorem run_given (hr : Reachable w env) (hu : Unstarted (env.slot t))
    (hlive : (env.taskTable t).entryPoint ≠ none)
    (hrun : ReflTransGen (StepWhere w fun env act =>
      (t ≠ idleTaskId → ¬Promotes env act t) ∧ ¬Starts env act t ∧ ¬Deletes env act t) env env') :
    Unstarted (env'.slot t) ∧ (env'.taskTable t).entryPoint = (env.taskTable t).entryPoint ∧
      (env'.taskTable t).param = (env.taskTable t).param := by
  induction hrun with
  | refl => exact ⟨hu, rfl, rfl⟩
  | tail hrun hstep ih =>
    obtain ⟨hu₁, hentry, hparam⟩ := ih
    obtain ⟨act, hs, hprom, hstart, hdel⟩ := hstep
    have hlive₁ := hentry ▸ hlive
    obtain ⟨hentry', hparam'⟩ := (step_slot hs t).given hu₁ hlive₁ hdel
    refine ⟨(step_slot hs t).unstarted hu₁ ?_ ?_ hprom ?_, hentry'.trans hentry,
      hparam'.trans hparam⟩
    · exact fun hvisit => (reachable_of_run hr hrun).inv.live_of_visits hvisit
    · exact fun _ _ _ _ _ => (hu₁ hlive₁).1
    · rintro ⟨hvisit, hstatus, hwkup⟩
      exact hstart ⟨⟨hvisit, hstatus⟩, hwkup⟩

/-- **A deleted task does not run again.**  In every run whose steps are tidy:
after `mipos_t_delete` nothing is resumed in the slot until the dispatcher has started
a task there; what is resumed after a start has been saved by a blocking call made
since; and a task that is created in a slot is started at its own entry point. -/
theorem deleted_not_resumed (hr : Reachable w env) (t : ℕ) :
    (∀ act env₁ env₂, step w env act = some env₁ → Deletes env act t →
      ReflTransGen (StepWhere w fun env act => Tidy env act ∧ ¬Starts env act t)
        env₁ env₂ → ¬Resumes env₂ .sched t) ∧
    (∀ act env₁ env₂, step w env act = some env₁ → Starts env act t →
      ReflTransGen (StepWhere w fun env act => Tidy env act ∧ ¬Blocks env act t)
        env₁ env₂ → ¬Resumes env₂ .sched t) ∧
    (∀ entryPoint param env₁ env₂,
      step w env (.api (.tCreate (some entryPoint) param false)) = some env₁ →
      env.freeSlot = some t → Tidy env (.api (.tCreate (some entryPoint) param false)) →
      ReflTransGen (StepWhere w fun env act =>
        Tidy env act ∧ ¬Starts env act t ∧ ¬Deletes env act t) env₁ env₂ →
      Dispatches env₂ .sched t → Starts env₂ .sched t ∧
        (env₂.taskTable t).entryPoint = some entryPoint ∧ (env₂.taskTable t).param = param) := by
  refine ⟨?_, ?_, ?_⟩
  · rintro act env₁ env₂ hs hdel hrun ⟨⟨hvisit, -⟩, hwkup⟩
    have hu : Unstarted (env₁.slot t) := fun hlive => absurd (hdel.dead hs) hlive
    have hr₁ := hr.step hs
    have hu₂ := run_unstarted hr₁ hu hrun
    have hlive := (reachable_of_run hr₁ hrun).inv.live_of_visits hvisit
    have hoff : (env₂.taskTable t).wkup = false := (hu₂ hlive).2.1
    rw [hwkup] at hoff
    cases hoff
  · rintro act env₁ env₂ hs hstart hrun ⟨-, hwkup⟩
    have hn : NothingSaved (env₁.slot t) := by
      rcases hstart.1.slot_cases hs with ⟨hoff, hslot⟩ | ⟨hon, -⟩
      · rw [hslot]
        exact ⟨hoff, fun _ _ h => by cases h⟩
      · rw [hstart.2] at hon
        cases hon
    have hoff : (env₂.taskTable t).wkup = false := (run_nothingSaved (hr.step hs) hn hrun).1
    rw [hwkup] at hoff
    cases hoff
  · intro entryPoint param env₁ env₂ hs hslot htidy hrun hdisp
    have hcpu := htidy.1.off_cpu rfl hslot
    have hsl : env₁.slot t
        = ⟨(env.slot t).onCpu, (env.taskTable t).create (some entryPoint) param false⟩ := by
      obtain ⟨-, hs⟩ := step_api hs
      cases hs
      rw [Env.tCreate, hslot]
      have hc : SameControl env (env.setTask t ((env.taskTable t).create (some entryPoint) param
          false)) := ⟨rfl, rfl, rfl⟩
      rw [slot_of_sameControl hc, setTask_taskTable, update_self]
    have htask : env₁.taskTable t = (env.taskTable t).create (some entryPoint) param false :=
      congrArg Slot.task hsl
    have hu : Unstarted (env₁.slot t) := by
      intro _
      rw [hsl, hcpu]
      exact ⟨rfl, rfl, false, rfl⟩
    have hlive : (env₁.taskTable t).entryPoint ≠ none := by
      rw [htask]
      exact Option.some_ne_none entryPoint
    have hr₁ := hr.step hs
    obtain ⟨hu₂, hentry, hparam⟩ := run_given hr₁ hu hlive
      (run_mono (fun _ _ h => ⟨h.1.2.not_promotes, h.2⟩) hrun)
    have hwkup : (env₂.taskTable t).wkup = false :=
      (hu₂ ((reachable_of_run hr₁ hrun).inv.live_of_visits hdisp.1)).2.1
    rw [htask] at hentry hparam
    exact ⟨⟨hdisp, hwkup⟩, hentry, hparam⟩

/-- Steps in which no call is made that could change the descriptor of another task. -/
def makesNoCall (_ : Env) : Act → Bool
  | .api _ => false
  | _ => true

/-- Scheduler steps that do not come to `t`, and blocking calls of other tasks. -/
def leavesAlone (t : ℕ) (env : Env) : Act → Bool
  | .sched => !(env.pc == .tsm && env.currentTask == t)
  | .block _ => env.taskContextPtr != t
  | _ => false

theorem leavesAlone_spec (env : Env) (act : Act) (h : leavesAlone t env act = true) :
    Tidy env act ∧ ¬Starts env act t ∧ ¬Deletes env act t ∧ ¬Blocks env act t := by
  cases act with
  | sched =>
    have hne : ¬(env.pc = .tsm ∧ env.currentTask = t) := by
      rintro ⟨hpc, hcur⟩
      simp [leavesAlone, hpc, hcur] at h
    refine ⟨⟨?_, ?_⟩, ?_, ?_, ?_⟩
    · intro entryPoint param rt hact
      cases hact
    · intro taskCount value _ hact
      cases hact
    · rintro ⟨⟨⟨-, hpc, hcur⟩, -⟩, -⟩
      exact hne ⟨hpc, hcur⟩
    · rintro ⟨id, hact, -⟩
      cases hact
    · rintro ⟨call, hact, -⟩
      cases hact
  | block call =>
    have hne : env.taskContextPtr ≠ t := by simpa [leavesAlone] using h
    refine ⟨⟨?_, ?_⟩, ?_, ?_, ?_⟩
    · intro entryPoint param rt hact
      cases hact
    · intro taskCount value _ hact
      cases hact
    · rintro ⟨⟨⟨hact, -⟩, -⟩, -⟩
      cases hact
    · rintro ⟨id, hact, -⟩
      cases hact
    · rintro ⟨call', -, -, hptr⟩
      exact hne hptr
  | updateRtc _ | api _ | ret _ => cases h

/-- The root task creates a task in slot 2 and yields, and the task is started; the root
task then deletes it while it sleeps, and the scheduler goes round. -/
theorem deleted_not_resumed_worker :
    ∃ env₁ env₂ env₃ env₄ env₅ env₆ env₇ : Env, Reachable 64 env₁ ∧
      step 64 env₁ (.api (.tCreate (some 5) 9 false)) = some env₂ ∧
      runWhere 64 (leavesAlone 2) env₂ [.block (.tmWkafter 0), .sched, .sched] = some env₃ ∧
      Starts env₃ .sched 2 ∧ (env₃.taskTable 2).entryPoint = some 5 ∧
      step 64 env₃ .sched = some env₄ ∧ ¬Resumes env₄ .sched 2 ∧
      runActs 64 env₄ ([Act.block .tSuspend] ++ List.replicate 21 Act.sched) = some env₅ ∧
      step 64 env₅ (.api (.tDelete 2)) = some env₆ ∧
      runWhere 64 (leavesAlone 2) env₆ ([Act.block (.tmWkafter 0)] ++ List.replicate 4 Act.sched)
        = some env₇ ∧ ¬Resumes env₇ .sched 2 := by
  have heval : ∃ env₁, runActs 64 boot toRoot = some env₁ ∧ env₁.freeSlot = some 2 ∧
      env₁.taskContextPtr = 1 ∧
      ∃ env₂, step 64 env₁ (.api (.tCreate (some 5) 9 false)) = some env₂ ∧
      ∃ env₃, runWhere 64 (leavesAlone 2) env₂ [.block (.tmWkafter 0), .sched, .sched] = some env₃ ∧
      Dispatches env₃ .sched 2 ∧
      ∃ env₄, step 64 env₃ .sched = some env₄ ∧
      ∃ env₅, runActs 64 env₄ ([Act.block .tSuspend] ++ List.replicate 21 Act.sched) = some env₅ ∧
      env₅.getPTask 2 = some 2 ∧
      ∃ env₆, step 64 env₅ (.api (.tDelete 2)) = some env₆ ∧
      ∃ env, runWhere 64 (leavesAlone 2) env₆ ([Act.block (.tmWkafter 0)] ++
        List.replicate 4 Act.sched) = some env := by decide +kernel
  obtain ⟨env₁, hrun₁, hfree, htidy, env₂, hs₁, env₃, hrun₂, hdispatch, env₄, hs₃, env₅, hrun₄,
      hid, env₆, hs₅, env₇, hrun₆⟩ := heval
  have hr₁ : Reachable 64 env₁ := Reachable.runActs .boot hrun₁
  have hquiet := fun env act h => leavesAlone_spec (t := 2) env act h
  -- the task is started at its entry point
  obtain ⟨hstart, hentry, -⟩ := (deleted_not_resumed hr₁ 2).2.2 5 9 env₂ env₃ hs₁ hfree
    ⟨by simp [NoSlotReuse, hfree, htidy], by simp [RtReturnsZero]⟩
    (run_of_runWhere (fun env act h => ⟨(hquiet env act h).1, (hquiet env act h).2.1,
      (hquiet env act h).2.2.1⟩) hrun₂) hdispatch
  have hr₃ : Reachable 64 env₃ :=
    reachable_of_run (hr₁.step hs₁) (run_of_runWhere (fun env act h => (hquiet env act h).1) hrun₂)
  have hnot := (deleted_not_resumed hr₃ 2).2.1 .sched env₄ env₄ hs₃ hstart .refl
  have hr₅ : Reachable 64 env₅ := (hr₃.step hs₃).runActs hrun₄
  have hnot' := (deleted_not_resumed hr₅ 2).1 (.api (.tDelete 2)) env₆ env₇ hs₅ ⟨2, rfl, hid⟩
    (run_of_runWhere (fun env act h => ⟨(hquiet env act h).1, (hquiet env act h).2.1⟩) hrun₆)
  exact ⟨env₁, env₂, env₃, env₄, env₅, env₆, env₇, hr₁, hs₁, hrun₂, hstart, hentry, hs₃, hnot, hrun₄,
    hs₅, hrun₆, hnot'⟩

/-- Scheduler steps that do not start `t`, and blocking calls. -/
def startsNot (t : ℕ) (env : Env) : Act → Bool
  | .sched => !(env.pc == .tsm && env.currentTask == t && (env.taskTable t).status == taskReady &&
      !(env.taskTable t).wkup)
  | .block _ => true
  | _ => false

theorem startsNot_spec (env : Env) (act : Act) (h : startsNot t env act = true) :
    RtReturnsZero env act ∧ ¬Starts env act t := by
  constructor
  · intro taskCount value _ hact
    rw [hact] at h
    cases h
  · rintro ⟨⟨⟨rfl, hpc, hcur⟩, hstatus⟩, hwkup⟩
    simp [startsNot, hpc, hcur, hstatus, hwkup] at h

/-- The root task deletes itself, creates a task, which gets its slot, and yields.  The
next time the slot is dispatched, it is the root task that goes on, and the new task
has not been started. -/
theorem deleted_task_resumed :
    ∃ env₁ env₂ env₃ env₄ : Env, Reachable 64 env₁ ∧ env₁.pc = .running ∧
      env₁.taskContextPtr = 1 ∧ step 64 env₁ (.api (.tDelete 0)) = some env₂ ∧
      Deletes env₁ (.api (.tDelete 0)) 1 ∧
      step 64 env₂ (.api (.tCreate (some 5) 9 false)) = some env₃ ∧ env₂.freeSlot = some 1 ∧
      ReflTransGen (StepWhere 64 fun env act => RtReturnsZero env act ∧
        ¬Starts env act 1) env₃ env₄ ∧ Resumes env₄ .sched 1 := by
  have heval : ∃ env₁, runActs 64 boot toRoot = some env₁ ∧ env₁.pc = .running ∧
      env₁.taskContextPtr = 1 ∧ env₁.getPTask 0 = some 1 ∧
      ∃ env₂, step 64 env₁ (.api (.tDelete 0)) = some env₂ ∧ env₂.freeSlot = some 1 ∧
      ∃ env₃, step 64 env₂ (.api (.tCreate (some 5) 9 false)) = some env₃ ∧
      ∃ env₄, runWhere 64 (startsNot 1) env₃ ([Act.block (.tmWkafter 0)] ++
        List.replicate 19 Act.sched) = some env₄ ∧ Resumes env₄ .sched 1 := by decide +kernel
  obtain ⟨env₁, hrun₁, hpc, hptr, hid, env₂, hs₁, hfree, env₃, hs₂, env₄, hrun₃, hres⟩ := heval
  exact ⟨env₁, env₂, env₃, env₄, Reachable.runActs .boot hrun₁, hpc, hptr, hs₁,
    ⟨0, rfl, hid⟩, hs₂, hfree, run_of_runWhere startsNot_spec hrun₃, hres⟩

/-! ### Resumed contexts -/

/-- An RT task asks only for a task whose context is saved. -/
def SavedTarget (env : Env) (act : Act) : Prop :=
  ∀ taskCount t, env.pc = .inRt taskCount → act = .ret (t : ℕ) → t ≠ idleTaskId →
    ∃ signum queue, (env.taskTable t).stack = .saved signum queue

/-- The steps that create no task in the slot of the running one, and in which RT tasks
ask only for tasks whose context is saved. -/
def Sound (env : Env) (act : Act) : Prop := NoSlotReuse env act ∧ SavedTarget env act

/-- In the run from `env₀` to `env`, task `t` was started and has not been deleted
since. -/
def StartedBefore (w : ℕ) (env₀ : Env) (t : ℕ) (env : Env) : Prop :=
  ∃ env₁ env₂, ReflTransGen (StepWhere w Sound) env₀ env₁ ∧ Starts env₁ .sched t ∧
    step w env₁ .sched = some env₂ ∧ ReflTransGen
      (StepWhere w fun env act => ¬Deletes env act t ∧ ¬Starts env act t) env₂ env

/-- In the run from `env₀` to `env`, task `t` was started, has saved its context in a
blocking call, and has neither been deleted nor dispatched since. -/
def SavedBefore (w : ℕ) (env₀ : Env) (t : ℕ) (env : Env) : Prop :=
  ∃ env₁ env₂, StartedBefore w env₀ t env₁ ∧ (∃ call, env₁.pc = .running ∧
      env₁.taskContextPtr = t ∧ step w env₁ (.block call) = some env₂ ∧ env₂.pc = .epoch) ∧
    ReflTransGen
      (StepWhere w fun env act => ¬Deletes env act t ∧ ¬Dispatches env act t) env₂ env

/-- A context is saved. -/
def Stack.IsSaved (stack : Stack) : Prop := ∃ signum queue, stack = .saved signum queue

/-- What is known of the task in a slot: `R` if it has the processor, `S` if its context
is saved; and what is to be resumed is saved. -/
structure ContextOk (R S : Prop) (sl : Slot) : Prop where
  running : sl.onCpu = true → R
  saved : sl.task.stack.IsSaved → S
  wkup : sl.task.wkup = true → sl.task.stack.IsSaved

theorem TaskEdit.context {task task' : Task} (hedit : TaskEdit env act t task task') :
    task'.entryPoint = task.entryPoint ∧ task'.stack = task.stack ∧ task'.wkup = task.wkup := by
  cases hedit with
  | restart newParam _ _ =>
    rw [Task.restart]
    split
    · exact ⟨rfl, rfl, rfl⟩
    · exact ⟨rfl, rfl, rfl⟩
  | same | retValue _ _ _ | notifySignal _ _ _ | notifyQueue _ _ _ | sigIgnore _ _ _
  | sigAllow _ _ _ | freeze _ _ | unfreeze _ _ => exact ⟨rfl, rfl, rfl⟩

/-- **What one step does to the context of a task**, apart from dispatching it. -/
theorem SlotStep.context {sl sl' : Slot} (hstep : SlotStep env act t sl sl') {phase : Phase}
    {frozen : Bool} (hok : SlotOk sl phase frozen) {R S R' S' : Prop}
    (hctx : sl.task.entryPoint ≠ none → ContextOk R S sl) (hR : R → R') (hS : S → S')
    (hblock : ∀ call, act = .block call → sl.onCpu = true → sl'.onCpu = false → R → S')
    (hcreate : ∀ entryPoint param rt, act = .api (.tCreate entryPoint param rt) →
      env.freeSlot = some t → sl.onCpu = false)
    (hprom : Promotes env act t → t ≠ idleTaskId → sl.task.stack.IsSaved)
    (hdisp : ¬(Visits env act t ∧ sl.task.status = taskReady))
    (hlive : sl'.task.entryPoint ≠ none) : ContextOk R' S' sl' := by
  cases hstep with
  | edit hedit =>
    obtain ⟨hentry, hstack, hwkup⟩ := hedit.context
    have hc := hctx (hentry ▸ hlive)
    refine ⟨fun h => hR (hc.running h), fun h => hS (hc.saved ?_), fun h => ?_⟩
    · rwa [hstack] at h
    · rw [hstack]
      exact hc.wkup (hwkup ▸ h)
  | create hact hslot hfree =>
    have hoff : _ = false := hcreate _ _ _ hact hslot
    refine ⟨fun h => ?_, fun h => ?_, fun h => ?_⟩
    · rw [hoff] at h
      cases h
    · obtain ⟨signum, queue, h⟩ := h
      cases h
    · cases h
  | delete hdel => exact absurd rfl hlive
  | promote h hne hedit =>
    obtain ⟨hentry, hstack, -⟩ := hedit.context
    have hc := hctx (hentry ▸ hlive)
    have hsaved := hprom h hne
    refine ⟨fun h => ?_, fun _ => hS (hc.saved hsaved), fun _ => ?_⟩
    · cases h
    · rw [Task.promote, hstack]
      exact hsaved
  | suspend signum queue ticks timeout hact =>
    have hc := hctx hlive
    refine ⟨fun h => ?_, fun _ => hblock _ hact rfl rfl (hc.running rfl), fun _ => ?_⟩
    · cases h
    · exact ⟨signum, queue, rfl⟩
  | finish value hact =>
    have hc := hctx hlive
    refine ⟨fun h => ?_, fun h => ?_, fun h => ?_⟩
    · cases h
    · obtain ⟨signum, queue, h⟩ := h
      cases h
    · -- a task with the processor has no saved context to be resumed
      obtain ⟨signum, queue, hsaved⟩ := hc.wkup h
      exact absurd hsaved ((hok.onCpu rfl).1 signum queue)
  | zombie hvisit hstatus =>
    have hc := hctx hlive
    exact ⟨fun h => hR (hc.running h), fun h => hS (hc.saved h), hc.wkup⟩
  | @visit task hvisit hstatus =>
    obtain ⟨rfl, rfl⟩ := Phase.eq_of_word .suspended (hok.status.symm.trans hstatus)
    obtain ⟨queue, hsaved⟩ := hok.suspended rfl
    have hsame : (task.visitSuspended env.rtcCounter).stack = task.stack ∧
        (task.visitSuspended env.rtcCounter).entryPoint = task.entryPoint := by
      obtain ⟨_, _, _, _, _, heq⟩ := visitSuspended_same task env.rtcCounter
      rw [heq]
      exact ⟨rfl, rfl⟩
    have hc := hctx (hsame.2 ▸ hlive)
    refine ⟨fun h => ?_, fun _ => hS (hc.saved ⟨_, queue, hsaved⟩), fun _ => ?_⟩
    · cases h
    · exact ⟨_, queue, hsame.1.trans hsaved⟩
  | begin hvisit hstatus hwkup => exact absurd ⟨hvisit, hstatus⟩ hdisp
  | resume hvisit hstatus hwkup hstack => exact absurd ⟨hvisit, hstatus⟩ hdisp

/-- What is known of the contexts in the run from `env₀`. -/
def ContextInv (w : ℕ) (env₀ env : Env) : Prop :=
  ∀ t, (env.taskTable t).entryPoint ≠ none →
    ContextOk (StartedBefore w env₀ t env) (SavedBefore w env₀ t env) (env.slot t)

theorem StartedBefore.tail {env₀ : Env} (h : StartedBefore w env₀ t env)
    (hs : step w env act = some env') (hdel : ¬Deletes env act t) (hstart : ¬Starts env act t) :
    StartedBefore w env₀ t env' := by
  obtain ⟨env₁, env₂, hrun, hstarts, hs₁, hrest⟩ := h
  exact ⟨env₁, env₂, hrun, hstarts, hs₁, hrest.tail ⟨act, hs, hdel, hstart⟩⟩

theorem SavedBefore.tail {env₀ : Env} (h : SavedBefore w env₀ t env)
    (hs : step w env act = some env') (hdel : ¬Deletes env act t) (hdisp : ¬Dispatches env act t) :
    SavedBefore w env₀ t env' := by
  obtain ⟨env₁, env₂, hstarted, hblock, hrest⟩ := h
  exact ⟨env₁, env₂, hstarted, hblock, hrest.tail ⟨act, hs, hdel, hdisp⟩⟩

/-- A task whose context is saved was started before it saved it. -/
theorem SavedBefore.started {env₀ : Env} (h : SavedBefore w env₀ t env) :
    StartedBefore w env₀ t env := by
  obtain ⟨env₁, env₂, hstarted, ⟨call, -, -, hs, -⟩, hrest⟩ := h
  have hstarted₂ : StartedBefore w env₀ t env₂ := by
    refine hstarted.tail hs ?_ ?_
    · rintro ⟨id, hact, -⟩
      cases hact
    · rintro ⟨⟨⟨hact, -⟩, -⟩, -⟩
      cases hact
  induction hrest with
  | refl => exact hstarted₂
  | tail _ hstep ih =>
    obtain ⟨act, hs', hdel, hdisp⟩ := hstep
    exact ih.tail hs' hdel fun hstart => hdisp hstart.1

/-- **Every sound step keeps what is known of the contexts.** -/
theorem ContextInv.step {env₀ : Env} (hc : ContextInv w env₀ env) (hi : EnvInv env)
    (hrun : ReflTransGen (StepWhere w Sound) env₀ env)
    (hs : step w env act = some env') (hsound : Sound env act) : ContextInv w env₀ env' := by
  intro t hlive
  have hdel : ¬Deletes env act t := fun hdel => hlive (hdel.dead hs)
  by_cases hdisp : Dispatches env act t
  · -- the processor goes to `t`, whose stack is then in use
    obtain ⟨⟨rfl, hpc, hcur⟩, hstatus⟩ := hdisp
    have hdisp : Dispatches env .sched t := ⟨⟨rfl, hpc, hcur⟩, hstatus⟩
    have hnone : ∀ {stack : Stack}, stack = .running → ¬stack.IsSaved := by
      rintro _ rfl ⟨signum, queue, h⟩
      cases h
    rcases hdisp.slot_cases hs with ⟨hoff, hslot⟩ | ⟨hon, signum, queue, hstack, hslot⟩
    · rw [hslot]
      refine ⟨fun _ => ⟨env, env', hrun, ⟨hdisp, hoff⟩, hs, .refl⟩, ?_, ?_⟩
      · intro hsaved
        exact absurd hsaved (hnone rfl)
      · intro hwkup
        rw [show ({ env.taskTable t with status := taskRunning, stack := .running } : Task).wkup
          = (env.taskTable t).wkup from rfl, hoff] at hwkup
        cases hwkup
    · rw [hslot]
      have hsaved := (hc t (hi.live_of_visits hdisp.1)).saved ⟨signum, queue, hstack⟩
      refine ⟨fun _ => hsaved.started.tail hs hdel ?_, ?_, ?_⟩
      · rintro ⟨-, hoff⟩
        rw [hon] at hoff
        cases hoff
      · intro h
        exact absurd h (hnone rfl)
      · intro h
        cases h
  · obtain ⟨phase, frozen, hok⟩ := hi.slots t
    refine (step_slot hs t).context hok (hc t) ?_ ?_ ?_ ?_ ?_ ?_ hlive
    · intro h
      exact h.tail hs hdel fun hstart => hdisp hstart.1
    · intro h
      exact h.tail hs hdel hdisp
    · -- the blocking call that saves the context
      rintro call rfl hon hoff h
      simp only [Env.slot, decide_eq_true_eq] at hon
      refine ⟨env, env', h, ⟨call, hon.1, hon.2, hs, ?_⟩, .refl⟩
      rw [step, if_pos hon.1] at hs
      cases hs
      rcases block_pc w hon.1 call with hpc | hpc
      · exact hpc
      · -- the call would have returned at once
        simp [Env.slot, hpc, block_pointers, hon.2] at hoff
    · intro entryPoint param rt hact hslot
      exact hsound.1.off_cpu hact hslot
    · rintro ⟨taskCount, hpc, hact⟩ hne
      exact hsound.2 taskCount t hpc hact hne
    · exact hdisp

/-- At the start no task has run, and no signal is pending. -/
theorem start_unused (root param : ℕ) (queues : ℕ → Queue) (t : ℕ) :
    ((Env.start root param queues).taskTable t).stack = .unused ∧
      ((Env.start root param queues).taskTable t).wkup = false ∧
      ((Env.start root param queues).taskTable t).signalPending = 0 := by
  rw [start_taskTable]
  rcases eq_or_ne t 1 with rfl | hne
  · rw [update_self]
    exact ⟨rfl, rfl, rfl⟩
  · rw [update_of_ne hne, schedulerInit]
    dsimp only
    split
    · exact ⟨rfl, rfl, rfl⟩
    · exact ⟨rfl, rfl, rfl⟩

theorem contextInv_start (w root param : ℕ) (queues : ℕ → Queue) :
    ContextInv w (.start root param queues) (.start root param queues) := by
  intro t _
  obtain ⟨hstack, hwkup, -⟩ := start_unused root param queues t
  refine ⟨fun h => ?_, fun h => ?_, fun h => ?_⟩
  · simp [Env.slot, show (Env.start root param queues).pc = .epoch from rfl] at h
  · obtain ⟨signum, queue, h⟩ := h
    rw [show ((Env.start root param queues).slot t).task.stack = .unused from hstack] at h
    cases h
  · rw [show ((Env.start root param queues).slot t).task.wkup = false from hwkup] at h
    cases h

/-- **The dispatcher resumes only saved contexts**: if RT tasks ask only for tasks whose
context is saved, and no task creates a task in its own slot, then a task that is
resumed was started, has saved its context in a blocking call, and has neither been
deleted nor dispatched since. -/
theorem resumes_saved {root param : ℕ} {queues : ℕ → Queue}
    (hrun : ReflTransGen (StepWhere w Sound) (.start root param queues) env)
    (hres : Resumes env .sched t) :
    (env.taskTable t).stack.IsSaved ∧ SavedBefore w (.start root param queues) t env := by
  have hinv : ContextInv w (.start root param queues) env ∧ EnvInv env := by
    clear hres
    induction hrun with
    | refl => exact ⟨contextInv_start w root param queues, start_inv root param queues⟩
    | tail hrun' hstep ih =>
      obtain ⟨act, hs, hsound⟩ := hstep
      exact ⟨ih.1.step ih.2 hrun' hs hsound, step_inv ih.2 hs⟩
  have hctx := hinv.1 t (hinv.2.live_of_visits hres.1.1)
  have hsaved := hctx.wkup hres.2
  exact ⟨hsaved, hctx.saved hsaved⟩

/-- Steps of the scheduler, blocking calls, the creation of tasks in other slots, and RT tasks that
ask for a task whose context is saved. -/
def isSound (env : Env) : Act → Bool
  | .sched | .block _ => true
  | .api (.tCreate _ _ _) => env.freeSlot != some env.taskContextPtr
  | .ret (.ofNat t) =>
    match (env.taskTable t).stack with
    | .saved _ _ => true
    | _ => false
  | _ => false

theorem isSound_spec (env : Env) (act : Act) (h : isSound env act = true) : Sound env act := by
  constructor
  · rintro entryPoint param rt rfl -
    simpa [isSound] using h
  · rintro taskCount t - rfl -
    change (match (env.taskTable t).stack with
      | .saved _ _ => true
      | _ => false) = true at h
    split at h
    · exact ⟨_, _, ‹_›⟩
    · cases h

/-- The root task creates an RT task and is suspended; the RT task asks for it, and it is
resumed. -/
theorem resumes_saved_root :
    ∃ env₁ env : Env, env₁.pc = .inRt 1 ∧ (env₁.taskTable 1).status = taskSuspended ∧
      step 64 env₁ (.ret 1) = some env ∧ Resumes env .sched 1 ∧
      (env.taskTable 1).stack.IsSaved ∧
      SavedBefore 64 boot 1 env := by
  have heval : ∃ env₁, runWhere 64 isSound boot (toRoot ++ [Act.api (.tCreate (some 2) 0 true),
        .block .tSuspend, .sched, .sched]) = some env₁ ∧ env₁.pc = .inRt 1 ∧
      (env₁.taskTable 1).status = taskSuspended ∧ isSound env₁ (.ret 1) = true ∧
      ∃ env, step 64 env₁ (.ret 1) = some env ∧ Resumes env .sched 1 := by decide +kernel
  obtain ⟨env₁, hrun, hpc₁, hstatus₁, hsound, env, hs, hres⟩ := heval
  exact ⟨env₁, env, hpc₁, hstatus₁, hs, hres, resumes_saved
    ((run_of_runWhere isSound_spec hrun).tail ⟨_, hs, isSound_spec _ _ hsound⟩) hres⟩

/-- The root task creates an RT task and a task and yields; the RT task asks for the task
in slot 3, which has not run, and the dispatcher goes to resume it. -/
theorem never_run_resumed :
    ∃ env₁ : Env, runActs 64 boot (List.replicate 3 Act.sched ++
        [Act.api (.tCreate (some 2) 0 true), .api (.tCreate (some 5) 9 false),
          .block (.tmWkafter 0), .sched, .sched]) = some env₁ ∧
      env₁.pc = .inRt 1 ∧ (env₁.taskTable 3).entryPoint = some 5 ∧
      (env₁.taskTable 3).rtTask = false ∧ (env₁.taskTable 3).stack = .unused ∧
      ∃ env₂, step 64 env₁ (.ret 3) = some env₂ ∧ Resumes env₂ .sched 3 ∧
        (env₂.taskTable 3).stack = .unused := by
  decide +kernel

end Kernel
