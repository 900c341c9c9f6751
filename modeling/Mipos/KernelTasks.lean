/-
The life of a task.

The status of a slot is one of five phases with or without the frozen bit, whoever
wrote it; the phase, the saved registers and the wait mask fit together (`SlotOk`).
This is an invariant of the slot machine (`SlotStep.ok`), and so of every run of the
kernel (`Reachable.inv`).
* `task_states` — the task state machine never meets an unexpected status, and what
  it retires to `TASK_ZOMBIE` has returned.
-/
import Mipos.KernelRuns
import Mipos.KernelSlots

namespace Kernel

variable {w : ℕ} {env env' : Env} {act : Act} {t : ℕ} {phase : Phase}

/-! ### Phases -/

/-- The status of a task without the frozen bit. -/
inductive Phase
  | notRunning
  | ready
  | running
  | suspended
  | zombie
  deriving DecidableEq, Repr

/-- The status word. -/
def Phase.word : Phase → Bool → BitVec 16
  | phase, frozen =>
    (match phase with
      | .notRunning => taskNotRunning
      | .ready => taskReady
      | .running => taskRunning
      | .suspended => taskSuspended
      | .zombie => taskZombie) ||| if frozen then taskFrozen else 0

theorem Phase.word_inj {p p' : Phase} {f f' : Bool} (h : p.word f = p'.word f') :
    p = p' ∧ f = f' := by
  revert h
  cases p <;> cases p' <;> cases f <;> cases f' <;> decide

theorem Phase.word_freeze (p : Phase) (f : Bool) : p.word f ||| taskFrozen = p.word true := by
  cases p <;> cases f <;> decide

theorem Phase.word_unfreeze (p : Phase) (f : Bool) : p.word f &&& ~~~taskFrozen = p.word false := by
  cases p <;> cases f <;> decide

theorem Phase.eq_of_word {p : Phase} {f : Bool} (p' : Phase) (h : p.word f = p'.word false) :
    p = p' ∧ f = false := Phase.word_inj h

/-- The statuses that the selection loop takes. -/
theorem Phase.word_selected {p : Phase} {f : Bool}
    (h : p.word f &&& (taskNotRunning ||| taskZombie ||| taskFrozen) = 0) :
    f = false ∧ (p = .ready ∨ p = .running ∨ p = .suspended) := by
  revert h
  cases p <;> cases f <;> decide

/-- The status that a blocking call leaves. -/
theorem Phase.word_wait (p : Phase) (f : Bool) :
    (if p.word f &&& (taskReady ||| taskRunning ||| taskSuspended) ≠ 0 then taskSuspended
      else p.word f)
      = if p = .notRunning ∨ p = .zombie then p.word f else Phase.word .suspended false := by
  cases p <;> cases f <;> decide

/-! ### Signals -/

/-- A signal is one bit. -/
theorem signal_bit {signum : BitVec 8} {k i : ℕ} (hsig : signum = BitVec.twoPow 8 k)
    (h : signum.getLsbD i = true) : i = k := by
  rw [hsig, BitVec.getLsbD_twoPow, Bool.and_eq_true, decide_eq_true_eq, decide_eq_true_eq] at h
  exact h.2.symm

/-- The step notifies `t` of the signal with the number `i`. -/
def Sends (env : Env) (act : Act) (t i : ℕ) : Prop :=
  ∃ id signum, act = .api (.tNotifySignal id signum) ∧ env.getPTask id = some t ∧
    signum.getLsbD i = true

/-- **Which calls raise a signal**: those that notify of it, and for `MIPOS_SIGQUE` a message to
a queue that the task is waiting at. -/
theorem TaskEdit.sends {task task' : Task} (hedit : TaskEdit env act t task task') {i : ℕ}
    (hset : task'.signalPending.getLsbD i = true) :
    task.signalPending.getLsbD i = true ∨ Sends env act t i ∨
      i = 1 ∧ ∃ q item, act = .api (.qSend q item) ∧ (env.queues q).suspendedTid ≠ 0 ∧
        env.getPTask (env.queues q).suspendedTid = some t := by
  cases hedit with
  | @notifySignal id signum hact hid =>
    simp only [Task.notifySignal, BitVec.getLsbD_or, BitVec.getLsbD_and, Bool.or_eq_true,
      Bool.and_eq_true] at hset
    rcases hset with h | ⟨h, -⟩
    · exact .inl h
    · exact .inr (.inl ⟨id, signum, hact, hid, h⟩)
  | @notifyQueue q item hact hwaiter hid =>
    simp only [Task.notifySignal, BitVec.getLsbD_or, BitVec.getLsbD_and, Bool.or_eq_true,
      Bool.and_eq_true] at hset
    rcases hset with h | ⟨h, -⟩
    · exact .inl h
    · exact .inr (.inr ⟨signal_bit rfl h, q, item, hact, hwaiter, hid⟩)
  | restart newParam _ _ =>
    rw [Task.restart] at hset
    split at hset <;> exact .inl hset
  | same | retValue _ _ _ | freeze _ _ | unfreeze _ _ | sigIgnore _ _ _ | sigAllow _ _ _ =>
    exact .inl hset

/-! ### A visit to a suspended task -/

/-- The clocks change the counters and add `MIPOS_SIGALM` and `MIPOS_SIGTMR`. -/
structure Clocked (task task' : Task) : Prop where
  same : task' = { task with
    timerTickCount := task'.timerTickCount
    rtcTimeout := task'.rtcTimeout
    signalPending := task'.signalPending }
  adds : ∀ s, task.signalPending.getLsbD s = true → task'.signalPending.getLsbD s = true
  only : ∀ s, (sigalm ||| sigtmr).getLsbD s = false → task'.signalPending.getLsbD s = true →
    task.signalPending.getLsbD s = true

theorem Clocked.refl (task : Task) : Clocked task task := ⟨rfl, fun _ h => h, fun _ _ h => h⟩

theorem Clocked.trans {task task₁ task₂ : Task} (h₁ : Clocked task task₁)
    (h₂ : Clocked task₁ task₂) : Clocked task task₂ := by
  refine ⟨?_, fun s hs => h₂.adds s (h₁.adds s hs), fun s hno hs =>
    h₁.only s hno (h₂.only s hno hs)⟩
  rw [h₂.same, h₁.same]

theorem clocked_or (task : Task) {signum : BitVec 8} (hsig : signum = sigalm ∨ signum = sigtmr)
    (timeout : ℕ) : Clocked task { task with
      signalPending := task.signalPending ||| signum, rtcTimeout := timeout } := by
  refine ⟨rfl, fun s hs => ?_, fun s hno hs => ?_⟩
  · simp [hs]
  · rw [BitVec.getLsbD_or, Bool.or_eq_false_iff] at hno
    rw [BitVec.getLsbD_or, Bool.or_eq_true] at hs
    rcases hs with h | h
    · exact h
    · rcases hsig with rfl | rfl
      · rw [hno.1] at h
        cases h
      · rw [hno.2] at h
        cases h

theorem countTick_clocked (task : Task) : Clocked task task.countTick := by
  rw [Task.countTick]
  split
  · split
    · exact ⟨rfl, fun _ h => h, fun _ _ h => h⟩
    · exact clocked_or task (.inl rfl) task.rtcTimeout
  · exact .refl task

theorem checkRtc_clocked (task : Task) (rtcCounter : ℕ) :
    Clocked task (task.checkRtc rtcCounter) := by
  rw [Task.checkRtc]
  split
  · split
    · exact clocked_or task (.inr rfl) 0
    · exact .refl task
  · exact .refl task

/-- **A visit to a suspended task** wakes it if a signal it waits for is pending. -/
theorem visitSuspended_cases (task : Task) (rtcCounter : ℕ) : ∃ task₁, Clocked task task₁ ∧
    ((task₁.signalPending &&& task.signalWaiting ≠ 0 ∧
        task.visitSuspended rtcCounter = { task₁ with
          wkup := true
          status := taskReady
          signalPending :=
            task₁.signalPending &&& ~~~(task₁.signalPending &&& task.signalWaiting) }) ∨
      (task₁.signalPending &&& task.signalWaiting = 0 ∧
        task.visitSuspended rtcCounter = task₁)) := by
  have hc := (countTick_clocked task).trans (checkRtc_clocked task.countTick rtcCounter)
  have hwait : (task.countTick.checkRtc rtcCounter).signalWaiting = task.signalWaiting := by
    rw [hc.same]
  refine ⟨_, hc, ?_⟩
  rw [Task.visitSuspended, ← hwait]
  split
  · rename_i hsig
    exact .inl ⟨hsig, rfl⟩
  · rename_i hsig
    exact .inr ⟨by simpa using hsig, rfl⟩

/-- Whether it wakes the task or not, the visit leaves everything else. -/
theorem visitSuspended_same (task : Task) (rtcCounter : ℕ) :
    ∃ status wkup timerTickCount rtcTimeout signalPending, task.visitSuspended rtcCounter
      = { task with status, wkup, timerTickCount, rtcTimeout, signalPending } := by
  obtain ⟨task₁, hclock, ⟨-, heq⟩ | ⟨-, heq⟩⟩ := visitSuspended_cases task rtcCounter
  · rw [heq, hclock.same]
    exact ⟨_, _, _, _, _, rfl⟩
  · rw [heq, hclock.same]
    exact ⟨_, _, _, _, _, rfl⟩

/-! ### The invariant of a slot -/

/-- No context is saved. -/
def Stack.NotSaved (stack : Stack) : Prop := ∀ signum queue, stack ≠ .saved signum queue

/-- How the phase of a slot, its saved registers and its wait mask fit together. -/
structure SlotOk (s : Slot) (phase : Phase) (frozen : Bool) : Prop where
  status : s.task.status = phase.word frozen
  /-- a suspended task waits in a blocking call -/
  suspended : phase = .suspended → ∃ queue, s.task.stack = .saved s.task.signalWaiting queue
  /-- only a task in a blocking call waits for signals -/
  waiting : s.task.signalWaiting ≠ 0 → ∃ queue, s.task.stack = .saved s.task.signalWaiting queue
  /-- the task on the processor is in no blocking call -/
  onCpu : s.onCpu = true → s.task.stack.NotSaved ∧ phase ≠ .suspended ∧ phase ≠ .zombie
  /-- what is to start has no saved context -/
  fresh : phase = .ready → s.task.wkup = false → s.task.entryPoint ≠ none → s.task.stack.NotSaved
  /-- what has the status running without the processor has returned -/
  returned : phase = .running → s.onCpu = false → s.task.stack = .returned
  zombie : phase = .zombie → s.task.stack = .returned
  dead : phase = .notRunning → s.task.entryPoint = none

theorem SlotOk.waiting_zero {s : Slot} {frozen : Bool} (hok : SlotOk s phase frozen)
    (hstack : s.task.stack.NotSaved) : s.task.signalWaiting = 0 := by
  by_contra hne
  obtain ⟨queue, hsaved⟩ := hok.waiting hne
  exact hstack _ _ hsaved

/-- A change of fields that the invariant does not mention. -/
theorem SlotOk.congr {onCpu : Bool} {task task' : Task} {frozen : Bool}
    (hok : SlotOk ⟨onCpu, task⟩ phase frozen) (hstatus : task'.status = task.status)
    (hwait : task'.signalWaiting = task.signalWaiting) (hstack : task'.stack = task.stack)
    (hwkup : task'.wkup = task.wkup) (hentry : task'.entryPoint = task.entryPoint) :
    SlotOk ⟨onCpu, task'⟩ phase frozen where
  status := hstatus.trans hok.status
  suspended h := by
    rw [hwait, hstack]
    exact hok.suspended h
  waiting h := by
    rw [hwait] at h ⊢
    rw [hstack]
    exact hok.waiting h
  onCpu h := by
    rw [hstack]
    exact hok.onCpu h
  fresh h hw he := by
    rw [hstack]
    exact hok.fresh h (hwkup ▸ hw) (hentry ▸ he)
  returned h ho := hstack.trans (hok.returned h ho)
  zombie h := hstack.trans (hok.zombie h)
  dead h := hentry.trans (hok.dead h)

/-- Freezing and unfreezing. -/
theorem SlotOk.setFrozen {onCpu : Bool} {task : Task} {frozen frozen' : Bool}
    (hok : SlotOk ⟨onCpu, task⟩ phase frozen) {status : BitVec 16}
    (hstatus : status = phase.word frozen') :
    SlotOk ⟨onCpu, { task with status }⟩ phase frozen' :=
  ⟨hstatus, hok.suspended, hok.waiting, hok.onCpu, hok.fresh, hok.returned, hok.zombie, hok.dead⟩

/-- A slot that is ready. -/
theorem SlotOk.of_ready {s : Slot} (hstatus : s.task.status = taskReady)
    (hwait : s.task.signalWaiting ≠ 0 → ∃ queue, s.task.stack = .saved s.task.signalWaiting queue)
    (hcpu : s.onCpu = true → s.task.stack.NotSaved)
    (hfresh : s.task.wkup = false → s.task.stack.NotSaved) : SlotOk s .ready false where
  status := hstatus
  suspended h := by cases h
  waiting := hwait
  onCpu h := ⟨hcpu h, by decide, by decide⟩
  fresh _ hwkup _ := hfresh hwkup
  returned h := by cases h
  zombie h := by cases h
  dead h := by cases h

/-- A slot whose task has just got the processor. -/
theorem SlotOk.of_running {task : Task} (hstatus : task.status = taskRunning)
    (hwait : task.signalWaiting = 0) (hstack : task.stack = .running) :
    SlotOk ⟨true, task⟩ .running false where
  status := hstatus
  suspended h := by cases h
  waiting h := absurd hwait h
  onCpu _ := by
    refine ⟨fun signum queue hsaved => ?_, by decide, by decide⟩
    exact Stack.noConfusion (hstack.symm.trans hsaved)
  fresh h := by cases h
  returned _ h := by cases h
  zombie h := by cases h
  dead h := by cases h

theorem Stack.notSaved_of_returned {stack : Stack} (h : stack = .returned) : stack.NotSaved := by
  intro signum queue hsaved
  rw [h] at hsaved
  cases hsaved

theorem suspend_status {task : Task} {frozen : Bool}
    (hstatus : task.status = phase.word frozen) (signum : BitVec 8) (queue : Option ℕ) :
    (task.suspend signum queue).status
      = if phase = .notRunning ∨ phase = .zombie then phase.word frozen
        else Phase.word .suspended false := by
  rw [← Phase.word_wait, ← hstatus]
  rfl

theorem TaskEdit.ok {onCpu : Bool} {task task' : Task} (hedit : TaskEdit env act t task task')
    {frozen : Bool} (hok : SlotOk ⟨onCpu, task⟩ phase frozen) :
    ∃ phase' frozen', SlotOk ⟨onCpu, task'⟩ phase' frozen' := by
  cases hedit with
  | same => exact ⟨phase, frozen, hok⟩
  | retValue value _ _ => exact ⟨phase, frozen, hok.congr rfl rfl rfl rfl rfl⟩
  | notifySignal signum _ _ => exact ⟨phase, frozen, hok.congr rfl rfl rfl rfl rfl⟩
  | notifyQueue _ _ _ => exact ⟨phase, frozen, hok.congr rfl rfl rfl rfl rfl⟩
  | sigIgnore signum _ _ => exact ⟨phase, frozen, hok.congr rfl rfl rfl rfl rfl⟩
  | sigAllow signum _ _ => exact ⟨phase, frozen, hok.congr rfl rfl rfl rfl rfl⟩
  | freeze _ _ =>
    refine ⟨phase, true, hok.setFrozen ?_⟩
    rw [hok.status, Phase.word_freeze]
  | unfreeze _ _ =>
    refine ⟨phase, false, hok.setFrozen ?_⟩
    rw [hok.status, Phase.word_unfreeze]
  | restart newParam _ _ =>
    rw [Task.restart]
    split
    · rename_i hzombie
      -- a zombie has returned, so it starts with no saved context
      obtain ⟨rfl, rfl⟩ := Phase.eq_of_word .zombie (hok.status.symm.trans hzombie.2)
      have hns := Stack.notSaved_of_returned (hok.zombie rfl)
      exact ⟨.ready, false, .of_ready rfl hok.waiting (fun _ => hns) fun _ => hns⟩
    · exact ⟨phase, frozen, hok⟩

/-- **One step of a slot keeps its invariant.**  A visit comes to tasks that the
selection loop took. -/
theorem SlotStep.ok {s s' : Slot} (hs : SlotStep env act t s s')
    (hsel : Visits env act t → s.task.skipped = false) {frozen : Bool}
    (hok : SlotOk s phase frozen) : ∃ phase' frozen', SlotOk s' phase' frozen' := by
  cases hs with
  | edit hedit => exact hedit.ok hok
  | @create onCpu task entryPoint param rt hact hslot hfree =>
    have hns : (task.create entryPoint param rt).stack.NotSaved := fun _ _ h => by cases h
    exact ⟨.ready, false, .of_ready rfl (fun h => absurd rfl h) (fun _ => hns) fun _ => hns⟩
  | delete hdel =>
    refine ⟨.notRunning, false, rfl, ?_, ?_, ?_, ?_, ?_, ?_, fun _ => rfl⟩
    case refine_2 => exact fun h => absurd rfl h
    case refine_3 => exact fun hcpu => ⟨(hok.onCpu hcpu).1, by decide, by decide⟩
    all_goals exact fun h => by cases h
  | promote hprom hne hedit =>
    obtain ⟨phase', frozen', hok'⟩ := hedit.ok hok
    refine ⟨.ready, false, .of_ready rfl hok'.waiting ?_ ?_⟩
    · exact fun h => by cases h
    · exact fun h => by cases h
  | @suspend task call signum queue ticks timeout hact =>
    -- the task on the processor waited for nothing before the call
    obtain ⟨hns, -, hnz⟩ := hok.onCpu rfl
    have hwait : task.signalWaiting ||| signum = signum := by
      have hzero : task.signalWaiting = 0 := hok.waiting_zero hns
      simp [hzero]
    have hstatus := suspend_status hok.status signum queue
    have hsaved : ∃ queue', Stack.saved signum queue
        = .saved (task.signalWaiting ||| signum) queue' := ⟨queue, by rw [hwait]⟩
    by_cases hdeleted : phase = .notRunning
    · -- a task that was deleted meanwhile keeps its status
      subst hdeleted
      rw [if_pos (.inl rfl)] at hstatus
      refine ⟨.notRunning, frozen, hstatus, ?_, fun _ => hsaved, ?_, ?_, ?_, ?_, hok.dead⟩
      all_goals exact fun h => by cases h
    · rw [if_neg (by simp [hdeleted, hnz])] at hstatus
      refine ⟨.suspended, false, hstatus, fun _ => hsaved, fun _ => hsaved, ?_, ?_, ?_, ?_, ?_⟩
      all_goals exact fun h => by cases h
  | @finish task value hact =>
    obtain ⟨hns, hnsusp, hnz⟩ := hok.onCpu rfl
    have hwait : task.signalWaiting = 0 := hok.waiting_zero hns
    refine ⟨phase, frozen, hok.status, fun h => absurd h hnsusp, fun h => absurd hwait h, ?_, ?_,
      fun _ _ => rfl, fun h => absurd h hnz, hok.dead⟩
    · exact fun h => by cases h
    · exact fun _ _ _ => Stack.notSaved_of_returned rfl
  | @zombie task hvisit hstatus =>
    obtain ⟨rfl, rfl⟩ := Phase.eq_of_word .running (hok.status.symm.trans hstatus)
    have hret := hok.returned rfl rfl
    refine ⟨.zombie, false, rfl, ?_, hok.waiting, ?_, ?_, ?_, fun _ => hret, ?_⟩
    all_goals exact fun h => by cases h
  | @visit task hvisit hstatus =>
    obtain ⟨rfl, rfl⟩ := Phase.eq_of_word .suspended (hok.status.symm.trans hstatus)
    obtain ⟨task₁, hclock, ⟨-, heq⟩ | ⟨-, heq⟩⟩ := visitSuspended_cases task env.rtcCounter
    · rw [heq, hclock.same]
      refine ⟨.ready, false, .of_ready rfl hok.waiting ?_ ?_⟩
      · exact fun h => by cases h
      · exact fun h => by cases h
    · rw [heq, hclock.same]
      exact ⟨.suspended, false, hok.congr rfl rfl rfl rfl rfl⟩
  | @begin task hvisit hstatus hwkup =>
    obtain ⟨rfl, rfl⟩ := Phase.eq_of_word .ready (hok.status.symm.trans hstatus)
    have hentry : task.entryPoint ≠ none := by
      have hskip := hsel hvisit
      intro hnone
      simp [Task.skipped, hnone] at hskip
    have hwait : task.signalWaiting = 0 := hok.waiting_zero (hok.fresh rfl hwkup hentry)
    exact ⟨.running, false, .of_running rfl hwait rfl⟩
  | @resume task signum queue hvisit hstatus hwkup hstack =>
    -- what was waited for is the mask of the call, which returns
    have hwait : task.signalWaiting &&& ~~~signum = 0 := by
      by_cases hzero : task.signalWaiting = 0
      · simp [hzero]
      · obtain ⟨queue', hsaved⟩ := hok.waiting hzero
        obtain ⟨rfl, -⟩ : task.signalWaiting = signum ∧ queue' = queue := by
          simpa using hsaved.symm.trans hstack
        simp
    exact ⟨.running, false, .of_running rfl hwait rfl⟩

/-! ### Runs -/

/-- The task at the state machine was taken by the selection loop. -/
def Selected (env : Env) : Prop :=
  env.pc = .tsm → (env.taskTable env.currentTask).skipped = false ∧ env.currentTask ≠ idleTaskId

structure EnvInv (env : Env) : Prop where
  slots : ∀ t, ∃ phase frozen, SlotOk (env.slot t) phase frozen
  selected : Selected env
  no_panic : env.pc ≠ .panic

theorem selectEnd_selected (env : Env) (n : ℕ) : Selected (env.selectEnd n) := by
  intro hpc
  rw [selectEnd_taskTable, selectEnd_currentTask]
  rcases selectEnd_pc env n with h | h | h | ⟨-, hsel⟩
  · rw [h] at hpc
    cases hpc
  · rw [h] at hpc
    cases hpc
  · rw [h] at hpc
    cases hpc
  · exact hsel

/-- **The status that the task state machine finds.** -/
theorem EnvInv.status_cases (hi : EnvInv env) (hpc : env.pc = .tsm) :
    (env.taskTable env.currentTask).status = taskReady ∨
      (env.taskTable env.currentTask).status = taskRunning ∨
      (env.taskTable env.currentTask).status = taskSuspended := by
  obtain ⟨phase, frozen, hok⟩ := hi.slots env.currentTask
  have hskip := (hi.selected hpc).1
  have hstatus : (env.taskTable env.currentTask).status = phase.word frozen := hok.status
  simp only [Task.skipped, Bool.or_eq_false_iff, decide_eq_false_iff_not, not_not] at hskip
  rw [hstatus] at hskip ⊢
  obtain ⟨rfl, rfl | rfl | rfl⟩ := Phase.word_selected hskip.2
  · exact .inl rfl
  · exact .inr (.inl rfl)
  · exact .inr (.inr rfl)

/-- A state outside the task state machine, and not halted. -/
theorem selected_of_ne (hpc : env.pc ≠ .tsm) (hpanic : env.pc ≠ .panic) :
    Selected env ∧ env.pc ≠ .panic := ⟨fun h => absurd h hpc, hpanic⟩

theorem visitTask_selected (hi : EnvInv env) (hpc : env.pc = .tsm)
    (hs : env.visitTask = some env') : Selected env' ∧ env'.pc ≠ .panic := by
  rw [Env.visitTask] at hs
  split at hs
  · cases hs
    exact selected_of_ne (by simp) (by simp)
  · split at hs
    · cases hs
      exact selected_of_ne (by simp) (by simp)
    · split at hs
      · have hpc' := (dispatch_cases hs).1
        exact selected_of_ne (by simp [hpc']) (by simp [hpc'])
      · -- the branch that halts the system: none of the three statuses is left
        rename_i hnr hns hnready
        rcases hi.status_cases hpc with h | h | h
        · exact absurd h hnready
        · exact absurd h hnr
        · exact absurd h hns

theorem step_selected (hi : EnvInv env) (hs : step w env act = some env') :
    Selected env' ∧ env'.pc ≠ .panic := by
  cases act with
  | sched =>
    rw [step, Env.sched] at hs
    split at hs
    · cases hs
      refine selected_of_ne ?_ ?_ <;> dsimp only <;> split <;> simp
    · obtain ⟨timers, pc, rfl, hv⟩ := visitTimer_cases hs
      exact selected_of_ne hv.pc_ne.2.1 hv.pc_ne.2.2
    · rw [Env.selectRound] at hs
      split at hs
      · split at hs
        · cases hs
          exact selected_of_ne (by simp) (by simp)
        · cases hs
      · cases hs
        exact ⟨selectEnd_selected _ _, (selectEnd_pc_ne _ _).2⟩
    · rename_i hpc
      exact visitTask_selected hi hpc hs
    · cases hs
  | updateRtc quantum =>
    cases hs
    exact ⟨hi.selected, hi.no_panic⟩
  | api call =>
    obtain ⟨huser, hs⟩ := step_api hs
    have hpc := (api_sameControl hs).pc
    refine selected_of_ne ?_ (hpc ▸ hi.no_panic)
    intro htsm
    rw [← hpc, htsm] at huser
    cases huser
  | block call =>
    obtain ⟨hpc, rfl⟩ := step_block hs
    rcases block_pc w hpc call with h | h
    · exact selected_of_ne (by simp [h]) (by simp [h])
    · exact selected_of_ne (by simp [h]) (by simp [h])
  | ret value =>
    rw [step, Env.ret] at hs
    split at hs
    · cases hs
      exact selected_of_ne (by simp) (by simp)
    · cases hs
      exact selected_of_ne (by simp) (by simp)
    · rw [Env.rtReturn] at hs
      split at hs
      · cases hs
        exact ⟨selectEnd_selected _ _, (selectEnd_pc_ne _ _).2⟩
      · split at hs
        · cases hs
          exact ⟨selectEnd_selected _ _, (selectEnd_pc_ne _ _).2⟩
        · cases hs
    · cases hs
      exact selected_of_ne (by simp) (by simp)
    · cases hs
      exact selected_of_ne (by simp) (by simp)
    · cases hs

/-- One step keeps the invariant. -/
theorem step_inv (hi : EnvInv env) (hs : step w env act = some env') : EnvInv env' := by
  obtain ⟨hsel, hpanic⟩ := step_selected hi hs
  refine ⟨fun t => ?_, hsel, hpanic⟩
  obtain ⟨phase, frozen, hok⟩ := hi.slots t
  refine (step_slot hs t).ok ?_ hok
  rintro ⟨-, hpc, rfl⟩
  exact (hi.selected hpc).1

theorem schedulerInit_slot (queues : ℕ → Queue) (t : ℕ) :
    ∃ phase frozen, SlotOk ((schedulerInit queues).slot t) phase frozen := by
  rcases eq_or_ne t idleTaskId with rfl | hne
  · have hns : ((schedulerInit queues).taskTable idleTaskId).stack.NotSaved := by
      intro signum queue hsaved
      cases hsaved
    exact ⟨.ready, false, .of_ready rfl (fun h => absurd rfl h) (fun _ => hns) fun _ => hns⟩
  · have htask : (schedulerInit queues).taskTable t
        = Task.delete ⟨none, 0, 0, 0, false, false, 0, 0, 0, 0, 0, .unused⟩ := if_neg hne
    rw [Env.slot, htask]
    refine ⟨.notRunning, false, rfl, ?_, fun h => absurd rfl h, ?_, ?_, ?_, ?_, fun _ => rfl⟩
    all_goals exact fun h => by cases h

theorem start_inv (rootTask rootTaskParam : ℕ) (queues : ℕ → Queue) :
    EnvInv (.start rootTask rootTaskParam queues) := by
  have hpc : (Env.start rootTask rootTaskParam queues).pc = .epoch := rfl
  obtain ⟨hsel, hpanic⟩ := selected_of_ne (by rw [hpc]; decide) (by rw [hpc]; decide)
  refine ⟨fun t => ?_, hsel, hpanic⟩
  obtain ⟨phase, frozen, hok⟩ := schedulerInit_slot queues t
  refine (tCreate_slot (some rootTask) rootTaskParam false rfl).ok ?_ hok
  rintro ⟨hact, -⟩
  cases hact

/-- At the start there are the idle task and the root task. -/
theorem start_taskTable (rootTask rootTaskParam : ℕ) (queues : ℕ → Queue) :
    (Env.start rootTask rootTaskParam queues).taskTable
      = Function.update (schedulerInit queues).taskTable 1
        (((schedulerInit queues).taskTable 1).create (some rootTask) rootTaskParam false) := rfl

/-- The invariant holds in every state of every run. -/
theorem Reachable.inv (hr : Reachable w env) : EnvInv env := by
  obtain ⟨rootTask, rootTaskParam, queues, hrun⟩ := hr
  induction hrun with
  | refl => exact start_inv rootTask rootTaskParam queues
  | tail _ hstep ih =>
    obtain ⟨act, hs⟩ := hstep
    exact step_inv ih hs

/-! ### The task state machine -/

/-- **The task state machine is safe**: in no run does it reach the panic branch, for
every task it is given is ready, running or suspended; and what it finds running
has returned from its entry point. -/
theorem task_states (w : ℕ) :
    (∀ env, Reachable w env → env.pc ≠ .panic ∧ (env.pc = .tsm →
      (env.taskTable env.currentTask).status = taskReady ∨
        (env.taskTable env.currentTask).status = taskRunning ∨
        (env.taskTable env.currentTask).status = taskSuspended)) ∧
    (∀ env, Reachable w env → env.pc = .tsm →
      (env.taskTable env.currentTask).status = taskRunning →
      (env.taskTable env.currentTask).stack = .returned) := by
  constructor
  · intro env hr
    exact ⟨hr.inv.no_panic, hr.inv.status_cases⟩
  · intro env hr hpc hstatus
    obtain ⟨phase, frozen, hok⟩ := hr.inv.slots env.currentTask
    have hword : (env.taskTable env.currentTask).status = phase.word frozen := hok.status
    obtain ⟨rfl, rfl⟩ := Phase.eq_of_word .running (hword.symm.trans hstatus)
    exact hok.returned rfl (by simp [Env.slot, hpc])

/-- The root task returns, and is visited again. -/
theorem task_states_root_returns :
    ∃ env, Reachable 64 env ∧ env.pc = .tsm ∧ env.currentTask = 1 ∧
      (env.taskTable env.currentTask).status = taskRunning ∧
      (env.taskTable env.currentTask).stack = .returned := by
  obtain ⟨env, hrun, hpc, hcur, hstatus⟩ : ∃ env, runActs 64 boot
      ([Act.sched, .sched, .sched, .ret 0] ++ List.replicate 9 Act.sched) = some env ∧
      env.pc = .tsm ∧ env.currentTask = 1 ∧
      (env.taskTable env.currentTask).status = taskRunning := by
    refine ⟨_, rfl, ?_, ?_, ?_⟩ <;> decide
  have hr : Reachable 64 env := Reachable.runActs .boot hrun
  exact ⟨env, hr, hpc, hcur, hstatus, (task_states 64).2 env hr hpc hstatus⟩

end Kernel
