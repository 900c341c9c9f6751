/-
Signals are not lost.

A signal that is pending for a live task stays pending until a blocking call of the
task that waits for it is woken or returns, or until the task is deleted
(`SlotStep.pending`).  A suspended task for which a signal it waits for is pending
keeps being so until the scheduler visits it, which wakes it (`SlotStep.awaits`,
`visit_wakes`); it does not matter which came first, the signal or the wait
(`block_awaits`).
* `no_lost_signal` — the four facts for every run of the kernel.
-/
import Mipos.KernelTasks

namespace Kernel

open Function Relation

variable {w : ℕ} {env env' : Env} {act : Act} {t s : ℕ}

def Env.Live (env : Env) (t : ℕ) : Prop := (env.taskTable t).entryPoint ≠ none

/-- Signal number `s` is pending for `t`. -/
def Env.Pending (env : Env) (t s : ℕ) : Prop := (env.taskTable t).signalPending.getLsbD s = true

/-! ### Pending signals -/

/-- A blocking call that waits for signal number `s` is woken, or returns. -/
inductive Consumed (s : ℕ) (sl sl' : Slot) : Prop
  | woken {signum : BitVec 8} {queue : Option ℕ} (hcall : sl.task.stack = .saved signum queue)
      (hsig : signum.getLsbD s = true) (hbefore : sl.task.status = taskSuspended)
      (hafter : sl'.task.status = taskReady ∧ sl'.task.wkup = true)
  | returned {signum : BitVec 8} {queue : Option ℕ} (hcall : sl.task.stack = .saved signum queue)
      (hsig : signum.getLsbD s = true) (hbefore : sl.onCpu = false)
      (hafter : sl'.onCpu = true ∧ sl'.task.stack = .running)

/-- Calls on a descriptor keep the task alive and its signals pending. -/
theorem TaskEdit.pending {task task' : Task} (hedit : TaskEdit env act t task task')
    (hp : task.signalPending.getLsbD s = true) :
    task'.entryPoint = task.entryPoint ∧ task'.signalPending.getLsbD s = true := by
  cases hedit with
  | notifySignal _ _ _ | notifyQueue _ _ _ => exact ⟨rfl, by simp [Task.notifySignal, hp]⟩
  | restart newParam _ _ =>
    rw [Task.restart]
    split
    · exact ⟨rfl, hp⟩
    · exact ⟨rfl, hp⟩
  | same | retValue _ _ _ | freeze _ _ | unfreeze _ _ | sigIgnore _ _ _ | sigAllow _ _ _ =>
    exact ⟨rfl, hp⟩

/-- Clearing a mask keeps the other bits. -/
theorem getLsbD_clear {x mask : BitVec 8} (hx : x.getLsbD s = true) (hs : mask.getLsbD s = false) :
    (x &&& ~~~mask).getLsbD s = true := by
  have hlt := BitVec.lt_of_getLsbD hx
  rw [BitVec.getLsbD_and, BitVec.getLsbD_not, hx, hs]
  simp [hlt]

/-- **A pending signal stays pending** until it is consumed or the task is deleted. -/
theorem SlotStep.pending {sl sl' : Slot} (hstep : SlotStep env act t sl sl') {phase : Phase}
    {frozen : Bool} (hok : SlotOk sl phase frozen) (hlive : sl.task.entryPoint ≠ none)
    (hp : sl.task.signalPending.getLsbD s = true) :
    (sl'.task.entryPoint ≠ none ∧ sl'.task.signalPending.getLsbD s = true) ∨
      Deletes env act t ∨ Consumed s sl sl' := by
  cases hstep with
  | edit hedit =>
    obtain ⟨hentry, hp'⟩ := hedit.pending hp
    exact .inl ⟨by simpa [hentry] using hlive, hp'⟩
  | create hact hslot hfree => exact absurd hfree hlive
  | delete hdel => exact .inr (.inl hdel)
  | promote hprom hne hedit =>
    obtain ⟨hentry, hp'⟩ := hedit.pending hp
    exact .inl ⟨by simpa [Task.promote, hentry] using hlive, hp'⟩
  | suspend signum queue ticks timeout _ => exact .inl ⟨hlive, hp⟩
  | finish value _ => exact .inl ⟨hlive, hp⟩
  | zombie hvisit hstatus => exact .inl ⟨hlive, hp⟩
  | @visit task hvisit hstatus =>
    obtain ⟨task₁, hclock, ⟨-, heq⟩ | ⟨-, heq⟩⟩ := visitSuspended_cases task env.rtcCounter
    · by_cases hwait : task.signalWaiting.getLsbD s = true
      · -- the call waits for this signal, and is woken
        obtain ⟨rfl, rfl⟩ := Phase.eq_of_word .suspended (hok.status.symm.trans hstatus)
        obtain ⟨queue, hcall⟩ := hok.suspended rfl
        exact .inr (.inr (.woken hcall hwait hstatus (by rw [heq]; exact ⟨rfl, rfl⟩)))
      · refine .inl ⟨?_, ?_⟩
        · rw [heq, hclock.same]
          exact hlive
        · rw [heq]
          exact getLsbD_clear (hclock.adds s hp) (by simp [hwait])
    · refine .inl ⟨?_, ?_⟩
      · rw [heq, hclock.same]
        exact hlive
      · rw [heq]
        exact hclock.adds s hp
  | begin hvisit hstatus hwkup => exact .inl ⟨hlive, hp⟩
  | @resume task signum queue hvisit hstatus hwkup hstack =>
    by_cases hsig : signum.getLsbD s = true
    · exact .inr (.inr (.returned hstack hsig rfl ⟨rfl, rfl⟩))
    · exact .inl ⟨hlive, getLsbD_clear hp (by simpa using hsig)⟩

/-! ### Suspended tasks -/

theorem and_ne_zero_iff {x y : BitVec 8} :
    x &&& y ≠ 0 ↔ ∃ i, x.getLsbD i = true ∧ y.getLsbD i = true := by
  constructor
  · intro hne
    by_contra hno
    refine hne (BitVec.eq_of_getLsbD_eq fun i _ => ?_)
    rw [BitVec.getLsbD_and]
    simpa using fun hx => by simpa using fun hy => hno ⟨i, hx, hy⟩
  · rintro ⟨i, hx, hy⟩ hzero
    have hbit : (x &&& y).getLsbD i = true := by rw [BitVec.getLsbD_and, hx, hy]; rfl
    rw [hzero] at hbit
    simp at hbit

/-- A task that waits for one signal only is woken by that one. -/
theorem pending_of_and_ne_zero {x signum : BitVec 8} {k : ℕ} (hsig : signum = BitVec.twoPow 8 k)
    (hne : x &&& signum ≠ 0) : x.getLsbD k = true := by
  obtain ⟨i, hx, hi⟩ := and_ne_zero_iff.mp hne
  rwa [signal_bit hsig hi] at hx

/-- The task is suspended, frozen or not, and a signal it waits for is pending. -/
structure Awaits (task : Task) : Prop where
  live : task.entryPoint ≠ none
  suspended : ∃ frozen, task.status = Phase.word .suspended frozen
  signalled : task.signalPending &&& task.signalWaiting ≠ 0

/-- More signals do not hurt. -/
theorem Awaits.adds {task task' : Task} (ha : Awaits task)
    (hentry : task'.entryPoint = task.entryPoint) (hstatus : task'.status = task.status)
    (hwait : task'.signalWaiting = task.signalWaiting)
    (hadds : ∀ s, task.signalPending.getLsbD s = true → task'.signalPending.getLsbD s = true) :
    Awaits task' := by
  obtain ⟨i, hx, hy⟩ := and_ne_zero_iff.mp ha.signalled
  refine ⟨hentry ▸ ha.live, hstatus ▸ ha.suspended, and_ne_zero_iff.mpr ⟨i, hadds i hx, ?_⟩⟩
  rw [hwait, hy]

theorem TaskEdit.awaits {task task' : Task} (hedit : TaskEdit env act t task task')
    (ha : Awaits task) : Awaits task' := by
  obtain ⟨frozen, hstatus⟩ := ha.suspended
  cases hedit with
  | notifySignal _ _ _ | notifyQueue _ _ _ =>
    refine ha.adds rfl rfl rfl fun s hs => ?_
    simp [Task.notifySignal, hs]
  | freeze _ _ =>
    refine ⟨ha.live, ⟨true, ?_⟩, ha.signalled⟩
    rw [Task.freeze, hstatus, Phase.word_freeze]
  | unfreeze _ _ =>
    refine ⟨ha.live, ⟨false, ?_⟩, ha.signalled⟩
    rw [Task.unfreeze, hstatus, Phase.word_unfreeze]
  | restart newParam _ _ =>
    -- only zombies are restarted
    rw [Task.restart, if_neg]
    · exact ha
    · rintro ⟨-, hzombie⟩
      have hphase := (Phase.eq_of_word .zombie (hstatus.symm.trans hzombie)).1
      cases hphase
  | same | retValue _ _ _ | sigIgnore _ _ _ | sigAllow _ _ _ =>
    exact ha.adds rfl rfl rfl fun _ hs => hs

/-- **A suspended task that has been signalled stays so** until it is visited. -/
theorem SlotStep.awaits {sl sl' : Slot} (hstep : SlotStep env act t sl sl') {phase : Phase}
    {frozen : Bool} (hok : SlotOk sl phase frozen) (ha : Awaits sl.task)
    (hvisit : ¬Visits env act t) (hdel : ¬Deletes env act t) (hprom : ¬Promotes env act t) :
    Awaits sl'.task := by
  -- a task on the processor is not suspended
  have hoff : sl.onCpu = false := by
    obtain ⟨frozen', hstatus⟩ := ha.suspended
    by_contra hcpu
    have hphase := (Phase.word_inj (hok.status.symm.trans hstatus)).1
    exact (hok.onCpu (by simpa using hcpu)).2.1 hphase
  cases hstep with
  | edit hedit => exact hedit.awaits ha
  | create hact hslot hfree => exact absurd hfree ha.live
  | delete h => exact absurd h hdel
  | promote h _ _ => exact absurd h hprom
  | suspend signum queue ticks timeout _ => cases hoff
  | finish value _ => cases hoff
  | zombie h _ => exact absurd h hvisit
  | visit h _ => exact absurd h hvisit
  | begin h _ _ => exact absurd h hvisit
  | resume h _ _ _ => exact absurd h hvisit

/-- **The visit wakes it.** -/
theorem visit_wakes (hi : EnvInv env) (hpc : env.pc = .tsm)
    (ha : Awaits (env.taskTable env.currentTask)) : ∃ env', step w env .sched = some env' ∧
      (env'.taskTable env.currentTask).status = taskReady ∧
      (env'.taskTable env.currentTask).wkup = true := by
  -- the selection loop does not take frozen tasks
  have hstatus : (env.taskTable env.currentTask).status = taskSuspended := by
    obtain ⟨frozen, hword⟩ := ha.suspended
    rcases hi.status_cases hpc with h | h | h
    · have hphase := (Phase.eq_of_word .ready (hword.symm.trans h)).1
      cases hphase
    · have hphase := (Phase.eq_of_word .running (hword.symm.trans h)).1
      cases hphase
    · exact h
  have hnr : ¬(env.taskTable env.currentTask).status = taskRunning := by
    rw [hstatus]
    decide
  have hstep : step w env .sched = env.visitTask := by rw [step, Env.sched, hpc]
  rw [hstep, Env.visitTask, if_neg hnr, if_pos hstatus]
  refine ⟨_, rfl, ?_⟩
  obtain ⟨task₁, hclock, ⟨-, heq⟩ | ⟨hzero, -⟩⟩ :=
    visitSuspended_cases (env.taskTable env.currentTask) env.rtcCounter
  · simp [heq]
  · obtain ⟨i, hx, hy⟩ := and_ne_zero_iff.mp ha.signalled
    exact absurd hzero (and_ne_zero_iff.mpr ⟨i, hclock.adds i hx, hy⟩)

/-! ### Waiting -/

/-- The signals that a blocking call waits for. -/
def Blocking.mask : Blocking → BitVec 8
  | .tSuspend => sigwkp
  | .tWaitforSignal signum => signum &&& ~~~sysReservedSignals
  | .tmWkafter _ => sigalm
  | .tmMsleep _ => sigtmr
  | .qReceive _ => sigque

/-- A task that gives up the processor for signals one of which is pending already. -/
theorem suspend_awaits {task : Task} {phase : Phase} {frozen : Bool}
    (hok : SlotOk ⟨true, task⟩ phase frozen) (hlive : task.entryPoint ≠ none)
    (hp : task.signalPending.getLsbD s = true) {signum : BitVec 8} (hsig : signum.getLsbD s = true)
    (queue : Option ℕ) :
    (task.suspend signum queue).status = taskSuspended ∧ Awaits (task.suspend signum queue) := by
  have hphase : ¬(phase = .notRunning ∨ phase = .zombie) := by
    rintro (h | h)
    · exact hlive (hok.dead h)
    · exact (hok.onCpu rfl).2.2 h
  have hstatus := suspend_status hok.status signum queue
  rw [if_neg hphase] at hstatus
  refine ⟨hstatus, hlive, ⟨false, hstatus⟩, and_ne_zero_iff.mpr ⟨s, hp, ?_⟩⟩
  simp [Task.suspend, Task.setWaitForSignal, hsig]

/-- **A wait that starts with the signal pending** is one that the next visit ends. -/
theorem block_awaits (hi : EnvInv env) (hpc : env.pc = .running)
    (hlive : env.Live env.taskContextPtr) (hp : env.Pending env.taskContextPtr s) {call : Blocking}
    (hsig : call.mask.getLsbD s = true) (hs : step w env (.block call) = some env')
    (hpc' : env'.pc = .epoch) :
    (env'.taskTable env.taskContextPtr).status = taskSuspended ∧
      Awaits (env'.taskTable env.taskContextPtr) := by
  obtain ⟨phase, frozen, hok⟩ := hi.slots env.taskContextPtr
  have hslot : env.slot env.taskContextPtr = ⟨true, env.taskTable env.taskContextPtr⟩ := by
    simp [Env.slot, hpc]
  rw [hslot] at hok
  -- what the call stores besides, its deadline, does not matter
  have hcall : ∀ (env₁ : Env) (queue : Option ℕ) (ticks : ℤ) (timeout : ℕ),
      env₁.taskTable env.taskContextPtr =
        { (env.taskTable env.taskContextPtr).suspend call.mask queue with
          timerTickCount := ticks, rtcTimeout := timeout } →
      (env₁.taskTable env.taskContextPtr).status = taskSuspended ∧
        Awaits (env₁.taskTable env.taskContextPtr) := by
    intro env₁ queue ticks timeout htask
    obtain ⟨hstatus, ha⟩ := suspend_awaits hok hlive hp hsig queue
    rw [htask]
    exact ⟨hstatus, ha.adds rfl rfl rfl fun _ h => h⟩
  rw [step, if_pos hpc] at hs
  cases hs
  cases call with
  | tSuspend => exact hcall _ none _ _ (update_self ..)
  | tWaitforSignal signum => exact hcall _ none _ _ (update_self ..)
  | tmWkafter count => exact hcall _ none _ _ (update_self ..)
  | tmMsleep count => exact hcall _ none _ _ (update_self ..)
  | qReceive q =>
    rw [Env.block] at hpc' ⊢
    split at hpc'
    · -- the queue was not empty, and the call has returned
      rw [setQueue_pc, hpc] at hpc'
      cases hpc'
    · exact hcall _ (some q) _ _ (update_self ..)

/-! ### Runs -/

/-- The step neither deletes `t` nor consumes its signal `s`. -/
def Keeps (w t s : ℕ) (env : Env) (act : Act) : Prop :=
  ¬Deletes env act t ∧
    ∀ env', step w env act = some env' → ¬Consumed s (env.slot t) (env'.slot t)

/-- The step does not visit `t`, delete it, or make it ready on behalf of an RT task. -/
def BeforeVisit (t : ℕ) (env : Env) (act : Act) : Prop :=
  ¬Visits env act t ∧ ¬Deletes env act t ∧ ¬Promotes env act t

theorem run_pending (hi : EnvInv env) (hlive : env.Live t) (hp : env.Pending t s)
    (hrun : ReflTransGen (StepWhere w (Keeps w t s)) env env') :
    env'.Live t ∧ env'.Pending t s := by
  have hall : EnvInv env' ∧ env'.Live t ∧ env'.Pending t s := by
    induction hrun with
    | refl => exact ⟨hi, hlive, hp⟩
    | tail _ hstep ih =>
      obtain ⟨hi₁, hlive₁, hp₁⟩ := ih
      obtain ⟨act, hs, hdel, hcons⟩ := hstep
      obtain ⟨phase, frozen, hok⟩ := hi₁.slots t
      rcases (step_slot hs t).pending hok hlive₁ hp₁ with hkept | h | h
      · exact ⟨step_inv hi₁ hs, hkept⟩
      · exact absurd h hdel
      · exact absurd h (hcons _ hs)
  exact hall.2

theorem run_awaits (hi : EnvInv env) (ha : Awaits (env.taskTable t))
    (hrun : ReflTransGen (StepWhere w (BeforeVisit t)) env env') :
    EnvInv env' ∧ Awaits (env'.taskTable t) := by
  induction hrun with
  | refl => exact ⟨hi, ha⟩
  | tail _ hstep ih =>
    obtain ⟨hi₁, ha₁⟩ := ih
    obtain ⟨act, hs, hvisit, hdel, hprom⟩ := hstep
    obtain ⟨phase, frozen, hok⟩ := hi₁.slots t
    exact ⟨step_inv hi₁ hs, (step_slot hs t).awaits hok ha₁ hvisit hdel hprom⟩

/-- **No signal is lost.**  In every state of every run of the kernel, for every task
`t` and signal number `s`:
a signal that is notified and allowed becomes pending;
a pending signal of a live task stays pending along every run in which the task is
not deleted and no blocking call of it that waits for the signal is woken or returns;
a suspended task for which a signal it waits for is pending is made ready by the next
visit of the scheduler, whatever happens before it;
and a blocking call that starts when such a signal is pending leaves its task in
this position.
All notifications are calls of the code that runs; one by an interrupt between two accesses of
`signal_pending` is not modelled. -/
theorem no_lost_signal (hr : Reachable w env) (t s : ℕ) :
    (∀ id signum env', step w env (.api (.tNotifySignal id signum)) = some env' →
      env.getPTask id = some t →
      (signum &&& (env.taskTable t).signalMask).getLsbD s = true → env'.Pending t s) ∧
    (∀ env', env.Live t → env.Pending t s →
      ReflTransGen (StepWhere w (Keeps w t s)) env env' → env'.Live t ∧ env'.Pending t s) ∧
    (∀ env', env.Live t → (env.taskTable t).status = taskSuspended →
      (env.taskTable t).signalPending &&& (env.taskTable t).signalWaiting ≠ 0 →
      ReflTransGen (StepWhere w (BeforeVisit t)) env env' → env'.pc = .tsm →
      env'.currentTask = t → ∃ env'', step w env' .sched = some env'' ∧
        (env''.taskTable t).status = taskReady ∧ (env''.taskTable t).wkup = true) ∧
    (∀ call env', env.pc = .running → env.taskContextPtr = t → env.Live t → env.Pending t s →
      call.mask.getLsbD s = true → step w env (.block call) = some env' → env'.pc = .epoch →
      env'.Live t ∧ (env'.taskTable t).status = taskSuspended ∧
        (env'.taskTable t).signalPending &&& (env'.taskTable t).signalWaiting ≠ 0) := by
  refine ⟨?_, ?_, ?_, ?_⟩
  · intro id signum env' hs hid hsig
    obtain ⟨-, hs⟩ := step_api hs
    cases hs
    show ((env.modifyTask id _).taskTable t).signalPending.getLsbD s = true
    rw [modifyTask_taskTable, if_pos hid, Task.notifySignal, BitVec.getLsbD_or, hsig,
      Bool.or_true]
  · intro env' hlive hp hrun
    exact run_pending hr.inv hlive hp hrun
  · intro env' hlive hstatus hsig hrun hpc hcur
    obtain ⟨hi', ha'⟩ := run_awaits hr.inv ⟨hlive, ⟨false, hstatus⟩, hsig⟩ hrun
    subst hcur
    exact visit_wakes hi' hpc ha'
  · intro call env' hpc hptr hlive hp hsig hs hpc'
    subst hptr
    obtain ⟨hstatus, ha⟩ := block_awaits hr.inv hpc hlive hp hsig hs hpc'
    exact ⟨ha.live, hstatus, ha.signalled⟩

/-- The root task sends itself a signal, waits for it, and is woken by its next visit. -/
theorem no_lost_signal_before_wait :
    ∃ env₁ env₂ env₃ env₄ : Env, Reachable 64 env₁ ∧
      step 64 env₁ (.api (.tNotifySignal 1 16)) = some env₂ ∧ env₂.Pending 1 4 ∧
      step 64 env₂ (.block (.tWaitforSignal 16)) = some env₃ ∧
      (env₃.taskTable 1).status = taskSuspended ∧
      runActs 64 env₃ (List.replicate 9 Act.sched) = some env₄ ∧ env₄.pc = .tsm ∧
      env₄.currentTask = 1 ∧ ∃ env₅, step 64 env₄ .sched = some env₅ ∧
        (env₅.taskTable 1).status = taskReady ∧ (env₅.taskTable 1).wkup = true := by
  obtain ⟨env₁, env₂, env₃, env₄, hrun₁, hs₁, hs₂, hrun₃, hid, hmask, hpc₂, hptr₂, hlive₂, hpc₃,
      hlive₄, hstatus₄, hsig₄, hpc₄, hcur₄⟩ : ∃ env₁ env₂ env₃ env₄ : Env,
      runActs 64 boot (List.replicate 3 Act.sched) = some env₁ ∧
      step 64 env₁ (.api (.tNotifySignal 1 16)) = some env₂ ∧
      step 64 env₂ (.block (.tWaitforSignal 16)) = some env₃ ∧
      runActs 64 env₃ (List.replicate 9 Act.sched) = some env₄ ∧
      env₁.getPTask 1 = some 1 ∧ (16 &&& (env₁.taskTable 1).signalMask).getLsbD 4 = true ∧
      env₂.pc = .running ∧ env₂.taskContextPtr = 1 ∧ (env₂.taskTable 1).entryPoint ≠ none ∧
      env₃.pc = .epoch ∧ (env₄.taskTable 1).entryPoint ≠ none ∧
      (env₄.taskTable 1).status = taskSuspended ∧
      (env₄.taskTable 1).signalPending &&& (env₄.taskTable 1).signalWaiting ≠ 0 ∧
      env₄.pc = .tsm ∧ env₄.currentTask = 1 := by
    refine ⟨_, _, _, _, rfl, rfl, rfl, rfl, ?_, ?_, ?_, ?_, ?_, ?_, ?_, ?_, ?_, ?_, ?_⟩ <;> decide
  have hr₁ : Reachable 64 env₁ := Reachable.runActs .boot hrun₁
  have hr₂ := hr₁.step hs₁
  have hr₄ : Reachable 64 env₄ := (hr₂.step hs₂).runActs hrun₃
  have hp₂ := (no_lost_signal hr₁ 1 4).1 1 16 env₂ hs₁ hid hmask
  obtain ⟨-, hstatus₃, -⟩ := (no_lost_signal hr₂ 1 4).2.2.2 (.tWaitforSignal 16) env₃ hpc₂ hptr₂
    hlive₂ hp₂ (by decide) hs₂ hpc₃
  have hwake := (no_lost_signal hr₄ 1 4).2.2.1 env₄ hlive₄ hstatus₄ hsig₄ .refl hpc₄ hcur₄
  exact ⟨env₁, env₂, env₃, env₄, hr₁, hs₁, hp₂, hs₂, hstatus₃, hrun₃, hpc₄, hcur₄, hwake⟩

end Kernel
