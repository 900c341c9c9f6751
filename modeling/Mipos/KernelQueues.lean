/-
Queues and the tasks that wait for them.

A blocking `mipos_q_receive` on an empty queue records the task in `suspended_tid` and
suspends it on `MIPOS_SIGQUE`; `mipos_q_send` sends the signal to the recorded task.

* `QueueEdit` — what one step of the kernel does to a queue.
* `Waiter` — a task that waits in a queue is the one that the queue has recorded, and it
  has been roused if there are items.
* `no_lost_wakeup` — no task sleeps on a queue that is not empty.
-/
import Mipos.KernelControl
import Mipos.KernelContexts
import Mipos.KernelSignals

namespace Kernel

open Function Relation

variable {w : ℕ} {env env' : Env} {act : Act} {t q : ℕ}

/-! ### What a step does to a queue -/

/-- The step resumes a task that waits in `q`. -/
def ResumesIn (env : Env) (act : Act) (q : ℕ) : Prop :=
  Resumes env act env.currentTask ∧
    ∃ signum, (env.taskTable env.currentTask).stack = .saved signum (some q)

inductive QueueEdit (env : Env) (act : Act) (q : ℕ) (queue : Queue) : Queue → Prop
  | same (hres : ¬ResumesIn env act q) : QueueEdit env act q queue queue
  | init (queuePool : ℕ → UInt32) (queuePoolLength : ℕ)
      (hact : act = .api (.qInit q queuePool queuePoolLength)) :
      QueueEdit env act q queue (qInit queuePool queuePoolLength)
  | send (item : UInt32) (hact : act = .api (.qSend q item)) :
      QueueEdit env act q queue (qSend queue item).1
  | receive (pItem : Bool) (hact : act = .api (.qReceive q pItem)) :
      QueueEdit env act q queue (qReceive queue env.currentTask pItem false).1
  | block (hact : act = .block (.qReceive q)) (hpc : env.pc = .running) :
      QueueEdit env act q queue (qReceive queue env.currentTask true true).1
  | resume (hres : ResumesIn env act q) : QueueEdit env act q queue (qReceiveResume queue).1

theorem not_resumesIn (h : ¬(act = .sched ∧ env.pc = .tsm)) : ¬ResumesIn env act q := by
  rintro ⟨⟨⟨⟨hact, hpc, -⟩, -⟩, -⟩, -⟩
  exact h ⟨hact, hpc⟩

theorem modifyTask_queues (env : Env) (id : ℕ) (f : Task → Task) :
    (env.modifyTask id f).queues = env.queues := by
  rw [Env.modifyTask]
  split <;> rfl

theorem selectEnd_queues (env : Env) (n : ℕ) : (env.selectEnd n).queues = env.queues := by
  rw [Env.selectEnd]
  split
  · rfl
  · split <;> rfl

/-- A change of the queue `q'` is one of `q`, or leaves it. -/
theorem setQueue_edit {q' : ℕ} {queue : Queue} (hno : ¬ResumesIn env act q)
    (h : q' = q → QueueEdit env act q (env.queues q) queue) :
    QueueEdit env act q (env.queues q) ((env.setQueue q' queue).queues q) := by
  show QueueEdit env act q (env.queues q) (update env.queues q' queue q)
  rcases eq_or_ne q' q with rfl | hne
  · rw [update_self]
    exact h rfl
  · rw [update_of_ne hne.symm]
    exact .same hno

theorem qSend_queue (env : Env) (q : ℕ) (item : UInt32) :
    (env.qSend q item).queues = (env.setQueue q (qSend (env.queues q) item).1).queues := by
  rw [Env.qSend]
  split
  · rfl
  · rw [modifyTask_queues]

theorem api_queue {call : Api} (hs : env.api w call = some env') (q : ℕ) :
    QueueEdit env (.api call) q (env.queues q) (env'.queues q) := by
  have hno : ¬ResumesIn env (.api call) q := not_resumesIn (by simp)
  cases call with
  | tCreate entryPoint param rt =>
    cases hs
    have hsame : ((env.tCreate entryPoint param rt).1).queues = env.queues := by
      rw [Env.tCreate]
      split <;> rfl
    rw [hsame]
    exact .same hno
  | tDelete id | tNotifySignal id _ | tFreeze id | tUnfreeze id | tRestart id _ | tSigIgnore id _
  | tSigAllow id _ =>
    cases hs
    rw [modifyTask_queues]
    exact .same hno
  | timerStart _ _ _ _ _ | timerCancel _ | timerDelete _ | setIdleCbk _ =>
    cases hs
    exact .same hno
  | timerRestart id newInterval =>
    obtain ⟨r, -, rfl⟩ := Option.map_eq_some_iff.mp hs
    exact .same hno
  | qInit q' queuePool queuePoolLength =>
    cases hs
    refine setQueue_edit hno ?_
    rintro rfl
    exact .init queuePool queuePoolLength rfl
  | qSend q' item =>
    cases hs
    rw [qSend_queue]
    refine setQueue_edit hno ?_
    rintro rfl
    exact .send item rfl
  | qReceive q' pItem =>
    cases hs
    refine setQueue_edit hno ?_
    rintro rfl
    exact .receive pItem rfl

theorem block_queue (hpc : env.pc = .running) (call : Blocking) (q : ℕ) :
    QueueEdit env (.block call) q (env.queues q) ((env.block w call).queues q) := by
  have hno : ¬ResumesIn env (.block call) q := not_resumesIn (by simp)
  cases call with
  | tSuspend | tWaitforSignal _ | tmWkafter _ | tmMsleep _ => exact .same hno
  | qReceive q' =>
    have hset : (env.block w (.qReceive q')).queues
        = (env.setQueue q' (qReceive (env.queues q') env.currentTask true true).1).queues := by
      rw [Env.block]
      split
      · rename_i h
        rw [h]
      · rename_i h
        rw [h]
        rfl
    rw [hset]
    refine setQueue_edit hno ?_
    rintro rfl
    exact .block rfl hpc

theorem dispatch_queue (hs : env.dispatch = some env') (q : ℕ) :
    (((env.taskTable env.currentTask).wkup = true →
        ∀ signum, (env.taskTable env.currentTask).stack ≠ .saved signum (some q)) ∧
      env'.queues q = env.queues q) ∨
    (((env.taskTable env.currentTask).wkup = true ∧
        ∃ signum, (env.taskTable env.currentTask).stack = .saved signum (some q)) ∧
      env'.queues q = (qReceiveResume (env.queues q)).1) := by
  rw [Env.dispatch] at hs
  dsimp only at hs
  split at hs
  · rename_i hwkup
    split at hs
    · rename_i signum queue hstack
      cases hs
      rw [hstack]
      cases queue with
      | none => exact .inl ⟨by simp, rfl⟩
      | some q' =>
        show _ ∧ update env.queues q' (qReceiveResume (env.queues q')).1 q = _ ∨
          _ ∧ update env.queues q' (qReceiveResume (env.queues q')).1 q = _
        rcases eq_or_ne q q' with rfl | hne
        · exact .inr ⟨⟨hwkup, signum, rfl⟩, update_self ..⟩
        · exact .inl ⟨by simp [hne.symm], update_of_ne hne _ _⟩
    · cases hs
  · rename_i hwkup
    cases hs
    exact .inl ⟨fun h => absurd h hwkup, rfl⟩

/-- The task state machine takes an item for the task that it resumes. -/
theorem visitTask_queue (hpc : env.pc = .tsm) (hs : env.visitTask = some env') (q : ℕ) :
    QueueEdit env .sched q (env.queues q) (env'.queues q) := by
  have hno : (env.taskTable env.currentTask).status ≠ taskReady → ¬ResumesIn env .sched q := by
    rintro hne ⟨⟨⟨-, hstatus⟩, -⟩, -⟩
    exact hne hstatus
  rw [Env.visitTask] at hs
  dsimp only at hs
  split at hs
  · rename_i hstatus
    cases hs
    exact .same (hno (by rw [hstatus]; decide))
  · split at hs
    · rename_i hstatus
      cases hs
      exact .same (hno (by rw [hstatus]; decide))
    · split at hs
      · rename_i hstatus
        rcases dispatch_queue hs q with ⟨hnot, h⟩ | ⟨⟨hwkup, signum, hstack⟩, h⟩
        · simp only [setTask_taskTable, setTask_currentTask, update_self] at hnot
          rw [h]
          refine .same ?_
          rintro ⟨⟨-, hwkup⟩, signum, hstack⟩
          exact hnot hwkup signum hstack
        · simp only [setTask_taskTable, setTask_currentTask, update_self] at hwkup hstack
          rw [h]
          exact .resume ⟨⟨⟨⟨rfl, hpc, rfl⟩, hstatus⟩, hwkup⟩, signum, hstack⟩
      · rename_i hstatus
        cases hs
        exact .same (hno hstatus)

theorem sched_queue (hs : env.sched = some env') (q : ℕ) :
    QueueEdit env .sched q (env.queues q) (env'.queues q) := by
  rw [Env.sched] at hs
  split at hs
  · rename_i hpc
    cases hs
    exact .same (not_resumesIn (by simp [hpc]))
  · rename_i hpc
    obtain ⟨timers, pc, rfl, -⟩ := visitTimer_cases hs
    exact .same (not_resumesIn (by simp [hpc]))
  · rename_i hpc
    rw [Env.selectRound] at hs
    dsimp only at hs
    split at hs
    · split at hs
      · cases hs
        exact .same (not_resumesIn (by simp [hpc]))
      · cases hs
    · cases hs
      rw [selectEnd_queues]
      exact .same (not_resumesIn (by simp [hpc]))
  · rename_i hpc
    exact visitTask_queue hpc hs q
  · cases hs

/-- **What one step does to a queue.** -/
theorem step_queue (hs : step w env act = some env') (q : ℕ) :
    QueueEdit env act q (env.queues q) (env'.queues q) := by
  cases act with
  | sched => exact sched_queue hs q
  | updateRtc quantum =>
    cases hs
    exact .same (not_resumesIn (by simp))
  | api call =>
    obtain ⟨-, hs⟩ := step_api hs
    exact api_queue hs q
  | block call =>
    obtain ⟨hpc, rfl⟩ := step_block hs
    exact block_queue hpc call q
  | ret value =>
    have hno : ¬ResumesIn env (.ret value) q := not_resumesIn (by simp)
    rw [step, Env.ret] at hs
    split at hs
    · cases hs
      exact .same hno
    · cases hs
      exact .same hno
    · rw [Env.rtReturn] at hs
      split at hs
      · cases hs
        rw [selectEnd_queues]
        exact .same hno
      · split at hs
        · cases hs
          rw [selectEnd_queues]
          exact .same hno
        · cases hs
    · cases hs
      exact .same hno
    · cases hs
      exact .same hno
    · cases hs

/-! ### Tasks that wait in a queue -/

/-- The task is inside a blocking `mipos_q_receive` on `q`. -/
def Task.WaitsIn (task : Task) (q : ℕ) : Prop :=
  task.entryPoint ≠ none ∧ ∃ signum, task.stack = .saved signum (some q)

/-- `MIPOS_SIGQUE` is pending for the task, or it is ready. -/
def Task.Roused (task : Task) : Prop :=
  task.signalPending.getLsbD 1 = true ∨ task.status.getLsbD 1 = true

theorem Task.roused_of_ready {task : Task} (h : task.status = taskReady) : task.Roused := by
  right
  rw [h]
  decide

theorem TaskEdit.roused {task task' : Task} (hedit : TaskEdit env act t task task')
    (h : task.Roused) : task'.Roused := by
  rcases h with hp | hready
  · exact .inl (hedit.pending hp).2
  · cases hedit with
    | freeze _ _ => exact .inr (by simp [Task.freeze, hready])
    | unfreeze _ _ => exact .inr (by simp [Task.unfreeze, hready, taskFrozen])
    | restart newParam _ _ =>
      rw [Task.restart]
      split
      · exact Task.roused_of_ready rfl
      · exact .inr hready
    | same | retValue _ _ _ | notifySignal _ _ _ | notifyQueue _ _ _ | sigIgnore _ _ _
    | sigAllow _ _ _ => exact .inr hready

/-- **A task that waits** has waited before, and is as roused as before, unless it has
made its call in this step. -/
theorem SlotStep.waits {sl sl' : Slot} (hstep : SlotStep env act t sl sl') {phase : Phase}
    {frozen : Bool} (hok : SlotOk sl phase frozen) (hwaits : sl'.task.WaitsIn q) :
    (sl.task.WaitsIn q ∧ sl'.task.stack = sl.task.stack ∧ (sl.task.Roused → sl'.task.Roused)) ∨
      ((∃ call, act = .block call) ∧ sl.onCpu = true) := by
  obtain ⟨hlive, signum, hsaved⟩ := hwaits
  cases hstep with
  | edit hedit =>
    obtain ⟨hentry, hstack, -⟩ := hedit.context
    exact .inl ⟨⟨hentry ▸ hlive, signum, hstack ▸ hsaved⟩, hstack, hedit.roused⟩
  | create hact hslot hfree => cases hsaved
  | delete hdel => exact absurd rfl hlive
  | promote hprom hne hedit =>
    obtain ⟨hentry, hstack, -⟩ := hedit.context
    exact .inl ⟨⟨hentry ▸ hlive, signum, hstack ▸ hsaved⟩, hstack, fun _ =>
      Task.roused_of_ready rfl⟩
  | suspend signum queue ticks timeout hact => exact .inr ⟨⟨_, hact⟩, rfl⟩
  | finish value hact => cases hsaved
  | @zombie task hvisit hstatus =>
    -- its status says that it has returned
    obtain ⟨rfl, rfl⟩ := Phase.eq_of_word .running (hok.status.symm.trans hstatus)
    have hret : task.stack = .returned := hok.returned rfl rfl
    exact absurd (hret.symm.trans hsaved) (by simp)
  | @visit task hvisit hstatus =>
    obtain ⟨task₁, hclock, ⟨-, heq⟩ | ⟨-, heq⟩⟩ := visitSuspended_cases task env.rtcCounter
    · rw [heq, hclock.same] at hlive hsaved ⊢
      exact .inl ⟨⟨hlive, signum, hsaved⟩, rfl, fun _ => Task.roused_of_ready rfl⟩
    · rw [heq] at hlive hsaved ⊢
      have hsame := hclock.same
      rw [hsame] at hlive hsaved
      refine .inl ⟨⟨hlive, signum, hsaved⟩, by rw [hsame], ?_⟩
      rintro (hp | hready)
      · exact .inl (hclock.adds 1 hp)
      · right
        rw [hsame]
        exact hready
  | begin hvisit hstatus hwkup => cases hsaved
  | resume hvisit hstatus hwkup hstack => cases hsaved

/-- `MIPOS_SIGQUE` is not masked for a live task. -/
def Task.HearsQueues (task : Task) : Prop :=
  task.entryPoint ≠ none → task.signalMask.getLsbD 1 = true

theorem TaskEdit.hearsQueues {task task' : Task} (hedit : TaskEdit env act t task task')
    (h : task.HearsQueues) : task'.HearsQueues := by
  intro hlive
  have hbit := h (hedit.context.1 ▸ hlive)
  cases hedit with
  | sigIgnore signum _ _ =>
    simp [Task.sigIgnore, hbit, sysReservedSignals, sigwkp, sigque, sigalm, sigtmr]
  | sigAllow signum _ _ => simp [Task.sigAllow, hbit]
  | restart newParam _ _ =>
    rw [Task.restart]
    split
    · exact hbit
    · exact hbit
  | same | retValue _ _ _ | notifySignal _ _ _ | notifyQueue _ _ _ | freeze _ _ | unfreeze _ _ =>
    exact hbit

/-- No call masks it. -/
theorem SlotStep.hearsQueues {sl sl' : Slot} (hstep : SlotStep env act t sl sl')
    (h : sl.task.HearsQueues) : sl'.task.HearsQueues := by
  cases hstep with
  | edit hedit => exact hedit.hearsQueues h
  | create hact hslot hfree =>
    intro _
    show sigany.getLsbD 1 = true
    decide
  | delete hdel => exact fun hlive => absurd rfl hlive
  | promote hprom hne hedit => exact hedit.hearsQueues h
  | @visit task hvisit hstatus =>
    obtain ⟨_, _, _, _, _, heq⟩ := visitSuspended_same task env.rtcCounter
    rw [heq]
    exact h
  | suspend _ _ _ _ _ | finish _ _ | zombie _ _ | begin _ _ _ | resume _ _ _ _ => exact h

/-! ### No lost wakeup -/

/-- A queue with a recorded task keeps it in a receive, and gets no longer. -/
theorem qReceive_of_waiter {queue : Queue} (htid : queue.suspendedTid ≠ 0) (currentTask : ℕ)
    (pItem bl : Bool) :
    (qReceive queue currentTask pItem bl).1.suspendedTid = queue.suspendedTid ∧
      (qReceive queue currentTask pItem bl).1.queueCount ≤ queue.queueCount := by
  rw [qReceive]
  split
  · exact ⟨rfl, Nat.le_refl _⟩
  · rw [if_neg (fun h => htid h.2)]
    show (qTake queue).1.suspendedTid = _ ∧ (qTake queue).1.queueCount ≤ _
    rw [qTake]
    split
    · exact ⟨rfl, Nat.sub_le _ _⟩
    · exact ⟨rfl, Nat.le_refl _⟩

/-- A receive that suspends its caller finds an empty queue. -/
theorem qReceive_suspends {queue queue' : Queue} {currentTask : ℕ}
    (h : qReceive queue currentTask true true = (queue', none)) :
    queue.queueCount = 0 ∧ queue.suspendedTid = 0 ∧
      queue' = { queue with suspendedTid := currentTask } := by
  rw [qReceive, if_neg (by simp)] at h
  split at h
  · rename_i hempty
    cases h
    exact ⟨hempty.1, hempty.2, rfl⟩
  · cases h

/-- No queue is initialised again while a task waits in it. -/
def NoReinit (env : Env) (act : Act) : Prop :=
  ∀ q queuePool queuePoolLength, act = .api (.qInit q queuePool queuePoolLength) →
    (env.queues q).suspendedTid = 0

/-- What one step does to a queue with a recorded task, if it does not resume a task
that waits in it. -/
theorem QueueEdit.waiter {queue queue' : Queue} (hstep : QueueEdit env act q queue queue')
    (hq : env.queues q = queue) (htid : queue.suspendedTid ≠ 0) (hinit : NoReinit env act)
    (hres : ¬ResumesIn env act q) :
    queue'.suspendedTid = queue.suspendedTid ∧
      (queue'.queueCount ≤ queue.queueCount ∨ ∃ item, act = .api (.qSend q item)) := by
  cases hstep with
  | same _ => exact ⟨rfl, .inl (Nat.le_refl _)⟩
  | init queuePool queuePoolLength hact =>
    exact absurd (hq ▸ hinit q queuePool queuePoolLength hact) htid
  | send item hact =>
    refine ⟨?_, .inr ⟨item, hact⟩⟩
    rw [qSend]
    split <;> rfl
  | receive pItem hact =>
    obtain ⟨h, hle⟩ := qReceive_of_waiter htid env.currentTask pItem false
    exact ⟨h, .inl hle⟩
  | block hact hpc =>
    obtain ⟨h, hle⟩ := qReceive_of_waiter htid env.currentTask true true
    exact ⟨h, .inl hle⟩
  | resume h => exact absurd h hres

/-- A send signals the recorded task. -/
theorem send_notifies {item : UInt32} (hs : step w env (.api (.qSend q item)) = some env')
    (htid : (env.queues q).suspendedTid = t) (hne : t ≠ idleTaskId)
    (hlt : t < tasksTblEntriesCnt) :
    env'.taskTable t = (env.taskTable t).notifySignal sigque := by
  obtain ⟨-, hs⟩ := step_api hs
  cases hs
  have hsent : (qSend (env.queues q) item).2.2 = some t := by
    rw [qSend, htid]
    split
    · exact if_pos hne
    · exact if_pos hne
  show (env.qSend q item).taskTable t = _
  have hid : (env.setQueue q (qSend (env.queues q) item).1).getPTask t = some t :=
    (if_neg hne).trans (if_pos hlt)
  rw [Env.qSend, hsent]
  dsimp only
  rw [modifyTask_taskTable, if_pos hid]
  rfl

/-- The task `t` waits in the queue `q`: the queue has recorded it, and it has been roused
if there are items. -/
structure Waiter (env : Env) (t q : ℕ) : Prop where
  tid : (env.queues q).suspendedTid = t
  slot : t ≠ idleTaskId ∧ t < tasksTblEntriesCnt
  stack : (env.taskTable t).stack = .saved sigque (some q)
  roused : 0 < (env.queues q).queueCount → (env.taskTable t).Roused

structure WaitersInv (env : Env) : Prop where
  waiters : ∀ t q, (env.taskTable t).WaitsIn q → Waiter env t q
  hears : ∀ t, t ≠ idleTaskId → (env.taskTable t).HearsQueues

/-- The receive that suspends the running task. -/
theorem block_waiter (hi : EnvInv env) (hctl : ControlInv env) {call : Blocking}
    (hpc : env.pc = .running) (hptr : env.taskContextPtr = t)
    (hwaits : ((env.block w call).taskTable t).WaitsIn q) : Waiter (env.block w call) t q := by
  subst hptr
  obtain ⟨-, signum, hsaved⟩ := hwaits
  cases call with
  | tSuspend | tWaitforSignal _ | tmWkafter _ | tmMsleep _ =>
    -- these calls do not wait in a queue
    simp [Env.block, Env.suspend, Task.suspend] at hsaved
  | qReceive q' =>
    have hcur := hctl.running hpc
    have hslot := hctl.ptr_ne (by rw [hpc]; rfl)
    cases hreceive : qReceive (env.queues q') env.currentTask true true with
    | mk queue r =>
      cases r with
      | some r =>
        -- the call has returned, and the task goes on
        obtain ⟨phase, frozen, hok⟩ := hi.slots env.taskContextPtr
        have hon : (env.slot env.taskContextPtr).onCpu = true := by simp [Env.slot, hpc]
        rw [Env.block, hreceive] at hsaved
        exact absurd hsaved ((hok.onCpu hon).1 signum (some q))
      | none =>
        obtain ⟨hempty, -, rfl⟩ := qReceive_suspends hreceive
        rw [Env.block, hreceive] at hsaved ⊢
        simp only [Env.suspend, Env.setQueue, setTask_taskTable, update_self, id_eq,
          Task.suspend, Stack.saved.injEq, Option.some.injEq] at hsaved
        obtain ⟨rfl, rfl⟩ := hsaved
        refine ⟨?_, ⟨hslot, hctl.taskContextPtr⟩, ?_, ?_⟩
        · simp [Env.suspend, Env.setQueue, Env.setTask, hcur]
        · simp [Env.suspend, Env.setQueue, Task.suspend]
        · simp [Env.suspend, Env.setQueue, Env.setTask, hempty]

/-- A step after which `t` still waits in `q` resumes no task that waits in `q`. -/
theorem WaitersInv.not_resumesIn (hinv : WaitersInv env) (hi : EnvInv env)
    (hs : step w env act = some env') (htid : (env.queues q).suspendedTid = t)
    (hsaved : (env'.taskTable t).stack = .saved sigque (some q)) : ¬ResumesIn env act q := by
  rintro ⟨hres, signum, hcall⟩
  -- it would be `t` itself
  have hself := (hinv.waiters env.currentTask q ⟨hi.live_of_visits hres.1.1, signum, hcall⟩).tid
  have hcur : env.currentTask = t := hself.symm.trans htid
  rw [hcur] at hres
  rcases hres.1.slot_cases hs with ⟨hoff, -⟩ | ⟨-, signum', queue, -, hrun⟩
  · rw [hres.2] at hoff
    cases hoff
  · have hrunning : (env'.taskTable t).stack = .running := congrArg (fun sl => sl.task.stack) hrun
    exact absurd (hrunning.symm.trans hsaved) (by simp)

/-- **One step keeps the waiting tasks recorded and roused.** -/
theorem WaitersInv.step (hinv : WaitersInv env) (hi : EnvInv env) (hctl : ControlInv env)
    (hs : step w env act = some env') (hinit : NoReinit env act) : WaitersInv env' := by
  refine ⟨fun t q hwaits' => ?_, fun t hne => (step_slot hs t).hearsQueues (hinv.hears t hne)⟩
  obtain ⟨phase, frozen, hok⟩ := hi.slots t
  rcases (step_slot hs t).waits hok hwaits' with ⟨hwaits, hstack, hkeep⟩ | ⟨⟨call, rfl⟩, hcpu⟩
  · obtain ⟨htid, hslot, hsaved, hroused⟩ := hinv.waiters t q hwaits
    have hsaved' : (env'.taskTable t).stack = .saved sigque (some q) := hstack.trans hsaved
    have htid0 : (env.queues q).suspendedTid ≠ 0 := htid ▸ hslot.1
    obtain ⟨htid', hcount⟩ := (step_queue hs q).waiter rfl htid0 hinit
      (hinv.not_resumesIn hi hs htid hsaved')
    refine ⟨htid'.trans htid, hslot, hsaved', fun hpos => ?_⟩
    rcases hcount with hle | ⟨item, rfl⟩
    · exact hkeep (hroused (Nat.lt_of_lt_of_le hpos hle))
    · left
      rw [send_notifies hs htid hslot.1 hslot.2]
      simp [Task.notifySignal, hinv.hears t hslot.1 hwaits.1, sigque]
  · obtain ⟨hpc, hptr⟩ := of_decide_eq_true hcpu
    rw [Kernel.step, if_pos hpc] at hs
    cases hs
    exact block_waiter hi hctl hpc hptr hwaits'

theorem waitersInv_start (root param : ℕ) (queues : ℕ → Queue) :
    WaitersInv (.start root param queues) := by
  constructor
  · rintro t q ⟨-, signum, hsaved⟩
    rw [(start_unused root param queues t).1] at hsaved
    cases hsaved
  · intro t hne hlive
    rw [start_taskTable] at hlive ⊢
    rcases eq_or_ne t 1 with rfl | ht
    · rw [update_self]
      show sigany.getLsbD 1 = true
      decide
    · -- the other slots are free
      rw [update_of_ne ht, show (schedulerInit queues).taskTable t = _ from if_neg hne]
        at hlive
      exact absurd rfl hlive

theorem waitersInv_of_run {root param : ℕ} {queues : ℕ → Queue}
    (hrun : ReflTransGen (StepWhere w NoReinit) (.start root param queues) env) :
    WaitersInv env ∧ Reachable w env := by
  induction hrun with
  | refl => exact ⟨waitersInv_start root param queues, root, param, queues, .refl⟩
  | tail _ hstep ih =>
    obtain ⟨act, hs, hinit⟩ := hstep
    obtain ⟨hinv, hr⟩ := ih
    exact ⟨hinv.step hr.inv hr.control hs hinit, hr.step hs⟩

/-- **No wakeup of a queue is lost.**  If a task is inside a blocking `mipos_q_receive` on
a queue that has items, then `MIPOS_SIGQUE` is pending for it or it is ready; and if it is
still suspended, the next visit makes it ready. -/
theorem no_lost_wakeup {root param : ℕ} {queues : ℕ → Queue}
    (hrun : ReflTransGen (StepWhere w NoReinit) (.start root param queues) env)
    (hlive : (env.taskTable t).entryPoint ≠ none) {signum : BitVec 8}
    (hcall : (env.taskTable t).stack = .saved signum (some q))
    (hitems : 0 < qCount (env.queues q)) :
    ((env.taskTable t).signalPending &&& sigque ≠ 0 ∨
      (env.taskTable t).status &&& taskReady ≠ 0) ∧
    ((env.taskTable t).status = taskSuspended → env.pc = .tsm → env.currentTask = t →
      ∃ env', step w env .sched = some env' ∧ (env'.taskTable t).status = taskReady ∧
        (env'.taskTable t).wkup = true) := by
  obtain ⟨hinv, hr⟩ := waitersInv_of_run hrun
  obtain ⟨-, -, hstack, hroused⟩ := hinv.waiters t q ⟨hlive, signum, hcall⟩
  have hpending : (env.taskTable t).signalPending.getLsbD 1 = true →
      (env.taskTable t).signalPending &&& sigque ≠ 0 := fun hp =>
    and_ne_zero_iff.mpr ⟨1, hp, by decide⟩
  constructor
  · rcases hroused hitems with hp | hready
    · exact .inl (hpending hp)
    · right
      intro hzero
      have hbit := congrArg (fun s => s.getLsbD 1) hzero
      simp only [BitVec.getLsbD_and, hready] at hbit
      exact absurd hbit (by decide)
  · intro hstatus hpc hcur
    subst hcur
    -- it is not ready, so the signal is pending, and the signal is what it waits for
    have hp : (env.taskTable env.currentTask).signalPending.getLsbD 1 = true := by
      rcases hroused hitems with hp | hready
      · exact hp
      · rw [hstatus] at hready
        exact absurd hready (by decide)
    obtain ⟨phase, frozen, hok⟩ := hr.inv.slots env.currentTask
    obtain ⟨rfl, rfl⟩ := Phase.eq_of_word .suspended (hok.status.symm.trans hstatus)
    obtain ⟨queue, hwait⟩ := hok.suspended rfl
    have hmask : (env.taskTable env.currentTask).signalWaiting = sigque :=
      (Stack.saved.inj (hwait.symm.trans hstack)).1
    refine visit_wakes hr.inv hpc ⟨hlive, ⟨false, hstatus⟩, ?_⟩
    rw [hmask]
    exact hpending hp

/-- Steps that do not initialise a queue. -/
def noInit (_ : Env) : Act → Bool
  | .api (.qInit _ _ _) => false
  | _ => true

theorem noInit_spec (env : Env) (act : Act) (h : noInit env act = true) : NoReinit env act := by
  intro q queuePool queuePoolLength hact
  rw [hact] at h
  cases h

/-- The root task creates the task 2 and sleeps, the task 2 waits in the queue 0, and the
root task has the processor again. -/
def workerWaits : List Act :=
  List.replicate 3 Act.sched ++ [Act.api (.tCreate (some 5) 9 false), .block (.tmWkafter 0),
    .sched, .sched, .sched, .block (.qReceive 0)] ++ List.replicate 21 Act.sched

/-- A task waits in a queue, the root task sends an item, and the next visit wakes the
task. -/
theorem no_lost_wakeup_worker :
    ∃ env : Env, (env.taskTable 2).stack = .saved sigque (some 0) ∧ qCount (env.queues 0) = 1 ∧
      (env.taskTable 2).status = taskSuspended ∧
      ((env.taskTable 2).signalPending &&& sigque ≠ 0 ∨
        (env.taskTable 2).status &&& taskReady ≠ 0) ∧
      ∃ env', step 64 env .sched = some env' ∧ (env'.taskTable 2).status = taskReady ∧
        (env'.taskTable 2).wkup = true := by
  have heval : ∃ env, runWhere 64 noInit boot (workerWaits ++ [Act.api (.qSend 0 7),
        .block (.tmWkafter 0), .sched, .sched]) = some env ∧
      (env.taskTable 2).entryPoint.isSome = true ∧
      (env.taskTable 2).stack = .saved sigque (some 0) ∧ qCount (env.queues 0) = 1 ∧
      (env.taskTable 2).status = taskSuspended ∧ env.pc = .tsm ∧ env.currentTask = 2 := by
    decide +kernel
  obtain ⟨env, hrun, hlive, hstack, hcount, hstatus, hpc, hcur⟩ := heval
  obtain ⟨hroused, hwake⟩ := no_lost_wakeup (run_of_runWhere noInit_spec hrun)
    (Option.isSome_iff_ne_none.mp hlive) hstack (by rw [hcount]; decide)
  exact ⟨env, hstack, hcount, hstatus, hroused, hwake hstatus hpc hcur⟩

end Kernel
