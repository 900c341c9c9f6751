/-
The task that a queue has recorded.

`suspended_tid` is the number of a slot, kept outside the task table.  `mipos_t_delete`
does not look at the queues, so a task that waits in one leaves its number behind.

* `Recorded` — every recorded task is live and inside `mipos_q_receive` on the queue.
* `Recorded.step_iff` — a step keeps it just if it deletes no recorded task and no task
  that has deleted itself waits in a queue.
* `recorded_waiter_real` — what follows for whole runs.
* `deleted_waiter_stays` — a task is deleted while it waits.
-/
import Mipos.KernelQueues

namespace Kernel

variable {w : ℕ} {env env' : Env} {act : Act} {t q : ℕ}

/-! ### Tasks that wait -/

/-- **A task that waits goes on waiting** until it is deleted or resumed. -/
theorem SlotStep.still_waits {sl sl' : Slot} (hstep : SlotStep env act t sl sl') {phase : Phase}
    {frozen : Bool} (hok : SlotOk sl phase frozen) (hwaits : sl.task.WaitsIn q) :
    sl'.task.WaitsIn q ∨ Deletes env act t ∨
      (Visits env act t ∧ sl.task.status = taskReady ∧ sl.task.wkup = true) := by
  obtain ⟨hlive, signum, hsaved⟩ := hwaits
  cases hstep with
  | edit hedit =>
    obtain ⟨hentry, hstack, -⟩ := hedit.context
    exact .inl ⟨hentry.symm ▸ hlive, signum, hstack.trans hsaved⟩
  | create hact hslot hfree => exact absurd hfree hlive
  | delete hdel => exact .inr (.inl hdel)
  | promote hprom hne hedit =>
    obtain ⟨hentry, hstack, -⟩ := hedit.context
    exact .inl ⟨hentry.symm ▸ hlive, signum, hstack.trans hsaved⟩
  | suspend signum' queue ticks timeout hact => exact absurd hsaved ((hok.onCpu rfl).1 _ _)
  | finish value hact => exact absurd hsaved ((hok.onCpu rfl).1 _ _)
  | zombie hvisit hstatus => exact .inl ⟨hlive, signum, hsaved⟩
  | @visit task hvisit hstatus =>
    left
    obtain ⟨task₁, hclock, ⟨-, heq⟩ | ⟨-, heq⟩⟩ := visitSuspended_cases task env.rtcCounter
    · rw [heq, hclock.same]
      exact ⟨hlive, signum, hsaved⟩
    · rw [heq, hclock.same]
      exact ⟨hlive, signum, hsaved⟩
  | begin hvisit hstatus hwkup =>
    -- a task that is to start has no saved context
    obtain ⟨rfl, rfl⟩ := Phase.eq_of_word .ready (hok.status.symm.trans hstatus)
    exact absurd hsaved (hok.fresh rfl hwkup hlive _ _)
  | resume hvisit hstatus hwkup hstack => exact .inr (.inr ⟨hvisit, hstatus, hwkup⟩)

/-- A live task with a saved context is suspended, or has been woken and not yet
resumed; it may be frozen besides. -/
def Task.SuspendedOrWoken (task : Task) : Prop :=
  task.status &&& ~~~taskFrozen = taskSuspended ∨
    (task.status &&& ~~~taskFrozen = taskReady ∧ task.wkup = true)

theorem SlotOk.suspendedOrWoken {sl : Slot} {phase : Phase} {frozen : Bool}
    (hok : SlotOk sl phase frozen) (hwaits : sl.task.WaitsIn q) : sl.task.SuspendedOrWoken := by
  obtain ⟨hlive, signum, hsaved⟩ := hwaits
  have hword : sl.task.status &&& ~~~taskFrozen = phase.word false := by
    rw [hok.status, Phase.word_unfreeze]
  -- what has returned has no saved context
  have hreturned : sl.task.stack ≠ .returned := by
    rw [hsaved]
    simp
  cases phase with
  | suspended => exact .inl hword
  | ready =>
    refine .inr ⟨hword, ?_⟩
    by_contra hwkup
    exact hok.fresh rfl (by simpa using hwkup) hlive _ _ hsaved
  | running =>
    cases hcpu : sl.onCpu with
    | true => exact absurd hsaved ((hok.onCpu hcpu).1 _ _)
    | false => exact absurd (hok.returned rfl hcpu) hreturned
  | zombie => exact absurd (hok.zombie rfl) hreturned
  | notRunning => exact absurd (hok.dead rfl) hlive

/-! ### The recorded task -/

/-- Every recorded task waits in the queue. -/
def Recorded (env : Env) : Prop :=
  ∀ q, (env.queues q).suspendedTid ≠ 0 → (env.taskTable (env.queues q).suspendedTid).WaitsIn q

/-- The steps that delete no task that a queue has recorded, and in which no task that has
deleted itself gives up the processor in a queue. -/
structure KeepsWaiters (env : Env) (act : Act) : Prop where
  delete : ∀ t q, Deletes env act t → (env.queues q).suspendedTid ≠ 0 →
    (env.queues q).suspendedTid ≠ t
  block : ∀ q, act = .block (.qReceive q) → (env.queues q).queueCount = 0 →
    (env.queues q).suspendedTid = 0 → (env.taskTable env.taskContextPtr).entryPoint ≠ none

theorem qTake_suspendedTid (queue : Queue) : (qTake queue).1.suspendedTid = queue.suspendedTid := by
  rw [qTake]
  split <;> rfl

/-- A blocking receive on an empty queue with nobody recorded. -/
theorem qReceive_blocks {queue : Queue} (hcount : queue.queueCount = 0)
    (htid : queue.suspendedTid = 0) (currentTask : ℕ) :
    qReceive queue currentTask true true = ({ queue with suspendedTid := currentTask }, none) := by
  rw [qReceive, if_neg (by simp), if_pos ⟨hcount, htid⟩]
  rfl

/-- Who is recorded after a step: the task of before, or the one that has just been
suspended. -/
theorem QueueEdit.recorded {queue queue' : Queue} (hedit : QueueEdit env act q queue queue')
    (htid : queue'.suspendedTid ≠ 0) :
    (queue'.suspendedTid = queue.suspendedTid ∧ ¬ResumesIn env act q) ∨
      (act = .block (.qReceive q) ∧ env.pc = .running ∧
        qReceive queue env.currentTask true true = (queue', none)) := by
  cases hedit with
  | same hres => exact .inl ⟨rfl, hres⟩
  | init queuePool queuePoolLength hact => exact absurd rfl htid
  | send item hact =>
    refine .inl ⟨?_, not_resumesIn (by simp [hact])⟩
    rw [qSend]
    split <;> rfl
  | receive pItem hact =>
    refine .inl ⟨?_, not_resumesIn (by simp [hact])⟩
    rw [qReceive] at htid ⊢
    split
    · rfl
    · rename_i hitem
      rw [if_neg hitem] at htid
      split
      · -- nobody is recorded by a call that does not block
        rename_i hempty
        rw [if_pos hempty] at htid
        exact absurd (qTake_suspendedTid _) htid
      · exact qTake_suspendedTid queue
  | block hact hpc =>
    by_cases hempty : queue.queueCount = 0 ∧ queue.suspendedTid = 0
    · rw [qReceive_blocks hempty.1 hempty.2]
      exact .inr ⟨hact, hpc, rfl⟩
    · refine .inl ⟨?_, not_resumesIn (by simp [hact])⟩
      rw [qReceive, if_neg (by simp), if_neg hempty]
      exact qTake_suspendedTid queue
  | resume hres => exact absurd (qTake_suspendedTid _) htid

/-- The receive that suspends the running task. -/
theorem block_recorded (hctl : ControlInv env) (hpc : env.pc = .running)
    (hcount : (env.queues q).queueCount = 0) (htid : (env.queues q).suspendedTid = 0) :
    ((env.block w (.qReceive q)).queues q).suspendedTid = env.taskContextPtr ∧
      (((env.block w (.qReceive q)).taskTable env.taskContextPtr).WaitsIn q ↔
        (env.taskTable env.taskContextPtr).entryPoint ≠ none) := by
  rw [Env.block, qReceive_blocks hcount htid]
  refine ⟨?_, ?_⟩
  · simp [Env.suspend, Env.setTask, Env.setQueue, hctl.running hpc]
  · simp [Env.suspend, Env.setQueue, Task.WaitsIn, Task.suspend, Task.setWaitForSignal]

/-- **One step that leaves the recorded tasks in their queues.** -/
theorem Recorded.step (h : Recorded env) (hi : EnvInv env) (hctl : ControlInv env)
    (hs : step w env act = some env') (hkeep : KeepsWaiters env act) : Recorded env' := by
  intro q htid
  rcases (step_queue hs q).recorded htid with ⟨hsame, hno⟩ | ⟨rfl, hpc, hreceive⟩
  · rw [hsame] at htid ⊢
    have hwaits := h q htid
    obtain ⟨phase, frozen, hok⟩ := hi.slots (env.queues q).suspendedTid
    rcases (step_slot hs _).still_waits hok hwaits with h' | hdel | ⟨hvisit, hstatus, hwkup⟩
    · exact h'
    · exact absurd rfl (hkeep.delete _ q hdel htid)
    · -- the task would be resumed in the queue
      obtain ⟨-, signum, hsaved⟩ := hwaits
      have hcur := hvisit.2.2
      exact absurd ⟨⟨⟨hcur ▸ hvisit, hcur ▸ hstatus⟩, hcur ▸ hwkup⟩, signum, hcur ▸ hsaved⟩ hno
  · obtain ⟨hcount, hzero, -⟩ := qReceive_suspends hreceive
    rw [Kernel.step, if_pos hpc] at hs
    cases hs
    obtain ⟨hrec, hwaits⟩ := block_recorded hctl hpc hcount hzero
    rw [hrec]
    exact hwaits.mpr (hkeep.block q rfl hcount hzero)

/-- **A step keeps the recorded tasks in their queues** just if it meets the condition. -/
theorem Recorded.step_iff (h : Recorded env) (hi : EnvInv env) (hctl : ControlInv env)
    (hs : Kernel.step w env act = some env') : Recorded env' ↔ KeepsWaiters env act := by
  refine ⟨fun h' => ⟨?_, ?_⟩, h.step hi hctl hs⟩
  · rintro t q ⟨id, rfl, hid⟩ htid rfl
    obtain ⟨-, hs⟩ := step_api hs
    cases hs
    -- the number stays in the queue, and its slot is free
    have hqueue : (env.modifyTask id Task.delete).queues q = env.queues q := by
      rw [modifyTask_queues]
    have hwaits := h' q (show ((env.modifyTask id Task.delete).queues q).suspendedTid ≠ 0 by
      rw [hqueue]; exact htid)
    have hlive : ((env.modifyTask id Task.delete).taskTable
        ((env.modifyTask id Task.delete).queues q).suspendedTid).entryPoint ≠ none := hwaits.1
    rw [hqueue, modifyTask_taskTable, if_pos hid] at hlive
    exact hlive rfl
  · rintro q rfl hcount hzero
    obtain ⟨hpc, rfl⟩ := step_block hs
    obtain ⟨hrec, hwaits⟩ := block_recorded (w := w) hctl hpc hcount hzero
    have hne : env.taskContextPtr ≠ 0 := hctl.ptr_ne (by rw [hpc]; rfl)
    have hw := h' q (hrec ▸ hne)
    rw [hrec] at hw
    exact hwaits.mp hw

/-- What a send changes in the task table is the recorded task. -/
theorem send_taskTable {item : UInt32} (hs : step w env (.api (.qSend q item)) = some env')
    (hne : env'.taskTable t ≠ env.taskTable t) :
    (env.queues q).suspendedTid = t ∧ t ≠ 0 := by
  obtain ⟨-, hs⟩ := step_api hs
  cases hs
  have hchange : (env.qSend q item).taskTable t ≠ env.taskTable t := hne
  rw [Env.qSend, qSend_signals] at hchange
  by_cases htid : (env.queues q).suspendedTid = 0
  · rw [if_neg (not_not.mpr htid)] at hchange
    exact absurd rfl hchange
  · rw [if_pos htid] at hchange
    dsimp only at hchange
    rw [modifyTask_taskTable] at hchange
    split at hchange
    · rename_i hid
      rw [Env.getPTask, if_neg htid] at hid
      split at hid
      · have ht := Option.some.inj hid
        exact ⟨ht, ht ▸ htid⟩
      · cases hid
    · exact absurd rfl hchange

/-! ### Runs -/

theorem recorded_of_run {root param : ℕ} {queues : ℕ → Queue}
    (hqueues : ∀ q, (queues q).suspendedTid = 0)
    (hrun : Relation.ReflTransGen (StepWhere w KeepsWaiters) (.start root param queues) env) :
    Recorded env ∧ Reachable w env := by
  induction hrun with
  | refl => exact ⟨fun q htid => absurd (hqueues q) htid, root, param, queues, .refl⟩
  | tail _ hstep ih =>
    obtain ⟨act, hs, hkeep⟩ := hstep
    exact ⟨ih.1.step ih.2.inv ih.2.control hs hkeep, ih.2.step hs⟩

/-- **The recorded waiter is real** in every run that deletes no recorded task and in which
no task that has deleted itself waits in a queue: it is suspended, or woken and not yet
resumed, inside `mipos_q_receive` on the queue.  So a blocking receive on an empty queue in
which nobody waits suspends its caller, and a send signals only a task that waits in the
queue.  A step outside the condition ends it. -/
theorem recorded_waiter_real {root param : ℕ} {queues : ℕ → Queue}
    (hqueues : ∀ q, (queues q).suspendedTid = 0)
    (hrun : Relation.ReflTransGen (StepWhere w KeepsWaiters) (.start root param queues) env) :
    (∀ q, (env.queues q).suspendedTid ≠ 0 →
      (env.taskTable (env.queues q).suspendedTid).WaitsIn q ∧
      (env.taskTable (env.queues q).suspendedTid).SuspendedOrWoken) ∧
    (∀ q, (env.queues q).queueCount = 0 → (∀ t, ¬(env.taskTable t).WaitsIn q) →
      (qReceive (env.queues q) env.currentTask true true).2 = none) ∧
    (∀ q item env' t, step w env (.api (.qSend q item)) = some env' →
      env'.taskTable t ≠ env.taskTable t → (env.taskTable t).WaitsIn q) ∧
    (∀ act env', step w env act = some env' → (Recorded env' ↔ KeepsWaiters env act)) := by
  obtain ⟨hrec, hr⟩ := recorded_of_run hqueues hrun
  refine ⟨?_, ?_, ?_, ?_⟩
  · intro q htid
    obtain ⟨phase, frozen, hok⟩ := hr.inv.slots (env.queues q).suspendedTid
    exact ⟨hrec q htid, hok.suspendedOrWoken (hrec q htid)⟩
  · intro q hcount hnobody
    have hzero : (env.queues q).suspendedTid = 0 := by
      by_contra htid
      exact hnobody _ (hrec q htid)
    rw [qReceive_blocks hcount hzero]
  · intro q item env' t hs hne
    obtain ⟨rfl, htid⟩ := send_taskTable hs hne
    exact hrec q htid
  · intro act env' hs
    exact hrec.step_iff hr.inv hr.control hs

/-- Scheduler steps, new tasks, sends, and blocking calls of live tasks. -/
def keepsWaiters (env : Env) : Act → Bool
  | .sched => true
  | .api (.tCreate _ _ _) => true
  | .api (.qSend _ _) => true
  | .block _ => (env.taskTable env.taskContextPtr).entryPoint.isSome
  | _ => false

theorem keepsWaiters_spec (env : Env) (act : Act) (h : keepsWaiters env act = true) :
    KeepsWaiters env act := by
  refine ⟨?_, ?_⟩
  · rintro t q ⟨id, rfl, -⟩
    cases h
  · rintro q rfl _ _
    exact Option.isSome_iff_ne_none.mp h

/-- A task waits in a queue, and the root task sends an item to it. -/
theorem recorded_waiter_real_worker :
    ∃ env : Env, (env.queues 0).suspendedTid = 2 ∧ env.pc = .running ∧ env.taskContextPtr = 1 ∧
      (env.taskTable 2).WaitsIn 0 ∧ (env.taskTable 2).SuspendedOrWoken := by
  have heval : ∃ env, runWhere 64 keepsWaiters boot (workerWaits ++ [Act.api (.qSend 0 7)])
        = some env ∧ (env.queues 0).suspendedTid = 2 ∧ env.pc = .running ∧
      env.taskContextPtr = 1 := by decide +kernel
  obtain ⟨env, hrun, htid, hpc, hptr⟩ := heval
  have hwaits := (recorded_waiter_real (fun _ => rfl)
    (run_of_runWhere keepsWaiters_spec hrun)).1 0 (by rw [htid]; decide)
  rw [htid] at hwaits
  exact ⟨env, htid, hpc, hptr, hwaits⟩

/-- A task waits in an empty queue, and the root task deletes it.  Its number stays in the
queue: a blocking receive of the root task returns 0 at once, and a task that is created
in the free slot is signalled by the next send, though it has not even started. -/
theorem deleted_waiter_stays :
    ∃ env : Env, runActs 64 boot (workerWaits ++ [Act.api (.tDelete 2)]) = some env ∧
      (env.queues 0).suspendedTid = 2 ∧ (env.taskTable 2).entryPoint = none ∧
      qCount (env.queues 0) = 0 ∧
      (qReceive (env.queues 0) env.currentTask true true).2 = some (0, none) ∧
      ∃ env', runActs 64 env [.api (.tCreate (some 6) 0 false), .api (.qSend 0 7)] = some env' ∧
      (env'.queues 0).suspendedTid = 2 ∧ (env'.taskTable 2).entryPoint = some 6 ∧
      (env'.taskTable 2).stack = .unused ∧ (env'.taskTable 2).signalPending = sigque := by
  decide +kernel

end Kernel
