/-
What a blocking receive delivers.

`mipos_q_receive` looks at the queue once more after it was suspended, and returns 0 if
there is no item.  It finds one if no other receive is made on the queue while it waits,
and if nothing but `mipos_q_send` rouses it.

* `ReceiveInv` — a queue records nobody but the task that waits in it, that task has been
  roused only if there is an item, and nobody else has `MIPOS_SIGQUE` pending.
* `receive_delivers` — every blocking receive that returns delivers the oldest item.
* `second_receiver_empty` — a second receiver returns at once with nothing.
-/
import Mipos.KernelWaiters
import Mipos.QueueFifo

namespace Kernel

variable {w : ℕ} {env env' : Env} {act : Act} {t q : ℕ}

/-! ### What rouses a task -/

/-- The step sends `MIPOS_SIGQUE` to `t`. -/
def Notifies (env : Env) (act : Act) (t : ℕ) : Prop :=
  (∃ id signum, act = .api (.tNotifySignal id signum) ∧ signum.getLsbD 1 = true) ∨
    ∃ q item, act = .api (.qSend q item) ∧ (env.queues q).suspendedTid ≠ 0 ∧
      env.getPTask (env.queues q).suspendedTid = some t

theorem TaskEdit.notifies {task task' : Task} (hedit : TaskEdit env act t task task')
    (hp : task'.signalPending.getLsbD 1 = true) :
    task.signalPending.getLsbD 1 = true ∨ Notifies env act t := by
  rcases hedit.sends hp with h | ⟨id, signum, hact, -, h⟩ | ⟨-, h⟩
  · exact .inl h
  · exact .inr (.inl ⟨id, signum, hact, h⟩)
  · exact .inr (.inr h)

/-- **Where a pending `MIPOS_SIGQUE` comes from.** -/
theorem SlotStep.notifies {sl sl' : Slot} (hstep : SlotStep env act t sl sl')
    (hp : sl'.task.signalPending.getLsbD 1 = true) :
    sl.task.signalPending.getLsbD 1 = true ∨ Notifies env act t := by
  cases hstep with
  | edit hedit => exact hedit.notifies hp
  | create hact hslot hfree => exact absurd hp (by simp [Task.create])
  | delete hdel => exact absurd hp (by simp [Task.delete])
  | promote hprom hne hedit => exact hedit.notifies hp
  | @visit task hvisit hstatus =>
    left
    obtain ⟨task₁, hclock, ⟨-, heq⟩ | ⟨-, heq⟩⟩ := visitSuspended_cases task env.rtcCounter
    · rw [heq] at hp
      simp only [BitVec.getLsbD_and, Bool.and_eq_true] at hp
      exact hclock.only 1 (by decide) hp.1
    · rw [heq] at hp
      exact hclock.only 1 (by decide) hp
  | resume hvisit hstatus hwkup hstack =>
    simp only [Task.resetSignalAndRun, BitVec.getLsbD_and, Bool.and_eq_true] at hp
    exact .inl hp.1
  | suspend _ _ _ _ _ | finish _ _ | zombie _ _ | begin _ _ _ => exact .inl hp

theorem TaskEdit.readies {task task' : Task} (hedit : TaskEdit env act t task task')
    (hready : task'.status.getLsbD 1 = true) :
    task.status.getLsbD 1 = true ∨ task.status = taskZombie := by
  cases hedit with
  | freeze _ _ => exact .inl (by simpa [Task.freeze, taskFrozen] using hready)
  | unfreeze _ _ =>
    simp only [Task.unfreeze, BitVec.getLsbD_and, Bool.and_eq_true] at hready
    exact .inl hready.1
  | restart newParam _ _ =>
    rw [Task.restart] at hready
    split at hready
    · rename_i h
      exact .inr h.2
    · exact .inl hready
  | same | retValue _ _ _ | notifySignal _ _ _ | notifyQueue _ _ _ | sigIgnore _ _ _
  | sigAllow _ _ _ => exact .inl hready

/-- **What rouses a task that waits.** -/
theorem SlotStep.rouses {sl sl' : Slot} (hstep : SlotStep env act t sl sl') {phase : Phase}
    {frozen : Bool} (hok : SlotOk sl phase frozen)
    (hstack : sl.task.stack = .saved sigque (some q)) (hlive : sl.task.entryPoint ≠ none)
    (hroused : sl'.task.Roused) :
    sl.task.Roused ∨ Notifies env act t ∨ Promotes env act t ∨
      sl'.task.stack ≠ .saved sigque (some q) := by
  rcases hroused with hp | hready
  · rcases hstep.notifies hp with h | h
    · exact .inl (.inl h)
    · exact .inr (.inl h)
  · cases hstep with
    | edit hedit =>
      rcases hedit.readies hready with h | h
      · exact .inl (.inr h)
      · -- a zombie has returned from its call
        obtain ⟨rfl, rfl⟩ := Phase.eq_of_word .zombie (hok.status.symm.trans h)
        exact absurd ((hok.zombie rfl).symm.trans hstack) (by simp)
    | create hact hslot hfree => exact absurd hfree hlive
    | delete hdel => exact absurd hready (by simp [Task.delete, taskNotRunning])
    | promote hprom hne hedit => exact .inr (.inr (.inl hprom))
    | suspend signum queue ticks timeout hact =>
      exact absurd hstack ((hok.onCpu rfl).1 _ _)
    | finish value hact => exact .inr (.inr (.inr (by simp)))
    | zombie hvisit hstatus => exact absurd hready (by simp [taskZombie])
    | @visit task hvisit hstatus =>
      obtain ⟨task₁, hclock, ⟨hsig, -⟩ | ⟨-, heq⟩⟩ := visitSuspended_cases task env.rtcCounter
      · -- what it waits for is the signal of the queue
        obtain ⟨rfl, rfl⟩ := Phase.eq_of_word .suspended (hok.status.symm.trans hstatus)
        obtain ⟨queue, hwait⟩ := hok.suspended rfl
        have hmask : task.signalWaiting = sigque := (Stack.saved.inj (hwait.symm.trans hstack)).1
        rw [hmask] at hsig
        have hp := pending_of_and_ne_zero (k := 1) rfl hsig
        exact .inl (.inl (hclock.only 1 (by decide) hp))
      · rw [heq, hclock.same] at hready
        rw [show task.status = taskSuspended from hstatus] at hready
        exact absurd hready (by decide)
    | begin hvisit hstatus hwkup => exact .inr (.inr (.inr (by simp)))
    | resume hvisit hstatus hwkup hsaved => exact .inr (.inr (.inr (by simp)))

/-! ### One receiver at a time -/

/-- The steps in which a receive is made only on a queue that has no task recorded and by
a live task, `MIPOS_SIGQUE` is raised only by `mipos_q_send`, a task that waits in a
queue is neither deleted nor asked for by an RT task, and queues are initialised with
room for an item and not while a task waits in them. -/
structure OneReceiver (env : Env) (act : Act) : Prop where
  receive : ∀ q pItem, act = .api (.qReceive q pItem) → (env.queues q).suspendedTid = 0
  block : ∀ q, act = .block (.qReceive q) → (env.queues q).suspendedTid = 0 ∧
    (env.taskTable env.taskContextPtr).entryPoint ≠ none
  signal : ∀ id signum, act = .api (.tNotifySignal id signum) → signum.getLsbD 1 = false
  delete : ∀ t q, Deletes env act t → ¬(env.taskTable t).WaitsIn q
  promote : ∀ t q, Promotes env act t → ¬(env.taskTable t).WaitsIn q
  init : ∀ q queuePool queuePoolLength, act = .api (.qInit q queuePool queuePoolLength) →
    (env.queues q).suspendedTid = 0 ∧ 1 ≤ queuePoolLength

/-- The recorded tasks stay in their queues. -/
theorem OneReceiver.keepsWaiters (h : OneReceiver env act) (hrec : Recorded env) :
    KeepsWaiters env act := by
  refine ⟨?_, fun q hact _ _ => (h.block q hact).2⟩
  rintro t q hdel htid rfl
  exact h.delete _ q hdel (hrec q htid)

theorem OneReceiver.noReinit (h : OneReceiver env act) : NoReinit env act :=
  fun q queuePool queuePoolLength hact => (h.init q queuePool queuePoolLength hact).1

structure ReceiveInv (env : Env) : Prop where
  waiters : WaitersInv env
  queues : ∀ q, QueueOk (env.queues q)
  /-- the recorded task waits in the queue -/
  recorded : ∀ q, (env.queues q).suspendedTid ≠ 0 →
    (env.taskTable (env.queues q).suspendedTid).WaitsIn q
  /-- a task that waits is roused for an item -/
  roused : ∀ t q, (env.taskTable t).WaitsIn q → (env.taskTable t).Roused →
    0 < (env.queues q).queueCount
  /-- nobody else is signalled -/
  quiet : ∀ t, (env.taskTable t).signalPending.getLsbD 1 = true →
    ∃ q, (env.taskTable t).WaitsIn q

theorem qReceive_queueOk {queue : Queue} (h : QueueOk queue) (currentTask : ℕ) (pItem bl : Bool) :
    QueueOk (qReceive queue currentTask pItem bl).1 := by
  rw [qReceive]
  split
  · exact h
  · split
    · split
      · exact h.setSuspended currentTask
      · exact (qTake_ok (h.setSuspended 0)).1
    · exact (qTake_ok h).1

/-- The calls keep the shape of the ring. -/
theorem QueueEdit.queueOk {queue queue' : Queue} (hedit : QueueEdit env act q queue queue')
    (hone : OneReceiver env act) (h : QueueOk queue) : QueueOk queue' := by
  cases hedit with
  | same _ => exact h
  | init queuePool queuePoolLength hact =>
    exact qInit_ok queuePool (hone.init q queuePool queuePoolLength hact).2
  | send item hact => exact (qSend_ok h item).1
  | receive pItem hact => exact qReceive_queueOk h _ _ _
  | block hact hpc => exact qReceive_queueOk h _ _ _
  | resume hres => exact (qTake_ok (h.setSuspended 0)).1

/-- A queue in which a task waits loses no items, if no receive is made on it. -/
theorem QueueEdit.count_le {queue queue' : Queue} (hedit : QueueEdit env act q queue queue')
    (hq : env.queues q = queue) (hone : OneReceiver env act) (htid : queue.suspendedTid ≠ 0)
    (hno : ¬ResumesIn env act q) : queue.queueCount ≤ queue'.queueCount := by
  subst hq
  cases hedit with
  | same _ => exact Nat.le_refl _
  | init queuePool queuePoolLength hact =>
    exact absurd (hone.init q queuePool queuePoolLength hact).1 htid
  | send item hact =>
    rw [qSend]
    split
    · exact Nat.le_succ _
    · exact Nat.le_refl _
  | receive pItem hact => exact absurd (hone.receive q pItem hact) htid
  | block hact hpc => exact absurd (hone.block q hact).1 htid
  | resume hres => exact absurd hres hno

theorem send_queue {item : UInt32} (hs : step w env (.api (.qSend q item)) = some env') :
    env'.queues q = (qSend (env.queues q) item).1 := by
  obtain ⟨-, hs⟩ := step_api hs
  cases hs
  show (env.qSend q item).queues q = _
  rw [qSend_queue]
  exact Function.update_self ..

/-- The call that suspends the running task leaves it suspended. -/
theorem SlotStep.suspends {sl sl' : Slot} (hstep : SlotStep env act t sl sl') {phase : Phase}
    {frozen : Bool} (hok : SlotOk sl phase frozen) (hcpu : sl.onCpu = true)
    (hwaits : sl'.task.WaitsIn q) : sl'.task.status = taskSuspended := by
  obtain ⟨hlive, signum, hsaved⟩ := hwaits
  have hns := (hok.onCpu hcpu).1
  cases hstep with
  | edit hedit => exact absurd (hedit.context.2.1 ▸ hsaved) (hns _ _)
  | create hact hslot hfree => cases hsaved
  | delete hdel => exact absurd rfl hlive
  | suspend signum' queue ticks timeout hact =>
    have hstatus := suspend_status hok.status signum' queue
    rw [if_neg] at hstatus
    · exact hstatus
    · rintro (h | h)
      · exact hlive (hok.dead h)
      · exact (hok.onCpu rfl).2.2 h
  | finish value hact => cases hsaved
  | promote _ _ _ | zombie _ _ | visit _ _ | begin _ _ _ | resume _ _ _ _ => cases hcpu

/-- Only a send signals a task, one that waits in its queue. -/
theorem ReceiveInv.notified (hinv : ReceiveInv env) (hone : OneReceiver env act)
    (h : Notifies env act t) : ∃ q item, act = .api (.qSend q item) ∧
      (env.queues q).suspendedTid = t ∧ (env.taskTable t).WaitsIn q := by
  rcases h with ⟨id, signum, hact, hbit⟩ | ⟨q, item, hact, htid, hid⟩
  · rw [hone.signal id signum hact] at hbit
    cases hbit
  · have ht : (env.queues q).suspendedTid = t := by
      rw [Env.getPTask, if_neg htid] at hid
      split at hid
      · exact Option.some.inj hid
      · cases hid
    exact ⟨q, item, hact, ht, ht ▸ hinv.recorded q htid⟩

/-- A task that waits goes on waiting if it is not resumed. -/
theorem ReceiveInv.still_waits (hi : EnvInv env) (hone : OneReceiver env act)
    (hs : step w env act = some env') (hwaits : (env.taskTable t).WaitsIn q) :
    (env'.taskTable t).WaitsIn q ∨ Resumes env act t := by
  obtain ⟨phase, frozen, hok⟩ := hi.slots t
  rcases (step_slot hs t).still_waits hok hwaits with h | h | ⟨hvisit, hstatus, hwkup⟩
  · exact .inl h
  · exact absurd hwaits (hone.delete t q h)
  · exact .inr ⟨⟨hvisit, hstatus⟩, hwkup⟩

/-- A task that waits is roused for an item. -/
theorem ReceiveInv.step_roused (hinv : ReceiveInv env) (hi : EnvInv env)
    (hs : step w env act = some env') (hone : OneReceiver env act)
    (hwaits' : (env'.taskTable t).WaitsIn q) (hroused : (env'.taskTable t).Roused) :
    0 < (env'.queues q).queueCount := by
  obtain ⟨phase, frozen, hok⟩ := hi.slots t
  rcases (step_slot hs t).waits hok hwaits' with ⟨hwaits, hstack, -⟩ | ⟨⟨call, rfl⟩, hcpu⟩
  · obtain ⟨htid, hslot, hsaved, -⟩ := hinv.waiters.waiters t q hwaits
    have hsaved' : (env'.taskTable t).stack = .saved sigque (some q) := hstack.trans hsaved
    have hno := hinv.waiters.not_resumesIn hi hs htid hsaved'
    rcases (step_slot hs t).rouses hok hsaved hwaits.1 hroused with h | h | h | h
    · exact Nat.lt_of_lt_of_le (hinv.roused t q hwaits h)
        ((step_queue hs q).count_le rfl hone (htid ▸ hslot.1) hno)
    · -- a send to its queue
      obtain ⟨q', item, rfl, -, -, signum, hsaved₂⟩ := hinv.notified hone h
      have hq : q' = q := Option.some.inj (Stack.saved.inj (hsaved₂.symm.trans hsaved)).2
      subst hq
      rw [send_queue hs, qSend]
      split
      · exact Nat.succ_pos _
      · have := (hinv.queues q').limit_pos
        show 0 < (env.queues q').queueCount
        omega
    · exact absurd hwaits (hone.promote t q h)
    · exact absurd hsaved' h
  · -- it has just been suspended, with no signal pending
    exfalso
    rcases hroused with hp | hready
    · rcases (step_slot hs t).notifies hp with h | h
      · obtain ⟨q', -, signum, hsaved⟩ := hinv.quiet t h
        exact (hok.onCpu hcpu).1 _ _ hsaved
      · obtain ⟨q', item, hact, -⟩ := hinv.notified hone h
        cases hact
    · rw [show (env'.taskTable t).status = taskSuspended from
        (step_slot hs t).suspends hok hcpu hwaits'] at hready
      exact absurd hready (by decide)

/-- Nobody else is signalled. -/
theorem ReceiveInv.step_quiet (hinv : ReceiveInv env) (hi : EnvInv env)
    (hs : step w env act = some env') (hone : OneReceiver env act)
    (hp : (env'.taskTable t).signalPending.getLsbD 1 = true) :
    ∃ q, (env'.taskTable t).WaitsIn q := by
  obtain ⟨q, hwaits⟩ : ∃ q, (env.taskTable t).WaitsIn q := by
    rcases (step_slot hs t).notifies hp with h | h
    · exact hinv.quiet t h
    · obtain ⟨q, -, -, -, hwaits⟩ := hinv.notified hone h
      exact ⟨q, hwaits⟩
  rcases still_waits hi hone hs hwaits with h | hres
  · exact ⟨q, h⟩
  · -- a task that is resumed has its signal cleared
    have hsaved := (hinv.waiters.waiters t q hwaits).stack
    rcases hres.1.slot_cases hs with ⟨hoff, -⟩ | ⟨-, signum, queue, hstack, hrun⟩
    · rw [hres.2] at hoff
      cases hoff
    · obtain ⟨rfl, -⟩ := Stack.saved.inj (hstack.symm.trans hsaved)
      rw [show env'.taskTable t = _ from congrArg Slot.task hrun] at hp
      simp only [Task.resetSignalAndRun, BitVec.getLsbD_and, BitVec.getLsbD_not,
        Bool.and_eq_true] at hp
      exact absurd hp.2 (by decide)

/-- **One step with one receiver at a time.** -/
theorem ReceiveInv.step (hinv : ReceiveInv env) (hi : EnvInv env) (hctl : ControlInv env)
    (hs : step w env act = some env') (hone : OneReceiver env act) : ReceiveInv env' :=
  ⟨hinv.waiters.step hi hctl hs hone.noReinit,
    fun q => (step_queue hs q).queueOk hone (hinv.queues q),
    Recorded.step hinv.recorded hi hctl hs (hone.keepsWaiters hinv.recorded),
    fun _ _ hwaits hroused => hinv.step_roused hi hs hone hwaits hroused,
    fun _ hp => hinv.step_quiet hi hs hone hp⟩

/-! ### Receives deliver -/

theorem receiveInv_start {root param : ℕ} {queues : ℕ → Queue}
    (hqueues : ∀ q, QueueOk (queues q) ∧ (queues q).suspendedTid = 0) :
    ReceiveInv (.start root param queues) := by
  have hfree : ∀ t q, ¬((Env.start root param queues).taskTable t).WaitsIn q := by
    rintro t q ⟨-, signum, hsaved⟩
    rw [(start_unused root param queues t).1] at hsaved
    cases hsaved
  refine ⟨waitersInv_start root param queues, fun q => (hqueues q).1, ?_, ?_, ?_⟩
  · intro q htid
    exact absurd (hqueues q).2 htid
  · intro t q hwaits
    exact absurd hwaits (hfree t q)
  · intro t hp
    rw [(start_unused root param queues t).2.2] at hp
    exact absurd hp (by simp)

/-- Taking an item from a queue that has one. -/
theorem qTake_delivers {queue : Queue} (hok : QueueOk queue) (hpos : 0 < queue.queueCount) :
    ∃ item, (qTake queue).2 = (1, some item) ∧ queue.stored = item :: (qTake queue).1.stored := by
  have hstored := (qTake_ok hok).2.1
  refine ⟨queue.item queue.head, ?_, ?_⟩
  · rw [qTake, if_pos hpos]
  · rw [hstored, qTake, if_pos hpos]
    rfl

/-- **A blocking receive delivers an item**, if there is one receiver at a time: a call
that returns at once, and one that is resumed, returns 1 with the oldest item of the
queue. -/
theorem receive_delivers {root param : ℕ} {queues : ℕ → Queue}
    (hqueues : ∀ q, QueueOk (queues q) ∧ (queues q).suspendedTid = 0)
    (hrun : Relation.ReflTransGen (StepWhere w OneReceiver) (.start root param queues) env) :
    (∀ q queue r, (env.queues q).suspendedTid = 0 →
      qReceive (env.queues q) env.currentTask true true = (queue, some r) →
      ∃ item, r = (1, some item) ∧ (env.queues q).stored = item :: queue.stored) ∧
    (∀ t q signum, Resumes env .sched t → (env.taskTable t).stack = .saved signum (some q) →
      ∃ item, (qReceiveResume (env.queues q)).2 = (1, some item) ∧
        (env.queues q).stored = item :: (qReceiveResume (env.queues q)).1.stored) := by
  have hinv : ReceiveInv env ∧ Reachable w env := by
    induction hrun with
    | refl => exact ⟨receiveInv_start hqueues, root, param, queues, .refl⟩
    | tail _ hstep ih =>
      obtain ⟨act, hs, hone⟩ := hstep
      exact ⟨ih.1.step ih.2.inv ih.2.control hs hone, ih.2.step hs⟩
  constructor
  · intro q queue r htid hreceive
    have hpos : 0 < (env.queues q).queueCount := by
      by_contra hzero
      rw [qReceive, if_neg (by simp), if_pos ⟨by omega, htid⟩] at hreceive
      cases hreceive
    rw [qReceive, if_neg (by simp), if_neg (by omega)] at hreceive
    obtain ⟨item, hr, hstored⟩ := qTake_delivers (hinv.1.queues q) hpos
    cases hreceive
    exact ⟨item, hr, hstored⟩
  · intro t q signum hres hsaved
    have hlive := hinv.2.inv.live_of_visits hres.1.1
    have hpos := hinv.1.roused t q ⟨hlive, signum, hsaved⟩ (Task.roused_of_ready hres.1.2)
    exact qTake_delivers ((hinv.1.queues q).setSuspended 0) hpos

/-- Scheduler steps, new tasks, sends, and blocking receives of live tasks on queues with
nobody recorded. -/
def oneReceiver (env : Env) : Act → Bool
  | .sched => true
  | .api (.tCreate _ _ _) => true
  | .api (.qSend _ _) => true
  | .block (.qReceive q) => (env.queues q).suspendedTid == 0 &&
      (env.taskTable env.taskContextPtr).entryPoint.isSome
  | .block _ => true
  | _ => false

theorem oneReceiver_spec (env : Env) (act : Act) (h : oneReceiver env act = true) :
    OneReceiver env act := by
  refine ⟨?_, ?_, ?_, ?_, ?_, ?_⟩
  · rintro q pItem rfl
    cases h
  · rintro q rfl
    rw [oneReceiver, Bool.and_eq_true, beq_iff_eq] at h
    exact ⟨h.1, Option.isSome_iff_ne_none.mp h.2⟩
  · rintro id signum rfl
    cases h
  · rintro t q ⟨id, rfl, -⟩
    cases h
  · rintro t q ⟨taskCount, -, rfl⟩
    cases h
  · rintro q queuePool queuePoolLength rfl
    cases h

/-- A task waits in a queue, the root task sends an item, and the task gets it. -/
theorem receive_delivers_worker :
    ∃ env : Env, Resumes env .sched 2 ∧ (env.taskTable 2).stack = .saved sigque (some 0) ∧
      ∃ item, (qReceiveResume (env.queues 0)).2 = (1, some item) ∧
        (env.queues 0).stored = item :: (qReceiveResume (env.queues 0)).1.stored := by
  have heval : ∃ env, runWhere 64 oneReceiver boot (workerWaits ++ [Act.api (.qSend 0 7),
        .block (.tmWkafter 0)] ++ List.replicate 14 Act.sched) = some env ∧ Resumes env .sched 2 ∧
      (env.taskTable 2).stack = .saved sigque (some 0) := by decide +kernel
  obtain ⟨env, hrun, hres, hstack⟩ := heval
  have hqueues : ∀ _ : ℕ, QueueOk (qInit (fun _ => 0) 1) ∧
      (qInit (fun _ => 0) 1).suspendedTid = 0 := fun _ => ⟨qInit_ok _ (Nat.le_refl 1), rfl⟩
  exact ⟨env, hres, hstack, (receive_delivers hqueues (run_of_runWhere oneReceiver_spec hrun)).2 2 0
    sigque hres hstack⟩

/-- A task waits in an empty queue, and the root task calls `mipos_q_receive` on it: the
call returns 0 at once, with no item. -/
theorem second_receiver_empty : ∃ env : Env, runActs 64 boot workerWaits = some env ∧
    (env.taskTable 2).stack = .saved sigque (some 0) ∧ env.pc = .running ∧
    env.taskContextPtr = 1 ∧ qCount (env.queues 0) = 0 ∧
    (qReceive (env.queues 0) env.currentTask true true).2 = some (0, none) ∧
    ∃ env', step 64 env (.block (.qReceive 0)) = some env' ∧ env'.pc = .running := by
  decide +kernel

end Kernel
