/-
What one step of the kernel does to one slot of the task table.

A slot is a descriptor with the knowledge whether its task has the processor.  Its
transitions are listed once (`SlotStep`), and `step_slot` shows that every step of
the kernel is one of them in every slot.  Invariants of the task table are then
invariants of this small machine.
-/
import Mathlib.Logic.Relation
import Mipos.KernelModel

namespace Kernel

open Function

variable {w : ℕ} {env env' : Env} {act : Act} {t : ℕ}

/-! ### Records -/

@[simp] theorem setTask_currentTask (slot : ℕ) (p : Task) :
    (env.setTask slot p).currentTask = env.currentTask := rfl
@[simp] theorem setTask_taskContextPtr (slot : ℕ) (p : Task) :
    (env.setTask slot p).taskContextPtr = env.taskContextPtr := rfl
@[simp] theorem setTask_taskTable (slot : ℕ) (p : Task) :
    (env.setTask slot p).taskTable = update env.taskTable slot p := rfl
@[simp] theorem setQueue_pc (q : ℕ) (queue : Queue) : (env.setQueue q queue).pc = env.pc := rfl

/-- `f` is applied to the slot that the identifier means, and to no other. -/
theorem modifyTask_taskTable (id : ℕ) (f : Task → Task) (t : ℕ) :
    (env.modifyTask id f).taskTable t
      = if env.getPTask id = some t then f (env.taskTable t) else env.taskTable t := by
  rw [Env.modifyTask]
  cases env.getPTask id with
  | none => simp
  | some slot =>
    rcases eq_or_ne t slot with rfl | hne
    · simp
    · simp [hne, hne.symm]

/-- Everything but the task table. -/
structure SameControl (env env' : Env) : Prop where
  pc : env'.pc = env.pc
  currentTask : env'.currentTask = env.currentTask
  taskContextPtr : env'.taskContextPtr = env.taskContextPtr

theorem sameControl_modifyTask (id : ℕ) (f : Task → Task) :
    SameControl env (env.modifyTask id f) := by
  rw [Env.modifyTask]
  cases env.getPTask id with
  | none => exact ⟨rfl, rfl, rfl⟩
  | some slot => exact ⟨rfl, rfl, rfl⟩

/-! ### Slots -/

/-- A descriptor, and whether its task has the processor. -/
structure Slot where
  onCpu : Bool
  task : Task

def Env.slot (env : Env) (t : ℕ) : Slot :=
  ⟨decide (env.pc = .running ∧ env.taskContextPtr = t), env.taskTable t⟩

/-- The calls that change one descriptor, whoever makes them. -/
inductive TaskEdit (env : Env) (act : Act) (t : ℕ) (task : Task) : Task → Prop
  | same : TaskEdit env act t task task
  | retValue {taskCount : ℕ} (value : ℤ) (hpc : env.pc = .inRt taskCount)
      (hcur : env.currentTask = t) : TaskEdit env act t task { task with taskRetValue := value }
  | notifySignal {id : ℕ} (signum : BitVec 8) (hact : act = .api (.tNotifySignal id signum))
      (hid : env.getPTask id = some t) : TaskEdit env act t task (task.notifySignal signum)
  | notifyQueue {q : ℕ} {item : UInt32} (hact : act = .api (.qSend q item))
      (hwaiter : (env.queues q).suspendedTid ≠ 0)
      (hid : env.getPTask (env.queues q).suspendedTid = some t) :
      TaskEdit env act t task (task.notifySignal sigque)
  | freeze {id : ℕ} (hact : act = .api (.tFreeze id)) (hid : env.getPTask id = some t) :
      TaskEdit env act t task task.freeze
  | unfreeze {id : ℕ} (hact : act = .api (.tUnfreeze id)) (hid : env.getPTask id = some t) :
      TaskEdit env act t task task.unfreeze
  | restart {id : ℕ} (newParam : Option ℕ) (hact : act = .api (.tRestart id newParam))
      (hid : env.getPTask id = some t) : TaskEdit env act t task (task.restart newParam)
  | sigIgnore {id : ℕ} (signum : BitVec 8) (hact : act = .api (.tSigIgnore id signum))
      (hid : env.getPTask id = some t) : TaskEdit env act t task (task.sigIgnore signum)
  | sigAllow {id : ℕ} (signum : BitVec 8) (hact : act = .api (.tSigAllow id signum))
      (hid : env.getPTask id = some t) : TaskEdit env act t task (task.sigAllow signum)

/-- The scheduler visits `t`. -/
def Visits (env : Env) (act : Act) (t : ℕ) : Prop :=
  act = .sched ∧ env.pc = .tsm ∧ env.currentTask = t

instance (env : Env) (t : ℕ) : Decidable (Visits env .sched t) :=
  decidable_of_iff (env.pc = .tsm ∧ env.currentTask = t) (by simp [Visits])

/-- The step deletes `t`. -/
def Deletes (env : Env) (act : Act) (t : ℕ) : Prop :=
  ∃ id, act = .api (.tDelete id) ∧ env.getPTask id = some t

/-- An RT task returns the number of `t`. -/
def Promotes (env : Env) (act : Act) (t : ℕ) : Prop :=
  ∃ taskCount, env.pc = .inRt taskCount ∧ act = .ret t

/-- What a step of the kernel can do to the slot `t`. -/
inductive SlotStep (env : Env) (act : Act) (t : ℕ) : Slot → Slot → Prop
  | edit {onCpu : Bool} {task task' : Task} (hedit : TaskEdit env act t task task') :
      SlotStep env act t ⟨onCpu, task⟩ ⟨onCpu, task'⟩
  | create {onCpu : Bool} {task : Task} {entryPoint : Option ℕ} {param : ℕ} {rt : Bool}
      (hact : act = .api (.tCreate entryPoint param rt)) (hslot : env.freeSlot = some t)
      (hfree : task.entryPoint = none) :
      SlotStep env act t ⟨onCpu, task⟩ ⟨onCpu, task.create entryPoint param rt⟩
  | delete {onCpu : Bool} {task : Task} (hdel : Deletes env act t) :
      SlotStep env act t ⟨onCpu, task⟩ ⟨onCpu, task.delete⟩
  | promote {task task' : Task} (hprom : Promotes env act t) (hne : t ≠ idleTaskId)
      (hedit : TaskEdit env act t task task') :
      SlotStep env act t ⟨false, task⟩ ⟨false, task'.promote⟩
  | suspend {task : Task} {call : Blocking} (signum : BitVec 8) (queue : Option ℕ) (ticks : ℤ)
      (timeout : ℕ) (hact : act = .block call) :
      SlotStep env act t ⟨true, task⟩ ⟨false, { task.suspend signum queue with
        timerTickCount := ticks, rtcTimeout := timeout }⟩
  | finish {task : Task} (value : ℤ) (hact : act = .ret value) :
      SlotStep env act t ⟨true, task⟩
        ⟨false, { task with taskRetValue := value, stack := .returned }⟩
  | zombie {task : Task} (hvisit : Visits env act t) (hstatus : task.status = taskRunning) :
      SlotStep env act t ⟨false, task⟩ ⟨false, { task with status := taskZombie }⟩
  | visit {task : Task} (hvisit : Visits env act t) (hstatus : task.status = taskSuspended) :
      SlotStep env act t ⟨false, task⟩ ⟨false, task.visitSuspended env.rtcCounter⟩
  | begin {task : Task} (hvisit : Visits env act t) (hstatus : task.status = taskReady)
      (hwkup : task.wkup = false) :
      SlotStep env act t ⟨false, task⟩
        ⟨true, { task with status := taskRunning, stack := .running }⟩
  | resume {task : Task} {signum : BitVec 8} {queue : Option ℕ} (hvisit : Visits env act t)
      (hstatus : task.status = taskReady) (hwkup : task.wkup = true)
      (hstack : task.stack = .saved signum queue) :
      SlotStep env act t ⟨false, task⟩
        ⟨true, { ({ task with wkup := false } : Task).resetSignalAndRun signum with
          stack := .running }⟩

theorem slot_of_sameControl (hc : SameControl env env') (t : ℕ) :
    env'.slot t = ⟨(env.slot t).onCpu, env'.taskTable t⟩ := by
  rw [Env.slot, Env.slot, hc.pc, hc.taskContextPtr]

/-- An edit of the descriptor that an identifier means. -/
theorem modifyTask_slot (id : ℕ) (f : Task → Task)
    (hf : env.getPTask id = some t →
      SlotStep env act t (env.slot t) ⟨(env.slot t).onCpu, f (env.taskTable t)⟩) :
    SlotStep env act t (env.slot t) ((env.modifyTask id f).slot t) := by
  rw [slot_of_sameControl (sameControl_modifyTask id f), modifyTask_taskTable]
  split
  · exact hf ‹_›
  · exact .edit .same

theorem slot_same (hc : SameControl env env') (htable : env'.taskTable = env.taskTable) :
    SlotStep env act t (env.slot t) (env'.slot t) := by
  rw [slot_of_sameControl hc, htable]
  exact .edit .same

/-- Neither before nor after the step is a task running, and the slot is kept. -/
theorem slot_idle {task task' : Task} (hpc : env.pc ≠ .running) (hpc' : env'.pc ≠ .running)
    (htask : env.taskTable t = task) (htask' : env'.taskTable t = task')
    (hs : SlotStep env act t ⟨false, task⟩ ⟨false, task'⟩) :
    SlotStep env act t (env.slot t) (env'.slot t) := by
  have hoff : env.slot t = ⟨false, task⟩ := by simp [Env.slot, hpc, htask]
  have hoff' : env'.slot t = ⟨false, task'⟩ := by simp [Env.slot, hpc', htask']
  rw [hoff, hoff']
  exact hs

/-! ### The steps, one function at a time -/

theorem freeSlot_spec {id : ℕ} (hfree : env.freeSlot = some id) :
    1 ≤ id ∧ id < tasksTblEntriesCnt ∧ (env.taskTable id).entryPoint = none := by
  have hmem := List.mem_of_find?_eq_some hfree
  have hnone := List.find?_some hfree
  rw [List.mem_range'_1] at hmem
  refine ⟨hmem.1, ?_, Option.isNone_iff_eq_none.mp hnone⟩
  have := hmem.2
  simp only [tasksTblEntriesCnt] at *
  omega

theorem tCreate_slot (entryPoint : Option ℕ) (param : ℕ) (rt : Bool)
    (hact : act = .api (.tCreate entryPoint param rt)) :
    SlotStep env act t (env.slot t) ((env.tCreate entryPoint param rt).1.slot t) := by
  rw [Env.tCreate]
  cases hfree : env.freeSlot with
  | none => exact .edit .same
  | some id =>
    have hc : SameControl env (env.setTask id ((env.taskTable id).create entryPoint param rt)) :=
      ⟨rfl, rfl, rfl⟩
    rw [slot_of_sameControl hc]
    rcases eq_or_ne t id with rfl | hne
    · rw [setTask_taskTable, update_self]
      exact .create hact hfree (freeSlot_spec hfree).2.2
    · rw [setTask_taskTable, update_of_ne hne]
      exact .edit .same

theorem sameControl_qSend (q : ℕ) (item : UInt32) : SameControl env (env.qSend q item) := by
  rw [Env.qSend]
  cases (qSend (env.queues q) item).2.2 with
  | none => exact ⟨rfl, rfl, rfl⟩
  | some tid =>
    have hc : SameControl (env.setQueue q (qSend (env.queues q) item).1) _ :=
      sameControl_modifyTask tid fun task => task.notifySignal sigque
    exact ⟨hc.pc, hc.currentTask, hc.taskContextPtr⟩

/-- A send signals the task that is recorded at the queue. -/
theorem qSend_signals (queue : Queue) (item : UInt32) :
    (qSend queue item).2.2
      = if queue.suspendedTid ≠ 0 then some queue.suspendedTid else none := by
  rw [qSend]
  split <;> rfl

theorem qSend_slot (q : ℕ) (item : UInt32) (hact : act = .api (.qSend q item)) :
    SlotStep env act t (env.slot t) ((env.qSend q item).slot t) := by
  rw [slot_of_sameControl (sameControl_qSend q item), Env.qSend, qSend_signals]
  by_cases hwaiter : (env.queues q).suspendedTid ≠ 0
  · rw [if_pos hwaiter]
    dsimp only
    rw [modifyTask_taskTable]
    split
    · rename_i hid
      exact .edit (.notifyQueue hact hwaiter hid)
    · exact .edit .same
  · rw [if_neg hwaiter]
    exact .edit .same

/-- Calls that do not give up the processor leave the control of the kernel alone. -/
theorem api_sameControl {call : Api} (hs : env.api w call = some env') : SameControl env env' := by
  cases call with
  | tCreate entryPoint param rt =>
    cases hs
    rw [Env.tCreate]
    split <;> exact ⟨rfl, rfl, rfl⟩
  | timerRestart id newInterval =>
    obtain ⟨r, -, rfl⟩ := Option.map_eq_some_iff.mp hs
    exact ⟨rfl, rfl, rfl⟩
  | qSend q item =>
    cases hs
    exact sameControl_qSend q item
  | tDelete id | tNotifySignal id _ | tFreeze id | tUnfreeze id | tRestart id _ | tSigIgnore id _
  | tSigAllow id _ =>
    cases hs
    exact sameControl_modifyTask id _
  | timerStart _ _ _ _ _ | timerCancel _ | timerDelete _ | qInit _ _ _ | qReceive _ _
  | setIdleCbk _ =>
    cases hs
    exact ⟨rfl, rfl, rfl⟩

/-- Calls that do not give up the processor. -/
theorem api_slot {call : Api} (hact : act = .api call) (hs : env.api w call = some env') (t : ℕ) :
    SlotStep env act t (env.slot t) (env'.slot t) := by
  cases call with
  | tCreate entryPoint param rt =>
    cases hs
    exact tCreate_slot entryPoint param rt hact
  | tDelete id =>
    cases hs
    exact modifyTask_slot id _ fun hid => .delete ⟨id, hact, hid⟩
  | tNotifySignal id signum =>
    cases hs
    exact modifyTask_slot id _ fun hid => .edit (.notifySignal signum hact hid)
  | tFreeze id =>
    cases hs
    exact modifyTask_slot id _ fun hid => .edit (.freeze hact hid)
  | tUnfreeze id =>
    cases hs
    exact modifyTask_slot id _ fun hid => .edit (.unfreeze hact hid)
  | tRestart id newParam =>
    cases hs
    exact modifyTask_slot id _ fun hid => .edit (.restart newParam hact hid)
  | tSigIgnore id signum =>
    cases hs
    exact modifyTask_slot id _ fun hid => .edit (.sigIgnore signum hact hid)
  | tSigAllow id signum =>
    cases hs
    exact modifyTask_slot id _ fun hid => .edit (.sigAllow signum hact hid)
  | timerStart onExpire onCancel interval context periodic =>
    cases hs
    exact slot_same ⟨rfl, rfl, rfl⟩ rfl
  | timerCancel id =>
    cases hs
    exact slot_same ⟨rfl, rfl, rfl⟩ rfl
  | timerDelete id =>
    cases hs
    exact slot_same ⟨rfl, rfl, rfl⟩ rfl
  | timerRestart id newInterval =>
    obtain ⟨r, -, rfl⟩ := Option.map_eq_some_iff.mp hs
    exact slot_same ⟨rfl, rfl, rfl⟩ rfl
  | qInit q queuePool queuePoolLength =>
    cases hs
    exact slot_same ⟨rfl, rfl, rfl⟩ rfl
  | qSend q item =>
    cases hs
    exact qSend_slot q item hact
  | qReceive q pItem =>
    cases hs
    exact slot_same ⟨rfl, rfl, rfl⟩ rfl
  | setIdleCbk cbk =>
    cases hs
    exact slot_same ⟨rfl, rfl, rfl⟩ rfl

/-- The running task gives up the processor. -/
theorem suspend_slot {env₁ : Env} (hc : SameControl env env₁)
    (htable : env₁.taskTable = env.taskTable) (hpc : env.pc = .running) (signum : BitVec 8)
    (queue : Option ℕ) {f : Task → Task} (hf : ∀ task, ∃ ticks timeout, f task =
      { task with timerTickCount := ticks, rtcTimeout := timeout }) {call : Blocking}
    (hact : act = .block call) (t : ℕ) :
    SlotStep env act t (env.slot t) ((env₁.suspend signum queue f).slot t) := by
  have hoff : (env₁.suspend signum queue f).pc = .epoch := rfl
  rcases eq_or_ne t env.taskContextPtr with rfl | hne
  · obtain ⟨ticks, timeout, hft⟩ := hf ((env.taskTable env.taskContextPtr).suspend signum queue)
    have hslot : env.slot env.taskContextPtr = ⟨true, env.taskTable env.taskContextPtr⟩ := by
      simp [Env.slot, hpc]
    have hslot' : (env₁.suspend signum queue f).slot env.taskContextPtr
        = ⟨false, f ((env.taskTable env.taskContextPtr).suspend signum queue)⟩ := by
      simp [Env.slot, Env.suspend, hc.taskContextPtr, htable]
    rw [hslot, hslot', hft]
    exact .suspend signum queue ticks timeout hact
  · have hslot : env.slot t = ⟨false, env.taskTable t⟩ := by
      simp [Env.slot, hne.symm]
    have hslot' : (env₁.suspend signum queue f).slot t = ⟨false, env.taskTable t⟩ := by
      simp [Env.slot, Env.suspend, hc.taskContextPtr, htable, hne]
    rw [hslot, hslot']
    exact .edit .same

theorem block_slot (hpc : env.pc = .running) (call : Blocking) (hact : act = .block call) (t : ℕ) :
    SlotStep env act t (env.slot t) ((env.block w call).slot t) := by
  have hself : ∀ task : Task, ∃ ticks timeout, id task =
      { task with timerTickCount := ticks, rtcTimeout := timeout } := fun task =>
    ⟨task.timerTickCount, task.rtcTimeout, rfl⟩
  have hc : SameControl env env := ⟨rfl, rfl, rfl⟩
  cases call with
  | tSuspend => exact suspend_slot hc rfl hpc _ _ hself hact t
  | tWaitforSignal signum => exact suspend_slot hc rfl hpc _ _ hself hact t
  | tmWkafter count =>
    exact suspend_slot hc rfl hpc _ _ (fun task => ⟨_, task.rtcTimeout, rfl⟩) hact t
  | tmMsleep count =>
    exact suspend_slot hc rfl hpc _ _ (fun task => ⟨task.timerTickCount, _, rfl⟩) hact t
  | qReceive q =>
    rw [Env.block]
    split
    · exact slot_same ⟨rfl, rfl, rfl⟩ rfl
    · exact suspend_slot ⟨rfl, rfl, rfl⟩ rfl hpc _ _ hself hact t

/-- A blocking call ends in the scheduler, or has its result at once. -/
theorem block_pc (w : ℕ) (hpc : env.pc = .running) (call : Blocking) :
    (env.block w call).pc = .epoch ∨ (env.block w call).pc = .running := by
  cases call with
  | qReceive q =>
    rw [Env.block]
    split
    · exact .inr hpc
    · exact .inl rfl
  | tSuspend | tWaitforSignal _ | tmWkafter _ | tmMsleep _ => exact .inl rfl

theorem block_pointers (w : ℕ) (call : Blocking) :
    (env.block w call).taskContextPtr = env.taskContextPtr ∧
      (env.block w call).currentTask = env.currentTask := by
  cases call with
  | qReceive q =>
    rw [Env.block]
    split
    · exact ⟨rfl, rfl⟩
    · exact ⟨rfl, rfl⟩
  | tSuspend | tWaitforSignal _ | tmWkafter _ | tmMsleep _ => exact ⟨rfl, rfl⟩

theorem selectEnd_taskTable (env : Env) (n : ℕ) : (env.selectEnd n).taskTable = env.taskTable := by
  rw [Env.selectEnd]
  split
  · rfl
  · split <;> rfl

theorem selectEnd_currentTask (env : Env) (n : ℕ) :
    (env.selectEnd n).currentTask = env.currentTask := by
  rw [Env.selectEnd]
  split
  · rfl
  · split <;> rfl

theorem selectEnd_taskContextPtr (env : Env) (n : ℕ) :
    (env.selectEnd n).taskContextPtr = env.taskContextPtr := by
  rw [Env.selectEnd]
  split
  · rfl
  · split <;> rfl

/-- The selection loop goes on, or ends with a task, or with the idle task. -/
theorem selectEnd_pc (env : Env) (n : ℕ) : (env.selectEnd n).pc = .select n ∨
    (env.selectEnd n).pc = .inIdle ∨ (env.selectEnd n).pc = .epoch ∨ ((env.selectEnd n).pc = .tsm ∧
      (env.taskTable env.currentTask).skipped = false ∧ env.currentTask ≠ idleTaskId) := by
  rw [Env.selectEnd]
  split
  · exact .inl rfl
  · rename_i hskip
    split
    · cases env.idleStateNotifyCbk.isSome
      · exact .inr (.inr (.inl rfl))
      · exact .inr (.inl rfl)
    · rename_i hidle
      refine .inr (.inr (.inr ⟨rfl, ?_, hidle⟩))
      simpa using fun h => hskip (.inl h)

theorem selectEnd_pc_ne (env : Env) (n : ℕ) :
    (env.selectEnd n).pc ≠ .running ∧ (env.selectEnd n).pc ≠ .panic := by
  rcases selectEnd_pc env n with h | h | h | ⟨h, -⟩ <;> rw [h] <;> simp

/-- The slots when an RT task returns. -/
theorem rtReturn_slot {taskCount : ℕ} {value : ℤ} (hpc : env.pc = .inRt taskCount)
    (hact : act = .ret value) (hs : env.rtReturn taskCount value = some env') (t : ℕ) :
    SlotStep env act t (env.slot t) (env'.slot t) := by
  have hne : env.pc ≠ .running := by rw [hpc]; simp
  -- the value is stored in the descriptor of the RT task
  have hstored : ∀ t, TaskEdit env act t (env.taskTable t) ((env.setTask env.currentTask
      { env.taskTable env.currentTask with taskRetValue := value }).taskTable t) := by
    intro t
    rcases eq_or_ne t env.currentTask with rfl | ht
    · rw [setTask_taskTable, update_self]
      exact .retValue value hpc rfl
    · rw [setTask_taskTable, update_of_ne ht]
      exact .same
  rw [Env.rtReturn] at hs
  split at hs
  · cases hs
    refine slot_idle hne (selectEnd_pc_ne _ _).1 rfl rfl ?_
    rw [selectEnd_taskTable]
    exact .edit (hstored t)
  · split at hs
    · rename_i hvalue
      cases hs
      refine slot_idle hne (selectEnd_pc_ne _ _).1 rfl rfl ?_
      rw [selectEnd_taskTable]
      rcases eq_or_ne t value.toNat with rfl | ht
      · rw [setTask_taskTable, update_self]
        refine .promote ⟨taskCount, hpc, ?_⟩ ?_ (hstored _)
        · rw [hact, Int.toNat_of_nonneg (by omega)]
        · rw [idleTaskId]
          omega
      · rw [setTask_taskTable, update_of_ne ht]
        exact .edit (hstored t)
    · cases hs

/-- The slots when user code returns. -/
theorem ret_slot {value : ℤ} (hact : act = .ret value) (hs : env.ret w value = some env') (t : ℕ) :
    SlotStep env act t (env.slot t) (env'.slot t) := by
  rw [Env.ret] at hs
  split at hs
  · rename_i id hpc
    cases hs
    exact slot_idle (by rw [hpc]; simp) (by simp) rfl rfl (.edit .same)
  · rename_i id hpc
    cases hs
    exact slot_idle (by rw [hpc]; simp) (by simp) rfl rfl (.edit .same)
  · rename_i taskCount hpc
    exact rtReturn_slot hpc hact hs t
  · rename_i hpc
    cases hs
    exact slot_idle (by rw [hpc]; simp) (by simp) rfl rfl (.edit .same)
  · rename_i hpc
    cases hs
    rcases eq_or_ne t env.taskContextPtr with rfl | hne
    · have hslot : env.slot env.taskContextPtr = ⟨true, env.taskTable env.taskContextPtr⟩ := by
        simp [Env.slot, hpc]
      rw [hslot]
      simpa [Env.slot] using SlotStep.finish value hact
    · have hslot : env.slot t = ⟨false, env.taskTable t⟩ := by simp [Env.slot, hne.symm]
      rw [hslot]
      simpa [Env.slot, hne] using SlotStep.edit .same
  · cases hs

/-- The dispatcher starts the selected task, or resumes it. -/
theorem dispatch_cases (hs : env.dispatch = some env') :
    env'.pc = .running ∧ env'.currentTask = env.currentTask ∧
      env'.taskContextPtr = env.taskContextPtr ∧
      ∃ task', env'.taskTable = update env.taskTable env.currentTask task' ∧
        (((env.taskTable env.currentTask).wkup = false ∧
            task' = { env.taskTable env.currentTask with stack := .running }) ∨
          ((env.taskTable env.currentTask).wkup = true ∧ ∃ signum queue,
            (env.taskTable env.currentTask).stack = .saved signum queue ∧
            task' = { ({ env.taskTable env.currentTask with wkup := false } :
              Task).resetSignalAndRun signum with stack := .running })) := by
  rw [Env.dispatch] at hs
  dsimp only at hs
  split at hs
  · rename_i hwkup
    split at hs
    · rename_i signum queue hstack
      cases queue with
      | none =>
        cases hs
        exact ⟨rfl, rfl, rfl, _, rfl, .inr ⟨hwkup, signum, none, hstack, rfl⟩⟩
      | some q =>
        cases hs
        exact ⟨rfl, rfl, rfl, _, rfl, .inr ⟨hwkup, signum, some q, hstack, rfl⟩⟩
    · cases hs
  · rename_i hwkup
    cases hs
    exact ⟨rfl, rfl, rfl, _, rfl, .inl ⟨by simpa using hwkup, rfl⟩⟩

/-- The slots in a visit. -/
theorem visitTask_slot (hact : act = .sched) (hpc : env.pc = .tsm)
    (hs : env.visitTask = some env') (t : ℕ) :
    SlotStep env act t (env.slot t) (env'.slot t) := by
  have hne : env.pc ≠ .running := by rw [hpc]; simp
  have hoff : env.slot t = ⟨false, env.taskTable t⟩ := by simp [Env.slot, hne]
  have hvisit : t = env.currentTask → Visits env act t := fun h => ⟨hact, hpc, h.symm⟩
  rw [Env.visitTask] at hs
  split at hs
  · rename_i hstatus
    cases hs
    rcases eq_or_ne t env.currentTask with rfl | ht
    · exact slot_idle hne (by simp) rfl (by simp) (.zombie (hvisit rfl) hstatus)
    · exact slot_idle hne (by simp) rfl (by simp [ht]) (.edit .same)
  · split at hs
    · rename_i hstatus
      cases hs
      rcases eq_or_ne t env.currentTask with rfl | ht
      · exact slot_idle hne (by simp) rfl (by simp) (.visit (hvisit rfl) hstatus)
      · exact slot_idle hne (by simp) rfl (by simp [ht]) (.edit .same)
    · split at hs
      · rename_i hstatus
        obtain ⟨hpc', -, hptr, task', htable, hcase⟩ := dispatch_cases hs
        simp only [setTask_taskTable, setTask_currentTask, update_self,
          update_idem, setTask_taskContextPtr] at htable hcase hptr
        rw [hoff]
        rcases eq_or_ne t env.currentTask with rfl | ht
        · have hon : env'.slot env.currentTask = ⟨true, task'⟩ := by
            simp [Env.slot, hpc', hptr, htable]
          rw [hon]
          rcases hcase with ⟨hwkup, rfl⟩ | ⟨hwkup, signum, queue, hstack, rfl⟩
          · exact .begin (hvisit rfl) hstatus hwkup
          · exact .resume (hvisit rfl) hstatus hwkup hstack
        · have hsame : env'.slot t = ⟨false, env.taskTable t⟩ := by
            simp [Env.slot, hptr, htable, ht, ht.symm]
          rw [hsame]
          exact .edit .same
      · cases hs
        exact slot_idle hne (by simp) rfl rfl (.edit .same)

/-- What the first loop over the timers does before it goes on or calls a handler. -/
inductive TimerVisit (timers : Timers) (rtcCounter id : ℕ) : Timers → Pc → Prop
  | last (hid : ¬id < maxTimersNo) :
      TimerVisit timers rtcCounter id timers.selectNext (.select 0)
  | pass (hid : id < maxTimersNo) (hvisit : timers.visit rtcCounter id = .pass) :
      TimerVisit timers rtcCounter id timers (.expire (id + 1))
  | cancel (hid : id < maxTimersNo) (hvisit : timers.visit rtcCounter id = .cancel) {pc : Pc}
      (hpc : pc = .onCancel id ∨ pc = .expire (id + 1)) :
      TimerVisit timers rtcCounter id (timers.setBit id false) pc
  | expire (hid : id < maxTimersNo) (hvisit : timers.visit rtcCounter id = .expire) :
      TimerVisit timers rtcCounter id (timers.markExpired id) (.onExpire id)

theorem visitTimer_cases {id : ℕ} (hs : env.visitTimer id = some env') :
    ∃ timers pc, env' = { env with timers, pc } ∧
      TimerVisit env.timers env.rtcCounter id timers pc := by
  rw [Env.visitTimer] at hs
  split at hs
  · rename_i hid
    split at hs
    · rename_i hvisit
      cases hs
      exact ⟨_, _, rfl, .pass hid hvisit⟩
    · rename_i hvisit
      dsimp only at hs
      split at hs
      · cases hs
        exact ⟨_, _, rfl, .cancel hid hvisit (.inl rfl)⟩
      · cases hs
        exact ⟨_, _, rfl, .cancel hid hvisit (.inr rfl)⟩
    · rename_i hvisit
      split at hs
      · cases hs
        exact ⟨_, _, rfl, .expire hid hvisit⟩
      · cases hs
  · rename_i hid
    cases hs
    exact ⟨_, _, rfl, .last hid⟩

theorem TimerVisit.pc_ne {timers timers' : Timers} {rtcCounter id : ℕ} {pc : Pc}
    (hv : TimerVisit timers rtcCounter id timers' pc) :
    pc ≠ .running ∧ pc ≠ .tsm ∧ pc ≠ .panic := by
  cases hv with
  | last _ => simp
  | pass _ _ => simp
  | cancel _ _ hpc => rcases hpc with rfl | rfl <;> simp
  | expire _ _ => simp

/-- The slots when the scheduler goes on. -/
theorem sched_slot (hact : act = .sched) (hs : env.sched = some env') (t : ℕ) :
    SlotStep env act t (env.slot t) (env'.slot t) := by
  rw [Env.sched] at hs
  split at hs
  · rename_i hpc
    cases hs
    refine slot_idle (by rw [hpc]; simp) ?_ rfl rfl (.edit .same)
    show (if _ then Pc.expire 0 else Pc.select 0) ≠ .running
    split <;> simp
  · rename_i id hpc
    have hne : env.pc ≠ .running := by rw [hpc]; simp
    obtain ⟨timers, pc, rfl, hv⟩ := visitTimer_cases hs
    exact slot_idle hne hv.pc_ne.1 rfl rfl (.edit .same)
  · rename_i taskCount hpc
    have hne : env.pc ≠ .running := by rw [hpc]; simp
    rw [Env.selectRound] at hs
    split at hs
    · split at hs
      · cases hs
        exact slot_idle hne (by simp) rfl rfl (.edit .same)
      · cases hs
    · cases hs
      refine slot_idle hne (selectEnd_pc_ne _ _).1 rfl rfl ?_
      rw [selectEnd_taskTable]
      exact .edit .same
  · rename_i hpc
    exact visitTask_slot hact hpc hs t
  · cases hs

/-- Calls are made by user code only. -/
theorem step_api {call : Api} (hs : step w env (.api call) = some env') :
    env.pc.inUserCode = true ∧ env.api w call = some env' := by
  rw [step] at hs
  split at hs
  · rename_i huser
    exact ⟨huser, hs⟩
  · cases hs

/-- Only the running task blocks. -/
theorem step_block {call : Blocking} (hs : step w env (.block call) = some env') :
    env.pc = .running ∧ env' = env.block w call := by
  rw [step] at hs
  split at hs
  · rename_i hpc
    exact ⟨hpc, (Option.some.inj hs).symm⟩
  · cases hs

/-- **Every step of the kernel is a step of each slot.** -/
theorem step_slot (hs : step w env act = some env') (t : ℕ) :
    SlotStep env act t (env.slot t) (env'.slot t) := by
  cases act with
  | sched => exact sched_slot rfl hs t
  | updateRtc quantum =>
    cases hs
    exact slot_same ⟨rfl, rfl, rfl⟩ rfl
  | api call =>
    obtain ⟨-, hs⟩ := step_api hs
    exact api_slot rfl hs t
  | block call =>
    obtain ⟨hpc, rfl⟩ := step_block hs
    exact block_slot hpc call rfl t
  | ret value => exact ret_slot rfl hs t

end Kernel
