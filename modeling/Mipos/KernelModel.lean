/-
The kernel of mipOS (`mipos_kernel.c`), as the code computes it.

The state (`Env`) is `mipos_kernel_t` with the queues of the application and the
place where the processor is (`Pc`).  A step (`step`) is a stretch of the scheduler
between two calls of user code, a call that user code makes, or the return of user
code to the scheduler.  User code is a task, an RT task, a timer handler or the
idle callback; it makes any calls in any order.

A step gives `none` where the code is undefined: a null function is called, the
task table is indexed out of its bounds, or the dispatcher resumes a context that
is not saved.  Blocking calls are made by tasks that are not RT tasks, as the
header demands.
-/
import Mipos.QueueModel
import Mipos.TaskModel
import Mipos.TimerModel

namespace Kernel

/-- `MIPOS_TASKS_TBL_ENTRIES_CNT`: the tasks and the idle task. -/
def tasksTblEntriesCnt : ℕ := 8

def idleTaskId : ℕ := 0

/-- Where the processor is. -/
inductive Pc
  /-- at the label `scheduler` -/
  | epoch
  /-- in the first loop over the timers, before timer `id` -/
  | expire (id : ℕ)
  /-- in the on-cancel handler of timer `id` -/
  | onCancel (id : ℕ)
  /-- in the on-expire handler of timer `id` -/
  | onExpire (id : ℕ)
  /-- in the selection loop, after `taskCount` rounds -/
  | select (taskCount : ℕ)
  /-- in the RT task `current_task` -/
  | inRt (taskCount : ℕ)
  /-- in the idle callback -/
  | inIdle
  /-- at the task state machine, with the task `current_task` selected -/
  | tsm
  /-- in the task `task_context_ptr` -/
  | running
  | panic
  deriving DecidableEq, Repr

/-- User code is running. -/
def Pc.inUserCode : Pc → Bool
  | .onCancel _ => true
  | .onExpire _ => true
  | .inRt _ => true
  | .inIdle => true
  | .running => true
  | _ => false

/-- `mipos_kernel_t`, the queues and the program counter.  `p_task` of `mipos_start`
is the descriptor of `currentTask` wherever it is used, and `taskContextPtr` is the
slot of the descriptor that `task_context_ptr` points to. -/
structure Env where
  idleStateNotifyCbk : Option ℕ
  rtcCounter : ℕ
  currentTask : ℕ
  taskContextPtr : ℕ
  taskTable : ℕ → Task
  timers : Timers
  queues : ℕ → Queue
  pc : Pc

namespace Env

def setTask (env : Env) (slot : ℕ) (task : Task) : Env :=
  { env with taskTable := Function.update env.taskTable slot task }

def setQueue (env : Env) (q : ℕ) (queue : Queue) : Env :=
  { env with queues := Function.update env.queues q queue }

/-- `_mipos_get_p_task`: the slot that an identifier means. -/
def getPTask (env : Env) (id : ℕ) : Option ℕ :=
  if id = 0 then some env.taskContextPtr
  else if id < tasksTblEntriesCnt then some id
  else none

/-- A change of the descriptor that an identifier means. -/
def modifyTask (env : Env) (id : ℕ) (f : Task → Task) : Env :=
  match env.getPTask id with
  | none => env
  | some slot => env.setTask slot (f (env.taskTable slot))

/-- The slot that `mipos_t_create` uses. -/
def freeSlot (env : Env) : Option ℕ :=
  (List.range' 1 (tasksTblEntriesCnt - 1)).find? fun id => (env.taskTable id).entryPoint.isNone

/-- `mipos_t_create`; `none` stands for `(mipos_task_id_t)-1`. -/
def tCreate (env : Env) (entryPoint : Option ℕ) (param : ℕ) (rt : Bool) : Env × Option ℕ :=
  match env.freeSlot with
  | none => (env, none)
  | some id => (env.setTask id ((env.taskTable id).create entryPoint param rt), some id)

def tGetStatus (env : Env) (id : ℕ) : Option (BitVec 16) :=
  (env.getPTask id).map fun slot => (env.taskTable slot).status

/-- `mipos_q_send` with the signal that it sends. -/
def qSend (env : Env) (q : ℕ) (item : UInt32) : Env :=
  let sent := Kernel.qSend (env.queues q) item
  let env := env.setQueue q sent.1
  match sent.2.2 with
  | none => env
  | some tid => env.modifyTask tid fun task => task.notifySignal sigque

end Env

/-! ### Calls -/

/-- The calls that do not give up the processor. -/
inductive Api
  | tCreate (entryPoint : Option ℕ) (param : ℕ) (rt : Bool)
  | tDelete (id : ℕ)
  | tNotifySignal (id : ℕ) (signum : BitVec 8)
  | tFreeze (id : ℕ)
  | tUnfreeze (id : ℕ)
  | tRestart (id : ℕ) (newParam : Option ℕ)
  | tSigIgnore (id : ℕ) (signum : BitVec 8)
  | tSigAllow (id : ℕ) (signum : BitVec 8)
  | timerStart (onExpireHandler onCancelHandler : Option ℕ) (interval context : ℕ)
      (periodic : Bool)
  | timerCancel (id : ℤ)
  | timerDelete (id : ℤ)
  | timerRestart (id : ℤ) (newInterval : ℕ)
  | qInit (q : ℕ) (queuePool : ℕ → UInt32) (queuePoolLength : ℕ)
  | qSend (q : ℕ) (item : UInt32)
  | qReceive (q : ℕ) (pItem : Bool)
  | setIdleCbk (cbk : Option ℕ)

/-- The calls that may give up the processor. -/
inductive Blocking
  | tSuspend
  | tWaitforSignal (signum : BitVec 8)
  | tmWkafter (count : ℕ)
  | tmMsleep (count : ℕ)
  | qReceive (q : ℕ)
  deriving DecidableEq, Repr

def Env.api (w : ℕ) (env : Env) : Api → Option Env
  | .tCreate entryPoint param rt => some (env.tCreate entryPoint param rt).1
  | .tDelete id => some (env.modifyTask id Task.delete)
  | .tNotifySignal id signum => some (env.modifyTask id fun task => task.notifySignal signum)
  | .tFreeze id => some (env.modifyTask id Task.freeze)
  | .tUnfreeze id => some (env.modifyTask id Task.unfreeze)
  | .tRestart id newParam => some (env.modifyTask id fun task => task.restart newParam)
  | .tSigIgnore id signum => some (env.modifyTask id fun task => task.sigIgnore signum)
  | .tSigAllow id signum => some (env.modifyTask id fun task => task.sigAllow signum)
  | .timerStart onExpire onCancel interval context periodic =>
    some { env with timers := (env.timers.timerStart w env.rtcCounter onExpire onCancel interval
      context periodic).1 }
  | .timerCancel id => some { env with timers := (env.timers.timerCancel id).1 }
  | .timerDelete id => some { env with timers := (env.timers.timerDelete id).1 }
  | .timerRestart id newInterval =>
    (env.timers.timerRestart w env.rtcCounter id newInterval).map fun r =>
      { env with timers := r.1 }
  | .qInit q queuePool queuePoolLength => some (env.setQueue q (qInit queuePool queuePoolLength))
  | .qSend q item => some (env.qSend q item)
  | .qReceive q pItem =>
    some (env.setQueue q (qReceive (env.queues q) env.currentTask pItem false).1)
  | .setIdleCbk cbk => some { env with idleStateNotifyCbk := cbk }

/-- The running task gives up the processor, and `f` is what its call stores in the
descriptor besides. -/
def Env.suspend (env : Env) (signum : BitVec 8) (queue : Option ℕ) (f : Task → Task) : Env :=
  let slot := env.taskContextPtr
  { env.setTask slot (f ((env.taskTable slot).suspend signum queue)) with pc := .epoch }

def Env.block (w : ℕ) (env : Env) : Blocking → Env
  | .tSuspend => env.suspend sigwkp none id
  | .tWaitforSignal signum => env.suspend (signum &&& ~~~sysReservedSignals) none id
  | .tmWkafter count =>
    env.suspend sigalm none fun task => { task with timerTickCount := Task.tickCount count }
  | .tmMsleep count =>
    env.suspend sigtmr none fun task =>
      { task with rtcTimeout := (env.rtcCounter + count % 2 ^ 32) % 2 ^ w }
  | .qReceive q =>
    match qReceive (env.queues q) env.currentTask true true with
    | (queue, some _) => env.setQueue q queue
    | (queue, none) => (env.setQueue q queue).suspend sigque (some q) id

/-! ### The scheduler -/

namespace Env

/-- The end of a round of the selection loop, and what follows the loop. -/
def selectEnd (env : Env) (taskCount : ℕ) : Env :=
  if (env.taskTable env.currentTask).skipped ∨
      (taskCount ≤ tasksTblEntriesCnt ∧ env.currentTask = idleTaskId) then
    { env with pc := .select taskCount }
  else if env.currentTask = idleTaskId then
    { env with pc := if env.idleStateNotifyCbk.isSome then .inIdle else .epoch }
  else { env with pc := .tsm }

/-- One round of the selection loop, up to the call of an RT task. -/
def selectRound (env : Env) (taskCount : ℕ) : Option Env :=
  let env := { env with currentTask := (env.currentTask + 1) % tasksTblEntriesCnt }
  let task := env.taskTable env.currentTask
  if task.rtTask then
    if task.entryPoint.isSome then some { env with pc := .inRt (taskCount + 1) } else none
  else some (env.selectEnd (taskCount + 1))

/-- The RT task `current_task` has returned. -/
def rtReturn (env : Env) (taskCount : ℕ) (value : ℤ) : Option Env :=
  let slot := env.currentTask
  let env := env.setTask slot { env.taskTable slot with taskRetValue := value }
  if value = 0 then some (env.selectEnd taskCount)
  else if 0 < value ∧ value < tasksTblEntriesCnt then
    let slot := value.toNat
    let env := { env with currentTask := slot }
    some ((env.setTask slot (env.taskTable slot).promote).selectEnd taskCount)
  else none

/-- The dispatcher, with the status already set. -/
def dispatch (env : Env) : Option Env :=
  let slot := env.currentTask
  let task := env.taskTable slot
  if task.wkup then
    match task.stack with
    | .saved signum queue =>
      let env := env.setTask slot
        { ({ task with wkup := false } : Task).resetSignalAndRun signum with stack := .running }
      let env := match queue with
        | none => env
        | some q => env.setQueue q (qReceiveResume (env.queues q)).1
      some { env with pc := .running }
    | _ => none
  else some { env.setTask slot { task with stack := .running } with pc := .running }

/-- The task state machine. -/
def visitTask (env : Env) : Option Env :=
  let slot := env.currentTask
  let env := { env with taskContextPtr := slot }
  let task := env.taskTable slot
  if task.status = taskRunning then
    some { env.setTask slot { task with status := taskZombie } with pc := .epoch }
  else if task.status = taskSuspended then
    some { env.setTask slot (task.visitSuspended env.rtcCounter) with pc := .epoch }
  else if task.status = taskReady then
    (env.setTask slot { task with status := taskRunning }).dispatch
  else some { env with pc := .panic }

/-- The first loop over the timers, before timer `id`. -/
def visitTimer (env : Env) (id : ℕ) : Option Env :=
  if id < maxTimersNo then
    match env.timers.visit env.rtcCounter id with
    | .pass => some { env with pc := .expire (id + 1) }
    | .cancel =>
      let env := { env with timers := env.timers.setBit id false }
      if (env.timers.timerTable id).handlerOnCancelCbk.isSome then
        some { env with pc := .onCancel id }
      else some { env with pc := .expire (id + 1) }
    | .expire =>
      if (env.timers.timerTable id).handlerOnExpireCbk.isSome then
        some { env with timers := env.timers.markExpired id, pc := .onExpire id }
      else none
  else some { env with timers := env.timers.selectNext, pc := .select 0 }

end Env

/-- What can happen next. -/
inductive Act
  /-- the scheduler goes on -/
  | sched
  /-- `mipos_update_rtc`, from an interrupt -/
  | updateRtc (quantum : ℕ)
  /-- the running user code makes a call -/
  | api (call : Api)
  /-- the running task makes a blocking call -/
  | block (call : Blocking)
  /-- the running user code returns -/
  | ret (value : ℤ)

def Env.sched (env : Env) : Option Env :=
  match env.pc with
  | .epoch => some { env with
      pc := if env.timers.due env.rtcCounter then .expire 0 else .select 0 }
  | .expire id => env.visitTimer id
  | .select taskCount => env.selectRound taskCount
  | .tsm => env.visitTask
  | _ => none

/-- The running user code returns. -/
def Env.ret (w : ℕ) (env : Env) (value : ℤ) : Option Env :=
  match env.pc with
  | .onCancel id => some { env with pc := .expire (id + 1) }
  | .onExpire id => some { env with
      timers := env.timers.afterExpire w env.rtcCounter id, pc := .expire (id + 1) }
  | .inRt taskCount => env.rtReturn taskCount value
  | .inIdle => some { env with pc := .epoch }
  | .running =>
    let slot := env.taskContextPtr
    some { env.setTask slot
      { env.taskTable slot with taskRetValue := value, stack := .returned } with pc := .epoch }
  | _ => none

def step (w : ℕ) (env : Env) : Act → Option Env
  | .sched => env.sched
  | .updateRtc quantum => some { env with rtcCounter := (env.rtcCounter + quantum) % 2 ^ w }
  | .api call => if env.pc.inUserCode then env.api w call else none
  | .block call => if env.pc = .running then some (env.block w call) else none
  | .ret value => env.ret w value

/-- `scheduler_init`, in memory that was zero. -/
def schedulerInit (queues : ℕ → Queue) : Env :=
  let blank : Task := ⟨none, 0, 0, 0, false, false, 0, 0, 0, 0, 0, .unused⟩
  { idleStateNotifyCbk := none
    rtcCounter := 0
    currentTask := idleTaskId
    taskContextPtr := idleTaskId
    taskTable := fun slot =>
      if slot = idleTaskId then { blank.create (some 0) 0 false with signalMask := 0 }
      else blank.delete
    timers := ⟨0, fun _ => false, fun _ => ⟨none, none, 0, 0, false, false, false, 0⟩⟩
    queues := queues
    pc := .epoch }

/-- `mipos_start` up to the label `scheduler`. -/
def Env.start (rootTask rootTaskParam : ℕ) (queues : ℕ → Queue) : Env :=
  ((schedulerInit queues).tCreate (some rootTask) rootTaskParam false).1

/-- One step of the kernel and of the code it runs. -/
def Step (w : ℕ) (env env' : Env) : Prop := ∃ act, step w env act = some env'

end Kernel
