/-
Task descriptors (`mipos_task.c` and the macros of `mipos_kernel.h`), as the code
computes them.

The functions here change one descriptor; which one they are applied to is decided
in the kernel model.  The status and the signals are bit masks, as in the source.
What the stack of a task and its saved registers (`reg_state`) hold is `Stack`: a
context can be resumed while it is saved, and once only.
-/
import Mathlib.Algebra.Order.Ring.Nat
import Mathlib.Data.Nat.Notation
import Mathlib.Data.Int.Notation

namespace Kernel

/-! ### Constants -/

def taskNotRunning : BitVec 16 := 1

def taskReady : BitVec 16 := 2

def taskRunning : BitVec 16 := 4

def taskSuspended : BitVec 16 := 8

def taskZombie : BitVec 16 := 16

def taskFrozen : BitVec 16 := 32

def sigwkp : BitVec 8 := 0x01

def sigque : BitVec 8 := 0x02

def sigalm : BitVec 8 := 0x04

def sigtmr : BitVec 8 := 0x08

def sysReservedSignals : BitVec 8 := sigwkp ||| sigque ||| sigalm ||| sigtmr

def sigany : BitVec 8 := -1

/-! ### Descriptors -/

/-- What the stack of a task holds: nothing, the task that has the processor, the
frames of a blocking call that waits for the signals `signum` (inside
`mipos_q_receive` on the queue `queue`, if it is one), or nothing any more. -/
inductive Stack
  | unused
  | running
  | saved (signum : BitVec 8) (queue : Option ℕ)
  | returned
  deriving DecidableEq, Repr

/-- `mipos_task_t`.  The fields for the name and for switching stacks are left out. -/
structure Task where
  entryPoint : Option ℕ
  taskRetValue : ℤ
  param : ℕ
  status : BitVec 16
  wkup : Bool
  rtTask : Bool
  timerTickCount : ℤ
  rtcTimeout : ℕ
  signalMask : BitVec 8
  signalPending : BitVec 8
  signalWaiting : BitVec 8
  stack : Stack
  deriving DecidableEq, Repr

namespace Task

/-- `_mipos_t_create`. -/
def create (task : Task) (entryPoint : Option ℕ) (param : ℕ) (rt : Bool) : Task :=
  { task with
    entryPoint := entryPoint
    signalMask := sigany
    signalPending := 0
    signalWaiting := 0
    timerTickCount := 0
    rtcTimeout := 0
    status := taskReady
    param := param
    wkup := false
    rtTask := rt
    stack := .unused }

/-- `_mipos_t_delete`; the saved registers stay. -/
def delete (task : Task) : Task :=
  { task with
    entryPoint := none
    param := 0
    signalMask := 0
    signalPending := 0
    signalWaiting := 0
    status := taskNotRunning
    wkup := false
    rtTask := false
    timerTickCount := 0 }

def notifySignal (task : Task) (signum : BitVec 8) : Task :=
  { task with signalPending := task.signalPending ||| (signum &&& task.signalMask) }

def freeze (task : Task) : Task := { task with status := task.status ||| taskFrozen }

def unfreeze (task : Task) : Task := { task with status := task.status &&& ~~~taskFrozen }

/-- `mipos_t_restart`, and `mipos_t_restart_with_param` with a new parameter. -/
def restart (task : Task) (newParam : Option ℕ) : Task :=
  if task.entryPoint.isSome ∧ task.status = taskZombie then
    { task with status := taskReady, param := newParam.getD task.param }
  else task

def sigIgnore (task : Task) (signum : BitVec 8) : Task :=
  { task with signalMask := task.signalMask &&& ~~~(signum &&& ~~~sysReservedSignals) }

def sigAllow (task : Task) (signum : BitVec 8) : Task :=
  { task with signalMask := task.signalMask ||| (signum &&& ~~~sysReservedSignals) }

/-! ### Blocking calls -/

/-- `_mipos_t_set_wait_for_signal`. -/
def setWaitForSignal (task : Task) (signum : BitVec 8) : Task :=
  { task with
    signalWaiting := task.signalWaiting ||| signum
    status := if task.status &&& (taskReady ||| taskRunning ||| taskSuspended) ≠ 0 then taskSuspended
      else task.status }

/-- `_mipos_t_reset_signal_and_run`. -/
def resetSignalAndRun (task : Task) (signum : BitVec 8) : Task :=
  { task with
    status := taskRunning
    signalWaiting := task.signalWaiting &&& ~~~signum
    signalPending := task.signalPending &&& ~~~signum }

/-- A blocking call gives up the processor. -/
def suspend (task : Task) (signum : BitVec 8) (queue : Option ℕ) : Task :=
  { setWaitForSignal task signum with stack := .saved signum queue }

/-- The tick count that `mipos_tm_wkafter` stores: a `uint32_t` in an `int`, of 32 bits as on the
host and ARM builds. -/
def tickCount (count : ℕ) : ℤ := Int.bmod count (2 ^ 32)

/-! ### The task state machine -/

/-- A visit to a task that waits for `MIPOS_SIGALM` counts one tick. -/
def countTick (task : Task) : Task :=
  if task.signalWaiting &&& sigalm ≠ 0 then
    if task.timerTickCount > 0 then { task with timerTickCount := task.timerTickCount - 1 }
    else { task with signalPending := task.signalPending ||| sigalm }
  else task

/-- A visit to a task that waits for `MIPOS_SIGTMR` looks at the real-time clock. -/
def checkRtc (task : Task) (rtcCounter : ℕ) : Task :=
  if task.signalWaiting &&& sigtmr ≠ 0 then
    if task.rtcTimeout ≠ 0 ∧ rtcCounter ≥ task.rtcTimeout then
      { task with signalPending := task.signalPending ||| sigtmr, rtcTimeout := 0 }
    else task
  else task

/-- The case `TASK_SUSPENDED` of the task state machine. -/
def visitSuspended (task : Task) (rtcCounter : ℕ) : Task :=
  let task := task.countTick.checkRtc rtcCounter
  if task.signalPending &&& task.signalWaiting ≠ 0 then
    { task with
      wkup := true
      status := taskReady
      signalPending := task.signalPending &&& ~~~(task.signalPending &&& task.signalWaiting) }
  else task

/-- The deferred call that an RT task asks for. -/
def promote (task : Task) : Task := { task with wkup := true, status := taskReady }

/-- Whether the selection loop passes over the task. -/
def skipped (task : Task) : Bool :=
  task.entryPoint.isNone || task.rtTask ||
    task.status &&& (taskNotRunning ||| taskZombie ||| taskFrozen) ≠ 0

end Task

end Kernel
