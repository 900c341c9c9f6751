/-
Message queues (`mipos_queue.c`), as the code computes them.

A call of `mipos_q_receive` that suspends its caller comes in two parts: the part
up to the suspension (`qReceive`, which then gives no result) and the part after
it (`qReceiveResume`).  Everything else in these functions runs without a task
switch.  The sizes are `unsigned short`; no sum in the code exceeds its limit.
-/
import Mathlib.Data.Nat.Notation
import Mathlib.Logic.Function.Basic

namespace Kernel

/-- `mipos_queue_t`; the pool has `queueLimit` items. -/
structure Queue where
  suspendedTid : ℕ
  head : ℕ
  tail : ℕ
  item : ℕ → UInt32
  queueLimit : ℕ
  queueCount : ℕ

/-- `(mipos_q_size_t)-1`. -/
def qError : ℕ := 65535

def qInit (queuePool : ℕ → UInt32) (queuePoolLength : ℕ) : Queue where
  suspendedTid := 0
  head := 0
  tail := 0
  item := queuePool
  queueLimit := queuePoolLength
  queueCount := 0

/-- Returns the queue, the value of the call and the task to be sent
`MIPOS_SIGQUE`. -/
def qSend (queue : Queue) (item : UInt32) : Queue × ℕ × Option ℕ :=
  let signalled := if queue.suspendedTid ≠ 0 then some queue.suspendedTid else none
  if queue.queueCount < queue.queueLimit then
    ({ queue with
        queueCount := queue.queueCount + 1
        item := Function.update queue.item queue.tail item
        tail := (queue.tail + 1) % queue.queueLimit },
      queue.queueCount + 1, signalled)
  else (queue, qError, signalled)

/-- The end of `mipos_q_receive`: the value of the call and the item delivered. -/
def qTake (queue : Queue) : Queue × ℕ × Option UInt32 :=
  if queue.queueCount > 0 then
    ({ queue with
        head := (queue.head + 1) % queue.queueLimit
        queueCount := queue.queueCount - 1 },
      1, some (queue.item queue.head))
  else (queue, 0, none)

/-- `mipos_q_receive` up to its result, or up to the suspension (`none`).
`pItem` says whether the item pointer is not null. -/
def qReceive (queue : Queue) (currentTask : ℕ) (pItem bl : Bool) :
    Queue × Option (ℕ × Option UInt32) :=
  if pItem = false then (queue, some (qError, none))
  else if queue.queueCount = 0 ∧ queue.suspendedTid = 0 then
    if bl then ({ queue with suspendedTid := currentTask }, none)
    else
      let (queue, r) := qTake { queue with suspendedTid := 0 }
      (queue, some r)
  else
    let (queue, r) := qTake queue
    (queue, some r)

/-- `mipos_q_receive` after the suspension. -/
def qReceiveResume (queue : Queue) : Queue × ℕ × Option UInt32 :=
  qTake { queue with suspendedTid := 0 }

def qCount (queue : Queue) : ℕ := queue.queueCount

def qMessagePending (queue : Queue) : Bool :=
  !(queue.queueCount == 0 && queue.suspendedTid == 0)

end Kernel
