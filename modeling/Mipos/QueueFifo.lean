/-
Queues are bounded first-in first-out buffers.

Any number of tasks send to a queue and receive from it (`QueueStep`).  The only
task switch is the suspension inside `mipos_q_receive`, so a step is a whole call
or one of the two parts of a receive that suspends its caller.
* `QueueOk` — the shape of the ring, and what it holds;
* `qSend_ok`, `qTake_ok` — the calls append to and take from the list it holds;
* `queue_fifo` — over whole runs nothing is lost, duplicated or reordered.
-/
import Mathlib.Logic.Relation
import Mipos.QueueModel
import Mipos.RingBuffer

namespace Kernel

open RingBuffer Function Relation

/-- The items of the queue, oldest first. -/
def Queue.stored (queue : Queue) : List UInt32 :=
  window queue.item queue.queueLimit queue.head queue.queueCount

/-- The shape of the ring. -/
structure QueueOk (queue : Queue) : Prop where
  limit_pos : 0 < queue.queueLimit
  count_le : queue.queueCount ≤ queue.queueLimit
  head_lt : queue.head < queue.queueLimit
  tail_eq : queue.tail = (queue.head + queue.queueCount) % queue.queueLimit

variable {queue : Queue}

theorem qInit_ok (queuePool : ℕ → UInt32) {queuePoolLength : ℕ} (hlen : 1 ≤ queuePoolLength) :
    QueueOk (qInit queuePool queuePoolLength) :=
  ⟨hlen, Nat.zero_le _, hlen, (Nat.zero_mod _).symm⟩

/-- `suspended_tid` is no part of the ring. -/
theorem QueueOk.setSuspended (h : QueueOk queue) (tid : ℕ) :
    QueueOk { queue with suspendedTid := tid } :=
  ⟨h.limit_pos, h.count_le, h.head_lt, h.tail_eq⟩

/-- The items that a send adds. -/
def Queue.accepts (queue : Queue) (item : UInt32) : List UInt32 :=
  if queue.queueCount < queue.queueLimit then [item] else []

/-- A send appends its item, or leaves the queue alone. -/
theorem qSend_ok (h : QueueOk queue) (item : UInt32) :
    QueueOk (qSend queue item).1 ∧
      (qSend queue item).1.stored = queue.stored ++ queue.accepts item := by
  rw [qSend, Queue.accepts]
  split
  · rename_i hroom
    refine ⟨⟨h.limit_pos, hroom, h.head_lt, ?_⟩, ?_⟩
    · show (queue.tail + 1) % queue.queueLimit = (queue.head + (queue.queueCount + 1)) % _
      rw [h.tail_eq, Nat.mod_add_mod, Nat.add_assoc]
    · show window (update queue.item queue.tail item) _ _ (queue.queueCount + 1) = _
      rw [h.tail_eq, window_push hroom]
      rfl
  · exact ⟨h, (List.append_nil _).symm⟩

/-- Taking an item gives the oldest one, if there is one. -/
theorem qTake_ok (h : QueueOk queue) :
    QueueOk (qTake queue).1 ∧
      queue.stored = (qTake queue).2.2.toList ++ (qTake queue).1.stored ∧
      ((qTake queue).2.1 = 1 ↔ (qTake queue).2.2.isSome) := by
  rw [qTake]
  split
  · rename_i hpos
    obtain ⟨n, hn⟩ : ∃ n, queue.queueCount = n + 1 := ⟨queue.queueCount - 1, by omega⟩
    have hle := h.count_le
    refine ⟨⟨h.limit_pos, ?_, Nat.mod_lt _ h.limit_pos, ?_⟩, ?_, by simp⟩
    · show queue.queueCount - 1 ≤ queue.queueLimit
      omega
    · show queue.tail = ((queue.head + 1) % queue.queueLimit + (queue.queueCount - 1)) % _
      rw [h.tail_eq, Nat.mod_add_mod, hn]
      congr 1
      omega
    · show window queue.item queue.queueLimit queue.head queue.queueCount
        = queue.item queue.head :: window queue.item queue.queueLimit _ (queue.queueCount - 1)
      rw [hn, window_pop, Nat.mod_eq_of_lt h.head_lt, Nat.add_sub_cancel]
  · exact ⟨h, rfl, by simp⟩

/-! ### Runs -/

/-- A queue, the tasks that are suspended in `mipos_q_receive` on it, the items
that were accepted and those that were received, oldest first. -/
structure QueueRun where
  queue : Queue
  suspended : ℕ → Prop
  accepted : List UInt32
  received : List UInt32

/-- The items that a call with this result has received. -/
def receivedItem : ℕ × Option UInt32 → List UInt32
  | (ret, item) => if ret = 1 then item.toList else []

/-- The steps of the tasks: the calls that return at once, and the two parts of a
receive that suspends.  A suspended task does nothing but resume, or is deleted. -/
inductive QueueStep : QueueRun → QueueRun → Prop
  | send {r : QueueRun} (tid : ℕ) (item : UInt32) (htid : ¬r.suspended tid) :
      QueueStep r { r with
        queue := (qSend r.queue item).1
        accepted := r.accepted ++ r.queue.accepts item }
  | receive {r : QueueRun} (tid : ℕ) (pItem bl : Bool) (htid : ¬r.suspended tid) {queue : Queue}
      {result : ℕ × Option UInt32} (hret : qReceive r.queue tid pItem bl = (queue, some result)) :
      QueueStep r { r with
        queue := queue
        received := r.received ++ receivedItem result }
  | suspend {r : QueueRun} (tid : ℕ) (pItem bl : Bool) (htid : ¬r.suspended tid) {queue : Queue}
      (hret : qReceive r.queue tid pItem bl = (queue, none)) :
      QueueStep r { r with
        queue := queue
        suspended := update r.suspended tid True }
  | resume {r : QueueRun} (tid : ℕ) (htid : r.suspended tid) :
      QueueStep r { r with
        queue := (qReceiveResume r.queue).1
        suspended := update r.suspended tid False
        received := r.received ++ receivedItem (qReceiveResume r.queue).2 }
  | delete {r : QueueRun} (tid : ℕ) (htid : r.suspended tid) :
      QueueStep r { r with suspended := update r.suspended tid False }

def QueueRun.start (queuePool : ℕ → UInt32) (queuePoolLength : ℕ) : QueueRun where
  queue := qInit queuePool queuePoolLength
  suspended _ := False
  accepted := []
  received := []

/-- What was accepted and not yet received is in the queue. -/
structure QueueInv (len : ℕ) (r : QueueRun) : Prop where
  ring : QueueOk r.queue
  limit : r.queue.queueLimit = len
  conserved : r.accepted = r.received ++ r.queue.stored

theorem qTake_limit (queue : Queue) : (qTake queue).1.queueLimit = queue.queueLimit := by
  rw [qTake]
  split <;> rfl

theorem qSend_limit (queue : Queue) (item : UInt32) :
    (qSend queue item).1.queueLimit = queue.queueLimit := by
  rw [qSend]
  split <;> rfl

/-- The end of a receive, whatever `suspended_tid` is. -/
theorem QueueInv.take {len : ℕ} {r : QueueRun} (hi : QueueInv len r) (tid : ℕ)
    (suspended : ℕ → Prop) :
    QueueInv len { r with
      queue := (qTake { r.queue with suspendedTid := tid }).1
      suspended := suspended
      received := r.received ++ receivedItem (qTake { r.queue with suspendedTid := tid }).2 } := by
  obtain ⟨hok, hstored, hone⟩ := qTake_ok (hi.ring.setSuspended tid)
  refine ⟨hok, (qTake_limit _).trans hi.limit, ?_⟩
  have hitem : receivedItem (qTake { r.queue with suspendedTid := tid }).2
      = (qTake { r.queue with suspendedTid := tid }).2.2.toList := by
    rw [receivedItem]
    split
    · rfl
    · rename_i hne
      rw [hone, Option.not_isSome_iff_eq_none] at hne
      rw [hne]
      rfl
  have hsame : r.queue.stored = Queue.stored { r.queue with suspendedTid := tid } := rfl
  rw [hitem, hi.conserved, hsame, hstored, List.append_assoc]

/-- One step keeps the invariant. -/
theorem QueueStep.inv {len : ℕ} {r r' : QueueRun} (hs : QueueStep r r') (hi : QueueInv len r) :
    QueueInv len r' := by
  cases hs with
  | send tid item _ =>
    obtain ⟨hok, hstored⟩ := qSend_ok hi.ring item
    refine ⟨hok, (qSend_limit _ _).trans hi.limit, ?_⟩
    show r.accepted ++ r.queue.accepts item = r.received ++ (qSend r.queue item).1.stored
    rw [hstored, hi.conserved, List.append_assoc]
  | receive tid pItem bl htid hret =>
    rw [qReceive] at hret
    split at hret
    · -- a null item pointer
      cases hret
      exact ⟨hi.ring, hi.limit, by simpa [receivedItem, qError] using hi.conserved⟩
    · split at hret
      · split at hret
        · cases hret
        · cases hret
          exact hi.take 0 _
      · cases hret
        exact hi.take r.queue.suspendedTid _
  | suspend tid pItem bl htid hret =>
    rw [qReceive] at hret
    split at hret
    · cases hret
    · split at hret
      · split at hret
        · cases hret
          exact ⟨hi.ring.setSuspended _, hi.limit, hi.conserved⟩
        · cases hret
      · cases hret
  | resume tid htid => exact hi.take 0 _
  | delete tid htid => exact ⟨hi.ring, hi.limit, hi.conserved⟩

theorem QueueInv.of_run {queuePool : ℕ → UInt32} {queuePoolLength : ℕ}
    (hlen : 1 ≤ queuePoolLength) {r : QueueRun}
    (hrun : ReflTransGen QueueStep (.start queuePool queuePoolLength) r) :
    QueueInv queuePoolLength r := by
  induction hrun with
  | refl => exact ⟨qInit_ok queuePool hlen, rfl, rfl⟩
  | tail _ hstep ih => exact hstep.inv ih

/-- **Queues are bounded first-in first-out buffers**: in every state of every run
the ring is well formed, and the items accepted so far are those received so far
followed by the `queue_count` items stored from `head` on. -/
theorem queue_fifo {queuePool : ℕ → UInt32} {queuePoolLength : ℕ} (hlen : 1 ≤ queuePoolLength)
    {r : QueueRun}
    (hrun : ReflTransGen QueueStep (.start queuePool queuePoolLength) r) :
    r.queue.queueLimit = queuePoolLength ∧ r.queue.queueCount ≤ r.queue.queueLimit ∧
      r.queue.tail = (r.queue.head + r.queue.queueCount) % r.queue.queueLimit ∧
      r.accepted = r.received ++ (List.range r.queue.queueCount).map fun i =>
        r.queue.item ((r.queue.head + i) % r.queue.queueLimit) := by
  have hi := QueueInv.of_run hlen hrun
  exact ⟨hi.limit, hi.ring.count_le, hi.ring.tail_eq, hi.conserved⟩

/-- Task 1 waits, task 2 sends and takes the item itself, and task 1 wakes up to an
empty queue; the next item goes round the ring. -/
theorem queue_fifo_two_receivers :
    ∃ r, ReflTransGen QueueStep (.start (fun _ => 0) 1) r ∧
      r.accepted = [5, 6] ∧ r.received = [5] ∧ r.queue.queueCount = 1 ∧ r.queue.tail = 0 ∧
      r.accepted = r.received ++ [r.queue.item 0] := by
  have hrun : ReflTransGen QueueStep (.start (fun _ => 0) 1) _ :=
    .tail (.tail (.tail (.tail (.single (.suspend 1 true true id rfl))
      (.send 2 5 (by simp [QueueRun.start])))
      (.receive 2 true true (by simp [QueueRun.start]) rfl))
      (.resume 1 (by simp)))
      (.send 2 6 (by simp [QueueRun.start]))
  obtain ⟨-, -, -, hfifo⟩ := queue_fifo (by decide) hrun
  exact ⟨_, hrun, rfl, rfl, rfl, rfl, hfifo⟩

end Kernel
