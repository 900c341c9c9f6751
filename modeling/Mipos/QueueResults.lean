/-
What the calls on a queue tell their callers.

The results of `mipos_q_send` are numbers of items and an error code of the same type,
and `mipos_q_message_pending` looks at the recorded receiver besides the items.

* `send_clear_iff` — the result of a send tells a refused item from an accepted one,
  unless the item is the 65535th: this number is the error code.
* `pending_agrees_iff` — the test for a message agrees with a receive that does not wait,
  unless a task waits in the empty queue.
* `polling_agrees` — so it does in runs in which nobody waits in the queue.
-/
import Mipos.KernelReceive

namespace Kernel

open Relation

/-! ### The result of a send -/

/-- The result of a send tells whether the item was refused by a full queue, and how many
items there are if it was not. -/
structure SendClear (queue : Queue) (item : UInt32) : Prop where
  refused : (qSend queue item).2.1 = qError ↔ queue.queueCount = queue.queueLimit
  counted : queue.queueCount ≠ queue.queueLimit →
    (qSend queue item).2.1 = (qSend queue item).1.stored.length

theorem length_stored (queue : Queue) : queue.stored.length = queue.queueCount := by
  rw [Queue.stored, RingBuffer.window, List.length_map, List.length_range]

theorem qSend_full {queue : Queue} (hfull : queue.queueCount = queue.queueLimit) (item : UInt32) :
    (qSend queue item).1 = queue ∧ (qSend queue item).2.1 = qError := by
  rw [qSend, if_neg (by omega)]
  exact ⟨rfl, rfl⟩

theorem qSend_room {queue : Queue} (hroom : queue.queueCount < queue.queueLimit) (item : UInt32) :
    (qSend queue item).1.queueCount = queue.queueCount + 1 ∧
      (qSend queue item).2.1 = queue.queueCount + 1 := by
  rw [qSend, if_pos hroom]
  exact ⟨rfl, rfl⟩

/-- A send to a queue that is in order. -/
theorem QueueOk.sendClear_iff {queue : Queue} (h : QueueOk queue) (item : UInt32) :
    SendClear queue item ↔
      ¬(queue.queueCount < queue.queueLimit ∧ queue.queueCount + 1 = qError) := by
  have hle := h.count_le
  rcases Nat.lt_or_eq_of_le hle with hroom | hfull
  · obtain ⟨hcount, hret⟩ := qSend_room hroom item
    constructor
    · rintro hclear ⟨-, herror⟩
      have hfull := hclear.refused.mp (hret.trans herror)
      omega
    · intro hne
      refine ⟨?_, ?_⟩
      · rw [hret]
        omega
      · intro _
        rw [hret, length_stored, hcount]
  · obtain ⟨-, hret⟩ := qSend_full hfull item
    refine iff_of_true ⟨iff_of_true hret hfull, fun hne => absurd hfull hne⟩ ?_
    omega

/-- **The result of a send is clear** in every state of every run, unless the queue has
room for 65535 items and holds 65534 of them. -/
theorem send_clear_iff {queuePool : ℕ → UInt32} {queuePoolLength : ℕ} (hpos : 1 ≤ queuePoolLength)
    (hlen : queuePoolLength ≤ 65535) {r : QueueRun}
    (hrun : ReflTransGen QueueStep (.start queuePool queuePoolLength) r)
    (item : UInt32) :
    SendClear r.queue item ↔ ¬(queuePoolLength = 65535 ∧ r.queue.queueCount = 65534) := by
  have hi := QueueInv.of_run hpos hrun
  rw [hi.ring.sendClear_iff item, hi.limit, qError]
  have hle := hi.ring.count_le
  rw [hi.limit] at hle
  omega

/-- An item for an empty queue with one place, and one more. -/
theorem send_clear_iff_one :
    SendClear (qInit (fun _ => 0) 1) 5 ∧ SendClear (qSend (qInit (fun _ => 0) 1) 5).1 6 := by
  have hrun : ReflTransGen QueueStep (.start (fun _ => 0) 1) _ :=
    .single (.send 1 5 id)
  constructor
  · exact (send_clear_iff (by decide) (by decide) .refl 5).mpr (by decide)
  · exact (send_clear_iff (by decide) (by decide) hrun 6).mpr (by decide)

/-- A queue can be filled up to any number of items. -/
theorem exists_run_count (queuePool : ℕ → UInt32) (len k : ℕ) (hk : k ≤ len) :
    ∃ r, ReflTransGen QueueStep (.start queuePool len) r ∧ r.queue.queueCount = k ∧
      r.queue.queueLimit = len ∧ r.suspended = fun _ => False := by
  induction k with
  | zero => exact ⟨_, .refl, rfl, rfl, rfl⟩
  | succ k ih =>
    obtain ⟨r, hrun, hcount, hlimit, hsusp⟩ := ih (by omega)
    have hroom : r.queue.queueCount < r.queue.queueLimit := by omega
    refine ⟨_, hrun.tail (.send 1 0 (by simp [hsusp])), ?_, ?_, hsusp⟩
    · exact (qSend_room hroom 0).1.trans (congrArg (· + 1) hcount)
    · exact (qSend_limit _ _).trans hlimit

/-- In a queue with room for 65535 items the last one is accepted, and the call returns the
error code. -/
theorem last_send_looks_refused :
    ∃ r, ReflTransGen QueueStep (.start (fun _ => 0) 65535) r ∧
      r.queue.queueCount = 65534 ∧ (qSend r.queue 7).2.1 = qError ∧
      (qSend r.queue 7).1.stored = r.queue.stored ++ [7] := by
  obtain ⟨r, hrun, hcount, hlimit, -⟩ := exists_run_count (fun _ => 0) 65535 65534 (by decide)
  have hroom : r.queue.queueCount < r.queue.queueLimit := by omega
  have hi := QueueInv.of_run (by decide) hrun
  have hstored := (qSend_ok hi.ring 7).2
  rw [Queue.accepts, if_pos hroom] at hstored
  refine ⟨r, hrun, hcount, ?_, hstored⟩
  rw [(qSend_room hroom 7).2, hcount, qError]

/-! ### The test for a message -/

variable {w : ℕ} {env env' : Env} {act : Act} {q : ℕ}

/-- `mipos_q_message_pending` tells whether a receive that does not wait would return 1. -/
def PendingAgrees (env : Env) (q : ℕ) : Prop :=
  qMessagePending (env.queues q) = true ↔
    ∃ item, (qReceive (env.queues q) env.currentTask true false).2 = some (1, item)

theorem qMessagePending_iff (queue : Queue) :
    qMessagePending queue = true ↔ 0 < queue.queueCount ∨ queue.suspendedTid ≠ 0 := by
  simp only [qMessagePending, Bool.not_eq_true', Bool.and_eq_false_iff, beq_eq_false_iff_ne]
  omega

/-- A receive that does not wait delivers an item just if there is one. -/
theorem qReceive_poll_iff (queue : Queue) (currentTask : ℕ) :
    (∃ item, (qReceive queue currentTask true false).2 = some (1, item)) ↔
      0 < queue.queueCount := by
  rw [qReceive, if_neg (by simp)]
  by_cases hpos : 0 < queue.queueCount
  · rw [if_neg (by omega), qTake, if_pos hpos]
    exact iff_of_true ⟨_, rfl⟩ hpos
  · refine iff_of_false ?_ hpos
    rintro ⟨item, hitem⟩
    split at hitem
    · rw [if_neg (by simp), qTake, if_neg hpos] at hitem
      simp at hitem
    · rw [qTake, if_neg hpos] at hitem
      simp at hitem

/-- **The test for a message agrees with a receive** that does not wait, in every state in
which no task is recorded in the empty queue, and in no other. -/
theorem pending_agrees_iff (env : Env) (q : ℕ) :
    PendingAgrees env q ↔
      (env.queues q).suspendedTid = 0 ∨ 0 < (env.queues q).queueCount := by
  rw [PendingAgrees, qMessagePending_iff, qReceive_poll_iff]
  omega

/-- **Where nobody waits, the test agrees**: in runs without a receive that waits in the
queue. -/
theorem polling_agrees (htid : (env.queues q).suspendedTid = 0)
    (hrun : ReflTransGen
      (StepWhere w fun _ act => act ≠ .block (.qReceive q)) env env') : PendingAgrees env' q := by
  have htid' : (env'.queues q).suspendedTid = 0 := by
    induction hrun with
    | refl => exact htid
    | tail _ hstep ih =>
      obtain ⟨act, hs, hact⟩ := hstep
      by_contra hne
      rcases (step_queue hs q).recorded hne with ⟨hsame, -⟩ | ⟨hblock, -, -⟩
      · exact hne (hsame.trans ih)
      · exact hact hblock
  rw [PendingAgrees, qMessagePending_iff, qReceive_poll_iff]
  omega

/-- A task waits in an empty queue: the root task is told that there is a message, and a
receive returns 0. -/
theorem waiter_looks_like_message : ∃ env : Env, runActs 64 boot workerWaits = some env ∧
    env.pc = .running ∧ env.taskContextPtr = 1 ∧
    (env.queues 0).queueCount = 0 ∧ qMessagePending (env.queues 0) = true ∧
    (qReceive (env.queues 0) env.currentTask true false).2 = some (0, none) := by decide +kernel

end Kernel
