/-
The transmitter of the console (`mipos_console.c`).

`mipos_console_send` copies a message into the next slot of `rs232_tx_buf_pool` and puts the
number of the slot into `rs232_tx_queue`; `sender_task` takes a number out of the queue and
puts out the characters of the slot, and may be switched before each of them
(`mipos_bsp_rs232_putc` of the STM32).  There are as many slots as places in the queue, and
a message that is being put out has left the queue but not its slot.

* `Inv` — what has been accepted is put out, or in the slots that the queue names, in order;
* `Inv.send`, `Inv.take`, `Midway.put` — the steps of the tasks keep it;
* `console_transmits` — so do all runs in which a send leaves a slot to the message that is
  being put out;
* `sent_over` — the send that does not is accepted, and overwrites that message.

What the sender task puts out before its loop (the version and the prompt) is left out.
-/
import Mipos.Coroutine
import Mipos.QueueFifo

namespace Console

open Coroutine Kernel RingBuffer Function Relation

def rs232TxQueueLen : ℕ := 8
def rs232TxBufLen : ℕ := 80

/-- `msg_t` -/
structure Msg where
  buffer : ℕ → UInt8
  len : ℕ

/-- What `mipos_console_put_char` reads of the configuration: `end_line_char` and the flag
`CONSOLE_TX_CRLF`. -/
structure Config where
  endLineChar : UInt8
  txCrlf : Bool

/-- The variables of the transmitter, and `output`, the characters given to
`mipos_bsp_rs232_putc`.  For the statements only: the calls of `mipos_console_send` (what
they returned, and the text they were given), the texts that the sender task has taken out
of the queue, and the slot it is at. -/
structure State where
  txQueue : Queue
  txBufPool : ℕ → Msg
  txMsgIdx : ℕ
  output : List UInt8
  sends : List (ℕ × List UInt8)
  taken : List (List UInt8)
  printing : Option ℕ

/-- After `mipos_console_init`. -/
def State.init (queuePool : ℕ → UInt32) (pool : ℕ → Msg) : State where
  txQueue := qInit queuePool rs232TxQueueLen
  txBufPool := pool
  txMsgIdx := 0
  output := []
  sends := []
  taken := []
  printing := none

/-! ### Sending -/

/-- The text of a message: its bytes up to `min(len, 80)` or its first NUL. -/
def sentText (buf : ℕ → UInt8) (len : ℕ) : List UInt8 :=
  ((List.range (min len rs232TxBufLen)).map buf).takeWhile (· ≠ 0)

/-- `memcpy` into a slot. -/
def Msg.copy (msg : Msg) (buf : ℕ → UInt8) (len : ℕ) : Msg :=
  ⟨fun i => if i < len then buf i else msg.buffer i, len⟩

/-- `mipos_console_send`, with the value it returns.  The signal to the sender task is left
out: it may resume at any time. -/
def State.send (s : State) (buf : ℕ → UInt8) (len : ℕ) : State × ℕ :=
  if qCount s.txQueue ≥ rs232TxQueueLen then
    ({ s with sends := s.sends ++ [(0, sentText buf len)] }, 0)
  else
    let text := sentText buf len
    let len := if len > rs232TxBufLen then rs232TxBufLen else len
    ({ s with
      txBufPool := update s.txBufPool s.txMsgIdx
        ((s.txBufPool s.txMsgIdx).copy buf len)
      txQueue := (qSend s.txQueue (UInt32.ofNat s.txMsgIdx)).1
      txMsgIdx := (s.txMsgIdx + 1) % rs232TxQueueLen
      sends := s.sends ++ [(len, text)] }, len)

def consoleSend (buf : ℕ → UInt8) (len : ℕ) : Prog State ℕ :=
  .atomic fun s => some (s.send buf len)

/-! ### The sender task -/

/-- `mipos_bsp_rs232_putc`: the task may be switched until the device is ready. -/
def putc (c : UInt8) : Prog State Unit :=
  .yield (.atomic fun s => some ({ s with output := s.output ++ [c] }, ()))

def puts : List UInt8 → Prog State Unit
  | [] => pure ()
  | c :: cs => do
    putc c
    puts cs

/-- The characters that `mipos_console_put_char` puts out. -/
def emit (cfg : Config) (c : UInt8) : List UInt8 :=
  if c = cfg.endLineChar ∧ cfg.txCrlf then [13, 10] else [c]

def putChar (cfg : Config) (c : UInt8) : Prog State Unit := puts (emit cfg c)

/-- `while (len--)`, with `buffer` at the byte `pos` of the slot. -/
def transmit (cfg : Config) (slot : ℕ) : ℕ → ℕ → Prog State Unit
  | 0, _ => pure ()
  | len + 1, pos => do
    let c ← .atomic fun s => some (s, (s.txBufPool slot).buffer pos)
    if c = 0 then pure ()
    else do
      putChar cfg c
      transmit cfg slot len (pos + 1)

/-- What `transmit` puts out. -/
def textFrom (buffer : ℕ → UInt8) : ℕ → ℕ → List UInt8
  | 0, _ => []
  | len + 1, pos => if buffer pos = 0 then [] else buffer pos :: textFrom buffer len (pos + 1)

def Msg.text (msg : Msg) : List UInt8 := textFrom msg.buffer msg.len 0

/-- The result of `mipos_q_receive`; with an item, the sender is at its message. -/
def State.take (s : State) (queue : Queue) (result : ℕ × Option UInt32) : State :=
  match result.2 with
  | none => { s with txQueue := queue }
  | some item => { s with
      txQueue := queue
      taken := s.taken ++ [(s.txBufPool item.toNat).text]
      printing := some item.toNat }

/-- The rest of the loop's body after `mipos_q_receive`: `mipos_tm_msleep`, or the message. -/
def afterReceive (cfg : Config) (result : ℕ × Option UInt32) : Prog State ℕ :=
  if result.1 ≤ 0 then .yield (pure 0)
  else do
    let slot := (result.2.getD 0).toNat
    let len ← .atomic fun s => some (s, (s.txBufPool slot).len)
    transmit cfg slot len 0
    .atomic fun s => some ({ s with printing := none }, 0)

/-- One pass of the loop of `sender_task`, which is task number `tid`. -/
def senderPass (cfg : Config) (tid : ℕ) : Prog State ℕ := do
  let received ← .atomic fun s =>
    let r := qReceive s.txQueue tid true (qCount s.txQueue ≤ 0)
    match r.2 with
    | none => some ({ s with txQueue := r.1 }, none)
    | some result => some (s.take r.1 result, some result)
  match received with
  | some result => afterReceive cfg result
  | none => .yield (do
      let result ← .atomic fun s =>
        some (s.take (qReceiveResume s.txQueue).1 (qReceiveResume s.txQueue).2,
          (qReceiveResume s.txQueue).2)
      afterReceive cfg result)

/-- What the tasks do: any task sends, and the sender task makes its passes. -/
inductive ConsoleCall
  | send (buf : ℕ → UInt8) (len : ℕ)
  | pass

def consoleCode {ι : Type} (cfg : Config) (tid : ℕ) (_ : ι) : ConsoleCall → Prog State ℕ
  | .send buf len => consoleSend buf len
  | .pass => senderPass cfg tid

/-! ### The invariant -/

/-- The bytes of the accepted messages, in the order of their sends. -/
def acceptedBytes (sends : List (ℕ × List UInt8)) : List UInt8 :=
  ((sends.filter fun p => 0 < p.1).map Prod.snd).flatten

/-- The texts of the messages in the queue. -/
def State.queued (s : State) : List (List UInt8) :=
  window (fun slot => (s.txBufPool slot).text) rs232TxQueueLen s.txQueue.head s.txQueue.queueCount

/-- The accepted messages are those taken and those in the queue, whose slots follow each
other; all that was taken is put out, but for the rest of the message that the sender is at,
which is in the slot before them. -/
structure Inv (cfg : Config) (s : State) : Prop where
  ring : QueueOk s.txQueue
  limit : s.txQueue.queueLimit = rs232TxQueueLen
  idx : s.txMsgIdx = s.txQueue.tail
  items : s.txQueue.stored
    = (window id rs232TxQueueLen s.txQueue.head s.txQueue.queueCount).map UInt32.ofNat
  conserved : acceptedBytes s.sends = s.taken.flatten ++ s.queued.flatten
  idle : s.printing = none → s.output = s.taken.flatten.flatMap (emit cfg)
  busy : ∀ p, s.printing = some p →
    s.txQueue.head = (p + 1) % rs232TxQueueLen ∧ p < rs232TxQueueLen ∧
      s.txQueue.queueCount < rs232TxQueueLen
  sending : ∀ p, s.printing = some p → ∃ before, s.taken = before ++ [(s.txBufPool p).text] ∧
    before.flatten.flatMap (emit cfg) <+: s.output ∧
      s.output <+: s.taken.flatten.flatMap (emit cfg)

/-- What a send leaves to the sender task. -/
structure Frame (s s' : State) : Prop where
  output : s'.output = s.output
  taken : s'.taken = s.taken
  printing : s'.printing = s.printing
  slot : ∀ p, s.printing = some p → s'.txBufPool p = s.txBufPool p

variable {cfg : Config} {s z : State}

theorem Frame.refl (s : State) : Frame s s := ⟨rfl, rfl, rfl, fun _ _ => rfl⟩

theorem Frame.trans {s' : State} (h : Frame s z) (h' : Frame z s') : Frame s s' where
  output := h'.output.trans h.output
  taken := h'.taken.trans h.taken
  printing := h'.printing.trans h.printing
  slot p hp := (h'.slot p (h.printing.trans hp)).trans (h.slot p hp)

theorem Inv.init (cfg : Config) (queuePool : ℕ → UInt32) (pool : ℕ → Msg) :
    Inv cfg (State.init queuePool pool) where
  ring := qInit_ok queuePool (by decide)
  limit := rfl
  idx := rfl
  items := rfl
  conserved := rfl
  idle _ := rfl
  busy _ hp := nomatch hp
  sending _ hp := nomatch hp

/-! ### A send -/

theorem textFrom_eq (buffer : ℕ → UInt8) (len pos : ℕ) :
    textFrom buffer len pos
      = ((List.range len).map fun i => buffer (pos + i)).takeWhile (· ≠ 0) := by
  induction len generalizing pos with
  | zero => rfl
  | succ len ih =>
    rw [textFrom, ih, List.range_succ_eq_map, List.map_cons, List.map_map, List.takeWhile_cons]
    have hshift : (fun i => buffer (pos + 1 + i)) = (fun i => buffer (pos + i)) ∘ Nat.succ := by
      funext i
      show buffer (pos + 1 + i) = buffer (pos + (i + 1))
      rw [Nat.add_assoc, Nat.add_comm 1 i]
    by_cases hzero : buffer pos = 0
    · simp [hzero]
    · simp [hzero, hshift]

/-- The slot has the text that was sent. -/
theorem copy_text (msg : Msg) (buf : ℕ → UInt8) (len : ℕ) :
    (msg.copy buf (min len rs232TxBufLen)).text = sentText buf len := by
  rw [Msg.text, textFrom_eq, sentText, Msg.copy]
  congr 1
  refine List.map_congr_left fun i hi => ?_
  rw [Nat.zero_add]
  exact if_pos (List.mem_range.mp hi)

theorem acceptedBytes_append (sends : List (ℕ × List UInt8)) {ret : ℕ} {text : List UInt8}
    (hempty : ret = 0 → text = []) :
    acceptedBytes (sends ++ [(ret, text)]) = acceptedBytes sends ++ text := by
  rw [acceptedBytes, acceptedBytes, List.filter_append, List.map_append, List.flatten_append]
  congr 1
  rcases Nat.eq_zero_or_pos ret with hzero | hpos
  · simp [hzero, hempty hzero]
  · simp [hpos]

theorem acceptedBytes_refused (sends : List (ℕ × List UInt8)) (text : List UInt8) :
    acceptedBytes (sends ++ [(0, text)]) = acceptedBytes sends := by
  simp [acceptedBytes, List.filter_append]

/-- A send that is accepted leaves a slot to the message that the sender is at. -/
def LeavesSlot (s : State) : Prop :=
  s.printing ≠ none → s.txQueue.queueCount + 1 ≠ rs232TxQueueLen

/-- **A send keeps the invariant**, and what the sender is at. -/
theorem Inv.send (h : Inv cfg s) (hslot : LeavesSlot s) (buf : ℕ → UInt8) (len : ℕ) :
    Inv cfg (s.send buf len).1 ∧ Frame s (s.send buf len).1 := by
  rw [State.send]
  by_cases hfull : qCount s.txQueue ≥ rs232TxQueueLen
  · rw [if_pos hfull]
    refine ⟨⟨h.ring, h.limit, h.idx, h.items, ?_, h.idle, h.busy, h.sending⟩, rfl, rfl, rfl,
      fun _ _ => rfl⟩
    exact (acceptedBytes_refused s.sends _).trans h.conserved
  rw [if_neg hfull]
  have hroom : s.txQueue.queueCount < s.txQueue.queueLimit := by
    rw [h.limit]
    exact Nat.lt_of_not_le hfull
  have hroom8 : s.txQueue.queueCount < rs232TxQueueLen := h.limit ▸ hroom
  have hmin : (if len > rs232TxBufLen then rs232TxBufLen else len) = min len rs232TxBufLen := by
    split
    · omega
    · omega
  have htail : s.txMsgIdx = (s.txQueue.head + s.txQueue.queueCount) % rs232TxQueueLen := by
    rw [h.idx, h.ring.tail_eq, h.limit]
  -- the slot of the new message is not the one that the sender is at
  have hother : ∀ p, s.printing = some p → p ≠ s.txMsgIdx := by
    intro p hp
    obtain ⟨hhead, hp8, hcount⟩ := h.busy p hp
    have hne := hslot (by simp [hp])
    rw [htail, hhead]
    unfold rs232TxQueueLen at *
    omega
  have hqueue : (qSend s.txQueue (UInt32.ofNat s.txMsgIdx)).1
      = { s.txQueue with
          queueCount := s.txQueue.queueCount + 1
          item := update s.txQueue.item s.txQueue.tail (UInt32.ofNat s.txMsgIdx)
          tail := (s.txQueue.tail + 1) % s.txQueue.queueLimit } := by
    rw [qSend, if_pos hroom]
  obtain ⟨hring, hstored⟩ := qSend_ok h.ring (UInt32.ofNat s.txMsgIdx)
  rw [Queue.accepts, if_pos hroom] at hstored
  simp only [hmin]
  rw [hqueue] at hring hstored ⊢
  have hpool : ∀ p, s.printing = some p → update s.txBufPool s.txMsgIdx
      ((s.txBufPool s.txMsgIdx).copy buf (min len rs232TxBufLen)) p = s.txBufPool p :=
    fun p hp => update_of_ne (hother p hp) _ _
  refine ⟨⟨hring, h.limit, ?_, ?_, ?_, h.idle, ?_, ?_⟩, rfl, rfl, rfl, hpool⟩
  · show (s.txMsgIdx + 1) % rs232TxQueueLen = (s.txQueue.tail + 1) % s.txQueue.queueLimit
    rw [h.idx, h.limit]
  · rw [hstored, h.items, htail]
    show _ = (window id rs232TxQueueLen s.txQueue.head (s.txQueue.queueCount + 1)).map _
    rw [window_succ, List.map_append]
    rfl
  · -- the text goes to the end of what is queued
    have htext : ∀ slot, (update s.txBufPool s.txMsgIdx
        ((s.txBufPool s.txMsgIdx).copy buf (min len rs232TxBufLen)) slot).text
        = update (fun slot => (s.txBufPool slot).text) s.txMsgIdx (sentText buf len)
          slot := by
      intro slot
      rcases eq_or_ne slot s.txMsgIdx with rfl | hne
      · rw [update_self, update_self, copy_text]
      · rw [update_of_ne hne, update_of_ne hne]
    show acceptedBytes (s.sends ++ [(min len rs232TxBufLen, sentText buf len)])
      = s.taken.flatten ++ (window _ rs232TxQueueLen s.txQueue.head
        (s.txQueue.queueCount + 1)).flatten
    rw [funext htext, htail, window_push hroom8, acceptedBytes_append, h.conserved,
      List.flatten_append, List.append_assoc]
    · simp [State.queued]
    · intro hzero
      rw [sentText, hzero]
      rfl
  · intro p hp
    obtain ⟨hhead, hp8, hcount⟩ := h.busy p hp
    have hne := hslot (by simp [show s.printing = some p from hp])
    exact ⟨hhead, hp8, Nat.lt_of_le_of_ne hcount hne⟩
  · intro p hp
    obtain ⟨before, htaken, hout⟩ := h.sending p hp
    refine ⟨before, htaken.trans ?_, hout⟩
    exact congrArg (fun msg : Msg => before ++ [msg.text]) (hpool p hp).symm

/-! ### A message that is being put out -/

/-- The sender is at the message `msg` in slot `p`: the messages `before` are put out, and
of this one the characters `part`. -/
structure Midway (cfg : Config) (p : ℕ) (msg : Msg) (before : List (List UInt8))
    (part : List UInt8) (s : State) : Prop where
  inv : Inv cfg s
  printing : s.printing = some p
  slot : s.txBufPool p = msg
  taken : s.taken = before ++ [msg.text]
  output : s.output = before.flatten.flatMap (emit cfg) ++ part

section Midway

variable {p : ℕ} {msg : Msg} {before : List (List UInt8)} {part : List UInt8}

theorem Midway.frame (h : Midway cfg p msg before part s) (hinv : Inv cfg z) (hframe : Frame s z) :
    Midway cfg p msg before part z where
  inv := hinv
  printing := hframe.printing.trans h.printing
  slot := (hframe.slot p h.printing).trans h.slot
  taken := hframe.taken.trans h.taken
  output := hframe.output.trans h.output

/-- What is put out in the end, if the message is complete. -/
theorem Midway.whole (h : Midway cfg p msg before part s) :
    s.taken.flatten.flatMap (emit cfg)
      = before.flatten.flatMap (emit cfg) ++ msg.text.flatMap (emit cfg) := by
  rw [h.taken, List.flatten_append, List.flatMap_append, List.flatten_singleton]

/-- **The next character** of the message. -/
theorem Midway.put (h : Midway cfg p msg before part s) {c : UInt8}
    (hc : part ++ [c] <+: msg.text.flatMap (emit cfg)) :
    Midway cfg p msg before (part ++ [c]) { s with output := s.output ++ [c] } := by
  have hout : s.output ++ [c] = before.flatten.flatMap (emit cfg) ++ (part ++ [c]) := by
    rw [h.output, List.append_assoc]
  refine ⟨⟨h.inv.ring, h.inv.limit, h.inv.idx, h.inv.items, h.inv.conserved, ?_, h.inv.busy, ?_⟩,
    h.printing, h.slot, h.taken, hout⟩
  · exact fun hnone => nomatch h.printing.symm.trans hnone
  · intro q hq
    obtain rfl : p = q := Option.some.inj (h.printing.symm.trans hq)
    refine ⟨before, h.slot ▸ h.taken, ?_, ?_⟩
    · show before.flatten.flatMap (emit cfg) <+: s.output ++ [c]
      rw [hout]
      exact List.prefix_append _ _
    · show s.output ++ [c] <+: s.taken.flatten.flatMap (emit cfg)
      rw [hout, h.whole]
      exact (List.prefix_append_right_inj _).mpr hc

/-- **The end** of the message. -/
theorem Midway.finish (h : Midway cfg p msg before (msg.text.flatMap (emit cfg)) s) :
    Inv cfg { s with printing := none } where
  ring := h.inv.ring
  limit := h.inv.limit
  idx := h.inv.idx
  items := h.inv.items
  conserved := h.inv.conserved
  idle _ := h.output.trans h.whole.symm
  busy _ hp := nomatch hp
  sending _ hp := nomatch hp

end Midway

/-! ### The next message -/

theorem Inv.setSuspended (h : Inv cfg s) (tid : ℕ) :
    Inv cfg { s with txQueue := { s.txQueue with suspendedTid := tid } } :=
  ⟨h.ring.setSuspended tid, h.limit, h.idx, h.items, h.conserved, h.idle, h.busy, h.sending⟩

/-- **A receive** finds the queue empty, or starts with the oldest message. -/
theorem Inv.take (h : Inv cfg s) (hidle : s.printing = none) :
    ((qTake s.txQueue).2 = (0, none) ∧ (qTake s.txQueue).1 = s.txQueue) ∨
      ∃ item, (qTake s.txQueue).2 = (1, some item) ∧
        Midway cfg item.toNat (s.txBufPool item.toNat) s.taken []
          (s.take (qTake s.txQueue).1 (1, some item)) := by
  obtain ⟨hring, hstored, -⟩ := qTake_ok h.ring
  by_cases hpos : s.txQueue.queueCount > 0
  swap
  · left
    rw [qTake, if_neg hpos]
    exact ⟨rfl, rfl⟩
  right
  have htake : qTake s.txQueue = ({ s.txQueue with
      head := (s.txQueue.head + 1) % s.txQueue.queueLimit
      queueCount := s.txQueue.queueCount - 1 }, 1, some (s.txQueue.item s.txQueue.head)) := by
    rw [qTake, if_pos hpos]
  rw [htake] at hring hstored ⊢
  have hhead : s.txQueue.head < rs232TxQueueLen := h.limit ▸ h.ring.head_lt
  have hle : s.txQueue.queueCount ≤ rs232TxQueueLen := h.limit ▸ h.ring.count_le
  have hwindow : ∀ {α : Type} (f : ℕ → α),
      window f rs232TxQueueLen s.txQueue.head s.txQueue.queueCount
        = f s.txQueue.head :: window f rs232TxQueueLen
          ((s.txQueue.head + 1) % s.txQueue.queueLimit) (s.txQueue.queueCount - 1) := by
    intro α f
    obtain ⟨n, hn⟩ : ∃ n, s.txQueue.queueCount = n + 1 := ⟨s.txQueue.queueCount - 1, by omega⟩
    rw [hn, window_pop, Nat.mod_eq_of_lt hhead, h.limit, Nat.add_sub_cancel]
  -- the item at the head names the slot at the head
  have hitems := hstored.symm.trans h.items
  rw [hwindow, List.map_cons] at hitems
  obtain ⟨hitem, hrest⟩ := List.cons.inj hitems
  have hslot : (s.txQueue.item s.txQueue.head).toNat = s.txQueue.head := by
    rw [hitem]
    exact UInt32.toNat_ofNat_of_lt' (Nat.lt_trans hhead (by decide))
  refine ⟨_, rfl, ⟨⟨hring, h.limit, h.idx, hrest, ?_, ?_, ?_, ?_⟩, rfl, rfl, rfl, ?_⟩⟩
  · show acceptedBytes s.sends
      = (s.taken ++ [(s.txBufPool (s.txQueue.item s.txQueue.head).toNat).text]).flatten
        ++ (window (fun slot => (s.txBufPool slot).text) rs232TxQueueLen
          ((s.txQueue.head + 1) % s.txQueue.queueLimit) (s.txQueue.queueCount - 1)).flatten
    rw [h.conserved, State.queued, hwindow, hslot]
    simp
  · intro hnone
    cases hnone
  · rintro q hq
    obtain rfl := Option.some.inj hq
    rw [hslot]
    refine ⟨congrArg ((s.txQueue.head + 1) % ·) h.limit, hhead, ?_⟩
    show s.txQueue.queueCount - 1 < rs232TxQueueLen
    omega
  · rintro q hq
    obtain rfl := Option.some.inj hq
    refine ⟨s.taken, rfl, ?_, ?_⟩
    · show _ <+: s.output
      exact h.idle hidle ▸ List.prefix_rfl
    · show s.output <+: (s.taken ++ [_]).flatten.flatMap (emit cfg)
      rw [h.idle hidle, List.flatten_append, List.flatMap_append]
      exact List.prefix_append _ _
  · exact (h.idle hidle).trans (List.append_nil _).symm

/-! ### The tasks together -/

section Tasks

variable {ι : Type} {sender : ι}

/-- What the other tasks may do to task `i`: the sender keeps what it is at. -/
def Rely (cfg : Config) (sender i : ι) (s z : State) : Prop :=
  i = sender → (Inv cfg s → Inv cfg z) ∧ Frame s z

/-- What task `i` does. -/
def Guarantee (cfg : Config) (sender i : ι) (_ : ConsoleCall) (s z : State) : Prop :=
  (Inv cfg s → Inv cfg z) ∧ (i ≠ sender → Frame s z)

/-- The sender is at no message between its passes. -/
def Between (sender i : ι) (_ : ℕ) (s : State) : Prop := i = sender → s.printing = none

/-- Only the sender makes passes, and the other tasks send only where a slot is left. -/
def MaySend (sender : ι) (s : State) (i : ι) : ConsoleCall → Prop
  | .send _ _ => i ≠ sender ∧ LeavesSlot s
  | .pass => i = sender

instance (s : State) : Decidable (LeavesSlot s) :=
  inferInstanceAs (Decidable (s.printing ≠ none → s.txQueue.queueCount + 1 ≠ rs232TxQueueLen))

instance [DecidableEq ι] (s : State) (i : ι) :
    (c : ConsoleCall) → Decidable (MaySend sender s i c)
  | .send _ _ => inferInstanceAs (Decidable (i ≠ sender ∧ LeavesSlot s))
  | .pass => inferInstanceAs (Decidable (i = sender))

section Sender

variable {c : ConsoleCall} {p : ℕ} {msg : Msg} {before : List (List UInt8)}

/-- An action of the sender that ends in the invariant. -/
theorem safe_act {α β : Type} {Q : β → State → Prop} {f : State → Option (State × α)}
    {k : α → Prog State β} {a : α} (hf : f s = some (z, a)) (hinv : Inv cfg z)
    (hk : Safe True (Rely cfg sender sender) (Guarantee cfg sender sender c) Q (k a) z) :
    Safe True (Rely cfg sender sender) (Guarantee cfg sender sender c) Q (Prog.atomic f >>= k) s :=
  Safe.bind (Safe.atomic hf ⟨fun _ => hinv, fun hne => absurd rfl hne⟩ hk)

/-- The characters `cs` are put out one after the other. -/
theorem safe_puts (cs : List UInt8) :
    ∀ {part : List UInt8} {s : State}, Midway cfg p msg before part s →
      part ++ cs <+: msg.text.flatMap (emit cfg) →
      Safe True (Rely cfg sender sender) (Guarantee cfg sender sender c)
        (fun _ z => Midway cfg p msg before (part ++ cs) z) (puts cs) s := by
  induction cs with
  | nil =>
    intro part s hmid _
    exact (List.append_nil part).symm ▸ hmid
  | cons ch cs ih =>
    intro part s hmid hcs
    rw [List.append_cons] at hcs ⊢
    refine Safe.bind fun z hz => ?_
    have hmid' := (hmid.frame ((hz rfl).1 hmid.inv) (hz rfl).2).put
      ((List.prefix_append _ cs).trans hcs)
    exact Safe.atomic rfl ⟨fun _ => hmid'.inv, fun hne => absurd rfl hne⟩ (ih hmid' hcs)

/-- The loop puts out the rest of the message. -/
theorem safe_transmit (len : ℕ) :
    ∀ {pos : ℕ} {told : List UInt8} {s : State}, msg.text = told ++ textFrom msg.buffer len pos →
      Midway cfg p msg before (told.flatMap (emit cfg)) s →
      Safe True (Rely cfg sender sender) (Guarantee cfg sender sender c)
        (fun _ z => Midway cfg p msg before (msg.text.flatMap (emit cfg)) z)
        (transmit cfg p len pos) s := by
  induction len with
  | zero =>
    intro pos told s htext hmid
    rw [textFrom, List.append_nil] at htext
    exact htext ▸ hmid
  | succ len ih =>
    intro pos told s htext hmid
    refine safe_act rfl hmid.inv ?_
    rw [hmid.slot]
    rw [textFrom] at htext
    by_cases hzero : msg.buffer pos = 0
    · rw [if_pos hzero, List.append_nil] at htext
      rw [if_pos hzero]
      exact htext ▸ hmid
    · rw [if_neg hzero, List.append_cons] at htext
      rw [if_neg hzero]
      -- the character, and the rest of the loop
      have hnext : (told ++ [msg.buffer pos]).flatMap (emit cfg)
          = told.flatMap (emit cfg) ++ emit cfg (msg.buffer pos) := by
        rw [List.flatMap_append, List.flatMap_singleton]
      have hprefix : told.flatMap (emit cfg) ++ emit cfg (msg.buffer pos)
          <+: msg.text.flatMap (emit cfg) := by
        rw [← hnext, htext]
        exact ⟨_, List.flatMap_append.symm⟩
      refine (safe_puts _ hmid hprefix).andThen fun _ z hz => ?_
      rw [← hnext] at hz
      exact ih htext hz

/-- The message is put out, and the pass is over. -/
theorem safe_message {item : UInt32}
    (hmid : Midway cfg item.toNat (s.txBufPool item.toNat) before [] s) :
    Safe True (Rely cfg sender sender) (Guarantee cfg sender sender c) (Between sender sender)
      (afterReceive cfg (1, some item)) s := by
  rw [afterReceive, if_neg (Nat.not_succ_le_zero 0)]
  refine safe_act rfl hmid.inv ?_
  refine (safe_transmit _ (List.nil_append _).symm hmid).andThen fun _ z hz => ?_
  exact Safe.atomic rfl ⟨fun _ => hz.finish, fun hne => absurd rfl hne⟩ fun _ => rfl

theorem Inv.taken (h : Inv cfg s) (hidle : s.printing = none) :
    Inv cfg (s.take (qTake s.txQueue).1 (qTake s.txQueue).2) := by
  rcases h.take hidle with ⟨hnone, hqueue⟩ | ⟨item, hsome, hmid⟩
  · rw [hnone, hqueue]
    exact h
  · rw [hsome]
    exact hmid.inv

/-- What follows a receive, with or without a message. -/
theorem safe_taken (h : Inv cfg s) (hidle : s.printing = none) :
    Safe True (Rely cfg sender sender) (Guarantee cfg sender sender c) (Between sender sender)
      (afterReceive cfg (qTake s.txQueue).2) (s.take (qTake s.txQueue).1 (qTake s.txQueue).2) := by
  rcases h.take hidle with ⟨hnone, hqueue⟩ | ⟨item, hsome, hmid⟩
  · rw [hnone, hqueue, afterReceive, if_pos (le_refl _)]
    exact fun z hz _ => (hz rfl).2.printing.trans hidle
  · rw [hsome]
    exact safe_message hmid

/-- **A pass of the sender.** -/
theorem safe_pass (tid : ℕ) (h : Inv cfg s) (hidle : s.printing = none) :
    Safe True (Rely cfg sender sender) (Guarantee cfg sender sender c) (Between sender sender)
      (senderPass cfg tid) s := by
  rw [senderPass]
  by_cases hwait : s.txQueue.queueCount = 0 ∧ s.txQueue.suspendedTid = 0
  · -- the queue is empty: the sender is suspended, and takes what there is when it resumes
    have hrecv : qReceive s.txQueue tid true (decide (qCount s.txQueue ≤ 0))
        = ({ s.txQueue with suspendedTid := tid }, none) := by
      simp [qReceive, qCount, hwait.1, hwait.2]
    refine safe_act (a := none) (by rw [hrecv]) (h.setSuspended tid) ?_
    intro z hz
    have hinv := ((hz rfl).1 (h.setSuspended tid)).setSuspended 0
    have hnone := (hz rfl).2.printing.trans hidle
    exact safe_act rfl (hinv.taken hnone) (safe_taken hinv hnone)
  · have hrecv : qReceive s.txQueue tid true (decide (qCount s.txQueue ≤ 0))
        = ((qTake s.txQueue).1, some (qTake s.txQueue).2) := by
      simp [qReceive, hwait]
    exact safe_act (a := some (qTake s.txQueue).2) (by rw [hrecv]) (h.taken hidle)
      (safe_taken h hidle)

end Sender

/-- **The tasks fit together.** -/
theorem console_relyGuarantee (cfg : Config) (tid : ℕ) (sender : ι) :
    RelyGuarantee True (consoleCode cfg tid) (MaySend sender) (Inv cfg) (Rely cfg sender)
      (Guarantee cfg sender) (Between sender) where
  refl _ s _ := ⟨id, Frame.refl s⟩
  trans hxy hyz hi := ⟨fun h => (hyz hi).1 ((hxy hi).1 h), (hxy hi).2.trans (hyz hi).2⟩
  compat hij _ hG hi := ⟨hG.1, hG.2 fun hj => hij (hi.trans hj.symm)⟩
  inv h hG := hG.1 h
  stable hQ hR hi := (hR hi).2.printing.trans (hQ hi)
  starts {i c a s} h hQ hmay := by
    cases c with
    | send buf len =>
      obtain ⟨hinv, hframe⟩ := h.send hmay.2 buf len
      exact Safe.atomic rfl ⟨fun _ => hinv, fun _ => hframe⟩ fun hi => absurd hi hmay.1
    | pass =>
      obtain rfl : i = sender := hmay
      exact safe_pass tid h (hQ rfl)

end Tasks

/-! ### The results -/

/-- **The console transmits what it accepts**, in every run in which a send leaves a slot to
the message that is being put out.  The accepted messages, in the order of their sends, are
those the sender has taken and those in the slots that the queue names; the output is all
that was taken, but for the rest of the message that the sender is at, whose text is still in
its slot. -/
theorem console_transmits {ι : Type} [DecidableEq ι] {cfg : Config} {tid : ℕ} {sender first : ι}
    {queuePool : ℕ → UInt32} {msgs : ℕ → Msg} {pool : Pool ι ConsoleCall State ℕ}
    (hrun : ReflTransGen (PoolStep (consoleCode cfg tid) (MaySend sender))
      (Pool.idle (State.init queuePool msgs) first 0) pool) :
    acceptedBytes pool.shared.sends = pool.shared.taken.flatten ++
        (pool.shared.txQueue.stored.map fun item =>
          (pool.shared.txBufPool item.toNat).text).flatten ∧
      (pool.shared.printing = none →
        pool.shared.output = pool.shared.taken.flatten.flatMap (emit cfg)) ∧
      (∀ p, pool.shared.printing = some p →
        ∃ before, pool.shared.taken = before ++ [(pool.shared.txBufPool p).text] ∧
          before.flatten.flatMap (emit cfg) <+: pool.shared.output ∧
          pool.shared.output <+: pool.shared.taken.flatten.flatMap (emit cfg)) ∧
      pool.shared.output <+: (acceptedBytes pool.shared.sends).flatMap (emit cfg) := by
  have hok := (console_relyGuarantee cfg tid sender).run_ok
    (Pool.idle_ok (Inv.init cfg queuePool msgs) fun _ _ => rfl) hrun
  have h := hok.inv
  have hqueued : pool.shared.queued = pool.shared.txQueue.stored.map fun item =>
      (pool.shared.txBufPool item.toNat).text := by
    rw [h.items, List.map_map, State.queued, window, window, List.map_map]
    refine List.map_congr_left fun i _ => ?_
    show _ = (pool.shared.txBufPool (UInt32.ofNat (_ % rs232TxQueueLen)).toNat).text
    rw [UInt32.toNat_ofNat_of_lt' (Nat.lt_trans (Nat.mod_lt _ (by decide)) (by decide))]
  refine ⟨hqueued ▸ h.conserved, h.idle, h.sending, ?_⟩
  have htaken : pool.shared.output <+: pool.shared.taken.flatten.flatMap (emit cfg) := by
    cases hprinting : pool.shared.printing with
    | none => exact h.idle hprinting ▸ List.prefix_rfl
    | some p =>
      obtain ⟨before, -, -, hprefix⟩ := h.sending p hprinting
      exact hprefix
  rw [h.conserved, List.flatMap_append]
  exact htaken.trans (List.prefix_append _ _)

/-- A send of the two characters `ab`, or of `xy`. -/
def sendAb : ConsoleCall := .send (fun i => [97, 98].getD i 0) 2

def sendXy : ConsoleCall := .send (fun i => [120, 121].getD i 0) 2

/-- `xy` is sent while `a` is put out. -/
theorem console_transmits_two :
    ∃ pool : Pool (Fin 2) ConsoleCall State ℕ,
      acceptedBytes pool.shared.sends = [97, 98, 120, 121] ∧ pool.shared.output = [97] ∧
      pool.shared.output <+: (acceptedBytes pool.shared.sends).flatMap (emit ⟨10, false⟩) := by
  have heval : ∃ pool, (Pool.idle (State.init (fun _ => 0) fun _ => ⟨fun _ => 0, 0⟩) (1 : Fin 2)
        0).runActs (consoleCode ⟨10, false⟩ 3) (fun s i c => decide (MaySend 0 s i c))
        [.start sendAb, .run, .switch 0, .start .pass, .run, .run, .run, .switch 1, .start sendXy,
          .run, .switch 0, .run, .run] = some pool ∧
      acceptedBytes pool.shared.sends = [97, 98, 120, 121] ∧
      pool.shared.output = [97] := by decide +kernel
  obtain ⟨pool, hacts, haccepted, houtput⟩ := heval
  have hrun := run_of_runActs (fun s i c => of_decide_eq_true) hacts
  exact ⟨pool, haccepted, houtput, (console_transmits hrun).2.2.2⟩

/-- Only the sender makes passes, and the other tasks send as they like. -/
def InOwnTask {ι : Type} (sender : ι) (_ : State) (i : ι) : ConsoleCall → Prop
  | .send _ _ => i ≠ sender
  | .pass => i = sender

instance {ι : Type} [DecidableEq ι] (sender : ι) (s : State) (i : ι) :
    (c : ConsoleCall) → Decidable (InOwnTask sender s i c)
  | .send _ _ => inferInstanceAs (Decidable (i ≠ sender))
  | .pass => inferInstanceAs (Decidable (i = sender))

/-- **The ninth message overwrites the first**: `ab` has left the queue and its first
character is put out; eight sends of `xy` are accepted, the last one into the slot of `ab`,
and the next character is `y`. -/
theorem sent_over :
    ∃ pool : Pool (Fin 2) ConsoleCall State ℕ,
      ReflTransGen (PoolStep (consoleCode ⟨10, false⟩ 3) (InOwnTask 0))
        (Pool.idle (State.init (fun _ => 0) fun _ => ⟨fun _ => 0, 0⟩) 1 0) pool ∧
      pool.shared.sends = (2, [97, 98]) :: List.replicate 8 (2, [120, 121]) ∧
      pool.shared.output = [97, 121] := by
  have heval : ∃ pool, (Pool.idle (State.init (fun _ => 0) fun _ => ⟨fun _ => 0, 0⟩) (1 : Fin 2)
        0).runActs (consoleCode ⟨10, false⟩ 3) (fun s i c => decide (InOwnTask 0 s i c))
        ([Action.start sendAb, .run, .switch 0, .start .pass, .run, .run, .run, .switch 1] ++
        (List.replicate 8 [Action.start sendXy, .run]).flatten ++
        [Action.switch 0, .run, .run, .run, .run, .run]) = some pool ∧
      pool.shared.sends = (2, [97, 98]) :: List.replicate 8 (2, [120, 121]) ∧
      pool.shared.output = [97, 121] := by decide +kernel
  obtain ⟨pool, hacts, hsends, houtput⟩ := heval
  exact ⟨pool, run_of_runActs (fun s i c => of_decide_eq_true) hacts, hsends, houtput⟩

end Console
