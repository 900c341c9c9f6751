/-
Software timers (`mipos_timer.c` and the timer part of `mipos_start`), as the code
computes them.

The functions work on the timer fields of `mipos_kernel_t`.  The bitmap is a
function from identifiers to bits; the counter has `w` bits.
-/
import Mathlib.Algebra.Order.Ring.Nat
import Mathlib.Data.Int.Notation
import Mathlib.Data.Nat.Notation
import Mathlib.Logic.Function.Basic

namespace Kernel

def maxTimersNo : ℕ := 4

/-- `mipos_timer_t`, with its flags. -/
structure Timer where
  handlerOnExpireCbk : Option ℕ
  handlerOnCancelCbk : Option ℕ
  context : ℕ
  rtcTimeout : ℕ
  periodic : Bool
  expired : Bool
  cancelled : Bool
  interval : ℕ
  deriving DecidableEq, Repr

/-- The timer fields of `mipos_kernel_t`. -/
structure Timers where
  nextRtcTimeout : ℕ
  timerBitmap : ℕ → Bool
  timerTable : ℕ → Timer

namespace Timers

def setTimer (timers : Timers) (id : ℕ) (timer : Timer) : Timers :=
  { timers with timerTable := Function.update timers.timerTable id timer }

def setBit (timers : Timers) (id : ℕ) (bit : Bool) : Timers :=
  { timers with timerBitmap := Function.update timers.timerBitmap id bit }

/-- `if (!next || next > timeout) next = timeout`. -/
def lowerNext (timers : Timers) (timeout : ℕ) : Timers :=
  if timers.nextRtcTimeout = 0 ∨ timers.nextRtcTimeout > timeout then
    { timers with nextRtcTimeout := timeout }
  else timers

/-- `mipos_timer_start`; returns the identifier, or `none` for `-1`. -/
def timerStart (w : ℕ) (timers : Timers) (rtcCounter : ℕ)
    (onExpireHandler onCancelHandler : Option ℕ) (interval context : ℕ) (periodic : Bool) :
    Timers × Option ℕ :=
  if onExpireHandler = none then (timers, none)
  else
    match (List.range maxTimersNo).find? fun id =>
      (timers.timerTable id).handlerOnExpireCbk.isNone with
    | none => (timers, none)
    | some id =>
      let timeout := (rtcCounter + interval) % 2 ^ w
      (((timers.setBit id true).lowerNext timeout).setTimer id
        { handlerOnExpireCbk := onExpireHandler
          handlerOnCancelCbk := onCancelHandler
          context := context
          rtcTimeout := timeout
          periodic := periodic
          expired := false
          cancelled := false
          interval := interval }, some id)

/-- The identifier of a slot of the table. -/
def validId (id : ℤ) : Option ℕ :=
  if id < 0 ∨ id ≥ maxTimersNo then none else some id.toNat

/-- `mipos_timer_cancel`; the result says whether it returned 0. -/
def timerCancel (timers : Timers) (id : ℤ) : Timers × Bool :=
  match validId id with
  | none => (timers, false)
  | some id =>
    if timers.timerBitmap id then
      ({ timers.setTimer id { timers.timerTable id with cancelled := true } with
        nextRtcTimeout := 0 }, true)
    else (timers, false)

/-- `mipos_timer_delete`; the interval stays. -/
def timerDelete (timers : Timers) (id : ℤ) : Timers × Bool :=
  match validId id with
  | none => (timers, false)
  | some id =>
    ((timers.setTimer id { timers.timerTable id with
      handlerOnExpireCbk := none
      handlerOnCancelCbk := none
      context := 0
      rtcTimeout := 0
      periodic := false
      expired := false
      cancelled := false }).setBit id false, true)

/-- `mipos_timer_restart`, which does not compare the identifier with the size of
the table: beyond it the call is undefined. -/
def timerRestart (w : ℕ) (timers : Timers) (rtcCounter : ℕ) (id : ℤ) (newInterval : ℕ) :
    Option (Timers × Bool) :=
  if id < 0 then some (timers, false)
  else if id ≥ maxTimersNo then none
  else
    let timer := timers.timerTable id.toNat
    if timer.periodic = false ∧ timer.expired then
      let interval := if newInterval > 0 then newInterval else timer.interval
      some (timers.setTimer id.toNat { timer with
        expired := false
        interval := interval
        rtcTimeout := (rtcCounter + interval) % 2 ^ w }, true)
    else some (timers, false)

/-! ### The pass over the timers -/

/-- Whether the scheduler looks at the timers in this epoch. -/
def due (timers : Timers) (rtcCounter : ℕ) : Bool :=
  (List.range maxTimersNo).any timers.timerBitmap &&
    (timers.nextRtcTimeout == 0 || decide (rtcCounter ≥ timers.nextRtcTimeout))

/-- What the first loop does with a timer before it calls a handler. -/
inductive Visit
  | pass
  | cancel
  | expire
  deriving DecidableEq, Repr

def visit (timers : Timers) (rtcCounter id : ℕ) : Visit :=
  if timers.timerBitmap id then
    if (timers.timerTable id).cancelled then .cancel
    else if (timers.timerTable id).rtcTimeout ≤ rtcCounter then .expire
    else .pass
  else .pass

/-- The timer is marked as expired, and the next timeout is invalidated. -/
def markExpired (timers : Timers) (id : ℕ) : Timers :=
  { timers.setTimer id { timers.timerTable id with expired := true } with nextRtcTimeout := 0 }

/-- After the on-expire handler has returned. -/
def afterExpire (w : ℕ) (timers : Timers) (rtcCounter id : ℕ) : Timers :=
  let timer := timers.timerTable id
  if timer.periodic = false then timers.setBit id false
  else timers.setTimer id { timer with
    expired := false
    rtcTimeout := (rtcCounter + timer.interval) % 2 ^ w }

/-- The second loop: selects the next expiring timer. -/
def selectNext (timers : Timers) : Timers :=
  (List.range maxTimersNo).foldl (fun timers id =>
    if timers.timerBitmap id then timers.lowerNext (timers.timerTable id).rtcTimeout
    else timers) timers

end Timers

end Kernel
