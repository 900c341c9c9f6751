/-
The clock of the QEMU ARM port.

`SysTick_Handler` counts the ticks in `systick_pending_ticks`, and in every epoch of the scheduler
`mipos_bsp_qemu_arm_rtc_epoch` moves them to `rtc_counter`.  The handler runs between any two
steps of that, unless the interrupts are masked.
-/
import Mathlib.Algebra.Order.Ring.Nat
import Mathlib.Logic.Relation

namespace SysTick

open Relation

/-- Where `mipos_bsp_qemu_arm_rtc_epoch` is. -/
inductive Pc
  | start
  | entered
  | copied
  | cleared
  | left

def Pc.masked : Pc → Bool
  | .start | .left => false
  | .entered | .copied | .cleared => true

structure State where
  pc : Pc
  systickPendingTicks : ℕ
  ticks : ℕ
  rtcCounter : ℕ
  /-- A tick has fallen due, and its interrupt waits. -/
  pended : Bool
  elapsed : ℕ

/-- The next step of `mipos_bsp_qemu_arm_rtc_epoch`; `rtc_counter` has `w` bits. -/
def State.epoch (w : ℕ) (s : State) : State :=
  match s.pc with
  | .start => { s with pc := .entered }
  | .entered => { s with pc := .copied, ticks := s.systickPendingTicks }
  | .copied => { s with pc := .cleared, systickPendingTicks := 0 }
  | .cleared => { s with pc := .left }
  | .left =>
    { s with
      pc := .start
      rtcCounter := if s.ticks ≠ 0 then (s.rtcCounter + s.ticks) % 2 ^ w else s.rtcCounter }

inductive Step (w : ℕ) (s : State) : State → Prop
  | epoch : Step w s (s.epoch w)
  /-- A millisecond is over.  A tick would be lost if the last one still waited. -/
  | due (hfirst : s.pended = false) : Step w s { s with pended := true, elapsed := s.elapsed + 1 }
  | handler (hmasked : s.pc.masked = false) (hpended : s.pended = true) :
      Step w s { s with
        pended := false
        systickPendingTicks := (s.systickPendingTicks + 1) % 2 ^ 32 }

/-- The ticks that have left `systick_pending_ticks` and are not in `rtc_counter` yet. -/
def State.moving (s : State) : ℕ :=
  match s.pc with
  | .cleared | .left => s.ticks
  | .start | .entered | .copied => 0

/-- Every tick is in one place. -/
structure Inv (s : State) : Prop where
  copied : s.pc = .copied → s.ticks = s.systickPendingTicks
  all : (s.rtcCounter + s.moving + s.systickPendingTicks + s.pended.toNat) % 2 ^ 32
    = s.elapsed % 2 ^ 32

variable {w : ℕ} {s s' : State}

theorem Inv.epoch (hw : 32 ≤ w) (hinv : Inv s) : Inv (s.epoch w) := by
  obtain ⟨pc, pending, ticks, rtc, pended, elapsed⟩ := s
  obtain ⟨hcopied, hall⟩ := hinv
  cases pc with
  | start => exact ⟨Pc.noConfusion, hall⟩
  | entered => exact ⟨fun _ => rfl, hall⟩
  | copied =>
    obtain rfl : ticks = pending := hcopied rfl
    exact ⟨Pc.noConfusion, by simpa [State.epoch, State.moving] using hall⟩
  | cleared => exact ⟨Pc.noConfusion, hall⟩
  | left =>
    have hwrap : (rtc + ticks) % 2 ^ w % 2 ^ 32 = (rtc + ticks) % 2 ^ 32 :=
      Nat.mod_mod_of_dvd _ (Nat.pow_dvd_pow 2 hw)
    refine ⟨Pc.noConfusion, ?_⟩
    simp only [State.moving, State.epoch] at hall ⊢
    split <;> omega

theorem Inv.step (hw : 32 ≤ w) (hinv : Inv s) (h : Step w s s') : Inv s' := by
  have hall := hinv.all
  cases h with
  | epoch => exact hinv.epoch hw
  | due hfirst =>
    refine ⟨hinv.copied, ?_⟩
    show (s.rtcCounter + s.moving + s.systickPendingTicks + 1) % 2 ^ 32 = (s.elapsed + 1) % 2 ^ 32
    rw [hfirst, Bool.toNat_false] at hall
    omega
  | handler hmasked hpended =>
    refine ⟨fun hpc => ?_, ?_⟩
    · -- between the two accesses the handler does not run
      replace hpc : s.pc = .copied := hpc
      rw [hpc] at hmasked
      cases hmasked
    · show (s.rtcCounter + s.moving + (s.systickPendingTicks + 1) % 2 ^ 32 + 0) % 2 ^ 32
        = s.elapsed % 2 ^ 32
      rw [hpended, Bool.toNat_true] at hall
      omega

theorem Inv.run (hw : 32 ≤ w) (hrun : ReflTransGen (Step w) s s') (hinv : Inv s) :
    Inv s' := by
  induction hrun with
  | refl => exact hinv
  | tail _ h ih => exact ih.step hw h

def State.init : State := ⟨.start, 0, 0, 0, false, 0⟩

/-- **No tick is lost, and none is counted twice**, in whatever order the handler and the epochs
of the scheduler have run. -/
theorem rtc_exact (hw : 32 ≤ w) (hrun : ReflTransGen (Step w) .init s)
    (hpc : s.pc = .start) :
    (s.rtcCounter + s.systickPendingTicks + s.pended.toNat) % 2 ^ 32 = s.elapsed % 2 ^ 32 := by
  have hall := (Inv.run hw hrun ⟨Pc.noConfusion, rfl⟩).all
  rwa [State.moving, hpc] at hall

/-- A tick falls due in the critical section. -/
theorem rtc_exact_late : ∃ s : State, s.elapsed = 1 ∧
    (s.rtcCounter + s.systickPendingTicks + s.pended.toNat) % 2 ^ 32 = 1 := by
  have henter : ReflTransGen (Step 64) .init _ := .single .epoch
  have hleft := ((((henter.tail (.due rfl)).tail .epoch).tail .epoch).tail .epoch)
  have hend := (hleft.tail (.handler rfl rfl)).tail .epoch
  exact ⟨_, rfl, rtc_exact (by decide) hend rfl⟩

end SysTick
