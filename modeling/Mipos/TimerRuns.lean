/-
Software timers over whole runs.

`next_rtc_timeout` is a cached lower bound of the deadlines, in which 0 also stands
for "unknown".

* `TimersOk`: an active timer has a handler, and only the timer whose handler runs is
  both active and expired.  Every run keeps it.
* `NextBound`: the cached timeout is 0 or a lower bound.  `mipos_timer_start` loses it
  when it takes the 0 that a cancelled timer has left for an empty collection
  (`start_after_cancel_misses`); runs without such a start keep it, and then no epoch
  passes over a timer that is due (`timers_checked`).
-/
import Mipos.KernelTasks
import Mipos.TimerSteps

namespace Kernel

open Relation

variable {w : ℕ} {env env' : Env} {act : Act} {timers timers' : Timers} {id : ℕ}

/-! ### Active timers have handlers -/

/-- An active timer has a handler to call, and it is marked as expired only while
its handler runs. -/
structure TimersOk (pc : Pc) (timers : Timers) : Prop where
  handler : ∀ id, timers.timerBitmap id = true →
    (timers.timerTable id).handlerOnExpireCbk ≠ none
  expired : ∀ id, timers.timerBitmap id = true → (timers.timerTable id).expired = true →
    pc = .onExpire id

theorem TimersOk.of_pc {pc pc' : Pc} (hok : TimersOk pc timers)
    (hpc : ∀ id, pc = .onExpire id → pc' = .onExpire id) : TimersOk pc' timers :=
  ⟨hok.handler, fun id hbit hexp => hpc id (hok.expired id hbit hexp)⟩

/-- Slot `i` is left alone. -/
def SameTimer (timers timers' : Timers) (i : ℕ) : Prop :=
  timers'.timerBitmap i = timers.timerBitmap i ∧ timers'.timerTable i = timers.timerTable i

theorem selectNext_same (timers : Timers) (i : ℕ) : SameTimer timers timers.selectNext i := by
  obtain ⟨hbits, htable⟩ := timers.selectNextUpTo_frame maxTimersNo
  exact ⟨congrFun hbits i, congrFun htable i⟩

/-- Only slot `id` is written. -/
theorem TimersOk.write {pc : Pc} (hok : TimersOk pc timers) (id : ℕ)
    (hsame : ∀ i, i ≠ id → SameTimer timers timers' i)
    (hcbk : timers'.timerBitmap id = true →
      (timers'.timerTable id).handlerOnExpireCbk ≠ none)
    (hexp : timers'.timerBitmap id = true → (timers'.timerTable id).expired = true →
      pc = .onExpire id) : TimersOk pc timers' := by
  constructor
  · intro i hbit
    rcases eq_or_ne i id with rfl | hne
    · exact hcbk hbit
    · obtain ⟨hb, ht⟩ := hsame i hne
      rw [ht]
      exact hok.handler i (hb ▸ hbit)
  · intro i hbit hexp'
    rcases eq_or_ne i id with rfl | hne
    · exact hexp hbit hexp'
    · obtain ⟨hb, ht⟩ := hsame i hne
      exact hok.expired i (hb ▸ hbit) (ht ▸ hexp')

theorem TimerCall.ok {rtcCounter : ℕ} (hcall : TimerCall w rtcCounter timers act timers') {pc : Pc}
    (hok : TimersOk pc timers) : TimersOk pc timers' := by
  cases hcall with
  | other act => exact hok
  | start id hfree hcbk hexpired htimeout =>
    refine hok.write id (fun i hne => by simp [SameTimer, hne]) ?_ ?_
    · intro _
      simpa using hcbk
    · intro _ hexp
      simp [hexpired] at hexp
  | cancel id =>
    refine hok.write id (fun i hne => by simp [SameTimer, hne]) ?_ ?_
    · intro hbit
      simpa using hok.handler id hbit
    · intro hbit hexp
      exact hok.expired id hbit (by simpa using hexp)
  | delete id timer =>
    refine hok.write id (fun i hne => by simp [SameTimer, hne]) ?_ ?_
    · intro hbit
      simp at hbit
    · intro hbit
      simp at hbit
  | restart id newInterval timer hexpired hexpired' hcbk =>
    refine hok.write id (fun i hne => by simp [SameTimer, hne]) ?_ ?_
    · intro hbit
      simpa [hcbk] using hok.handler id hbit
    · intro _ hexp
      simp [hexpired'] at hexp

/-- The round of the first loop that comes to timer `id`. -/
theorem TimerVisit.ok {rtcCounter : ℕ} {pc : Pc}
    (hvisit : TimerVisit timers rtcCounter id timers' pc) (hok : TimersOk (.expire id) timers) :
    TimersOk pc timers' := by
  -- no handler runs, so no active timer is marked
  have hok' : ∀ pc, TimersOk pc timers := fun pc => hok.of_pc fun _ h => by cases h
  cases hvisit with
  | last hid =>
    constructor
    · intro i hbit
      obtain ⟨hb, ht⟩ := selectNext_same timers i
      rw [ht]
      exact hok.handler i (hb ▸ hbit)
    · intro i hbit hexp
      obtain ⟨hb, ht⟩ := selectNext_same timers i
      exact (hok' _).expired i (hb ▸ hbit) (ht ▸ hexp)
  | pass hid hvisit => exact hok' _
  | cancel hid hvisit hpc =>
    refine (hok' pc).write id (fun i hne => by simp [SameTimer, hne]) ?_ ?_
    · intro hbit
      simp at hbit
    · intro hbit
      simp at hbit
  | expire hid hvisit =>
    refine (hok' _).write id (fun i hne => by simp [SameTimer, Timers.markExpired, hne]) ?_ ?_
    · intro hbit
      simpa [Timers.markExpired] using hok.handler id hbit
    · intro _ _
      rfl

/-- After its handler a timer is inactive, or it is armed again. -/
theorem afterExpire_cases (w : ℕ) (timers : Timers) (rtcCounter id : ℕ) :
    (∀ i, i ≠ id → SameTimer timers (timers.afterExpire w rtcCounter id) i) ∧
      ((timers.afterExpire w rtcCounter id).timerBitmap id = true →
        (timers.timerTable id).periodic = true ∧ timers.timerBitmap id = true ∧
        (timers.afterExpire w rtcCounter id).timerTable id = { timers.timerTable id with
          expired := false
          rtcTimeout := (rtcCounter + (timers.timerTable id).interval) % 2 ^ w }) := by
  rw [Timers.afterExpire]
  split
  · refine ⟨fun i hne => by simp [SameTimer, hne], ?_⟩
    intro hbit
    simp at hbit
  · rename_i hperiodic
    refine ⟨fun i hne => by simp [SameTimer, hne], ?_⟩
    intro hbit
    exact ⟨by simpa using hperiodic, hbit, by simp⟩

theorem afterExpire_ok (rtcCounter : ℕ) (hok : TimersOk (.onExpire id) timers) :
    TimersOk (.expire (id + 1)) (timers.afterExpire w rtcCounter id) := by
  obtain ⟨hsame, hself⟩ := afterExpire_cases w timers rtcCounter id
  constructor
  · intro i hbit
    rcases eq_or_ne i id with rfl | hne
    · obtain ⟨-, hbit', htable⟩ := hself hbit
      rw [htable]
      exact hok.handler i hbit'
    · obtain ⟨hb, ht⟩ := hsame i hne
      rw [ht]
      exact hok.handler i (hb ▸ hbit)
  · -- a marked timer could only be `id` itself, whose mark is gone
    intro i hbit hexp
    rcases eq_or_ne i id with rfl | hne
    · rw [(hself hbit).2.2] at hexp
      cases hexp
    · obtain ⟨hb, ht⟩ := hsame i hne
      cases hok.expired i (hb ▸ hbit) (ht ▸ hexp)
      exact absurd rfl hne

/-- **Every step keeps the timers in order.** -/
theorem TimerStep.ok (hstep : TimerStep w env act env') (hok : TimersOk env.pc env.timers) :
    TimersOk env'.pc env'.timers := by
  cases hstep with
  | call huser hcall hpc hrtc =>
    rw [hpc]
    exact hcall.ok hok
  | tick htimers hpc =>
    rw [hpc, htimers]
    exact hok
  | epoch hpc htimers hpc' hrtc =>
    rw [htimers]
    refine hok.of_pc ?_
    intro i h
    rw [hpc] at h
    cases h
  | visit id hpc hvisit hrtc => exact hvisit.ok (hpc ▸ hok)
  | cancelled id hpc htimers hpc' hrtc =>
    rw [htimers]
    refine hok.of_pc ?_
    intro i h
    rw [hpc] at h
    cases h
  | expired id hact hpc htimers hpc' hrtc =>
    rw [hpc', htimers]
    exact afterExpire_ok env.rtcCounter (hpc ▸ hok)
  | tasks hpc hepoch hpc' htimers hrtc =>
    rw [htimers]
    refine hok.of_pc ?_
    intro i h
    rw [h] at hpc
    cases hpc

theorem Reachable.timersOk (hr : Reachable w env) : TimersOk env.pc env.timers := by
  obtain ⟨rootTask, rootTaskParam, queues, hrun⟩ := hr
  induction hrun with
  | refl =>
    have hbit : ∀ i, (Env.start rootTask rootTaskParam queues).timers.timerBitmap i = false :=
      fun _ => rfl
    constructor
    · intro i h
      rw [hbit i] at h
      cases h
    · intro i h
      rw [hbit i] at h
      cases h
  | tail _ hstep ih =>
    obtain ⟨act, hs⟩ := hstep
    exact (step_timers hs).ok ih

/-! ### The cached timeout -/

/-- The steps that keep the cached timeout a lower bound.  Outside the pass over the
timers, a timer is started with an unknown timeout only if its deadline is not after
that of any timer that can expire; and in the pass no timer is armed with the deadline
0, to which the sum of the counter and the interval may wrap. -/
def Timely (w : ℕ) (env : Env) : Act → Prop
  | .api (.timerStart _ _ interval _ _) =>
    if env.pc.inPass then (env.rtcCounter + interval) % 2 ^ w ≠ 0
    else env.timers.nextRtcTimeout = 0 → ∀ id < maxTimersNo, env.timers.timerBitmap id = true →
      (env.timers.timerTable id).cancelled = false →
      (env.rtcCounter + interval) % 2 ^ w ≤ (env.timers.timerTable id).rtcTimeout
  | .ret _ => ∀ id, env.pc = .onExpire id → (env.timers.timerTable id).periodic = true →
    (env.rtcCounter + (env.timers.timerTable id).interval) % 2 ^ w ≠ 0
  | _ => True

/-- The deadlines.  Those of the timers that the pass has behind it are not 0, so that
the end of the pass can find a lower bound; outside the pass there is one. -/
structure DeadlineInv (pc : Pc) (timers : Timers) : Prop where
  done : ∀ id < pc.timersDone, timers.timerBitmap id = true →
    (timers.timerTable id).rtcTimeout ≠ 0
  next : pc.inPass = false → NextBound timers

/-- A start outside the pass. -/
theorem NextBound.start {timeout : ℕ} (hb : NextBound timers) {timer : Timer}
    (htimeout : timer.rtcTimeout = timeout)
    (htimely : timers.nextRtcTimeout = 0 → ∀ i < maxTimersNo, timers.timerBitmap i = true →
      (timers.timerTable i).cancelled = false → timeout ≤ (timers.timerTable i).rtcTimeout) :
    NextBound (((timers.setBit id true).lowerNext timeout).setTimer id timer) := by
  refine .inr ?_
  intro i hi hbit hcan
  rw [Timers.setTimer_nextRtcTimeout]
  rcases eq_or_ne i id with rfl | hne
  · simpa [htimeout] using Timers.lowerNext_le timeout
  · have hbit' : timers.timerBitmap i = true := by simpa [hne] using hbit
    have hcan' : (timers.timerTable i).cancelled = false := by simpa [hne] using hcan
    have hle : ((timers.setBit id true).lowerNext timeout).nextRtcTimeout
        ≤ (timers.timerTable i).rtcTimeout := by
      by_cases hzero : timers.nextRtcTimeout = 0
      · exact Nat.le_trans (Timers.lowerNext_le timeout) (htimely hzero i hi hbit' hcan')
      · have hnext : (timers.setBit id true).nextRtcTimeout ≠ 0 := hzero
        refine Nat.le_trans (Timers.lowerNext_le_next hnext timeout) ?_
        exact (hb.resolve_left hzero) i hi hbit' hcan'
    simpa [hne] using hle

/-- Only slot `id` is written, and the timeout is kept or forgotten. -/
theorem DeadlineInv.write {pc : Pc} (hi : DeadlineInv pc timers) (id : ℕ)
    (hsame : ∀ i, i ≠ id → SameTimer timers timers' i)
    (hnext : timers'.nextRtcTimeout = timers.nextRtcTimeout ∨ timers'.nextRtcTimeout = 0)
    (hdone : timers'.timerBitmap id = true → id < pc.timersDone →
      (timers'.timerTable id).rtcTimeout ≠ 0)
    (hbound : timers'.timerBitmap id = true → (timers'.timerTable id).cancelled = false →
      pc.inPass = false → timers'.nextRtcTimeout ≤ (timers'.timerTable id).rtcTimeout) :
    DeadlineInv pc timers' := by
  constructor
  · intro i hlt hbit
    rcases eq_or_ne i id with rfl | hne
    · exact hdone hbit hlt
    · obtain ⟨hb, ht⟩ := hsame i hne
      rw [ht]
      exact hi.done i hlt (hb ▸ hbit)
  · intro hpass
    rcases hnext with hnext | hzero
    · refine (hi.next hpass).imp (fun h => hnext.trans h) ?_
      intro hle i hlt hbit hcan
      rcases eq_or_ne i id with rfl | hne
      · exact hbound hbit hcan hpass
      · obtain ⟨hb, ht⟩ := hsame i hne
        rw [ht] at hcan ⊢
        rw [hnext]
        exact hle i hlt (hb ▸ hbit) hcan
    · exact .inl hzero

/-- The calls of user code, made in time. -/
theorem TimerCall.deadlines (hcall : TimerCall w env.rtcCounter env.timers act timers')
    (htimely : Timely w env act) (hok : TimersOk env.pc env.timers)
    (hi : DeadlineInv env.pc env.timers) : DeadlineInv env.pc timers' := by
  cases hcall with
  | other act => exact hi
  | start id hfree hcbk hexpired htimeout =>
    constructor
    · intro i hlt hbit
      rcases eq_or_ne i id with rfl | hne
      · -- outside the pass there is nothing behind it
        by_cases hpass : env.pc.inPass = true
        · rw [Timely, if_pos hpass] at htimely
          simpa [htimeout] using htimely
        · rw [Pc.timersDone_eq_zero (by simpa using hpass)] at hlt
          omega
      · simpa [hne] using hi.done i hlt (by simpa [hne] using hbit)
    · intro hpass
      rw [Timely, if_neg (by simp [hpass])] at htimely
      exact (hi.next hpass).start htimeout htimely
  | cancel id =>
    refine hi.write id (fun i hne => by simp [SameTimer, hne]) (.inr rfl) ?_ ?_
    · intro hbit hlt
      simpa using hi.done id hlt hbit
    · intro _ hcan
      simp at hcan
  | delete id timer =>
    refine hi.write id (fun i hne => by simp [SameTimer, hne]) (.inl rfl) ?_ ?_
    · intro hbit
      simp at hbit
    · intro hbit
      simp at hbit
  | restart id newInterval timer hexpired hexpired' hcbk =>
    -- an active timer that is marked is the one whose handler runs
    have hactive : env.timers.timerBitmap id = true → env.pc = .onExpire id := fun hbit =>
      hok.expired id hbit hexpired
    refine hi.write id (fun i hne => by simp [SameTimer, hne]) (.inl rfl) ?_ ?_
    · intro hbit hlt
      rw [hactive hbit] at hlt
      exact absurd hlt (Nat.lt_irrefl id)
    · intro hbit _ hpass
      rw [hactive hbit] at hpass
      cases hpass

/-- The round of the first loop that comes to timer `id`. -/
theorem TimerVisit.deadlines {rtcCounter : ℕ} {pc : Pc}
    (hvisit : TimerVisit timers rtcCounter id timers' pc)
    (hi : DeadlineInv (.expire id) timers) : DeadlineInv pc timers' := by
  have hdone : ∀ i < id, timers.timerBitmap i = true →
      (timers.timerTable i).rtcTimeout ≠ 0 := hi.done
  cases hvisit with
  | last hid =>
    refine ⟨fun i hlt => absurd hlt (Nat.not_lt_zero i), fun _ => selectNext_nextBound timers ?_⟩
    intro i hlt
    exact hdone i (by omega)
  | pass hid hvisit =>
    refine ⟨?_, fun h => by cases h⟩
    intro i hlt hbit
    rcases Nat.lt_or_eq_of_le (Nat.le_of_lt_succ hlt) with hlt | rfl
    · exact hdone i hlt hbit
    · -- an active timer is passed over because its deadline lies ahead
      intro hzero
      rw [Timers.visit, if_pos hbit, hzero, if_pos (Nat.zero_le _)] at hvisit
      split at hvisit <;> cases hvisit
  | cancel hid hvisit hpc =>
    have hpass : pc.inPass = true ∧ pc.timersDone = id + 1 := by
      rcases hpc with rfl | rfl <;> exact ⟨rfl, rfl⟩
    refine ⟨?_, fun h => by rw [hpass.1] at h; cases h⟩
    intro i hlt hbit
    rw [hpass.2] at hlt
    rcases eq_or_ne i id with rfl | hne
    · simp at hbit
    · exact hdone i (by omega) (by simpa [hne] using hbit)
  | expire hid hvisit =>
    refine ⟨?_, fun h => by cases h⟩
    intro i hlt hbit
    have hlt : i < id := hlt
    simpa [Timers.markExpired, Nat.ne_of_lt hlt] using hdone i hlt hbit

/-- **Every step made in time keeps the lower bound.** -/
theorem TimerStep.deadlines (hstep : TimerStep w env act env') (htimely : Timely w env act)
    (hok : TimersOk env.pc env.timers) (hi : DeadlineInv env.pc env.timers) :
    DeadlineInv env'.pc env'.timers := by
  cases hstep with
  | call huser hcall hpc hrtc =>
    rw [hpc]
    exact hcall.deadlines htimely hok hi
  | tick htimers hpc =>
    rw [hpc, htimers]
    exact hi
  | epoch hpc htimers hpc' hrtc =>
    rw [hpc] at hi
    have hdone : env'.pc.timersDone = 0 := by
      rw [hpc']
      split <;> rfl
    rw [htimers]
    refine ⟨?_, fun _ => hi.next rfl⟩
    intro i hlt
    rw [hdone] at hlt
    exact absurd hlt (Nat.not_lt_zero i)
  | visit id hpc hvisit hrtc => exact hvisit.deadlines (hpc ▸ hi)
  | cancelled id hpc htimers hpc' hrtc =>
    rw [hpc] at hi
    rw [hpc', htimers]
    exact ⟨hi.done, fun h => by cases h⟩
  | expired id hact hpc htimers hpc' hrtc =>
    rw [hpc] at hi
    rw [hpc', htimers]
    obtain ⟨hsame, hself⟩ := afterExpire_cases w env.timers env.rtcCounter id
    refine ⟨?_, fun h => by cases h⟩
    intro i hlt hbit
    have hlt : i < id + 1 := hlt
    rcases eq_or_ne i id with rfl | hne
    · -- armed again, with a deadline that is not 0
      obtain ⟨hperiodic, -, htable⟩ := hself hbit
      subst hact
      rw [htable]
      exact htimely i hpc hperiodic
    · obtain ⟨hb, ht⟩ := hsame i hne
      rw [ht]
      exact hi.done i (show i < id by omega) (hb ▸ hbit)
  | tasks hpc hepoch hpc' htimers hrtc =>
    rw [htimers]
    refine ⟨?_, fun _ => hi.next hpc⟩
    intro i hlt
    rw [Pc.timersDone_eq_zero hpc'] at hlt
    exact absurd hlt (Nat.not_lt_zero i)

/-! ### Epochs -/

/-- The call cancels or deletes timer `id`. -/
def Drops (id : ℕ) (act : Act) : Prop :=
  act = .api (.timerCancel id) ∨ act = .api (.timerDelete id)

/-- The step is one of the timer part of an epoch, by an action that meets `P`, and the counter
does not wrap around. -/
def InEpoch (w : ℕ) (P : Act → Prop) (env : Env) (act : Act) : Prop :=
  P act ∧ (env.pc = .epoch ∨ env.pc.inPass = true) ∧
    ∀ env', step w env act = some env' → env.rtcCounter ≤ env'.rtcCounter

/-- The steps of the timer part of an epoch. -/
abbrev EpochStep (w : ℕ) (P : Act → Prop) : Env → Env → Prop := StepWhere w (InEpoch w P)

/-- The epoch has still to come to timer `id`, which is due. -/
structure Waiting (id : ℕ) (env : Env) : Prop where
  place : env.pc = .epoch ∨ env.pc.inPass = true
  ahead : env.pc.timersDone ≤ id
  uncalled : env.pc ≠ .onExpire id
  active : env.timers.timerBitmap id = true
  uncancelled : (env.timers.timerTable id).cancelled = false
  due : (env.timers.timerTable id).rtcTimeout ≤ env.rtcCounter
  scan : env.pc = .epoch → env.timers.nextRtcTimeout = 0 ∨
    env.timers.nextRtcTimeout ≤ (env.timers.timerTable id).rtcTimeout

/-- Calls about other timers leave a timer alone whose handler is not running. -/
theorem TimerCall.sameTimer {rtcCounter : ℕ} {pc : Pc}
    (hcall : TimerCall w rtcCounter timers act timers') (hok : TimersOk pc timers)
    (hactive : timers.timerBitmap id = true) (hpc : pc ≠ .onExpire id) (hdrop : ¬Drops id act) :
    SameTimer timers timers' id := by
  cases hcall with
  | other act => exact ⟨rfl, rfl⟩
  | start i hfree hcbk hexpired htimeout =>
    have hne : id ≠ i := by
      rintro rfl
      exact hok.handler id hactive hfree
    simp [SameTimer, hne]
  | cancel i =>
    have hne : id ≠ i := by
      rintro rfl
      exact hdrop (.inl rfl)
    simp [SameTimer, hne]
  | delete i timer =>
    have hne : id ≠ i := by
      rintro rfl
      exact hdrop (.inr rfl)
    simp [SameTimer, hne]
  | restart i newInterval timer hexpired hexpired' hcbk =>
    have hne : id ≠ i := by
      rintro rfl
      exact hpc (hok.expired id hactive hexpired)
    simp [SameTimer, hne]

/-- The timer still waits when its slot is left alone. -/
theorem Waiting.move (hw : Waiting id env) (hsame : SameTimer env.timers env'.timers id)
    (hrtc : env.rtcCounter ≤ env'.rtcCounter) (hpass : env'.pc.inPass = true)
    (hahead : env'.pc.timersDone ≤ id) (hpc : env'.pc ≠ .onExpire id) : Waiting id env' := by
  obtain ⟨hbit, htable⟩ := hsame
  refine ⟨.inr hpass, hahead, hpc, hbit.trans hw.active, ?_, ?_, ?_⟩
  · rw [htable]
    exact hw.uncancelled
  · rw [htable]
    exact Nat.le_trans hw.due hrtc
  · intro hepoch
    rw [hepoch] at hpass
    cases hpass

/-- The first loop does not pass over a timer that is due. -/
theorem Waiting.visit_eq (hw : Waiting id env) : env.timers.visit env.rtcCounter id = .expire := by
  rw [Timers.visit, if_pos hw.active, hw.uncancelled, if_pos hw.due]
  rfl

/-- The epoch begins with a pass. -/
theorem Waiting.scheduler_due (hw : Waiting id env) (hid : id < maxTimersNo)
    (hpc : env.pc = .epoch) : env.timers.due env.rtcCounter = true := by
  have hany : (List.range maxTimersNo).any env.timers.timerBitmap = true :=
    List.any_eq_true.mpr ⟨id, List.mem_range.mpr hid, hw.active⟩
  rw [Timers.due, hany, Bool.true_and]
  rcases hw.scan hpc with hzero | hle
  · simp [hzero]
  · have hreached : env.timers.nextRtcTimeout ≤ env.rtcCounter := Nat.le_trans hle hw.due
    simp [hreached]

/-- A round of the first loop leaves a later timer alone, and calls the handler of a
timer that is due. -/
theorem TimerVisit.sameTimer {rtcCounter i : ℕ} {pc : Pc}
    (hvisit : TimerVisit timers rtcCounter i timers' pc) (hid : id < maxTimersNo) (hle : i ≤ id)
    (hdue : timers.visit rtcCounter id = .expire) : pc = .onExpire id ∨
      (SameTimer timers timers' id ∧ pc.inPass = true ∧ pc.timersDone ≤ id ∧
        pc ≠ .onExpire id) := by
  cases hvisit with
  | last hi => exact absurd (Nat.lt_of_le_of_lt hle hid) hi
  | pass hi hv =>
    have hne : i ≠ id := by
      rintro rfl
      rw [hv] at hdue
      cases hdue
    exact .inr ⟨⟨rfl, rfl⟩, rfl, show i + 1 ≤ id by omega, by simp⟩
  | cancel hi hv hpc =>
    have hne : i ≠ id := by
      rintro rfl
      rw [hv] at hdue
      cases hdue
    have hsame : SameTimer timers (timers.setBit i false) id := by simp [SameTimer, hne.symm]
    rcases hpc with rfl | rfl
    · exact .inr ⟨hsame, rfl, show i + 1 ≤ id by omega, by simp⟩
    · exact .inr ⟨hsame, rfl, show i + 1 ≤ id by omega, by simp⟩
  | expire hi hv =>
    rcases eq_or_ne i id with rfl | hne
    · exact .inl rfl
    · refine .inr ⟨?_, rfl, hle, by simpa using hne⟩
      simp [SameTimer, Timers.markExpired, hne.symm]

/-- **The timer goes on waiting until its handler is called.** -/
theorem Waiting.kept (hw : Waiting id env) (hid : id < maxTimersNo)
    (hok : TimersOk env.pc env.timers) (hstep : TimerStep w env act env')
    (hrtc : env.rtcCounter ≤ env'.rtcCounter) (hdrop : ¬Drops id act) :
    env'.pc = .onExpire id ∨ Waiting id env' := by
  cases hstep with
  | call huser hcall hpc _ =>
    have hpass : env.pc.inPass = true := by
      refine hw.place.resolve_left ?_
      intro hepoch
      rw [hepoch] at huser
      cases huser
    refine .inr (hw.move (hcall.sameTimer hok hw.active hw.uncalled hdrop) hrtc ?_ ?_ ?_)
    · rw [hpc]
      exact hpass
    · rw [hpc]
      exact hw.ahead
    · rw [hpc]
      exact hw.uncalled
  | tick htimers hpc =>
    refine .inr ⟨?_, ?_, ?_, ?_, ?_, ?_, ?_⟩ <;> simp only [hpc, htimers]
    · exact hw.place
    · exact hw.ahead
    · exact hw.uncalled
    · exact hw.active
    · exact hw.uncancelled
    · exact Nat.le_trans hw.due hrtc
    · exact hw.scan
  | epoch hpc htimers hpc' _ =>
    rw [hw.scheduler_due hid hpc, if_pos rfl] at hpc'
    refine .inr (hw.move ?_ hrtc ?_ ?_ ?_)
    · rw [htimers]
      exact ⟨rfl, rfl⟩
    · rw [hpc']
      rfl
    · rw [hpc']
      exact Nat.zero_le id
    · rw [hpc']
      simp
  | visit i hpc hvisit _ =>
    have hle : i ≤ id := by simpa [hpc, Pc.timersDone] using hw.ahead
    rcases hvisit.sameTimer hid hle hw.visit_eq with hcalled | ⟨hsame, hpass, hahead, hne⟩
    · exact .inl hcalled
    · exact .inr (hw.move hsame hrtc hpass hahead hne)
  | cancelled i hpc htimers hpc' _ =>
    have hlt : i + 1 ≤ id := by simpa [hpc, Pc.timersDone] using hw.ahead
    refine .inr (hw.move ?_ hrtc ?_ ?_ ?_)
    · rw [htimers]
      exact ⟨rfl, rfl⟩
    · rw [hpc']
      rfl
    · rw [hpc']
      exact hlt
    · rw [hpc']
      simp
  | expired i hact hpc htimers hpc' _ =>
    have hle : i ≤ id := by simpa [hpc, Pc.timersDone] using hw.ahead
    have hne : id ≠ i := by
      rintro rfl
      exact hw.uncalled hpc
    refine .inr (hw.move ?_ hrtc ?_ ?_ ?_)
    · rw [htimers]
      exact (afterExpire_cases w env.timers env.rtcCounter i).1 id hne
    · rw [hpc']
      rfl
    · rw [hpc']
      show i + 1 ≤ id
      omega
    · rw [hpc']
      simp
  | tasks hpc hepoch _ _ _ =>
    rcases hw.place with h | h
    · exact absurd h hepoch
    · rw [hpc] at h
      cases h

/-! ### Runs -/

/-- The states of the runs all of whose steps are made in time. -/
def TimelyReachable (w : ℕ) (env : Env) : Prop :=
  ∃ rootTask rootTaskParam queues,
    ReflTransGen (StepWhere w (Timely w)) (.start rootTask rootTaskParam queues) env

theorem TimelyReachable.reachable (hr : TimelyReachable w env) : Reachable w env := by
  obtain ⟨rootTask, rootTaskParam, queues, hrun⟩ := hr
  exact reachable_of_run ⟨rootTask, rootTaskParam, queues, .refl⟩ hrun

theorem TimelyReachable.deadlines (hr : TimelyReachable w env) :
    DeadlineInv env.pc env.timers := by
  obtain ⟨rootTask, rootTaskParam, queues, hrun⟩ := hr
  induction hrun with
  | refl => exact ⟨fun i hlt => absurd hlt (Nat.not_lt_zero i), fun _ => .inl rfl⟩
  | tail hrun hstep ih =>
    obtain ⟨act, hs, htimely⟩ := hstep
    have hr : TimelyReachable w _ := ⟨rootTask, rootTaskParam, queues, hrun⟩
    exact (step_timers hs).deadlines htimely hr.reachable.timersOk ih

/-- In an epoch that starts while timer `id` waits, the handler is called, or the timer
is dropped, before the selection of tasks. -/
theorem Waiting.run (hw : Waiting id env) (hid : id < maxTimersNo) (hr : Reachable w env)
    (hrun : ReflTransGen (EpochStep w fun _ => True) env env') :
    (∃ env₁ act env₂, ReflTransGen (EpochStep w fun act => ¬Drops id act) env env₁ ∧
      step w env₁ act = some env₂ ∧ (Drops id act ∨ env₂.pc = .onExpire id) ∧
      ReflTransGen (EpochStep w fun _ => True) env₂ env') ∨
    (Waiting id env' ∧ Reachable w env' ∧
      ReflTransGen (EpochStep w fun act => ¬Drops id act) env env') := by
  induction hrun with
  | refl => exact .inr ⟨hw, hr, .refl⟩
  | tail _ hstep ih =>
    rcases ih with ⟨env₁, act, env₂, hquiet, hs, hcase, hrest⟩ | ⟨hw₁, hr₁, hquiet⟩
    · exact .inl ⟨env₁, act, env₂, hquiet, hs, hcase, hrest.tail hstep⟩
    · obtain ⟨act, hs, -, hplace, hrtc⟩ := hstep
      -- the step drops the timer, calls its handler, or lets it wait
      by_cases hdrop : Drops id act
      · exact .inl ⟨_, act, _, hquiet, hs, .inl hdrop, .refl⟩
      · rcases hw₁.kept hid hr₁.timersOk (step_timers hs) (hrtc _ hs) hdrop with hcalled | hw₂
        · exact .inl ⟨_, act, _, hquiet, hs, .inr hcalled, .refl⟩
        · exact .inr ⟨hw₂, hr₁.step hs, hquiet.tail ⟨act, hs, hdrop, hplace, hrtc⟩⟩

/-- The pass never calls a null handler, so it stops only in the handlers it calls. -/
theorem pass_goes_on (hr : Reachable w env) {i : ℕ} (hpc : env.pc = .expire i) :
    ∃ env', step w env .sched = some env' := by
  have hsched : step w env .sched = env.visitTimer i := by
    rw [step, Env.sched, hpc]
  rw [hsched, Env.visitTimer]
  split
  · split
    · exact ⟨_, rfl⟩
    · dsimp only
      split
      · exact ⟨_, rfl⟩
      · exact ⟨_, rfl⟩
    · rename_i hvisit
      -- the timer is active, so it has a handler
      have hactive : env.timers.timerBitmap i = true := by
        by_contra hoff
        rw [Timers.visit, if_neg hoff] at hvisit
        cases hvisit
      have hcbk := hr.timersOk.handler i hactive
      rw [if_pos (Option.isSome_iff_ne_none.mpr hcbk)]
      exact ⟨_, rfl⟩
  · exact ⟨_, rfl⟩

/-- **No timer misses its check.**  In every run whose starts and returns are made in
time, the cached timeout is unknown or a lower bound of the deadlines whenever the
scheduler is not in its pass over the timers.  An epoch that starts when timer `id`
is active, not cancelled and due, does not come to the selection of tasks before it
has called the handler of the timer, unless the timer is cancelled or deleted first.
And the pass goes on by itself between two handlers. -/
theorem timers_checked (w : ℕ) :
    (∀ env, TimelyReachable w env → env.pc.inPass = false → NextBound env.timers) ∧
    (∀ env env' id, TimelyReachable w env → env.pc = .epoch → id < maxTimersNo →
      env.timers.timerBitmap id = true → (env.timers.timerTable id).cancelled = false →
      (env.timers.timerTable id).rtcTimeout ≤ env.rtcCounter →
      ReflTransGen (EpochStep w fun _ => True) env env' → env'.pc = .select 0 →
      ∃ env₁ act env₂, ReflTransGen (EpochStep w fun act => ¬Drops id act) env env₁ ∧
        step w env₁ act = some env₂ ∧ (Drops id act ∨ env₂.pc = .onExpire id) ∧
        ReflTransGen (EpochStep w fun _ => True) env₂ env') ∧
    (∀ env i, Reachable w env → env.pc = .expire i → ∃ env', step w env .sched = some env') := by
  refine ⟨?_, ?_, ?_⟩
  · intro env hr hpass
    exact hr.deadlines.next hpass
  · intro env env' id hr hpc hid hactive hcan hdue hrun hend
    have hbound : NextBound env.timers := hr.deadlines.next (by rw [hpc]; rfl)
    have hw : Waiting id env := by
      refine ⟨.inl hpc, ?_, ?_, hactive, hcan, hdue, ?_⟩
      · rw [hpc]
        exact Nat.zero_le id
      · rw [hpc]
        simp
      · intro _
        exact hbound.imp (fun h => h) fun hle => hle id hid hactive hcan
    rcases hw.run hid hr.reachable hrun with hcalled | ⟨hw', -, -⟩
    · exact hcalled
    · -- a timer that still waits is not at the selection of tasks
      rcases hw'.place with h | h
      · rw [hend] at h
        cases h
      · rw [hend] at h
        cases h
  · intro env i hr hpc
    exact pass_goes_on hr hpc

/-- The test for a step of the timer part of an epoch. -/
def inEpoch (w : ℕ) (env : Env) (act : Act) : Bool :=
  decide (env.pc = .epoch ∨ env.pc.inPass = true) &&
    (step w env act).all fun env' => env.rtcCounter ≤ env'.rtcCounter

theorem inEpoch_spec (env : Env) (act : Act) (h : inEpoch w env act = true) :
    InEpoch w (fun _ => True) env act := by
  rw [inEpoch, Bool.and_eq_true, decide_eq_true_eq, Option.all_eq_true] at h
  exact ⟨trivial, h.1, fun env' hs => of_decide_eq_true (h.2 env' hs)⟩

/-- The action is neither a call that returns nor a return. -/
def isQuiet (_ : Env) : Act → Bool
  | .api _ | .ret _ => false
  | _ => true

theorem isQuiet_timely (env : Env) (act : Act) (h : isQuiet env act = true) : Timely w env act := by
  cases act with
  | sched | updateRtc _ | block _ => trivial
  | api _ | ret _ => cases h

/-- The root task starts a timer with the interval 5 and a periodic one with the
interval 7, and suspends itself; when the counter is at 6, the epoch calls the handler
of the first. -/
theorem timers_checked_two_timers :
    ∃ env env', TimelyReachable 64 env ∧ NextBound env.timers ∧ env.pc = .epoch ∧
      env.timers.timerBitmap 0 = true ∧ (env.timers.timerTable 0).rtcTimeout = 5 ∧
      env.rtcCounter = 6 ∧ env'.pc = .select 0 ∧
      ∃ env₁ act env₂, ReflTransGen (EpochStep 64 fun act => ¬Drops 0 act) env env₁ ∧
        step 64 env₁ act = some env₂ ∧ (Drops 0 act ∨ env₂.pc = .onExpire 0) ∧
        ReflTransGen (EpochStep 64 fun _ => True) env₂ env' := by
  have heval : ∃ env₁, runWhere 64 isQuiet boot toRoot = some env₁ ∧ env₁.pc.inPass = false ∧
      (∀ id < maxTimersNo, env₁.timers.timerBitmap id = false) ∧
      ∃ env₂, step 64 env₁ (.api (.timerStart (some 2) none 5 0 false)) = some env₂ ∧
      env₂.pc.inPass = false ∧ env₂.timers.nextRtcTimeout ≠ 0 ∧
      ∃ env₃, step 64 env₂ (.api (.timerStart (some 3) none 7 0 true)) = some env₃ ∧
      ∃ env, runWhere 64 isQuiet env₃ [.block .tSuspend, .updateRtc 6] = some env ∧
      env.pc = .epoch ∧ env.timers.timerBitmap 0 = true ∧
      (env.timers.timerTable 0).cancelled = false ∧ (env.timers.timerTable 0).rtcTimeout = 5 ∧
      env.rtcCounter = 6 ∧
      ∃ env', runWhere 64 (inEpoch 64) env ([Act.sched, .sched, .ret 0] ++
        List.replicate 4 Act.sched) = some env' ∧ env'.pc = .select 0 := by decide +kernel
  obtain ⟨env₁, hrun₁, hpass₁, hfree₁, env₂, hs₁, hpass₂, hnext₂, env₃, hs₂, env, hrun₂, hpc,
      hactive, hcan, htimeout, hrtc, env', hepoch, hend⟩ := heval
  have htimely₁ : Timely 64 env₁ (.api (.timerStart (some 2) none 5 0 false)) := by
    rw [Timely, if_neg (by simp [hpass₁])]
    intro _ id hid hbit
    rw [hfree₁ id hid] at hbit
    cases hbit
  have htimely₂ : Timely 64 env₂ (.api (.timerStart (some 3) none 7 0 true)) := by
    rw [Timely, if_neg (by simp [hpass₂])]
    intro hzero
    exact absurd hzero hnext₂
  have hr : TimelyReachable 64 env := by
    refine ⟨1, 0, fun _ => qInit (fun _ => 0) 1, ?_⟩
    refine .trans (run_of_runWhere isQuiet_timely hrun₁) ?_
    refine .head ⟨_, hs₁, htimely₁⟩ (.head ⟨_, hs₂, htimely₂⟩ ?_)
    exact run_of_runWhere isQuiet_timely hrun₂
  have hbound := (timers_checked 64).1 env hr (by rw [hpc]; rfl)
  have hcalled := (timers_checked 64).2.1 env env' 0 hr hpc (by decide) hactive hcan (by omega)
    (run_of_runWhere inEpoch_spec hepoch) hend
  exact ⟨env, env', hr, hbound, hpc, hactive, htimeout, hrtc, hend, hcalled⟩

/-- Timer 0 is due at 5 and timer 1 at 7.  Timer 1 is cancelled, which leaves the
timeout unknown, and timer 2 is started with the interval 100 before the next pass.
The timeout becomes 100, and the epoch at 50 does not look at timer 0. -/
theorem start_after_cancel_misses :
    ∃ env env', Reachable 64 env ∧ ¬NextBound env.timers ∧ env.pc = .epoch ∧
      env.timers.timerBitmap 0 = true ∧ (env.timers.timerTable 0).cancelled = false ∧
      (env.timers.timerTable 0).rtcTimeout = 5 ∧ env.timers.nextRtcTimeout = 100 ∧
      env.rtcCounter = 50 ∧ step 64 env .sched = some env' ∧ env'.pc = .select 0 := by
  obtain ⟨env, env', hrun, hpc, hactive, hcan, htimeout, hnext, hrtc, hs, hend⟩ :
      ∃ env env' : Env, runActs 64 boot
        [.sched, .sched, .sched, .api (.timerStart (some 2) none 5 0 false),
          .api (.timerStart (some 3) none 7 0 false), .api (.timerCancel 1),
          .api (.timerStart (some 4) none 100 0 false), .block .tSuspend, .updateRtc 50]
        = some env ∧
      env.pc = .epoch ∧ env.timers.timerBitmap 0 = true ∧
      (env.timers.timerTable 0).cancelled = false ∧
      (env.timers.timerTable 0).rtcTimeout = 5 ∧ env.timers.nextRtcTimeout = 100 ∧
      env.rtcCounter = 50 ∧ step 64 env .sched = some env' ∧ env'.pc = .select 0 := by
    refine ⟨_, _, rfl, ?_, ?_, ?_, ?_, ?_, ?_, rfl, ?_⟩ <;> decide
  have hr : Reachable 64 env := Reachable.runActs .boot hrun
  have hmissed : ¬NextBound env.timers := by
    intro hbound
    rcases hbound with hzero | hle
    · omega
    · have := hle 0 (by decide) hactive hcan
      omega
  exact ⟨env, env', hr, hmissed, hpc, hactive, hcan, htimeout, hnext, hrtc, hs, hend⟩

end Kernel
