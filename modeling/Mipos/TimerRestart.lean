/-
Restarting timers.

`mipos_timer_restart` clears the flag of an expired one-shot timer and sets its deadline, but not
its bit in the bitmap of the active timers; when the timer is restarted by its own handler, the
scheduler clears the bit after the handler.  A cancelled timer is refused, and the identifier is
not compared with the size of the table.

* `timerRestart_cases` — what the call does;
* `Armed.of_restart`, `run_silent` — the handler of a restarted timer is not called again;
* `restart_rearms_iff` — the call is right just if it has nothing to do, and stays in the table;
* `restart_arms_nothing` — calls that should do something.
-/
import Mipos.KernelDeadlines

namespace Kernel

open Relation

variable {w : ℕ} {env env' : Env} {act : Act} {timers timers' : Timers} {id n : ℕ}

/-! ### The call -/

/-- The timer is a one-shot timer that has expired. -/
def Timer.OneShotExpired (timer : Timer) : Prop := timer.periodic = false ∧ timer.expired = true

/-- The interval that a restart uses. -/
def Timer.restartInterval (timer : Timer) (newInterval : ℕ) : ℕ :=
  if newInterval > 0 then newInterval else timer.interval

/-- The timer after a restart that returns 0. -/
def Timer.restarted (timer : Timer) (w rtcCounter newInterval : ℕ) : Timer :=
  { timer with
    expired := false
    interval := timer.restartInterval newInterval
    rtcTimeout := (rtcCounter + timer.restartInterval newInterval) % 2 ^ w }

theorem timerRestart_neg {id : ℤ} (hid : id < 0) (timers : Timers) (w rtcCounter newInterval : ℕ) :
    timers.timerRestart w rtcCounter id newInterval = some (timers, false) :=
  if_pos hid

theorem timerRestart_beyond {id : ℤ} (hid : maxTimersNo ≤ id) (rtcCounter newInterval : ℕ) :
    timers.timerRestart w rtcCounter id newInterval = none := by
  have hzero : (0 : ℤ) ≤ maxTimersNo := Int.natCast_nonneg maxTimersNo
  rw [Timers.timerRestart, if_neg (by omega), if_pos hid]

/-- **What the call does** with an identifier of the table. -/
theorem timerRestart_cases (hid : id < maxTimersNo) (timers : Timers)
    (w rtcCounter newInterval : ℕ) :
    ((timers.timerTable id).OneShotExpired ∧
      timers.timerRestart w rtcCounter id newInterval = some (timers.setTimer id
        ((timers.timerTable id).restarted w rtcCounter newInterval), true)) ∨
    (¬(timers.timerTable id).OneShotExpired ∧
      timers.timerRestart w rtcCounter id newInterval = some (timers, false)) := by
  have hlt : ¬(id : ℤ) ≥ maxTimersNo := by omega
  by_cases hexpired : (timers.timerTable id).OneShotExpired
  · refine .inl ⟨hexpired, ?_⟩
    rw [Timers.timerRestart, if_neg (by omega), if_neg hlt, Int.toNat_natCast]
    exact if_pos hexpired
  · refine .inr ⟨hexpired, ?_⟩
    rw [Timers.timerRestart, if_neg (by omega), if_neg hlt, Int.toNat_natCast]
    exact if_neg hexpired

/-! ### Restarted timers stay silent -/

/-- A restarted timer is in the state of a one-shot timer that its own handler has started. -/
theorem Armed.of_restart (hr : Reachable w env)
    (hexpired : (env.timers.timerTable id).OneShotExpired)
    (hcbk : (env.timers.timerTable id).handlerOnExpireCbk ≠ none) (newInterval : ℕ) :
    Armed w env.rtcCounter ((env.timers.timerTable id).restartInterval newInterval) true false id 0
      { env with
        timers := env.timers.setTimer id
          ((env.timers.timerTable id).restarted w env.rtcCounter newInterval) } := by
  refine ⟨?_, ?_, ?_, ?_, ⟨0, Nat.le_refl 0, ?_, nofun⟩, fun _ => rfl, ?_⟩
  · simpa [Timer.restarted] using hcbk
  · simp [Timer.restarted]
  · simp [Timer.restarted]
  · simpa [Timer.restarted] using hexpired.1
  · simp [Timer.restarted]
  · -- it is active and marked as expired only while its handler runs
    intro _ _ hbit
    exact hr.timersOk.expired id hbit hexpired.2

/-- The scheduler does not come to such a timer as an active one. -/
theorem Armed.silent {c e : ℕ} (h : Armed w c n true false id e env) : ¬Expires env id := by
  rintro ⟨hpc, hvisit⟩
  have hactive : env.timers.timerBitmap id = true := by
    by_contra hoff
    rw [Timers.visit, if_neg hoff] at hvisit
    cases hvisit
  cases hpc.symm.trans (h.inactive rfl rfl hactive)

/-- **A whole run of such a timer**: its handler is not called, until it is deleted. -/
theorem Armed.run_silent {c : ℕ} (h : Armed w c n true false id 0 env)
    (hrtc : env.rtcCounter = c % 2 ^ w)
    (hrun : ReflTransGen (StepWhere w fun _ act => act ≠ .api (.timerDelete id))
      env env') : ¬Expires env' id := by
  suffices h : ∃ e, env'.rtcCounter = (c + e) % 2 ^ w ∧ Armed w c n true false id e env' by
    obtain ⟨e, -, harmed⟩ := h
    exact harmed.silent
  induction hrun with
  | refl => exact ⟨0, hrtc, h⟩
  | @tail env₁ env₂ _ hstep ih =>
    obtain ⟨e, hcount, harmed⟩ := ih
    obtain ⟨act, hstep, hdel⟩ := hstep
    refine ⟨e + act.quanta, ?_, harmed.step hcount (Nat.le_add_right ..) (step_timers hstep) hdel
      fun hpc hvisit => harmed.silent ⟨hpc, hvisit⟩⟩
    rw [step_rtcCounter hstep (hcount ▸ Nat.mod_lt _ (Nat.two_pow_pos w)), hcount, Nat.mod_add_mod,
      Nat.add_assoc]

/-- The handler of a restarted timer is not called, until it is deleted. -/
theorem run_silent (hr : Reachable w env) (hexpired : (env.timers.timerTable id).OneShotExpired)
    (hcbk : (env.timers.timerTable id).handlerOnExpireCbk ≠ none) {newInterval : ℕ}
    (hid : id < maxTimersNo)
    (hs : env.timers.timerRestart w env.rtcCounter id newInterval = some (timers, true))
    (hrun : ReflTransGen (StepWhere w fun _ act => act ≠ .api (.timerDelete id))
      { env with timers } env') : ¬Expires env' id := by
  obtain ⟨-, heq⟩ | ⟨hno, -⟩ :=
    timerRestart_cases hid env.timers w env.rtcCounter newInterval
  · cases hs.symm.trans heq
    exact (Armed.of_restart hr hexpired hcbk newInterval).run_silent
      (Nat.mod_eq_of_lt hr.rtcCounter_lt).symm hrun
  · exact absurd hexpired hno

/-! ### What a restart should do -/

/-- The timer exists and is stopped: it is a one-shot timer that has expired, or it was
cancelled, and the scheduler has seen that. -/
def Stopped (timers : Timers) (id : ℕ) : Prop :=
  (timers.timerTable id).handlerOnExpireCbk ≠ none ∧ ((timers.timerTable id).OneShotExpired ∨
    (timers.timerTable id).cancelled = true ∧ timers.timerBitmap id = false)

/-- The handler of timer `id` is called in the epoch that begins now, unless the timer is cancelled
or deleted in it. -/
def CalledInEpoch (w id : ℕ) (env : Env) : Prop :=
  ∀ env', ReflTransGen (EpochStep w fun _ => True) env env' → env'.pc = .select 0 →
    ∃ env₁ act env₂, ReflTransGen (EpochStep w fun act => ¬Drops id act) env env₁ ∧
      step w env₁ act = some env₂ ∧ (Drops id act ∨ env₂.pc = .onExpire id) ∧
      ReflTransGen (EpochStep w fun _ => True) env₂ env'

/-- The steps that neither cancel nor delete timer `id` nor call its handler. -/
def Undisturbed (id : ℕ) (env : Env) (act : Act) : Prop :=
  ¬Drops id act ∧ ¬(act = .sched ∧ Expires env id)

/-- Timer `id` is active, and its handler will be called in the first epoch that begins when the
counter has reached the deadline. -/
structure Rearmed (w id deadline : ℕ) (env : Env) : Prop where
  rtcTimeout : (env.timers.timerTable id).rtcTimeout = deadline
  active : ∀ env', ReflTransGen (StepWhere w (Undisturbed id)) env env' →
    env'.timers.timerBitmap id = true
  called : ∀ env', ReflTransGen (StepWhere w (Undisturbed id)) env env' →
    env'.pc = .epoch → deadline ≤ env'.rtcCounter → CalledInEpoch w id env'

/-- The call `mipos_timer_restart(id, newInterval)` does what it should. -/
structure RestartRight (w : ℕ) (env : Env) (id : ℤ) (newInterval : ℕ) : Prop where
  /-- an identifier that is none of the table is refused -/
  outside : id < 0 ∨ maxTimersNo ≤ id →
    env.timers.timerRestart w env.rtcCounter id newInterval = some (env.timers, false)
  /-- if the call returns 0, it has armed a stopped timer -/
  success : ∀ (i : ℕ) timers, id = i →
    env.timers.timerRestart w env.rtcCounter id newInterval = some (timers, true) →
    Stopped env.timers i ∧ Rearmed w i
      ((env.rtcCounter + (env.timers.timerTable i).restartInterval newInterval) % 2 ^ w)
      { env with timers }
  /-- a cancelled timer can be restarted -/
  cancelled : ∀ i : ℕ, id = i → i < maxTimersNo →
    (env.timers.timerTable i).handlerOnExpireCbk ≠ none →
    (env.timers.timerTable i).cancelled = true → env.timers.timerBitmap i = false →
    ∃ timers, env.timers.timerRestart w env.rtcCounter id newInterval = some (timers, true)

/-- No call that returns 0 has armed the timer. -/
theorem not_rearmed (hr : Reachable w env) (hexpired : (env.timers.timerTable id).OneShotExpired)
    (newInterval deadline : ℕ) : ¬Rearmed w id deadline { env with
      timers := env.timers.setTimer id
        ((env.timers.timerTable id).restarted w env.rtcCounter newInterval) } := by
  generalize htimer : (env.timers.timerTable id).restarted w env.rtcCounter newInterval = timer
  have hperiodic : timer.periodic = false := by
    rw [← htimer]
    exact hexpired.1
  intro hrearmed
  have hactive : env.timers.timerBitmap id = true :=
    hrearmed.active { env with timers := env.timers.setTimer id timer } .refl
  -- the handler of the timer is running, and the bit is cleared when it returns
  have hpc := hr.timersOk.expired id hactive hexpired.2
  have hret : step w { env with timers := env.timers.setTimer id timer } (.ret 0)
      = some { env with
          timers := (env.timers.setTimer id timer).afterExpire w env.rtcCounter id
          pc := .expire (id + 1) } := by
    rw [step, Env.ret, hpc]
  have hoff := hrearmed.active _ (.single ⟨.ret 0, hret, ?_, by simp⟩)
  · rw [Timers.afterExpire, if_pos (by simpa using hperiodic)] at hoff
    simp at hoff
  · rintro (h | h) <;> cases h

/-- **Restarts** do what they should just if there is nothing to do: if the identifier is negative,
or the timer is neither an expired one-shot timer nor a cancelled one. -/
theorem restart_rearms_iff (hr : Reachable w env) (id : ℤ) (newInterval : ℕ) :
    RestartRight w env id newInterval ↔ id < 0 ∨ ∃ i : ℕ, id = i ∧ i < maxTimersNo ∧
      ¬(env.timers.timerTable i).OneShotExpired ∧
      ¬((env.timers.timerTable i).handlerOnExpireCbk ≠ none ∧
        (env.timers.timerTable i).cancelled = true ∧ env.timers.timerBitmap i = false) := by
  constructor
  · intro hright
    rcases Int.lt_or_le id 0 with hneg | hnonneg
    · exact .inl hneg
    · obtain ⟨i, rfl⟩ := Int.eq_ofNat_of_zero_le hnonneg
      have hid : i < maxTimersNo := by
        by_contra hge
        have hbeyond : (maxTimersNo : ℤ) ≤ (i : ℤ) := by omega
        have hout := hright.outside (.inr hbeyond)
        rw [timerRestart_beyond hbeyond] at hout
        cases hout
      refine .inr ⟨i, rfl, hid, ?_, ?_⟩
      · intro hexpired
        obtain ⟨-, heq⟩ | ⟨hno, -⟩ :=
          timerRestart_cases hid env.timers w env.rtcCounter newInterval
        · exact not_rearmed hr hexpired _ _ (hright.success i _ rfl heq).2
        · exact hno hexpired
      · rintro ⟨hcbk, hcan, hoff⟩
        obtain ⟨timers, hs⟩ := hright.cancelled i rfl hid hcbk hcan hoff
        obtain ⟨hexpired, heq⟩ | ⟨-, heq⟩ :=
          timerRestart_cases hid env.timers w env.rtcCounter newInterval
        · exact not_rearmed hr hexpired _ _ (hright.success i _ rfl heq).2
        · cases hs.symm.trans heq
  · rintro (hneg | ⟨i, rfl, hid, hno, hstopped⟩)
    · have heq := timerRestart_neg hneg env.timers w env.rtcCounter newInterval
      refine ⟨fun _ => heq, ?_, ?_⟩
      · rintro i timers rfl
        omega
      · rintro i rfl
        omega
    · have heq := ((timerRestart_cases hid env.timers w env.rtcCounter
        newInterval).resolve_left fun h => hno h.1).2
      refine ⟨?_, ?_, ?_⟩
      · intro hout
        omega
      · intro j timers _ hs
        cases hs.symm.trans heq
      · intro j hj _ hcbk hcan hoff
        obtain rfl : i = j := by exact_mod_cast hj
        exact absurd ⟨hcbk, hcan, hoff⟩ hstopped

/-- The root task restarts a timer that is active, which is refused. -/
theorem restart_rearms_iff_active : ∃ env : Env, Reachable 64 env ∧
    env.timers.timerBitmap 0 = true ∧ RestartRight 64 env 0 3 := by
  have heval : ∃ env, runActs 64 boot (toRoot ++ [Act.api (.timerStart (some 2) none 5 0 false)])
        = some env ∧ env.timers.timerBitmap 0 = true ∧
      env.timers.timerTable 0 = ⟨some 2, none, 0, 5, false, false, false, 5⟩ := by decide +kernel
  obtain ⟨env, hrun, hactive, htimer⟩ := heval
  have hr : Reachable 64 env := Reachable.runActs .boot hrun
  refine ⟨env, hr, hactive, (restart_rearms_iff hr 0 3).mpr (.inr ⟨0, rfl, by decide, ?_, ?_⟩)⟩
  · rintro ⟨-, hexpired⟩
    rw [htimer] at hexpired
    cases hexpired
  · rintro ⟨-, hcan, -⟩
    rw [htimer] at hcan
    cases hcan

/-- **Restarts that arm nothing.**  A one-shot timer of the root task has expired: the restart
returns 0, and the handler is not called again, until the timer is deleted.  A timer has been
cancelled, and the scheduler has seen that: the restart is refused.  And with the first
identifier beyond the table, the call is undefined. -/
theorem restart_arms_nothing :
    (∃ env timers, Reachable 64 env ∧ env.pc = .running ∧ Stopped env.timers 0 ∧
      env.timers.timerRestart 64 env.rtcCounter ((0 : ℕ) : ℤ) 3 = some (timers, true) ∧
      (timers.timerTable 0).rtcTimeout = 9 ∧ timers.timerBitmap 0 = false ∧
      ∀ env', ReflTransGen (StepWhere 64 fun _ act =>
        act ≠ .api (.timerDelete ((0 : ℕ) : ℤ))) { env with timers } env' → ¬Expires env' 0) ∧
    (∃ env, Reachable 64 env ∧ env.pc = .running ∧ Stopped env.timers 0 ∧
      env.timers.timerRestart 64 env.rtcCounter ((0 : ℕ) : ℤ) 3 = some (env.timers, false)) ∧
    ∀ env : Env, env.timers.timerRestart 64 env.rtcCounter 4 3 = none := by
  refine ⟨?_, ?_, fun env => timerRestart_beyond (by decide) env.rtcCounter 3⟩
  · have heval : ∃ env, runActs 64 boot (toRoot ++ [Act.api (.timerStart (some 2) none 5 0 false),
          .block (.tmWkafter 0), .updateRtc 6, .sched, .sched, .ret 0] ++
          List.replicate 23 Act.sched) = some env ∧ env.pc = .running ∧ env.rtcCounter = 6 ∧
        env.timers.timerBitmap 0 = false ∧
        env.timers.timerTable 0 = ⟨some 2, none, 0, 5, false, true, false, 5⟩ := by decide +kernel
    obtain ⟨env, hrun, hpc, hrtc, hoff, htimer⟩ := heval
    have hr : Reachable 64 env := Reachable.runActs .boot hrun
    have hexpired : (env.timers.timerTable 0).OneShotExpired := by
      rw [htimer]
      exact ⟨rfl, rfl⟩
    have hcbk : (env.timers.timerTable 0).handlerOnExpireCbk ≠ none := by
      rw [htimer]
      exact Option.some_ne_none 2
    obtain ⟨-, heq⟩ | ⟨hno, -⟩ :=
      timerRestart_cases (by decide : 0 < maxTimersNo) env.timers 64 env.rtcCounter 3
    · refine ⟨env, _, hr, hpc, ⟨hcbk, .inl hexpired⟩, heq, ?_, hoff, fun env' hrun' => ?_⟩
      · rw [hrtc, htimer]
        rfl
      · exact run_silent hr hexpired hcbk (by decide) heq hrun'
    · exact absurd hexpired hno
  · have heval : ∃ env, runActs 64 boot (toRoot ++ [Act.api (.timerStart (some 2) none 100 0 false),
          .api (.timerCancel 0), .block (.tmWkafter 0)] ++ List.replicate 25 Act.sched) = some env ∧
        env.pc = .running ∧ env.timers.timerBitmap 0 = false ∧
        env.timers.timerTable 0 = ⟨some 2, none, 0, 100, false, false, true, 100⟩ := by
      decide +kernel
    obtain ⟨env, hrun, hpc, hoff, htimer⟩ := heval
    have hcbk : (env.timers.timerTable 0).handlerOnExpireCbk ≠ none := by
      rw [htimer]
      exact Option.some_ne_none 2
    have hcan : (env.timers.timerTable 0).cancelled = true := by rw [htimer]
    refine ⟨env, Reachable.runActs .boot hrun, hpc, ⟨hcbk, .inr ⟨hcan, hoff⟩⟩, ?_⟩
    obtain ⟨hexpired, -⟩ | ⟨-, heq⟩ :=
      timerRestart_cases (by decide : 0 < maxTimersNo) env.timers 64 env.rtcCounter 3
    · rw [htimer] at hexpired
      cases hexpired.2
    · exact heq

end Kernel
