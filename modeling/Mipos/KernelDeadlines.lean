/-
Deadlines on a counter that wraps around.

`mipos_tm_msleep` and `mipos_timer_start` store the counter plus the interval, modulo
`2 ^ w`, and the scheduler compares the sum with the counter.

* `lt_deadline_iff`, `lt_rearmed_iff` — for which counters and intervals the comparison
  does not come out true too early.
* `TimedRun` — a run of the kernel with the quanta that are added in it.
* `Asleep`, `Armed` — what a sleeping task and a started timer keep on their way.
* `sleepsInFull_of_fits`, `timersInFull_of_fits` — a sleep and a timer that fit into what
  is left of the counter do not end early.
-/
import Mipos.KernelContexts
import Mipos.TimerRuns

namespace Kernel

variable {w : ℕ} {env env' : Env} {act : Act} {timers timers' : Timers} {t id : ℕ}

/-! ### Counters modulo `m` -/

/-- A deadline `k ≤ n` ahead of `c` lies ahead of the counter until `n` quanta have passed
just if it is `n` ahead and the sum does not wrap around. -/
theorem lt_deadline_iff {m c n k : ℕ} (hc : c < m) (hk : k ≤ n) :
    (∀ e < n, (c + e) % m < (c + k) % m) ↔ n = 0 ∨ (k = n ∧ c + n < m) := by
  constructor
  · intro h
    rcases Nat.eq_zero_or_pos n with hn | hn
    · exact .inl hn
    · right
      have hkn : k = n := by
        by_contra hne
        exact Nat.lt_irrefl _ (h k (by omega))
      subst hkn
      refine ⟨rfl, ?_⟩
      by_contra hwrap
      rcases Nat.lt_or_ge k m with hlt | hge
      · -- the sum has wrapped around to a value before the counter
        have hnow := h 0 hn
        have hsum : (c + k) % m = c + k - m := by
          rw [Nat.mod_eq_sub_mod (by omega), Nat.mod_eq_of_lt (by omega)]
        rw [hsum, Nat.add_zero, Nat.mod_eq_of_lt hc] at hnow
        omega
      · -- a whole turn of the counter earlier it has the value of the deadline
        have hturn := h (k - m) (by omega)
        rw [show c + k = c + (k - m) + m by omega, Nat.add_mod_right] at hturn
        exact Nat.lt_irrefl _ hturn
  · rintro (rfl | ⟨rfl, hlt⟩) e he
    · omega
    · rw [Nat.mod_eq_of_lt hlt, Nat.mod_eq_of_lt (by omega)]
      omega

/-- The same for a deadline that is set again at some moment `e₀`. -/
theorem lt_rearmed_iff {m c n : ℕ} (hc : c < m) :
    (∀ e e₀, e₀ ≤ e → e < n → (c + e) % m < (c + e₀ + n) % m) ↔ n = 0 ∨ c + 2 * n ≤ m := by
  constructor
  · intro h
    rcases (lt_deadline_iff hc (Nat.le_refl n)).mp fun e he => h e 0 (Nat.zero_le e) he with
      hn | ⟨-, hlt⟩
    · exact .inl hn
    · right
      by_contra hgt
      -- the deadline is 0 if it is set again when the counter is `n` before its end
      have hzero := h (m - c - n) (m - c - n) (Nat.le_refl _) (by omega)
      rw [show c + (m - c - n) + n = m by omega, Nat.mod_self] at hzero
      exact Nat.not_lt_zero _ hzero
  · rintro (rfl | hle) e e₀ he₀ he
    · omega
    · rw [Nat.mod_eq_of_lt (by omega), Nat.mod_eq_of_lt (by omega)]
      omega

/-! ### Runs in time -/

/-- The quanta that a step adds to the counter. -/
def Act.quanta : Act → ℕ
  | .updateRtc quantum => quantum
  | _ => 0

/-- A step whose action meets `P`, with the number of quanta that were added up to it. -/
abbrev TimedStep (w : ℕ) (P : Env → Act → Prop) : ℕ × Env → ℕ × Env → Prop :=
  RecordStep w fun e env act _ e' => P env act ∧ e' = e + act.quanta

/-- A run in which `e` quanta are added. -/
abbrev TimedRun (w : ℕ) (P : Env → Act → Prop) : Env → ℕ → Env → Prop :=
  RecordRun w (fun e env act _ e' => P env act ∧ e' = e + act.quanta) 0

/-- Nothing but `mipos_update_rtc` changes the counter. -/
theorem step_rtcCounter (hs : step w env act = some env') (hrtc : env.rtcCounter < 2 ^ w) :
    env'.rtcCounter = (env.rtcCounter + act.quanta) % 2 ^ w := by
  have hkept : env'.rtcCounter = env.rtcCounter → act.quanta = 0 →
      env'.rtcCounter = (env.rtcCounter + act.quanta) % 2 ^ w := by
    intro hsame hzero
    rw [hsame, hzero, Nat.add_zero, Nat.mod_eq_of_lt hrtc]
  cases act with
  | updateRtc quantum =>
    cases hs
    rfl
  | sched =>
    refine hkept ?_ rfl
    rw [step, Env.sched] at hs
    split at hs
    · cases hs
      rfl
    · obtain ⟨timers, pc, rfl, -⟩ := visitTimer_cases hs
      rfl
    · rw [Env.selectRound] at hs
      split at hs
      · split at hs
        · cases hs
          rfl
        · cases hs
      · cases hs
        exact (selectEnd_timers _ _).1.rtcCounter
    · exact (visitTask_timers hs).1.rtcCounter
    · cases hs
  | api call =>
    obtain ⟨-, hs⟩ := step_api hs
    exact hkept (api_timers hs).2 rfl
  | block call =>
    refine hkept ?_ rfl
    obtain ⟨-, rfl⟩ := step_block hs
    cases call with
    | tSuspend | tWaitforSignal _ | tmWkafter _ | tmMsleep _ => rfl
    | qReceive q =>
      rw [Env.block]
      split <;> rfl
  | ret value =>
    refine hkept ?_ rfl
    rw [step, Env.ret] at hs
    split at hs
    · cases hs
      rfl
    · cases hs
      rfl
    · exact (rtReturn_timers hs).1.rtcCounter
    · cases hs
      rfl
    · cases hs
      rfl
    · cases hs

theorem Reachable.rtcCounter_lt (hr : Reachable w env) : env.rtcCounter < 2 ^ w := by
  obtain ⟨root, param, queues, hrun⟩ := hr
  induction hrun with
  | refl => exact Nat.two_pow_pos w
  | tail _ hstep ih =>
    obtain ⟨act, hs⟩ := hstep
    rw [step_rtcCounter hs ih]
    exact Nat.mod_lt _ (Nat.two_pow_pos w)

/-- The counter keeps count, and what holds at the start and is kept by the steps before
`n` quanta have been added holds until then. -/
theorem TimedRun.induction {P : Env → Act → Prop} {c n e : ℕ} (hrun : TimedRun w P env e env')
    (hc : c < 2 ^ w) (hrtc : env.rtcCounter = c) {I : ℕ → Env → Prop} (hstart : I 0 env)
    (hstep : ∀ {e env₁ act env₂}, I e env₁ → env₁.rtcCounter = (c + e) % 2 ^ w → e < n →
      step w env₁ act = some env₂ → P env₁ act → I (e + act.quanta) env₂) (he : e < n) :
    env'.rtcCounter = (c + e) % 2 ^ w ∧ I e env' := by
  refine hrun.induct (I := fun e env => e < n → env.rtcCounter = (c + e) % 2 ^ w ∧ I e env) ?_ ?_ he
  · refine fun _ => ⟨?_, hstart⟩
    rw [hrtc, Nat.add_zero, Nat.mod_eq_of_lt hc]
  · rintro e env₁ act env₂ _ _ ih hs ⟨hP, rfl⟩ hlt
    obtain ⟨hcount, hI⟩ := ih (by omega)
    refine ⟨?_, hstep hI hcount (by omega) hs hP⟩
    rw [step_rtcCounter hs (hcount ▸ Nat.mod_lt _ (Nat.two_pow_pos w)), hcount, Nat.mod_add_mod,
      Nat.add_assoc]

/-! ### Sleeping tasks -/

/-- The task in slot `t` is inside `mipos_tm_msleep`, and the step does not send it the
signal of the clock. -/
def Sleeps (t : ℕ) (env : Env) (act : Act) : Prop :=
  (env.taskTable t).stack = .saved sigtmr none ∧ ¬Sends env act t 3

/-- The next step of the scheduler wakes `t`, and `MIPOS_SIGTMR` is a signal that it is
woken by. -/
structure WokenByTimer (env : Env) (t : ℕ) : Prop where
  pc : env.pc = .tsm
  currentTask : env.currentTask = t
  status : (env.taskTable t).status = taskSuspended
  signal : (((env.taskTable t).countTick.checkRtc env.rtcCounter).signalPending &&&
    (env.taskTable t).signalWaiting).getLsbD 3 = true

/-- A task that sleeps until the counter reaches `timeout`. -/
structure Asleep (timeout : ℕ) (sl : Slot) : Prop where
  offCpu : sl.onCpu = false
  stack : sl.task.stack = .saved sigtmr none
  rtcTimeout : sl.task.rtcTimeout = timeout
  quiet : sl.task.signalPending.getLsbD 3 = false

/-- Calls on a descriptor leave the clocks alone. -/
theorem TaskEdit.clocks {task task' : Task} (hedit : TaskEdit env act t task task') :
    task'.timerTickCount = task.timerTickCount ∧ task'.rtcTimeout = task.rtcTimeout := by
  cases hedit with
  | restart newParam _ _ =>
    rw [Task.restart]
    split <;> exact ⟨rfl, rfl⟩
  | same | retValue _ _ _ | notifySignal _ _ _ | notifyQueue _ _ _ | freeze _ _ | unfreeze _ _
  | sigIgnore _ _ _ | sigAllow _ _ _ => exact ⟨rfl, rfl⟩

/-- The tick count has nothing to do with the real-time clock. -/
theorem countTick_rtc (task : Task) : task.countTick.rtcTimeout = task.rtcTimeout ∧
    task.countTick.signalPending.getLsbD 3 = task.signalPending.getLsbD 3 := by
  rw [Task.countTick]
  split
  · split
    · exact ⟨rfl, rfl⟩
    · exact ⟨rfl, by simp [sigalm]⟩
  · exact ⟨rfl, rfl⟩

/-- The clock does nothing before the deadline, nor without one. -/
theorem checkRtc_early {task : Task} {rtcCounter : ℕ}
    (h : task.rtcTimeout ≠ 0 → rtcCounter < task.rtcTimeout) :
    task.checkRtc rtcCounter = task := by
  rw [Task.checkRtc]
  split
  · rw [if_neg]
    rintro ⟨hne, hge⟩
    exact Nat.not_lt.mpr hge (h hne)
  · rfl

theorem countTick_checkRtc_early {task : Task} {rtcCounter : ℕ}
    (h : task.rtcTimeout ≠ 0 → rtcCounter < task.rtcTimeout) :
    task.countTick.checkRtc rtcCounter = task.countTick := by
  refine checkRtc_early ?_
  rw [(countTick_rtc task).1]
  exact h

/-- A visit before the deadline keeps it. -/
theorem visitSuspended_early {task : Task} {rtcCounter : ℕ}
    (h : task.rtcTimeout ≠ 0 → rtcCounter < task.rtcTimeout) :
    (task.visitSuspended rtcCounter).rtcTimeout = task.rtcTimeout := by
  dsimp only [Task.visitSuspended]
  rw [countTick_checkRtc_early h]
  split <;> exact (countTick_rtc task).1

/-- **One step of a sleeping task**, as long as the deadline is not reached. -/
theorem Asleep.step {timeout : ℕ} {sl sl' : Slot} (h : Asleep timeout sl)
    (hstep : SlotStep env act t sl sl') (hsend : ¬Sends env act t 3)
    (hearly : timeout ≠ 0 → env.rtcCounter < timeout)
    (hstack : sl'.task.stack = .saved sigtmr none) : Asleep timeout sl' := by
  obtain ⟨hoff, -, rfl, hquiet⟩ := h
  -- an edit of the descriptor raises the signal only if it sends it
  have hedits : ∀ {task task' : Task}, TaskEdit env act t task task' →
      task.signalPending.getLsbD 3 = false → task'.rtcTimeout = task.rtcTimeout ∧
        task'.signalPending.getLsbD 3 = false := by
    intro task task' hedit hclear
    refine ⟨hedit.clocks.2, Bool.eq_false_iff.mpr fun hset => ?_⟩
    rcases hedit.sends hset with h | h | ⟨h, -⟩
    · rw [hclear] at h
      cases h
    · exact hsend h
    · cases h
  cases hstep with
  | edit hedit =>
    obtain ⟨htimeout, hclear⟩ := hedits hedit hquiet
    exact ⟨hoff, hstack, htimeout, hclear⟩
  | create _ _ _ => cases hstack
  | delete _ => exact ⟨hoff, hstack, rfl, by simp [Task.delete]⟩
  | promote _ _ hedit =>
    obtain ⟨htimeout, hclear⟩ := hedits hedit hquiet
    exact ⟨rfl, hstack, htimeout, hclear⟩
  | suspend _ _ _ _ _ | finish _ _ => cases hoff
  | zombie _ _ => exact ⟨rfl, hstack, rfl, hquiet⟩
  | @visit task _ _ =>
    refine ⟨rfl, hstack, visitSuspended_early hearly, ?_⟩
    have hclear := (countTick_rtc task).2
    rw [hquiet] at hclear
    dsimp only [Task.visitSuspended]
    rw [countTick_checkRtc_early hearly]
    split
    · rw [BitVec.getLsbD_and, hclear, Bool.false_and]
    · exact hclear
  | begin _ _ _ | resume _ _ _ _ => cases hstack

/-- A sleeping task is not woken by the clock before its deadline. -/
theorem Asleep.not_woken {timeout : ℕ} (h : Asleep timeout (env.slot t))
    (hearly : timeout ≠ 0 → env.rtcCounter < timeout) : ¬WokenByTimer env t := by
  intro hwoken
  have hstored : (env.taskTable t).rtcTimeout = timeout := h.rtcTimeout
  have hquiet : (env.taskTable t).signalPending.getLsbD 3 = false := h.quiet
  have hsig := hwoken.signal
  rw [countTick_checkRtc_early (by rw [hstored]; exact hearly), BitVec.getLsbD_and,
    (countTick_rtc _).2, hquiet] at hsig
  cases hsig

/-! ### Started timers -/

/-- A timer of slot `id` that was started with the interval `n` when the counter was at
`c`, `e` quanta ago, and has not expired.  The return of the handler of its slot arms it
again if it is periodic, and deactivates it if it is not; it was started by that handler
(`own`) if the handler has not returned yet. -/
structure Armed (w c n : ℕ) (own periodic : Bool) (id e : ℕ) (env : Env) : Prop where
  handler : (env.timers.timerTable id).handlerOnExpireCbk ≠ none
  expired : (env.timers.timerTable id).expired = false
  interval : (env.timers.timerTable id).interval = n
  repeats : (env.timers.timerTable id).periodic = periodic
  deadline : ∃ e₀ ≤ e, (env.timers.timerTable id).rtcTimeout = (c + e₀ + n) % 2 ^ w ∧
    (own = false → e₀ = 0)
  running : env.pc = .onExpire id → own = true
  inactive : own = true → periodic = false → env.timers.timerBitmap id = true →
    env.pc = .onExpire id

variable {c n e : ℕ} {own periodic : Bool}

/-- Steps that do not write the slot, but for the flag that it is cancelled. -/
theorem Armed.keep (h : Armed w c n own periodic id e env) {e' : ℕ} (he : e ≤ e')
    (hbit : env'.timers.timerBitmap id = true → env.timers.timerBitmap id = true)
    (htimer : ∃ cancelled, env'.timers.timerTable id
      = { env.timers.timerTable id with cancelled })
    (hpc : env'.pc = .onExpire id ↔ env.pc = .onExpire id) :
    Armed w c n own periodic id e' env' := by
  obtain ⟨cancelled, htimer⟩ := htimer
  obtain ⟨e₀, he₀, hdeadline, hfirst⟩ := h.deadline
  refine ⟨?_, ?_, ?_, ?_, ⟨e₀, Nat.le_trans he₀ he, ?_, hfirst⟩, fun h' => h.running (hpc.mp h'),
    fun hown hp hb => hpc.mpr (h.inactive hown hp (hbit hb))⟩ <;> rw [htimer]
  · exact h.handler
  · exact h.expired
  · exact h.interval
  · exact h.repeats
  · exact hdeadline

theorem Armed.same (h : Armed w c n own periodic id e env) {e' : ℕ} (he : e ≤ e')
    (hsame : SameTimer env.timers env'.timers id)
    (hpc : env'.pc = .onExpire id ↔ env.pc = .onExpire id) :
    Armed w c n own periodic id e' env' :=
  h.keep he (fun hbit => hsame.1 ▸ hbit) ⟨_, hsame.2⟩ hpc

/-- Calls do not change a timer that has not expired, unless they delete it. -/
theorem Armed.call (h : Armed w c n own periodic id e env) {e' : ℕ} (he : e ≤ e')
    (hcall : TimerCall w env.rtcCounter env.timers act env'.timers)
    (hdel : act ≠ .api (.timerDelete id)) (hpc : env'.pc = env.pc) :
    Armed w c n own periodic id e' env' := by
  have hpc' : env'.pc = .onExpire id ↔ env.pc = .onExpire id := by rw [hpc]
  generalize htimers : env'.timers = timers' at hcall
  cases hcall with
  | other => exact h.same he (by rw [htimers]; exact ⟨rfl, rfl⟩) hpc'
  | start i hfree hcbk hexpired htimeout =>
    have hne : id ≠ i := by
      rintro rfl
      exact h.handler hfree
    exact h.same he (by rw [htimers]; simp [SameTimer, hne]) hpc'
  | cancel i =>
    rcases eq_or_ne id i with rfl | hne
    · refine h.keep he ?_ ⟨true, ?_⟩ hpc' <;> rw [htimers]
      · exact fun hbit => hbit
      · simp
    · exact h.same he (by rw [htimers]; simp [SameTimer, hne]) hpc'
  | delete i timer =>
    have hne : id ≠ i := by
      rintro rfl
      exact hdel rfl
    exact h.same he (by rw [htimers]; simp [SameTimer, hne]) hpc'
  | restart i newInterval timer hexpired hexpired' hcbk =>
    have hne : id ≠ i := by
      rintro rfl
      rw [h.expired] at hexpired
      cases hexpired
    exact h.same he (by rw [htimers]; simp [SameTimer, hne]) hpc'

/-- The return of the handler of its slot. -/
theorem Armed.rearm (h : Armed w c n own periodic id e env)
    (hrtc : env.rtcCounter = (c + e) % 2 ^ w) {e' : ℕ} (he : e ≤ e')
    (hpc : env.pc = .onExpire id)
    (htimers : env'.timers = env.timers.afterExpire w env.rtcCounter id)
    (hpc' : env'.pc ≠ .onExpire id) : Armed w c n own periodic id e' env' := by
  obtain rfl := h.running hpc
  obtain ⟨e₀, he₀, hdeadline, -⟩ := h.deadline
  cases periodic with
  | false =>
    rw [Timers.afterExpire, if_pos h.repeats] at htimers
    refine ⟨?_, ?_, ?_, ?_, ⟨e₀, Nat.le_trans he₀ he, ?_, by simp⟩, fun h' => absurd h' hpc', ?_⟩ <;>
      rw [htimers]
    · exact h.handler
    · exact h.expired
    · exact h.interval
    · exact h.repeats
    · exact hdeadline
    · simp
  | true =>
    rw [Timers.afterExpire, if_neg (by simp [h.repeats])] at htimers
    refine ⟨?_, ?_, ?_, ?_, ⟨e, he, ?_, by simp⟩, fun h' => absurd h' hpc', by simp⟩ <;>
      rw [htimers]
    · simpa using h.handler
    · simp
    · simpa using h.interval
    · simpa using h.repeats
    · simp [hrtc, h.interval, Nat.mod_add_mod]

/-- **One step of a started timer** that does not call its handler. -/
theorem Armed.step (h : Armed w c n own periodic id e env)
    (hrtc : env.rtcCounter = (c + e) % 2 ^ w) {e' : ℕ} (he : e ≤ e')
    (hstep : TimerStep w env act env') (hdel : act ≠ .api (.timerDelete id))
    (hearly : env.pc = .expire id → env.timers.visit env.rtcCounter id ≠ .expire) :
    Armed w c n own periodic id e' env' := by
  cases hstep with
  | call huser hcall hpc _ => exact h.call he hcall hdel hpc
  | tick htimers hpc => exact h.same he (by rw [htimers]; exact ⟨rfl, rfl⟩) (by rw [hpc])
  | epoch hpc htimers hpc' _ =>
    refine h.same he (by rw [htimers]; exact ⟨rfl, rfl⟩) ?_
    rw [hpc', hpc]
    split <;> simp
  | visit i hpc hvisit _ =>
    have hpcs : ∀ {pc : Pc}, pc ≠ .onExpire id → (pc = .onExpire id ↔ env.pc = .onExpire id) := by
      intro pc hne
      rw [hpc]
      exact iff_of_false hne (by simp)
    generalize htimers : env'.timers = timers', hpc' : env'.pc = pc' at hvisit
    cases hvisit with
    | last _ =>
      exact h.same he (by rw [htimers]; exact selectNext_same _ _) (hpcs (by rw [hpc']; simp))
    | pass _ _ => exact h.same he (by rw [htimers]; exact ⟨rfl, rfl⟩) (hpcs (by rw [hpc']; simp))
    | cancel _ _ hto =>
      refine h.keep he ?_ ⟨_, by rw [htimers]; rfl⟩ (hpcs ?_)
      · rw [htimers]
        rcases eq_or_ne id i with rfl | hne
        · simp
        · simp [hne]
      · rw [hpc']
        rcases hto with rfl | rfl <;> simp
    | expire _ hdue =>
      have hne : id ≠ i := by
        rintro rfl
        exact hearly hpc hdue
      refine h.same he ?_ (hpcs ?_)
      · rw [htimers]
        simp [SameTimer, Timers.markExpired, hne]
      · rw [hpc']
        simpa using hne.symm
  | cancelled i hpc htimers hpc' _ =>
    exact h.same he (by rw [htimers]; exact ⟨rfl, rfl⟩) (by rw [hpc, hpc']; simp)
  | expired i hact hpc htimers hpc' _ =>
    rcases eq_or_ne id i with rfl | hne
    · exact h.rearm hrtc he hpc htimers (by rw [hpc']; simp)
    · refine h.same he ?_ ?_
      · rw [htimers]
        exact (afterExpire_cases w env.timers env.rtcCounter i).1 id hne
      · rw [hpc, hpc']
        simpa using hne.symm
  | tasks hpc _ hpc' htimers _ =>
    refine h.same he (by rw [htimers]; exact ⟨rfl, rfl⟩) ?_
    refine iff_of_false ?_ ?_ <;> intro hin
    · rw [hin] at hpc'
      cases hpc'
    · rw [hin] at hpc
      cases hpc

/-! ### No time ends early -/

/-- A task that calls `mipos_tm_msleep(n)` when the counter is at `c` is not woken by the
clock before `n` quanta have been added. -/
def SleepsInFull (w c n : ℕ) : Prop :=
  ∀ env e env', Reachable w env → env.pc = .running → env.rtcCounter = c →
    (env.taskTable env.taskContextPtr).signalPending.getLsbD 3 = false →
    TimedRun w (Sleeps env.taskContextPtr) (env.block w (.tmMsleep n)) e env' →
    Sleeps env.taskContextPtr env' .sched → WokenByTimer env' env.taskContextPtr → n ≤ e

/-- A sleep that fits into 32 bits and into what is left of the counter does not end early,
nor does one with the deadline 0, which is no deadline. -/
theorem sleepsInFull_of_fits (hc : c < 2 ^ w)
    (hfits : n = 0 ∨ (c + n % 2 ^ 32) % 2 ^ w = 0 ∨ (n < 2 ^ 32 ∧ c + n < 2 ^ w)) :
    SleepsInFull w c n := by
  intro env e env' hr hpc hrtc hquiet hrun hsleeps hwoken
  by_contra hearly
  have hahead : (c + n % 2 ^ 32) % 2 ^ w ≠ 0 →
      ∀ e < n, (c + e) % 2 ^ w < (c + n % 2 ^ 32) % 2 ^ w := by
    intro hne
    refine (lt_deadline_iff hc (Nat.mod_le ..)).mpr ?_
    rcases hfits with hn | hzero | ⟨hcount, hlt⟩
    · exact .inl hn
    · exact absurd hzero hne
    · exact .inr ⟨Nat.mod_eq_of_lt hcount, hlt⟩
  -- as long as the task is in its call, it sleeps
  obtain ⟨hcount, hasleep⟩ := hrun.induction (n := n) (I := fun _ env' =>
    (env'.taskTable env.taskContextPtr).stack = .saved sigtmr none →
      Asleep ((c + n % 2 ^ 32) % 2 ^ w) (env'.slot env.taskContextPtr)) hc hrtc
    (by
      intro hstack
      refine ⟨rfl, hstack, ?_, ?_⟩
      · simp [Env.slot, Env.block, Env.suspend, hrtc]
      · simpa [Env.slot, Env.block, Env.suspend, Task.suspend, Task.setWaitForSignal]
          using hquiet)
    (by
      rintro e env₁ act env₂ hasleep hcount he hs ⟨hstack, hsend⟩
      exact (hasleep hstack).step (step_slot hs _) hsend
        (fun hne => hcount ▸ hahead hne e he)) (by omega)
  exact (hasleep hsleeps.1).not_woken (fun hne => hcount ▸ hahead hne e (by omega)) hwoken

/-- The next step of the pass calls the on-expire handler of timer `id`. -/
def Expires (env : Env) (id : ℕ) : Prop :=
  env.pc = .expire id ∧ env.timers.visit env.rtcCounter id = .expire

/-- A timer that is started with the interval `n` when the counter is at `c` does not
expire before `n` quanta have been added. -/
def TimersInFull (w c n : ℕ) (own periodic : Bool) : Prop :=
  ∀ env timers id e env' onExpireHandler onCancelHandler context, Reachable w env →
    env.pc.inUserCode = true → env.rtcCounter = c → (env.pc = .onExpire id ↔ own = true) →
    env.timers.timerStart w c onExpireHandler onCancelHandler n context periodic
      = (timers, some id) →
    TimedRun w (fun _ act => act ≠ .api (.timerDelete id)) { env with timers } e env' →
    Expires env' id → n ≤ e

theorem Armed.start {onExpireHandler onCancelHandler : Option ℕ} {context : ℕ}
    (hs : env.timers.timerStart w c onExpireHandler onCancelHandler n context periodic
      = (timers, some id)) (hown : env.pc = .onExpire id ↔ own = true) :
    Armed w c n own periodic id 0 { env with timers } := by
  rw [Timers.timerStart] at hs
  split at hs
  · cases hs
  · rename_i hcbk
    split at hs
    · cases hs
    · cases hs
      refine ⟨?_, ?_, ?_, ?_, ⟨0, Nat.le_refl 0, ?_, fun _ => rfl⟩, hown.mp,
        fun h _ _ => hown.mpr h⟩
      · simpa using hcbk
      · simp
      · simp
      · simp
      · simp

/-- A timer that has its time left does not expire. -/
theorem Armed.not_expires (h : Armed w c n own periodic id e env) (hc : c < 2 ^ w)
    (hrtc : env.rtcCounter = (c + e) % 2 ^ w) (he : e < n)
    (hfits : if own then periodic = false ∨ c + 2 * n ≤ 2 ^ w else c + n < 2 ^ w) :
    ¬Expires env id := by
  rintro ⟨hpc, hvisit⟩
  obtain ⟨e₀, he₀, hdeadline, hfirst⟩ := h.deadline
  have hactive : env.timers.timerBitmap id = true := by
    by_contra hoff
    rw [Timers.visit, if_neg hoff] at hvisit
    cases hvisit
  have hahead : env.rtcCounter < (env.timers.timerTable id).rtcTimeout := by
    rw [hrtc, hdeadline]
    cases own with
    | false =>
      rw [hfirst rfl]
      exact (lt_deadline_iff hc (Nat.le_refl n)).mpr (.inr ⟨rfl, hfits⟩) e he
    | true =>
      rcases hfits with hone | hfits
      · -- the return of the handler has deactivated it
        have hin := h.inactive rfl hone hactive
        rw [hpc] at hin
        cases hin
      · exact (lt_rearmed_iff hc).mpr (.inr hfits) e e₀ he₀ he
  rw [Timers.visit, if_pos hactive] at hvisit
  split at hvisit
  · cases hvisit
  · rw [if_neg (Nat.not_le.mpr hahead)] at hvisit
    cases hvisit

theorem timersInFull_of_fits (hc : c < 2 ^ w)
    (hfits : n = 0 ∨ if own then periodic = false ∨ c + 2 * n ≤ 2 ^ w else c + n < 2 ^ w) :
    TimersInFull w c n own periodic := by
  intro env timers id e env' onExpireHandler onCancelHandler context hr _ hrtc hown hs hrun hexp
  by_contra hlt
  have hfits : if own then periodic = false ∨ c + 2 * n ≤ 2 ^ w else c + n < 2 ^ w :=
    hfits.resolve_left (by omega)
  obtain ⟨hcount, harmed⟩ := hrun.induction (n := n) (I := Armed w c n own periodic id) hc hrtc
    (.start hs hown)
    (by
      intro e env₁ act env₂ harmed hcount he hstep hdel
      refine harmed.step hcount (Nat.le_add_right e _) (step_timers hstep) hdel ?_
      intro hpc hvisit
      exact harmed.not_expires hc hcount he hfits ⟨hpc, hvisit⟩) (by omega)
  exact harmed.not_expires hc hcount (by omega) hfits hexp

end Kernel
