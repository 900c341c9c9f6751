/-
Activations of timers.

A slot of the table holds one activation after another: a timer is started in it, and it is
free again when it is deleted.  The scheduler knows the slot only, not the activation.

* `ActivationStep` — what a step does to the timer in one slot.
* `cancelled_never_expires` — a cancelled timer does not expire, and its on-cancel handler is
  called at most once, until a timer is started in its slot.
* `stays_armed_iff` — a started timer stays active with its deadline, just if it was not started
  by the on-expire handler of the slot it was given.
* `own_slot_start_lost` — a handler that deletes its timer and starts another.
-/
import Mipos.TimerRestart

namespace Kernel

open Relation

variable {w : ℕ} {env env' : Env} {act : Act} {timers timers' : Timers} {id n : ℕ}

/-! ### What a step does to a slot -/

/-- The call starts a timer in slot `id`. -/
def StartsIn (w id : ℕ) (env : Env) (act : Act) : Prop :=
  ∃ onExpireHandler onCancelHandler interval context periodic,
    act = .api (.timerStart onExpireHandler onCancelHandler interval context periodic) ∧
    (env.timers.timerStart w env.rtcCounter onExpireHandler onCancelHandler interval context
      periodic).2 = some id

/-- What a step does to the timer in slot `id`. -/
inductive ActivationStep (w id : ℕ) (env : Env) (act : Act) (env' : Env) : Prop
  | kept (hsame : SameTimer env.timers env'.timers id)
      (hpc : env'.pc = .onExpire id → env.pc = .onExpire id)
  | started (hstart : StartsIn w id env act)
      (hfree : (env.timers.timerTable id).handlerOnExpireCbk = none)
  | cancelled (hact : act = .api (.timerCancel id))
      (hbit : env'.timers.timerBitmap id = env.timers.timerBitmap id)
      (htimer : env'.timers.timerTable id = { env.timers.timerTable id with cancelled := true })
  | deleted (hact : act = .api (.timerDelete id)) (hbit : env'.timers.timerBitmap id = false)
  | restarted (hexpired : (env.timers.timerTable id).OneShotExpired)
      (hbit : env'.timers.timerBitmap id = env.timers.timerBitmap id)
      (hcan : (env'.timers.timerTable id).cancelled = (env.timers.timerTable id).cancelled)
  | dropped (hact : act = .sched) (hpc : env.pc = .expire id)
      (hvisit : env.timers.visit env.rtcCounter id = .cancel)
      (hbit : env'.timers.timerBitmap id = false)
  | expired (hact : act = .sched) (hexpires : Expires env id)
  | returned (hpc : env.pc = .onExpire id)
      (htimers : env'.timers = env.timers.afterExpire w env.rtcCounter id)

/-- A call that returns another slot leaves slot `id` alone, and only a free slot is returned. -/
theorem timerStart_slot {onExpireHandler onCancelHandler : Option ℕ} {rtcCounter interval : ℕ}
    {context : ℕ} {periodic : Bool} {r : Option ℕ} (id : ℕ)
    (hs : timers.timerStart w rtcCounter onExpireHandler onCancelHandler interval context periodic
      = (timers', r)) :
    (r = some id ∧ (timers.timerTable id).handlerOnExpireCbk = none) ∨
      SameTimer timers timers' id := by
  rw [Timers.timerStart] at hs
  split at hs
  · cases hs
    exact .inr ⟨rfl, rfl⟩
  · split at hs
    · cases hs
      exact .inr ⟨rfl, rfl⟩
    · rename_i i hfind
      cases hs
      rcases eq_or_ne id i with rfl | hne
      · have hfree := List.find?_some hfind
        exact .inl ⟨rfl, Option.isNone_iff_eq_none.mp hfree⟩
      · right
        simp [SameTimer, hne]

theorem restart_activation {i : ℤ} {newInterval : ℕ} {r : Timers × Bool}
    (hs : env.timers.timerRestart w env.rtcCounter i newInterval = some r)
    (htimers : env'.timers = r.1) (id : ℕ)
    (hpc : env'.pc = .onExpire id → env.pc = .onExpire id) : ActivationStep w id env act env' := by
  rw [Timers.timerRestart] at hs
  split at hs
  · cases hs
    exact .kept (htimers ▸ ⟨rfl, rfl⟩) hpc
  · split at hs
    · cases hs
    · dsimp only at hs
      split at hs
      · rename_i hexpired
        cases hs
        rcases eq_or_ne id i.toNat with rfl | hne
        · exact .restarted hexpired (by rw [htimers]; rfl) (by rw [htimers]; simp)
        · exact .kept (by rw [htimers]; simp [SameTimer, hne]) hpc
      · cases hs
        exact .kept (htimers ▸ ⟨rfl, rfl⟩) hpc

theorem api_activation {call : Api} (hs : env.api w call = some env') (id : ℕ) :
    ActivationStep w id env (.api call) env' := by
  have hpc : env'.pc = .onExpire id → env.pc = .onExpire id :=
    fun h => (api_sameControl hs).pc ▸ h
  have hcall := (api_timers hs).1
  cases call with
  | timerStart onExpireHandler onCancelHandler interval context periodic =>
    cases hs
    rcases timerStart_slot id (rfl : env.timers.timerStart w env.rtcCounter
      onExpireHandler onCancelHandler interval context periodic = (_, _)) with
      ⟨hret, hfree⟩ | hsame
    · exact .started ⟨_, _, _, _, _, rfl, hret⟩ hfree
    · exact .kept hsame hpc
  | timerCancel i =>
    generalize htimers : env'.timers = timers' at hcall
    cases hcall with
    | other _ => exact .kept (htimers ▸ ⟨rfl, rfl⟩) hpc
    | cancel j =>
      rcases eq_or_ne id j with rfl | hne
      · exact .cancelled rfl (by rw [htimers]; rfl) (by rw [htimers]; simp)
      · exact .kept (by rw [htimers]; simp [SameTimer, hne]) hpc
  | timerDelete i =>
    generalize htimers : env'.timers = timers' at hcall
    cases hcall with
    | other _ => exact .kept (htimers ▸ ⟨rfl, rfl⟩) hpc
    | delete j timer =>
      rcases eq_or_ne id j with rfl | hne
      · exact .deleted rfl (by rw [htimers]; simp)
      · exact .kept (by rw [htimers]; simp [SameTimer, hne]) hpc
  | timerRestart i newInterval =>
    obtain ⟨r, hr, rfl⟩ := Option.map_eq_some_iff.mp hs
    exact restart_activation hr rfl id hpc
  | tCreate _ _ _ | qSend _ _ | tDelete _ | tNotifySignal _ _ | tFreeze _ | tUnfreeze _
  | tRestart _ _ | tSigIgnore _ _ | tSigAllow _ _ | qInit _ _ _ | qReceive _ _ | setIdleCbk _ =>
    generalize htimers : env'.timers = timers' at hcall
    cases hcall
    exact .kept (htimers ▸ ⟨rfl, rfl⟩) hpc

/-- Only the scheduler goes on in its first loop. -/
theorem act_of_pc_expire (hs : step w env act = some env') (hpc : env.pc = .expire n) :
    act = .sched ∨ ∃ quantum, act = .updateRtc quantum := by
  cases act with
  | sched => exact .inl rfl
  | updateRtc quantum => exact .inr ⟨quantum, rfl⟩
  | api call =>
    rw [step, hpc, if_neg (by simp [Pc.inUserCode])] at hs
    cases hs
  | block call =>
    rw [step, hpc, if_neg (by simp)] at hs
    cases hs
  | ret value =>
    rw [step, Env.ret, hpc] at hs
    cases hs

/-- The round of the first loop that comes to timer `n`. -/
theorem TimerVisit.activation (hvisit : TimerVisit env.timers env.rtcCounter n env'.timers env'.pc)
    (hpc : env.pc = .expire n) (hact : act = .sched) (id : ℕ) : ActivationStep w id env act env' := by
  generalize htimers : env'.timers = timers', hpc' : env'.pc = pc' at hvisit
  cases hvisit with
  | last _ => exact .kept (htimers ▸ selectNext_same env.timers id) (by rw [hpc']; simp)
  | pass _ _ => exact .kept (htimers ▸ ⟨rfl, rfl⟩) (by rw [hpc']; simp)
  | cancel _ hv hto =>
    rcases eq_or_ne id n with rfl | hne
    · exact .dropped hact hpc hv (by rw [htimers]; simp)
    · refine .kept (by rw [htimers]; simp [SameTimer, hne]) ?_
      rw [hpc']
      rcases hto with rfl | rfl <;> simp
  | expire _ hv =>
    rcases eq_or_ne id n with rfl | hne
    · exact .expired hact ⟨hpc, hv⟩
    · refine .kept (by rw [htimers]; simp [SameTimer, Timers.markExpired, hne]) ?_
      rw [hpc']
      intro h
      exact absurd (Pc.onExpire.inj h).symm hne

/-- **Every step of the kernel is a step of the timer in slot `id`.** -/
theorem step_activation (hs : step w env act = some env') (id : ℕ) :
    ActivationStep w id env act env' := by
  cases step_timers hs with
  | call huser hcall hpc _ =>
    cases act with
    | api call =>
      exact api_activation (step_api hs).2 id
    | sched | updateRtc _ | block _ | ret _ =>
      generalize htimers : env'.timers = timers' at hcall
      cases hcall
      exact .kept (htimers ▸ ⟨rfl, rfl⟩) (hpc ▸ fun h => h)
  | tick htimers hpc => exact .kept (htimers ▸ ⟨rfl, rfl⟩) (hpc ▸ fun h => h)
  | epoch hpc htimers hpc' _ =>
    refine .kept (htimers ▸ ⟨rfl, rfl⟩) ?_
    rw [hpc']
    split <;> simp
  | visit n hpc hvisit _ =>
    obtain hact | ⟨quantum, rfl⟩ := act_of_pc_expire hs hpc
    · exact hvisit.activation hpc hact id
    · cases hs
      exact .kept ⟨rfl, rfl⟩ fun h => h
  | cancelled n hpc htimers hpc' _ => exact .kept (htimers ▸ ⟨rfl, rfl⟩) (by rw [hpc']; simp)
  | expired n hact hpc htimers hpc' _ =>
    rcases eq_or_ne id n with rfl | hne
    · exact .returned hpc htimers
    · refine .kept ?_ (by rw [hpc']; simp)
      rw [htimers]
      exact (afterExpire_cases w env.timers env.rtcCounter n).1 id hne
  | tasks hpc _ hpc' htimers _ =>
    refine .kept (htimers ▸ ⟨rfl, rfl⟩) ?_
    intro h
    rw [h] at hpc'
    cases hpc'

/-! ### Cancelled timers -/

/-- The step calls the on-cancel handler of timer `id`. -/
def CallsOnCancel (id : ℕ) (env : Env) (act : Act) : Prop :=
  act = .sched ∧ id < maxTimersNo ∧ env.pc = .expire id ∧
    env.timers.visit env.rtcCounter id = .cancel ∧
    (env.timers.timerTable id).handlerOnCancelCbk ≠ none

/-- If timer `id` is active, then it is cancelled. -/
def Silenced (id : ℕ) (timers : Timers) : Prop :=
  timers.timerBitmap id = true → (timers.timerTable id).cancelled = true

theorem Silenced.not_expires (h : Silenced id env.timers) : ¬Expires env id := by
  rintro ⟨-, hvisit⟩
  rw [Timers.visit] at hvisit
  split at hvisit
  · rename_i hbit
    rw [if_pos (h hbit)] at hvisit
    cases hvisit
  · cases hvisit

/-- The return of a handler neither activates a timer nor takes the mark off it. -/
theorem afterExpire_silenced (h : Silenced id timers) (w rtcCounter : ℕ) :
    Silenced id (timers.afterExpire w rtcCounter id) ∧ (timers.timerBitmap id = false →
      (timers.afterExpire w rtcCounter id).timerBitmap id = false) := by
  rw [Timers.afterExpire]
  split
  · refine ⟨fun hbit => ?_, fun _ => by simp⟩
    simp at hbit
  · refine ⟨fun hbit => ?_, fun hoff => hoff⟩
    simpa using h hbit

/-- **One step** keeps a cancelled timer silent, and inactive if it is inactive. -/
theorem ActivationStep.silenced (hstep : ActivationStep w id env act env')
    (h : Silenced id env.timers) (hstart : ¬StartsIn w id env act) :
    Silenced id env'.timers ∧
      (env.timers.timerBitmap id = false → env'.timers.timerBitmap id = false) := by
  cases hstep with
  | kept hsame _ =>
    obtain ⟨hbit, htimer⟩ := hsame
    rw [Silenced, hbit, htimer]
    exact ⟨h, fun hoff => hoff⟩
  | started hs _ => exact absurd hs hstart
  | cancelled _ hbit htimer =>
    rw [Silenced, hbit, htimer]
    exact ⟨fun _ => rfl, fun hoff => hoff⟩
  | deleted _ hbit | dropped _ _ _ hbit =>
    rw [Silenced, hbit]
    exact ⟨nofun, fun _ => rfl⟩
  | restarted _ hbit hcan =>
    rw [Silenced, hbit, hcan]
    exact ⟨h, fun hoff => hoff⟩
  | expired _ hexpires => exact absurd hexpires h.not_expires
  | returned _ htimers =>
    rw [htimers]
    exact afterExpire_silenced h w env.rtcCounter

/-- The step that calls the on-cancel handler finds an active timer and deactivates it. -/
theorem CallsOnCancel.deactivates (hcalls : CallsOnCancel id env act)
    (hs : step w env act = some env') :
    env.timers.timerBitmap id = true ∧ env'.timers.timerBitmap id = false := by
  obtain ⟨rfl, hid, hpc, hvisit, -⟩ := hcalls
  constructor
  · by_contra hoff
    rw [Timers.visit, if_neg hoff] at hvisit
    cases hvisit
  · rw [step, Env.sched, hpc] at hs
    obtain ⟨timers, pc, rfl, hround⟩ := visitTimer_cases hs
    cases hround with
    | cancel _ _ _ => simp
    | last hlast => exact absurd hid hlast
    | pass _ hother | expire _ hother => cases hvisit.symm.trans hother

/-- **A whole run of a cancelled timer**: once its on-cancel handler has been called, it is
inactive. -/
theorem EventRun.silenced {k : ℕ} (h : Silenced id env.timers)
    (hrun : EventRun w (fun env act => ¬StartsIn w id env act) (CallsOnCancel id) env k env') :
    Silenced id env'.timers ∧ (k = 0 ∨ k = 1 ∧ env'.timers.timerBitmap id = false) := by
  refine hrun.induct (I := fun k env => Silenced id env.timers ∧
    (k = 0 ∨ k = 1 ∧ env.timers.timerBitmap id = false)) ⟨h, .inl rfl⟩ ?_
  rintro k env act env' _ _ ⟨hsil, hcount⟩ hs ⟨hP, ⟨-, rfl⟩ | ⟨hE, rfl⟩⟩
  · obtain ⟨hsil', hoff⟩ := (step_activation hs id).silenced hsil hP
    exact ⟨hsil', hcount.imp_right fun hone => ⟨hone.1, hoff hone.2⟩⟩
  · obtain ⟨hon, hoff⟩ := hE.deactivates hs
    refine ⟨((step_activation hs id).silenced hsil hP).1, .inr ⟨?_, hoff⟩⟩
    rcases hcount with hk | ⟨-, hbit⟩
    · rw [hk]
    · cases hon.symm.trans hbit

/-- A cancel that returns 0 has marked the timer of a slot. -/
theorem timerCancel_true {id : ℤ} (hs : timers.timerCancel id = (timers', true)) :
    Silenced id.toNat timers' := by
  rw [Timers.timerCancel] at hs
  split at hs
  · cases hs
  · rename_i n hid
    rw [eq_of_validId hid, Int.toNat_natCast]
    split at hs
    · cases hs
      intro _
      simp
    · cases hs

/-- **Cancelled timers.**  After `mipos_timer_cancel(id)` has returned 0, the on-expire handler
is not called, and the on-cancel handler is called at most once, until a timer is started in the
slot. -/
theorem cancelled_never_expires {id : ℤ}
    (hcancel : env.timers.timerCancel id = (timers, true)) {k : ℕ}
    (hrun : EventRun w (fun env act => ¬StartsIn w id.toNat env act) (CallsOnCancel id.toNat)
      { env with timers } k env') :
    ¬Expires env' id.toNat ∧ k ≤ 1 := by
  have hmarked : Silenced id.toNat ({ env with timers } : Env).timers := timerCancel_true hcancel
  obtain ⟨hsil, hcount⟩ := hrun.silenced hmarked
  refine ⟨hsil.not_expires, ?_⟩
  rcases hcount with hk | ⟨hk, -⟩ <;> omega

/-- The step makes no call and does not come to timer 0. -/
def passesBy (env : Env) : Act → Bool
  | .sched => env.pc != .expire 0
  | .updateRtc _ | .ret _ => true
  | _ => false

theorem passesBy_spec (env : Env) (act : Act) (h : passesBy env act = true) :
    ¬StartsIn w 0 env act ∧ ¬CallsOnCancel 0 env act := by
  constructor
  · rintro ⟨_, _, _, _, _, rfl, -⟩
    cases h
  · rintro ⟨rfl, -, hpc, -⟩
    rw [passesBy, hpc] at h
    cases h

/-- A periodic timer cancels itself in its own on-expire handler, and the next pass calls its
on-cancel handler. -/
theorem cancelled_never_expires_own : ∃ env timers env',
    Reachable 64 env ∧ env.pc = .onExpire 0 ∧ env.timers.timerCancel 0 = (timers, true) ∧
    EventRun 64 (fun env act => ¬StartsIn 64 (0 : ℤ).toNat env act) (CallsOnCancel (0 : ℤ).toNat)
      { env with timers } 1 env' ∧ env'.pc = .onCancel 0 ∧
    ¬Expires env' (0 : ℤ).toNat := by
  have heval : ∃ env, runActs 64 boot (toRoot ++ [Act.api (.timerStart (some 2) (some 3) 5 0 true),
        .block (.tmWkafter 0), .updateRtc 6, .sched, .sched]) = some env ∧ env.pc = .onExpire 0 ∧
      (env.timers.timerCancel 0).2 = true ∧
      ∃ env₁, runWhere 64 passesBy { env with timers := (env.timers.timerCancel 0).1 }
        ([.ret 0, .updateRtc 6] ++ List.replicate 14 .sched) = some env₁ ∧ env₁.pc = .expire 0 ∧
      env₁.timers.visit env₁.rtcCounter 0 = .cancel ∧
      (env₁.timers.timerTable 0).handlerOnCancelCbk = some 3 ∧
      ∃ env', step 64 env₁ .sched = some env' ∧ env'.pc = .onCancel 0 := by decide +kernel
  obtain ⟨env, hrun, hpc, hzero, env₁, hrun₁, hpc₁, hvisit, hcbk, env', hs, hpc'⟩ := heval
  have hcancel : env.timers.timerCancel 0 = ((env.timers.timerCancel 0).1, true) :=
    Prod.ext rfl hzero
  have hcalls : CallsOnCancel 0 env₁ .sched :=
    ⟨rfl, by decide, hpc₁, hvisit, by rw [hcbk]; exact Option.some_ne_none 3⟩
  have hno : ¬StartsIn 64 0 env₁ .sched := by
    rintro ⟨_, _, _, _, _, h, -⟩
    cases h
  have hevents : EventRun 64 (fun env act => ¬StartsIn 64 0 env act) (CallsOnCancel 0)
      { env with timers := (env.timers.timerCancel 0).1 } 1 env' :=
    (RecordRun.of_run (run_of_runWhere passesBy_spec hrun₁)
      fun hP => ⟨hP.1, .inl ⟨hP.2, rfl⟩⟩).next hs
      ⟨hno, .inr ⟨hcalls, rfl⟩⟩
  exact ⟨env, _, env', Reachable.runActs .boot hrun, hpc, hcancel, hevents, hpc',
    (cancelled_never_expires hcancel hevents).1⟩

/-! ### Started timers -/

/-- Until it expires, is cancelled or is deleted, timer `id` is active and has that deadline. -/
def StaysArmed (w id deadline : ℕ) (env : Env) : Prop :=
  ∀ env', ReflTransGen (StepWhere w (Undisturbed id)) env env' →
    env'.timers.timerBitmap id = true ∧ (env'.timers.timerTable id).rtcTimeout = deadline

/-- The timer is waiting for its deadline, and the handler of its slot is not running. -/
structure Pending (id deadline : ℕ) (env : Env) : Prop where
  active : env.timers.timerBitmap id = true
  deadline : (env.timers.timerTable id).rtcTimeout = deadline
  handler : (env.timers.timerTable id).handlerOnExpireCbk ≠ none
  unexpired : (env.timers.timerTable id).expired = false
  uncancelled : (env.timers.timerTable id).cancelled = false
  uncalled : env.pc ≠ .onExpire id

/-- **One step** of a waiting timer. -/
theorem ActivationStep.pending {deadline : ℕ} (hstep : ActivationStep w id env act env')
    (h : Pending id deadline env) (hquiet : Undisturbed id env act) : Pending id deadline env' := by
  cases hstep with
  | kept hsame hpc =>
    obtain ⟨hbit, htimer⟩ := hsame
    refine ⟨hbit ▸ h.active, ?_, ?_, ?_, ?_, fun hin => h.uncalled (hpc hin)⟩
    · exact htimer ▸ h.deadline
    · exact htimer ▸ h.handler
    · exact htimer ▸ h.unexpired
    · exact htimer ▸ h.uncancelled
  | started _ hfree => exact absurd hfree h.handler
  | cancelled hact _ _ => exact absurd (.inl hact) hquiet.1
  | deleted hact _ => exact absurd (.inr hact) hquiet.1
  | restarted hexpired _ _ => cases hexpired.2.symm.trans h.unexpired
  | dropped _ _ hvisit _ =>
    rw [Timers.visit, if_pos h.active, h.uncancelled, if_neg (by simp)] at hvisit
    split at hvisit <;> cases hvisit
  | expired hact hexpires => exact absurd ⟨hact, hexpires⟩ hquiet.2
  | returned hpc _ => exact absurd hpc h.uncalled

/-- The slot after a start that returns it. -/
theorem timerStart_some {rtcCounter : ℕ} {onExpireHandler onCancelHandler : Option ℕ}
    {context : ℕ} {periodic : Bool}
    (hs : timers.timerStart w rtcCounter onExpireHandler onCancelHandler n context periodic
      = (timers', some id)) :
    onExpireHandler ≠ none ∧ timers'.timerBitmap id = true ∧ timers'.timerTable id =
      { handlerOnExpireCbk := onExpireHandler
        handlerOnCancelCbk := onCancelHandler
        context := context
        rtcTimeout := (rtcCounter + n) % 2 ^ w
        periodic := periodic
        expired := false
        cancelled := false
        interval := n } := by
  rw [Timers.timerStart] at hs
  split at hs
  · cases hs
  · rename_i hcbk
    split at hs
    · cases hs
    · cases hs
      exact ⟨hcbk, by simp, by simp⟩

section Started

variable {onExpireHandler onCancelHandler : Option ℕ} {context : ℕ} {periodic : Bool}

theorem Pending.of_start (hs : env.timers.timerStart w env.rtcCounter onExpireHandler
      onCancelHandler n context periodic = (timers, some id)) (hpc : env.pc ≠ .onExpire id) :
    Pending id ((env.rtcCounter + n) % 2 ^ w) { env with timers } := by
  obtain ⟨hcbk, hbit, htimer⟩ := timerStart_some hs
  exact ⟨hbit, by simp [htimer], by simpa [htimer] using hcbk, by simp [htimer], by simp [htimer],
    hpc⟩

theorem Pending.staysArmed {deadline : ℕ} (h : Pending id deadline env) :
    StaysArmed w id deadline env := by
  intro env' hrun
  have hpending : Pending id deadline env' := by
    induction hrun with
    | refl => exact h
    | tail _ hstep ih =>
      obtain ⟨act, hs, hquiet⟩ := hstep
      exact (step_activation hs id).pending ih hquiet
  exact ⟨hpending.active, hpending.deadline⟩

theorem Undisturbed.of_ne (hcall : ∀ call, act ≠ .api call) (hsched : act ≠ .sched) :
    Undisturbed id env act := by
  constructor
  · rintro (h | h)
    · exact hcall _ h
    · exact hcall _ h
  · rintro ⟨h, -⟩
    exact hsched h

/-- The handler of a slot returns after some time. -/
theorem run_return (hpc : env.pc = .onExpire id) (w quantum : ℕ) :
    ReflTransGen (StepWhere w (Undisturbed id)) env
      { env with
        rtcCounter := (env.rtcCounter + quantum) % 2 ^ w
        timers := env.timers.afterExpire w ((env.rtcCounter + quantum) % 2 ^ w) id
        pc := .expire (id + 1) } := by
  refine .tail (.single ⟨.updateRtc quantum, rfl, .of_ne nofun nofun⟩)
    ⟨.ret 0, ?_, .of_ne nofun nofun⟩
  rw [step, Env.ret, hpc]

/-- One quantum moves a deadline. -/
theorem deadline_moves (hw : 0 < w) (c n : ℕ) :
    ((c + 1) % 2 ^ w + n) % 2 ^ w ≠ (c + n) % 2 ^ w := by
  have htwo : 1 < 2 ^ w := Nat.one_lt_two_pow (by omega)
  have hlt : (c + n) % 2 ^ w < 2 ^ w := Nat.mod_lt _ (by omega)
  rw [Nat.mod_add_mod, Nat.add_right_comm, ← Nat.mod_add_mod]
  intro h
  rcases Nat.lt_or_ge ((c + n) % 2 ^ w + 1) (2 ^ w) with hin | hout
  · rw [Nat.mod_eq_of_lt hin] at h
    omega
  · rw [show (c + n) % 2 ^ w + 1 = 2 ^ w by omega, Nat.mod_self] at h
    omega

/-- **Started timers** stay active with their deadline just if they were not started by the
on-expire handler of their own slot: when it returns, the scheduler deactivates the new timer, or
moves its deadline. -/
theorem stays_armed_iff (hw : 0 < w) (hs : env.timers.timerStart w env.rtcCounter onExpireHandler
      onCancelHandler n context periodic = (timers, some id)) :
    StaysArmed w id ((env.rtcCounter + n) % 2 ^ w) { env with timers } ↔ env.pc ≠ .onExpire id := by
  constructor
  · intro hstays hpc
    have hrun := run_return (show ({ env with timers } : Env).pc = .onExpire id from hpc) w 1
    obtain ⟨hactive, hdeadline⟩ := hstays _ hrun
    obtain ⟨-, -, htimer⟩ := timerStart_some hs
    obtain ⟨-, -, hmoved⟩ := (afterExpire_cases w timers _ id).2 hactive
    rw [hmoved, htimer] at hdeadline
    exact deadline_moves hw env.rtcCounter n hdeadline
  · intro hpc
    exact (Pending.of_start hs hpc).staysArmed

end Started

/-- The root task starts a timer, which stays active until it expires, is cancelled or is
deleted. -/
theorem stays_armed_iff_root : ∃ env timers, Reachable 64 env ∧
    env.timers.timerStart 64 env.rtcCounter (some 2) none 5 0 false = (timers, some 0) ∧
    StaysArmed 64 0 ((env.rtcCounter + 5) % 2 ^ 64) { env with timers } := by
  have heval : ∃ env, runActs 64 boot toRoot = some env ∧ env.pc = .running ∧
      (env.timers.timerStart 64 env.rtcCounter (some 2) none 5 0 false).2 = some 0 := by
    decide +kernel
  obtain ⟨env, hrun, hpc, hid⟩ := heval
  have hs : env.timers.timerStart 64 env.rtcCounter (some 2) none 5 0 false
      = ((env.timers.timerStart 64 env.rtcCounter (some 2) none 5 0 false).1, some 0) :=
    Prod.ext rfl hid
  have hr : Reachable 64 env := Reachable.runActs .boot hrun
  exact ⟨env, _, hr, hs, (stays_armed_iff (by decide) hs).mpr (by rw [hpc]; nofun)⟩

/-- **A lost timer.**  The handler of a one-shot timer deletes its timer and starts another, which
gets the same slot and the deadline 11.  When the handler returns, the new timer is inactive, and
its own handler is never called, until it is deleted. -/
theorem own_slot_start_lost : ∃ env timers env', Reachable 64 env ∧ env.pc = .onExpire 0 ∧
    env.timers.timerStart 64 env.rtcCounter (some 3) none 5 0 false = (timers, some 0) ∧
    timers.timerBitmap 0 = true ∧ (timers.timerTable 0).rtcTimeout = 11 ∧
    step 64 { env with timers } (.ret 0) = some env' ∧ env'.timers.timerBitmap 0 = false ∧
    ∀ env₁, ReflTransGen (StepWhere 64 fun _ act =>
      act ≠ .api (.timerDelete ((0 : ℕ) : ℤ))) env' env₁ → ¬Expires env₁ 0 := by
  have heval : ∃ env, runActs 64 boot (toRoot ++ [Act.api (.timerStart (some 2) none 5 0 false),
        .block (.tmWkafter 0), .updateRtc 6, .sched, .sched, .api (.timerDelete 0)]) = some env ∧
      env.pc = .onExpire 0 ∧ env.rtcCounter = 6 ∧
      (env.timers.timerStart 64 env.rtcCounter (some 3) none 5 0 false).2 = some 0 := by
    decide +kernel
  obtain ⟨env, hrun, hpc, hrtc, hid⟩ := heval
  generalize htimers : (env.timers.timerStart 64 env.rtcCounter (some 3) none 5 0 false).1
    = timers
  have hs : env.timers.timerStart 64 env.rtcCounter (some 3) none 5 0 false = (timers, some 0) :=
    Prod.ext htimers hid
  obtain ⟨-, hbit, htimer⟩ := timerStart_some hs
  have hret : step 64 { env with timers } (.ret 0) = some { env with
      timers := timers.afterExpire 64 env.rtcCounter 0
      pc := .expire 1 } := by
    rw [step, Env.ret, hpc]
  refine ⟨env, timers, _, Reachable.runActs .boot hrun, hpc, hs, hbit, ?_, hret, ?_, ?_⟩
  · rw [htimer]
    simp [hrtc]
  · rw [Timers.afterExpire, htimer]
    simp
  · intro env₁ hrun₁
    have harmed : Armed 64 env.rtcCounter 5 true false 0 0 { env with timers } :=
      Armed.start hs (iff_of_true hpc rfl)
    exact harmed.run_silent (by simp [hrtc]) (.head ⟨.ret 0, hret, by simp⟩ hrun₁)

end Kernel
