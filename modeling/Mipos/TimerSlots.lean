/-
The slots of the timers.

`mipos_timer_start` gives a timer the first slot whose on-expire handler is null, and only
`mipos_timer_delete` makes a handler null again.  So the handlers say which timers have been
started and not deleted since, whatever else the tasks, the handlers and the scheduler did:
a one-shot timer that has expired, or a timer that was cancelled, keeps its slot.

* `TimerRun` — a run of the kernel, with the slots whose timer was started and not deleted.
* `TimerRun.started_iff` — they are the slots that have a handler.
* `timer_slots` — active timers have handlers, and a start fails just if no slot is left.
-/
import Mipos.TimerActivations

namespace Kernel

variable {w : ℕ} {env env' : Env} {act : Act} {timers timers' : Timers} {id : ℕ}

/-! ### What a step does to the handler of a slot -/

theorem TimerVisit.handler {rtcCounter n : ℕ} {pc : Pc}
    (hvisit : TimerVisit timers rtcCounter n timers' pc) (id : ℕ) :
    (timers'.timerTable id).handlerOnExpireCbk = (timers.timerTable id).handlerOnExpireCbk := by
  cases hvisit with
  | last _ => rw [(selectNext_same timers id).2]
  | pass _ _ => rfl
  | cancel _ _ _ => simp
  | expire _ _ =>
    rcases eq_or_ne id n with rfl | hne
    · simp [Timers.markExpired]
    · simp [Timers.markExpired, hne]

theorem afterExpire_handler (rtcCounter n id : ℕ) :
    ((timers.afterExpire w rtcCounter n).timerTable id).handlerOnExpireCbk
      = (timers.timerTable id).handlerOnExpireCbk := by
  rw [Timers.afterExpire]
  rcases eq_or_ne id n with rfl | hne
  · split <;> simp
  · split <;> simp [hne]

/-- A call that neither starts a timer in slot `id` nor deletes it leaves its handler. -/
theorem api_handler {call : Api} (hs : env.api w call = some env')
    (hstart : ¬StartsIn w id env (.api call)) (hdelete : call ≠ .timerDelete id) :
    (env'.timers.timerTable id).handlerOnExpireCbk
      = (env.timers.timerTable id).handlerOnExpireCbk := by
  have hcall := (api_timers hs).1
  generalize htimers : env'.timers = timers' at hcall
  cases hcall with
  | other _ => rfl
  | start i hfree hcbk hexpired htimeout =>
    cases hs
    rcases timerStart_slot id (rfl : env.timers.timerStart w env.rtcCounter _ _ _ _ _
      = (_, _)) with ⟨hret, -⟩ | hsame
    · exact absurd ⟨_, _, _, _, _, rfl, hret⟩ hstart
    · rw [← htimers]
      exact congrArg _ hsame.2
  | cancel i =>
    rcases eq_or_ne id i with rfl | hne
    · simp
    · simp [hne]
  | delete i timer =>
    have hne : id ≠ i := by
      rintro rfl
      exact hdelete rfl
    simp [hne]
  | restart i newInterval timer hexpired hexpired' hcbk =>
    rcases eq_or_ne id i with rfl | hne
    · simpa using hcbk
    · simp [hne]

/-- No other step does. -/
theorem step_handler (hs : step w env act = some env') (hstart : ¬StartsIn w id env act)
    (hdelete : act ≠ .api (.timerDelete id)) :
    (env'.timers.timerTable id).handlerOnExpireCbk
      = (env.timers.timerTable id).handlerOnExpireCbk := by
  cases step_timers hs with
  | call huser hcall hpc hrtc =>
    cases act with
    | api call => exact api_handler (step_api hs).2 hstart fun h => hdelete (congrArg _ h)
    | sched | updateRtc _ | block _ | ret _ =>
      generalize env'.timers = timers' at hcall
      cases hcall
      rfl
  | visit n hpc hvisit hrtc => exact hvisit.handler id
  | expired n hact hpc htimers hpc' hrtc =>
    rw [htimers]
    exact afterExpire_handler env.rtcCounter n id
  | tick htimers _ | epoch _ htimers _ _ | cancelled _ _ htimers _ _ | tasks _ _ _ htimers _ =>
    rw [htimers]

theorem StartsIn.handler (hstart : StartsIn w id env act) (hs : step w env act = some env') :
    (env'.timers.timerTable id).handlerOnExpireCbk ≠ none := by
  obtain ⟨onExpireHandler, onCancelHandler, interval, context, periodic, rfl, hret⟩ := hstart
  cases (step_api hs).2
  obtain ⟨hcbk, -, htimer⟩ := timerStart_some (Prod.ext rfl hret)
  simpa only [htimer] using hcbk

theorem deleted_handler (hs : step w env (.api (.timerDelete id)) = some env')
    (hid : id < maxTimersNo) : (env'.timers.timerTable id).handlerOnExpireCbk = none := by
  cases (step_api hs).2
  have hvalid : Timers.validId id = some id := by
    rw [Timers.validId, if_neg (by omega), Int.toNat_natCast]
  simp [Timers.timerDelete, hvalid]

/-! ### Runs with the timers that were started -/

/-- A run of the kernel, and the slots whose timer has been started and not deleted since:
those `mipos_timer_start` returned, until `mipos_timer_delete` was called with them. -/
def TimerRun (w : ℕ) (env : Env) (started : ℕ → Prop) : Prop :=
  ∃ rootTask rootTaskParam queues, RecordRun w (fun started env act _ started' =>
      started' = fun id => StartsIn w id env act ∨ started id ∧ act ≠ .api (.timerDelete id))
    (fun _ => False) (.start rootTask rootTaskParam queues) started env

variable {started : ℕ → Prop}

theorem TimerRun.reachable (hrun : TimerRun w env started) : Reachable w env := by
  obtain ⟨rootTask, rootTaskParam, queues, hrun⟩ := hrun
  exact hrun.reachable ⟨rootTask, rootTaskParam, queues, .refl⟩

theorem Reachable.timerRun (hr : Reachable w env) : ∃ started, TimerRun w env started := by
  obtain ⟨rootTask, rootTaskParam, queues, hrun⟩ := hr
  induction hrun with
  | refl => exact ⟨_, rootTask, rootTaskParam, queues, .start⟩
  | tail _ hstep ih =>
    obtain ⟨act, hs⟩ := hstep
    obtain ⟨started, _, _, _, hrun⟩ := ih
    exact ⟨_, _, _, _, hrun.next hs rfl⟩

/-- A slot has a handler just if its timer has been started and not deleted since. -/
theorem TimerRun.started_iff (hrun : TimerRun w env started) (hid : id < maxTimersNo) :
    started id ↔ (env.timers.timerTable id).handlerOnExpireCbk ≠ none := by
  obtain ⟨rootTask, rootTaskParam, queues, hrun⟩ := hrun
  refine hrun.induct (I := fun started env =>
    started id ↔ (env.timers.timerTable id).handlerOnExpireCbk ≠ none) ?_ ?_
  · exact iff_of_false not_false (fun h => h rfl)
  · rintro started env act env' _ _ ih hs rfl
    by_cases hstart : StartsIn w id env act
    · exact iff_of_true (.inl hstart) (hstart.handler hs)
    · by_cases hdelete : act = .api (.timerDelete id)
      · subst hdelete
        refine iff_of_false ?_ (fun h => h (deleted_handler hs hid))
        rintro (h | ⟨-, h⟩)
        · exact hstart h
        · exact h rfl
      · rw [step_handler hs hstart hdelete, ← ih]
        exact (or_iff_right hstart).trans (and_iff_left hdelete)

section Start

variable {rtcCounter interval context : ℕ} {onExpireHandler onCancelHandler : Option ℕ}
  {periodic : Bool}

/-- The slot that a start returns is one of the table that has no handler. -/
theorem timerStart_free (hret : (timers.timerStart w rtcCounter onExpireHandler onCancelHandler
      interval context periodic).2 = some id) :
    id < maxTimersNo ∧ (timers.timerTable id).handlerOnExpireCbk = none := by
  rw [Timers.timerStart] at hret
  split at hret
  · cases hret
  · split at hret
    · cases hret
    · rename_i hfind
      cases hret
      have hfree := List.find?_some hfind
      exact ⟨List.mem_range.mp (List.mem_of_find?_eq_some hfind),
        Option.isNone_iff_eq_none.mp hfree⟩

/-- A start fails just if there is nothing to call or every slot has a handler. -/
theorem timerStart_none_iff :
    (timers.timerStart w rtcCounter onExpireHandler onCancelHandler interval context
      periodic).2 = none ↔ onExpireHandler = none ∨
        ∀ id < maxTimersNo, (timers.timerTable id).handlerOnExpireCbk ≠ none := by
  rw [Timers.timerStart]
  split
  · rename_i hcbk
    exact iff_of_true rfl (.inl hcbk)
  · rename_i hcbk
    rw [or_iff_right hcbk]
    split
    · rename_i hfind
      refine iff_of_true rfl ?_
      intro id hid hfree
      exact List.find?_eq_none.mp hfind id (List.mem_range.mpr hid) (by rw [hfree]; rfl)
    · rename_i i hfind
      refine iff_of_false (Option.some_ne_none i) ?_
      intro hall
      have hfree := List.find?_some hfind
      exact hall i (List.mem_range.mp (List.mem_of_find?_eq_some hfind))
        (Option.isNone_iff_eq_none.mp hfree)

end Start

/-- **The slots of the timers are kept in order.**  In every state of every run, an active timer
has a handler, and the pass over the timers never comes to a null one.  A start never returns the
slot of a timer that has been started and not deleted since; it returns -1 just if its handler is
null or every slot holds such a timer. -/
theorem timer_slots (hrun : TimerRun w env started) :
    (∀ id, env.timers.timerBitmap id = true →
      (env.timers.timerTable id).handlerOnExpireCbk ≠ none) ∧
    (∀ id, env.pc = .expire id → ∃ env', step w env .sched = some env') ∧
    ∀ onExpireHandler onCancelHandler interval context periodic,
      (∀ id, (env.timers.timerStart w env.rtcCounter onExpireHandler onCancelHandler interval
        context periodic).2 = some id → ¬started id) ∧
      ((env.timers.timerStart w env.rtcCounter onExpireHandler onCancelHandler interval context
        periodic).2 = none ↔ onExpireHandler = none ∨ ∀ id < maxTimersNo, started id) := by
  refine ⟨hrun.reachable.timersOk.handler, fun id hpc => pass_goes_on hrun.reachable hpc, ?_⟩
  intro onExpireHandler onCancelHandler interval context periodic
  constructor
  · intro id hret hstarted
    obtain ⟨hid, hfree⟩ := timerStart_free hret
    exact (hrun.started_iff hid).mp hstarted hfree
  · rw [timerStart_none_iff]
    refine or_congr_right (forall₂_congr ?_)
    intro id hid
    exact (hrun.started_iff hid).symm

/-- The root task has started four timers, and has cancelled the second one: the next start
fails, since the cancelled timer keeps its slot. -/
theorem timer_slots_full : ∃ env started, TimerRun 64 env started ∧
    (env.timers.timerTable 1).cancelled = true ∧
    (env.timers.timerStart 64 env.rtcCounter (some 2) none 5 0 false).2 = none ∧
    ∀ id < maxTimersNo, started id := by
  have heval : ∃ env, runActs 64 boot (toRoot ++
        List.replicate 4 (Act.api (.timerStart (some 2) none 5 0 false)) ++ [.api (.timerCancel 1)])
        = some env ∧ (env.timers.timerTable 1).cancelled = true ∧
      (env.timers.timerStart 64 env.rtcCounter (some 2) none 5 0 false).2 = none := by
    decide +kernel
  obtain ⟨env, hrun, hcancelled, hret⟩ := heval
  obtain ⟨started, hstarted⟩ := (Reachable.runActs .boot hrun).timerRun
  have hall := ((timer_slots hstarted).2.2 (some 2) none 5 0 false).2.mp hret
  exact ⟨env, started, hstarted, hcancelled, hret, hall.resolve_left (Option.some_ne_none 2)⟩

end Kernel
