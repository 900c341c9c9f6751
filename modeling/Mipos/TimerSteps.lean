/-
What one step of the kernel does to the software timers.

The transitions are listed once (`TimerStep`): a call of user code (`TimerCall`), an
update of the counter, the test at the start of an epoch, a round of the first loop,
the return of a handler, or a step that has nothing to do with timers.
`step_timers` shows that every step of the kernel is one of them.

The end of the pass, `selectNext`, finds a lower bound of the deadlines
(`selectNext_nextBound`) unless an active timer has the deadline 0.
-/
import Mipos.KernelSlots

namespace Kernel

variable {w : ℕ} {env env' : Env} {act : Act} {timers timers' : Timers} {id : ℕ}

/-! ### Records -/

namespace Timers

@[simp] theorem setBit_timerTable (bit : Bool) :
    (timers.setBit id bit).timerTable = timers.timerTable := rfl
@[simp] theorem setBit_timerBitmap (bit : Bool) :
    (timers.setBit id bit).timerBitmap = Function.update timers.timerBitmap id bit := rfl
@[simp] theorem setBit_nextRtcTimeout (bit : Bool) :
    (timers.setBit id bit).nextRtcTimeout = timers.nextRtcTimeout := rfl
@[simp] theorem setTimer_timerTable (timer : Timer) :
    (timers.setTimer id timer).timerTable = Function.update timers.timerTable id timer := rfl
@[simp] theorem setTimer_timerBitmap (timer : Timer) :
    (timers.setTimer id timer).timerBitmap = timers.timerBitmap := rfl
@[simp] theorem setTimer_nextRtcTimeout (timer : Timer) :
    (timers.setTimer id timer).nextRtcTimeout = timers.nextRtcTimeout := rfl

@[simp] theorem lowerNext_timerTable (timeout : ℕ) :
    (timers.lowerNext timeout).timerTable = timers.timerTable := by
  rw [lowerNext]
  split <;> rfl

@[simp] theorem lowerNext_timerBitmap (timeout : ℕ) :
    (timers.lowerNext timeout).timerBitmap = timers.timerBitmap := by
  rw [lowerNext]
  split <;> rfl

theorem lowerNext_le (timeout : ℕ) : (timers.lowerNext timeout).nextRtcTimeout ≤ timeout := by
  rw [lowerNext]
  split
  · exact Nat.le_refl _
  · omega

/-- A timeout that is known is only lowered. -/
theorem lowerNext_le_next (hnext : timers.nextRtcTimeout ≠ 0) (timeout : ℕ) :
    (timers.lowerNext timeout).nextRtcTimeout ≤ timers.nextRtcTimeout := by
  rw [lowerNext]
  split
  · show timeout ≤ timers.nextRtcTimeout
    omega
  · exact Nat.le_refl _

theorem lowerNext_ne_zero {timeout : ℕ} (h : timeout ≠ 0) :
    (timers.lowerNext timeout).nextRtcTimeout ≠ 0 := by
  rw [lowerNext]
  split
  · exact h
  · omega

end Timers

/-- The cached timeout is unknown or not after the deadline of any timer that can
expire. -/
def NextBound (timers : Timers) : Prop :=
  timers.nextRtcTimeout = 0 ∨ ∀ id < maxTimersNo, timers.timerBitmap id = true →
    (timers.timerTable id).cancelled = false →
    timers.nextRtcTimeout ≤ (timers.timerTable id).rtcTimeout

/-- The second loop after `n` rounds. -/
def Timers.selectNextUpTo (timers : Timers) (n : ℕ) : Timers :=
  (List.range n).foldl (fun timers id =>
    if timers.timerBitmap id then timers.lowerNext (timers.timerTable id).rtcTimeout
    else timers) timers

theorem Timers.selectNextUpTo_succ (timers : Timers) (n : ℕ) :
    timers.selectNextUpTo (n + 1) = if (timers.selectNextUpTo n).timerBitmap n then
      (timers.selectNextUpTo n).lowerNext ((timers.selectNextUpTo n).timerTable n).rtcTimeout
    else timers.selectNextUpTo n := by
  rw [selectNextUpTo, List.range_succ, List.foldl_append]
  rfl

/-- The second loop changes nothing but the timeout. -/
theorem Timers.selectNextUpTo_frame (timers : Timers) (n : ℕ) :
    (timers.selectNextUpTo n).timerBitmap = timers.timerBitmap ∧
      (timers.selectNextUpTo n).timerTable = timers.timerTable := by
  induction n with
  | zero => exact ⟨rfl, rfl⟩
  | succ n ih =>
    rw [selectNextUpTo_succ]
    split
    · rw [lowerNext_timerBitmap, lowerNext_timerTable]
      exact ih
    · exact ih

/-- Where no active timer has the deadline 0, the loop finds a lower bound. -/
theorem Timers.selectNextUpTo_le (timers : Timers) (n : ℕ)
    (hpos : ∀ id < n, timers.timerBitmap id = true → (timers.timerTable id).rtcTimeout ≠ 0) :
    ∀ id < n, timers.timerBitmap id = true → (timers.selectNextUpTo n).nextRtcTimeout ≠ 0 ∧
      (timers.selectNextUpTo n).nextRtcTimeout ≤ (timers.timerTable id).rtcTimeout := by
  induction n with
  | zero =>
    intro id hid
    omega
  | succ n ih =>
    intro id hid hbit
    obtain ⟨hbits, htable⟩ := timers.selectNextUpTo_frame n
    have hrest := ih fun i hi => hpos i (by omega)
    rw [selectNextUpTo_succ, hbits, htable]
    rcases Nat.lt_or_eq_of_le (Nat.le_of_lt_succ hid) with hlt | rfl
    · -- the bound of the rounds before is only lowered
      obtain ⟨hne, hle⟩ := hrest id hlt hbit
      split
      · rename_i hn
        refine ⟨lowerNext_ne_zero (hpos n (by omega) hn), ?_⟩
        exact Nat.le_trans (lowerNext_le_next hne _) hle
      · exact ⟨hne, hle⟩
    · rw [if_pos hbit]
      exact ⟨lowerNext_ne_zero (hpos id hid hbit), lowerNext_le _⟩

/-- The pass ends with a lower bound. -/
theorem selectNext_nextBound (timers : Timers) (hpos : ∀ id < maxTimersNo,
    timers.timerBitmap id = true → (timers.timerTable id).rtcTimeout ≠ 0) :
    NextBound timers.selectNext := by
  obtain ⟨hbits, htable⟩ := timers.selectNextUpTo_frame maxTimersNo
  refine .inr ?_
  intro id hid hbit _
  rw [show timers.selectNext = timers.selectNextUpTo maxTimersNo from rfl] at hbit ⊢
  rw [hbits] at hbit
  rw [htable]
  exact (timers.selectNextUpTo_le maxTimersNo hpos id hid hbit).2

/-! ### What a step does to the timers -/

/-- The scheduler is in its pass over the timers. -/
def Pc.inPass : Pc → Bool
  | .expire _ => true
  | .onCancel _ => true
  | .onExpire _ => true
  | _ => false

/-- How many timers the pass has behind it. -/
def Pc.timersDone : Pc → ℕ
  | .expire id => id
  | .onCancel id => id + 1
  | .onExpire id => id
  | _ => 0

theorem Pc.timersDone_eq_zero {pc : Pc} (h : pc.inPass = false) : pc.timersDone = 0 := by
  cases pc with
  | expire _ | onCancel _ | onExpire _ => cases h
  | epoch | select _ | inRt _ | inIdle | tsm | running | panic => rfl

/-- What the calls of user code do to the timers. -/
inductive TimerCall (w rtcCounter : ℕ) (timers : Timers) : Act → Timers → Prop
  | other (act : Act) : TimerCall w rtcCounter timers act timers
  | start {onExpireHandler onCancelHandler : Option ℕ} {interval context : ℕ} {periodic : Bool}
      {timer : Timer} (id : ℕ) (hfree : (timers.timerTable id).handlerOnExpireCbk = none)
      (hcbk : timer.handlerOnExpireCbk ≠ none) (hexpired : timer.expired = false)
      (htimeout : timer.rtcTimeout = (rtcCounter + interval) % 2 ^ w) :
      TimerCall w rtcCounter timers
        (.api (.timerStart onExpireHandler onCancelHandler interval context periodic))
        (((timers.setBit id true).lowerNext ((rtcCounter + interval) % 2 ^ w)).setTimer id timer)
  | cancel (id : ℕ) : TimerCall w rtcCounter timers (.api (.timerCancel id))
      { timers.setTimer id { timers.timerTable id with cancelled := true } with
        nextRtcTimeout := 0 }
  | delete (id : ℕ) (timer : Timer) : TimerCall w rtcCounter timers (.api (.timerDelete id))
      ((timers.setTimer id timer).setBit id false)
  | restart (id newInterval : ℕ) (timer : Timer)
      (hexpired : (timers.timerTable id).expired = true) (hexpired' : timer.expired = false)
      (hcbk : timer.handlerOnExpireCbk = (timers.timerTable id).handlerOnExpireCbk) :
      TimerCall w rtcCounter timers (.api (.timerRestart id newInterval))
        (timers.setTimer id timer)

/-- What a step of the kernel does to the timers. -/
inductive TimerStep (w : ℕ) (env : Env) (act : Act) (env' : Env) : Prop
  | call (huser : env.pc.inUserCode = true)
      (hcall : TimerCall w env.rtcCounter env.timers act env'.timers)
      (hpc : env'.pc = env.pc) (hrtc : env'.rtcCounter = env.rtcCounter)
  | tick (htimers : env'.timers = env.timers) (hpc : env'.pc = env.pc)
  | epoch (hpc : env.pc = .epoch) (htimers : env'.timers = env.timers)
      (hpc' : env'.pc = if env.timers.due env.rtcCounter then .expire 0 else .select 0)
      (hrtc : env'.rtcCounter = env.rtcCounter)
  | visit (id : ℕ) (hpc : env.pc = .expire id)
      (hvisit : TimerVisit env.timers env.rtcCounter id env'.timers env'.pc)
      (hrtc : env'.rtcCounter = env.rtcCounter)
  | cancelled (id : ℕ) (hpc : env.pc = .onCancel id) (htimers : env'.timers = env.timers)
      (hpc' : env'.pc = .expire (id + 1)) (hrtc : env'.rtcCounter = env.rtcCounter)
  | expired (id : ℕ) {value : ℤ} (hact : act = .ret value) (hpc : env.pc = .onExpire id)
      (htimers : env'.timers = env.timers.afterExpire w env.rtcCounter id)
      (hpc' : env'.pc = .expire (id + 1)) (hrtc : env'.rtcCounter = env.rtcCounter)
  | tasks (hpc : env.pc.inPass = false) (hepoch : env.pc ≠ .epoch)
      (hpc' : env'.pc.inPass = false) (htimers : env'.timers = env.timers)
      (hrtc : env'.rtcCounter = env.rtcCounter)

/-- The part of the state that the timers depend on. -/
structure SameTimers (env env' : Env) : Prop where
  timers : env'.timers = env.timers
  rtcCounter : env'.rtcCounter = env.rtcCounter

theorem sameTimers_modifyTask (id : ℕ) (f : Task → Task) :
    SameTimers env (env.modifyTask id f) := by
  rw [Env.modifyTask]
  cases env.getPTask id with
  | none => exact ⟨rfl, rfl⟩
  | some slot => exact ⟨rfl, rfl⟩

theorem sameTimers_qSend (q : ℕ) (item : UInt32) : SameTimers env (env.qSend q item) := by
  rw [Env.qSend]
  cases (qSend (env.queues q) item).2.2 with
  | none => exact ⟨rfl, rfl⟩
  | some tid =>
    have hsame : SameTimers (env.setQueue q (qSend (env.queues q) item).1) _ :=
      sameTimers_modifyTask tid fun task => task.notifySignal sigque
    exact ⟨hsame.timers, hsame.rtcCounter⟩

theorem timerStart_call (rtcCounter : ℕ) (onExpire onCancel : Option ℕ) (interval context : ℕ)
    (periodic : Bool) : TimerCall w rtcCounter timers
      (.api (.timerStart onExpire onCancel interval context periodic))
      (timers.timerStart w rtcCounter onExpire onCancel interval context periodic).1 := by
  rw [Timers.timerStart]
  split
  · exact .other _
  · rename_i hcbk
    split
    · exact .other _
    · rename_i id hfind
      have hfree := List.find?_some hfind
      exact .start id (Option.isNone_iff_eq_none.mp hfree) hcbk rfl rfl

/-- An identifier of the table is a natural number. -/
theorem eq_of_validId {id : ℤ} {n : ℕ} (h : Timers.validId id = some n) : id = n := by
  rw [Timers.validId] at h
  split at h
  · cases h
  · rename_i hid
    cases h
    omega

theorem timerCancel_call (rtcCounter : ℕ) (id : ℤ) : TimerCall w rtcCounter timers
    (.api (.timerCancel id)) (timers.timerCancel id).1 := by
  rw [Timers.timerCancel]
  split
  · exact .other _
  · rename_i n hid
    rw [eq_of_validId hid]
    split
    · exact .cancel n
    · exact .other _

theorem timerDelete_call (rtcCounter : ℕ) (id : ℤ) : TimerCall w rtcCounter timers
    (.api (.timerDelete id)) (timers.timerDelete id).1 := by
  rw [Timers.timerDelete]
  split
  · exact .other _
  · rename_i n hid
    rw [eq_of_validId hid]
    exact .delete n _

theorem timerRestart_call {rtcCounter newInterval : ℕ} {id : ℤ} {r : Timers × Bool}
    (hr : timers.timerRestart w rtcCounter id newInterval = some r) :
    TimerCall w rtcCounter timers (.api (.timerRestart id newInterval)) r.1 := by
  rw [Timers.timerRestart] at hr
  split at hr
  · cases hr
    exact .other _
  · rename_i hid
    split at hr
    · cases hr
    · dsimp only at hr
      split at hr
      · rename_i hflags
        cases hr
        obtain ⟨n, rfl⟩ := Int.eq_ofNat_of_zero_le (by omega : 0 ≤ id)
        exact .restart n newInterval _ hflags.2 rfl rfl
      · cases hr
        exact .other _

/-- Calls that do not give up the processor. -/
theorem api_timers {call : Api} (hs : env.api w call = some env') :
    TimerCall w env.rtcCounter env.timers (.api call) env'.timers ∧
      env'.rtcCounter = env.rtcCounter := by
  have hother : SameTimers env env' →
      TimerCall w env.rtcCounter env.timers (.api call) env'.timers ∧
        env'.rtcCounter = env.rtcCounter := by
    intro hsame
    rw [hsame.timers]
    exact ⟨.other _, hsame.rtcCounter⟩
  cases call with
  | timerStart onExpire onCancel interval context periodic =>
    cases hs
    exact ⟨timerStart_call _ _ _ _ _ _, rfl⟩
  | timerCancel id =>
    cases hs
    exact ⟨timerCancel_call _ id, rfl⟩
  | timerDelete id =>
    cases hs
    exact ⟨timerDelete_call _ id, rfl⟩
  | timerRestart id newInterval =>
    obtain ⟨r, hr, rfl⟩ := Option.map_eq_some_iff.mp hs
    exact ⟨timerRestart_call hr, rfl⟩
  | tCreate entryPoint param rt =>
    cases hs
    refine hother ?_
    rw [Env.tCreate]
    split <;> exact ⟨rfl, rfl⟩
  | qSend q item =>
    cases hs
    exact hother (sameTimers_qSend q item)
  | tDelete id | tNotifySignal id _ | tFreeze id | tUnfreeze id | tRestart id _ | tSigIgnore id _
  | tSigAllow id _ =>
    cases hs
    exact hother (sameTimers_modifyTask id _)
  | qInit _ _ _ | qReceive _ _ | setIdleCbk _ =>
    cases hs
    exact hother ⟨rfl, rfl⟩

theorem block_timers (hpc : env.pc = .running) (call : Blocking) :
    TimerStep w env act (env.block w call) := by
  have hpass : env.pc.inPass = false := by rw [hpc]; rfl
  have hepoch : env.pc ≠ .epoch := by rw [hpc]; simp
  cases call with
  | tSuspend | tWaitforSignal _ | tmWkafter _ | tmMsleep _ =>
    exact .tasks hpass hepoch rfl rfl rfl
  | qReceive q =>
    rw [Env.block]
    split
    · exact .tasks hpass hepoch hpass rfl rfl
    · exact .tasks hpass hepoch rfl rfl rfl

/-- The end of a round of the selection loop is outside the pass. -/
theorem selectEnd_timers (env : Env) (n : ℕ) :
    SameTimers env (env.selectEnd n) ∧ (env.selectEnd n).pc.inPass = false := by
  constructor
  · rw [Env.selectEnd]
    split
    · exact ⟨rfl, rfl⟩
    · split <;> exact ⟨rfl, rfl⟩
  · rcases selectEnd_pc env n with h | h | h | ⟨h, -⟩ <;> rw [h] <;> rfl

theorem rtReturn_timers {taskCount : ℕ} {value : ℤ}
    (hs : env.rtReturn taskCount value = some env') :
    SameTimers env env' ∧ env'.pc.inPass = false := by
  rw [Env.rtReturn] at hs
  split at hs
  · cases hs
    obtain ⟨hsame, hpc⟩ := selectEnd_timers (env.setTask env.currentTask
      { env.taskTable env.currentTask with taskRetValue := value }) taskCount
    exact ⟨⟨hsame.timers, hsame.rtcCounter⟩, hpc⟩
  · split at hs
    · cases hs
      obtain ⟨hsame, hpc⟩ := selectEnd_timers (Env.setTask _ value.toNat _) taskCount
      exact ⟨⟨hsame.timers, hsame.rtcCounter⟩, hpc⟩
    · cases hs

theorem dispatch_timers (hs : env.dispatch = some env') : SameTimers env env' := by
  rw [Env.dispatch] at hs
  dsimp only at hs
  split at hs
  · split at hs
    · rename_i signum queue hstack
      cases queue with
      | none =>
        cases hs
        exact ⟨rfl, rfl⟩
      | some q =>
        cases hs
        exact ⟨rfl, rfl⟩
    · cases hs
  · cases hs
    exact ⟨rfl, rfl⟩

theorem visitTask_timers (hs : env.visitTask = some env') :
    SameTimers env env' ∧ env'.pc.inPass = false := by
  rw [Env.visitTask] at hs
  split at hs
  · cases hs
    exact ⟨⟨rfl, rfl⟩, rfl⟩
  · split at hs
    · cases hs
      exact ⟨⟨rfl, rfl⟩, rfl⟩
    · split at hs
      · have hsame := dispatch_timers hs
        obtain ⟨hpc, -⟩ := dispatch_cases hs
        refine ⟨⟨hsame.timers, hsame.rtcCounter⟩, ?_⟩
        rw [hpc]
        rfl
      · cases hs
        exact ⟨⟨rfl, rfl⟩, rfl⟩

theorem ret_timers {value : ℤ} (hact : act = .ret value) (hs : env.ret w value = some env') :
    TimerStep w env act env' := by
  rw [Env.ret] at hs
  split at hs
  · rename_i id hpc
    cases hs
    exact .cancelled id hpc rfl rfl rfl
  · rename_i id hpc
    cases hs
    exact .expired id hact hpc rfl rfl rfl
  · rename_i taskCount hpc
    obtain ⟨hsame, hpc'⟩ := rtReturn_timers hs
    exact .tasks (by rw [hpc]; rfl) (by rw [hpc]; simp) hpc' hsame.timers hsame.rtcCounter
  · rename_i hpc
    cases hs
    exact .tasks (by rw [hpc]; rfl) (by rw [hpc]; simp) rfl rfl rfl
  · rename_i hpc
    cases hs
    exact .tasks (by rw [hpc]; rfl) (by rw [hpc]; simp) rfl rfl rfl
  · cases hs

theorem sched_timers (hs : env.sched = some env') : TimerStep w env act env' := by
  rw [Env.sched] at hs
  split at hs
  · rename_i hpc
    cases hs
    exact .epoch hpc rfl rfl rfl
  · rename_i id hpc
    obtain ⟨timers, pc, rfl, hvisit⟩ := visitTimer_cases hs
    exact .visit id hpc hvisit rfl
  · rename_i taskCount hpc
    have hpass : env.pc.inPass = false := by rw [hpc]; rfl
    have hepoch : env.pc ≠ .epoch := by rw [hpc]; simp
    rw [Env.selectRound] at hs
    split at hs
    · split at hs
      · cases hs
        exact .tasks hpass hepoch rfl rfl rfl
      · cases hs
    · cases hs
      obtain ⟨hsame, hpc'⟩ := selectEnd_timers
        { env with currentTask := (env.currentTask + 1) % tasksTblEntriesCnt } (taskCount + 1)
      exact .tasks hpass hepoch hpc' hsame.timers hsame.rtcCounter
  · rename_i hpc
    obtain ⟨hsame, hpc'⟩ := visitTask_timers hs
    exact .tasks (by rw [hpc]; rfl) (by rw [hpc]; simp) hpc' hsame.timers hsame.rtcCounter
  · cases hs

/-- **Every step of the kernel is a step of the timers.** -/
theorem step_timers (hs : step w env act = some env') : TimerStep w env act env' := by
  cases act with
  | sched => exact sched_timers hs
  | updateRtc quantum =>
    cases hs
    exact .tick rfl rfl
  | api call =>
    obtain ⟨huser, hs⟩ := step_api hs
    obtain ⟨hcall, hrtc⟩ := api_timers hs
    exact .call huser hcall (api_sameControl hs).pc hrtc
  | block call =>
    obtain ⟨hpc, rfl⟩ := step_block hs
    exact block_timers hpc call
  | ret value => exact ret_timers rfl hs

end Kernel
