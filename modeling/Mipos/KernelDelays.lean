/-
Delays.

A task in `mipos_tm_msleep` waits for `MIPOS_SIGTMR`, and a task in `mipos_tm_wkafter` for
`MIPOS_SIGALM`.  The task state machine raises the one when the deadline is reached, where the
deadline 0 stands for none, and the other when the ticks are used up, where the number of
ticks is an `int`.

* `SlotStep.inCall` — what a step does to a task in a blocking call;
* `sleep_ends_iff` — a sleep ends when its deadline is reached, and not before, just if the count
  fits into 32 bits and the deadline is not 0;
* `sleeps_forever` — a sleep of length 0 that does not end, and one that ends early;
* `delay_exact_iff` — a delay lasts the visits that were asked for just if their number fits
  into an `int`;
* `delay_cut_short` — a long delay that lasts no visit, and one that an RT task ends.
-/
import Mipos.KernelFrozen
import Mipos.KernelWrap

namespace Kernel

variable {w c n k : ℕ} {env env' env₁ env₂ : Env} {act : Act} {t : ℕ} {signum : BitVec 8}

/-! ### Tasks in a blocking call -/

/-- A task that gave up the processor in a call that waits for `signum`, and has not got it
back. -/
structure InCall (signum : BitVec 8) (sl : Slot) : Prop where
  offCpu : sl.onCpu = false
  live : sl.task.entryPoint ≠ none
  stack : sl.task.stack = .saved signum none
  status : ∃ phase frozen, sl.task.status = Phase.word phase frozen ∧
    (phase = .suspended ∨ phase = .ready)

theorem InCall.ne_word {sl : Slot} (h : InCall signum sl) (phase : Phase) (frozen : Bool)
    (hsuspended : phase ≠ .suspended) (hready : phase ≠ .ready) :
    sl.task.status ≠ phase.word frozen := by
  intro hstatus
  obtain ⟨phase', frozen', hword, hphase⟩ := h.status
  obtain ⟨rfl, -⟩ := Phase.word_inj (hword.symm.trans hstatus)
  exact hphase.elim hsuspended hready

/-- What a call of other code leaves of the descriptor of a task in a blocking call. -/
structure Kept (env : Env) (act : Act) (t : ℕ) (task task' : Task) : Prop where
  entryPoint : task'.entryPoint = task.entryPoint
  stack : task'.stack = task.stack
  timerTickCount : task'.timerTickCount = task.timerTickCount
  rtcTimeout : task'.rtcTimeout = task.rtcTimeout
  status : ∀ {phase frozen}, task.status = Phase.word phase frozen →
    ∃ frozen', task'.status = Phase.word phase frozen' ∧
      (frozen' = true → frozen = true ∨ Freezes env act t)
  sent : ∀ {i}, i ≠ 1 → task'.signalPending.getLsbD i = true →
    task.signalPending.getLsbD i = true ∨ Sends env act t i

theorem TaskEdit.kept {task task' : Task} (hedit : TaskEdit env act t task task')
    (hzombie : task.status ≠ taskZombie) : Kept env act t task task' := by
  have hsame : ∀ {phase frozen}, task.status = Phase.word phase frozen →
      ∃ frozen', task.status = Phase.word phase frozen' ∧
        (frozen' = true → frozen = true ∨ Freezes env act t) :=
    fun {_ frozen} hword => ⟨frozen, hword, .inl⟩
  obtain ⟨hticks, htimeout⟩ := hedit.clocks
  have hsent : ∀ {i}, i ≠ 1 → task'.signalPending.getLsbD i = true →
      task.signalPending.getLsbD i = true ∨ Sends env act t i :=
    fun hi hset => (hedit.sends hset).imp_right fun h => h.resolve_right fun h => hi h.1
  cases hedit with
  | same | retValue _ _ _ | notifySignal _ _ _ | notifyQueue _ _ _ | sigIgnore _ _ _
  | sigAllow _ _ _ => exact ⟨rfl, rfl, hticks, htimeout, hsame, hsent⟩
  | freeze hact hid =>
    refine ⟨rfl, rfl, hticks, htimeout, fun hword => ⟨true, ?_, fun _ => .inr ⟨_, hact, hid⟩⟩, hsent⟩
    exact (congrArg (· ||| taskFrozen) hword).trans (Phase.word_freeze _ _)
  | unfreeze _ _ =>
    refine ⟨rfl, rfl, hticks, htimeout, fun hword => ⟨false, ?_, nofun⟩, hsent⟩
    exact (congrArg (· &&& ~~~taskFrozen) hword).trans (Phase.word_unfreeze _ _)
  | restart newParam _ _ =>
    have hkeep : task.restart newParam = task := by
      rw [Task.restart, if_neg fun h => hzombie h.2]
    rw [hkeep] at hticks htimeout hsent ⊢
    exact ⟨rfl, rfl, hticks, htimeout, hsame, hsent⟩

theorem InCall.kept {sl : Slot} {task' : Task} (h : InCall signum sl)
    (hkept : Kept env act t sl.task task') : InCall signum ⟨sl.onCpu, task'⟩ := by
  obtain ⟨phase, frozen, hword, hphase⟩ := h.status
  obtain ⟨frozen', hword', -⟩ := hkept.status hword
  exact ⟨h.offCpu, hkept.entryPoint ▸ h.live, hkept.stack.trans h.stack, phase, frozen', hword',
    hphase⟩

/-- **One step of a task in a blocking call**: it stays there, and others change its descriptor,
an RT task asks for it, or the task state machine comes to it. -/
theorem SlotStep.inCall {sl sl' : Slot} (hstep : SlotStep env act t sl sl') (h : InCall signum sl)
    (hdel : ¬Deletes env act t) (hdisp : ¬(Visits env act t ∧ sl.task.status = taskReady)) :
    InCall signum sl' ∧ (Kept env act t sl.task sl'.task ∨
      (Promotes env act t ∧ sl'.task.status = taskReady) ∨
      (Visits env act t ∧ sl.task.status = taskSuspended ∧
        sl'.task = sl.task.visitSuspended env.rtcCounter)) := by
  have hzombie : sl.task.status ≠ taskZombie := h.ne_word .zombie false nofun nofun
  cases hstep with
  | edit hedit =>
    have hkept := hedit.kept hzombie
    exact ⟨h.kept hkept, .inl hkept⟩
  | create _ _ hfree => exact absurd hfree h.live
  | delete hdelete => exact absurd hdelete hdel
  | promote hprom _ hedit =>
    have h' := h.kept (hedit.kept hzombie)
    exact ⟨⟨rfl, h'.live, h'.stack, .ready, false, rfl, .inr rfl⟩, .inr (.inl ⟨hprom, rfl⟩)⟩
  | suspend _ _ _ _ _ => cases h.offCpu
  | finish _ _ => cases h.offCpu
  | zombie _ hstatus => exact absurd hstatus (h.ne_word .running false nofun nofun)
  | @visit task hvisit hstatus =>
    refine ⟨?_, .inr (.inr ⟨hvisit, hstatus, rfl⟩)⟩
    obtain ⟨task₁, hclock, ⟨-, heq⟩ | ⟨-, heq⟩⟩ := visitSuspended_cases task env.rtcCounter
    · rw [heq, hclock.same]
      exact ⟨rfl, h.live, h.stack, .ready, false, rfl, .inr rfl⟩
    · rw [heq, hclock.same]
      exact ⟨rfl, h.live, h.stack, .suspended, false, hstatus, .inl rfl⟩
  | begin hvisit hstatus _ | resume hvisit hstatus _ _ => exact absurd ⟨hvisit, hstatus⟩ hdisp

/-- A suspended task waits for the signals of its call. -/
theorem InCall.waiting (hr : Reachable w env) (h : InCall signum (env.slot t))
    (hstatus : (env.taskTable t).status = taskSuspended) :
    (env.taskTable t).signalWaiting = signum := by
  obtain ⟨phase, frozen, hok⟩ := hr.inv.slots t
  obtain ⟨rfl, -⟩ := Phase.eq_of_word .suspended (hok.status.symm.trans hstatus)
  obtain ⟨queue, hsaved⟩ := hok.suspended rfl
  rw [h.stack] at hsaved
  injection hsaved with hsignum _
  exact hsignum.symm

/-- The call itself. -/
theorem inCall_of_suspend (hr : Reachable w env) (hpc : env.pc = .running)
    (hlive : (env.taskTable env.taskContextPtr).entryPoint ≠ none) (signum : BitVec 8)
    {f : Task → Task} (hf : ∀ task, (f task).entryPoint = task.entryPoint ∧
      (f task).stack = task.stack ∧ (f task).status = task.status) :
    InCall signum ((env.suspend signum none f).slot env.taskContextPtr) ∧
      ((env.suspend signum none f).taskTable env.taskContextPtr).status = taskSuspended := by
  obtain ⟨hentry, hstack, hstatus⟩ :=
    hf ((env.taskTable env.taskContextPtr).suspend signum none)
  have htask : (env.suspend signum none f).taskTable env.taskContextPtr
      = f ((env.taskTable env.taskContextPtr).suspend signum none) := by
    simp [Env.suspend]
  have hsuspended : (f ((env.taskTable env.taskContextPtr).suspend signum none)).status
      = taskSuspended := by
    obtain ⟨phase, frozen, hok⟩ := hr.inv.slots env.taskContextPtr
    have hword : (env.taskTable env.taskContextPtr).status = phase.word frozen := hok.status
    obtain ⟨-, -, hzombie⟩ := hok.onCpu (by simp [Env.slot, hpc])
    have hphase : ¬(phase = .notRunning ∨ phase = .zombie) := by
      rintro (hdead | hz)
      · exact hlive (hok.dead hdead)
      · exact hzombie hz
    rw [hstatus, suspend_status hword, if_neg hphase]
    rfl
  refine ⟨⟨rfl, ?_, ?_, .suspended, false, ?_, .inl rfl⟩, ?_⟩
  · show ((env.suspend signum none f).taskTable env.taskContextPtr).entryPoint ≠ none
    rw [htask, hentry]
    exact hlive
  · show ((env.suspend signum none f).taskTable env.taskContextPtr).stack = _
    rw [htask, hstack]
    rfl
  · show ((env.suspend signum none f).taskTable env.taskContextPtr).status = _
    rw [htask, hsuspended]
    rfl
  · rw [htask, hsuspended]

/-- A task that is visited is not frozen. -/
theorem InCall.visited (hr : Reachable w env) (h : InCall signum (env.slot t))
    (hvisit : Visits env .sched t) :
    (env.taskTable t).status = taskSuspended ∨ (env.taskTable t).status = taskReady := by
  obtain ⟨phase, frozen, hword, hphase⟩ := h.status
  obtain ⟨-, hpc, rfl⟩ := hvisit
  have hskip := (hr.inv.selected hpc).1
  have hword' : (env.taskTable env.currentTask).status = Phase.word phase frozen := hword
  cases frozen with
  | true =>
    have hfrozen : (env.taskTable env.currentTask).isFrozen = true := by
      rw [Task.isFrozen, hword']
      rcases hphase with rfl | rfl <;> decide
    rw [skipped_of_isFrozen hfrozen] at hskip
    cases hskip
  | false =>
    rcases hphase with rfl | rfl
    · exact .inl hword'
    · exact .inr hword'

/-! ### Sleeps -/

/-- A task in `mipos_tm_msleep`: it sleeps until `timeout`, or was woken. -/
structure Sleeping (timeout : ℕ) (sl : Slot) : Prop extends InCall sigtmr sl where
  rtcTimeout : ∀ frozen, sl.task.status = Phase.word .suspended frozen →
    sl.task.rtcTimeout = timeout

/-- A visit at the deadline. -/
theorem visitSuspended_due {task : Task} {rtcCounter : ℕ} (hwait : task.signalWaiting = sigtmr)
    (hne : task.rtcTimeout ≠ 0) (hge : task.rtcTimeout ≤ rtcCounter) :
    (task.visitSuspended rtcCounter).status = taskReady := by
  have hbit : task.signalWaiting.getLsbD 3 = true := by
    rw [hwait]
    decide
  have hdue := signal_due hbit hne hge
  have hclock := (countTick_clocked task).trans (checkRtc_clocked task.countTick rtcCounter)
  have hwaiting : (task.countTick.checkRtc rtcCounter).signalWaiting = task.signalWaiting := by
    rw [hclock.same]
  have hsig : (task.countTick.checkRtc rtcCounter).signalPending &&&
      (task.countTick.checkRtc rtcCounter).signalWaiting ≠ 0 := by
    intro hzero
    rw [← hwaiting, hzero] at hdue
    cases hdue
  dsimp only [Task.visitSuspended]
  rw [if_pos hsig]

/-- A visit before the deadline, or without one. -/
theorem visitSuspended_asleep {task : Task} {rtcCounter : ℕ} (hwait : task.signalWaiting = sigtmr)
    (hquiet : task.signalPending.getLsbD 3 = false)
    (hearly : task.rtcTimeout ≠ 0 → rtcCounter < task.rtcTimeout) :
    task.visitSuspended rtcCounter = task := by
  have htick : task.countTick = task := by
    rw [Task.countTick, hwait, if_neg (by decide)]
  have hrtc := countTick_checkRtc_early hearly
  have hsig : ¬task.signalPending &&& task.signalWaiting ≠ 0 := by
    intro hne
    rw [hwait] at hne
    cases hquiet.symm.trans (pending_of_and_ne_zero rfl hne)
  dsimp only [Task.visitSuspended]
  rw [hrtc, htick, if_neg hsig]

/-- **One step of a sleep.** -/
theorem Sleeping.step {timeout : ℕ} (hr : Reachable w env) (h : Sleeping timeout (env.slot t))
    (hs : step w env act = some env') (hdel : ¬Deletes env act t) (hdisp : ¬Dispatches env act t) :
    Sleeping timeout (env'.slot t) := by
  obtain ⟨hcall, hcases⟩ := (step_slot hs t).inCall h.toInCall hdel hdisp
  refine ⟨hcall, fun frozen hsuspended => ?_⟩
  rcases hcases with hkept | ⟨-, hready⟩ | ⟨-, hstatus, htask⟩
  · obtain ⟨phase, frozen₀, hword, -⟩ := h.status
    obtain ⟨frozen', hword', -⟩ := hkept.status hword
    obtain ⟨rfl, -⟩ := Phase.word_inj (hword'.symm.trans hsuspended)
    exact hkept.rtcTimeout.trans (h.rtcTimeout frozen₀ hword)
  · cases (Phase.eq_of_word .ready (hsuspended.symm.trans hready)).1
  · have hstored : (env.taskTable t).rtcTimeout = timeout := h.rtcTimeout false hstatus
    rw [htask] at hsuspended ⊢
    rw [← hstored]
    -- a visit at the deadline would have made it ready
    refine visitSuspended_early fun hne => Nat.lt_of_not_le fun hge => ?_
    have hready := visitSuspended_due (h.waiting hr hstatus) hne hge
    cases (Phase.eq_of_word .ready (hsuspended.symm.trans hready)).1

theorem blocks_at (hpc : env.pc = .running) (call : Blocking) :
    step w env (.block call) = some (env.block w call) := by
  rw [step, if_pos hpc]

/-- A task that calls `mipos_tm_msleep(n)` when the counter is at `c`, and is not deleted, is made
ready when the task state machine comes to it and the counter has reached `c + n`, if something
else has not made it ready before. -/
def WakesAtDeadline (w c n : ℕ) : Prop :=
  ∀ env env₂, Reachable w env → env.pc = .running → env.rtcCounter = c →
    (env.taskTable env.taskContextPtr).entryPoint ≠ none →
    Relation.ReflTransGen (StepWhere w fun env₁ act =>
        ¬Deletes env₁ act env.taskContextPtr ∧ ¬Dispatches env₁ act env.taskContextPtr)
      (env.block w (.tmMsleep n)) env₂ →
    Visits env₂ .sched env.taskContextPtr → c + n ≤ env₂.rtcCounter →
    (env₂.taskTable env.taskContextPtr).status = taskReady ∨
      ∃ env₃, step w env₂ .sched = some env₃ ∧
        (env₃.taskTable env.taskContextPtr).status = taskReady

/-- A sleep ends when its time is over, and the clock does not end it before. -/
structure SleepEnds (w c n : ℕ) : Prop where
  notBefore : SleepsInFull w c n
  atDeadline : WakesAtDeadline w c n

theorem wakesAtDeadline_of_ne (hfits : c + n < 2 ^ w) (hne : c + n % 2 ^ 32 ≠ 0) :
    WakesAtDeadline w c n := by
  intro env env₂ hr hpc hrtc hlive hrun hvisit hreached
  have hr₁ : Reachable w (env.block w (.tmMsleep n)) := hr.step (blocks_at hpc _)
  have hcount : n % 2 ^ 32 ≤ n := Nat.mod_le ..
  have hdeadline : (env.rtcCounter + n % 2 ^ 32) % 2 ^ w = c + n % 2 ^ 32 := by
    rw [hrtc]
    exact Nat.mod_eq_of_lt (by omega)
  -- the task sleeps until it is woken
  have hsleep : Sleeping (c + n % 2 ^ 32) (env₂.slot env.taskContextPtr) := by
    clear hvisit hreached
    induction hrun with
    | refl =>
      obtain ⟨hcall, -⟩ := inCall_of_suspend (f := fun task => { task with
        rtcTimeout := (env.rtcCounter + n % 2 ^ 32) % 2 ^ w }) hr hpc hlive sigtmr
        fun _ => ⟨rfl, rfl, rfl⟩
      refine ⟨hcall, fun _ _ => ?_⟩
      rw [← hdeadline]
      simp [Env.slot, Env.block, Env.suspend]
    | tail hrun hstep ih =>
      obtain ⟨act, hs, hdel, hdisp⟩ := hstep
      exact ih.step (reachable_of_run hr₁ hrun) hs hdel hdisp
  have hr₂ := reachable_of_run hr₁ hrun
  rcases hsleep.visited hr₂ hvisit with hstatus | hready
  · obtain ⟨-, hpc₂, hcur⟩ := hvisit
    have hstored : (env₂.taskTable env.taskContextPtr).rtcTimeout = c + n % 2 ^ 32 :=
      hsleep.rtcTimeout false hstatus
    have hwait := hsleep.waiting hr₂ hstatus
    rw [← hcur] at hstatus hstored hwait ⊢
    obtain ⟨env₃, hs, -, -, -, htask⟩ := visit_suspended (w := w) hpc₂ hstatus
    refine .inr ⟨env₃, hs, ?_⟩
    rw [htask]
    refine visitSuspended_due hwait ?_ ?_
    · rw [hstored]
      exact hne
    · rw [hstored]
      omega
  · exact .inl hready

/-- The root task waits for the signals of its call only. -/
theorem RootRuns.waits (h : RootRuns c env) (hr : Reachable w env) (signum : BitVec 8) :
    ((env.taskTable 1).suspend signum none).signalWaiting = signum := by
  obtain ⟨phase, frozen, hok⟩ := hr.inv.slots 1
  have hon : (env.slot 1).onCpu = true := by simp [Env.slot, h.pc, h.pointers.2]
  have hzero : (env.taskTable 1).signalWaiting = 0 := hok.waiting_zero (hok.onCpu hon).1
  show (env.taskTable 1).signalWaiting ||| signum = signum
  rw [hzero]
  exact BitVec.zero_or

/-- Without a deadline the root task sleeps on. -/
theorem not_wakesAtDeadline (hfits : c + n < 2 ^ w) (hzero : c + n % 2 ^ 32 = 0) :
    ¬WakesAtDeadline w c n := by
  intro hends
  have hc : c < 2 ^ w := by omega
  obtain ⟨env, hr, hroot⟩ := root_at hc
  let f : Task → Task := fun task =>
    { task with rtcTimeout := (env.rtcCounter + n % 2 ^ 32) % 2 ^ w }
  -- the root task is visited when the counter is at `c + n`
  obtain ⟨env₂, env₃, hrun, hvisit, hrtc, htask, hstatus, hs, htask₃⟩ :=
    hroot.visited (w := w) sigtmr (f := f) (fun _ => ⟨rfl, rfl, rfl⟩) n
      (P := fun env₁ act => ¬Deletes env₁ act 1 ∧ ¬Dispatches env₁ act 1)
      (by
        rintro env₁ act - hpc (rfl | rfl)
        · exact ⟨nofun, fun hdisp => hpc hdisp.1.2.1⟩
        · exact ⟨nofun, nofun⟩)
  rw [Nat.mod_eq_of_lt hfits] at hrtc htask₃
  have hwait : (env₂.taskTable 1).signalWaiting = sigtmr := by
    rw [htask]
    exact hroot.waits hr sigtmr
  -- without a deadline the visit changes nothing
  have hasleep : (env₂.taskTable 1).visitSuspended (c + n) = env₂.taskTable 1 := by
    refine visitSuspended_asleep hwait ?_ fun hne => ?_
    · rw [htask]
      show (env.taskTable 1).signalPending.getLsbD 3 = false
      rw [hroot.signals]
      rfl
    · refine absurd ?_ hne
      rw [htask]
      show (env.rtcCounter + n % 2 ^ 32) % 2 ^ w = 0
      rw [hroot.rtcCounter, hzero, Nat.zero_mod]
  have hready := hends env env₂ hr hroot.pc hroot.rtcCounter hroot.live
  rw [hroot.pointers.2] at hready
  rcases hready (hrun.run And.left) hvisit (Nat.le_of_eq hrtc.symm) with h | ⟨env₃', hs', h⟩
  · exact absurd (hstatus.symm.trans h) (by decide)
  · cases hs.symm.trans hs'
    rw [htask₃, hasleep] at h
    exact absurd (hstatus.symm.trans h) (by decide)

/-- **Sleeps end in time** just if the count fits into 32 bits and the deadline is not 0. -/
theorem sleep_ends_iff (hfits : c + n < 2 ^ w) : SleepEnds w c n ↔ n < 2 ^ 32 ∧ c + n ≠ 0 := by
  have hfull := sleepsInFull_iff (n := n) (show c < 2 ^ w by omega)
  constructor
  · rintro ⟨hfirst, hends⟩
    have hne : c + n % 2 ^ 32 ≠ 0 := fun hzero => not_wakesAtDeadline hfits hzero hends
    have hcount : n % 2 ^ 32 ≤ n := Nat.mod_le ..
    -- a count of more than 32 bits is cut off, and then the sleep ends early
    rcases hfull.mp hfirst with rfl | hzero | ⟨hn, -⟩
    · exact ⟨by decide, hne⟩
    · rw [Nat.mod_eq_of_lt (by omega)] at hzero
      exact absurd hzero hne
    · exact ⟨hn, by omega⟩
  · rintro ⟨hn, hne⟩
    refine ⟨hfull.mpr (.inr (.inr ⟨hn, hfits⟩)), wakesAtDeadline_of_ne hfits ?_⟩
    rwa [Nat.mod_eq_of_lt hn]

theorem sleep_ends_iff_twenty : 5 + 20 < 2 ^ 64 ∧ SleepEnds 64 5 20 :=
  ⟨by decide, (sleep_ends_iff (by decide)).mpr (by decide)⟩

/-- **A sleep without end.**  The root task calls `mipos_tm_msleep(0)` before the clock has
started; later it is visited, and stays suspended.  And a sleep of `2 ^ 32 + 5` quanta ends after
five. -/
theorem sleeps_forever : ¬SleepsInFull 64 1 (2 ^ 32 + 5) ∧
    ∃ env : Env, runActs 64 boot (List.replicate 3 Act.sched) = some env ∧ env.pc = .running ∧
      env.taskContextPtr = 1 ∧ env.rtcCounter = 0 ∧
      ∃ env₁, step 64 env (.block (.tmMsleep 0)) = some env₁ ∧
      ∃ env₂, runWhere 64 makesNoCall env₁ ([.updateRtc 1000] ++ List.replicate 9 Act.sched)
        = some env₂ ∧ env₂.rtcCounter = 1000 ∧ Visits env₂ .sched 1 ∧
      ∃ env₃, step 64 env₂ .sched = some env₃ ∧ env₃.taskTable 1 = env₂.taskTable 1 ∧
      (env₃.taskTable 1).status = taskSuspended := by
  refine ⟨?_, by decide +kernel⟩
  exact early_sleep (e := 5) (by decide) (by decide) (by decide) (by decide)

/-! ### Ticks -/

/-- A run whose steps meet `P`, in which the task state machine comes to `t` `k` times. -/
abbrev VisitRun (w t : ℕ) (P : Env → Act → Prop) : Env → ℕ → Env → Prop :=
  EventRun w P fun env act => Visits env act t

/-- The steps that neither delete nor freeze `t` nor notify it of `MIPOS_SIGALM`, and in which no
RT task asks for it. -/
def KeepsDelay (t : ℕ) (env : Env) (act : Act) : Prop :=
  ¬Deletes env act t ∧ ¬Freezes env act t ∧ ¬Sends env act t 2 ∧ ¬Promotes env act t

/-- A task that waits for so many ticks. -/
structure Delayed (ticks : ℤ) (sl : Slot) : Prop extends InCall sigalm sl where
  suspended : sl.task.status = taskSuspended
  timerTickCount : sl.task.timerTickCount = ticks
  quiet : sl.task.signalPending.getLsbD 2 = false

/-- A visit uses up one tick. -/
theorem visitSuspended_tick {task : Task} (hwait : task.signalWaiting = sigalm)
    (hquiet : task.signalPending.getLsbD 2 = false) (hticks : 0 < task.timerTickCount)
    (rtcCounter : ℕ) : task.visitSuspended rtcCounter
      = { task with timerTickCount := task.timerTickCount - 1 } := by
  have htick : task.countTick = { task with timerTickCount := task.timerTickCount - 1 } := by
    rw [Task.countTick, hwait, if_pos (by decide), if_pos hticks]
  have hsig : ¬task.signalPending &&& task.signalWaiting ≠ 0 := by
    intro hne
    rw [hwait] at hne
    cases hquiet.symm.trans (pending_of_and_ne_zero rfl hne)
  have hrtc : ({ task with timerTickCount := task.timerTickCount - 1 } : Task).checkRtc rtcCounter
      = { task with timerTickCount := task.timerTickCount - 1 } := by
    rw [Task.checkRtc]
    dsimp only
    rw [hwait, if_neg (by decide)]
  dsimp only [Task.visitSuspended]
  rw [htick, hrtc, if_neg hsig]

/-- The ticks are used up. -/
theorem visitSuspended_over {task : Task} (hwait : task.signalWaiting = sigalm)
    (hticks : task.timerTickCount ≤ 0) (rtcCounter : ℕ) :
    (task.visitSuspended rtcCounter).status = taskReady := by
  have htick : task.countTick = { task with signalPending := task.signalPending ||| sigalm } := by
    rw [Task.countTick, hwait, if_pos (by decide), if_neg (by omega)]
  have hrtc :
      ({ task with signalPending := task.signalPending ||| sigalm } : Task).checkRtc rtcCounter
      = { task with signalPending := task.signalPending ||| sigalm } := by
    rw [Task.checkRtc]
    dsimp only
    rw [hwait, if_neg (by decide)]
  have hsig : (task.signalPending ||| sigalm) &&& task.signalWaiting ≠ 0 := by
    refine and_ne_zero_iff.mpr ⟨2, ?_, ?_⟩
    · rw [BitVec.getLsbD_or]
      simp [sigalm]
    · rw [hwait]
      decide
  dsimp only [Task.visitSuspended]
  rw [htick, hrtc, if_pos hsig]

theorem Delayed.not_ready {ticks : ℤ} {sl : Slot} (h : Delayed ticks sl) :
    sl.task.status ≠ taskReady := by
  rw [h.suspended]
  decide

/-- **One step of a delay** that is no visit. -/
theorem Delayed.pass {ticks : ℤ} (h : Delayed ticks (env.slot t)) (hs : step w env act = some env')
    (hkeep : KeepsDelay t env act) (hno : ¬Visits env act t) : Delayed ticks (env'.slot t) := by
  obtain ⟨hdel, hfreeze, hnotify, hprom⟩ := hkeep
  obtain ⟨hcall, hcases⟩ := (step_slot hs t).inCall h.toInCall hdel fun hdisp => hno hdisp.1
  rcases hcases with hkept | ⟨hasked, -⟩ | ⟨hvisit, -, -⟩
  · refine ⟨hcall, ?_, hkept.timerTickCount.trans h.timerTickCount, ?_⟩
    · have hword : (env.slot t).task.status = Phase.word .suspended false := h.suspended
      obtain ⟨frozen, hword', hfrozen⟩ := hkept.status hword
      cases frozen with
      | false => exact hword'
      | true => exact absurd ((hfrozen rfl).resolve_left nofun) hfreeze
    · refine Bool.eq_false_iff.mpr fun hset => ?_
      rcases hkept.sent (by decide) hset with h' | h'
      · rw [h.quiet] at h'
        cases h'
      · exact hnotify h'
  · exact absurd hasked hprom
  · exact absurd hvisit hno

/-- The task state machine comes to a delayed task. -/
theorem Delayed.visit_eq {ticks : ℤ} (h : Delayed ticks (env.slot t)) (hvisit : Visits env .sched t) :
    ∃ env', step w env .sched = some env' ∧
      env'.taskTable t = (env.taskTable t).visitSuspended env.rtcCounter := by
  have hstatus : (env.taskTable t).status = taskSuspended := h.suspended
  obtain ⟨-, hpc, rfl⟩ := hvisit
  obtain ⟨env', hs, -, -, -, htask⟩ := visit_suspended (w := w) hpc hstatus
  exact ⟨env', hs, htask⟩

/-- **One visit of a delay.** -/
theorem Delayed.visit {ticks : ℤ} (hr : Reachable w env) (h : Delayed ticks (env.slot t))
    (hs : step w env .sched = some env') (hkeep : KeepsDelay t env .sched)
    (hvisit : Visits env .sched t) (hticks : 0 < ticks) : Delayed (ticks - 1) (env'.slot t) := by
  obtain ⟨hcall, -⟩ := (step_slot hs t).inCall h.toInCall hkeep.1 fun hdisp => h.not_ready hdisp.2
  obtain ⟨env₁, hs₁, htask⟩ := h.visit_eq (w := w) hvisit
  cases hs.symm.trans hs₁
  have hstored : (env.taskTable t).timerTickCount = ticks := h.timerTickCount
  rw [visitSuspended_tick (h.waiting hr h.suspended) h.quiet (by rw [hstored]; exact hticks),
    hstored] at htask
  refine ⟨hcall, ?_, ?_, ?_⟩ <;> simp only [Env.slot, htask]
  · exact h.suspended
  · exact h.quiet

/-- **A whole run of a delay**, up to as many visits as there are ticks. -/
theorem VisitRun.delayed {ticks : ℤ} (hr : Reachable w env) (h : Delayed ticks (env.slot t))
    (hrun : VisitRun w t (KeepsDelay t) env k env') (hk : k ≤ ticks) :
    Delayed (ticks - k) (env'.slot t) := by
  refine hrun.induct (I := fun (k : ℕ) env => (k : ℤ) ≤ ticks → Delayed (ticks - k) (env.slot t))
    ?_ ?_ hk
  · intro _
    simpa using h
  · rintro k env act env' _ hrun ih hs ⟨hP, ⟨hno, rfl⟩ | ⟨hvisit, rfl⟩⟩ hk
    · exact (ih hk).pass hs hP hno
    · obtain rfl : act = .sched := hvisit.1
      have hlast := (ih (by omega)).visit (hrun.reachable hr) hs hP hvisit (by omega)
      rw [show ticks - ((k + 1 : ℕ) : ℤ) = ticks - k - 1 by omega]
      exact hlast

/-- A task that calls `mipos_tm_wkafter(n)` stays suspended for `n` visits and is made ready by
the next one. -/
def DelayExact (w n : ℕ) : Prop :=
  ∀ env k env₂, Reachable w env → env.pc = .running →
    (env.taskTable env.taskContextPtr).entryPoint ≠ none →
    (env.taskTable env.taskContextPtr).signalPending.getLsbD 2 = false →
    VisitRun w env.taskContextPtr (KeepsDelay env.taskContextPtr)
      (env.block w (.tmWkafter n)) k env₂ → k ≤ n →
    (env₂.taskTable env.taskContextPtr).status = taskSuspended ∧
      (Visits env₂ .sched env.taskContextPtr → ∃ env₃, step w env₂ .sched = some env₃ ∧
        (env₃.taskTable env.taskContextPtr).status = if k < n then taskSuspended else taskReady)

theorem tickCount_eq (hn : n < 2 ^ 31) : Task.tickCount n = n :=
  Int.bmod_eq_of_le (by omega) (by omega)

theorem tickCount_neg (hn : 2 ^ 31 ≤ n) (hn' : n < 2 ^ 32) : Task.tickCount n ≤ 0 := by
  show Int.bmod n (2 ^ 32) ≤ 0
  have hmod : (n : ℤ) % ((2 ^ 32 : ℕ) : ℤ) = n := Int.emod_eq_of_lt (by omega) (by omega)
  simp only [Int.bmod_def, hmod]
  split
  · omega
  · omega

theorem delayExact_of_int (hn : n < 2 ^ 31) : DelayExact w n := by
  intro env k env₂ hr hpc hlive hquiet hrun hk
  have hr₁ : Reachable w (env.block w (.tmWkafter n)) := hr.step (blocks_at hpc _)
  have hstart : Delayed n ((env.block w (.tmWkafter n)).slot env.taskContextPtr) := by
    obtain ⟨hcall, hstatus⟩ := inCall_of_suspend (f := fun task => { task with
      timerTickCount := Task.tickCount n }) hr hpc hlive sigalm fun _ => ⟨rfl, rfl, rfl⟩
    refine ⟨hcall, hstatus, ?_, ?_⟩
    · rw [← tickCount_eq hn]
      simp [Env.slot, Env.block, Env.suspend]
    · simpa [Env.slot, Env.block, Env.suspend, Task.suspend, Task.setWaitForSignal] using hquiet
  have h := hrun.delayed hr₁ hstart (by omega)
  refine ⟨h.suspended, fun hvisit => ?_⟩
  obtain ⟨env₃, hs, htask⟩ := h.visit_eq (w := w) hvisit
  refine ⟨env₃, hs, ?_⟩
  have hwait := h.waiting (hrun.reachable hr₁) h.suspended
  have hstored : (env₂.taskTable env.taskContextPtr).timerTickCount = n - k := h.timerTickCount
  rw [htask]
  split
  · rw [visitSuspended_tick hwait h.quiet (by omega)]
    exact h.suspended
  · exact visitSuspended_over hwait (by omega) _

/-- **Delays are exact** just if the number of ticks fits into an `int`. -/
theorem delay_exact_iff (hn : n < 2 ^ 32) : DelayExact w n ↔ n < 2 ^ 31 := by
  refine ⟨fun hexact => ?_, delayExact_of_int⟩
  by_contra hge
  obtain ⟨env, hr, hroot⟩ := root_at (Nat.two_pow_pos w)
  let f : Task → Task := fun task => { task with timerTickCount := Task.tickCount n }
  obtain ⟨env₂, env₃, hrun, hvisit, -, htask, -, hs, htask₃⟩ :=
    hroot.visited (w := w) sigalm (f := f) (fun _ => ⟨rfl, rfl, rfl⟩) 0
      (P := fun env₁ act => KeepsDelay 1 env₁ act ∧ ¬Visits env₁ act 1)
      (by
        rintro env₁ act - hpc (rfl | rfl)
        · exact ⟨⟨nofun, nofun, nofun, nofun⟩, fun hvisit => hpc hvisit.2.1⟩
        · exact ⟨⟨nofun, nofun, nofun, nofun⟩, nofun⟩)
  have hwait : (env₂.taskTable 1).signalWaiting = sigalm := by
    rw [htask]
    exact hroot.waits hr sigalm
  -- the first visit finds a negative number of ticks
  have hready : (env₃.taskTable 1).status = taskReady := by
    rw [htask₃]
    refine visitSuspended_over hwait ?_ _
    have hticks : (env₂.taskTable 1).timerTickCount = Task.tickCount n := by rw [htask]
    rw [hticks]
    exact tickCount_neg (by omega) hn
  have h := hexact env 0 env₂ hr hroot.pc hroot.live
  rw [hroot.pointers.2, hroot.signals] at h
  obtain ⟨-, h⟩ := h rfl (.of_run (hrun.run And.left) fun hP => ⟨hP.1, .inl ⟨hP.2, rfl⟩⟩)
    (Nat.zero_le n)
  obtain ⟨env₃', hs', hstatus⟩ := h hvisit
  cases hs.symm.trans hs'
  rw [if_pos (by omega)] at hstatus
  exact absurd (hstatus.symm.trans hready) (by decide)

theorem delay_exact_iff_hundred : 100 < 2 ^ 32 ∧ DelayExact 64 100 :=
  ⟨by decide, (delay_exact_iff (by decide)).mpr (by decide)⟩

/-- **Two delays that are cut short.**  The root task asks for `2 ^ 31` ticks, and the first visit
makes it ready; and a root task that asked for five is made ready before the first visit, by
an RT task that asks for it. -/
theorem delay_cut_short :
    (∃ env : Env, runActs 64 boot (List.replicate 3 Act.sched) = some env ∧ env.pc = .running ∧
      env.taskContextPtr = 1 ∧ ∃ env₁, step 64 env (.block (.tmWkafter (2 ^ 31))) = some env₁ ∧
      ∃ env₂, runWhere 64 makesNoCall env₁ (List.replicate 9 Act.sched) = some env₂ ∧
      Visits env₂ .sched 1 ∧ (env₂.taskTable 1).status = taskSuspended ∧
      ∃ env₃, step 64 env₂ .sched = some env₃ ∧ (env₃.taskTable 1).status = taskReady) ∧
    ∃ env : Env, runActs 64 boot (List.replicate 3 Act.sched ++
        [Act.api (.tCreate (some 5) 0 true)]) = some env ∧
      env.pc = .running ∧ env.taskContextPtr = 1 ∧
      ∃ env₁, step 64 env (.block (.tmWkafter 5)) = some env₁ ∧
      (env₁.taskTable 1).status = taskSuspended ∧
      ∃ env₂, runWhere 64 makesNoCall env₁ [.sched, .sched, .ret 1] = some env₂ ∧
      (env₂.taskTable 1).status = taskReady := by
  decide +kernel

end Kernel
