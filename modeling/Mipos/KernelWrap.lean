/-
Sleeps and timers when the counter wraps around.

A deadline that has wrapped around lies before the counter, and the next look at it takes
it for reached.  The runs that show it have the root task alone (`RootRuns`).

* `early_sleep`, `early_timer`, `early_own` — what a wrong comparison leads to.
* `time_not_early` — for which counters and intervals no sleep and no timer ends early.
* `time_ends_at_once` — a sleep and a timer that end without a quantum.
-/
import Mipos.KernelDeadlines
import Mipos.KernelSignals

namespace Kernel

open Function Relation

variable {w c n e : ℕ} {env env' : Env} {timers : Timers} {own periodic : Bool}

/-! ### The root task alone -/

/-- No task but the root task is ever selected. -/
structure OnlyRoot (taskTable : ℕ → Task) : Prop where
  root : (taskTable 1).rtTask = false ∧ (taskTable 1).skipped = false
  others : ∀ slot, slot ≠ 1 → (taskTable slot).rtTask = false ∧
    (slot ≠ idleTaskId → (taskTable slot).skipped = true)

/-- The selection that begins after the root task comes to the root task again. -/
theorem OnlyRoot.turn {P : Env → Act → Prop} (h : OnlyRoot env.taskTable)
    (hcur : env.currentTask = 1)
    (hP : ∀ k cur, P { env with pc := .select k, currentTask := cur } .sched) :
    ReflTransGen (TimedStep w P) (e, { env with pc := .select 0 })
      (e, { env with pc := .tsm }) := by
  have hround : ∀ k < tasksTblEntriesCnt, TimedStep w P
      (e, { env with pc := .select k, currentTask := (1 + k) % tasksTblEntriesCnt })
      (e, ({ env with pc := .select k, currentTask := (1 + (k + 1)) % tasksTblEntriesCnt } :
        Env).selectEnd (k + 1)) := by
    intro k hk
    refine ⟨.sched, ?_, hP _ _, rfl⟩
    have hrt : ∀ slot, (env.taskTable slot).rtTask = false := by
      intro slot
      rcases eq_or_ne slot 1 with rfl | hne
      · exact h.root.1
      · exact (h.others slot hne).1
    have hnext : ((1 + k) % tasksTblEntriesCnt + 1) % tasksTblEntriesCnt
        = (1 + (k + 1)) % tasksTblEntriesCnt := by
      rw [Nat.mod_add_mod, Nat.add_assoc]
    simp only [step, Env.sched, Env.selectRound, hrt, hnext, Bool.false_eq_true, if_false]
  have hpass : ∀ k < tasksTblEntriesCnt, ReflTransGen (TimedStep w P)
      (e, { env with pc := .select 0 })
      (e, { env with pc := .select k, currentTask := (1 + k) % tasksTblEntriesCnt }) := by
    intro k hk
    induction k with
    | zero =>
      rw [show (1 + 0) % tasksTblEntriesCnt = env.currentTask from hcur.symm]
    | succ k ih =>
      have hlast := hround k (by omega)
      rw [Env.selectEnd, if_pos] at hlast
      · exact (ih (by omega)).tail hlast
      · -- the slot is free, or it is the idle task
        rcases eq_or_ne ((1 + (k + 1)) % tasksTblEntriesCnt) idleTaskId with hidle | hne
        · exact .inr ⟨Nat.le_of_lt hk, hidle⟩
        · refine .inl ((h.others _ ?_).2 hne)
          show (1 + (k + 1)) % 8 ≠ 1
          have hk' : k + 1 < 8 := hk
          omega
  have hlast := hround 7 (by decide)
  rw [Env.selectEnd, if_neg, if_neg (show ¬(1 + (7 + 1)) % tasksTblEntriesCnt = idleTaskId by
    decide)] at hlast
  · rw [show (1 + (7 + 1)) % tasksTblEntriesCnt = env.currentTask from hcur.symm] at hlast
    exact (hpass 7 (by decide)).tail hlast
  · rintro (hskip | ⟨-, hidle⟩)
    · have hskip' : (env.taskTable 1).skipped = true := hskip
      rw [h.root.2] at hskip'
      cases hskip'
    · cases hidle

/-- The root task runs, and there are no other tasks and no timers. -/
structure RootRuns (c : ℕ) (env : Env) : Prop where
  pc : env.pc = .running
  rtcCounter : env.rtcCounter = c
  pointers : env.currentTask = 1 ∧ env.taskContextPtr = 1
  only : OnlyRoot env.taskTable
  status : (env.taskTable 1).status = taskRunning
  signals : (env.taskTable 1).signalPending = 0
  timers : env.timers = ⟨0, fun _ => false, fun _ => ⟨none, none, 0, 0, false, false, false, 0⟩⟩

theorem root_at (hc : c < 2 ^ w) : ∃ env, Reachable w env ∧ RootRuns c env := by
  obtain ⟨env, hrun, htable, henv⟩ : ∃ env : Env,
      runActs w boot [.sched, .sched, .sched] = some env ∧
      (∀ slot, slot ≠ 1 → env.taskTable slot
        = (schedulerInit fun _ => qInit (fun _ => 0) 1).taskTable slot) ∧
      (env.pc = .running ∧ env.rtcCounter = 0 ∧ env.currentTask = 1 ∧
        env.taskContextPtr = 1 ∧ (env.taskTable 1).rtTask = false ∧
        (env.taskTable 1).skipped = false ∧ (env.taskTable 1).status = taskRunning ∧
        (env.taskTable 1).signalPending = 0 ∧ env.timers
          = ⟨0, fun _ => false, fun _ => ⟨none, none, 0, 0, false, false, false, 0⟩⟩) := by
    refine ⟨_, rfl, ?_, rfl, rfl, rfl, rfl, rfl, by decide, rfl, rfl, rfl⟩
    intro slot hne
    show update (update (update _ 1 _) 1 _) 1 _ slot = _
    rw [update_of_ne hne, update_of_ne hne, update_of_ne hne]
  obtain ⟨hpc, hrtc, hcur, hptr, hrt, hskip, hstatus, hpending, htimers⟩ := henv
  have hr : Reachable w env := Reachable.runActs .boot hrun
  refine ⟨_, hr.step (show step w env (.updateRtc c) = some _ from rfl), hpc, ?_, ⟨hcur, hptr⟩,
    ⟨⟨hrt, hskip⟩, ?_⟩, hstatus, hpending, htimers⟩
  · show (env.rtcCounter + c) % 2 ^ w = c
    rw [hrtc, Nat.zero_add, Nat.mod_eq_of_lt hc]
  · intro slot hne
    show (env.taskTable slot).rtTask = _ ∧ (_ → (env.taskTable slot).skipped = _)
    rw [htable slot hne]
    rcases eq_or_ne slot idleTaskId with rfl | hidle
    · exact ⟨rfl, fun h => absurd rfl h⟩
    · simp [schedulerInit, hidle, Task.delete, Task.skipped]

/-- An epoch without timers goes on to the selection. -/
theorem epoch_select (hpc : env.pc = .epoch) (hbits : env.timers.timerBitmap = fun _ => false) :
    step w env .sched = some { env with pc := .select 0 } := by
  have hdue : env.timers.due env.rtcCounter = false := by
    rw [Timers.due, hbits]
    rfl
  rw [step, Env.sched, hpc]
  simp only [hdue, Bool.false_eq_true, if_false]

/-- The root task gives up the processor. -/
theorem RootRuns.suspend (h : RootRuns c env) (signum : BitVec 8) {f : Task → Task}
    (hf : ∀ task, (f task).rtTask = task.rtTask ∧ (f task).entryPoint = task.entryPoint ∧
      (f task).status = task.status) :
    OnlyRoot (env.suspend signum none f).taskTable ∧
      ((env.suspend signum none f).taskTable 1).status = taskSuspended := by
  obtain ⟨hrt, hentry, hstatus⟩ := hf ((env.taskTable 1).suspend signum none)
  have htable : (env.suspend signum none f).taskTable
      = update env.taskTable 1 (f ((env.taskTable 1).suspend signum none)) := by
    rw [Env.suspend, h.pointers.2]
    rfl
  have hsuspended : (f ((env.taskTable 1).suspend signum none)).status = taskSuspended := by
    rw [hstatus]
    show (if (env.taskTable 1).status &&& _ ≠ 0 then _ else _) = _
    rw [h.status]
    decide
  refine ⟨⟨?_, fun slot hne => ?_⟩, ?_⟩ <;> rw [htable]
  · obtain ⟨hrt', hskip⟩ := h.only.root
    simp only [Task.skipped, Bool.or_eq_false_iff] at hskip
    rw [update_self]
    refine ⟨hrt.trans hrt', ?_⟩
    rw [Task.skipped, hsuspended, hrt, hentry]
    show ((env.taskTable 1).entryPoint.isNone || (env.taskTable 1).rtTask || _) = false
    rw [hskip.1.1, hrt']
    decide
  · rw [update_of_ne hne]
    exact h.only.others slot hne
  · rw [update_self]
    exact hsuspended

/-- A visit to a suspended task goes back to the timers. -/
theorem visit_suspended (hpc : env.pc = .tsm)
    (hstatus : (env.taskTable env.currentTask).status = taskSuspended) :
    ∃ env', step w env .sched = some env' ∧ env'.pc = .epoch ∧ env'.timers = env.timers ∧
      env'.rtcCounter = env.rtcCounter ∧ env'.taskTable env.currentTask
        = (env.taskTable env.currentTask).visitSuspended env.rtcCounter := by
  rw [step, Env.sched, hpc]
  dsimp only
  rw [Env.visitTask]
  dsimp only
  rw [hstatus, if_neg (by decide), if_pos rfl]
  exact ⟨_, rfl, rfl, rfl, rfl, update_self ..⟩

theorem RootRuns.live (h : RootRuns c env) :
    (env.taskTable env.taskContextPtr).entryPoint ≠ none := by
  intro hnone
  have hskip := h.only.root.2
  rw [h.pointers.2] at hnone
  simp [Task.skipped, hnone] at hskip

/-- The root task makes a blocking call, `e` quanta are added, and the task state machine comes to
it again. -/
theorem RootRuns.visited {P : Env → Act → Prop} (h : RootRuns c env) (signum : BitVec 8)
    {f : Task → Task} (hf : ∀ task, (f task).rtTask = task.rtTask ∧
      (f task).entryPoint = task.entryPoint ∧ (f task).status = task.status) (e : ℕ)
    (hP : ∀ env₁ act, env₁.taskTable 1 = f ((env.taskTable 1).suspend signum none) →
      env₁.pc ≠ .tsm → act = .sched ∨ act = .updateRtc e → P env₁ act) :
    ∃ env₂ env₃, TimedRun w P (env.suspend signum none f) e env₂ ∧ Visits env₂ .sched 1 ∧
      env₂.rtcCounter = (c + e) % 2 ^ w ∧
      env₂.taskTable 1 = f ((env.taskTable 1).suspend signum none) ∧
      (env₂.taskTable 1).status = taskSuspended ∧ step w env₂ .sched = some env₃ ∧
      env₃.taskTable 1 = (env₂.taskTable 1).visitSuspended ((c + e) % 2 ^ w) := by
  obtain ⟨hcur, hptr⟩ := h.pointers
  let env₁ : Env := { env.suspend signum none f with rtcCounter := (env.rtcCounter + e) % 2 ^ w }
  obtain ⟨honly, hstatus⟩ : OnlyRoot env₁.taskTable ∧ (env₁.taskTable 1).status = taskSuspended :=
    h.suspend signum hf
  have htask : env₁.taskTable 1 = f ((env.taskTable 1).suspend signum none) := by
    show update env.taskTable env.taskContextPtr _ 1 = _
    rw [hptr, update_self]
  have hrtc : env₁.rtcCounter = (c + e) % 2 ^ w := by
    show (env.rtcCounter + e) % 2 ^ w = _
    rw [h.rtcCounter]
  have hepoch : step w env₁ .sched = some { env₁ with pc := .select 0 } := by
    refine epoch_select rfl ?_
    show env.timers.timerBitmap = _
    rw [h.timers]
  have hstatus' : (env₁.taskTable env₁.currentTask).status = taskSuspended := by
    rw [show env₁.currentTask = 1 from hcur]
    exact hstatus
  obtain ⟨env₃, hs, -, -, -, htask₃⟩ : ∃ env', step w { env₁ with pc := .tsm } .sched = some env' ∧
      env'.pc = .epoch ∧ env'.timers = env₁.timers ∧ env'.rtcCounter = env₁.rtcCounter ∧
        env'.taskTable env₁.currentTask
          = (env₁.taskTable env₁.currentTask).visitSuspended env₁.rtcCounter :=
    visit_suspended rfl hstatus'
  rw [show env₁.currentTask = 1 from hcur] at htask₃
  refine ⟨{ env₁ with pc := .tsm }, env₃, ?_, ⟨rfl, rfl, hcur⟩, hrtc, htask, hstatus, hs, ?_⟩
  · refine .head (b := (e, env₁)) ⟨.updateRtc e, rfl, hP _ _ htask nofun (.inr rfl), ?_⟩ ?_
    · exact (Nat.zero_add e).symm
    · refine .head (b := (e, { env₁ with pc := .select 0 }))
        ⟨.sched, hepoch, hP _ _ htask nofun (.inl rfl), rfl⟩ ?_
      exact honly.turn hcur fun _ _ => hP _ _ htask nofun (.inl rfl)
  · rw [htask₃, hrtc]

/-! ### Sleeps -/

/-- The clock raises the signal when the deadline is reached. -/
theorem signal_due {task : Task} {rtcCounter : ℕ} (hwait : task.signalWaiting.getLsbD 3 = true)
    (hne : task.rtcTimeout ≠ 0) (hge : task.rtcTimeout ≤ rtcCounter) :
    ((task.countTick.checkRtc rtcCounter).signalPending &&& task.signalWaiting).getLsbD 3
      = true := by
  have hclock := countTick_clocked task
  have hwaiting : task.countTick.signalWaiting = task.signalWaiting := by rw [hclock.same]
  have hmask : task.signalWaiting &&& sigtmr ≠ 0 := and_ne_zero_iff.mpr ⟨3, hwait, by decide⟩
  rw [Task.checkRtc, hwaiting, if_pos hmask, (countTick_rtc task).1, if_pos ⟨hne, hge⟩,
    BitVec.getLsbD_and, BitVec.getLsbD_or, hwait]
  simp [sigtmr]

/-- The sleep that ends early. -/
theorem early_sleep (hc : c < 2 ^ w) (he : e < n) (hne : (c + n % 2 ^ 32) % 2 ^ w ≠ 0)
    (hge : (c + n % 2 ^ 32) % 2 ^ w ≤ (c + e) % 2 ^ w) : ¬SleepsInFull w c n := by
  intro h
  obtain ⟨env, hr, hroot⟩ := root_at hc
  let f : Task → Task := fun task =>
    { task with rtcTimeout := (env.rtcCounter + n % 2 ^ 32) % 2 ^ w }
  -- the task sleeps in all states of the run
  obtain ⟨env₂, -, hrun, hvisit, hrtc, htask, hstatus, -⟩ :=
    hroot.visited (w := w) sigtmr (f := f) (fun _ => ⟨rfl, rfl, rfl⟩) e (P := Sleeps 1) (by
      intro env₁ act htask _ hact
      refine ⟨by rw [htask]; rfl, ?_⟩
      rintro ⟨id, signum, rfl, -⟩
      simp at hact)
  have hsleeps : Sleeps 1 env₂ .sched := by
    refine ⟨by rw [htask]; rfl, ?_⟩
    rintro ⟨id, signum, hact, -⟩
    cases hact
  have hwoken : WokenByTimer env₂ 1 := by
    refine ⟨hvisit.2.1, hvisit.2.2, hstatus, ?_⟩
    rw [htask]
    refine signal_due ?_ ?_ ?_
    · simp [f, Task.suspend, Task.setWaitForSignal, sigtmr]
    · show (env.rtcCounter + n % 2 ^ 32) % 2 ^ w ≠ 0
      rw [hroot.rtcCounter]
      exact hne
    · show (env.rtcCounter + n % 2 ^ 32) % 2 ^ w ≤ env₂.rtcCounter
      rw [hroot.rtcCounter, hrtc]
      exact hge
  have hle := h env e env₂ hr hroot.pc hroot.rtcCounter
  rw [hroot.pointers.2, hroot.signals] at hle
  have := hle rfl hrun hsleeps hwoken
  omega

/-- **Sleeps end in time** just if the count fits into 32 bits and into what is left of
the counter, or there is no deadline. -/
theorem sleepsInFull_iff (hc : c < 2 ^ w) : SleepsInFull w c n ↔
    n = 0 ∨ (c + n % 2 ^ 32) % 2 ^ w = 0 ∨ (n < 2 ^ 32 ∧ c + n < 2 ^ w) := by
  refine ⟨fun h => ?_, sleepsInFull_of_fits hc⟩
  rcases eq_or_ne ((c + n % 2 ^ 32) % 2 ^ w) 0 with hzero | hne
  · exact .inr (.inl hzero)
  · have hahead : ∀ e < n, (c + e) % 2 ^ w < (c + n % 2 ^ 32) % 2 ^ w := by
      intro e he
      by_contra hge
      exact early_sleep hc he hne (Nat.not_lt.mp hge) h
    rcases (lt_deadline_iff hc (Nat.mod_le ..)).mp hahead with hn | ⟨hcount, hlt⟩
    · exact .inl hn
    · exact .inr (.inr ⟨hcount ▸ Nat.mod_lt n (by decide), hlt⟩)

/-! ### Timers -/

/-- The epoch begins with the pass if the timer in slot 0 is due. -/
theorem epoch_expires (hpc : env.pc = .epoch) (hactive : env.timers.timerBitmap 0 = true)
    (hcan : (env.timers.timerTable 0).cancelled = false)
    (hdue : (env.timers.timerTable 0).rtcTimeout ≤ env.rtcCounter)
    (hnext : env.timers.nextRtcTimeout ≤ (env.timers.timerTable 0).rtcTimeout) :
    step w env .sched = some { env with pc := .expire 0 } ∧
      Expires { env with pc := .expire 0 } 0 := by
  have hw : Waiting 0 env := by
    refine ⟨.inl hpc, ?_, ?_, hactive, hcan, hdue, fun _ => .inr hnext⟩
    · rw [hpc]
      exact Nat.zero_le 0
    · rw [hpc]
      simp
  refine ⟨?_, rfl, hw.visit_eq⟩
  rw [step, Env.sched, hpc]
  simp only [hw.scheduler_due (by decide) hpc, if_true]

/-- The timer that expires early. -/
theorem early_timer (hc : c < 2 ^ w) (he : e < n) (hge : (c + n) % 2 ^ w ≤ (c + e) % 2 ^ w) :
    ¬TimersInFull w c n false periodic := by
  intro h
  obtain ⟨env, hr, hroot⟩ := root_at hc
  obtain ⟨timers, hstart, hactive, htimer, hnext⟩ : ∃ timers,
      env.timers.timerStart w c (some 1) none n 0 periodic = (timers, some 0) ∧
      timers.timerBitmap 0 = true ∧ timers.timerTable 0
        = ⟨some 1, none, 0, (c + n) % 2 ^ w, periodic, false, false, n⟩ ∧
      timers.nextRtcTimeout = (c + n) % 2 ^ w := by
    rw [hroot.timers]
    exact ⟨_, rfl, rfl, rfl, rfl⟩
  let env₁ : Env := { ({ env with timers } : Env).suspend sigwkp none id with
    rtcCounter := (env.rtcCounter + e) % 2 ^ w }
  have hrtc : env₁.rtcCounter = (c + e) % 2 ^ w := by
    show (env.rtcCounter + e) % 2 ^ w = _
    rw [hroot.rtcCounter]
  obtain ⟨hepoch, hexp⟩ : step w env₁ .sched = some { env₁ with pc := .expire 0 } ∧
      Expires { env₁ with pc := .expire 0 } 0 := by
    refine epoch_expires rfl hactive ?_ ?_ ?_
    · show (timers.timerTable 0).cancelled = false
      rw [htimer]
    · show (timers.timerTable 0).rtcTimeout ≤ _
      rw [htimer, hrtc]
      exact hge
    · show timers.nextRtcTimeout ≤ (timers.timerTable 0).rtcTimeout
      exact Nat.le_of_eq (by rw [htimer, hnext])
  have hrun : TimedRun w (fun _ act => act ≠ .api (.timerDelete ((0 : ℕ) : ℤ)))
      { env with timers } e { env₁ with pc := .expire 0 } := by
    refine .head (b := (0, ({ env with timers } : Env).suspend sigwkp none id))
      ⟨.block .tSuspend, ?_, by simp, rfl⟩ ?_
    · rw [step, if_pos hroot.pc]
      rfl
    · refine .head (b := (e, env₁)) ⟨.updateRtc e, rfl, by simp, (Nat.zero_add e).symm⟩ ?_
      exact .single ⟨.sched, hepoch, by simp, rfl⟩
  have hpc : env.pc = .onExpire 0 ↔ false = true := by
    rw [hroot.pc]
    simp
  have hle := h env timers 0 e _ (some 1) none 0 hr (by rw [hroot.pc]; rfl) hroot.rtcCounter hpc
    hstart hrun hexp
  omega

/-- The on-expire handler of timer 0 runs and has deleted its timer, while the root task
is suspended and there are no other tasks and timers. -/
structure HandlerRuns (c : ℕ) (env : Env) : Prop where
  pc : env.pc = .onExpire 0
  rtcCounter : env.rtcCounter = c
  currentTask : env.currentTask = 1
  only : OnlyRoot env.taskTable
  root : (env.taskTable 1).status = taskSuspended
  next : env.timers.nextRtcTimeout = 0
  inactive : ∀ i, env.timers.timerBitmap i = false
  free : (env.timers.timerTable 0).handlerOnExpireCbk = none

theorem handler_at (hc : c < 2 ^ w) : ∃ env, Reachable w env ∧ HandlerRuns c env := by
  obtain ⟨env, hr, hroot⟩ := root_at (Nat.two_pow_pos w)
  obtain ⟨honly, hstatus⟩ := hroot.suspend sigwkp (f := fun task => task) fun _ => ⟨rfl, rfl, rfl⟩
  obtain ⟨idle, rtc, cur, ptr, table, timers, queues, pc⟩ := env
  obtain ⟨rfl, rfl, ⟨rfl, rfl⟩, -, -, -, rfl⟩ := hroot
  refine ⟨_, hr.runActs (show runActs w _ [.api (.timerStart (some 1) none 0 0 false),
    .block .tSuspend, .sched, .sched, .api (.timerDelete 0), .updateRtc c] = some _ from rfl),
    rfl, ?_, rfl, honly, hstatus, rfl, ?_, rfl⟩
  · show (0 + c) % 2 ^ w = c
    rw [Nat.zero_add, Nat.mod_eq_of_lt hc]
  · intro i
    show update (update (fun _ => false) 0 true) 0 false i = false
    rcases eq_or_ne i 0 with rfl | hne
    · rfl
    · rw [update_of_ne hne, update_of_ne hne]

/-- The rest of the pass when no timer but the one in slot 0 is active. -/
theorem pass_ends {P : Env → Act → Prop} (hP : ∀ env, P env .sched)
    (hoff : ∀ i, i ≠ 0 → env.timers.timerBitmap i = false) :
    ReflTransGen (TimedStep w P) (e, { env with pc := .expire 1 })
      (e, { env with timers := env.timers.selectNext, pc := .select 0 }) := by
  have hpass : ∀ i, i ≠ 0 → i < maxTimersNo → TimedStep w P (e, { env with pc := .expire i })
      (e, { env with pc := .expire (i + 1) }) := by
    intro i hne hlt
    refine ⟨.sched, ?_, hP _, rfl⟩
    have hvisit : env.timers.visit env.rtcCounter i = .pass := by
      rw [Timers.visit, hoff i hne]
      rfl
    show Env.visitTimer _ i = _
    rw [Env.visitTimer, if_pos hlt]
    simp only [hvisit]
  refine .head (hpass 1 (by decide) (by decide)) (.head (hpass 2 (by decide) (by decide))
    (.head (hpass 3 (by decide) (by decide)) (.single ⟨.sched, rfl, hP _, rfl⟩)))

/-- The timeout that the pass finds is not after the deadline of the only active timer. -/
theorem selectNext_le_only (hactive : timers.timerBitmap 0 = true)
    (hoff : ∀ i, i ≠ 0 → timers.timerBitmap i = false) :
    timers.selectNext.nextRtcTimeout ≤ (timers.timerTable 0).rtcTimeout := by
  have honce : ∀ k, timers.selectNextUpTo (k + 1)
      = timers.lowerNext (timers.timerTable 0).rtcTimeout := by
    intro k
    induction k with
    | zero =>
      rw [Timers.selectNextUpTo_succ]
      exact if_pos hactive
    | succ k ih =>
      rw [Timers.selectNextUpTo_succ, (timers.selectNextUpTo_frame (k + 1)).1,
        hoff (k + 1) (Nat.succ_ne_zero k), ih]
      rfl
  rw [show timers.selectNext = timers.selectNextUpTo (3 + 1) from rfl, honce]
  exact Timers.lowerNext_le _

/-- The timer that expires early after the handler of its slot has armed it again. -/
theorem early_own {e₀ : ℕ} (hc : c < 2 ^ w) (he₀ : e₀ ≤ e) (he : e < n)
    (hge : (c + e₀ + n) % 2 ^ w ≤ (c + e) % 2 ^ w) : ¬TimersInFull w c n true true := by
  intro h
  obtain ⟨env, hr, hh⟩ := handler_at hc
  -- the timer that the handler starts
  obtain ⟨timers, hstart, hactive, hoff, htimer⟩ : ∃ timers,
      env.timers.timerStart w c (some 1) none n 0 true = (timers, some 0) ∧
      timers.timerBitmap 0 = true ∧ (∀ i, i ≠ 0 → timers.timerBitmap i = false) ∧
      timers.timerTable 0 = ⟨some 1, none, 0, (c + n) % 2 ^ w, true, false, false, n⟩ := by
    have hfind : (List.range maxTimersNo).find? (fun id =>
        (env.timers.timerTable id).handlerOnExpireCbk.isNone) = some 0 := by
      show List.find? _ (0 :: _) = _
      exact List.find?_cons_of_pos (by rw [hh.free]; rfl)
    rw [Timers.timerStart, if_neg (by simp), hfind]
    refine ⟨_, rfl, ?_, fun i hne => ?_, ?_⟩
    · simp
    · simp [hne, hh.inactive i]
    · simp
  -- the return of the handler arms it again
  have hafter : timers.afterExpire w ((env.rtcCounter + e₀) % 2 ^ w) 0 = timers.setTimer 0
      ⟨some 1, none, 0, (c + e₀ + n) % 2 ^ w, true, false, false, n⟩ := by
    rw [Timers.afterExpire, htimer, hh.rtcCounter]
    simp
  let timers' : Timers := timers.setTimer 0
    ⟨some 1, none, 0, (c + e₀ + n) % 2 ^ w, true, false, false, n⟩
  let env₁ : Env := { env with
    rtcCounter := ((env.rtcCounter + e₀) % 2 ^ w + (e - e₀)) % 2 ^ w, timers := timers' }
  let env₂ : Env := { env₁ with timers := timers'.selectNext }
  have hrtc : env₁.rtcCounter = (c + e) % 2 ^ w := by
    show ((env.rtcCounter + e₀) % 2 ^ w + (e - e₀)) % 2 ^ w = _
    rw [Nat.mod_add_mod, hh.rtcCounter, Nat.add_assoc, Nat.add_sub_cancel' he₀]
  obtain ⟨env₃, hvisit, hepoch₃, htimers₃, hrtc₃, -⟩ : ∃ env', step w { env₂ with pc := .tsm } .sched
      = some env' ∧ env'.pc = .epoch ∧ env'.timers = timers'.selectNext ∧
        env'.rtcCounter = env₁.rtcCounter ∧ env'.taskTable env₂.currentTask = _ :=
    visit_suspended rfl (by rw [← hh.root, ← hh.currentTask])
  obtain ⟨hbit, htable⟩ := selectNext_same timers' 0
  have hdeadline : (timers'.timerTable 0).rtcTimeout = (c + e₀ + n) % 2 ^ w := by simp [timers']
  obtain ⟨hsched, hexp⟩ : step w env₃ .sched = some { env₃ with pc := .expire 0 } ∧
      Expires { env₃ with pc := .expire 0 } 0 := by
    refine epoch_expires hepoch₃ ?_ ?_ ?_ ?_ <;> rw [htimers₃]
    · exact hbit.trans hactive
    · rw [htable]
      simp [timers']
    · rw [htable, hdeadline, hrtc₃, hrtc]
      exact hge
    · rw [htable]
      exact selectNext_le_only hactive hoff
  have honly : OnlyRoot env₂.taskTable := hh.only
  have hrun : TimedRun w (fun _ act => act ≠ .api (.timerDelete ((0 : ℕ) : ℤ))) { env with timers }
      e { env₃ with pc := .expire 0 } := by
    refine .head (b := (e₀, { env with timers, rtcCounter := (env.rtcCounter + e₀) % 2 ^ w }))
      ⟨.updateRtc e₀, rfl, by simp, (Nat.zero_add e₀).symm⟩ ?_
    refine .head (b := (e₀, { env with
        timers := timers', rtcCounter := (env.rtcCounter + e₀) % 2 ^ w, pc := .expire 1 }))
      ⟨.ret 0, ?_, by simp, rfl⟩ ?_
    · rw [step, Env.ret, hh.pc]
      simp only [hafter, timers']
    refine .head (b := (e, { env₁ with pc := .expire 1 }))
      ⟨.updateRtc (e - e₀), rfl, by simp, (Nat.add_sub_cancel' he₀).symm⟩ ?_
    refine .trans (b := (e, { env₂ with pc := .select 0 })) (pass_ends (fun _ => by simp) hoff) ?_
    refine .trans (b := (e, { env₂ with pc := .tsm }))
      (honly.turn hh.currentTask fun _ _ => by simp) ?_
    exact .head (b := (e, env₃)) ⟨.sched, hvisit, by simp, rfl⟩
      (.single ⟨.sched, hsched, by simp, rfl⟩)
  have hle := h env timers 0 e _ (some 1) none 0 hr (by rw [hh.pc]; rfl) hh.rtcCounter
    (by simp [hh.pc]) hstart hrun hexp
  omega

/-- **Timers expire in time** just if the interval fits into what is left of the counter. -/
theorem timersInFull_iff (hc : c < 2 ^ w) : TimersInFull w c n own periodic ↔
    n = 0 ∨ if own then periodic = false ∨ c + 2 * n ≤ 2 ^ w else c + n < 2 ^ w := by
  refine ⟨fun h => ?_, timersInFull_of_fits hc⟩
  cases own with
  | false =>
    have hahead : ∀ e < n, (c + e) % 2 ^ w < (c + n) % 2 ^ w := by
      intro e he
      by_contra hge
      exact early_timer hc he (Nat.not_lt.mp hge) h
    rcases (lt_deadline_iff hc (Nat.le_refl n)).mp hahead with hn | ⟨-, hfits⟩
    · exact .inl hn
    · exact .inr hfits
  | true =>
    cases periodic with
    | false => exact .inr (.inl rfl)
    | true =>
      have hahead : ∀ e e₀, e₀ ≤ e → e < n → (c + e) % 2 ^ w < (c + e₀ + n) % 2 ^ w := by
        intro e e₀ he₀ he
        by_contra hge
        exact early_own hc he₀ he (Nat.not_lt.mp hge) h
      rcases (lt_rearmed_iff hc).mp hahead with hn | hfits
      · exact .inl hn
      · exact .inr (.inr hfits)

/-- **Time does not end early** just if the interval fits into what is left of the counter.
A sleep has to fit into 32 bits besides, and a sleep with the deadline 0 does not end at
all.  A timer that is started by the on-expire handler of its own slot is deactivated when
the handler returns, or, if it is periodic, armed again; the interval has to fit twice
then. -/
theorem time_not_early (hc : c < 2 ^ w) :
    (SleepsInFull w c n ↔
      n = 0 ∨ (c + n % 2 ^ 32) % 2 ^ w = 0 ∨ (n < 2 ^ 32 ∧ c + n < 2 ^ w)) ∧
    (∀ own periodic, TimersInFull w c n own periodic ↔
      n = 0 ∨ if own then periodic = false ∨ c + 2 * n ≤ 2 ^ w else c + n < 2 ^ w) :=
  ⟨sleepsInFull_iff hc, fun _ _ => timersInFull_iff hc⟩

/-- Fifty quanta fit between 100 before the end of a 32-bit counter and its end. -/
theorem time_not_early_fifty :
    SleepsInFull 32 4294967196 50 ∧ ∀ periodic, TimersInFull 32 4294967196 50 false periodic := by
  have hc : 4294967196 < 2 ^ 32 := by decide
  refine ⟨(time_not_early hc).1.mpr (.inr (.inr (by decide))), fun periodic => ?_⟩
  exact ((time_not_early hc).2 false periodic).mpr
    (.inr (show 4294967196 + 50 < 2 ^ 32 by decide))

/-- The counter is one before its end.  The root task calls `mipos_tm_msleep(10)`, and is
woken by its next visit; or it starts a timer with the interval 10, which expires in the
next epoch.  No quantum is added. -/
theorem time_ends_at_once :
    (∃ env : Env, runActs 32 boot [.sched, .sched, .sched, .updateRtc 4294967295] = some env ∧
      env.rtcCounter = 4294967295 ∧ env.taskContextPtr = 1 ∧
      (∃ env', runActs 32 env (.block (.tmMsleep 10) :: List.replicate 10 .sched) = some env' ∧
        (env'.taskTable 1).status = taskReady ∧ (env'.taskTable 1).wkup = true) ∧
      ∃ env', runActs 32 env [.api (.timerStart (some 2) none 10 0 false), .block .tSuspend, .sched,
        .sched] = some env' ∧ env'.pc = .onExpire 0) ∧
    ¬SleepsInFull 32 4294967295 10 ∧ ¬TimersInFull 32 4294967295 10 false false := by
  refine ⟨by decide +kernel, ?_, ?_⟩
  · exact early_sleep (e := 0) (by decide) (by decide) (by decide) (by decide)
  · exact early_timer (e := 0) (by decide) (by decide) (by decide)

end Kernel
