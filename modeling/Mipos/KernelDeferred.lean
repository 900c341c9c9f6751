/-
Deferred calls.

An RT task that returns a number asks for the task with that number: the selection loop sets it
to `TASK_READY`, whatever it is, and goes on from its slot.  If the slot is not eligible all
the same, and lies before the RT task, the loop comes to the RT task again.

* `LoopInv.step`, `LoopRun.inv` — how many rounds the loop has made when it comes to a slot;
* `selection_ends` — if RT tasks ask for tasks in use, and for RT tasks only from their own slot
  on, the loop ends after at most 16 rounds, and makes no free slot ready;
* `Spinning.forever` — an RT task that asks for the slot before it can keep the loop going;
* `selection_spins` — so does one that asks for a deleted task.
-/
import Mipos.KernelSelect

namespace Kernel

variable {w : ℕ} {env env' env₀ : Env} {act : Act} {m n t : ℕ}

/-! ### Runs of the loop -/

/-- A run of the selection loop whose steps meet `P`, with the rounds counted. -/
abbrev LoopRun (w : ℕ) (P : Env → Act → Prop) : Env → ℕ → Env → Prop :=
  RecordRun w (fun m env act _ m' =>
    (env.pc.selecting = true ∧ P env act) ∧ m' = m + act.rounds) 0

/-- RT tasks return 0, or ask for a task that is in use and that is not RT, or not before their
own slot. -/
def AsksForward (env : Env) (act : Act) : Prop :=
  ∀ n t, env.pc = .inRt n → act = .ret (t : ℕ) → t ≠ 0 →
    (env.taskTable t).entryPoint ≠ none ∧
      ((env.taskTable t).rtTask = true → env.currentTask ≤ t)

/-- No RT task without an entry point is created. -/
def CreatesNoNullRt (act : Act) : Prop := ∀ param, act ≠ .api (.tCreate none param true)

/-- The RT tasks have entry points. -/
def RtHaveCode (env : Env) : Prop :=
  ∀ slot, (env.taskTable slot).rtTask = true → (env.taskTable slot).entryPoint ≠ none

/-- What holds in the loop after `m` rounds: until it comes to the idle slot it makes a round for
every slot that it advances. -/
structure LoopInv (m : ℕ) (env : Env) : Prop where
  count : ∀ n, env.pc = .select n ∨ env.pc = .inRt n → n = m
  bound : env.pc.selecting = true → m ≤ tasksTblEntriesCnt + env.currentTask
  total : m ≤ 2 * tasksTblEntriesCnt

/-- The loop goes on after a round if it is at a slot to pass over, or at the idle slot early. -/
theorem selectEnd_select {k : ℕ} (h : (env.selectEnd n).pc = .select k) : k = n ∧
    ((env.taskTable env.currentTask).skipped = true ∨
      n ≤ tasksTblEntriesCnt ∧ env.currentTask = idleTaskId) := by
  rw [Env.selectEnd] at h
  split at h
  · rename_i hgo
    exact ⟨(Pc.select.inj h).symm, hgo⟩
  · split at h
    · dsimp only at h
      split at h <;> cases h
    · cases h

/-- The end of a round. -/
theorem LoopInv.selectEnd (hidle : (env.taskTable idleTaskId).skipped = false)
    (hn : n ≤ 2 * tasksTblEntriesCnt)
    (hbound : (env.selectEnd n).pc.selecting = true → env.currentTask ≠ idleTaskId →
      n ≤ tasksTblEntriesCnt + env.currentTask) : LoopInv n (env.selectEnd n) := by
  refine ⟨?_, fun hsel => ?_, hn⟩
  · rintro k (hk | hk)
    · exact (selectEnd_select hk).1
    · exact absurd hk (selectEnd_ne_inRt env n k)
  · rw [selectEnd_currentTask]
    by_cases hzero : env.currentTask = idleTaskId
    · -- the loop passes over the idle slot only while it has made few rounds
      obtain ⟨k, hk⟩ : ∃ k, (env.selectEnd n).pc = .select k := by
        rcases selectEnd_pc env n with hpc | hpc | hpc | ⟨hpc, -⟩
        · exact ⟨n, hpc⟩
        all_goals
          rw [hpc] at hsel
          cases hsel
      rcases (selectEnd_select hk).2 with hskip | ⟨hfew, -⟩
      · rw [hzero, hidle] at hskip
        cases hskip
      · exact Nat.le_trans hfew (Nat.le_add_right ..)
    · exact hbound hsel hzero

/-- An RT task asks for a task that is not RT: the loop ends. -/
theorem asked_selecting (hentry : (env.taskTable t).entryPoint ≠ none) (hne : t ≠ idleTaskId)
    (hsel : ((env.asked t).selectEnd n).pc.selecting = true) :
    (env.taskTable t).rtTask = true := by
  by_contra hrt
  obtain ⟨value, htask⟩ := asked_taskTable env t
  have helig : Eligible (env.asked t) (env.asked t).currentTask := by
    show Eligible (env.asked t) t
    refine ⟨hne, ReadyTask.skipped ⟨?_, ?_, ?_⟩⟩ <;> rw [htask]
    · exact hentry
    · simpa using hrt
  rw [selectEnd_of_eligible helig] at hsel
  cases hsel

/-- **One step of the loop.** -/
theorem LoopInv.step (hinv : LoopInv m env) (hr : Reachable w env) (hs : step w env act = some env')
    (hsel : env.pc.selecting = true) (hasks : AsksForward env act) :
    LoopInv (m + act.rounds) env' := by
  have hidle' := (hr.step hs).control.idle
  have hcur := hr.control.currentTask
  have hbound := hinv.bound hsel
  have hnext : env.nextTask ≠ idleTaskId → env.nextTask = env.currentTask + 1 := by
    intro hne
    rw [Env.nextTask, idleTaskId, tasksTblEntriesCnt] at *
    omega
  cases step_pointer hs with
  | keep hact hpc hcur' _ =>
    rw [Act.rounds_of_ne hact]
    refine ⟨?_, ?_, hinv.total⟩
    · rw [hpc]
      exact hinv.count
    · rw [hpc, hcur']
      exact hinv.bound
  | other hno _ _ _ =>
    rw [hno] at hsel
    cases hsel
  | @call n hact hpc hrt =>
    obtain rfl := hinv.count n (.inl hpc)
    rw [hact]
    -- the idle task is not RT
    have hne : env.nextTask ≠ idleTaskId := by
      intro hzero
      rw [hzero, hr.control.idle.rtTask] at hrt
      cases hrt
    have hadd := hnext hne
    refine ⟨?_, fun _ => ?_, ?_⟩
    · rintro k (hk | hk)
      · cases hk
      · exact (Pc.inRt.inj hk).symm
    · show n + 1 ≤ tasksTblEntriesCnt + env.nextTask
      omega
    · show n + 1 ≤ 2 * tasksTblEntriesCnt
      omega
  | @round n hact hpc hrt =>
    obtain rfl := hinv.count n (.inl hpc)
    rw [hact]
    rw [selectEnd_taskTable] at hidle'
    refine .selectEnd hidle'.skipped ?_ fun _ hne => ?_
    · show n + 1 ≤ 2 * tasksTblEntriesCnt
      omega
    · have hadd := hnext hne
      show n + 1 ≤ tasksTblEntriesCnt + env.nextTask
      omega
  | @rtReturn n hact hpc =>
    obtain rfl := hinv.count n (.inr hpc)
    rw [Act.rounds_of_ne hact]
    rw [selectEnd_taskTable] at hidle'
    exact .selectEnd hidle'.skipped hinv.total fun _ _ => hbound
  | @promote n _ hprom _ hpc hne _ =>
    obtain rfl := hinv.count n (.inr hpc)
    have hact : act = .ret (env'.currentTask : ℕ) := by
      obtain ⟨-, -, hact⟩ := hprom
      exact hact
    obtain ⟨hentry, hforward⟩ := hasks n _ hpc hact hne
    obtain ⟨-, k, hpc', heq⟩ := hprom.step_eq hne hs
    obtain rfl : n = k := Pc.inRt.inj (hpc.symm.trans hpc')
    rw [hact, heq]
    rw [heq, selectEnd_taskTable] at hidle'
    refine .selectEnd hidle'.skipped hinv.total fun hsel' _ => ?_
    have hle := hforward (asked_selecting hentry hne hsel')
    show n ≤ tasksTblEntriesCnt + env'.currentTask
    omega

theorem LoopRun.inv {P : Env → Act → Prop} (hP : ∀ env act, P env act → AsksForward env act)
    (hr : Reachable w env₀) (hpc : env₀.pc = .select 0) (hrun : LoopRun w P env₀ m env) :
    LoopInv m env := by
  refine hrun.induct ⟨?_, fun _ => Nat.zero_le _, Nat.zero_le _⟩ ?_
  · rintro n (hn | hn)
    · exact Pc.select.inj (hn.symm.trans hpc)
    · cases hpc.symm.trans hn
  · rintro m env act env' _ hrun ih hs ⟨⟨hsel, hp⟩, rfl⟩
    exact ih.step (hrun.reachable hr) hs hsel (hP _ _ hp)

/-! ### The loop ends -/

/-- Steps keep entry points with the RT tasks. -/
theorem SlotStep.rtHasCode {sl sl' : Slot} (hstep : SlotStep env act t sl sl')
    (hnull : CreatesNoNullRt act) (h : sl.task.rtTask = true → sl.task.entryPoint ≠ none) :
    sl'.task.rtTask = true → sl'.task.entryPoint ≠ none := by
  have hedits : ∀ {task task' : Task}, TaskEdit env act t task task' →
      (task.rtTask = true → task.entryPoint ≠ none) → task'.rtTask = true →
        task'.entryPoint ≠ none := by
    intro task task' hedit h
    cases hedit with
    | restart newParam _ _ =>
      rw [Task.restart]
      split <;> exact h
    | same | retValue _ _ _ | notifySignal _ _ _ | notifyQueue _ _ _ | freeze _ _ | unfreeze _ _
    | sigIgnore _ _ _ | sigAllow _ _ _ => exact h
  cases hstep with
  | edit hedit => exact hedits hedit h
  | @create _ _ entryPoint param rt hact _ _ =>
    rintro (hrt : rt = true)
    subst hrt
    show entryPoint ≠ none
    rintro rfl
    exact hnull param hact
  | delete _ =>
    intro hrt
    cases hrt
  | promote _ _ hedit =>
    have h' := hedits hedit h
    exact h'
  | @visit task _ _ =>
    obtain ⟨_, _, _, _, _, heq⟩ := visitSuspended_same task env.rtcCounter
    rw [heq]
    exact h
  | suspend _ _ _ _ _ | finish _ _ | zombie _ _ | begin _ _ _ | resume _ _ _ _ => exact h

theorem RtHaveCode.step (h : RtHaveCode env) (hs : step w env act = some env')
    (hnull : CreatesNoNullRt act) : RtHaveCode env' :=
  fun slot => (step_slot hs slot).rtHasCode hnull (h slot)

/-- **A whole run** in which no RT task without an entry point is created. -/
theorem run_rtHaveCode {rootTask rootTaskParam : ℕ} {queues : ℕ → Queue}
    (hrun : Relation.ReflTransGen (StepWhere w fun _ act => CreatesNoNullRt act)
      (.start rootTask rootTaskParam queues) env) : RtHaveCode env := by
  induction hrun with
  | refl =>
    intro slot hrt
    rcases eq_or_ne slot 1 with rfl | hone
    · cases hrt
    · have htask : (Env.start rootTask rootTaskParam queues).taskTable slot
          = (schedulerInit queues).taskTable slot := Function.update_of_ne hone ..
      rw [htask, schedulerInit] at hrt
      dsimp only at hrt
      split at hrt <;> cases hrt
  | tail _ hstep ih =>
    obtain ⟨act, hs, hnull⟩ := hstep
    exact ih.step hs hnull

/-- An RT task can return what the loop expects. -/
theorem rtReturn_defined (hpc : env.pc = .inRt n) (ht : t < tasksTblEntriesCnt) :
    ∃ env', step w env (.ret (t : ℕ)) = some env' := by
  rw [step, Env.ret, hpc]
  dsimp only
  rw [Env.rtReturn]
  split
  · exact ⟨_, rfl⟩
  · rw [if_pos]
    · exact ⟨_, rfl⟩
    · omega

/-- The loop itself leaves the status of free slots alone. -/
theorem SlotStep.free_status {sl sl' : Slot} (hstep : SlotStep env act t sl sl')
    (hoff : sl.onCpu = false) (hsel : env.pc.selecting = true) (hasks : AsksForward env act)
    (hcall : ∀ call, act ≠ .api call) (htask : sl.task = env.taskTable t)
    (hfree : sl.task.entryPoint = none) : sl'.task.status = sl.task.status := by
  have hvisit : ¬Visits env act t := by
    rintro ⟨-, hpc, -⟩
    rw [hpc] at hsel
    cases hsel
  cases hstep with
  | edit hedit =>
    cases hedit with
    | same | retValue _ _ _ => rfl
    | notifySignal _ hact _ | notifyQueue hact _ _ | freeze hact _ | unfreeze hact _
    | restart _ hact _ | sigIgnore _ hact _ | sigAllow _ hact _ => exact absurd hact (hcall _)
  | create hact _ _ => exact absurd hact (hcall _)
  | delete hdel =>
    obtain ⟨id, hact, -⟩ := hdel
    exact absurd hact (hcall _)
  | promote hprom hne _ =>
    obtain ⟨n, hpc, hact⟩ := hprom
    have hentry := (hasks n t hpc hact hne).1
    rw [← htask] at hentry
    exact absurd hfree hentry
  | suspend _ _ _ _ _ => cases hoff
  | finish _ _ => cases hoff
  | zombie hv _ | visit hv _ | begin hv _ _ | resume hv _ _ _ => exact absurd hv hvisit

/-- What the loop can do after `m` rounds. -/
structure LoopEnds (w m : ℕ) (env : Env) : Prop where
  rounds : m ≤ 16
  /-- between two rounds, the next one begins -/
  next : ∀ n, env.pc = .select n → ∃ env', step w env .sched = some env'
  /-- an RT task can return -/
  returns : ∀ n t, env.pc = .inRt n → t < tasksTblEntriesCnt →
    ∃ env', step w env (.ret (t : ℕ)) = some env'
  /-- no free slot is made ready -/
  free : ∀ act env' t, env.pc.selecting = true → AsksForward env act → (∀ call, act ≠ .api call) →
    step w env act = some env' → (env.taskTable t).entryPoint = none →
    (env'.taskTable t).status = (env.taskTable t).status

/-- **The selection loop ends**, if RT tasks ask for tasks that are in use, and for RT tasks only
from their own slot on, whatever calls they make: it can go on in every state, it makes at
most 16 rounds, and no free slot is made ready in it. -/
theorem selection_ends (hr : Reachable w env₀) (hpc : env₀.pc = .select 0) (hcode : RtHaveCode env₀)
    (hrun : LoopRun w (fun env act => AsksForward env act ∧ CreatesNoNullRt act) env₀ m env) :
    LoopEnds w m env := by
  have hinv := hrun.inv (fun _ _ hP => hP.1) hr hpc
  have hcode' : RtHaveCode env :=
    hrun.induct (I := fun _ env => RtHaveCode env) hcode fun _ ih hs hP => ih.step hs hP.1.2.2
  refine ⟨hinv.total, fun n hn => selectRound_defined hn hcode', fun n t hn ht =>
    rtReturn_defined hn ht, fun act env' t hsel hasks hcall hs hfree => ?_⟩
  have hoff : (env.slot t).onCpu = false := by
    refine decide_eq_false ?_
    rintro ⟨hrunning, -⟩
    rw [hrunning] at hsel
    cases hsel
  exact (step_slot hs t).free_status hoff hsel hasks hcall rfl hfree

def createsNoNullRt (_ : Env) : Act → Bool
  | .api (.tCreate none _ true) => false
  | _ => true

theorem createsNoNullRt_spec (env : Env) (act : Act) (h : createsNoNullRt env act = true) :
    CreatesNoNullRt act := by
  rintro param rfl
  cases h

/-- The RT task in slot 2 asks for the root task. -/
theorem selection_ends_with_root : ∃ env₀ env : Env, Reachable 64 env₀ ∧ env₀.pc = .select 0 ∧
    LoopRun 64 (fun env act => AsksForward env act ∧ CreatesNoNullRt act) env₀ 1 env ∧
    LoopEnds 64 1 env ∧ env.pc = .tsm ∧ env.currentTask = 1 := by
  have heval : ∃ env₀, runWhere 64 createsNoNullRt boot (toRoot ++
        [Act.api (.tCreate (some 5) 0 true), .block .tSuspend, .sched]) = some env₀ ∧
      env₀.pc = .select 0 ∧
      ∃ env₁, step 64 env₀ .sched = some env₁ ∧ env₁.pc = .inRt 1 ∧
      (env₁.taskTable 1).entryPoint = some 1 ∧ (env₁.taskTable 1).rtTask = false ∧
      ∃ env, step 64 env₁ (.ret (1 : ℕ)) = some env ∧ env.pc = .tsm ∧ env.currentTask = 1 := by
    decide +kernel
  obtain ⟨env₀, hrun, hpc₀, env₁, hs₁, hpc₁, hentry, hrt, env, hs₂, hpc, hcur⟩ := heval
  have hrun' := run_of_runWhere createsNoNullRt_spec hrun
  have hr : Reachable 64 env₀ := reachable_of_run .boot hrun'
  have hasks : AsksForward env₁ (.ret (1 : ℕ)) := by
    rintro n t - hact -
    obtain rfl : 1 = t := by exact_mod_cast Act.ret.inj hact
    refine ⟨by rw [hentry]; exact Option.some_ne_none 1, fun h => ?_⟩
    rw [hrt] at h
    cases h
  have hloop : LoopRun 64 (fun env act => AsksForward env act ∧ CreatesNoNullRt act) env₀ 1 env :=
    (RecordRun.start.next hs₁ ⟨⟨by rw [hpc₀]; rfl, nofun, nofun⟩, rfl⟩).next hs₂
      ⟨⟨by rw [hpc₁]; rfl, hasks, nofun⟩, rfl⟩
  exact ⟨env₀, env, hr, hpc₀, hloop, selection_ends hr hpc₀ (run_rtHaveCode hrun') hloop, hpc, hcur⟩

/-! ### The loop does not end -/

/-- RT tasks return 0 or the number of a slot. -/
def AsksForSlots (env : Env) (act : Act) : Prop :=
  ∀ n value, env.pc = .inRt n → act = .ret value → 0 ≤ value ∧ value < tasksTblEntriesCnt

/-- Between two rounds, the loop is at a slot that is free or RT, and the next task is RT. -/
structure Spinning (v : ℕ) (env : Env) : Prop where
  pc : ∃ n, env.pc = .select n
  current : env.currentTask = v
  slot : v ≠ idleTaskId ∧ v + 1 < tasksTblEntriesCnt
  passed : (env.taskTable v).entryPoint = none ∨ (env.taskTable v).rtTask = true
  rtTask : (env.taskTable (v + 1)).rtTask = true
  entryPoint : (env.taskTable (v + 1)).entryPoint ≠ none

/-- **One more round**: the RT task asks for the slot before it. -/
theorem Spinning.round {v : ℕ} (h : Spinning v env) : ∃ env₁ env₂,
    step w env .sched = some env₁ ∧ env.pc.selecting = true ∧ (∃ n, env₁.pc = .inRt n) ∧
      step w env₁ (.ret (v : ℕ)) = some env₂ ∧ Spinning v env₂ ∧
      (env₂.taskTable v).entryPoint = (env.taskTable v).entryPoint ∧
      (env₂.taskTable v).status = taskReady := by
  obtain ⟨n, hpc⟩ := h.pc
  obtain ⟨hne, hlt⟩ := h.slot
  have hnext : (env.currentTask + 1) % tasksTblEntriesCnt = v + 1 := by
    rw [h.current, Nat.mod_eq_of_lt hlt]
  let env₁ : Env := { env with currentTask := v + 1, pc := .inRt (n + 1) }
  have hcall : step w env .sched = some env₁ := by
    rw [step, Env.sched, hpc]
    simp only [Env.selectRound, hnext, h.rtTask, if_true,
      Option.isSome_iff_ne_none.mpr h.entryPoint, env₁]
  obtain ⟨env₂, hret⟩ : ∃ env₂, step w env₁ (.ret (v : ℕ)) = some env₂ :=
    rtReturn_defined rfl (Nat.lt_of_succ_lt hlt)
  obtain ⟨-, k, hpc', rfl⟩ := Promotes.step_eq ⟨n + 1, rfl, rfl⟩ hne hret
  obtain ⟨value, htask⟩ := asked_taskTable env₁ v
  have hentry : ((env₁.asked v).taskTable v).entryPoint = (env.taskTable v).entryPoint := by
    rw [htask]
  have hrt : ((env₁.asked v).taskTable v).rtTask = (env.taskTable v).rtTask := by
    rw [htask]
  have hskip : ((env₁.asked v).taskTable v).skipped = true := by
    rcases h.passed with hnone | hisRt
    · simp [Task.skipped, hentry, hnone]
    · simp [Task.skipped, hrt, hisRt]
  have hgo : ((env₁.asked v).selectEnd k).pc = .select k := by
    rw [Env.selectEnd, if_pos (.inl hskip)]
  have hcaller : (env₁.asked v).taskTable (v + 1)
      = { env.taskTable (v + 1) with taskRetValue := (v : ℤ) } := by
    simp [Env.asked, env₁]
  refine ⟨env₁, _, hcall, by rw [hpc]; rfl, ⟨n + 1, rfl⟩, hret, ?_, ?_, ?_⟩
  · refine ⟨⟨k, hgo⟩, selectEnd_currentTask _ k, h.slot, ?_, ?_, ?_⟩ <;> rw [selectEnd_taskTable]
    · rw [hentry, hrt]
      exact h.passed
    · rw [hcaller]
      exact h.rtTask
    · rw [hcaller]
      exact h.entryPoint
  · rw [selectEnd_taskTable, hentry]
  · rw [selectEnd_taskTable, htask]

/-- **Round after round.** -/
theorem Spinning.forever {v k : ℕ} (hrun : LoopRun w AsksForSlots env₀ k env) (h : Spinning v env)
    (m : ℕ) : ∃ env', LoopRun w AsksForSlots env₀ (k + m) env' ∧ Spinning v env' ∧
      (env'.taskTable v).entryPoint = (env.taskTable v).entryPoint ∧
      (m ≠ 0 → (env'.taskTable v).status = taskReady) := by
  induction m with
  | zero => exact ⟨env, hrun, h, rfl, fun h => absurd rfl h⟩
  | succ m ih =>
    obtain ⟨env', hrun', h', hentry, -⟩ := ih
    obtain ⟨env₁, env₂, hcall, hsel, ⟨n, hn⟩, hret, h₂, hentry₂, hready⟩ := h'.round (w := w)
    have hasks : AsksForSlots env₁ (.ret (v : ℕ)) := by
      rintro _ value - hact
      cases hact
      have := h.slot.2
      omega
    have hasks' : AsksForSlots env' .sched := by
      rintro _ value - hact
      cases hact
    refine ⟨env₂, ?_, h₂, hentry₂.trans hentry, fun _ => hready⟩
    exact (hrun'.next hcall ⟨⟨hsel, hasks'⟩, rfl⟩).next hret ⟨⟨by rw [hn]; rfl, hasks⟩, rfl⟩

/-- **The loop goes on for ever.**  The root task creates a task in slot 2 and an RT task in slot
3, deletes the first and is suspended.  The RT task asks for the deleted task: the free slot is
made ready, and the loop comes to the RT task again in every round. -/
theorem selection_spins : ∃ env₀ : Env, Reachable 64 env₀ ∧ env₀.pc = .select 0 ∧
    (env₀.taskTable 2).entryPoint = none ∧ (env₀.taskTable 2).status = taskNotRunning ∧
    ∀ m, ∃ env, LoopRun 64 AsksForSlots env₀ (1 + m) env ∧ env.pc.selecting = true ∧
      (env.taskTable 2).entryPoint = none ∧ (m ≠ 0 → (env.taskTable 2).status = taskReady) := by
  have heval : ∃ env₀, runActs 64 boot (toRoot ++ [Act.api (.tCreate (some 5) 0 false),
        .api (.tCreate (some 6) 0 true), .api (.tDelete 2), .block .tSuspend, .sched]) = some env₀ ∧
      env₀.pc = .select 0 ∧ (env₀.taskTable 2).entryPoint = none ∧
      (env₀.taskTable 2).status = taskNotRunning ∧
      ∃ env, step 64 env₀ .sched = some env ∧ env.pc = .select 1 ∧ env.currentTask = 2 ∧
      (env.taskTable 2).entryPoint = none ∧ (env.taskTable 3).rtTask = true ∧
      (env.taskTable 3).entryPoint = some 6 := by decide +kernel
  obtain ⟨env₀, hrun, hpc, hfree, hstatus, env, hs, hpc', hcur, hfree', hrt, hentry⟩ := heval
  have hspin : Spinning 2 env :=
    ⟨⟨1, hpc'⟩, hcur, by decide, .inl hfree', hrt, by rw [hentry]; exact Option.some_ne_none 6⟩
  have hfirst : LoopRun 64 AsksForSlots env₀ 1 env :=
    RecordRun.start.next hs ⟨⟨by rw [hpc]; rfl, nofun⟩, rfl⟩
  refine ⟨env₀, Reachable.runActs .boot hrun, hpc, hfree, hstatus, fun m => ?_⟩
  obtain ⟨env', hrun', hspin', hentry', hready⟩ := hspin.forever hfirst m
  obtain ⟨n, hn⟩ := hspin'.pc
  exact ⟨env', hrun', by rw [hn]; rfl, hentry'.trans hfree', hready⟩

end Kernel
