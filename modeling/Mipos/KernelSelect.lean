/-
The selection loop of `mipos_start`.

Each round moves `current_task` to the next slot, calls the task there if it is RT, and
ends the loop if the slot is eligible.  The idle slot is passed over until the rounds
outnumber the slots.  When RT tasks return 0, nothing else moves `current_task`, so the
slots are visited in turn over whole runs.

* `round_robin` — the loop ends after at most 16 rounds, with the first eligible slot
  after `current_task`, or with the idle slot if there is none; and between two
  selections of one slot, every other slot that stays eligible is selected, exactly
  once if the first slot stays eligible as well.
* `selected_twice` — a slot is selected twice while another one is frozen.
-/
import Mipos.KernelControl
import Mipos.KernelContexts

namespace Kernel

variable {w : ℕ} {env env' env₀ : Env} {act : Act} {c m n : ℕ}

/-! ### One selection -/

/-- The loop ends with the slot when it comes to it. -/
def Eligible (env : Env) (slot : ℕ) : Prop :=
  slot ≠ idleTaskId ∧ (env.taskTable slot).skipped = false

theorem eligible_congr {slot : ℕ}
    (h : (env'.taskTable slot).skipped = (env.taskTable slot).skipped) :
    Eligible env' slot ↔ Eligible env slot := by
  rw [Eligible, Eligible, h]

/-- A step of the selection loop.  RT tasks return 0 and leave the eligibility of the
other slots as it is. -/
structure SelectStep (w : ℕ) (env : Env) (act : Act) (env' : Env) : Prop where
  step : step w env act = some env'
  selecting : env.pc.selecting = true
  zero : RtReturnsZero env act
  others : env.pc.inUserCode = true → ∀ slot, slot ≠ env.currentTask →
    (env'.taskTable slot).skipped = (env.taskTable slot).skipped

/-- How many rounds of the loop the action begins. -/
def Act.rounds : Act → ℕ
  | .sched => 1
  | _ => 0

theorem Act.rounds_of_ne (hact : act ≠ .sched) : act.rounds = 0 := by
  cases act with
  | sched => exact absurd rfl hact
  | updateRtc _ | api _ | block _ | ret _ => rfl

/-- The steps of one selection that begins at `env₀`, with the rounds counted. -/
abbrev SelectRun (w : ℕ) : Env → ℕ → Env → Prop :=
  RecordRun w (fun m env act env' m' => SelectStep w env act env' ∧ m' = m + act.rounds) 0

/-- The loop that began at the slot `c` has ended as it should. -/
def Picks (c : ℕ) (env : Env) : Prop :=
  (env.pc = .tsm ∧ Eligible env env.currentTask ∧ ∃ k, 1 ≤ k ∧ k ≤ tasksTblEntriesCnt ∧
      env.currentTask = (c + k) % tasksTblEntriesCnt ∧
      ∀ j, 1 ≤ j → j < k → ¬Eligible env ((c + j) % tasksTblEntriesCnt)) ∨
    ((env.pc = .inIdle ∨ env.pc = .epoch) ∧ env.currentTask = idleTaskId ∧
      ∀ slot < tasksTblEntriesCnt, ¬Eligible env slot)

/-- After `n` rounds that began at `c`, apart from the slot that the loop is at. -/
structure Swept (c n : ℕ) (env : Env) : Prop where
  rounds : 1 ≤ n
  bound : n + c ≤ 16
  current : env.currentTask = (c + n) % tasksTblEntriesCnt
  passed : ∀ j, 1 ≤ j → j ≤ n → (c + j) % tasksTblEntriesCnt ≠ env.currentTask →
    ¬Eligible env ((c + j) % tasksTblEntriesCnt)

/-- The next round. -/
theorem Swept.of_passed (hbound : n + c < 16)
    (hcur : env.currentTask = (c + n) % tasksTblEntriesCnt)
    (hpassed : ∀ j, 1 ≤ j → j ≤ n → ¬Eligible env ((c + j) % tasksTblEntriesCnt))
    (hcur' : env'.currentTask = env.nextTask) (htable : env'.taskTable = env.taskTable) :
    Swept c (n + 1) env' := by
  have hnext : env'.currentTask = (c + (n + 1)) % tasksTblEntriesCnt := by
    rw [hcur', Env.nextTask, hcur, tasksTblEntriesCnt]
    omega
  refine ⟨Nat.succ_pos n, by omega, hnext, ?_⟩
  intro j h1 hj hne
  rw [Eligible, htable]
  refine hpassed j h1 ?_
  rcases Nat.lt_or_eq_of_le hj with hlt | rfl
  · exact Nat.le_of_lt_succ hlt
  · exact absurd hnext.symm hne

/-- What holds in a selection that began at the slot `c`, after `m` rounds. -/
def SelectInv (c m : ℕ) (env : Env) : Prop :=
  (∃ n, env.pc = .select n ∧ n = m ∧ n + c < 16 ∧
      env.currentTask = (c + n) % tasksTblEntriesCnt ∧
      ∀ j, 1 ≤ j → j ≤ n → ¬Eligible env ((c + j) % tasksTblEntriesCnt)) ∨
    (∃ n, env.pc = .inRt n ∧ n = m ∧ Swept c n env) ∨
    (env.pc.selecting = false ∧ m ≤ 16 ∧ Picks c env)

/-- **The end of a round.** -/
theorem selectEnd_inv (hc : c < tasksTblEntriesCnt) (hswept : Swept c n env)
    (hidle : (env.taskTable idleTaskId).skipped = false) : SelectInv c n (env.selectEnd n) := by
  obtain ⟨hn, hbound, hcur, hpassed⟩ := hswept
  rw [Env.selectEnd]
  split
  · rename_i hgo
    have hnot : ¬Eligible env env.currentTask := by
      rintro ⟨hne, hskip⟩
      rcases hgo with h | ⟨-, h⟩
      · rw [hskip] at h
        cases h
      · exact hne h
    refine .inl ⟨n, rfl, rfl, ?_, hcur, ?_⟩
    · -- after 16 rounds the loop would be at the idle slot, and end there
      by_contra hge
      have hzero : env.currentTask = idleTaskId := by
        rw [hcur, idleTaskId, tasksTblEntriesCnt]
        omega
      rcases hgo with h | ⟨h, -⟩
      · rw [hzero, hidle] at h
        cases h
      · rw [tasksTblEntriesCnt] at h hc
        omega
    · intro j h1 hj
      by_cases heq : (c + j) % tasksTblEntriesCnt = env.currentTask
      · rw [heq]
        exact hnot
      · exact hpassed j h1 hj heq
  · rename_i hstop
    rw [not_or] at hstop
    split
    · rename_i hzero
      have hmany : tasksTblEntriesCnt < n := by
        by_contra hle
        exact hstop.2 ⟨Nat.le_of_not_lt hle, hzero⟩
      refine .inr (.inr ⟨?_, by omega, .inr ⟨?_, hzero, ?_⟩⟩)
      · dsimp only
        split <;> rfl
      · dsimp only
        split
        · exact .inl rfl
        · exact .inr rfl
      · -- a whole sweep has passed over the slot
        intro slot hslot helig
        obtain ⟨j, h1, hj, hat⟩ : ∃ j, 1 ≤ j ∧ j ≤ tasksTblEntriesCnt ∧
            (c + j) % tasksTblEntriesCnt = slot := by
          rw [tasksTblEntriesCnt] at hc hslot ⊢
          exact ⟨(slot + 7 - c) % 8 + 1, by omega, by omega, by omega⟩
        refine hpassed j h1 (by omega) ?_ (hat ▸ helig)
        rw [hat, hzero]
        exact helig.1
    · rename_i hne
      have helig : Eligible env env.currentTask := ⟨hne, by simpa using hstop.1⟩
      refine .inr (.inr ⟨rfl, by omega, .inl ⟨rfl, helig, ?_⟩⟩)
      -- in the second sweep, the slot is counted from the first one
      obtain ⟨k, h1, hk, hkn, hat⟩ : ∃ k, 1 ≤ k ∧ k ≤ tasksTblEntriesCnt ∧ k ≤ n ∧
          env.currentTask = (c + k) % tasksTblEntriesCnt := by
        rw [hcur, tasksTblEntriesCnt]
        exact ⟨(n - 1) % 8 + 1, by omega, by omega, by omega, by omega⟩
      refine ⟨k, h1, hk, hat, ?_⟩
      intro j hj hjk
      refine hpassed j hj (by omega) ?_
      rw [hat]
      rw [tasksTblEntriesCnt] at hk ⊢
      omega

theorem SelectInv.of_select (hinv : SelectInv c m env) (hpc : env.pc = .select n) :
    n = m ∧ n + c < 16 ∧ env.currentTask = (c + n) % tasksTblEntriesCnt ∧
      ∀ j, 1 ≤ j → j ≤ n → ¬Eligible env ((c + j) % tasksTblEntriesCnt) := by
  rcases hinv with ⟨n', hpc', h⟩ | ⟨n', hpc', -⟩ | ⟨hno, -⟩
  · rw [hpc] at hpc'
    cases hpc'
    exact h
  · rw [hpc] at hpc'
    cases hpc'
  · rw [hpc] at hno
    cases hno

theorem SelectInv.of_inRt (hinv : SelectInv c m env) (hpc : env.pc = .inRt n) :
    n = m ∧ Swept c n env := by
  rcases hinv with ⟨n', hpc', -⟩ | ⟨n', hpc', h⟩ | ⟨hno, -⟩
  · rw [hpc] at hpc'
    cases hpc'
  · rw [hpc] at hpc'
    cases hpc'
    exact h
  · rw [hpc] at hno
    cases hno

/-- **One step of a selection.** -/
theorem SelectInv.step (hinv : SelectInv c m env) (hc : c < tasksTblEntriesCnt)
    (hidle : (env'.taskTable idleTaskId).skipped = false) (hs : SelectStep w env act env') :
    SelectInv c (m + act.rounds) env' := by
  obtain ⟨hstep, hsel, hzero, hothers⟩ := hs
  cases step_pointer hstep with
  | keep hact hpc hcur htable =>
    rw [Act.rounds_of_ne hact]
    rcases hinv with ⟨n, hn, hm, hbound, hat, hpassed⟩ | ⟨n, hn, hm, hswept⟩ | ⟨hno, -⟩
    · -- between two rounds, nothing but the clock can change
      refine .inl ⟨n, hpc.trans hn, hm, hbound, hcur.trans hat, ?_⟩
      have hsame := htable (by rw [hn]; rfl)
      intro j h1 hj
      rw [Eligible, hsame]
      exact hpassed j h1 hj
    · -- the RT task makes a call
      refine .inr (.inl ⟨n, hpc.trans hn, hm, hswept.rounds, hswept.bound,
        hcur.trans hswept.current, ?_⟩)
      intro j h1 hj hne
      rw [hcur] at hne
      rw [eligible_congr (hothers (by rw [hn]; rfl) _ hne)]
      exact hswept.passed j h1 hj hne
    · rw [hno] at hsel
      cases hsel
  | other hno _ _ _ =>
    rw [hno] at hsel
    cases hsel
  | @call n hact hpc hrt =>
    obtain ⟨rfl, hbound, hat, hpassed⟩ := hinv.of_select hpc
    rw [hact]
    exact .inr (.inl ⟨n + 1, rfl, rfl, .of_passed hbound hat hpassed rfl rfl⟩)
  | @round n hact hpc hrt =>
    obtain ⟨rfl, hbound, hat, hpassed⟩ := hinv.of_select hpc
    rw [hact]
    rw [selectEnd_taskTable] at hidle
    exact selectEnd_inv hc (.of_passed hbound hat hpassed rfl rfl) hidle
  | @rtReturn n hact hpc =>
    obtain ⟨rfl, hswept⟩ := hinv.of_inRt hpc
    rw [Act.rounds_of_ne hact]
    rw [selectEnd_taskTable] at hidle
    refine selectEnd_inv hc ⟨hswept.rounds, hswept.bound, hswept.current, ?_⟩ hidle
    -- the return value is stored
    intro j h1 hj hne
    rw [setTask_currentTask] at hne
    rw [Eligible, setTask_taskTable, Function.update_of_ne hne]
    exact hswept.passed j h1 hj hne
  | promote hprom _ _ hne _ => exact absurd hprom (hzero.not_promotes hne)

/-- **A whole selection.** -/
theorem SelectRun.inv (hr : Reachable w env₀) (hpc : env₀.pc = .select 0)
    (hrun : SelectRun w env₀ m env) : SelectInv env₀.currentTask m env := by
  have hc := hr.control.currentTask
  refine hrun.induct ?_ ?_
  · refine .inl ⟨0, hpc, rfl, ?_, ?_, ?_⟩
    · rw [tasksTblEntriesCnt] at hc
      omega
    · exact (Nat.mod_eq_of_lt hc).symm
    · intro j h1 hj
      omega
  · rintro m env act env' _ hrun ih hs ⟨hsel, rfl⟩
    exact ih.step hc ((hrun.reachable hr).step hs).control.idle.skipped hsel

/-- Between two rounds, the loop goes on: a slot that is marked RT has a task. -/
theorem selectRound_defined (hpc : env.pc = .select n)
    (hcall : ∀ slot, (env.taskTable slot).rtTask = true →
      (env.taskTable slot).entryPoint ≠ none) : ∃ env', step w env .sched = some env' := by
  rw [step, Env.sched, hpc]
  dsimp only
  rw [Env.selectRound]
  dsimp only
  split
  · rename_i hrt
    rw [if_pos (Option.isSome_iff_ne_none.mpr (hcall _ hrt))]
    exact ⟨_, rfl⟩
  · exact ⟨_, rfl⟩

/-! ### The order of the selections -/

/-- The slot that the loop ends with in this step, if it does. -/
def selectedIn (env env' : Env) : List ℕ :=
  if env.pc.selecting = true ∧ env'.pc = .tsm then [env'.currentTask] else []

/-- A run whose steps meet `P`, with the slots that are selected in it. -/
abbrev TracedRun (w : ℕ) (P : Env → Act → Prop) : Env → List ℕ → Env → Prop :=
  RecordRun w (fun sel env act env' sel' => P env act ∧ sel' = sel ++ selectedIn env env') []

theorem selectedIn_of_pc_ne (h : env'.pc ≠ .tsm) : selectedIn env env' = [] :=
  if_neg fun hsel => h hsel.2

/-- No other slot than `current_task` is selected. -/
theorem count_selectedIn_of_ne {b : ℕ} (h : b ≠ env'.currentTask) :
    (selectedIn env env').count b = 0 := by
  rw [selectedIn]
  split
  · exact List.count_eq_zero_of_not_mem (by simpa using h)
  · rfl

theorem selectEnd_of_eligible (h : Eligible env env.currentTask) :
    (env.selectEnd n).pc = .tsm := by
  rw [Env.selectEnd, if_neg, if_neg h.1]
  rintro (hskip | ⟨-, hidle⟩)
  · rw [h.2] at hskip
    cases hskip
  · exact h.1 hidle

/-- How often `current_task` has come to the slot `b` after `m` rounds from `a`. -/
def visits (a b m : ℕ) : ℕ :=
  (m + (a + tasksTblEntriesCnt - b) % tasksTblEntriesCnt) / tasksTblEntriesCnt

theorem visits_succ {a b : ℕ} (ha : a < tasksTblEntriesCnt) (hb : b < tasksTblEntriesCnt) (m : ℕ) :
    visits a b (m + 1)
      = visits a b m + if b = (a + (m + 1)) % tasksTblEntriesCnt then 1 else 0 := by
  rw [visits, visits]
  rw [tasksTblEntriesCnt] at ha hb ⊢
  split
  · omega
  · omega

/-- In whole turns it comes to every slot equally often. -/
theorem visits_turns (a b k : ℕ) : visits a b (tasksTblEntriesCnt * k) = k := by
  rw [visits, tasksTblEntriesCnt]
  omega

/-- After `m` rounds from the slot `a`, the slots `B`, which have been eligible all the
time, have been selected each time that `current_task` came to them. -/
structure InTurn (a : ℕ) (B : ℕ → Prop) (m : ℕ) (sel : List ℕ) (env : Env) : Prop where
  current : env.currentTask = (a + m) % tasksTblEntriesCnt
  rounds : sel ≠ [] → 1 ≤ m
  called : ∀ n, env.pc = .inRt n → 1 ≤ m
  selected : ∀ b, B b → sel.count b = visits a b m
  not_rt : ∀ b, B b → ∀ n, env.pc = .inRt n → b ≠ env.currentTask

/-- **One step of a run.** -/
theorem InTurn.step {a : ℕ} {B : ℕ → Prop} {sel : List ℕ} (hturn : InTurn a B m sel env)
    (ha : a < tasksTblEntriesCnt) (hB : ∀ b, B b → b < tasksTblEntriesCnt ∧ Eligible env b)
    (hs : step w env act = some env') (hrt : RtReturnsZero env act) :
    ∃ m', InTurn a B m' (sel ++ selectedIn env env') env' := by
  have hnext : env.nextTask = (a + (m + 1)) % tasksTblEntriesCnt := by
    rw [Env.nextTask, hturn.current, tasksTblEntriesCnt]
    omega
  cases step_pointer hs with
  | keep hact hpc hcur htable =>
    have hnone : selectedIn env env' = [] := by
      refine if_neg ?_
      rintro ⟨hsel, htsm⟩
      rw [← hpc, htsm] at hsel
      cases hsel
    rw [hnone, List.append_nil]
    refine ⟨m, hcur.trans hturn.current, hturn.rounds, ?_, hturn.selected, ?_⟩
    · intro n hn
      exact hturn.called n (hpc ▸ hn)
    · intro b hb n hn
      rw [hcur]
      exact hturn.not_rt b hb n (hpc ▸ hn)
  | other hno hpc' htsm hcur =>
    rw [selectedIn_of_pc_ne htsm, List.append_nil]
    exact ⟨m, hcur.trans hturn.current, hturn.rounds, fun n hn => absurd hn (hpc' n),
      hturn.selected, fun b _ n hn => absurd hn (hpc' n)⟩
  | @call n hact hpc hisRt =>
    -- an eligible slot is not RT
    have hne : ∀ b, B b → b ≠ env.nextTask := by
      rintro b hb rfl
      have hskip := (hB _ hb).2.2
      simp [Task.skipped, hisRt] at hskip
    rw [selectedIn_of_pc_ne (by simp), List.append_nil]
    refine ⟨m + 1, hnext, fun _ => Nat.succ_pos m, fun _ _ => Nat.succ_pos m, ?_,
      fun b hb n _ => hne b hb⟩
    intro b hb
    rw [visits_succ ha (hB b hb).1, if_neg (hnext ▸ hne b hb)]
    exact hturn.selected b hb
  | @round n hact hpc hisRt =>
    refine ⟨m + 1, ?_, fun _ => Nat.succ_pos m, fun _ _ => Nat.succ_pos m, ?_, fun b _ k hk =>
      absurd hk (selectEnd_ne_inRt _ _ k)⟩
    · rw [selectEnd_currentTask]
      exact hnext
    · intro b hb
      obtain ⟨hlt, helig⟩ := hB b hb
      rw [List.count_append, hturn.selected b hb, visits_succ ha hlt, ← hnext]
      congr 1
      split
      · rename_i hat
        subst hat
        have htsm : (({ env with currentTask := env.nextTask } : Env).selectEnd (n + 1)).pc = .tsm :=
          selectEnd_of_eligible helig
        rw [selectedIn, if_pos ⟨by rw [hpc]; rfl, htsm⟩, selectEnd_currentTask]
        exact List.count_singleton_self
      · rename_i hat
        refine count_selectedIn_of_ne ?_
        rwa [selectEnd_currentTask]
  | @rtReturn n hact hpc =>
    refine ⟨m, ?_, fun _ => hturn.called n hpc, fun _ _ => hturn.called n hpc, ?_, fun b _ k hk =>
      absurd hk (selectEnd_ne_inRt _ _ k)⟩
    · rw [selectEnd_currentTask]
      exact hturn.current
    · intro b hb
      rw [List.count_append, count_selectedIn_of_ne, Nat.add_zero]
      · exact hturn.selected b hb
      · rw [selectEnd_currentTask]
        exact hturn.not_rt b hb n hpc
  | promote hprom _ _ hne _ => exact absurd hprom (hrt.not_promotes hne)

/-- **A whole run** from a selection of the slot `a`. -/
theorem TracedRun.inTurn {a : ℕ} {B : ℕ → Prop} {P : Env → Act → Prop} {sel : List ℕ}
    (ha : a < tasksTblEntriesCnt) (hB : ∀ b, B b → b < tasksTblEntriesCnt)
    (hpc : env₀.pc = .tsm) (hcur : env₀.currentTask = a)
    (hP : ∀ env act, P env act → RtReturnsZero env act ∧ ∀ b, B b → Eligible env b)
    (hrun : TracedRun w P env₀ sel env) : ∃ m, InTurn a B m sel env := by
  refine hrun.induct (I := fun sel env => ∃ m, InTurn a B m sel env) ?_ ?_
  · refine ⟨0, ?_, fun h => absurd rfl h, ?_, ?_, ?_⟩
    · rw [hcur]
      exact (Nat.mod_eq_of_lt ha).symm
    · intro n hn
      rw [hpc] at hn
      cases hn
    · intro b hb
      have hlt := hB b hb
      rw [visits]
      rw [tasksTblEntriesCnt] at ha hlt ⊢
      rw [List.count_nil]
      omega
    · intro b hb n hn
      rw [hpc] at hn
      cases hn
  · rintro sel env act env' _ _ ⟨m, hturn⟩ hs ⟨hp, rfl⟩
    obtain ⟨hrt, helig⟩ := hP _ _ hp
    exact hturn.step ha (fun b hb => ⟨hB b hb, helig b hb⟩) hs hrt

/-- The slot selected in `env₀` is selected for the next time after the slots `mid`. -/
def SelectedAgain (w : ℕ) (P : Env → Act → Prop) (env₀ : Env) (mid : List ℕ) : Prop :=
  env₀.currentTask ∉ mid ∧ ∃ env act env', TracedRun w P env₀ mid env ∧ P env act ∧
    step w env act = some env' ∧ selectedIn env env' = [env₀.currentTask]

/-- Between two selections of a slot `current_task` makes some whole turns. -/
theorem SelectedAgain.inTurn {B : ℕ → Prop} {P : Env → Act → Prop} {mid : List ℕ}
    (hagain : SelectedAgain w P env₀ mid) (hr : Reachable w env₀) (hpc : env₀.pc = .tsm)
    (hB : ∀ b, B b → b < tasksTblEntriesCnt)
    (hP : ∀ env act, P env act → RtReturnsZero env act ∧ ∀ b, B b → Eligible env b) :
    ∃ k, 1 ≤ k ∧ ∀ b, B b → (mid ++ [env₀.currentTask]).count b = k := by
  obtain ⟨-, env, act, env', hrun, hp, hs, hsel⟩ := hagain
  have ha := hr.control.currentTask
  obtain ⟨m, hturn⟩ := TracedRun.inTurn ha hB hpc rfl hP (hrun.next hs ⟨hp, rfl⟩)
  rw [hsel] at hturn
  have hcur : env'.currentTask = env₀.currentTask := by
    rw [selectedIn] at hsel
    split at hsel
    · exact List.singleton_inj.mp hsel
    · cases hsel
  -- the pointer is back at the slot, so it has gone round
  have hround := hturn.current
  have hpos := hturn.rounds (by simp)
  rw [hcur] at hround
  obtain ⟨k, rfl⟩ : ∃ k, m = tasksTblEntriesCnt * k := by
    rw [tasksTblEntriesCnt] at ha hround ⊢
    exact ⟨m / 8, by omega⟩
  refine ⟨k, Nat.pos_of_mul_pos_left hpos, fun b hb => ?_⟩
  rw [hturn.selected b hb, visits_turns]

/-- **The scheduler is round-robin.**  A selection ends after at most 16 rounds, with the
first eligible slot after `current_task`, or with the idle slot if none is eligible.
Between two selections of a slot every other slot that stays eligible is selected, and
exactly once if the first slot stays eligible as well. -/
theorem round_robin (hr : Reachable w env₀) :
    (env₀.pc = .select 0 → ∀ m env, SelectRun w env₀ m env → m ≤ 16 ∧
      (∀ n, env.pc = .select n → (∀ slot, (env.taskTable slot).rtTask = true →
        (env.taskTable slot).entryPoint ≠ none) → ∃ env', step w env .sched = some env') ∧
      (env.pc.selecting = false → Picks env₀.currentTask env)) ∧
    (env₀.pc = .tsm → ∀ b mid, b < tasksTblEntriesCnt → b ≠ env₀.currentTask →
      (SelectedAgain w (fun env act => RtReturnsZero env act ∧ Eligible env b) env₀ mid →
        b ∈ mid) ∧
      (SelectedAgain w (fun env act => RtReturnsZero env act ∧ Eligible env b ∧
        Eligible env env₀.currentTask) env₀ mid → mid.count b = 1)) := by
  constructor
  · intro hpc m env hrun
    have hinv := hrun.inv hr hpc
    refine ⟨?_, fun n hn hcall => selectRound_defined hn hcall, ?_⟩
    · rcases hinv with ⟨n, -, rfl, hbound, -⟩ | ⟨n, -, rfl, hswept⟩ | ⟨-, hle, -⟩
      · omega
      · have := hswept.bound
        omega
      · exact hle
    · intro hno
      rcases hinv with ⟨n, hn, -⟩ | ⟨n, hn, -⟩ | ⟨-, -, hpicks⟩
      · rw [hn] at hno
        cases hno
      · rw [hn] at hno
        cases hno
      · exact hpicks
  · intro hpc b mid hb hne
    have ha := hr.control.currentTask
    have hlast : (mid ++ [env₀.currentTask]).count b = mid.count b := by
      rw [List.count_append, List.count_singleton, if_neg (by simpa using hne.symm), Nat.add_zero]
    constructor
    · intro hagain
      obtain ⟨k, hk, hcount⟩ := hagain.inTurn (B := (· = b)) hr hpc (by rintro _ rfl; exact hb)
        (by rintro env act ⟨hrt, helig⟩; exact ⟨hrt, by rintro _ rfl; exact helig⟩)
      rw [← List.count_pos_iff, ← hlast, hcount b rfl]
      exact hk
    · intro hagain
      obtain ⟨k, hk, hcount⟩ := hagain.inTurn (B := fun s => s = b ∨ s = env₀.currentTask) hr hpc
        (by rintro _ (rfl | rfl); exacts [hb, ha])
        (by
          rintro env act ⟨hrt, hb, ha⟩
          exact ⟨hrt, by rintro _ (rfl | rfl); exacts [hb, ha]⟩)
      -- the slot itself is selected once, at the end
      have hone := hcount _ (.inr rfl)
      rw [List.count_append, List.count_eq_zero_of_not_mem hagain.1, List.count_singleton_self]
        at hone
      rw [← hlast, hcount b (.inl rfl), ← hone]

/-- A list of actions, run as long as the states meet a test, with the slots that are selected. -/
def runTraced (w : ℕ) (test : Env → Bool) : Env → List Act → Option (List ℕ × Env) :=
  runRecord w (fun sel env _ env' => if test env then some (sel ++ selectedIn env env') else none) []

theorem tracedRun_of_runTraced {test : Env → Bool} {P : Env → Act → Prop} {acts : List Act}
    {sel : List ℕ} (hP : ∀ env act, test env = true → P env act)
    (hacts : runTraced w test env acts = some (sel, env')) : TracedRun w P env sel env' := by
  refine RecordRun.runRecord ?_ .start hacts
  intro sel env act env' sel' hnext
  split at hnext
  · cases hnext
    exact ⟨hP env act ‹_›, rfl⟩
  · cases hnext

/-- No RT task is running, and the slots are eligible. -/
def allEligible (slots : List ℕ) (env : Env) : Bool :=
  (match env.pc with
    | .inRt _ => false
    | _ => true) &&
    slots.all fun slot => slot != idleTaskId && !(env.taskTable slot).skipped

theorem allEligible_spec {slots : List ℕ} (h : allEligible slots env = true) :
    (∀ n, env.pc ≠ .inRt n) ∧ ∀ slot ∈ slots, Eligible env slot := by
  rw [allEligible, Bool.and_eq_true] at h
  constructor
  · intro n hn
    rw [hn] at h
    cases h.1
  · intro slot hslot
    have := List.all_eq_true.mp h.2 slot hslot
    simpa [Eligible] using this

/-- At the start the root task is selected; later, a task in slot 2 is selected twice with
one selection of the root task in between. -/
theorem round_robin_two_tasks :
    ∃ env₁ env₂ env₃ : Env, ∃ mid : List ℕ, Reachable 64 env₁ ∧ env₁.pc = .select 0 ∧
      SelectRun 64 env₁ 1 env₂ ∧ env₂.pc = .tsm ∧ Picks env₁.currentTask env₂ ∧
      Reachable 64 env₃ ∧ env₃.pc = .tsm ∧ env₃.currentTask = 2 ∧
      SelectedAgain 64 (fun env act => RtReturnsZero env act ∧ Eligible env 1 ∧
        Eligible env env₃.currentTask) env₃ mid ∧ mid.count 1 = 1 := by
  have heval : ∃ env₁, runActs 64 boot [.sched] = some env₁ ∧ env₁.pc = .select 0 ∧
      ∃ env₂, step 64 env₁ .sched = some env₂ ∧ env₂.pc = .tsm ∧
      ∃ env₃, runActs 64 env₂ [.sched, .api (.tCreate (some 5) 9 false), .block (.tmWkafter 0),
        .sched, .sched] = some env₃ ∧ env₃.pc = .tsm ∧ env₃.currentTask = 2 ∧
      ∃ r, runTraced 64 (allEligible [1, 2]) env₃ ([Act.sched, .block .tSuspend] ++
        List.replicate 10 Act.sched) = some r ∧ r.1 = [1] ∧ allEligible [1, 2] r.2 = true ∧
      ∃ env₄, step 64 r.2 .sched = some env₄ ∧ selectedIn r.2 env₄ = [2] := by decide +kernel
  obtain ⟨env₁, hrun₁, hpc₁, env₂, hs₁, hpc₂, env₃, hrun₂, hpc₃, hcur, ⟨mid, env⟩, hrun₃, hmid,
      htest, env₄, hs₄, hsel⟩ := heval
  have hr₁ : Reachable 64 env₁ := Reachable.runActs .boot hrun₁
  have hr₃ : Reachable 64 env₃ := (hr₁.step hs₁).runActs hrun₂
  have hspec : ∀ env act, allEligible [1, 2] env = true → RtReturnsZero env act ∧
      Eligible env 1 ∧ Eligible env env₃.currentTask := by
    intro env act h
    obtain ⟨hno, helig⟩ := allEligible_spec h
    rw [hcur]
    exact ⟨fun n _ hn => absurd hn (hno n), helig 1 (by simp), helig 2 (by simp)⟩
  -- the first selection takes one round
  have hselect : SelectRun 64 env₁ 1 env₂ := by
    have hstep : SelectStep 64 env₁ .sched env₂ := by
      refine ⟨hs₁, by rw [hpc₁]; rfl, ?_, ?_⟩
      · intro n value hn
        rw [hpc₁] at hn
        cases hn
      · intro huser
        rw [hpc₁] at huser
        cases huser
    exact RecordRun.start.next hs₁ ⟨hstep, rfl⟩
  have hagain : SelectedAgain 64 (fun env act => RtReturnsZero env act ∧ Eligible env 1 ∧
      Eligible env env₃.currentTask) env₃ mid := by
    have hmid' : mid = [1] := hmid
    exact ⟨by simp [hmid', hcur], env, .sched, env₄, tracedRun_of_runTraced hspec hrun₃,
      hspec _ _ htest, hs₄, hcur ▸ hsel⟩
  exact ⟨env₁, env₂, env₃, mid, hr₁, hpc₁, hselect, hpc₂,
    ((round_robin hr₁).1 hpc₁ 1 env₂ hselect).2.2 (by rw [hpc₂]; rfl), hr₃, hpc₃, hcur, hagain,
    ((round_robin hr₃).2 hpc₃ 1 mid (by decide) (by rw [hcur]; decide)).2 hagain⟩

/-- The root task freezes the task in slot 2 and unfreezes it later: it is selected more
than once between two selections of slot 2, though it has been eligible all the time. -/
theorem selected_twice :
    ∃ env₀ : Env, ∃ mid : List ℕ, Reachable 64 env₀ ∧ env₀.pc = .tsm ∧ env₀.currentTask = 2 ∧
      SelectedAgain 64 (fun env _ => (∀ n, env.pc ≠ .inRt n) ∧ Eligible env 1) env₀ mid ∧
      mid.count 1 = 3 := by
  have heval : ∃ env₀, runActs 64 boot (toRoot ++ [Act.api (.tCreate (some 5) 9 false),
        .block (.tmWkafter 0), .sched, .sched, .sched, .block .tSuspend] ++
        List.replicate 11 Act.sched) = some env₀ ∧ env₀.pc = .tsm ∧ env₀.currentTask = 2 ∧
      ∃ r, runTraced 64 (allEligible [1]) env₀ (List.replicate 10 Act.sched ++
        [Act.api (.tFreeze 2), .block (.tmWkafter 0)] ++ List.replicate 20 Act.sched ++
        [Act.api (.tUnfreeze 2), .block (.tmWkafter 0), .sched]) = some r ∧ r.1 = [1, 1, 1] ∧
      allEligible [1] r.2 = true ∧
      ∃ env₁, step 64 r.2 .sched = some env₁ ∧ selectedIn r.2 env₁ = [2] := by decide +kernel
  obtain ⟨env₀, hrun, hpc, hcur, ⟨mid, env⟩, hrun', hmid, htest, env₁, hs, hsel⟩ := heval
  have hmid' : mid = [1, 1, 1] := hmid
  have hspec : ∀ env (_ : Act), allEligible [1] env = true →
      (∀ n, env.pc ≠ .inRt n) ∧ Eligible env 1 := by
    intro env _ h
    exact ⟨(allEligible_spec h).1, (allEligible_spec h).2 1 (by simp)⟩
  refine ⟨env₀, mid, Reachable.runActs .boot hrun, hpc, hcur, ?_, by rw [hmid']; rfl⟩
  exact ⟨by simp [hmid', hcur], env, .sched, env₁, tracedRun_of_runTraced hspec hrun',
    hspec _ .sched htest, hs, hcur ▸ hsel⟩

end Kernel
