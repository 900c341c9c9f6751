/-
Runs of the kernel.

A run takes steps whose actions meet a condition (`StepWhere`).  Where a result counts or lists
what happens on the way (rounds, quanta, visits, the slots that are selected), the run carries a
record along (`RecordRun`): a relation says how each step carries it on.

* `Reachable` — the states of all runs from the start of the kernel;
* `RecordRun.induct` — what the steps of a run with a record preserve holds at its end;
* `runRecord` — a list of actions, run with a record; `runWhere` and `runActs` do without one.
-/
import Mipos.Evaluate
import Mipos.KernelModel

namespace Kernel

open Relation

variable {w : ℕ} {env env' env₀ : Env} {act : Act} {acts : List Act} {P Q : Env → Act → Prop}

/-- The states of the runs of the kernel with any tasks, on a counter of `w` bits. -/
def Reachable (w : ℕ) (env : Env) : Prop :=
  ∃ rootTask rootTaskParam queues,
    ReflTransGen (Step w) (.start rootTask rootTaskParam queues) env

/-- The kernel at its start, with a root task and queues of one item. -/
abbrev boot : Env := .start 1 0 fun _ => qInit (fun _ => 0) 1

theorem Reachable.boot : Reachable w boot := ⟨_, _, _, .refl⟩

theorem Reachable.step (hr : Reachable w env) (hs : step w env act = some env') :
    Reachable w env' := by
  obtain ⟨rootTask, rootTaskParam, queues, hrun⟩ := hr
  exact ⟨rootTask, rootTaskParam, queues, hrun.tail ⟨act, hs⟩⟩

/-- The steps of the kernel whose actions meet `P`. -/
def StepWhere (w : ℕ) (P : Env → Act → Prop) (env env' : Env) : Prop :=
  ∃ act, step w env act = some env' ∧ P env act

theorem run_mono (hPQ : ∀ env act, P env act → Q env act)
    (hrun : ReflTransGen (StepWhere w P) env env') :
    ReflTransGen (StepWhere w Q) env env' :=
  ReflTransGen.mono (fun _ _ ⟨act, hs, hP⟩ => ⟨act, hs, hPQ _ act hP⟩) _ _ hrun

theorem reachable_of_run (hr : Reachable w env)
    (hrun : ReflTransGen (StepWhere w P) env env') : Reachable w env' := by
  induction hrun with
  | refl => exact hr
  | tail _ hstep ih =>
    obtain ⟨act, hs, -⟩ := hstep
    exact ih.step hs

/-! ### Runs with a record -/

section Record

variable {α : Type} {R : α → Env → Act → Env → α → Prop} {a a' a₀ : α}

/-- A step that carries the record on as `R` says. -/
def RecordStep (w : ℕ) (R : α → Env → Act → Env → α → Prop) (s s' : α × Env) : Prop :=
  ∃ act, step w s.2 act = some s'.2 ∧ R s.1 s.2 act s'.2 s'.1

/-- A run of such steps. -/
def RecordRun (w : ℕ) (R : α → Env → Act → Env → α → Prop) (a₀ : α) (env₀ : Env) (a : α)
    (env : Env) : Prop :=
  ReflTransGen (RecordStep w R) (a₀, env₀) (a, env)

theorem RecordRun.start : RecordRun w R a env a env := .refl

theorem RecordRun.next (hrun : RecordRun w R a₀ env₀ a env) (hs : step w env act = some env')
    (hR : R a env act env' a') : RecordRun w R a₀ env₀ a' env' :=
  hrun.tail ⟨act, hs, hR⟩

/-- **What the steps preserve** holds at the end of the run. -/
theorem RecordRun.induct {I : α → Env → Prop} (hrun : RecordRun w R a₀ env₀ a env)
    (hstart : I a₀ env₀)
    (hnext : ∀ {a env act env' a'}, RecordRun w R a₀ env₀ a env → I a env →
      step w env act = some env' → R a env act env' a' → I a' env') : I a env := by
  suffices h : ∀ s, ReflTransGen (RecordStep w R) (a₀, env₀) s → I s.1 s.2 from h _ hrun
  intro s hs
  induction hs with
  | refl => exact hstart
  | tail hrun hstep ih =>
    obtain ⟨act, hs, hR⟩ := hstep
    exact hnext hrun ih hs hR

theorem RecordRun.reachable (hr : Reachable w env₀) (hrun : RecordRun w R a₀ env₀ a env) :
    Reachable w env :=
  hrun.induct (I := fun _ env => Reachable w env) hr fun _ ih hs _ => ih.step hs

/-- The run without its record. -/
theorem RecordRun.run (hrun : RecordRun w R a₀ env₀ a env)
    (hP : ∀ {a env act env' a'}, R a env act env' a' → P env act) :
    ReflTransGen (StepWhere w P) env₀ env :=
  hrun.induct (I := fun _ env => ReflTransGen (StepWhere w P) env₀ env) .refl
    fun _ ih hs hR => ih.tail ⟨_, hs, hP hR⟩

/-- A run whose steps leave the record as it is. -/
theorem RecordRun.of_run (hrun : ReflTransGen (StepWhere w P) env env')
    (hR : ∀ {env act env'}, P env act → R a env act env' a) : RecordRun w R a env a env' := by
  induction hrun with
  | refl => exact .start
  | tail _ hstep ih =>
    obtain ⟨act, hs, hP⟩ := hstep
    exact ih.next hs (hR hP)

/-- A run whose steps meet `P`, with the number of those that meet `E`. -/
abbrev EventRun (w : ℕ) (P E : Env → Act → Prop) : Env → ℕ → Env → Prop :=
  RecordRun w (fun k env act _ k' => P env act ∧ (¬E env act ∧ k' = k ∨ E env act ∧ k' = k + 1)) 0

/-! ### Lists of actions -/

/-- A list of actions, run one after the other as long as `next` carries the record on. -/
def runRecord (w : ℕ) (next : α → Env → Act → Env → Option α) (a : α) (env : Env) :
    List Act → Option (α × Env)
  | [] => some (a, env)
  | act :: acts =>
    (step w env act).bind fun env' => (next a env act env').bind fun a' =>
      runRecord w next a' env' acts

theorem RecordRun.runRecord {next : α → Env → Act → Env → Option α}
    (hnext : ∀ {a env act env' a'}, next a env act env' = some a' → R a env act env' a')
    (hrun : RecordRun w R a₀ env₀ a env) (hacts : runRecord w next a env acts = some (a', env')) :
    RecordRun w R a₀ env₀ a' env' := by
  induction acts generalizing a env with
  | nil =>
    cases hacts
    exact hrun
  | cons act acts ih =>
    obtain ⟨env₁, hs, hrest⟩ := Option.bind_eq_some_iff.mp hacts
    obtain ⟨a₁, ha, hrest⟩ := Option.bind_eq_some_iff.mp hrest
    exact ih (hrun.next hs (hnext ha)) hrest

end Record

/-- A list of actions, run as long as they meet a test. -/
def runWhere (w : ℕ) (test : Env → Act → Bool) (env : Env) (acts : List Act) : Option Env :=
  (runRecord w (fun _ env act _ => if test env act then some () else none) () env acts).map Prod.snd

/-- A list of actions, run one after the other. -/
def runActs (w : ℕ) (env : Env) (acts : List Act) : Option Env :=
  runWhere w (fun _ _ => true) env acts

/-- The first steps of the scheduler, up to the root task. -/
abbrev toRoot : List Act := List.replicate 3 Act.sched

theorem run_of_runWhere {test : Env → Act → Bool} (hP : ∀ env act, test env act = true → P env act)
    (hrun : runWhere w test env acts = some env') :
    ReflTransGen (StepWhere w P) env env' := by
  obtain ⟨⟨_, _⟩, hacts, rfl⟩ := Option.map_eq_some_iff.mp hrun
  refine (RecordRun.runRecord (R := fun _ env act _ _ => P env act) ?_ .start hacts).run fun h => h
  intro _ env act _ _ hnext
  split at hnext
  · exact hP env act ‹_›
  · cases hnext

theorem Reachable.runActs (hr : Reachable w env) (hrun : runActs w env acts = some env') :
    Reachable w env' :=
  reachable_of_run hr (run_of_runWhere (P := fun _ _ => True) (fun _ _ _ => trivial) hrun)

end Kernel
