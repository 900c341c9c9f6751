/-
Cooperative tasks over a shared state.

A program (`Prog`) is a tree of atomic actions with the points at which its task
may be switched: it waits for a condition (`await`) or lets the others run
(`yield`).  A pool of tasks (`Pool`) runs one of them at a time and changes to
another one only at such a point.

The logic is rely-guarantee reasoning for such programs.  `Safe D R G Q p s` says
that each action of `p`, from `s` on, is in `G`, and that it ends in `Q`, if what the
other tasks do at the switching points is in `R`; for `D` true it says that no action
is undefined, too.
* `Safe.bind`, `Safe.mono` — the rules of composition and consequence;
* `Safe.of_all` — the rule for programs all of whose actions are of one kind;
* `RelyGuarantee.run_ok` — in a pool whose programs are safe and whose guarantees
  are in the relies of the others, every step of every run is in the guarantee of
  its task;
* `Safe.of_alone` — the same programs run without any other task.
-/
import Mathlib.Logic.Function.Basic
import Mathlib.Logic.Relation
import Mipos.Evaluate

namespace Coroutine

open Function Relation

/-! ### Programs -/

/-- A program over the shared state `σ` with results in `α`.  An action is atomic,
and undefined where it gives `none`. -/
inductive Prog (σ α : Type) : Type 1
  | ret (a : α)
  | act {β : Type} (f : σ → Option (σ × β)) (next : β → Prog σ α)
  | await (ready : σ → Bool) (next : Prog σ α)
  | yield (next : Prog σ α)

variable {σ α β : Type}

def Prog.bind : Prog σ α → (α → Prog σ β) → Prog σ β
  | .ret a, k => k a
  | .act f next, k => .act f fun b => (next b).bind k
  | .await ready next, k => .await ready (next.bind k)
  | .yield next, k => .yield (next.bind k)

instance : Monad (Prog σ) where
  pure := Prog.ret
  bind := Prog.bind

/-- A single action. -/
def Prog.atomic (f : σ → Option (σ × α)) : Prog σ α := .act f .ret

/-- The program is at a point where its task may be switched. -/
def Prog.Parked : Prog σ α → Prop
  | .act _ _ => False
  | _ => True

/-- The task gives way in the state `s`: it is done, it yields, or it waits for
what does not hold. -/
def Prog.yieldsAt (s : σ) : Prog σ α → Bool
  | .ret _ => true
  | .act _ _ => false
  | .await ready _ => !ready s
  | .yield _ => true

theorem Prog.parked_of_yieldsAt {s : σ} {p : Prog σ α} (h : p.yieldsAt s = true) : p.Parked := by
  cases p with
  | act f next => exact absurd h Bool.false_ne_true
  | ret a => trivial
  | await ready next => trivial
  | yield next => trivial

/-! ### A program that runs alone -/

/-- The program without any other task: nothing happens while it yields, and it
waits for ever if it has to wait. -/
def Prog.alone : Prog σ α → σ → Option (σ × α)
  | .ret a, s => some (s, a)
  | .act f next, s => (f s).bind fun r => (next r.2).alone r.1
  | .await ready next, s => if ready s then next.alone s else none
  | .yield next, s => next.alone s

@[simp] theorem alone_pure (a : α) (s : σ) : (pure a : Prog σ α).alone s = some (s, a) := rfl

theorem alone_bind (p : Prog σ α) (k : α → Prog σ β) (s : σ) :
    (p >>= k).alone s = (p.alone s).bind fun r => (k r.2).alone r.1 := by
  show (p.bind k).alone s = _
  induction p generalizing s with
  | ret a => rfl
  | act f next ih =>
    rw [Prog.bind, Prog.alone, Prog.alone, Option.bind_assoc]
    congr 1
    funext r
    exact ih r.2 r.1
  | await ready next ih =>
    rw [Prog.bind, Prog.alone, Prog.alone]
    by_cases hready : ready s = true
    · rw [if_pos hready, if_pos hready, ih]
    · rw [if_neg hready, if_neg hready, Option.bind_none]
  | yield next ih => exact ih s

/-! ### Safe programs -/

/-- Every action of `p` from `s` on is in `G`, and the result satisfies `Q`, whatever
the other tasks do within `R` while `p` is parked; if `D`, the actions are defined. -/
def Safe (D : Prop) (R G : σ → σ → Prop) (Q : α → σ → Prop) : Prog σ α → σ → Prop
  | .ret a, s => Q a s
  | .act f next, s => (D → ∃ r, f s = some r) ∧
    ∀ s' b, f s = some (s', b) → G s s' ∧ Safe D R G Q (next b) s'
  | .await ready next, s => ∀ z, R s z → ready z = true → Safe D R G Q next z
  | .yield next, s => ∀ z, R s z → Safe D R G Q next z

section Rules

variable {D : Prop} {R G : σ → σ → Prop} {Q : α → σ → Prop} {p : Prog σ α} {s z : σ}

theorem Safe.pure {a : α} (h : Q a s) : Safe D R G Q (pure a : Prog σ α) s := h

theorem Safe.atomic {f : σ → Option (σ × α)} {a : α} (hf : f s = some (z, a)) (hG : G s z)
    (hQ : Q a z) : Safe D R G Q (Prog.atomic f) s := by
  refine ⟨fun _ => ⟨_, hf⟩, fun s' b hrun => ?_⟩
  rw [hf, Option.some.injEq, Prod.mk.injEq] at hrun
  obtain ⟨rfl, rfl⟩ := hrun
  exact ⟨hG, hQ⟩

/-- **Composition**: the second program starts where the first one ends. -/
theorem Safe.bind {Q' : β → σ → Prop} {k : α → Prog σ β}
    (h : Safe D R G (fun a z => Safe D R G Q' (k a) z) p s) : Safe D R G Q' (p >>= k) s := by
  show Safe D R G Q' (p.bind k) s
  induction p generalizing s with
  | ret a => exact h
  | act f next ih => exact ⟨h.1, fun s' b hf => ⟨(h.2 s' b hf).1, ih b (h.2 s' b hf).2⟩⟩
  | await ready next ih => exact fun z hR hready => ih (h z hR hready)
  | yield next ih => exact fun z hR => ih (h z hR)

/-- **Consequence** for the result. -/
theorem Safe.mono {Q' : α → σ → Prop} (h : Safe D R G Q p s) (hQ : ∀ a z, Q a z → Q' a z) :
    Safe D R G Q' p s := by
  induction p generalizing s with
  | ret a => exact hQ a s h
  | act f next ih => exact ⟨h.1, fun s' b hf => ⟨(h.2 s' b hf).1, ih b (h.2 s' b hf).2⟩⟩
  | await ready next ih => exact fun z hR hready => ih (h z hR hready)
  | yield next ih => exact fun z hR => ih (h z hR)

theorem Safe.andThen {Q' : β → σ → Prop} {k : α → Prog σ β} (h : Safe D R G Q p s)
    (hk : ∀ a z, Q a z → Safe D R G Q' (k a) z) : Safe D R G Q' (p >>= k) s := .bind (h.mono hk)

/-- A parked program stays safe under what the others do. -/
theorem Safe.parked (h : Safe D R G Q p s) (hp : p.Parked) (hR : R s z)
    (htrans : ∀ {x y z}, R x y → R y z → R x z) (hQ : ∀ {a x y}, Q a x → R x y → Q a y) :
    Safe D R G Q p z := by
  cases p with
  | ret a => exact hQ h hR
  | act f next => exact hp.elim
  | await ready next => exact fun y hy => h y (htrans hR hy)
  | yield next => exact fun y hy => h y (htrans hR hy)

/-- **Running alone**: a safe program whose rely allows doing nothing reaches its
result by actions of its guarantee. -/
theorem Safe.of_alone (h : Safe D R G Q p s) (hrefl : ∀ x, R x x) {a : α}
    (hrun : p.alone s = some (z, a)) : Q a z ∧ ReflTransGen G s z := by
  induction p generalizing s with
  | ret b =>
    cases hrun
    exact ⟨h, .refl⟩
  | act f next ih =>
    obtain ⟨⟨s', b⟩, hf, hrest⟩ := Option.bind_eq_some_iff.mp hrun
    obtain ⟨hG, hnext⟩ := h.2 s' b hf
    obtain ⟨hQ, hsteps⟩ := ih b hnext hrest
    exact ⟨hQ, .head hG hsteps⟩
  | await ready next ih =>
    rw [Prog.alone] at hrun
    by_cases hready : ready s = true
    · rw [if_pos hready] at hrun
      exact ih (h s (hrefl s) hready) hrun
    · rw [if_neg hready] at hrun
      cases hrun
  | yield next ih => exact ih (h s (hrefl s)) hrun

end Rules

/-! ### Programs with actions of one kind -/

/-- All actions of the program are in `A`. -/
def Prog.All (A : σ → σ → Prop) : Prog σ α → Prop
  | .ret _ => True
  | .act f next => (∀ s s' b, f s = some (s', b) → A s s') ∧ ∀ b, (next b).All A
  | .await _ next => next.All A
  | .yield next => next.All A

section All

variable {A R G : σ → σ → Prop} {p : Prog σ α}

theorem all_pure (a : α) : (pure a : Prog σ α).All A := trivial

theorem all_atomic {f : σ → Option (σ × α)} (hf : ∀ s s' a, f s = some (s', a) → A s s') :
    (Prog.atomic f).All A := ⟨hf, fun _ => trivial⟩

theorem Prog.All.bind {k : α → Prog σ β} (hp : p.All A) (hk : ∀ a, (k a).All A) :
    (p >>= k).All A := by
  show (p.bind k).All A
  induction p with
  | ret a => exact hk a
  | act f next ih => exact ⟨hp.1, fun b => ih b (hp.2 b)⟩
  | await ready next ih => exact ih hp
  | yield next ih => exact ih hp

/-- Such a program keeps what its actions and the other tasks keep. -/
theorem Safe.of_all {J : σ → Prop} (hp : p.All A) (hR : ∀ {x y}, J x → R x y → J y)
    (hA : ∀ {x y}, J x → A x y → J y ∧ G x y) {s : σ} (hs : J s) :
    Safe False R G (fun _ z => J z) p s := by
  induction p generalizing s with
  | ret a => exact hs
  | act f next ih =>
    refine ⟨False.elim, fun s' b hf => ?_⟩
    obtain ⟨hJ, hG⟩ := hA hs (hp.1 s s' b hf)
    exact ⟨hG, ih b (hp.2 b) hJ⟩
  | await ready next ih => exact fun z hz _ => ih hp (hR hs hz)
  | yield next ih => exact fun z hz => ih hp (hR hs hz)

end All

/-! ### Pools -/

/-- The tasks `ι` with the calls `κ` they are in: a task outside a call has a
program that is done. -/
structure Pool (ι κ σ α : Type) where
  shared : σ
  running : ι
  call : ι → Option κ
  prog : ι → Prog σ α

/-- What can happen: the running task starts a call, takes its next step, or gives
way to another one. -/
inductive Action (ι κ : Type)
  | start (c : κ)
  | run
  | switch (j : ι)

variable {ι κ : Type} [DecidableEq ι]

/-- All tasks outside calls. -/
def Pool.idle (s : σ) (i : ι) (a : α) : Pool ι κ σ α := ⟨s, i, fun _ => none, fun _ => .ret a⟩

/-- The running task goes on with `p`. -/
def Pool.goOn (pool : Pool ι κ σ α) (s : σ) (p : Prog σ α) : Pool ι κ σ α :=
  { pool with shared := s, prog := update pool.prog pool.running p }

def Pool.step (code : ι → κ → Prog σ α) (pool : Pool ι κ σ α) :
    Action ι κ → Option (Pool ι κ σ α)
  | .start c => match pool.prog pool.running with
    | .ret _ => some { pool.goOn pool.shared (code pool.running c) with
        call := update pool.call pool.running (some c) }
    | _ => none
  | .run => match pool.prog pool.running with
    | .ret _ => none
    | .act f next => (f pool.shared).map fun r => pool.goOn r.1 (next r.2)
    | .await ready next => if ready pool.shared then some (pool.goOn pool.shared next) else none
    | .yield next => some (pool.goOn pool.shared next)
  | .switch j =>
    if (pool.prog pool.running).yieldsAt pool.shared then some { pool with running := j } else none

/-- A step in which a call starts only where it may. -/
def PoolStep (code : ι → κ → Prog σ α) (may : σ → ι → κ → Prop) (pool pool' : Pool ι κ σ α) : Prop :=
  ∃ act, pool.step code act = some pool' ∧
    ∀ c, act = .start c → may pool.shared pool.running c

/-- The action starts no call that fails the test. -/
def Action.passes (test : κ → Bool) : Action ι κ → Bool
  | .start c => test c
  | _ => true

/-- Actions one after the other, with a test of the calls that start. -/
def Pool.runActs (code : ι → κ → Prog σ α) (test : σ → ι → κ → Bool) :
    Pool ι κ σ α → List (Action ι κ) → Option (Pool ι κ σ α)
  | pool, [] => some pool
  | pool, act :: acts =>
    if act.passes (test pool.shared pool.running) then
      (pool.step code act).bind fun pool' => pool'.runActs code test acts
    else none

section Steps

variable {code : ι → κ → Prog σ α} {may : σ → ι → κ → Prop} {pool pool' : Pool ι κ σ α}

theorem run_of_runActs {test : σ → ι → κ → Bool} {acts : List (Action ι κ)}
    (htest : ∀ s i c, test s i c = true → may s i c)
    (hrun : pool.runActs code test acts = some pool') :
    ReflTransGen (PoolStep code may) pool pool' := by
  induction acts generalizing pool with
  | nil =>
    cases hrun
    exact .refl
  | cons act acts ih =>
    rw [Pool.runActs] at hrun
    split at hrun
    · rename_i hallowed
      obtain ⟨mid, hstep, hrest⟩ := Option.bind_eq_some_iff.mp hrun
      refine .head ⟨act, hstep, ?_⟩ (ih hrest)
      rintro c rfl
      exact htest _ _ c hallowed
    · cases hrun

/-- **What a step does**, by the program of the running task. -/
theorem PoolStep.cases (h : PoolStep code may pool pool') :
    (∃ c a, pool.prog pool.running = .ret a ∧ may pool.shared pool.running c ∧
      pool' = { pool.goOn pool.shared (code pool.running c) with
        call := update pool.call pool.running (some c) }) ∨
    (∃ (β : Type) (f : σ → Option (σ × β)) (next : β → Prog σ α) (s' : σ) (b : β),
      pool.prog pool.running = .act f next ∧ f pool.shared = some (s', b) ∧
        pool' = pool.goOn s' (next b)) ∨
    (∃ ready next, pool.prog pool.running = .await ready next ∧ ready pool.shared = true ∧
      pool' = pool.goOn pool.shared next) ∨
    (∃ next, pool.prog pool.running = .yield next ∧ pool' = pool.goOn pool.shared next) ∨
    (∃ j, (pool.prog pool.running).yieldsAt pool.shared = true ∧
      pool' = { pool with running := j }) := by
  obtain ⟨act, hstep, hmay⟩ := h
  cases act with
  | start c =>
    rw [Pool.step] at hstep
    split at hstep
    · rename_i a hprog
      exact .inl ⟨c, a, hprog, hmay c rfl, (Option.some.inj hstep).symm⟩
    · cases hstep
  | run =>
    rw [Pool.step] at hstep
    split at hstep
    · cases hstep
    · rename_i f next hprog
      obtain ⟨⟨s', b⟩, hf, rfl⟩ := Option.map_eq_some_iff.mp hstep
      exact .inr (.inl ⟨_, f, next, s', b, hprog, hf, rfl⟩)
    · rename_i ready next hprog
      by_cases hready : ready pool.shared = true
      · rw [if_pos hready] at hstep
        exact .inr (.inr (.inl ⟨ready, next, hprog, hready, (Option.some.inj hstep).symm⟩))
      · rw [if_neg hready] at hstep
        cases hstep
    · rename_i next hprog
      exact .inr (.inr (.inr (.inl ⟨next, hprog, (Option.some.inj hstep).symm⟩)))
  | switch j =>
    rw [Pool.step] at hstep
    split at hstep
    · rename_i hyields
      exact .inr (.inr (.inr (.inr ⟨j, hyields, (Option.some.inj hstep).symm⟩)))
    · cases hstep

end Steps

/-! ### Rely and guarantee -/

/-- The tasks of a pool fit together: `I` is a common invariant, `R i` is what the
other tasks may do to task `i`, `G i c` is what task `i` does in a call `c`, and
`Q i` holds of task `i` outside calls. -/
structure RelyGuarantee (D : Prop) (code : ι → κ → Prog σ α) (may : σ → ι → κ → Prop) (I : σ → Prop)
    (R : ι → σ → σ → Prop) (G : ι → κ → σ → σ → Prop) (Q : ι → α → σ → Prop) : Prop where
  refl : ∀ i s, R i s s
  trans : ∀ {i x y z}, R i x y → R i y z → R i x z
  compat : ∀ {i j c s s'}, i ≠ j → I s → G j c s s' → R i s s'
  inv : ∀ {i c s s'}, I s → G i c s s' → I s'
  stable : ∀ {i a x y}, Q i a x → R i x y → Q i a y
  starts : ∀ {i c a s}, I s → Q i a s → may s i c → Safe D (R i) (G i c) (Q i) (code i c) s

/-- What a task does in the call it is in, if any. -/
def guarantee (G : ι → κ → σ → σ → Prop) (i : ι) : Option κ → σ → σ → Prop
  | none => fun _ _ => False
  | some c => G i c

/-- What holds of the pool between two steps. -/
structure Pool.Ok (D : Prop) (I : σ → Prop) (R : ι → σ → σ → Prop) (G : ι → κ → σ → σ → Prop)
    (Q : ι → α → σ → Prop) (pool : Pool ι κ σ α) : Prop where
  inv : I pool.shared
  safe : ∀ i, Safe D (R i) (guarantee G i (pool.call i)) (Q i) (pool.prog i) pool.shared
  parked : ∀ i, i ≠ pool.running → (pool.prog i).Parked

section Pools

variable {D : Prop} {code : ι → κ → Prog σ α} {may : σ → ι → κ → Prop} {I : σ → Prop}
  {R : ι → σ → σ → Prop} {G : ι → κ → σ → σ → Prop} {Q : ι → α → σ → Prop}
  {pool pool' : Pool ι κ σ α}

omit [DecidableEq ι] in
theorem Pool.idle_ok {s : σ} {i : ι} {a : α} (hI : I s) (hQ : ∀ j, Q j a s) :
    (Pool.idle s i a : Pool ι κ σ α).Ok D I R G Q :=
  ⟨hI, fun j => hQ j, fun _ _ => trivial⟩

/-- The running task goes on, and the others take what it did. -/
theorem RelyGuarantee.goOn_ok (hrg : RelyGuarantee D code may I R G Q) (hok : pool.Ok D I R G Q)
    {s : σ} {p : Prog σ α} (hI : I s) (hothers : ∀ i, i ≠ pool.running → R i pool.shared s)
    (hsafe : Safe D (R pool.running) (guarantee G pool.running (pool.call pool.running))
      (Q pool.running) p s) : (pool.goOn s p).Ok D I R G Q where
  inv := hI
  safe i := by
    rcases eq_or_ne i pool.running with rfl | hi
    · simpa [Pool.goOn] using hsafe
    · have hparked := (hok.safe i).parked (hok.parked i hi) (hothers i hi) hrg.trans hrg.stable
      simpa [Pool.goOn, hi] using hparked
  parked i hi := by
    have hparked := hok.parked i hi
    simpa [Pool.goOn, show i ≠ pool.running from hi] using hparked

/-- **One step** of a pool keeps it in order and is in the guarantee of its task. -/
theorem RelyGuarantee.step_ok (hrg : RelyGuarantee D code may I R G Q) (hok : pool.Ok D I R G Q)
    (hs : PoolStep code may pool pool') :
    pool'.Ok D I R G Q ∧ (pool'.shared = pool.shared ∨
      ∃ c, pool.call pool.running = some c ∧ G pool.running c pool.shared pool'.shared) := by
  have hrun := hok.safe pool.running
  have hsame : ∀ i, i ≠ pool.running → R i pool.shared pool.shared := fun i _ => hrg.refl i _
  rcases hs.cases with ⟨c, a, hprog, hmay, rfl⟩ | ⟨β, f, next, s', b, hprog, hf, rfl⟩ |
    ⟨ready, next, hprog, hready, rfl⟩ | ⟨next, hprog, rfl⟩ | ⟨j, hyields, rfl⟩
  · -- a call starts
    rw [hprog] at hrun
    have hstart := hrg.starts hok.inv hrun hmay
    refine ⟨?_, .inl rfl⟩
    constructor
    case inv => exact hok.inv
    case safe =>
      intro i
      rcases eq_or_ne i pool.running with rfl | hi
      · simpa [Pool.goOn, guarantee] using hstart
      · simpa [Pool.goOn, hi] using hok.safe i
    case parked =>
      intro i hi
      have hparked := hok.parked i hi
      simpa [Pool.goOn, show i ≠ pool.running from hi] using hparked
  · -- an action, which the others rely on
    rw [hprog] at hrun
    obtain ⟨hG, hnext⟩ := hrun.2 s' b hf
    rcases hcall : pool.call pool.running with _ | c
    · rw [hcall] at hG
      exact hG.elim
    · rw [hcall] at hG
      refine ⟨hrg.goOn_ok hok (hrg.inv hok.inv hG) ?_ hnext, .inr ⟨c, rfl, hG⟩⟩
      exact fun i hi => hrg.compat hi hok.inv hG
  · rw [hprog] at hrun
    exact ⟨hrg.goOn_ok hok hok.inv hsame (hrun _ (hrg.refl _ _) hready), .inl rfl⟩
  · rw [hprog] at hrun
    exact ⟨hrg.goOn_ok hok hok.inv hsame (hrun _ (hrg.refl _ _)), .inl rfl⟩
  · -- another task runs on
    refine ⟨⟨hok.inv, hok.safe, fun i hi => ?_⟩, .inl rfl⟩
    rcases eq_or_ne i pool.running with rfl | hrunning
    · exact Prog.parked_of_yieldsAt hyields
    · exact hok.parked i hrunning

/-- **Every run** of a pool keeps it in order. -/
theorem RelyGuarantee.run_ok (hrg : RelyGuarantee D code may I R G Q) (hok : pool.Ok D I R G Q)
    (hrun : ReflTransGen (PoolStep code may) pool pool') : pool'.Ok D I R G Q := by
  induction hrun with
  | refl => exact hok
  | tail _ hs ih => exact (hrg.step_ok ih hs).1

end Pools

end Coroutine
