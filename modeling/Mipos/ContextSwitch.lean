/-
Activities that share one processor and switch contexts.

An activity that gives up the processor saves its context in a buffer of its own; later
another one jumps to that buffer, and the first goes on behind its call of the save.  A
`Port` is what a machine has for that: the two routines, with the laws they keep.  Between
the switches the activities compute what they like, as long as they leave the buffers and
the live part of the stacks of those that have saved a context alone (`Step`).

* `Inv.step`, `Run.inv` — in every run the buffers hold the contexts that were saved last,
  and the live stacks are what they were;
* `Run.resumes` — in every state that a run reaches, a jump makes the activity go on as it
  was when it saved its context, with the same bytes on its stack.
-/
import Mathlib.Data.Set.Lattice
import Mathlib.Order.CompletePartialOrder

namespace ContextSwitch

/-- The context switch of a machine with states `σ` and bytes `β` at addresses `α`. -/
structure Port (σ α β : Type) where
  mem : σ → α → β
  /-- The addresses of the buffer at an address. -/
  block : α → Set α
  /-- The port's own variables. -/
  own : Set α
  save : σ → σ
  jump : σ → σ
  SaveCalled : σ → α → Prop
  JumpCalled : σ → α → Prop
  /-- The buffer at an address holds the context of the caller in a state. -/
  Holds : (α → β) → α → σ → Prop
  /-- What the caller in a state has on its stack. -/
  live : σ → Set α
  /-- The part of its stack that resuming it may overwrite. -/
  scratch : σ → Set α
  /-- The second state is the first one again, as its context has it. -/
  Resumed : σ → σ → Prop
  holds_congr : ∀ {m m' a s}, (∀ x ∈ block a, m' x = m x) → Holds m a s → Holds m' a s
  save_holds : ∀ {s a}, SaveCalled s a → Holds (mem (save s)) a s
  save_frame : ∀ {s a}, SaveCalled s a → ∀ x, x ∉ block a → mem (save s) x = mem s x
  jump_resumes : ∀ {s t a}, JumpCalled t a → Holds (mem t) a s → Disjoint own (block a) →
    Disjoint own (scratch s) →
      Resumed s (jump t) ∧ ∀ x, x ∉ own → x ∉ scratch s → mem (jump t) x = mem t x
  live_scratch : ∀ {s a}, SaveCalled s a → Disjoint (live s) (scratch s)

variable {σ α β Id : Type}

/-- Where the buffers and the stacks of the activities are. -/
structure Layout (P : Port σ α β) (Id : Type) where
  buffer : Id → α
  stack : Id → Set α
  buffers_apart : ∀ {i j}, i ≠ j → Disjoint (P.block (buffer i)) (P.block (buffer j))
  stacks_apart : ∀ {i j}, i ≠ j → Disjoint (stack i) (stack j)
  stack_buffer : ∀ i j, Disjoint (stack i) (P.block (buffer j))
  own_stack : ∀ i, Disjoint P.own (stack i)
  own_buffer : ∀ i, Disjoint P.own (P.block (buffer i))

/-- The machine, the activity that runs, and the state in which each one has saved its
context. -/
structure State (σ Id : Type) where
  cpu : σ
  running : Id
  saved : Id → Option σ

variable {P : Port σ α β} {L : Layout P Id}

/-- What an activity that has saved its context needs to go on. -/
def Layout.kept (L : Layout P Id) (j : Id) (s : σ) : Set α :=
  P.block (L.buffer j) ∪ (L.stack j ∩ P.live s)

def forget [DecidableEq Id] (saved : Id → Option σ) (j i : Id) : Option σ :=
  if i = j then none else saved i

inductive Step [DecidableEq Id] (L : Layout P Id) : State σ Id → State σ Id → Prop
  /-- The running activity computes. -/
  | work {S : State σ Id} (t : σ)
      (hkept : ∀ j s, S.saved j = some s → ∀ x ∈ L.kept j s, P.mem t x = P.mem S.cpu x) :
      Step L S { S with cpu := t }
  /-- It saves its context. -/
  | save {S : State σ Id} (hcalled : P.SaveCalled S.cpu (L.buffer S.running))
      (hroom : P.scratch S.cpu ⊆ L.stack S.running) :
      Step L S { S with
        cpu := P.save S.cpu
        saved := fun j => if j = S.running then some S.cpu else S.saved j }
  /-- It jumps to the context of `j`. -/
  | jump {S : State σ Id} (j : Id) (s : σ) (hsaved : S.saved j = some s)
      (hcalled : P.JumpCalled S.cpu (L.buffer j)) :
      Step L S { cpu := P.jump S.cpu, running := j, saved := forget S.saved j }
  /-- It hands the processor over without a jump: `j` is started on its own stack, or goes
  on because what it had called has returned. -/
  | enter {S : State σ Id} (j : Id) :
      Step L S { S with running := j, saved := forget S.saved j }

/-- The buffer of `j` holds the context of `s`, and its live stack is as it was. -/
def Layout.Saved (L : Layout P Id) (m : α → β) (j : Id) (s : σ) : Prop :=
  P.SaveCalled s (L.buffer j) ∧ P.scratch s ⊆ L.stack j ∧ P.Holds m (L.buffer j) s ∧
    ∀ x ∈ L.stack j, x ∈ P.live s → m x = P.mem s x

def Inv (L : Layout P Id) (S : State σ Id) : Prop :=
  ∀ j s, S.saved j = some s → L.Saved (P.mem S.cpu) j s

section Steps

variable {S : State σ Id} {i j : Id} {s : σ} {m m' : α → β} {x : α}

/-- Saving in one buffer leaves alone what the other activities need. -/
theorem Layout.not_mem_buffer (hne : j ≠ i) (hx : x ∈ L.kept j s) :
    x ∉ P.block (L.buffer i) := by
  rcases hx with hbuffer | ⟨hstack, -⟩
  · exact Set.disjoint_left.mp (L.buffers_apart hne) hbuffer
  · exact Set.disjoint_left.mp (L.stack_buffer j i) hstack

/-- So does resuming one. -/
theorem Layout.not_mem_own (hx : x ∈ L.kept j s) : x ∉ P.own := by
  rcases hx with hbuffer | ⟨hstack, -⟩
  · exact fun hown => Set.disjoint_left.mp (L.own_buffer j) hown hbuffer
  · exact fun hown => Set.disjoint_left.mp (L.own_stack j) hown hstack

theorem Layout.not_mem_stack (hne : j ≠ i) (hx : x ∈ L.kept j s) : x ∉ L.stack i := by
  rcases hx with hbuffer | ⟨hstack, -⟩
  · exact fun hi => Set.disjoint_left.mp (L.stack_buffer i j) hi hbuffer
  · exact Set.disjoint_left.mp (L.stacks_apart hne) hstack

/-- What was saved survives every change that leaves alone what the activity needs. -/
theorem Layout.Saved.keep (h : L.Saved m j s) (hkept : ∀ x ∈ L.kept j s, m' x = m x) :
    L.Saved m' j s := by
  obtain ⟨hcalled, hroom, hholds, hstack⟩ := h
  refine ⟨hcalled, hroom, P.holds_congr (fun x hx => hkept x (.inl hx)) hholds, ?_⟩
  intro x hx hlive
  rw [hkept x (.inr ⟨hx, hlive⟩), hstack x hx hlive]

variable [DecidableEq Id]

/-- **What was saved stays**, whatever the step. -/
theorem Inv.step {S' : State σ Id} (hinv : Inv L S) (h : Step L S S') : Inv L S' := by
  intro j s' hsaved
  cases h with
  | work t hkept => exact (hinv j s' hsaved).keep (hkept j s' hsaved)
  | save hcalled hroom =>
    by_cases hne : j = S.running
    · subst hne
      obtain rfl : S.cpu = s' := by simpa using hsaved
      refine ⟨hcalled, hroom, P.save_holds hcalled, ?_⟩
      intro x hx _
      exact P.save_frame hcalled x (Set.disjoint_left.mp (L.stack_buffer _ _) hx)
    · exact (hinv j s' (by simpa [hne] using hsaved)).keep fun x hx =>
        P.save_frame hcalled x (Layout.not_mem_buffer hne hx)
  | jump i s hsavedi hcalled =>
    obtain ⟨hne, hsaved⟩ : j ≠ i ∧ S.saved j = some s' := by simpa [forget] using hsaved
    obtain ⟨-, hroom, hholds, -⟩ := hinv i s hsavedi
    have hframe := (P.jump_resumes hcalled hholds (L.own_buffer i)
      ((L.own_stack i).mono_right hroom)).2
    exact (hinv j s' hsaved).keep fun x hx => hframe x (Layout.not_mem_own hx) fun hscratch =>
      Layout.not_mem_stack hne hx (hroom hscratch)
  | enter i =>
    obtain ⟨-, hsaved⟩ : j ≠ i ∧ S.saved j = some s' := by simpa [forget] using hsaved
    exact hinv j s' hsaved

/-- Runs, from a state in which no context has been saved. -/
inductive Run (L : Layout P Id) : State σ Id → Prop
  | start (cpu : σ) (running : Id) : Run L ⟨cpu, running, fun _ => none⟩
  | step {S S' : State σ Id} (hrun : Run L S) (h : Step L S S') : Run L S'

theorem Run.inv (hrun : Run L S) : Inv L S := by
  induction hrun with
  | start cpu running =>
    intro j s hsaved
    simp at hsaved
  | step _ h ih => exact ih.step h

/-- **An activity goes on as it was**, in whatever order the others have run. -/
theorem Run.resumes (hrun : Run L S) (hsaved : S.saved j = some s)
    (hcalled : P.JumpCalled S.cpu (L.buffer j)) :
    P.Resumed s (P.jump S.cpu) ∧
      ∀ x ∈ L.stack j, x ∈ P.live s → P.mem (P.jump S.cpu) x = P.mem s x := by
  obtain ⟨hsave, hroom, hholds, hstack⟩ := hrun.inv j s hsaved
  obtain ⟨hresumed, hframe⟩ := P.jump_resumes hcalled hholds (L.own_buffer j)
    ((L.own_stack j).mono_right hroom)
  refine ⟨hresumed, ?_⟩
  intro x hx hlive
  have hscratch := Set.disjoint_left.mp (P.live_scratch hsave) hlive
  have hown : x ∉ P.own := fun h => Set.disjoint_left.mp (L.own_stack j) h hx
  rw [hframe x hown hscratch, hstack x hx hlive]

end Steps

end ContextSwitch
