/-
Structured code and the paths through it.

Code is cut down to the events of interest and the way control goes: a branch is free to
go either way, a loop to make any number of rounds, so that the paths of the code are at
least those that any data can make it take.  A path may be cut off anywhere, which
stands for code that is still running.

* `Stmt.check` — whether all paths are runs of an automaton and end in given states;
* `Path.check` — they are, if the check says so.
-/
import Mathlib.Tactic.Common

namespace ControlFlow

/-- How a path ends: after the code, at the break of the loop around it, at a return, or
in the middle. -/
inductive Exit
  | done
  | broke
  | returned
  | cut
  deriving DecidableEq, Repr

/-- Code with events in `α`.  `call` is the body of a function. -/
inductive Stmt (α : Type)
  | skip
  | emit (a : α)
  | brk
  | ret
  | seq (p q : Stmt α)
  | choice (p q : Stmt α)
  | loop (p : Stmt α)
  | call (p : Stmt α)

variable {α σ : Type}

instance : AndThen (Stmt α) := ⟨fun p q => .seq p (q ())⟩

instance : OrElse (Stmt α) := ⟨fun p q => .choice p (q ())⟩

/-- The events of a path through the code, and how it ends. -/
inductive Path : Stmt α → List α → Exit → Prop
  | cut (p : Stmt α) : Path p [] .cut
  | skip : Path .skip [] .done
  | emit (a : α) : Path (.emit a) [a] .done
  | brk : Path .brk [] .broke
  | ret : Path .ret [] .returned
  | seq {p q : Stmt α} {a b : List α} {e : Exit} (hp : Path p a .done) (hq : Path q b e) :
      Path (.seq p q) (a ++ b) e
  | seqExit {p q : Stmt α} {a : List α} {e : Exit} (hp : Path p a e) (he : e ≠ .done) :
      Path (.seq p q) a e
  | left {p q : Stmt α} {a : List α} {e : Exit} (hp : Path p a e) : Path (.choice p q) a e
  | right {p q : Stmt α} {a : List α} {e : Exit} (hq : Path q a e) : Path (.choice p q) a e
  | loopEnd {p : Stmt α} : Path (.loop p) [] .done
  | loopNext {p : Stmt α} {a b : List α} {e : Exit} (hp : Path p a .done)
      (hrest : Path (.loop p) b e) : Path (.loop p) (a ++ b) e
  | loopBreak {p : Stmt α} {a : List α} (hp : Path p a .broke) : Path (.loop p) a .done
  | loopRet {p : Stmt α} {a : List α} (hp : Path p a .returned) : Path (.loop p) a .returned
  | loopCut {p : Stmt α} {a : List α} (hp : Path p a .cut) : Path (.loop p) a .cut
  | call {p : Stmt α} {a : List α} (hp : Path p a .done) : Path (.call p) a .done
  | callRet {p : Stmt α} {a : List α} (hp : Path p a .returned) : Path (.call p) a .done
  | callCut {p : Stmt α} {a : List α} (hp : Path p a .cut) : Path (.call p) a .cut

/-- A path that ends in the state `t` ends as it should: in `D`, `B` or `R`. -/
def Exit.Ends (D B R : σ → Bool) (t : σ) : Exit → Prop
  | .done => D t = true
  | .broke => B t = true
  | .returned => R t = true
  | .cut => True

/-- The end of other paths does not matter. -/
theorem Exit.Ends.of_ne {D D' B R : σ → Bool} {t : σ} {e : Exit} (h : e.Ends D B R t)
    (he : e ≠ .done) : e.Ends D' B R t := by
  cases e with
  | done => exact absurd rfl he
  | _ => exact h

variable [DecidableEq σ] (next : σ → α → Option σ)

/-- Whether the automaton `next` runs along every path from the state `s`, and is then in
a state of `D` after the code, of `B` at a break, of `R` at a return.  A loop has to come
back to the state it starts in. -/
def Stmt.check : Stmt α → σ → (D B R : σ → Bool) → Bool
  | .skip, s, D, _, _ => D s
  | .emit a, s, D, _, _ => (next s a).any D
  | .brk, s, _, B, _ => B s
  | .ret, s, _, _, R => R s
  | .seq p q, s, D, B, R => p.check s (fun t => q.check t D B R) B R
  | .choice p q, s, D, B, R => p.check s D B R && q.check s D B R
  | .loop p, s, D, _, R => D s && p.check s (fun t => decide (t = s)) D R
  | .call p, s, D, _, _ => p.check s D (fun _ => false) D

variable {next}

theorem Path.check {p : Stmt α} {es : List α} {e : Exit} (h : Path p es e) {s : σ}
    {D B R : σ → Bool} (hc : p.check next s D B R = true) :
    ∃ t, es.foldlM next s = some t ∧ e.Ends D B R t := by
  induction h generalizing s D B R with
  | cut p => exact ⟨s, rfl, trivial⟩
  | skip => exact ⟨s, rfl, hc⟩
  | emit a =>
    obtain ⟨t, ht, hD⟩ := (Option.any_eq_true _ _).mp hc
    exact ⟨t, by simpa using ht, hD⟩
  | brk => exact ⟨s, rfl, hc⟩
  | ret => exact ⟨s, rfl, hc⟩
  | seq _ _ ihp ihq =>
    obtain ⟨t, ht, hq⟩ := ihp hc
    obtain ⟨u, hu, hends⟩ := ihq hq
    exact ⟨u, by rw [List.foldlM_append, ht]; exact hu, hends⟩
  | seqExit _ he ihp =>
    obtain ⟨t, ht, hends⟩ := ihp hc
    exact ⟨t, ht, hends.of_ne he⟩
  | left _ ihp => exact ihp (Bool.and_eq_true_iff.mp hc).1
  | right _ ihq => exact ihq (Bool.and_eq_true_iff.mp hc).2
  | loopEnd => exact ⟨s, rfl, (Bool.and_eq_true_iff.mp hc).1⟩
  | loopNext _ _ ihp ihrest =>
    obtain ⟨t, ht, hback⟩ := ihp (Bool.and_eq_true_iff.mp hc).2
    obtain rfl : t = s := of_decide_eq_true hback
    obtain ⟨u, hu, hends⟩ := ihrest hc
    exact ⟨u, by rw [List.foldlM_append, ht]; exact hu, hends⟩
  | loopBreak _ ihp => exact ihp (Bool.and_eq_true_iff.mp hc).2
  | loopRet _ ihp =>
    obtain ⟨t, ht, hends⟩ := ihp (Bool.and_eq_true_iff.mp hc).2
    exact ⟨t, ht, hends⟩
  | loopCut _ ihp =>
    obtain ⟨t, ht, hends⟩ := ihp (Bool.and_eq_true_iff.mp hc).2
    exact ⟨t, ht, hends⟩
  | call _ ihp =>
    obtain ⟨t, ht, hends⟩ := ihp hc
    exact ⟨t, ht, hends⟩
  | callRet _ ihp =>
    obtain ⟨t, ht, hends⟩ := ihp hc
    exact ⟨t, ht, hends⟩
  | callCut _ ihp =>
    obtain ⟨t, ht, hends⟩ := ihp hc
    exact ⟨t, ht, hends⟩

end ControlFlow
