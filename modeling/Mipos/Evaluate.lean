/-
Deciding what a computation that may be undefined gives.

A run of a model is an `Option`, and a statement about the state that it reaches is decided by
running it, if the statement about that state is decided.
-/
import Mathlib.Init

namespace Option

variable {α : Type*}

instance decidableExistsEqSome {p : α → Prop} [DecidablePred p] :
    (o : Option α) → Decidable (∃ a, o = some a ∧ p a)
  | none => .isFalse (by simp)
  | some a => decidable_of_iff (p a) (by simp)

instance decidableExistsEqSomeMk {β : Type*} [DecidableEq β] {b : β} {p : α → Prop}
    [DecidablePred p] : (o : Option (α × β)) → Decidable (∃ a, o = some (a, b) ∧ p a)
  | none => .isFalse (by simp)
  | some (a, c) => decidable_of_iff (c = b ∧ p a) <| by
    constructor
    · rintro ⟨rfl, ha⟩
      exact ⟨a, rfl, ha⟩
    · rintro ⟨_, heq, ha⟩
      cases heq
      exact ⟨rfl, ha⟩

instance decidableExistsSome (o : Option α) : Decidable (∃ a, o = some a) :=
  decidable_of_iff (o.isSome = true) isSome_iff_exists

instance decidableExistsSomeMk {β : Type*} [DecidableEq β] (o : Option (α × β)) (b : β) :
    Decidable (∃ a, o = some (a, b)) :=
  decidable_of_iff (∃ a, o = some (a, b) ∧ True) (by simp)

end Option
