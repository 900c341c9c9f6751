/-
Ring buffers.

An array `f` of `limit` cells holds a list from the cell `head` on, wrapping round
at the end (`window`).
* `window_push` — storing behind the last element appends to the list;
* `window_pop` — the element at the head is the first of the list.
-/
import Mathlib.Data.List.Basic
import Mathlib.Data.Nat.ModEq
import Mathlib.Logic.Function.Basic

namespace RingBuffer

open Function

variable {α : Type*} {f : ℕ → α} {limit head n : ℕ}

/-- The `n` elements from the cell `head` on. -/
def window (f : ℕ → α) (limit head n : ℕ) : List α :=
  (List.range n).map fun i => f ((head + i) % limit)

theorem window_succ :
    window f limit head (n + 1) = window f limit head n ++ [f ((head + n) % limit)] := by
  rw [window, List.range_succ, List.map_append, List.map_singleton]
  rfl

@[simp]
theorem window_push (hn : n < limit) (x : α) :
    window (update f ((head + n) % limit) x) limit head (n + 1)
      = window f limit head n ++ [x] := by
  rw [window_succ, update_self]
  congr 1
  refine List.map_congr_left fun i hi => update_of_ne (fun heq => ?_) x f
  -- fewer than `limit` cells apart, two positions are two cells
  have hi := List.mem_range.mp hi
  have hmod : i ≡ n [MOD limit] := Nat.ModEq.add_left_cancel' head heq
  exact Nat.ne_of_lt hi (hmod.eq_of_lt_of_lt (by omega) hn)

theorem window_pop :
    window f limit head (n + 1) = f (head % limit) :: window f limit ((head + 1) % limit) n := by
  rw [window, List.range_succ_eq_map, List.map_cons, List.map_map]
  refine congrArg _ (List.map_congr_left fun i _ => ?_)
  show f ((head + (i + 1)) % limit) = _
  rw [Nat.mod_add_mod]
  congr 2
  omega

end RingBuffer
