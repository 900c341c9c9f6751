/-
Byte-addressed memory and the machine words stored in it.

A memory is a total map from addresses to bytes.  `readWord w m a` is the
little-endian `w`-byte word at `a`, and `writeWord w m a v` stores the low
`8 * w` bits of `v` there:

* `readWord_writeWord_same` — a word reads back as what was stored;
* `readWord_writeWord_apart` — a store leaves every word apart from it alone;
* `writeWord_of_not_mem` — a store leaves every byte outside its range alone.

`fill` and `copy` are the two block operations (`memset`, `memcpy`).
-/
import Mathlib.Algebra.Order.Ring.Nat
import Mathlib.Tactic.Ring

/-- A memory: one byte for each address. -/
def Memory : Type := ℕ → UInt8

namespace Memory

/-- The little-endian word of `w` bytes at address `a`. -/
def readWord : ℕ → Memory → ℕ → ℕ
  | 0, _, _ => 0
  | w + 1, m, a => (m a).toNat + 256 * readWord w m (a + 1)

/-- Store the low `w` bytes of `v` at address `a`, least significant first. -/
def writeWord (w : ℕ) (m : Memory) (a v : ℕ) : Memory := fun x =>
  if a ≤ x ∧ x < a + w then UInt8.ofNat (v / 256 ^ (x - a)) else m x

/-- `memset`: `n` bytes from `a` on become `c`. -/
def fill (m : Memory) (a n : ℕ) (c : UInt8) : Memory := fun x =>
  if a ≤ x ∧ x < a + n then c else m x

/-- `memcpy`: the `n` bytes at `src` are copied to `dst`. -/
def copy (m : Memory) (dst src n : ℕ) : Memory := fun x =>
  if dst ≤ x ∧ x < dst + n then m (src + (x - dst)) else m x

theorem writeWord_of_not_mem {w a v x : ℕ} (m : Memory) (h : x < a ∨ a + w ≤ x) :
    writeWord w m a v x = m x := by
  rw [writeWord, if_neg (by omega)]

theorem fill_of_not_mem {a n x : ℕ} (m : Memory) (c : UInt8) (h : x < a ∨ a + n ≤ x) :
    fill m a n c x = m x := by
  rw [fill, if_neg (by omega)]

theorem copy_of_not_mem {dst src n x : ℕ} (m : Memory) (h : x < dst ∨ dst + n ≤ x) :
    copy m dst src n x = m x := by
  rw [copy, if_neg (by omega)]

theorem fill_add {n i : ℕ} (m : Memory) (a : ℕ) (c : UInt8) (hi : i < n) :
    fill m a n c (a + i) = c := by
  rw [fill, if_pos (by omega)]

theorem copy_add {n i : ℕ} (m : Memory) (dst src : ℕ) (hi : i < n) :
    copy m dst src n (dst + i) = m (src + i) := by
  rw [copy, if_pos (by omega), Nat.add_sub_cancel_left]

/-- A word is determined by its bytes. -/
theorem readWord_congr {m m' : Memory} : ∀ {w a : ℕ},
    (∀ x, a ≤ x → x < a + w → m' x = m x) → readWord w m' a = readWord w m a := by
  intro w
  induction w with
  | zero =>
    intro a _
    rfl
  | succ w ih =>
    intro a h
    rw [readWord, readWord, h a (le_refl a) (by omega)]
    rw [ih fun x h1 h2 => h x (by omega) (by omega)]

theorem readWord_lt (m : Memory) : ∀ w a : ℕ, readWord w m a < 256 ^ w := by
  intro w
  induction w with
  | zero =>
    intro a
    simp [readWord]
  | succ w ih =>
    intro a
    have hbyte : (m a).toNat < 256 := (m a).toNat_lt
    have hrest := ih (a + 1)
    rw [readWord, pow_succ]
    omega

/-- The bytes of a stored word after its first are those of `v / 256`. -/
theorem writeWord_succ_tail {w a v x : ℕ} (m : Memory) (h1 : a + 1 ≤ x) (h2 : x < a + 1 + w) :
    writeWord (w + 1) m a v x = writeWord w m (a + 1) (v / 256) x := by
  rw [writeWord, writeWord, if_pos (by omega), if_pos (by omega)]
  obtain ⟨k, rfl⟩ : ∃ k, x = a + 1 + k := ⟨x - (a + 1), by omega⟩
  rw [show a + 1 + k - a = k + 1 by omega, show a + 1 + k - (a + 1) = k by omega]
  rw [pow_succ, Nat.mul_comm, ← Nat.div_div_eq_div_mul]

/-- **A stored word reads back**, up to the width of the word. -/
theorem readWord_writeWord_mod (m : Memory) : ∀ w a v : ℕ,
    readWord w (writeWord w m a v) a = v % 256 ^ w := by
  intro w
  induction w with
  | zero =>
    intro a v
    simp [readWord, Nat.mod_one]
  | succ w ih =>
    intro a v
    have hhead : (writeWord (w + 1) m a v a).toNat = v % 256 := by
      rw [writeWord, if_pos (by omega), Nat.sub_self, pow_zero, Nat.div_one]
      simp
    have htail : readWord w (writeWord (w + 1) m a v) (a + 1)
        = readWord w (writeWord w m (a + 1) (v / 256)) (a + 1) :=
      readWord_congr fun x h1 h2 => writeWord_succ_tail m h1 h2
    rw [readWord, hhead, htail, ih, pow_succ, Nat.mul_comm (256 ^ w) 256, Nat.mod_mul]

theorem readWord_writeWord_same {w v : ℕ} (m : Memory) (a : ℕ) (hv : v < 256 ^ w) :
    readWord w (writeWord w m a v) a = v := by
  rw [readWord_writeWord_mod, Nat.mod_eq_of_lt hv]

/-- A store leaves every word apart from it alone. -/
theorem readWord_writeWord_apart {w w' a a' v : ℕ} (m : Memory)
    (h : a' + w' ≤ a ∨ a + w ≤ a') :
    readWord w' (writeWord w m a v) a' = readWord w' m a' :=
  readWord_congr fun x _ _ => writeWord_of_not_mem m (by omega)

end Memory
