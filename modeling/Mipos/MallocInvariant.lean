/-
The heap invariant, and what it says about the stored lists.

`HeapInv b base mm H` ties the bytes of the arena to a heap of blocks `H`: the
two lists stored in memory are the lists of `H` (`Represents`), and the
extents of the blocks tile the arena.  From the tiling the descriptors do not
overlap (`HeapInv.spread`), which makes the effect lemmas of
`MallocDescriptors` apply, and no payload byte belongs to a descriptor
(`HeapInv.payload_not_inMdescs`).

The list walks of the source are then functions of `H`: `mmFindFree_eq`,
`mmFindUsed_eq` and `mmFindContFreePredMb_eq`.
-/
import Mipos.MallocBlocks
import Mipos.MallocDescriptors
import Mipos.DoublyLinked

namespace Malloc

open Tiling DoublyLinked

/-- The address of a block, or null. -/
def ptrOf : Option Block → ℕ
  | none => 0
  | some x => x.addr

/-- The lists stored in memory are those of `H`. -/
structure Represents (b : Build) (mm : Mm) (H : Blocks) : Prop where
  free_head : mm.freeMemory = (H.free.map Block.addr).headD 0
  used_head : mm.usedMemory = (H.used.map Block.addr).headD 0
  free_list : IsList (mdescNext b mm.mem) (mdescPrev b mm.mem) (H.free.map Block.addr)
  used_list : IsList (mdescNext b mm.mem) (mdescPrev b mm.mem) (H.used.map Block.addr)
  size_eq : ∀ x ∈ H.all, mdescGetsize b mm.mem x.addr = x.size

/-- **The heap invariant**: the blocks in memory tile the arena, which is an
object of the address space and does not start at null. -/
structure HeapInv (b : Build) (base : ℕ) (mm : Mm) (H : Blocks) : Prop
    extends Represents b mm H where
  tiled : H.Tiled b.sizeofMdesc base mm.arenaSize
  base_pos : 0 < base
  base_end : base + mm.arenaSize < b.modulus

/-- There is a block of `H` with its descriptor at `d`. -/
def Blocks.IsDesc (H : Blocks) (d : ℕ) : Prop := ∃ x ∈ H.all, x.addr = d

/-- The byte at `a` belongs to the payload of `x`. -/
def Block.InPayload (b : Build) (x : Block) (a : ℕ) : Prop :=
  x.addr + b.sizeofMdesc ≤ a ∧ a < x.addr + b.sizeofMdesc + x.size

theorem Build.sizeofMdesc_pos (b : Build) : 0 < b.sizeofMdesc := by
  cases b <;> decide

variable {b : Build} {base : ℕ} {mm : Mm} {H : Blocks} {x : Block}

theorem Blocks.isDesc_of_mem (hx : x ∈ H.all) : H.IsDesc x.addr := ⟨x, hx, rfl⟩

theorem Blocks.mem_all_of_free (hx : x ∈ H.free) : x ∈ H.all := List.mem_append_left _ hx

theorem Blocks.mem_all_of_used (hx : x ∈ H.used) : x ∈ H.all := List.mem_append_right _ hx

/-- The descriptors of blocks that tile an arena do not overlap. -/
theorem Blocks.Tiled.spread {len : ℕ} (h : H.Tiled b.sizeofMdesc base len) (hpos : 0 < base)
    (hend : base + len < b.modulus) : Spread b H.IsDesc where
  ne_zero := by
    rintro d ⟨x, hx, rfl⟩
    have := h.inside hx
    omega
  bound := by
    rintro d ⟨x, hx, rfl⟩
    have := h.inside hx
    omega
  apart := by
    rintro d e ⟨x, hx, rfl⟩ ⟨y, hy, rfl⟩
    by_cases hxy : x = y
    · exact Or.inl (congrArg Block.addr hxy)
    · have := h.apart hx hy hxy
      omega

theorem HeapInv.spread (h : HeapInv b base mm H) : Spread b H.IsDesc :=
  h.tiled.spread h.base_pos h.base_end

/-- No payload byte belongs to a descriptor. -/
theorem Blocks.Tiled.payload_not_inMdescs {len : ℕ} (h : H.Tiled b.sizeofMdesc base len)
    (hx : x ∈ H.all) {a : ℕ} (ha : x.InPayload b a) : ¬ InMdescs b H.IsDesc a := by
  rintro ⟨d, ⟨y, hy, rfl⟩, hya⟩
  unfold Block.InPayload at ha
  unfold InMdesc at hya
  have hxy : x = y := by
    refine h.eq_of_holds (a := a) hx hy ?_ ?_
    · simp only [Holds, Block.span]
      omega
    · simp only [Holds, Block.span]
      omega
  subst hxy
  omega

theorem HeapInv.addr_ne_zero (h : HeapInv b base mm H) (hx : x ∈ H.all) : x.addr ≠ 0 :=
  h.spread.ne_zero _ (Blocks.isDesc_of_mem hx)

theorem HeapInv.size_lt (h : HeapInv b base mm H) (hx : x ∈ H.all) :
    x.addr + b.sizeofMdesc + x.size < b.modulus := by
  have := h.tiled.inside hx
  have := h.base_end
  omega

/-- The data address of a block does not wrap. -/
theorem HeapInv.dataAddr_eq (h : HeapInv b base mm H) (hx : x ∈ H.all) :
    mdescGetDataAddr b x.addr = x.addr + b.sizeofMdesc := by
  have := h.size_lt hx
  exact Nat.mod_eq_of_lt (by omega)

theorem HeapInv.endAddr_eq (h : HeapInv b base mm H) (hx : x ∈ H.all) :
    mdescEndAddr b mm.mem x.addr = x.addr + (b.sizeofMdesc + x.size) := by
  have := h.size_lt hx
  rw [mdescEndAddr, h.dataAddr_eq hx, h.size_eq x hx, Nat.mod_eq_of_lt this]
  omega

/-- Each block takes some of the arena, so the lists are shorter than it. -/
theorem Blocks.Tiled.length_mul_le {hdr len : ℕ} (h : H.Tiled hdr base len) :
    hdr * H.all.length ≤ len := by
  have htotal := h.total
  rw [List.map_map] at htotal
  have hsum : ∀ l : List Block, hdr * l.length ≤ (l.map (Prod.snd ∘ Block.span hdr)).sum := by
    intro l
    induction l with
    | nil => simp
    | cons x l ih =>
      rw [List.length_cons, List.map_cons, List.sum_cons, Nat.mul_add, Nat.mul_one]
      simp only [Function.comp_apply, Block.span] at ih ⊢
      omega
  exact htotal ▸ hsum H.all

theorem HeapInv.length_all_lt (h : HeapInv b base mm H) : H.all.length < mm.fuel := by
  have hmul := h.tiled.length_mul_le
  have hpos := b.sizeofMdesc_pos
  have : 1 * H.all.length ≤ b.sizeofMdesc * H.all.length := Nat.mul_le_mul_right _ hpos
  unfold Mm.fuel
  omega

theorem HeapInv.length_free_lt (h : HeapInv b base mm H) : H.free.length < mm.fuel := by
  have hall : H.all.length = H.free.length + H.used.length := List.length_append
  have := h.length_all_lt
  omega

theorem HeapInv.length_used_lt (h : HeapInv b base mm H) : H.used.length < mm.fuel := by
  have hall : H.all.length = H.free.length + H.used.length := List.length_append
  have := h.length_all_lt
  omega

/-! ### Walking the lists -/

/-- `next` of a stored cell is the address of the block after it. -/
theorem next_eq_of_isList {m : Memory} {l₁ l₂ : List Block}
    (h : IsList (mdescNext b m) (mdescPrev b m) ((l₁ ++ x :: l₂).map Block.addr)) :
    mdescNext b m x.addr = (l₂.map Block.addr).headD 0 := by
  rw [List.map_append, List.map_cons] at h
  exact h.nx_eq

theorem mmFindFreeLoop_eq (h : HeapInv b base mm H) (n : ℕ) :
    ∀ (l l₁ : List Block) (g : Option Block) (fuel : ℕ), H.free = l₁ ++ l → l.length < fuel →
      (∀ y ∈ g, y ∈ H.free) →
      mmFindFreeLoop b mm.mem n fuel ((l.map Block.addr).headD 0) (ptrOf g)
        = some (ptrOf (findFree n l g)) := by
  intro l
  induction l with
  | nil =>
    intro l₁ g fuel _ hfuel _
    obtain ⟨fuel, rfl⟩ : ∃ k, fuel = k + 1 := ⟨fuel - 1, by omega⟩
    rw [List.map_nil, List.headD_nil, mmFindFreeLoop, if_pos rfl, findFree]
  | cons x l ih =>
    intro l₁ g fuel hl hfuel hg
    obtain ⟨fuel, rfl⟩ : ∃ k, fuel = k + 1 := ⟨fuel - 1, by omega⟩
    have hxf : x ∈ H.free := by simp [hl]
    have hx := Blocks.mem_all_of_free hxf
    have hnext : mdescNext b mm.mem x.addr = (l.map Block.addr).headD 0 :=
      next_eq_of_isList (hl ▸ h.free_list)
    rw [List.map_cons, List.headD_cons, mmFindFreeLoop, if_neg (h.addr_ne_zero hx),
      h.size_eq x hx, findFree]
    by_cases hsize : x.size = n
    · rw [if_pos hsize, if_pos hsize]
      rfl
    · rw [if_neg hsize, if_neg hsize, hnext]
      -- the candidate pointer is the address of the candidate block
      have hcand : (if x.size > n then
            if ptrOf g ≠ 0 then
              if mdescGetsize b mm.mem (ptrOf g) < x.size then x.addr else ptrOf g
            else x.addr
          else ptrOf g) = ptrOf (if n < x.size then larger x g else g) := by
        by_cases hnx : n < x.size
        · rw [if_pos hnx, if_pos hnx]
          rcases g with _ | y
          · rfl
          · have hy := Blocks.mem_all_of_free (hg y rfl)
            have hy0 : ptrOf (some y) ≠ 0 := h.addr_ne_zero hy
            rw [if_pos hy0, larger, show ptrOf (some y) = y.addr from rfl, h.size_eq y hy]
            by_cases hyx : y.size < x.size
            · rw [if_pos hyx, if_pos hyx]
              rfl
            · rw [if_neg hyx, if_neg hyx]
              rfl
        · rw [if_neg hnx, if_neg hnx]
      rw [hcand]
      refine ih (l₁ ++ [x]) _ fuel (by simp [hl]) (by simpa using hfuel) ?_
      intro y hy
      by_cases hnx : n < x.size
      · rw [if_pos hnx] at hy
        rcases ((larger_spec x g).1 y hy).1 with rfl | hy
        · exact hxf
        · exact hg y hy
      · rw [if_neg hnx] at hy
        exact hg y hy

theorem mmFindFree_eq (h : HeapInv b base mm H) (n : ℕ) :
    mmFindFree b mm n = some (ptrOf (findFree n H.free none)) := by
  rw [mmFindFree, h.free_head]
  exact mmFindFreeLoop_eq h n H.free [] none _ rfl h.length_free_lt (by simp)

/-- The used block whose payload starts at `ptr`. -/
def Blocks.findUsed (hdr : ℕ) (H : Blocks) (ptr : ℕ) : Option Block :=
  H.used.find? fun x => ptr = x.addr + hdr

theorem mmFindUsedLoop_eq (h : HeapInv b base mm H) (ptr : ℕ) :
    ∀ (l l₁ : List Block) (fuel : ℕ), H.used = l₁ ++ l → l.length < fuel →
      mmFindUsedLoop b mm.mem ptr fuel ((l.map Block.addr).headD 0)
        = some (ptrOf (l.find? fun x => ptr = x.addr + b.sizeofMdesc)) := by
  intro l
  induction l with
  | nil =>
    intro l₁ fuel _ hfuel
    obtain ⟨fuel, rfl⟩ : ∃ k, fuel = k + 1 := ⟨fuel - 1, by omega⟩
    rw [List.map_nil, List.headD_nil, mmFindUsedLoop, if_pos rfl, List.find?_nil, ptrOf]
  | cons x l ih =>
    intro l₁ fuel hl hfuel
    obtain ⟨fuel, rfl⟩ : ∃ k, fuel = k + 1 := ⟨fuel - 1, by omega⟩
    have hx : x ∈ H.all := Blocks.mem_all_of_used (by simp [hl])
    have hnext : mdescNext b mm.mem x.addr = (l.map Block.addr).headD 0 :=
      next_eq_of_isList (hl ▸ h.used_list)
    rw [List.map_cons, List.headD_cons, mmFindUsedLoop, if_neg (h.addr_ne_zero hx),
      h.dataAddr_eq hx, List.find?_cons]
    by_cases hptr : ptr = x.addr + b.sizeofMdesc
    · simp [hptr, ptrOf]
    · rw [if_neg hptr, hnext, ih (l₁ ++ [x]) fuel (by simp [hl]) (by simpa using hfuel)]
      simp [hptr]

theorem mmFindUsed_eq (h : HeapInv b base mm H) (ptr : ℕ) :
    mmFindUsed b mm ptr = some (ptrOf (H.findUsed b.sizeofMdesc ptr)) := by
  rw [mmFindUsed, h.used_head]
  exact mmFindUsedLoop_eq h ptr H.used [] _ rfl h.length_used_lt

/-- Two blocks touch, in either order. -/
def Block.Touches (hdr : ℕ) (x y : Block) : Prop :=
  x ≠ y ∧ (y.addr + (hdr + y.size) = x.addr ∨ x.addr + (hdr + x.size) = y.addr)

instance (hdr : ℕ) (x y : Block) : Decidable (x.Touches hdr y) :=
  inferInstanceAs (Decidable (x ≠ y ∧ (_ ∨ _)))

theorem mmFindContFreePredMbLoop_eq (h : HeapInv b base mm H) (hx : x ∈ H.free) :
    ∀ (l l₁ : List Block) (fuel : ℕ), H.free = l₁ ++ l → l.length < fuel →
      mmFindContFreePredMbLoop b mm.mem x.addr fuel ((l.map Block.addr).headD 0)
        = some (ptrOf (l.find? fun y => x.Touches b.sizeofMdesc y)) := by
  have hxa := Blocks.mem_all_of_free hx
  intro l
  induction l with
  | nil =>
    intro l₁ fuel _ hfuel
    obtain ⟨fuel, rfl⟩ : ∃ k, fuel = k + 1 := ⟨fuel - 1, by omega⟩
    rw [List.map_nil, List.headD_nil, mmFindContFreePredMbLoop, if_pos rfl, List.find?_nil, ptrOf]
  | cons y l ih =>
    intro l₁ fuel hl hfuel
    obtain ⟨fuel, rfl⟩ : ∃ k, fuel = k + 1 := ⟨fuel - 1, by omega⟩
    have hy : y ∈ H.all := Blocks.mem_all_of_free (by simp [hl])
    have hnext : mdescNext b mm.mem y.addr = (l.map Block.addr).headD 0 :=
      next_eq_of_isList (hl ▸ h.free_list)
    have hiff : (x.addr ≠ y.addr ∧ (y.addr + (b.sizeofMdesc + y.size) = x.addr ∨
        x.addr + (b.sizeofMdesc + x.size) = y.addr)) ↔ x.Touches b.sizeofMdesc y := by
      refine and_congr_left fun _ => not_congr ⟨h.tiled.eq_of_addr hxa hy, congrArg Block.addr⟩
    rw [List.map_cons, List.headD_cons, mmFindContFreePredMbLoop, if_neg (h.addr_ne_zero hy),
      h.endAddr_eq hy, h.endAddr_eq hxa, List.find?_cons]
    by_cases htouch : x.Touches b.sizeofMdesc y
    · rw [if_pos (hiff.mpr htouch)]
      simp [htouch, ptrOf]
    · rw [if_neg fun e => htouch (hiff.mp e), hnext,
        ih (l₁ ++ [y]) fuel (by simp [hl]) (by simpa using hfuel)]
      simp [htouch]

theorem mmFindContFreePredMb_eq (h : HeapInv b base mm H) (hx : x ∈ H.free) :
    mmFindContFreePredMb b mm x.addr
      = some (ptrOf (H.free.find? fun y => x.Touches b.sizeofMdesc y)) := by
  rw [mmFindContFreePredMb, h.free_head]
  exact mmFindContFreePredMbLoop_eq h hx H.free [] _ rfl h.length_free_lt

end Malloc
