/-
Which pointers are live, over whole histories of the 64-bit heap.

A history lists the calls of a run with what they returned.  It alone says which pointers
are live (`Live`): a call has returned the pointer, and no call since has freed it or moved
its block.  Addresses come back (a descriptor is absorbed by a merge and cut out again
later), so this is not a property of the address.

* `traced_inv` — in every run the used list holds the blocks of the live pointers;
* `live_pointers` — so `mipos_mm_is_in`, `mipos_mm_free` and
  `mipos_mm_get_used_memory_size` know the live pointers, and no others;
* `oversized_realloc_not_found` — but not after a reallocation that writes beyond its
  block.
-/
import Mipos.MallocRuns

namespace Malloc

open Tiling DoublyLinked Relation

/-! ### Histories -/

/-- The calls of a run with what they returned, the last one first. -/
abbrev History := List (Call × ℕ)

/-- The call frees the block at `p` or moves it, unless it returns `p` again. -/
def Call.Ends : Call → ℕ → Prop
  | .free ptr, p => p = ptr
  | .realloc ptr _, p => p = ptr
  | .alloc _, _ => False
  | .compact _, _ => False
  | .calloc _ _, _ => False

instance : (c : Call) → (p : ℕ) → Decidable (c.Ends p)
  | .free ptr, p => inferInstanceAs (Decidable (p = ptr))
  | .realloc ptr _, p => inferInstanceAs (Decidable (p = ptr))
  | .alloc _, _ => .isFalse id
  | .compact _, _ => .isFalse id
  | .calloc _ _, _ => .isFalse id

/-- A call has returned `p`, and no call since has freed or moved it. -/
def Live : History → ℕ → Prop
  | [], _ => False
  | (c, r) :: hist, p => (p = r ∧ r ≠ 0) ∨ (Live hist p ∧ ¬ c.Ends p)

instance Live.decide : (hist : History) → (p : ℕ) → Decidable (Live hist p)
  | [], _ => .isFalse id
  | (c, r) :: hist, p =>
    have := Live.decide hist p
    inferInstanceAs (Decidable ((p = r ∧ r ≠ 0) ∨ (Live hist p ∧ ¬ c.Ends p)))

/-- A step of a run (`StepWhere`), with the history of its calls. -/
abbrev TraceStep (b : Build) (base : ℕ) (P : Call → Prop) : Mm × History → Mm × History → Prop :=
  TraceOf b base (Call.Returns b fun _ => P)

variable {b : Build} {base : ℕ} {mm mm' : Mm} {H : Blocks} {c : Call}

theorem TraceStep.call {P : Call → Prop} {r : ℕ} {hist : History} (c : Call) (hc : P c)
    (hexec : c.exec b mm = some (mm', r)) : TraceStep b base P (mm, hist) (mm', (c, r) :: hist) :=
  ⟨[(c, r)], .call ⟨hc, hexec⟩, rfl⟩

/-! ### The used list is the list of live pointers -/

/-- **A call changes the pointers in use** by what it ends and by what it returns. -/
theorem Call.accounts_of_exec {r : ℕ} (hb : b.SplitSound) (h : HeapInv b base mm H)
    (hc : c.Fits b) (hexec : c.exec b mm = some (mm', r)) :
    ∃ H', HeapInv b base mm' H' ∧ mm'.arenaSize = mm.arenaSize ∧
      Accounts b.sizeofMdesc c.Ends H r H' := by
  -- the call returns one result only
  have huse : ∀ {mm₁ : Mm} {r₁ : ℕ} {H' : Blocks} {keep : List Block},
      c.exec b mm = some (mm₁, r₁) → Leaves b base keep mm mm₁ H' →
      Accounts b.sizeofMdesc c.Ends H r₁ H' → ∃ H', HeapInv b base mm' H' ∧
        mm'.arenaSize = mm.arenaSize ∧ Accounts b.sizeofMdesc c.Ends H r H' := by
    intro mm₁ r₁ H' keep hrun hleaves hacc
    rw [hrun, Option.some_inj, Prod.mk.injEq] at hexec
    obtain ⟨rfl, rfl⟩ := hexec
    exact ⟨H', hleaves.inv, hleaves.arena, hacc⟩
  have hs : AllocSound b mm (c.request b) := hb.allocSound h _
  cases c with
  | alloc size =>
    obtain ⟨mm₁, r₁, H', hrun, hleaves, hres, -⟩ := miposMmAlloc_sim h hs
    exact huse hrun hleaves (hres.accounts fun _ _ => id)
  | free ptr =>
    obtain ⟨mm₁, hrun, hleaves⟩ := miposMmFree_sim h ptr
    exact huse (by simp [Call.exec, hrun]) hleaves (h.freeAt_accounts ptr)
  | compact bytesNeeded =>
    obtain ⟨mm₁, r₁, H', hrun, hcompacted, -⟩ := miposMmCompactFreemem_sim h bytesNeeded
    have hres : AllocResult b 0 H 0 H' := Or.inl ⟨rfl, hcompacted.used_eq⟩
    exact huse (by simp [Call.exec, hrun]) hcompacted.leaves (hres.accounts fun _ _ => id)
  | calloc nmemb size =>
    obtain ⟨mm₁, r₁, H', hrun, hleaves, hres, -⟩ := miposCalloc_sim h hs hc
    exact huse hrun hleaves (hres.accounts fun _ _ => id)
  | realloc ptr size =>
    rcases hc with rfl | hc
    · obtain ⟨mm₁, r₁, H', hrun, hleaves, hres, -⟩ := miposMmAlloc_sim h hs
      exact huse hrun hleaves (hres.accounts fun p hp => hp.ne_zero)
    rcases miposMmRealloc_sim h ptr hs hc with ⟨hnone, -⟩ | ⟨mm₁, r₁, H', hrun, hleaves, hacc, -⟩
    · exact absurd (hnone.symm.trans hexec) (by simp)
    · exact huse hrun hleaves.leaves hacc

/-- **In every run the used list holds the blocks of the live pointers.** -/
theorem traced_inv {m : Memory} {len : ℕ} {s : Mm × History} (hb : b.SplitSound)
    (hpos : 0 < base) (hend : base + len < b.modulus) (hlen : b.sizeofMdesc ≤ len)
    (hrun : ReflTransGen (TraceStep b base (Call.Fits b)) (miposMmInit b m base len, [])
      s) : ∃ H, HeapInv b base s.1 H ∧ ∀ p, H.Uses b.sizeofMdesc p ↔ Live s.2 p := by
  refine (trace_inv (I := fun H hist => ∀ p, H.Uses b.sizeofMdesc p ↔ Live hist p) hpos hend hlen
    ?_ ?_ hrun).2
  · intro p
    refine ⟨?_, False.elim⟩
    rintro ⟨x, hx, -⟩
    cases hx
  · intro mm mm' e H hist h _ hlive he
    obtain ⟨H', h', harena, hacc⟩ := Call.accounts_of_exec hb h he.1 he.2
    exact ⟨harena, H', h', fun p => (hacc p).trans (or_congr_right (and_congr_left' (hlive p)))⟩

/-! ### What the queries answer -/

theorem HeapInv.miposMmIsIn_eq (h : HeapInv b base mm H) (p : ℕ) :
    ∃ found, miposMmIsIn b mm p = some found ∧ (found = true ↔ H.Uses b.sizeofMdesc p) := by
  refine ⟨_, by rw [miposMmIsIn, mmFindUsed_eq h, Option.map_some], ?_⟩
  rw [decide_eq_true_eq]
  rcases hfind : H.findUsed b.sizeofMdesc p with _ | x
  · have hno := Blocks.findUsed_none.mp hfind
    simp [ptrOf, hno]
  · obtain ⟨hx, hp⟩ := Blocks.findUsed_some hfind
    exact iff_of_true (h.addr_ne_zero (Blocks.mem_all_of_used hx)) ⟨x, hx, hp⟩

/-- A free that does not find the block does nothing. -/
theorem HeapInv.miposMmFree_of_not_uses (h : HeapInv b base mm H) {p : ℕ}
    (hp : ¬ H.Uses b.sizeofMdesc p) : miposMmFree b mm p = some (mm, false) := by
  rw [miposMmFree, mmFindUsed_eq h, Blocks.findUsed_none.mpr hp]
  rfl

theorem HeapInv.miposMmFree_of_uses (h : HeapInv b base mm H) {p : ℕ}
    (hp : H.Uses b.sizeofMdesc p) : ∃ mm', miposMmFree b mm p = some (mm', true) := by
  obtain ⟨mm', hrun, -⟩ := miposMmFree_sim h p
  have hfound : (H.freeAt b.sizeofMdesc p).2 = true := by
    rw [Blocks.freeAt]
    rcases hfind : H.findUsed b.sizeofMdesc p with _ | x
    · exact absurd hp (Blocks.findUsed_none.mp hfind)
    · rfl
  exact ⟨mm', hfound ▸ hrun⟩

/-- The size that the block at the pointer `p` takes up. -/
def blockBytes (b : Build) (mm : Mm) (p : ℕ) : ℕ :=
  mdescGetsize b mm.mem (p - b.sizeofMdesc) + b.sizeofMdesc

/-- The total over the used list, unless its counter overflows. -/
theorem HeapInv.miposMmGetUsedMemorySize_eq (h : HeapInv b base mm H) {ptrs : List ℕ}
    (hptrs : ptrs = H.used.map fun x => x.addr + b.sizeofMdesc) :
    miposMmGetUsedMemorySize b mm
      = if ptrs.length < 2 ^ 31 then some (ptrs.map (blockBytes b mm)).sum else none := by
  have hused := h.dbgPrintLoop_eq h.used_list (fun y hy => Blocks.mem_all_of_used hy) H.used []
    mm.fuel 0 0 rfl h.length_used_lt (by omega) (modulus_pos b)
  rw [← h.used_head, Nat.zero_add, Nat.zero_add] at hused
  have hbytes : (ptrs.map (blockBytes b mm)).sum
      = (H.used.map Block.size).sum + H.used.length * b.sizeofMdesc := by
    have hmap : ptrs.map (blockBytes b mm) = H.used.map fun x => x.size + b.sizeofMdesc := by
      rw [hptrs, List.map_map]
      refine List.map_congr_left fun x hx => ?_
      simp [blockBytes, h.size_eq x (Blocks.mem_all_of_used hx)]
    rw [hmap, List.sum_map_add, List.map_const', List.sum_replicate_nat]
  have hlen : ptrs.length = H.used.length := by rw [hptrs, List.length_map]
  rw [miposMmGetUsedMemorySize, hused, hlen, hbytes]
  by_cases hcount : H.used.length < 2 ^ 31
  · have hsum := h.tiled.sum_eq
    have hlt := h.base_end
    rw [if_pos hcount, if_pos hcount]
    show some _ = some _
    rw [Nat.add_mod_mod, Nat.mod_add_mod, Nat.mod_eq_of_lt (by omega)]
  · rw [if_neg hcount, if_neg hcount]
    rfl

/-! ### The results -/

/-- **The heap knows the live pointers**, in every run whose calls fit: `mipos_mm_is_in` and
`mipos_mm_free` find a pointer just when it is live, a free that finds none changes
nothing, and `mipos_mm_get_used_memory_size` is the total of the live blocks (as long as its
counter of type `int` does not overflow). -/
theorem live_pointers {m : Memory} {base len : ℕ} {mm : Mm} {hist : History} (hpos : 0 < base)
    (hend : base + len < Build.mipos64.modulus) (hlen : Build.mipos64.sizeofMdesc ≤ len)
    (hrun : ReflTransGen (TraceStep .mipos64 base (Call.Fits .mipos64))
      (miposMmInit .mipos64 m base len, []) (mm, hist)) :
    (∀ p, miposMmIsIn .mipos64 mm p = some (decide (Live hist p))) ∧
      (∀ p, Live hist p → ∃ mm', miposMmFree .mipos64 mm p = some (mm', true)) ∧
      (∀ p, ¬ Live hist p → miposMmFree .mipos64 mm p = some (mm, false)) ∧
      ∃ ptrs : List ℕ, ptrs.Nodup ∧ (∀ p, p ∈ ptrs ↔ Live hist p) ∧
        miposMmGetUsedMemorySize .mipos64 mm
          = if ptrs.length < 2 ^ 31 then some (ptrs.map (blockBytes .mipos64 mm)).sum else none := by
  obtain ⟨H, h, hlive⟩ := traced_inv splitSound_mipos64 hpos hend hlen hrun
  refine ⟨fun p => ?_, fun p hp => h.miposMmFree_of_uses ((hlive p).mpr hp),
    fun p hp => h.miposMmFree_of_not_uses fun huse => hp ((hlive p).mp huse),
    H.used.map fun x => x.addr + Build.mipos64.sizeofMdesc, ?_, fun p => ?_,
    h.miposMmGetUsedMemorySize_eq rfl⟩
  · obtain ⟨found, hfound, hiff⟩ := h.miposMmIsIn_eq p
    rw [hfound, Option.some_inj, Bool.eq_iff_iff, decide_eq_true_eq]
    exact hiff.trans (hlive p)
  · have hnodup : (H.used.map Block.addr).Nodup :=
      h.tiled.nodup_addr.sublist ((List.sublist_append_right _ _).map _)
    rw [show (fun x : Block => x.addr + Build.mipos64.sizeofMdesc)
      = (· + Build.mipos64.sizeofMdesc) ∘ Block.addr from rfl, ← List.map_map]
    exact hnodup.map fun _ _ hxy => Nat.add_right_cancel hxy
  · rw [← hlive p]
    simp [Blocks.Uses, eq_comm]

/-- A block is moved by a reallocation: the new pointer is found, the old one is not. -/
theorem live_pointers_moved :
    ∃ mm, ReflTransGen (TraceStep .mipos64 64 (Call.Fits .mipos64))
        (miposMmInit .mipos64 (fun _ => 0) 64 256, [])
        (mm, [(.realloc 308 40, 244), (.alloc 10, 308)]) ∧
      miposMmIsIn .mipos64 mm 244 = some true ∧ miposMmIsIn .mipos64 mm 308 = some false ∧
      miposMmFree .mipos64 mm 308 = some (mm, false) := by
  have heval : ∃ mm₁, Call.exec .mipos64 (miposMmInit .mipos64 (fun _ => 0) 64 256) (.alloc 10)
        = some (mm₁, 308) ∧
      ∃ mm₂, Call.exec .mipos64 mm₁ (.realloc 308 40) = some (mm₂, 244) := by decide +kernel
  obtain ⟨mm₁, hexec₁, mm₂, hexec₂⟩ := heval
  have hfits : (Call.realloc 308 40).Fits .mipos64 := Or.inr (by decide)
  have hrun : ReflTransGen (TraceStep .mipos64 64 (Call.Fits .mipos64))
      (miposMmInit .mipos64 (fun _ => 0) 64 256, [])
      (mm₂, [(.realloc 308 40, 244), (.alloc 10, 308)]) :=
    (ReflTransGen.single (TraceStep.call (.alloc 10) trivial hexec₁)).tail
      (TraceStep.call (.realloc 308 40) hfits hexec₂)
  obtain ⟨hin, -, hnot, -⟩ := live_pointers (by omega) (by decide) (by decide) hrun
  exact ⟨mm₂, hrun, hin 244, hin 308, hnot 308 (by decide)⟩

/-- **A reallocation to `2^64 - 1` bytes loses its own result**: the pointer it returned is
live and is not found, and the blocks in use take up no memory. -/
theorem oversized_realloc_not_found :
    ∃ mm, ReflTransGen (TraceStep .mipos64 64 fun _ => True)
        (miposMmInit .mipos64 (fun _ => 0) 64 256, [])
        (mm, [(.realloc 288 (2 ^ 64 - 1), 264), (.alloc 32, 288)]) ∧
      Live [(.realloc 288 (2 ^ 64 - 1), 264), (.alloc 32, 288)] 264 ∧
      miposMmIsIn .mipos64 mm 264 = some false ∧
      (∃ mm', miposMmFree .mipos64 mm 264 = some (mm', false)) ∧
      miposMmGetUsedMemorySize .mipos64 mm = some 0 := by
  have heval : ∃ mm₁, Call.exec .mipos64 (miposMmInit .mipos64 (fun _ => 0) 64 256) (.alloc 32)
        = some (mm₁, 288) ∧
      ∃ mm, Call.exec .mipos64 mm₁ (.realloc 288 (2 ^ 64 - 1)) = some (mm, 264) ∧
      miposMmIsIn .mipos64 mm 264 = some false ∧
      (∃ mm', miposMmFree .mipos64 mm 264 = some (mm', false)) ∧
      miposMmGetUsedMemorySize .mipos64 mm = some 0 := by decide +kernel
  obtain ⟨mm₁, hexec₁, mm, hexec₂, hstate⟩ := heval
  refine ⟨mm, ?_, by decide, hstate⟩
  exact (ReflTransGen.single (TraceStep.call (.alloc 32) trivial hexec₁)).tail
    (TraceStep.call (.realloc 288 (2 ^ 64 - 1)) trivial hexec₂)

end Malloc
