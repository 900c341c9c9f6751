/-
Full recovery of the 64-bit heap.

When the owners of all live blocks give them back, in any order, and the free
memory is compacted to the end, the heap is again as `mipos_mm_init` made it:
one free block over the whole arena (`OneFreeBlock`).

* `freeAll_sim` — each free finds its block, so no used block is left;
* `compact_unused` — compaction stops when no two free blocks touch, and a
  tiling of which no two members touch has one member;
* `full_recovery` — the two together, from every state of a run.

A run may not ask for so many bytes that rounding the request up wraps round
(`Call.Fits`): a reallocation would copy the old payload over the blocks behind
a new one of no size (`oversized_realloc_loses_block`).
-/
import Mipos.MallocRuns

namespace Malloc

open Tiling DoublyLinked Relation

/-- Free the blocks at `ptrs` one after the other, each of which is found. -/
def freeAll (b : Build) (mm : Mm) : List ℕ → Option Mm
  | [] => some mm
  | ptr :: ptrs => do
    let (mm, found) ← miposMmFree b mm ptr
    if found then freeAll b mm ptrs else none

/-- The heap right after `mipos_mm_init`: no used block and one free block at
the base, unlinked, of all the arena but its descriptor. -/
structure OneFreeBlock (b : Build) (base len : ℕ) (mm : Mm) : Prop where
  arena : mm.arenaSize = len
  used : mm.usedMemory = 0
  free : mm.freeMemory = base
  next : mdescNext b mm.mem base = 0
  prev : mdescPrev b mm.mem base = 0
  size : mdescGetsize b mm.mem base = len - b.sizeofMdesc

variable {b : Build} {base len : ℕ} {mm : Mm} {H : Blocks} {x : Block}

/-! ### Freeing every block -/

/-- **Every live block can be given back**, in any order. -/
theorem freeAll_sim : ∀ {ptrs : List ℕ} {mm : Mm} {H : Blocks}, HeapInv b base mm H →
    ptrs.Perm (H.used.map fun x => x.addr + b.sizeofMdesc) →
    ∃ mm' H', freeAll b mm ptrs = some mm' ∧ HeapInv b base mm' H' ∧ H'.used = [] ∧
      mm'.arenaSize = mm.arenaSize := by
  intro ptrs
  induction ptrs with
  | nil =>
    intro mm H h hperm
    exact ⟨mm, H, rfl, h, List.map_eq_nil_iff.mp hperm.nil_eq.symm, rfl⟩
  | cons ptr ptrs ih =>
    intro mm H h hperm
    obtain ⟨x, hx, rfl⟩ := List.mem_map.mp (hperm.mem_iff.mp List.mem_cons_self)
    obtain ⟨mm₁, hfree, hleaves⟩ := miposMmFree_sim h (x.addr + b.sizeofMdesc)
    rw [Blocks.freeAt, h.findUsed_eq hx] at hfree hleaves
    -- the other pointers are those of the blocks that stay
    have hrest : ptrs.Perm ((H.release x).used.map fun x => x.addr + b.sizeofMdesc) :=
      (hperm.trans ((List.perm_cons_erase hx).map _)).cons_inv
    obtain ⟨mm', H', hall, hinv, hused, harena⟩ := ih hleaves.inv hrest
    refine ⟨mm', H', ?_, hinv, hused, harena.trans hleaves.arena⟩
    rw [freeAll, hfree]
    exact hall

/-! ### Compacting what is left -/

theorem HeapInv.oneFreeBlock (h : HeapInv b base mm ⟨[⟨base, len - b.sizeofMdesc⟩], []⟩)
    (harena : mm.arenaSize = len) : OneFreeBlock b base len mm where
  arena := harena
  used := h.used_head
  free := h.free_head
  next := h.free_list.head_nx_eq
  prev := h.free_list.pv_head (by simp)
  size := h.size_eq ⟨base, len - b.sizeofMdesc⟩ (Blocks.mem_all_of_free (by simp))

/-- Free blocks that fill the arena and of which no two touch are one block. -/
theorem Blocks.Tiled.eq_one (h : H.Tiled b.sizeofMdesc base len) (hlen : 0 < len)
    (hused : H.used = []) (hgap : ∀ x ∈ H.free, ∀ y ∈ H.free, ¬ x.Touches b.sizeofMdesc y) :
    H = ⟨[⟨base, len - b.sizeofMdesc⟩], []⟩ := by
  have hall : H.all = H.free := by rw [Blocks.all, hused, List.append_nil]
  have hspans : H.free.map (Block.span b.sizeofMdesc) = [(base, len)] := by
    rw [Blocks.Tiled, hall] at h
    refine h.eq_single hlen ?_
    intro p hp q hq htouch
    obtain ⟨x, hx, rfl⟩ := List.mem_map.mp hp
    obtain ⟨y, hy, rfl⟩ := List.mem_map.mp hq
    refine hgap x hx y hy ⟨?_, Or.inr htouch⟩
    rintro rfl
    have hmdesc := b.sizeofMdesc_pos
    unfold Block.span at htouch
    omega
  obtain ⟨x, hfree, hspan⟩ := List.map_eq_singleton_iff.mp hspans
  rw [Block.span, Prod.mk.injEq] at hspan
  have hx : x = ⟨base, len - b.sizeofMdesc⟩ := by
    rcases x with ⟨addr, size⟩
    simp only at hspan
    rw [Block.mk.injEq]
    omega
  rcases H with ⟨free, used⟩
  rw [show free = [x] from hfree, hx, show used = [] from hused]

/-- **Compaction of an unused heap** fuses everything. -/
theorem compact_unused (h : HeapInv b base mm H) (hlen : b.sizeofMdesc ≤ mm.arenaSize)
    (hused : H.used = []) :
    ∃ mm' r, miposMmCompactFreemem b mm 0 = some (mm', r) ∧
      OneFreeBlock b base mm.arenaSize mm' := by
  obtain ⟨mm', r, H', hrun, hc, -⟩ := miposMmCompactFreemem_sim h 0
  refine ⟨mm', r, hrun, ?_⟩
  -- asked for no bytes in particular, the loop stops only at the end of the list
  have hgap := hc.done.resolve_right fun hmore => hmore.1 rfl
  have harena := hc.leaves.arena
  have hpos := b.sizeofMdesc_pos
  have htiled := hc.leaves.inv.tiled
  rw [harena] at htiled
  have hone := htiled.eq_one (by omega) (hc.used_eq.trans hused) hgap
  exact HeapInv.oneFreeBlock (hone ▸ hc.leaves.inv) harena

/-! ### Runs -/

/-- **Full recovery**: from every state of a run whose calls fit, the pointers
to the live blocks can be freed in any order, and compaction then gives the
heap that `mipos_mm_init` makes. -/
theorem full_recovery {m : Memory} {base len : ℕ} {mm : Mm} {used ptrs : List ℕ} (hpos : 0 < base)
    (hend : base + len < Build.mipos64.modulus) (hlen : Build.mipos64.sizeofMdesc ≤ len)
    (hrun : ReflTransGen (StepWhere .mipos64 base (Call.Fits .mipos64))
      (miposMmInit .mipos64 m base len) mm)
    (hused : StoredList .mipos64 mm.mem mm.usedMemory used)
    (hptrs : ptrs.Perm (used.map (mdescGetDataAddr .mipos64))) :
    ∃ mm₁ mm' r, freeAll .mipos64 mm ptrs = some mm₁ ∧
      miposMmCompactFreemem .mipos64 mm₁ 0 = some (mm', r) ∧
      OneFreeBlock .mipos64 base len mm' ∧
      OneFreeBlock .mipos64 base len (miposMmInit .mipos64 m base len) := by
  obtain ⟨harena, H, h⟩ := runWhere_inv splitSound_mipos64 (fun _ => id) hpos hend hlen hrun
  have hpayloads : used.map (mdescGetDataAddr .mipos64)
      = H.used.map fun x => x.addr + Build.mipos64.sizeofMdesc := by
    rw [hused.unique h.stored_used, List.map_map]
    exact List.map_congr_left fun x hx => h.dataAddr_eq (Blocks.mem_all_of_used hx)
  obtain ⟨mm₁, H₁, hfree, hinv, hnone, harena₁⟩ := freeAll_sim h (hpayloads ▸ hptrs)
  have hlen₁ : mm₁.arenaSize = len := harena₁.trans harena
  obtain ⟨mm', r, hcompact, hone⟩ := compact_unused hinv (hlen₁ ▸ hlen) hnone
  exact ⟨mm₁, mm', r, hfree, hcompact, hlen₁ ▸ hone,
    (miposMmInit_inv m hpos hend hlen).oneFreeBlock rfl⟩

/-- Two blocks, given back in the order in which they were allocated. -/
theorem full_recovery_two_blocks :
    ∃ mm₁ mm₂ mm₃ mm₄ r,
      Call.exec .mipos64 (miposMmInit .mipos64 (fun _ => 0) 64 256) (.alloc 10)
        = some (mm₁, 308) ∧
      Call.exec .mipos64 mm₁ (.alloc 20) = some (mm₂, 264) ∧
      freeAll .mipos64 mm₂ [308, 264] = some mm₃ ∧
      miposMmCompactFreemem .mipos64 mm₃ 0 = some (mm₄, r) ∧
      OneFreeBlock .mipos64 64 256 mm₄ := by
  have heval : ∃ mm₁, Call.exec .mipos64 (miposMmInit .mipos64 (fun _ => 0) 64 256) (.alloc 10)
        = some (mm₁, 308) ∧
      ∃ mm₂, Call.exec .mipos64 mm₁ (.alloc 20) = some (mm₂, 264) ∧
      StoredList .mipos64 mm₂.mem mm₂.usedMemory [284, 240] := by decide +kernel
  obtain ⟨mm₁, hexec₁, mm₂, hexec₂, hused⟩ := heval
  have hrun : ReflTransGen (StepWhere .mipos64 64 (Call.Fits .mipos64))
      (miposMmInit .mipos64 (fun _ => 0) 64 256) mm₂ :=
    (ReflTransGen.single (StepWhere.call (.alloc 10) trivial hexec₁)).tail
      (StepWhere.call (.alloc 20) trivial hexec₂)
  have hptrs : [308, 264].Perm ([284, 240].map (mdescGetDataAddr .mipos64)) := by decide
  obtain ⟨mm₃, mm₄, r, hfree, hcompact, hone, -⟩ := full_recovery (by omega) (by decide)
    (by decide) hrun hused hptrs
  exact ⟨mm₁, mm₂, mm₃, mm₄, r, hexec₁, hexec₂, hfree, hcompact, hone⟩

/-- **A reallocation to `2^64 - 1` bytes** is given a block of no size and
copies the old payload over the descriptor of the old block.  The used list is
then empty, the pointer it returned is not found, and compaction does not give
the arena back. -/
theorem oversized_realloc_loses_block :
    ∃ mm₁ mm mm' r,
      Call.exec .mipos64 (miposMmInit .mipos64 (fun _ => 0) 64 256) (.alloc 32)
        = some (mm₁, 288) ∧
      Call.exec .mipos64 mm₁ (.realloc 288 (2 ^ 64 - 1)) = some (mm, 264) ∧
      ReflTransGen (StepWhere .mipos64 64 fun _ => True)
        (miposMmInit .mipos64 (fun _ => 0) 64 256) mm ∧
      StoredList .mipos64 mm.mem mm.usedMemory [] ∧
      freeAll .mipos64 mm [264] = none ∧
      miposMmCompactFreemem .mipos64 mm 0 = some (mm', r) ∧
      ¬ OneFreeBlock .mipos64 64 256 mm' := by
  have heval : ∃ mm₁, Call.exec .mipos64 (miposMmInit .mipos64 (fun _ => 0) 64 256) (.alloc 32)
        = some (mm₁, 288) ∧
      ∃ mm, Call.exec .mipos64 mm₁ (.realloc 288 (2 ^ 64 - 1)) = some (mm, 264) ∧
      StoredList .mipos64 mm.mem mm.usedMemory [] ∧ freeAll .mipos64 mm [264] = none ∧
      ∃ p₃, miposMmCompactFreemem .mipos64 mm 0 = some p₃ ∧
      mdescGetsize .mipos64 p₃.1.mem 64 = 152 := by decide +kernel
  obtain ⟨mm₁, hexec₁, mm, hexec₂, hused, hlost, ⟨mm', r⟩, hcompact, hsize⟩ := heval
  refine ⟨mm₁, mm, mm', r, hexec₁, hexec₂, ?_, hused, hlost, hcompact, ?_⟩
  · exact (ReflTransGen.single (StepWhere.call (.alloc 32) trivial hexec₁)).tail
      (StepWhere.call (.realloc 288 (2 ^ 64 - 1)) trivial hexec₂)
  · intro hone
    exact absurd (hsize.symm.trans hone.size) (by decide)

end Malloc
