/-
When an allocation of the 64-bit heap fails.

The free blocks fall into maximal runs of blocks that follow each other in memory
(`FreeRun`); merged into one, a run has room for its `capacity`.  Compaction keeps the free
bytes as they are and ends with enough bytes in one block, or with blocks of which no two
touch; so what it leaves are the runs.

* `Blocks.Tiled.room_of_block`, `Blocks.Tiled.block_of_room` — a run is large enough just
  if a block is, once no two touch;
* `compaction_complete` — compaction ends, keeps the used list and the free bytes, and
  leaves no two free blocks next to each other unless it has the bytes it was asked for;
* `alloc_null_iff` — `mipos_mm_alloc` returns null just if no run is large enough;
* `compaction_hangs`, `alloc_hangs` — unless an oversized reallocation has tied the free
  list to a ring.
-/
import Mipos.MallocRuns

namespace Malloc

open Tiling DoublyLinked Relation

/-! ### Runs of free blocks -/

/-- There is a maximal run of free blocks that has room for `n` bytes and a descriptor. -/
def Blocks.Room (hdr n : ℕ) (H : Blocks) : Prop :=
  ∃ s l e, MaxRun (H.free.map (Block.span hdr)) s l e ∧ s + (hdr + n) ≤ e

section Room

variable {hdr base len n : ℕ} {H H' : Blocks} {x : Block}

theorem Blocks.Tiled.free_unique (h : H.Tiled hdr base len) :
    ∀ p ∈ H.free.map (Block.span hdr), ∀ q ∈ H.free.map (Block.span hdr), ∀ a,
      Holds p a → Holds q a → p = q := by
  intro p hp q hq a hpa hqa
  obtain ⟨x, hx, rfl⟩ := List.mem_map.mp hp
  obtain ⟨y, hy, rfl⟩ := List.mem_map.mp hq
  rw [h.eq_of_holds (List.mem_append_left _ hx) (List.mem_append_left _ hy) hpa hqa]

theorem Blocks.freeByte_iff {a : ℕ} :
    H.FreeByte hdr a ↔ ∃ p ∈ H.free.map (Block.span hdr), Holds p a := by
  simp [Blocks.FreeByte]

/-- A free block is inside a run of the same free bytes. -/
theorem Blocks.Tiled.room_of_block (h : H.Tiled hdr base len)
    (h' : H'.Tiled hdr base len) (hbytes : ∀ a, H'.FreeByte hdr a ↔ H.FreeByte hdr a)
    (hx : x ∈ H'.free) (hn : n ≤ x.size) : H.Room hdr n := by
  have hx0 := h'.span_pos (List.mem_append_left _ hx)
  -- all bytes of the block are free in `H`
  have hcover : ∀ a, x.addr ≤ a → a < x.addr + (hdr + x.size) →
      ∃ p ∈ H.free.map (Block.span hdr), Holds p a := by
    intro a hlo hhi
    exact Blocks.freeByte_iff.mp ((hbytes a).mp ⟨x, hx, hlo, hhi⟩)
  obtain ⟨p, hp, hpx⟩ := hcover x.addr (le_refl _) (by omega)
  have hpos : ∀ q ∈ H.free.map (Block.span hdr), 0 < q.2 := by
    intro q hq
    obtain ⟨y, hy, rfl⟩ := List.mem_map.mp hq
    exact h.span_pos (List.mem_append_left _ hy)
  have hbound : ∀ q ∈ H.free.map (Block.span hdr), q.1 + q.2 ≤ base + len := by
    intro q hq
    obtain ⟨y, hy, rfl⟩ := List.mem_map.mp hq
    exact (h.inside (List.mem_append_left _ hy)).2
  obtain ⟨s, l, e, hrun, hpl⟩ := exists_maxRun hpos hbound hp
  have hin := hrun.joined.inside hpl
  unfold Holds at hpx
  obtain ⟨hs, he⟩ := hrun.contains h.free_unique hcover (le_refl x.addr) (by omega)
    (by omega) (by omega)
  exact ⟨s, l, e, hrun, by omega⟩

/-- A run is inside a block of the same free bytes, when no two blocks touch. -/
theorem Blocks.Tiled.block_of_room (hhdr : 0 < hdr) (h' : H'.Tiled hdr base len)
    (hbytes : ∀ a, H'.FreeByte hdr a ↔ H.FreeByte hdr a)
    (hgap : ∀ x ∈ H'.free, ∀ y ∈ H'.free, ¬ x.Touches hdr y) (hroom : H.Room hdr n) :
    ∃ x ∈ H'.free, n ≤ x.size := by
  obtain ⟨s, l, e, hrun, hlen⟩ := hroom
  have hcover : ∀ a, s ≤ a → a < e → ∃ p ∈ H'.free.map (Block.span hdr), Holds p a := by
    intro a hlo hhi
    obtain ⟨p, hp, hpa⟩ := hrun.joined.cover hlo hhi
    exact Blocks.freeByte_iff.mp ((hbytes a).mpr (Blocks.freeByte_iff.mpr ⟨p, hrun.mem p hp, hpa⟩))
  obtain ⟨p, hp, hps⟩ := hcover s (le_refl _) (by omega)
  obtain ⟨x, hx, rfl⟩ := List.mem_map.mp hp
  -- a block that touches no other is a maximal run
  have hone :
      MaxRun (H'.free.map (Block.span hdr)) x.addr [x.span hdr] (x.addr + (hdr + x.size)) := by
    refine ⟨⟨rfl, rfl⟩, by simp, by simpa using hp, ?_, ?_⟩
    · intro q hq
      obtain ⟨y, hy, rfl⟩ := List.mem_map.mp hq
      intro hleft
      refine hgap x hx y hy ⟨?_, Or.inl hleft⟩
      rintro rfl
      simp only [Block.span] at hleft
      omega
    · intro q hq
      obtain ⟨y, hy, rfl⟩ := List.mem_map.mp hq
      intro hright
      refine hgap x hx y hy ⟨?_, Or.inr hright.symm⟩
      rintro rfl
      simp only [Block.span] at hright
      omega
  simp only [Holds, Block.span] at hps
  obtain ⟨hlo, hhi⟩ := hone.contains h'.free_unique hcover (le_refl s) (by omega) hps.1 hps.2
  exact ⟨x, hx, by omega⟩

end Room

/-! ### The runs, as the memory shows them -/

/-- The extent of a descriptor. -/
def extent (b : Build) (mm : Mm) (d : ℕ) : Span := (d, b.sizeofMdesc + mdescGetsize b mm.mem d)

/-- The free blocks `l` follow each other from `s` to `e`, and no other free block comes
before or after them. -/
structure FreeRun (b : Build) (mm : Mm) (s : ℕ) (l : List ℕ) (e : ℕ) : Prop where
  adjacent : Joined s (l.map (extent b mm)) e
  nonempty : l ≠ []
  free : ∀ d ∈ l, FreeDesc b mm d
  left : ∀ d, FreeDesc b mm d → d + (b.sizeofMdesc + mdescGetsize b mm.mem d) ≠ s
  right : ∀ d, FreeDesc b mm d → d ≠ e

/-- The sizes of the blocks, and a descriptor for each boundary between two of them. -/
def capacity (b : Build) (mm : Mm) (l : List ℕ) : ℕ :=
  (l.map (mdescGetsize b mm.mem)).sum + (l.length - 1) * b.sizeofMdesc

variable {b : Build} {base n : ℕ} {mm : Mm} {H : Blocks}

/-- A run is as long as its capacity and one descriptor. -/
theorem FreeRun.end_eq {s e : ℕ} {l : List ℕ} (h : FreeRun b mm s l e) :
    e = s + (b.sizeofMdesc + capacity b mm l) := by
  have hsum : ((l.map (extent b mm)).map Prod.snd).sum
      = l.length * b.sizeofMdesc + (l.map (mdescGetsize b mm.mem)).sum := by
    rw [List.map_map]
    show (l.map fun d => b.sizeofMdesc + mdescGetsize b mm.mem d).sum = _
    rw [List.sum_map_add, List.map_const', List.sum_replicate_nat]
  rw [h.adjacent.end_eq, hsum, capacity]
  obtain ⟨k, hk⟩ : ∃ k, l.length = k + 1 :=
    Nat.exists_eq_succ_of_ne_zero (by simpa using h.nonempty)
  rw [hk, Nat.succ_mul, Nat.add_sub_cancel]
  omega

theorem HeapInv.extent_eq (h : HeapInv b base mm H) {x : Block} (hx : x ∈ H.free) :
    extent b mm x.addr = x.span b.sizeofMdesc := by
  rw [extent, h.size_eq x (Blocks.mem_all_of_free hx), Block.span]

/-- The runs in memory are the runs of the heap. -/
theorem HeapInv.freeRun_iff (h : HeapInv b base mm H) {s e : ℕ} {l : List ℕ} :
    FreeRun b mm s l e ↔
      MaxRun (H.free.map (Block.span b.sizeofMdesc)) s (l.map (extent b mm)) e ∧
        ∀ d ∈ l, FreeDesc b mm d := by
  constructor
  · intro hrun
    refine ⟨⟨hrun.adjacent, by simpa using hrun.nonempty, ?_, ?_, ?_⟩, hrun.free⟩
    · intro p hp
      obtain ⟨d, hd, rfl⟩ := List.mem_map.mp hp
      obtain ⟨x, hx, rfl⟩ := h.freeDesc_iff.mp (hrun.free d hd)
      exact List.mem_map.mpr ⟨x, hx, (h.extent_eq hx).symm⟩
    · intro p hp
      obtain ⟨x, hx, rfl⟩ := List.mem_map.mp hp
      rw [← h.extent_eq hx]
      exact hrun.left x.addr (h.freeDesc_iff.mpr ⟨x, hx, rfl⟩)
    · intro p hp
      obtain ⟨x, hx, rfl⟩ := List.mem_map.mp hp
      exact hrun.right x.addr (h.freeDesc_iff.mpr ⟨x, hx, rfl⟩)
  · rintro ⟨hrun, hfree⟩
    refine ⟨hrun.joined, by simpa using hrun.nonempty, hfree, ?_, ?_⟩
    · intro d hd
      obtain ⟨x, hx, rfl⟩ := h.freeDesc_iff.mp hd
      have hleft := hrun.left _ (List.mem_map_of_mem hx)
      rwa [← h.extent_eq hx] at hleft
    · intro d hd
      obtain ⟨x, hx, rfl⟩ := h.freeDesc_iff.mp hd
      exact hrun.right _ (List.mem_map_of_mem hx)

/-- A run with room for `n` bytes, as the memory shows it. -/
theorem HeapInv.room_iff (h : HeapInv b base mm H) :
    H.Room b.sizeofMdesc n ↔ ∃ s l e, FreeRun b mm s l e ∧ n ≤ capacity b mm l := by
  constructor
  · rintro ⟨s, l, e, hrun, hlen⟩
    -- the descriptors of the run
    have hmem : ∀ p ∈ l, extent b mm p.1 = p ∧ FreeDesc b mm p.1 := by
      intro p hp
      obtain ⟨x, hx, rfl⟩ := List.mem_map.mp (hrun.mem p hp)
      exact ⟨h.extent_eq hx, h.freeDesc_iff.mpr ⟨x, hx, rfl⟩⟩
    have hextents : (l.map Prod.fst).map (extent b mm) = l := by
      rw [List.map_map]
      exact (List.map_congr_left fun p hp => (hmem p hp).1).trans (List.map_id l)
    have hfreeRun : FreeRun b mm s (l.map Prod.fst) e := by
      refine h.freeRun_iff.mpr ⟨hextents.symm ▸ hrun, fun d hd => ?_⟩
      obtain ⟨p, hp, rfl⟩ := List.mem_map.mp hd
      exact (hmem p hp).2
    have hend := hfreeRun.end_eq
    exact ⟨s, l.map Prod.fst, e, hfreeRun, by omega⟩
  · rintro ⟨s, l, e, hrun, hn⟩
    have hend := hrun.end_eq
    exact ⟨s, _, e, (h.freeRun_iff.mp hrun).1, by omega⟩

/-! ### Compaction -/

/-- The free bytes, as the memory shows them. -/
theorem HeapInv.freeByte_iff (h : HeapInv b base mm H) {a : ℕ} :
    H.FreeByte b.sizeofMdesc a ↔ ∃ d, FreeDesc b mm d ∧ ExtentByte b mm d a := by
  have hextent : ∀ x ∈ H.free, (ExtentByte b mm x.addr a ↔ Holds (x.span b.sizeofMdesc) a) := by
    intro x hx
    rw [ExtentByte, h.size_eq x (Blocks.mem_all_of_free hx), Holds, Block.span, Nat.add_assoc]
  constructor
  · rintro ⟨x, hx, hxa⟩
    exact ⟨x.addr, h.freeDesc_iff.mpr ⟨x, hx, rfl⟩, (hextent x hx).mpr hxa⟩
  · rintro ⟨d, hd, hda⟩
    obtain ⟨x, hx, rfl⟩ := h.freeDesc_iff.mp hd
    exact ⟨x, hx, (hextent x hx).mp hda⟩

/-- Blocks of which no two touch, as the memory shows them. -/
theorem HeapInv.apart_of_not_touches (h : HeapInv b base mm H)
    (hgap : ∀ x ∈ H.free, ∀ y ∈ H.free, ¬ x.Touches b.sizeofMdesc y) {d e : ℕ}
    (hd : FreeDesc b mm d) (he : FreeDesc b mm e) :
    d + b.sizeofMdesc + mdescGetsize b mm.mem d ≠ e := by
  obtain ⟨x, hx, rfl⟩ := h.freeDesc_iff.mp hd
  obtain ⟨y, hy, rfl⟩ := h.freeDesc_iff.mp he
  rw [h.size_eq x (Blocks.mem_all_of_free hx)]
  intro hadj
  refine hgap x hx y hy ⟨?_, Or.inr (by omega)⟩
  rintro rfl
  have := b.sizeofMdesc_pos
  omega

/-- **Compaction returns and is complete**, in every run whose calls fit: it leaves the used list
and the free bytes as they are, and no two free blocks next to each other, unless it stops with the
bytes it was asked for. -/
theorem compaction_complete {m : Memory} {base len : ℕ} {mm : Mm} (hpos : 0 < base)
    (hend : base + len < Build.mipos64.modulus) (hlen : Build.mipos64.sizeofMdesc ≤ len)
    (hrun : ReflTransGen (StepWhere .mipos64 base (Call.Fits .mipos64))
      (miposMmInit .mipos64 m base len) mm) (bytesNeeded : ℕ) :
    ∃ mm' r, miposMmCompactFreemem .mipos64 mm bytesNeeded = some (mm', r) ∧
      (∃ used, StoredList .mipos64 mm.mem mm.usedMemory used ∧
        StoredList .mipos64 mm'.mem mm'.usedMemory used ∧
        ∀ d ∈ used, mdescGetsize .mipos64 mm'.mem d = mdescGetsize .mipos64 mm.mem d) ∧
      (∀ a, (∃ d, FreeDesc .mipos64 mm' d ∧ ExtentByte .mipos64 mm' d a) ↔
        ∃ d, FreeDesc .mipos64 mm d ∧ ExtentByte .mipos64 mm d a) ∧
      (bytesNeeded = 0 ∨ r < bytesNeeded → ∀ d e, FreeDesc .mipos64 mm' d →
        FreeDesc .mipos64 mm' e →
          d + Build.mipos64.sizeofMdesc + mdescGetsize .mipos64 mm'.mem d ≠ e) := by
  obtain ⟨-, H, h⟩ := runWhere_inv splitSound_mipos64 (fun _ => id) hpos hend hlen hrun
  obtain ⟨mm', r, H', hcompact, hc, hf⟩ := miposMmCompactFreemem_sim h bytesNeeded
  have h' := hc.leaves.inv
  refine ⟨mm', r, hcompact, ⟨_, h.stored_used, hc.used_eq ▸ h'.stored_used, ?_⟩, ?_, ?_⟩
  · intro d hd
    obtain ⟨x, hx, rfl⟩ := List.mem_map.mp hd
    rw [h.size_eq x (Blocks.mem_all_of_used hx),
      h'.size_eq x (Blocks.mem_all_of_used (hc.used_eq.symm ▸ hx))]
  · intro a
    rw [← h.freeByte_iff, ← h'.freeByte_iff]
    exact hf.bytes a
  · intro hless d e hd he
    rcases hc.done with hgap | ⟨hne, hle⟩
    · exact h'.apart_of_not_touches hgap hd he
    · omega

/-- Four blocks are allocated, and the first two are given back: they lie next to each other at the
end of the heap, and are not merged. -/
theorem fragmented_reached :
    ∃ mm, ReflTransGen (StepWhere .mipos64 64 (Call.Fits .mipos64))
        (miposMmInit .mipos64 (fun _ => 0) 64 256) mm ∧
      StoredList .mipos64 mm.mem mm.freeMemory [64, 240, 284] ∧
      StoredList .mipos64 mm.mem mm.usedMemory [124, 208] ∧
      mdescGetsize .mipos64 mm.mem 240 = 20 ∧
      (∃ mm', miposMmAlloc .mipos64 mm 40 = some (mm', 264)) ∧
      ∃ mm', miposMmAlloc .mipos64 mm 60 = some (mm', 0) := by
  have heval : ∃ mm, Call.execAll .mipos64 (miposMmInit .mipos64 (fun _ => 0) 64 256) [.alloc 10,
        .alloc 20, .alloc 8, .alloc 60, .free 308, .free 264] = some mm ∧
      StoredList .mipos64 mm.mem mm.freeMemory [64, 240, 284] ∧
      StoredList .mipos64 mm.mem mm.usedMemory [124, 208] ∧ mdescGetsize .mipos64 mm.mem 240 = 20 ∧
      (∃ mm', miposMmAlloc .mipos64 mm 40 = some (mm', 264)) ∧
      ∃ mm', miposMmAlloc .mipos64 mm 60 = some (mm', 0) := by decide +kernel
  obtain ⟨mm, hexec, hheap⟩ := heval
  exact ⟨mm, Call.execAll_run (by decide) hexec, hheap⟩

/-- In that heap compaction merges the two blocks at the end, and keeps the block before them. -/
theorem compaction_complete_fragmented :
    ∃ mm mm' r, ReflTransGen (StepWhere .mipos64 64 (Call.Fits .mipos64))
        (miposMmInit .mipos64 (fun _ => 0) 64 256) mm ∧
      FreeDesc .mipos64 mm 240 ∧ FreeDesc .mipos64 mm 284 ∧
      240 + Build.mipos64.sizeofMdesc + mdescGetsize .mipos64 mm.mem 240 = 284 ∧
      miposMmCompactFreemem .mipos64 mm 0 = some (mm', r) ∧ LiveDesc .mipos64 mm' 208 ∧
      (∃ d, FreeDesc .mipos64 mm' d ∧ ExtentByte .mipos64 mm' d 240) ∧
      ∀ d e, FreeDesc .mipos64 mm' d → FreeDesc .mipos64 mm' e →
        d + Build.mipos64.sizeofMdesc + mdescGetsize .mipos64 mm'.mem d ≠ e := by
  obtain ⟨mm, hrun, hfree, hused, hsize, -⟩ := fragmented_reached
  obtain ⟨mm', r, hexec, ⟨used, hstored, hstored', -⟩, hbytes, hgap⟩ :=
    compaction_complete (by omega) (by decide) (by decide) hrun 0
  obtain rfl := hstored.unique hused
  have h240 : FreeDesc .mipos64 mm 240 := ⟨_, hfree, by decide⟩
  refine ⟨mm, mm', r, hrun, h240, ⟨_, hfree, by decide⟩, by rw [hsize]; rfl, hexec,
    ⟨_, hstored', by decide⟩, (hbytes 240).mpr ⟨240, h240, le_refl _, ?_⟩, hgap (Or.inl rfl)⟩
  have := Build.mipos64.sizeofMdesc_pos
  omega

/-! ### Allocation -/

/-- Compaction that was started because no block is large enough makes one, if a run is. -/
theorem Compacted.enough {mm' : Mm} {r : ℕ} {H' : Blocks}
    (hc : Compacted b base n H mm mm' r H') (hf : Fused b.sizeofMdesc n H r H')
    (hsmall : ∀ y ∈ H.free, y.size < n) (hroom : H.Room b.sizeofMdesc n) :
    n ≤ r := by
  by_contra hless
  have htiled := hc.leaves.inv.tiled
  rcases hc.done with hgap | ⟨-, hle⟩
  · obtain ⟨x, hx, hnx⟩ := Blocks.Tiled.block_of_room b.sizeofMdesc_pos htiled hf.bytes hgap hroom
    have hx' := (hf.small hsmall).resolve_left hless x hx
    omega
  · exact hless hle

/-- **An allocation returns null just if no run is large enough.** -/
theorem miposMmAlloc_null_iff (hb : b.SplitSound) (h : HeapInv b base mm H) {size : ℕ}
    (hsize : size ≠ 0) (hn : 0 < alignedSize b size) :
    ∃ mm' r, miposMmAlloc b mm size = some (mm', r) ∧
      (r = 0 ↔ ¬ H.Room b.sizeofMdesc (alignedSize b size)) := by
  obtain ⟨mm', r, H', hrun, -, -, hsource, -⟩ := miposMmAlloc_cases h (hb.allocSound h size) hsize
  refine ⟨mm', r, hrun, ?_⟩
  rcases hsource with ⟨hr, x, hx, hnx⟩ | ⟨mm₂, bytes, H₂, hsmall, hc, hf, hsome, hnone⟩
  · have hroom := h.tiled.room_of_block h.tiled (fun _ => Iff.rfl) hx hnx
    exact iff_of_false hr fun hno => hno hroom
  have htiled := hc.leaves.inv.tiled
  rw [hc.leaves.arena] at htiled
  constructor
  · intro hr hroom
    have henough := hc.enough hf hsmall hroom
    -- the block that compaction reports is there for the second attempt
    obtain hzero | ⟨x, hx, hxr⟩ := hc.size
    · omega
    · rcases hnone hr with hless | hless
      · omega
      · have := hless x hx
        omega
  · intro hno
    by_contra hr
    obtain ⟨x, hx, hnx⟩ := hsome hr
    exact hno (h.tiled.room_of_block htiled hf.bytes hx hnx)

/-- An attempt that finds no block has looked at blocks that are all too small. -/
theorem mmAllocAux_null {mm' : Mm} (hb : b.SplitSound) (h : HeapInv b base mm H)
    (hnull : mmAllocAux b mm n = some (mm', 0)) : ∀ y ∈ H.free, y.size < n := by
  obtain ⟨mm₁, o, H₁, hrun, hleaves, ⟨rfl, -, hsmall⟩ | ⟨x, rfl, -, hused, -⟩, -⟩ :=
    mmAllocAux_result h (hb.room h n)
  · exact hsmall
  · rw [hrun, Option.some_inj, Prod.mk.injEq] at hnull
    exact absurd hnull.2 (hleaves.inv.pushed_block hused).1

/-- **An allocation fails only for lack of contiguous space**, in every run whose calls fit:
it returns null just if no maximal run of free blocks has the capacity for the size rounded
up.  The compaction after a failed first attempt makes a large enough block whenever a run
has that capacity. -/
theorem alloc_null_iff {m : Memory} {base len size : ℕ} {mm : Mm} (hpos : 0 < base)
    (hend : base + len < Build.mipos64.modulus) (hlen : Build.mipos64.sizeofMdesc ≤ len)
    (hrun : ReflTransGen (StepWhere .mipos64 base (Call.Fits .mipos64))
      (miposMmInit .mipos64 m base len) mm)
    (hsize : 1 ≤ size) (hrange : size + 4 ≤ Build.mipos64.modulus) :
    (∃ mm' r, miposMmAlloc .mipos64 mm size = some (mm', r) ∧
      (r = 0 ↔ ∀ s l e, FreeRun .mipos64 mm s l e →
        capacity .mipos64 mm l < (size + 3) / 4 * 4)) ∧
      ∀ mm₁, mmAllocAux .mipos64 mm ((size + 3) / 4 * 4) = some (mm₁, 0) →
        ∃ mm₂ bytes, miposMmCompactFreemem .mipos64 mm ((size + 3) / 4 * 4) = some (mm₂, bytes) ∧
          ((∃ s l e, FreeRun .mipos64 mm s l e ∧ (size + 3) / 4 * 4 ≤ capacity .mipos64 mm l) →
            (size + 3) / 4 * 4 ≤ bytes ∧ ∃ d, FreeDesc .mipos64 mm₂ d ∧
              (size + 3) / 4 * 4 ≤ mdescGetsize .mipos64 mm₂.mem d) := by
  obtain ⟨-, H, h⟩ := runWhere_inv splitSound_mipos64 (fun _ => id) hpos hend hlen hrun
  have hn : alignedSize .mipos64 size = (size + 3) / 4 * 4 := by
    rw [alignedSize, Nat.mod_eq_of_lt (by omega)]
  rw [← hn]
  have hn0 : 0 < alignedSize .mipos64 size := by
    rw [hn]
    omega
  refine ⟨?_, fun mm₁ hnull => ?_⟩
  · obtain ⟨mm', r, halloc, hiff⟩ :=
      miposMmAlloc_null_iff splitSound_mipos64 h (Nat.ne_of_gt hsize) hn0
    refine ⟨mm', r, halloc, hiff.trans ?_⟩
    rw [h.room_iff]
    constructor
    · exact fun hno s l e hfree => not_le.mp fun hle => hno ⟨s, l, e, hfree, hle⟩
    · rintro hall ⟨s, l, e, hfree, hle⟩
      exact absurd hle (not_le.mpr (hall s l e hfree))
  · obtain ⟨mm₂, bytes, H₂, hcompact, hc, hf⟩ :=
      miposMmCompactFreemem_sim h (alignedSize .mipos64 size)
    refine ⟨mm₂, bytes, hcompact, fun hfree => ?_⟩
    have henough := hc.enough hf (mmAllocAux_null splitSound_mipos64 h hnull)
      (h.room_iff.mpr hfree)
    obtain hzero | ⟨x, hx, hxr⟩ := hc.size
    · omega
    · refine ⟨henough, x.addr, hc.leaves.inv.freeDesc_iff.mpr ⟨x, hx, rfl⟩, ?_⟩
      rw [hc.leaves.inv.size_eq x (Blocks.mem_all_of_free hx), hxr]
      exact henough

/-- In the fragmented heap no run has room for 60 bytes, though more are free.  One has room for 40,
in no single block, and they are allocated. -/
theorem alloc_null_iff_fragmented :
    ∃ mm, ReflTransGen (StepWhere .mipos64 64 (Call.Fits .mipos64))
        (miposMmInit .mipos64 (fun _ => 0) 64 256) mm ∧
      (∃ mm', miposMmAlloc .mipos64 mm 60 = some (mm', 0)) ∧
      (∀ s l e, FreeRun .mipos64 mm s l e → capacity .mipos64 mm l < 60) ∧
      (∃ mm', miposMmAlloc .mipos64 mm 40 = some (mm', 264)) ∧
      ∃ s l e, FreeRun .mipos64 mm s l e ∧ 40 ≤ capacity .mipos64 mm l := by
  obtain ⟨mm, hrun, -, -, -, ⟨mm₁, hsome⟩, mm₂, hnull⟩ := fragmented_reached
  obtain ⟨⟨_, _, hexec₁, hiff₁⟩, -⟩ := alloc_null_iff (by omega) (by decide) (by decide) hrun
    (show 1 ≤ 40 by omega) (by decide)
  obtain ⟨⟨_, _, hexec₂, hiff₂⟩, -⟩ := alloc_null_iff (by omega) (by decide) (by decide) hrun
    (show 1 ≤ 60 by omega) (by decide)
  obtain ⟨-, rfl⟩ := Prod.mk.inj (Option.some.inj (hsome.symm.trans hexec₁))
  obtain ⟨-, rfl⟩ := Prod.mk.inj (Option.some.inj (hnull.symm.trans hexec₂))
  have hroom : ¬ ∀ s l e, FreeRun .mipos64 mm s l e → capacity .mipos64 mm l < 40 := fun hall =>
    absurd (hiff₁.mpr hall) (by decide)
  push Not at hroom
  exact ⟨mm, hrun, ⟨mm₂, hnull⟩, hiff₂.mp rfl, ⟨mm₁, hsome⟩, hroom⟩

/-! ### A free list that is a ring -/

/-- The search never ends when two blocks that are too small follow each other in a ring. -/
theorem mmFindFreeLoop_ring {m : Memory} {d e : ℕ} (hd0 : d ≠ 0) (he0 : e ≠ 0)
    (hde : mdescNext b m d = e) (hed : mdescNext b m e = d) (hd : mdescGetsize b m d < n)
    (he : mdescGetsize b m e < n) :
    ∀ fuel, mmFindFreeLoop b m n fuel d 0 = none ∧ mmFindFreeLoop b m n fuel e 0 = none := by
  -- a block that is too small is passed over
  have hpass : ∀ {x : ℕ} (fuel : ℕ), x ≠ 0 → mdescGetsize b m x < n →
      mmFindFreeLoop b m n (fuel + 1) x 0 = mmFindFreeLoop b m n fuel (mdescNext b m x) 0 := by
    intro x fuel hx0 hx
    rw [mmFindFreeLoop, if_neg hx0, if_neg (by omega), if_neg (by omega)]
  intro fuel
  induction fuel with
  | zero => exact ⟨rfl, rfl⟩
  | succ fuel ih =>
    rw [hpass fuel hd0 hd, hpass fuel he0 he, hde, hed]
    exact ⟨ih.2, ih.1⟩

/-- The search for a neighbour never ends either, when the two blocks do not touch. -/
theorem mmFindContFreePredMbLoop_ring {m : Memory} {d e : ℕ} (hd0 : d ≠ 0) (he0 : e ≠ 0)
    (hde : mdescNext b m d = e) (hed : mdescNext b m e = d) (hleft : mdescEndAddr b m e ≠ d)
    (hright : mdescEndAddr b m d ≠ e) :
    ∀ fuel, mmFindContFreePredMbLoop b m d fuel d = none ∧
      mmFindContFreePredMbLoop b m d fuel e = none := by
  intro fuel
  induction fuel with
  | zero => exact ⟨rfl, rfl⟩
  | succ fuel ih =>
    constructor
    · rw [mmFindContFreePredMbLoop, if_neg hd0, if_neg fun hself => hself.1 rfl, hde]
      exact ih.2
    · rw [mmFindContFreePredMbLoop, if_neg he0, if_neg fun htouch => htouch.2.elim hleft hright, hed]
      exact ih.1

/-- A ring is no list of free blocks. -/
theorem not_freeDesc_of_ring {d e : ℕ} (hd0 : d ≠ 0) (he0 : e ≠ 0) (hhead : mm.freeMemory = d)
    (hde : mdescNext b mm.mem d = e) (hed : mdescNext b mm.mem e = d) (x : ℕ) :
    ¬ FreeDesc b mm x := by
  rintro ⟨l, ⟨hl, hlist⟩, -⟩
  -- a list from `d` on would go on with `e` and with `d` again
  rcases l with _ | ⟨y, l⟩
  · exact hd0 (hhead.symm.trans hl)
  obtain rfl : y = d := hl.symm.trans hhead
  have hnext : mdescNext b mm.mem y = l.headD 0 := hlist.head_nx_eq
  rcases l with _ | ⟨z, l⟩
  · exact he0 (hde.symm.trans hnext)
  obtain rfl : z = e := hnext.symm.trans hde
  have hnext' : mdescNext b mm.mem z = l.headD 0 := (show IsList _ _ ([y] ++ z :: l) from hlist).nx_eq
  rcases l with _ | ⟨w, l⟩
  · exact hd0 (hed.symm.trans hnext')
  obtain rfl : w = y := hnext'.symm.trans hed
  exact absurd hlist.nodup (by simp)

/-- The user of a block of 32 bytes stores two addresses in it and asks for `2^64 - 1`
bytes; the copy replaces the links of the old block by these addresses. -/
theorem ring_reached :
    ∃ mm, ReflTransGen (StepWhere .mipos64 64 fun _ => True)
        (miposMmInit .mipos64 (fun _ => 0) 64 256) mm ∧ mm.freeMemory = 64 ∧
      mdescNext .mipos64 mm.mem 64 = 264 ∧ mdescNext .mipos64 mm.mem 264 = 64 ∧
      mdescGetsize .mipos64 mm.mem 64 = 152 ∧ mdescGetsize .mipos64 mm.mem 264 = 0 := by
  have heval : ∃ mm₁, Call.exec .mipos64 (miposMmInit .mipos64 (fun _ => 0) 64 256) (.alloc 32)
        = some (mm₁, 288) ∧ mdescGetsize .mipos64 mm₁.mem 264 = 32 ∧
      ∃ p₂, Call.exec .mipos64 ((mm₁.write 288 64).write 296 64) (.realloc 288 (2 ^ 64 - 1))
        = some p₂ ∧ p₂.1.freeMemory = 64 ∧
      mdescNext .mipos64 p₂.1.mem 64 = 264 ∧ mdescNext .mipos64 p₂.1.mem 264 = 64 ∧
      mdescGetsize .mipos64 p₂.1.mem 64 = 152 ∧ mdescGetsize .mipos64 p₂.1.mem 264 = 0 := by
    decide +kernel
  obtain ⟨mm₁, hexec₁, hsize, ⟨mm₂, r⟩, hexec₂, hhead, hde, hed, hd, he⟩ := heval
  have hinit := miposMmInit_inv (b := .mipos64) (fun _ => 0) (show 0 < 64 by omega)
    (show 64 + 256 < _ by decide) (by decide)
  have hfits : (Call.alloc 32).Fits .mipos64 := trivial
  obtain ⟨H, hl⟩ := Call.leaves_of_exec splitSound_mipos64 hinit hfits hexec₁
  have h := hl.leaves.inv
  -- the payload of the block is the user's
  obtain ⟨x, hx, hxaddr⟩ := hl.result (by decide)
  have hx264 : x.addr = 264 := by
    have hhdr : Build.mipos64.sizeofMdesc = 24 := rfl
    omega
  have huser : ∀ {mm : Mm}, HeapInv .mipos64 64 mm H → ∀ a, 288 ≤ a → a < 320 →
      UserByte .mipos64 64 mm a := by
    intro mm hmm a hlo hhi
    have hsize' : mdescGetsize .mipos64 mm.mem 264 = 32 := by
      rw [← hsize, ← hx264, h.size_eq x (Blocks.mem_all_of_used hx),
        hmm.size_eq x (Blocks.mem_all_of_used hx)]
    refine Or.inl ⟨264, hmm.liveDesc_iff.mpr ⟨x, hx, hx264⟩, hlo, ?_⟩
    rw [hsize']
    exact hhi
  have h288 := huser h 288 (by omega) (by omega)
  have h296 := huser (h.write_userByte h288 64) 296 (by omega) (by omega)
  have halloc : StepWhere .mipos64 64 (fun _ => True) _ mm₁ :=
    StepWhere.call (.alloc 32) trivial hexec₁
  have hwrites := ((ReflTransGen.single halloc).tail ⟨[], .write 288 64 h288⟩).tail
    ⟨[], .write 296 64 h296⟩
  exact ⟨mm₂, hwrites.tail (StepWhere.call (.realloc 288 (2 ^ 64 - 1)) trivial hexec₂), hhead, hde,
    hed, hd, he⟩

/-- **After an oversized reallocation compaction may not return**: the search for a block next to
the first one goes round for ever. -/
theorem compaction_hangs :
    ∃ mm, ReflTransGen (StepWhere .mipos64 64 fun _ => True)
        (miposMmInit .mipos64 (fun _ => 0) 64 256) mm ∧
      (∀ fuel, mmFindContFreePredMbLoop .mipos64 mm.mem mm.freeMemory fuel mm.freeMemory = none) ∧
      ∀ bytesNeeded, miposMmCompactFreemem .mipos64 mm bytesNeeded = none := by
  obtain ⟨mm, hrun, hhead, hde, hed, hd, he⟩ := ring_reached
  have hright : mdescEndAddr .mipos64 mm.mem 64 ≠ 264 := by
    rw [mdescEndAddr, hd]
    decide
  have hleft : mdescEndAddr .mipos64 mm.mem 264 ≠ 64 := by
    rw [mdescEndAddr, he]
    decide
  have hring := mmFindContFreePredMbLoop_ring (by decide) (by decide) hde hed hleft hright
  refine ⟨mm, hrun, fun fuel => hhead ▸ (hring fuel).1, fun bytesNeeded => ?_⟩
  obtain ⟨fuel, hfuel⟩ : ∃ k, mm.fuel * mm.fuel = k + 1 :=
    Nat.exists_eq_succ_of_ne_zero (by simp [Mm.fuel])
  rw [miposMmCompactFreemem, hfuel, miposMmCompactFreememLoop, hhead, if_neg (by decide),
    mmFindContFreePredMb, hhead, (hring mm.fuel).1]
  rfl

/-- **After an oversized reallocation an allocation may not return**: the free list is a ring
of two small blocks, so no run has room for 1000 bytes, and the search goes round for
ever. -/
theorem alloc_hangs :
    ∃ mm, ReflTransGen (StepWhere .mipos64 64 fun _ => True)
        (miposMmInit .mipos64 (fun _ => 0) 64 256) mm ∧
      (∀ s l e, FreeRun .mipos64 mm s l e → capacity .mipos64 mm l < 1000) ∧
      (∀ fuel, mmFindFreeLoop .mipos64 mm.mem 1000 fuel mm.freeMemory 0 = none) ∧
      miposMmAlloc .mipos64 mm 1000 = none := by
  obtain ⟨mm, hrun, hhead, hde, hed, hd, he⟩ := ring_reached
  have hring := mmFindFreeLoop_ring (n := 1000) (by decide) (by decide) hde hed (by omega) (by omega)
  have hloop : ∀ fuel, mmFindFreeLoop .mipos64 mm.mem 1000 fuel mm.freeMemory 0 = none := by
    intro fuel
    rw [hhead]
    exact (hring fuel).1
  refine ⟨mm, hrun, fun s l e hfree => ?_, hloop, ?_⟩
  · obtain ⟨d, hd⟩ := List.exists_mem_of_ne_nil l hfree.nonempty
    exact absurd (hfree.free d hd) (not_freeDesc_of_ring (by decide) (by decide) hhead hde hed d)
  · have halign : alignedSize .mipos64 1000 = 1000 := by decide
    rw [miposMmAlloc, if_neg (by decide), halign, mmAllocAux, mmFindFree, hloop]
    rfl

end Malloc
