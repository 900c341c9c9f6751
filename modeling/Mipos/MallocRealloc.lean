/-
What becomes of a block that is reallocated.

`mipos_mm_realloc` is to keep the data, in a block that is large enough, or else to keep
the block.  The source copies to the new block and frees the old one without asking whether
there is a new block.

* `realloc_keeps_iff` — in the 64-bit build it does as it should just if the old block has
  room for the request, or is not empty and a run of free blocks has room for it;
* `realloc_faults` — the copy of a block that cannot grow goes through the null pointer.
-/
import Mipos.MallocContiguous

namespace Malloc

open Tiling DoublyLinked Relation

/-- `mipos_mm_realloc` of the block at `d` to `n` bytes returns a live block of that capacity that
starts with the bytes of the old one, which is freed if it is not the same; or it returns null and
all live blocks stay live, with the contents of the one at `d`. -/
def ReallocKeeps (b : Build) (mm : Mm) (d n : ℕ) : Prop :=
  ∃ mm' r, miposMmRealloc b mm (d + b.sizeofMdesc) n = some (mm', r) ∧
    ((∃ e, r = e + b.sizeofMdesc ∧ LiveDesc b mm' e ∧ n ≤ mdescGetsize b mm'.mem e ∧
        (∀ i, i < min (mdescGetsize b mm.mem d) n →
          mm'.mem (r + i) = mm.mem (d + b.sizeofMdesc + i)) ∧
        (e ≠ d → ¬ LiveDesc b mm' d)) ∨
      (r = 0 ∧ (∀ e, LiveDesc b mm' e ↔ LiveDesc b mm e) ∧
        mdescGetsize b mm'.mem d = mdescGetsize b mm.mem d ∧
        ∀ a, PayloadByte b mm d a → mm'.mem a = mm.mem a))

section

variable {b : Build} {base n : ℕ} {mm mm' : Mm} {H H' : Blocks} {x : Block}

/-- The live descriptors are those of the pointers in use. -/
theorem HeapInv.liveDesc_iff_uses (h : HeapInv b base mm H) {d : ℕ} :
    LiveDesc b mm d ↔ H.Uses b.sizeofMdesc (d + b.sizeofMdesc) := by
  rw [h.liveDesc_iff]
  constructor
  · rintro ⟨u, hu, rfl⟩
    exact ⟨u, hu, rfl⟩
  · rintro ⟨u, hu, hud⟩
    exact ⟨u, hu, by omega⟩

/-- A block that stays keeps its data. -/
theorem reallocKeeps_of_stays (h : HeapInv b base mm H) (hx : x ∈ H.used) (hn : 0 < n)
    (hlt : n < x.size) : ReallocKeeps b mm x.addr n := by
  refine ⟨mm, _, miposMmRealloc_stays h hx hn hlt, Or.inl ⟨x.addr, rfl, ?_, ?_, ?_, ?_⟩⟩
  · exact h.liveDesc_iff.mpr ⟨x, hx, rfl⟩
  · rw [h.size_eq x (Blocks.mem_all_of_used hx)]
    exact Nat.le_of_lt hlt
  · exact fun _ _ => rfl
  · exact fun hne => absurd rfl hne

/-- A block that is moved takes its data along. -/
theorem Moves.reallocKeeps {r : ℕ} (h : HeapInv b base mm H) (hx : x ∈ H.used)
    (hm : Moves b base n H x mm mm' r H')
    (hrun : miposMmRealloc b mm (x.addr + b.sizeofMdesc) n = some (mm', r)) :
    ReallocKeeps b mm x.addr n := by
  have h' := hm.leaves.leaves.inv
  obtain ⟨y, hy, hry, hny⟩ := hm.block
  refine ⟨mm', r, hrun, Or.inl ⟨y.addr, hry, h'.liveDesc_iff.mpr ⟨y, hy, rfl⟩, ?_, ?_, ?_⟩⟩
  · rw [h'.size_eq y (Blocks.mem_all_of_used hy)]
    exact hny
  · intro i hi
    rw [h.size_eq x (Blocks.mem_all_of_used hx)] at hi
    exact hm.copied i (by omega)
  · -- the old pointer is in use only if it is the new one
    intro _ hlive
    rcases (hm.accounts _).mp (h'.liveDesc_iff_uses.mp hlive) with ⟨hr, -⟩ | ⟨-, hgone⟩
    · exact hm.apart hr.symm
    · exact hgone rfl

/-- An empty block is freed, and nothing is returned for it. -/
theorem not_reallocKeeps_of_empty (h : HeapInv b base mm H) (hx : x ∈ H.used) (hempty : x.size = 0) :
    ¬ ReallocKeeps b mm x.addr n := by
  have hptr : x.addr + b.sizeofMdesc ≠ 0 := by
    have := b.sizeofMdesc_pos
    omega
  obtain ⟨mm₁, hfree, hleaves⟩ := miposMmFree_sim h (x.addr + b.sizeofMdesc)
  rintro ⟨mm', r, hrun, hkeeps⟩
  rw [miposMmRealloc_frees hptr (h.allocatedMemSize_eq hx) (Or.inl hempty), hfree] at hrun
  obtain ⟨rfl, rfl⟩ : mm₁ = mm' ∧ 0 = r := by simpa using hrun
  rcases hkeeps with ⟨e, he, -⟩ | ⟨-, hlive, -⟩
  · have := b.sizeofMdesc_pos
    omega
  · have hx' := (hlive x.addr).mpr (h.liveDesc_iff.mpr ⟨x, hx, rfl⟩)
    exact (h.uses_freeAt.mp (hleaves.inv.liveDesc_iff_uses.mp hx')).2 rfl

end

/-- **Reallocation keeps the data or the block**, in every run whose calls fit, just if the old
block has room for the request, or is not empty and some run of free blocks has the capacity for
the request rounded up. -/
theorem realloc_keeps_iff {m : Memory} {base len d n : ℕ} {mm : Mm} (hpos : 0 < base)
    (hend : base + len < Build.mipos64.modulus) (hlen : Build.mipos64.sizeofMdesc ≤ len)
    (hrun : ReflTransGen (StepWhere .mipos64 base (Call.Fits .mipos64))
      (miposMmInit .mipos64 m base len) mm)
    (hlive : LiveDesc .mipos64 mm d) (hn : 0 < n) (hrange : n + 4 ≤ Build.mipos64.modulus) :
    ReallocKeeps .mipos64 mm d n ↔ n < mdescGetsize .mipos64 mm.mem d ∨
      (0 < mdescGetsize .mipos64 mm.mem d ∧
        ∃ s l e, FreeRun .mipos64 mm s l e ∧ (n + 3) / 4 * 4 ≤ capacity .mipos64 mm l) := by
  obtain ⟨-, H, h⟩ := runWhere_inv splitSound_mipos64 (fun _ => id) hpos hend hlen hrun
  obtain ⟨x, hx, rfl⟩ := h.liveDesc_iff.mp hlive
  rw [h.size_eq x (Blocks.mem_all_of_used hx)]
  by_cases hlt : n < x.size
  · exact iff_of_true (reallocKeeps_of_stays h hx hn hlt) (Or.inl hlt)
  rcases Nat.eq_zero_or_pos x.size with hempty | hx0
  · refine iff_of_false (not_reallocKeeps_of_empty h hx hempty) ?_
    rintro (hlt' | ⟨hx0, -⟩)
    · exact hlt hlt'
    · omega
  have halign : alignedSize .mipos64 n = (n + 3) / 4 * 4 := by
    rw [alignedSize, Nat.mod_eq_of_lt (by omega)]
  obtain ⟨mm₁, r₁, halloc, hnull⟩ := miposMmAlloc_null_iff splitSound_mipos64 h hn.ne'
    (by omega)
  rw [h.room_iff, halign] at hnull
  rcases miposMmRealloc_moves h hx (splitSound_mipos64.allocSound h n) hrange hx0 (not_lt.mp hlt) with
    ⟨hnone, mm₂, hfails⟩ | ⟨mm', r, H', hsome, hm⟩
  · -- the allocation returns null, so no run has room
    obtain ⟨-, rfl⟩ := Prod.mk.inj (Option.some.inj (halloc.symm.trans hfails))
    refine iff_of_false ?_ ?_
    · rintro ⟨mm', r, hsome, -⟩
      exact absurd (hnone.symm.trans hsome) (by simp)
    · rintro (hlt' | ⟨-, hroom⟩)
      · exact hlt hlt'
      · exact hnull.mp rfl hroom
  · refine iff_of_true (hm.reallocKeeps h hx hsome) (Or.inr ⟨hx0, ?_⟩)
    obtain ⟨mm₂, halloc₂⟩ := hm.alloc
    obtain ⟨-, rfl⟩ := Prod.mk.inj (Option.some.inj (halloc.symm.trans halloc₂))
    obtain ⟨y, -, hry, -⟩ := hm.block
    have := Build.mipos64.sizeofMdesc_pos
    exact not_not.mp fun hno => absurd (hnull.mpr hno) (by omega)

/-- The heap of 256 bytes with one block of 32, at its end. -/
theorem block32_reached :
    ∃ mm, ReflTransGen (StepWhere .mipos64 64 (Call.Fits .mipos64))
        (miposMmInit .mipos64 (fun _ => 0) 64 256) mm ∧
      StoredList .mipos64 mm.mem mm.freeMemory [64] ∧ mdescGetsize .mipos64 mm.mem 64 = 176 ∧
      LiveDesc .mipos64 mm 264 ∧ mdescGetsize .mipos64 mm.mem 264 = 32 ∧
      miposMmRealloc .mipos64 mm 288 1000 = none := by
  have heval :
      ∃ mm, Call.execAll .mipos64 (miposMmInit .mipos64 (fun _ => 0) 64 256) [.alloc 32] = some mm ∧
      StoredList .mipos64 mm.mem mm.freeMemory [64] ∧ mdescGetsize .mipos64 mm.mem 64 = 176 ∧
      StoredList .mipos64 mm.mem mm.usedMemory [264] ∧ mdescGetsize .mipos64 mm.mem 264 = 32 ∧
      (miposMmRealloc .mipos64 mm 288 1000) = none := by decide +kernel
  obtain ⟨mm, hexec, hfree, hfsize, hused, hsize, hnone⟩ := heval
  exact ⟨mm, Call.execAll_run (by decide) hexec, hfree, hfsize, ⟨_, hused, by decide⟩, hsize, hnone⟩

/-- It grows to 40 bytes, out of the one free block. -/
theorem realloc_keeps_iff_grows :
    ∃ mm, ReflTransGen (StepWhere .mipos64 64 (Call.Fits .mipos64))
        (miposMmInit .mipos64 (fun _ => 0) 64 256) mm ∧
      LiveDesc .mipos64 mm 264 ∧ FreeRun .mipos64 mm 64 [64] 264 ∧
      ReallocKeeps .mipos64 mm 264 40 := by
  obtain ⟨mm, hrun, hfree, hfsize, hlive, hsize, -⟩ := block32_reached
  have honly : ∀ d, FreeDesc .mipos64 mm d → d = 64 := by
    rintro d ⟨l, hl, hd⟩
    rw [hl.unique hfree] at hd
    exact List.mem_singleton.mp hd
  have hone : FreeRun .mipos64 mm 64 [64] 264 := by
    refine ⟨⟨rfl, ?_⟩, by decide, ?_, ?_, ?_⟩
    · show 64 + (24 + _) = 264
      rw [hfsize]
    · intro d hd
      exact ⟨_, hfree, hd⟩
    · intro d hd
      rw [honly d hd, hfsize]
      decide
    · intro d hd
      rw [honly d hd]
      decide
  have hcap : capacity .mipos64 mm [64] = 176 := by simp [capacity, hfsize]
  refine ⟨mm, hrun, hlive, hone, ?_⟩
  refine (realloc_keeps_iff (by omega) (by decide) (by decide) hrun hlive (by omega)
    (by decide)).mpr (Or.inr ⟨by omega, 64, [64], 264, hone, by omega⟩)

/-- **A block that cannot grow**: there is no room for 1000 bytes, and the call does not return
null but copies to it. -/
theorem realloc_faults :
    ∃ mm, ReflTransGen (StepWhere .mipos64 64 (Call.Fits .mipos64))
        (miposMmInit .mipos64 (fun _ => 0) 64 256) mm ∧
      LiveDesc .mipos64 mm 264 ∧ miposMmRealloc .mipos64 mm 288 1000 = none ∧
      ¬ ReallocKeeps .mipos64 mm 264 1000 := by
  obtain ⟨mm, hrun, -, -, hlive, -, hnone⟩ := block32_reached
  refine ⟨mm, hrun, hlive, hnone, ?_⟩
  rintro ⟨mm', r, hsome, -⟩
  exact absurd (hnone.symm.trans hsome) (by simp)

end Malloc
