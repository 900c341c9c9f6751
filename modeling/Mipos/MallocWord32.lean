/-
The 32-bit build of the allocator.

With `MIPOS32` the split test subtracts in 32 bits and widens the result to 64
as an unsigned number, so a difference below zero looks large.  A block that
fits the request with less than a descriptor to spare is then cut, although
there is no room for the cut (`splits_mipos32`).

* `Blocks.RoomyFit` — the requests for which this does not happen;
* `word32_decisions` — exactly for these `mm_alloc_aux` takes the decisions of
  exact arithmetic, and runs of such requests keep the heap tiled;
* `word32_exact_fit` — an exact fit leaves its block on both lists.
-/
import Mipos.MallocRuns

namespace Malloc

open Tiling DoublyLinked Relation

/-- `mm_alloc_aux` leaves the lists and returns the block of the same algorithm
over unbounded integers. -/
def SameAsExact (b : Build) (mm : Mm) (H : Blocks) (n : ℕ) : Prop :=
  ∃ mm', mmAllocAux b mm n
      = some (mm', ptrOf (H.allocAux (exactSplit b.sizeofMdesc) b.sizeofMdesc n).2) ∧
    Represents b mm' (H.allocAux (exactSplit b.sizeofMdesc) b.sizeofMdesc n).1

/-- No free block has the size `n`, and if one is large enough then some block
has room for `n` bytes and a descriptor. -/
def Blocks.RoomyFit (hdr : ℕ) (H : Blocks) (n : ℕ) : Prop :=
  (∀ x ∈ H.free, x.size ≠ n) ∧ ((∀ x ∈ H.free, x.size < n) ∨ ∃ x ∈ H.free, n + hdr ≤ x.size)

theorem modulus_mipos32 : Build.mipos32.modulus = 4294967296 := by decide

theorem sizeofMdesc_mipos32 : Build.mipos32.sizeofMdesc = 12 := rfl

/-- **The test of the 32-bit build** also holds when the subtraction wraps. -/
theorem splits_mipos32 {s n : ℕ} (hn : n ≤ s) (hs : s + 12 < 4294967296) :
    splits .mipos32 s n = true ↔ s < n + 12 ∨ n + 24 < s := by
  have hneeded : (n + 12) % 4294967296 = n + 12 := Nat.mod_eq_of_lt (by omega)
  rw [splits, modulus_mipos32, sizeofMdesc_mipos32, hneeded, decide_eq_true_eq]
  by_cases hlt : s < n + 12
  · have hdiff : (s + (4294967296 - (n + 12))) % 4294967296 = s + (4294967296 - (n + 12)) :=
      Nat.mod_eq_of_lt (by omega)
    rw [hdiff, toSignedSize, if_pos (by omega)]
    omega
  · have hdiff : (s + (4294967296 - (n + 12))) % 4294967296 = s - (n + 12) := by omega
    rw [hdiff, toSignedSize, if_pos (by omega)]
    omega

section

variable {base n : ℕ} {mm mm' : Mm} {H : Blocks} {x : Block}

/-- The chosen block of a roomy fit has room. -/
theorem Blocks.RoomyFit.room {hdr : ℕ} (hfit : H.RoomyFit hdr n)
    (hfind : findFree n H.free none = some x) : n + hdr ≤ x.size := by
  obtain ⟨hx, hnx, -, hmax⟩ := findFree_some hfind
  obtain ⟨hne, hsmall | ⟨y, hy, hroom⟩⟩ := hfit
  · exact absurd (hsmall x hx) (by omega)
  · exact le_trans hroom (hmax (hne x hx) y hy)

/-- Allocation asks the test only about the block that was chosen. -/
theorem Blocks.allocAux_congr {split split' : ℕ → ℕ → Bool} {hdr : ℕ}
    (hsplit : ∀ x, findFree n H.free none = some x → split x.size n = split' x.size n) :
    H.allocAux split hdr n = H.allocAux split' hdr n := by
  rw [Blocks.allocAux, Blocks.allocAux]
  rcases hfind : findFree n H.free none with _ | x
  · rfl
  · simp only [hsplit x hfind]

/-- A roomy fit is decided as in exact arithmetic. -/
theorem sameAsExact_of_roomyFit (h : HeapInv .mipos32 base mm H) (hfit : H.RoomyFit 12 n) :
    SameAsExact .mipos32 mm H n := by
  have hroom : ∀ y, findFree n H.free none = some y → splits .mipos32 y.size n = true →
      n + Build.mipos32.sizeofMdesc ≤ y.size := fun y hy _ => hfit.room hy
  have hexact : H.allocAux (splits .mipos32) Build.mipos32.sizeofMdesc n
      = H.allocAux (exactSplit Build.mipos32.sizeofMdesc) Build.mipos32.sizeofMdesc n := by
    refine Blocks.allocAux_congr fun y hy => ?_
    have hle := hfit.room hy
    have hlt := h.size_lt (Blocks.mem_all_of_free (findFree_some hy).1)
    rw [modulus_mipos32, sizeofMdesc_mipos32] at hlt
    rw [Bool.eq_iff_iff, splits_mipos32 (by omega) (by omega), exactSplit, decide_eq_true_eq,
      sizeofMdesc_mipos32]
    omega
  obtain ⟨mm', hrun, hleaves⟩ := mmAllocAux_sim h hroom
  rw [hexact] at hrun hleaves
  exact ⟨mm', hrun, hleaves.inv.toRepresents⟩

/-! ### Where the subtraction wraps -/

/-- What `mm_alloc_aux` does with a block that fits with less than a descriptor
to spare: the new descriptor starts inside the old one. -/
theorem mmAllocAux_wraps (h : HeapInv .mipos32 base mm H)
    (hfind : findFree n H.free none = some x) (hlt : x.size < n + 12) :
    mmAllocAux .mipos32 mm n = some
      (mmAdd2used .mipos32 { mm with
        mem := mdescInit .mipos32
          (mdescSetsize .mipos32 mm.mem x.addr (x.size + (4294967296 - (n + 12))))
          (x.addr + (x.size - n)) n } (x.addr + (x.size - n)), x.addr + (x.size - n)) := by
  obtain ⟨hx, hnx, -⟩ := findFree_some hfind
  have hxa := Blocks.mem_all_of_free hx
  have hxd := Blocks.isDesc_of_mem hxa
  have hM := h.size_lt hxa
  have hx0 := h.addr_ne_zero hxa
  rw [modulus_mipos32, sizeofMdesc_mipos32] at hM
  have hsplit : splits .mipos32 x.size n = true :=
    (splits_mipos32 hnx (by omega)).mpr (Or.inl hlt)
  have hptr : ptrOf (some x) = x.addr := rfl
  have hneeded : (n + 12) % 4294967296 = n + 12 := Nat.mod_eq_of_lt (by omega)
  have hleft : (x.size + (4294967296 - (n + 12))) % 4294967296
      = x.size + (4294967296 - (n + 12)) := Nat.mod_eq_of_lt (by omega)
  have hleftM : x.size + (4294967296 - (n + 12)) < Build.mipos32.modulus := by
    rw [modulus_mipos32]
    omega
  have hend : mdescEndAddr .mipos32
      (mdescSetsize .mipos32 mm.mem x.addr (x.size + (4294967296 - (n + 12)))) x.addr
        = x.addr + (x.size - n) := by
    rw [mdescEndAddr, h.dataAddr_eq hxa, (h.spread.setsize hxd hxd hleftM).2.2, if_pos rfl,
      modulus_mipos32, sizeofMdesc_mipos32]
    omega
  rw [mmAllocAux, mmFindFree_eq h, hfind]
  simp only [Option.bind_eq_bind, Option.bind_some, hptr, if_neg hx0, h.size_eq x hxa, hsplit,
    if_true, modulus_mipos32, sizeofMdesc_mipos32, hneeded, hleft, hend]
  rfl

/-- The address after a block on its list is not its own. -/
theorem HeapInv.headD_ne {b : Build} {l₁ l₂ : List Block} (h : HeapInv b base mm H)
    (hl : H.free = l₁ ++ x :: l₂) : x.addr ≠ (l₂.map Block.addr).headD 0 := by
  have hxa : x ∈ H.all := Blocks.mem_all_of_free (by simp [hl])
  rcases l₂ with _ | ⟨y, l₂⟩
  · exact h.addr_ne_zero hxa
  · intro e
    have hxy : x = y := h.tiled.eq_of_addr hxa (Blocks.mem_all_of_free (by simp [hl])) e
    have hnodup := h.tiled.nodup_free
    rw [hl, hxy] at hnodup
    exact (List.nodup_cons.mp (List.nodup_append.mp hnodup).2.1).1 List.mem_cons_self

/-- After an exact fit the block is still on the free list. -/
theorem not_sameAsExact_of_exactFit (h : HeapInv .mipos32 base mm H)
    (hfind : findFree n H.free none = some x) (hsize : x.size = n) :
    ¬ SameAsExact .mipos32 mm H n := by
  rintro ⟨mm', hrun, hrep⟩
  obtain ⟨hx, -⟩ := findFree_some hfind
  have hxa := Blocks.mem_all_of_free hx
  have hxd := Blocks.isDesc_of_mem hxa
  have hM := h.size_lt hxa
  rw [modulus_mipos32, sizeofMdesc_mipos32] at hM
  -- exact arithmetic takes the block off the list
  have hexact : H.allocAux (exactSplit Build.mipos32.sizeofMdesc) Build.mipos32.sizeofMdesc n
      = (H.take x, some x) := by
    have hcut : ¬ exactSplit Build.mipos32.sizeofMdesc x.size n = true := by
      rw [exactSplit, decide_eq_true_eq, hsize]
      omega
    rw [Blocks.allocAux, hfind]
    simp only [if_neg hcut]
  rw [hexact] at hrep
  rw [mmAllocAux_wraps h hfind (by omega), Option.some_inj, Prod.mk.injEq] at hrun
  have hsame : x.addr + (x.size - n) = x.addr := by omega
  rw [hsame] at hrun
  set s := x.size + (4294967296 - (n + 12)) with hs
  have hsM : s < Build.mipos32.modulus := by
    rw [modulus_mipos32]
    omega
  have hnM : n < Build.mipos32.modulus := by
    rw [modulus_mipos32]
    omega
  -- the code writes to the descriptor of `x` and to the used list
  set m₁ := mdescSetsize .mipos32 mm.mem x.addr s with hm₁
  set mm₁ : Mm := { mm with mem := mdescInit .mipos32 m₁ x.addr n } with hmm₁
  have hD := h.spread
  have hlinks : ∀ e, H.IsDesc e → e ≠ x.addr →
      mdescNext .mipos32 mm₁.mem e = mdescNext .mipos32 mm.mem e ∧
        mdescPrev .mipos32 mm₁.mem e = mdescPrev .mipos32 mm.mem e := by
    intro e he hne
    have h1 := hD.setsize (m := mm.mem) hxd he hsM
    have h2 := hD.setsize (m := m₁) hxd he hnM
    have h3 := hD.isolate (m := mdescSetsize .mipos32 m₁ x.addr n) hxd he
    refine ⟨?_, ?_⟩
    · rw [← h1.1, ← hm₁, ← h2.1]
      exact h3.1.trans (if_neg hne)
    · rw [← h1.2.1, ← hm₁, ← h2.2.1]
      exact h3.2.1.trans (if_neg hne)
  have husedAll : ∀ y ∈ H.used, y ∈ H.all := fun y hy => Blocks.mem_all_of_used hy
  have hxused := h.tiled.not_mem_used hx
  have hused₁ : StoresAt .mipos32 mm₁.mem mm₁.usedMemory H.used := by
    have hcell : ∀ e ∈ H.used.map Block.addr, H.IsDesc e ∧ e ≠ x.addr := by
      intro e he
      obtain ⟨y, hy, rfl⟩ := List.mem_map.mp he
      refine ⟨Blocks.isDesc_of_mem (husedAll y hy), fun e => hxused ?_⟩
      exact h.tiled.eq_of_addr (husedAll y hy) hxa e ▸ hy
    exact ⟨h.used_head, h.used_list.congr
      (fun e he => (hlinks e (hcell e he).1 (hcell e he).2).1)
      (fun e he => (hlinks e (hcell e he).1 (hcell e he).2).2)⟩
  obtain ⟨-, hfree, -, hedit⟩ := mmAdd2used_storesAt h.tiled hD husedAll hused₁ hxa hxused
  obtain ⟨l₁, l₂, hl, hx₁, herase⟩ := exists_split hx
  have hne := h.headD_ne hl
  have hfreeList : (H.take x).free = l₁ ++ l₂ := herase
  rw [← hrun.1] at hrep
  rcases List.eq_nil_or_concat l₁ with rfl | ⟨l₀, p, rfl⟩
  · -- `x` was the head, and still is
    refine hne ?_
    have hhead := hrep.free_head
    rw [hfree, hfreeList, List.nil_append] at hhead
    rw [← hhead]
    show x.addr = mm.freeMemory
    rw [h.free_head, hl]
    rfl
  · -- the block before `x` still points at it
    refine hne ?_
    have hl' : H.free = l₀ ++ p :: x :: l₂ := by simpa using hl
    have hpf : p ∈ H.free := by simp [hl']
    have hpa := Blocks.mem_all_of_free hpf
    have hpx : p.addr ≠ x.addr := fun e =>
      hx₁ (by simp [h.tiled.eq_of_addr hpa hxa e])
    have hpT : p.addr ∉ x.addr :: H.used.map Block.addr := by
      intro hp
      rcases List.mem_cons.mp hp with hp | hp
      · exact hpx hp
      · exact h.tiled.not_mem_used hpf ((mem_map_addr h.tiled husedAll hpa).mp hp)
    have hcode : mdescNext .mipos32 (mmAdd2used .mipos32 mm₁ x.addr).mem p.addr = x.addr := by
      rw [hedit.next_eq _ (Blocks.isDesc_of_mem hpa) hpT,
        (hlinks _ (Blocks.isDesc_of_mem hpa) hpx).1]
      exact next_eq_of_isList (hl' ▸ h.free_list)
    have hlist := hrep.free_list
    rw [hfreeList, show l₀.concat p ++ l₂ = l₀ ++ p :: l₂ by simp] at hlist
    rw [← hcode]
    exact next_eq_of_isList hlist

/-- A near fit returns an address inside the old descriptor. -/
theorem not_sameAsExact_of_nearFit (h : HeapInv .mipos32 base mm H)
    (hfind : findFree n H.free none = some x) (hn : n < x.size) (hlt : x.size < n + 12) :
    ¬ SameAsExact .mipos32 mm H n := by
  rintro ⟨mm', hrun, -⟩
  have hexact : (H.allocAux (exactSplit Build.mipos32.sizeofMdesc)
      Build.mipos32.sizeofMdesc n).2 = some x := by
    have hcut : ¬ exactSplit Build.mipos32.sizeofMdesc x.size n = true := by
      rw [exactSplit, decide_eq_true_eq, sizeofMdesc_mipos32]
      omega
    rw [Blocks.allocAux, hfind]
    simp only [if_neg hcut]
  rw [mmAllocAux_wraps h hfind hlt, Option.some_inj, Prod.mk.injEq, hexact] at hrun
  have hret : x.addr + (x.size - n) = x.addr := hrun.2
  omega

/-- **Exactly the roomy fits are decided as in exact arithmetic.** -/
theorem sameAsExact_iff (h : HeapInv .mipos32 base mm H) :
    SameAsExact .mipos32 mm H n ↔ H.RoomyFit 12 n := by
  refine ⟨fun hsame => ?_, sameAsExact_of_roomyFit h⟩
  rcases hfind : findFree n H.free none with _ | x
  · have hsmall := findFree_none hfind
    exact ⟨fun x hx => ne_of_lt (hsmall x hx), Or.inl hsmall⟩
  obtain ⟨hx, hnx, hfit, -⟩ := findFree_some hfind
  by_cases hsize : x.size = n
  · exact absurd hsame (not_sameAsExact_of_exactFit h hfind hsize)
  by_cases hlt : x.size < n + 12
  · exact absurd hsame (not_sameAsExact_of_nearFit h hfind (by omega) hlt)
  · exact ⟨fun y hy e => hsize (hfit ⟨y, hy, e⟩), Or.inr ⟨x, hx, by omega⟩⟩

/-! ### Runs -/

/-- `Blocks.RoomyFit`, read off the stored free list. -/
def RoomyFit (b : Build) (mm : Mm) (n : ℕ) : Prop :=
  ∃ free, StoredList b mm.mem mm.freeMemory free ∧
    (∀ d ∈ free, mdescGetsize b mm.mem d ≠ n) ∧
      ((∀ d ∈ free, mdescGetsize b mm.mem d < n) ∨
        ∃ d ∈ free, n + b.sizeofMdesc ≤ mdescGetsize b mm.mem d)

theorem HeapInv.roomyFit_iff {b : Build} (h : HeapInv b base mm H) :
    RoomyFit b mm n ↔ H.RoomyFit b.sizeofMdesc n := by
  have hsize : ∀ x ∈ H.free, mdescGetsize b mm.mem x.addr = x.size := fun x hx =>
    h.size_eq x (Blocks.mem_all_of_free hx)
  have hall : ∀ P : ℕ → Prop, (∀ d ∈ H.free.map Block.addr, P (mdescGetsize b mm.mem d)) ↔
      ∀ x ∈ H.free, P x.size := by
    intro P
    rw [List.forall_mem_map]
    exact forall₂_congr fun x hx => by rw [hsize x hx]
  have hex : (∃ d ∈ H.free.map Block.addr, n + b.sizeofMdesc ≤ mdescGetsize b mm.mem d) ↔
      ∃ x ∈ H.free, n + b.sizeofMdesc ≤ x.size := by
    constructor
    · rintro ⟨d, hd, hle⟩
      obtain ⟨x, hx, rfl⟩ := List.mem_map.mp hd
      exact ⟨x, hx, hsize x hx ▸ hle⟩
    · rintro ⟨x, hx, hle⟩
      exact ⟨x.addr, List.mem_map_of_mem hx, (hsize x hx).symm ▸ hle⟩
  rw [Blocks.RoomyFit, ← hall (· ≠ n), ← hall (· < n), ← hex]
  constructor
  · rintro ⟨free, hstored, hfit⟩
    rwa [hstored.unique h.stored_free] at hfit
  · exact fun hfit => ⟨_, h.stored_free, hfit⟩

/-- The calls of a run of the 32-bit build whose requests are roomy fits. -/
inductive RoomyCall : Mm → Unit → Mm → Prop
  | allocAux {mm mm' : Mm} {r : ℕ} (n : ℕ) (hfit : RoomyFit .mipos32 mm n)
      (hexec : mmAllocAux .mipos32 mm n = some (mm', r)) : RoomyCall mm () mm'
  | free {mm mm' : Mm} {ok : Bool} (ptr : ℕ)
      (hexec : miposMmFree .mipos32 mm ptr = some (mm', ok)) : RoomyCall mm () mm'
  | compact {mm mm' : Mm} {r : ℕ} (bytesNeeded : ℕ)
      (hexec : miposMmCompactFreemem .mipos32 mm bytesNeeded = some (mm', r)) :
      RoomyCall mm () mm'

/-- One step of such a run. -/
abbrev RoomyStep (base : ℕ) : Mm → Mm → Prop := StepOf .mipos32 base RoomyCall

/-- A roomy fit hands out nothing, or a block that was not in use. -/
theorem mmAllocAux_roomyFit {r : ℕ} (h : HeapInv .mipos32 base mm H)
    (hfit : RoomyFit .mipos32 mm n) (hexec : mmAllocAux .mipos32 mm n = some (mm', r)) :
    ∃ H', HeapInv .mipos32 base mm' H' ∧ mm'.arenaSize = mm.arenaSize ∧
      (r ≠ 0 → ¬ LiveDesc .mipos32 mm r ∧ LiveDesc .mipos32 mm' r) := by
  have hblocks := h.roomyFit_iff.mp hfit
  obtain ⟨mm₁, o, H', hrun, hleaves, hres, -⟩ := mmAllocAux_result h fun y hy _ => hblocks.room hy
  rw [hrun, Option.some_inj, Prod.mk.injEq] at hexec
  obtain ⟨rfl, rfl⟩ := hexec
  have h' := hleaves.inv
  refine ⟨H', h', hleaves.arena, fun hr => ?_⟩
  obtain ⟨rfl, -⟩ | ⟨x, rfl, -, hused, -⟩ := hres
  · exact absurd rfl hr
  have hx : x ∈ H'.used := by
    rw [hused]
    simp
  refine ⟨fun hlive => ?_, h'.liveDesc_iff.mpr ⟨x, hx, rfl⟩⟩
  obtain ⟨u, hu, hux⟩ := h.liveDesc_iff.mp hlive
  have hu' : u ∈ H'.all := Blocks.mem_all_of_used (by rw [hused]; simp [hu])
  have hueq : u = x := h'.tiled.eq_of_addr hu' (Blocks.mem_all_of_used hx) hux
  exact h'.new_not_mem hused (hueq ▸ hu)

theorem RoomyCall.inv {e : Unit} (h : HeapInv .mipos32 base mm H) (hcall : RoomyCall mm e mm') :
    mm'.arenaSize = mm.arenaSize ∧ ∃ H', HeapInv .mipos32 base mm' H' := by
  cases hcall with
  | allocAux n hfit hexec =>
    obtain ⟨H', h', harena, -⟩ := mmAllocAux_roomyFit h hfit hexec
    exact ⟨harena, H', h'⟩
  | free ptr hexec =>
    obtain ⟨mm₁, ok, H', hrun, hl, -⟩ := miposMmFree_leaves (n := 0) h ptr
    rw [hrun, Option.some_inj, Prod.mk.injEq] at hexec
    obtain ⟨rfl, -⟩ := hexec
    exact ⟨hl.leaves.arena, H', hl.leaves.inv⟩
  | compact bytesNeeded hexec =>
    obtain ⟨mm₁, r, H', hrun, hl, -⟩ := miposMmCompactFreemem_leaves (n := 0) h bytesNeeded
    rw [hrun, Option.some_inj, Prod.mk.injEq] at hexec
    obtain ⟨rfl, -⟩ := hexec
    exact ⟨hl.leaves.arena, H', hl.leaves.inv⟩

theorem roomyRun_inv {m : Memory} {len : ℕ} (hpos : 0 < base)
    (hend : base + len < Build.mipos32.modulus) (hlen : Build.mipos32.sizeofMdesc ≤ len)
    (hrun : ReflTransGen (RoomyStep base) (miposMmInit .mipos32 m base len) mm) :
    mm.arenaSize = len ∧ ∃ H, HeapInv .mipos32 base mm H := by
  obtain ⟨harena, H, h, -⟩ := run_inv (I := fun _ => True) hpos hend hlen trivial
    (fun h _ _ hcall => by
      obtain ⟨harena, H', h'⟩ := hcall.inv h
      exact ⟨harena, H', h', trivial⟩) hrun
  exact ⟨harena, H, h⟩

end

/-- **The decisions of the 32-bit build.**  On a well-formed heap they are those
of exact arithmetic exactly for roomy fits; and in a run of roomy fits no
descriptor is on both lists and no live block is handed out again. -/
theorem word32_decisions (base : ℕ) :
    (∀ {n : ℕ} {mm : Mm} {H : Blocks}, HeapInv .mipos32 base mm H →
      (SameAsExact .mipos32 mm H n ↔ H.RoomyFit Build.mipos32.sizeofMdesc n)) ∧
    ∀ {m : Memory} {len : ℕ} {mm : Mm}, 0 < base →
      base + len < Build.mipos32.modulus → Build.mipos32.sizeofMdesc ≤ len →
      ReflTransGen (RoomyStep base) (miposMmInit .mipos32 m base len) mm →
      (∃ free used, WellTiled .mipos32 base len mm free used) ∧
        ∀ n mm' r, RoomyFit .mipos32 mm n → mmAllocAux .mipos32 mm n = some (mm', r) → r ≠ 0 →
          ¬ LiveDesc .mipos32 mm r ∧ LiveDesc .mipos32 mm' r := by
  refine ⟨fun h => sameAsExact_iff h, fun hpos hend hlen hrun => ?_⟩
  obtain ⟨harena, H, h⟩ := roomyRun_inv hpos hend hlen hrun
  refine ⟨⟨_, _, harena ▸ h.wellTiled⟩, fun n mm' r hfit hexec hr => ?_⟩
  obtain ⟨H', -, -, hfresh⟩ := mmAllocAux_roomyFit h hfit hexec
  exact hfresh hr

/-- Four bytes twice out of an arena of 64: the second block is not the first. -/
theorem word32_decisions_second :
    ∃ mm mm' H, ReflTransGen (RoomyStep 64) (miposMmInit .mipos32 (fun _ => 0) 64 64) mm ∧
      LiveDesc .mipos32 mm 112 ∧ HeapInv .mipos32 64 mm H ∧ SameAsExact .mipos32 mm H 4 ∧
      mmAllocAux .mipos32 mm 4 = some (mm', 96) ∧ ¬ LiveDesc .mipos32 mm 96 ∧
      LiveDesc .mipos32 mm' 96 ∧ ∃ free used, WellTiled .mipos32 64 64 mm free used := by
  have hroom : ∀ {mm : Mm}, StoredList .mipos32 mm.mem mm.freeMemory [64] →
      16 ≤ mdescGetsize .mipos32 mm.mem 64 → RoomyFit .mipos32 mm 4 := by
    intro mm hfree hsize
    refine ⟨[64], hfree, ?_, Or.inr ⟨64, by decide, hsize⟩⟩
    intro d hd
    rw [List.mem_singleton.mp hd]
    omega
  have heval : ∃ p, mmAllocAux .mipos32 (miposMmInit .mipos32 (fun _ => 0) 64 64) 4 = some p ∧
      StoredList .mipos32 p.1.mem p.1.freeMemory [64] ∧ 16 ≤ mdescGetsize .mipos32 p.1.mem 64 ∧
      StoredList .mipos32 p.1.mem p.1.usedMemory [112] ∧
      ∃ mm', mmAllocAux .mipos32 p.1 4 = some (mm', 96) := by decide +kernel
  obtain ⟨⟨mm, r⟩, hexec, hfree, hsize, hused, mm', hexec'⟩ := heval
  have hrun : ReflTransGen (RoomyStep 64) (miposMmInit .mipos32 (fun _ => 0) 64 64) mm :=
    .single ⟨[()], .call (.allocAux 4 (hroom (by decide +kernel) (by decide +kernel)) hexec)⟩
  obtain ⟨-, H, h⟩ := roomyRun_inv (by omega) (by decide) (by decide) hrun
  have hfit := hroom hfree hsize
  obtain ⟨hsame, hruns⟩ := word32_decisions 64
  obtain ⟨htiled, hfresh⟩ := hruns (by omega) (by decide) (by decide) hrun
  obtain ⟨hnot, hlive⟩ := hfresh 4 mm' 96 hfit hexec' (by decide)
  exact ⟨mm, mm', H, hrun, ⟨_, hused, by decide⟩, h, (hsame h).mpr (h.roomyFit_iff.mp hfit),
    hexec', hnot, hlive, htiled⟩

/-- **An exact fit**: four bytes out of the only block, which has four.  The
block ends up on the free list and on the used list. -/
theorem word32_exact_fit :
    HeapInv .mipos32 64 (miposMmInit .mipos32 (fun _ => 0) 64 16) ⟨[⟨64, 4⟩], []⟩ ∧
      ¬ SameAsExact .mipos32 (miposMmInit .mipos32 (fun _ => 0) 64 16) ⟨[⟨64, 4⟩], []⟩ 4 ∧
      ∃ mm', mmAllocAux .mipos32 (miposMmInit .mipos32 (fun _ => 0) 64 16) 4 = some (mm', 64) ∧
        FreeDesc .mipos32 mm' 64 ∧ LiveDesc .mipos32 mm' 64 := by
  have hinv : HeapInv .mipos32 64 (miposMmInit .mipos32 (fun _ => 0) 64 16) ⟨[⟨64, 4⟩], []⟩ :=
    miposMmInit_inv _ (by omega) (by decide) (by decide)
  have hfind : findFree 4 [(⟨64, 4⟩ : Block)] none = some ⟨64, 4⟩ := rfl
  refine ⟨hinv, not_sameAsExact_of_exactFit hinv hfind rfl, ?_⟩
  have hstate : (mmAllocAux .mipos32 (miposMmInit .mipos32 (fun _ => 0) 64 16) 4).map
      (fun p => (p.2, p.1.freeMemory, p.1.usedMemory, mdescNext .mipos32 p.1.mem 64,
        mdescPrev .mipos32 p.1.mem 64)) = some (64, 64, 64, 0, 0) := by decide
  obtain ⟨⟨mm', r⟩, hexec, hr⟩ := Option.map_eq_some_iff.mp hstate
  simp only [Prod.mk.injEq] at hr
  obtain ⟨rfl, hfree, hused, hnext, hprev⟩ := hr
  have hlist : IsList (mdescNext .mipos32 mm'.mem) (mdescPrev .mipos32 mm'.mem) [64] :=
    isList_singleton (by omega) hnext hprev
  exact ⟨mm', hexec, ⟨[64], ⟨hfree, hlist⟩, by simp⟩, ⟨[64], ⟨hused, hlist⟩, by simp⟩⟩

end Malloc
