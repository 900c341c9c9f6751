/-
The calls of the allocator's interface, on a heap in the invariant.

Compaction, allocation with its second chance, `mipos_calloc` and
`mipos_mm_realloc` are put together from the steps of `MallocSimulation`:

* `miposMmCompactFreemem_sim` — compaction returns, leaves the used blocks
  alone, and stops early only with enough bytes in one block;
* `miposMmAlloc_cases`, `miposCalloc_sim` — a result is the payload of a new
  block that is large enough;
* `miposMmRealloc_sim` — reallocation returns unless its allocation fails.

Each call takes the pointers of its `gone` blocks out of use and its result
into use, and no others (`Accounts`), and changes the heap by steps of
`Blocks.Change`.

Everything is for allocations that cut a block only where there is room for a
descriptor (`AllocSound`).  In a build whose split test is sound
(`Build.SplitSound`) all of them do.
-/
import Mipos.MallocSimulation

namespace Malloc

open Tiling DoublyLinked

/-- The split test cuts a block only where the request and a descriptor fit. -/
def Build.SplitSound (b : Build) : Prop :=
  ∀ blockSize n, n ≤ blockSize → blockSize + b.sizeofMdesc < b.modulus →
    splits b blockSize n = true → n + b.sizeofMdesc ≤ blockSize

variable {b : Build} {base n size : ℕ} {mm mm' : Mm} {H H' : Blocks} {x y : Block} {m' : Memory}

/-! ### Compaction -/

theorem Blocks.length_fuse (hy : y ∈ H.free) :
    (H.fuse b.sizeofMdesc x y).free.length + 1 = H.free.length := by
  have hlen : (H.fuse b.sizeofMdesc x y).free.length = (H.free.erase y).length := List.length_map _
  have hpos := List.length_pos_of_mem hy
  rw [hlen, List.length_erase_of_mem hy]
  omega

theorem Blocks.mem_fuse (hx : x ∈ H.free) (hxy : x ≠ y) :
    (⟨x.addr, x.size + y.size + b.sizeofMdesc⟩ : Block) ∈ (H.fuse b.sizeofMdesc x y).free := by
  refine List.mem_map.mpr ⟨x, (List.mem_erase_of_ne hxy).mpr hx, ?_⟩
  rw [Block.resize, if_pos rfl]

/-- What compaction leaves: `r` is the size of a block or `0`, and the loop
ran to its end or has the bytes it was asked for. -/
structure Compacted (b : Build) (base needed : ℕ) (H : Blocks) (mm mm' : Mm) (r : ℕ)
    (H' : Blocks) : Prop where
  leaves : Leaves b base H.used mm mm' H'
  used_eq : H'.used = H.used
  size : r = 0 ∨ ∃ x ∈ H'.free, x.size = r
  done : (∀ x ∈ H'.free, ∀ y ∈ H'.free, ¬ x.Touches b.sizeofMdesc y) ∨ (needed ≠ 0 ∧ needed ≤ r)

/-- What compaction does to the free space: the same bytes are free, and there is a block of
`needed` bytes only if there was one or the loop ended with it. -/
structure Fused (hdr needed : ℕ) (H : Blocks) (r : ℕ) (H' : Blocks) : Prop where
  bytes : ∀ a, H'.FreeByte hdr a ↔ H.FreeByte hdr a
  small : (∀ x ∈ H.free, x.size < needed) → needed ≤ r ∨ ∀ x ∈ H'.free, x.size < needed

/-- Merging a block with one that touches it, in the order the source passes
the two. -/
theorem merge_touching (h : HeapInv b base mm H) (hx : x ∈ H.free) (hy : y ∈ H.free)
    (htouch : x.Touches b.sizeofMdesc y) :
    ∃ z w, z ∈ H.free ∧ w ∈ H.free ∧ z ≠ w ∧ z.addr + (b.sizeofMdesc + z.size) = w.addr ∧
      (mmFindContFreeMb b mm y.addr x.addr).2 = z.addr ∧
      Leaves b base H.used mm (mmFindContFreeMb b mm y.addr x.addr).1
        (H.fuse b.sizeofMdesc z w) := by
  obtain ⟨hxy, hleft | hright⟩ := htouch
  · -- `y` ends where `x` starts
    obtain ⟨hz, -, hleaves⟩ := mmFindContFreeMb_sim h hy hx hleft
    exact ⟨y, x, hy, hx, Ne.symm hxy, hleft, hz, hleaves⟩
  · obtain ⟨hz, hcomm, hleaves⟩ := mmFindContFreeMb_sim h hx hy hright
    rw [hcomm]
    exact ⟨x, y, hx, hy, hxy, hright, hz, hleaves⟩

/-- The loop, at a cell of the free list before which no block touches
another.  A merge makes the free list shorter and starts over, so the fuel
counts a whole walk for each block. -/
theorem miposMmCompactFreememLoop_sim (needed : ℕ) :
    ∀ (fuel : ℕ) (mm : Mm) (H : Blocks) (l₁ l : List Block) (r : ℕ), HeapInv b base mm H →
      H.free = l₁ ++ l →
      (∀ x ∈ l₁, ∀ y ∈ H.free, ¬ x.Touches b.sizeofMdesc y) →
      (r = 0 ∨ ∃ x ∈ H.free, x.size = r) →
      H.free.length * mm.arenaSize + l.length < fuel →
      ∃ mm' r' H', miposMmCompactFreememLoop b needed fuel mm ((l.map Block.addr).headD 0) r
          = some (mm', r') ∧ Compacted b base needed H mm mm' r' H' ∧
        Fused b.sizeofMdesc needed H r' H' ∧ Blocks.Changes b.sizeofMdesc n H H' := by
  intro fuel
  induction fuel with
  | zero =>
    intro mm H l₁ l r _ _ _ _ hfuel
    omega
  | succ fuel ih =>
    intro mm H l₁ l r h hl hapart hr hfuel
    rcases l with _ | ⟨x, l⟩
    · -- the end of the list
      refine ⟨mm, r, H, ?_, ⟨Leaves.refl h, rfl, hr, Or.inl fun x hx => hapart x ?_⟩, ?_, .refl H⟩
      · rw [List.map_nil, List.headD_nil, miposMmCompactFreememLoop, if_pos rfl]
      · rwa [hl, List.append_nil] at hx
      · exact ⟨fun _ => Iff.rfl, Or.inr⟩
    have hx : x ∈ H.free := by simp [hl]
    have hxa := Blocks.mem_all_of_free hx
    rw [List.map_cons, List.headD_cons, miposMmCompactFreememLoop, if_neg (h.addr_ne_zero hxa),
      mmFindContFreePredMb_eq h hx]
    simp only [Option.bind_eq_bind, Option.bind_some]
    rcases hfind : H.free.find? (fun y => x.Touches b.sizeofMdesc y) with _ | y
    · -- nothing touches `x`: on to the next cell
      have hnone : ∀ y ∈ H.free, ¬ x.Touches b.sizeofMdesc y := by
        simpa using hfind
      have hnext : mdescNext b mm.mem x.addr = (l.map Block.addr).headD 0 :=
        next_eq_of_isList (hl ▸ h.free_list)
      have hzero : ptrOf none = 0 := rfl
      rw [if_neg (by rw [hzero]; exact fun e => e rfl), hnext]
      refine ih mm H (l₁ ++ [x]) l r h (by simp [hl]) ?_ hr ?_
      · intro z hz
        rcases List.mem_append.mp hz with hz | hz
        · exact hapart z hz
        · rw [List.mem_singleton.mp hz]
          exact hnone
      · rw [List.length_cons] at hfuel
        omega
    · -- a merge
      have hy : y ∈ H.free := List.mem_of_find?_eq_some hfind
      have htouch : x.Touches b.sizeofMdesc y := by simpa using List.find?_some hfind
      have hptr : ptrOf (some y) = y.addr := rfl
      have hy0 : y.addr ≠ 0 := h.addr_ne_zero (Blocks.mem_all_of_free hy)
      obtain ⟨z, w, hz, hw, hzw, hadj, hptr', hleaves⟩ := merge_touching h hx hy htouch
      set mm₁ := (mmFindContFreeMb b mm y.addr x.addr).1 with hmm₁
      set H₁ := H.fuse b.sizeofMdesc z w with hH₁
      have hinv := hleaves.inv
      have hmem : (⟨z.addr, z.size + w.size + b.sizeofMdesc⟩ : Block) ∈ H₁.free :=
        Blocks.mem_fuse hz hzw
      have hsize : mdescGetsize b mm₁.mem z.addr = z.size + w.size + b.sizeofMdesc :=
        hinv.size_eq _ (Blocks.mem_all_of_free hmem)
      have hused : H₁.used = H.used := rfl
      have hchange : Blocks.Changes b.sizeofMdesc n H H₁ := (Blocks.Change.fuse hz hw hadj).changes
      have hbytes : ∀ a, H₁.FreeByte b.sizeofMdesc a ↔ H.FreeByte b.sizeofMdesc a :=
        h.tiled.fuse_freeByte hz hw hzw hadj
      rw [if_pos (by rw [hptr]; exact hy0), hptr, hptr', hsize]
      by_cases henough : needed ≠ 0 ∧ z.size + w.size + b.sizeofMdesc ≥ needed
      · rw [if_pos henough]
        exact ⟨mm₁, _, H₁, rfl, ⟨hleaves, hused, Or.inr ⟨_, hmem, rfl⟩, Or.inr henough⟩,
          ⟨hbytes, fun _ => Or.inl henough.2⟩, hchange⟩
      · rw [if_neg henough, hinv.free_head]
        have hfuel₁ : H₁.free.length * mm₁.arenaSize + H₁.free.length < fuel := by
          have hlen : H₁.free.length + 1 = H.free.length := Blocks.length_fuse hw
          have hlt := h.length_free_lt
          have hmul : H.free.length * mm.arenaSize
              = H₁.free.length * mm.arenaSize + mm.arenaSize := by
            rw [← hlen, Nat.succ_mul]
          rw [hleaves.arena]
          rw [List.length_cons] at hfuel
          unfold Mm.fuel at hlt
          omega
        obtain ⟨mm', r', H', hrun, hc, hf, hchanges⟩ := ih mm₁ H₁ [] H₁.free _ hinv rfl (by simp)
          (Or.inr ⟨_, hmem, rfl⟩) hfuel₁
        refine ⟨mm', r', H', hrun, ⟨hleaves.trans hc.leaves fun u hu => hu,
          hc.used_eq.trans hused, hc.size, hc.done⟩, ⟨fun a => (hf.bytes a).trans (hbytes a), ?_⟩,
          hchange.trans hchanges⟩
        -- the block that was made is too small as well
        intro hsmall
        refine hf.small fun v hv => ?_
        rcases (h.tiled.mem_fuse_free hz hzw).mp hv with rfl | ⟨hv, -, -⟩
        · have hzneed := hsmall z hz
          show z.size + w.size + b.sizeofMdesc < needed
          omega
        · exact hsmall v hv

/-- **Compaction returns** and leaves the used blocks as they are. -/
theorem miposMmCompactFreemem_changes (h : HeapInv b base mm H) (needed : ℕ) :
    ∃ mm' r H', miposMmCompactFreemem b mm needed = some (mm', r) ∧
      Compacted b base needed H mm mm' r H' ∧ Fused b.sizeofMdesc needed H r H' ∧
      Blocks.Changes b.sizeofMdesc n H H' := by
  rw [miposMmCompactFreemem, h.free_head]
  refine miposMmCompactFreememLoop_sim needed _ mm H [] H.free 0 h rfl (by simp) (Or.inl rfl) ?_
  have hlt := h.length_free_lt
  unfold Mm.fuel at hlt ⊢
  have hle : H.free.length * mm.arenaSize ≤ mm.arenaSize * mm.arenaSize :=
    Nat.mul_le_mul_right _ (by omega)
  have hsq : (mm.arenaSize + 1) * (mm.arenaSize + 1)
      = mm.arenaSize * mm.arenaSize + mm.arenaSize + mm.arenaSize + 1 := by ring
  omega

theorem miposMmCompactFreemem_sim (h : HeapInv b base mm H) (needed : ℕ) :
    ∃ mm' r H', miposMmCompactFreemem b mm needed = some (mm', r) ∧
      Compacted b base needed H mm mm' r H' ∧ Fused b.sizeofMdesc needed H r H' := by
  obtain ⟨mm', r, H', hrun, hc, hf, -⟩ := miposMmCompactFreemem_changes (n := 0) h needed
  exact ⟨mm', r, H', hrun, hc, hf⟩

/-! ### Allocation -/

/-- `mm_alloc_aux` cuts the block that it finds for `n` bytes only where there is room. -/
def CutsSoundly (b : Build) (mm : Mm) (n : ℕ) : Prop :=
  ∀ d, mmFindFree b mm n = some d → d ≠ 0 → splits b (mdescGetsize b mm.mem d) n = true →
    n + b.sizeofMdesc ≤ mdescGetsize b mm.mem d

/-- So do both attempts of `mipos_mm_alloc`. -/
def AllocSound (b : Build) (mm : Mm) (size : ℕ) : Prop :=
  size ≠ 0 → CutsSoundly b mm (alignedSize b size) ∧
    ∀ mm₁ mm₂ r, mmAllocAux b mm (alignedSize b size) = some (mm₁, 0) →
      miposMmCompactFreemem b mm₁ (alignedSize b size) = some (mm₂, r) →
      CutsSoundly b mm₂ (alignedSize b size)

/-- The block that was chosen has room where it is cut. -/
theorem HeapInv.cutsSoundly_iff (h : HeapInv b base mm H) :
    CutsSoundly b mm n ↔ ∀ y, findFree n H.free none = some y → splits b y.size n = true →
      n + b.sizeofMdesc ≤ y.size := by
  rw [CutsSoundly, mmFindFree_eq h]
  constructor
  · intro hsound y hfind
    have hy := Blocks.mem_all_of_free (findFree_some hfind).1
    rw [← h.size_eq y hy]
    exact hsound y.addr (by rw [hfind]; rfl) (h.addr_ne_zero hy)
  · intro hroom d hd hd0
    rcases hfind : findFree n H.free none with _ | y
    · rw [hfind] at hd
      exact absurd (Option.some.inj hd).symm hd0
    · rw [hfind] at hd
      obtain rfl : y.addr = d := Option.some.inj hd
      rw [h.size_eq y (Blocks.mem_all_of_free (findFree_some hfind).1)]
      exact hroom y hfind

/-- What an allocation of `n` bytes returns: null, or the payload of a new
used block of at least `n` bytes. -/
def AllocResult (b : Build) (n : ℕ) (H : Blocks) (r : ℕ) (H' : Blocks) : Prop :=
  (r = 0 ∧ H'.used = H.used) ∨
    ∃ x, r = x.addr + b.sizeofMdesc ∧ n ≤ x.size ∧ H'.used = pushAfterHead x H.used

/-- A sound test leaves room in the chosen block. -/
theorem Build.SplitSound.room (hb : b.SplitSound) (h : HeapInv b base mm H) (n : ℕ) :
    ∀ y, findFree n H.free none = some y → splits b y.size n = true →
      n + b.sizeofMdesc ≤ y.size := by
  intro y hfind
  obtain ⟨hy, hny, -⟩ := findFree_some hfind
  have := h.size_lt (Blocks.mem_all_of_free hy)
  exact hb y.size n hny (by omega)

/-- What `mm_alloc_aux` returns, when there is room where it cuts. -/
theorem mmAllocAux_result (h : HeapInv b base mm H)
    (hroom : ∀ y, findFree n H.free none = some y → splits b y.size n = true →
      n + b.sizeofMdesc ≤ y.size) :
    ∃ mm' o H', mmAllocAux b mm n = some (mm', ptrOf o) ∧ Leaves b base H.used mm mm' H' ∧
      ((o = none ∧ H' = H ∧ ∀ y ∈ H.free, y.size < n) ∨
        ∃ x, o = some x ∧ n ≤ x.size ∧ H'.used = pushAfterHead x H.used ∧
          ∃ y ∈ H.free, n ≤ y.size) ∧
      Blocks.Changes b.sizeofMdesc n H H' := by
  obtain ⟨mm', hrun, hleaves⟩ := mmAllocAux_sim h hroom
  refine ⟨mm', _, _, hrun, hleaves, ?_, Blocks.allocAux_changes hroom⟩
  rw [Blocks.allocAux]
  rcases hfind : findFree n H.free none with _ | x
  · exact Or.inl ⟨rfl, rfl, findFree_none hfind⟩
  obtain ⟨hx, hnx, -, -⟩ := findFree_some hfind
  by_cases hs : splits b x.size n = true
  · simp only [if_pos hs]
    exact Or.inr ⟨_, rfl, le_of_eq rfl, rfl, x, hx, hnx⟩
  · simp only [if_neg hs]
    exact Or.inr ⟨_, rfl, hnx, rfl, x, hx, hnx⟩

/-- With a sound test all allocations are sound. -/
theorem Build.SplitSound.allocSound (hb : b.SplitSound) (h : HeapInv b base mm H) (size : ℕ) :
    AllocSound b mm size := by
  refine fun _ => ⟨h.cutsSoundly_iff.mpr (hb.room h _), fun mm₁ mm₂ r hfirst hcompact => ?_⟩
  obtain ⟨mm', o, H₁, hrun, hleaves, -⟩ := mmAllocAux_result h (hb.room h (alignedSize b size))
  rw [hrun, Option.some_inj, Prod.mk.injEq] at hfirst
  obtain ⟨rfl, -⟩ := hfirst
  obtain ⟨mm'', r', H₂, hrun₂, hc, -⟩ :=
    miposMmCompactFreemem_sim hleaves.inv (alignedSize b size)
  rw [hrun₂, Option.some_inj, Prod.mk.injEq] at hcompact
  obtain ⟨rfl, -⟩ := hcompact
  exact hc.leaves.inv.cutsSoundly_iff.mpr (hb.room hc.leaves.inv _)

/-- A block that an allocation took is not null, and neither is its payload. -/
theorem HeapInv.pushed_block {l : List Block} (h : HeapInv b base mm H)
    (hused : H.used = pushAfterHead x l) :
    x.addr ≠ 0 ∧ mdescGetDataAddr b x.addr = x.addr + b.sizeofMdesc := by
  have hx : x ∈ H.all := Blocks.mem_all_of_used (by rw [hused]; simp)
  exact ⟨h.addr_ne_zero hx, h.dataAddr_eq hx⟩

/-- Where an allocation of `n` bytes found what it returns, `r`: in a free block, or else in
one that compaction has left. -/
def AllocSource (b : Build) (base n : ℕ) (H : Blocks) (mm : Mm) (r : ℕ) : Prop :=
  (r ≠ 0 ∧ ∃ y ∈ H.free, n ≤ y.size) ∨
    ∃ mm₂ bytes H₂, (∀ y ∈ H.free, y.size < n) ∧ Compacted b base n H mm mm₂ bytes H₂ ∧
      Fused b.sizeofMdesc n H bytes H₂ ∧ (r ≠ 0 → ∃ y ∈ H₂.free, n ≤ y.size) ∧
      (r = 0 → bytes < n ∨ ∀ y ∈ H₂.free, y.size < n)

/-- **`mipos_mm_alloc`** returns null or a new block, also when it has to
compact first. -/
theorem miposMmAlloc_cases (h : HeapInv b base mm H) (hs : AllocSound b mm size)
    (hsize : size ≠ 0) :
    ∃ mm' r H', miposMmAlloc b mm size = some (mm', r) ∧ Leaves b base H.used mm mm' H' ∧
      AllocResult b (alignedSize b size) H r H' ∧
      AllocSource b base (alignedSize b size) H mm r ∧
      Blocks.Changes b.sizeofMdesc (alignedSize b size) H H' := by
  have hpos := b.sizeofMdesc_pos
  rw [miposMmAlloc, if_neg hsize]
  obtain ⟨hfirst, hsecond⟩ := hs hsize
  set n := alignedSize b size with hn
  obtain ⟨mm₁, o, H₁, hrun, hleaves, ⟨rfl, rfl, hsmall⟩ | ⟨x, rfl, hnx, hused, hroom⟩, hchanges⟩ :=
    mmAllocAux_result h (h.cutsSoundly_iff.mp hfirst)
  · -- no block: compaction, and a second chance if it found enough
    obtain ⟨mm₂, r, H₂, hcompact, hc, hf, hchanges₂⟩ :=
      miposMmCompactFreemem_changes (n := n) hleaves.inv n
    have hleaves₂ := hleaves.trans hc.leaves fun u hu => hu
    have hc' : Compacted b base n H₁ mm mm₂ r H₂ := ⟨hleaves₂, hc.used_eq, hc.size, hc.done⟩
    have hnull : ptrOf none = 0 := rfl
    simp only [hrun, hcompact, Option.bind_eq_bind, Option.bind_some, hnull, ne_eq,
      not_true_eq_false, if_false]
    by_cases henough : r ≥ n
    · rw [if_pos henough]
      have hroom₂ := hc.leaves.inv.cutsSoundly_iff.mp (hsecond mm₁ mm₂ r hrun hcompact)
      obtain ⟨mm₃, o, H₃, hrun₃, hleaves₃, ⟨rfl, rfl, hsmall₂⟩ | ⟨x, rfl, hnx, hused, hroom⟩,
        hchanges₃⟩ := mmAllocAux_result hc.leaves.inv hroom₂
      · refine ⟨mm₃, 0, H₃, by simp [hrun₃, ptrOf], ?_, Or.inl ⟨rfl, hc.used_eq⟩, Or.inr
          ⟨mm₂, r, H₃, hsmall, hc', hf, fun h0 => absurd rfl h0, fun _ => Or.inr hsmall₂⟩, hchanges₂⟩
        exact hleaves₂.trans hleaves₃ fun u hu => hc.used_eq ▸ hu
      · obtain ⟨hx0, hdata⟩ := hleaves₃.inv.pushed_block hused
        refine ⟨mm₃, x.addr + b.sizeofMdesc, H₃, by simp [hrun₃, ptrOf, hx0, hdata], ?_,
          Or.inr ⟨x, rfl, hnx, by rw [hused, hc.used_eq]⟩, Or.inr
          ⟨mm₂, r, H₂, hsmall, hc', hf, fun _ => hroom, fun h0 => by omega⟩,
          hchanges₂.trans hchanges₃⟩
        exact hleaves₂.trans hleaves₃ fun u hu => hc.used_eq ▸ hu
    · rw [if_neg henough]
      exact ⟨mm₂, 0, H₂, rfl, hleaves₂, Or.inl ⟨rfl, hc.used_eq⟩, Or.inr
        ⟨mm₂, r, H₂, hsmall, hc', hf, fun h0 => absurd rfl h0, fun _ => Or.inl (by omega)⟩, hchanges₂⟩
  · obtain ⟨hx0, hdata⟩ := hleaves.inv.pushed_block hused
    refine ⟨mm₁, x.addr + b.sizeofMdesc, H₁, ?_, hleaves, Or.inr ⟨x, rfl, hnx, hused⟩,
      Or.inl ⟨by omega, hroom⟩, hchanges⟩
    simp [hrun, ptrOf, hx0, hdata]

theorem miposMmAlloc_sim (h : HeapInv b base mm H) (hs : AllocSound b mm size) :
    ∃ mm' r H', miposMmAlloc b mm size = some (mm', r) ∧ Leaves b base H.used mm mm' H' ∧
      AllocResult b (alignedSize b size) H r H' ∧
      Blocks.Changes b.sizeofMdesc (alignedSize b size) H H' := by
  by_cases hsize : size = 0
  · rw [miposMmAlloc, if_pos hsize]
    exact ⟨mm, 0, H, rfl, Leaves.refl h, Or.inl ⟨rfl, rfl⟩, .refl H⟩
  obtain ⟨mm', r, H', hrun, hleaves, hres, -, hchanges⟩ := miposMmAlloc_cases h hs hsize
  exact ⟨mm', r, H', hrun, hleaves, hres, hchanges⟩

/-- The aligned size is not below the size, unless it wraps. -/
theorem le_alignedSize (hsize : size + 4 ≤ b.modulus) : size ≤ alignedSize b size := by
  rw [alignedSize, Nat.mod_eq_of_lt (by omega)]
  omega

/-! ### Writing to payloads -/

/-- Writes that avoid the descriptors keep the invariant. -/
theorem HeapInv.of_eqOff {P : ℕ → Prop} (h : HeapInv b base mm H) (hoff : EqOff P mm.mem m')
    (hP : ∀ a, P a → ¬ InMdescs b H.IsDesc a) : HeapInv b base { mm with mem := m' } H := by
  have hfield : ∀ e, H.IsDesc e → ∀ {k : ℕ}, k < 3 →
      mdescField b m' e k = mdescField b mm.mem e k := fun e he k hk =>
    field_eq_of_eqOff hoff (fun a ha hPa => hP a hPa ⟨e, he, ha⟩) hk
  have hlist : ∀ {l : List Block}, (∀ y ∈ l, y ∈ H.all) →
      IsList (mdescNext b mm.mem) (mdescPrev b mm.mem) (l.map Block.addr) →
      IsList (mdescNext b m') (mdescPrev b m') (l.map Block.addr) := by
    intro l hl hlist
    have hdesc : ∀ e ∈ l.map Block.addr, H.IsDesc e := by
      intro e he
      obtain ⟨y, hy, rfl⟩ := List.mem_map.mp he
      exact Blocks.isDesc_of_mem (hl y hy)
    exact hlist.congr (fun e he => hfield e (hdesc e he) (by omega))
      (fun e he => hfield e (hdesc e he) (by omega))
  refine ⟨⟨h.free_head, h.used_head, hlist (fun y hy => Blocks.mem_all_of_free hy) h.free_list,
    hlist (fun y hy => Blocks.mem_all_of_used hy) h.used_list, fun y hy => ?_⟩, h.tiled,
    h.base_pos, h.base_end⟩
  exact (hfield _ (Blocks.isDesc_of_mem hy) (by omega)).trans (h.size_eq y hy)

/-- A byte belongs to the payload of one block only. -/
theorem HeapInv.eq_of_inPayload (h : HeapInv b base mm H) (hx : x ∈ H.all) (hy : y ∈ H.all)
    {a : ℕ} (hxa : x.InPayload b a) (hya : y.InPayload b a) : x = y := by
  unfold Block.InPayload at hxa hya
  refine h.tiled.eq_of_holds (a := a) hx hy ?_ ?_
  · simp only [Holds, Block.span]
    omega
  · simp only [Holds, Block.span]
    omega

/-- Writes inside the payload of `x` keep the invariant and all other payloads. -/
theorem HeapInv.write_payload {keep : List Block} (h : HeapInv b base mm H) (hx : x ∈ H.all)
    (hoff : EqOff (x.InPayload b) mm.mem m') (hkeep : ∀ u ∈ keep, u ∈ H.all ∧ u ≠ x) :
    Leaves b base keep mm { mm with mem := m' } H := by
  refine ⟨h.of_eqOff hoff fun a ha => h.tiled.payload_not_inMdescs hx ha, rfl, ?_⟩
  intro u hu a ha
  refine hoff a fun hxa => (hkeep u hu).2 ?_
  exact h.eq_of_inPayload (hkeep u hu).1 hx ha hxa

/-- The block an allocation returned was not in use before. -/
theorem HeapInv.new_not_mem (h : HeapInv b base mm H') (hused : H'.used = pushAfterHead x H.used) :
    x ∉ H.used := by
  have hnodup : (x :: H.used).Nodup :=
    (pushAfterHead_perm x H.used).nodup_iff.mp (hused ▸ h.tiled.nodup_used)
  exact (List.nodup_cons.mp hnodup).1

/-! ### What a call leaves -/

/-- What every call of the interface leaves: the invariant, the blocks in use
before and after it with their payloads, and a result that is null or the
payload of a block in use. -/
structure CallLeaves (b : Build) (base : ℕ) (H : Blocks) (mm mm' : Mm) (r : ℕ) (H' : Blocks) :
    Prop where
  leaves : Leaves b base (H.used.filter (· ∈ H'.used)) mm mm' H'
  same : ∀ u ∈ H.used, ∀ v ∈ H'.used, u.addr = v.addr → u = v
  result : r ≠ 0 → ∃ x ∈ H'.used, r = x.addr + b.sizeofMdesc

theorem mem_filter_used {u : Block} (hu : u ∈ H.used.filter (· ∈ H'.used)) :
    u ∈ H.used ∧ u ∈ H'.used := by
  simpa using hu

/-- A call that keeps all payloads in use, in terms of a heap `G` that has the
used blocks from before the call and from after it. -/
theorem Leaves.callLeaves {r len : ℕ} {G : Blocks} (h : Leaves b base H.used mm mm' H')
    (ht : G.Tiled b.sizeofMdesc base len) (hbefore : ∀ u ∈ H.used, u ∈ G.all)
    (hafter : ∀ v ∈ H'.used, v ∈ G.all)
    (hr : r ≠ 0 → ∃ x ∈ H'.used, r = x.addr + b.sizeofMdesc) :
    CallLeaves b base H mm mm' r H' where
  leaves := h.mono fun _ hu => (mem_filter_used hu).1
  same u hu v hv huv := ht.eq_of_addr (hbefore u hu) (hafter v hv) huv
  result := hr

theorem AllocResult.mem_used {r : ℕ} (h : AllocResult b n H r H') (hr : r ≠ 0) :
    ∃ x ∈ H'.used, r = x.addr + b.sizeofMdesc := by
  obtain ⟨hr0, -⟩ | ⟨x, hrx, -, hused⟩ := h
  · exact absurd hr0 hr
  · exact ⟨x, by rw [hused]; simp, hrx⟩

/-- The blocks in use before an allocation are in use after it. -/
theorem AllocResult.mem_all {r : ℕ} {u : Block} (h : AllocResult b n H r H') (hu : u ∈ H.used) :
    u ∈ H'.all := by
  obtain ⟨-, hused⟩ | ⟨x, -, -, hused⟩ := h
  · exact Blocks.mem_all_of_used (hused ▸ hu)
  · exact Blocks.mem_all_of_used (by rw [hused]; simp [hu])

theorem AllocResult.callLeaves {r : ℕ} (h : AllocResult b n H r H')
    (hleaves : Leaves b base H.used mm mm' H') : CallLeaves b base H mm mm' r H' :=
  hleaves.callLeaves hleaves.inv.tiled (fun _ hu => h.mem_all hu)
    (fun _ hv => Blocks.mem_all_of_used hv) h.mem_used

theorem miposMmAlloc_leaves (h : HeapInv b base mm H) (hs : AllocSound b mm size) :
    ∃ mm' r H', miposMmAlloc b mm size = some (mm', r) ∧ CallLeaves b base H mm mm' r H' ∧
      Blocks.Changes b.sizeofMdesc (alignedSize b size) H H' := by
  obtain ⟨mm', r, H', hrun, hleaves, hres, hchanges⟩ := miposMmAlloc_sim h hs
  exact ⟨mm', r, H', hrun, hres.callLeaves hleaves, hchanges⟩

theorem Blocks.mem_freeAt {hdr ptr : ℕ} (hx : x ∈ (H.freeAt hdr ptr).1.used) : x ∈ H.used := by
  rcases hfind : H.findUsed hdr ptr with _ | z
  · rw [Blocks.freeAt, hfind] at hx
    exact hx
  · rw [Blocks.freeAt, hfind] at hx
    exact List.mem_of_mem_erase hx

theorem Leaves.freeAt_callLeaves {ptr : ℕ}
    (hleaves : Leaves b base H.used mm mm' (H.freeAt b.sizeofMdesc ptr).1)
    (h : HeapInv b base mm H) :
    CallLeaves b base H mm mm' 0 (H.freeAt b.sizeofMdesc ptr).1 :=
  hleaves.callLeaves h.tiled (fun _ hu => Blocks.mem_all_of_used hu)
    (fun _ hv => Blocks.mem_all_of_used (Blocks.mem_freeAt hv)) fun h0 => absurd rfl h0

/-- Freeing makes one change at most. -/
theorem Blocks.freeAt_changes {hdr : ℕ} (ptr : ℕ) :
    Blocks.Changes hdr n H (H.freeAt hdr ptr).1 := by
  rcases hfind : H.findUsed hdr ptr with _ | x
  · rw [Blocks.freeAt, hfind]
    exact .refl H
  · rw [Blocks.freeAt, hfind]
    exact (Blocks.Change.release (List.mem_of_find?_eq_some hfind)).changes

theorem miposMmFree_leaves (h : HeapInv b base mm H) (ptr : ℕ) :
    ∃ mm' ok H', miposMmFree b mm ptr = some (mm', ok) ∧ CallLeaves b base H mm mm' 0 H' ∧
      Blocks.Changes b.sizeofMdesc n H H' := by
  obtain ⟨mm', hrun, hleaves⟩ := miposMmFree_sim h ptr
  exact ⟨mm', _, _, hrun, hleaves.freeAt_callLeaves h, Blocks.freeAt_changes ptr⟩

theorem miposMmCompactFreemem_leaves (h : HeapInv b base mm H) (needed : ℕ) :
    ∃ mm' r H', miposMmCompactFreemem b mm needed = some (mm', r) ∧
      CallLeaves b base H mm mm' 0 H' ∧ Blocks.Changes b.sizeofMdesc n H H' := by
  obtain ⟨mm', r, H', hrun, hc, -, hchanges⟩ := miposMmCompactFreemem_changes h needed
  exact ⟨mm', r, H', hrun, hc.leaves.callLeaves h.tiled (fun _ hu => Blocks.mem_all_of_used hu)
    (fun v hv => Blocks.mem_all_of_used (hc.used_eq ▸ hv)) fun h0 => absurd rfl h0, hchanges⟩

/-- **`mipos_calloc`** clears bytes of the new block only. -/
theorem miposCalloc_sim (h : HeapInv b base mm H) {nmemb size : ℕ}
    (hs : AllocSound b mm (size * nmemb % b.modulus))
    (hsize : size * nmemb % b.modulus + 4 ≤ b.modulus) :
    ∃ mm' r H', miposCalloc b mm nmemb size = some (mm', r) ∧ Leaves b base H.used mm mm' H' ∧
      AllocResult b (alignedSize b (size * nmemb % b.modulus)) H r H' ∧
      Blocks.Changes b.sizeofMdesc (alignedSize b (size * nmemb % b.modulus)) H H' := by
  rw [miposCalloc]
  set bytes := size * nmemb % b.modulus with hbytes
  obtain ⟨mm₁, r, H₁, hrun, hleaves, hres, hchanges⟩ := miposMmAlloc_sim h hs
  simp only [hrun, Option.bind_eq_bind, Option.bind_some]
  by_cases hr : r = 0
  · rw [if_pos hr]
    exact ⟨mm₁, 0, H₁, rfl, hleaves, hr ▸ hres, hchanges⟩
  rw [if_neg hr]
  refine ⟨_, r, H₁, rfl, ?_, hres, hchanges⟩
  obtain ⟨hr0, -⟩ | ⟨x, hrx, hnx, hused⟩ := hres
  · exact absurd hr0 hr
  have hx : x ∈ H₁.used := by
    rw [hused]
    simp
  have hle := le_alignedSize (b := b) hsize
  have hoff : EqOff (x.InPayload b) mm₁.mem (mm₁.mem.fill r bytes 0) := by
    intro a ha
    unfold Block.InPayload at ha
    exact Memory.fill_of_not_mem _ _ (by omega)
  have hkeep : ∀ u ∈ H.used, u ∈ H₁.all ∧ u ≠ x := by
    intro u hu
    refine ⟨Blocks.mem_all_of_used (by rw [hused]; simp [hu]), ?_⟩
    rintro rfl
    exact hleaves.inv.new_not_mem hused hu
  exact hleaves.trans (hleaves.inv.write_payload (Blocks.mem_all_of_used hx) hoff hkeep)
    fun u hu => hu

theorem miposCalloc_leaves (h : HeapInv b base mm H) {nmemb size : ℕ}
    (hs : AllocSound b mm (size * nmemb % b.modulus))
    (hsize : size * nmemb % b.modulus + 4 ≤ b.modulus) :
    ∃ mm' r H', miposCalloc b mm nmemb size = some (mm', r) ∧ CallLeaves b base H mm mm' r H' ∧
      Blocks.Changes b.sizeofMdesc (alignedSize b (size * nmemb % b.modulus)) H H' := by
  obtain ⟨mm', r, H', hrun, hleaves, hres, hchanges⟩ := miposCalloc_sim h hs hsize
  exact ⟨mm', r, H', hrun, hres.callLeaves hleaves, hchanges⟩

/-! ### The pointers in use -/

/-- A block in use has its payload at `p`. -/
def Blocks.Uses (hdr : ℕ) (H : Blocks) (p : ℕ) : Prop := ∃ x ∈ H.used, p = x.addr + hdr

/-- The pointers in use after a call: what it returns, and those from before that are not
`gone`. -/
def Accounts (hdr : ℕ) (gone : ℕ → Prop) (H : Blocks) (r : ℕ) (H' : Blocks) : Prop :=
  ∀ p, H'.Uses hdr p ↔ (p = r ∧ r ≠ 0) ∨ (H.Uses hdr p ∧ ¬ gone p)

theorem Blocks.Uses.ne_zero {p : ℕ} (h : H.Uses b.sizeofMdesc p) : p ≠ 0 := by
  obtain ⟨x, -, rfl⟩ := h
  have := b.sizeofMdesc_pos
  omega

theorem Blocks.uses_congr {hdr p : ℕ} (h : H'.used = H.used) : H'.Uses hdr p ↔ H.Uses hdr p := by
  rw [Blocks.Uses, Blocks.Uses, h]

theorem Blocks.uses_push {hdr p : ℕ} (h : H'.used = pushAfterHead x H.used) :
    H'.Uses hdr p ↔ p = x.addr + hdr ∨ H.Uses hdr p := by
  simp [Blocks.Uses, h, or_and_right, exists_or]

theorem AllocResult.accounts {r : ℕ} {gone : ℕ → Prop} (h : AllocResult b n H r H')
    (hgone : ∀ p, H.Uses b.sizeofMdesc p → ¬ gone p) :
    Accounts b.sizeofMdesc gone H r H' := by
  intro p
  have hkeep : (H.Uses b.sizeofMdesc p ∧ ¬ gone p) ↔ H.Uses b.sizeofMdesc p :=
    and_iff_left_of_imp (hgone p)
  rw [hkeep]
  obtain ⟨rfl, hused⟩ | ⟨x, rfl, -, hused⟩ := h
  · rw [Blocks.uses_congr hused]
    exact (or_iff_right fun e => e.2 rfl).symm
  · have hpos := b.sizeofMdesc_pos
    rw [Blocks.uses_push hused, and_iff_left (by omega)]

/-- The block at a pointer, as the list walk finds it. -/
theorem Blocks.findUsed_some {hdr ptr : ℕ} (hfind : H.findUsed hdr ptr = some x) :
    x ∈ H.used ∧ ptr = x.addr + hdr :=
  ⟨List.mem_of_find?_eq_some hfind, by simpa using List.find?_some hfind⟩

theorem Blocks.findUsed_none {hdr ptr : ℕ} : H.findUsed hdr ptr = none ↔ ¬ H.Uses hdr ptr := by
  simp [Blocks.findUsed, Blocks.Uses]

/-- Freeing takes the one block at the pointer out of use. -/
theorem HeapInv.uses_freeAt (h : HeapInv b base mm H) {ptr p : ℕ} :
    (H.freeAt b.sizeofMdesc ptr).1.Uses b.sizeofMdesc p ↔ H.Uses b.sizeofMdesc p ∧ p ≠ ptr := by
  rw [Blocks.freeAt]
  rcases hfind : H.findUsed b.sizeofMdesc ptr with _ | x
  · refine (and_iff_left_of_imp ?_).symm
    rintro huse rfl
    exact Blocks.findUsed_none.mp hfind huse
  obtain ⟨hx, rfl⟩ := Blocks.findUsed_some hfind
  constructor
  · rintro ⟨y, hy, rfl⟩
    refine ⟨⟨y, List.mem_of_mem_erase hy, rfl⟩, fun e => ?_⟩
    have hyx := h.tiled.eq_of_addr (Blocks.mem_all_of_used (List.mem_of_mem_erase hy))
      (Blocks.mem_all_of_used hx) (by omega)
    exact h.tiled.nodup_used.not_mem_erase (hyx ▸ hy)
  · rintro ⟨⟨y, hy, rfl⟩, hne⟩
    refine ⟨y, (List.mem_erase_of_ne ?_).mpr hy, rfl⟩
    rintro rfl
    exact hne rfl

theorem HeapInv.freeAt_accounts (h : HeapInv b base mm H) (ptr : ℕ) :
    Accounts b.sizeofMdesc (· = ptr) H 0 (H.freeAt b.sizeofMdesc ptr).1 := by
  intro p
  rw [h.uses_freeAt]
  exact (or_iff_right fun e => e.2 rfl).symm

/-! ### Reallocation -/

theorem getPartPtrAllocatedMemSize_eq (h : HeapInv b base mm H) (ptr : ℕ) :
    getPartPtrAllocatedMemSize b mm ptr
      = some (((H.findUsed b.sizeofMdesc ptr).map Block.size).getD 0) := by
  rw [getPartPtrAllocatedMemSize, mmFindUsed_eq h]
  rcases hfind : H.findUsed b.sizeofMdesc ptr with _ | x
  · rfl
  · have hx := Blocks.mem_all_of_used (Blocks.findUsed_some hfind).1
    have hx0 := h.addr_ne_zero hx
    simp [ptrOf, hx0, h.size_eq x hx]

/-- The allocation inside `mipos_mm_realloc` is reached and returns null. -/
def ReallocFails (b : Build) (mm : Mm) (ptr size : ℕ) : Prop :=
  ptr ≠ 0 ∧ (∃ mm', miposMmAlloc b mm size = some (mm', 0)) ∧
    ∃ allocSize, getPartPtrAllocatedMemSize b mm ptr = some allocSize ∧
      0 < allocSize ∧ 0 < size ∧ ¬ size < allocSize

/-- The walk over the used list finds the block whose payload starts at the
pointer. -/
theorem HeapInv.findUsed_eq (h : HeapInv b base mm H) (hx : x ∈ H.used) :
    H.findUsed b.sizeofMdesc (x.addr + b.sizeofMdesc) = some x := by
  rcases hfind : H.findUsed b.sizeofMdesc (x.addr + b.sizeofMdesc) with _ | y
  · exact absurd ⟨x, hx, rfl⟩ (Blocks.findUsed_none.mp hfind)
  · obtain ⟨hy, hyx⟩ := Blocks.findUsed_some hfind
    rw [h.tiled.eq_of_addr (Blocks.mem_all_of_used hy) (Blocks.mem_all_of_used hx) (by omega)]

theorem HeapInv.allocatedMemSize_eq (h : HeapInv b base mm H) (hx : x ∈ H.used) :
    getPartPtrAllocatedMemSize b mm (x.addr + b.sizeofMdesc) = some x.size := by
  rw [getPartPtrAllocatedMemSize_eq h, h.findUsed_eq hx]
  rfl

/-- A block that is large enough stays where it is. -/
theorem miposMmRealloc_stays (h : HeapInv b base mm H) (hx : x ∈ H.used)
    (hpos : 0 < size) (hlt : size < x.size) :
    miposMmRealloc b mm (x.addr + b.sizeofMdesc) size = some (mm, x.addr + b.sizeofMdesc) := by
  have hptr : x.addr + b.sizeofMdesc ≠ 0 := by
    have := b.sizeofMdesc_pos
    omega
  rw [miposMmRealloc, if_neg hptr, h.allocatedMemSize_eq hx]
  simp only [Option.bind_eq_bind, Option.bind_some]
  rw [if_pos ⟨hpos, hlt⟩]
  rfl

/-- Where there is nothing to copy, the block is freed and the result is null. -/
theorem miposMmRealloc_frees {ptr size allocSize : ℕ} (hptr : ptr ≠ 0)
    (hold : getPartPtrAllocatedMemSize b mm ptr = some allocSize) (hnone : allocSize = 0 ∨ size = 0) :
    miposMmRealloc b mm ptr size = (miposMmFree b mm ptr).map fun p => (p.1, 0) := by
  have hshrink : ¬ (0 < size ∧ size < allocSize) := by omega
  have hmin : ¬ (if allocSize < size then allocSize else size) > 0 := by
    split <;> omega
  rw [miposMmRealloc, if_neg hptr, hold]
  simp only [Option.bind_eq_bind, Option.bind_some]
  rw [if_neg hshrink, if_neg hmin]
  cases miposMmFree b mm ptr <;> rfl

/-- What `mipos_mm_realloc` leaves when it has moved the block `x` to `r`. -/
structure Moves (b : Build) (base size : ℕ) (H : Blocks) (x : Block) (mm mm' : Mm) (r : ℕ)
    (H' : Blocks) : Prop where
  alloc : ∃ mm₁, miposMmAlloc b mm size = some (mm₁, r)
  leaves : CallLeaves b base H mm mm' r H'
  accounts : Accounts b.sizeofMdesc (· = x.addr + b.sizeofMdesc) H r H'
  changes : Blocks.Changes b.sizeofMdesc (alignedSize b size) H H'
  block : ∃ y ∈ H'.used, r = y.addr + b.sizeofMdesc ∧ size ≤ y.size
  apart : r ≠ x.addr + b.sizeofMdesc
  copied : ∀ i, i < x.size → mm'.mem (r + i) = mm.mem (x.addr + b.sizeofMdesc + i)

/-- A block that is too small is moved, unless the allocation fails: then the copy goes through
the null pointer. -/
theorem miposMmRealloc_moves (h : HeapInv b base mm H) (hx : x ∈ H.used)
    (hs : AllocSound b mm size) (hsize : size + 4 ≤ b.modulus) (hpos : 0 < x.size)
    (hle : x.size ≤ size) :
    (miposMmRealloc b mm (x.addr + b.sizeofMdesc) size = none ∧
        ∃ mm', miposMmAlloc b mm size = some (mm', 0)) ∨
      ∃ mm' r H', miposMmRealloc b mm (x.addr + b.sizeofMdesc) size = some (mm', r) ∧
        Moves b base size H x mm mm' r H' := by
  have hhdr := b.sizeofMdesc_pos
  have hmin : (if x.size < size then x.size else size) = x.size := by
    split <;> omega
  rw [miposMmRealloc, if_neg (by omega), h.allocatedMemSize_eq hx]
  simp only [Option.bind_eq_bind, Option.bind_some, hmin]
  rw [if_neg (by omega), if_pos hpos]
  obtain ⟨mm₁, r, H₁, hrun, hleaves, hres, hchanges⟩ := miposMmAlloc_sim h hs
  have hacc : Accounts b.sizeofMdesc (fun _ => False) H r H₁ := hres.accounts fun _ _ => id
  simp only [hrun, Option.bind_some]
  obtain ⟨rfl, -⟩ | ⟨y, hry, hny, hused⟩ := hres
  · exact Or.inl ⟨by simp [memcpyChecked], mm₁, rfl⟩
  have hy : y ∈ H₁.used := by
    rw [hused]
    simp
  have hsizey : size ≤ y.size := le_trans (le_alignedSize hsize) hny
  have hr0 : r ≠ 0 := by omega
  rw [memcpyChecked, if_neg hr0]
  set ptr := x.addr + b.sizeofMdesc with hptr
  set m₂ := mm₁.mem.copy r ptr x.size with hm₂
  -- the copy stays inside the new block
  have hoff : EqOff (y.InPayload b) mm₁.mem m₂ := by
    intro a ha
    unfold Block.InPayload at ha
    exact Memory.copy_of_not_mem _ (by omega)
  have hkeep : ∀ u ∈ H.used, u ∈ H₁.all ∧ u ≠ y := by
    intro u hu
    refine ⟨Blocks.mem_all_of_used (by rw [hused]; simp [hu]), ?_⟩
    rintro rfl
    exact hleaves.inv.new_not_mem hused hu
  -- the block that is freed is the old one, not the new one
  have hrptr : r ≠ ptr := by
    intro e
    refine (hkeep x hx).2 (hleaves.inv.tiled.eq_of_addr (hkeep x hx).1
      (Blocks.mem_all_of_used hy) ?_)
    omega
  have hleaves₂ := hleaves.trans
    (hleaves.inv.write_payload (Blocks.mem_all_of_used hy) hoff hkeep) fun u hu => hu
  obtain ⟨mm₃, hrun₃, hleaves₃⟩ := miposMmFree_sim hleaves₂.inv ptr
  have huses : ∀ p, (H₁.freeAt b.sizeofMdesc ptr).1.Uses b.sizeofMdesc p ↔
      H₁.Uses b.sizeofMdesc p ∧ p ≠ ptr := fun p => hleaves.inv.uses_freeAt
  have hused' : ∀ u ∈ H.used, u ∈ H₁.used := by
    intro u hu
    rw [hused]
    simp [hu]
  obtain ⟨z, hz, hrz⟩ := (huses r).mpr ⟨⟨y, hy, hry⟩, hrptr⟩
  have hzy : z = y := hleaves.inv.tiled.eq_of_addr (Blocks.mem_all_of_used (Blocks.mem_freeAt hz))
    (Blocks.mem_all_of_used hy) (by omega)
  refine Or.inr ⟨mm₃, r, (H₁.freeAt b.sizeofMdesc ptr).1, by simp [hrun₃], ?_⟩
  constructor
  case alloc => exact ⟨mm₁, hrun⟩
  case leaves =>
    exact Leaves.callLeaves (hleaves₂.trans hleaves₃ hused') hleaves.inv.tiled
      (fun u hu => (hkeep u hu).1) (fun v hv => Blocks.mem_all_of_used (Blocks.mem_freeAt hv))
      fun _ => ⟨z, hz, hrz⟩
  case accounts =>
    intro p
    rw [huses, hacc p, or_and_right, not_false_eq_true, and_true]
    refine or_congr_left (and_iff_left_of_imp ?_)
    rintro ⟨rfl, -⟩
    exact hrptr
  case changes => exact hchanges.trans (Blocks.freeAt_changes ptr)
  case block => exact ⟨z, hz, hrz, hzy ▸ hsizey⟩
  case apart => exact hrptr
  case copied =>
    intro i hi
    have hfree : mm₃.mem (r + i) = m₂ (r + i) :=
      hleaves₃.keeps y hy _ ⟨by omega, by omega⟩
    have hold : mm₁.mem (ptr + i) = mm.mem (ptr + i) :=
      hleaves.keeps x hx _ ⟨by omega, by omega⟩
    rw [hfree, hm₂, Memory.copy_add _ r ptr hi, hold]

/-- **`mipos_mm_realloc`** returns unless its allocation fails, and writes to
no block but the new one.  The old pointer stays in use only if it is returned. -/
theorem miposMmRealloc_sim (h : HeapInv b base mm H) (ptr : ℕ)
    (hs : AllocSound b mm size) (hsize : size + 4 ≤ b.modulus) :
    (miposMmRealloc b mm ptr size = none ∧ ReallocFails b mm ptr size) ∨
      ∃ mm' r H', miposMmRealloc b mm ptr size = some (mm', r) ∧
        CallLeaves b base H mm mm' r H' ∧ Accounts b.sizeofMdesc (· = ptr) H r H' ∧
        Blocks.Changes b.sizeofMdesc (alignedSize b size) H H' := by
  by_cases hptr : ptr = 0
  · rw [miposMmRealloc, if_pos hptr]
    obtain ⟨mm', r, H', hrun, hleaves, hres, hchanges⟩ := miposMmAlloc_sim h hs
    refine Or.inr ⟨mm', r, H', hrun, hres.callLeaves hleaves, hres.accounts ?_, hchanges⟩
    exact fun p huse => hptr ▸ huse.ne_zero
  have hold := getPartPtrAllocatedMemSize_eq h ptr
  by_cases hnone : ((H.findUsed b.sizeofMdesc ptr).map Block.size).getD 0 = 0 ∨ size = 0
  · obtain ⟨mm', hrun, hleaves⟩ := miposMmFree_sim h ptr
    refine Or.inr ⟨mm', 0, _, ?_, hleaves.freeAt_callLeaves h, h.freeAt_accounts ptr,
      Blocks.freeAt_changes ptr⟩
    rw [miposMmRealloc_frees hptr hold hnone, hrun]
    rfl
  obtain ⟨hfound, hpos⟩ := not_or.mp hnone
  -- a block whose size is not zero was found
  obtain ⟨x, hfind⟩ : ∃ x, H.findUsed b.sizeofMdesc ptr = some x := by
    rcases hfind : H.findUsed b.sizeofMdesc ptr with _ | x
    · rw [hfind] at hfound
      exact absurd rfl hfound
    · exact ⟨x, rfl⟩
  obtain ⟨hx, rfl⟩ := Blocks.findUsed_some hfind
  rw [hfind] at hold hfound
  have hx0 : 0 < x.size := Nat.pos_of_ne_zero hfound
  by_cases hlt : size < x.size
  · have hused : ∀ u ∈ H.used, u ∈ H.all := fun u hu => Blocks.mem_all_of_used hu
    refine Or.inr ⟨mm, _, H, miposMmRealloc_stays h hx (Nat.pos_of_ne_zero hpos) hlt,
      (Leaves.refl h).callLeaves h.tiled hused hused fun _ => ⟨x, hx, rfl⟩, ?_, .refl H⟩
    intro p
    by_cases hp : p = x.addr + b.sizeofMdesc
    · exact iff_of_true ⟨x, hx, hp⟩ (Or.inl ⟨hp, hptr⟩)
    · simp [hp]
  · rcases miposMmRealloc_moves h hx hs hsize hx0 (not_lt.mp hlt) with
      ⟨hrun, hnull⟩ | ⟨mm', r, H', hrun, hm⟩
    · exact Or.inl ⟨hrun, hptr, hnull, x.size, hold, hx0, Nat.pos_of_ne_zero hpos, hlt⟩
    · exact Or.inr ⟨mm', r, H', hrun, hm.leaves, hm.accounts, hm.changes⟩

theorem miposMmRealloc_leaves (h : HeapInv b base mm H) (ptr : ℕ)
    (hs : AllocSound b mm size) (hsize : size + 4 ≤ b.modulus) :
    (miposMmRealloc b mm ptr size = none ∧ ReallocFails b mm ptr size) ∨
      ∃ mm' r H', miposMmRealloc b mm ptr size = some (mm', r) ∧
        CallLeaves b base H mm mm' r H' ∧
        Blocks.Changes b.sizeofMdesc (alignedSize b size) H H' := by
  refine (miposMmRealloc_sim h ptr hs hsize).imp_right ?_
  rintro ⟨mm', r, H', hrun, hc, -, hchanges⟩
  exact ⟨mm', r, H', hrun, hc, hchanges⟩

end Malloc
