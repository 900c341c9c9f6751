/-
The allocator's operations simulate those on blocks.

For a heap in the invariant, each function of `MallocModel` returns, and what
it leaves in memory is again in the invariant, for the heap that the operation
of `MallocBlocks` gives:

* `mmAllocAux_sim` — `mm_alloc_aux` is `Blocks.allocAux`, as long as the test
  of the code cuts a block only where there is room;
* `miposMmFree_sim` — `mipos_mm_free` is `Blocks.release`;
* `mmFindContFreeMb_sim` — one merge is `Blocks.fuse`;
* `miposMmInit_inv` — the state after `mipos_mm_init`.

`Leaves` collects what every call guarantees; part of it is that no payload
byte of a block in use is written.
-/
import Mipos.MallocListEdits

namespace Malloc

open Tiling DoublyLinked

/-- The payloads of the blocks in `keep` are the same in both memories. -/
def KeepsPayloads (b : Build) (keep : List Block) (m m' : Memory) : Prop :=
  ∀ u ∈ keep, ∀ a, u.InPayload b a → m' a = m a

/-- What a call that turns `mm` into `mm'` leaves: the invariant, for the heap
`H'`, and the payloads of the blocks in `keep`. -/
structure Leaves (b : Build) (base : ℕ) (keep : List Block) (mm mm' : Mm) (H' : Blocks) :
    Prop where
  inv : HeapInv b base mm' H'
  arena : mm'.arenaSize = mm.arenaSize
  keeps : KeepsPayloads b keep mm.mem mm'.mem

section

variable {b : Build} {base n : ℕ} {mm mm' mm'' : Mm} {H H' H'' : Blocks} {x y : Block}
  {m m' m'' : Memory} {keep keep' : List Block}

theorem KeepsPayloads.refl (m : Memory) : KeepsPayloads b keep m m :=
  fun _ _ _ _ => rfl

theorem KeepsPayloads.trans (h : KeepsPayloads b keep m m') (h' : KeepsPayloads b keep m' m'') :
    KeepsPayloads b keep m m'' :=
  fun u hu a ha => (h' u hu a ha).trans (h u hu a ha)

theorem KeepsPayloads.mono (h : KeepsPayloads b keep m m') (hsub : ∀ u ∈ keep', u ∈ keep) :
    KeepsPayloads b keep' m m' :=
  fun u hu a ha => h u (hsub u hu) a ha

/-- A step that writes only descriptors keeps the payloads. -/
theorem EqOff.keepsPayloads {len : ℕ} (h : EqOff (InMdescs b H.IsDesc) m m')
    (ht : H.Tiled b.sizeofMdesc base len) (hsub : ∀ u ∈ keep, u ∈ H.all) :
    KeepsPayloads b keep m m' :=
  fun u hu a ha => h a (ht.payload_not_inMdescs (hsub u hu) ha)

theorem Leaves.refl (h : HeapInv b base mm H) : Leaves b base keep mm mm H :=
  ⟨h, rfl, KeepsPayloads.refl _⟩

theorem Leaves.trans (h : Leaves b base keep mm mm' H') (h' : Leaves b base keep' mm' mm'' H'')
    (hsub : ∀ u ∈ keep, u ∈ keep') : Leaves b base keep mm mm'' H'' :=
  ⟨h'.inv, h'.arena.trans h.arena, h.keeps.trans (h'.keeps.mono hsub)⟩

theorem Leaves.mono (h : Leaves b base keep mm mm' H') (hsub : ∀ u ∈ keep', u ∈ keep) :
    Leaves b base keep' mm mm' H' :=
  ⟨h.inv, h.arena, h.keeps.mono hsub⟩

/-! ### Taking a block off a list -/

/-- The head of a list that starts at `head`, once the cell `d` is off it. -/
def detachedHead (b : Build) (m : Memory) (head d : ℕ) : ℕ :=
  if head = d then mdescNext b m d else head

/-- What `mm_alloc_aux` and `mipos_mm_free` write to take `d` off a list. -/
def detachedMem (b : Build) (m : Memory) (head d : ℕ) : Memory :=
  mdescLinkDetach b (if head = d then
    (if mdescNext b m d ≠ 0 then mdescSetprev b m (mdescNext b m d) 0 else m) else m) d

/-- A member splits a list of blocks, and erasing it leaves the two parts. -/
theorem exists_split {l : List Block} (hx : x ∈ l) :
    ∃ l₁ l₂, l = l₁ ++ x :: l₂ ∧ x ∉ l₁ ∧ l.erase x = l₁ ++ l₂ := by
  obtain ⟨l₁, l₂, hl, hx₁⟩ := List.eq_append_cons_of_mem hx
  refine ⟨l₁, l₂, hl, hx₁, ?_⟩
  rw [hl, List.erase_append_right _ hx₁, List.erase_cons_head]

/-- The stored list of blocks `l` is the one that starts at `head`. -/
def StoresAt (b : Build) (m : Memory) (head : ℕ) (l : List Block) : Prop :=
  head = (l.map Block.addr).headD 0 ∧ IsList (mdescNext b m) (mdescPrev b m) (l.map Block.addr)

theorem mem_map_addr {len : ℕ} {l : List Block} (ht : H.Tiled b.sizeofMdesc base len)
    (hl : ∀ y ∈ l, y ∈ H.all) (hx : x ∈ H.all) : x.addr ∈ l.map Block.addr ↔ x ∈ l := by
  refine ⟨fun h => ?_, List.mem_map_of_mem⟩
  obtain ⟨y, hy, hyx⟩ := List.mem_map.mp h
  exact ht.eq_of_addr (hl y hy) hx hyx ▸ hy

/-- **Taking the cell of a block off a stored list.** -/
theorem detached_spec {len head : ℕ} {l : List Block} (ht : H.Tiled b.sizeofMdesc base len)
    (hD : Spread b H.IsDesc) (hl : ∀ y ∈ l, y ∈ H.all) (hst : StoresAt b m head l)
    (hx : x ∈ l) :
    StoresAt b (detachedMem b m head x.addr) (detachedHead b m head x.addr) (l.erase x) ∧
      Edit b H.IsDesc (· ∈ l.map Block.addr) m (detachedMem b m head x.addr) := by
  obtain ⟨hhead, hlist⟩ := hst
  obtain ⟨l₁, l₂, rfl, hx₁, herase⟩ := exists_split hx
  have hnext := next_eq_of_isList hlist
  -- `x` is the head of the list exactly when nothing precedes it
  have hfirst : head = x.addr ↔ l₁ = [] := by
    rw [hhead]
    rcases l₁ with _ | ⟨y, l₁⟩
    · simp
    · simp only [List.cons_append, List.map_cons, List.headD_cons, reduceCtorEq, iff_false]
      intro e
      have hyx := ht.eq_of_addr (hl y (by simp)) (hl x (by simp)) e
      exact hx₁ (by simp [hyx])
  have hdesc : ∀ e ∈ l₁.map Block.addr ++ x.addr :: l₂.map Block.addr, H.IsDesc e := by
    intro e he
    rw [← List.map_cons, ← List.map_append] at he
    obtain ⟨y, hy, rfl⟩ := List.mem_map.mp he
    exact Blocks.isDesc_of_mem (hl y hy)
  rw [List.map_append, List.map_cons] at hlist
  obtain ⟨m₁, hm₁, hlist₂, hedit⟩ := unlink_spec hD hlist hdesc (head = x.addr)
  have hmem : detachedMem b m head x.addr = mdescLinkDetach b m₁ x.addr := by
    rw [detachedMem, hm₁]
  rw [hmem, herase, List.map_append, List.map_cons]
  refine ⟨⟨?_, ?_⟩, hedit⟩
  · rw [detachedHead]
    by_cases he : head = x.addr
    · rw [if_pos he, hfirst.mp he, hnext, List.nil_append]
    · rw [if_neg he, hhead]
      rcases l₁ with _ | ⟨y, l₁⟩
      · exact absurd (hfirst.mpr rfl) he
      · rfl
  · rw [List.map_append]
    exact hlist₂

/-! ### Allocation -/

theorem HeapInv.free_storesAt (h : HeapInv b base mm H) :
    StoresAt b mm.mem mm.freeMemory H.free := ⟨h.free_head, h.free_list⟩

theorem HeapInv.used_storesAt (h : HeapInv b base mm H) :
    StoresAt b mm.mem mm.usedMemory H.used := ⟨h.used_head, h.used_list⟩

/-- A stored list none of whose cells is relinked. -/
theorem Edit.storesAt {T : ℕ → Prop} {head : ℕ} {l : List Block} (he : Edit b H.IsDesc T m m')
    (hst : StoresAt b m head l) (hl : ∀ y ∈ l, y ∈ H.all) (hT : ∀ y ∈ l, ¬ T y.addr) :
    StoresAt b m' head l := by
  refine ⟨hst.1, he.isList hst.2 ?_ ?_⟩
  · intro e hel
    obtain ⟨y, hy, rfl⟩ := List.mem_map.mp hel
    exact Blocks.isDesc_of_mem (hl y hy)
  · intro e hel
    obtain ⟨y, hy, rfl⟩ := List.mem_map.mp hel
    exact hT y hy

/-- Storing a size changes no list. -/
theorem Spread.setsize_storesAt (hD : Spread b H.IsDesc) {d s head : ℕ} {l : List Block}
    (hd : H.IsDesc d) (hs : s < b.modulus) (hl : ∀ y ∈ l, y ∈ H.all) (hst : StoresAt b m head l) :
    StoresAt b (mdescSetsize b m d s) head l := by
  have hcell : ∀ e ∈ l.map Block.addr, H.IsDesc e := by
    intro e he
    obtain ⟨y, hy, rfl⟩ := List.mem_map.mp he
    exact Blocks.isDesc_of_mem (hl y hy)
  exact ⟨hst.1, hst.2.congr (fun e he => (hD.setsize hd (hcell e he) hs).1)
    (fun e he => (hD.setsize hd (hcell e he) hs).2.1)⟩

/-- `mm_add2used` on the stored used list. -/
theorem mmAdd2used_storesAt {len : ℕ} {l : List Block} (ht : H.Tiled b.sizeofMdesc base len)
    (hD : Spread b H.IsDesc) (hl : ∀ y ∈ l, y ∈ H.all)
    (hst : StoresAt b mm.mem mm.usedMemory l) (hx : x ∈ H.all) (hxl : x ∉ l) :
    (mmAdd2used b mm x.addr).arenaSize = mm.arenaSize ∧
      (mmAdd2used b mm x.addr).freeMemory = mm.freeMemory ∧
      StoresAt b (mmAdd2used b mm x.addr).mem (mmAdd2used b mm x.addr).usedMemory
        (pushAfterHead x l) ∧
      Edit b H.IsDesc (· ∈ x.addr :: l.map Block.addr) mm.mem (mmAdd2used b mm x.addr).mem := by
  have hdesc : ∀ e ∈ l.map Block.addr, H.IsDesc e := by
    intro e he
    obtain ⟨y, hy, rfl⟩ := List.mem_map.mp he
    exact Blocks.isDesc_of_mem (hl y hy)
  obtain ⟨harena, hfree, hused, hlist, hedit⟩ := mmAdd2used_spec hD hst.2 hdesc hst.1
    (Blocks.isDesc_of_mem hx) fun e => hxl ((mem_map_addr ht hl hx).mp e)
  rw [← map_pushAfterHead] at hused hlist
  exact ⟨harena, hfree, ⟨hused, hlist⟩, hedit⟩

/-- Handing out a whole block. -/
theorem take_leaves (h : HeapInv b base mm H) (hx : x ∈ H.free) :
    Leaves b base H.used mm
      (mmAdd2used b { mm with
        freeMemory := detachedHead b mm.mem mm.freeMemory x.addr
        mem := detachedMem b mm.mem mm.freeMemory x.addr } x.addr) (H.take x) := by
  have ht := h.tiled
  have hD := h.spread
  have hfreeAll : ∀ y ∈ H.free, y ∈ H.all := fun y hy => Blocks.mem_all_of_free hy
  have husedAll : ∀ y ∈ H.used, y ∈ H.all := fun y hy => Blocks.mem_all_of_used hy
  have hxa := hfreeAll x hx
  obtain ⟨hst₁, hedit₁⟩ := detached_spec ht hD hfreeAll h.free_storesAt hx
  have hused₁ := hedit₁.storesAt h.used_storesAt husedAll fun y hy e =>
    ht.not_mem_used ((mem_map_addr ht hfreeAll (husedAll y hy)).mp e) hy
  set mm₁ : Mm := { mm with
    freeMemory := detachedHead b mm.mem mm.freeMemory x.addr
    mem := detachedMem b mm.mem mm.freeMemory x.addr } with hmm₁
  have hused₂ : StoresAt b mm₁.mem mm₁.usedMemory H.used := hused₁
  obtain ⟨harena, hfree, hst₂, hedit₂⟩ :=
    mmAdd2used_storesAt ht hD husedAll hused₂ hxa (ht.not_mem_used hx)
  -- what is left of the free list has neither `x` nor a used block on it
  have hfree₂ : StoresAt b (mmAdd2used b mm₁ x.addr).mem (mmAdd2used b mm₁ x.addr).freeMemory
      (H.free.erase x) := by
    rw [hfree]
    refine hedit₂.storesAt hst₁ (fun y hy => hfreeAll y (List.mem_of_mem_erase hy)) ?_
    intro y hy e
    have hyf := List.mem_of_mem_erase hy
    rcases List.mem_cons.mp e with e | e
    · exact ht.addr_ne_of_mem_erase hx hy e
    · exact ht.not_mem_used hyf ((mem_map_addr ht husedAll (hfreeAll y hyf)).mp e)
  have hperm : ∀ y ∈ (H.take x).all, y ∈ H.all := by
    intro y hy
    simp only [Blocks.take, Blocks.all, List.mem_append, mem_pushAfterHead] at hy
    rcases hy with hy | rfl | hy
    · exact hfreeAll y (List.mem_of_mem_erase hy)
    · exact hxa
    · exact husedAll y hy
  have heqOff := hedit₁.eqOff.trans hedit₂.eqOff
  refine ⟨⟨⟨hfree₂.1, hst₂.1, hfree₂.2, hst₂.2, fun y hy => ?_⟩, ?_, h.base_pos, ?_⟩, harena,
    heqOff.keepsPayloads ht husedAll⟩
  · have hyd := Blocks.isDesc_of_mem (hperm y hy)
    rw [hedit₂.size_eq _ hyd]
    exact (hedit₁.size_eq _ hyd).trans (h.size_eq y (hperm y hy))
  · rw [harena]
    exact ht.take hx
  · rw [harena]
    exact h.base_end

theorem map_addr_resize (a s : ℕ) (l : List Block) :
    (l.map (Block.resize a s)).map Block.addr = l.map Block.addr := by
  rw [List.map_map]
  refine List.map_congr_left fun y _ => ?_
  show (Block.resize a s y).addr = y.addr
  rw [Block.resize]
  by_cases hy : y.addr = a
  · rw [if_pos hy]
  · rw [if_neg hy]

/-- Cutting a block: the old descriptor gets the smaller size, and a new one
is made in what was its payload. -/
theorem cut_leaves (h : HeapInv b base mm H) (hx : x ∈ H.free)
    (hroom : n + b.sizeofMdesc ≤ x.size) :
    Leaves b base H.used mm
      (mmAdd2used b { mm with
        mem := mdescInit b (mdescSetsize b mm.mem x.addr (x.size - (n + b.sizeofMdesc)))
          (cutBlock b.sizeofMdesc n x).addr n } (cutBlock b.sizeofMdesc n x).addr)
      (H.cut b.sizeofMdesc n x) := by
  set c := cutBlock b.sizeofMdesc n x with hc
  set s := x.size - (n + b.sizeofMdesc) with hs
  set H' := H.cut b.sizeofMdesc n x with hH'
  have hxa := Blocks.mem_all_of_free hx
  have ht := h.tiled
  have ht' : H'.Tiled b.sizeofMdesc base mm.arenaSize := ht.cut hx b.sizeofMdesc_pos hroom
  have hD' : Spread b H'.IsDesc := ht'.spread h.base_pos h.base_end
  have hperm := ht.cut_perm (n := n) hx
  rw [← hc, ← hs, ← hH'] at hperm
  have hxs : (⟨x.addr, s⟩ : Block) ∈ H'.all := hperm.mem_iff.mpr (by simp)
  have hca : c ∈ H'.all := hperm.mem_iff.mpr (by simp)
  have hfreeAll : ∀ y ∈ H'.free, y ∈ H'.all := fun y hy => Blocks.mem_all_of_free hy
  have husedAll : ∀ y ∈ H.used, y ∈ H'.all := fun y hy => hperm.mem_iff.mpr (by simp [hy])
  have hxd : H'.IsDesc x.addr := ⟨_, hxs, rfl⟩
  have hcd : H'.IsDesc c.addr := ⟨_, hca, rfl⟩
  have hcused : c ∈ H'.used := mem_pushAfterHead.mpr (Or.inl rfl)
  have hcfree : c ∉ H'.free := fun hcf => ht'.not_mem_used hcf hcused
  have hcnew : c ∉ H.used := by
    have hnodup : (c :: H.used).Nodup := (pushAfterHead_perm c H.used).nodup_iff.mp ht'.nodup_used
    exact (List.nodup_cons.mp hnodup).1
  have hsM : s < b.modulus := by
    have := h.size_lt hxa
    omega
  have hnM : n < b.modulus := by
    have := h.size_lt hxa
    omega
  -- the two sizes are stored first; no link changes
  set m₁ := mdescSetsize b mm.mem x.addr s with hm₁
  set m₂ := mdescSetsize b m₁ c.addr n with hm₂
  have hset : ∀ e, H'.IsDesc e → mdescGetsize b m₂ e
      = (if e = c.addr then n else if e = x.addr then s else mdescGetsize b mm.mem e) := by
    intro e he
    rw [(hD'.setsize (m := m₁) hcd he hnM).2.2, (hD'.setsize (m := mm.mem) hxd he hsM).2.2]
  have hstore : ∀ {head : ℕ} {l : List Block}, (∀ y ∈ l, y ∈ H'.all) →
      StoresAt b mm.mem head l → StoresAt b m₂ head l := fun hl hst =>
    hD'.setsize_storesAt hcd hnM hl (hD'.setsize_storesAt hxd hsM hl hst)
  have hfree₀ : StoresAt b mm.mem mm.freeMemory H'.free := by
    have haddr : H'.free.map Block.addr = H.free.map Block.addr := map_addr_resize _ _ _
    rw [StoresAt, haddr]
    exact h.free_storesAt
  -- then the new descriptor is isolated and linked into the used list
  have hiso : Edit b H'.IsDesc (· = c.addr) m₂ (mdescIsolate b m₂ c.addr) := Edit.isolate hD' hcd
  have hne : ∀ y ∈ H'.all, y ≠ c → y.addr ≠ c.addr := fun y hy hyc e =>
    hyc (ht'.eq_of_addr hy hca e)
  have hfree₁ := hiso.storesAt (hstore hfreeAll hfree₀) hfreeAll fun y hy =>
    hne y (hfreeAll y hy) fun e => hcfree (e ▸ hy)
  have hused₁ := hiso.storesAt (hstore husedAll h.used_storesAt) husedAll fun y hy =>
    hne y (husedAll y hy) fun e => hcnew (e ▸ hy)
  set mm₁ : Mm := { mm with mem := mdescInit b m₁ c.addr n } with hmm₁
  have hused₂ : StoresAt b mm₁.mem mm₁.usedMemory H.used := hused₁
  obtain ⟨harena, hfree, hst₂, hedit₂⟩ := mmAdd2used_storesAt ht' hD' husedAll hused₂ hca hcnew
  have hfree₂ : StoresAt b (mmAdd2used b mm₁ c.addr).mem (mmAdd2used b mm₁ c.addr).freeMemory
      H'.free := by
    rw [hfree]
    refine hedit₂.storesAt hfree₁ hfreeAll fun y hy e => ?_
    rcases List.mem_cons.mp e with e | e
    · exact hne y (hfreeAll y hy) (fun e => hcfree (e ▸ hy)) e
    · have hyu := (mem_map_addr ht' husedAll (hfreeAll y hy)).mp e
      exact ht'.not_mem_used hy (mem_pushAfterHead.mpr (Or.inr hyu))
  have heqOff : EqOff (InMdescs b H'.IsDesc) mm.mem (mmAdd2used b mm₁ c.addr).mem :=
    ((((eqOff_setsize mm.mem x.addr s).inMdescs hxd).trans
      ((eqOff_setsize m₁ c.addr n).inMdescs hcd)).trans hiso.eqOff).trans hedit₂.eqOff
  refine ⟨⟨⟨hfree₂.1, hst₂.1, hfree₂.2, hst₂.2, fun y hy => ?_⟩, ?_, h.base_pos, ?_⟩, harena,
    heqOff.keepsPayloads ht' husedAll⟩
  · have hyd := Blocks.isDesc_of_mem hy
    have hsize : mdescGetsize b (mmAdd2used b mm₁ c.addr).mem y.addr
        = mdescGetsize b m₂ y.addr :=
      (hedit₂.size_eq _ hyd).trans (hiso.size_eq _ hyd)
    rw [hsize, hset _ hyd]
    by_cases hyc : y.addr = c.addr
    · rw [if_pos hyc, ht'.eq_of_addr hy hca hyc, hc, cutBlock]
    · rw [if_neg hyc]
      by_cases hyx : y.addr = x.addr
      · rw [if_pos hyx, ht'.eq_of_addr hy hxs hyx]
      · -- a block that is neither of the two was there before
        rw [if_neg hyx]
        refine h.size_eq y ?_
        have hmem := hperm.mem_iff.mp hy
        simp only [List.mem_cons, List.mem_append] at hmem
        rcases hmem with rfl | rfl | hy | hy
        · exact absurd rfl hyx
        · exact absurd rfl hyc
        · exact Blocks.mem_all_of_free (List.mem_of_mem_erase hy)
        · exact Blocks.mem_all_of_used hy
  · rw [harena]
    exact ht'
  · rw [harena]
    exact h.base_end

/-- **`mm_alloc_aux` is allocation on blocks**, when the test of the code cuts
the chosen block only where there is room. -/
theorem mmAllocAux_sim (h : HeapInv b base mm H)
    (hroom : ∀ y, findFree n H.free none = some y → splits b y.size n = true →
      n + b.sizeofMdesc ≤ y.size) :
    ∃ mm', mmAllocAux b mm n
        = some (mm', ptrOf (H.allocAux (splits b) b.sizeofMdesc n).2) ∧
      Leaves b base H.used mm mm' (H.allocAux (splits b) b.sizeofMdesc n).1 := by
  rw [mmAllocAux, mmFindFree_eq h, Blocks.allocAux]
  rcases hfind : findFree n H.free none with _ | x
  · exact ⟨mm, rfl, Leaves.refl h⟩
  obtain ⟨hx, -⟩ := findFree_some hfind
  have hxa := Blocks.mem_all_of_free hx
  have hptr : ptrOf (some x) = x.addr := rfl
  have hx0 := h.addr_ne_zero hxa
  have hxM := h.size_lt hxa
  simp only [Option.bind_eq_bind, Option.bind_some, hptr, if_neg hx0, h.size_eq x hxa]
  by_cases hs : splits b x.size n = true
  · -- the block is cut
    have hle := hroom x hfind hs
    have hneeded : (n + b.sizeofMdesc) % b.modulus = n + b.sizeofMdesc :=
      Nat.mod_eq_of_lt (by omega)
    have hleft : (x.size + (b.modulus - (n + b.sizeofMdesc))) % b.modulus
        = x.size - (n + b.sizeofMdesc) := by
      rw [show x.size + (b.modulus - (n + b.sizeofMdesc))
        = x.size - (n + b.sizeofMdesc) + b.modulus by omega, Nat.add_mod_right]
      exact Nat.mod_eq_of_lt (by omega)
    have hend : mdescEndAddr b (mdescSetsize b mm.mem x.addr (x.size - (n + b.sizeofMdesc))) x.addr
        = (cutBlock b.sizeofMdesc n x).addr := by
      have hxd := Blocks.isDesc_of_mem hxa
      rw [mdescEndAddr, h.dataAddr_eq hxa, (h.spread.setsize hxd hxd (by omega)).2.2, if_pos rfl]
      show _ = x.addr + (b.sizeofMdesc + (x.size - (n + b.sizeofMdesc)))
      rw [Nat.mod_eq_of_lt (by omega)]
      omega
    rw [if_pos hs, if_pos hs, hneeded, hleft, hend]
    exact ⟨_, rfl, cut_leaves h hx hle⟩
  · -- the block is handed out whole
    rw [if_neg hs, if_neg hs]
    refine ⟨_, ?_, take_leaves h hx⟩
    rw [detachedHead, detachedMem]
    by_cases hhead : mm.freeMemory = x.addr
    · by_cases hnext : mdescNext b mm.mem x.addr = 0
      · simp [hhead, hnext, ptrOf]
      · simp [hhead, hnext, ptrOf]
    · simp [hhead, ptrOf]

/-! ### Freeing -/

/-- The last step of `mipos_mm_free`: an isolated cell goes after the head of a
stored list, or becomes the list. -/
theorem pushIsolated_storesAt {len head : ℕ} {l : List Block}
    (ht : H.Tiled b.sizeofMdesc base len) (hD : Spread b H.IsDesc) (hl : ∀ y ∈ l, y ∈ H.all)
    (hst : StoresAt b m head l) (hx : x ∈ H.all) (hxl : x ∉ l)
    (hiso : mdescNext b m x.addr = 0 ∧ mdescPrev b m x.addr = 0) :
    StoresAt b (if head = 0 then m else mdescLinkAfter b m x.addr head)
        (if head = 0 then x.addr else head) (pushAfterHead x l) ∧
      Edit b H.IsDesc (· ∈ x.addr :: l.map Block.addr) m
        (if head = 0 then m else mdescLinkAfter b m x.addr head) := by
  have hxd := Blocks.isDesc_of_mem hx
  obtain ⟨hhead, hlist⟩ := hst
  rcases l with _ | ⟨u, l⟩
  · have h0 : head = 0 := hhead
    rw [if_pos h0, if_pos h0]
    exact ⟨⟨rfl, isList_singleton (hD.ne_zero _ hxd) hiso.1 hiso.2⟩, Edit.refl m⟩
  · have hu : head = u.addr := hhead
    have h0 : head ≠ 0 := by
      rw [hu]
      exact hD.ne_zero _ (Blocks.isDesc_of_mem (hl u (by simp)))
    have hdesc : ∀ e ∈ u.addr :: l.map Block.addr, H.IsDesc e := by
      intro e he
      obtain ⟨y, hy, rfl⟩ := List.mem_map.mp (List.map_cons ▸ he)
      exact Blocks.isDesc_of_mem (hl y hy)
    rw [List.map_cons] at hlist
    obtain ⟨hlist', hedit⟩ := push_spec hD hlist hdesc hxd fun e =>
      hxl ((mem_map_addr ht hl hx).mp (by rwa [List.map_cons]))
    rw [if_neg h0, if_neg h0, hu]
    exact ⟨⟨rfl, hlist'⟩, by rwa [List.map_cons]⟩

/-- A used block becomes free. -/
theorem release_leaves (h : HeapInv b base mm H) (hx : x ∈ H.used)
    (hm' : m' = mdescIsolate b (detachedMem b mm.mem mm.usedMemory x.addr) x.addr) :
    Leaves b base H.used mm
      { mm with
        usedMemory := detachedHead b mm.mem mm.usedMemory x.addr
        freeMemory := if mm.freeMemory = 0 then x.addr else mm.freeMemory
        mem := if mm.freeMemory = 0 then m' else mdescLinkAfter b m' x.addr mm.freeMemory }
      (H.release x) := by
  have ht := h.tiled
  have hD := h.spread
  have hfreeAll : ∀ y ∈ H.free, y ∈ H.all := fun y hy => Blocks.mem_all_of_free hy
  have husedAll : ∀ y ∈ H.used, y ∈ H.all := fun y hy => Blocks.mem_all_of_used hy
  have hxa := husedAll x hx
  have hxd := Blocks.isDesc_of_mem hxa
  have hxfree : x ∉ H.free := fun hxf => ht.not_mem_used hxf hx
  have hne : ∀ y ∈ H.all, y ≠ x → y.addr ≠ x.addr := fun y hy hyx e =>
    hyx (ht.eq_of_addr hy hxa e)
  have herase : ∀ y ∈ H.used.erase x, y ≠ x := by
    rintro y hy rfl
    exact ht.nodup_used.not_mem_erase hy
  -- off the used list
  obtain ⟨hused₁, hedit₁⟩ := detached_spec ht hD husedAll h.used_storesAt hx
  have hfree₁ := hedit₁.storesAt h.free_storesAt hfreeAll fun y hy e =>
    ht.not_mem_used hy ((mem_map_addr ht husedAll (hfreeAll y hy)).mp e)
  -- isolated
  have hiso : Edit b H.IsDesc (· = x.addr) (detachedMem b mm.mem mm.usedMemory x.addr) m' := by
    rw [hm']
    exact Edit.isolate hD hxd
  have hlinks : mdescNext b m' x.addr = 0 ∧ mdescPrev b m' x.addr = 0 := by
    obtain ⟨hn, hp, -⟩ := hD.isolate (m := detachedMem b mm.mem mm.usedMemory x.addr) hxd hxd
    rw [hm', hn, hp]
    exact ⟨if_pos rfl, if_pos rfl⟩
  have hused₂ := hiso.storesAt hused₁ (fun y hy => husedAll y (List.mem_of_mem_erase hy))
    fun y hy => hne y (husedAll y (List.mem_of_mem_erase hy)) (herase y hy)
  have hfree₂ := hiso.storesAt hfree₁ hfreeAll fun y hy =>
    hne y (hfreeAll y hy) fun e => hxfree (e ▸ hy)
  -- and onto the free list
  obtain ⟨hfree₃, hedit₃⟩ := pushIsolated_storesAt ht hD hfreeAll hfree₂ hxa hxfree hlinks
  have hused₃ := hedit₃.storesAt hused₂ (fun y hy => husedAll y (List.mem_of_mem_erase hy))
    fun y hy e => by
      have hyu := List.mem_of_mem_erase hy
      rcases List.mem_cons.mp e with e | e
      · exact hne y (husedAll y hyu) (herase y hy) e
      · exact ht.not_mem_used ((mem_map_addr ht hfreeAll (husedAll y hyu)).mp e) hyu
  have heqOff := (hedit₁.eqOff.trans hiso.eqOff).trans hedit₃.eqOff
  refine ⟨⟨⟨hfree₃.1, hused₃.1, hfree₃.2, hused₃.2, fun y hy => ?_⟩, ht.release hx, h.base_pos,
    h.base_end⟩, rfl, heqOff.keepsPayloads ht husedAll⟩
  have hya : y ∈ H.all := by
    simp only [Blocks.release, Blocks.all, List.mem_append, mem_pushAfterHead] at hy
    rcases hy with (rfl | hy) | hy
    · exact hxa
    · exact hfreeAll y hy
    · exact husedAll y (List.mem_of_mem_erase hy)
  have hyd := Blocks.isDesc_of_mem hya
  exact (((hedit₃.size_eq _ hyd).trans (hiso.size_eq _ hyd)).trans
    (hedit₁.size_eq _ hyd)).trans (h.size_eq y hya)

/-- `mipos_mm_free` on blocks: the heap and whether the block was found. -/
def Blocks.freeAt (hdr : ℕ) (H : Blocks) (ptr : ℕ) : Blocks × Bool :=
  match H.findUsed hdr ptr with
  | none => (H, false)
  | some x => (H.release x, true)

/-- **`mipos_mm_free` releases the block at the pointer**, or does nothing. -/
theorem miposMmFree_sim (h : HeapInv b base mm H) (ptr : ℕ) :
    ∃ mm', miposMmFree b mm ptr = some (mm', (H.freeAt b.sizeofMdesc ptr).2) ∧
      Leaves b base H.used mm mm' (H.freeAt b.sizeofMdesc ptr).1 := by
  rw [miposMmFree, mmFindUsed_eq h, Blocks.freeAt]
  rcases hfind : H.findUsed b.sizeofMdesc ptr with _ | x
  · exact ⟨mm, rfl, Leaves.refl h⟩
  have hx : x ∈ H.used := List.mem_of_find?_eq_some hfind
  have hptr : ptrOf (some x) = x.addr := rfl
  have hx0 := h.addr_ne_zero (Blocks.mem_all_of_used hx)
  simp only [Option.bind_eq_bind, Option.bind_some, hptr, if_neg hx0]
  refine ⟨_, ?_, release_leaves h hx rfl⟩
  rw [detachedHead, detachedMem]
  by_cases hhead : x.addr = mm.usedMemory
  · by_cases hnext : mdescNext b mm.mem mm.usedMemory = 0
    · by_cases hfree : mm.freeMemory = 0
      · simp [hhead, hnext, hfree]
      · simp [hhead, hnext, hfree]
    · by_cases hfree : mm.freeMemory = 0
      · simp [hhead, hnext, hfree]
      · simp [hhead, hnext, hfree]
  · by_cases hfree : mm.freeMemory = 0
    · simp [hhead, Ne.symm hhead, hfree]
    · simp [hhead, Ne.symm hhead, hfree]

/-! ### Merging -/

/-- Two touching free blocks, the left one first. -/
theorem mdescMerge_eq {x y : Block} (m : Memory) (hxy : x.addr < y.addr) :
    mdescMerge b m x.addr y.addr = mdescMerge b m y.addr x.addr := by
  have hyx : ¬ y.addr < x.addr := by omega
  rw [mdescMerge, mdescMerge]
  simp only [gt_iff_lt, if_pos hxy, if_neg hyx, Nat.add_comm (mdescGetsize b m x.addr)]

/-- What `mm_find_cont_free_mb` writes to fuse `x` with the block `y` after it. -/
def fusedMem (b : Build) (m : Memory) (x y : Block) : Memory :=
  mdescIsolate b (mdescLinkDetach b
    (mdescSetsize b m x.addr (x.size + y.size + b.sizeofMdesc)) y.addr) y.addr

/-- The free list starts after `y` if `y` was its head; `x` is still there. -/
theorem HeapInv.fused_head (h : HeapInv b base mm H) (hx : x ∈ H.free) (hy : y ∈ H.free)
    (hxy : x ≠ y) :
    (if mm.freeMemory = y.addr then
      (if mdescNext b mm.mem y.addr ≠ 0 then mdescNext b mm.mem y.addr else x.addr)
      else mm.freeMemory) = ((H.free.erase y).map Block.addr).headD 0 := by
  have hdet := (detached_spec h.tiled h.spread (fun _ hz => Blocks.mem_all_of_free hz)
    h.free_storesAt hy).1.1
  rw [detachedHead] at hdet
  by_cases hfirst : mm.freeMemory = y.addr
  · rw [if_pos hfirst] at hdet ⊢
    have hxe : x ∈ H.free.erase y := (List.mem_erase_of_ne hxy).mpr hx
    obtain ⟨w, l, hl⟩ := List.exists_cons_of_ne_nil (List.ne_nil_of_mem hxe)
    have hw : w ∈ H.free := List.mem_of_mem_erase (by rw [hl]; exact List.mem_cons_self)
    have hnext : mdescNext b mm.mem y.addr ≠ 0 := by
      rw [hdet, hl]
      exact h.addr_ne_zero (Blocks.mem_all_of_free hw)
    rw [if_pos hnext, hdet]
  · rw [if_neg hfirst] at hdet ⊢
    exact hdet

/-- The state after a merge of `x` with the block `y` after it. -/
theorem mmFindContFreeMb_eq (h : HeapInv b base mm H) (hx : x ∈ H.free) (hy : y ∈ H.free)
    (hadj : x.addr + (b.sizeofMdesc + x.size) = y.addr) :
    mmFindContFreeMb b mm x.addr y.addr
      = ({ mm with
            freeMemory := ((H.free.erase y).map Block.addr).headD 0
            mem := fusedMem b mm.mem x y }, x.addr) := by
  have hxa := Blocks.mem_all_of_free hx
  have hya := Blocks.mem_all_of_free hy
  have hpos := b.sizeofMdesc_pos
  have hyM := h.size_lt hya
  have hlt : x.addr < y.addr := by omega
  have hyx : ¬ x.addr > y.addr := by omega
  have hxy : x ≠ y := by
    rintro rfl
    omega
  have hsum : (mdescGetsize b mm.mem x.addr + mdescGetsize b mm.mem y.addr + b.sizeofMdesc)
      % b.modulus = x.size + y.size + b.sizeofMdesc := by
    rw [h.size_eq x hxa, h.size_eq y hya]
    exact Nat.mod_eq_of_lt (by omega)
  have hmerge : mdescMerge b mm.mem x.addr y.addr = (fusedMem b mm.mem x y, x.addr) := by
    rw [mdescMerge, fusedMem]
    simp only [if_pos hlt, if_neg hyx, hsum]
  rw [mmFindContFreeMb, ← h.fused_head hx hy hxy]
  by_cases hfirst : mm.freeMemory = y.addr
  · by_cases hnext : mdescNext b mm.mem y.addr = 0
    · simp [hyx, hlt, hfirst, hnext, hmerge]
    · simp [hyx, hfirst, hnext, hmerge]
  · simp [hyx, hfirst, hmerge]

/-- What the merge writes is the fusion. -/
theorem fuse_leaves (h : HeapInv b base mm H) (hx : x ∈ H.free) (hy : y ∈ H.free)
    (hadj : x.addr + (b.sizeofMdesc + x.size) = y.addr) :
    Leaves b base H.used mm
      { mm with
        freeMemory := ((H.free.erase y).map Block.addr).headD 0
        mem := fusedMem b mm.mem x y }
      (H.fuse b.sizeofMdesc x y) := by
  have ht := h.tiled
  have hD := h.spread
  have hfreeAll : ∀ z ∈ H.free, z ∈ H.all := fun z hz => Blocks.mem_all_of_free hz
  have husedAll : ∀ z ∈ H.used, z ∈ H.all := fun z hz => Blocks.mem_all_of_used hz
  have hxa := hfreeAll x hx
  have hya := hfreeAll y hy
  have hxd := Blocks.isDesc_of_mem hxa
  have hyd := Blocks.isDesc_of_mem hya
  have hpos := b.sizeofMdesc_pos
  have hyM := h.size_lt hya
  have hxy : x ≠ y := by
    rintro rfl
    omega
  -- the size of the left block is stored first
  set s := x.size + y.size + b.sizeofMdesc with hs
  have hsM : s < b.modulus := by omega
  set m₁ := mdescSetsize b mm.mem x.addr s with hm₁
  have hfree₁ := hD.setsize_storesAt hxd hsM hfreeAll h.free_storesAt
  have hused₁ := hD.setsize_storesAt hxd hsM husedAll h.used_storesAt
  -- then the right block is detached and isolated
  obtain ⟨l₁, l₂, hl, -, herase⟩ := exists_split hy
  have hmap : H.free.map Block.addr = l₁.map Block.addr ++ y.addr :: l₂.map Block.addr := by
    rw [hl, List.map_append, List.map_cons]
  have hdesc : ∀ e ∈ H.free.map Block.addr, H.IsDesc e := by
    intro e he
    obtain ⟨z, hz, rfl⟩ := List.mem_map.mp he
    exact Blocks.isDesc_of_mem (hfreeAll z hz)
  obtain ⟨m₂, hm₂, hlist₂, hedit₂⟩ := unlink_spec hD (hmap ▸ hfree₁.2) (hmap ▸ hdesc) False
  rw [if_neg not_false] at hm₂
  subst hm₂
  have hiso : Edit b H.IsDesc (· = y.addr) (mdescLinkDetach b m₁ y.addr) (fusedMem b mm.mem x y) :=
    Edit.isolate hD hyd
  have hne : ∀ z ∈ H.all, z ≠ y → z.addr ≠ y.addr := fun z hz hzy e =>
    hzy (ht.eq_of_addr hz hya e)
  have hfree₃ : StoresAt b (fusedMem b mm.mem x y) (((H.free.erase y).map Block.addr).headD 0)
      (H.free.erase y) := by
    refine hiso.storesAt ⟨rfl, by rwa [herase, List.map_append]⟩
      (fun z hz => hfreeAll z (List.mem_of_mem_erase hz)) fun z hz => ?_
    refine hne z (hfreeAll z (List.mem_of_mem_erase hz)) ?_
    rintro rfl
    exact ht.nodup_free.not_mem_erase hz
  have hused₃ := hiso.storesAt (hedit₂.storesAt hused₁ husedAll fun z hz e =>
      ht.not_mem_used ((mem_map_addr ht hfreeAll (husedAll z hz)).mp (hmap ▸ e)) hz) husedAll
    fun z hz => hne z (husedAll z hz) fun e => ht.not_mem_used hy (e ▸ hz)
  have haddr : (H.fuse b.sizeofMdesc x y).free.map Block.addr = (H.free.erase y).map Block.addr :=
    map_addr_resize _ _ _
  have heqOff := (((eqOff_setsize mm.mem x.addr s).inMdescs hxd).trans hedit₂.eqOff).trans
    hiso.eqOff
  refine ⟨⟨⟨?_, hused₃.1, ?_, hused₃.2, fun z hz => ?_⟩, ht.fuse hx hy hadj, h.base_pos,
    h.base_end⟩, rfl, heqOff.keepsPayloads ht husedAll⟩
  · rw [haddr]
  · rw [haddr]
    exact hfree₃.2
  · -- sizes: the left block has the new one, the others keep theirs
    have hz' := (ht.fuse_perm hx hxy).mem_iff.mp hz
    simp only [List.mem_cons, List.mem_append] at hz'
    have hsize : ∀ w ∈ H.all, mdescGetsize b (fusedMem b mm.mem x y) w.addr
        = (if w.addr = x.addr then s else w.size) := by
      intro w hw
      have hwd := Blocks.isDesc_of_mem hw
      rw [hiso.size_eq _ hwd, hedit₂.size_eq _ hwd, (hD.setsize hxd hwd hsM).2.2, h.size_eq w hw]
    rcases hz' with rfl | hz' | hz'
    · exact (hsize x hxa).trans (if_pos rfl)
    · have hzf := List.mem_of_mem_erase hz'
      rw [List.erase_comm] at hz'
      refine (hsize z (hfreeAll z (List.mem_of_mem_erase hzf))).trans (if_neg ?_)
      exact ht.addr_ne_of_mem_erase hx (List.mem_of_mem_erase hz')
    · refine (hsize z (husedAll z hz')).trans (if_neg fun e => ?_)
      exact ht.not_mem_used hx (ht.eq_of_addr (husedAll z hz') hxa e ▸ hz')

/-- **One merge is a fusion**: the right block leaves the free list, and the
left one takes over its extent. -/
theorem mmFindContFreeMb_sim (h : HeapInv b base mm H) (hx : x ∈ H.free) (hy : y ∈ H.free)
    (hadj : x.addr + (b.sizeofMdesc + x.size) = y.addr) :
    (mmFindContFreeMb b mm x.addr y.addr).2 = x.addr ∧
      mmFindContFreeMb b mm y.addr x.addr = mmFindContFreeMb b mm x.addr y.addr ∧
      Leaves b base H.used mm (mmFindContFreeMb b mm x.addr y.addr).1
        (H.fuse b.sizeofMdesc x y) := by
  have hcomm : mmFindContFreeMb b mm y.addr x.addr = mmFindContFreeMb b mm x.addr y.addr := by
    have hpos := b.sizeofMdesc_pos
    have hlt : x.addr < y.addr := by omega
    have hyx : ¬ y.addr < x.addr := by omega
    rw [mmFindContFreeMb, mmFindContFreeMb]
    simp only [gt_iff_lt, if_pos hlt, if_neg hyx, mdescMerge_eq _ hlt]
  refine ⟨by rw [mmFindContFreeMb_eq h hx hy hadj], hcomm, ?_⟩
  rw [mmFindContFreeMb_eq h hx hy hadj]
  exact fuse_leaves h hx hy hadj

/-! ### The initial heap -/

/-- **`mipos_mm_init`** makes one free block of the whole arena. -/
theorem miposMmInit_inv (m : Memory) {len : ℕ} (hpos : 0 < base) (hend : base + len < b.modulus)
    (hlen : b.sizeofMdesc ≤ len) :
    HeapInv b base (miposMmInit b m base len) ⟨[⟨base, len - b.sizeofMdesc⟩], []⟩ := by
  set H₀ : Blocks := ⟨[⟨base, len - b.sizeofMdesc⟩], []⟩ with hH₀
  have hmdesc := b.sizeofMdesc_pos
  have hall : H₀.all = [⟨base, len - b.sizeofMdesc⟩] := rfl
  have htiled : H₀.Tiled b.sizeofMdesc base len := by
    have hone := Tiles.single base (show 0 < len by omega)
    rw [Blocks.Tiled, hall, List.map_cons, Block.span, List.map_nil]
    rwa [show b.sizeofMdesc + (len - b.sizeofMdesc) = len by omega]
  have hD : Spread b H₀.IsDesc := htiled.spread hpos hend
  have hd : H₀.IsDesc base := ⟨_, by rw [hall]; exact List.mem_singleton_self _, rfl⟩
  have hsize : (len + (b.modulus - b.sizeofMdesc)) % b.modulus = len - b.sizeofMdesc := by
    rw [show len + (b.modulus - b.sizeofMdesc) = len - b.sizeofMdesc + b.modulus by omega,
      Nat.add_mod_right]
    exact Nat.mod_eq_of_lt (by omega)
  have hleft : len - b.sizeofMdesc < b.modulus := by omega
  set m₁ := mdescSetsize b (m.fill base len 0) base (len - b.sizeofMdesc) with hm₁
  have hmem : (miposMmInit b m base len).mem = mdescIsolate b m₁ base := by
    rw [miposMmInit, hsize, mdescInit]
  obtain ⟨hn, hp, hg⟩ := hD.isolate (m := m₁) hd hd
  rw [if_pos rfl] at hn hp
  refine ⟨⟨rfl, rfl, ?_, isList_nil, ?_⟩, htiled, hpos, hend⟩
  · rw [hmem]
    exact isList_singleton (hD.ne_zero base hd) hn hp
  · intro y hy
    rw [hall, List.mem_singleton] at hy
    rw [hmem, hy]
    refine hg.trans ?_
    rw [hm₁, (hD.setsize hd hd hleft).2.2, if_pos rfl]

end

end Malloc
