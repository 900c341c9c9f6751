/-
What `mipos_mpool_init` stores, and what a pool reports about itself.

* `initStores` — the links that `mipos_mpool_init` stores, with their addresses; by
  `mpoolInit_mem` nothing else happens to the memory.
* `init_ok_iff` — one store for each block, inside the arena, nothing changed outside it,
  and as many allocations as there are blocks: just if there is a block at all.  The loop
  runs `pool_length - 1` times, and for an empty pool this wraps.
* `accounting_iff` — `mpool_get_used_blocks` returns the number of all blocks, so what it
  reports is right just if all of them are out.
-/
import Mipos.MemoryPool

namespace Mpool

/-! ### The stores of `mipos_mpool_init` -/

/-- The addresses and the values that the loop stores, and the null behind it. -/
def linkStores (w blockSize : ℕ) : ℕ → ℕ → List (ℕ × ℕ)
  | 0, blockPtr => [(blockPtr, 0)]
  | i + 1, blockPtr =>
    let pnext := (blockPtr + blockSize) % 256 ^ w
    (blockPtr, pnext) :: linkStores w blockSize i pnext

def initStores (w blockSize poolLength arena : ℕ) : List (ℕ × ℕ) :=
  linkStores w (if blockSize < w then w else blockSize)
    ((poolLength + (256 ^ w - 1)) % 256 ^ w) arena

section

variable {w blockSize size n k arena : ℕ}

theorem initLoop_stores (w size k : ℕ) (m : Memory) (blockPtr : ℕ) :
    (initLoop w size k m blockPtr).1.writeWord w (initLoop w size k m blockPtr).2 0
      = (linkStores w size k blockPtr).foldl (fun m s => m.writeWord w s.1 s.2) m := by
  induction k generalizing m blockPtr with
  | zero => rfl
  | succ k ih =>
    rw [initLoop, linkStores, List.foldl_cons]
    exact ih _ _

/-- `mipos_mpool_init` does nothing to the memory but these stores. -/
theorem mpoolInit_mem (w : ℕ) (m : Memory) (blockSize n arena : ℕ) :
    (mpoolInit w m blockSize n arena).mem
      = (initStores w blockSize n arena).foldl (fun m s => m.writeWord w s.1 s.2) m :=
  initLoop_stores w _ _ m arena

theorem foldl_writeWord_of_not_mem {stores : List (ℕ × ℕ)} {x : ℕ} (m : Memory)
    (h : ∀ s ∈ stores, x < s.1 ∨ s.1 + w ≤ x) :
    stores.foldl (fun m s => m.writeWord w s.1 s.2) m x = m x := by
  induction stores generalizing m with
  | nil => rfl
  | cons s stores ih =>
    rw [List.foldl_cons, ih _ fun s' hs' => h s' (List.mem_cons_of_mem _ hs')]
    exact Memory.writeWord_of_not_mem m (h s List.mem_cons_self)

theorem length_linkStores (w size k blockPtr : ℕ) :
    (linkStores w size k blockPtr).length = k + 1 := by
  induction k generalizing blockPtr with
  | zero => rfl
  | succ k ih => rw [linkStores, List.length_cons, ih]

/-- The first store goes to the start of the arena, whether or not there is a block. -/
theorem head_mem_linkStores (w size k blockPtr : ℕ) :
    ∃ v, (blockPtr, v) ∈ linkStores w size k blockPtr := by
  cases k with
  | zero => exact ⟨0, List.mem_singleton.mpr rfl⟩
  | succ k => exact ⟨_, List.mem_cons_self⟩

/-- In an arena that fits, the stores go to the blocks, in the order of their addresses. -/
theorem map_linkStores (hsize : 0 < size) {blockPtr : ℕ}
    (hfits : blockPtr + (k + 1) * size ≤ 256 ^ w) :
    (linkStores w size k blockPtr).map Prod.fst = grid size (k + 1) blockPtr := by
  induction k generalizing blockPtr with
  | zero => rw [linkStores, grid_succ]; rfl
  | succ k ih =>
    rw [Nat.succ_mul] at hfits
    have hrow : size ≤ (k + 1) * size := Nat.le_mul_of_pos_left size (Nat.succ_pos k)
    have hpnext : (blockPtr + size) % 256 ^ w = blockPtr + size := Nat.mod_eq_of_lt (by omega)
    rw [linkStores, hpnext, List.map_cons, ih (by omega), grid_succ size (k + 1)]

theorem initStores_of_pos (hn : 1 ≤ n) (hlt : n < 256 ^ w) (blockSize arena : ℕ) :
    initStores w blockSize n arena = linkStores w (max blockSize w) (n - 1) arena := by
  obtain ⟨k, rfl⟩ : ∃ k, n = k + 1 := ⟨n - 1, by omega⟩
  rw [initStores, blockSize_eq, rounds_eq hlt, Nat.add_sub_cancel]

/-- For an empty pool the bound of the loop wraps. -/
theorem length_initStores_zero (w blockSize arena : ℕ) :
    (initStores w blockSize 0 arena).length = 256 ^ w := by
  have hpos : 0 < 256 ^ w := Nat.pow_pos (by decide)
  rw [initStores, length_linkStores, Nat.zero_add, Nat.mod_eq_of_lt (by omega)]
  omega

/-! ### Allocations in a row -/

theorem Lifo.run_allocs (size k : ℕ) (s : Lifo) :
    ∃ out results, s.run size (List.replicate k .alloc)
      = some (⟨s.free.drop k, out⟩, results) := by
  induction k generalizing s with
  | zero => exact ⟨s.out, [], rfl⟩
  | succ k ih =>
    rw [List.replicate_succ, Lifo.run, Lifo.step]
    cases hfree : s.free with
    | nil =>
      obtain ⟨out, results, hrun⟩ := ih s
      rw [hfree, List.drop_nil] at hrun
      exact ⟨out, 0 :: results, by simp [hrun]⟩
    | cons block rest =>
      obtain ⟨out, results, hrun⟩ := ih ⟨rest, block :: s.out⟩
      exact ⟨out, block :: results, by simp [hrun]⟩

/-- Of any number of allocations in a row, those succeed for which there is a block. -/
theorem alloc_after_allocs (harena : Arena w (max blockSize w) n arena) (hn : 1 ≤ n) (m : Memory)
    (k : ℕ) :
    (mpoolAlloc w (runOps w (mpoolInit w m blockSize n arena)
      (List.replicate k .alloc)).1).2 ≠ 0 ↔ k < n := by
  obtain ⟨out, results, hrun⟩ := Lifo.run_allocs (max blockSize w) k
    ⟨grid (max blockSize w) n arena, []⟩
  obtain ⟨-, h⟩ := Refines.run harena (Refines.init harena hn m) hrun
  rw [ne_eq, h.alloc_eq_zero_iff harena, List.drop_eq_nil_iff]
  simp [grid]

end

/-- What `mipos_mpool_init` owes its caller: one link store for each block at most, every
one inside the arena, a memory that is the same outside it, and `n` allocations in a row
that succeed, and no more. -/
structure InitOk (w blockSize n arena : ℕ) (m : Memory) : Prop where
  stores : (initStores w blockSize n arena).length ≤ n
  inside : ∀ s ∈ initStores w blockSize n arena,
    arena ≤ s.1 ∧ s.1 + w ≤ arena + n * max blockSize w
  frame : ∀ a, a < arena ∨ arena + n * max blockSize w ≤ a →
    (mpoolInit w m blockSize n arena).mem a = m a
  allocs : ∀ k, (mpoolAlloc w (runOps w (mpoolInit w m blockSize n arena)
    (List.replicate k .alloc)).1).2 ≠ 0 ↔ k < n

/-- **Initialisation is right just if there is a block.** -/
theorem init_ok_iff {w blockSize n arena : ℕ} (m : Memory) (hw : 0 < w) (hpos : 0 < arena)
    (hfits : arena + n * max blockSize w ≤ 256 ^ w) :
    InitOk w blockSize n arena m ↔ 1 ≤ n := by
  have harena : Arena w (max blockSize w) n arena := ⟨hw, Nat.le_max_right _ _, hpos, hfits⟩
  constructor
  · intro h
    by_contra hn
    obtain rfl : n = 0 := by omega
    have hstores := h.stores
    rw [length_initStores_zero] at hstores
    exact absurd hstores (Nat.not_le_of_gt (Nat.pow_pos (by decide)))
  · intro hn
    have hstores := initStores_of_pos hn harena.length_lt blockSize arena
    obtain ⟨k, rfl⟩ : ∃ k, n = k + 1 := ⟨n - 1, by omega⟩
    rw [Nat.add_sub_cancel] at hstores
    have hinside : ∀ s ∈ initStores w blockSize (k + 1) arena,
        arena ≤ s.1 ∧ s.1 + w ≤ arena + (k + 1) * max blockSize w := by
      intro s hs
      have hsize : 0 < max blockSize w := Nat.lt_of_lt_of_le hw (Nat.le_max_right _ _)
      have hmem : s.1 ∈ grid (max blockSize w) (k + 1) arena := by
        rw [← map_linkStores hsize hfits, ← hstores]
        exact List.mem_map_of_mem hs
      obtain ⟨i, hi, heq⟩ := mem_grid hmem
      have hrow : (i + 1) * max blockSize w ≤ (k + 1) * max blockSize w :=
        Nat.mul_le_mul_right _ hi
      rw [Nat.succ_mul] at hrow
      omega
    constructor
    case stores => rw [hstores, length_linkStores]
    case inside => exact hinside
    case frame =>
      intro a ha
      rw [mpoolInit_mem]
      refine foldl_writeWord_of_not_mem m fun s hs => ?_
      have hs := hinside s hs
      omega
    case allocs => exact alloc_after_allocs harena hn m

/-- Three blocks that are smaller than a pointer. -/
theorem init_ok_iff_three : InitOk 8 1 3 64 fun _ => 0 :=
  (init_ok_iff (fun _ => 0) (by decide) (by decide) (by decide)).mpr (by decide)

/-- A pool without blocks, and with an arena without bytes: the loop stores as many links
as there are addresses, the first of them behind the arena. -/
theorem init_empty_overruns :
    (initStores 4 8 0 4096).length = 2 ^ 32 ∧ (∃ v, (4096, v) ∈ initStores 4 8 0 4096) ∧
      ¬InitOk 4 8 0 4096 fun _ => 0 := by
  refine ⟨length_initStores_zero 4 8 4096, head_mem_linkStores _ _ _ _, fun h => ?_⟩
  have hstores := h.stores
  rw [length_initStores_zero] at hstores
  exact absurd hstores (by decide)

/-! ### What a pool reports -/

/-- `mpool_get_used_blocks`. -/
def getUsedBlocks (pool : Pool) : ℕ := pool.nOfBlocks

/-- `mpool_get_free_blocks`. -/
def getFreeBlocks (pool : Pool) : ℕ := pool.freeBlocks

section

variable {w size : ℕ}

theorem Op.exec_nOfBlocks (w : ℕ) (pool : Pool) (op : Op) :
    (op.exec w pool).1.nOfBlocks = pool.nOfBlocks := by
  cases op with
  | alloc =>
    rw [Op.exec, mpoolAlloc]
    split <;> rfl
  | free ptr => rfl
  | write a v => rfl

theorem runOps_nOfBlocks (w : ℕ) (pool : Pool) (ops : List Op) :
    (runOps w pool ops).1.nOfBlocks = pool.nOfBlocks := by
  induction ops generalizing pool with
  | nil => rfl
  | cons op ops ih => exact (ih _).trans (op.exec_nOfBlocks w pool)

/-- A pool without blocks refuses every request and stays as it is. -/
theorem runOps_empty {pool : Pool} (hfree : pool.freeBlocks = 0) {ops : List Op} {s' : Lifo}
    {results : List ℕ} (hrun : Lifo.run size ⟨[], []⟩ ops = some (s', results)) :
    runOps w pool ops = (pool, results) ∧ s' = ⟨[], []⟩ := by
  induction ops generalizing results with
  | nil =>
    cases hrun
    exact ⟨rfl, rfl⟩
  | cons op ops ih =>
    obtain ⟨s₁, r, rest, hstep, hrun', rfl⟩ := Lifo.run_cons hrun
    cases op with
    | alloc =>
      cases hstep
      have hnull : mpoolAlloc w pool = (pool, 0) := if_pos hfree
      obtain ⟨hrest, hs'⟩ := ih hrun'
      rw [runOps, Op.exec, hnull, hrest]
      exact ⟨rfl, hs'⟩
    | free ptr => simp [Lifo.step] at hstep
    | write a v => simp [Lifo.step] at hstep

end

/-- **What a pool reports is right just if all blocks are out.**  After every run, which
returns what the stack returns, the used blocks are those that are out, and used and free
blocks are `n` together, only then. -/
theorem accounting_iff {w blockSize n arena : ℕ} (m : Memory) (hw : 0 < w) (hpos : 0 < arena)
    (hfits : arena + n * max blockSize w ≤ 256 ^ w) {ops : List Op} {s : Lifo} {results : List ℕ}
    (hrun : Lifo.run (max blockSize w) ⟨grid (max blockSize w) n arena, []⟩ ops
      = some (s, results)) :
    ∃ pool, runOps w (mpoolInit w m blockSize n arena) ops = (pool, results) ∧
      (getUsedBlocks pool = s.out.length ∧ getUsedBlocks pool + getFreeBlocks pool = n ↔
        s.out.length = n) := by
  have harena : Arena w (max blockSize w) n arena := ⟨hw, Nat.le_max_right _ _, hpos, hfits⟩
  have hall : getUsedBlocks (runOps w (mpoolInit w m blockSize n arena) ops).1 = n :=
    runOps_nOfBlocks w _ ops
  obtain ⟨hresults, hfree, hblocks⟩ :
      (runOps w (mpoolInit w m blockSize n arena) ops).2 = results ∧
        getFreeBlocks (runOps w (mpoolInit w m blockSize n arena) ops).1 = s.free.length ∧
        s.free.length + s.out.length = n := by
    -- an empty pool has no chain of free blocks, so the stack does not describe it
    rcases Nat.eq_zero_or_pos n with rfl | hn
    · have hnone : (mpoolInit w m blockSize 0 arena).freeBlocks = 0 := rfl
      obtain ⟨hsame, rfl⟩ := runOps_empty hnone hrun
      rw [hsame]
      exact ⟨rfl, rfl, rfl⟩
    · obtain ⟨hresults, h⟩ := Refines.run harena (Refines.init harena hn m) hrun
      exact ⟨hresults, h.count, h.length_eq⟩
  refine ⟨_, Prod.ext rfl hresults, ?_⟩
  rw [hall, hfree]
  omega

/-- Both blocks of a pool are out; one has come back in between. -/
theorem accounting_iff_all_out :
    ∃ pool, runOps 4 (mpoolInit 4 (fun _ => 0) 16 2 64) [.alloc, .alloc, .free 64, .alloc]
        = (pool, [64, 80, 0, 64]) ∧
      getUsedBlocks pool = 2 ∧ getUsedBlocks pool + getFreeBlocks pool = 2 := by
  have hrun : Lifo.run (max 16 4) ⟨grid (max 16 4) 2 64, []⟩ [.alloc, .alloc, .free 64, .alloc]
      = some (⟨[], [64, 80]⟩, [64, 80, 0, 64]) := by decide
  obtain ⟨pool, hpool, hiff⟩ := accounting_iff (fun _ => 0) (by decide) (by decide) (by decide) hrun
  exact ⟨pool, hpool, hiff.mpr rfl⟩

/-- One block of three is out: three are reported as used, and two as free. -/
theorem used_blocks_are_all_blocks :
    ∃ pool, runOps 4 (mpoolInit 4 (fun _ => 0) 16 3 64) [.alloc] = (pool, [64]) ∧
      getUsedBlocks pool = 3 ∧ getFreeBlocks pool = 2 :=
  ⟨_, rfl, rfl, rfl⟩

end Mpool
