/-
The memory pool (`mipos_mpool.c`), and what it is for.

A pool hands out blocks of one size from an arena.  The free blocks are linked through
their own first bytes, which belong to the users while a block is out.

The functions are those of the source, with `mipos_mpool_t` and the memory passed
explicitly (`Pool`); `w` is `sizeof(void*)`.  What they are for is said without memory:
a stack of free blocks and the blocks that are out (`Lifo`).
* `Refines.step` — each operation does to the pool what it does to the stack, whatever
  the users store in their blocks;
* `mpool_lifo` — so every run returns what the stack returns.
-/
import Mathlib.Data.List.Perm.Basic
import Mipos.LinkTable
import Mipos.WordMemory

namespace Mpool

open LinkTable Function

/-! ### The functions of the source -/

/-- `mipos_mpool_t`, together with the memory its pointers point into. -/
structure Pool where
  blockSize : ℕ
  nOfBlocks : ℕ
  freeBlocks : ℕ
  freeHeadPtr : ℕ
  arenaPtr : ℕ
  mem : Memory

variable (w : ℕ)

/-- The loop of `mipos_mpool_init`: each block gets the address of the next one.
Returns the memory and the last block. -/
def initLoop (blockSize : ℕ) : ℕ → Memory → ℕ → Memory × ℕ
  | 0, m, blockPtr => (m, blockPtr)
  | i + 1, m, blockPtr =>
    let pnext := (blockPtr + blockSize) % 256 ^ w
    initLoop blockSize i (m.writeWord w blockPtr pnext) pnext

/-- The loop runs `pool_length - 1` times, in `size_t`. -/
def mpoolInit (m : Memory) (blockSize poolLength arena : ℕ) : Pool :=
  let blockSize := if blockSize < w then w else blockSize
  let linked := initLoop w blockSize ((poolLength + (256 ^ w - 1)) % 256 ^ w) m arena
  { blockSize := blockSize
    nOfBlocks := poolLength
    freeBlocks := poolLength
    freeHeadPtr := arena
    arenaPtr := arena
    mem := linked.1.writeWord w linked.2 0 }

/-- Returns the pool and the block, or `0`. -/
def mpoolAlloc (pool : Pool) : Pool × ℕ :=
  if pool.freeBlocks = 0 then (pool, 0)
  else
    let allocPtr := pool.freeHeadPtr
    ({ pool with
      freeHeadPtr := pool.mem.readWord w allocPtr
      freeBlocks := pool.freeBlocks - 1 }, allocPtr)

def mpoolFree (pool : Pool) (ptr : ℕ) : Pool :=
  { pool with
    freeHeadPtr := ptr
    mem := pool.mem.writeWord w ptr pool.freeHeadPtr
    freeBlocks := (pool.freeBlocks + 1) % 256 ^ w }

/-- What happens to a pool: its two calls, and a user who stores a byte. -/
inductive Op
  | alloc
  | free (ptr : ℕ)
  | write (a : ℕ) (v : UInt8)

/-- An operation and the pointer it returns (`0` where it returns none). -/
def Op.exec (pool : Pool) : Op → Pool × ℕ
  | .alloc => mpoolAlloc w pool
  | .free ptr => (mpoolFree w pool ptr, 0)
  | .write a v => ({ pool with mem := update pool.mem a v }, 0)

def runOps : Pool → List Op → Pool × List ℕ
  | pool, [] => (pool, [])
  | pool, op :: ops =>
    let r := runOps (op.exec w pool).1 ops
    (r.1, (op.exec w pool).2 :: r.2)

/-! ### What a pool is for -/

/-- The free blocks, the one freed last first, and the blocks that are out. -/
structure Lifo where
  free : List ℕ
  out : List ℕ
  deriving DecidableEq, Repr

/-- An operation on the stack, with the pointer it returns.  Only a block that is out may
be given back, and a user stores only inside the blocks that are out. -/
def Lifo.step (size : ℕ) (s : Lifo) : Op → Option (Lifo × ℕ)
  | .alloc => match s.free with
    | [] => some (s, 0)
    | block :: rest => some (⟨rest, block :: s.out⟩, block)
  | .free ptr => if ptr ∈ s.out then some (⟨ptr :: s.free, s.out.erase ptr⟩, 0) else none
  | .write a _ => if ∃ block ∈ s.out, block ≤ a ∧ a < block + size then some (s, 0) else none

def Lifo.run (size : ℕ) : Lifo → List Op → Option (Lifo × List ℕ)
  | s, [] => some (s, [])
  | s, op :: ops => do
    let (s, r) ← s.step size op
    let (s, rs) ← s.run size ops
    return (s, r :: rs)

/-- The addresses of `n` blocks of `size` bytes. -/
def grid (size n arena : ℕ) : List ℕ := (List.range n).map fun i => arena + i * size

/-! ### The arena -/

/-- The arena is an object of the address space and does not start at null; a block has
room for a pointer. -/
structure Arena (size n arena : ℕ) : Prop where
  word_pos : 0 < w
  word_le : w ≤ size
  arena_pos : 0 < arena
  fits : arena + n * size ≤ 256 ^ w

section Arena

variable {w} {size n arena a b : ℕ}

theorem mem_grid (ha : a ∈ grid size n arena) : ∃ i, i < n ∧ a = arena + i * size := by
  obtain ⟨i, hi, rfl⟩ := List.mem_map.mp ha
  exact ⟨i, List.mem_range.mp hi, rfl⟩

theorem Arena.bounds (h : Arena w size n arena) (ha : a ∈ grid size n arena) :
    0 < a ∧ a + size ≤ 256 ^ w := by
  obtain ⟨i, hi, rfl⟩ := mem_grid ha
  have hpos := h.arena_pos
  have hfits := h.fits
  have hrow : (i + 1) * size ≤ n * size := Nat.mul_le_mul_right size hi
  rw [Nat.succ_mul] at hrow
  omega

/-- Two blocks do not overlap. -/
theorem grid_apart (ha : a ∈ grid size n arena) (hb : b ∈ grid size n arena) (hne : a ≠ b) :
    a + size ≤ b ∨ b + size ≤ a := by
  obtain ⟨i, -, rfl⟩ := mem_grid ha
  obtain ⟨j, -, rfl⟩ := mem_grid hb
  rcases Nat.lt_trichotomy i j with hij | rfl | hij
  · have hrow : (i + 1) * size ≤ j * size := Nat.mul_le_mul_right size hij
    rw [Nat.succ_mul] at hrow
    omega
  · exact absurd rfl hne
  · have hrow : (j + 1) * size ≤ i * size := Nat.mul_le_mul_right size hij
    rw [Nat.succ_mul] at hrow
    omega

theorem Arena.nodup_grid (h : Arena w size n arena) : (grid size n arena).Nodup := by
  refine List.Nodup.map (fun i j hij => ?_) List.nodup_range
  have hsize : 0 < size := Nat.lt_of_lt_of_le h.word_pos h.word_le
  exact Nat.eq_of_mul_eq_mul_right hsize (by simpa using hij)

theorem Arena.length_lt (h : Arena w size n arena) : n < 256 ^ w := by
  have hpos := h.arena_pos
  have hfits := h.fits
  have hsize : 0 < size := Nat.lt_of_lt_of_le h.word_pos h.word_le
  have hle : n ≤ n * size := Nat.le_mul_of_pos_right n hsize
  omega

theorem grid_succ (size n arena : ℕ) :
    grid size (n + 1) arena = arena :: grid size n (arena + size) := by
  rw [grid, List.range_succ_eq_map, List.map_cons, List.map_map]
  refine congrArg₂ List.cons (by simp) (List.map_congr_left fun i _ => ?_)
  show arena + (i + 1) * size = arena + size + i * size
  rw [Nat.succ_mul]
  omega

end Arena

/-! ### Initialisation -/

section

variable {w} {size n arena : ℕ}

/-- The loop links the blocks from `blockPtr` on in the order of their addresses, and
leaves what is before them alone. -/
theorem initLoop_spec (hpos : 0 < w) (hword : w ≤ size) :
    ∀ (k : ℕ) (m : Memory) (blockPtr : ℕ), blockPtr + (k + 1) * size ≤ 256 ^ w →
      let linked := initLoop w size k m blockPtr
      let final := linked.1.writeWord w linked.2 0
      Seg (fun a => final.readWord w a) blockPtr (grid size (k + 1) blockPtr) 0 ∧
        ∀ a, a + w ≤ blockPtr → final.readWord w a = m.readWord w a := by
  intro k
  induction k with
  | zero =>
    intro m blockPtr hfits
    dsimp only [initLoop]
    constructor
    · rw [grid_succ]
      exact ⟨rfl, Memory.readWord_writeWord_same m blockPtr (Nat.pow_pos (by decide))⟩
    · exact fun a ha => Memory.readWord_writeWord_apart m (.inl ha)
  | succ k ih =>
    intro m blockPtr hfits
    rw [Nat.succ_mul] at hfits
    have hrow : size ≤ (k + 1) * size := Nat.le_mul_of_pos_left size (Nat.succ_pos k)
    have hpnext : (blockPtr + size) % 256 ^ w = blockPtr + size := Nat.mod_eq_of_lt (by omega)
    dsimp only [initLoop]
    rw [hpnext]
    obtain ⟨hseg, hframe⟩ := ih (m.writeWord w blockPtr (blockPtr + size)) (blockPtr + size)
      (by omega)
    constructor
    · -- the first block keeps the link that the loop has stored in it
      rw [grid_succ]
      refine ⟨rfl, ?_⟩
      dsimp only
      rw [hframe blockPtr (by omega), Memory.readWord_writeWord_same m blockPtr (by omega)]
      exact hseg
    · intro a ha
      rw [hframe a (by omega)]
      exact Memory.readWord_writeWord_apart m (.inl ha)

/-! ### The pool refines the stack -/

/-- The pool stores the stack, and its blocks are those of the arena. -/
structure Refines (w size n arena : ℕ) (pool : Pool) (s : Lifo) : Prop where
  chain : Seg (fun a => pool.mem.readWord w a) pool.freeHeadPtr s.free 0
  count : pool.freeBlocks = s.free.length
  blocks : (s.free ++ s.out).Perm (grid size n arena)

variable {blockSize a b : ℕ} {pool : Pool} {s s' : Lifo}

/-- How often the loop of `mipos_mpool_init` runs, and the size of a block. -/
theorem rounds_eq {k : ℕ} (hlt : k + 1 < 256 ^ w) : (k + 1 + (256 ^ w - 1)) % 256 ^ w = k := by
  rw [show k + 1 + (256 ^ w - 1) = k + 256 ^ w by omega, Nat.add_mod_right]
  exact Nat.mod_eq_of_lt (by omega)

theorem blockSize_eq (w blockSize : ℕ) :
    (if blockSize < w then w else blockSize) = max blockSize w := by
  split
  · omega
  · omega

theorem Refines.init (h : Arena w (max blockSize w) n arena) (hn : 1 ≤ n) (m : Memory) :
    Refines w (max blockSize w) n arena (mpoolInit w m blockSize n arena)
      ⟨grid (max blockSize w) n arena, []⟩ := by
  obtain ⟨k, rfl⟩ : ∃ k, n = k + 1 := ⟨n - 1, by omega⟩
  refine ⟨?_, by simp [mpoolInit, grid], by simp⟩
  have hchain := (initLoop_spec h.word_pos h.word_le k m arena h.fits).1
  simpa only [mpoolInit, rounds_eq h.length_lt, blockSize_eq] using hchain

theorem Refines.mem_grid (h : Refines w size n arena pool s) (ha : a ∈ s.free ++ s.out) :
    a ∈ grid size n arena := h.blocks.mem_iff.mp ha

theorem Refines.nodup (h : Refines w size n arena pool s) (harena : Arena w size n arena) :
    (s.free ++ s.out).Nodup := h.blocks.nodup_iff.mpr harena.nodup_grid

/-- A block that is out does not overlap a free one. -/
theorem Refines.apart (h : Refines w size n arena pool s) (harena : Arena w size n arena)
    (ha : a ∈ s.free) (hb : b ∈ s.out) : a + size ≤ b ∨ b + size ≤ a := by
  refine grid_apart (h.mem_grid (List.mem_append_left _ ha))
    (h.mem_grid (List.mem_append_right _ hb)) ?_
  rintro rfl
  exact List.disjoint_of_nodup_append (h.nodup harena) ha hb

/-- Every block is free or out. -/
theorem Refines.length_eq (h : Refines w size n arena pool s) :
    s.free.length + s.out.length = n := by
  have hlength := h.blocks.length_eq
  simpa only [List.length_append, grid, List.length_map, List.length_range] using hlength

/-- An allocation returns the first free block. -/
theorem Refines.alloc_eq (h : Refines w size n arena pool s) {rest : List ℕ}
    (hfree : s.free = b :: rest) : (mpoolAlloc w pool).2 = b := by
  have hchain := h.chain
  rw [hfree] at hchain
  rw [mpoolAlloc, h.count, hfree, if_neg (by simp)]
  exact hchain.1

/-- An allocation returns null just if no block is free. -/
theorem Refines.alloc_eq_zero_iff (h : Refines w size n arena pool s)
    (harena : Arena w size n arena) : (mpoolAlloc w pool).2 = 0 ↔ s.free = [] := by
  cases hfree : s.free with
  | nil =>
    rw [mpoolAlloc, h.count, hfree]
    simp
  | cons block rest =>
    have hblock := (harena.bounds (h.mem_grid (a := block) (by simp [hfree]))).1
    rw [h.alloc_eq hfree]
    simpa using Nat.ne_of_gt hblock

/-- The head of the chain is null or a block. -/
theorem Refines.head_lt (h : Refines w size n arena pool s) (harena : Arena w size n arena) :
    pool.freeHeadPtr < 256 ^ w := by
  have hchain := h.chain
  cases hfree : s.free with
  | nil =>
    rw [hfree] at hchain
    rw [show pool.freeHeadPtr = 0 from hchain]
    exact Nat.pow_pos (by decide)
  | cons block rest =>
    rw [hfree] at hchain
    have hblock := harena.bounds (h.mem_grid (a := block) (by simp [hfree]))
    have hword := harena.word_pos
    have hle := harena.word_le
    rw [hchain.1]
    omega

/-- **Each operation does to the pool what it does to the stack.** -/
theorem Refines.step (h : Refines w size n arena pool s) (harena : Arena w size n arena) {op : Op}
    {r : ℕ} (hstep : s.step size op = some (s', r)) :
    (op.exec w pool).2 = r ∧ Refines w size n arena (op.exec w pool).1 s' := by
  have hword := harena.word_le
  cases op with
  | alloc =>
    rw [Lifo.step] at hstep
    rw [Op.exec, mpoolAlloc, h.count]
    cases hfree : s.free with
    | nil =>
      rw [hfree] at hstep
      cases hstep
      exact ⟨rfl, h⟩
    | cons block rest =>
      rw [hfree] at hstep
      cases hstep
      have hchain := h.chain
      rw [hfree] at hchain
      obtain ⟨hhead, hrest⟩ := hchain
      rw [if_neg (by simp)]
      refine ⟨hhead, by rw [hhead]; exact hrest, by simp, ?_⟩
      have hblocks := h.blocks
      rw [hfree] at hblocks
      exact List.perm_middle.trans hblocks
  | free ptr =>
    rw [Lifo.step] at hstep
    split at hstep
    · rename_i hout
      cases hstep
      refine ⟨rfl, ⟨rfl, ?_⟩, ?_, ?_⟩
      · -- the link goes into the block, and no free block is touched
        show Seg _ (Memory.readWord w (pool.mem.writeWord w ptr pool.freeHeadPtr) ptr) s.free 0
        rw [Memory.readWord_writeWord_same _ _ (h.head_lt harena)]
        refine h.chain.congr fun block hblock => ?_
        have hapart := h.apart harena hblock hout
        exact Memory.readWord_writeWord_apart _ (by omega)
      · have hlength := h.length_eq
        have hpos := List.length_pos_of_mem hout
        have hlt := harena.length_lt
        show (pool.freeBlocks + 1) % 256 ^ w = _
        rw [h.count, List.length_cons]
        exact Nat.mod_eq_of_lt (by omega)
      · have hperm : (ptr :: s.out.erase ptr).Perm s.out := (List.perm_cons_erase hout).symm
        exact (List.perm_middle.symm.trans (hperm.append_left s.free)).trans h.blocks
    · cases hstep
  | write a v =>
    rw [Lifo.step] at hstep
    split at hstep
    · rename_i hin
      cases hstep
      obtain ⟨block, hout, hle, hlt⟩ := hin
      refine ⟨rfl, h.chain.congr fun x hx => ?_, h.count, h.blocks⟩
      -- the byte is in a block that is out, so in no link
      refine Memory.readWord_congr fun y hy hyw => update_of_ne ?_ _ _
      have hapart := h.apart harena hx hout
      omega
    · cases hstep

theorem Lifo.run_cons {op : Op} {ops : List Op} {results : List ℕ}
    (hrun : s.run size (op :: ops) = some (s', results)) :
    ∃ s₁ r rest, s.step size op = some (s₁, r) ∧ s₁.run size ops = some (s', rest) ∧
      results = r :: rest := by
  obtain ⟨⟨s₁, r⟩, hstep, hrest⟩ := Option.bind_eq_some_iff.mp hrun
  obtain ⟨⟨s₂, rest⟩, hrun', heq⟩ := Option.bind_eq_some_iff.mp hrest
  cases heq
  exact ⟨s₁, r, rest, hstep, hrun', rfl⟩

/-- **Every run of the pool is a run of the stack.** -/
theorem Refines.run (harena : Arena w size n arena) {ops : List Op} :
    ∀ {pool : Pool} {s s' : Lifo} {rs : List ℕ}, Refines w size n arena pool s →
      s.run size ops = some (s', rs) →
      (runOps w pool ops).2 = rs ∧ Refines w size n arena (runOps w pool ops).1 s' := by
  induction ops with
  | nil =>
    intro pool s s' rs h hrun
    cases hrun
    exact ⟨rfl, h⟩
  | cons op ops ih =>
    intro pool s s' rs h hrun
    obtain ⟨s₁, r, rest, hstep, hrun', rfl⟩ := Lifo.run_cons hrun
    obtain ⟨hr, h₁⟩ := h.step harena hstep
    obtain ⟨hrs, h₂⟩ := ih h₁ hrun'
    exact ⟨congrArg₂ List.cons hr hrs, h₂⟩

end

/-- **The pool is a stack of blocks.**  Every run returns what the stack returns; the chain
from `_free_head_ptr` is the stack, with `_free_blocks` different blocks, the free blocks
and those that are out are the blocks of the arena, and an allocation returns null only if
all blocks are out, and the top of the stack otherwise. -/
theorem mpool_lifo {w blockSize n arena : ℕ} (m : Memory) (hw : 0 < w) (hn : 1 ≤ n)
    (hpos : 0 < arena) (hfits : arena + n * max blockSize w ≤ 256 ^ w) {ops : List Op} {s : Lifo}
    {results : List ℕ}
    (hrun : Lifo.run (max blockSize w) ⟨grid (max blockSize w) n arena, []⟩ ops
      = some (s, results)) :
    ∃ pool, runOps w (mpoolInit w m blockSize n arena) ops = (pool, results) ∧
      Seg (fun a => pool.mem.readWord w a) pool.freeHeadPtr s.free 0 ∧
      s.free.length = pool.freeBlocks ∧
      (s.free ++ s.out).Nodup ∧
      (s.free ++ s.out).Perm (grid (max blockSize w) n arena) ∧
      (∀ a ∈ s.free ++ s.out, ∀ b ∈ s.free ++ s.out, a ≠ b →
        a + max blockSize w ≤ b ∨ b + max blockSize w ≤ a) ∧
      ((mpoolAlloc w pool).2 = 0 ↔ s.out.length = n) ∧
      ∀ block rest, s.free = block :: rest → (mpoolAlloc w pool).2 = block := by
  have harena : Arena w (max blockSize w) n arena := ⟨hw, Nat.le_max_right _ _, hpos, hfits⟩
  obtain ⟨hresults, h⟩ := Refines.run harena (Refines.init harena hn m) hrun
  refine ⟨_, Prod.ext rfl hresults, h.chain, h.count.symm, h.nodup harena, h.blocks, ?_, ?_, ?_⟩
  · exact fun a ha b hb => grid_apart (h.mem_grid ha) (h.mem_grid hb)
  · have hlength := h.length_eq
    rw [h.alloc_eq_zero_iff harena, ← List.length_eq_zero_iff]
    omega
  · exact fun block rest hfree => h.alloc_eq hfree

/-- Three blocks of 32 bytes: all are handed out in the order of their addresses, the
fourth request fails, and the block that is given back, written to before, is the next. -/
theorem mpool_lifo_reuse :
    ∃ pool, runOps 8 (mpoolInit 8 (fun _ => 0) 32 3 64)
        [.alloc, .alloc, .alloc, .alloc, .write 100 7, .free 96, .alloc]
        = (pool, [64, 96, 128, 0, 0, 0, 96]) ∧
      (mpoolAlloc 8 pool).2 = 0 := by
  have hrun : Lifo.run (max 32 8) ⟨grid (max 32 8) 3 64, []⟩
      [.alloc, .alloc, .alloc, .alloc, .write 100 7, .free 96, .alloc]
      = some (⟨[], [96, 128, 64]⟩, [64, 96, 128, 0, 0, 0, 96]) := by decide
  obtain ⟨pool, hpool, -, -, -, -, -, hnull, -⟩ := mpool_lifo (fun _ => 0) (by decide) (by decide)
    (by decide) (by decide) hrun
  exact ⟨pool, hpool, hnull.mpr rfl⟩

end Mpool
