/-
The heap allocator (`mipos_malloc.c`), as the code computes it.

The arena is a stretch of a byte-addressed memory; block descriptors live in
it, in front of the payloads they describe, and are linked into a free and a
used list by absolute addresses (`0` is the null pointer).  Every function
below is the source's function of the same name, with `mipos_mm_t` and the
memory it points into passed explicitly (`Mm`).

Two builds are covered: `MIPOS64` and `MIPOS32`.  They differ in the width of
`size_t` and of pointers, hence in `sizeof(mipos_mdesc_t)`; in both
`signed_size_t` is the 64-bit `long long`.

A loop over a list takes fuel.  `none` means that the call does not return: a
list is cyclic, or (`memcpy` in `mipos_mm_realloc`) a null pointer is written
through, or (`mipos_mm_dbg_print`) a counter of type `int` overflows.
-/
import Mipos.WordMemory

namespace Malloc

/-- The builds of `mipos_types.h` with a 32-bit and a 64-bit `size_t`. -/
inductive Build
  | mipos32
  | mipos64
  deriving DecidableEq, Repr

/-- `sizeof(size_t)`, which is `sizeof(void*)`. -/
def Build.wordBytes : Build → ℕ
  | .mipos32 => 4
  | .mipos64 => 8

/-- `sizeof(mipos_mdesc_t)`: two pointers and a size. -/
def Build.sizeofMdesc (b : Build) : ℕ := 3 * b.wordBytes

/-- Arithmetic on `size_t` and on addresses is modulo this. -/
def Build.modulus (b : Build) : ℕ := 256 ^ b.wordBytes

/-- The conversion of a `size_t` to `signed_size_t` (`long long`): a 64-bit
pattern is reinterpreted, a 32-bit one is widened as the unsigned number it is. -/
def toSignedSize (v : ℕ) : ℤ := if v < 2 ^ 63 then v else (v : ℤ) - 2 ^ 64

/-- `mipos_mm_t`, together with the memory its pointers point into. -/
structure Mm where
  arenaSize : ℕ
  freeMemory : ℕ
  usedMemory : ℕ
  mem : Memory

variable (b : Build)

/-! ### Descriptors -/

/-- The `k`-th word of the descriptor at `this`: `_next`, `_prev`, `_block_size`. -/
def mdescField (m : Memory) (this k : ℕ) : ℕ := m.readWord b.wordBytes (this + k * b.wordBytes)

def mdescSetField (m : Memory) (this k v : ℕ) : Memory :=
  m.writeWord b.wordBytes (this + k * b.wordBytes) v

def mdescNext (m : Memory) (this : ℕ) : ℕ := mdescField b m this 0

def mdescPrev (m : Memory) (this : ℕ) : ℕ := mdescField b m this 1

def mdescGetsize (m : Memory) (this : ℕ) : ℕ := mdescField b m this 2

def mdescSetnext (m : Memory) (this block : ℕ) : Memory := mdescSetField b m this 0 block

def mdescSetprev (m : Memory) (this block : ℕ) : Memory := mdescSetField b m this 1 block

def mdescSetsize (m : Memory) (this blockSize : ℕ) : Memory := mdescSetField b m this 2 blockSize

def mdescLinkAfter (m : Memory) (this block : ℕ) : Memory :=
  let m := mdescSetnext b m this (mdescNext b m block)
  let m := mdescSetprev b m this block
  let m := if mdescNext b m this ≠ 0 then mdescSetprev b m (mdescNext b m this) this else m
  mdescSetnext b m block this

def mdescLinkDetach (m : Memory) (this : ℕ) : Memory :=
  let m := if mdescNext b m this ≠ 0 then
      mdescSetprev b m (mdescNext b m this) (mdescPrev b m this)
    else m
  if mdescPrev b m this ≠ 0 then
    mdescSetnext b m (mdescPrev b m this) (mdescNext b m this)
  else m

def mdescIsolate (m : Memory) (this : ℕ) : Memory :=
  mdescSetprev b (mdescSetnext b m this 0) this 0

def mdescInit (m : Memory) (this size : ℕ) : Memory :=
  mdescIsolate b (mdescSetsize b m this size) this

def mdescGetDataAddr (this : ℕ) : ℕ := (this + b.sizeofMdesc) % b.modulus

/-- The address just past the payload of a block, where an adjacent block
would have its descriptor. -/
def mdescEndAddr (m : Memory) (this : ℕ) : ℕ :=
  (mdescGetDataAddr b this + mdescGetsize b m this) % b.modulus

/-- Returns the memory and the left node. -/
def mdescMerge (m : Memory) (mbd1 mbd2 : ℕ) : Memory × ℕ :=
  let leftNode := if mbd1 < mbd2 then mbd1 else mbd2
  let rightNode := if mbd1 > mbd2 then mbd1 else mbd2
  let newSize := (mdescGetsize b m mbd1 + mdescGetsize b m mbd2 + b.sizeofMdesc) % b.modulus
  let m := mdescSetsize b m leftNode newSize
  let m := mdescLinkDetach b m rightNode
  (mdescIsolate b m rightNode, leftNode)

/-! ### The two lists -/

def mmAdd2used (mm : Mm) (mbd : ℕ) : Mm :=
  if mm.usedMemory = 0 then
    { mm with mem := mdescIsolate b mm.mem mbd, usedMemory := mbd }
  else
    { mm with mem := mdescLinkAfter b mm.mem mbd mm.usedMemory }

/-- The loop of `mm_find_free`: `mbd` walks the list and `gMbd` is the largest
block seen that is larger than the request. -/
def mmFindFreeLoop (m : Memory) (size : ℕ) : ℕ → ℕ → ℕ → Option ℕ
  | 0, _, _ => none
  | fuel + 1, mbd, gMbd =>
    if mbd = 0 then some gMbd
    else if mdescGetsize b m mbd = size then some mbd
    else
      let gMbd :=
        if mdescGetsize b m mbd > size then
          if gMbd ≠ 0 then
            if mdescGetsize b m gMbd < mdescGetsize b m mbd then mbd else gMbd
          else mbd
        else gMbd
      mmFindFreeLoop m size fuel (mdescNext b m mbd) gMbd

/-- Every list of the arena is shorter than this. -/
def Mm.fuel (mm : Mm) : ℕ := mm.arenaSize + 1

def mmFindFree (mm : Mm) (size : ℕ) : Option ℕ :=
  mmFindFreeLoop b mm.mem size mm.fuel mm.freeMemory 0

def mmFindUsedLoop (m : Memory) (ptr : ℕ) : ℕ → ℕ → Option ℕ
  | 0, _ => none
  | fuel + 1, mbd =>
    if mbd = 0 then some 0
    else if ptr = mdescGetDataAddr b mbd then some mbd
    else mmFindUsedLoop m ptr fuel (mdescNext b m mbd)

def mmFindUsed (mm : Mm) (ptr : ℕ) : Option ℕ :=
  mmFindUsedLoop b mm.mem ptr mm.fuel mm.usedMemory

def miposMmIsIn (mm : Mm) (ptr : ℕ) : Option Bool :=
  (mmFindUsed b mm ptr).map (· ≠ 0)

def mmFindContFreePredMbLoop (m : Memory) (mbd : ℕ) : ℕ → ℕ → Option ℕ
  | 0, _ => none
  | fuel + 1, mbdI =>
    if mbdI = 0 then some 0
    else if mbd ≠ mbdI ∧ (mdescEndAddr b m mbdI = mbd ∨ mdescEndAddr b m mbd = mbdI) then
      some mbdI
    else mmFindContFreePredMbLoop m mbd fuel (mdescNext b m mbdI)

def mmFindContFreePredMb (mm : Mm) (mbd : ℕ) : Option ℕ :=
  mmFindContFreePredMbLoop b mm.mem mbd mm.fuel mm.freeMemory

def mmFindContFreeMb (mm : Mm) (firstMbd secondMbd : ℕ) : Mm × ℕ :=
  let maxMbd := if firstMbd > secondMbd then firstMbd else secondMbd
  let mm :=
    if mm.freeMemory = maxMbd then
      if mdescNext b mm.mem maxMbd ≠ 0 then
        { mm with freeMemory := mdescNext b mm.mem maxMbd }
      else
        { mm with freeMemory := if firstMbd < secondMbd then firstMbd else secondMbd }
    else mm
  let merged := mdescMerge b mm.mem firstMbd secondMbd
  ({ mm with mem := merged.1 }, merged.2)

/-! ### The operations -/

/-- The test that decides between splitting a block of `blockSize` bytes and
handing it out whole: the difference is taken in `size_t` and widened after. -/
def splits (blockSize size : ℕ) : Bool :=
  let neededMbdSize := (size + b.sizeofMdesc) % b.modulus
  toSignedSize ((blockSize + (b.modulus - neededMbdSize)) % b.modulus) > (b.sizeofMdesc : ℤ)

/-- Returns the state and the allocated descriptor, or `0`. -/
def mmAllocAux (mm : Mm) (size : ℕ) : Option (Mm × ℕ) := do
  let mbd ← mmFindFree b mm size
  if mbd = 0 then
    return (mm, 0)
  let neededMbdSize := (size + b.sizeofMdesc) % b.modulus
  if splits b (mdescGetsize b mm.mem mbd) size then
    let m := mdescSetsize b mm.mem mbd
      ((mdescGetsize b mm.mem mbd + (b.modulus - neededMbdSize)) % b.modulus)
    let allocatedMbd := mdescEndAddr b m mbd
    let m := mdescInit b m allocatedMbd size
    return (mmAdd2used b { mm with mem := m } allocatedMbd, allocatedMbd)
  else
    let mm :=
      if mm.freeMemory = mbd then
        let freeMemory := mdescNext b mm.mem mbd
        if freeMemory ≠ 0 then
          { mm with freeMemory, mem := mdescSetprev b mm.mem freeMemory 0 }
        else
          { mm with freeMemory }
      else mm
    let mm := { mm with mem := mdescLinkDetach b mm.mem mbd }
    return (mmAdd2used b mm mbd, mbd)

/-- Returns the state and whether the block was found. -/
def miposMmFree (mm : Mm) (ptr : ℕ) : Option (Mm × Bool) := do
  let allocatedMbd ← mmFindUsed b mm ptr
  if allocatedMbd = 0 then
    return (mm, false)
  let mm :=
    if allocatedMbd = mm.usedMemory then
      let usedMemory := mdescNext b mm.mem allocatedMbd
      if usedMemory ≠ 0 then
        { mm with usedMemory, mem := mdescSetprev b mm.mem usedMemory 0 }
      else
        { mm with usedMemory }
    else mm
  let m := mdescLinkDetach b mm.mem allocatedMbd
  let m := mdescIsolate b m allocatedMbd
  if mm.freeMemory = 0 then
    return ({ mm with mem := m, freeMemory := allocatedMbd }, true)
  else
    return ({ mm with mem := mdescLinkAfter b m allocatedMbd mm.freeMemory }, true)

/-- The state after `mipos_mm_init` on `size` bytes of `m` from `arena` on. -/
def miposMmInit (m : Memory) (arena size : ℕ) : Mm where
  arenaSize := size
  freeMemory := arena
  usedMemory := 0
  mem := mdescInit b (m.fill arena size 0) arena
    ((size + (b.modulus - b.sizeofMdesc)) % b.modulus)

/-- The loop of `mipos_mm_compact_freemem`, which starts over at the head after
each merge. -/
def miposMmCompactFreememLoop (bytesNeeded : ℕ) : ℕ → Mm → ℕ → ℕ → Option (Mm × ℕ)
  | 0, _, _, _ => none
  | fuel + 1, mm, mbd, bytesCompacted =>
    if mbd = 0 then some (mm, bytesCompacted)
    else do
      let mbdI ← mmFindContFreePredMb b mm mbd
      if mbdI ≠ 0 then
        let merged := mmFindContFreeMb b mm mbdI mbd
        let bytesCompacted := mdescGetsize b merged.1.mem merged.2
        if bytesNeeded ≠ 0 ∧ bytesCompacted ≥ bytesNeeded then
          return (merged.1, bytesCompacted)
        miposMmCompactFreememLoop bytesNeeded fuel merged.1 merged.1.freeMemory bytesCompacted
      else
        miposMmCompactFreememLoop bytesNeeded fuel mm (mdescNext b mm.mem mbd) bytesCompacted

def miposMmCompactFreemem (mm : Mm) (bytesNeeded : ℕ) : Option (Mm × ℕ) :=
  miposMmCompactFreememLoop b bytesNeeded (mm.fuel * mm.fuel) mm mm.freeMemory 0

/-- `(size + 3) & ~3` in `size_t`. -/
def alignedSize (size : ℕ) : ℕ := (size + 3) % b.modulus / 4 * 4

/-- Returns the state and the address of the payload, or `0`. -/
def miposMmAlloc (mm : Mm) (size : ℕ) : Option (Mm × ℕ) :=
  if size = 0 then some (mm, 0)
  else do
    let (mm, blk) ← mmAllocAux b mm (alignedSize b size)
    if blk ≠ 0 then
      return (mm, mdescGetDataAddr b blk)
    let (mm, bytesCompacted) ← miposMmCompactFreemem b mm (alignedSize b size)
    if bytesCompacted ≥ alignedSize b size then
      -- second chance
      let (mm, blk) ← mmAllocAux b mm (alignedSize b size)
      return (mm, if blk ≠ 0 then mdescGetDataAddr b blk else 0)
    else
      return (mm, 0)

def getPartPtrAllocatedMemSize (mm : Mm) (ptr : ℕ) : Option ℕ := do
  let allocatedMbd ← mmFindUsed b mm ptr
  if allocatedMbd ≠ 0 then
    return mdescGetsize b mm.mem allocatedMbd
  return 0

/-- `memcpy` of `n > 0` bytes, which faults when the destination is null. -/
def memcpyChecked (m : Memory) (dst src n : ℕ) : Option Memory :=
  if dst = 0 then none else some (m.copy dst src n)

def miposMmRealloc (mm : Mm) (ptr size : ℕ) : Option (Mm × ℕ) :=
  if ptr = 0 then miposMmAlloc b mm size
  else do
    let allocSize ← getPartPtrAllocatedMemSize b mm ptr
    if 0 < size ∧ size < allocSize then
      return (mm, ptr)
    let minSize := if allocSize < size then allocSize else size
    if minSize > 0 then
      let (mm, newPtr) ← miposMmAlloc b mm size
      let m ← memcpyChecked mm.mem newPtr ptr minSize
      let (mm, _) ← miposMmFree b { mm with mem := m } ptr
      return (mm, newPtr)
    else
      let (mm, _) ← miposMmFree b mm ptr
      return (mm, 0)

/-- `mipos_calloc` on the allocator `_mm_ptr` points to. -/
def miposCalloc (mm : Mm) (nmemb size : ℕ) : Option (Mm × ℕ) := do
  let size := size * nmemb % b.modulus
  let (mm, ptr) ← miposMmAlloc b mm size
  if ptr = 0 then
    return (mm, 0)
  return ({ mm with mem := mm.mem.fill ptr size 0 }, ptr)

/-! ### Totals -/

/-- One more in a counter of type `int`. -/
def intIncr (i : ℕ) : Option ℕ := if i + 1 < 2 ^ 31 then some (i + 1) else none

/-- The loop of `mipos_mm_dbg_print` (and of `mipos_mm_get_used_memory_size`)
over one list: the number of blocks, an `int`, and the sum of their sizes. -/
def dbgPrintLoop (m : Memory) : ℕ → ℕ → ℕ → ℕ → Option (ℕ × ℕ)
  | 0, _, _, _ => none
  | fuel + 1, mbd, i, totPartMem =>
    if mbd = 0 then some (i, totPartMem)
    else do
      let i ← intIncr i
      dbgPrintLoop m fuel (mdescNext b m mbd) i ((totPartMem + mdescGetsize b m mbd) % b.modulus)

/-- The total that `mipos_mm_dbg_print` compares with `_arena_size`. -/
def miposMmDbgPrintTotMem (mm : Mm) : Option ℕ := do
  let (i, totFree) ← dbgPrintLoop b mm.mem mm.fuel mm.freeMemory 0 0
  let totResMem := i * b.sizeofMdesc % b.modulus
  let (i, totUsed) ← dbgPrintLoop b mm.mem mm.fuel mm.usedMemory 0 0
  let totMem := (totFree + totUsed) % b.modulus
  let totResMem := (totResMem + i * b.sizeofMdesc % b.modulus) % b.modulus
  return (totMem + totResMem) % b.modulus

def miposMmGetUsedMemorySize (mm : Mm) : Option ℕ := do
  let (i, usedMem) ← dbgPrintLoop b mm.mem mm.fuel mm.usedMemory 0 0
  return (usedMem + i * b.sizeofMdesc % b.modulus) % b.modulus

end Malloc
