/-
Runs of the 64-bit allocator.

A run starts at `mipos_mm_init` and takes calls of the interface in any order,
with any pointers, while the users of live blocks write to their payloads
(`Event`).  `run_inv` says that a run keeps the heap invariant and whatever its
calls keep, `trace_inv` the same with the history of the calls.

The results are stated on the memory alone, through the lists stored in it:

* `heap_tiling` — both lists are well linked and the extents of their blocks
  partition the arena, in every reachable state;
* `live_payloads_kept` — no call writes to the payload of a block that is live
  before and after it, and a new payload overlaps nothing.
-/
import Mipos.Evaluate
import Mipos.MallocCalls

namespace Malloc

open Tiling DoublyLinked Function Relation

/-! ### What the memory says -/

/-- The descriptors `l` are the list stored from `head` on. -/
def StoredList (b : Build) (m : Memory) (head : ℕ) (l : List ℕ) : Prop :=
  head = l.headD 0 ∧ IsList (mdescNext b m) (mdescPrev b m) l

instance {b : Build} {m : Memory} {head : ℕ} {l : List ℕ} : Decidable (StoredList b m head l) :=
  inferInstanceAs (Decidable (_ ∧ _))

/-- `d` is on the used list. -/
def LiveDesc (b : Build) (mm : Mm) (d : ℕ) : Prop :=
  ∃ l, StoredList b mm.mem mm.usedMemory l ∧ d ∈ l

/-- `d` is on the free list. -/
def FreeDesc (b : Build) (mm : Mm) (d : ℕ) : Prop :=
  ∃ l, StoredList b mm.mem mm.freeMemory l ∧ d ∈ l

/-- The byte at `a` is payload of the descriptor `d`. -/
def PayloadByte (b : Build) (mm : Mm) (d a : ℕ) : Prop :=
  d + b.sizeofMdesc ≤ a ∧ a < d + b.sizeofMdesc + mdescGetsize b mm.mem d

/-- The byte at `a` is in the extent of the descriptor `d`. -/
def ExtentByte (b : Build) (mm : Mm) (d a : ℕ) : Prop :=
  d ≤ a ∧ a < d + b.sizeofMdesc + mdescGetsize b mm.mem d

/-! ### Calls and runs -/

/-- The calls of the interface. -/
inductive Call
  | alloc (size : ℕ)
  | free (ptr : ℕ)
  | compact (bytesNeeded : ℕ)
  | calloc (nmemb size : ℕ)
  | realloc (ptr size : ℕ)

/-- A call and the pointer it returns (`0` where it returns none). -/
def Call.exec (b : Build) (mm : Mm) : Call → Option (Mm × ℕ)
  | .alloc size => miposMmAlloc b mm size
  | .free ptr => (miposMmFree b mm ptr).map fun p => (p.1, 0)
  | .compact bytesNeeded => (miposMmCompactFreemem b mm bytesNeeded).map fun p => (p.1, 0)
  | .calloc nmemb size => miposCalloc b mm nmemb size
  | .realloc ptr size => miposMmRealloc b mm ptr size

/-- The bytes that the call asks `mipos_mm_alloc` for, `0` if it asks for none. -/
def Call.request (b : Build) : Call → ℕ
  | .alloc size => size
  | .free _ => 0
  | .compact _ => 0
  | .calloc nmemb size => size * nmemb % b.modulus
  | .realloc _ size => size

/-- Requests stay at least four bytes below the range of `size_t`. -/
def Call.InRange (b : Build) : Call → Prop
  | .alloc size => size + 4 ≤ b.modulus
  | .free _ => True
  | .compact _ => True
  | .calloc nmemb size => nmemb * size + 4 ≤ b.modulus
  | .realloc _ size => size + 4 ≤ b.modulus

/-- The bytes the call itself clears or copies fit in the block it is given:
rounding the request up does not wrap round to a smaller block. -/
def Call.Fits (b : Build) : Call → Prop
  | .alloc _ => True
  | .free _ => True
  | .compact _ => True
  | .calloc nmemb size => size * nmemb % b.modulus + 4 ≤ b.modulus
  | .realloc ptr size => ptr = 0 ∨ size + 4 ≤ b.modulus

instance {b : Build} : DecidablePred (Call.Fits b)
  | .alloc _ | .free _ | .compact _ => .isTrue trivial
  | .calloc _ _ => inferInstanceAs (Decidable (_ ≤ _))
  | .realloc _ _ => inferInstanceAs (Decidable (_ ∨ _))

/-- A byte the users may write: payload of a live block, or not in the arena. -/
def UserByte (b : Build) (base : ℕ) (mm : Mm) (a : ℕ) : Prop :=
  (∃ d, LiveDesc b mm d ∧ PayloadByte b mm d a) ∨ a < base ∨ base + mm.arenaSize ≤ a

/-- The byte `v` is stored at `a`. -/
def Mm.write (mm : Mm) (a : ℕ) (v : UInt8) : Mm := { mm with mem := update mm.mem a v }

/-- One step of a run: a call, with `calls` to say what calls do, or a write by a user.  The list
has the call that is made. -/
inductive Event {ε : Type} (b : Build) (base : ℕ) (calls : Mm → ε → Mm → Prop) :
    Mm → List ε → Mm → Prop
  | call {mm mm' : Mm} {e : ε} (he : calls mm e mm') : Event b base calls mm [e] mm'
  | write {mm : Mm} (a : ℕ) (v : UInt8) (ha : UserByte b base mm a) :
      Event b base calls mm [] (mm.write a v)

/-- A step, whatever the call. -/
def StepOf {ε : Type} (b : Build) (base : ℕ) (calls : Mm → ε → Mm → Prop) (mm mm' : Mm) : Prop :=
  ∃ es, Event b base calls mm es mm'

/-- A step together with the history of the calls, the last one first. -/
def TraceOf {ε : Type} (b : Build) (base : ℕ) (calls : Mm → ε → Mm → Prop)
    (s s' : Mm × List ε) : Prop :=
  ∃ es, Event b base calls s.1 es s'.1 ∧ s'.2 = es ++ s.2

/-- The call satisfies `P`, and returns. -/
def Call.Returns (b : Build) (P : Mm → Call → Prop) (mm : Mm) (e : Call × ℕ) (mm' : Mm) : Prop :=
  P mm e.1 ∧ e.1.exec b mm = some (mm', e.2)

/-- One step of a run whose calls satisfy `P`. -/
abbrev StepWhere (b : Build) (base : ℕ) (P : Call → Prop) : Mm → Mm → Prop :=
  StepOf b base (Call.Returns b fun _ => P)

/-- One step of a run whose requests are in range. -/
abbrev Step (b : Build) (base : ℕ) : Mm → Mm → Prop := StepWhere b base (Call.InRange b)

variable {b : Build} {base : ℕ} {mm mm' : Mm} {H : Blocks} {c : Call}

theorem StepWhere.call {P : Call → Prop} {r : ℕ} (c : Call) (hc : P c)
    (hexec : c.exec b mm = some (mm', r)) : StepWhere b base P mm mm' :=
  ⟨[(c, r)], .call ⟨hc, hexec⟩⟩

theorem Call.InRange.fits (hc : c.InRange b) : c.Fits b := by
  cases c with
  | alloc size => trivial
  | free ptr => trivial
  | compact bytesNeeded => trivial
  | calloc nmemb size =>
    have hrange : nmemb * size + 4 ≤ b.modulus := hc
    show size * nmemb % b.modulus + 4 ≤ b.modulus
    rwa [Nat.mul_comm, Nat.mod_eq_of_lt (by omega)]
  | realloc ptr size => exact Or.inr hc

/-- **A call returns**, except for a reallocation whose allocation fails, keeps the invariant and
changes the heap by changes of blocks. -/
theorem Call.exec_leaves (h : HeapInv b base mm H) (hs : AllocSound b mm (c.request b))
    (hc : c.Fits b) :
    (c.exec b mm = none ∧ ∃ ptr size, c = .realloc ptr size ∧ ReallocFails b mm ptr size) ∨
      ∃ mm' r H', c.exec b mm = some (mm', r) ∧ CallLeaves b base H mm mm' r H' ∧
        Blocks.Changes b.sizeofMdesc (alignedSize b (c.request b)) H H' := by
  cases c with
  | alloc size => exact Or.inr (miposMmAlloc_leaves h hs)
  | free ptr =>
    obtain ⟨mm', ok, H', hrun, hl⟩ := miposMmFree_leaves h ptr
    exact Or.inr ⟨mm', 0, H', by simp [Call.exec, hrun], hl⟩
  | compact bytesNeeded =>
    obtain ⟨mm', r, H', hrun, hl⟩ := miposMmCompactFreemem_leaves h bytesNeeded
    exact Or.inr ⟨mm', 0, H', by simp [Call.exec, hrun], hl⟩
  | calloc nmemb size => exact Or.inr (miposCalloc_leaves h hs hc)
  | realloc ptr size =>
    rcases hc with rfl | hc
    · exact Or.inr (miposMmAlloc_leaves h hs)
    rcases miposMmRealloc_leaves h ptr hs hc with ⟨hnone, hfail⟩ | hsome
    · exact Or.inl ⟨hnone, ptr, size, rfl, hfail⟩
    · exact Or.inr hsome

/-- The same, for a call that did return. -/
theorem Call.changes_of_exec {r : ℕ} (h : HeapInv b base mm H)
    (hs : AllocSound b mm (c.request b)) (hc : c.Fits b) (hexec : c.exec b mm = some (mm', r)) :
    ∃ H', CallLeaves b base H mm mm' r H' ∧
      Blocks.Changes b.sizeofMdesc (alignedSize b (c.request b)) H H' := by
  rcases c.exec_leaves h hs hc with ⟨hnone, -⟩ | ⟨mm₁, r₁, H', hsome, hl⟩
  · rw [hnone] at hexec
    exact absurd hexec (by simp)
  · rw [hsome, Option.some_inj, Prod.mk.injEq] at hexec
    obtain ⟨rfl, rfl⟩ := hexec
    exact ⟨H', hl⟩

theorem Call.leaves_of_exec {r : ℕ} (hb : b.SplitSound) (h : HeapInv b base mm H)
    (hc : c.Fits b) (hexec : c.exec b mm = some (mm', r)) :
    ∃ H', CallLeaves b base H mm mm' r H' := by
  obtain ⟨H', hl, -⟩ := c.changes_of_exec h (hb.allocSound h _) hc hexec
  exact ⟨H', hl⟩

/-! ### The invariant, read off the memory -/

theorem HeapInv.stored_free (h : HeapInv b base mm H) :
    StoredList b mm.mem mm.freeMemory (H.free.map Block.addr) := ⟨h.free_head, h.free_list⟩

theorem HeapInv.stored_used (h : HeapInv b base mm H) :
    StoredList b mm.mem mm.usedMemory (H.used.map Block.addr) := ⟨h.used_head, h.used_list⟩

theorem StoredList.unique {m : Memory} {head : ℕ} {l l' : List ℕ} (h : StoredList b m head l)
    (h' : StoredList b m head l') : l = l' :=
  h.2.unique h'.2 (h.1.symm.trans h'.1)

theorem HeapInv.liveDesc_iff (h : HeapInv b base mm H) {d : ℕ} :
    LiveDesc b mm d ↔ ∃ u ∈ H.used, u.addr = d := by
  constructor
  · rintro ⟨l, hl, hd⟩
    rw [hl.unique h.stored_used] at hd
    exact List.mem_map.mp hd
  · rintro ⟨u, hu, rfl⟩
    exact ⟨_, h.stored_used, List.mem_map_of_mem hu⟩

theorem HeapInv.freeDesc_iff (h : HeapInv b base mm H) {d : ℕ} :
    FreeDesc b mm d ↔ ∃ u ∈ H.free, u.addr = d := by
  constructor
  · rintro ⟨l, hl, hd⟩
    rw [hl.unique h.stored_free] at hd
    exact List.mem_map.mp hd
  · rintro ⟨u, hu, rfl⟩
    exact ⟨_, h.stored_free, List.mem_map_of_mem hu⟩

theorem HeapInv.payloadByte_iff (h : HeapInv b base mm H) {u : Block} (hu : u ∈ H.all) {a : ℕ} :
    PayloadByte b mm u.addr a ↔ u.InPayload b a := by
  rw [PayloadByte, Block.InPayload, h.size_eq u hu]

/-! ### Steps and runs -/

/-- A byte that a user may write is in no descriptor. -/
theorem HeapInv.userByte_not_inMdescs (h : HeapInv b base mm H) {a : ℕ}
    (ha : UserByte b base mm a) : ¬ InMdescs b H.IsDesc a := by
  rcases ha with ⟨d, hlive, hpay⟩ | hout
  · obtain ⟨u, hu, rfl⟩ := h.liveDesc_iff.mp hlive
    have hua := Blocks.mem_all_of_used hu
    exact h.tiled.payload_not_inMdescs hua ((h.payloadByte_iff hua).mp hpay)
  · rintro ⟨d, ⟨u, hu, rfl⟩, hin⟩
    have hinside := h.tiled.inside hu
    unfold InMdesc at hin
    omega

/-- What a call returns is the payload of a live block. -/
theorem CallLeaves.liveDesc {r : ℕ} {H' : Blocks} (hl : CallLeaves b base H mm mm' r H')
    (hr : r ≠ 0) : ∃ d, LiveDesc b mm' d ∧ r = d + b.sizeofMdesc := by
  obtain ⟨x, hx, hrx⟩ := hl.result hr
  exact ⟨x.addr, hl.leaves.inv.liveDesc_iff.mpr ⟨x, hx, rfl⟩, hrx⟩

/-- A write by a user keeps the invariant. -/
theorem HeapInv.write_userByte (h : HeapInv b base mm H) {a : ℕ} (ha : UserByte b base mm a)
    (v : UInt8) : HeapInv b base (mm.write a v) H := by
  refine h.of_eqOff (P := (· = a)) ?_ ?_
  · intro x hx
    exact update_of_ne hx v mm.mem
  · rintro x rfl
    exact h.userByte_not_inMdescs ha

section Runs

variable {ε : Type} {calls : Mm → ε → Mm → Prop} {m : Memory} {len : ℕ}

/-- A run has a history. -/
theorem exists_trace (hrun : ReflTransGen (StepOf b base calls) mm mm') :
    ∃ hist, ReflTransGen (TraceOf b base calls) (mm, []) (mm', hist) := by
  induction hrun with
  | refl => exact ⟨[], .refl⟩
  | tail _ hstep ih =>
    obtain ⟨hist, hrun⟩ := ih
    obtain ⟨es, hevent⟩ := hstep
    exact ⟨es ++ hist, hrun.tail ⟨es, hevent, rfl⟩⟩

/-- **What a run preserves**: the invariant, and what the calls preserve of the heap and the
history. -/
theorem trace_inv {I : Blocks → List ε → Prop} {s : Mm × List ε} (hpos : 0 < base)
    (hend : base + len < b.modulus) (hlen : b.sizeofMdesc ≤ len)
    (hinit : I ⟨[⟨base, len - b.sizeofMdesc⟩], []⟩ [])
    (hcalls : ∀ {mm mm' : Mm} {e : ε} {H : Blocks} {hist : List ε}, HeapInv b base mm H →
      mm.arenaSize = len → I H hist → calls mm e mm' →
      mm'.arenaSize = mm.arenaSize ∧ ∃ H', HeapInv b base mm' H' ∧ I H' (e :: hist))
    (hrun : ReflTransGen (TraceOf b base calls) (miposMmInit b m base len, []) s) :
    s.1.arenaSize = len ∧ ∃ H, HeapInv b base s.1 H ∧ I H s.2 := by
  induction hrun with
  | refl => exact ⟨rfl, _, miposMmInit_inv m hpos hend hlen, hinit⟩
  | @tail s s' _ hstep ih =>
    obtain ⟨harena, H, h, hI⟩ := ih
    obtain ⟨mm', hist'⟩ := s'
    obtain ⟨es, hevent, rfl⟩ := hstep
    cases hevent with
    | call he =>
      obtain ⟨harena', H', h', hI'⟩ := hcalls h harena hI he
      exact ⟨harena'.trans harena, H', h', hI'⟩
    | write a v ha => exact ⟨harena, H, h.write_userByte ha v, hI⟩

/-- The same, without the history. -/
theorem run_inv {I : Blocks → Prop} (hpos : 0 < base) (hend : base + len < b.modulus)
    (hlen : b.sizeofMdesc ≤ len) (hinit : I ⟨[⟨base, len - b.sizeofMdesc⟩], []⟩)
    (hcalls : ∀ {mm mm' : Mm} {e : ε} {H : Blocks}, HeapInv b base mm H → mm.arenaSize = len →
      I H → calls mm e mm' →
      mm'.arenaSize = mm.arenaSize ∧ ∃ H', HeapInv b base mm' H' ∧ I H')
    (hrun : ReflTransGen (StepOf b base calls) (miposMmInit b m base len) mm) :
    mm.arenaSize = len ∧ ∃ H, HeapInv b base mm H ∧ I H := by
  obtain ⟨hist, htrace⟩ := exists_trace hrun
  exact trace_inv (I := fun H _ => I H) hpos hend hlen hinit hcalls htrace

/-- **Every run whose calls fit keeps the invariant.** -/
theorem runWhere_inv {P : Call → Prop} (hb : b.SplitSound) (hP : ∀ c, P c → c.Fits b)
    (hpos : 0 < base) (hend : base + len < b.modulus) (hlen : b.sizeofMdesc ≤ len)
    (hrun : ReflTransGen (StepWhere b base P) (miposMmInit b m base len) mm) :
    mm.arenaSize = len ∧ ∃ H, HeapInv b base mm H := by
  obtain ⟨harena, H, h, -⟩ := run_inv (I := fun _ => True) hpos hend hlen trivial
    (fun h _ _ he => by
      obtain ⟨H', hl⟩ := Call.leaves_of_exec hb h (hP _ he.1) he.2
      exact ⟨hl.leaves.arena, H', hl.leaves.inv, trivial⟩) hrun
  exact ⟨harena, H, h⟩

end Runs

/-! A run of calls can be computed. -/

/-- The calls `cs` one after the other. -/
def Call.execAll (b : Build) (mm : Mm) : List Call → Option Mm
  | [] => some mm
  | c :: cs => do
    let (mm, _) ← c.exec b mm
    Call.execAll b mm cs

theorem Call.execAll_run {P : Call → Prop} {cs : List Call} (hP : ∀ c ∈ cs, P c) :
    ∀ {mm : Mm}, Call.execAll b mm cs = some mm' →
      ReflTransGen (StepWhere b base P) mm mm' := by
  induction cs with
  | nil =>
    intro mm hexec
    obtain rfl : mm = mm' := Option.some_inj.mp hexec
    exact .refl
  | cons c cs ih =>
    intro mm hexec
    obtain ⟨⟨mm₁, r⟩, hc, hcs⟩ := Option.bind_eq_some_iff.mp hexec
    obtain ⟨hPc, hPcs⟩ := List.forall_mem_cons.mp hP
    exact .head (StepWhere.call c hPc hc) (ih hPcs hcs)

/-! ### The total of `mipos_mm_dbg_print` -/

/-- The loop over a stored list counts its blocks and adds up their sizes, as
long as the counter does not overflow. -/
theorem HeapInv.dbgPrintLoop_eq (h : HeapInv b base mm H) {L : List Block}
    (hL : IsList (mdescNext b mm.mem) (mdescPrev b mm.mem) (L.map Block.addr))
    (hall : ∀ y ∈ L, y ∈ H.all) :
    ∀ (l l₁ : List Block) (fuel i tot : ℕ), L = l₁ ++ l → l.length < fuel → i < 2 ^ 31 →
      tot < b.modulus →
      dbgPrintLoop b mm.mem fuel ((l.map Block.addr).headD 0) i tot
        = if i + l.length < 2 ^ 31 then
            some (i + l.length, (tot + (l.map Block.size).sum) % b.modulus)
          else none := by
  intro l
  induction l with
  | nil =>
    intro l₁ fuel i tot _ hfuel hi htot
    obtain ⟨fuel, rfl⟩ : ∃ k, fuel = k + 1 := ⟨fuel - 1, by omega⟩
    rw [List.map_nil, List.headD_nil, dbgPrintLoop, if_pos rfl, if_pos (by simpa using hi)]
    simp [Nat.mod_eq_of_lt htot]
  | cons x l ih =>
    intro l₁ fuel i tot hl hfuel hi htot
    obtain ⟨fuel, rfl⟩ : ∃ k, fuel = k + 1 := ⟨fuel - 1, by omega⟩
    have hx : x ∈ H.all := hall x (by simp [hl])
    have hnext : mdescNext b mm.mem x.addr = (l.map Block.addr).headD 0 :=
      next_eq_of_isList (hl ▸ hL)
    rw [List.map_cons, List.headD_cons, dbgPrintLoop, if_neg (h.addr_ne_zero hx), intIncr]
    by_cases hi' : i + 1 < 2 ^ 31
    · simp only [if_pos hi', Option.bind_eq_bind, Option.bind_some]
      rw [h.size_eq x hx, hnext, ih (l₁ ++ [x]) fuel (i + 1) _ (by simp [hl])
        (by simpa using hfuel) hi' (Nat.mod_lt _ (modulus_pos b))]
      rw [List.length_cons, List.map_cons, List.sum_cons, Nat.mod_add_mod]
      rw [show i + 1 + l.length = i + (l.length + 1) by omega, Nat.add_assoc tot]
    · have hlen : ¬ i + (x :: l).length < 2 ^ 31 := by
        rw [List.length_cons]
        omega
      rw [if_neg hi', if_neg hlen]
      rfl

/-- The blocks take up the arena: sizes and descriptors add up to its length. -/
theorem Blocks.Tiled.sum_eq {hdr len : ℕ} (h : H.Tiled hdr base len) :
    (H.free.map Block.size).sum + (H.used.map Block.size).sum
      + (H.free.length * hdr + H.used.length * hdr) = len := by
  have hsum : ∀ l : List Block, ((l.map (Block.span hdr)).map Prod.snd).sum
      = l.length * hdr + (l.map Block.size).sum := by
    intro l
    have hsnd : Prod.snd ∘ Block.span hdr = fun x => hdr + x.size := rfl
    rw [List.map_map, hsnd, List.sum_map_add, List.map_const', List.sum_replicate_nat]
  have htotal := h.total
  rw [Blocks.all, List.map_append, List.map_append, List.sum_append, hsum, hsum] at htotal
  omega

/-- **The total matches the arena** unless a counter overflows on the way. -/
theorem HeapInv.miposMmDbgPrintTotMem_eq (h : HeapInv b base mm H) :
    miposMmDbgPrintTotMem b mm
      = if H.free.length < 2 ^ 31 ∧ H.used.length < 2 ^ 31 then some mm.arenaSize else none := by
  have hM := modulus_pos b
  have hfree := h.dbgPrintLoop_eq h.free_list (fun y hy => Blocks.mem_all_of_free hy) H.free []
    mm.fuel 0 0 rfl h.length_free_lt (by omega) hM
  have hused := h.dbgPrintLoop_eq h.used_list (fun y hy => Blocks.mem_all_of_used hy) H.used []
    mm.fuel 0 0 rfl h.length_used_lt (by omega) hM
  rw [← h.free_head, Nat.zero_add, Nat.zero_add] at hfree
  rw [← h.used_head, Nat.zero_add, Nat.zero_add] at hused
  rw [miposMmDbgPrintTotMem, hfree, hused]
  by_cases hf : H.free.length < 2 ^ 31
  · by_cases hu : H.used.length < 2 ^ 31
    · rw [if_pos hf, if_pos hu, if_pos ⟨hf, hu⟩]
      have hsum := h.tiled.sum_eq
      have hlt := h.base_end
      show some _ = some _
      congr 1
      simp only [Nat.add_mod_mod, Nat.mod_add_mod]
      rw [hsum]
      exact Nat.mod_eq_of_lt (by omega)
    · have hboth : ¬ (H.free.length < 2 ^ 31 ∧ H.used.length < 2 ^ 31) := fun e => hu e.2
      rw [if_pos hf, if_neg hu, if_neg hboth]
      rfl
  · have hboth : ¬ (H.free.length < 2 ^ 31 ∧ H.used.length < 2 ^ 31) := fun e => hf e.1
    rw [if_neg hf, if_neg hboth]
    rfl

/-! ### The tiling of every reachable state -/

theorem splitSound_mipos64 : Build.mipos64.SplitSound := by
  intro blockSize n hn hsize hs
  have hM : Build.mipos64.modulus = 18446744073709551616 := by decide
  have hhdr : Build.mipos64.sizeofMdesc = 24 := rfl
  rw [hM, hhdr] at hsize
  rw [hhdr]
  by_contra hlt
  -- the difference wraps to a number with the sign bit set
  have hneeded : (n + 24) % 18446744073709551616 = n + 24 := Nat.mod_eq_of_lt (by omega)
  have hdiff : (blockSize + (18446744073709551616 - (n + 24))) % 18446744073709551616
      = blockSize + (18446744073709551616 - (n + 24)) := Nat.mod_eq_of_lt (by omega)
  rw [splits, hM, hhdr, hneeded, hdiff, toSignedSize, decide_eq_true_eq] at hs
  split at hs
  · omega
  · omega

/-- The state of the heap as the memory shows it: two doubly linked lists, and
the extents of their descriptors partition the arena. -/
structure WellTiled (b : Build) (base len : ℕ) (mm : Mm) (free used : List ℕ) : Prop where
  free_stored : StoredList b mm.mem mm.freeMemory free
  used_stored : StoredList b mm.mem mm.usedMemory used
  acyclic : (free ++ used).Nodup
  next_prev : ∀ d ∈ free ++ used, mdescNext b mm.mem d ≠ 0 →
    mdescPrev b mm.mem (mdescNext b mm.mem d) = d
  free_head_prev : free ≠ [] → mdescPrev b mm.mem mm.freeMemory = 0
  used_head_prev : used ≠ [] → mdescPrev b mm.mem mm.usedMemory = 0
  inside : ∀ d ∈ free ++ used, base ≤ d ∧
    d + b.sizeofMdesc + mdescGetsize b mm.mem d ≤ base + len
  cover : ∀ a, base ≤ a → a < base + len → ∃! d, d ∈ free ++ used ∧ ExtentByte b mm d a

theorem HeapInv.wellTiled (h : HeapInv b base mm H) :
    WellTiled b base mm.arenaSize mm (H.free.map Block.addr) (H.used.map Block.addr) := by
  have happ : H.free.map Block.addr ++ H.used.map Block.addr = H.all.map Block.addr := by
    rw [Blocks.all, List.map_append]
  have hextent : ∀ u ∈ H.all, ∀ a, ExtentByte b mm u.addr a ↔ Holds (u.span b.sizeofMdesc) a := by
    intro u hu a
    rw [ExtentByte, h.size_eq u hu, Holds, Block.span, Nat.add_assoc]
  refine ⟨h.stored_free, h.stored_used, ?_, ?_, ?_, ?_, ?_, ?_⟩
  · rw [happ]
    exact h.tiled.nodup_addr
  · intro d hd hn
    rcases List.mem_append.mp hd with hd | hd
    · exact h.free_list.pv_nx hd hn
    · exact h.used_list.pv_nx hd hn
  · intro hne
    rw [h.free_head]
    exact h.free_list.pv_head hne
  · intro hne
    rw [h.used_head]
    exact h.used_list.pv_head hne
  · rw [happ]
    intro d hd
    obtain ⟨u, hu, rfl⟩ := List.mem_map.mp hd
    rw [h.size_eq u hu, Nat.add_assoc]
    exact h.tiled.inside hu
  · rw [happ]
    intro a h1 h2
    obtain ⟨p, hp, hpa⟩ := Tiles.cover h.tiled h1 h2
    obtain ⟨u, hu, rfl⟩ := List.mem_map.mp hp
    refine ⟨u.addr, ⟨List.mem_map_of_mem hu, (hextent u hu a).mpr hpa⟩, ?_⟩
    rintro d ⟨hd, hda⟩
    obtain ⟨v, hv, rfl⟩ := List.mem_map.mp hd
    rw [h.tiled.eq_of_holds hv hu ((hextent v hv a).mp hda) hpa]

/-- **The heap is tiled in every reachable state** of the 64-bit build.  The
calls return, except for a reallocation whose allocation fails, and the total
of `mipos_mm_dbg_print` is the arena size; it is undefined only when a list has
so many blocks that the counter of type `int` overflows. -/
theorem heap_tiling {m : Memory} {base len : ℕ} {mm : Mm} (hpos : 0 < base)
    (hend : base + len < Build.mipos64.modulus) (hlen : Build.mipos64.sizeofMdesc ≤ len)
    (hrun : ReflTransGen (Step .mipos64 base) (miposMmInit .mipos64 m base len) mm) :
    mm.arenaSize = len ∧
      (∃ free used, WellTiled .mipos64 base len mm free used ∧
        miposMmDbgPrintTotMem .mipos64 mm
          = if free.length < 2 ^ 31 ∧ used.length < 2 ^ 31 then some len else none) ∧
      ∀ c : Call, c.InRange .mipos64 → c.exec .mipos64 mm = none →
        ∃ ptr size, c = .realloc ptr size ∧ ReallocFails .mipos64 mm ptr size := by
  obtain ⟨harena, H, h⟩ :=
    runWhere_inv splitSound_mipos64 (fun _ => Call.InRange.fits) hpos hend hlen hrun
  refine ⟨harena, ⟨H.free.map Block.addr, H.used.map Block.addr, ?_, ?_⟩, ?_⟩
  · exact harena ▸ h.wellTiled
  · rw [h.miposMmDbgPrintTotMem_eq, List.length_map, List.length_map, harena]
  · intro c hc hnone
    rcases c.exec_leaves h (splitSound_mipos64.allocSound h _) hc.fits with
      ⟨-, hfail⟩ | ⟨mm', r, H', hsome, -⟩
    · exact hfail
    · rw [hsome] at hnone
      exact absurd hnone (by simp)

/-- An allocation of 10 bytes in an arena of 256 takes its last 12. -/
theorem heap_tiling_alloc :
    ∃ mm r, Call.exec .mipos64 (miposMmInit .mipos64 (fun _ => 0) 64 256) (.alloc 10)
        = some (mm, r) ∧ r = 308 ∧
      ∃ free used, WellTiled .mipos64 64 256 mm free used := by
  have hresult : (Call.exec .mipos64 (miposMmInit .mipos64 (fun _ => 0) 64 256) (.alloc 10)).map
      Prod.snd = some 308 := by decide
  obtain ⟨⟨mm, r⟩, hexec, hr⟩ := Option.map_eq_some_iff.mp hresult
  have hstep : Step .mipos64 64 (miposMmInit .mipos64 (fun _ => 0) 64 256) mm :=
    StepWhere.call (.alloc 10) (by show 10 + 4 ≤ _; decide) hexec
  obtain ⟨-, ⟨free, used, htiled, -⟩, -⟩ :=
    heap_tiling (m := fun _ => 0) (by omega) (by decide) (by decide)
      (ReflTransGen.single hstep)
  exact ⟨mm, r, hexec, hr, free, used, htiled⟩

/-! A run of small allocations makes as many used blocks as one likes. -/

/-- Allocating four bytes from the one free block of a heap. -/
theorem alloc_four {s : ℕ} {used : List Block} (h : HeapInv .mipos64 base mm ⟨[⟨base, s⟩], used⟩)
    (hs : 52 < s) (hs' : s < 2 ^ 63) :
    ∃ mm' r U, miposMmAlloc .mipos64 mm 4 = some (mm', r) ∧
      HeapInv .mipos64 base mm' ⟨[⟨base, s - 28⟩], U⟩ ∧ U.length = used.length + 1 := by
  have hM : Build.mipos64.modulus = 18446744073709551616 := by decide
  have hhdr : Build.mipos64.sizeofMdesc = 24 := rfl
  have halign : alignedSize .mipos64 4 = 4 := by decide
  have hsplit : splits .mipos64 s 4 = true := by
    have hdiff : (s + (18446744073709551616 - (4 + 24) % 18446744073709551616))
        % 18446744073709551616 = s - 28 := by omega
    rw [splits, hM, hhdr, hdiff, toSignedSize, if_pos (by omega), decide_eq_true_eq]
    omega
  obtain ⟨mm', hrun, hleaves⟩ := mmAllocAux_sim (n := 4) h fun y hy hsy => by
    obtain ⟨hyf, hny, -⟩ := findFree_some hy
    have hlt := h.size_lt (Blocks.mem_all_of_free hyf)
    exact splitSound_mipos64 y.size 4 hny (by omega) hsy
  have hfind : findFree 4 [(⟨base, s⟩ : Block)] none = some ⟨base, s⟩ := by
    have h4 : s ≠ 4 := by omega
    have h5 : 4 < s := by omega
    simp [findFree, larger, h4, h5]
  rw [Blocks.allocAux, hfind] at hrun hleaves
  simp only [hsplit, if_true] at hrun hleaves
  set c := cutBlock Build.mipos64.sizeofMdesc 4 ⟨base, s⟩ with hc
  have hcut : (Blocks.cut Build.mipos64.sizeofMdesc 4 ⟨base, s⟩ ⟨[⟨base, s⟩], used⟩)
      = ⟨[⟨base, s - 28⟩], pushAfterHead c used⟩ := by
    simp [Blocks.cut, Block.resize, hhdr, hc]
  rw [hcut] at hleaves
  have hlen : (pushAfterHead c used).length = used.length + 1 :=
    (pushAfterHead_perm c used).length_eq
  have hc0 : c.addr ≠ 0 := hleaves.inv.addr_ne_zero
    (Blocks.mem_all_of_used (mem_pushAfterHead.mpr (Or.inl rfl)))
  refine ⟨mm', mdescGetDataAddr .mipos64 c.addr, pushAfterHead c used, ?_, hleaves.inv, hlen⟩
  rw [miposMmAlloc, if_neg (by omega), halign, hrun]
  simp [ptrOf, hc0]

theorem many_allocs (m : Memory) (base len : ℕ) (hpos : 0 < base)
    (hend : base + len < Build.mipos64.modulus) (hlen : len < 2 ^ 63) :
    ∀ k, 24 + 28 * k + 52 < len →
      ∃ mm U, ReflTransGen (Step .mipos64 base) (miposMmInit .mipos64 m base len) mm ∧
        HeapInv .mipos64 base mm ⟨[⟨base, len - 24 - 28 * k⟩], U⟩ ∧ U.length = k := by
  intro k
  induction k with
  | zero =>
    intro hk
    refine ⟨_, [], .refl, miposMmInit_inv m hpos hend ?_, rfl⟩
    show 24 ≤ len
    omega
  | succ k ih =>
    intro hk
    obtain ⟨mm, U, hrun, h, hU⟩ := ih (by omega)
    obtain ⟨mm', r, U', hexec, h', hU'⟩ := alloc_four h (by omega) (by omega)
    refine ⟨mm', U', hrun.tail (StepWhere.call (.alloc 4) ?_ hexec), ?_, by omega⟩
    · show 4 + 4 ≤ _
      decide
    · rwa [show len - 24 - 28 * (k + 1) = len - 24 - 28 * k - 28 by omega]

/-- After 2^31 allocations in an arena of 2^36 bytes the counter overflows. -/
theorem dbgPrint_total_overflows :
    ∃ mm, ReflTransGen (Step .mipos64 64)
        (miposMmInit .mipos64 (fun _ => 0) 64 (2 ^ 36)) mm ∧
      miposMmDbgPrintTotMem .mipos64 mm = none := by
  obtain ⟨mm, U, hrun, h, hU⟩ := many_allocs (fun _ => 0) 64 (2 ^ 36) (by omega) (by decide)
    (by omega) (2 ^ 31) (by omega)
  refine ⟨mm, hrun, ?_⟩
  rw [h.miposMmDbgPrintTotMem_eq]
  refine if_neg fun e => ?_
  have hlt : U.length < 2 ^ 31 := e.2
  omega

/-! ### Payloads -/

/-- **No call writes to a live payload**, and a result overlaps nothing, in
every reachable state of the 64-bit build. -/
theorem live_payloads_kept {m : Memory} {base len r : ℕ} {mm mm' : Mm} {c : Call}
    (hpos : 0 < base) (hend : base + len < Build.mipos64.modulus)
    (hlen : Build.mipos64.sizeofMdesc ≤ len)
    (hrun : ReflTransGen (Step .mipos64 base) (miposMmInit .mipos64 m base len) mm)
    (hc : c.InRange .mipos64) (hexec : c.exec .mipos64 mm = some (mm', r)) :
    (∀ d, LiveDesc .mipos64 mm d → LiveDesc .mipos64 mm' d →
      mdescGetsize .mipos64 mm'.mem d = mdescGetsize .mipos64 mm.mem d ∧
        ∀ a, PayloadByte .mipos64 mm d a → mm'.mem a = mm.mem a) ∧
      (r ≠ 0 → ∃ d, LiveDesc .mipos64 mm' d ∧ r = d + Build.mipos64.sizeofMdesc ∧
        ∀ a, PayloadByte .mipos64 mm' d a →
          (base ≤ a ∧ a < base + len) ∧
            (∀ e, LiveDesc .mipos64 mm' e ∨ FreeDesc .mipos64 mm' e → ¬ InMdesc .mipos64 e a) ∧
            ∀ e, LiveDesc .mipos64 mm' e → e ≠ d → ¬ PayloadByte .mipos64 mm' e a) := by
  obtain ⟨harena, H, h⟩ :=
    runWhere_inv splitSound_mipos64 (fun _ => Call.InRange.fits) hpos hend hlen hrun
  obtain ⟨H', hl⟩ := Call.leaves_of_exec splitSound_mipos64 h hc.fits hexec
  have h' := hl.leaves.inv
  refine ⟨?_, fun hr => ?_⟩
  · intro d hd hd'
    obtain ⟨u, hu, rfl⟩ := h.liveDesc_iff.mp hd
    obtain ⟨v, hv, hvu⟩ := h'.liveDesc_iff.mp hd'
    have huv : u = v := hl.same u hu v hv hvu.symm
    subst huv
    have hua := Blocks.mem_all_of_used hu
    refine ⟨?_, fun a ha => ?_⟩
    · rw [h'.size_eq u (Blocks.mem_all_of_used hv), h.size_eq u hua]
    · exact hl.leaves.keeps u (by simp [hu, hv]) a ((h.payloadByte_iff hua).mp ha)
  · obtain ⟨x, hx, hrx⟩ := hl.result hr
    have hxa := Blocks.mem_all_of_used hx
    refine ⟨x.addr, h'.liveDesc_iff.mpr ⟨x, hx, rfl⟩, hrx, fun a ha => ?_⟩
    have hpay := (h'.payloadByte_iff hxa).mp ha
    refine ⟨?_, ?_, ?_⟩
    · have hinside := h'.tiled.inside hxa
      rw [hl.leaves.arena, harena] at hinside
      unfold Block.InPayload at hpay
      omega
    · intro e he hin
      refine h'.tiled.payload_not_inMdescs hxa hpay ⟨e, ?_, hin⟩
      rcases he with he | he
      · obtain ⟨u, hu, rfl⟩ := h'.liveDesc_iff.mp he
        exact Blocks.isDesc_of_mem (Blocks.mem_all_of_used hu)
      · obtain ⟨u, hu, rfl⟩ := h'.freeDesc_iff.mp he
        exact Blocks.isDesc_of_mem (Blocks.mem_all_of_free hu)
    · intro e he hne hpay'
      obtain ⟨u, hu, rfl⟩ := h'.liveDesc_iff.mp he
      have hua := Blocks.mem_all_of_used hu
      exact hne (congrArg Block.addr
        (h'.eq_of_inPayload hua hxa ((h'.payloadByte_iff hua).mp hpay') hpay))

/-- The user of a block of 10 bytes stores a byte in it, and keeps it when 20 more are
allocated. -/
theorem live_payloads_kept_second :
    ∃ mm mm', ReflTransGen (Step .mipos64 64) (miposMmInit .mipos64 (fun _ => 0) 64 256)
        mm ∧ LiveDesc .mipos64 mm 284 ∧ PayloadByte .mipos64 mm 284 308 ∧ mm.mem 308 = 7 ∧
      Call.exec .mipos64 mm (.alloc 20) = some (mm', 264) ∧ LiveDesc .mipos64 mm' 284 ∧
      mm'.mem 308 = 7 ∧ LiveDesc .mipos64 mm' 240 ∧
      ∀ a, PayloadByte .mipos64 mm' 240 a → ¬ PayloadByte .mipos64 mm' 284 a := by
  have heval :
      ∃ p₁, Call.exec .mipos64 (miposMmInit .mipos64 (fun _ => 0) 64 256) (.alloc 10) = some p₁ ∧
      StoredList .mipos64 p₁.1.mem p₁.1.usedMemory [284] ∧ mdescGetsize .mipos64 p₁.1.mem 284 = 12 ∧
      StoredList .mipos64 (p₁.1.write 308 7).mem p₁.1.usedMemory [284] ∧
      mdescGetsize .mipos64 (p₁.1.write 308 7).mem 284 = 12 ∧
      ∃ mm', Call.exec .mipos64 (p₁.1.write 308 7) (.alloc 20) = some (mm', 264) ∧
      StoredList .mipos64 mm'.mem mm'.usedMemory [284, 240] := by decide +kernel
  obtain ⟨⟨mm₁, r⟩, hexec₁, hused₁, hsize₁, hused, hsize, mm', hexec, hused'⟩ := heval
  have hlive₁ : LiveDesc .mipos64 mm₁ 284 := ⟨_, hused₁, by decide⟩
  have hbyte : PayloadByte .mipos64 mm₁ 284 308 := ⟨by decide, by rw [hsize₁]; decide⟩
  have halloc : Step .mipos64 64 (miposMmInit .mipos64 (fun _ => 0) 64 256) mm₁ :=
    StepWhere.call (.alloc 10) (show 10 + 4 ≤ _ by decide) hexec₁
  have hrun := (ReflTransGen.single halloc).tail
    ⟨[], .write 308 7 (Or.inl ⟨284, hlive₁, hbyte⟩)⟩
  obtain ⟨hkeeps, hnew⟩ := live_payloads_kept (c := .alloc 20) (by omega) (by decide) (by decide)
    hrun (show 20 + 4 ≤ _ by decide) hexec
  have hlive : LiveDesc .mipos64 (mm₁.write 308 7) 284 := ⟨_, hused, by decide⟩
  have hlive' : LiveDesc .mipos64 mm' 284 := ⟨_, hused', by decide⟩
  have hbyte' : PayloadByte .mipos64 (mm₁.write 308 7) 284 308 :=
    ⟨by decide, by rw [hsize]; decide⟩
  have hseven : (mm₁.write 308 7).mem 308 = 7 := update_self 308 7 mm₁.mem
  obtain ⟨d, hd, hr, hapart⟩ := hnew (by decide)
  obtain rfl : d = 240 := by
    have hhdr : Build.mipos64.sizeofMdesc = 24 := rfl
    omega
  exact ⟨_, mm', hrun, hlive, hbyte', hseven, hexec, hlive',
    ((hkeeps 284 hlive hlive').2 308 hbyte').trans hseven, hd,
    fun a ha => (hapart a ha).2.2 284 hlive' (by decide)⟩

end Malloc
