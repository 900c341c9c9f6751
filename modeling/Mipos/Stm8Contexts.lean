/-
The context switch of the STM8 port.

`mipos_bsp_setjmp` and `mipos_bsp_longjmp` are naked functions of `mipos_bsp_stm8s.c`, a few
instructions each, behind `mipos_save_context` and `mipos_context_switch_to`.  The processor
has the registers `A`, `X`, `Y` and `SP`; words are stored with the high byte first, and `SP`
is the address of the next free byte.
-/
import Mathlib.Logic.Function.Basic
import Mipos.ContextSwitch

open ContextSwitch Function

namespace Stm8

abbrev Word := BitVec 16

abbrev Mem := Word → BitVec 8

def load (m : Mem) (a : Word) : Word := m a ++ m (a + 1)

def store (m : Mem) (a v : Word) : Mem :=
  update (update m a (v.extractLsb' 8 8)) (a + 1) (v.extractLsb' 0 8)

/-- The two bytes of a word. -/
def bytes (a : Word) : Set Word := {a, a + 1}

theorem load_store (m : Mem) (a v : Word) : load (store m a v) a = v := by
  have hne : a ≠ a + 1 := by bv_omega
  simp only [load, store, update_self, update_of_ne hne]
  rw [BitVec.extractLsb'_append_extractLsb'_eq_extractLsb' (by rfl)]
  simp

theorem store_of_not_mem {m : Mem} {a v x : Word} (hx : x ∉ bytes a) : store m a v x = m x := by
  rw [store, update_of_ne fun h => hx (.inr h), update_of_ne fun h => hx (.inl h)]

theorem load_congr {m m' : Mem} {a : Word} (h : ∀ x ∈ bytes a, m' x = m x) :
    load m' a = load m a := by
  rw [load, load, h a (.inl rfl), h (a + 1) (.inr rfl)]

theorem load_store_apart {m : Mem} {a b v : Word} (h : Disjoint (bytes a) (bytes b)) :
    load (store m a v) b = load m b :=
  load_congr fun _ hx => store_of_not_mem fun ha => Set.disjoint_left.mp h ha hx

structure Cpu where
  a : BitVec 8
  x : Word
  y : Word
  sp : Word
  pc : Word
  mem : Mem

inductive Instr
  /-- `ldw (off,x), y` -/
  | ldwIdxXY (off : Word)
  /-- `ldw x, (off,x)` -/
  | ldwXIdxX (off : Word)
  | ldwMemX (addr : Word)
  | ldwXMem (addr : Word)
  | ldwYMem (addr : Word)
  | ldwYSp
  | ldwSpX
  | ldwXImm (v : Word)
  | addwXImm (v : Word)
  | popwY
  | pushwX
  | jpY
  | ret

def exec (s : Cpu) : Instr → Cpu
  | .ldwIdxXY off => { s with mem := store s.mem (s.x + off) s.y }
  | .ldwXIdxX off => { s with x := load s.mem (s.x + off) }
  | .ldwMemX addr => { s with mem := store s.mem addr s.x }
  | .ldwXMem addr => { s with x := load s.mem addr }
  | .ldwYMem addr => { s with y := load s.mem addr }
  | .ldwYSp => { s with y := s.sp }
  | .ldwSpX => { s with sp := s.x }
  | .ldwXImm v => { s with x := v }
  | .addwXImm v => { s with x := s.x + v }
  | .popwY => { s with y := load s.mem (s.sp + 1), sp := s.sp + 2 }
  | .pushwX => { s with mem := store s.mem (s.sp - 1) s.x, sp := s.sp - 2 }
  | .jpY => { s with pc := s.y }
  | .ret => { s with pc := load s.mem (s.sp + 1), sp := s.sp + 2 }

/-- Straight-line code; its last instruction leaves it. -/
def run (code : List Instr) (s : Cpu) : Cpu := code.foldl exec s

/-- The addresses of the variables that `mipos_bsp_longjmp` goes through. -/
structure Vars where
  resumeContext : Word
  resumeAddress : Word
  resumeY : Word
  context_address : Disjoint (bytes resumeContext) (bytes resumeAddress)
  context_y : Disjoint (bytes resumeContext) (bytes resumeY)
  address_y : Disjoint (bytes resumeAddress) (bytes resumeY)

def setjmp : List Instr :=
  [.ldwIdxXY 4, .ldwYSp, .ldwIdxXY 2, .popwY, .ldwIdxXY 0, .ldwXImm 0, .jpY]

def longjmp (v : Vars) : List Instr :=
  [.ldwMemX v.resumeContext, .ldwXIdxX 0, .ldwMemX v.resumeAddress, .ldwXMem v.resumeContext,
   .ldwXIdxX 4, .ldwMemX v.resumeY, .ldwXMem v.resumeContext, .ldwXIdxX 2, .addwXImm 2, .ldwSpX,
   .ldwXMem v.resumeAddress, .pushwX, .ldwYMem v.resumeY, .ldwXImm 1, .ret]

/-- The six bytes of a `registers_state_t`. -/
def block (a : Word) : Set Word := bytes a ∪ bytes (a + 2) ∪ bytes (a + 4)

def own (v : Vars) : Set Word :=
  bytes v.resumeContext ∪ bytes v.resumeAddress ∪ bytes v.resumeY

/-- The buffer holds the address behind the call of `mipos_bsp_setjmp`, and `SP` and `Y`. -/
def Holds (m : Mem) (a : Word) (s : Cpu) : Prop :=
  load m a = load s.mem (s.sp + 1) ∧ load m (a + 2) = s.sp ∧ load m (a + 4) = s.y

theorem bytes_apart {a b : Word} (h : a ≠ b ∧ a + 1 ≠ b ∧ a ≠ b + 1) :
    Disjoint (bytes a) (bytes b) := by
  refine Set.disjoint_left.mpr ?_
  rintro x (rfl | rfl) (hx | hx)
  · exact h.1 hx
  · exact h.2.2 hx
  · exact h.2.1 hx
  · have heq : a + 1 = b + 1 := hx
    exact h.1 (by bv_omega)

theorem block_bytes {S : Set Word} {a : Word} (h : Disjoint S (block a)) :
    Disjoint S (bytes a) ∧ Disjoint S (bytes (a + 2)) ∧ Disjoint S (bytes (a + 4)) :=
  ⟨h.mono_right fun _ hx => .inl (.inl hx), h.mono_right fun _ hx => .inl (.inr hx),
    h.mono_right fun _ hx => .inr hx⟩

theorem word_add_zero (a : Word) : a + 0 = a := BitVec.add_zero a

theorem setjmp_holds {s : Cpu} (hapart : Disjoint (bytes (s.sp + 1)) (block s.x)) :
    Holds (run setjmp s).mem s.x s := by
  obtain ⟨-, h2, h4⟩ := block_bytes hapart
  have h02 : Disjoint (bytes s.x) (bytes (s.x + 2)) := bytes_apart (by bv_omega)
  have h04 : Disjoint (bytes s.x) (bytes (s.x + 4)) := bytes_apart (by bv_omega)
  have h24 : Disjoint (bytes (s.x + 2)) (bytes (s.x + 4)) := bytes_apart (by bv_omega)
  simp only [Holds, run, setjmp, List.foldl, exec, word_add_zero, load_store,
    load_store_apart h2.symm, load_store_apart h4.symm, load_store_apart h02,
    load_store_apart h04, load_store_apart h24, and_self]

theorem longjmp_eq {v : Vars} {s t : Cpu} (hholds : Holds t.mem t.x s)
    (hown : Disjoint (own v) (block t.x)) (hstack : Disjoint (own v) (bytes (s.sp + 1))) :
    ∃ m, run (longjmp v) t = ⟨t.a, 1, s.y, s.sp + 2, load s.mem (s.sp + 1), m⟩ ∧
      ∀ x, x ∉ own v → x ∉ bytes (s.sp + 1) → m x = t.mem x := by
  obtain ⟨hra, hsp, hy⟩ := hholds
  obtain ⟨h0, h2, h4⟩ := block_bytes hown
  have hc : bytes v.resumeContext ⊆ own v := fun _ hx => .inl (.inl hx)
  have ha : bytes v.resumeAddress ⊆ own v := fun _ hx => .inl (.inr hx)
  have hr : bytes v.resumeY ⊆ own v := fun _ hx => .inr hx
  have hpush : s.sp + 2 - 1 = s.sp + 1 := by bv_omega
  have hret : s.sp + 2 - 2 + 1 = s.sp + 1 := by bv_omega
  have hback : s.sp + 2 - 2 + 2 = s.sp + 2 := by bv_omega
  simp only [run, longjmp, List.foldl, exec, word_add_zero, load_store,
    load_store_apart (h0.mono_left hc), load_store_apart (h2.mono_left hc),
    load_store_apart (h4.mono_left hc), load_store_apart (h2.mono_left ha),
    load_store_apart (h4.mono_left ha), load_store_apart (h2.mono_left hr),
    load_store_apart v.context_address.symm, load_store_apart v.context_y.symm,
    load_store_apart v.address_y.symm, load_store_apart (hstack.mono_left hr).symm,
    hra, hsp, hy, hpush, hret, hback]
  refine ⟨_, rfl, ?_⟩
  intro x hx hslot
  rw [store_of_not_mem hslot, store_of_not_mem fun h => hx (hr h),
    store_of_not_mem fun h => hx (ha h), store_of_not_mem fun h => hx (hc h)]

/-- The port.  The caller of `mipos_bsp_setjmp` has its return address in the two bytes above
`SP`, and its own data above them. -/
def port (v : Vars) : Port Cpu Word (BitVec 8) where
  mem := Cpu.mem
  block := block
  own := own v
  save := run setjmp
  jump := run (longjmp v)
  SaveCalled s a := s.x = a ∧ Disjoint (bytes (s.sp + 1)) (block a) ∧ s.sp.toNat + 2 < 0x10000
  JumpCalled t a := t.x = a
  Holds := Holds
  live s := { x | (s.sp + 2).toNat < x.toNat }
  scratch s := bytes (s.sp + 1)
  Resumed s t := t.x = 1 ∧ t.y = s.y ∧ t.sp = s.sp + 2 ∧ t.pc = load s.mem (s.sp + 1)
  holds_congr := by
    intro m m' a s h hholds
    have hword := fun b (hb : bytes b ⊆ block a) => load_congr fun x hx => h x (hb hx)
    rwa [Holds, hword a fun _ hx => .inl (.inl hx), hword (a + 2) fun _ hx => .inl (.inr hx),
      hword (a + 4) fun _ hx => .inr hx]
  save_holds := by
    rintro s a ⟨rfl, hapart, -⟩
    exact setjmp_holds hapart
  save_frame := by
    rintro s a ⟨rfl, -⟩ x hx
    show store (store (store s.mem (s.x + 4) s.y) (s.x + 2) s.sp) (s.x + 0) _ x = _
    rw [word_add_zero, store_of_not_mem fun h => hx (.inl (.inl h)),
      store_of_not_mem fun h => hx (.inl (.inr h)), store_of_not_mem fun h => hx (.inr h)]
  jump_resumes := by
    rintro s t a rfl hholds hown hstack
    obtain ⟨m, heq, hframe⟩ := longjmp_eq hholds hown hstack
    rw [heq]
    exact ⟨⟨rfl, rfl, rfl, rfl⟩, hframe⟩
  live_scratch := by
    rintro s a ⟨-, -, hsp⟩
    refine Set.disjoint_left.mpr ?_
    intro x hx hslot
    replace hx : (s.sp + 2).toNat < x.toNat := hx
    rcases hslot with rfl | rfl <;> bv_omega

/-- **A task that has been suspended goes on as it was**: in whatever order the scheduler and
the tasks have run, saved their contexts and jumped since, it returns from its call of
`mipos_save_context` with 1, with its own `Y`, its own stack pointer and its own stack. -/
theorem context_switch {Id : Type} [DecidableEq Id] {v : Vars} {L : Layout (port v) Id}
    {S : State Cpu Id} {j : Id} {s : Cpu} (hrun : Run L S) (hsaved : S.saved j = some s)
    (hcalled : S.cpu.x = L.buffer j) :
    let t := run (longjmp v) S.cpu
    t.x = 1 ∧ t.y = s.y ∧ t.sp = s.sp + 2 ∧ t.pc = load s.mem (s.sp + 1) ∧
      ∀ x ∈ L.stack j, (s.sp + 2).toNat < x.toNat → t.mem x = s.mem x := by
  obtain ⟨⟨hx, hy, hsp, hpc⟩, hstack⟩ := hrun.resumes hsaved hcalled
  exact ⟨hx, hy, hsp, hpc, hstack⟩

theorem block_page {a x : Word} (h : x ∈ block a) (ha : a.toNat % 16 < 8) :
    x.toNat / 16 = a.toNat / 16 := by
  rcases h with ((rfl | rfl) | (rfl | rfl)) | (rfl | rfl) <;> bv_omega

def lowVars : Vars :=
  ⟨0x10, 0x12, 0x14, bytes_apart (by decide), bytes_apart (by decide), bytes_apart (by decide)⟩

/-- Two activities: buffers at `0x20` and `0x30`, stacks in two pages. -/
def twoStacks : Layout (port lowVars) Bool where
  buffer i := if i then 0x30 else 0x20
  stack i := { x | x.toNat / 256 = if i then 2 else 1 }
  buffers_apart := by
    intro i j hne
    refine Set.disjoint_left.mpr fun x hi hj => ?_
    cases i <;> cases j <;> have h1 := block_page hi (by decide) <;>
      have h2 := block_page hj (by decide) <;> simp_all
  stacks_apart := by
    intro i j hne
    refine Set.disjoint_left.mpr fun x hi hj => ?_
    cases i <;> cases j <;> simp_all
  stack_buffer i j := Set.disjoint_left.mpr fun x hi hj => by
    cases i <;> cases j <;> have h2 := block_page hj (by decide) <;> simp at hi h2 <;> omega
  own_stack i := Set.disjoint_left.mpr fun x (hi : x ∈ block 0x10) hj => by
    cases i <;> have h2 := block_page hi (by decide) <;> simp at hj h2 <;> omega
  own_buffer i := Set.disjoint_left.mpr fun x (hi : x ∈ block 0x10) hj => by
    cases i <;> have h1 := block_page hi (by decide) <;> have h2 := block_page hj (by decide) <;>
      simp_all

/-- A task that calls `mipos_save_context`, and is to return to `0x8123`. -/
def taskCalls : Cpu := ⟨0, 0x30, 7, 0x2f0, 0x9000, store (fun _ => 0) 0x2f1 0x8123⟩

theorem context_switch_two :
    (run (longjmp lowVars) { run setjmp taskCalls with x := 0x30, y := 0 }).pc = 0x8123 := by
  have hcalled : (port lowVars).SaveCalled taskCalls 0x30 :=
    ⟨rfl, Set.disjoint_right.mpr fun x hx hslot => by
      have h := block_page hx (by decide)
      rcases hslot with rfl | rfl <;> revert h <;> decide, by decide⟩
  have hrun := Run.step (L := twoStacks) (.step (.step (.start taskCalls true)
    (.save hcalled (by rintro x (rfl | rfl) <;> rfl))) (.enter false))
    (.work { run setjmp taskCalls with x := 0x30, y := 0 } fun _ _ _ _ _ => rfl)
  have hpc := (context_switch (j := true) hrun rfl rfl).2.2.2.1
  rw [show taskCalls.mem = store (fun _ => 0) 0x2f1 0x8123 from rfl] at hpc
  exact hpc.trans (load_store _ _ _)

end Stm8
