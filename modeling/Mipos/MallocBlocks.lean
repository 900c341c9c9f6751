/-
The allocator over unbounded integers: two lists of blocks.

This is what `mipos_malloc.c` is for, without memory: a heap is a list of free
and a list of used blocks, each an address and a size, with `hdr` bytes of
descriptor in front of every payload.  The operations are those of the source
read on lists, in exact arithmetic:

* `Blocks.allocAux` — best exact fit or else the largest block, cut when the
  test `split` says so and handed out whole otherwise;
* `Blocks.release` — a used block becomes free;
* `Blocks.fuse` — two adjacent free blocks become one.

Each is a change of the heap (`Blocks.Change`), allocation so for every test that
cuts only where there is room; and every change keeps the extents of the blocks a
tiling of the arena (`Blocks.Tiled`).
-/
import Mipos.Tiling

namespace Malloc

open Tiling Relation

/-- A block: where its descriptor is, and the size of its payload. -/
structure Block where
  addr : ℕ
  size : ℕ
  deriving DecidableEq, Repr

/-- The free and the used blocks, in list order. -/
structure Blocks where
  free : List Block
  used : List Block
  deriving DecidableEq, Repr

/-- The extent of a block: its descriptor and its payload. -/
def Block.span (hdr : ℕ) (x : Block) : Span := (x.addr, hdr + x.size)

def Blocks.all (H : Blocks) : List Block := H.free ++ H.used

/-- The extents of the blocks of both lists tile the arena. -/
def Blocks.Tiled (hdr base len : ℕ) (H : Blocks) : Prop :=
  Tiles base len (H.all.map (Block.span hdr))

/-! ### What a tiling says of its blocks -/

section Tiled

variable {hdr base len : ℕ} {H : Blocks} {x y : Block}

theorem Blocks.Tiled.inside (h : H.Tiled hdr base len) (hx : x ∈ H.all) :
    base ≤ x.addr ∧ x.addr + (hdr + x.size) ≤ base + len :=
  Tiles.inside h _ (List.mem_map_of_mem hx)

/-- Blocks whose extents share a point are the same block. -/
theorem Blocks.Tiled.eq_of_holds (h : H.Tiled hdr base len) (hx : x ∈ H.all) (hy : y ∈ H.all)
    {a : ℕ} (hxa : Holds (x.span hdr) a) (hya : Holds (y.span hdr) a) : x = y := by
  have hspan := Tiles.unique h (List.mem_map_of_mem hx) (List.mem_map_of_mem hy) hxa hya
  simp only [Block.span, Prod.mk.injEq, Nat.add_left_cancel_iff] at hspan
  cases x
  cases y
  simp_all

theorem Blocks.Tiled.span_pos (h : H.Tiled hdr base len) (hx : x ∈ H.all) : 0 < hdr + x.size :=
  Tiles.pos h _ (List.mem_map_of_mem hx)

theorem Blocks.Tiled.eq_of_addr (h : H.Tiled hdr base len) (hx : x ∈ H.all) (hy : y ∈ H.all)
    (hxy : x.addr = y.addr) : x = y := by
  have hx0 := h.span_pos hx
  have hy0 := h.span_pos hy
  refine h.eq_of_holds (a := x.addr) hx hy ?_ ?_
  · simp only [Holds, Block.span]
    omega
  · simp only [Holds, Block.span]
    omega

/-- Two blocks are the same, or one ends before the other starts. -/
theorem Blocks.Tiled.apart (h : H.Tiled hdr base len) (hx : x ∈ H.all) (hy : y ∈ H.all)
    (hne : x ≠ y) :
    x.addr + (hdr + x.size) ≤ y.addr ∨ y.addr + (hdr + y.size) ≤ x.addr := by
  have hspan : x.span hdr ≠ y.span hdr := fun e =>
    hne (h.eq_of_addr hx hy (congrArg Prod.fst e))
  exact Tiles.apart_of_ne h (List.mem_map_of_mem hx) (List.mem_map_of_mem hy) hspan

theorem Blocks.Tiled.nodup_addr (h : H.Tiled hdr base len) : (H.all.map Block.addr).Nodup := by
  have hpair := Tiles.apart h
  rw [List.pairwise_map] at hpair
  rw [List.Nodup, List.pairwise_map]
  refine hpair.imp_of_mem ?_
  intro x y hx hy hxy e
  have hx0 := h.span_pos hx
  have hy0 := h.span_pos hy
  simp only [Apart, Block.span] at hxy
  omega

theorem Blocks.Tiled.nodup (h : H.Tiled hdr base len) : H.all.Nodup :=
  List.Nodup.of_map _ h.nodup_addr

theorem Blocks.Tiled.nodup_free (h : H.Tiled hdr base len) : H.free.Nodup :=
  h.nodup.sublist (List.sublist_append_left _ _)

theorem Blocks.Tiled.nodup_used (h : H.Tiled hdr base len) : H.used.Nodup :=
  h.nodup.sublist (List.sublist_append_right _ _)

theorem Blocks.Tiled.not_mem_used (h : H.Tiled hdr base len) (hx : x ∈ H.free) : x ∉ H.used :=
  fun hu => List.disjoint_of_nodup_append h.nodup hx hu

theorem Blocks.Tiled.perm {H' : Blocks} (h : H.Tiled hdr base len) (hp : H.all.Perm H'.all) :
    H'.Tiled hdr base len :=
  Tiles.perm h (hp.map _)

end Tiled

/-! ### The operations -/

/-- The place where both lists take a new block: after their head. -/
def pushAfterHead {α : Type*} (x : α) : List α → List α
  | [] => [x]
  | h :: l => h :: x :: l

theorem pushAfterHead_perm {α : Type*} (x : α) (l : List α) :
    (pushAfterHead x l).Perm (x :: l) := by
  rcases l with _ | ⟨h, l⟩
  · exact List.Perm.refl _
  · exact List.Perm.swap _ _ _

@[simp] theorem mem_pushAfterHead {α : Type*} {x y : α} {l : List α} :
    y ∈ pushAfterHead x l ↔ y = x ∨ y ∈ l := by
  rw [(pushAfterHead_perm x l).mem_iff, List.mem_cons]

theorem map_pushAfterHead {α β : Type*} (f : α → β) (x : α) (l : List α) :
    (pushAfterHead x l).map f = pushAfterHead (f x) (l.map f) := by
  rcases l with _ | ⟨h, l⟩
  · rfl
  · rfl

/-- The larger of a candidate and a block; an earlier candidate wins a tie. -/
def larger (x : Block) : Option Block → Option Block
  | some y => if y.size < x.size then some x else some y
  | none => some x

/-- `mm_find_free` on a list: the first block of exactly `n` bytes, or else
the largest one above `n` (`g` is the largest seen so far). -/
def findFree (n : ℕ) : List Block → Option Block → Option Block
  | [], g => g
  | x :: l, g => if x.size = n then some x else findFree n l (if n < x.size then larger x g else g)

/-- The block at address `a` gets size `s`. -/
def Block.resize (a s : ℕ) (y : Block) : Block := if y.addr = a then { y with size := s } else y

/-- Hand out the whole free block `x`. -/
def Blocks.take (x : Block) (H : Blocks) : Blocks where
  free := H.free.erase x
  used := pushAfterHead x H.used

/-- The block that `cut` makes at the end of `x`. -/
def cutBlock (hdr n : ℕ) (x : Block) : Block := ⟨x.addr + (hdr + (x.size - (n + hdr))), n⟩

/-- Hand out the last `n` bytes of the free block `x`, with a new descriptor. -/
def Blocks.cut (hdr n : ℕ) (x : Block) (H : Blocks) : Blocks where
  free := H.free.map (Block.resize x.addr (x.size - (n + hdr)))
  used := pushAfterHead (cutBlock hdr n x) H.used

/-- `mm_alloc_aux` on blocks; `split size n` decides whether a block is cut. -/
def Blocks.allocAux (split : ℕ → ℕ → Bool) (hdr : ℕ) (H : Blocks) (n : ℕ) :
    Blocks × Option Block :=
  match findFree n H.free none with
  | none => (H, none)
  | some x =>
    if split x.size n then (H.cut hdr n x, some (cutBlock hdr n x)) else (H.take x, some x)

/-- The exact test: what remains must be larger than a descriptor. -/
def exactSplit (hdr blockSize n : ℕ) : Bool := blockSize > n + 2 * hdr

/-- The used block `x` becomes free. -/
def Blocks.release (x : Block) (H : Blocks) : Blocks where
  free := pushAfterHead x H.free
  used := H.used.erase x

/-- The free blocks `x` and, right after it, `y` become one. -/
def Blocks.fuse (hdr : ℕ) (x y : Block) (H : Blocks) : Blocks where
  free := (H.free.erase y).map (Block.resize x.addr (x.size + y.size + hdr))
  used := H.used

/-! ### The choice of a free block -/

theorem larger_spec (x : Block) (g : Option Block) :
    (∀ y ∈ larger x g, (y = x ∨ y ∈ g) ∧ x.size ≤ y.size ∧ ∀ z ∈ g, z.size ≤ y.size) ∧
      larger x g ≠ none := by
  rcases g with _ | y
  · simp [larger]
  · by_cases hyx : y.size < x.size
    · simp [larger, hyx, le_of_lt]
    · simp [larger, hyx, not_lt.mp hyx]

/-- What the search returns, given the candidate `g` it starts with. -/
theorem findFree_spec (n : ℕ) : ∀ (l : List Block) (g : Option Block),
    (∀ y ∈ g, n < y.size) →
    (∀ x, findFree n l g = some x →
      (x ∈ l ∧ x.size = n) ∨
      ((∀ y ∈ l, y.size ≠ n) ∧ (x ∈ l ∨ x ∈ g) ∧ n < x.size ∧
        (∀ y ∈ l, y.size ≤ x.size) ∧ ∀ y ∈ g, y.size ≤ x.size)) ∧
    (findFree n l g = none → g = none ∧ ∀ y ∈ l, y.size < n) := by
  intro l
  induction l with
  | nil =>
    intro g hg
    refine ⟨fun x hx => Or.inr ?_, fun h => ⟨h, by simp⟩⟩
    have hxg : g = some x := hx
    subst hxg
    exact ⟨by simp, Or.inr rfl, hg x rfl, by simp, by simp⟩
  | cons a l ih =>
    intro g hg
    by_cases ha : a.size = n
    · refine ⟨fun x hx => Or.inl ?_, fun h => ?_⟩
      · rw [findFree, if_pos ha, Option.some_inj] at hx
        exact ⟨by simp [← hx], by rw [← hx, ha]⟩
      · rw [findFree, if_pos ha] at h
        exact absurd h (by simp)
    · rw [findFree, if_neg ha]
      by_cases hna : n < a.size
      · -- `a` competes with the candidate
        rw [if_pos hna]
        obtain ⟨hlarger, hsome⟩ := larger_spec a g
        obtain ⟨ih1, ih2⟩ := ih (larger a g) fun y hy =>
          lt_of_lt_of_le hna (hlarger y hy).2.1
        refine ⟨fun x hx => ?_, fun h => absurd (ih2 h).1 hsome⟩
        rcases ih1 x hx with ⟨hm, hs⟩ | ⟨hex, hm, hn, hl, hgx⟩
        · exact Or.inl ⟨List.mem_cons_of_mem _ hm, hs⟩
        obtain ⟨y, hy⟩ := Option.ne_none_iff_exists'.mp hsome
        have hyx := hgx y hy
        obtain ⟨-, hay, hgy⟩ := hlarger y hy
        refine Or.inr ⟨?_, ?_, hn, ?_, fun z hz => le_trans (hgy z hz) hyx⟩
        · exact List.forall_mem_cons.mpr ⟨ha, hex⟩
        · rcases hm with hm | hm
          · exact Or.inl (List.mem_cons_of_mem _ hm)
          · rcases (hlarger x hm).1 with rfl | hm
            · exact Or.inl List.mem_cons_self
            · exact Or.inr hm
        · exact List.forall_mem_cons.mpr ⟨le_trans hay hyx, hl⟩
      · -- `a` is too small
        rw [if_neg hna]
        obtain ⟨ih1, ih2⟩ := ih g hg
        refine ⟨fun x hx => ?_, fun h => ?_⟩
        · rcases ih1 x hx with ⟨hm, hs⟩ | ⟨hex, hm, hn, hl, hgx⟩
          · exact Or.inl ⟨List.mem_cons_of_mem _ hm, hs⟩
          refine Or.inr ⟨List.forall_mem_cons.mpr ⟨ha, hex⟩, ?_, hn,
            List.forall_mem_cons.mpr ⟨by omega, hl⟩, hgx⟩
          exact hm.imp_left (List.mem_cons_of_mem _)
        · obtain ⟨hg0, hl⟩ := ih2 h
          exact ⟨hg0, List.forall_mem_cons.mpr ⟨by omega, hl⟩⟩

/-- The chosen block is on the list and large enough; it is an exact fit if
there is one, and the largest block otherwise. -/
theorem findFree_some {n : ℕ} {l : List Block} {x : Block} (h : findFree n l none = some x) :
    x ∈ l ∧ n ≤ x.size ∧ ((∃ y ∈ l, y.size = n) → x.size = n) ∧
      (x.size ≠ n → ∀ y ∈ l, y.size ≤ x.size) := by
  rcases (findFree_spec n l none (by simp)).1 x h with ⟨hm, hs⟩ | ⟨hex, hm, hn, hl, -⟩
  · exact ⟨hm, hs.ge, fun _ => hs, fun hne => absurd hs hne⟩
  · have hml : x ∈ l := by simpa using hm
    refine ⟨hml, by omega, ?_, fun _ => hl⟩
    rintro ⟨y, hy, hyn⟩
    exact absurd hyn (hex y hy)

theorem findFree_none {n : ℕ} {l : List Block} (h : findFree n l none = none) :
    ∀ x ∈ l, x.size < n :=
  ((findFree_spec n l none (by simp)).2 h).2

/-! ### The operations keep the tiling -/

section Keep

variable {hdr base len n : ℕ} {H : Blocks} {x y : Block}

/-- Resizing the one block at an address, up to order. -/
theorem map_resize_perm {l : List Block} {s : ℕ} (hx : x ∈ l)
    (hne : ∀ y ∈ l.erase x, y.addr ≠ x.addr) :
    (l.map (Block.resize x.addr s)).Perm (⟨x.addr, s⟩ :: l.erase x) := by
  have hrest : (l.erase x).map (Block.resize x.addr s) = l.erase x := by
    refine (List.map_congr_left fun y hy => ?_).trans (List.map_id _)
    rw [Block.resize, if_neg (hne y hy), id]
  have hhead : Block.resize x.addr s x = ⟨x.addr, s⟩ := by
    rw [Block.resize, if_pos rfl]
  have hp := (List.perm_cons_erase hx).map (Block.resize x.addr s)
  rw [List.map_cons, hhead, hrest] at hp
  exact hp

theorem Blocks.Tiled.addr_ne_of_mem_erase (h : H.Tiled hdr base len) (hx : x ∈ H.free)
    (hy : y ∈ H.free.erase x) : y.addr ≠ x.addr := by
  intro e
  have hyx := h.eq_of_addr (List.mem_append_left _ (List.mem_of_mem_erase hy))
    (List.mem_append_left _ hx) e
  exact h.nodup_free.not_mem_erase (hyx ▸ hy)

theorem Blocks.all_perm_of_mem_free (hx : x ∈ H.free) :
    H.all.Perm (x :: (H.free.erase x ++ H.used)) :=
  (List.perm_cons_erase hx).append_right _

theorem Blocks.Tiled.take (h : H.Tiled hdr base len) (hx : x ∈ H.free) :
    (H.take x).Tiled hdr base len := by
  refine h.perm ((Blocks.all_perm_of_mem_free hx).trans ?_)
  refine List.Perm.trans ?_ ((pushAfterHead_perm x H.used).symm.append_left _)
  exact List.perm_middle.symm

/-- The blocks after a cut, up to order. -/
theorem Blocks.Tiled.cut_perm (h : H.Tiled hdr base len) (hx : x ∈ H.free) :
    (H.cut hdr n x).all.Perm
      (⟨x.addr, x.size - (n + hdr)⟩ :: cutBlock hdr n x :: (H.free.erase x ++ H.used)) := by
  have hfree := map_resize_perm (s := x.size - (n + hdr)) hx
    fun y hy => h.addr_ne_of_mem_erase hx hy
  refine (hfree.append (pushAfterHead_perm _ H.used)).trans ?_
  exact List.perm_middle.cons _

theorem Blocks.Tiled.cut (h : H.Tiled hdr base len) (hx : x ∈ H.free) (hhdr : 0 < hdr)
    (hroom : n + hdr ≤ x.size) : (H.cut hdr n x).Tiled hdr base len := by
  have hsplit : Tiles base len ((x.addr, (hdr + (x.size - (n + hdr))) + (hdr + n)) ::
      (H.free.erase x ++ H.used).map (Block.span hdr)) := by
    have hperm := Tiles.perm h ((Blocks.all_perm_of_mem_free hx).map (Block.span hdr))
    rw [List.map_cons, Block.span] at hperm
    rwa [show hdr + (x.size - (n + hdr)) + (hdr + n) = hdr + x.size by omega]
  have hperm := (h.cut_perm (n := n) hx).map (Block.span hdr)
  exact Tiles.perm (hsplit.split (by omega) (by omega)) hperm.symm

theorem Blocks.Tiled.release (h : H.Tiled hdr base len) (hx : x ∈ H.used) :
    (H.release x).Tiled hdr base len := by
  refine h.perm (((List.perm_cons_erase hx).append_left H.free).trans ?_)
  refine List.Perm.trans ?_ ((pushAfterHead_perm x H.free).symm.append_right _)
  exact List.perm_middle

/-- The free blocks after a fusion, up to order. -/
theorem Blocks.Tiled.fuse_free_perm (h : H.Tiled hdr base len) (hx : x ∈ H.free) (hxy : x ≠ y) :
    (H.fuse hdr x y).free.Perm
      (⟨x.addr, x.size + y.size + hdr⟩ :: (H.free.erase y).erase x) := by
  have hx' : x ∈ H.free.erase y := (List.mem_erase_of_ne hxy).mpr hx
  refine map_resize_perm hx' fun z hz => ?_
  rw [List.erase_comm] at hz
  exact h.addr_ne_of_mem_erase hx (List.mem_of_mem_erase hz)

/-- The blocks after a fusion, up to order. -/
theorem Blocks.Tiled.fuse_perm (h : H.Tiled hdr base len) (hx : x ∈ H.free) (hxy : x ≠ y) :
    (H.fuse hdr x y).all.Perm
      (⟨x.addr, x.size + y.size + hdr⟩ :: ((H.free.erase y).erase x ++ H.used)) :=
  (h.fuse_free_perm hx hxy).append_right H.used

/-- A free block after a fusion is the new one or one of the others. -/
theorem Blocks.Tiled.mem_fuse_free (h : H.Tiled hdr base len) (hx : x ∈ H.free) (hxy : x ≠ y)
    {z : Block} : z ∈ (H.fuse hdr x y).free ↔
      z = ⟨x.addr, x.size + y.size + hdr⟩ ∨ (z ∈ H.free ∧ z ≠ x ∧ z ≠ y) := by
  rw [(h.fuse_free_perm hx hxy).mem_iff, List.mem_cons,
    (h.nodup_free.erase y).mem_erase_iff, h.nodup_free.mem_erase_iff]
  exact or_congr_right ⟨fun e => ⟨e.2.2, e.1, e.2.1⟩, fun e => ⟨e.2.1, e.2.2, e.1⟩⟩

/-- The byte at `a` is in the extent of a free block. -/
def Blocks.FreeByte (hdr : ℕ) (H : Blocks) (a : ℕ) : Prop := ∃ x ∈ H.free, Holds (x.span hdr) a

/-- A fusion frees no byte and uses none. -/
theorem Blocks.Tiled.fuse_freeByte (h : H.Tiled hdr base len) (hx : x ∈ H.free) (hy : y ∈ H.free)
    (hxy : x ≠ y) (hadj : x.addr + (hdr + x.size) = y.addr) (a : ℕ) :
    (H.fuse hdr x y).FreeByte hdr a ↔ H.FreeByte hdr a := by
  have hspan : Holds ((⟨x.addr, x.size + y.size + hdr⟩ : Block).span hdr) a ↔
      Holds (x.span hdr) a ∨ Holds (y.span hdr) a := by
    simp only [Holds, Block.span]
    omega
  constructor
  · rintro ⟨z, hz, hza⟩
    rcases (h.mem_fuse_free hx hxy).mp hz with rfl | ⟨hz, -, -⟩
    · rcases hspan.mp hza with hxa | hya
      · exact ⟨x, hx, hxa⟩
      · exact ⟨y, hy, hya⟩
    · exact ⟨z, hz, hza⟩
  · rintro ⟨z, hz, hza⟩
    have hnew := (h.mem_fuse_free hx hxy).mpr (Or.inl rfl)
    by_cases hzx : z = x
    · exact ⟨_, hnew, hspan.mpr (Or.inl (hzx ▸ hza))⟩
    by_cases hzy : z = y
    · exact ⟨_, hnew, hspan.mpr (Or.inr (hzy ▸ hza))⟩
    · exact ⟨z, (h.mem_fuse_free hx hxy).mpr (Or.inr ⟨hz, hzx, hzy⟩), hza⟩

theorem Blocks.Tiled.fuse (h : H.Tiled hdr base len) (hx : x ∈ H.free) (hy : y ∈ H.free)
    (hadj : x.addr + (hdr + x.size) = y.addr) : (H.fuse hdr x y).Tiled hdr base len := by
  have hxy : x ≠ y := by
    rintro rfl
    have := h.span_pos (List.mem_append_left _ hx)
    omega
  have hx' : x ∈ H.free.erase y := (List.mem_erase_of_ne hxy).mpr hx
  have hperm : H.all.Perm (x :: y :: ((H.free.erase y).erase x ++ H.used)) := by
    refine (Blocks.all_perm_of_mem_free hy).trans ?_
    exact (((List.perm_cons_erase hx').append_right _).cons y).trans (List.Perm.swap _ _ _)
  have hfuse : Tiles base len ((x.addr, hdr + x.size) :: (x.addr + (hdr + x.size), hdr + y.size) ::
      ((H.free.erase y).erase x ++ H.used).map (Block.span hdr)) := by
    have := Tiles.perm h (hperm.map (Block.span hdr))
    rwa [List.map_cons, List.map_cons, Block.span, Block.span, ← hadj] at this
  have hdone := hfuse.fuse
  rw [show hdr + x.size + (hdr + y.size) = hdr + (x.size + y.size + hdr) by omega] at hdone
  have hperm' := (h.fuse_perm hx hxy).map (Block.span hdr)
  exact Tiles.perm hdone hperm'.symm

/-! ### Changes -/

/-- One change of a heap: a free block is handed out, whole or cut for `n` bytes, a used block
becomes free, or two free blocks become one. -/
inductive Blocks.Change (hdr n : ℕ) (H : Blocks) : Blocks → Prop
  | take {x : Block} (hx : x ∈ H.free) : Change hdr n H (H.take x)
  | cut {x : Block} (hx : x ∈ H.free) (hroom : n + hdr ≤ x.size) : Change hdr n H (H.cut hdr n x)
  | release {x : Block} (hx : x ∈ H.used) : Change hdr n H (H.release x)
  | fuse {x y : Block} (hx : x ∈ H.free) (hy : y ∈ H.free)
      (hadj : x.addr + (hdr + x.size) = y.addr) : Change hdr n H (H.fuse hdr x y)

/-- **Every change keeps the tiling.** -/
theorem Blocks.Change.tiled {H' : Blocks} (hc : Blocks.Change hdr n H H') (hhdr : 0 < hdr)
    (h : H.Tiled hdr base len) : H'.Tiled hdr base len := by
  cases hc with
  | take hx => exact h.take hx
  | cut hx hroom => exact h.cut hx hhdr hroom
  | release hx => exact h.release hx
  | fuse hx hy hadj => exact h.fuse hx hy hadj

/-- A heap that comes from `H` by changes. -/
def Blocks.Changes (hdr n : ℕ) : Blocks → Blocks → Prop :=
  ReflTransGen (Blocks.Change hdr n)

theorem Blocks.Changes.refl (H : Blocks) : Blocks.Changes hdr n H H := ReflTransGen.refl

theorem Blocks.Change.changes {H' : Blocks} (hc : Blocks.Change hdr n H H') :
    Blocks.Changes hdr n H H' := ReflTransGen.single hc

theorem Blocks.Changes.trans {H' H'' : Blocks} (h : Blocks.Changes hdr n H H')
    (h' : Blocks.Changes hdr n H' H'') : Blocks.Changes hdr n H H'' :=
  ReflTransGen.trans h h'

/-- Allocation makes one change at most, when the test cuts the chosen block only where there is
room. -/
theorem Blocks.allocAux_changes {split : ℕ → ℕ → Bool}
    (hroom : ∀ y, findFree n H.free none = some y → split y.size n = true → n + hdr ≤ y.size) :
    Blocks.Changes hdr n H (H.allocAux split hdr n).1 := by
  rw [Blocks.allocAux]
  rcases hfind : findFree n H.free none with _ | x
  · exact Blocks.Changes.refl H
  · have hx := (findFree_some hfind).1
    by_cases hs : split x.size n = true
    · simp only [hs, if_true]
      exact (Blocks.Change.cut hx (hroom x hfind hs)).changes
    · simp only [hs]
      exact (Blocks.Change.take hx).changes

end Keep

end Malloc
