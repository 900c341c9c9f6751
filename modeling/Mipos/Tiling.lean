/-
Intervals that tile a range.

A list of spans `(start, length)` tiles `[lo, lo + len)` when its members are
non-empty, lie inside the range, are pairwise disjoint and have total length
`len` (`Tiles`).  Counting then gives what "tile" promises:

* `Tiles.cover` — every point of the range lies in some member;
* `Tiles.unique` — and in no other.

A tiling is a property of the collection, not of its order (`Tiles.perm`), and
it is kept by the two local edits of an allocator: cutting a member in two
(`Tiles.split`) and fusing two members that touch (`Tiles.fuse`).  When no two
members touch, there is only one (`Tiles.eq_single`).

Disjoint spans fall into maximal runs of members that follow each other
(`MaxRun`): each member is in one (`exists_maxRun`), and what the spans cover
without a gap is inside one (`MaxRun.contains`).
-/
import Mathlib.Algebra.Order.Ring.Nat
import Mathlib.Data.Finset.Card
import Mathlib.Order.Interval.Finset.Nat
import Mathlib.Data.List.Perm.Basic
import Mathlib.Data.List.Pairwise
import Mathlib.Algebra.BigOperators.Group.List.Basic

namespace Tiling

/-- A span: its first point and its length. -/
abbrev Span := ℕ × ℕ

/-- Two spans have no point in common: one ends before the other starts. -/
def Apart (p q : Span) : Prop := p.1 + p.2 ≤ q.1 ∨ q.1 + q.2 ≤ p.1

theorem Apart.symm {p q : Span} (h : Apart p q) : Apart q p := Or.symm h

instance : Std.Symm Apart := ⟨fun _ _ h => Apart.symm h⟩

/-- The point `x` lies in the span `p`. -/
def Holds (p : Span) (x : ℕ) : Prop := p.1 ≤ x ∧ x < p.1 + p.2

/-- The spans of `l` tile the `len` points from `lo` on. -/
structure Tiles (lo len : ℕ) (l : List Span) : Prop where
  pos : ∀ p ∈ l, 0 < p.2
  inside : ∀ p ∈ l, lo ≤ p.1 ∧ p.1 + p.2 ≤ lo + len
  apart : l.Pairwise Apart
  total : (l.map Prod.snd).sum = len

variable {lo len : ℕ} {l l' : List Span} {p q : Span}

theorem Tiles.perm (h : Tiles lo len l) (hp : l.Perm l') : Tiles lo len l' where
  pos p hm := h.pos p (hp.mem_iff.mpr hm)
  inside p hm := h.inside p (hp.mem_iff.mpr hm)
  apart := (hp.pairwise_iff Apart.symm).mp h.apart
  total := by rw [← (hp.map Prod.snd).sum_eq, h.total]

/-- Distinct members of a tiling are apart. -/
theorem Tiles.apart_of_ne (h : Tiles lo len l) (hp : p ∈ l) (hq : q ∈ l) (hne : p ≠ q) :
    Apart p q :=
  h.apart.forall hp hq hne

/-- Members of a tiling that share a point are the same member. -/
theorem Tiles.unique (h : Tiles lo len l) (hp : p ∈ l) (hq : q ∈ l) {x : ℕ}
    (hpx : Holds p x) (hqx : Holds q x) : p = q := by
  by_contra hne
  have hapart := h.apart_of_ne hp hq hne
  unfold Holds at hpx hqx
  unfold Apart at hapart
  omega

/-- The points of the members of `l`. -/
def points : List Span → Finset ℕ
  | [] => ∅
  | p :: l => Finset.Ico p.1 (p.1 + p.2) ∪ points l

theorem mem_points : ∀ {l : List Span} {x : ℕ}, x ∈ points l ↔ ∃ p ∈ l, Holds p x
  | [], x => by simp [points]
  | p :: l, x => by simp [points, mem_points, Holds]

/-- Disjoint spans have as many points as their lengths add up to. -/
theorem card_points : ∀ {l : List Span}, l.Pairwise Apart →
    (points l).card = (l.map Prod.snd).sum := by
  intro l
  induction l with
  | nil =>
    intro _
    rfl
  | cons p l ih =>
    intro h
    obtain ⟨hp, hl⟩ := List.pairwise_cons.mp h
    have hdisj : Disjoint (Finset.Ico p.1 (p.1 + p.2)) (points l) := by
      rw [Finset.disjoint_left]
      intro x hx hxl
      obtain ⟨q, hq, hqx⟩ := mem_points.mp hxl
      have hapart := hp q hq
      rw [Finset.mem_Ico] at hx
      unfold Holds at hqx
      unfold Apart at hapart
      omega
    rw [points, Finset.card_union_of_disjoint hdisj, ih hl]
    simp

/-- **Nothing is left uncovered**: members inside the range, disjoint and of
full total length reach every point of it. -/
theorem Tiles.cover (h : Tiles lo len l) {x : ℕ} (h1 : lo ≤ x) (h2 : x < lo + len) :
    ∃ p ∈ l, Holds p x := by
  have hsub : points l ⊆ Finset.Ico lo (lo + len) := by
    intro y hy
    obtain ⟨p, hp, hpy⟩ := mem_points.mp hy
    have hin := h.inside p hp
    unfold Holds at hpy
    rw [Finset.mem_Ico]
    omega
  have hcard : (Finset.Ico lo (lo + len)).card ≤ (points l).card := by
    rw [card_points h.apart, h.total]
    simp
  have heq : points l = Finset.Ico lo (lo + len) := Finset.eq_of_subset_of_card_le hsub hcard
  rw [← mem_points, heq, Finset.mem_Ico]
  exact ⟨h1, h2⟩

/-- One span tiles itself. -/
theorem Tiles.single (lo : ℕ) (hlen : 0 < len) : Tiles lo len [(lo, len)] where
  pos p hp := by
    rw [List.mem_singleton.mp hp]
    exact hlen
  inside p hp := by
    rw [List.mem_singleton.mp hp]
    exact ⟨le_refl _, le_refl _⟩
  apart := List.pairwise_singleton _ _
  total := by simp

/-- **Nothing left to fuse**: a tiling of which no member starts where another
ends is the whole range. -/
theorem Tiles.eq_single (h : Tiles lo len l) (hlen : 0 < len)
    (hgap : ∀ p ∈ l, ∀ q ∈ l, p.1 + p.2 ≠ q.1) : l = [(lo, len)] := by
  obtain ⟨p, hp, hplo⟩ := h.cover (le_refl lo) (by omega)
  have hin := h.inside p hp
  have hstart : p.1 = lo := by
    unfold Holds at hplo
    omega
  have hwhole : p.2 = len := by
    by_contra hshort
    -- the point after `p` belongs to a member that starts there
    obtain ⟨q, hq, hqx⟩ := h.cover (x := p.1 + p.2) (by omega) (by omega)
    have hne : p ≠ q := by
      rintro rfl
      unfold Holds at hqx
      omega
    have hapart := h.apart_of_ne hp hq hne
    have hpos := h.pos p hp
    unfold Holds at hqx
    unfold Apart at hapart
    exact hgap p hp q hq (by omega)
  have hall : ∀ q ∈ l, q = p := by
    intro q hq
    have hpos := h.pos q hq
    have hinq := h.inside q hq
    refine h.unique hq hp (x := q.1) ?_ ?_
    · exact ⟨le_refl _, by omega⟩
    · exact ⟨by omega, by omega⟩
  have hnodup : l.Nodup := by
    refine h.apart.imp_of_mem ?_
    intro a c ha _ hac
    rintro rfl
    have hpos := h.pos a ha
    unfold Apart at hac
    omega
  have hsingle := List.perm_singleton.mp
    ((List.perm_ext_iff_of_nodup hnodup (List.nodup_singleton p)).mpr fun q =>
      ⟨fun hq => List.mem_singleton.mpr (hall q hq),
        fun hq => List.mem_singleton.mp hq ▸ hp⟩)
  rw [hsingle, ← hstart, ← hwhole]

/-- Cutting a member in two keeps a tiling. -/
theorem Tiles.split {a n k : ℕ} (h : Tiles lo len ((a, n + k) :: l)) (hn : 0 < n) (hk : 0 < k) :
    Tiles lo len ((a, n) :: (a + n, k) :: l) where
  pos p hp := by
    rcases List.mem_cons.mp hp with rfl | hp
    · exact hn
    rcases List.mem_cons.mp hp with rfl | hp
    · exact hk
    · exact h.pos p (List.mem_cons_of_mem _ hp)
  inside p hp := by
    have hin := h.inside (a, n + k) List.mem_cons_self
    rcases List.mem_cons.mp hp with rfl | hp
    · simp only at hin ⊢
      omega
    rcases List.mem_cons.mp hp with rfl | hp
    · simp only at hin ⊢
      omega
    · exact h.inside p (List.mem_cons_of_mem _ hp)
  apart := by
    obtain ⟨hp, hl⟩ := List.pairwise_cons.mp h.apart
    refine List.pairwise_cons.mpr ⟨?_, List.pairwise_cons.mpr ⟨?_, hl⟩⟩
    · intro q hq
      rcases List.mem_cons.mp hq with rfl | hq
      · exact Or.inl (le_refl _)
      · have hapart := hp q hq
        unfold Apart at hapart ⊢
        simp only at hapart ⊢
        omega
    · intro q hq
      have hapart := hp q hq
      unfold Apart at hapart ⊢
      simp only at hapart ⊢
      omega
  total := by
    have ht := h.total
    simp only [List.map_cons, List.sum_cons] at ht ⊢
    omega

/-- Fusing two members that touch keeps a tiling. -/
theorem Tiles.fuse {a n k : ℕ} (h : Tiles lo len ((a, n) :: (a + n, k) :: l)) :
    Tiles lo len ((a, n + k) :: l) where
  pos p hp := by
    have hn := h.pos (a, n) List.mem_cons_self
    rcases List.mem_cons.mp hp with rfl | hp
    · simp only at hn ⊢
      omega
    · exact h.pos p (List.mem_cons_of_mem _ (List.mem_cons_of_mem _ hp))
  inside p hp := by
    have hin1 := h.inside (a, n) List.mem_cons_self
    have hin2 := h.inside (a + n, k) (List.mem_cons_of_mem _ List.mem_cons_self)
    rcases List.mem_cons.mp hp with rfl | hp
    · simp only at hin1 hin2 ⊢
      omega
    · exact h.inside p (List.mem_cons_of_mem _ (List.mem_cons_of_mem _ hp))
  apart := by
    obtain ⟨hp, hl⟩ := List.pairwise_cons.mp h.apart
    obtain ⟨hp', hl'⟩ := List.pairwise_cons.mp hl
    refine List.pairwise_cons.mpr ⟨fun q hq => ?_, hl'⟩
    -- a member between the two halves would have to be empty
    have h1 := hp q (List.mem_cons_of_mem _ hq)
    have h2 := hp' q hq
    have hpos := h.pos q (List.mem_cons_of_mem _ (List.mem_cons_of_mem _ hq))
    unfold Apart at h1 h2 ⊢
    simp only at h1 h2 ⊢
    omega
  total := by
    have ht := h.total
    simp only [List.map_cons, List.sum_cons] at ht ⊢
    omega

/-! ### Runs -/

/-- The members of `l` follow each other from `s` to `e`. -/
def Joined : ℕ → List Span → ℕ → Prop
  | s, [], e => s = e
  | s, p :: l, e => p.1 = s ∧ Joined (p.1 + p.2) l e

/-- `l` is a run of members of `L` from `s` to `e`, and no member can be put before or
after it. -/
structure MaxRun (L : List Span) (s : ℕ) (l : List Span) (e : ℕ) : Prop where
  joined : Joined s l e
  nonempty : l ≠ []
  mem : ∀ p ∈ l, p ∈ L
  left : ∀ p ∈ L, p.1 + p.2 ≠ s
  right : ∀ p ∈ L, p.1 ≠ e

theorem joined_append {s e : ℕ} {l₁ l₂ : List Span} :
    Joined s (l₁ ++ l₂) e ↔ ∃ k, Joined s l₁ k ∧ Joined k l₂ e := by
  induction l₁ generalizing s with
  | nil => simp [Joined]
  | cons p l ih => simp [Joined, ih, and_assoc]

theorem Joined.end_eq {s e : ℕ} (h : Joined s l e) : e = s + (l.map Prod.snd).sum := by
  induction l generalizing s with
  | nil => exact Eq.symm h
  | cons p l ih =>
    obtain ⟨rfl, hrest⟩ := h
    rw [ih hrest, List.map_cons, List.sum_cons, Nat.add_assoc]

/-- The members are inside the run. -/
theorem Joined.inside {s e : ℕ} (h : Joined s l e) (hp : p ∈ l) : s ≤ p.1 ∧ p.1 + p.2 ≤ e := by
  induction l generalizing s with
  | nil => cases hp
  | cons q l ih =>
    obtain ⟨rfl, hrest⟩ := h
    rcases List.mem_cons.mp hp with rfl | hp
    · have := hrest.end_eq
      omega
    · have := ih hrest hp
      omega

/-- A run has no gap. -/
theorem Joined.cover {s e a : ℕ} (h : Joined s l e) (hs : s ≤ a) (he : a < e) :
    ∃ p ∈ l, Holds p a := by
  induction l generalizing s with
  | nil =>
    have : s = e := h
    omega
  | cons q l ih =>
    obtain ⟨rfl, hrest⟩ := h
    by_cases hq : a < q.1 + q.2
    · exact ⟨q, List.mem_cons_self, hs, hq⟩
    · obtain ⟨p, hp, hpa⟩ := ih hrest (by omega)
      exact ⟨p, List.mem_cons_of_mem _ hp, hpa⟩

section Runs

variable {L : List Span}

/-- A run that is maximal on its right side, by adding members as long as there are some. -/
theorem exists_right_run {bound s e : ℕ} (hpos : ∀ p ∈ L, 0 < p.2)
    (hbound : ∀ p ∈ L, p.1 + p.2 ≤ bound) (hl : Joined s l e) (hmem : ∀ p ∈ l, p ∈ L) :
    ∃ l' e', Joined s (l ++ l') e' ∧ (∀ p ∈ l ++ l', p ∈ L) ∧ ∀ p ∈ L, p.1 ≠ e' := by
  induction hk : bound - e using Nat.strong_induction_on generalizing l e with
  | _ k ih =>
    by_cases hmore : ∃ p ∈ L, p.1 = e
    · obtain ⟨p, hp, rfl⟩ := hmore
      have hp0 := hpos p hp
      have hpb := hbound p hp
      have hl' : Joined s (l ++ [p]) (p.1 + p.2) := joined_append.mpr ⟨p.1, hl, rfl, rfl⟩
      have hmem' : ∀ q ∈ l ++ [p], q ∈ L := by
        intro q hq
        rcases List.mem_append.mp hq with hq | hq
        · exact hmem q hq
        · exact List.mem_singleton.mp hq ▸ hp
      obtain ⟨l', e', hjoined, hall, hright⟩ := ih _ (by omega) hl' hmem' rfl
      rw [List.append_assoc] at hjoined hall
      exact ⟨[p] ++ l', e', hjoined, hall, hright⟩
    · refine ⟨[], e, by rwa [List.append_nil], by rwa [List.append_nil], ?_⟩
      exact fun p hp hpe => hmore ⟨p, hp, hpe⟩

theorem exists_left_run {s e : ℕ} (hpos : ∀ p ∈ L, 0 < p.2) (hl : Joined s l e)
    (hmem : ∀ p ∈ l, p ∈ L) :
    ∃ l' s', Joined s' (l' ++ l) e ∧ (∀ p ∈ l' ++ l, p ∈ L) ∧ ∀ p ∈ L, p.1 + p.2 ≠ s' := by
  induction s using Nat.strong_induction_on generalizing l with
  | _ s ih =>
    by_cases hmore : ∃ p ∈ L, p.1 + p.2 = s
    · obtain ⟨p, hp, rfl⟩ := hmore
      have hp0 := hpos p hp
      have hl' : Joined p.1 (p :: l) e := ⟨rfl, hl⟩
      obtain ⟨l', s', hjoined, hall, hleft⟩ := ih p.1 (by omega) hl'
        (List.forall_mem_cons.mpr ⟨hp, hmem⟩)
      rw [List.append_cons] at hjoined hall
      exact ⟨l' ++ [p], s', hjoined, hall, hleft⟩
    · exact ⟨[], s, hl, hmem, fun p hp hps => hmore ⟨p, hp, hps⟩⟩

/-- **Every member is in a maximal run.** -/
theorem exists_maxRun {bound : ℕ} (hpos : ∀ p ∈ L, 0 < p.2)
    (hbound : ∀ p ∈ L, p.1 + p.2 ≤ bound) (hp : p ∈ L) : ∃ s l e, MaxRun L s l e ∧ p ∈ l := by
  have hone : Joined p.1 [p] (p.1 + p.2) := ⟨rfl, rfl⟩
  obtain ⟨l₂, e, hjoined, hmem, hright⟩ := exists_right_run hpos hbound hone (by simpa using hp)
  obtain ⟨l₁, s, hjoined', hmem', hleft⟩ := exists_left_run hpos hjoined hmem
  exact ⟨s, l₁ ++ ([p] ++ l₂), e, ⟨hjoined', by simp, hmem', hleft, hright⟩, by simp⟩

/-- **What disjoint spans cover without a gap is inside a maximal run**, if it meets it. -/
theorem MaxRun.contains {s e lo hi a : ℕ} (h : MaxRun L s l e)
    (hone : ∀ p ∈ L, ∀ q ∈ L, ∀ x, Holds p x → Holds q x → p = q)
    (hcover : ∀ x, lo ≤ x → x < hi → ∃ p ∈ L, Holds p x)
    (hlo : lo ≤ a) (hhi : a < hi) (hs : s ≤ a) (he : a < e) : s ≤ lo ∧ hi ≤ e := by
  constructor
  · -- the member that covers the point before the run would reach into it
    by_contra hlt
    obtain ⟨p, hp, hpx⟩ := hcover (s - 1) (by omega) (by omega)
    obtain ⟨q, hq, hqs⟩ := h.joined.cover (a := s) (by omega) (by omega)
    have hleft := h.left p hp
    have hin := h.joined.inside hq
    unfold Holds at hpx hqs
    have hpq : p = q := hone p hp q (h.mem q hq) s ⟨by omega, by omega⟩ hqs
    rw [hpq] at hpx
    omega
  · by_contra hlt
    obtain ⟨p, hp, hpe⟩ := hcover e (by omega) (by omega)
    obtain ⟨q, hq, hqx⟩ := h.joined.cover (a := e - 1) (by omega) (by omega)
    have hright := h.right p hp
    have hin := h.joined.inside hq
    unfold Holds at hpe hqx
    have hpq : p = q := hone p hp q (h.mem q hq) (e - 1) ⟨by omega, by omega⟩ hqx
    rw [hpq] at hpe
    omega

end Runs

end Tiling
