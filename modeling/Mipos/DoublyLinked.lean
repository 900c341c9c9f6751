/-
Doubly linked lists through link functions.

The links are two functions `nx pv : α → α` with `0` for null, wherever they
are stored.  `Links nx pv l` says that neighbours of `l` point at each other,
and `IsList nx pv l` that `l` is a null-terminated list with no cell twice.

The view is local: `links_append` cuts a list at any cell, `Links.congr` moves
links between functions that agree on the cells, and the two edits are
`IsList.unlink` (take a cell out, wherever it stands) and `IsList.linkAfter`
(put a new cell after the head).  Both ask of the new link functions only what
they say on the cells concerned, so they apply to links stored in a memory
that holds other things as well.
-/
import Mathlib.Data.List.Nodup
import Mathlib.Data.List.Infix

namespace DoublyLinked

variable {α : Type*} [Zero α]

/-- Neighbours point at each other; a null neighbour has no links. -/
def Links (nx pv : α → α) : List α → Prop
  | x :: y :: l => (x ≠ 0 → nx x = y) ∧ (y ≠ 0 → pv y = x) ∧ Links nx pv (y :: l)
  | _ => True

/-- The cells of `l`, in this order, form a null-terminated list. -/
structure IsList (nx pv : α → α) (l : List α) : Prop where
  ne_zero : ∀ x ∈ l, x ≠ 0
  nodup : l.Nodup
  links : Links nx pv (0 :: (l ++ [0]))

variable {nx pv nx' pv' : α → α} {l l₁ l₂ : List α} {x y d h : α}

instance Links.decide [DecidableEq α] : (l : List α) → Decidable (Links nx pv l)
  | x :: y :: l =>
    have : Decidable (Links nx pv (y :: l)) := Links.decide (y :: l)
    inferInstanceAs (Decidable ((x ≠ 0 → nx x = y) ∧ (y ≠ 0 → pv y = x) ∧ Links nx pv (y :: l)))
  | [_] => .isTrue trivial
  | [] => .isTrue trivial

instance [DecidableEq α] : Decidable (IsList nx pv l) :=
  decidable_of_iff ((∀ x ∈ l, x ≠ 0) ∧ l.Nodup ∧ Links nx pv (0 :: (l ++ [0])))
    ⟨fun h => ⟨h.1, h.2.1, h.2.2⟩, fun h => ⟨h.ne_zero, h.nodup, h.links⟩⟩

theorem links_cons_cons :
    Links nx pv (x :: y :: l) ↔
      (x ≠ 0 → nx x = y) ∧ (y ≠ 0 → pv y = x) ∧ Links nx pv (y :: l) := Iff.rfl

@[simp] theorem links_singleton : Links nx pv [x] := trivial

/-- Links of a concatenation: both parts, which share the seam. -/
theorem links_append : ∀ {l₁ : List α},
    Links nx pv (l₁ ++ x :: l₂) ↔ Links nx pv (l₁ ++ [x]) ∧ Links nx pv (x :: l₂) := by
  intro l₁
  induction l₁ with
  | nil => simp
  | cons a l₁ ih =>
    rcases l₁ with _ | ⟨b, l₁⟩
    · simp only [List.cons_append, List.nil_append, links_cons_cons, links_singleton, and_true]
      tauto
    · simp only [List.cons_append, links_cons_cons] at ih ⊢
      rw [ih]
      tauto

/-- Links only read `nx` and `pv` at the cells. -/
theorem Links.congr : ∀ {l : List α}, Links nx pv l →
    (∀ x ∈ l, x ≠ 0 → nx' x = nx x) → (∀ x ∈ l, x ≠ 0 → pv' x = pv x) → Links nx' pv' l := by
  intro l
  induction l with
  | nil => exact fun _ _ _ => trivial
  | cons x l ih =>
    intro hl hnx hpv
    rcases l with _ | ⟨y, l⟩
    · trivial
    obtain ⟨h1, h2, h3⟩ := links_cons_cons.mp hl
    refine links_cons_cons.mpr ⟨fun hx => ?_, fun hy => ?_, ?_⟩
    · rw [hnx x List.mem_cons_self hx, h1 hx]
    · rw [hpv y (by simp) hy, h2 hy]
    · exact ih h3 (fun z hz => hnx z (List.mem_cons_of_mem _ hz))
        (fun z hz => hpv z (List.mem_cons_of_mem _ hz))

/-- Up to a seam cell, links do not read the seam's `nx`; from it on, not its `pv`. -/
theorem Links.congr_left : ∀ {l : List α}, Links nx pv (l ++ [x]) →
    (∀ z ∈ l, z ≠ 0 → nx' z = nx z) → (∀ z ∈ l ++ [x], z ≠ 0 → pv' z = pv z) →
    Links nx' pv' (l ++ [x]) := by
  intro l
  induction l with
  | nil => exact fun _ _ _ => trivial
  | cons a l ih =>
    intro hl hnx hpv
    have hrest : ∀ {b : α} {t : List α}, l ++ [x] = b :: t → Links nx pv (b :: t) →
        Links nx' pv' (l ++ [x]) := by
      intro b t heq hlt
      exact ih (heq ▸ hlt) (fun z hz => hnx z (List.mem_cons_of_mem _ hz))
        (fun z hz => hpv z (List.mem_cons_of_mem _ hz))
    rcases hlx : l ++ [x] with _ | ⟨b, t⟩
    · simp at hlx
    · rw [List.cons_append, hlx] at hl ⊢
      obtain ⟨h1, h2, h3⟩ := links_cons_cons.mp hl
      refine links_cons_cons.mpr ⟨fun ha => ?_, fun hb => ?_, hlx ▸ hrest hlx h3⟩
      · rw [hnx a List.mem_cons_self ha, h1 ha]
      · rw [hpv b (by rw [List.cons_append, hlx]; simp) hb, h2 hb]

theorem Links.congr_right (hl : Links nx pv (x :: l)) (hnx : ∀ z ∈ x :: l, z ≠ 0 → nx' z = nx z)
    (hpv : ∀ z ∈ l, z ≠ 0 → pv' z = pv z) : Links nx' pv' (x :: l) := by
  rcases l with _ | ⟨y, l⟩
  · trivial
  obtain ⟨h1, h2, h3⟩ := links_cons_cons.mp hl
  refine links_cons_cons.mpr ⟨fun hx => ?_, fun hy => ?_, ?_⟩
  · rw [hnx x List.mem_cons_self hx, h1 hx]
  · rw [hpv y List.mem_cons_self hy, h2 hy]
  · exact h3.congr (fun z hz => hnx z (List.mem_cons_of_mem _ hz)) hpv

/-! ### Reading a list -/

theorem isList_nil : IsList nx pv [] :=
  ⟨by simp, by simp, by simp [Links]⟩

/-- A list is the same list for links that agree on its cells. -/
theorem IsList.congr (hl : IsList nx pv l) (hnx : ∀ x ∈ l, nx' x = nx x)
    (hpv : ∀ x ∈ l, pv' x = pv x) : IsList nx' pv' l := by
  refine ⟨hl.ne_zero, hl.nodup, hl.links.congr ?_ ?_⟩
  · intro x hx hx0
    simp only [List.mem_cons, List.mem_append, List.not_mem_nil, or_false] at hx
    exact hnx x (by tauto)
  · intro x hx hx0
    simp only [List.mem_cons, List.mem_append, List.not_mem_nil, or_false] at hx
    exact hpv x (by tauto)

/-- A list with its two nulls, seen from the last cell of a first part. -/
theorem exists_cons_eq_append_getLastD (l : List α) : ∃ t, (0 : α) :: l = t ++ [l.getLastD 0] := by
  rcases List.eq_nil_or_concat l with rfl | ⟨t, z, rfl⟩
  · exact ⟨[], rfl⟩
  · exact ⟨0 :: t, by simp⟩

/-- A list with its two nulls, seen from the first cell of a last part. -/
theorem exists_append_eq_headD_cons (l : List α) : ∃ t, l ++ [(0 : α)] = l.headD 0 :: t := by
  rcases l with _ | ⟨y, l⟩
  · exact ⟨[], rfl⟩
  · exact ⟨l ++ [0], rfl⟩

theorem IsList.nx_eq (hl : IsList nx pv (l₁ ++ d :: l₂)) : nx d = l₂.headD 0 := by
  obtain ⟨t, ht⟩ := exists_append_eq_headD_cons l₂
  have hlinks := hl.links
  rw [List.append_assoc, List.cons_append, ht, ← List.cons_append] at hlinks
  exact (links_cons_cons.mp (links_append.mp hlinks).2).1 (hl.ne_zero d (by simp))

theorem IsList.pv_eq (hl : IsList nx pv (l₁ ++ d :: l₂)) : pv d = l₁.getLastD 0 := by
  obtain ⟨t, ht⟩ := exists_cons_eq_append_getLastD l₁
  have hlinks := hl.links
  rw [List.append_assoc, ← List.cons_append, ht, List.append_assoc] at hlinks
  exact (links_cons_cons.mp (links_append.mp hlinks).2).2.1 (hl.ne_zero d (by simp))

theorem getLastD_mem_or (l : List α) : l.getLastD 0 ∈ l ∨ l.getLastD 0 = 0 := by
  rcases List.eq_nil_or_concat l with rfl | ⟨t, z, rfl⟩
  · exact Or.inr rfl
  · exact Or.inl (by simp)

theorem headD_mem_or (l : List α) : l.headD 0 ∈ l ∨ l.headD 0 = 0 := by
  rcases l with _ | ⟨y, l⟩
  · exact Or.inr rfl
  · exact Or.inl (by simp)

/-- The neighbours of a cell, when not null, are cells of the same list. -/
theorem IsList.nx_mem (hl : IsList nx pv (l₁ ++ d :: l₂)) (h0 : nx d ≠ 0) : nx d ∈ l₂ := by
  rw [hl.nx_eq] at h0 ⊢
  exact (headD_mem_or l₂).resolve_right h0

theorem IsList.pv_mem (hl : IsList nx pv (l₁ ++ d :: l₂)) (h0 : pv d ≠ 0) : pv d ∈ l₁ := by
  rw [hl.pv_eq] at h0 ⊢
  exact (getLastD_mem_or l₁).resolve_right h0

theorem IsList.head_nx_eq (hl : IsList nx pv (h :: l)) : nx h = l.headD 0 :=
  IsList.nx_eq (by simpa using hl : IsList nx pv ([] ++ h :: l))

theorem IsList.head_nx_mem (hl : IsList nx pv (h :: l)) (h0 : nx h ≠ 0) : nx h ∈ l :=
  IsList.nx_mem (by simpa using hl : IsList nx pv ([] ++ h :: l)) h0

/-! ### What a list determines -/

/-- Following `nx` from the same cell gives the same cells. -/
theorem links_unique : ∀ {l l' : List α}, (∀ z ∈ l, z ≠ 0) → (∀ z ∈ l', z ≠ 0) →
    Links nx pv (l ++ [0]) → Links nx pv (l' ++ [0]) → l.headD 0 = l'.headD 0 → l = l' := by
  intro l
  induction l with
  | nil =>
    intro l' _ hl'0 _ _ hhead
    rcases l' with _ | ⟨b, l'⟩
    · rfl
    · exact absurd hhead.symm (hl'0 b List.mem_cons_self)
  | cons a l ih =>
    intro l' hl0 hl'0 hl hl' hhead
    rcases l' with _ | ⟨b, l'⟩
    · exact absurd hhead (hl0 a List.mem_cons_self)
    have hab : a = b := hhead
    subst hab
    have ha := hl0 a List.mem_cons_self
    obtain ⟨t, ht⟩ := exists_append_eq_headD_cons l
    obtain ⟨t', ht'⟩ := exists_append_eq_headD_cons l'
    rw [List.cons_append, ht] at hl
    rw [List.cons_append, ht'] at hl'
    obtain ⟨hn, -, hrest⟩ := links_cons_cons.mp hl
    obtain ⟨hn', -, hrest'⟩ := links_cons_cons.mp hl'
    rw [← ht] at hrest
    rw [← ht'] at hrest'
    rw [ih (fun z hz => hl0 z (List.mem_cons_of_mem _ hz))
      (fun z hz => hl'0 z (List.mem_cons_of_mem _ hz)) hrest hrest' ((hn ha).symm.trans (hn' ha))]

/-- A list is determined by its first cell. -/
theorem IsList.unique {l' : List α} (hl : IsList nx pv l) (hl' : IsList nx pv l')
    (hhead : l.headD 0 = l'.headD 0) : l = l' := by
  have hcut : ∀ {l : List α}, IsList nx pv l → Links nx pv (l ++ [0]) := by
    intro l hl
    obtain ⟨t, ht⟩ := exists_append_eq_headD_cons l
    have hlinks := hl.links
    rw [ht] at hlinks ⊢
    exact (links_cons_cons.mp hlinks).2.2
  exact links_unique hl.ne_zero hl'.ne_zero (hcut hl) (hcut hl') hhead

/-- Going forth and back again. -/
theorem IsList.pv_nx (hl : IsList nx pv l) (hx : x ∈ l) (hn : nx x ≠ 0) : pv (nx x) = x := by
  obtain ⟨l₁, l₂, rfl⟩ := List.append_of_mem hx
  rw [hl.nx_eq] at hn ⊢
  rcases l₂ with _ | ⟨y, l₂⟩
  · exact absurd rfl hn
  · have hy : IsList nx pv ((l₁ ++ [x]) ++ y :: l₂) := by simpa using hl
    show pv y = x
    rw [hy.pv_eq]
    simp

theorem IsList.pv_head (hl : IsList nx pv l) (hne : l ≠ []) : pv (l.headD 0) = 0 := by
  rcases l with _ | ⟨y, l⟩
  · exact absurd rfl hne
  · have hy : IsList nx pv ([] ++ y :: l) := hl
    exact hy.pv_eq

/-! ### The two edits -/

theorem isList_singleton (hd : d ≠ 0) (hnx : nx d = 0) (hpv : pv d = 0) : IsList nx pv [d] :=
  ⟨by simpa using hd, by simp, by simp [Links, hnx, hpv]⟩

variable [DecidableEq α]

/-- **Taking a cell out**: its neighbours are linked past it. -/
theorem IsList.unlink (hl : IsList nx pv (l₁ ++ d :: l₂))
    (hnx : ∀ z ∈ l₁ ++ l₂, nx' z = if z = pv d then nx d else nx z)
    (hpv : ∀ z ∈ l₁ ++ l₂, pv' z = if z = nx d then pv d else pv z) :
    IsList nx' pv' (l₁ ++ l₂) := by
  have hsub : List.Sublist (l₁ ++ l₂) (l₁ ++ d :: l₂) := (List.sublist_cons_self d l₂).append_left l₁
  have hne : ∀ z ∈ l₁ ++ l₂, z ≠ 0 := fun z hz => hl.ne_zero z (hsub.subset hz)
  have hnodup : (l₁ ++ l₂).Nodup := hl.nodup.sublist hsub
  have hdisj := List.disjoint_of_nodup_append hnodup
  rw [hl.nx_eq, hl.pv_eq] at hnx hpv
  obtain ⟨t, ht⟩ := exists_cons_eq_append_getLastD l₁
  obtain ⟨t', ht'⟩ := exists_append_eq_headD_cons l₂
  have hx := getLastD_mem_or l₁
  have hy := headD_mem_or l₂
  set x := l₁.getLastD 0
  set y := l₂.headD 0
  have hlinks := hl.links
  rw [List.append_assoc, List.cons_append, ht', ← List.cons_append, ht, List.append_assoc,
    List.cons_append, List.nil_append] at hlinks
  obtain ⟨hleft, hright⟩ := links_append.mp hlinks
  have hright' : Links nx pv (y :: t') :=
    (links_cons_cons.mp (links_cons_cons.mp hright).2.2).2.2
  -- membership in the two parts, with their nulls
  have hmem : ∀ z, z ∈ t ++ [x] → z ≠ 0 → z ∈ l₁ := by
    intro z hz hz0
    rw [← ht] at hz
    simpa [hz0] using hz
  have hmem' : ∀ z, z ∈ y :: t' → z ≠ 0 → z ∈ l₂ := by
    intro z hz hz0
    rw [← ht'] at hz
    simpa [hz0] using hz
  have hnodupl : (t ++ [x]).Nodup := by
    rw [← ht]
    exact List.nodup_cons.mpr ⟨fun h0 => hne 0 (by simp [h0]) rfl,
      hnodup.sublist (List.sublist_append_left _ _)⟩
  have hnodupr : (y :: t').Nodup := by
    rw [← ht']
    exact List.nodup_append.mpr ⟨hnodup.sublist (List.sublist_append_right _ _), by simp,
      by
        intro a ha b hb hab
        rw [List.mem_singleton.mp hb] at hab
        exact hne a (by simp [ha]) hab⟩
  refine ⟨hne, hnodup, ?_⟩
  rw [List.append_assoc, ht', ← List.cons_append, ht, List.append_assoc, List.cons_append,
    List.nil_append]
  refine links_append.mpr ⟨hleft.congr_left ?_ ?_, links_cons_cons.mpr ⟨?_, ?_, ?_⟩⟩
  · intro z hz hz0
    have hzl := hmem z (by simp [hz]) hz0
    have hzx : z ≠ x := by
      rintro rfl
      exact (List.nodup_append.mp hnodupl).2.2 x hz x (by simp) rfl
    rw [hnx z (by simp [hzl]), if_neg hzx]
  · intro z hz hz0
    have hzl := hmem z hz hz0
    have hzy : z ≠ y := by
      rintro rfl
      rcases hy with hy | hy
      · exact hdisj hzl hy
      · exact hz0 hy
    rw [hpv z (by simp [hzl]), if_neg hzy]
  · intro hx0
    rw [hnx x (by simp [hx.resolve_right hx0]), if_pos rfl]
  · intro hy0
    rw [hpv y (by simp [hy.resolve_right hy0]), if_pos rfl]
  · refine hright'.congr_right ?_ ?_
    · intro z hz hz0
      have hzr := hmem' z hz hz0
      have hzx : z ≠ x := by
        rintro rfl
        rcases hx with hx | hx
        · exact hdisj hx hzr
        · exact hz0 hx
      rw [hnx z (by simp [hzr]), if_neg hzx]
    · intro z hz hz0
      have hzr := hmem' z (by simp [hz]) hz0
      have hzy : z ≠ y := by
        rintro rfl
        exact (List.nodup_cons.mp hnodupr).1 hz
      rw [hpv z (by simp [hzr]), if_neg hzy]

/-- **Putting a cell in** after the head. -/
theorem IsList.linkAfter (hl : IsList nx pv (h :: l)) (hd : d ≠ 0) (hdl : d ∉ h :: l)
    (hnx : ∀ z ∈ h :: d :: l, nx' z = if z = h then d else if z = d then nx h else nx z)
    (hpv : ∀ z ∈ h :: d :: l, pv' z = if z = d then h else if z = nx h then d else pv z) :
    IsList nx' pv' (h :: d :: l) := by
  have hh0 : h ≠ 0 := hl.ne_zero h (by simp)
  have hdh : d ≠ h := fun e => hdl (by simp [e])
  have hdl' : d ∉ l := fun e => hdl (by simp [e])
  obtain ⟨hhl, hnodup⟩ := List.nodup_cons.mp hl.nodup
  have hnxh : nx h = l.headD 0 := hl.head_nx_eq
  obtain ⟨t, ht⟩ := exists_append_eq_headD_cons l
  have hy := headD_mem_or l
  rw [hnxh] at hnx hpv
  set y := l.headD 0
  have hlinks := hl.links
  rw [List.cons_append, ht] at hlinks
  obtain ⟨-, hhead, hrest⟩ := links_cons_cons.mp hlinks
  obtain ⟨-, -, hright⟩ := links_cons_cons.mp hrest
  have hmem : ∀ z, z ∈ y :: t → z ≠ 0 → z ∈ l := by
    intro z hz hz0
    rw [← ht] at hz
    simpa [hz0] using hz
  have hhy : h ≠ y := by
    intro e
    rcases hy with hy | hy
    · exact hhl (e ▸ hy)
    · exact hh0 (e.trans hy)
  have hnodupr : (y :: t).Nodup := by
    rw [← ht]
    exact List.nodup_append.mpr ⟨hnodup, by simp, by
      intro a ha b hb hab
      rw [List.mem_singleton.mp hb] at hab
      exact hl.ne_zero a (by simp [ha]) hab⟩
  refine ⟨?_, ?_, ?_⟩
  · intro z hz
    simp only [List.mem_cons] at hz
    rcases hz with rfl | rfl | hz
    · exact hh0
    · exact hd
    · exact hl.ne_zero z (by simp [hz])
  · simp [hhl, hnodup, hdl', Ne.symm hdh]
  · rw [List.cons_append, List.cons_append, ht]
    refine links_cons_cons.mpr ⟨fun e => absurd rfl e, fun _ => ?_,
      links_cons_cons.mpr ⟨fun _ => ?_, fun _ => ?_,
        links_cons_cons.mpr ⟨fun _ => ?_, fun hy0 => ?_, ?_⟩⟩⟩
    · rw [hpv h (by simp), if_neg (Ne.symm hdh), if_neg hhy, hhead hh0]
    · rw [hnx h (by simp), if_pos rfl]
    · rw [hpv d (by simp), if_pos rfl]
    · rw [hnx d (by simp), if_neg hdh, if_pos rfl]
    · have hyl := hy.resolve_right hy0
      have hyd : y ≠ d := fun e => hdl' (e ▸ hyl)
      rw [hpv y (by simp [hyl]), if_neg hyd, if_pos rfl]
    · refine hright.congr_right ?_ ?_
      · intro z hz hz0
        have hzl := hmem z hz hz0
        have hzh : z ≠ h := fun e => hhl (e ▸ hzl)
        have hzd : z ≠ d := fun e => hdl' (e ▸ hzl)
        rw [hnx z (by simp [hzl]), if_neg hzh, if_neg hzd]
      · intro z hz hz0
        have hzl := hmem z (by simp [hz]) hz0
        have hzd : z ≠ d := fun e => hdl' (e ▸ hzl)
        have hzy : z ≠ y := fun e => (List.nodup_cons.mp hnodupr).1 (e ▸ hz)
        rw [hpv z (by simp [hzl]), if_neg hzd, if_neg hzy]

end DoublyLinked
