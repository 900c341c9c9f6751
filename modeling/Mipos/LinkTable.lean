/-
Chains in a table of links.

A table `t : α → α` gives for every index the next one, or a mark.  `Seg t a l b`
says that following the links from `a` passes the indices of `l` and then
reaches `b`.  `Chains` is a family of pairwise disjoint chains that uses up the
table: an index on no chain holds the mark `free`.

The edits of such a table, each with the family that it leaves:
* `Chains.replace` — one chain is changed, the others are not touched;
* `Chains.setStop` — the mark at the end of a chain is changed;
* `Chains.begin`, `Chains.extend` — a free index becomes a chain, or the last
  index of one;
* `Chains.release` — all indices of a chain become free;
* `Chains.card_free` — a chain grows by as many indices as are then no longer free.
-/
import Mathlib.Data.Finset.Card
import Mathlib.Data.List.Nodup
import Mathlib.Logic.Function.Basic
import Mathlib.Logic.Function.Iterate

namespace LinkTable

variable {α ι : Type*} {t t' : α → α} {a b c x y v : α} {l : List α}

/-! ### One chain -/

/-- From `a` the links of `t` pass the indices of `l` and then reach `b`. -/
def Seg (t : α → α) : α → List α → α → Prop
  | a, [], b => a = b
  | a, x :: l, b => a = x ∧ Seg t (t x) l b

@[simp]
theorem seg_nil : Seg t a [] b ↔ a = b := Iff.rfl

@[simp]
theorem seg_cons : Seg t a (x :: l) b ↔ a = x ∧ Seg t (t x) l b := Iff.rfl

theorem seg_append {l₁ l₂ : List α} :
    Seg t a (l₁ ++ l₂) c ↔ ∃ b, Seg t a l₁ b ∧ Seg t b l₂ c := by
  induction l₁ generalizing a with
  | nil => simp
  | cons x l₁ ih => simp [ih, and_assoc]

theorem seg_concat : Seg t a (l ++ [x]) b ↔ Seg t a l x ∧ t x = b := by
  simp [seg_append]

theorem Seg.congr (h : Seg t a l b) (ht : ∀ x ∈ l, t' x = t x) : Seg t' a l b := by
  induction l generalizing a with
  | nil => exact h
  | cons x l ih =>
    obtain ⟨rfl, h⟩ := h
    refine ⟨rfl, ?_⟩
    rw [ht a (by simp)]
    exact ih h fun y hy => ht y (by simp [hy])

/-- The link of the index at position `j` leads to the next one, or out. -/
theorem Seg.next (h : Seg t a l b) {j : ℕ} (hj : l[j]? = some x) : t x = (l[j + 1]?).getD b := by
  induction l generalizing a j with
  | nil => simp at hj
  | cons y l ih =>
    obtain ⟨rfl, h⟩ := h
    cases j with
    | zero =>
      obtain rfl : a = x := by simpa using hj
      cases l with
      | nil => simpa using h
      | cons z l => simpa using h.1
    | succ j => simpa using ih h (by simpa using hj)

/-- The index at position `j` is reached by `j` links. -/
theorem Seg.iterate (h : Seg t a l b) {j : ℕ} (hj : l[j]? = some x) : t^[j] a = x := by
  induction l generalizing a j with
  | nil => simp at hj
  | cons y l ih =>
    obtain ⟨rfl, h⟩ := h
    cases j with
    | zero => simpa using hj
    | succ j =>
      rw [Function.iterate_succ_apply]
      exact ih h (by simpa using hj)

theorem Seg.head? (h : Seg t a (x :: l) b) : (x :: l).head? = some a := by
  obtain ⟨rfl, -⟩ := h
  rfl

/-- The indices on a chain and its end determine where it starts. -/
theorem Seg.start_eq {a' : α} (h : Seg t a l b) (h' : Seg t' a' l b) : a' = a := by
  cases l with
  | nil => exact h'.trans h.symm
  | cons x l => exact h'.1.trans h.1.symm

/-! ### Edits of one chain -/

section

variable [DecidableEq α]

theorem Seg.update (h : Seg t a l b) (hx : x ∉ l) : Seg (Function.update t x v) a l b :=
  h.congr fun _ hy => Function.update_of_ne (ne_of_mem_of_not_mem hy hx) v t

theorem Seg.setLast (h : Seg t a (l ++ [x]) b) (hx : x ∉ l) :
    Seg (Function.update t x v) a (l ++ [x]) v := by
  rw [seg_concat] at h ⊢
  exact ⟨h.1.update hx, by simp⟩

theorem Seg.snoc (h : Seg t a (l ++ [x]) b) (hx : x ∉ l) (hy : y ∉ l ++ [x]) :
    Seg (Function.update (Function.update t y v) x y) a (l ++ [x] ++ [y]) v := by
  have hyx : y ≠ x := fun e => hy (by simp [e])
  rw [seg_concat]
  constructor
  · exact (h.update hy).setLast hx
  · simp [hyx]

end

/-! ### A table full of chains -/

/-- The chains `chain i`, each from `start i` to the mark `stop i`, over the
indices that satisfy `V`. -/
structure Chains (V : α → Prop) (free : α) (t : α → α) (chain : ι → List α)
    (start stop : ι → α) : Prop where
  seg : ∀ i, Seg t (start i) (chain i) (stop i)
  valid : ∀ i, ∀ x ∈ chain i, V x
  nodup : ∀ i, (chain i).Nodup
  disjoint : ∀ i j, i ≠ j → (chain i).Disjoint (chain j)
  unused : ∀ x, V x → (∀ i, x ∉ chain i) → t x = free
  stop_ne : ∀ i, stop i ≠ free
  free_not : ¬V free

variable {V : α → Prop} {free : α} {chain : ι → List α} {start stop : ι → α} {i : ι}

/-- An index that holds the mark `free` is on no chain. -/
theorem Chains.not_mem (h : Chains V free t chain start stop) (hx : t x = free) (i : ι) :
    x ∉ chain i := by
  intro hmem
  obtain ⟨j, hj⟩ := List.mem_iff_getElem?.mp hmem
  have hnext : (chain i)[j + 1]?.getD (stop i) = free := by rw [← (h.seg i).next hj, hx]
  cases hc : (chain i)[j + 1]? with
  | none => exact h.stop_ne i (by simpa [hc] using hnext)
  | some y =>
    obtain rfl : y = free := by simpa [hc] using hnext
    exact h.free_not (h.valid i y (List.mem_of_getElem? hc))

theorem Chains.empty (ht : ∀ x, V x → t x = free) (hv : v ≠ free) (hf : ¬V free) :
    Chains V free t (fun _ : ι => []) (fun _ => v) (fun _ => v) where
  seg _ := rfl
  valid _ _ hx := absurd hx (by simp)
  nodup _ := List.nodup_nil
  disjoint _ _ _ := by simp
  unused x hx _ := ht x hx
  stop_ne _ := hv
  free_not := hf

/-- Only the links of the indices matter. -/
theorem Chains.congr (h : Chains V free t chain start stop) (ht : ∀ x, V x → t' x = t x) :
    Chains V free t' chain start stop where
  seg i := (h.seg i).congr fun x hx => ht x (h.valid i x hx)
  valid := h.valid
  nodup := h.nodup
  disjoint := h.disjoint
  unused x hx hno := (ht x hx).trans (h.unused x hx hno)
  stop_ne := h.stop_ne
  free_not := h.free_not

/-- The chains and what ends them determine every link. -/
theorem Chains.link_eq {start' : ι → α} (h : Chains V free t chain start stop)
    (h' : Chains V free t' chain start' stop) (hx : V x) : t' x = t x := by
  by_cases hmem : ∃ i, x ∈ chain i
  · obtain ⟨i, hi⟩ := hmem
    obtain ⟨j, hj⟩ := List.mem_iff_getElem?.mp hi
    rw [(h.seg i).next hj, (h'.seg i).next hj]
  · have hno : ∀ i, x ∉ chain i := fun i hi => hmem ⟨i, hi⟩
    rw [h.unused x hx hno, h'.unused x hx hno]

/-- A link leads to an index, is the end of a chain, or is `free`. -/
theorem Chains.link_cases (h : Chains V free t chain start stop) (hx : V x) :
    V (t x) ∨ (∃ i, t x = stop i) ∨ t x = free := by
  by_cases hmem : ∃ i, x ∈ chain i
  · obtain ⟨i, hi⟩ := hmem
    obtain ⟨j, hj⟩ := List.mem_iff_getElem?.mp hi
    have hnext := (h.seg i).next hj
    cases hc : (chain i)[j + 1]? with
    | none => exact .inr (.inl ⟨i, by rw [hnext, hc]; rfl⟩)
    | some y =>
      rw [hc] at hnext
      exact .inl (hnext ▸ h.valid i y (List.mem_of_getElem? hc))
  · exact .inr (.inr (h.unused x hx fun i hi => hmem ⟨i, hi⟩))

variable [DecidableEq ι]

/-- One chain is replaced; the links of the others are kept and what is then on
no chain is free. -/
theorem Chains.replace (h : Chains V free t chain start stop) (i : ι) (hseg : Seg t' a l b)
    (hvalid : ∀ x ∈ l, V x) (hnodup : l.Nodup) (hdisj : ∀ j, j ≠ i → l.Disjoint (chain j))
    (hkeep : ∀ j, j ≠ i → ∀ x ∈ chain j, t' x = t x)
    (hunused : ∀ x, V x → x ∉ l → (∀ j, j ≠ i → x ∉ chain j) → t' x = free) (hb : b ≠ free) :
    Chains V free t' (Function.update chain i l) (Function.update start i a)
      (Function.update stop i b) := by
  have hcase : ∀ j, j = i ∨ j ≠ i := fun j => eq_or_ne j i
  constructor
  case seg =>
    intro j
    rcases hcase j with rfl | hj
    · simpa using hseg
    · simpa [hj] using (h.seg j).congr (hkeep j hj)
  case valid =>
    intro j
    rcases hcase j with rfl | hj
    · simpa using hvalid
    · simpa [hj] using h.valid j
  case nodup =>
    intro j
    rcases hcase j with rfl | hj
    · simpa using hnodup
    · simpa [hj] using h.nodup j
  case disjoint =>
    intro j k hjk
    rcases hcase j with rfl | hj
    · simpa [hjk.symm] using hdisj k hjk.symm
    · rcases hcase k with rfl | hk
      · rw [Function.update_self, Function.update_of_ne hj]
        exact fun x hx hl => hdisj j hj hl hx
      · simpa [hj, hk] using h.disjoint j k hjk
  case unused =>
    intro x hx hno
    refine hunused x hx (by simpa using hno i) fun j hj => ?_
    simpa [hj] using hno j
  case stop_ne =>
    intro j
    rcases hcase j with rfl | hj
    · simpa using hb
    · simpa [hj] using h.stop_ne j
  case free_not => exact h.free_not

variable [DecidableEq α]

theorem Chains.setStop (h : Chains V free t chain start stop) (hl : chain i = l ++ [x])
    (hv : v ≠ free) :
    Chains V free (Function.update t x v) chain start (Function.update stop i v) := by
  have hnodup : (l ++ [x]).Nodup := hl ▸ h.nodup i
  have hx : x ∉ l := fun hm => List.disjoint_of_nodup_append hnodup hm (by simp)
  have hmem : x ∈ chain i := by simp [hl]
  have hself : Function.update chain i (l ++ [x]) = chain := by
    rw [← hl, Function.update_eq_self]
  rw [← hself, ← Function.update_eq_self i start]
  refine h.replace i ?_ ?_ hnodup ?_ ?_ ?_ hv
  · exact Seg.setLast (by simpa [hl] using h.seg i) hx
  · simpa [hl] using h.valid i
  · intro j hj
    rw [← hl]
    exact h.disjoint i j hj.symm
  · intro j hj y hy
    refine Function.update_of_ne ?_ _ _
    rintro rfl
    exact h.disjoint j i hj hy hmem
  · intro y hy hyl hno
    have hyx : y ≠ x := fun e => hyl (by simp [e])
    rw [Function.update_of_ne hyx]
    refine h.unused y hy fun j => ?_
    rcases eq_or_ne j i with rfl | hj
    · rwa [hl]
    · exact hno j hj

/-- A free index becomes the only one of a chain that was empty. -/
theorem Chains.begin (h : Chains V free t chain start stop) (hl : chain i = []) (hy : V y)
    (hfree : t y = free) (hv : v ≠ free) :
    Chains V free (Function.update t y v) (Function.update chain i [y])
      (Function.update start i y) (Function.update stop i v) := by
  refine h.replace i (by simp) (by simpa using hy) (by simp) ?_ ?_ ?_ hv
  · intro j _
    simpa using h.not_mem hfree j
  · intro j _ z hz
    refine Function.update_of_ne ?_ _ _
    rintro rfl
    exact h.not_mem hfree j hz
  · intro z hz hzl hno
    rw [Function.update_of_ne (by simpa using hzl)]
    refine h.unused z hz fun j => ?_
    rcases eq_or_ne j i with rfl | hj
    · simp [hl]
    · exact hno j hj

/-- A free index is linked behind the last one of a chain. -/
theorem Chains.extend (h : Chains V free t chain start stop) (hl : chain i = l ++ [x])
    (hy : V y) (hfree : t y = free) (hv : v ≠ free) :
    Chains V free (Function.update (Function.update t y v) x y)
      (Function.update chain i (l ++ [x] ++ [y])) start (Function.update stop i v) := by
  have hnodup : (l ++ [x]).Nodup := hl ▸ h.nodup i
  have hx : x ∉ l := fun hm => List.disjoint_of_nodup_append hnodup hm (by simp)
  have hyl : y ∉ l ++ [x] := hl ▸ h.not_mem hfree i
  have hmem : x ∈ chain i := by simp [hl]
  rw [← Function.update_eq_self i start]
  refine h.replace i ?_ ?_ ?_ ?_ ?_ ?_ hv
  · exact Seg.snoc (by simpa [hl] using h.seg i) hx hyl
  · intro z hz
    rcases List.mem_append.mp hz with hz | hz
    · exact h.valid i z (hl ▸ hz)
    · obtain rfl : z = y := by simpa using hz
      exact hy
  · refine List.nodup_append'.mpr ⟨hnodup, by simp, ?_⟩
    simpa using hyl
  · intro j hj
    refine List.disjoint_append_left.mpr ⟨hl ▸ h.disjoint i j hj.symm, ?_⟩
    simpa using h.not_mem hfree j
  · intro j hj z hz
    have hzx : z ≠ x := fun e => h.disjoint j i hj hz (e ▸ hmem)
    have hzy : z ≠ y := fun e => h.not_mem hfree j (e ▸ hz)
    rw [Function.update_of_ne hzx, Function.update_of_ne hzy]
  · intro z hz hzl hno
    have hzx : z ≠ x := fun e => hzl (by simp [e])
    have hzy : z ≠ y := fun e => hzl (by simp [e])
    rw [Function.update_of_ne hzx, Function.update_of_ne hzy]
    refine h.unused z hz fun j => ?_
    rcases eq_or_ne j i with rfl | hj
    · rw [hl]
      exact fun hm => hzl (List.mem_append_left _ hm)
    · exact hno j hj

/-- A chain grows by as many indices as are then no longer free. -/
theorem Chains.card_free {start' stop' : ι → α} {s : Finset α} (hs : ∀ x, x ∈ s ↔ V x)
    (h : Chains V free t chain start stop) (hgrows : chain i <+: l)
    (h' : Chains V free t' (Function.update chain i l) start' stop') :
    (s.filter (t' · = free)).card + l.length
      = (s.filter (t · = free)).card + (chain i).length := by
  obtain ⟨m, rfl⟩ := hgrows
  have hnodup := h'.nodup i
  rw [Function.update_self] at hnodup
  have hmem : ∀ j x, x ∈ Function.update chain i (chain i ++ m) j ↔ x ∈ chain j ∨ j = i ∧ x ∈ m := by
    intro j x
    rcases eq_or_ne j i with rfl | hj
    · simp
    · simp [hj]
  -- an index that was free is so afterwards, or it is one of the new ones
  have hsplit : s.filter (t · = free) = s.filter (t' · = free) ∪ m.toFinset := by
    ext x
    simp only [Finset.mem_union, Finset.mem_filter, List.mem_toFinset, hs]
    constructor
    · rintro ⟨hx, hfree⟩
      by_cases hxm : x ∈ m
      · exact .inr hxm
      · refine .inl ⟨hx, h'.unused x hx fun j hj => ?_⟩
        rcases (hmem j x).mp hj with hold | ⟨-, hnew⟩
        · exact h.not_mem hfree j hold
        · exact hxm hnew
    · rintro (⟨hx, hfree⟩ | hxm)
      · exact ⟨hx, h.unused x hx fun j hj => h'.not_mem hfree j ((hmem j x).mpr (.inl hj))⟩
      · have hxi : x ∈ Function.update chain i (chain i ++ m) i := (hmem i x).mpr (.inr ⟨rfl, hxm⟩)
        refine ⟨h'.valid i x hxi, h.unused x (h'.valid i x hxi) fun j hj => ?_⟩
        rcases eq_or_ne j i with rfl | hne
        · exact List.disjoint_of_nodup_append hnodup hj hxm
        · exact h'.disjoint j i hne ((hmem j x).mpr (.inl hj)) hxi
  have hdisj : Disjoint (s.filter (t' · = free)) m.toFinset := by
    rw [Finset.disjoint_left]
    intro x hx hxm
    refine h'.not_mem (Finset.mem_filter.mp hx).2 i ((hmem i x).mpr (.inr ⟨rfl, ?_⟩))
    exact List.mem_toFinset.mp hxm
  rw [hsplit, Finset.card_union_of_disjoint hdisj,
    List.toFinset_card_of_nodup (List.nodup_append'.mp hnodup).2.1, List.length_append]
  omega

theorem Chains.release (h : Chains V free t chain start stop) (i : ι) (hv : v ≠ free) :
    Chains V free (fun x => if x ∈ chain i then free else t x) (Function.update chain i [])
      (Function.update start i v) (Function.update stop i v) := by
  refine h.replace i rfl (by simp) List.nodup_nil (by simp) ?_ ?_ hv
  · intro j hj x hx
    exact if_neg (h.disjoint j i hj hx)
  · intro x hx _ hno
    by_cases hxi : x ∈ chain i
    · exact if_pos hxi
    · rw [if_neg hxi]
      refine h.unused x hx fun j => ?_
      rcases eq_or_ne j i with rfl | hj
      · exact hxi
      · exact hno j hj

end LinkTable
