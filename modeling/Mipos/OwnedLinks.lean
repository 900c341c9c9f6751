/-
Links with owners.

In a table of links every index in use belongs to an owner, and links do not leave
what their owner has (`Owned`): two links never meet, no link leads to a free
index, and none to an index at which an owner starts.  Unlike a family of chains
(`LinkTable`) this says nothing of indices in use that no chain passes, so that it is
kept by owners that lose some of theirs.

* `Owned.owner_of_reach` — everything that an owner reaches from its start is
  its own;
* `reach_iff_of_valid`, `Reach.update` — what is reached when links become marks;
* `Owned.take`, `Owned.relink`, `Owned.release`, `Owned.reroot` —
  the edits of one owner: it takes a free index, sets a link, gives back an index to
  which no link leads, or starts elsewhere;
* `Keeps` — what one owner may rely on when others edit the table, and
  `Owned.unlinked_of_keeps` for it.
-/
import Mathlib.Logic.Function.Basic
import Mathlib.Logic.Relation

namespace OwnedLinks

open Function Relation

variable {α β : Type*}

/-- No link leads to `d`. -/
def Unlinked (valid : β → Prop) (next : β → β) (d : β) : Prop := ∀ c, valid c → next c ≠ d

/-- `valid` are the indices; any other value of the table is a mark, `free` among
them.  `root a r` says that the owner `a` starts at `r`. -/
structure Owned (valid : β → Prop) (free : β) (next : β → β) (owner : β → Option α)
    (root : α → β → Prop) : Prop where
  mark : ¬valid free
  free_iff : ∀ c, valid c → (owner c = none ↔ next c = free)
  link : ∀ c, valid c → valid (next c) → owner (next c) = owner c
  inj : ∀ c d, valid c → valid d → valid (next c) → next c = next d → c = d
  root_owner : ∀ a r, root a r → valid r → owner r = some a
  root_unlinked : ∀ a r, root a r → valid r → Unlinked valid next r

/-- One link further, between indices. -/
def Follows (valid : β → Prop) (next : β → β) (c d : β) : Prop := valid c ∧ valid d ∧ next c = d

/-- `c` is reached from `r`. -/
def Reach (valid : β → Prop) (next : β → β) (r c : β) : Prop :=
  valid r ∧ ReflTransGen (Follows valid next) r c

variable {valid : β → Prop} {free : β} {next next' : β → β} {owner owner' : β → Option α}
  {root root' : α → β → Prop} {a : α} {c d r v : β}

/-- **What an owner reaches is its own.** -/
theorem Owned.owner_of_reach (h : Owned valid free next owner root) (hroot : root a r)
    (hreach : Reach valid next r c) : owner c = some a := by
  obtain ⟨hr, hpath⟩ := hreach
  induction hpath with
  | refl => exact h.root_owner a r hroot hr
  | tail _ hstep ih =>
    obtain ⟨hc, hd, rfl⟩ := hstep
    exact (h.link _ hc hd).trans ih

/-- No link leads to a free index. -/
theorem Owned.unlinked_of_free (h : Owned valid free next owner root) (hc : valid c)
    (hfree : owner c = none) : Unlinked valid next c := by
  rintro d hd rfl
  have hown := h.link d hd hc
  rw [hfree] at hown
  -- the link would be the mark of a free index
  have hmark := (h.free_iff d hd).mp hown.symm
  exact h.mark (hmark ▸ hc)

/-- A free index is nobody's start. -/
theorem Owned.not_root_of_free (h : Owned valid free next owner root) (hc : valid c)
    (hfree : owner c = none) (b : α) : ¬root b c := by
  intro hroot
  have hown := h.root_owner b c hroot hc
  rw [hfree] at hown
  cases hown

/-- The starts may change to indices of their owners to which no link leads. -/
theorem Owned.reroot (h : Owned valid free next owner root)
    (hroot : ∀ b r, root' b r → valid r → root b r ∨ owner r = some b ∧ Unlinked valid next r) :
    Owned valid free next owner root' where
  mark := h.mark
  free_iff := h.free_iff
  link := h.link
  inj := h.inj
  root_owner b r hr hv := (hroot b r hr hv).elim (h.root_owner b r · hv) And.left
  root_unlinked b r hr hv := (hroot b r hr hv).elim (h.root_unlinked b r · hv) And.right

/-- Only the links of the indices count. -/
theorem Owned.congr (h : Owned valid free next owner root)
    (hnext : ∀ c, valid c → next' c = next c) (hroot : ∀ b r, root' b r → valid r → root b r) :
    Owned valid free next' owner root' where
  mark := h.mark
  free_iff c hc := by
    rw [hnext c hc]
    exact h.free_iff c hc
  link c hc hv := by
    rw [hnext c hc] at hv ⊢
    exact h.link c hc hv
  inj c d hc hd hv heq := by
    rw [hnext c hc] at hv heq
    rw [hnext d hd] at heq
    exact h.inj c d hc hd hv heq
  root_owner b r hr hv := h.root_owner b r (hroot b r hr hv) hv
  root_unlinked b r hr hv c hc := by
    rw [hnext c hc]
    exact h.root_unlinked b r (hroot b r hr hv) hv c hc

/-! ### Indices that are marked while they are followed -/

section Marking

/-- An index reaches itself, and what its link reaches. -/
theorem reach_iff_of_valid (hr : valid r) (hnext : valid (next r)) :
    Reach valid next r c ↔ c = r ∨ Reach valid next (next r) c := by
  constructor
  · rintro ⟨-, hpath⟩
    rcases hpath.cases_head with rfl | ⟨d, ⟨-, hd, rfl⟩, hrest⟩
    · exact .inl rfl
    · exact .inr ⟨hd, hrest⟩
  · rintro (rfl | ⟨-, hpath⟩)
    · exact ⟨hr, .refl⟩
    · exact ⟨hr, .head ⟨hr, hnext, rfl⟩ hpath⟩

theorem reach_iff_of_mark (hr : valid r) (hnext : ¬valid (next r)) :
    Reach valid next r c ↔ c = r := by
  constructor
  · rintro ⟨-, hpath⟩
    rcases hpath.cases_head with rfl | ⟨d, ⟨-, hd, rfl⟩, -⟩
    · rfl
    · exact absurd hd hnext
  · rintro rfl
    exact ⟨hr, .refl⟩

variable [DecidableEq β]

/-- Where the link of `d` has become a mark, nothing new is reached. -/
theorem Reach.of_update (hv : ¬valid v) (h : Reach valid (Function.update next d v) r c) :
    Reach valid next r c := by
  obtain ⟨hr, hpath⟩ := h
  refine ⟨hr, ?_⟩
  induction hpath with
  | refl => exact .refl
  | @tail x y _ hstep ih =>
    obtain ⟨hx, hy, hlink⟩ := hstep
    have hne : x ≠ d := by
      rintro rfl
      rw [update_self] at hlink
      exact hv (hlink ▸ hy)
    rw [update_of_ne hne] at hlink
    exact ih.tail ⟨hx, hy, hlink⟩

/-- What the link of `d` has led to is still reached from there: a path that comes by `d` can
be cut short. -/
theorem Reach.update (hne : c ≠ d) (h : Reach valid next (next d) c) :
    Reach valid (Function.update next d v) (next d) c := by
  obtain ⟨hd, hpath⟩ := h
  refine ⟨hd, ?_⟩
  -- from anywhere on the path `c` is reached, or else from its beginning
  have hcut : ∀ x, ReflTransGen (Follows valid next) x c →
      ReflTransGen (Follows valid (Function.update next d v)) x c ∨
        ReflTransGen (Follows valid (Function.update next d v)) (next d) c := by
    intro x hx
    induction hx using ReflTransGen.head_induction_on with
    | refl => exact .inl .refl
    | @head x y hstep _ ih =>
      obtain ⟨hx, hy, rfl⟩ := hstep
      rcases eq_or_ne x d with rfl | hxd
      · exact .inr (ih.elim id id)
      · refine ih.imp_left fun hrest => .head ⟨hx, hy, ?_⟩ hrest
        rw [update_of_ne hxd]
  exact (hcut _ hpath).elim id id

end Marking

/-! ### Edits -/

section Edits

variable [DecidableEq β]

theorem Unlinked.update (h : Unlinked valid next d) (hv : v ≠ d) :
    Unlinked valid (Function.update next c v) d := by
  intro x hx
  rcases eq_or_ne x c with rfl | hxc
  · rwa [update_self]
  · rw [update_of_ne hxc]
    exact h x hx

/-- A free index is taken and gets a mark. -/
theorem Owned.take (h : Owned valid free next owner root) (hc : valid c)
    (hfree : owner c = none) (hv : ¬valid v) (hne : v ≠ free) (a : α) :
    Owned valid free (update next c v) (update owner c (some a)) root := by
  have hunlinked := h.unlinked_of_free hc hfree
  constructor
  case mark => exact h.mark
  case free_iff =>
    intro x hx
    rcases eq_or_ne x c with rfl | hxc
    · simp [hne]
    · simpa [hxc] using h.free_iff x hx
  case link =>
    intro x hx hnext
    rcases eq_or_ne x c with rfl | hxc
    · rw [update_self] at hnext
      exact absurd hnext hv
    · rw [update_of_ne hxc] at hnext ⊢
      rw [update_of_ne (hunlinked x hx), update_of_ne hxc]
      exact h.link x hx hnext
  case inj =>
    intro x y hx hy hnext heq
    have hxc : x ≠ c := by
      rintro rfl
      rw [update_self] at hnext
      exact hv hnext
    have hyc : y ≠ c := by
      rintro rfl
      rw [heq, update_self] at hnext
      exact hv hnext
    rw [update_of_ne hxc] at hnext heq
    rw [update_of_ne hyc] at heq
    exact h.inj x y hx hy hnext heq
  case root_owner =>
    intro b r hr hrv
    have hrc : r ≠ c := by
      rintro rfl
      exact h.not_root_of_free hc hfree b hr
    rw [update_of_ne hrc]
    exact h.root_owner b r hr hrv
  case root_unlinked =>
    intro b r hr hrv
    refine (h.root_unlinked b r hr hrv).update ?_
    rintro rfl
    exact hv hrv

/-- The link of an index is set to a mark or to an index of the same owner at which
nobody starts and to which no link leads yet. -/
theorem Owned.relink (h : Owned valid free next owner root)
    (hown : owner c = some a) (hne : v ≠ free)
    (hv : valid v → owner v = some a ∧ Unlinked valid next v ∧ ∀ b, ¬root b v) :
    Owned valid free (update next c v) owner root where
  mark := h.mark
  free_iff x hx := by
    rcases eq_or_ne x c with rfl | hxc
    · simp [hown, hne]
    · rw [update_of_ne hxc]
      exact h.free_iff x hx
  link x hx hnext := by
    rcases eq_or_ne x c with rfl | hxc
    · rw [update_self] at hnext ⊢
      rw [(hv hnext).1, hown]
    · rw [update_of_ne hxc] at hnext ⊢
      exact h.link x hx hnext
  inj x y hx hy hnext heq := by
    rcases eq_or_ne x c with rfl | hxc
    · rw [update_self] at hnext heq
      by_contra hxy
      rw [update_of_ne (Ne.symm hxy)] at heq
      exact (hv hnext).2.1 y hy heq.symm
    · rw [update_of_ne hxc] at hnext heq
      rcases eq_or_ne y c with rfl | hyc
      · rw [update_self] at heq
        exact absurd heq ((hv (heq ▸ hnext)).2.1 x hx)
      · rw [update_of_ne hyc] at heq
        exact h.inj x y hx hy hnext heq
  root_owner := h.root_owner
  root_unlinked b r hr hrv := by
    refine (h.root_unlinked b r hr hrv).update ?_
    rintro rfl
    exact (hv hrv).2.2 b hr

/-- An index to which no link leads and at which nobody starts becomes free. -/
theorem Owned.release (h : Owned valid free next owner root)
    (hunlinked : Unlinked valid next c) (hroot : ∀ b, ¬root b c) :
    Owned valid free (update next c free) (update owner c none) root where
  mark := h.mark
  free_iff x hx := by
    rcases eq_or_ne x c with rfl | hxc
    · simp
    · simpa [hxc] using h.free_iff x hx
  link x hx hnext := by
    rcases eq_or_ne x c with rfl | hxc
    · rw [update_self] at hnext
      exact absurd hnext h.mark
    · rw [update_of_ne hxc] at hnext ⊢
      rw [update_of_ne (hunlinked x hx), update_of_ne hxc]
      exact h.link x hx hnext
  inj x y hx hy hnext heq := by
    have hxc : x ≠ c := by
      rintro rfl
      rw [update_self] at hnext
      exact h.mark hnext
    have hyc : y ≠ c := by
      rintro rfl
      rw [heq, update_self] at hnext
      exact h.mark hnext
    rw [update_of_ne hxc] at hnext heq
    rw [update_of_ne hyc] at heq
    exact h.inj x y hx hy hnext heq
  root_owner b r hr hrv := by
    have hrc : r ≠ c := by
      rintro rfl
      exact hroot b hr
    rw [update_of_ne hrc]
    exact h.root_owner b r hr hrv
  root_unlinked b r hr hrv := by
    refine (h.root_unlinked b r hr hrv).update ?_
    rintro rfl
    exact h.mark hrv

/-- Once an index is given back, no link leads to the one it was linked to. -/
theorem Owned.unlinked_next (h : Owned valid free next owner root) (hc : valid c)
    (hd : valid (next c)) : Unlinked valid (update next c free) (next c) := by
  intro x hx
  rcases eq_or_ne x c with rfl | hxc
  · rw [update_self]
    intro heq
    exact h.mark (heq ▸ hd)
  · rw [update_of_ne hxc]
    intro heq
    exact hxc (h.inj c x hc hx hd heq.symm).symm

end Edits

/-! ### What an owner relies on -/

/-- The owner `a` keeps what it has, with its links, and what it has got in addition
is not linked. -/
structure Keeps (valid : β → Prop) (a : α) (next : β → β) (owner : β → Option α) (next' : β → β)
    (owner' : β → Option α) : Prop where
  kept : ∀ c, owner c = some a → owner' c = some a ∧ next' c = next c
  fresh : ∀ c, owner' c = some a → owner c = some a ∨ ¬valid (next' c)

theorem Owned.unlinked_of_keeps (h : Owned valid free next' owner' root')
    (hk : Keeps valid a next owner next' owner') (hd : valid d) (hown : owner d = some a)
    (hunlinked : Unlinked valid next d) : Unlinked valid next' d := by
  rintro c hc rfl
  -- a link to `d` is one of `a`, so an old one
  have hc' : owner' c = some a := (h.link c hc hd).symm.trans (hk.kept _ hown).1
  rcases hk.fresh c hc' with hold | hmark
  · exact hunlinked c hc (hk.kept c hold).2.symm
  · exact hmark hd

end OwnedLinks
