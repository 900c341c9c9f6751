/-
What the descriptor primitives do to the fields of other descriptors.

Descriptors are bytes of the arena, so a store to one may in principle change
another.  For a family `D` of descriptors that do not overlap (`Spread`) it
does not: on `D` every setter is a point update of one field
(`Spread.setnext` and its companions), and hence the two list edits of
the source have the effect on `next` and `prev` that `DoublyLinked` asks for:

* `Spread.linkAfter` — `mdesc_link_after`;
* `Spread.linkDetach` — `mdesc_link_detach`.

`EqOff P m m'` records the other half, that nothing outside the descriptors
is written.
-/
import Mipos.MallocModel

namespace Malloc

variable {b : Build}

/-- The address `x` is one of the bytes of the descriptor at `d`. -/
def InMdesc (b : Build) (d x : ℕ) : Prop := d ≤ x ∧ x < d + b.sizeofMdesc

/-- Two memories agree outside the addresses in `P`. -/
def EqOff (P : ℕ → Prop) (m m' : Memory) : Prop := ∀ x, ¬ P x → m' x = m x

theorem EqOff.refl (P : ℕ → Prop) (m : Memory) : EqOff P m m := fun _ _ => rfl

theorem EqOff.trans {P : ℕ → Prop} {m m' m'' : Memory} (h : EqOff P m m') (h' : EqOff P m' m'') :
    EqOff P m m'' := fun x hx => (h' x hx).trans (h x hx)

theorem EqOff.mono {P Q : ℕ → Prop} {m m' : Memory} (h : EqOff P m m') (hPQ : ∀ x, P x → Q x) :
    EqOff Q m m' := fun x hx => h x fun hp => hx (hPQ x hp)

theorem eqOff_setField (m : Memory) (d v : ℕ) {k : ℕ} (hk : k < 3) :
    EqOff (InMdesc b d) m (mdescSetField b m d k v) := by
  intro x hx
  have hkw : (k + 1) * b.wordBytes ≤ 3 * b.wordBytes := Nat.mul_le_mul_right _ hk
  unfold InMdesc Build.sizeofMdesc at hx
  rw [Nat.succ_mul] at hkw
  exact Memory.writeWord_of_not_mem m (by omega)

theorem eqOff_setnext (m : Memory) (d v : ℕ) : EqOff (InMdesc b d) m (mdescSetnext b m d v) :=
  eqOff_setField m d v (by decide)

theorem eqOff_setprev (m : Memory) (d v : ℕ) : EqOff (InMdesc b d) m (mdescSetprev b m d v) :=
  eqOff_setField m d v (by decide)

theorem eqOff_setsize (m : Memory) (d v : ℕ) : EqOff (InMdesc b d) m (mdescSetsize b m d v) :=
  eqOff_setField m d v (by decide)

theorem eqOff_isolate (m : Memory) (d : ℕ) : EqOff (InMdesc b d) m (mdescIsolate b m d) :=
  (eqOff_setnext m d 0).trans (eqOff_setprev _ d 0)

/-- The fields of a descriptor none of whose bytes changed. -/
theorem field_eq_of_eqOff {P : ℕ → Prop} {m m' : Memory} {e k : ℕ} (h : EqOff P m m')
    (he : ∀ x, InMdesc b e x → ¬ P x) (hk : k < 3) : mdescField b m' e k = mdescField b m e k := by
  have hkw : (k + 1) * b.wordBytes ≤ 3 * b.wordBytes := Nat.mul_le_mul_right _ hk
  rw [Nat.succ_mul] at hkw
  unfold InMdesc Build.sizeofMdesc at he
  exact Memory.readWord_congr fun x h1 h2 => h x (he x (by omega))

/-! ### A family of descriptors that do not overlap -/

/-- The descriptors of `D` lie in the address space, are not null and do not
overlap. -/
structure Spread (b : Build) (D : ℕ → Prop) : Prop where
  ne_zero : ∀ d, D d → d ≠ 0
  bound : ∀ d, D d → d + b.sizeofMdesc < b.modulus
  apart : ∀ d e, D d → D e → d = e ∨ d + b.sizeofMdesc ≤ e ∨ e + b.sizeofMdesc ≤ d

variable {D : ℕ → Prop} {m : Memory} {d e v : ℕ}

theorem Spread.lt_modulus (hD : Spread b D) (hd : D d) : d < b.modulus :=
  lt_of_le_of_lt (Nat.le_add_right _ _) (hD.bound d hd)

theorem modulus_pos (b : Build) : 0 < b.modulus := Nat.pow_pos (by decide)

theorem mdescField_lt (b : Build) (m : Memory) (d k : ℕ) : mdescField b m d k < b.modulus :=
  Memory.readWord_lt m _ _

/-- **On the family a setter is a point update** of one field of one descriptor. -/
theorem Spread.field_setField (hD : Spread b D) (hd : D d) (he : D e) (hv : v < b.modulus)
    {j k : ℕ} (hj : j < 3) (hk : k < 3) :
    mdescField b (mdescSetField b m d j v) e k
      = if e = d ∧ k = j then v else mdescField b m e k := by
  by_cases hsame : e = d ∧ k = j
  · obtain ⟨rfl, rfl⟩ := hsame
    rw [if_pos ⟨rfl, rfl⟩]
    exact Memory.readWord_writeWord_same m _ hv
  · rw [if_neg hsame]
    refine Memory.readWord_writeWord_apart m ?_
    have hjw : (j + 1) * b.wordBytes ≤ 3 * b.wordBytes := Nat.mul_le_mul_right _ hj
    have hkw : (k + 1) * b.wordBytes ≤ 3 * b.wordBytes := Nat.mul_le_mul_right _ hk
    rw [Nat.succ_mul] at hjw hkw
    rcases hD.apart e d he hd with rfl | hapart
    · -- two fields of one descriptor
      rcases Nat.lt_or_gt_of_ne fun h' => hsame ⟨rfl, h'⟩ with hlt | hlt
      · have := Nat.mul_le_mul_right b.wordBytes (Nat.succ_le_of_lt hlt)
        rw [Nat.succ_mul] at this
        omega
      · have := Nat.mul_le_mul_right b.wordBytes (Nat.succ_le_of_lt hlt)
        rw [Nat.succ_mul] at this
        omega
    · unfold Build.sizeofMdesc at hapart
      omega

theorem Spread.setnext (hD : Spread b D) (hd : D d) (he : D e) (hv : v < b.modulus) :
    mdescNext b (mdescSetnext b m d v) e = (if e = d then v else mdescNext b m e) ∧
      mdescPrev b (mdescSetnext b m d v) e = mdescPrev b m e ∧
      mdescGetsize b (mdescSetnext b m d v) e = mdescGetsize b m e := by
  have hset := fun {k : ℕ} (hk : k < 3) =>
    hD.field_setField (m := m) hd he hv (j := 0) (by decide) hk
  refine ⟨(hset (by decide)).trans (by simp [mdescNext]), (hset (by decide)).trans ?_,
    (hset (by decide)).trans ?_⟩
  · simp [mdescPrev]
  · simp [mdescGetsize]

theorem Spread.setprev (hD : Spread b D) (hd : D d) (he : D e) (hv : v < b.modulus) :
    mdescNext b (mdescSetprev b m d v) e = mdescNext b m e ∧
      mdescPrev b (mdescSetprev b m d v) e = (if e = d then v else mdescPrev b m e) ∧
      mdescGetsize b (mdescSetprev b m d v) e = mdescGetsize b m e := by
  have hset := fun {k : ℕ} (hk : k < 3) =>
    hD.field_setField (m := m) hd he hv (j := 1) (by decide) hk
  refine ⟨(hset (by decide)).trans (by simp [mdescNext]), (hset (by decide)).trans ?_,
    (hset (by decide)).trans ?_⟩
  · simp [mdescPrev]
  · simp [mdescGetsize]

theorem Spread.setsize (hD : Spread b D) (hd : D d) (he : D e) (hv : v < b.modulus) :
    mdescNext b (mdescSetsize b m d v) e = mdescNext b m e ∧
      mdescPrev b (mdescSetsize b m d v) e = mdescPrev b m e ∧
      mdescGetsize b (mdescSetsize b m d v) e = (if e = d then v else mdescGetsize b m e) := by
  have hset := fun {k : ℕ} (hk : k < 3) =>
    hD.field_setField (m := m) hd he hv (j := 2) (by decide) hk
  refine ⟨(hset (by decide)).trans (by simp [mdescNext]), (hset (by decide)).trans ?_,
    (hset (by decide)).trans ?_⟩
  · simp [mdescPrev]
  · simp [mdescGetsize]

/-! ### The list primitives on such a family -/

/-- A store through a pointer that may be null, guarded as in the source. -/
theorem Spread.setprev_guarded (hD : Spread b D) {p : ℕ} (hp : p ≠ 0 → D p) (he : D e)
    (hv : v < b.modulus) :
    mdescNext b (if p ≠ 0 then mdescSetprev b m p v else m) e = mdescNext b m e ∧
      mdescPrev b (if p ≠ 0 then mdescSetprev b m p v else m) e
        = (if e = p then v else mdescPrev b m e) ∧
      mdescGetsize b (if p ≠ 0 then mdescSetprev b m p v else m) e = mdescGetsize b m e := by
  by_cases hp0 : p = 0
  · subst hp0
    simp [hD.ne_zero e he]
  · rw [if_pos hp0]
    exact hD.setprev (hp hp0) he hv

theorem Spread.setnext_guarded (hD : Spread b D) {p : ℕ} (hp : p ≠ 0 → D p) (he : D e)
    (hv : v < b.modulus) :
    mdescNext b (if p ≠ 0 then mdescSetnext b m p v else m) e
        = (if e = p then v else mdescNext b m e) ∧
      mdescPrev b (if p ≠ 0 then mdescSetnext b m p v else m) e = mdescPrev b m e ∧
      mdescGetsize b (if p ≠ 0 then mdescSetnext b m p v else m) e = mdescGetsize b m e := by
  by_cases hp0 : p = 0
  · subst hp0
    simp [hD.ne_zero e he]
  · rw [if_pos hp0]
    exact hD.setnext (hp hp0) he hv

theorem Spread.isolate (hD : Spread b D) (hd : D d) (he : D e) :
    mdescNext b (mdescIsolate b m d) e = (if e = d then 0 else mdescNext b m e) ∧
      mdescPrev b (mdescIsolate b m d) e = (if e = d then 0 else mdescPrev b m e) ∧
      mdescGetsize b (mdescIsolate b m d) e = mdescGetsize b m e := by
  have h1 := hD.setnext (m := m) hd he (modulus_pos b)
  have h2 := hD.setprev (m := mdescSetnext b m d 0) hd he (modulus_pos b)
  rw [mdescIsolate]
  exact ⟨h2.1.trans h1.1, by rw [h2.2.1, h1.2.1], h2.2.2.trans h1.2.2⟩

/-- **`mdesc_link_after`**: `d` goes between `h` and what followed `h`. -/
theorem Spread.linkAfter (hD : Spread b D) {h : ℕ} (hd : D d) (hh : D h)
    (hnx : mdescNext b m h ≠ 0 → D (mdescNext b m h)) (hnd : mdescNext b m h ≠ d) (he : D e) :
    mdescNext b (mdescLinkAfter b m d h) e
        = (if e = h then d else if e = d then mdescNext b m h else mdescNext b m e) ∧
      mdescPrev b (mdescLinkAfter b m d h) e
        = (if e = d then h else if e = mdescNext b m h then d else mdescPrev b m e) ∧
      mdescGetsize b (mdescLinkAfter b m d h) e = mdescGetsize b m e := by
  have hhM := hD.lt_modulus hh
  have hdM := hD.lt_modulus hd
  have hnM : mdescNext b m h < b.modulus := mdescField_lt b m h 0
  set n := mdescNext b m h with hn
  set m₁ := mdescSetnext b m d n with hm₁
  set m₂ := mdescSetprev b m₁ d h with hm₂
  -- the guard reads `next d` after the first two stores
  have hn₂ : mdescNext b m₂ d = n := by
    rw [(hD.setprev hd hd hhM).1, (hD.setnext hd hd hnM).1, if_pos rfl]
  have heq : mdescLinkAfter b m d h
      = mdescSetnext b (if n ≠ 0 then mdescSetprev b m₂ n d else m₂) h d := by
    rw [mdescLinkAfter, ← hn, ← hm₁, ← hm₂, hn₂]
  have h1 := hD.setnext (m := m) hd he hnM
  have h2 := hD.setprev (m := m₁) hd he hhM
  have h3 := hD.setprev_guarded (m := m₂) hnx he hdM
  have h4 := hD.setnext (m := if n ≠ 0 then mdescSetprev b m₂ n d else m₂) hh he hdM
  rw [heq]
  refine ⟨?_, ?_, ?_⟩
  · rw [h4.1, h3.1, h2.1, h1.1]
  · rw [h4.2.1, h3.2.1, h2.2.1, h1.2.1]
    by_cases hed : e = d
    · have hen : e ≠ n := fun h' => hnd (h'.symm.trans hed)
      rw [if_neg hen, if_pos hed, if_pos hed]
    · rw [if_neg hed, if_neg hed]
  · rw [h4.2.2, h3.2.2, h2.2.2, h1.2.2]

/-- **`mdesc_link_detach`**: the neighbours of `d` are linked past it, and `d`
keeps its own links. -/
theorem Spread.linkDetach (hD : Spread b D) (hd : D d)
    (hnx : mdescNext b m d ≠ 0 → D (mdescNext b m d))
    (hpv : mdescPrev b m d ≠ 0 → D (mdescPrev b m d))
    (hnd : mdescNext b m d ≠ d) (he : D e) :
    mdescNext b (mdescLinkDetach b m d) e
        = (if e = mdescPrev b m d then mdescNext b m d else mdescNext b m e) ∧
      mdescPrev b (mdescLinkDetach b m d) e
        = (if e = mdescNext b m d then mdescPrev b m d else mdescPrev b m e) ∧
      mdescGetsize b (mdescLinkDetach b m d) e = mdescGetsize b m e := by
  have hpM : mdescPrev b m d < b.modulus := mdescField_lt b m d 1
  have hnM : mdescNext b m d < b.modulus := mdescField_lt b m d 0
  set n := mdescNext b m d with hn
  set p := mdescPrev b m d with hp
  set m₁ := (if n ≠ 0 then mdescSetprev b m n p else m) with hm₁
  have hgd := hD.setprev_guarded (m := m) hnx hd hpM
  have hge := hD.setprev_guarded (m := m) hnx he hpM
  rw [← hm₁] at hgd hge
  have hn₁ : mdescNext b m₁ d = n := hgd.1
  have hp₁ : mdescPrev b m₁ d = p := by
    rw [hgd.2.1, if_neg (Ne.symm hnd)]
  have heq : mdescLinkDetach b m d = (if p ≠ 0 then mdescSetnext b m₁ p n else m₁) := by
    rw [mdescLinkDetach, ← hn, ← hp, ← hm₁, hp₁, hn₁]
  have hg := hD.setnext_guarded (m := m₁) hpv he hnM
  rw [heq]
  refine ⟨?_, ?_, ?_⟩
  · rw [hg.1, hge.1]
  · rw [hg.2.1, hge.2.1]
  · rw [hg.2.2, hge.2.2]

/-! ### Only descriptors are written -/

/-- Some descriptor of `D` has the byte at `x`. -/
def InMdescs (b : Build) (D : ℕ → Prop) (x : ℕ) : Prop := ∃ d, D d ∧ InMdesc b d x

theorem eqOff_ite {P : ℕ → Prop} {c : Prop} [Decidable c] {m₀ m₁ : Memory}
    (h : c → EqOff P m₀ m₁) : EqOff P m₀ (if c then m₁ else m₀) := by
  by_cases hc : c
  · rw [if_pos hc]
    exact h hc
  · rw [if_neg hc]
    exact EqOff.refl P m₀

theorem EqOff.inMdescs {m m' : Memory} (h : EqOff (InMdesc b d) m m') (hd : D d) :
    EqOff (InMdescs b D) m m' :=
  h.mono fun _ hx => ⟨d, hd, hx⟩

theorem Spread.eqOff_linkAfter (hD : Spread b D) {h : ℕ} (hd : D d) (hh : D h)
    (hnx : mdescNext b m h ≠ 0 → D (mdescNext b m h)) :
    EqOff (InMdescs b D) m (mdescLinkAfter b m d h) := by
  set m₂ := mdescSetprev b (mdescSetnext b m d (mdescNext b m h)) d h with hm₂
  have hnM : mdescNext b m h < b.modulus := mdescField_lt b m h 0
  have hn₂ : mdescNext b m₂ d = mdescNext b m h := by
    rw [hm₂, (hD.setprev hd hd (hD.lt_modulus hh)).1, (hD.setnext hd hd hnM).1, if_pos rfl]
  have h₂ : EqOff (InMdescs b D) m m₂ :=
    ((eqOff_setnext m d _).inMdescs hd).trans ((eqOff_setprev _ d h).inMdescs hd)
  rw [mdescLinkAfter, ← hm₂, hn₂]
  refine (h₂.trans ?_).trans ((eqOff_setnext _ h d).inMdescs hh)
  exact eqOff_ite fun hn => (eqOff_setprev _ _ d).inMdescs (hnx hn)

theorem Spread.eqOff_linkDetach (hD : Spread b D) (hd : D d)
    (hnx : mdescNext b m d ≠ 0 → D (mdescNext b m d))
    (hpv : mdescPrev b m d ≠ 0 → D (mdescPrev b m d)) (hnd : mdescNext b m d ≠ d) :
    EqOff (InMdescs b D) m (mdescLinkDetach b m d) := by
  set m₁ := (if mdescNext b m d ≠ 0 then
    mdescSetprev b m (mdescNext b m d) (mdescPrev b m d) else m) with hm₁
  have hpM : mdescPrev b m d < b.modulus := mdescField_lt b m d 1
  have hp₁ : mdescPrev b m₁ d = mdescPrev b m d := by
    rw [hm₁, (hD.setprev_guarded hnx hd hpM).2.1, if_neg (Ne.symm hnd)]
  have h₁ : EqOff (InMdescs b D) m m₁ :=
    eqOff_ite fun hn => (eqOff_setprev _ _ _).inMdescs (hnx hn)
  rw [mdescLinkDetach, ← hm₁, hp₁]
  exact h₁.trans (eqOff_ite fun hp => (eqOff_setnext _ _ _).inMdescs (hpv hp))

end Malloc
