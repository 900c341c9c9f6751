/-
The list edits of the allocator on stored lists.

`Edit b D T m m'` is what every relinking step leaves behind: only descriptors
of `D` are written, no size changes, and only the descriptors in `T` get new
links.  A list away from `T` stays what it was (`Edit.isList`).  On top of it,
the two things the source does to a list:

* `unlink_spec` — take a cell out (`mdesc_link_detach`, after the head of the
  list has been moved on when the cell is the head);
* `push_spec` — put a cell in after the head, or make it the list.
-/
import Mipos.MallocInvariant

namespace Malloc

open DoublyLinked

/-- A relinking step: sizes stay, and links change only in `T`. -/
structure Edit (b : Build) (D T : ℕ → Prop) (m m' : Memory) : Prop where
  eqOff : EqOff (InMdescs b D) m m'
  size_eq : ∀ e, D e → mdescGetsize b m' e = mdescGetsize b m e
  next_eq : ∀ e, D e → ¬ T e → mdescNext b m' e = mdescNext b m e
  prev_eq : ∀ e, D e → ¬ T e → mdescPrev b m' e = mdescPrev b m e

variable {b : Build} {D T : ℕ → Prop} {m m' m'' : Memory} {d h : ℕ} {l l₁ l₂ : List ℕ}

theorem Edit.refl (m : Memory) : Edit b D T m m :=
  ⟨EqOff.refl _ m, fun _ _ => rfl, fun _ _ _ => rfl, fun _ _ _ => rfl⟩

theorem Edit.mono {T' : ℕ → Prop} (h : Edit b D T m m') (hT : ∀ e, T e → T' e) :
    Edit b D T' m m' where
  eqOff := h.eqOff
  size_eq := h.size_eq
  next_eq e he hn := h.next_eq e he fun ht => hn (hT e ht)
  prev_eq e he hn := h.prev_eq e he fun ht => hn (hT e ht)

/-- A list none of whose cells is relinked stays what it was. -/
theorem Edit.isList (he : Edit b D T m m') (hl : IsList (mdescNext b m) (mdescPrev b m) l)
    (hD : ∀ e ∈ l, D e) (hT : ∀ e ∈ l, ¬ T e) : IsList (mdescNext b m') (mdescPrev b m') l :=
  hl.congr (fun e hel => he.next_eq e (hD e hel) (hT e hel))
    (fun e hel => he.prev_eq e (hD e hel) (hT e hel))

theorem Edit.isolate (hD : Spread b D) (hd : D d) :
    Edit b D (· = d) m (mdescIsolate b m d) where
  eqOff := (eqOff_isolate m d).inMdescs hd
  size_eq e he := (hD.isolate hd he).2.2
  next_eq e he hT := by rw [(hD.isolate hd he).1, if_neg hT]
  prev_eq e he hT := by rw [(hD.isolate hd he).2.1, if_neg hT]

/-- **Taking a cell out of a stored list.**  When the cell is the head, the
source first clears `prev` of its successor; that is what detaching it writes
as well. -/
theorem unlink_spec (hD : Spread b D)
    (hl : IsList (mdescNext b m) (mdescPrev b m) (l₁ ++ d :: l₂))
    (hlD : ∀ e ∈ l₁ ++ d :: l₂, D e) (isHead : Prop) [Decidable isHead] :
    ∃ m₁, m₁ = (if isHead then
        (if mdescNext b m d ≠ 0 then mdescSetprev b m (mdescNext b m d) 0 else m) else m) ∧
      IsList (mdescNext b (mdescLinkDetach b m₁ d)) (mdescPrev b (mdescLinkDetach b m₁ d))
        (l₁ ++ l₂) ∧
      Edit b D (· ∈ l₁ ++ d :: l₂) m (mdescLinkDetach b m₁ d) := by
  have hd : D d := hlD d (by simp)
  have hd0 : d ≠ 0 := hD.ne_zero d hd
  have hnd : mdescNext b m d ≠ d := by
    intro e
    have hmem := hl.nx_mem (by rw [e]; exact hd0)
    rw [e] at hmem
    exact (List.nodup_cons.mp (List.nodup_append.mp hl.nodup).2.1).1 hmem
  have hnx : mdescNext b m d ≠ 0 → D (mdescNext b m d) := fun h0 =>
    hlD _ (by simp [hl.nx_mem h0])
  have hpv : mdescPrev b m d ≠ 0 → D (mdescPrev b m d) := fun h0 =>
    hlD _ (by simp [hl.pv_mem h0])
  set m₁ := (if isHead then
    (if mdescNext b m d ≠ 0 then mdescSetprev b m (mdescNext b m d) 0 else m) else m) with hm₁
  -- the step before detaching changes `prev` of the successor of a head only
  have hstep : ∀ e, D e → mdescNext b m₁ e = mdescNext b m e ∧
      (e ≠ mdescNext b m d → mdescPrev b m₁ e = mdescPrev b m e) ∧
      mdescGetsize b m₁ e = mdescGetsize b m e := by
    intro e he
    by_cases hh : isHead
    · rw [hm₁, if_pos hh]
      have hg := hD.setprev_guarded (m := m) hnx he (modulus_pos b)
      exact ⟨hg.1, fun hne => by rw [hg.2.1, if_neg hne], hg.2.2⟩
    · rw [hm₁, if_neg hh]
      exact ⟨rfl, fun _ => rfl, rfl⟩
  have hn₁ : mdescNext b m₁ d = mdescNext b m d := (hstep d hd).1
  have hp₁ : mdescPrev b m₁ d = mdescPrev b m d := (hstep d hd).2.1 (Ne.symm hnd)
  have hdetach : ∀ e, D e →
      mdescNext b (mdescLinkDetach b m₁ d) e
          = (if e = mdescPrev b m d then mdescNext b m d else mdescNext b m e) ∧
        mdescPrev b (mdescLinkDetach b m₁ d) e
          = (if e = mdescNext b m d then mdescPrev b m d else mdescPrev b m e) ∧
        mdescGetsize b (mdescLinkDetach b m₁ d) e = mdescGetsize b m e := by
    intro e he
    have hde := hD.linkDetach (m := m₁) hd (by rwa [hn₁]) (by rwa [hp₁]) (by rwa [hn₁]) he
    rw [hn₁, hp₁] at hde
    refine ⟨by rw [hde.1, (hstep e he).1], ?_, hde.2.2.trans (hstep e he).2.2⟩
    rw [hde.2.1]
    by_cases hen : e = mdescNext b m d
    · rw [if_pos hen, if_pos hen]
    · rw [if_neg hen, if_neg hen, (hstep e he).2.1 hen]
  refine ⟨m₁, rfl, ?_, ?_, ?_, ?_, ?_⟩
  · have hrest : ∀ z ∈ l₁ ++ l₂, D z := fun z hz =>
      hlD z (((List.sublist_cons_self d l₂).append_left l₁).subset hz)
    refine hl.unlink (fun z hz => ?_) (fun z hz => ?_)
    · exact (hdetach z (hrest z hz)).1
    · exact (hdetach z (hrest z hz)).2.1
  · have hhead₁ : EqOff (InMdescs b D) m m₁ := by
      rw [hm₁]
      exact eqOff_ite fun _ => eqOff_ite fun h0 => (eqOff_setprev _ _ _).inMdescs (hnx h0)
    exact hhead₁.trans
      (hD.eqOff_linkDetach hd (by rwa [hn₁]) (by rwa [hp₁]) (by rwa [hn₁]))
  · exact fun e he => (hdetach e he).2.2
  · intro e he hT
    have hne : e ≠ mdescPrev b m d := by
      rintro rfl
      exact hT (by simp [hl.pv_mem (hD.ne_zero _ he)])
    rw [(hdetach e he).1, if_neg hne]
  · intro e he hT
    have hne : e ≠ mdescNext b m d := by
      rintro rfl
      exact hT (by simp [hl.nx_mem (hD.ne_zero _ he)])
    rw [(hdetach e he).2.1, if_neg hne]

/-- **Putting a cell into a stored list**, after its head. -/
theorem push_spec (hD : Spread b D) (hl : IsList (mdescNext b m) (mdescPrev b m) (h :: l))
    (hlD : ∀ e ∈ h :: l, D e) (hd : D d) (hdl : d ∉ h :: l) :
    IsList (mdescNext b (mdescLinkAfter b m d h)) (mdescPrev b (mdescLinkAfter b m d h))
        (h :: d :: l) ∧
      Edit b D (· ∈ d :: h :: l) m (mdescLinkAfter b m d h) := by
  have hh : D h := hlD h (by simp)
  have hnx : mdescNext b m h ≠ 0 → D (mdescNext b m h) := fun h0 =>
    hlD _ (by simp [hl.head_nx_mem h0])
  have hnd : mdescNext b m h ≠ d := by
    intro e
    have hmem := hl.head_nx_mem (by rw [e]; exact hD.ne_zero d hd)
    exact hdl (by simp [← e, hmem])
  have hlink : ∀ {e : ℕ}, D e → _ := fun {e} he => hD.linkAfter (m := m) hd hh hnx hnd he
  have hmemD : ∀ z ∈ h :: d :: l, D z := by
    intro z hz
    simp only [List.mem_cons] at hz
    rcases hz with rfl | rfl | hz
    · exact hh
    · exact hd
    · exact hlD z (by simp [hz])
  refine ⟨hl.linkAfter (hD.ne_zero d hd) hdl (fun z hz => (hlink (hmemD z hz)).1)
    (fun z hz => (hlink (hmemD z hz)).2.1), ?_, ?_, ?_, ?_⟩
  · exact hD.eqOff_linkAfter hd hh hnx
  · exact fun e he => (hlink he).2.2
  · intro e he hT
    simp only [List.mem_cons, not_or] at hT
    rw [(hlink he).1, if_neg hT.2.1, if_neg hT.1]
  · intro e he hT
    simp only [List.mem_cons, not_or] at hT
    have hne : e ≠ mdescNext b m h := by
      rintro rfl
      exact hT.2.2 (hl.head_nx_mem (hD.ne_zero _ he))
    rw [(hlink he).2.1, if_neg hT.1, if_neg hne]

/-- **`mm_add2used`.** -/
theorem mmAdd2used_spec (hD : Spread b D) {mm : Mm}
    (hl : IsList (mdescNext b mm.mem) (mdescPrev b mm.mem) l) (hlD : ∀ e ∈ l, D e)
    (hhead : mm.usedMemory = l.headD 0) (hd : D d) (hdl : d ∉ l) :
    (mmAdd2used b mm d).arenaSize = mm.arenaSize ∧
      (mmAdd2used b mm d).freeMemory = mm.freeMemory ∧
      (mmAdd2used b mm d).usedMemory = (pushAfterHead d l).headD 0 ∧
      IsList (mdescNext b (mmAdd2used b mm d).mem) (mdescPrev b (mmAdd2used b mm d).mem)
        (pushAfterHead d l) ∧
      Edit b D (· ∈ d :: l) mm.mem (mmAdd2used b mm d).mem := by
  rcases l with _ | ⟨u, l⟩
  · have hiso := hD.isolate (m := mm.mem) hd hd
    have hu0 : mm.usedMemory = 0 := hhead
    rw [mmAdd2used, if_pos hu0]
    refine ⟨rfl, rfl, rfl, ?_, ?_⟩
    · refine isList_singleton (hD.ne_zero d hd) ?_ ?_
      · rw [hiso.1, if_pos rfl]
      · rw [hiso.2.1, if_pos rfl]
    · exact (Edit.isolate hD hd).mono fun e he => by simp [he]
  · have hu0 : mm.usedMemory ≠ 0 := by
      rw [hhead]
      exact hl.ne_zero u (by simp)
    obtain ⟨hlist, hedit⟩ := push_spec hD hl hlD hd hdl
    rw [mmAdd2used, if_neg hu0]
    have hu : mm.usedMemory = u := hhead
    rw [hu]
    exact ⟨rfl, rfl, rfl, hlist, hedit⟩

end Malloc
