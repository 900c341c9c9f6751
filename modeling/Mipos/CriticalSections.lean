/-
Critical sections and the interrupt mask.

A scope declares a variable for the mask; `enter` saves the mask in the variable of the
innermost scope and masks the interrupts, `leave` puts the saved mask back.

* `advance` — the sections that are well formed: in every scope they alternate with what
  stands between them, and no scope stands inside one of its own name;
* `guards_of_saves` — where the mask is saved, in a variable of the scope or a static
  one, the interrupts are masked at every point inside a section and as before at every
  other, however deep the sections are nested;
* `guards_noSave_iff` — where it is not saved, they are so exactly if every section that
  is left is an outermost one and was entered with the interrupts enabled.
-/
import Mathlib.Data.List.Basic
import Mathlib.Logic.Function.Basic
import Mipos.ControlFlow

namespace CriticalSection

open Function

variable {ν : Type}

/-- What happens to the mask.  The scopes are named, for variables that are static. -/
inductive Event (ν : Type)
  | declare (name : ν)
  | discard
  | enter
  | leave
  | work
  deriving DecidableEq, Repr

/-! ### The processor -/

/-- Where a port saves the mask: in a variable of the scope, in a static variable of the
scope, or nowhere. -/
inductive Port
  | saveLocal
  | saveStatic
  | noSave
  deriving DecidableEq, Repr

/-- The mask, the open scopes with their variables, and the static variables.  `depth`
counts the sections that are open. -/
structure Cpu (ν : Type) where
  masked : Bool
  depth : ℕ
  frames : List (ν × Bool)
  statics : ν → Bool

/-- The mask that `leave` puts back. -/
def Cpu.saved (port : Port) (cpu : Cpu ν) : Bool :=
  match port, cpu.frames with
  | .saveLocal, (_, v) :: _ => v
  | .saveStatic, (n, _) :: _ => cpu.statics n
  | _, _ => false

variable [DecidableEq ν]

def Cpu.save (port : Port) (cpu : Cpu ν) : Cpu ν :=
  match port, cpu.frames with
  | .saveLocal, (n, _) :: rest => { cpu with frames := (n, cpu.masked) :: rest }
  | .saveStatic, (n, _) :: _ => { cpu with statics := update cpu.statics n cpu.masked }
  | _, _ => cpu

def Cpu.step (port : Port) (cpu : Cpu ν) : Event ν → Cpu ν
  | .declare n => { cpu with frames := (n, false) :: cpu.frames }
  | .discard => { cpu with frames := cpu.frames.tail }
  | .enter => { cpu.save port with masked := true, depth := cpu.depth + 1 }
  | .leave => { cpu with masked := cpu.saved port, depth := cpu.depth - 1 }
  | .work => cpu

/-- The processor after each event. -/
def Cpu.trace (port : Port) (cpu : Cpu ν) : List (Event ν) → List (Cpu ν)
  | [] => []
  | e :: es => cpu.step port e :: (cpu.step port e).trace port es

/-- Masked inside the sections, and as `m` says outside. -/
def Cpu.Guarded (m : Bool) (cpu : Cpu ν) : Prop := cpu.masked = (decide (0 < cpu.depth) || m)

instance (m : Bool) (cpu : Cpu ν) : Decidable (cpu.Guarded m) := inferInstanceAs (Decidable (_ = _))

/-- At every point of the path. -/
def Guards (port : Port) (m : Bool) (cpu : Cpu ν) (es : List (Event ν)) : Prop :=
  ∀ c ∈ cpu.trace port es, c.Guarded m

instance (port : Port) (m : Bool) (cpu : Cpu ν) (es : List (Event ν)) :
    Decidable (Guards port m cpu es) := inferInstanceAs (Decidable (∀ c ∈ _, _))

theorem guards_nil (port : Port) (m : Bool) (cpu : Cpu ν) : Guards port m cpu [] := nofun

theorem guards_cons (port : Port) (m : Bool) (cpu : Cpu ν) (e : Event ν) (es : List (Event ν)) :
    Guards port m cpu (e :: es) ↔
      (cpu.step port e).Guarded m ∧ Guards port m (cpu.step port e) es :=
  List.forall_mem_cons

/-! ### Well-formed sections -/

/-- The open scopes, the innermost first, and whether each is inside its section. -/
abbrev Scopes (ν : Type) := List (ν × Bool)

def advance (scopes : Scopes ν) : Event ν → Option (Scopes ν)
  | .declare n => if n ∈ scopes.map Prod.fst then none else some ((n, false) :: scopes)
  | .discard =>
    match scopes with
    | (_, false) :: rest => some rest
    | _ => none
  | .enter =>
    match scopes with
    | (n, false) :: rest => some ((n, true) :: rest)
    | _ => none
  | .leave =>
    match scopes with
    | (n, true) :: rest => some ((n, false) :: rest)
    | _ => none
  | .work => some scopes

/-- What a well-formed event does to the scopes. -/
inductive Advance : Scopes ν → Event ν → Scopes ν → Prop
  | declare (n : ν) {l : Scopes ν} (hn : n ∉ l.map Prod.fst) :
      Advance l (.declare n) ((n, false) :: l)
  | discard (n : ν) (l : Scopes ν) : Advance ((n, false) :: l) .discard l
  | enter (n : ν) (l : Scopes ν) : Advance ((n, false) :: l) .enter ((n, true) :: l)
  | leave (n : ν) (l : Scopes ν) : Advance ((n, true) :: l) .leave ((n, false) :: l)
  | work (l : Scopes ν) : Advance l .work l

theorem advance_cases {l l' : Scopes ν} {e : Event ν} (h : advance l e = some l') :
    Advance l e l' := by
  cases e with
  | declare n =>
    rw [advance] at h
    split at h
    · cases h
    · rename_i hn
      cases h
      exact .declare n hn
  | work =>
    cases h
    exact .work l
  | discard =>
    match l, h with
    | (n, false) :: rest, h =>
      cases h
      exact .discard n _
  | enter =>
    match l, h with
    | (n, false) :: rest, h =>
      cases h
      exact .enter n rest
  | leave =>
    match l, h with
    | (n, true) :: rest, h =>
      cases h
      exact .leave n rest

/-- The number of open sections. -/
def openSections (l : Scopes ν) : ℕ := l.countP Prod.snd

omit [DecidableEq ν] in
@[simp] theorem openSections_inside (n : ν) (l : Scopes ν) :
    openSections ((n, true) :: l) = openSections l + 1 := List.countP_cons_of_pos rfl

omit [DecidableEq ν] in
@[simp] theorem openSections_outside (n : ν) (l : Scopes ν) :
    openSections ((n, false) :: l) = openSections l := List.countP_cons_of_neg Bool.false_ne_true

/-! ### Ports that save the mask -/

variable {port : Port} {m : Bool}

/-- The scopes that are inside their section have saved the mask from before it. -/
def Saves (port : Port) (m : Bool) (statics : ν → Bool) : Scopes ν → List (ν × Bool) → Prop
  | [], [] => True
  | (n, i) :: l, (n', v) :: frames => n' = n ∧
    (i = true → (if port = .saveStatic then statics n else v) = (decide (0 < openSections l) || m)) ∧
    Saves port m statics l frames
  | _, _ => False

omit [DecidableEq ν] in
theorem Saves.congr {statics statics' : ν → Bool} {l : Scopes ν} {frames : List (ν × Bool)}
    (h : Saves port m statics l frames)
    (heq : ∀ n ∈ l.map Prod.fst, statics' n = statics n) : Saves port m statics' l frames := by
  induction l generalizing frames with
  | nil =>
    cases frames with
    | nil => trivial
    | cons f frames => exact h.elim
  | cons s l ih =>
    cases frames with
    | nil => exact h.elim
    | cons f frames =>
      obtain ⟨hn, hv, hrest⟩ := h
      have hs := heq s.1 (List.mem_cons_self ..)
      refine ⟨hn, fun hi => ?_, ih hrest fun n hn => heq n (List.mem_cons_of_mem _ hn)⟩
      rw [hs]
      exact hv hi

structure Holds (port : Port) (m : Bool) (l : Scopes ν) (cpu : Cpu ν) : Prop where
  depth : cpu.depth = openSections l
  guarded : cpu.Guarded m
  names : (l.map Prod.fst).Nodup
  saves : Saves port m cpu.statics l cpu.frames

omit [DecidableEq ν] in
/-- The innermost scope, from the processor's side. -/
theorem Saves.head {statics : ν → Bool} {n : ν} {i : Bool} {l : Scopes ν}
    {frames : List (ν × Bool)} (h : Saves port m statics ((n, i) :: l) frames) :
    ∃ v rest, frames = (n, v) :: rest ∧
      (i = true →
        (if port = .saveStatic then statics n else v) = (decide (0 < openSections l) || m)) ∧
      Saves port m statics l rest := by
  cases frames with
  | nil => exact h.elim
  | cons f rest =>
    obtain ⟨n', v⟩ := f
    obtain ⟨rfl, hv, hrest⟩ := h
    exact ⟨v, rest, rfl, hv, hrest⟩

theorem Holds.enter (hport : port ≠ .noSave) {n : ν} {l : Scopes ν} {cpu : Cpu ν}
    (h : Holds port m ((n, false) :: l) cpu) :
    Holds port m ((n, true) :: l) (cpu.step port .enter) := by
  obtain ⟨v, rest, hframes, -, hrest⟩ := h.saves.head
  obtain ⟨hn, hnames⟩ := List.nodup_cons.mp h.names
  have hdepth : cpu.depth = openSections l := h.depth.trans (openSections_outside n l)
  have hmasked : cpu.masked = (decide (0 < openSections l) || m) := hdepth ▸ h.guarded
  refine ⟨by rw [openSections_inside, ← hdepth]; rfl, by simp [Cpu.Guarded, Cpu.step], h.names, ?_⟩
  cases port with
  | saveLocal =>
    simp only [Cpu.step, Cpu.save, hframes]
    exact ⟨rfl, fun _ => hmasked, hrest⟩
  | saveStatic =>
    simp only [Cpu.step, Cpu.save, hframes]
    refine ⟨rfl, fun _ => ?_, hrest.congr fun k hk => ?_⟩
    · rw [if_pos rfl, update_self]
      exact hmasked
    · exact update_of_ne (fun heq : k = n => hn (heq ▸ hk)) ..
  | noSave => exact absurd rfl hport

theorem Holds.leave (hport : port ≠ .noSave) {n : ν} {l : Scopes ν} {cpu : Cpu ν}
    (h : Holds port m ((n, true) :: l) cpu) :
    Holds port m ((n, false) :: l) (cpu.step port .leave) := by
  obtain ⟨v, rest, hframes, hv, hrest⟩ := h.saves.head
  have hdepth : cpu.depth - 1 = openSections l := by
    rw [h.depth, openSections_inside, Nat.add_sub_cancel]
  have hsaved : cpu.saved port = (decide (0 < openSections l) || m) := by
    rw [← hv rfl]
    cases port with
    | saveLocal => simp [Cpu.saved, hframes]
    | saveStatic => simp [Cpu.saved, hframes]
    | noSave => exact absurd rfl hport
  refine ⟨by rw [openSections_outside, ← hdepth]; rfl, ?_, h.names, ?_⟩
  · rw [← hdepth] at hsaved
    exact hsaved
  · show Saves port m cpu.statics _ cpu.frames
    rw [hframes]
    exact ⟨rfl, nofun, hrest⟩

/-- One event of well-formed sections. -/
theorem Holds.step (hport : port ≠ .noSave) {l l' : Scopes ν} {e : Event ν} {cpu : Cpu ν}
    (h : Holds port m l cpu) (he : Advance l e l') : Holds port m l' (cpu.step port e) := by
  cases he with
  | declare n hn =>
    refine ⟨h.depth.trans (openSections_outside ..).symm, h.guarded, ?_, rfl, nofun, h.saves⟩
    exact List.nodup_cons.mpr ⟨hn, h.names⟩
  | discard n =>
    obtain ⟨v, rest, hframes, -, hrest⟩ := h.saves.head
    refine ⟨h.depth.trans (openSections_outside n l'), h.guarded, (List.nodup_cons.mp h.names).2, ?_⟩
    simp only [Cpu.step, hframes]
    exact hrest
  | enter n l => exact h.enter hport
  | leave n l => exact h.leave hport
  | work => exact h

/-- By induction on the events: what is called inside a section leaves its variable
alone. -/
theorem Holds.guards (hport : port ≠ .noSave) {es : List (Event ν)} {l l' : Scopes ν}
    {cpu : Cpu ν} (h : Holds port m l cpu) (hes : es.foldlM advance l = some l') :
    Guards port m cpu es := by
  induction es generalizing l cpu with
  | nil => exact guards_nil port m cpu
  | cons e es ih =>
    rw [List.foldlM_cons] at hes
    obtain ⟨k, hk, hes⟩ := Option.bind_eq_some_iff.mp hes
    have hstep := h.step hport (advance_cases hk)
    exact (guards_cons ..).mpr ⟨hstep.guarded, ih hstep hes⟩

theorem guards_of_saves (hport : port ≠ .noSave) {es : List (Event ν)} {l : Scopes ν}
    (hes : es.foldlM advance [] = some l) (m : Bool) (statics : ν → Bool) :
    Guards port m ⟨m, 0, [], statics⟩ es := by
  have hstart : Holds port m [] ⟨m, 0, [], statics⟩ := ⟨rfl, rfl, List.nodup_nil, trivial⟩
  exact hstart.guards hport hes

/-! ### A port that does not save the mask -/

/-- How many sections are open where one is left. -/
def closings (d : ℕ) : List (Event ν) → List ℕ
  | [] => []
  | .enter :: es => closings (d + 1) es
  | .leave :: es => d :: closings (d - 1) es
  | _ :: es => closings d es

/-- `leave` enables the interrupts: this is right for an outermost section that was
entered with the interrupts enabled. -/
theorem leave_guarded_iff {cpu : Cpu ν} (hpos : 0 < cpu.depth) :
    (cpu.step .noSave .leave).Guarded m ↔ cpu.depth = 1 ∧ m = false := by
  have hmask : (cpu.step .noSave .leave).Guarded m ↔ (decide (0 < cpu.depth - 1) || m) = false :=
    eq_comm
  rw [hmask, Bool.or_eq_false_iff, decide_eq_false_iff_not]
  exact and_congr_left fun _ => by omega

theorem guards_noSave_iff {es : List (Event ν)} {l l' : Scopes ν} {cpu : Cpu ν}
    (hes : es.foldlM advance l = some l') (hdepth : cpu.depth = openSections l)
    (hcpu : cpu.Guarded m) :
    Guards .noSave m cpu es ↔ ∀ d ∈ closings cpu.depth es, d = 1 ∧ m = false := by
  induction es generalizing l cpu with
  | nil => exact iff_of_true (guards_nil .noSave m cpu) nofun
  | cons e es ih =>
    rw [List.foldlM_cons] at hes
    obtain ⟨k, hk, hes⟩ := Option.bind_eq_some_iff.mp hes
    rw [guards_cons]
    cases advance_cases hk with
    | declare n hn =>
      have hrest : Guards .noSave m (cpu.step .noSave (.declare n)) es ↔ _ :=
        ih hes (hdepth.trans (openSections_outside n l).symm) hcpu
      exact (and_iff_right hcpu).trans hrest
    | discard n =>
      have hrest : Guards .noSave m (cpu.step .noSave .discard) es ↔ _ :=
        ih hes (hdepth.trans (openSections_outside n k)) hcpu
      exact (and_iff_right hcpu).trans hrest
    | work => exact (and_iff_right hcpu).trans (ih hes hdepth hcpu)
    | enter n rest =>
      have hguarded : (cpu.step .noSave .enter).Guarded m := by simp [Cpu.Guarded, Cpu.step]
      have hdepth' : (cpu.step .noSave .enter).depth = openSections ((n, true) :: rest) := by
        rw [openSections_inside, ← openSections_outside n, ← hdepth]
        rfl
      exact (and_iff_right hguarded).trans (ih hes hdepth' hguarded)
    | leave n rest =>
      rw [openSections_inside] at hdepth
      have hpos : 0 < cpu.depth := hdepth ▸ Nat.succ_pos _
      have hdepth' : (cpu.step .noSave .leave).depth = openSections ((n, false) :: rest) := by
        rw [openSections_outside, ← Nat.add_sub_cancel (n := openSections rest) (m := 1), ← hdepth]
        rfl
      have hiff := leave_guarded_iff (m := m) hpos
      rw [closings, List.forall_mem_cons, ← hiff]
      exact and_congr_right fun hguarded => ih hes hdepth' hguarded

end CriticalSection
