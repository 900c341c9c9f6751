/-
Enumerating the directory.

`mipos_tfs_ffirst` finds the first file whose name starts like its argument, with or without a
`*` behind it.  `mipos_tfs_fnext` goes on from there; it knows the handle only, not the name.

* `enumerate_eq` — the handles are those of all files from the first one found on;
* `enumerate_exact_iff` — they are those of the files that match the pattern just if every file
  from the first one on whose name starts like the pattern does;
* `fnext_ignores_pattern` — a directory with another file behind the one that matches.
-/
import Mipos.TfsLookup

namespace Tfs

variable {δ : Type} {fs fs' : Fs δ} {name : List UInt8}

/-! ### The code -/

/-- Returns the result and `*file_handle`, a 16-bit number; the loop takes the mutex if it has a
round. -/
def fnext (fs : Fs δ) (fileHandle : ℕ) : Option (Fs δ × Bool × ℕ) :=
  let first := (fileHandle + 1) % 2 ^ 16
  if first < maxNOfFiles then do
    let (fs, found) ← scan fs fun i => decide (first ≤ i) && (fs.ftbl.fileFsDesc i).erased == 0
    match found with
    | none => return (fs, false, first)
    | some i => return (fs, true, i)
  else some (fs, false, first)

/-- The handles from repeated calls of `mipos_tfs_fnext`, until it returns `FALSE`. -/
def enumerateNext : ℕ → Fs δ → ℕ → Option (List ℕ)
  | 0, _, _ => none
  | fuel + 1, fs, fileHandle => do
    let (fs, ok, fileHandle) ← fnext fs fileHandle
    if ok then
      let rest ← enumerateNext fuel fs fileHandle
      return fileHandle :: rest
    else return []

/-- The handles from `mipos_tfs_ffirst`, followed by `mipos_tfs_fnext`. -/
def enumerate (fs : Fs δ) (pattern : List UInt8) : Option (List ℕ) := do
  let (fs, found) ← ffirst fs (some pattern)
  match found with
  | none => return []
  | some i =>
    let rest ← enumerateNext (maxNOfFiles + 1) fs i
    return i :: rest

/-! ### What is enumerated -/

/-- The first element that `p` holds of begins the sublist of all of them. -/
theorem filter_eq_cons_of_find? {l : List ℕ} (hl : l.Pairwise (· < ·)) {p : ℕ → Bool} {i : ℕ}
    (hfind : l.find? p = some i) : l.filter p = i :: l.filter fun j => decide (i < j) && p j := by
  induction l with
  | nil => cases hfind
  | cons a l ih =>
    obtain ⟨hlt, hl⟩ := List.pairwise_cons.mp hl
    by_cases ha : p a = true
    · rw [List.find?_cons_of_pos ha] at hfind
      obtain rfl : a = i := Option.some.inj hfind
      have hrest : l.filter p = l.filter fun j => decide (a < j) && p j := by
        refine List.filter_congr fun j hj => ?_
        rw [decide_eq_true (hlt j hj), Bool.true_and]
      rw [List.filter_cons_of_pos ha, List.filter_cons_of_neg (by simp), hrest]
    · rw [List.find?_cons_of_neg ha] at hfind
      rw [List.filter_cons_of_neg ha, List.filter_cons_of_neg (by simp [ha]), ih hl hfind]

/-- From `k` on, the first number that `p` holds of and those behind it. -/
theorem filter_range_from {n k i : ℕ} {p : ℕ → Bool}
    (hfind : (List.range n).find? (fun j => decide (k ≤ j) && p j) = some i) :
    (List.range n).filter (fun j => decide (k ≤ j) && p j)
      = i :: (List.range n).filter fun j => decide (i < j) && p j := by
  have hfirst := List.find?_some hfind
  rw [Bool.and_eq_true, decide_eq_true_eq] at hfirst
  refine (filter_eq_cons_of_find? List.pairwise_lt_range hfind).trans ?_
  refine congrArg (List.cons i) (List.filter_congr fun j _ => ?_)
  by_cases hij : i < j
  · rw [decide_eq_true hij, decide_eq_true (hfirst.1.trans (Nat.le_of_lt hij)), Bool.true_and]
  · rw [decide_eq_false hij, Bool.false_and, Bool.false_and]

/-- The live files behind slot `k`. -/
def liveAfter (fs : Fs δ) (k : ℕ) : List ℕ :=
  (List.range maxNOfFiles).filter fun i => decide (k < i) && (fs.ftbl.fileFsDesc i).erased == 0

/-- **One call** goes to the next live file. -/
theorem fnext_eq (hl : fs.lock = false) {k : ℕ} (hk : k < maxNOfFiles) :
    (liveAfter fs k = [] ∧ fnext fs k = some (fs, false, k + 1)) ∨
    ∃ i, i < maxNOfFiles ∧ k < i ∧ liveAfter fs k = i :: liveAfter fs i ∧
      fnext fs k = some (fs, true, i) := by
  have hfirst : (k + 1) % 2 ^ 16 = k + 1 := Nat.mod_eq_of_lt (by rw [maxNOfFiles] at hk; omega)
  rw [fnext, hfirst]
  by_cases hlast : k + 1 < maxNOfFiles
  · rw [if_pos hlast, scan_eq hl]
    dsimp only [Option.bind_eq_bind, Option.bind_some]
    cases hfind : (List.range maxNOfFiles).find? fun i =>
        decide (k + 1 ≤ i) && (fs.ftbl.fileFsDesc i).erased == 0 with
    | none =>
      refine .inl ⟨?_, rfl⟩
      exact List.filter_eq_nil_iff.mpr (List.find?_eq_none.mp hfind)
    | some i =>
      have hmatch := List.find?_some hfind
      rw [Bool.and_eq_true, decide_eq_true_eq] at hmatch
      exact .inr ⟨i, List.mem_range.mp (List.mem_of_find?_eq_some hfind), hmatch.1,
        filter_range_from hfind, rfl⟩
  · rw [if_neg hlast]
    refine .inl ⟨List.filter_eq_nil_iff.mpr fun i hi => ?_, rfl⟩
    have := List.mem_range.mp hi
    simp
    omega

theorem enumerateNext_eq (hl : fs.lock = false) {k fuel : ℕ} (hk : k < maxNOfFiles)
    (hfuel : maxNOfFiles < k + fuel) : enumerateNext fuel fs k = some (liveAfter fs k) := by
  induction fuel generalizing k with
  | zero => omega
  | succ fuel ih =>
    rw [enumerateNext]
    rcases fnext_eq hl hk with ⟨hnil, hnext⟩ | ⟨i, hi, hki, hcons, hnext⟩
    · rw [hnext, hnil]
      rfl
    · rw [hnext, hcons]
      dsimp only [Option.bind_eq_bind, Option.bind_some]
      rw [if_pos rfl, ih hi (by omega)]
      rfl

/-! ### Patterns -/

/-- A name, of which a pattern is made. -/
structure ValidName (name : List UInt8) : Prop where
  short : name.length < maxFilenameLength
  chars : ∀ c ∈ name, isNameChar c = true

/-- A pattern: a name, with or without a `*` behind it. -/
def pattern (name : List UInt8) (star : Bool) : List UInt8 := if star then name ++ [42] else name

/-- The file name matches the pattern: it starts with the name, or it is the name. -/
def MatchesPattern (name : List UInt8) (star : Bool) (filename : List UInt8) : Prop :=
  if star then name <+: cstr filename else cstr filename = name

instance (name : List UInt8) (star : Bool) (filename : List UInt8) :
    Decidable (MatchesPattern name star filename) :=
  inferInstanceAs (Decidable (if star = true then name <+: cstr filename else cstr filename = name))

theorem isNameChar_ne {c : UInt8} (h : isNameChar c = true) : c ≠ 0 ∧ c ≠ 42 := by
  constructor
  · rintro rfl
    exact absurd h (by decide)
  · rintro rfl
    exact absurd h (by decide)

theorem MatchesPattern.starts {star : Bool} {filename : List UInt8}
    (h : MatchesPattern name star filename) : name <+: cstr filename := by
  rw [MatchesPattern] at h
  split at h
  · exact h
  · exact h ▸ List.prefix_rfl

/-- What `mipos_tfs_ffirst` compares of a pattern. -/
theorem ValidName.jollyPos_pattern (hname : ValidName name) (star : Bool) :
    jollyPos (pattern name star) = name.length ∧
      cstr (strncpy (pattern name star) name.length) = name := by
  have hchars : ∀ c ∈ pattern name star, c ≠ 0 := by
    intro c hc
    rw [pattern] at hc
    split at hc
    · rcases List.mem_append.mp hc with hc | hc
      · exact (isNameChar_ne (hname.chars c hc)).1
      · rw [List.mem_singleton.mp hc]
        decide
    · exact (isNameChar_ne (hname.chars c hc)).1
  have hnoStar : ∀ c ∈ name, decide (c ≠ 42) = true :=
    fun c hc => decide_eq_true (isNameChar_ne (hname.chars c hc)).2
  rw [jollyPos, cstr_strncpy, cstr_of_ne_zero hchars, pattern]
  cases star with
  | true =>
    rw [if_pos rfl, List.takeWhile_append_of_pos hnoStar, List.take_left]
    simp
  | false =>
    rw [if_neg (by decide), List.takeWhile_eq_self_iff.mpr hnoStar, List.take_length]
    exact ⟨rfl, rfl⟩

/-- **The first file found**, with or without a `*`. -/
theorem ffirst_pattern (hl : fs.lock = false) (hname : ValidName name) (star : Bool) :
    ffirst fs (some (pattern name star)) = some (fs, (List.range maxNOfFiles).find? fun i =>
      (fs.ftbl.fileFsDesc i).erased == 0 &&
        decide (name <+: cstr (fs.ftbl.fileFsDesc i).filename)) := by
  obtain ⟨hjolly, hcompared⟩ := hname.jollyPos_pattern star
  have hcheck : checkFileName (strncpy (pattern name star) name.length) = true := by
    rw [checkFileName, strlen, hcompared, decide_eq_true hname.short, Bool.true_and,
      List.all_eq_true]
    exact hname.chars
  have hmatch : ∀ fd : Fd, matchesName (pattern name star) fd
      = (fd.erased == 0 && decide (name <+: cstr fd.filename)) := by
    intro fd
    have hprefix : ((cstr fd.filename).take name.length = name) ↔ name <+: cstr fd.filename := by
      rw [List.prefix_iff_eq_take, eq_comm]
    rw [matchesName, hjolly, hcompared, cstr_strncpy, ← decide_eq_decide.mpr hprefix,
      beq_eq_decide (_ : List UInt8)]
  rw [ffirst, hjolly, if_neg (Nat.not_le.mpr hname.short), hcheck, if_neg (by decide), scan_eq hl]
  simp only [hmatch]

/-- The handles from the first file found on. -/
theorem enumerate_eq (hl : fs.lock = false) (hname : ValidName name) (star : Bool) :
    enumerate fs (pattern name star) = some (match (List.range maxNOfFiles).find? fun i =>
      (fs.ftbl.fileFsDesc i).erased == 0 && decide (name <+: cstr (fs.ftbl.fileFsDesc i).filename)
      with
      | none => []
      | some i => i :: liveAfter fs i) := by
  rw [enumerate, ffirst_pattern hl hname star]
  dsimp only [Option.bind_eq_bind, Option.bind_some]
  cases hfind : (List.range maxNOfFiles).find? fun i => (fs.ftbl.fileFsDesc i).erased == 0 &&
      decide (name <+: cstr (fs.ftbl.fileFsDesc i).filename) with
  | none => rfl
  | some i =>
    have hi : i < maxNOfFiles := List.mem_range.mp (List.mem_of_find?_eq_some hfind)
    dsimp only
    rw [enumerateNext_eq hl hi (by omega)]
    rfl

/-- A live file, and those behind it. -/
theorem cons_liveAfter {i : ℕ} (hlive : fs.ftbl.Live i) :
    (List.range maxNOfFiles).filter (fun j => decide (i ≤ j) && (fs.ftbl.fileFsDesc j).erased == 0)
      = i :: liveAfter fs i := by
  have hfind : (List.range maxNOfFiles).find? (fun j =>
      decide (i ≤ j) && (fs.ftbl.fileFsDesc j).erased == 0) = some i := by
    rw [List.find?_range_eq_some]
    refine ⟨by simp [hlive.2], List.mem_range.mpr hlive.1, fun j hj => ?_⟩
    rw [decide_eq_false (Nat.not_le.mpr hj)]
    rfl
  exact filter_range_from hfind

/-- The calls find exactly the live files that match the pattern, in the order of the slots. -/
def EnumeratesExactly (fs : Fs δ) (name : List UInt8) (star : Bool) : Prop :=
  enumerate fs (pattern name star) = some ((List.range maxNOfFiles).filter fun i =>
    decide (fs.ftbl.Live i ∧ MatchesPattern name star (fs.ftbl.fileFsDesc i).filename))

/-- **The enumeration is exact** just if no file that does not match follows, or is, one whose
name starts like the pattern. -/
theorem enumerate_exact_iff (hl : fs.lock = false) (hname : ValidName name) (star : Bool) :
    EnumeratesExactly fs name star ↔ ∀ i j, i ≤ j → fs.ftbl.Live i → fs.ftbl.Live j →
      name <+: cstr (fs.ftbl.fileFsDesc i).filename →
      MatchesPattern name star (fs.ftbl.fileFsDesc j).filename := by
  rw [EnumeratesExactly, enumerate_eq hl hname star]
  cases hfind : (List.range maxNOfFiles).find? fun i => (fs.ftbl.fileFsDesc i).erased == 0 &&
      decide (name <+: cstr (fs.ftbl.fileFsDesc i).filename) with
  | none =>
    have hnone : ∀ i, fs.ftbl.Live i → ¬name <+: cstr (fs.ftbl.fileFsDesc i).filename := by
      intro i hlive hstarts
      have hno := List.find?_eq_none.mp hfind i (List.mem_range.mpr hlive.1)
      simp [hlive.2, hstarts] at hno
    refine iff_of_true ?_ fun i _ _ hlive _ hstarts => absurd hstarts (hnone i hlive)
    refine congrArg some (List.filter_eq_nil_iff.mpr fun i _ => ?_).symm
    intro hmatch
    obtain ⟨hlive, hmatch⟩ := of_decide_eq_true hmatch
    exact hnone i hlive hmatch.starts
  | some first =>
    obtain ⟨hmatch, hmem, hbefore⟩ := List.find?_range_eq_some.mp hfind
    rw [Bool.and_eq_true, beq_iff_eq, decide_eq_true_eq] at hmatch
    have hlive : fs.ftbl.Live first := ⟨List.mem_range.mp hmem, hmatch.1⟩
    -- no live file before the first one starts like the pattern
    have hleast : ∀ i, fs.ftbl.Live i → name <+: cstr (fs.ftbl.fileFsDesc i).filename →
        first ≤ i := by
      intro i hi hstarts
      by_contra hlt
      have hno := hbefore i (Nat.not_le.mp hlt)
      simp [hi.2, hstarts] at hno
    dsimp only
    rw [Option.some_inj, ← cons_liveAfter hlive]
    constructor
    · intro heq i j hij hi hj hstarts
      have hin : j ∈ (List.range maxNOfFiles).filter fun j =>
          decide (first ≤ j) && (fs.ftbl.fileFsDesc j).erased == 0 := by
        refine List.mem_filter.mpr ⟨List.mem_range.mpr hj.1, ?_⟩
        simp [hj.2, (hleast i hi hstarts).trans hij]
      rw [heq, List.mem_filter, decide_eq_true_eq] at hin
      exact hin.2.2
    · intro hall
      refine List.filter_congr fun j hj => ?_
      rw [Bool.eq_iff_iff, Bool.and_eq_true, decide_eq_true_eq, beq_iff_eq, decide_eq_true_eq]
      constructor
      · rintro ⟨hle, hnot⟩
        have hj : fs.ftbl.Live j := ⟨List.mem_range.mp hj, hnot⟩
        exact ⟨hj, hall first j hle hlive hj hmatch.2⟩
      · rintro ⟨hj, hm⟩
        exact ⟨hleast j hj hm.starts, hj.2⟩

/-- The files `b` and `ab`, and the pattern `a*`. -/
theorem enumerate_exact_iff_last : ∃ fs : Fs (ℕ → UInt8),
    plainRun memPort (fun _ => 0) [.createFile [98], .createFile [97, 98]] = some fs ∧
    EnumeratesExactly fs [97] true := by
  have heval :
      ∃ fs, plainRun memPort (fun _ => 0) [.createFile [98], .createFile [97, 98]] = some fs ∧
      fs.lock = false ∧ ∀ i < maxNOfFiles, ∀ j < maxNOfFiles, i ≤ j ∧ fs.ftbl.Live i ∧
        fs.ftbl.Live j ∧ [97] <+: cstr (fs.ftbl.fileFsDesc i).filename →
        MatchesPattern [97] true (fs.ftbl.fileFsDesc j).filename := by
    decide +kernel
  obtain ⟨fs, hrun, hl, hall⟩ := heval
  refine ⟨fs, hrun, (enumerate_exact_iff hl ⟨by decide, by simp [isNameChar]⟩ true).mpr ?_⟩
  intro i j hij hi hj hstarts
  exact hall i hi.1 j hj.1 ⟨hij, hi, hj, hstarts⟩

/-- **Files that do not match.**  With the files `ab` and `b`, the pattern `a*` also enumerates
`b`; and the pattern `a`, without a `*`, both of them. -/
theorem fnext_ignores_pattern : ∃ fs : Fs (ℕ → UInt8),
    plainRun memPort (fun _ => 0) [.createFile [97, 98], .createFile [98]] = some fs ∧
    enumerate fs (pattern [97] true) = some [0, 1] ∧
    ¬MatchesPattern [97] true (fs.ftbl.fileFsDesc 1).filename ∧
    enumerate fs (pattern [97] false) = some [0, 1] ∧
    ¬MatchesPattern [97] false (fs.ftbl.fileFsDesc 0).filename := by
  decide +kernel

end Tfs
