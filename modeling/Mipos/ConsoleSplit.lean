/-
Splitting a command line (`mipos_console.c`).

`mipos_split_command` looks for the words of a line in place: `_word_boundary` overwrites the
blanks before a word with NULs and returns the place and the length of the word, and the loop
stores a pointer to it.  A word is so terminated only when the next one is looked for.  The loop
advances `cmd_line` by `pos`, which counts from the start of the line and not from `cmd_line`.

A character array is a list; reading or writing outside it is undefined (`none`).

* `Split.round_word`, `Split.round_blank` — one round of the loop.
* `Split.run_ends` — the loop ends, with what it finds (`Finds`) and what it leaves alone.
* `split_right_iff` — for which lines the arguments are the words.
* `split_bounded_iff` — how many words the lines may have for which `max_args` is enough.
-/
import Mathlib.Data.Int.Notation
import Mathlib.Data.List.TakeWhile
import Mathlib.Data.Nat.Notation

namespace Console

/-! ### The code -/

/-- `_word_sep` -/
def wordSep (ch : UInt8) : Bool := ch == 32 || ch == 9 || ch == 13 || ch == 10

/-- The first loop of `_word_boundary`, on the characters from `s` on: what it leaves there, and
`pos`, or `none` where the function returns -1. -/
def skipSeps (len : ℤ) (pos : ℕ) : List UInt8 → Option (List UInt8 × Option ℕ)
  | [] => none
  | ch :: s =>
    if wordSep ch then
      if ((pos + 1 : ℕ) : ℤ) ≥ len then some (0 :: s, none)
      else (skipSeps len (pos + 1) s).map fun r => (0 :: r.1, r.2)
    else some (ch :: s, some pos)

/-- The characters of a word. -/
def inWord (ch : UInt8) : Bool := ch != 0 && !wordSep ch

/-- The second loop of `_word_boundary`. -/
def wordLen : List UInt8 → Option ℕ
  | [] => none
  | ch :: s => if inWord ch then (wordLen s).map (· + 1) else some 0

/-- `_word_boundary(s, len, &word_len)`: the characters from `s` on, and the place and the length
of the word, unless it returns -1. -/
def wordBoundary (s : List UInt8) (len : ℤ) : Option (List UInt8 × Option (ℕ × ℕ)) :=
  (skipSeps len 0 s).bind fun r =>
    match r.2 with
    | none => some (r.1, none)
    | some pos => (wordLen (r.1.drop pos)).map fun n => (r.1, some (pos, n))

/-- The variables of `mipos_split_command`, with the array that `cmd_line` points into; pointers
are places in it. -/
structure Split where
  line : List UInt8
  cmdLine : ℕ
  cmdLineLen : ℤ
  pos : ℕ
  argv : List ℕ
  deriving DecidableEq, Repr

/-- One round of the loop, and whether it goes on. -/
def Split.round (s : Split) : Option (Split × Bool) :=
  match wordBoundary (s.line.drop s.cmdLine) s.cmdLineLen with
  | none => none
  | some (text, none) => some ({ s with line := s.line.take s.cmdLine ++ text }, false)
  | some (text, some (wordPos, wordLen)) =>
    let pos := s.pos + wordPos + wordLen
    some ({ line := s.line.take s.cmdLine ++ text
            cmdLine := s.cmdLine + pos
            cmdLineLen := s.cmdLineLen - pos
            pos := pos
            argv := s.argv ++ [s.cmdLine + wordPos] }, decide (s.cmdLineLen - pos > 0))

/-- At most `n` rounds, and whether the loop would go on. -/
def Split.run : ℕ → Split → Option (Split × Bool)
  | 0, s => some (s, true)
  | n + 1, s => s.round.bind fun r => if r.2 then Split.run n r.1 else some (r.1, false)

/-- `n` rounds of `mipos_split_command(cmd_line, cmd_line_len, argv, max_args)`, where `cmd_line`
is the start of the array `line`; `max_args` is not used. -/
def splitCommand (n : ℕ) (line : List UInt8) (cmdLineLen : ℤ) (_maxArgs : ℕ) :
    Option (Split × Bool) :=
  Split.run n { line, cmdLine := 0, cmdLineLen, pos := 0, argv := [] }

/-! ### Looking for a word -/

variable {text blanks word after tail pre post : List UInt8} {len : ℤ} {pos n : ℕ} {s s' : Split}

theorem skipSeps_word (hblanks : ∀ c ∈ blanks, wordSep c = true)
    (hlen : blanks = [] ∨ ((pos + blanks.length : ℕ) : ℤ) < len) {c : UInt8}
    (hstop : wordSep c = false) : skipSeps len pos (blanks ++ c :: tail)
      = some (List.replicate blanks.length 0 ++ c :: tail, some (pos + blanks.length)) := by
  induction blanks generalizing pos with
  | nil => simp [skipSeps, hstop]
  | cons b blanks ih =>
    have hb : wordSep b = true := hblanks b List.mem_cons_self
    have hlt : ((pos + 1 + blanks.length : ℕ) : ℤ) < len := by
      simpa [Nat.add_assoc, Nat.add_comm 1] using hlen
    rw [List.cons_append, skipSeps, if_pos hb, if_neg (by omega),
      ih (fun c hc => hblanks c (List.mem_cons_of_mem b hc)) (.inr hlt)]
    simp [List.replicate_succ, Nat.add_assoc, Nat.add_comm 1]

theorem skipSeps_blank (hblanks : ∀ c ∈ blanks, wordSep c = true) (hne : blanks ≠ [])
    (hlen : len = ((pos + blanks.length : ℕ) : ℤ)) : skipSeps len pos (blanks ++ tail)
      = some (List.replicate blanks.length 0 ++ tail, none) := by
  induction blanks generalizing pos with
  | nil => exact absurd rfl hne
  | cons b blanks ih =>
    have hb : wordSep b = true := hblanks b List.mem_cons_self
    rw [List.cons_append, skipSeps, if_pos hb]
    cases blanks with
    | nil => exact if_pos (by simp [hlen])
    | cons b' blanks =>
      have hrest : len = ((pos + 1 + (b' :: blanks).length : ℕ) : ℤ) := by
        simp only [List.length_cons] at hlen ⊢
        omega
      have hmore : ¬((pos + 1 : ℕ) : ℤ) ≥ len := by
        simp only [hrest, List.length_cons]
        omega
      rw [if_neg hmore, ih (fun c hc => hblanks c (List.mem_cons_of_mem b hc)) (List.cons_ne_nil _ _)
        hrest]
      simp [List.replicate_succ]

theorem wordLen_word (hword : ∀ c ∈ word, inWord c = true) {c : UInt8} (hend : inWord c = false) :
    wordLen (word ++ c :: tail) = some word.length := by
  induction word with
  | nil => simp [wordLen, hend]
  | cons a word ih =>
    have ha : inWord a = true := hword a List.mem_cons_self
    rw [List.cons_append, wordLen, if_pos ha, ih fun c hc => hword c (List.mem_cons_of_mem a hc)]
    rfl

/-- A text begins with blanks and a word, both as long as possible. -/
structure Begins (text blanks word after : List UInt8) : Prop where
  eq : text = blanks ++ (word ++ after)
  sep : ∀ c ∈ blanks, wordSep c = true
  inside : ∀ c ∈ word, inWord c = true
  start : ∀ c ∈ (word ++ after).head?, wordSep c = false
  stop : ∀ c ∈ after.head?, inWord c = false

/-- A text is blank, or begins with a word or a NUL, or is empty. -/
theorem exists_begins (text : List UInt8) : ((∀ c ∈ text, wordSep c = true) ∧ text ≠ []) ∨
    ∃ blanks word after, Begins text blanks word after ∧ (blanks = [] ∨ word ++ after ≠ []) := by
  by_cases hblank : text.dropWhile wordSep = [] ∧ text ≠ []
  · exact .inl ⟨List.dropWhile_eq_nil_iff.mp hblank.1, hblank.2⟩
  have hrest := List.takeWhile_append_dropWhile (p := inWord) (l := text.dropWhile wordSep)
  refine .inr ⟨text.takeWhile wordSep, (text.dropWhile wordSep).takeWhile inWord,
    (text.dropWhile wordSep).dropWhile inWord, ⟨?_, ?_, ?_, ?_, ?_⟩, ?_⟩
  · rw [hrest, List.takeWhile_append_dropWhile]
  · exact fun c hc => List.mem_takeWhile_imp hc
  · exact fun c hc => List.mem_takeWhile_imp hc
  · intro c hc
    rw [hrest] at hc
    have h := List.head?_dropWhile_not wordSep text
    rw [hc] at h
    exact h
  · intro c hc
    have h := List.head?_dropWhile_not inWord (text.dropWhile wordSep)
    rw [hc] at h
    exact h
  · rw [hrest]
    rcases eq_or_ne text [] with rfl | hne
    · exact .inl rfl
    · exact .inr fun hall => hblank ⟨hall, hne⟩

/-- A text that is not empty begins with something. -/
theorem Begins.append_ne_nil (h : Begins text blanks word after) (hne : text ≠ [])
    (hsome : blanks = [] ∨ word ++ after ≠ []) : word ++ after ≠ [] := by
  rcases hsome with rfl | hsome
  · exact h.eq ▸ hne
  · exact hsome

/-- The loop is at `text`, with `pre` behind it; a NUL follows. -/
structure Split.At (s : Split) (pre text post : List UInt8) : Prop where
  line : s.line = pre ++ (text ++ 0 :: post)
  place : pre.length = s.cmdLine
  len : s.cmdLineLen.toNat = text.length

theorem Split.At.drop (h : s.At pre text post) : s.line.drop s.cmdLine = text ++ 0 :: post := by
  rw [h.line, ← h.place, List.drop_left]

theorem Split.At.take (h : s.At pre text post) : s.line.take s.cmdLine = pre := by
  rw [h.line, ← h.place, List.take_left]

/-- **A round that finds nothing.** -/
theorem Split.round_blank (h : s.At pre text post) (hblanks : ∀ c ∈ text, wordSep c = true)
    (hne : text ≠ []) : s.round
      = some ({ s with line := pre ++ (List.replicate text.length 0 ++ 0 :: post) }, false) := by
  have hpos : 0 < text.length := List.length_pos_iff.mpr hne
  have hlen : s.cmdLineLen = ((0 + text.length : ℕ) : ℤ) := by
    have := h.len
    omega
  rw [Split.round, h.drop, h.take, wordBoundary, skipSeps_blank hblanks hne hlen]
  rfl

/-- A list with a NUL behind it has a head that fails `p`, if NUL does. -/
theorem append_nul_eq_cons {p : UInt8 → Bool} {l : List UInt8} (hnul : p 0 = false)
    (hl : ∀ c ∈ l.head?, p c = false) (post : List UInt8) :
    ∃ c tail, l ++ 0 :: post = c :: tail ∧ p c = false := by
  cases l with
  | nil => exact ⟨0, post, rfl, hnul⟩
  | cons c l => exact ⟨c, l ++ 0 :: post, rfl, hl c rfl⟩

theorem Begins.wordBoundary (h : Begins text blanks word after)
    (hlen : blanks = [] ∨ (blanks.length : ℤ) < len) (post : List UInt8) :
    wordBoundary (text ++ 0 :: post) len
      = some (List.replicate blanks.length 0 ++ (word ++ (after ++ 0 :: post)),
          some (blanks.length, word.length)) := by
  obtain ⟨c, tail, htail, hstart⟩ := append_nul_eq_cons (by decide) h.start post
  obtain ⟨c', tail', htail', hstop⟩ := append_nul_eq_cons (by decide) h.stop post
  rw [List.append_assoc] at htail
  rw [Console.wordBoundary, h.eq, List.append_assoc, List.append_assoc, htail,
    skipSeps_word h.sep (by simpa using hlen) hstart, ← htail, Option.bind_some]
  have hplace : (List.replicate blanks.length (0 : UInt8) ++ (word ++ (after ++ 0 :: post))).drop
      (0 + blanks.length) = word ++ (after ++ 0 :: post) := by simp
  dsimp only
  rw [hplace, htail', wordLen_word h.inside hstop, Nat.zero_add]
  rfl

/-- The state after a round that has found a word of length `word` behind `blanks` blanks. -/
def Split.found (s : Split) (line : List UInt8) (blanks word : ℕ) : Split where
  line := line
  cmdLine := s.cmdLine + (s.pos + blanks + word)
  cmdLineLen := s.cmdLineLen - (s.pos + blanks + word : ℕ)
  pos := s.pos + blanks + word
  argv := s.argv ++ [s.cmdLine + blanks]

/-- **A round that finds a word**, or a NUL.  The loop then goes on if more than `pos` characters
follow the word. -/
theorem Split.round_word (h : s.At pre text post) (hbegins : Begins text blanks word after)
    (hsome : blanks = [] ∨ word ++ after ≠ []) : s.round
      = some (s.found (pre ++ (List.replicate blanks.length 0 ++ (word ++ (after ++ 0 :: post))))
          blanks.length word.length, decide (s.pos < after.length)) := by
  have hall := h.len
  rw [hbegins.eq, List.length_append, List.length_append] at hall
  have hlen : blanks = [] ∨ (blanks.length : ℤ) < s.cmdLineLen := by
    refine hsome.imp_right fun hne => ?_
    have hpos : 0 < (word ++ after).length := List.length_pos_iff.mpr hne
    rw [List.length_append] at hpos
    omega
  have hgoes : s.cmdLineLen - (s.pos + blanks.length + word.length : ℕ) > 0 ↔
      s.pos < after.length := by omega
  rw [Split.round, h.drop, h.take, hbegins.wordBoundary hlen]
  simp only [Split.found, hgoes]

/-- Where the next round begins. -/
theorem Split.At.found (h : s.At pre text post) (hbegins : Begins text blanks word after)
    (hgoes : s.pos < after.length) :
    (s.found (pre ++ (List.replicate blanks.length 0 ++ (word ++ (after ++ 0 :: post))))
      blanks.length word.length).At
      (pre ++ (List.replicate blanks.length 0 ++ (word ++ after.take s.pos))) (after.drop s.pos)
      post := by
  have hall := h.len
  rw [hbegins.eq, List.length_append, List.length_append] at hall
  have hplace := h.place
  refine ⟨?_, ?_, ?_⟩
  · simp only [Split.found, List.append_assoc]
    rw [← List.append_assoc (after.take s.pos), List.take_append_drop]
  · simp [Split.found]
    omega
  · simp [Split.found]
    omega

/-! ### Words -/

/-- Spaces and tabs. -/
def isBlank (ch : UInt8) : Bool := ch == 32 || ch == 9

/-- The words of a line, with what separates them. -/
def wordsBy (sep : UInt8 → Bool) (line : List UInt8) : List (List UInt8) :=
  (line.splitOnP sep).filter (· ≠ [])

/-- The blank-separated words of a line. -/
def words (line : List UInt8) : List (List UInt8) := wordsBy isBlank line

/-- The string at a place of an array, if it ends there. -/
def stringAt (line : List UInt8) (p : ℕ) : Option (List UInt8) :=
  if 0 ∈ line.drop p then some ((line.drop p).takeWhile (· ≠ 0)) else none

/-- The call returns the number of words of the line, and the arguments are the words. -/
def SplitRight (line : List UInt8) (maxArgs : ℕ) : Prop :=
  ∃ n s, splitCommand n (line ++ [0]) line.length maxArgs = some (s, false) ∧
    s.argv.map (stringAt s.line) = (words line).map some

/-- What can be typed: no NUL and no end of line. -/
def Typed (line : List UInt8) : Prop := ∀ c ∈ line, c ≠ 0 ∧ c ≠ 13 ∧ c ≠ 10

theorem Typed.wordSep_eq {line : List UInt8} (h : Typed line) {c : UInt8} (hc : c ∈ line) :
    wordSep c = isBlank c ∧ inWord c = !isBlank c := by
  obtain ⟨hnul, hcr, hlf⟩ := h c hc
  have hsep : wordSep c = isBlank c := by
    rw [wordSep, beq_false_of_ne hcr, beq_false_of_ne hlf, Bool.or_false, Bool.or_false, isBlank]
  refine ⟨hsep, ?_⟩
  rw [inWord, hsep, bne_iff_ne.mpr hnul, Bool.true_and]

section WordsBy

variable {sep : UInt8 → Bool}

theorem wordsBy_blanks (hblanks : ∀ c ∈ blanks, sep c = true) (text : List UInt8) :
    wordsBy sep (blanks ++ text) = wordsBy sep text := by
  induction blanks with
  | nil => rfl
  | cons b blanks ih =>
    have hb : sep b = true := hblanks b List.mem_cons_self
    rw [← ih fun c hc => hblanks c (List.mem_cons_of_mem b hc), wordsBy, wordsBy, List.cons_append,
      ← List.nil_append (b :: (blanks ++ text)),
      List.splitOnP_append_cons_of_forall_mem (by simp) b hb]
    simp

theorem wordsBy_word (hword : ∀ c ∈ word, sep c = false) (hne : word ≠ [])
    (hafter : ∀ c ∈ after.head?, sep c = true) :
    wordsBy sep (word ++ after) = word :: wordsBy sep after := by
  cases after with
  | nil =>
    rw [List.append_nil, wordsBy, List.splitOnP_eq_singleton hword]
    simp [hne, wordsBy]
  | cons c after =>
    have hc : sep c = true := hafter c rfl
    have hblank : ∀ b ∈ [c], sep b = true := fun b hb => List.mem_singleton.mp hb ▸ hc
    rw [← List.singleton_append, wordsBy_blanks hblank, wordsBy, List.singleton_append,
      List.splitOnP_append_cons_of_forall_mem hword c hc,
      List.filter_cons_of_pos (by simpa using hne)]
    rfl

/-- A text has no more words than a longer one that ends with it. -/
theorem length_wordsBy_drop (sep : UInt8 → Bool) (p : ℕ) (text : List UInt8) :
    (wordsBy sep (text.drop p)).length ≤ (wordsBy sep text).length := by
  induction p generalizing text with
  | zero => exact Nat.le_refl _
  | succ p ih =>
    cases text with
    | nil => exact Nat.le_refl _
    | cons c text =>
      refine (ih text).trans ?_
      rw [wordsBy, wordsBy, List.splitOnP_cons_eq_if_modifyHead]
      split
      · simp
      · -- the first word gets longer
        obtain ⟨first, rest, hsplit⟩ := List.exists_cons_of_ne_nil (List.splitOnP_ne_nil sep text)
        rw [hsplit, List.modifyHead_cons, List.filter_cons, List.filter_cons]
        split <;> simp

end WordsBy

/-- **The words of a line** by what a round of the loop finds in it. -/
theorem Begins.words_eq (h : Begins text blanks word after) (htyped : Typed text)
    (hne : word ++ after ≠ []) : word ≠ [] ∧ (∀ c ∈ after.head?, isBlank c = true) ∧
      words text = word :: words after := by
  have hmem : ∀ c ∈ word ++ after, c ∈ text := fun c hc => h.eq ▸ List.mem_append_right blanks hc
  have hafter : ∀ c ∈ after.head?, isBlank c = true := by
    intro c hc
    have hin : c ∈ text := hmem c (List.mem_append_right word (List.mem_of_mem_head? hc))
    have hstop := h.stop c hc
    rw [(htyped.wordSep_eq hin).2] at hstop
    simpa using hstop
  have hword : word ≠ [] := by
    rintro rfl
    obtain ⟨c, rest, rfl⟩ := List.exists_cons_of_ne_nil hne
    have hsep : wordSep c = false := h.start c rfl
    rw [(htyped.wordSep_eq (hmem c List.mem_cons_self)).1, hafter c rfl] at hsep
    cases hsep
  refine ⟨hword, hafter, ?_⟩
  have hblanks : ∀ c ∈ blanks, isBlank c = true := by
    intro c hc
    have hin : c ∈ text := h.eq ▸ List.mem_append_left _ hc
    rw [← (htyped.wordSep_eq hin).1]
    exact h.sep c hc
  have hinside : ∀ c ∈ word, isBlank c = false := by
    intro c hc
    have hin := h.inside c hc
    rw [(htyped.wordSep_eq (hmem c (List.mem_append_left after hc))).2] at hin
    simpa using hin
  rw [h.eq, words, wordsBy_blanks hblanks, wordsBy_word hinside hword hafter, words]

/-- A blank text has no words. -/
theorem words_of_blank (hblanks : ∀ c ∈ text, isBlank c = true) : words text = [] := by
  have hwords := wordsBy_blanks hblanks []
  rw [List.append_nil] at hwords
  rw [words, hwords]
  rfl

/-- The words and the NULs of a text. -/
def marks (text : List UInt8) : ℕ :=
  (wordsBy (fun ch => !inWord ch) text).length + text.count 0

/-- The words and the NULs of a line.  Where it does not begin with a word, what ends its blanks
is one more: the terminator of the empty line, or a NUL, which is then found twice. -/
def wordCount (line : List UInt8) : ℕ :=
  marks line + if line = [] ∨ (line.dropWhile wordSep).head? = some 0 then 1 else 0

theorem marks_drop_le (p : ℕ) (text : List UInt8) : marks (text.drop p) ≤ marks text :=
  Nat.add_le_add (length_wordsBy_drop _ p text) ((List.drop_sublist p text).count_le 0)

theorem marks_blanks (hblanks : ∀ c ∈ blanks, wordSep c = true) (text : List UInt8) :
    marks (blanks ++ text) = marks text := by
  have hzero : blanks.count 0 = 0 := List.count_eq_zero.mpr fun h => by cases hblanks 0 h
  rw [marks, marks, wordsBy_blanks (fun c hc => by simp [inWord, hblanks c hc]), List.count_append,
    hzero, Nat.zero_add]

theorem marks_word (hword : ∀ c ∈ word, inWord c = true) (hne : word ≠ [])
    (hafter : ∀ c ∈ after.head?, inWord c = false) : marks (word ++ after) = marks after + 1 := by
  have hzero : word.count 0 = 0 := List.count_eq_zero.mpr fun h => by cases hword 0 h
  rw [marks, marks, wordsBy_word (fun c hc => by simp [hword c hc]) hne
    (fun c hc => by simp [hafter c hc]), List.count_append, hzero, List.length_cons]
  omega

theorem marks_nul (text : List UInt8) : marks (0 :: text) = marks text + 1 := by
  have hnul : ∀ c ∈ [(0 : UInt8)], (!inWord c) = true := by simp [inWord]
  have hwords := wordsBy_blanks hnul text
  rw [List.singleton_append] at hwords
  rw [marks, marks, hwords, List.count_cons_self]
  omega

/-- What a round finds: a word, or a NUL. -/
theorem Begins.marks_cases (h : Begins text blanks word after) (hne : word ++ after ≠ []) :
    (word ≠ [] ∧ marks text = marks after + 1) ∨
      ∃ rest, word = [] ∧ after = 0 :: rest ∧ marks text = marks rest + 1 := by
  have htext : marks text = marks (word ++ after) := by rw [h.eq, marks_blanks h.sep]
  by_cases hword : word = []
  · right
    subst hword
    obtain ⟨c, rest, rfl⟩ := List.exists_cons_of_ne_nil hne
    have hsep : wordSep c = false := h.start c rfl
    have hstop : inWord c = false := h.stop c rfl
    obtain rfl : c = 0 := by simpa [inWord, hsep] using hstop
    exact ⟨rest, rfl, rfl, htext.trans (marks_nul rest)⟩
  · exact .inl ⟨hword, htext.trans (marks_word h.inside hword h.stop)⟩

/-! ### The whole loop -/

theorem Begins.length (h : Begins text blanks word after) :
    text.length = blanks.length + word.length + after.length := by
  rw [h.eq, List.length_append, List.length_append, Nat.add_assoc]

/-- A text that begins with neither a blank nor a word is empty or begins with a NUL. -/
theorem Begins.pos_of_head (h : Begins text blanks word after) (hne : text ≠ [])
    (hhead : text.head? ≠ some 0) : 0 < blanks.length + word.length := by
  by_contra hzero
  obtain rfl : blanks = [] := List.length_eq_zero_iff.mp (by omega)
  obtain rfl : word = [] := List.length_eq_zero_iff.mp (by omega)
  obtain ⟨c, rest, rfl⟩ := List.exists_cons_of_ne_nil hne
  obtain rfl : c :: rest = after := h.eq
  have hsep : wordSep c = false := h.start c rfl
  have hstop : inWord c = false := h.stop c rfl
  rw [inWord, hsep] at hstop
  have hc : c = 0 := by simpa using hstop
  exact hhead (by rw [hc]; rfl)

theorem Split.run_true {s₁ : Split} (hround : s.round = some (s₁, true)) (n : ℕ) :
    s.run (n + 1) = s₁.run n := by
  rw [Split.run, hround]
  rfl

theorem Split.run_false {s₁ : Split} (hround : s.round = some (s₁, false)) (n : ℕ) :
    s.run (n + 1) = some (s₁, false) := by
  rw [Split.run, hround]
  rfl

/-- Behind the first word every round goes past what it has found. -/
theorem Begins.marks_drop_lt (h : Begins text blanks word after) (hne : word ++ after ≠ [])
    (hpos : 0 < pos) : marks (after.drop pos) < marks text := by
  obtain ⟨p, rfl⟩ : ∃ p, pos = p + 1 := ⟨pos - 1, by omega⟩
  obtain ⟨-, hmarks⟩ | ⟨rest, -, rfl, hmarks⟩ := h.marks_cases hne
  · have hdrop := marks_drop_le (p + 1) after
    omega
  · have hdrop := marks_drop_le p rest
    rw [List.drop_succ_cons]
    omega

/-- **What the loop finds** at a text that begins at `place`, with `pos` characters of the line
behind it: the places of the arguments. -/
inductive Finds : ℕ → ℕ → List UInt8 → List ℕ → Prop
  | blank {place pos : ℕ} {text : List UInt8} :
    (∀ c ∈ text, wordSep c = true) → text ≠ [] → Finds place pos text []
  | last {place pos : ℕ} {text blanks word after : List UInt8} : Begins text blanks word after →
    (blanks = [] ∨ word ++ after ≠ []) → after.length ≤ pos →
    Finds place pos text [place + blanks.length]
  | more {place pos : ℕ} {text blanks word after : List UInt8} {args : List ℕ} :
    Begins text blanks word after → pos < after.length →
    Finds (place + (pos + blanks.length + word.length)) (pos + blanks.length + word.length)
      (after.drop pos) args →
    Finds place pos text ((place + blanks.length) :: args)

/-- **The whole loop** ends, and changes nothing but the text. -/
theorem Split.run_ends (h : s.At pre text post) (hlen : text.length < n)
    (hgets : 0 < s.pos ∨ text.head? ≠ some 0) : ∃ s' text' args, s.run n = some (s', false) ∧
      s'.line = pre ++ (text' ++ 0 :: post) ∧ text'.length = text.length ∧
      s'.argv = s.argv ++ args ∧ Finds s.cmdLine s.pos text args := by
  induction n generalizing s pre text with
  | zero => omega
  | succ n ih =>
    rcases exists_begins text with ⟨hblanks, hne⟩ | ⟨blanks, word, after, hbegins, hsome⟩
    · exact ⟨_, List.replicate text.length 0, [],
        Split.run_false (Split.round_blank h hblanks hne) n, rfl, List.length_replicate,
        (List.append_nil _).symm, .blank hblanks hne⟩
    · have hround := Split.round_word h hbegins hsome
      have hsum := hbegins.length
      by_cases hgoes : s.pos < after.length
      · rw [decide_eq_true hgoes] at hround
        have hmoved : 0 < s.pos + blanks.length + word.length := by
          rcases hgets with hpos | hhead
          · omega
          · have := hbegins.pos_of_head (List.ne_nil_of_length_pos (by omega)) hhead
            omega
        obtain ⟨s', text', args, hrun, hline, hsame, hargv, hfinds⟩ :=
          ih (h.found hbegins hgoes) (by rw [List.length_drop]; omega) (.inl hmoved)
        refine ⟨s', List.replicate blanks.length 0 ++ (word ++ (after.take s.pos ++ text')),
          (s.cmdLine + blanks.length) :: args, (Split.run_true hround n).trans hrun, ?_, ?_, ?_,
          .more hbegins hgoes hfinds⟩
        · rw [hline]
          simp only [List.append_assoc]
        · simp [hsame, hsum]
          omega
        · rw [hargv]
          simp [Split.found]
      · rw [decide_eq_false hgoes] at hround
        refine ⟨_, List.replicate blanks.length 0 ++ (word ++ after), _,
          Split.run_false hround n, ?_, ?_, rfl, .last hbegins hsome (Nat.le_of_not_lt hgoes)⟩
        · simp [Split.found]
        · simp [hsum]
          omega

/-- The arguments are in the text. -/
theorem Finds.le_length {place : ℕ} {args : List ℕ} (h : Finds place pos text args) :
    ∀ p ∈ args, p ≤ place + text.length := by
  induction h with
  | blank => nofun
  | last hbegins =>
    have hsum := hbegins.length
    intro p hp
    rw [List.mem_singleton.mp hp]
    omega
  | more hbegins hgoes _ ih =>
    have hsum := hbegins.length
    intro p hp
    rcases List.mem_cons.mp hp with rfl | hp
    · omega
    · have hle := ih p hp
      rw [List.length_drop] at hle
      omega

/-- A loop that has ended takes no more rounds. -/
theorem Split.run_of_le {m : ℕ} (hrun : s.run n = some (s', false)) (hle : n ≤ m) :
    s.run m = some (s', false) := by
  induction n generalizing s m with
  | zero => cases hrun
  | succ n ih =>
    obtain ⟨m, rfl⟩ : ∃ k, m = k + 1 := ⟨m - 1, by omega⟩
    rw [Split.run] at hrun ⊢
    obtain ⟨⟨s₁, goes⟩, hround, hrest⟩ := Option.bind_eq_some_iff.mp hrun
    rw [hround, Option.bind_some]
    cases goes with
    | true => exact ih hrest (by omega)
    | false => exact hrest

theorem Split.run_unique {m : ℕ} {s₁ s₂ : Split} (h₁ : s.run n = some (s₁, false))
    (h₂ : s.run m = some (s₂, false)) : s₁ = s₂ := by
  rcases Nat.le_total n m with hle | hle
  · cases (Split.run_of_le h₁ hle).symm.trans h₂
    rfl
  · cases (Split.run_of_le h₂ hle).symm.trans h₁
    rfl

/-- **At a NUL** that is the first character of the line, the loop stores the same pointer again
and again. -/
theorem Split.run_nul (h : s.At pre (0 :: text) post) (hpos : s.pos = 0) (n : ℕ) :
    s.run n = some ({ s with argv := s.argv ++ List.replicate n s.cmdLine }, true) := by
  induction n generalizing s with
  | zero => simp [Split.run]
  | succ n ih =>
    have hbegins : Begins (0 :: text) [] [] (0 :: text) :=
      ⟨rfl, nofun, nofun, by simp [wordSep], by simp [inWord]⟩
    have hround := Split.round_word h hbegins (.inl rfl)
    have hgoes : s.pos < (0 :: text).length := by rw [hpos]; exact Nat.succ_pos _
    have hfound : s.found (pre ++ (List.replicate 0 0 ++ ([] ++ (0 :: text ++ 0 :: post)))) 0 0
        = { s with argv := s.argv ++ [s.cmdLine] } := by
      simp [Split.found, hpos, h.line]
    rw [Split.run, hround, decide_eq_true hgoes, Option.bind_some, if_pos rfl]
    have hat : Split.At { s with argv := s.argv ++ [s.cmdLine] } pre (0 :: text) post :=
      ⟨h.line, h.place, h.len⟩
    refine (congrArg (Split.run n) hfound).trans ((ih hat hpos).trans ?_)
    rw [List.append_assoc, List.replicate_succ]
    rfl

/-! ### Bounds -/

/-- The call ends, has read and written only the array, and has stored at most `maxArgs`
pointers. -/
def SplitBounded (line : List UInt8) (cmdLineLen : ℤ) (maxArgs : ℕ) : Prop :=
  ∃ n s, splitCommand n line cmdLineLen maxArgs = some (s, false) ∧ s.argv.length ≤ maxArgs

/-- What may still be found behind the first word, or the NUL behind the blanks, which is found
again. -/
theorem Begins.marks_lt_wordCount (h : Begins text blanks word after) (hne : word ++ after ≠ []) :
    marks after < wordCount text := by
  rw [wordCount]
  obtain ⟨-, hmarks⟩ | ⟨rest, rfl, rfl, hmarks⟩ := h.marks_cases hne
  · omega
  · have hnul : (text.dropWhile wordSep).head? = some 0 := by
      rw [h.eq, List.dropWhile_append_of_pos h.sep]
      rfl
    rw [if_pos (.inr hnul), marks_nul]
    omega

theorem Finds.length_le_marks {place : ℕ} {args : List ℕ} (h : Finds place pos text args)
    (hpos : 0 < pos) (hne : text ≠ []) : args.length ≤ marks text := by
  induction h with
  | blank => exact Nat.zero_le _
  | last hbegins hsome =>
    exact Nat.one_le_of_lt (hbegins.marks_drop_lt (hbegins.append_ne_nil hne hsome) hpos)
  | more hbegins hgoes _ ih =>
    have hafter := List.ne_nil_of_length_pos (Nat.zero_lt_of_lt hgoes)
    have hrest := ih (by omega) (by simpa using hgoes)
    have hmarks := hbegins.marks_drop_lt (List.append_ne_nil_of_right_ne_nil _ hafter) hpos
    rw [List.length_cons]
    omega

/-- **The arguments are at most as many as the words** and the NULs of the line. -/
theorem Finds.length_le_wordCount {place : ℕ} {args : List ℕ} (h : Finds place 0 text args)
    (hhead : text.head? ≠ some 0) : args.length ≤ wordCount text := by
  rcases eq_or_ne text [] with rfl | hne
  · cases h with
    | blank _ hne => exact absurd rfl hne
    | last => exact Nat.le_refl 1
    | more hbegins hgoes =>
      have hsum : 0 = _ := hbegins.length
      omega
  cases h with
  | blank => exact Nat.zero_le _
  | last hbegins hsome =>
    exact Nat.one_le_of_lt (hbegins.marks_lt_wordCount (hbegins.append_ne_nil hne hsome))
  | more hbegins hgoes hrest =>
    have hafter := List.ne_nil_of_length_pos hgoes
    -- only the first round has `pos` at 0, and may find a NUL that is found again
    have hmoved := hbegins.pos_of_head hne hhead
    have hle := hrest.length_le_marks (by omega) hafter
    exact Nat.lt_of_le_of_lt hle
      (hbegins.marks_lt_wordCount (List.append_ne_nil_of_right_ne_nil _ hafter))

/-- A line of `k` words on which the loop, with `pos` at `p`, finds all of them: the characters
that it skips behind a word are blanks. -/
def sparseLine : ℕ → ℕ → List UInt8
  | 0, _ => []
  | k + 1, p => 32 :: 97 :: (List.replicate p 32 ++ sparseLine k (p + 2))

theorem sparseLine_head (k p q : ℕ) :
    ∀ c ∈ (List.replicate p 32 ++ sparseLine k q).head?, inWord c = false := by
  cases p with
  | zero =>
    cases k with
    | zero => simp [sparseLine]
    | succ k => simp [sparseLine, inWord, wordSep]
  | succ p => simp [List.replicate_succ, inWord, wordSep]

theorem begins_sparseLine (k p : ℕ) : Begins (sparseLine (k + 1) p) [32] [97]
    (List.replicate p 32 ++ sparseLine k (p + 2)) :=
  ⟨rfl, by simp [wordSep], by simp [inWord, wordSep], by simp [wordSep],
    sparseLine_head k p (p + 2)⟩

theorem marks_sparseLine (k p : ℕ) : marks (sparseLine k p) = k := by
  induction k generalizing p with
  | zero => rfl
  | succ k ih =>
    have hblanks : ∀ c ∈ List.replicate p (32 : UInt8), wordSep c = true := by simp [wordSep]
    obtain ⟨-, hmarks⟩ | ⟨_, hnone, -⟩ :=
      (begins_sparseLine k p).marks_cases (List.cons_ne_nil _ _)
    · rw [hmarks, marks_blanks hblanks, ih]
    · cases hnone

theorem wordCount_sparseLine (k p : ℕ) : wordCount (sparseLine (k + 1) p) = k + 1 := by
  rw [wordCount, marks_sparseLine]
  simp [sparseLine, wordSep]

/-- **All the words of a sparse line are found:** each round begins with the blanks of the next
one. -/
theorem Split.run_sparse {k : ℕ} (h : s.At pre (sparseLine (k + 1) s.pos) post) :
    ∃ s', s.run (k + 1) = some (s', false) ∧ s'.argv.length = s.argv.length + (k + 1) := by
  induction k generalizing s pre with
  | zero =>
    have hbegins : Begins (sparseLine 1 s.pos) [32] [97] (List.replicate s.pos 32 ++ []) :=
      begins_sparseLine 0 s.pos
    have hround := Split.round_word h hbegins (.inr (List.cons_ne_nil _ _))
    rw [decide_eq_false (by simp)] at hround
    exact ⟨_, Split.run_false hround 0, by simp [Split.found]⟩
  | succ k ih =>
    have hbegins := begins_sparseLine (k + 1) s.pos
    have hround := Split.round_word h hbegins (.inr (List.cons_ne_nil _ _))
    have hgoes : s.pos <
        (List.replicate s.pos (32 : UInt8) ++ sparseLine (k + 1) (s.pos + 2)).length := by
      simp [sparseLine]
    rw [decide_eq_true hgoes] at hround
    have hnext := h.found hbegins hgoes
    rw [List.drop_left' List.length_replicate] at hnext
    obtain ⟨s', hrun, hargv⟩ := ih hnext
    refine ⟨s', (Split.run_true hround _).trans hrun, hargv.trans ?_⟩
    simp only [Split.found, List.length_append, List.length_singleton]
    omega

/-- **Bounds.**  A line consists of `cmd_line_len` characters (none, if that is negative) and its
terminator.  On the lines with a `wordCount` of at most `k` the call keeps to its bounds, unless the
line begins with a NUL, just if there is room for `k` arguments. -/
theorem split_bounded_iff (k maxArgs : ℕ) :
    (∀ (line : List UInt8) (len : ℤ), line.length = len.toNat → wordCount line ≤ k →
      (SplitBounded (line ++ [0]) len maxArgs ↔ line.head? ≠ some 0)) ↔ k ≤ maxArgs := by
  constructor
  · intro h
    by_contra hroom
    -- all words of a sparse line are stored, and these are too many
    obtain ⟨k, rfl⟩ : ∃ m, k = m + 1 := ⟨k - 1, by omega⟩
    have hhead : (sparseLine (k + 1) 0).head? ≠ some 0 := by simp [sparseLine]
    obtain ⟨n, s, hrun, hle⟩ := (h (sparseLine (k + 1) 0) _ (Int.toNat_natCast _).symm
      (Nat.le_of_eq (wordCount_sparseLine k 0))).mpr hhead
    have hat : Split.At ⟨sparseLine (k + 1) 0 ++ [0], 0, (sparseLine (k + 1) 0).length, 0, []⟩ []
      (sparseLine (k + 1) 0) [] := ⟨rfl, rfl, Int.toNat_natCast _⟩
    obtain ⟨s', hends, hargv⟩ := Split.run_sparse hat
    cases Split.run_unique hrun hends
    rw [List.length_nil] at hargv
    omega
  · intro hroom line len hlen hwords
    constructor
    · rintro ⟨n, s, hrun, -⟩ hhead
      obtain ⟨text, rfl⟩ : ∃ text, line = 0 :: text := List.head?_eq_some_iff.mp hhead
      have hat : Split.At ⟨0 :: text ++ [0], 0, len, 0, []⟩ [] (0 :: text) [] :=
        ⟨rfl, rfl, hlen.symm⟩
      cases hrun.symm.trans (Split.run_nul hat rfl n)
    · intro hhead
      have hat : Split.At ⟨line ++ [0], 0, len, 0, []⟩ [] line [] := ⟨rfl, rfl, hlen.symm⟩
      obtain ⟨s, -, args, hrun, -, -, hargv, hfinds⟩ :=
        Split.run_ends hat (Nat.lt_succ_self _) (.inr hhead)
      refine ⟨line.length + 1, s, hrun, ?_⟩
      rw [hargv, List.nil_append]
      exact (hfinds.length_le_wordCount hhead).trans (hwords.trans hroom)

/-- The number of words is no lower bound: `pos` may go past some of them. -/
example : wordCount [97, 97, 97, 97, 32, 98, 32, 99] = 3 ∧
    (splitCommand 9 [97, 97, 97, 97, 32, 98, 32, 99, 0] 8 8).map (fun r => (r.1.argv, r.2))
      = some ([0, 5], false) := by decide

/-- **Lost bounds.**  On a line that begins with a NUL the loop stores any number of pointers, and
on the line `a b` it stores two where there is room for one. -/
theorem split_overruns :
    (∀ n maxArgs, splitCommand n [0, 0] 1 maxArgs
      = some (⟨[0, 0], 0, 1, 0, List.replicate n 0⟩, true)) ∧
    (splitCommand 4 [97, 32, 98, 0] 3 1).map (fun r => (r.1.argv, r.2)) = some ([0, 2], false) := by
  refine ⟨fun n maxArgs => ?_, by decide⟩
  have hat : Split.At ⟨[0, 0], 0, 1, 0, []⟩ [] [0] [] := ⟨rfl, rfl, rfl⟩
  exact Split.run_nul hat rfl n

/-! ### The arguments -/

theorem stringAt_word (hword : ∀ c ∈ word, c ≠ 0) (pre post : List UInt8) :
    stringAt (pre ++ (word ++ 0 :: post)) pre.length = some word := by
  rw [stringAt, List.drop_left, if_pos (by simp), List.takeWhile_append_of_pos (by simpa using hword)]
  simp

/-- A word that is followed by something else is not a string. -/
theorem stringAt_ne_word {c : UInt8} (hc : c ≠ 0) (hword : ∀ c ∈ word, c ≠ 0)
    (pre post : List UInt8) : stringAt (pre ++ (word ++ c :: post)) pre.length ≠ some word := by
  rw [stringAt, List.drop_left]
  split
  · rw [List.takeWhile_append_of_pos (by simpa using hword),
      List.takeWhile_cons_of_pos (by simpa using hc)]
    simp
  · nofun

/-- The first round on a whole line. -/
theorem Begins.first_round {line : List UInt8} (h : Begins line blanks word after)
    (hne : blanks = [] ∨ word ++ after ≠ []) : ∃ s₁ : Split,
      Split.round ⟨line ++ [0], 0, line.length, 0, []⟩ = some (s₁, decide (after ≠ [])) ∧
      s₁.line = List.replicate blanks.length 0 ++ (word ++ (after ++ [0])) ∧
      s₁.pos = blanks.length + word.length ∧ s₁.argv = [blanks.length] ∧
      (after ≠ [] → s₁.At (List.replicate blanks.length 0 ++ word) after []) := by
  have hat : Split.At ⟨line ++ [0], 0, line.length, 0, []⟩ [] line [] := ⟨rfl, rfl, by simp⟩
  refine ⟨Split.found ⟨line ++ [0], 0, line.length, 0, []⟩
    ([] ++ (List.replicate blanks.length 0 ++ (word ++ (after ++ [0])))) blanks.length word.length,
    ?_, rfl, ?_, ?_, ?_⟩
  · rw [Split.round_word hat h hne]
    simp [List.length_pos_iff]
  · simp [Split.found]
  · simp [Split.found]
  · intro hafter
    simpa using hat.found h (List.length_pos_iff.mpr hafter)

section Arguments

variable {line blanks₁ word₁ rest blanks₂ word₂ : List UInt8} {maxArgs : ℕ}

theorem wordSep_of_isBlank {c : UInt8} (h : isBlank c = true) : wordSep c = true := by
  rw [isBlank] at h
  rw [wordSep, h]
  rfl

/-- A line of blanks. -/
theorem splitRight_blank (hblanks : ∀ c ∈ line, isBlank c = true) (hne : line ≠ []) :
    SplitRight line maxArgs := by
  have hat : Split.At ⟨line ++ [0], 0, line.length, 0, []⟩ [] line [] := ⟨rfl, rfl, by simp⟩
  have hround := Split.round_blank hat (fun c hc => wordSep_of_isBlank (hblanks c hc)) hne
  refine ⟨1, _, Split.run_false hround 0, ?_⟩
  rw [words_of_blank hblanks]
  rfl

/-- A line of one word. -/
theorem splitRight_one (h : Begins line blanks₁ word₁ rest) (hword : ∀ c ∈ word₁, c ≠ 0)
    (hne : word₁ ≠ []) (hrest : ∀ c ∈ rest, isBlank c = true) (hwords : words line = [word₁]) :
    SplitRight line maxArgs := by
  obtain ⟨s₁, hround, hline, -, hargv, hat⟩ := h.first_round (.inr (by simp [hne]))
  -- the word is terminated by the end of the line, or by the round that finds nothing
  suffices hend : ∃ n s post, splitCommand n (line ++ [0]) line.length maxArgs = some (s, false) ∧
      s.line = List.replicate blanks₁.length 0 ++ (word₁ ++ 0 :: post) ∧
      s.argv = [blanks₁.length] by
    obtain ⟨n, s, post, hrun, hline', hargv'⟩ := hend
    refine ⟨n, s, hrun, ?_⟩
    have hstring := stringAt_word hword (List.replicate blanks₁.length 0) post
    rw [List.length_replicate] at hstring
    rw [hargv', hline', hwords, List.map_singleton, List.map_singleton, hstring]
  by_cases hafter : rest = []
  · rw [hafter] at hline hround
    exact ⟨1, s₁, [], Split.run_false hround 0, hline, hargv⟩
  · rw [decide_eq_true hafter] at hround
    have hround₂ :=
      Split.round_blank (hat hafter) (fun c hc => wordSep_of_isBlank (hrest c hc)) hafter
    refine ⟨2, _, List.replicate (rest.length - 1) 0 ++ [0],
      (Split.run_true hround 1).trans (Split.run_false hround₂ 0), ?_, hargv⟩
    obtain ⟨b, rest, rfl⟩ := List.exists_cons_of_ne_nil hafter
    simp [List.replicate_succ]

/-- A line of two words, with nothing behind them. -/
theorem splitRight_two (h₁ : Begins line blanks₁ word₁ rest) (h₂ : Begins rest blanks₂ word₂ [])
    (hword₁ : ∀ c ∈ word₁, c ≠ 0) (hword₂ : ∀ c ∈ word₂, c ≠ 0) (hne₁ : word₁ ≠ [])
    (hne₂ : word₂ ≠ []) (hblanks : blanks₂ ≠ []) (hwords : words line = [word₁, word₂]) :
    SplitRight line maxArgs := by
  obtain ⟨s₁, hround, hline, -, hargv, hat⟩ := h₁.first_round (.inr (by simp [hne₁]))
  have hafter : rest ≠ [] := by
    rw [h₂.eq]
    simp [hne₂]
  rw [decide_eq_true hafter] at hround
  have hround₂ := Split.round_word (hat hafter) h₂ (.inr (by simp [hne₂]))
  refine ⟨2, _, (Split.run_true hround 1).trans (Split.run_false hround₂ 0), ?_⟩
  obtain ⟨b, blanks₂, rfl⟩ := List.exists_cons_of_ne_nil hblanks
  have hfirst := stringAt_word hword₁ (List.replicate blanks₁.length 0)
    (List.replicate blanks₂.length 0 ++ (word₂ ++ [0]))
  have hsecond := stringAt_word hword₂ (List.replicate blanks₁.length 0 ++ word₁
    ++ List.replicate (b :: blanks₂).length 0) []
  rw [List.length_replicate] at hfirst
  rw [List.length_append, (hat hafter).place, List.length_replicate] at hsecond
  simp only [List.append_assoc, List.length_cons, List.replicate_succ, List.cons_append]
    at hfirst hsecond
  simp only [Split.found, hargv, hwords, List.cons_append, List.nil_append, List.map_cons,
    List.map_nil, List.append_assoc, List.length_cons, List.replicate_succ, hfirst, hsecond]

/-- A line on which something follows the second word, which is not terminated. -/
theorem not_splitRight {c : UInt8} {after : List UInt8} (h₁ : Begins line blanks₁ word₁ rest)
    (h₂ : Begins rest blanks₂ word₂ (c :: after)) (hne₁ : word₁ ≠ []) (hc : c ≠ 0)
    (hword₂ : ∀ c ∈ word₂, c ≠ 0)
    (hwords : ∃ more, words line = word₁ :: word₂ :: more) : ¬SplitRight line maxArgs := by
  obtain ⟨s₁, hround, hline, hpos, hargv, hat⟩ := h₁.first_round (.inr (by simp [hne₁]))
  have hafter : rest ≠ [] := by
    rw [h₂.eq]
    simp
  have hat := hat hafter
  rw [decide_eq_true hafter] at hround
  have hround₂ := Split.round_word hat h₂ (.inr (by simp))
  have hpos₁ : 0 < s₁.pos := by
    have := List.length_pos_iff.mpr hne₁
    omega
  -- the later rounds begin behind the character that follows the second word
  suffices hend : ∃ n s tail args, splitCommand n (line ++ [0]) line.length maxArgs
      = some (s, false) ∧ s.line = (List.replicate blanks₁.length 0 ++ word₁
        ++ List.replicate blanks₂.length 0) ++ (word₂ ++ c :: tail) ∧
      s.argv = blanks₁.length :: (List.replicate blanks₁.length 0 ++ word₁
        ++ List.replicate blanks₂.length 0).length :: args by
    obtain ⟨n, s, tail, args, hrun, hline', hargv'⟩ := hend
    rintro ⟨m, s', hrun', hright⟩
    cases Split.run_unique hrun' hrun
    obtain ⟨more, hmore⟩ := hwords
    rw [hargv', hmore, List.map_cons, List.map_cons, List.map_cons, List.map_cons] at hright
    have hsecond := (List.cons.inj (List.cons.inj hright).2).1
    rw [hline'] at hsecond
    exact stringAt_ne_word hc hword₂ _ tail hsecond
  have hplace : s₁.cmdLine + blanks₂.length = (List.replicate blanks₁.length 0 ++ word₁
      ++ List.replicate blanks₂.length (0 : UInt8)).length := by
    rw [List.length_append, hat.place, List.length_replicate]
  by_cases hgoes : s₁.pos < (c :: after).length
  · rw [decide_eq_true hgoes] at hround₂
    obtain ⟨s', text', args, hrun, hline', -, hargv', -⟩ :=
      Split.run_ends (hat.found h₂ hgoes) (Nat.lt_succ_self _) (.inl (by simp [Split.found]; omega))
    obtain ⟨p, hp⟩ : ∃ p, s₁.pos = p + 1 := ⟨s₁.pos - 1, by omega⟩
    refine ⟨_, s', after.take p ++ (text' ++ [0]), args, (Split.run_true hround _).trans
      ((Split.run_true hround₂ _).trans hrun), ?_, ?_⟩
    · rw [hline', hp]
      simp
    · rw [hargv', ← hplace]
      simp [Split.found, hargv]
  · rw [decide_eq_false hgoes] at hround₂
    refine ⟨2, _, after ++ [0], [], (Split.run_true hround 1).trans (Split.run_false hround₂ 0),
      ?_, ?_⟩
    · simp [Split.found]
    · rw [← hplace]
      simp [Split.found, hargv]

/-- A typed text is blank, or begins with a word. -/
theorem words_cases (htyped : Typed text) :
    ((∀ c ∈ text, isBlank c = true) ∧ words text = []) ∨
    ∃ blanks word after, Begins text blanks word after ∧ word ≠ [] ∧
      (∀ c ∈ after.head?, isBlank c = true) ∧ words text = word :: words after := by
  obtain ⟨hblanks, -⟩ | ⟨blanks, word, after, hbegins, hsome⟩ := exists_begins text
  · left
    have hblanks : ∀ c ∈ text, isBlank c = true := by
      intro c hc
      rw [← (htyped.wordSep_eq hc).1]
      exact hblanks c hc
    exact ⟨hblanks, words_of_blank hblanks⟩
  · rcases eq_or_ne text [] with rfl | hne
    · exact .inl ⟨nofun, rfl⟩
    · exact .inr ⟨blanks, word, after, hbegins,
        hbegins.words_eq htyped (hbegins.append_ne_nil hne hsome)⟩

theorem Begins.typed (h : Begins text blanks word after) (htyped : Typed text) :
    (∀ c ∈ word, c ≠ 0) ∧ Typed after := by
  have hmem : ∀ c ∈ word ++ after, c ∈ text := fun c hc => h.eq ▸ List.mem_append_right blanks hc
  exact ⟨fun c hc => (htyped c (hmem c (List.mem_append_left after hc))).1,
    fun c hc => htyped c (hmem c (List.mem_append_right word hc))⟩

theorem Begins.blanks_ne_nil (h : Begins text blanks word after) (hne : word ≠ [])
    (hhead : ∀ c ∈ text.head?, isBlank c = true) : blanks ≠ [] := by
  rintro rfl
  obtain ⟨c, word, rfl⟩ := List.exists_cons_of_ne_nil hne
  have hsep : wordSep c = true := wordSep_of_isBlank (hhead c (by rw [h.eq]; rfl))
  cases (h.start c rfl).symm.trans hsep

/-- The last character of a line is that of what ends it. -/
theorem getLast?_of_begins (h₁ : Begins line blanks₁ word₁ rest)
    (h₂ : Begins rest blanks₂ word₂ after) (hne : word₂ ++ after ≠ []) :
    line.getLast? = (word₂ ++ after).getLast? := by
  rw [h₁.eq, h₂.eq, List.getLast?_append, List.getLast?_append, List.getLast?_append,
    List.getLast?_eq_some_getLast hne]
  rfl

/-- **The arguments are the words** of a typed line just if it has one word, or is not empty and
has none, or has two words and does not end with a blank. -/
theorem split_right_iff (htyped : Typed line) (maxArgs : ℕ) :
    SplitRight line maxArgs ↔ line ≠ [] ∧ (words line).length ≤ 1 ∨
      (words line).length = 2 ∧ ∀ c ∈ line.getLast?, isBlank c = false := by
  rcases eq_or_ne line [] with rfl | hline
  · refine iff_of_false ?_ (by simp [words, wordsBy])
    rintro ⟨n, s, hrun, hright⟩
    cases Split.run_unique hrun (show Split.run 1 ⟨[] ++ [0], 0, _, 0, []⟩
      = some (⟨[0], 0, 0, 0, [0]⟩, false) from rfl)
    cases hright
  · obtain ⟨hblanks, hwords⟩ | ⟨blanks₁, word₁, rest, h₁, hne₁, hhead, hwords⟩ := words_cases htyped
    · exact iff_of_true (splitRight_blank hblanks hline) (.inl ⟨hline, by simp [hwords]⟩)
    · obtain ⟨hword₁, htyped₁⟩ := h₁.typed htyped
      obtain ⟨hblanks, hnone⟩ | ⟨blanks₂, word₂, after, h₂, hne₂, -, hwords₂⟩ := words_cases htyped₁
      · rw [hnone] at hwords
        exact iff_of_true (splitRight_one h₁ hword₁ hne₁ hblanks hwords)
          (.inl ⟨hline, by simp [hwords]⟩)
      · obtain ⟨hword₂, htyped₂⟩ := h₂.typed htyped₁
        rw [hwords₂] at hwords
        cases after with
        | nil =>
          have hblanks₂ := h₂.blanks_ne_nil hne₂ hhead
          refine iff_of_true (splitRight_two h₁ h₂ hword₁ hword₂ hne₁ hne₂ hblanks₂ hwords)
            (.inr ⟨by rw [hwords]; rfl, ?_⟩)
          intro c hc
          rw [getLast?_of_begins h₁ h₂ (by simpa using hne₂), List.append_nil] at hc
          have hmem : c ∈ word₂ := List.mem_of_mem_getLast? hc
          have hin := h₂.inside c hmem
          have htext : c ∈ rest := by rw [h₂.eq]; simp [hmem]
          rw [(htyped₁.wordSep_eq htext).2] at hin
          simpa using hin
        | cons c after =>
          have hc : c ≠ 0 := (htyped₂ c List.mem_cons_self).1
          refine iff_of_false (not_splitRight h₁ h₂ hne₁ hc hword₂ ⟨_, hwords⟩) ?_
          rintro (⟨-, hone⟩ | ⟨htwo, hlast⟩)
          · simp [hwords] at hone
          · -- with no third word, the line ends with the blanks behind the second one
            obtain ⟨hblanks, -⟩ | ⟨_, _, _, _, _, _, hthird⟩ := words_cases htyped₂
            · have hmem := List.getLast_mem (List.cons_ne_nil c after)
              have hend : line.getLast? = some ((c :: after).getLast (List.cons_ne_nil c after)) := by
                rw [getLast?_of_begins h₁ h₂ (by simp), List.getLast?_append,
                  List.getLast?_eq_some_getLast (List.cons_ne_nil c after)]
                rfl
              cases (hlast _ hend).symm.trans (hblanks _ hmem)
            · simp [hwords, hthird] at htwo

end Arguments

/-- The line ` ab c`, of two words. -/
theorem split_right_iff_two : SplitRight [32, 97, 98, 32, 99] 8 := by
  have htyped : Typed [32, 97, 98, 32, 99] := by simp [Typed]
  exact (split_right_iff htyped 8).mpr (.inr ⟨by decide, by simp [isBlank]⟩)

/-- **Wrong arguments.**  On the empty line the call finds one argument, and on the line `a b c`
the second argument is `b c`. -/
theorem split_wrong :
    (splitCommand 4 [0] 0 8).map (fun r => (r.1.argv.map (stringAt r.1.line), r.2))
      = some ([some []], false) ∧ words [] = [] ∧
    (splitCommand 4 [97, 32, 98, 32, 99, 0] 5 8).map
      (fun r => (r.1.argv.map (stringAt r.1.line), r.2))
      = some ([some [97], some [98, 32, 99], some [99]], false) ∧
    words [97, 32, 98, 32, 99] = [[97], [98], [99]] := by
  decide

end Console
