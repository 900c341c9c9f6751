/-
The memory dump of the console (`mem_dump` of `mipos_console.c`).

A row of the dump stands for 16 words, and four of them are printed.  The array is a list,
and reading behind its end is undefined.

* `dump_shows` — the words that are printed are those whose index leaves a remainder below
  4 modulo 16, in the order of their indices; every row starts with the address of its
  first word, and no other word is read.
* `dump_whole_iff` — so all words are printed just if there are at most four.
* `dump_skips_word` — five words.
-/
import Mathlib.Algebra.Order.Ring.Nat
import Mathlib.Data.List.Basic
import Mathlib.Data.List.Range

namespace Console

/-! ### The code -/

/-- What `mem_dump` hands to `mipos_puts`, in the order of the calls. -/
inductive Out
  /-- the address of `b[i]` -/
  | address (i : ℕ)
  /-- the hexadecimal form of a word -/
  | hex (text : List UInt8)
  /-- twelve blanks -/
  | blanks
  /-- the characters of a word -/
  | chars (text : List UInt8)
  | newline
  deriving DecidableEq, Repr

/-- The array `c`: the bytes of a word from the highest on, or from the lowest. -/
def wordChars (mode : Bool) (word : UInt32) : List UInt8 :=
  let bytes := [(word >>> 24).toUInt8, (word >>> 16).toUInt8, (word >>> 8).toUInt8, word.toUInt8]
  if mode then bytes else bytes.reverse

def hexDigit (n : UInt8) : UInt8 := if n < 10 then 48 + n else 55 + n

/-- `"%02X %02X %02X %02X "`. -/
def hexForm (mode : Bool) (word : UInt32) : List UInt8 :=
  (wordChars mode word).flatMap fun c => [hexDigit (c / 16), hexDigit (c % 16), 32]

/-- `"%c%c%c%c"`, with a dot for a character that is not printable; where `char` is signed
the characters from 128 on are negative. -/
def charForm (charSigned mode : Bool) (word : UInt32) : List UInt8 :=
  (wordChars mode word).map fun c => if c > 31 ∧ (charSigned = false ∨ c < 128) then c else 46

section

variable (charSigned : Bool) (b : List UInt32) (bufLen : ℕ) (mode : Bool)

/-- The first loop over the columns of a row. -/
def hexCols (bufIndex : ℕ) : List ℕ → Option (List Out)
  | [] => some []
  | col :: cols => do
    let out ← if bufIndex + col ≥ bufLen then some .blanks
      else (b[bufIndex + col]?).map fun word => .hex (hexForm mode word)
    let rest ← hexCols bufIndex cols
    return out :: rest

/-- The second loop, left at the end of the array. -/
def charCols (bufIndex : ℕ) : List ℕ → Option (List Out)
  | [] => some []
  | col :: cols =>
    if bufIndex + col ≥ bufLen then some []
    else do
      let word ← b[bufIndex + col]?
      let rest ← charCols bufIndex cols
      return .chars (charForm charSigned mode word) :: rest

/-- A row; `row * 16` is computed as an `int`. -/
def dumpRow (totRows row : ℕ) : Option (List Out) :=
  if row * 16 ≥ 2 ^ 31 then none
  else do
    let hex ← hexCols b bufLen mode (row * 16) (List.range 4)
    let chars ← charCols charSigned b bufLen mode (row * 16) (List.range 4)
    return .address (row * 16) :: hex ++ chars ++
      if totRows - 1 ≠ row then [.newline] else []

def dumpRows (totRows : ℕ) : List ℕ → Option (List Out)
  | [] => some []
  | row :: rows => do
    let out ← dumpRow charSigned b bufLen mode totRows row
    let rest ← dumpRows totRows rows
    return out ++ rest

def totRows (bufLen : ℕ) : ℕ := bufLen / 16 + if bufLen % 16 ≠ 0 then 1 else 0

def memDump : Option (List Out) :=
  if bufLen = 0 then some []
  else do
    let rows ← dumpRows charSigned b bufLen mode (totRows bufLen) (List.range (totRows bufLen))
    return rows ++ [.newline]

end

/-! ### What is printed -/

def Out.hexText : Out → Option (List UInt8)
  | .hex text => some text
  | _ => none

/-- The hexadecimal forms that are printed. -/
def hexTexts (out : List Out) : List (List UInt8) := out.filterMap Out.hexText

/-- Every row starts with the address of the word whose hexadecimal form comes next. -/
def RowsStart (b : List UInt32) (mode : Bool) : List Out → Prop
  | [] => True
  | .address i :: rest => (∃ word, b[i]? = some word ∧
      rest.head? = some (.hex (hexForm mode word))) ∧ RowsStart b mode rest
  | _ :: rest => RowsStart b mode rest

def Out.isAddress : Out → Bool
  | .address _ => true
  | _ => false

variable {charSigned mode : Bool} {b : List UInt32}

theorem hexTexts_append (out out' : List Out) :
    hexTexts (out ++ out') = hexTexts out ++ hexTexts out' := List.filterMap_append

theorem rowsStart_append {out rest : List Out} (hout : ∀ x ∈ out, x.isAddress = false)
    (hrest : RowsStart b mode rest) : RowsStart b mode (out ++ rest) := by
  induction out with
  | nil => exact hrest
  | cons x out ih =>
    have hx := hout x List.mem_cons_self
    have ih := ih fun y hy => hout y (List.mem_cons_of_mem x hy)
    cases x with
    | address i => cases hx
    | hex _ | blanks | chars _ | newline => exact ih

/-! ### One row -/

/-- The words of a row that exist are printed. -/
theorem hexCols_some (b : List UInt32) (mode : Bool) (bufIndex : ℕ) (cols : List ℕ) :
    ∃ out, hexCols b b.length mode bufIndex cols = some out ∧
      (∀ x ∈ out, x.isAddress = false) ∧
      (hexTexts out = ((cols.map (bufIndex + ·)).filter (· < b.length)).map
        fun i => hexForm mode (b.getD i 0)) ∧
      ∀ col, cols.head? = some col → bufIndex + col < b.length →
        out.head? = some (.hex (hexForm mode (b.getD (bufIndex + col) 0))) := by
  induction cols with
  | nil => exact ⟨[], rfl, by simp, rfl, by simp⟩
  | cons col cols ih =>
    obtain ⟨out, hout, hno, htexts, -⟩ := ih
    rw [hexCols, hout]
    by_cases hin : bufIndex + col < b.length
    · have hget : b[bufIndex + col]? = some (b.getD (bufIndex + col) 0) := by
        rw [List.getD_eq_getElem?_getD, List.getElem?_eq_getElem hin, Option.getD_some]
      refine ⟨.hex (hexForm mode (b.getD (bufIndex + col) 0)) :: out, ?_, ?_, ?_, ?_⟩
      · rw [if_neg (Nat.not_le.mpr hin), hget]
        rfl
      · exact List.forall_mem_cons.mpr ⟨rfl, hno⟩
      · rw [List.map_cons, List.filter_cons_of_pos (by simpa using hin), List.map_cons, ← htexts]
        rfl
      · intro col' hcol _
        cases hcol
        rfl
    · refine ⟨.blanks :: out, ?_, List.forall_mem_cons.mpr ⟨rfl, hno⟩, ?_, ?_⟩
      · rw [if_pos (Nat.not_lt.mp hin)]
        rfl
      · rw [List.map_cons, List.filter_cons_of_neg (by simpa using hin), ← htexts]
        rfl
      · intro col' hcol hin'
        cases hcol
        exact absurd hin' hin

/-- The second loop prints characters. -/
theorem charCols_some (charSigned : Bool) (b : List UInt32) (mode : Bool) (bufIndex : ℕ)
    (cols : List ℕ) :
    ∃ out, charCols charSigned b b.length mode bufIndex cols = some out ∧
      (∀ x ∈ out, x.isAddress = false) ∧ hexTexts out = [] := by
  induction cols with
  | nil => exact ⟨[], rfl, by simp, rfl⟩
  | cons col cols ih =>
    obtain ⟨out, hout, hno, htexts⟩ := ih
    rw [charCols, hout]
    by_cases hin : bufIndex + col < b.length
    · rw [if_neg (Nat.not_le.mpr hin), List.getElem?_eq_getElem hin]
      exact ⟨_, rfl, List.forall_mem_cons.mpr ⟨rfl, hno⟩, htexts⟩
    · rw [if_pos (Nat.not_lt.mp hin)]
      exact ⟨[], rfl, by simp, rfl⟩

/-- The indices of the words of a row that are printed. -/
def rowIndices (n row : ℕ) : List ℕ := ((List.range 4).map (row * 16 + ·)).filter (· < n)

theorem dumpRow_some {tot row : ℕ} (hint : row * 16 < 2 ^ 31) (hin : row * 16 < b.length) :
    ∃ out, dumpRow charSigned b b.length mode tot row = some out ∧
      hexTexts out = (rowIndices b.length row).map (fun i => hexForm mode (b.getD i 0)) ∧
      ∀ rest, RowsStart b mode rest → RowsStart b mode (out ++ rest) := by
  obtain ⟨hex, hhex, hnoHex, hhexTexts, hhead⟩ := hexCols_some b mode (row * 16) (List.range 4)
  obtain ⟨chars, hchars, hnoChars, hcharsTexts⟩ :=
    charCols_some charSigned b mode (row * 16) (List.range 4)
  obtain ⟨newline, hnewline⟩ : ∃ l, l = if tot - 1 ≠ row then [Out.newline] else [] := ⟨_, rfl⟩
  have hnoNewline : ∀ x ∈ newline, x.isAddress = false := by
    rw [hnewline]
    split <;> simp [Out.isAddress]
  have hnewlineTexts : hexTexts newline = [] := by
    rw [hnewline]
    split <;> rfl
  refine ⟨.address (row * 16) :: hex ++ chars ++ newline, ?_, ?_, ?_⟩
  · rw [dumpRow, if_neg (Nat.not_le.mpr hint), hhex, hchars, hnewline]
    rfl
  · have haddress : hexTexts (.address (row * 16) :: hex) = hexTexts hex := rfl
    rw [hexTexts_append, hexTexts_append, hnewlineTexts, hcharsTexts, haddress, hhexTexts,
      List.append_nil, List.append_nil]
    rfl
  · intro rest hrest
    -- the first word of the row exists
    have hfirst := hhead 0 rfl hin
    have hget : b[row * 16]? = some (b.getD (row * 16) 0) := by
      rw [List.getD_eq_getElem?_getD, List.getElem?_eq_getElem hin, Option.getD_some]
    rw [List.append_assoc, List.append_assoc, List.cons_append]
    refine ⟨⟨b.getD (row * 16) 0, hget, ?_⟩, ?_⟩
    · rw [List.head?_append, hfirst]
      rfl
    · exact rowsStart_append hnoHex
        (rowsStart_append hnoChars (rowsStart_append hnoNewline hrest))

/-! ### All rows -/

theorem dumpRows_some (tot : ℕ) {rows : List ℕ}
    (hrows : ∀ row ∈ rows, row * 16 < 2 ^ 31 ∧ row * 16 < b.length) :
    ∃ out, dumpRows charSigned b b.length mode tot rows = some out ∧
      hexTexts out = (rows.flatMap (rowIndices b.length)).map
        (fun i => hexForm mode (b.getD i 0)) ∧
      ∀ rest, RowsStart b mode rest → RowsStart b mode (out ++ rest) := by
  induction rows with
  | nil => exact ⟨[], rfl, rfl, fun rest hrest => hrest⟩
  | cons row rows ih =>
    obtain ⟨⟨hint, hin⟩, hrows⟩ := List.forall_mem_cons.mp hrows
    obtain ⟨out, hout, htexts, hstart⟩ := ih hrows
    obtain ⟨first, hfirst, hfirstTexts, hfirstStart⟩ := dumpRow_some hint hin
    refine ⟨first ++ out, ?_, ?_, ?_⟩
    · rw [dumpRows, hfirst, hout]
      rfl
    · rw [hexTexts_append, hfirstTexts, htexts, List.flatMap_cons, List.map_append]
    · intro rest hrest
      rw [List.append_assoc]
      exact hfirstStart _ (hstart rest hrest)

/-- Rows whose index overflows are undefined. -/
theorem lt_of_dumpRows {bufLen tot : ℕ} {rows : List ℕ} {out : List Out}
    (hrun : dumpRows charSigned b bufLen mode tot rows = some out) :
    ∀ row ∈ rows, row * 16 < 2 ^ 31 := by
  induction rows generalizing out with
  | nil => simp
  | cons row rows ih =>
    obtain ⟨first, hfirst, hrest⟩ := Option.bind_eq_some_iff.mp hrun
    obtain ⟨rest, hrest, -⟩ := Option.bind_eq_some_iff.mp hrest
    refine List.forall_mem_cons.mpr ⟨?_, ih hrest⟩
    by_contra hover
    rw [dumpRow, if_pos (Nat.not_lt.mp hover)] at hfirst
    cases hfirst

theorem filter_lt_range (m k : ℕ) : (List.range m).filter (· < k) = List.range (min m k) := by
  induction m with
  | zero => simp
  | succ m ih =>
    rw [List.range_succ, List.filter_append, ih]
    by_cases hlt : m < k
    · rw [List.filter_cons_of_pos (by simpa using hlt), List.filter_nil, Nat.min_eq_left (by omega),
        Nat.min_eq_left (by omega), List.range_succ]
    · rw [List.filter_cons_of_neg (by simpa using hlt), List.filter_nil, List.append_nil,
        Nat.min_eq_right (by omega), Nat.min_eq_right (by omega)]

/-- What is printed of a row, as a part of the indices. -/
theorem rowIndices_eq (n row : ℕ) :
    rowIndices n row = (List.range (min (n - row * 16) 4)).map (row * 16 + ·) := by
  rw [rowIndices, List.filter_map, Nat.min_comm, ← filter_lt_range]
  refine congrArg (List.map _) (List.filter_congr fun c _ => ?_)
  rw [Function.comp_apply, decide_eq_decide]
  omega

/-- The rows up to one leave out all indices but those with a small remainder. -/
theorem flatMap_rowIndices (n k : ℕ) :
    (List.range k).flatMap (rowIndices n) = (List.range (min n (k * 16))).filter (· % 16 < 4) := by
  induction k with
  | zero => simp
  | succ k ih =>
    have hsplit : min n ((k + 1) * 16) = min n (k * 16) + min (n - k * 16) 16 := by omega
    rw [List.range_succ, List.flatMap_append, ih, hsplit, List.range_add, List.filter_append]
    refine congrArg (List.append _) ?_
    rw [List.flatMap_singleton, rowIndices_eq, List.filter_map]
    by_cases hrow : n ≤ k * 16
    · rw [Nat.sub_eq_zero_of_le hrow, Nat.zero_min, Nat.zero_min]
      rfl
    · have hcols : min (min (n - k * 16) 16) 4 = min (n - k * 16) 4 := by omega
      rw [Nat.min_eq_right (by omega : k * 16 ≤ n), ← hcols, ← filter_lt_range]
      refine congrArg (List.map _) (List.filter_congr fun c hc => ?_)
      have hc := List.mem_range.mp hc
      rw [Function.comp_apply, decide_eq_decide]
      omega

theorem le_totRows (n : ℕ) : n ≤ totRows n * 16 ∧ ∀ row, row < totRows n → row * 16 < n := by
  rw [totRows]
  split
  · exact ⟨by omega, fun row hrow => by omega⟩
  · exact ⟨by omega, fun row hrow => by omega⟩

/-- **What the dump shows.** -/
theorem dump_shows (charSigned : Bool) (b : List UInt32) (mode : Bool)
    (hlen : b.length ≤ 2 ^ 31) :
    ∃ out, memDump charSigned b b.length mode = some out ∧
      hexTexts out = ((List.range b.length).filter (· % 16 < 4)).map
        (fun i => hexForm mode (b.getD i 0)) ∧
      RowsStart b mode out := by
  by_cases hzero : b.length = 0
  · refine ⟨[], if_pos hzero, ?_, trivial⟩
    rw [hzero]
    rfl
  · have hrows : ∀ row ∈ List.range (totRows b.length),
        row * 16 < 2 ^ 31 ∧ row * 16 < b.length := by
      intro row hrow
      have hin := (le_totRows b.length).2 row (List.mem_range.mp hrow)
      exact ⟨Nat.lt_of_lt_of_le hin hlen, hin⟩
    obtain ⟨out, hout, htexts, hstart⟩ := dumpRows_some (totRows b.length) hrows
    have hall : min b.length (totRows b.length * 16) = b.length :=
      Nat.min_eq_left (le_totRows b.length).1
    refine ⟨out ++ [.newline], ?_, ?_, hstart [.newline] trivial⟩
    · rw [memDump, if_neg hzero, hout]
      rfl
    · rw [hexTexts_append, htexts, flatMap_rowIndices, hall]
      exact List.append_nil _

/-- What is asked of a dump: the hexadecimal forms of all words in their order, each once,
and rows that start with the address of their first word. -/
structure ShowsAll (b : List UInt32) (mode : Bool) (out : List Out) : Prop where
  words : hexTexts out = b.map (hexForm mode)
  rows : RowsStart b mode out

/-- A dump that is defined is one of an array whose indices are numbers of type `int`. -/
theorem length_le_of_memDump {out : List Out}
    (hdump : memDump charSigned b b.length mode = some out) : b.length ≤ 2 ^ 31 := by
  rw [memDump] at hdump
  split at hdump
  · omega
  · obtain ⟨rows, hrows, -⟩ := Option.bind_eq_some_iff.mp hdump
    have hle := (le_totRows b.length).1
    have hlast := lt_of_dumpRows hrows (totRows b.length - 1) (List.mem_range.mpr (by omega))
    omega

/-- **The dump shows the whole array just if it has at most four words.** -/
theorem dump_whole_iff (charSigned : Bool) (b : List UInt32) (mode : Bool) :
    (∃ out, memDump charSigned b b.length mode = some out ∧ ShowsAll b mode out) ↔
      b.length ≤ 4 := by
  constructor
  · rintro ⟨out, hout, hall⟩
    obtain ⟨out', hout', htexts, -⟩ :=
      dump_shows charSigned b mode (length_le_of_memDump hout)
    obtain rfl : out = out' := Option.some.inj (hout.symm.trans hout')
    have hcount : ((List.range b.length).filter (· % 16 < 4)).length
        = (List.range b.length).length := by
      have hlengths := congrArg List.length (htexts.symm.trans hall.words)
      rw [List.length_map, List.length_map] at hlengths
      rw [hlengths, List.length_range]
    by_contra hmore
    have hfour := List.length_filter_eq_length_iff.mp hcount 4 (List.mem_range.mpr (by omega))
    exact absurd hfour (by decide)
  · intro hfew
    obtain ⟨out, hout, htexts, hstart⟩ := dump_shows charSigned b mode (by omega)
    refine ⟨out, hout, ?_, hstart⟩
    have hsmall : (List.range b.length).filter (· % 16 < 4) = List.range b.length := by
      refine List.filter_eq_self.mpr fun i hi => ?_
      have hi := List.mem_range.mp hi
      rw [decide_eq_true_eq]
      omega
    rw [htexts, hsmall]
    refine List.ext_getElem (by simp) fun i h₁ h₂ => ?_
    have hi : i < b.length := by simpa using h₂
    simp [List.getD_eq_getElem?_getD, List.getElem?_eq_getElem hi]

/-- Of five words the last one is not printed, though there is room for it in the row. -/
theorem dump_skips_word :
    ∃ out, memDump true [1, 2, 3, 4, 5] 5 true = some out ∧
      hexTexts out = [1, 2, 3, 4].map (hexForm true) := by
  obtain ⟨out, hout, htexts, -⟩ := dump_shows true [1, 2, 3, 4, 5] true (by decide)
  exact ⟨out, hout, htexts⟩

end Console
