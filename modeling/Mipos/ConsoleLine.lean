/-
Line input of the console (`recvr_task` of `mipos_console.c`).

The receiver task stores the characters it gets in `rs232_rx_buf`, takes back the last one on a
backspace, and splits and executes the line at an end of line.  It stores no terminator: the line
is terminated by the bytes of the buffer that have not been written.  After an end of line the
same character is looked at again, and stored if it is printable.

* `recvAll_eq` — what is in the buffer after any input.
* `endLine_ofLine` — the end of a line that leaves room for a NUL.
* `console_safe_iff` — for which inputs the buffer always holds what was typed, terminated.
* `full_buffer` — 32 characters and an end of line.

The echo, the prompt and the callback for received lines are left out, and so is what the
commands do.
-/
import Mathlib.Data.List.DropRight
import Mipos.ConsoleSplit

namespace Console

/-! ### The code -/

def rs232RxBufLen : ℕ := 32
def consoleMaxArgsCount : ℕ := 8

def ascii (s : String) : List UInt8 := s.toList.map fun c => UInt8.ofNat c.toNat

/-- The names in `_mipos_cmd_list`. -/
def miposCmdList : List (List UInt8) :=
  ["help", "ver", "dump", "patch", "ps", "freeze", "unfreeze", "delete", "signal"].map ascii

/-- What the receiver reads of the configuration: `end_line_char`, and the names in
`registered_cmd_list`, if there is one. -/
structure Receiver where
  endLineChar : UInt8
  registeredCmdList : Option (List (List UInt8))

/-- `rs232_rx_buf` and `rs232_rx_buf_idx`. -/
structure Rx where
  rxBuf : List UInt8
  rxBufIdx : ℕ
  deriving DecidableEq, Repr

def Rx.init : Rx := ⟨List.replicate rs232RxBufLen 0, 0⟩

/-- `strcmp(s, t) == 0`, on the characters from `s` and `t` on. -/
def strcmpEq : List UInt8 → List UInt8 → Option Bool
  | a :: s, b :: t => if a ≠ b then some false else if a = 0 then some true else strcmpEq s t
  | _, _ => none

/-- `try_exec_cmd`: the index of the command that is executed, if any. -/
def tryExecCmd (line : List UInt8) (argv : List ℕ) (indexOfCmd : ℕ) :
    List (List UInt8) → Option (Option ℕ)
  | [] => some none
  | cmdStr :: cmdList =>
    match argv with
    | [] => tryExecCmd line argv (indexOfCmd + 1) cmdList
    | p :: _ => (strcmpEq (line.drop p) (cmdStr ++ [0])).bind fun equal =>
      if equal then some (some indexOfCmd) else tryExecCmd line argv (indexOfCmd + 1) cmdList

/-- The end of a line: it is split, the command is looked for in both lists, and the buffer is
cleared.  A call that does not return or stores outside `argv` is undefined. -/
def endLine (r : Receiver) (rx : Rx) : Option Rx :=
  (splitCommand (rx.rxBufIdx + 1) rx.rxBuf rx.rxBufIdx consoleMaxArgsCount).bind fun res =>
    if res.2 = true ∨ consoleMaxArgsCount < res.1.argv.length then none
    else (tryExecCmd res.1.line res.1.argv 0 miposCmdList).bind fun index =>
      match index, r.registeredCmdList with
      | none, some cmdList =>
        (tryExecCmd res.1.line res.1.argv 0 cmdList).map fun _ => Rx.init
      | _, _ => some Rx.init

/-- The character is stored, or takes back the last one. -/
def store (rx : Rx) (c : UInt8) : Rx :=
  if c > 31 ∧ rx.rxBufIdx < rs232RxBufLen then
    ⟨rx.rxBuf.set rx.rxBufIdx c, rx.rxBufIdx + 1⟩
  else if c = 8 ∧ rx.rxBufIdx > 0 then
    ⟨rx.rxBuf.set (rx.rxBufIdx - 1) 0, rx.rxBufIdx - 1⟩
  else rx

/-- A round of the loop of `recvr_task`, which has received `c`. -/
def recvByte (r : Receiver) (rx : Rx) (c : UInt8) : Option Rx :=
  if c = 0 then some rx
  else if c = r.endLineChar then (endLine r rx).map fun rx => store rx c
  else some (store rx c)

/-- The receiver task, from its start. -/
def recvAll (r : Receiver) (bytes : List UInt8) : Option Rx := bytes.foldlM (recvByte r) Rx.init

/-! ### What was typed -/

/-- A printable character is appended while there is room, and a backspace takes back the last
one. -/
def typeByte (line : List UInt8) (c : UInt8) : List UInt8 :=
  if c > 31 ∧ line.length < rs232RxBufLen then line ++ [c]
  else if c = 8 then line.dropLast
  else line

/-- The byte ends a line. -/
def Receiver.isEol (r : Receiver) (c : UInt8) : Bool := c != 0 && c == r.endLineChar

/-- The bytes since the last end of line. -/
def Receiver.since (r : Receiver) (bytes : List UInt8) : List UInt8 :=
  bytes.rtakeWhile fun c => !r.isEol c

/-- What is typed in a line that begins with `start`. -/
def typed (start bytes : List UInt8) : List UInt8 := bytes.foldl typeByte start

/-- What is in the buffer when a line begins: the end of line before it, if that is printable. -/
def Receiver.leftover (r : Receiver) (bytes : List UInt8) : List UInt8 :=
  if bytes.any r.isEol then typeByte [] r.endLineChar else []

/-- The buffer with a line in it. -/
def Rx.ofLine (line : List UInt8) : Rx :=
  ⟨line ++ List.replicate (rs232RxBufLen - line.length) 0, line.length⟩

/-- The line is printable and fits into the buffer. -/
structure Fits (line : List UInt8) : Prop where
  length : line.length ≤ rs232RxBufLen
  printable : ∀ c ∈ line, c > 31

variable {r : Receiver} {line bytes pre post : List UInt8} {c : UInt8} {rx rx' : Rx}

theorem Fits.ne_zero (h : Fits line) (c : UInt8) (hc : c ∈ line) : c ≠ 0 := by
  rintro rfl
  cases h.printable 0 hc

theorem Fits.typeByte (h : Fits line) (c : UInt8) : Fits (typeByte line c) := by
  rw [Console.typeByte]
  split
  · rename_i hc
    refine ⟨?_, ?_⟩
    · rw [List.length_append]
      exact hc.2
    · intro a ha
      rcases List.mem_append.mp ha with ha | ha
      · exact h.printable a ha
      · rw [List.mem_singleton.mp ha]
        exact hc.1
  · split
    · exact ⟨by have := h.length; rw [List.length_dropLast]; omega,
        fun a ha => h.printable a ((List.dropLast_sublist line).subset ha)⟩
    · exact h

theorem Fits.typed (h : Fits line) (bytes : List UInt8) : Fits (typed line bytes) := by
  induction bytes generalizing line with
  | nil => exact h
  | cons c bytes ih => exact ih (h.typeByte c)

theorem fits_nil : Fits [] := ⟨Nat.zero_le _, nofun⟩

@[simp] theorem Rx.ofLine_rxBufIdx (line : List UInt8) : (Rx.ofLine line).rxBufIdx = line.length :=
  rfl

/-- The buffer with one more character. -/
theorem Rx.ofLine_append (line : List UInt8) (c : UInt8) (hlen : line.length < rs232RxBufLen) :
    ∃ m, rs232RxBufLen - line.length = m + 1 ∧
      Rx.ofLine (line ++ [c]) = ⟨line ++ c :: List.replicate m 0, line.length + 1⟩ := by
  obtain ⟨m, hm⟩ := Nat.exists_eq_add_one_of_ne_zero (Nat.sub_pos_of_lt hlen).ne'
  have hrest : rs232RxBufLen - (line ++ [c]).length = m := by
    rw [List.length_append, List.length_singleton]
    omega
  refine ⟨m, hm, ?_⟩
  rw [Rx.ofLine, hrest]
  simp

/-- Storing a character is typing it. -/
theorem store_ofLine (h : Fits line) (c : UInt8) :
    store (.ofLine line) c = .ofLine (typeByte line c) := by
  rw [store, typeByte, Rx.ofLine_rxBufIdx]
  split
  · rename_i hc
    obtain ⟨m, hm, heq⟩ := Rx.ofLine_append line c hc.2
    rw [heq, Rx.ofLine, hm, List.replicate_succ]
    simp
  · rcases List.eq_nil_or_concat line with rfl | ⟨init, a, rfl⟩
    · simp
    · by_cases hback : c = 8
      · have hlen := h.length
        rw [List.concat_eq_append] at hlen ⊢
        rw [List.length_append, List.length_singleton] at hlen
        obtain ⟨m, hm, heq⟩ := Rx.ofLine_append init a (by omega)
        rw [if_pos ⟨hback, by simp⟩, if_pos hback, heq, List.dropLast_concat, Rx.ofLine, hm,
          List.replicate_succ]
        simp
      · rw [if_neg (fun h => hback h.1), if_neg hback]

/-! ### What is in the buffer -/

/-- What is in the buffer after the bytes. -/
def Receiver.lineOf (r : Receiver) (bytes : List UInt8) : List UInt8 :=
  typed (r.leftover bytes) (r.since bytes)

theorem isEol_iff : r.isEol c = true ↔ c ≠ 0 ∧ c = r.endLineChar := by
  rw [Receiver.isEol, Bool.and_eq_true, bne_iff_ne, beq_iff_eq]

theorem lineOf_append (r : Receiver) (bytes : List UInt8) (c : UInt8) :
    r.lineOf (bytes ++ [c]) = typeByte (if r.isEol c then [] else r.lineOf bytes) c := by
  rw [Receiver.lineOf, Receiver.since, Receiver.leftover, List.rtakeWhile_concat, List.any_append]
  by_cases heol : r.isEol c = true
  · simp [heol, typed, ← (isEol_iff.mp heol).2]
  · simp [heol, typed, Receiver.lineOf, Receiver.leftover, Receiver.since]

theorem fits_lineOf (r : Receiver) (bytes : List UInt8) : Fits (r.lineOf bytes) := by
  rw [Receiver.lineOf, Receiver.leftover]
  split
  · exact (fits_nil.typeByte _).typed _
  · exact fits_nil.typed _

theorem endLine_eq_some (hs : endLine r rx = some rx') : rx' = Rx.init := by
  obtain ⟨res, -, hs⟩ := Option.bind_eq_some_iff.mp hs
  split at hs
  · cases hs
  · obtain ⟨index, -, hs⟩ := Option.bind_eq_some_iff.mp hs
    split at hs
    · obtain ⟨_, -, rfl⟩ := Option.map_eq_some_iff.mp hs
      rfl
    · cases hs
      rfl

theorem recvByte_ofLine (h : Fits line) (hs : recvByte r (.ofLine line) c = some rx) :
    rx = .ofLine (typeByte (if r.isEol c then [] else line) c) := by
  rw [recvByte] at hs
  split at hs
  · rename_i hzero
    cases hs
    rw [hzero]
    rfl
  · rename_i hzero
    split at hs
    · rename_i heol
      obtain ⟨rx', hend, rfl⟩ := Option.map_eq_some_iff.mp hs
      rw [endLine_eq_some hend, if_pos (isEol_iff.mpr ⟨hzero, heol⟩)]
      exact store_ofLine fits_nil c
    · rename_i heol
      cases hs
      rw [if_neg fun h => heol (isEol_iff.mp h).2]
      exact store_ofLine h c

theorem recvAll_append (r : Receiver) (bytes : List UInt8) (c : UInt8) :
    recvAll r (bytes ++ [c]) = (recvAll r bytes).bind fun rx => recvByte r rx c := by
  rw [recvAll, List.foldlM_append]
  simp [recvAll]

/-- **What is in the buffer** after any input. -/
theorem recvAll_eq (hs : recvAll r bytes = some rx) : rx = .ofLine (r.lineOf bytes) := by
  induction bytes using List.reverseRecOn generalizing rx with
  | nil =>
    cases hs
    rfl
  | append_singleton bytes c ih =>
    rw [recvAll_append] at hs
    obtain ⟨rx', hrest, hbyte⟩ := Option.bind_eq_some_iff.mp hs
    rw [ih hrest] at hbyte
    rw [lineOf_append]
    exact recvByte_ofLine (fits_lineOf r bytes) hbyte

/-! ### The end of a line -/

/-- A comparison ends at a NUL at the latest. -/
theorem strcmpEq_isSome {s : List UInt8} (h : 0 ∈ s) (t : List UInt8) :
    ∃ equal, strcmpEq s (t ++ [0]) = some equal := by
  induction s generalizing t with
  | nil => cases h
  | cons a s ih =>
    cases t with
    | nil =>
      rw [List.nil_append, strcmpEq]
      split
      · exact ⟨_, rfl⟩
      · rename_i heq
        rw [if_pos (not_not.mp heq)]
        exact ⟨_, rfl⟩
    | cons b t =>
      rw [List.cons_append, strcmpEq]
      split
      · exact ⟨_, rfl⟩
      · split
        · exact ⟨_, rfl⟩
        · rename_i hzero
          exact ih ((List.mem_cons.mp h).resolve_left fun h => hzero h.symm) t

theorem tryExecCmd_isSome {argv : List ℕ} (h : ∀ p ∈ argv, 0 ∈ line.drop p)
    (cmdList : List (List UInt8)) (indexOfCmd : ℕ) :
    ∃ index, tryExecCmd line argv indexOfCmd cmdList = some index := by
  induction cmdList generalizing indexOfCmd with
  | nil => exact ⟨_, rfl⟩
  | cons cmdStr cmdList ih =>
    cases argv with
    | nil => exact ih (indexOfCmd + 1)
    | cons p argv =>
      obtain ⟨equal, hequal⟩ := strcmpEq_isSome (h p List.mem_cons_self) cmdStr
      rw [tryExecCmd, hequal, Option.bind_some]
      split
      · exact ⟨_, rfl⟩
      · exact ih (indexOfCmd + 1)

/-- A line without NULs has few arguments: each round begins further behind the last one. -/
theorem Finds.length_le {text : List UInt8} {place pos k : ℕ} {args : List ℕ}
    (hfinds : Finds place pos text args) (h : ∀ c ∈ text, c ≠ 0) (hk : k < args.length) :
    2 * (k * pos) + k * (k + 1) ≤ 2 * text.length := by
  induction hfinds generalizing k with
  | blank => cases hk
  | last =>
    obtain rfl : k = 0 := Nat.lt_one_iff.mp hk
    simp
  | @more _ pos text blanks word after _ hbegins hgoes _ ih =>
    cases k with
    | zero => simp
    | succ j =>
      have hsum := hbegins.length
      have hpos := hbegins.pos_of_head (List.ne_nil_of_length_pos (by omega))
        (fun hhead => h 0 (List.mem_of_mem_head? hhead) rfl)
      have hafter : ∀ c ∈ after.drop pos, c ≠ 0 := by
        intro c hc
        refine h c ?_
        rw [hbegins.eq]
        exact List.mem_append_right _ (List.mem_append_right _ (List.mem_of_mem_drop hc))
      have hrest := ih hafter (Nat.lt_of_succ_lt_succ hk)
      obtain ⟨d, hd⟩ : ∃ d, blanks.length + word.length = d + 1 := Nat.exists_eq_add_one.mpr hpos
      rw [List.length_drop, Nat.add_assoc pos, hd] at hrest
      simp only [Nat.mul_add, Nat.add_mul, Nat.mul_one, Nat.one_mul] at hrest ⊢
      omega

theorem endLine_ofLine (h : Fits line) (hlen : line.length < rs232RxBufLen) :
    endLine r (.ofLine line) = some Rx.init := by
  obtain ⟨m, hm⟩ := Nat.exists_eq_add_one_of_ne_zero (Nat.sub_pos_of_lt hlen).ne'
  have hnul := h.ne_zero
  have hat : Split.At ⟨(Rx.ofLine line).rxBuf, 0, line.length, 0, []⟩ [] line
      (List.replicate m 0) := by
    refine ⟨?_, rfl, by simp⟩
    rw [Rx.ofLine, hm, List.replicate_succ]
    rfl
  obtain ⟨s, text, args, hrun, hline, htext, hargv, hfinds⟩ := Split.run_ends hat
    (Nat.lt_succ_self _) (.inr fun hhead => hnul 0 (List.mem_of_mem_head? hhead) rfl)
  have hfew : ¬consoleMaxArgsCount < s.argv.length := by
    intro hmany
    rw [hargv, List.nil_append] at hmany
    have hsum := hfinds.length_le hnul hmany
    rw [consoleMaxArgsCount] at hsum
    rw [rs232RxBufLen] at hlen
    omega
  have hends : ∀ p ∈ s.argv, 0 ∈ s.line.drop p := by
    intro p hp
    rw [hargv, List.nil_append] at hp
    have hin : p ≤ text.length := by simpa [htext] using hfinds.le_length p hp
    rw [hline, List.nil_append, List.drop_append_of_le_length hin]
    simp
  obtain ⟨index, hindex⟩ := tryExecCmd_isSome hends miposCmdList 0
  have hsplit : splitCommand ((Rx.ofLine line).rxBufIdx + 1) (Rx.ofLine line).rxBuf
      ((Rx.ofLine line).rxBufIdx : ℕ) consoleMaxArgsCount = some (s, false) := hrun
  rw [endLine, hsplit, Option.bind_some, if_neg (by simpa using hfew), hindex, Option.bind_some]
  split
  · rename_i cmdList _
    obtain ⟨index', hindex'⟩ := tryExecCmd_isSome hends cmdList 0
    rw [hindex']
    rfl
  · rfl

/-! ### Safe inputs -/

/-- The buffer holds the line and a NUL. -/
def Rx.Holds (rx : Rx) (line : List UInt8) : Prop :=
  rx.rxBuf.length = rs232RxBufLen ∧ ∃ rest, rx.rxBuf = line ++ 0 :: rest

/-- After each part of the input, the receiver has read and written only its buffer, the index is
within bounds, and at an end of line the buffer holds what has been typed since the last one. -/
def SafeInput (r : Receiver) (bytes : List UInt8) : Prop :=
  ∀ pre post, bytes = pre ++ post → ∃ rx, recvAll r pre = some rx ∧
    rx.rxBufIdx ≤ rs232RxBufLen ∧
    ∀ c ∈ post.head?, r.isEol c = true → rx.Holds (typed [] (r.since pre))

theorem Rx.ofLine_length (h : Fits line) : (Rx.ofLine line).rxBuf.length = rs232RxBufLen := by
  have := h.length
  rw [Rx.ofLine, List.length_append, List.length_replicate]
  omega

/-- A buffer holds one line only. -/
theorem line_unique {line line' rest : List UInt8} {k : ℕ} (h : ∀ c ∈ line, c ≠ 0)
    (h' : ∀ c ∈ line', c ≠ 0) (heq : line ++ List.replicate k 0 = line' ++ 0 :: rest) :
    line = line' := by
  have hwhile := congrArg (List.takeWhile (· ≠ (0 : UInt8))) heq
  rw [List.takeWhile_append_of_pos (by simpa using h),
    List.takeWhile_append_of_pos (by simpa using h')] at hwhile
  simpa using hwhile

/-- The next byte is received, if it does not end a line that fills the buffer. -/
theorem recvByte_isSome (h : Fits line)
    (heol : r.isEol c = true → line.length < rs232RxBufLen) :
    ∃ rx, recvByte r (.ofLine line) c = some rx := by
  rw [recvByte]
  split
  · exact ⟨_, rfl⟩
  · rename_i hzero
    split
    · rename_i hend
      rw [endLine_ofLine h (heol (isEol_iff.mpr ⟨hzero, hend⟩))]
      exact ⟨_, rfl⟩
    · exact ⟨_, rfl⟩

/-- **Safe inputs.**  The receiver is safe just if, at each end of line, less than 32 characters
have been typed since the last one, and that one is not in front of them: it is not printable,
there is none, or it has been taken back. -/
theorem console_safe_iff (r : Receiver) (bytes : List UInt8) :
    SafeInput r bytes ↔ ∀ pre c post, bytes = pre ++ c :: post → r.isEol c = true →
      (typed [] (r.since pre)).length < rs232RxBufLen ∧
      typed (r.leftover pre) (r.since pre) = typed [] (r.since pre) := by
  constructor
  · intro hsafe pre c post hbytes heol
    obtain ⟨rx, hrx, -, hend⟩ := hsafe pre (c :: post) hbytes
    obtain ⟨hlen, rest, hbuf⟩ := hend c rfl heol
    have hfits := fits_nil.typed (r.since pre)
    rw [hbuf, List.length_append, List.length_cons] at hlen
    refine ⟨by omega, ?_⟩
    rw [recvAll_eq hrx] at hbuf
    exact line_unique (fits_lineOf r pre).ne_zero hfits.ne_zero hbuf
  · intro hcond
    have hdefined : ∀ pre post, bytes = pre ++ post → ∃ rx, recvAll r pre = some rx := by
      intro pre
      induction pre using List.reverseRecOn with
      | nil => exact fun _ _ => ⟨_, rfl⟩
      | append_singleton pre c ih =>
        intro post hbytes
        rw [List.append_assoc, List.singleton_append] at hbytes
        obtain ⟨rx, hrx⟩ := ih (c :: post) hbytes
        rw [recvAll_append, hrx, recvAll_eq hrx, Option.bind_some]
        refine recvByte_isSome (fits_lineOf r pre) fun heol => ?_
        obtain ⟨hlen, hsame⟩ := hcond pre c post hbytes heol
        rw [Receiver.lineOf, hsame]
        exact hlen
    intro pre post hbytes
    obtain ⟨rx, hrx⟩ := hdefined pre post hbytes
    have hfits := fits_lineOf r pre
    have heq := recvAll_eq hrx
    refine ⟨rx, hrx, heq ▸ hfits.length, fun c hc heol => ?_⟩
    obtain ⟨post, rfl⟩ := List.head?_eq_some_iff.mp hc
    obtain ⟨hlen, hsame⟩ := hcond pre c post hbytes heol
    refine ⟨heq ▸ Rx.ofLine_length hfits, List.replicate (rs232RxBufLen
      - (typed [] (r.since pre)).length - 1) 0, ?_⟩
    rw [heq, Receiver.lineOf, hsame, Rx.ofLine, ← List.replicate_succ, Nat.sub_add_cancel (by omega)]

/-- **Unsafe inputs.**  After 32 letters nothing terminates the line, and looking for the end of
the word at the end of line reads behind the buffer.  And where a semicolon ends a line, the next
line begins with it: after `a;b` the buffer does not hold `b`. -/
theorem full_buffer :
    (recvAll ⟨13, none⟩ (List.replicate 32 97)).any (·.rxBuf == List.replicate 32 97) = true ∧
    recvAll ⟨13, none⟩ (List.replicate 32 97 ++ [13]) = none ∧
    ¬SafeInput ⟨13, none⟩ (List.replicate 32 97 ++ [13]) ∧
    (recvAll ⟨59, none⟩ [97, 59, 98]).any (·.rxBuf.take 3 == [59, 98, 0]) = true := by
  have hnone : recvAll ⟨13, none⟩ (List.replicate 32 97 ++ [13]) = none := by decide +kernel
  refine ⟨by decide +kernel, hnone, fun hsafe => ?_, by decide +kernel⟩
  obtain ⟨rx, hrx, -⟩ := hsafe _ [] (List.append_nil _).symm
  cases hnone.symm.trans hrx

end Console
