/-
What `mipos_tfs_fwrite` stores, `mipos_tfs_fread` reads back.

The stream goes back by the number of bytes written, from its current position: a seek from the
beginning of the file does not reach its first byte.
-/
import Mipos.TfsElements
import Mipos.TfsSeek

namespace Stdio

open Tfs

variable {δ : Type} {port : Port δ} {bytes : δ → ℕ → UInt8} {fs fs' : Fs δ}
  {chain : ℕ → List ℕ} {f : File} {buffer : List UInt8} {size count : ℕ}

/-- A write that reports all its elements has stored them. -/
theorem fwrite_all (hr : port.Reliable bytes) (hi : FsInv fs chain)
    (hcount : byteCount port size count = buffer.length) (hlt : buffer.length < 2 ^ 32)
    (hlen : buffer.length = size * count) (hpos : 0 < buffer.length)
    (hwrite : fwrite port fs buffer size count f = some (fs', count)) :
    ∃ l, WriteOk port fs fs' f.handle chain buffer l := by
  obtain ⟨ok, k, hfile, hall⟩ := fwrite_some hwrite
  rw [hcount, Nat.mod_eq_of_lt hlt] at hfile
  obtain ⟨fs₁, ok', n, hrun, hok⟩ := writeFile_spec hr.succeeds hi hpos f.handle
  cases hfile.symm.trans hrun
  cases ok with
  | true => exact (hok rfl).2
  | false =>
    -- fewer bytes than asked for are fewer elements
    rw [hcount, hlen] at hall
    split at hall
    · rename_i hless
      have := Nat.div_lt_of_lt_mul (hless.resolve_left Bool.false_ne_true)
      omega
    · rw [hlen, hall, Nat.mul_zero] at hpos
      cases hpos

/-- The stream goes back to where a write began. -/
theorem tinyFseek_back {l : List ℕ} (hw : WriteOk port fs fs' f.handle chain buffer l) :
    ∃ fs₁, tinyFseek fs' f (-buffer.length) 1 = some (fs₁, 0) ∧ Touched port fs' f.handle fs₁ ∧
      (fs₁.fileCtl f.handle).seekPointer = (fs.fileCtl f.handle).seekPointer := by
  have hlive := (hw.live_iff f.handle).mpr hw.live
  have hsize := hw.size_eq
  have hbound := hw.inv.table.size_le hlive
  rw [storageAreaSize] at hbound
  have hmoves : Moves fs' f.handle .current (-buffer.length) :=
    ⟨hw.inv.unlocked _ hlive, by intro h; cases h⟩
  obtain ⟨fs₁, hmove, hback⟩ := seekFile_moves hw.inv.lock hlive.1 hmoves (by decide) (by omega)
  have hk : (-buffer.length : ℤ).bmod (2 ^ 32) = -buffer.length :=
    Int.bmod_eq_of_le (by omega) (by omega)
  have hseek : (fs'.fileCtl f.handle).seekPointer
      = (fs.fileCtl f.handle).seekPointer + buffer.length := by
    rw [hw.state]
    simp [writtenState, wrote, setTable]
  rw [base, hseek] at hback
  exact ⟨fs₁, tinyFseek_true rfl hk hmove, seekFile_touched hw.inv.lock hmove, by omega⟩

/-- **What is written is read back**: from any position of an open stream, after a write that
reports all its elements, going back and reading as many elements delivers the bytes written. -/
theorem fread_fwrite (hr : port.Reliable bytes) (hi : FsInv fs chain)
    (hlen : buffer.length = size * count) (hpos : 0 < buffer.length)
    (hptr : buffer.length < 2 ^ (8 * port.sizeofPtr)) (hlt : buffer.length < 2 ^ 32)
    (hwrite : fwrite port fs buffer size count f = some (fs', count)) :
    ∃ fs₁ fs₂, tinyFseek fs' f (-buffer.length) 1 = some (fs₁, 0) ∧
      fread port fs₁ size count f = some (fs₂, count, buffer) := by
  have hcount : byteCount port size count = buffer.length := by
    rw [byteCount, ← hlen, Nat.mod_eq_of_lt hptr]
  obtain ⟨l, hw⟩ := fwrite_all hr hi hcount hlt hlen hpos hwrite
  obtain ⟨fs₁, hmove, ht, hp⟩ := tinyFseek_back hw
  have hlive := (hw.live_iff f.handle).mpr hw.live
  have hsize := hw.size_eq
  have hbound := hw.inv.table.size_le hlive
  rw [storageAreaSize] at hbound
  have hopen : (fs₁.fileCtl f.handle).isOpen = true := by
    rw [ht.isOpen_eq, hw.state]
    simp [writtenState, wrote, setTable, hw.isOpen]
  have hsame : contents bytes fs₁ f.handle
      = splice (contents bytes fs f.handle) (fs.fileCtl f.handle).seekPointer buffer := by
    rw [← hw.contents_eq hr hi, contents, contents, ht.ftbl_eq, hr.reads ht.reads]
  obtain ⟨fs₂, hread, -⟩ := readFile_spec hr (hw.inv.touched ht) hlive.1 hopen hpos
    (by rw [hp, ht.ftbl_eq]; omega) (by rw [hp]; omega)
  rw [hp, hsame, ht.ftbl_eq, drop_take_splice (by rw [length_contents]; exact hw.seek_le)] at hread
  have hmin : min buffer.length ((fs'.ftbl.fileFsDesc f.handle).size
      - (fs.fileCtl f.handle).seekPointer) = size * count := by omega
  rw [hmin, ← Nat.mod_eq_of_lt hlt, ← hcount] at hread
  have hne : size ≠ 0 := by
    rintro rfl
    omega
  refine ⟨fs₁, fs₂, hmove, ?_⟩
  rw [fread_succeeded hne hread, Nat.mul_div_cancel_left _ (Nat.pos_of_ne_zero hne)]

/-- Two elements of two bytes. -/
theorem fread_fwrite_two : ∃ fs' fs₁ fs₂ : Fs (ℕ → UInt8),
    tinyFseek fs' ⟨0, false⟩ (-4) 1 = some (fs₁, 0) ∧
      fread memPort fs₁ 2 2 ⟨0, false⟩ = some (fs₂, 2, [1, 2, 3, 4]) := by
  have hmkfs : mkfs memPort (blankFs fun _ => 0) none = _ :=
    mkfs_eq memPort_reliable.succeeds rfl none
  have heval : ∃ fs, Tfs.runCalls memPort
        (flush memPort (formatted memPort (blankFs fun _ => 0) none)) [.createFile [97]] = some fs ∧
      ∃ fs', fwrite memPort fs [1, 2, 3, 4] 2 2 ⟨0, false⟩ = some (fs', 2) := by decide +kernel
  obtain ⟨fs, hcalls, fs', hwrite⟩ := heval
  obtain ⟨chain, hi⟩ := run_inv memPort_reliable.succeeds hmkfs
    (Tfs.run_of_runCalls hcalls (by simp [Tfs.Call.Allowed]))
  have hback := fread_fwrite memPort_reliable hi (by rfl) (by decide) (by decide) (by decide) hwrite
  exact ⟨fs', hback⟩

end Stdio
