/-
Positions of streams.

`mipos_tiny_fseek` returns 0 when `mipos_tfs_seek_file` returns `TRUE`, and otherwise the offset,
which may be 0 as well.  From the beginning of the file `mipos_tfs_seek_file` takes only
offsets between the two ends; from elsewhere it takes them all, in 32 bits.

* `seekFile_moves`, `seekFile_refuses` — when `mipos_tfs_seek_file` moves, and where to;
* `fseek_reports_iff` — when the value that `mipos_tiny_fseek` returns tells what it did;
* `fseek_misreports` — the beginning, the end, a position before the beginning, and an origin
  that is none.
-/
import Mipos.TfsOverread
import Mipos.TfsStdio

namespace Stdio

open Tfs Relation

variable {δ : Type} {fs fs' : Fs δ} {h : ℕ} {code : SeekCode} {f : File} {k o origin : ℤ}

/-- The position that an offset is counted from. -/
def base (fs : Fs δ) (h : ℕ) : SeekCode → ℤ
  | .current => (fs.fileCtl h).seekPointer
  | .fromEnd => (fs.ftbl.fileFsDesc h).size
  | .begin => 0
  | .invalid => 0

/-- `mipos_tfs_seek_file` returns `TRUE`. -/
structure Moves (fs : Fs δ) (h : ℕ) (code : SeekCode) (k : ℤ) : Prop where
  unlocked : (fs.fileCtl h).locked = false
  inside : code = .begin → 0 < k ∧ k < (fs.ftbl.fileFsDesc h).size

/-- What a seek reports: the value is 0 just if the position is the one asked for, which it
always is if that is in the file, and any other value says that nothing was moved. -/
structure Reports (sizeofLong : ℕ) (fs fs' : Fs δ) (f : File) (o origin r : ℤ) : Prop where
  zero_iff : r = 0 ↔ ∃ code, seekCode origin = some code ∧
    ((fs'.fileCtl f.handle).seekPointer : ℤ) = base fs f.handle code + o
  accepts : ∀ code, seekCode origin = some code → 0 ≤ base fs f.handle code + o →
    base fs f.handle code + o ≤ (fs.ftbl.fileFsDesc f.handle).size → r = 0
  stays : r ≠ 0 → (fs'.fileCtl f.handle).seekPointer = (fs.fileCtl f.handle).seekPointer
  tells : seekCode origin = some .begin → o = 0 →
    r = 0 ∧ ∃ fs'', ftell sizeofLong fs' f = some (fs'', 0)

/-- The origin is one of the three; an offset that is taken leads to a position of 32 bits, and
one that is refused is 0 as an `int` just if there is nothing to move, and always if it
leads into the file. -/
structure SeekExact (fs : Fs δ) (h : ℕ) (o : ℤ) (code : SeekCode) : Prop where
  fits : Moves fs h code (o.bmod (2 ^ 32)) → 0 ≤ base fs h code + o ∧ base fs h code + o < 2 ^ 32
  refused : ¬Moves fs h code (o.bmod (2 ^ 32)) →
    (o.bmod (2 ^ 32) = 0 ↔ ((fs.fileCtl h).seekPointer : ℤ) = base fs h code + o) ∧
      (0 ≤ base fs h code + o → base fs h code + o ≤ (fs.ftbl.fileFsDesc h).size →
        o.bmod (2 ^ 32) = 0)

theorem seekCode_ne_invalid (hcode : seekCode origin = some code) : code ≠ .invalid := by
  rintro rfl
  rw [seekCode] at hcode
  split_ifs at hcode <;> cases hcode

/-- The conversion to `int` is lost again in the sum. -/
theorem add_bmod_emod (b o : ℤ) : (b + o.bmod (2 ^ 32)) % 2 ^ 32 = (b + o) % 2 ^ 32 := by
  have hmod : o.bmod (2 ^ 32) % 2 ^ 32 = o % 2 ^ 32 := Int.bmod_emod
  rw [Int.add_emod, hmod, ← Int.add_emod]

section

variable (hl : fs.lock = false) (hh : h < maxNOfFiles)

include hl hh in
theorem seekFile_moves (hmoves : Moves fs h code k) (hcode : code ≠ .invalid) (hk : k < 2 ^ 31) :
    ∃ fs', seekFile fs code k h = some (fs', true) ∧
      ((fs'.fileCtl h).seekPointer : ℤ) = (base fs h code + k) % 2 ^ 32 := by
  have hl₁ : (holding fs h).lock = false := hl
  rw [seekFile, lockFile_holding hh hmoves.unlocked]
  dsimp only
  rw [getFdCtl_eq hl₁]
  dsimp only [Option.bind_eq_bind, Option.bind_some]
  rw [holding_fileCtl, holding_ftbl]
  -- the three kinds of targets
  have hmoved : ∀ p, ∃ fs', (withAccess (holding fs h) fun fs =>
      some (setCtl fs h { fs.fileCtl h with seekPointer := p }, ())).bind
        (fun r => some ((unlockFile r.1 h).1, true)) = some (fs', true) ∧
      (fs'.fileCtl h).seekPointer = p := by
    intro p
    rw [withAccess_setCtl hl₁ h fun ctl => { ctl with seekPointer := p }]
    refine ⟨_, rfl, ?_⟩
    rw [unlockFile_seekPointer]
    simp
  cases code with
  | begin =>
    obtain ⟨hpos, hlt⟩ := hmoves.inside rfl
    dsimp only
    rw [if_pos ⟨hpos, hlt⟩]
    obtain ⟨fs', hrun, hseek⟩ := hmoved k.toNat
    refine ⟨fs', hrun, ?_⟩
    rw [hseek, base]
    omega
  | current =>
    obtain ⟨fs', hrun, hseek⟩ := hmoved (addInt32 (fs.fileCtl h).seekPointer k)
    refine ⟨fs', hrun, ?_⟩
    rw [hseek, base, addInt32]
    omega
  | fromEnd =>
    obtain ⟨fs', hrun, hseek⟩ := hmoved (addInt32 (fs.ftbl.fileFsDesc h).size k)
    refine ⟨fs', hrun, ?_⟩
    rw [hseek, base, addInt32]
    omega
  | invalid => exact absurd rfl hcode

include hl hh in
theorem seekFile_refuses (hstays : ¬Moves fs h code k) :
    ∃ fs', seekFile fs code k h = some (fs', false) ∧ fs'.lock = false ∧
      (fs'.fileCtl h).seekPointer = (fs.fileCtl h).seekPointer := by
  rw [seekFile]
  rcases free_or_busy fs h with ⟨-, hfree⟩ | hbusy
  · obtain ⟨hbegin, hout⟩ : code = .begin ∧ ¬(0 < k ∧ k < (fs.ftbl.fileFsDesc h).size) := by
      by_contra hno
      refine hstays ⟨hfree, fun hbegin => ?_⟩
      by_contra hout
      exact hno ⟨hbegin, hout⟩
    subst hbegin
    have hl₁ : (holding fs h).lock = false := hl
    rw [lockFile_holding hh hfree]
    dsimp only
    rw [getFdCtl_eq hl₁]
    dsimp only [Option.bind_eq_bind, Option.bind_some]
    rw [holding_ftbl, if_neg hout]
    refine ⟨_, rfl, ?_, ?_⟩
    · rw [unlockFile_lock]
      exact hl₁
    · rw [unlockFile_seekPointer, setError_fileCtl, holding_fileCtl]
  · rw [lockFile_busy hbusy]
    exact ⟨_, rfl, hl, rfl⟩

end

theorem tinyFseek_true (hcode : seekCode origin = some code) (hk : o.bmod (2 ^ 32) = k)
    (hrun : seekFile fs code k f.handle = some (fs', true)) :
    tinyFseek fs f o origin = some (fs', 0) := by
  rw [tinyFseek, hcode]
  dsimp only
  rw [hk, hrun]
  rfl

theorem tinyFseek_false (hcode : seekCode origin = some code) (hk : o.bmod (2 ^ 32) = k)
    (hrun : seekFile fs code k f.handle = some (fs', false)) :
    tinyFseek fs f o origin = some (fs', k) := by
  rw [tinyFseek, hcode]
  dsimp only
  rw [hk, hrun]
  rfl

/-- At the beginning `mipos_tfs_ftell` returns 0. -/
theorem ftell_zero (hl : fs.lock = false) (hh : f.handle < maxNOfFiles)
    (hzero : (fs.fileCtl f.handle).seekPointer = 0) (sizeofLong : ℕ) :
    ftell sizeofLong fs f = some (fs, 0) := by
  rw [ftell, if_neg (Nat.not_le.mpr hh), getFdCtl_eq hl]
  simp [hzero]

/-- **What a seek reports**, for every offset and every origin: the truth just under the
condition of `SeekExact`, and never if the origin is none of the three. -/
theorem fseek_reports_iff (hl : fs.lock = false) (hh : f.handle < maxNOfFiles) (sizeofLong : ℕ)
    (o origin : ℤ) : ∃ fs' r, tinyFseek fs f o origin = some (fs', r) ∧
      (Reports sizeofLong fs fs' f o origin r ↔
        ∃ code, seekCode origin = some code ∧ SeekExact fs f.handle o code) := by
  cases hcode : seekCode origin with
  | none =>
    have hrun : tinyFseek fs f o origin = some (fs, 0) := by rw [tinyFseek, hcode]
    refine ⟨fs, 0, hrun, fun hreports => ?_, fun ⟨_, hsome, _⟩ => nomatch hsome⟩
    obtain ⟨code, hsome, -⟩ := hreports.zero_iff.mp rfl
    rw [hcode] at hsome
    cases hsome
  | some code =>
    have hsame : ∀ {code'}, some code = some code' → code = code' := Option.some.inj
    by_cases hmoves : Moves fs f.handle code (o.bmod (2 ^ 32))
    · have hk : o.bmod (2 ^ 32) < 2 ^ 31 := Int.bmod_lt (by decide)
      obtain ⟨fs', hrun, hseek⟩ := seekFile_moves hl hh hmoves (seekCode_ne_invalid hcode) hk
      rw [add_bmod_emod] at hseek
      refine ⟨fs', 0, tinyFseek_true hcode rfl hrun, fun hreports =>
        ⟨code, rfl, fun _ => ?_, (absurd hmoves ·)⟩, ?_⟩
      · obtain ⟨code', hsome, hpos⟩ := hreports.zero_iff.mp rfl
        obtain rfl := hsame (hcode.symm.trans hsome)
        omega
      · rintro ⟨code', hsome, hexact⟩
        obtain rfl := hsame hsome
        obtain ⟨hlow, hhigh⟩ := hexact.fits hmoves
        refine ⟨iff_of_true rfl ⟨code, hcode, by omega⟩, fun _ _ _ _ => rfl, (absurd rfl ·), ?_⟩
        -- an offset of 0 is not taken from the beginning
        rintro hbegin rfl
        obtain rfl := hsame (hcode.symm.trans hbegin)
        exact absurd (hmoves.inside rfl).1 (by decide)
    · obtain ⟨fs', hrun, hl', hseek⟩ := seekFile_refuses hl hh hmoves
      refine ⟨fs', o.bmod (2 ^ 32), tinyFseek_false hcode rfl hrun, fun hreports =>
        ⟨code, rfl, (absurd · hmoves), fun _ => ?_⟩, ?_⟩
      · refine ⟨hreports.zero_iff.trans ⟨?_, fun heq => ?_⟩, hreports.accepts code hcode⟩
        · rintro ⟨code', hsome, hpos⟩
          obtain rfl := hsame (hcode.symm.trans hsome)
          rwa [hseek] at hpos
        · exact ⟨code, hcode, by rw [hseek, heq]⟩
      · rintro ⟨code', hsome, hexact⟩
        obtain rfl := hsame hsome
        obtain ⟨hzero, haccepts⟩ := hexact.refused hmoves
        refine ⟨hzero.trans ⟨fun heq => ?_, ?_⟩, ?_, fun _ => hseek, ?_⟩
        · exact ⟨code, hcode, by rw [hseek, heq]⟩
        · rintro ⟨code', hsome', hpos⟩
          obtain rfl := hsame (hcode.symm.trans hsome')
          rwa [hseek] at hpos
        · intro code' hsome'
          obtain rfl := hsame (hcode.symm.trans hsome')
          exact haccepts
        · rintro hbegin rfl
          obtain rfl := hsame (hcode.symm.trans hbegin)
          have hpos := hzero.mp rfl
          rw [base, Int.add_zero] at hpos
          have hstart : (fs'.fileCtl f.handle).seekPointer = 0 := by
            rw [hseek]
            exact_mod_cast hpos
          exact ⟨rfl, fs', ftell_zero hl' hh hstart sizeofLong⟩

/-- Three bytes on. -/
theorem fseek_reports_iff_forward : ∃ fs₁ fs fs' : Fs (ℕ → UInt8), ∃ r,
    mkfs memPort (blankFs fun _ => 0) none = some (fs₁, true) ∧
    ReflTransGen (Tfs.Step memPort) fs₁ fs ∧ (fs.fileCtl 0).seekPointer = 5 ∧
    (fs.ftbl.fileFsDesc 0).size = 10 ∧ tinyFseek fs ⟨0, true⟩ 3 1 = some (fs', r) ∧
    Reports 8 fs fs' ⟨0, true⟩ 3 1 r := by
  have heval : ∃ fs, tenBytes = some fs ∧ (fs.fileCtl 0).seekPointer = 5 ∧
      (fs.ftbl.fileFsDesc 0).size = 10 ∧ (fs.fileCtl 0).locked = false := by decide
  obtain ⟨fs, hten, hseek, hsize, hfree⟩ := heval
  obtain ⟨fs₁, hmkfs, hrun⟩ := tenBytes_run hten
  obtain ⟨chain, hi⟩ := run_inv memPort_reliable.succeeds hmkfs hrun
  have hh : (⟨0, true⟩ : File).handle < maxNOfFiles := by decide
  obtain ⟨fs', r, hfseek, hreports⟩ := fseek_reports_iff hi.lock hh 8 3 1
  refine ⟨fs₁, fs, fs', r, hmkfs, hrun, hseek, hsize, hfseek, hreports.mpr ⟨.current, rfl, ?_, ?_⟩⟩
  · intro _
    rw [base, hseek]
    decide
  · intro hstays
    exact absurd ⟨hfree, nofun⟩ hstays

/-- **Seeks that report something else**, in a file of 10 bytes at its byte 5: to the beginning,
to the end, to a position before the beginning, and from nowhere. -/
theorem fseek_misreports : ∃ fs₁ fs : Fs (ℕ → UInt8),
    mkfs memPort (blankFs fun _ => 0) none = some (fs₁, true) ∧
    ReflTransGen (Tfs.Step memPort) fs₁ fs ∧ (fs.fileCtl 0).isOpen = true ∧
    (fs.fileCtl 0).seekPointer = 5 ∧ (fs.ftbl.fileFsDesc 0).size = 10 ∧
    (∃ fs', tinyFseek fs ⟨0, true⟩ 0 0 = some (fs', 0) ∧ (fs'.fileCtl 0).seekPointer = 5 ∧
      ¬Reports 8 fs fs' ⟨0, true⟩ 0 0 0) ∧
    (∃ fs', tinyFseek fs ⟨0, true⟩ 10 0 = some (fs', 10) ∧ (fs'.fileCtl 0).seekPointer = 5 ∧
      ¬Reports 8 fs fs' ⟨0, true⟩ 10 0 10) ∧
    (∃ fs', tinyFseek fs ⟨0, true⟩ (-6) 1 = some (fs', 0) ∧
      (fs'.fileCtl 0).seekPointer = 2 ^ 32 - 1 ∧ ¬Reports 8 fs fs' ⟨0, true⟩ (-6) 1 0) ∧
    tinyFseek fs ⟨0, true⟩ 3 7 = some (fs, 0) ∧ ¬Reports 8 fs fs ⟨0, true⟩ 3 7 0 := by
  have heval : ∃ fs, tenBytes = some fs ∧ (fs.fileCtl 0).isOpen = true ∧
      (fs.fileCtl 0).seekPointer = 5 ∧ (fs.ftbl.fileFsDesc 0).size = 10 ∧
      (∃ fs', tinyFseek fs ⟨0, true⟩ 0 0 = some (fs', 0) ∧ (fs'.fileCtl 0).seekPointer = 5) ∧
      (∃ fs', tinyFseek fs ⟨0, true⟩ 10 0 = some (fs', 10) ∧ (fs'.fileCtl 0).seekPointer = 5) ∧
      ∃ fs', tinyFseek fs ⟨0, true⟩ (-6) 1 = some (fs', 0) ∧
        (fs'.fileCtl 0).seekPointer = 2 ^ 32 - 1 := by decide +kernel
  obtain ⟨fs, hten, hopen, hseek, hsize, ⟨fs₂, hbegin, hseek₂⟩, ⟨fs₃, hend, hseek₃⟩, fs₄, hback,
    hseek₄⟩ := heval
  obtain ⟨fs₁, hmkfs, hrun⟩ := tenBytes_run hten
  refine ⟨fs₁, fs, hmkfs, hrun, hopen, hseek, hsize, ⟨fs₂, hbegin, hseek₂, fun hreports => ?_⟩,
    ⟨fs₃, hend, hseek₃, fun hreports => ?_⟩, ⟨fs₄, hback, hseek₄, fun hreports => ?_⟩, rfl,
    fun hreports => ?_⟩
  · obtain ⟨code, hcode, hpos⟩ := hreports.zero_iff.mp rfl
    cases hcode
    rw [hseek₂, base] at hpos
    exact absurd hpos (by decide)
  · have hzero := hreports.accepts .begin rfl
    rw [base, hsize] at hzero
    exact absurd (hzero (by decide) (by decide)) (by decide)
  · obtain ⟨code, hcode, hpos⟩ := hreports.zero_iff.mp rfl
    cases hcode
    rw [hseek₄, base, hseek] at hpos
    exact absurd hpos (by decide)
  · obtain ⟨code, hcode, -⟩ := hreports.zero_iff.mp rfl
    cases hcode

end Stdio
