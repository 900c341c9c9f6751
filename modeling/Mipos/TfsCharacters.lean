/-
Reading a file character by character.

`mipos_tfs_fgetc` reads one byte.  At the end of the file `mipos_tfs_read_file` refuses the call
before it looks for the end, so that `eof_while_read` is never set, and the number of bytes that
is returned then, zero, is not `EOF`.  A byte comes back as a `char`.

* `ReadsAt` — a stream at a byte of its file; `fgetc_inside` and `fgetc_end`, one call;
* `fgetcs_eq` — what a number of calls return;
* `stream_law_iff` — the calls return the bytes and then `EOF`, and `mipos_tfs_feof` tells when,
  just if no call is made behind the last byte and no `char` is negative;
* `stream_never_ends` — a file of two bytes.
-/
import Mipos.TfsElements
import Mipos.TfsOverread

namespace Tfs

variable {δ : Type} {port : Port δ} {fs fs' : Fs δ} {h n : ℕ}
  {r : δ → ℕ → ℕ → δ × List UInt8 × ℤ}

/-! ### The mark for the end of the file -/

theorem unlockFile_eofWhileRead (fs : Fs δ) (h : ℕ) :
    ((unlockFile fs h).1.fileCtl h).eofWhileRead = (fs.fileCtl h).eofWhileRead := by
  rw [unlockFile]
  split
  · rfl
  · split
    · simp
    · rfl

/-- The loop does not set it. -/
theorem readLoop_eof (hr : port.ioRead = some r) (hl : fs.lock = false)
    {total fuel c off got : ℕ} {res : Bool × ℕ × List UInt8}
    (hrun : readLoop port h total fuel fs c off got n = some (fs', res)) :
    (fs'.fileCtl h).eofWhileRead = (fs.fileCtl h).eofWhileRead := by
  refine readLoop_rel (R := fun fs fs' => (fs'.fileCtl h).eofWhileRead
    = (fs.fileCtl h).eofWhileRead) hr (fun fs t addr => ?_) (fun _ _ => rfl)
    (fun h₁ h₂ => h₂.trans h₁) hl hrun
  simp [advance]

/-- A request that stays in the file does not set it, and one from the end on is refused. -/
theorem readFile_eof (hr : port.ioRead = some r) (hl : fs.lock = false)
    (hin : (fs.fileCtl h).seekPointer < (fs.ftbl.fileFsDesc h).size →
      (n + (fs.fileCtl h).seekPointer) % 2 ^ 32 ≤ (fs.ftbl.fileFsDesc h).size)
    {res : Bool × ℕ × List UInt8} (hrun : readFile port fs n h = some (fs', res)) :
    (fs'.fileCtl h).eofWhileRead = (fs.fileCtl h).eofWhileRead := by
  rw [readFile] at hrun
  rcases free_or_busy fs h with ⟨hh, hfree⟩ | hbusy
  · have hl₁ : (holding fs h).lock = false := hl
    have hsame : ((holding fs h).fileCtl h).eofWhileRead = (fs.fileCtl h).eofWhileRead := by simp
    rw [lockFile_holding hh hfree] at hrun
    dsimp only at hrun
    rw [getFdCtl_eq hl₁] at hrun
    dsimp only [Option.bind_eq_bind, Option.bind_some] at hrun
    split at hrun
    · cases hrun
      exact (unlockFile_eofWhileRead _ h).trans hsame
    · rename_i hopen
      have hseek : ((holding fs h).fileCtl h).seekPointer = (fs.fileCtl h).seekPointer := by simp
      have hcut : ¬(n + ((holding fs h).fileCtl h).seekPointer) % 2 ^ 32
          > ((holding fs h).ftbl.fileFsDesc h).size := by
        rw [not_or, Nat.not_le, hseek, holding_ftbl] at hopen
        rw [hseek, holding_ftbl]
        exact Nat.not_lt.mpr (hin hopen.2)
      rw [getClusterSeekPt_eq hl₁] at hrun
      dsimp only [Option.bind_some] at hrun
      split at hrun
      · cases hrun
        exact (unlockFile_eofWhileRead _ h).trans hsame
      · have hnote : noteEof (holding fs h) h false = some (holding fs h) := rfl
        rw [decide_eq_false hcut, hnote, Option.bind_some] at hrun
        obtain ⟨⟨fs₂, res₂⟩, hloop, hrun⟩ := Option.bind_eq_some_iff.mp hrun
        cases hrun
        exact (unlockFile_eofWhileRead fs₂ h).trans ((readLoop_eof hr hl₁ hloop).trans hsame)
  · rw [lockFile_busy hbusy] at hrun
    cases hrun
    exact unlockFile_eofWhileRead _ h

end Tfs

namespace Stdio

open Tfs

variable {δ : Type} {port : Port δ} {bytes : δ → ℕ → UInt8} {fs fs' : Fs δ}
  {chain : ℕ → List ℕ} {f : File} {b : List UInt8} {k : ℕ} {name : List UInt8} {mem : Bool}

/-! ### One call -/

/-- A stream for reading at byte `k` of a file with the bytes `b`. -/
structure ReadsAt (bytes : δ → ℕ → UInt8) (fs : Fs δ) (chain : ℕ → List ℕ) (f : File)
    (b : List UInt8) (k : ℕ) : Prop where
  inv : FsInv fs chain
  readOnly : f.readOnly = true
  valid : f.handle < maxNOfFiles
  isOpen : (fs.fileCtl f.handle).isOpen = true
  contents : contents bytes fs f.handle = b
  seek : (fs.fileCtl f.handle).seekPointer = k
  eof : (fs.fileCtl f.handle).eofWhileRead = false

/-- `mipos_tfs_fopen` with mode "r". -/
theorem fopen_readsAt (hi : FsInv fs chain)
    (hopen : fopenStr port fs name [114] mem = some (fs', some f)) :
    ReadsAt bytes fs' chain f (contents bytes fs f.handle) 0 := by
  have hopen : openStream fs name .read mem = some (fs', some f) := hopen
  obtain ⟨⟨fs₁, ok, h⟩, hfile, heq⟩ := Option.bind_eq_some_iff.mp hopen
  obtain ⟨rfl, hf⟩ := Prod.mk.inj (Option.some.inj heq)
  split at hf
  · cases hf
    rcases openFile_cases hi.lock hfile with ⟨rfl, -⟩ | ⟨-, rfl, hlive, -⟩
    · simp at *
    · refine ⟨hi.opened_file hlive .read, rfl, hlive.1, ?_, rfl, ?_, ?_⟩
      · simp [opened]
      · simp [opened]
      · simp [opened]
  · cases hf

section Stream

variable (hs : ReadsAt bytes fs chain f b k)

include hs in
theorem ReadsAt.size : (fs.ftbl.fileFsDesc f.handle).size = b.length := by
  rw [← hs.contents, length_contents]

include hs in
/-- The stream after a read, which sets the mark if it is asked for more than there is. -/
theorem ReadsAt.read (hr : port.Reliable bytes) (hk : k + 1 < 2 ^ 32)
    {res : Bool × ℕ × List UInt8} (hread : readFile port fs 1 f.handle = some (fs', res))
    {k' : ℕ} (hseek : (fs'.fileCtl f.handle).seekPointer = k') :
    ReadsAt bytes fs' chain f b k' := by
  have ht := readFile_touched hr.succeeds hs.inv.lock hread
  refine ⟨hs.inv.touched ht, hs.readOnly, hs.valid, (ht.isOpen_eq f.handle).trans hs.isOpen, ?_,
    hseek, ?_⟩
  · rw [← hs.contents, Tfs.contents, Tfs.contents, ht.ftbl_eq, hr.reads ht.reads]
  · refine (readFile_eof hr.succeeds.ioRead hs.inv.lock (fun hin => ?_) hread).trans hs.eof
    rw [hs.seek] at *
    omega

variable (hr : port.Reliable bytes) (hptr : 0 < port.sizeofPtr) (charSigned : Bool)

include hs in
/-- The next position has 32 bits. -/
theorem ReadsAt.next_lt (hk : k ≤ b.length) : k + 1 < 2 ^ 32 := by
  have hbound := hs.inv.table.size_le (hs.inv.opened f.handle hs.valid hs.isOpen)
  rw [hs.size, storageAreaSize] at hbound
  omega

include hptr in
theorem byteCount_one : byteCount port 1 1 = 1 :=
  Nat.mod_eq_of_lt (Nat.one_lt_two_pow (by omega))

include hptr in
theorem byteCount_one_mod : byteCount port 1 1 % 2 ^ 32 = 1 := by
  rw [byteCount_one hptr]
  decide

include hs hr hptr in
/-- **Inside the file** a call returns the next byte, as a `char`. -/
theorem fgetc_inside (hk : k < b.length) : ∃ fs', fgetc charSigned port fs f
    = some (fs', ofChar charSigned b[k]) ∧ ReadsAt bytes fs' chain f b (k + 1) := by
  have hsize := hs.size
  have hlt := hs.next_lt hk.le
  have hin : (fs.fileCtl f.handle).seekPointer < (fs.ftbl.fileFsDesc f.handle).size := by
    rw [hs.seek, hsize]
    exact hk
  obtain ⟨fs', hread, hseek⟩ := readFile_spec hr hs.inv hs.valid hs.isOpen Nat.one_pos hin
    (by rwa [hs.seek])
  rw [hs.contents, hs.seek, hsize, Nat.min_eq_left (by omega), List.drop_eq_getElem_cons hk,
    List.take_succ_cons, List.take_zero] at hread
  rw [hs.seek, hsize, Nat.min_eq_left (by omega)] at hseek
  have hfread : fread port fs 1 1 f = some (fs', 1 / 1, [b[k]]) :=
    fread_succeeded (by decide) (by rwa [byteCount_one_mod hptr])
  refine ⟨fs', ?_, hs.read hr hlt hread hseek⟩
  rw [fgetc, hfread]
  rfl

include hs hr hptr in
/-- **At the end of the file** it returns zero. -/
theorem fgetc_end (hk : k = b.length) : ∃ fs', fgetc charSigned port fs f = some (fs', 0) ∧
    ReadsAt bytes fs' chain f b k := by
  have hend : (fs.ftbl.fileFsDesc f.handle).size ≤ (fs.fileCtl f.handle).seekPointer := by
    rw [hs.seek, hs.size, hk]
  obtain ⟨fs', hread, hseek⟩ : ∃ fs', readFile port fs 1 f.handle = some (fs', false, 1, []) ∧
      (fs'.fileCtl f.handle).seekPointer = (fs.fileCtl f.handle).seekPointer :=
    readFile_refused hs.inv.lock (.inr hend)
  have hs' := hs.read hr (hs.next_lt hk.le) hread (hseek.trans hs.seek)
  have hfread : fread port fs 1 1 f = some (fs', if 1 < byteCount port 1 1 then 1 / 1 else 0, []) :=
    fread_failed hs'.inv.lock (by rwa [byteCount_one_mod hptr])
  refine ⟨fs', ?_, hs'⟩
  rw [fgetc, hfread, byteCount_one hptr]
  rfl

include hs in
/-- `mipos_tfs_feof` is zero all the time. -/
theorem feof_eq : feof fs f = some (fs, 0) := by
  have hopen : ¬(f.readOnly = false ∨ f.handle ≥ maxNOfFiles) := by
    rw [hs.readOnly, not_or, Nat.not_le]
    exact ⟨by decide, hs.valid⟩
  rw [feof, if_neg hopen, getFdCtl_eq hs.inv.lock]
  dsimp only [Option.bind_eq_bind, Option.bind_some]
  rw [hs.eof]
  rfl

end Stream

/-! ### Many calls -/

/-- Calls of `mipos_tfs_fgetc`, and what they return. -/
def fgetcs (charSigned : Bool) (port : Port δ) : ℕ → Fs δ → File → Option (Fs δ × List ℤ)
  | 0, fs, _ => some (fs, [])
  | m + 1, fs, f => do
    let (fs, c) ← fgetc charSigned port fs f
    let (fs, cs) ← fgetcs charSigned port m fs f
    return (fs, c :: cs)

/-- **The calls** return the bytes that are left, and zeros behind them. -/
theorem fgetcs_eq (hr : port.Reliable bytes) (hptr : 0 < port.sizeofPtr) (charSigned : Bool)
    (m : ℕ) (hs : ReadsAt bytes fs chain f b k) (hk : k ≤ b.length) :
    ∃ fs' k', fgetcs charSigned port m fs f = some (fs', ((b.drop k).take m).map (ofChar charSigned)
        ++ List.replicate (m - (b.length - k)) 0) ∧ ReadsAt bytes fs' chain f b k' := by
  induction m generalizing fs k with
  | zero =>
    refine ⟨fs, k, ?_, hs⟩
    rw [fgetcs, List.take_zero, Nat.zero_sub]
    rfl
  | succ m ih =>
    rw [fgetcs]
    rcases Nat.lt_or_eq_of_le hk with hlt | hend
    · obtain ⟨fs₁, hcall, hs₁⟩ := fgetc_inside hs hr hptr charSigned hlt
      obtain ⟨fs', k', hrest, hs'⟩ := ih hs₁ hlt
      refine ⟨fs', k', ?_, hs'⟩
      rw [hcall]
      dsimp only [Option.bind_eq_bind, Option.bind_some]
      rw [hrest, List.drop_eq_getElem_cons hlt, List.take_succ_cons, List.map_cons,
        show m + 1 - (b.length - k) = m - (b.length - (k + 1)) by omega]
      rfl
    · obtain ⟨fs₁, hcall, hs₁⟩ := fgetc_end hs hr hptr charSigned hend
      obtain ⟨fs', k', hrest, hs'⟩ := ih hs₁ hk
      refine ⟨fs', k', ?_, hs'⟩
      rw [hcall]
      dsimp only [Option.bind_eq_bind, Option.bind_some]
      rw [hrest, hend, List.drop_length, List.take_nil, List.take_nil, List.map_nil,
        List.nil_append, List.nil_append, Nat.sub_self, Nat.sub_zero, Nat.sub_zero,
        List.replicate_succ]
      rfl

theorem ofChar_eq_iff (charSigned : Bool) (c : UInt8) :
    ofChar charSigned c = (c.toNat : ℤ) ↔ (charSigned = true → c < 128) := by
  have hc := c.toNat_lt
  rw [ofChar, UInt8.lt_iff_toNat_lt]
  cases charSigned with
  | false => simp
  | true =>
    simp only [if_true, forall_const, Int.bmod]
    have h128 : (128 : UInt8).toNat = 128 := rfl
    omega

/-- The first `m` calls on a file with the bytes `b` return its bytes as values from 0 to 255 and
then `EOF`; and `mipos_tfs_feof` is not zero just after a call that has found no byte. -/
structure StreamLaw (charSigned : Bool) (port : Port δ) (fs : Fs δ) (f : File) (b : List UInt8)
    (m : ℕ) : Prop where
  values : ∃ fs', fgetcs charSigned port m fs f = some (fs',
    (b.take m).map (fun c => (c.toNat : ℤ)) ++ List.replicate (m - b.length) (-1))
  feof : ∀ j, j ≤ m → ∃ fs₁ cs fs₂ e, fgetcs charSigned port j fs f = some (fs₁, cs) ∧
    Stdio.feof fs₁ f = some (fs₂, e) ∧ (e ≠ 0 ↔ b.length < j)

/-- **The law of a character stream**, for every file of a file system in order and every number
of calls: it holds just if no call is made behind the last byte, and either `char` is unsigned or
the bytes read are below 128. -/
theorem stream_law_iff (hr : port.Reliable bytes) (hptr : 0 < port.sizeofPtr)
    (hi : FsInv fs chain) (hopen : fopenStr port fs name [114] mem = some (fs', some f))
    (charSigned : Bool) (m : ℕ) :
    StreamLaw charSigned port fs' f (contents bytes fs f.handle) m ↔
      m ≤ (contents bytes fs f.handle).length ∧
        (charSigned = true → ∀ c ∈ (contents bytes fs f.handle).take m, c < 128) := by
  have hs : ReadsAt bytes fs' chain f (contents bytes fs f.handle) 0 := fopen_readsAt hi hopen
  generalize contents bytes fs f.handle = b at hs
  obtain ⟨fs₁, k, hcalls, hs₁⟩ := fgetcs_eq hr hptr charSigned m hs (Nat.zero_le _)
  rw [List.drop_zero, Nat.sub_zero] at hcalls
  constructor
  · intro hlaw
    have hm : m ≤ b.length := by
      by_contra hlong
      obtain ⟨fs₂, cs, fs₃, e, hrun, hfeof, he⟩ := hlaw.feof m le_rfl
      cases hcalls.symm.trans hrun
      cases (feof_eq hs₁).symm.trans hfeof
      exact he.mpr (Nat.lt_of_not_le hlong) rfl
    refine ⟨hm, fun hsigned c hc => ?_⟩
    obtain ⟨fs₂, hrun⟩ := hlaw.values
    have hvalues := congrArg Prod.snd (Option.some.inj (hcalls.symm.trans hrun))
    simp only [Nat.sub_eq_zero_of_le hm, List.replicate_zero, List.append_nil] at hvalues
    have hchar := List.map_inj_left.mp hvalues c hc
    exact (ofChar_eq_iff charSigned c).mp hchar hsigned
  · rintro ⟨hm, hchars⟩
    constructor
    case values =>
      refine ⟨fs₁, ?_⟩
      have hsame : (b.take m).map (ofChar charSigned) = (b.take m).map fun c => (c.toNat : ℤ) :=
        List.map_congr_left fun c hc => (ofChar_eq_iff charSigned c).mpr fun hsigned =>
          hchars hsigned c hc
      rw [hcalls, hsame, Nat.sub_eq_zero_of_le hm]
      rfl
    case feof =>
      intro j hj
      obtain ⟨fs₂, k₂, hrun, hs₂⟩ := fgetcs_eq hr hptr charSigned j hs (Nat.zero_le _)
      refine ⟨fs₂, _, fs₂, 0, hrun, feof_eq hs₂, iff_of_false (fun h => h rfl) ?_⟩
      omega

/-- A file with two bytes, of which two are read. -/
theorem stream_law_iff_two : ∃ fs₁ fs fs' : Fs (ℕ → UInt8), ∃ f,
    mkfs memPort (blankFs fun _ => 0) none = some (fs₁, true) ∧
    Relation.ReflTransGen (Tfs.Step memPort) fs₁ fs ∧
    fopenStr memPort fs [97] [114] true = some (fs', some f) ∧
    contents id fs f.handle = [104, 105] ∧ StreamLaw true memPort fs' f [104, 105] 2 := by
  have hmkfs : mkfs memPort (blankFs fun _ => 0) none
      = some (flush memPort (formatted memPort (blankFs fun _ => 0) none), true) :=
    mkfs_eq memPort_reliable.succeeds rfl none
  have heval : ∃ fs, Tfs.runCalls memPort
        (flush memPort (formatted memPort (blankFs fun _ => 0) none))
        [.createFile [97], .writeFile [104, 105] 0, .closeFile 0] = some fs ∧
      ∃ r, fopenStr memPort fs [97] [114] true = some r ∧ ∃ f, r.2 = some f ∧
        contents id fs f.handle = [104, 105] := by decide +kernel
  obtain ⟨fs, hcalls, ⟨fs', -⟩, hopen, f, rfl, hbytes⟩ := heval
  have hrun := Tfs.run_of_runCalls hcalls (by simp [Tfs.Call.Allowed])
  obtain ⟨chain, hi⟩ := run_inv memPort_reliable.succeeds hmkfs hrun
  have hlaw := stream_law_iff memPort_reliable (by decide) hi hopen true 2
  rw [hbytes] at hlaw
  exact ⟨_, fs, fs', f, hmkfs, hrun, hopen, hbytes, hlaw.mpr ⟨by decide, by simp⟩⟩

/-- **A file that does not end.**  Its bytes are 200 and 1.  The calls return zeros behind them,
with `mipos_tfs_feof` zero all the time; and with a signed `char` the first call returns -56. -/
theorem stream_never_ends : ∃ fs fs' fs₁ fs₂ : Fs (ℕ → UInt8), ∃ f,
    plainRun memPort (fun _ => 0) [.createFile [97], .writeFile [200, 1] 0, .closeFile 0]
      = some fs ∧
    fopenStr memPort fs [97] [114] true = some (fs', some f) ∧
    contents id fs f.handle = [200, 1] ∧
    fgetcs false memPort 4 fs' f = some (fs₁, [200, 1, 0, 0]) ∧
    (∃ fs₃, feof fs₁ f = some (fs₃, 0)) ∧ ¬StreamLaw false memPort fs' f [200, 1] 4 ∧
    fgetcs true memPort 2 fs' f = some (fs₂, [-56, 1]) ∧
    ¬StreamLaw true memPort fs' f [200, 1] 2 := by
  have heval : ∃ fs, plainRun memPort (fun _ => 0) [.createFile [97], .writeFile [200, 1] 0,
        .closeFile 0] = some fs ∧ ∃ r, fopenStr memPort fs [97] [114] true = some r ∧
      ∃ f, r.2 = some f ∧ contents id fs f.handle = [200, 1] ∧
      (∃ x, fgetcs false memPort 4 r.1 f = some x ∧ x.2 = [200, 1, 0, 0] ∧
        ∃ y, feof x.1 f = some y ∧ y.2 = 0) ∧
      ∃ x, fgetcs true memPort 2 r.1 f = some x ∧ x.2 = [-56, 1] := by decide +kernel
  obtain ⟨fs, hrun, ⟨fs', -⟩, hopen, f, rfl, hbytes, ⟨⟨fs₁, -⟩, hcalls, rfl, ⟨fs₃, -⟩, hfeof, rfl⟩,
      ⟨fs₂, -⟩, hsigned, rfl⟩ := heval
  refine ⟨fs, fs', fs₁, fs₂, f, hrun, hopen, hbytes, hcalls, ⟨fs₃, hfeof⟩, fun hlaw => ?_, hsigned,
    fun hlaw => ?_⟩
  · obtain ⟨fs₄, hvalues⟩ := hlaw.values
    cases congrArg (Option.map Prod.snd) (hcalls.symm.trans hvalues)
  · obtain ⟨fs₄, hvalues⟩ := hlaw.values
    cases congrArg (Option.map Prod.snd) (hsigned.symm.trans hvalues)

end Stdio
