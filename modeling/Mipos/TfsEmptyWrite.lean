/-
Empty writes to Tiny-FS.

A write of no bytes at an end of file that fills its clusters takes a free cluster
before it looks at the length, and links it to the file: the next write takes another
one, and what it writes is not where it is read from.

* `alike_accesses` — the error code and the names make no difference to later calls;
* `empty_write_inert_iff` — in runs whose writes settle an empty write changes nothing
  that later calls could notice just if it takes no cluster, and `mipos_tfs_fwrite` of
  nothing does not if, moreover, it does not divide by zero.
-/
import Mipos.TfsShortWrite
import Mipos.TfsStdio
import Mipos.TfsUnread

namespace Tfs

variable {δ : Type} {port : Port δ} {bytes : δ → ℕ → UInt8} {fs fs' : Fs δ} {e : ErrCode}
  {chain : ℕ → List ℕ} {h : ℕ} {names : ℕ → List UInt8}

/-! ### Later calls -/

/-- A call on an open file. -/
inductive Access
  | readFile (rbytes h : ℕ)
  | writeFile (data : List UInt8) (h : ℕ)
  | seekFile (code : SeekCode) (seekpos : ℤ) (h : ℕ)

/-- The result of a call, the number of bytes and the bytes delivered. -/
def Access.exec (port : Port δ) (fs : Fs δ) : Access → Option (Fs δ × Bool × ℕ × List UInt8)
  | .readFile rbytes h => Tfs.readFile port fs rbytes h
  | .writeFile data h =>
    (Tfs.writeFile port fs data data.length h).bind fun r => some (r.1, r.2.1, r.2.2, [])
  | .seekFile code seekpos h =>
    (Tfs.seekFile fs code seekpos h).bind fun r => some (r.1, r.2, 0, [])

/-- The results of calls made one after the other. -/
def accesses (port : Port δ) (fs : Fs δ) :
    List Access → Option (Fs δ × List (Bool × ℕ × List UInt8))
  | [] => some (fs, [])
  | a :: as => do
    let (fs, r) ← a.exec port fs
    let (fs, rs) ← accesses port fs as
    return (fs, r :: rs)

theorem alike_exec (port : Port δ) (fs : Fs δ) (e : ErrCode) (a : Access) :
    Alike names (a.exec port fs) (a.exec port (masked fs e names)) := by
  cases a with
  | readFile rbytes h => exact alike_readFile port fs e rbytes h
  | writeFile data h =>
    exact (alike_writeFile port fs e data data.length h).bind fun fs e r => alike_some fs e _
  | seekFile code seekpos h =>
    exact (alike_seekFile fs e code seekpos h).bind fun fs e r => alike_some fs e _

/-- **The error code and the names make no difference** to any calls on open files. -/
theorem alike_accesses (port : Port δ) (fs : Fs δ) (e : ErrCode) (as : List Access) :
    Alike names (accesses port fs as) (accesses port (masked fs e names) as) := by
  induction as generalizing fs e with
  | nil => exact alike_some fs e []
  | cons a as ih =>
    exact (alike_exec port fs e a).bind fun fs e r => (ih fs e).bind fun fs e rs => alike_some fs e _

/-- Nothing has happened that calls on open files could notice. -/
structure Inert (port : Port δ) (fs fs' : Fs δ) : Prop where
  ftbl : fs'.ftbl = fs.ftbl
  seek : ∀ k, (fs'.fileCtl k).seekPointer = (fs.fileCtl k).seekPointer
  later : ∀ as, (accesses port fs' as).map Prod.snd = (accesses port fs as).map Prod.snd

theorem inert_refl (port : Port δ) (fs : Fs δ) : Inert port fs fs := ⟨rfl, fun _ => rfl, fun _ => rfl⟩

theorem inert_setError (port : Port δ) (fs : Fs δ) (e : ErrCode) :
    Inert port fs (setError fs e) := by
  refine ⟨rfl, fun _ => rfl, fun as => ?_⟩
  rw [← masked_self]
  obtain ⟨e', halike⟩ : Alike (fun i => (fs.ftbl.fileFsDesc i).filename) _ _ :=
    alike_accesses port fs e as
  rw [halike, Option.map_map]
  rfl

/-! ### Empty writes -/

/-- `mipos_tfs_fwrite` of no bytes. -/
theorem fwrite_empty (src : List UInt8) {f : Stdio.File} {size count : ℕ} (hf : f.handle = h)
    (hzero : size * count % 2 ^ (8 * port.sizeofPtr) = 0) :
    Stdio.fwrite port fs src size count f = (writeFile port fs src 0 h).bind fun r =>
      if r.2.1 then (if size = 0 then none else some (r.1, r.2.2 / size)) else some (r.1, 0) := by
  rw [Stdio.fwrite, hzero, hf]
  rfl

/-- **An empty write changes nothing** just if it is not made at an end of file that fills
its clusters, or is refused there.  Through `mipos_tfs_fwrite` it has to be refused as well
if the size of an element is zero. -/
theorem empty_write_inert_iff (port : Port δ) (hl : fs.lock = false) (ho : OpenForWrite fs h)
    (hlt : (fs.fileCtl h).seekPointer < 2 ^ 32) (src : List UInt8) :
    ((∃ fs' ok, writeFile port fs src 0 h = some (fs', ok, 0) ∧ Inert port fs fs') ↔
      (AtEnd fs h → EmptyRefused fs h)) ∧
    ∀ (f : Stdio.File) (size count : ℕ), f.handle = h →
      size * count % 2 ^ (8 * port.sizeofPtr) = 0 →
      ((∃ fs', Stdio.fwrite port fs src size count f = some (fs', 0) ∧ Inert port fs fs') ↔
        (AtEnd fs h → EmptyRefused fs h) ∧ (size = 0 → EmptyRefused fs h)) := by
  rcases writeFile_empty port hl ho hlt src with
    ⟨hrefused, heq⟩ | ⟨hno, hend, heq⟩ | ⟨hno, hend, x, fs₁, ok, hfree, heq, htaken⟩
  · refine ⟨iff_of_true ⟨_, _, heq, inert_setError port fs .writeFailed⟩ fun _ => hrefused,
      fun f size count hf hzero => iff_of_true ⟨_, ?_, inert_setError port fs .writeFailed⟩
        ⟨fun _ => hrefused, fun _ => hrefused⟩⟩
    rw [fwrite_empty src hf hzero, heq]
    rfl
  · refine ⟨iff_of_true ⟨_, _, heq, inert_refl port fs⟩ fun hyes => absurd hyes hend,
      fun f size count hf hzero => ?_⟩
    rw [fwrite_empty src hf hzero, heq, Option.bind_some, if_pos rfl]
    by_cases hsize : size = 0
    · rw [if_pos hsize]
      refine iff_of_false ?_ fun hcond => hno (hcond.2 hsize)
      rintro ⟨fs', hnone, -⟩
      cases hnone
    · rw [if_neg hsize]
      refine iff_of_true ⟨fs, ?_, inert_refl port fs⟩
        ⟨fun hyes => absurd hyes hend, fun hyes => absurd hyes hsize⟩
      rw [Nat.zero_div]
  · -- the cluster that was taken tells the states apart
    have hinert : ¬Inert port fs fs₁ := by
      intro hinert
      rw [hinert.ftbl] at htaken
      exact htaken hfree
    refine ⟨iff_of_false ?_ fun hcond => hno (hcond hend),
      fun f size count hf hzero => iff_of_false ?_ fun hcond => hno (hcond.1 hend)⟩
    · rintro ⟨fs', ok', hrun, hsame⟩
      cases heq.symm.trans hrun
      exact hinert hsame
    · rintro ⟨fs', hrun, hsame⟩
      rw [fwrite_empty src hf hzero, heq, Option.bind_some] at hrun
      split_ifs at hrun
      all_goals
        simp only [Option.some.injEq, Prod.mk.injEq] at hrun
        exact hinert (hrun.1 ▸ hsame)

theorem empty_write_inert_iff_inside : ∃ fs : Fs (ℕ → UInt8),
    settledRun [.createFile [97], .writeFile [1, 2, 3] 0] = some fs ∧ fs.lock = false ∧
    OpenForWrite fs 0 ∧ (fs.fileCtl 0).seekPointer < 2 ^ 32 ∧ ¬AtEnd fs 0 ∧
    (∃ fs' ok, writeFile memPort fs [] 0 0 = some (fs', ok, 0) ∧ Inert memPort fs fs') ∧
    ∃ fs', Stdio.fwrite memPort fs [] 4 0 ⟨0, false⟩ = some (fs', 0) ∧ Inert memPort fs fs' := by
  have heval : ∃ fs, settledRun [.createFile [97], .writeFile [1, 2, 3] 0] = some fs ∧
      OpenForWrite fs 0 ∧ (fs.fileCtl 0).seekPointer < 2 ^ 32 ∧ ¬AtEnd fs 0 ∧ fs.lock = false := by
    decide +kernel
  obtain ⟨fs, hrun, ho, hlt, hend, hl⟩ := heval
  obtain ⟨hwrite, hfwrite⟩ := empty_write_inert_iff memPort hl ho hlt []
  have hcond : AtEnd fs 0 → EmptyRefused fs 0 := fun hyes => absurd hyes hend
  exact ⟨fs, hrun, hl, ho, hlt, hend, hwrite.mpr hcond, (hfwrite ⟨0, false⟩ 4 0 rfl (by decide)).mpr
    ⟨hcond, fun hyes => absurd hyes (by decide)⟩⟩

/-- Three bytes are written, the file goes back by three, and `data` is read. -/
def ReadsBack (fs : Fs (ℕ → UInt8)) (data : List UInt8) : Prop :=
  (accesses memPort fs [.writeFile [1, 2, 3] 0, .seekFile .current (-3) 0, .readFile 3 0]).map
    Prod.snd = some [(true, 3, []), (true, 0, []), (true, 3, data)]

instance (fs : Fs (ℕ → UInt8)) (data : List UInt8) : Decidable (ReadsBack fs data) :=
  inferInstanceAs (Decidable (_ = _))

/-- **An empty write to a new file**: of the three bytes that are written after it, none
is read back. -/
theorem empty_write_loses_data : ∃ fs : Fs (ℕ → UInt8),
    settledRun [.createFile [97]] = some fs ∧ fs.lock = false ∧ OpenForWrite fs 0 ∧
    ReadsBack fs [1, 2, 3] ∧ ∃ fs', writeFile memPort fs [] 0 0 = some (fs', true, 0) ∧
      fs'.ftbl.clusterTbl 0 ≠ fs.ftbl.clusterTbl 0 ∧ ReadsBack fs' [0, 0, 0] := by
  decide +kernel

end Tfs
