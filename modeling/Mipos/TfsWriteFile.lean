/-
A whole call of `mipos_tfs_write_file`.

Before the loop the call finds the cluster at the seek pointer, or takes a new one
at an end of file that fills its clusters (`Started`); after it the first cluster of
the descriptor is set if it was not.
* `writeFile_eq`, `writeFile_refused` — a call in any state and on any device;
* `writeFile_started` — a call on a file that can be written;
* `writeFile_loop` — with a device that succeeds it ends as the loop does, or is
  refused, since there is no cluster to start with;
* `writeFile_ends` — the four ways to end (`WriteEnd`) and the free clusters that
  decide between them;
* `writeFile_rejected` — a call on any other file.
-/
import Mipos.TfsWrite

namespace Tfs

open LinkTable Function

variable {δ : Type} {port : Port δ} {fs fs' : Fs δ} {chain : ℕ → List ℕ} {h c n : ℕ}
  {data : List UInt8} {tbl : ℕ → ℕ}

/-- The state while a call holds the lock of file `h`. -/
def holding (fs : Fs δ) (h : ℕ) : Fs δ := setCtl fs h { fs.fileCtl h with locked := true }

@[simp] theorem holding_lock : (holding fs h).lock = fs.lock := rfl
@[simp] theorem holding_dev : (holding fs h).dev = fs.dev := rfl
@[simp] theorem holding_ftbl : (holding fs h).ftbl = fs.ftbl := rfl

@[simp]
theorem holding_fileCtl : (holding fs h).fileCtl h = { fs.fileCtl h with locked := true } := by
  simp [holding]

theorem lockFile_holding (hh : h < maxNOfFiles) (hfree : (fs.fileCtl h).locked = false) :
    lockFile fs h = (holding fs h, true) :=
  lockFile_free hh hfree

/-! ### Any state -/

/-- The seek pointer is at an end of file that fills its clusters. -/
def AtEnd (fs : Fs δ) (h : ℕ) : Prop :=
  (fs.fileCtl h).seekPointer = (fs.ftbl.fileFsDesc h).size ∧
    (fs.fileCtl h).seekPointer % clusterSize = 0

instance (fs : Fs δ) (h : ℕ) : Decidable (AtEnd fs h) := inferInstanceAs (Decidable (_ ∧ _))

theorem atEnd_holding : AtEnd (holding fs h) h ↔ AtEnd fs h := by
  simp [AtEnd]

/-- The cluster at the seek pointer of file `h`, and whether the links lead there. -/
def seekCluster (fs : Fs δ) (h : ℕ) : Bool × ℕ :=
  walk fs.ftbl.clusterTbl ((fs.fileCtl h).seekPointer / clusterSize % 2 ^ 16)
    (fs.ftbl.fileFsDesc h).firstCluster

theorem seekCluster_holding : seekCluster (holding fs h) h = seekCluster fs h := by
  simp [seekCluster]

theorem getClusterSeekPt_eq (hl : fs.lock = false) (h : ℕ) :
    getClusterSeekPt fs (fs.ftbl.fileFsDesc h) (fs.fileCtl h) = some (fs, seekCluster fs h) :=
  clusterWalk_eq hl _ _

/-- The state before the loop, and the cluster to start with. -/
def writeBegin (fs : Fs δ) (h : ℕ) : Fs δ × Option ℕ :=
  if (seekCluster fs h).1 = false then (fs, none)
  else if AtEnd fs h then
    match firstFree fs.ftbl.clusterTbl with
    | none => (fs, none)
    | some x =>
      if (fs.fileCtl h).seekPointer = 0 then (setCluster fs x reservedCluster, some x)
      else if (seekCluster fs h).2 < clustersCount then
        (setCluster (setCluster fs x reservedCluster) (seekCluster fs h).2 x, some x)
      else (setCluster fs x reservedCluster, none)
  else (fs, some (seekCluster fs h).2)

theorem writeStart_eq (hl : fs.lock = false) (h : ℕ) :
    writeStart fs (fs.ftbl.fileFsDesc h) (fs.fileCtl h) = some (writeBegin fs h) := by
  rw [writeStart, writeBegin, getClusterSeekPt_eq hl, reserveCluster_eq hl]
  dsimp only [Option.bind_eq_bind, Option.bind_some]
  by_cases hend : AtEnd fs h
  · rw [if_pos hend, if_pos (by exact hend)]
    rcases Nat.eq_zero_or_pos (fs.fileCtl h).seekPointer with hzero | hpos
    · -- at position 0 the walk has no way to go
      have harrived : (seekCluster fs h).1 = true := by
        rw [seekCluster, hzero]
        rfl
      rw [if_neg (by omega), if_neg (by simp [harrived])]
      cases firstFree fs.ftbl.clusterTbl with
      | none => rfl
      | some x =>
        dsimp only
        rw [if_pos hzero]
    · rw [if_pos hpos]
      cases (seekCluster fs h).1 with
      | false => rfl
      | true =>
        rw [if_neg (by decide), if_neg (by decide), reserveCluster_eq hl]
        dsimp only [Option.bind_some]
        cases hx : firstFree fs.ftbl.clusterTbl with
        | none => rfl
        | some x =>
          have hl' : (setCluster fs x reservedCluster).lock = false := hl
          dsimp only
          rw [if_neg (Nat.pos_iff_ne_zero.mp hpos)]
          by_cases hc : (seekCluster fs h).2 < clustersCount
          · rw [if_pos hc, linkCluster_eq hl' hc (firstFree_spec hx).1]
            rfl
          · rw [if_neg hc, linkCluster, if_pos (.inl (Nat.le_of_not_lt hc))]
            rfl
  · rw [if_neg hend, if_neg (by exact hend)]
    cases (seekCluster fs h).1 <;> rfl

/-- A handle that `mipos_tfs_write_file` does not refuse. -/
structure OpenForWrite (fs : Fs δ) (h : ℕ) : Prop where
  valid : h < maxNOfFiles
  unlocked : (fs.fileCtl h).locked = false
  isOpen : (fs.fileCtl h).isOpen = true
  mode : (fs.fileCtl h).fileOpenMode = .write
  writable : (fs.ftbl.fileFsDesc h).readonly = 0

instance (fs : Fs δ) (h : ℕ) : Decidable (OpenForWrite fs h) :=
  decidable_of_iff (h < maxNOfFiles ∧ (fs.fileCtl h).locked = false ∧
      (fs.fileCtl h).isOpen = true ∧ (fs.fileCtl h).fileOpenMode = .write ∧
      (fs.ftbl.fileFsDesc h).readonly = 0)
    ⟨fun ⟨hvalid, hfree, hopen, hmode, hwrite⟩ => ⟨hvalid, hfree, hopen, hmode, hwrite⟩,
      fun hw => ⟨hw.valid, hw.unlocked, hw.isOpen, hw.mode, hw.writable⟩⟩

/-- Locking a file, an error and unlocking it. -/
theorem OpenForWrite.unlock (ho : OpenForWrite fs h) (e : ErrCode) :
    (unlockFile (setError (holding fs h) e) h).1 = setError fs e := by
  rw [unlockFile, if_neg (Nat.not_le.mpr ho.valid)]
  simp [holding, setError, setCtl, ← ho.unlocked]

/-- What follows the loop, with its result. -/
def afterLoop (h wbytes first : ℕ) (r : Fs δ × ℕ × ℤ) : Option (Fs δ × Bool × ℕ) :=
  if r.2.2 ≠ 0 then some ((unlockFile r.1 h).1, false, wbytes)
  else (withAccess r.1 fun fs =>
      let fd := fs.ftbl.fileFsDesc h
      some (if fd.firstCluster ≥ clustersCount then
        setFd fs h { fd with firstCluster := first } else fs, ())).bind
    fun s => some ((unlockFile s.1 h).1, decide (r.2.1 = 0), wbytes - r.2.1)

/-- **A call of `mipos_tfs_write_file`**, with any device. -/
theorem writeFile_eq (port : Port δ) (hl : fs.lock = false) (ho : OpenForWrite fs h)
    (src : List UInt8) (n : ℕ) :
    writeFile port fs src n h =
      if (fs.ftbl.fileFsDesc h).size < (fs.fileCtl h).seekPointer then
        some (setError fs .writeFailed, false, 0)
      else match writeBegin (holding fs h) h with
        | (fs₁, none) => some (writeFail fs₁ h)
        | (fs₁, some c) => (writeLoop port h (n + 1) fs₁ c
            ((fs.fileCtl h).seekPointer % clusterSize) src n).bind (afterLoop h n c) := by
  have hl₁ : (holding fs h).lock = false := hl
  have hlock := lockFile_holding ho.valid ho.unlocked
  have hseek : (fs.fileCtl h).seekPointer = ((holding fs h).fileCtl h).seekPointer := by simp
  have hfail : some (writeFail (holding fs h) h) = some (setError fs .writeFailed, false, 0) := by
    rw [writeFail, ho.unlock]
  rw [writeFile, hlock, hseek]
  dsimp only
  rw [getFdCtl_eq hl₁]
  dsimp only [Option.bind_eq_bind, Option.bind_some]
  rw [if_neg (by simp [ho.isOpen, ho.mode, ho.writable]), writeStart_eq hl₁]
  by_cases hpast : ((holding fs h).ftbl.fileFsDesc h).size < ((holding fs h).fileCtl h).seekPointer
  · rw [if_pos hpast, if_pos (by exact hpast)]
    exact hfail
  · rw [if_neg hpast, if_neg (by exact hpast)]
    rcases writeBegin (holding fs h) h with ⟨fs₁, _ | c⟩ <;> rfl

/-- A call on any other handle goes to the exception handler, with or without the lock. -/
theorem writeFile_fails (port : Port δ) (hl : fs.lock = false) (ho : ¬OpenForWrite fs h)
    (src : List UInt8) (n : ℕ) :
    ∃ fs₁, writeFile port fs src n h = some (writeFail fs₁ h) ∧
      (fs₁ = fs ∨ (h < maxNOfFiles ∧ fs₁ = holding fs h)) := by
  rcases free_or_busy fs h with hfree | hbusy
  · have hlock := lockFile_holding hfree.1 hfree.2
    have hl₁ : (holding fs h).lock = false := hl
    rw [writeFile, hlock]
    dsimp only
    rw [getFdCtl_eq hl₁]
    dsimp only [Option.bind_eq_bind, Option.bind_some]
    rw [if_pos]
    · exact ⟨_, rfl, .inr ⟨hfree.1, rfl⟩⟩
    · by_contra hopen
      simp only [holding_fileCtl, holding_ftbl, not_or, not_not, Bool.not_eq_false] at hopen
      exact ho ⟨hfree.1, hfree.2, hopen.2.2, hopen.2.1, hopen.1⟩
  · rw [writeFile, lockFile_busy hbusy]
    exact ⟨_, rfl, .inl rfl⟩

/-- So it changes no file. -/
theorem writeFile_refused (port : Port δ) (hl : fs.lock = false) (ho : ¬OpenForWrite fs h)
    (src : List UInt8) (n : ℕ) :
    ∃ fs', writeFile port fs src n h = some (fs', false, 0) ∧ Touched port fs h fs' ∧
      fs'.dev = fs.dev := by
  obtain ⟨fs₁, hrun, rfl | ⟨hh, rfl⟩⟩ := writeFile_fails port hl ho src n
  · exact ⟨_, hrun, fail_touched fs₁ h .writeFailed, by simp⟩
  · exact ⟨_, hrun, Touched.locked hh (.of_error h .writeFailed), by simp⟩

/-- The loop with nothing to write. -/
theorem writeLoop_zero (hl : fs.lock = false)
    (hseek : (fs.fileCtl h).seekPointer ≤ (fs.ftbl.fileFsDesc h).size) (fuel c off : ℕ)
    (src : List UInt8) :
    writeLoop port h (fuel + 1) fs c off src 0 = some (advance fs h 0, 0, 0) := by
  have hwrite : writeCluster port fs c off src 0 = some (fs, 0, 0) :=
    withAccess_eq hl hl (by simp)
  have hpast : ¬((advance fs h 0).fileCtl h).seekPointer > (fs.ftbl.fileFsDesc h).size := by
    have hmod := Nat.mod_le (fs.fileCtl h).seekPointer (2 ^ 32)
    simp only [advance, setCtl_fileCtl, update_self, Nat.add_zero]
    omega
  rw [writeLoop, hwrite]
  show ((withAccess fs fun fs => some (advance fs h 0, ())).bind _) = _
  rw [withAccess_advance hl]
  dsimp only [Option.bind_some]
  rw [if_pos (by rfl), if_neg (by exact hpast)]
  rfl

theorem advance_zero (hlt : (fs.fileCtl h).seekPointer < 2 ^ 32) : advance fs h 0 = fs := by
  rw [advance, Nat.add_zero, Nat.mod_eq_of_lt hlt]
  simp [setCtl]

/-! ### The first cluster -/

/-- A position up to the end of the file is not beyond its clusters. -/
theorem TableInv.size_le (ht : TableInv fs.ftbl chain) (hlive : fs.ftbl.Live h) :
    (fs.ftbl.fileFsDesc h).size ≤ storageAreaSize := by
  have hlen := ht.length_le h
  rw [ht.length h hlive] at hlen
  simp only [clustersFor, clustersCount, storageAreaSize, clusterSize] at *
  omega

section

variable (hl : fs.lock = false) (ht : TableInv fs.ftbl chain) (hlive : fs.ftbl.Live h)
  (hseek : (fs.fileCtl h).seekPointer ≤ (fs.ftbl.fileFsDesc h).size)

include hlive ht in
theorem TableInv.seg_file : Seg fs.ftbl.clusterTbl (fs.ftbl.fileFsDesc h).firstCluster (chain h)
    (stopMark (chain h)) := by
  have hstart : fs.ftbl.start h = (fs.ftbl.fileFsDesc h).firstCluster := if_pos hlive
  exact hstart ▸ ht.chains.seg h

include ht hlive hseek in
theorem seek_clusters : (fs.fileCtl h).seekPointer / clusterSize % 2 ^ 16
    = (fs.fileCtl h).seekPointer / clusterSize := by
  have hsize := ht.size_le hlive
  refine Nat.mod_eq_of_lt ?_
  simp only [storageAreaSize, clusterSize] at *
  omega

include hl ht hlive hseek in
/-- Inside the chain: the cluster at the seek pointer. -/
theorem writeStart_inside
    (hin : ¬((fs.fileCtl h).seekPointer = (fs.ftbl.fileFsDesc h).size ∧
      (fs.fileCtl h).seekPointer % clusterSize = 0)) :
    ∃ c, writeStart fs (fs.ftbl.fileFsDesc h) (fs.fileCtl h) = some (fs, some c) ∧
      Writing fs h chain fs.ftbl.start (fun k => stopMark (chain k)) c
        ((fs.fileCtl h).seekPointer % clusterSize) := by
  have hlen := ht.length h hlive
  have hlt : (fs.fileCtl h).seekPointer / clusterSize < (chain h).length := by
    rw [hlen]
    simp only [clustersFor, clusterSize] at *
    omega
  obtain ⟨c, hc⟩ : ∃ c, (chain h)[(fs.fileCtl h).seekPointer / clusterSize]? = some c :=
    ⟨_, List.getElem?_eq_getElem hlt⟩
  refine ⟨c, ?_, ?_⟩
  · rw [writeStart, if_neg hin, getClusterSeekPt, seek_clusters ht hlive hseek,
      clusterWalk_seg hl (ht.seg_file hlive) (ht.chains.valid h) hc]
    rfl
  · have hne : chain h ≠ [] := List.ne_nil_of_length_pos (Nat.zero_lt_of_lt hlt)
    refine ⟨hl, ht.chains, hc, Nat.mod_mod _ _, .inl ⟨if_neg hne, hlen⟩⟩

include hl ht hlive in
/-- At an end of the file that fills its clusters: a free cluster is linked
behind the last one. -/
theorem writeStart_aligned (hend : (fs.fileCtl h).seekPointer = (fs.ftbl.fileFsDesc h).size)
    (hzero : (fs.fileCtl h).seekPointer % clusterSize = 0) (hpos : 0 < (fs.fileCtl h).seekPointer) :
    ∃ m c, chain h = m ++ [c] ∧ writeStart fs (fs.ftbl.fileFsDesc h) (fs.fileCtl h)
      = some (match firstFree fs.ftbl.clusterTbl with
        | none => (fs, none)
        | some x => (setCluster (setCluster fs x reservedCluster) c x, some x)) := by
  have hlen := ht.length h hlive
  have hdiv : (fs.fileCtl h).seekPointer / clusterSize = (chain h).length := by
    rw [hlen]
    simp only [clustersFor, clusterSize] at *
    omega
  have hne : chain h ≠ [] := by
    intro hnil
    rw [hnil] at hdiv
    simp only [clusterSize, List.length_nil] at *
    omega
  obtain ⟨m, c, hm⟩ : ∃ m c, chain h = m ++ [c] :=
    ⟨_, _, (List.dropLast_append_getLast hne).symm⟩
  have hmlen : (chain h).length = m.length + 1 := by simp [hm]
  have hseg := ht.seg_file hlive
  have hvalid := ht.chains.valid h
  rw [hm] at hseg hvalid
  refine ⟨m, c, hm, ?_⟩
  rw [writeStart, if_pos ⟨hend, hzero⟩, if_pos hpos, getClusterSeekPt,
    seek_clusters ht hlive (Nat.le_of_eq hend), hdiv, hmlen,
    clusterWalk_end hl hseg hvalid (not_stopMark_lt _)]
  dsimp only [Option.bind_eq_bind, Option.bind_some]
  rw [if_neg (by decide), reserveCluster_eq hl]
  cases hx : firstFree fs.ftbl.clusterTbl with
  | none => rfl
  | some x =>
    have hl' : (setCluster fs x reservedCluster).lock = false := hl
    show (linkCluster (setCluster fs x reservedCluster) c x).bind _ = _
    rw [linkCluster_eq hl' (hvalid c (by simp)) (firstFree_spec hx).1]
    rfl

/-- The first cluster that a file has once cluster `c` is the first one written. -/
def firstAfter (fd : Fd) (c : ℕ) : ℕ :=
  if fd.firstCluster ≥ clustersCount then c else fd.firstCluster

include ht hlive in
theorem firstAfter_of_ne_nil (hne : chain h ≠ []) (c : ℕ) :
    firstAfter (fs.ftbl.fileFsDesc h) c = fs.ftbl.start h := by
  obtain ⟨x, m, hx⟩ := List.exists_cons_of_ne_nil hne
  have hseg := ht.seg_file hlive
  rw [hx] at hseg
  have hxv : x < clustersCount := ht.chains.valid h x (by simp [hx])
  rw [firstAfter, if_neg (by rw [hseg.1]; omega), Ftbl.start, if_pos hlive]

/-- The cluster table before the loop, and the cluster to start with.  Only at an
end of file that fills its clusters the table changes. -/
structure Started (fs : Fs δ) (h : ℕ) (chain : ℕ → List ℕ) (tbl : ℕ → ℕ) (first : Option ℕ) :
    Prop where
  atEnd : AtEnd fs h → first = firstFree fs.ftbl.clusterTbl
  inside : ¬AtEnd fs h → first ≠ none ∧ tbl = fs.ftbl.clusterTbl
  refused : first = none → tbl = fs.ftbl.clusterTbl
  writing : ∀ c, first = some c → ∃ l v, chain h <+: l ∧ Writing (setTable fs tbl) h
    (update chain h l)
    (update fs.ftbl.start h (firstAfter (fs.ftbl.fileFsDesc h) c))
    (update (fun k => stopMark (chain k)) h v) c
    ((fs.fileCtl h).seekPointer % clusterSize)

/-- No cluster is free. -/
theorem Started.none (hend : AtEnd fs h) (hx : firstFree fs.ftbl.clusterTbl = none) :
    Started fs h chain fs.ftbl.clusterTbl none :=
  ⟨fun _ => hx.symm, fun hno => absurd hend hno, fun _ => rfl, fun _ hc => nomatch hc⟩

/-- A free cluster is reserved. -/
theorem Started.some {x : ℕ} (hend : AtEnd fs h)
    (hx : firstFree fs.ftbl.clusterTbl = some x)
    (hw : ∃ l v, chain h <+: l ∧ Writing (setTable fs tbl) h (update chain h l)
      (update fs.ftbl.start h (firstAfter (fs.ftbl.fileFsDesc h) x))
      (update (fun k => stopMark (chain k)) h v) x
      ((fs.fileCtl h).seekPointer % clusterSize)) :
    Started fs h chain tbl (some x) := by
  refine ⟨fun _ => hx.symm, fun hno => absurd hend hno, fun hno => (nomatch hno), ?_⟩
  rintro c ⟨⟩
  exact hw

include hl ht hlive hseek in
/-- The three ways to find the first cluster all lead to a state before a round
of the loop. -/
theorem writeStart_spec :
    ∃ tbl first, writeStart fs (fs.ftbl.fileFsDesc h) (fs.fileCtl h)
        = some (setTable fs tbl, first) ∧ Started fs h chain tbl first := by
  have hlen := ht.length h hlive
  by_cases halign : AtEnd fs h
  · obtain ⟨hend, hzero⟩ := id halign
    have hdiv : (fs.fileCtl h).seekPointer / clusterSize = (chain h).length := by
      rw [hlen]
      simp only [clustersFor, clusterSize] at *
      omega
    rcases Nat.eq_zero_or_pos (fs.fileCtl h).seekPointer with hz | hpos
    · -- an empty file: its first cluster is reserved
      have hnil : chain h = [] := List.eq_nil_of_length_eq_zero (by rw [← hdiv, hz]; rfl)
      have hempty : (fs.ftbl.fileFsDesc h).firstCluster = emptyCluster := by
        have hseg := ht.seg_file hlive
        rwa [hnil] at hseg
      rw [writeStart, if_pos ⟨hend, hzero⟩, if_neg (by omega), reserveCluster_eq hl]
      cases hx : firstFree fs.ftbl.clusterTbl with
      | none => exact ⟨fs.ftbl.clusterTbl, none, rfl, .none halign hx⟩
      | some x =>
        obtain ⟨hxv, hxfree⟩ := firstFree_spec hx
        refine ⟨_, some x, rfl, .some halign hx ?_⟩
        have hfirst : firstAfter (fs.ftbl.fileFsDesc h) x = x := if_pos (by rw [hempty]; decide)
        rw [hfirst]
        refine ⟨[x], reservedCluster, hnil ▸ List.nil_prefix, hl,
          ht.chains.begin hnil hxv hxfree (by decide), ?_, Nat.mod_mod _ _, .inr ⟨?_, ?_, ?_⟩⟩
        · show (update chain h [x] h)[(fs.fileCtl h).seekPointer / clusterSize]? = _
          rw [hz, update_self]
          rfl
        · exact update_self ..
        · exact Nat.le_of_eq hend.symm
        · show (update chain h [x] h).length = (fs.fileCtl h).seekPointer / clusterSize + 1
          rw [hz, update_self]
          rfl
    · obtain ⟨m, c, hm, hrun⟩ := writeStart_aligned hl ht hlive hend hzero hpos
      rw [hrun]
      cases hx : firstFree fs.ftbl.clusterTbl with
      | none => exact ⟨fs.ftbl.clusterTbl, none, rfl, .none halign hx⟩
      | some x =>
        obtain ⟨hxv, hxfree⟩ := firstFree_spec hx
        refine ⟨_, some x, rfl, .some halign hx ?_⟩
        rw [firstAfter_of_ne_nil ht hlive (by simp [hm]), update_eq_self]
        refine ⟨chain h ++ [x], reservedCluster, List.prefix_append _ _, hl, ?_, ?_,
          Nat.mod_mod _ _, .inr ⟨?_, ?_, ?_⟩⟩
        · rw [hm]
          exact ht.chains.extend hm hxv hxfree (by decide)
        · show (update chain h _ h)[(fs.fileCtl h).seekPointer / clusterSize]? = _
          rw [hdiv, update_self, List.getElem?_concat_length]
        · exact update_self ..
        · exact Nat.le_of_eq hend.symm
        · show (update chain h _ h).length = (fs.fileCtl h).seekPointer / clusterSize + 1
          rw [hdiv, update_self, List.length_append]
          rfl
  · obtain ⟨c, hrun, hw⟩ := writeStart_inside hl ht hlive hseek halign
    refine ⟨fs.ftbl.clusterTbl, some c, hrun, fun hend => absurd hend halign,
      fun _ => ⟨Option.some_ne_none c, rfl⟩, fun _ => rfl, ?_⟩
    rintro c' ⟨⟩
    have hne : chain h ≠ [] := by
      intro hnil
      have hhere := hw.here
      simp [hnil] at hhere
    rw [firstAfter_of_ne_nil ht hlive hne, update_eq_self]
    refine ⟨chain h, stopMark (chain h), List.prefix_rfl, ?_⟩
    rw [update_eq_self, update_eq_self]
    exact hw

end

/-! ### After the loop -/

/-- The state after a successful call: `wrote`, and the first cluster is set. -/
def writtenState (fs : Fs δ) (h n first : ℕ) (tbl : ℕ → ℕ) (dev : δ) : Fs δ :=
  let fs := wrote fs h n tbl dev
  setFd fs h { fs.ftbl.fileFsDesc h with firstCluster := first }

/-- A successful call of `mipos_tfs_write_file` on file `h`, which then has the
clusters `l`. -/
structure WriteOk (port : Port δ) (fs fs' : Fs δ) (h : ℕ) (chain : ℕ → List ℕ)
    (data : List UInt8) (l : List ℕ) : Prop where
  live : fs.ftbl.Live h
  isOpen : (fs.fileCtl h).isOpen = true
  seek_le : (fs.fileCtl h).seekPointer ≤ (fs.ftbl.fileFsDesc h).size
  state : fs' = writtenState fs h data.length (fs'.ftbl.fileFsDesc h).firstCluster
    fs'.ftbl.clusterTbl fs'.dev
  inv : FsInv fs' (update chain h l)
  grows : chain h <+: l
  stores : Stores port l (fs.fileCtl h).seekPointer data fs.dev fs'.dev

theorem live_writtenState {n first : ℕ} {dev : δ} (k : ℕ) :
    (writtenState fs h n first tbl dev).ftbl.Live k ↔ fs.ftbl.Live k := by
  rcases eq_or_ne k h with rfl | hne
  · simp [Ftbl.Live, writtenState, wrote, setTable]
  · simp [Ftbl.Live, writtenState, wrote, setTable, hne]

theorem start_writtenState {n first : ℕ} {dev : δ} (hlive : fs.ftbl.Live h) :
    (writtenState fs h n first tbl dev).ftbl.start = update fs.ftbl.start h first := by
  funext k
  rw [Ftbl.start]
  simp only [live_writtenState]
  rcases eq_or_ne k h with rfl | hne
  · simp [hlive, writtenState]
  · simp [hne, writtenState, wrote, setTable, Ftbl.start]

/-- The invariant after a write, from the chains that it left. -/
theorem FsInv.writtenState (hi : FsInv fs chain) (hlive : fs.ftbl.Live h) {n first : ℕ}
    {dev : δ} {l : List ℕ} (hne : l ≠ [])
    (hchains : Chains (· < clustersCount) freeCluster tbl (update chain h l)
      (update fs.ftbl.start h first)
      (update (fun k => stopMark (chain k)) h lastAllocatedCluster))
    (hlen : l.length = clustersFor (max (fs.ftbl.fileFsDesc h).size
      ((fs.fileCtl h).seekPointer + n))) :
    FsInv (Tfs.writtenState fs h n first tbl dev) (update chain h l) := by
  have hmark : stopMark l = lastAllocatedCluster := if_neg hne
  constructor
  case lock => exact hi.lock
  case table =>
    constructor
    case chains =>
      rw [start_writtenState hlive, stopMark_update, hmark]
      exact hchains
    case length =>
      intro k hk
      rcases eq_or_ne k h with rfl | hkh
      · simpa [Tfs.writtenState, wrote, setTable] using hlen
      · have hold := hi.table.length k ((live_writtenState k).mp hk)
        simpa [Tfs.writtenState, wrote, setTable, hkh] using hold
    case unused =>
      intro k hk
      have hdead : ¬fs.ftbl.Live k := fun hold => hk ((live_writtenState k).mpr hold)
      have hkh : k ≠ h := fun heq => hdead (heq ▸ hlive)
      rw [update_of_ne hkh]
      exact hi.table.unused k hdead
  case opened =>
    intro k hk hopen
    refine (live_writtenState k).mpr (hi.opened k hk ?_)
    rcases eq_or_ne k h with rfl | hkh
    · simpa [Tfs.writtenState, wrote, setTable] using hopen
    · simpa [Tfs.writtenState, wrote, setTable, hkh] using hopen
  case unlocked =>
    intro k hk
    have hfree := hi.unlocked k ((live_writtenState k).mp hk)
    rcases eq_or_ne k h with rfl | hkh
    · simpa [Tfs.writtenState, wrote, setTable] using hfree
    · simpa [Tfs.writtenState, wrote, setTable, hkh] using hfree

/-- Locking, writing and unlocking a file that is not locked. -/
theorem unlock_written {n first : ℕ} {tbl tbl₁ : ℕ → ℕ} {dev : δ} (hh : h < maxNOfFiles)
    (hfree : (fs.fileCtl h).locked = false) :
    (unlockFile (writtenState (setTable (holding fs h) tbl₁)
      h n first tbl dev) h).1 = writtenState fs h n first tbl dev := by
  rw [unlockFile, if_neg (Nat.not_le.mpr hh)]
  simp [holding, writtenState, wrote, setTable, setFd, setCtl, setDev, ← hfree]

/-- What follows the loop: the first cluster is set if it was not. -/
theorem setFirst_eq (hl : fs.lock = false) (h c : ℕ) :
    withAccess fs (fun fs =>
      let fd := fs.ftbl.fileFsDesc h
      some (if fd.firstCluster ≥ clustersCount then
        setFd fs h { fd with firstCluster := c } else fs, ()))
      = some (setFd fs h { fs.ftbl.fileFsDesc h with
        firstCluster := firstAfter (fs.ftbl.fileFsDesc h) c }, ()) := by
  refine withAccess_eq hl hl ?_
  dsimp only
  rw [firstAfter]
  split
  · rfl
  · simp [setFd]

/-- From the outcome of the loop to the outcome of the call. -/
theorem Written.finish (hi : FsInv fs chain) (hlive : fs.ftbl.Live h)
    (hopen : (fs.fileCtl h).isOpen = true)
    (hseek : (fs.fileCtl h).seekPointer ≤ (fs.ftbl.fileFsDesc h).size) (hpos : 0 < data.length)
    {v : ℕ} {l₀ l : List ℕ} (hpre : chain h <+: l₀)
    (hw : Written port (setTable (holding fs h) tbl) fs' h
      (update chain h l₀)
      (update fs.ftbl.start h (firstAfter (fs.ftbl.fileFsDesc h) c))
      (update (fun k => stopMark (chain k)) h v) data l) :
    WriteOk port fs (unlockFile (setFd fs' h { fs'.ftbl.fileFsDesc h with
      firstCluster := firstAfter (fs'.ftbl.fileFsDesc h) c }) h).1 h chain data l := by
  obtain ⟨tbl', htbl'⟩ : ∃ tbl', tbl' = fs'.ftbl.clusterTbl := ⟨_, rfl⟩
  obtain ⟨dev', hdev'⟩ : ∃ dev', dev' = fs'.dev := ⟨_, rfl⟩
  have hstate := hw.state
  have hchains := hw.chains
  have hlength := hw.length
  have hgrows := hw.grows
  have hstores := hw.stores
  rw [← htbl'] at hstate hchains
  rw [← hdev'] at hstate hstores
  simp only [setTable, holding_fileCtl, holding_ftbl, update_self] at hlength hgrows hstores
  rw [update_idem, update_idem] at hchains
  have hfd : firstAfter (fs'.ftbl.fileFsDesc h) c = firstAfter (fs.ftbl.fileFsDesc h) c := by
    rw [hstate]
    simp [firstAfter, wrote, setTable]
  have hfs' : setFd fs' h { fs'.ftbl.fileFsDesc h with
      firstCluster := firstAfter (fs'.ftbl.fileFsDesc h) c }
      = writtenState (setTable (holding fs h) tbl) h
        data.length (firstAfter (fs.ftbl.fileFsDesc h) c) tbl' dev' := by
    rw [hfd, hstate]
    rfl
  rw [hfs', unlock_written hlive.1 (hi.unlocked h hlive)]
  have hne : l ≠ [] := by
    rintro rfl
    simp only [clustersFor, clusterSize, List.length_nil] at hlength
    omega
  constructor
  case live => exact hlive
  case isOpen => exact hopen
  case seek_le => exact hseek
  case state => simp [writtenState, setFd, wrote, setTable]
  case inv => exact hi.writtenState hlive hne hchains hlength
  case grows => exact hpre.trans hgrows
  case stores => exact hstores

/-- A call that has filled the volume: the file has the clusters `l`, all of them
full, and its size is still the old one. -/
structure FilledUp (port : Port δ) (fs fs' : Fs δ) (h : ℕ) (chain : ℕ → List ℕ)
    (data : List UInt8) (l : List ℕ) : Prop where
  state : fs' = setFd (nextRound fs h data.length fs'.ftbl.clusterTbl fs'.dev) h
    { fs.ftbl.fileFsDesc h with firstCluster := (fs'.ftbl.fileFsDesc h).firstCluster }
  chains : Chains (· < clustersCount) freeCluster fs'.ftbl.clusterTbl (update chain h l)
    (update fs.ftbl.start h (fs'.ftbl.fileFsDesc h).firstCluster)
    (update (fun k => stopMark (chain k)) h lastAllocatedCluster)
  length : clusterSize * l.length = (fs.fileCtl h).seekPointer + data.length
  past : (fs.ftbl.fileFsDesc h).size < (fs.fileCtl h).seekPointer + data.length
  full : firstFree fs'.ftbl.clusterTbl = none
  grows : chain h <+: l
  stores : Stores port l (fs.fileCtl h).seekPointer data fs.dev fs'.dev

theorem Filled.finish (hlive : fs.ftbl.Live h) (hfree : (fs.fileCtl h).locked = false)
    {v : ℕ} {l₀ l : List ℕ} (hpre : chain h <+: l₀)
    (hf : Filled port (setTable (holding fs h) tbl) fs' h
      (update chain h l₀)
      (update fs.ftbl.start h (firstAfter (fs.ftbl.fileFsDesc h) c))
      (update (fun k => stopMark (chain k)) h v) data l) :
    FilledUp port fs (unlockFile (setFd fs' h { fs'.ftbl.fileFsDesc h with
      firstCluster := firstAfter (fs'.ftbl.fileFsDesc h) c }) h).1 h chain data l := by
  obtain ⟨tbl', htbl'⟩ : ∃ tbl', tbl' = fs'.ftbl.clusterTbl := ⟨_, rfl⟩
  obtain ⟨dev', hdev'⟩ : ∃ dev', dev' = fs'.dev := ⟨_, rfl⟩
  have hstate := hf.state
  have hchains := hf.chains
  have hlength := hf.length
  have hpast := hf.past
  have hfull := hf.full
  have hgrows := hf.grows
  have hstores := hf.stores
  rw [← htbl'] at hstate hchains hfull
  rw [← hdev'] at hstate hstores
  simp only [setTable, holding_fileCtl, holding_ftbl, holding_dev, update_self]
    at hlength hpast hgrows hstores
  rw [update_idem, update_idem] at hchains
  -- locking and unlocking cancel
  have hfs' : (unlockFile (setFd fs' h { fs'.ftbl.fileFsDesc h with
      firstCluster := firstAfter (fs'.ftbl.fileFsDesc h) c }) h).1
      = setFd (nextRound fs h data.length tbl' dev') h { fs.ftbl.fileFsDesc h with
        firstCluster := firstAfter (fs.ftbl.fileFsDesc h) c } := by
    rw [hstate, unlockFile, if_neg (Nat.not_le.mpr hlive.1)]
    simp [holding, nextRound, setTable, setFd, setCtl, setDev, advance, ← hfree]
  rw [hfs']
  have hfirst : ((setFd (nextRound fs h data.length tbl' dev') h { fs.ftbl.fileFsDesc h with
      firstCluster := firstAfter (fs.ftbl.fileFsDesc h) c }).ftbl.fileFsDesc h).firstCluster
      = firstAfter (fs.ftbl.fileFsDesc h) c := by simp
  constructor
  case state => rw [hfirst]; rfl
  case chains => rw [hfirst]; exact hchains
  case length => exact hlength
  case past => exact hpast
  case full => exact hfull
  case grows => exact hpre.trans hgrows
  case stores => exact hstores

/-! ### The call -/

/-- A handle through which a file can be written at its seek pointer. -/
structure Writable (fs : Fs δ) (h : ℕ) : Prop where
  live : fs.ftbl.Live h
  unlocked : (fs.fileCtl h).locked = false
  isOpen : (fs.fileCtl h).isOpen = true
  mode : (fs.fileCtl h).fileOpenMode = .write
  writable : (fs.ftbl.fileFsDesc h).readonly = 0
  seek_le : (fs.fileCtl h).seekPointer ≤ (fs.ftbl.fileFsDesc h).size

instance (fs : Fs δ) (h : ℕ) : Decidable (Writable fs h) :=
  decidable_of_iff (fs.ftbl.Live h ∧ (fs.fileCtl h).locked = false ∧
      (fs.fileCtl h).isOpen = true ∧ (fs.fileCtl h).fileOpenMode = .write ∧
      (fs.ftbl.fileFsDesc h).readonly = 0 ∧
      (fs.fileCtl h).seekPointer ≤ (fs.ftbl.fileFsDesc h).size)
    ⟨fun ⟨hlive, hfree, hopen, hmode, hwrite, hseek⟩ => ⟨hlive, hfree, hopen, hmode, hwrite, hseek⟩,
      fun hw => ⟨hw.live, hw.unlocked, hw.isOpen, hw.mode, hw.writable, hw.seek_le⟩⟩

theorem Writable.openForWrite (hw : Writable fs h) : OpenForWrite fs h :=
  ⟨hw.live.1, hw.unlocked, hw.isOpen, hw.mode, hw.writable⟩

/-- A call on a file that can be written. -/
theorem writeFile_started (port : Port δ) (hl : fs.lock = false) (ht : TableInv fs.ftbl chain)
    (hw : Writable fs h) (src : List UInt8) (n : ℕ) :
    ∃ tbl first,
      Started (holding fs h) h chain tbl first ∧
      writeFile port fs src n h = match first with
        | none => some (setError fs .writeFailed, false, 0)
        | some c => (writeLoop port h (n + 1)
            (setTable (holding fs h) tbl) c
            ((fs.fileCtl h).seekPointer % clusterSize) src n).bind (afterLoop h n c) := by
  have hl₁ : (holding fs h).lock = false := hl
  have hseek : ((holding fs h).fileCtl h).seekPointer ≤ ((holding fs h).ftbl.fileFsDesc h).size := by
    simpa using hw.seek_le
  obtain ⟨tbl, first, hstart, hs⟩ := writeStart_spec hl₁ ht hw.live hseek
  refine ⟨tbl, first, hs, ?_⟩
  rw [writeStart_eq hl₁, Option.some.injEq] at hstart
  rw [writeFile_eq port hl hw.openForWrite, if_neg (Nat.not_lt.mpr hw.seek_le), hstart]
  cases first with
  | none =>
    have htable : setTable (holding fs h) tbl = holding fs h := by
      rw [hs.refused rfl]
      rfl
    dsimp only
    rw [htable, writeFail, hw.openForWrite.unlock]
  | some c => rfl

/-- A call on any other file changes no file. -/
theorem writeFile_rejected (port : Port δ) (hi : FsInv fs chain) (hw : ¬Writable fs h)
    (src : List UInt8) (n : ℕ) :
    ∃ fs', writeFile port fs src n h = some (fs', false, 0) ∧ Touched port fs h fs' := by
  by_cases ho : OpenForWrite fs h
  · have hpast : (fs.ftbl.fileFsDesc h).size < (fs.fileCtl h).seekPointer := by
      by_contra hseek
      exact hw ⟨hi.opened h ho.valid ho.isOpen, ho.unlocked, ho.isOpen, ho.mode, ho.writable,
        Nat.not_lt.mp hseek⟩
    rw [writeFile_eq port hi.lock ho, if_pos hpast]
    exact ⟨_, rfl, .of_error h .writeFailed⟩
  · obtain ⟨fs', hrun, ht, -⟩ := writeFile_refused port hi.lock ho src n
    exact ⟨fs', hrun, ht⟩

theorem crossesEnd_holding :
    CrossesEnd (setTable (holding fs h) tbl) h n ↔ CrossesEnd fs h n := by
  simp [CrossesEnd, setTable]

/-- A call with a device that succeeds: it is refused, or it ends as the loop does. -/
theorem writeFile_loop (hp : port.Succeeds) (hl : fs.lock = false) (ht : TableInv fs.ftbl chain)
    (hw : Writable fs h) (hpos : 0 < data.length) :
    (AtEnd fs h ∧ firstFree fs.ftbl.clusterTbl = none ∧
      writeFile port fs data data.length h = some (setError fs .writeFailed, false, 0)) ∨
    ∃ tbl c l₀ v fs₂ rest, chain h <+: l₀ ∧
      LoopEnd port (setTable (holding fs h) tbl) fs₂ h (update chain h l₀)
        (update fs.ftbl.start h (firstAfter (fs.ftbl.fileFsDesc h) c))
        (update (fun k => stopMark (chain k)) h v) data rest ∧
      writeFile port fs data data.length h = some ((unlockFile (setFd fs₂ h
        { fs₂.ftbl.fileFsDesc h with firstCluster := firstAfter (fs₂.ftbl.fileFsDesc h) c }) h).1,
        decide (rest = 0), data.length - rest) := by
  obtain ⟨tbl, first, hs, hrun⟩ := writeFile_started port hl ht hw data data.length
  cases first with
  | none =>
    have hend : AtEnd (holding fs h) h := by
      by_contra hno
      exact (hs.inside hno).1 rfl
    exact .inl ⟨atEnd_holding.mp hend, (hs.atEnd hend).symm, hrun⟩
  | some c =>
    obtain ⟨l₀, v, hpre, hwriting⟩ := hs.writing c rfl
    have hseek : ((holding fs h).fileCtl h).seekPointer = (fs.fileCtl h).seekPointer := by simp
    rw [hseek] at hwriting
    obtain ⟨fs₂, rest, hloop, hlock, hend⟩ :=
      writeLoop_spec hp hwriting hpos (Nat.lt_succ_self data.length)
    refine .inr ⟨tbl, c, l₀, v, fs₂, rest, hpre, hend, ?_⟩
    rw [hrun]
    dsimp only
    rw [hloop, Option.bind_some, afterLoop, if_neg (by simp), setFirst_eq hlock, Option.bind_some]

/-! ### Free clusters -/

/-- The number of free clusters. -/
def freeClusters (tbl : ℕ → ℕ) : ℕ :=
  ((Finset.range clustersCount).filter (tbl · = freeCluster)).card

/-- The number of clusters by which a write of `n` bytes makes the file longer. -/
def clustersNeeded (fs : Fs δ) (h n : ℕ) : ℕ :=
  clustersFor (max (fs.ftbl.fileFsDesc h).size ((fs.fileCtl h).seekPointer + n))
    - clustersFor (fs.ftbl.fileFsDesc h).size

theorem firstFree_eq_none_iff : firstFree tbl = none ↔ freeClusters tbl = 0 := by
  simp [firstFree_eq_none, freeClusters, Finset.filter_eq_empty_iff]

section

variable {tbl : ℕ → ℕ} {start stop : ℕ → ℕ} {l₀ l : List ℕ} {v : ℕ}
  (ht : TableInv fs.ftbl chain) (hlive : fs.ftbl.Live h) (hpre : chain h <+: l₀)

include ht in
/-- A file grows by clusters that were free. -/
theorem TableInv.freeClusters_add (hgrows : chain h <+: l)
    (hchains : Chains (· < clustersCount) freeCluster tbl (update chain h l) start stop) :
    freeClusters tbl + l.length = freeClusters fs.ftbl.clusterTbl + (chain h).length :=
  Chains.card_free (fun _ => Finset.mem_range) ht.chains hgrows hchains

include ht hlive hpre

/-- A write that is completed found the clusters it needs. -/
theorem Written.needed_le (hw : Written port (setTable (holding fs h) tbl) fs' h
      (update chain h l₀) start (update stop h v) data l) :
    clustersNeeded fs h data.length ≤ freeClusters fs.ftbl.clusterTbl := by
  have hgrows : l₀ <+: l := by simpa using hw.grows
  have hchains := hw.chains
  rw [update_idem] at hchains
  have hcard := ht.freeClusters_add (hpre.trans hgrows) hchains
  have hlen := hw.length
  simp only [setTable, holding_fileCtl, holding_ftbl] at hlen
  rw [hlen, ht.length h hlive] at hcard
  rw [clustersNeeded]
  omega

/-- A write that was stopped for want of clusters needs more than were free. -/
theorem Filled.lt_needed (hf : Filled port (setTable (holding fs h) tbl) fs' h
      (update chain h l₀) start (update stop h v) data l) (hn : data.length < n) :
    freeClusters fs.ftbl.clusterTbl < clustersNeeded fs h n := by
  have hgrows : l₀ <+: l := by simpa using hf.grows
  have hchains := hf.chains
  rw [update_idem] at hchains
  have hcard := ht.freeClusters_add (hpre.trans hgrows) hchains
  have hlen := hf.length
  have hpast := hf.past
  have hfull : freeClusters fs'.ftbl.clusterTbl = 0 := firstFree_eq_none_iff.mp hf.full
  simp only [setTable, holding_fileCtl, holding_ftbl] at hlen hpast
  rw [hfull, ht.length h hlive] at hcard
  rw [clustersNeeded, Nat.max_eq_right (by omega)]
  simp only [clustersFor, clusterSize] at *
  omega

end

/-! ### The outcome -/

/-- How a call ends: the state, the result and `*wbytes`. -/
inductive WriteEnd (port : Port δ) (fs : Fs δ) (h : ℕ) (chain : ℕ → List ℕ) (data : List UInt8) :
    Fs δ → Bool → ℕ → Prop
  | complete {fs' : Fs δ} {l : List ℕ} (hcross : ¬CrossesEnd fs h data.length)
      (hroom : clustersNeeded fs h data.length ≤ freeClusters fs.ftbl.clusterTbl)
      (hw : WriteOk port fs fs' h chain data l) : WriteEnd port fs h chain data fs' true data.length
  | crossing {fs' : Fs δ} {k : ℕ} {l : List ℕ} (hcross : CrossesEnd fs h data.length)
      (hk : k < data.length)
      (hend : (fs.fileCtl h).seekPointer + k = (fs.ftbl.fileFsDesc h).size)
      (hw : WriteOk port fs fs' h chain (data.take k) l) : WriteEnd port fs h chain data fs' false k
  | refused (hend : AtEnd fs h) (hfull : firstFree fs.ftbl.clusterTbl = none) :
      WriteEnd port fs h chain data (setError fs .writeFailed) false 0
  | filled {fs' : Fs δ} {k : ℕ} {l : List ℕ} (hcross : ¬CrossesEnd fs h data.length)
      (hroom : freeClusters fs.ftbl.clusterTbl < clustersNeeded fs h data.length)
      (hk : k < data.length) (hf : FilledUp port fs fs' h chain (data.take k) l) :
      WriteEnd port fs h chain data fs' false k

/-- **`mipos_tfs_write_file`** on a file that can be written returns, in one of the
four ways. -/
theorem writeFile_ends (hp : port.Succeeds) (hi : FsInv fs chain) (hw : Writable fs h)
    (hpos : 0 < data.length) :
    ∃ fs' ok k, writeFile port fs data data.length h = some (fs', ok, k) ∧
      WriteEnd port fs h chain data fs' ok k := by
  rcases writeFile_loop hp hi.lock hi.table hw hpos with
    ⟨hend, hfull, hrun⟩ | ⟨tbl, c, l₀, v, fs₂, rest, hpre, hloop, hrun⟩
  · exact ⟨_, _, _, hrun, .refused hend hfull⟩
  refine ⟨_, _, _, hrun, ?_⟩
  cases hloop with
  | complete hno hwritten =>
    exact .complete (mt crossesEnd_holding.mpr hno) (hwritten.needed_le hi.table hw.live hpre)
      (hwritten.finish hi hw.live hw.isOpen hw.seek_le hpos hpre)
  | @crossing k l hyes hk hend hwritten =>
    have hcross := crossesEnd_holding.mp hyes
    have hend : (fs.fileCtl h).seekPointer + k = (fs.ftbl.fileFsDesc h).size := by
      simpa [setTable] using hend
    have hlt := hcross.1
    have hrest : data.length - k ≠ 0 := by omega
    rw [decide_eq_false hrest, Nat.sub_sub_self (Nat.le_of_lt hk)]
    refine .crossing hcross hk hend (hwritten.finish hi hw.live hw.isOpen hw.seek_le ?_ hpre)
    rw [List.length_take]
    omega
  | @filled k l hno hk hfilled =>
    have hrest : data.length - k ≠ 0 := by omega
    rw [decide_eq_false hrest, Nat.sub_sub_self (Nat.le_of_lt hk)]
    refine .filled (mt crossesEnd_holding.mpr hno) (hfilled.lt_needed hi.table hw.live hpre ?_) hk
      (hfilled.finish hw.live hw.unlocked hpre)
    rw [List.length_take]
    omega

/-- A call of at least one byte returns, and if it returns `TRUE` the file has grown
or was overwritten as asked and the invariant holds. -/
theorem writeFile_spec (hp : port.Succeeds) (hi : FsInv fs chain) (hpos : 0 < data.length)
    (h : ℕ) :
    ∃ fs' ok n, writeFile port fs data data.length h = some (fs', ok, n) ∧
      (ok = true → n = data.length ∧ ∃ l, WriteOk port fs fs' h chain data l) := by
  by_cases hw : Writable fs h
  · obtain ⟨fs', ok, k, hrun, hend⟩ := writeFile_ends hp hi hw hpos
    refine ⟨fs', ok, k, hrun, ?_⟩
    cases hend with
    | complete hcross hroom hwritten => exact fun _ => ⟨rfl, _, hwritten⟩
    | crossing => exact fun hok => nomatch hok
    | refused => exact fun hok => nomatch hok
    | filled => exact fun hok => nomatch hok
  · obtain ⟨fs', hrun, -⟩ := writeFile_rejected port hi hw data data.length
    exact ⟨fs', false, 0, hrun, fun hok => nomatch hok⟩

end Tfs
