/-
Tiny-FS calls that do not overlap.

Between calls the mutex is free, so that every stretch of code under it runs and
leaves it free.  With a driver that returns zero each function then has an
equation that names neither the mutex nor the driver's result:
* the cluster table: `getNextCluster_eq`, `setClusterVal_eq`, `reserveCluster_eq`;
* the device: `writeCluster_io`, `readCluster_io`, `updateFsOnDisk_eq`;
* one round of the loops: `readLoop_io`, `writeLoop_io`, `deleteLoop_succ`.
-/
import Mathlib.Logic.Relation
import Mipos.TfsModel

namespace Tfs

open Function

variable {δ : Type} {port : Port δ} {fs fs' : Fs δ} {tbl : ℕ → ℕ} {name : List UInt8} {h : ℕ}
  {ok : Bool}

/-! ### The driver -/

/-- All device I/O succeeds. -/
structure Port.Succeeds (port : Port δ) : Prop where
  write : ∃ w, port.ioWrite = some w ∧ ∀ dev bytes addr, (w dev bytes addr).2 = 0
  read : ∃ r, port.ioRead = some r ∧ ∀ dev n addr, (r dev n addr).2.2 = 0

/-- The device after a write. -/
def Port.put (port : Port δ) (dev : δ) (bytes : List UInt8) (addr : ℕ) : δ :=
  match port.ioWrite with
  | some w => (w dev bytes addr).1
  | none => dev

/-- The device and the bytes after a read. -/
def Port.get (port : Port δ) (dev : δ) (n addr : ℕ) : δ × List UInt8 :=
  match port.ioRead with
  | some r => ((r dev n addr).1, (r dev n addr).2.1)
  | none => (dev, [])

theorem Port.Succeeds.ioWrite (hp : port.Succeeds) :
    port.ioWrite = some fun dev bytes addr => (port.put dev bytes addr, 0) := by
  obtain ⟨w, hw, hret⟩ := hp.write
  simp only [Port.put, hw, Option.some.injEq]
  funext dev bytes addr
  exact Prod.ext rfl (hret dev bytes addr)

theorem Port.Succeeds.ioRead (hp : port.Succeeds) :
    port.ioRead = some fun dev n addr =>
      ((port.get dev n addr).1, (port.get dev n addr).2, 0) := by
  obtain ⟨r, hr, hret⟩ := hp.read
  simp only [Port.get, hr, Option.some.injEq]
  funext dev n addr
  exact Prod.ext rfl (Prod.ext rfl (hret dev n addr))

/-! ### Edits of the state -/

/-- A new value in the cluster table. -/
def setCluster (fs : Fs δ) (cluster value : ℕ) : Fs δ :=
  { fs with ftbl := { fs.ftbl with
    clusterTbl := update fs.ftbl.clusterTbl cluster value } }

/-- A new state of the device. -/
def setDev (fs : Fs δ) (dev : δ) : Fs δ := { fs with dev }

section

variable {h c v : ℕ} {dev : δ} {fd : Fd} {ctl : Ctl} {e : ErrCode}

@[simp] theorem setFd_lock : (setFd fs h fd).lock = fs.lock := rfl
@[simp] theorem setFd_dev : (setFd fs h fd).dev = fs.dev := rfl
@[simp] theorem setFd_fileCtl : (setFd fs h fd).fileCtl = fs.fileCtl := rfl
@[simp] theorem setFd_clusterTbl : (setFd fs h fd).ftbl.clusterTbl = fs.ftbl.clusterTbl := rfl
@[simp] theorem setFd_fileFsDesc :
    (setFd fs h fd).ftbl.fileFsDesc = update fs.ftbl.fileFsDesc h fd := rfl

@[simp] theorem setCtl_lock : (setCtl fs h ctl).lock = fs.lock := rfl
@[simp] theorem setCtl_dev : (setCtl fs h ctl).dev = fs.dev := rfl
@[simp] theorem setCtl_ftbl : (setCtl fs h ctl).ftbl = fs.ftbl := rfl
@[simp] theorem setCtl_fileCtl :
    (setCtl fs h ctl).fileCtl = update fs.fileCtl h ctl := rfl

@[simp] theorem setCluster_lock : (setCluster fs c v).lock = fs.lock := rfl
@[simp] theorem setCluster_dev : (setCluster fs c v).dev = fs.dev := rfl
@[simp] theorem setCluster_fileCtl : (setCluster fs c v).fileCtl = fs.fileCtl := rfl
@[simp] theorem setCluster_fileFsDesc :
    (setCluster fs c v).ftbl.fileFsDesc = fs.ftbl.fileFsDesc := rfl
@[simp] theorem setCluster_clusterTbl :
    (setCluster fs c v).ftbl.clusterTbl = update fs.ftbl.clusterTbl c v := rfl

theorem setCluster_self (hc : fs.ftbl.clusterTbl c = v) : setCluster fs c v = fs := by
  rw [← hc]
  simp [setCluster]

@[simp] theorem setDev_lock : (setDev fs dev).lock = fs.lock := rfl
@[simp] theorem setDev_dev : (setDev fs dev).dev = dev := rfl
@[simp] theorem setDev_ftbl : (setDev fs dev).ftbl = fs.ftbl := rfl
@[simp] theorem setDev_fileCtl : (setDev fs dev).fileCtl = fs.fileCtl := rfl

@[simp] theorem setError_lock : (setError fs e).lock = fs.lock := rfl
@[simp] theorem setError_dev : (setError fs e).dev = fs.dev := rfl
@[simp] theorem setError_ftbl : (setError fs e).ftbl = fs.ftbl := rfl
@[simp] theorem setError_fileCtl : (setError fs e).fileCtl = fs.fileCtl := rfl

end

/-! ### The mutex -/

theorem unlock_lock (hl : fs.lock = false) : unlockAccess { fs with lock := true } = fs := by
  show { fs with lock := false } = fs
  rw [← hl]

/-- With the mutex free, code that neither looks at it nor changes it runs as
if there were none. -/
theorem withAccess_eq {α : Type} {body : Fs δ → Option (Fs δ × α)} {r : α}
    (hl : fs.lock = false) (hl' : fs'.lock = false)
    (hbody : body { fs with lock := true } = some ({ fs' with lock := true }, r)) :
    withAccess fs body = some (fs', r) := by
  simp [withAccess, lockAccess, hl, hbody, unlock_lock hl']

theorem withAccess_some {α : Type} {body : Fs δ → Option (Fs δ × α)} {r : α}
    (hrun : withAccess fs body = some (fs', r)) :
    ∃ fs₁, body { fs with lock := true } = some (fs₁, r) ∧ unlockAccess fs₁ = fs' := by
  rw [withAccess, lockAccess] at hrun
  split at hrun
  · cases hrun
  · dsimp only [Option.bind_eq_bind, Option.bind_some] at hrun
    obtain ⟨⟨fs₁, r₁⟩, hbody, heq⟩ := Option.bind_eq_some_iff.mp hrun
    cases heq
    exact ⟨fs₁, hbody, rfl⟩

theorem getClusterVal_eq (hl : fs.lock = false) {c : ℕ} (hc : c < clustersCount) :
    getClusterVal fs c = some (fs, fs.ftbl.clusterTbl c) :=
  withAccess_eq hl hl (if_pos hc)

theorem setClusterVal_eq (hl : fs.lock = false) {c : ℕ} (hc : c < clustersCount) (v : ℕ) :
    setClusterVal fs c v = some (setCluster fs c v) := by
  have hset : withAccess fs (fun fs =>
      if c < clustersCount then some (setCluster fs c v, ()) else none)
      = some (setCluster fs c v, ()) := withAccess_eq hl hl (if_pos hc)
  show (withAccess fs _).bind _ = _
  exact hset ▸ rfl

/-- The free cluster that `reserve_cluster` takes. -/
def firstFree (tbl : ℕ → ℕ) : Option ℕ :=
  (List.range clustersCount).find? fun i => tbl i = freeCluster

theorem firstFree_spec {x : ℕ} (hx : firstFree tbl = some x) :
    x < clustersCount ∧ tbl x = freeCluster := by
  constructor
  · exact List.mem_range.mp (List.mem_of_find?_eq_some hx)
  · simpa using List.find?_some hx

theorem firstFree_eq_none :
    firstFree tbl = none ↔ ∀ c, c < clustersCount → tbl c ≠ freeCluster := by
  simp [firstFree, List.find?_eq_none]

theorem reserveCluster_eq (hl : fs.lock = false) :
    reserveCluster fs = some (match firstFree fs.ftbl.clusterTbl with
      | none => (fs, none)
      | some x => (setCluster fs x reservedCluster, some x)) := by
  cases hx : firstFree fs.ftbl.clusterTbl with
  | none =>
    refine withAccess_eq hl hl ?_
    show (match firstFree fs.ftbl.clusterTbl with | none => _ | some i => _) = _
    rw [hx]
  | some x =>
    refine withAccess_eq hl hl ?_
    show (match firstFree fs.ftbl.clusterTbl with | none => _ | some i => _) = _
    rw [hx]
    rfl

/-- The cluster linked behind another one. -/
def nextOf (tbl : ℕ → ℕ) (c : ℕ) : Option ℕ :=
  if c ≥ clustersCount ∨ tbl c ≥ clustersCount then none else some (tbl c)

theorem getNextCluster_eq (hl : fs.lock = false) (c : ℕ) :
    getNextCluster fs c = some (fs, nextOf fs.ftbl.clusterTbl c) := by
  rw [getNextCluster, nextOf]
  by_cases hc : c ≥ clustersCount
  · simp [hc]
  · rw [if_neg hc, getClusterVal_eq hl (Nat.lt_of_not_le hc)]
    simp [hc]

theorem linkCluster_eq (hl : fs.lock = false) {c x : ℕ} (hc : c < clustersCount)
    (hx : x < clustersCount) : linkCluster fs c x = some (setCluster fs c x, true) := by
  have hin : ¬(c ≥ clustersCount ∨ x ≥ clustersCount) := by omega
  rw [linkCluster, if_neg hin, setClusterVal_eq hl hc]
  rfl

theorem getFdCtl_eq (hl : fs.lock = false) (h : ℕ) :
    getFdCtl fs h = some (fs, fs.ftbl.fileFsDesc h, fs.fileCtl h) := withAccess_eq hl hl rfl

theorem scan_eq (hl : fs.lock = false) (p : ℕ → Bool) :
    scan fs p = some (fs, (List.range maxNOfFiles).find? p) := withAccess_eq hl hl rfl

theorem withAccess_setCtl (hl : fs.lock = false) (h : ℕ) (f : Ctl → Ctl) :
    withAccess fs (fun fs => some (setCtl fs h (f (fs.fileCtl h)), ()))
      = some (setCtl fs h (f (fs.fileCtl h)), ()) := withAccess_eq hl hl rfl

theorem withAccess_setFd (hl : fs.lock = false) (h : ℕ) (f : Fd → Fd) :
    withAccess fs (fun fs => some (setFd fs h (f (fs.ftbl.fileFsDesc h)), ()))
      = some (setFd fs h (f (fs.ftbl.fileFsDesc h)), ()) := withAccess_eq hl hl rfl

/-! ### The device -/

theorem mod_clusterSize (i : ℕ) : i % clusterSize < clusterSize := Nat.mod_lt _ (by decide)

/-- Whatever the driver answers, only the device changes. -/
theorem updateFsOnDisk_some {ret : ℤ} (hrun : updateFsOnDisk port fs = some (fs', ret)) :
    ∃ dev, fs' = setDev fs dev := by
  obtain ⟨ioWrite, -, hrun⟩ := Option.bind_eq_some_iff.mp hrun
  cases hrun
  exact ⟨_, rfl⟩

theorem updateFsOnDisk_eq (hp : port.Succeeds) (fs : Fs δ) :
    updateFsOnDisk port fs = some (setDev fs (port.put fs.dev fs.ftbl.bytes tfsOffset), 0) := by
  simp [updateFsOnDisk, hp.ioWrite, setDev]

/-- Whatever the driver answers. -/
theorem writeCluster_io {w : δ → List UInt8 → ℕ → δ × ℤ} (hw : port.ioWrite = some w)
    (hl : fs.lock = false) (c off : ℕ) (src : List UInt8) {n t : ℕ}
    (ht : t = min n (clusterSize - off % clusterSize)) (hpos : 0 < t) :
    writeCluster port fs c off src n =
      let io := w fs.dev (src.take t) (clusterAddr c (off % clusterSize))
      some (setDev fs io.1, io.2, t) := by
  refine withAccess_eq hl hl ?_
  dsimp only
  rw [← ht, if_neg (Nat.pos_iff_ne_zero.mp hpos), hw]
  rfl

theorem readCluster_io {r : δ → ℕ → ℕ → δ × List UInt8 × ℤ} (hr : port.ioRead = some r)
    (hl : fs.lock = false) (c off : ℕ) {n t : ℕ}
    (ht : t = min n (clusterSize - off % clusterSize)) (hpos : 0 < t) :
    readCluster port fs c off n =
      let io := r fs.dev t (clusterAddr c (off % clusterSize))
      some (setDev fs io.1, io.2.2, t, io.2.1) := by
  refine withAccess_eq hl hl ?_
  dsimp only
  rw [← ht, if_neg (Nat.pos_iff_ne_zero.mp hpos), hr]
  rfl

/-! ### One round of the loops -/

/-- The seek pointer of a file moves on. -/
def advance (fs : Fs δ) (h t : ℕ) : Fs δ :=
  setCtl fs h { fs.fileCtl h with seekPointer := ((fs.fileCtl h).seekPointer + t) % 2 ^ 32 }

theorem withAccess_advance (hl : fs.lock = false) (h t : ℕ) :
    withAccess fs (fun fs => some (advance fs h t, ())) = some (advance fs h t, ()) :=
  withAccess_eq hl hl rfl

@[simp] theorem advance_lock (h t : ℕ) : (advance fs h t).lock = fs.lock := rfl
@[simp] theorem advance_ftbl (h t : ℕ) : (advance fs h t).ftbl = fs.ftbl := rfl
@[simp] theorem advance_dev (h t : ℕ) : (advance fs h t).dev = fs.dev := rfl

/-- The seek pointer, where it does not wrap. -/
theorem advance_seekPointer {h t : ℕ} (hnowrap : (fs.fileCtl h).seekPointer + t < 2 ^ 32) :
    ((advance fs h t).fileCtl h).seekPointer = (fs.fileCtl h).seekPointer + t := by
  show (update fs.fileCtl h _ h).seekPointer = _
  rw [update_self]
  exact Nat.mod_eq_of_lt hnowrap

/-- One round of the loop of `mipos_tfs_read_file`, which does not look at what the driver
returns. -/
theorem readLoop_io {r : δ → ℕ → ℕ → δ × List UInt8 × ℤ} (hr : port.ioRead = some r)
    (hl : fs.lock = false) (h total fuel c off got : ℕ) {n t : ℕ}
    (ht : t = min n (clusterSize - off % clusterSize)) (hpos : 0 < t) :
    readLoop port h total (fuel + 1) fs c off got n =
      let io := r fs.dev t (clusterAddr c (off % clusterSize))
      let fs := advance (setDev fs io.1) h t
      if got + t ≥ total then some (fs, true, got + t, io.2.1)
      else match nextOf fs.ftbl.clusterTbl c with
        | none => some (setError fs .readNotCompleted, false, got + t, io.2.1)
        | some next =>
          (readLoop port h total fuel fs next 0 (got + t) (total - (got + t))).map fun x =>
            (x.1, x.2.1, x.2.2.1, io.2.1 ++ x.2.2.2) := by
  rw [readLoop, readCluster_io hr hl c off ht hpos]
  generalize r fs.dev t (clusterAddr c (off % clusterSize)) = io
  have hl' : (setDev fs io.1).lock = false := hl
  have hadv : (advance (setDev fs io.1) h t).lock = false := hl
  show (if t = 0 then _ else (withAccess (setDev fs io.1)
    (fun fs => some (advance fs h t, ()))).bind _) = _
  rw [if_neg (Nat.pos_iff_ne_zero.mp hpos), withAccess_advance hl']
  dsimp only [Option.bind_some]
  by_cases hend : got + t ≥ total
  · simp [hend]
  · rw [if_neg hend, if_neg hend]
    rw [getNextCluster_eq hadv]
    dsimp only [Option.bind_eq_bind, Option.bind_some]
    cases nextOf (advance (setDev fs io.1) h t).ftbl.clusterTbl c with
    | none => rfl
    | some next =>
      dsimp only
      cases readLoop port h total fuel (advance (setDev fs io.1) h t) next 0 (got + t)
        (total - (got + t)) <;> rfl

/-- One round on a device that succeeds. -/
theorem readLoop_succ (hp : port.Succeeds) (hl : fs.lock = false)
    (h total fuel c off got : ℕ) {n t : ℕ} (ht : t = min n (clusterSize - off % clusterSize))
    (hpos : 0 < t) :
    readLoop port h total (fuel + 1) fs c off got n =
      let io := port.get fs.dev t (clusterAddr c (off % clusterSize))
      let fs := advance (setDev fs io.1) h t
      if got + t ≥ total then some (fs, true, got + t, io.2)
      else match nextOf fs.ftbl.clusterTbl c with
        | none => some (setError fs .readNotCompleted, false, got + t, io.2)
        | some next => (readLoop port h total fuel fs next 0 (got + t) (total - (got + t))).map
            fun r => (r.1, r.2.1, r.2.2.1, io.2 ++ r.2.2.2) := by
  rw [readLoop_io hp.ioRead hl h total fuel c off got ht hpos]

theorem nextOf_lt {c x : ℕ} (hx : nextOf tbl c = some x) :
    x < clustersCount ∧ tbl c = x := by
  rw [nextOf] at hx
  split at hx
  · cases hx
  · rename_i hin
    obtain rfl : tbl c = x := by simpa using hx
    exact ⟨by omega, rfl⟩

theorem nextForWrite_past (hl : fs.lock = false) {c : ℕ} (hc : c < clustersCount) :
    nextForWrite fs true c = some (match firstFree fs.ftbl.clusterTbl with
      | none => (setCluster fs c lastAllocatedCluster, none)
      | some x => (setCluster fs x reservedCluster, some x)) := by
  rw [nextForWrite, if_pos rfl, reserveCluster_eq hl]
  cases firstFree fs.ftbl.clusterTbl with
  | none =>
    show (markClusterLast fs c).bind _ = _
    rw [markClusterLast, setClusterVal_eq hl hc]
    rfl
  | some x => rfl

theorem nextForWrite_inside (hl : fs.lock = false) {c : ℕ} (hc : c < clustersCount) :
    nextForWrite fs false c = some (match nextOf fs.ftbl.clusterTbl c with
      | none => (setCluster fs c lastAllocatedCluster, none)
      | some x => (fs, some x)) := by
  rw [nextForWrite, if_neg Bool.false_ne_true, getNextCluster_eq hl]
  cases nextOf fs.ftbl.clusterTbl c with
  | none =>
    show (markClusterLast fs c).bind _ = _
    rw [markClusterLast, setClusterVal_eq hl hc]
    rfl
  | some x => rfl

/-- One round of the loop of `mipos_tfs_write_file`.  After a failure of the driver the
loop ends, but the next cluster is reserved or looked up all the same. -/
theorem writeLoop_io {w : δ → List UInt8 → ℕ → δ × ℤ} (hw : port.ioWrite = some w)
    (hl : fs.lock = false) (h fuel off : ℕ) (src : List UInt8) {c n t : ℕ} (hc : c < clustersCount)
    (ht : t = min n (clusterSize - off % clusterSize)) (hpos : 0 < t) :
    writeLoop port h (fuel + 1) fs c off src n =
      let io := w fs.dev (src.take t) (clusterAddr c (off % clusterSize))
      let fs₁ := advance (setDev fs io.1) h t
      let fd := fs.ftbl.fileFsDesc h
      let seek := (fs₁.fileCtl h).seekPointer
      if n - t = 0 then
        some (if seek > fd.size then
          setCluster (setFd fs₁ h { fd with size := seek }) c lastAllocatedCluster else fs₁, 0, io.2)
      else if seek > fd.size then
        match firstFree fs.ftbl.clusterTbl with
        | none => some (setCluster fs₁ c lastAllocatedCluster, n - t, io.2)
        | some x =>
          if io.2 ≠ 0 then some (setCluster fs₁ x reservedCluster, n - t, io.2)
          else writeLoop port h fuel (setCluster (setCluster fs₁ x reservedCluster) c x) x 0
            (src.drop t) (n - t)
      else match nextOf fs.ftbl.clusterTbl c with
        | none => some (setCluster fs₁ c lastAllocatedCluster, n - t, io.2)
        | some x =>
          if io.2 ≠ 0 then some (fs₁, n - t, io.2)
          else writeLoop port h fuel (setCluster fs₁ c x) x 0 (src.drop t) (n - t) := by
  rw [writeLoop, writeCluster_io hw hl c off src ht hpos]
  generalize w fs.dev (src.take t) (clusterAddr c (off % clusterSize)) = io
  have hl' : (setDev fs io.1).lock = false := hl
  show ((withAccess (setDev fs io.1) (fun fs => some (advance fs h t, ()))).bind _) = _
  rw [withAccess_advance hl']
  dsimp only
  generalize hfs : advance (setDev fs io.1) h t = fs'
  have hadv : fs'.lock = false := hfs ▸ hl
  have hftbl : fs.ftbl = fs'.ftbl := hfs ▸ rfl
  rw [hftbl]
  dsimp only [Option.bind_some]
  by_cases hdone : n - t = 0
  · rw [if_pos hdone, if_pos hdone]
    by_cases hpast : (fs'.fileCtl h).seekPointer > (fs'.ftbl.fileFsDesc h).size
    · rw [if_pos hpast, if_pos hpast, markClusterLast, setClusterVal_eq (by exact hadv) hc]
      rfl
    · rw [if_neg hpast, if_neg hpast]
      rfl
  · rw [if_neg hdone, if_neg hdone]
    by_cases hpast : (fs'.fileCtl h).seekPointer > (fs'.ftbl.fileFsDesc h).size
    · rw [if_pos hpast, decide_eq_true hpast, nextForWrite_past hadv hc]
      cases hx : firstFree fs'.ftbl.clusterTbl with
      | none => rfl
      | some x =>
        have hres : (setCluster fs' x reservedCluster).lock = false := hadv
        show (if io.2 ≠ 0 then _ else
          (linkCluster (setCluster fs' x reservedCluster) c x).bind _) = _
        rw [linkCluster_eq hres hc (firstFree_spec hx).1]
        rfl
    · rw [if_neg hpast, decide_eq_false hpast, nextForWrite_inside hadv hc]
      cases hx : nextOf fs'.ftbl.clusterTbl c with
      | none => rfl
      | some x =>
        show (if io.2 ≠ 0 then _ else (linkCluster fs' c x).bind _) = _
        rw [linkCluster_eq hadv hc (nextOf_lt hx).1]
        rfl

/-- One round on a device that succeeds. -/
theorem writeLoop_succ (hp : port.Succeeds) (hl : fs.lock = false) (h fuel off : ℕ)
    (src : List UInt8) {c n t : ℕ} (hc : c < clustersCount)
    (ht : t = min n (clusterSize - off % clusterSize)) (hpos : 0 < t) :
    writeLoop port h (fuel + 1) fs c off src n =
      let fs₁ := advance (setDev fs
        (port.put fs.dev (src.take t) (clusterAddr c (off % clusterSize)))) h t
      let fd := fs.ftbl.fileFsDesc h
      let seek := (fs₁.fileCtl h).seekPointer
      if n - t = 0 then
        some (if seek > fd.size then
          setCluster (setFd fs₁ h { fd with size := seek }) c lastAllocatedCluster else fs₁, 0, 0)
      else if seek > fd.size then
        match firstFree fs.ftbl.clusterTbl with
        | none => some (setCluster fs₁ c lastAllocatedCluster, n - t, 0)
        | some x => writeLoop port h fuel (setCluster (setCluster fs₁ x reservedCluster) c x) x 0
            (src.drop t) (n - t)
      else match nextOf fs.ftbl.clusterTbl c with
        | none => some (setCluster fs₁ c lastAllocatedCluster, n - t, 0)
        | some x => writeLoop port h fuel (setCluster fs₁ c x) x 0 (src.drop t) (n - t) := by
  rw [writeLoop_io hp.ioWrite hl h fuel off src hc ht hpos]
  simp only [ne_eq, not_true_eq_false, if_false]

/-- One round of the loop of `mipos_tfs_delete_file`. -/
theorem deleteLoop_succ (hl : fs.lock = false) (fuel c : ℕ) :
    deleteLoop (fuel + 1) fs c = match nextOf fs.ftbl.clusterTbl c with
      | none => some (if c < clustersCount then setCluster fs c freeCluster else fs)
      | some x => deleteLoop fuel (setCluster fs c freeCluster) x := by
  rw [deleteLoop, getNextCluster_eq hl]
  by_cases hc : c < clustersCount
  · dsimp only [Option.bind_eq_bind, Option.bind_some]
    rw [if_pos hc, if_pos hc, markClusterFree, setClusterVal_eq hl hc]
    cases nextOf fs.ftbl.clusterTbl c <;> rfl
  · have hnone : nextOf fs.ftbl.clusterTbl c = none := if_pos (Or.inl (Nat.le_of_not_lt hc))
    rw [hnone]
    dsimp only [Option.bind_eq_bind, Option.bind_some]
    rw [if_neg hc, if_neg hc]
    rfl

/-- The loop changes the links only. -/
theorem deleteLoop_some {fuel c : ℕ} (hl : fs.lock = false)
    (hrun : deleteLoop fuel fs c = some fs') :
    ∃ tbl, fs' = { fs with ftbl := { fs.ftbl with clusterTbl := tbl } } := by
  induction fuel generalizing fs c with
  | zero => cases hrun
  | succ fuel ih =>
    rw [deleteLoop_succ hl] at hrun
    split at hrun
    · cases hrun
      split_ifs
      · exact ⟨_, rfl⟩
      · exact ⟨_, rfl⟩
    · have hl' : (setCluster fs c freeCluster).lock = false := hl
      obtain ⟨tbl, rfl⟩ := ih hl' hrun
      exact ⟨tbl, rfl⟩

/-- One step of `get_cluster_seek_pt`. -/
theorem clusterWalk_succ (hl : fs.lock = false) (left c : ℕ) :
    clusterWalk fs (left + 1) c = match nextOf fs.ftbl.clusterTbl c with
      | none => some (fs, decide (left = 0), c)
      | some x => clusterWalk fs left x := by
  rw [clusterWalk, getNextCluster_eq hl]
  dsimp only [Option.bind_eq_bind, Option.bind_some]
  cases nextOf fs.ftbl.clusterTbl c <;> rfl

/-- Where `get_cluster_seek_pt` ends, and whether it got as far as it was to. -/
def walk (tbl : ℕ → ℕ) : ℕ → ℕ → Bool × ℕ
  | 0, c => (true, c)
  | left + 1, c =>
    match nextOf tbl c with
    | none => (decide (left = 0), c)
    | some x => walk tbl left x

theorem clusterWalk_eq (hl : fs.lock = false) (left c : ℕ) :
    clusterWalk fs left c = some (fs, walk fs.ftbl.clusterTbl left c) := by
  induction left generalizing c with
  | zero => rfl
  | succ left ih =>
    rw [clusterWalk_succ hl, walk]
    cases nextOf fs.ftbl.clusterTbl c with
    | none => rfl
    | some x => exact ih x

theorem walk_lt {c : ℕ} (hc : c < clustersCount) (left : ℕ) :
    (walk tbl left c).2 < clustersCount := by
  induction left generalizing c with
  | zero => exact hc
  | succ left ih =>
    rw [walk]
    cases hx : nextOf tbl c with
    | none => exact hc
    | some x => exact ih (nextOf_lt hx).1

/-- There is no way from a cluster that does not exist. -/
theorem walk_of_ge {c : ℕ} (hc : clustersCount ≤ c) (left : ℕ) :
    (walk tbl left c).2 = c := by
  cases left with
  | zero => rfl
  | succ left => rw [walk, nextOf, if_pos (.inl hc)]

theorem formatLoop_eq (hp : port.Succeeds) (js : List ℕ) (fs : Fs δ) :
    formatLoop port js fs = some ({ fs with
      dev := js.foldl (fun dev j =>
        port.put dev (List.replicate clusterSize 0) (j * clusterSize + tfsOffset)) fs.dev
      ftbl := { fs.ftbl with
        clusterTbl := fun c => if c ∈ js then freeCluster else fs.ftbl.clusterTbl c } }, 0) := by
  induction js generalizing fs with
  | nil => simp [formatLoop]
  | cons j js ih =>
    rw [formatLoop, hp.ioWrite]
    dsimp only [Option.bind_eq_bind, Option.bind_some]
    rw [if_neg (by simp), ih]
    dsimp only [List.foldl_cons]
    congr 4
    funext c
    by_cases hjs : c ∈ js
    · simp [hjs]
    · by_cases hj : c = j <;> simp [hj, hjs]

/-! ### Calls that leave the table alone -/

/-- The device is only read. -/
def Port.Reads (port : Port δ) : δ → δ → Prop :=
  Relation.ReflTransGen fun dev dev' => ∃ n addr, dev' = (port.get dev n addr).1

/-- At most the control entry of `h`, the error code and, by reading, the device
have changed.  No file is opened, closed or locked. -/
def Touched (port : Port δ) (fs : Fs δ) (h : ℕ) (fs' : Fs δ) : Prop :=
  ∃ e ctl dev, fs' = setDev (setError (setCtl fs h ctl) e) dev ∧ port.Reads fs.dev dev ∧
    ctl.isOpen = (fs.fileCtl h).isOpen ∧ ctl.fileOpenMode = (fs.fileCtl h).fileOpenMode ∧
    (ctl.locked = true → (fs.fileCtl h).locked = true)

section

variable {h : ℕ} {fs₁ fs₂ : Fs δ}

theorem Touched.of_ctl (h : ℕ) (ctl : Ctl) (e : ErrCode)
    (hopen : ctl.isOpen = (fs.fileCtl h).isOpen)
    (hmode : ctl.fileOpenMode = (fs.fileCtl h).fileOpenMode)
    (hlock : ctl.locked = true → (fs.fileCtl h).locked = true) :
    Touched port fs h (setError (setCtl fs h ctl) e) :=
  ⟨e, ctl, fs.dev, rfl, .refl, hopen, hmode, hlock⟩

theorem Touched.of_error (h : ℕ) (e : ErrCode) : Touched port fs h (setError fs e) := by
  have hself : setCtl fs h (fs.fileCtl h) = fs := by simp [setCtl]
  have ht : Touched port fs h (setError (setCtl fs h (fs.fileCtl h)) e) :=
    .of_ctl h (fs.fileCtl h) e rfl rfl id
  rwa [hself] at ht

theorem Touched.refl (h : ℕ) : Touched port fs h fs := .of_error h fs.lastErrorCode

theorem Touched.trans (h₁ : Touched port fs h fs₁) (h₂ : Touched port fs₁ h fs₂) :
    Touched port fs h fs₂ := by
  obtain ⟨e₁, ctl₁, dev₁, rfl, hdev₁, ho₁, hm₁, hl₁⟩ := h₁
  obtain ⟨e₂, ctl₂, dev₂, rfl, hdev₂, ho₂, hm₂, hl₂⟩ := h₂
  simp only [setDev_fileCtl, setError_fileCtl, setCtl_fileCtl, update_self] at ho₂ hm₂ hl₂
  refine ⟨e₂, ctl₂, dev₂, ?_, hdev₁.trans hdev₂, ho₂.trans ho₁, hm₂.trans hm₁, hl₁ ∘ hl₂⟩
  simp [setDev, setError, setCtl]

theorem Touched.advance (h t : ℕ) : Touched port fs h (advance fs h t) :=
  .of_ctl h _ fs.lastErrorCode rfl rfl id

theorem Touched.get (h n addr : ℕ) :
    Touched port fs h (setDev fs (port.get fs.dev n addr).1) := by
  have hself : setCtl fs h (fs.fileCtl h) = fs := by simp [setCtl]
  refine ⟨fs.lastErrorCode, fs.fileCtl h, _, ?_, .single ⟨n, addr, rfl⟩, rfl, rfl, id⟩
  rw [hself]
  rfl

theorem Touched.ftbl_eq (ht : Touched port fs h fs') : fs'.ftbl = fs.ftbl := by
  obtain ⟨e, ctl, dev, rfl, -⟩ := ht
  rfl

theorem Touched.lock_eq (ht : Touched port fs h fs') : fs'.lock = fs.lock := by
  obtain ⟨e, ctl, dev, rfl, -⟩ := ht
  rfl

theorem Touched.isOpen_eq (ht : Touched port fs h fs') (k : ℕ) :
    (fs'.fileCtl k).isOpen = (fs.fileCtl k).isOpen := by
  obtain ⟨e, ctl, dev, rfl, -, hopen, -⟩ := ht
  rcases eq_or_ne k h with rfl | hk
  · simpa using hopen
  · simp [hk]

theorem Touched.locked_of (ht : Touched port fs h fs') {k : ℕ}
    (hk : (fs'.fileCtl k).locked = true) : (fs.fileCtl k).locked = true := by
  obtain ⟨e, ctl, dev, rfl, -, -, -, hlock⟩ := ht
  rcases eq_or_ne k h with rfl | hkh
  · exact hlock (by simpa using hk)
  · simpa [hkh] using hk

theorem Touched.reads (ht : Touched port fs h fs') : port.Reads fs.dev fs'.dev := by
  obtain ⟨e, ctl, dev, rfl, hdev, -⟩ := ht
  exact hdev

end

theorem lockFile_free (hh : h < maxNOfFiles) (hfree : (fs.fileCtl h).locked = false) :
    lockFile fs h = (setCtl fs h { fs.fileCtl h with locked := true }, true) := by
  rw [lockFile, if_neg (Nat.not_le.mpr hh), if_neg (by simp [hfree])]

theorem lockFile_busy (hbusy : maxNOfFiles ≤ h ∨ (fs.fileCtl h).locked = true) :
    lockFile fs h = (fs, false) := by
  rw [lockFile]
  rcases hbusy with hh | hb
  · rw [if_pos hh]
  · rw [if_pos hb, ite_self]

/-- Unlocking gives back what locking has taken. -/
theorem unlockFile_locked (hh : h < maxNOfFiles) (hfree : (fs.fileCtl h).locked = false) :
    (unlockFile (setCtl fs h { fs.fileCtl h with locked := true }) h).1 = fs := by
  have hself : { fs.fileCtl h with locked := false } = fs.fileCtl h := by rw [← hfree]
  rw [unlockFile, if_neg (Nat.not_le.mpr hh)]
  simp [setCtl, hself]

theorem unlockFile_eq (fs : Fs δ) (h : ℕ) : ∃ ctl, (unlockFile fs h).1 = setCtl fs h ctl := by
  have hself : fs = setCtl fs h (fs.fileCtl h) := by simp [setCtl]
  rw [unlockFile]
  split_ifs
  · exact ⟨_, hself⟩
  · exact ⟨_, rfl⟩
  · exact ⟨_, hself⟩

/-- Unlocking leaves at most the lock of the file open. -/
@[simp]
theorem unlockFile_lock (fs : Fs δ) (h : ℕ) : (unlockFile fs h).1.lock = fs.lock := by
  obtain ⟨ctl, heq⟩ := unlockFile_eq fs h
  rw [heq, setCtl_lock]

@[simp]
theorem unlockFile_ftbl (fs : Fs δ) (h : ℕ) : (unlockFile fs h).1.ftbl = fs.ftbl := by
  obtain ⟨ctl, heq⟩ := unlockFile_eq fs h
  rw [heq, setCtl_ftbl]

@[simp]
theorem unlockFile_dev (fs : Fs δ) (h : ℕ) : (unlockFile fs h).1.dev = fs.dev := by
  obtain ⟨ctl, heq⟩ := unlockFile_eq fs h
  rw [heq, setCtl_dev]

theorem unlockFile_touched (fs : Fs δ) (h : ℕ) : Touched port fs h (unlockFile fs h).1 := by
  rw [unlockFile]
  by_cases hh : h ≥ maxNOfFiles
  · rw [if_pos hh]
    exact .refl h
  · rw [if_neg hh]
    by_cases hb : (fs.fileCtl h).locked = true
    · rw [if_pos hb]
      exact .of_ctl h _ fs.lastErrorCode rfl rfl (by simp)
    · rw [if_neg hb]
      exact .refl h

/-- A call that locks its file, touches it and unlocks it, touches it. -/
theorem Touched.locked (hh : h < maxNOfFiles)
    (ht : Touched port (setCtl fs h { fs.fileCtl h with locked := true }) h fs') :
    Touched port fs h (unlockFile fs' h).1 := by
  obtain ⟨e, ctl, dev, rfl, hdev, hopen, hmode, -⟩ := ht
  simp only [setCtl_fileCtl, update_self, setCtl_dev] at hopen hmode hdev
  have hctl : (setDev (setError (setCtl (setCtl fs h { fs.fileCtl h with locked := true }) h ctl)
      e) dev).fileCtl h = ctl := by simp
  refine ⟨e, { ctl with locked := false }, dev, ?_, hdev, hopen, hmode, by simp⟩
  rw [unlockFile, if_neg (Nat.not_le.mpr hh), hctl]
  cases hb : ctl.locked with
  | false =>
    have hsame : { ctl with locked := false } = ctl := by rw [← hb]
    rw [hsame]
    simp [setDev, setError, setCtl]
  | true => simp [setDev, setError, setCtl]

theorem readCluster_zero (hl : fs.lock = false) (c off : ℕ) :
    readCluster port fs c off 0 = some (fs, 0, 0, []) := withAccess_eq hl hl (by simp)

theorem readLoop_zero (hl : fs.lock = false) (h total fuel c off got : ℕ) :
    readLoop port h total (fuel + 1) fs c off got 0
      = some (setError fs .readNotCompleted, false, got, []) := by
  rw [readLoop, readCluster_zero hl]
  rfl

/-- What every round keeps, and setting the error code, the loop of `mipos_tfs_read_file` keeps. -/
theorem readLoop_rel {r : δ → ℕ → ℕ → δ × List UInt8 × ℤ} (hr : port.ioRead = some r)
    {R : Fs δ → Fs δ → Prop}
    (hround : ∀ fs t addr, R fs (advance (setDev fs (r fs.dev t addr).1) h t))
    (herror : ∀ fs e, R fs (setError fs e))
    (htrans : ∀ {fs₁ fs₂ fs₃}, R fs₁ fs₂ → R fs₂ fs₃ → R fs₁ fs₃)
    {total fuel c off got n : ℕ} {res : Bool × ℕ × List UInt8} (hl : fs.lock = false)
    (hrun : readLoop port h total fuel fs c off got n = some (fs', res)) : R fs fs' := by
  induction fuel generalizing fs c off got n res with
  | zero => cases hrun
  | succ fuel ih =>
    rcases Nat.eq_zero_or_pos n with rfl | hn
    · rw [readLoop_zero hl] at hrun
      cases hrun
      exact herror fs _
    · obtain ⟨t, ht⟩ : ∃ t, t = min n (clusterSize - off % clusterSize) := ⟨_, rfl⟩
      have hpos : 0 < t := by
        have := mod_clusterSize off
        omega
      rw [readLoop_io hr hl h total fuel c off got ht hpos] at hrun
      have hfirst := hround fs t (clusterAddr c (off % clusterSize))
      dsimp only at hrun
      split at hrun
      · cases hrun
        exact hfirst
      · split at hrun
        · cases hrun
          exact htrans hfirst (herror _ _)
        · obtain ⟨⟨fs₂, res₂⟩, hrest, heq⟩ := Option.map_eq_some_iff.mp hrun
          cases heq
          exact htrans hfirst (ih (by exact hl) hrest)

theorem readLoop_touched (hp : port.Succeeds) {h total fuel c off got n : ℕ}
    {r : Bool × ℕ × List UInt8} (hl : fs.lock = false)
    (hrun : readLoop port h total fuel fs c off got n = some (fs', r)) :
    Touched port fs h fs' := by
  refine readLoop_rel (R := fun fs fs' => Touched port fs h fs') hp.ioRead (fun fs t addr => ?_)
    (fun _ e => .of_error h e) .trans hl hrun
  have hget : Touched port fs h (setDev fs (port.get fs.dev t addr).1) := .get h t addr
  exact hget.trans (.advance h t)

/-- The exception handlers of reading and writing. -/
theorem fail_touched (fs : Fs δ) (h : ℕ) (e : ErrCode) :
    Touched port fs h (unlockFile (setError fs e) h).1 :=
  (Touched.of_error h e).trans (unlockFile_touched _ h)

theorem noteEof_eq (hl : fs.lock = false) (h : ℕ) (atEnd : Bool) :
    noteEof fs h atEnd = some (setCtl fs h { fs.fileCtl h with
      eofWhileRead := (fs.fileCtl h).eofWhileRead || atEnd }) := by
  cases atEnd with
  | false => simp [noteEof, setCtl]
  | true =>
    rw [noteEof, if_pos rfl, withAccess_setCtl hl h fun ctl => { ctl with eofWhileRead := true }]
    simp

/-- Either the lock of a file can be taken, or `mipos_tfs_lock_file` fails. -/
theorem free_or_busy (fs : Fs δ) (h : ℕ) :
    (h < maxNOfFiles ∧ (fs.fileCtl h).locked = false) ∨
      (maxNOfFiles ≤ h ∨ (fs.fileCtl h).locked = true) := by
  by_cases hh : maxNOfFiles ≤ h
  · exact .inr (.inl hh)
  · cases hb : (fs.fileCtl h).locked with
    | false => exact .inl ⟨Nat.lt_of_not_le hh, rfl⟩
    | true => exact .inr (.inr rfl)

/-- So it is enough to see what a call does to the file once it has locked it. -/
theorem Touched.of_locked (hh : h < maxNOfFiles)
    (hmid : ∃ fs₂, Touched port (setCtl fs h { fs.fileCtl h with locked := true }) h fs₂ ∧
      (unlockFile fs₂ h).1 = fs') : Touched port fs h fs' := by
  obtain ⟨fs₂, htouched, rfl⟩ := hmid
  exact htouched.locked hh

theorem readFile_touched (hp : port.Succeeds) (hl : fs.lock = false) {n h : ℕ}
    {r : Bool × ℕ × List UInt8} (hrun : readFile port fs n h = some (fs', r)) :
    Touched port fs h fs' := by
  rcases free_or_busy fs h with hfree | hbusy
  · rw [readFile, lockFile_free hfree.1 hfree.2] at hrun
    dsimp only at hrun
    -- what remains touches the locked file and ends with the unlocking
    refine .of_locked hfree.1 ?_
    generalize hfs : setCtl fs h { fs.fileCtl h with locked := true } = fs₁ at hrun ⊢
    have hl₁ : fs₁.lock = false := hfs ▸ hl
    rw [getFdCtl_eq hl₁] at hrun
    dsimp only [Option.bind_eq_bind, Option.bind_some] at hrun
    split at hrun
    · cases hrun
      exact ⟨_, .of_error h .readFailed, rfl⟩
    · rw [getClusterSeekPt, clusterWalk_eq hl₁] at hrun
      dsimp only [Option.bind_some] at hrun
      split at hrun
      · cases hrun
        exact ⟨_, .of_error h .readFailed, rfl⟩
      · obtain ⟨fs₃, heof, hrun⟩ := Option.bind_eq_some_iff.mp hrun
        rw [noteEof_eq hl₁] at heof
        have ht : Touched port fs₁ h fs₃ := by
          cases heof
          exact .of_ctl h _ fs₁.lastErrorCode rfl rfl id
        obtain ⟨⟨fs₄, ok, total, data⟩, hloop, hrun⟩ := Option.bind_eq_some_iff.mp hrun
        cases hrun
        exact ⟨fs₄, ht.trans (readLoop_touched hp (ht.lock_eq.trans hl₁) hloop), rfl⟩
  · rw [readFile, lockFile_busy hbusy] at hrun
    cases hrun
    exact fail_touched fs h .readFailed

theorem seekFile_touched (hl : fs.lock = false) {code : SeekCode} {pos : ℤ}
    (hrun : seekFile fs code pos h = some (fs', ok)) : Touched port fs h fs' := by
  rcases free_or_busy fs h with hfree | hbusy
  · rw [seekFile, lockFile_free hfree.1 hfree.2] at hrun
    dsimp only at hrun
    refine .of_locked hfree.1 ?_
    generalize hfs : setCtl fs h { fs.fileCtl h with locked := true } = fs₁ at hrun ⊢
    have hl₁ : fs₁.lock = false := hfs ▸ hl
    rw [getFdCtl_eq hl₁] at hrun
    dsimp only [Option.bind_eq_bind, Option.bind_some] at hrun
    split at hrun
    · cases hrun
      exact ⟨_, .of_error h .seekFailed, rfl⟩
    · rename_i p _
      rw [withAccess_setCtl hl₁ h fun ctl => { ctl with seekPointer := p }] at hrun
      cases hrun
      exact ⟨_, .of_ctl h { fs₁.fileCtl h with seekPointer := p } fs₁.lastErrorCode rfl rfl id, rfl⟩
  · rw [seekFile, lockFile_busy hbusy] at hrun
    cases hrun
    exact .of_error h .seekFailed

/-! ### Calls that change the table -/

/-- The descriptor of a file. -/
def Ftbl.Live (t : Ftbl) (h : ℕ) : Prop := h < maxNOfFiles ∧ (t.fileFsDesc h).erased = 0

instance (t : Ftbl) (h : ℕ) : Decidable (t.Live h) := inferInstanceAs (Decidable (_ ∧ _))

/-- The state that `mipos_tfs_mkfs` leaves, before the table is stored. -/
def formatted (port : Port δ) (fs : Fs δ) (label : Option (List UInt8)) : Fs δ :=
  let fs := resetTable port fs label
  { fs with
    ftbl := { fs.ftbl with
      clusterTbl := fun c =>
        if c ∈ List.range clustersCount then freeCluster else fs.ftbl.clusterTbl c }
    dev := (List.range clustersCount).foldl (fun dev j =>
      port.put dev (List.replicate clusterSize 0) (j * clusterSize + tfsOffset)) fs.dev }

/-- The table is stored. -/
def flush (port : Port δ) (fs : Fs δ) : Fs δ :=
  setDev fs (port.put fs.dev fs.ftbl.bytes tfsOffset)

@[simp] theorem flush_lock : (flush port fs).lock = fs.lock := rfl
@[simp] theorem flush_ftbl : (flush port fs).ftbl = fs.ftbl := rfl
@[simp] theorem flush_fileCtl : (flush port fs).fileCtl = fs.fileCtl := rfl

theorem mkfs_eq (hp : port.Succeeds) (hl : fs.lock = false) (label : Option (List UInt8)) :
    mkfs port fs label = some (flush port (formatted port fs label), true) := by
  have hformat : withAccess fs (fun fs =>
      formatLoop port (List.range clustersCount) (resetTable port fs label))
      = some (formatted port fs label, 0) := withAccess_eq hl hl (formatLoop_eq hp _ _)
  rw [mkfs, hformat]
  dsimp only [Option.bind_eq_bind, Option.bind_some]
  rw [if_neg (by simp), updateFsOnDisk_eq hp]
  simp [flush]

theorem lock_of_mkfs {label : Option (List UInt8)} {r : Fs δ × Bool}
    (hrun : mkfs port fs label = some r) : fs.lock = false := by
  by_contra hl
  have hl : fs.lock = true := by simpa using hl
  simp [mkfs, withAccess, lockAccess, hl] at hrun

theorem ffirst_cases (hl : fs.lock = false) {name : Option (List UInt8)} {found : Option ℕ}
    (hrun : ffirst fs name = some (fs', found)) :
    (∃ e, fs' = setError fs e) ∧ ∀ i, found = some i → fs.ftbl.Live i := by
  cases name with
  | none =>
    cases hrun
    exact ⟨⟨_, rfl⟩, by simp⟩
  | some name =>
    rw [ffirst] at hrun
    split at hrun
    · cases hrun
    · split at hrun
      · cases hrun
        exact ⟨⟨_, rfl⟩, by simp⟩
      · rw [scan_eq hl] at hrun
        cases hrun
        refine ⟨⟨fs.lastErrorCode, rfl⟩, fun i hi => ?_⟩
        have hmatch := List.find?_some hi
        rw [matchesName, Bool.and_eq_true] at hmatch
        constructor
        · exact List.mem_range.mp (List.mem_of_find?_eq_some hi)
        · simpa using hmatch.1

/-- The state after a file was opened. -/
def opened (fs : Fs δ) (i : ℕ) (mode : OpenMode) : Fs δ :=
  setCtl fs i { fs.fileCtl i with
    isOpen := true, fileOpenMode := mode, seekPointer := 0, eofWhileRead := false }

theorem openLoop_some {mode : OpenMode} {is : List ℕ} {i : ℕ}
    (hrun : openLoop fs name mode is = some (some i)) :
    i ∈ is ∧ (fs.ftbl.fileFsDesc i).erased = 0 ∧ (fs.fileCtl i).isOpen = false := by
  induction is with
  | nil => simp [openLoop] at hrun
  | cons j is ih =>
    rw [openLoop] at hrun
    split at hrun
    · exact (ih hrun).imp_left (List.mem_cons_of_mem j)
    · rename_i herased
      split at hrun
      · cases hrun
      · split at hrun
        · rename_i hmatch
          obtain rfl : j = i := by
            split at hrun
            · cases hrun
            · simpa using hrun
          exact ⟨List.mem_cons_self, by simpa using herased, hmatch.2.2⟩
        · exact (ih hrun).imp_left (List.mem_cons_of_mem j)

theorem openFile_cases (hl : fs.lock = false) {mode : OpenMode}
    (hrun : openFile fs name mode = some (fs', ok, h)) :
    (ok = false ∧ fs' = fs) ∨ (ok = true ∧ fs' = opened fs h mode ∧ fs.ftbl.Live h ∧
      (fs.fileCtl h).isOpen = false) := by
  rw [openFile] at hrun
  split at hrun
  · cases hrun
    exact .inl ⟨rfl, rfl⟩
  · obtain ⟨fs₁, hbody, rfl⟩ := withAccess_some hrun
    obtain ⟨found, hfound, hbody⟩ := Option.bind_eq_some_iff.mp hbody
    cases found with
    | none =>
      cases hbody
      exact .inl ⟨rfl, unlock_lock hl⟩
    | some i =>
      cases hbody
      obtain ⟨hmem, herased, hclosed⟩ := openLoop_some hfound
      have hl' : (opened fs h mode).lock = false := hl
      exact .inr ⟨rfl, unlock_lock hl', ⟨List.mem_range.mp hmem, herased⟩, hclosed⟩

/-- The state after a file was created in slot `i`, before the table is stored. -/
def created (fs : Fs δ) (i : ℕ) (name : List UInt8) : Fs δ :=
  setCtl (setFd fs i
    { filename := overwrite (fs.ftbl.fileFsDesc i).filename (strncpy name (maxFilenameLength - 1))
      size := 0, firstCluster := emptyCluster, erased := 0, readonly := 0 }) i
    { fs.fileCtl i with isOpen := true, locked := false, seekPointer := 0, fileOpenMode := .write }

/-- On any device: the call may return `FALSE` after it has created the file. -/
theorem createFile_spec (hl : fs.lock = false)
    {i : ℕ} (hrun : createFile port fs name = some (fs', ok, i)) :
    (ok = false ∧ ∃ e, fs' = setError fs e) ∨
      (i < maxNOfFiles ∧ (fs.ftbl.fileFsDesc i).erased ≠ 0 ∧ ∃ e ret,
        updateFsOnDisk port (created (setError fs e) i name) = some (fs', ret) ∧
        ok = decide (ret = 0)) := by
  rw [createFile] at hrun
  split at hrun
  · cases hrun
    exact .inl ⟨rfl, _, rfl⟩
  · obtain ⟨⟨fs₁, exist⟩, hfirst, hrun⟩ := Option.bind_eq_some_iff.mp hrun
    obtain ⟨⟨e, rfl⟩, -⟩ := ffirst_cases hl hfirst
    have hl₁ : (setError fs e).lock = false := hl
    dsimp only at hrun
    split at hrun
    · cases hrun
      exact .inl ⟨rfl, _, rfl⟩
    · rw [scan_eq hl₁] at hrun
      dsimp only [Option.bind_eq_bind, Option.bind_some] at hrun
      split at hrun
      · cases hrun
        exact .inl ⟨rfl, _, rfl⟩
      · rename_i j hfound
        have hedit : withAccess (setError fs e) (fun fs => some (created fs j name, ()))
            = some (created (setError fs e) j name, ()) := withAccess_eq hl₁ hl₁ rfl
        have hrun : (withAccess (setError fs e) (fun fs => some (created fs j name, ()))).bind _
          = _ := hrun
        rw [hedit] at hrun
        dsimp only [Option.bind_some] at hrun
        obtain ⟨⟨fs₂, ret⟩, hstore, hrun⟩ := Option.bind_eq_some_iff.mp hrun
        cases hrun
        refine .inr ⟨?_, ?_, e, ret, hstore, rfl⟩
        · exact List.mem_range.mp (List.mem_of_find?_eq_some hfound)
        · have hp := List.find?_some hfound
          exact of_decide_eq_true hp

theorem createFile_cases (hp : port.Succeeds) (hl : fs.lock = false)
    {i : ℕ} (hrun : createFile port fs name = some (fs', ok, i)) :
    (ok = false ∧ ∃ e, fs' = setError fs e) ∨
      (ok = true ∧ i < maxNOfFiles ∧ (fs.ftbl.fileFsDesc i).erased ≠ 0 ∧
        ∃ e, fs' = flush port (created (setError fs e) i name)) := by
  rcases createFile_spec hl hrun with hfail | ⟨hlt, herased, e, ret, hstore, rfl⟩
  · exact .inl hfail
  · rw [updateFsOnDisk_eq hp] at hstore
    cases hstore
    exact .inr ⟨rfl, hlt, herased, e, rfl⟩

/-- A file is created under a valid name only. -/
theorem createFile_checks {i : ℕ}
    (hrun : createFile port fs name = some (fs', true, i)) : checkFileName name = true := by
  by_contra hbad
  rw [createFile, if_pos (eq_false_of_ne_true hbad)] at hrun
  cases hrun

theorem closeFile_cases (hl : fs.lock = false)
    (hrun : closeFile fs h = some (fs', ok)) :
    (ok = false ∧ fs' = setError fs .closeFailed) ∨
      (ok = true ∧ fs' = setCtl fs h { fs.fileCtl h with isOpen := false, seekPointer := 0 }) := by
  rw [closeFile] at hrun
  split at hrun
  · cases hrun
    exact .inl ⟨rfl, rfl⟩
  · rw [withAccess_setCtl hl h fun ctl => { ctl with isOpen := false, seekPointer := 0 }] at hrun
    cases hrun
    exact .inr ⟨rfl, rfl⟩

/-- The state in which `mipos_tfs_delete_file` starts to free the clusters. -/
def erased (fs : Fs δ) (i : ℕ) : Fs δ :=
  setFd (setCtl fs i { fs.fileCtl i with locked := true }) i { Fd.zero with erased := 1 }

/-- On any device: the call may return `FALSE` after it has deleted the file. -/
theorem deleteFile_spec (hl : fs.lock = false) {name : Option (List UInt8)}
    (hrun : deleteFile port fs name = some (fs', ok)) :
    (ok = false ∧ ∃ e, fs' = setError fs e) ∨
      ∃ i e fs₁ ret, ffirst fs name = some (setError fs e, some i) ∧ fs.ftbl.Live i ∧
        deleteLoop (clustersCount + 2) (erased (setError fs e) i)
          (fs.ftbl.fileFsDesc i).firstCluster = some fs₁ ∧
        updateFsOnDisk port fs₁ = some (fs', ret) ∧ ok = decide (ret = 0) := by
  obtain ⟨⟨fs₁, found⟩, hfirst, hrun⟩ := Option.bind_eq_some_iff.mp hrun
  obtain ⟨⟨e, rfl⟩, hlive⟩ := ffirst_cases hl hfirst
  dsimp only at hrun
  cases found with
  | none =>
    cases hrun
    exact .inl ⟨rfl, _, rfl⟩
  | some i =>
    dsimp only at hrun
    rcases free_or_busy (setError fs e) i with hfree | hbusy
    · rw [lockFile_free hfree.1 hfree.2] at hrun
      dsimp only at hrun
      generalize hfs : setCtl (setError fs e) i _ = fs₁ at hrun
      have hl₁ : fs₁.lock = false := hfs ▸ hl
      rw [getFdCtl_eq hl₁] at hrun
      dsimp only [Option.bind_eq_bind, Option.bind_some] at hrun
      split at hrun
      · cases hrun
        rw [← hfs, unlockFile_locked hfree.1 hfree.2]
        exact .inl ⟨rfl, _, rfl⟩
      · rw [withAccess_setFd hl₁ i fun _ => { Fd.zero with erased := 1 }] at hrun
        dsimp only [Option.bind_some] at hrun
        obtain ⟨fs₂, hloop, hrun⟩ := Option.bind_eq_some_iff.mp hrun
        obtain ⟨⟨fs₃, ret⟩, hstore, hrun⟩ := Option.bind_eq_some_iff.mp hrun
        cases hrun
        subst hfs
        exact .inr ⟨i, e, fs₂, ret, hfirst, hlive i rfl, hloop, hstore, rfl⟩
    · rw [lockFile_busy hbusy] at hrun
      cases hrun
      exact .inl ⟨rfl, _, rfl⟩

theorem deleteFile_cases (hp : port.Succeeds) (hl : fs.lock = false) {name : Option (List UInt8)}
    (hrun : deleteFile port fs name = some (fs', ok)) :
    (ok = false ∧ ∃ h, Touched port fs h fs') ∨
      (ok = true ∧ ∃ i e fs₁, ffirst fs name = some (setError fs e, some i) ∧ fs.ftbl.Live i ∧
        deleteLoop (clustersCount + 2) (erased (setError fs e) i)
          (fs.ftbl.fileFsDesc i).firstCluster = some fs₁ ∧ fs' = flush port fs₁) := by
  rcases deleteFile_spec hl hrun with
    ⟨hfail, e, rfl⟩ | ⟨i, e, fs₁, ret, hfirst, hlive, hloop, hstore, rfl⟩
  · exact .inl ⟨hfail, 0, .of_error 0 e⟩
  · rw [updateFsOnDisk_eq hp] at hstore
    cases hstore
    exact .inr ⟨rfl, i, e, fs₁, hfirst, hlive, hloop, rfl⟩

end Tfs
