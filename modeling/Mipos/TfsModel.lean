/-
Tiny-FS (`mipos_tfs.c`), as the code computes it.

The state (`Fs`) is `mipos_tfs_t` with the device it talks to and the global
error code: the in-memory table `ftbl`, a control entry for each descriptor
and the mutex `lock`.  The functions are the source's, under its names; the
device driver is outside the repository and is a parameter (`Port`).

A call gives `none` when it does not return or is undefined: the mutex is
taken although it is held (`mipos_mu_lock` then spins), a null function
pointer is called, an array is indexed out of its bounds, or a file name does
not fit the buffer it is copied to.  Where calls do not overlap, a switch to
the scheduler inside a call has no effect and is left out.
-/
import Mathlib.Algebra.Order.Ring.Nat
import Mathlib.Data.Int.Notation
import Mathlib.Data.List.Basic
import Mathlib.Logic.Function.Basic

namespace Tfs

open Function

/-! ### Constants and data -/

def clusterSize : ℕ := 32

def storageAreaSize : ℕ := 1024

def clustersCount : ℕ := storageAreaSize / clusterSize

def maxNOfFiles : ℕ := 8

def maxFilenameLength : ℕ := 8

def maxVolumeLength : ℕ := 8

def freeCluster : ℕ := 0xFFFF

def lastAllocatedCluster : ℕ := 0xFFFD

def reservedCluster : ℕ := 0xFFFC

def emptyCluster : ℕ := 0xFFFB

def invalidFileHandle : ℕ := 0xFFFF

/-- `sizeof(mipos_tfs_ftbl_t)`. -/
def sizeofFtbl : ℕ := 204

/-- `mipos_tfs_SIZE`: where the clusters start, after the table. -/
def tfsSize : ℕ := (sizeofFtbl / clusterSize + 1) * clusterSize * 2

def tfsOffset : ℕ := 0

inductive ErrCode
  | success
  | noEnoughFreeBlocks
  | badFilename
  | filenameAlreadyPresent
  | fileNotFound
  | deleteFailed
  | writeFailed
  | closeFailed
  | readFailed
  | readNotCompleted
  | seekFailed
  deriving DecidableEq, Repr

/-- `mipos_tfs_seek_t`, and any other value. -/
inductive SeekCode
  | begin
  | current
  | fromEnd
  | invalid
  deriving DecidableEq, Repr

inductive OpenMode
  | read
  | write
  deriving DecidableEq, Repr

/-- `mipos_tfs_fd_t`; `filename` has `maxFilenameLength` bytes. -/
structure Fd where
  filename : List UInt8
  size : ℕ
  firstCluster : ℕ
  erased : UInt8
  readonly : UInt8
  deriving DecidableEq, Repr

/-- `mipos_tfs_ctl_t`. -/
structure Ctl where
  seekPointer : ℕ
  eofWhileRead : Bool
  isOpen : Bool
  locked : Bool
  fileOpenMode : OpenMode
  deriving DecidableEq, Repr

/-- `mipos_tfs_ftbl_t`, with the two bytes of padding after the versions. -/
structure Ftbl where
  volumeDescription : List UInt8
  majVersion : UInt8
  minVersion : UInt8
  padding : List UInt8
  fileFsDesc : ℕ → Fd
  clusterTbl : ℕ → ℕ

/-- `mipos_tfs_t` with the global error code and the state of the device. -/
structure Fs (δ : Type) where
  fileCtl : ℕ → Ctl
  ftbl : Ftbl
  lock : Bool
  lastErrorCode : ErrCode
  dev : δ

/-- What the file system takes from the platform: the driver functions, which
may be null, and the size of a pointer. -/
structure Port (δ : Type) where
  ioWrite : Option (δ → List UInt8 → ℕ → δ × ℤ)
  ioRead : Option (δ → ℕ → ℕ → δ × List UInt8 × ℤ)
  sizeofPtr : ℕ

/-- A descriptor and a control entry after `memset`. -/
def Fd.zero : Fd := ⟨List.replicate maxFilenameLength 0, 0, 0, 0, 0⟩

def Ctl.zero : Ctl := ⟨0, false, false, false, .read⟩

/-! ### The image of the table -/

def le16 (v : ℕ) : List UInt8 := [UInt8.ofNat v, UInt8.ofNat (v / 256)]

def le32 (v : ℕ) : List UInt8 :=
  [UInt8.ofNat v, UInt8.ofNat (v / 256), UInt8.ofNat (v / 65536), UInt8.ofNat (v / 16777216)]

/-- The bytes of an array of `n` characters. -/
def chars (n : ℕ) (l : List UInt8) : List UInt8 := (List.range n).map fun i => l.getD i 0

/-- The bytes of a descriptor in memory. -/
def Fd.bytes (fd : Fd) : List UInt8 :=
  chars maxFilenameLength fd.filename ++ le32 fd.size ++ le16 fd.firstCluster ++
    [fd.erased, fd.readonly]

/-- The bytes of the table in memory. -/
def Ftbl.bytes (t : Ftbl) : List UInt8 :=
  chars maxVolumeLength t.volumeDescription ++ [t.majVersion, t.minVersion] ++ chars 2 t.padding
    ++ (List.range maxNOfFiles).flatMap (fun i => (t.fileFsDesc i).bytes)
    ++ (List.range clustersCount).flatMap (fun i => le16 (t.clusterTbl i))

variable {δ : Type} (port : Port δ)

/-! ### The mutex -/

def lockAccess (fs : Fs δ) : Option (Fs δ) :=
  if fs.lock then none else some { fs with lock := true }

def unlockAccess (fs : Fs δ) : Fs δ := { fs with lock := false }

/-- A stretch of code between `mipos_tfs_lock_access` and
`mipos_tfs_unlock_access`. -/
def withAccess {α : Type} (fs : Fs δ) (body : Fs δ → Option (Fs δ × α)) : Option (Fs δ × α) := do
  let fs ← lockAccess fs
  let (fs, r) ← body fs
  return (unlockAccess fs, r)

def setError (fs : Fs δ) (e : ErrCode) : Fs δ := { fs with lastErrorCode := e }

def setFd (fs : Fs δ) (h : ℕ) (fd : Fd) : Fs δ :=
  { fs with ftbl := { fs.ftbl with fileFsDesc := update fs.ftbl.fileFsDesc h fd } }

def setCtl (fs : Fs δ) (h : ℕ) (ctl : Ctl) : Fs δ :=
  { fs with fileCtl := update fs.fileCtl h ctl }

/-! ### The cluster table -/

/-- Returns the value of the driver. -/
def updateFsOnDisk (fs : Fs δ) : Option (Fs δ × ℤ) := do
  let ioWrite ← port.ioWrite
  let (dev, ret) := ioWrite fs.dev fs.ftbl.bytes tfsOffset
  return ({ fs with dev }, ret)

def getClusterVal (fs : Fs δ) (current : ℕ) : Option (Fs δ × ℕ) :=
  withAccess fs fun fs =>
    if current < clustersCount then some (fs, fs.ftbl.clusterTbl current) else none

def setClusterVal (fs : Fs δ) (current value : ℕ) : Option (Fs δ) := do
  let (fs, _) ← withAccess fs fun fs =>
    if current < clustersCount then
      some ({ fs with ftbl := { fs.ftbl with
        clusterTbl := update fs.ftbl.clusterTbl current value } }, ())
    else none
  return fs

/-- Returns the reserved cluster, or `none` when there is no free one. -/
def reserveCluster (fs : Fs δ) : Option (Fs δ × Option ℕ) :=
  withAccess fs fun fs =>
    match (List.range clustersCount).find? (fun i => fs.ftbl.clusterTbl i = freeCluster) with
    | none => some (fs, none)
    | some i => some ({ fs with ftbl := { fs.ftbl with
        clusterTbl := update fs.ftbl.clusterTbl i reservedCluster } }, some i)

/-- Returns the linked cluster, or `none` for `FALSE`. -/
def getNextCluster (fs : Fs δ) (current : ℕ) : Option (Fs δ × Option ℕ) :=
  if current ≥ clustersCount then some (fs, none)
  else do
    let (fs, value) ← getClusterVal fs current
    return (fs, if value ≥ clustersCount then none else some value)

def linkCluster (fs : Fs δ) (current linkTo : ℕ) : Option (Fs δ × Bool) :=
  if current ≥ clustersCount ∨ linkTo ≥ clustersCount then some (fs, false)
  else do
    let fs ← setClusterVal fs current linkTo
    return (fs, true)

def markClusterLast (fs : Fs δ) (cluster : ℕ) : Option (Fs δ) :=
  setClusterVal fs cluster lastAllocatedCluster

def markClusterFree (fs : Fs δ) (cluster : ℕ) : Option (Fs δ) :=
  setClusterVal fs cluster freeCluster

/-- The loop of `get_cluster_seek_pt`, with `left` clusters to go: whether the
walk got there, and the cluster where it stands.  A walk that runs out on its
last step counts as arrived. -/
def clusterWalk (fs : Fs δ) : ℕ → ℕ → Option (Fs δ × Bool × ℕ)
  | 0, current => some (fs, true, current)
  | left + 1, current => do
    let (fs', next) ← getNextCluster fs current
    match next with
    | none => return (fs', decide (left = 0), current)
    | some next => clusterWalk fs' left next

def getClusterSeekPt (fs : Fs δ) (fd : Fd) (ctl : Ctl) : Option (Fs δ × Bool × ℕ) :=
  clusterWalk fs (ctl.seekPointer / clusterSize % 2 ^ 16) fd.firstCluster

/-- The address of a byte of a cluster on the device. -/
def clusterAddr (cluster offset : ℕ) : ℕ :=
  (cluster * clusterSize + offset + tfsSize + tfsOffset) % 2 ^ 32

/-- Returns the value of the driver and the number of bytes written. -/
def writeCluster (fs : Fs δ) (cluster clusterOffset : ℕ) (source : List UInt8) (wbytes : ℕ) :
    Option (Fs δ × ℤ × ℕ) :=
  withAccess fs fun fs => do
    let offset := clusterOffset % clusterSize
    let bytesWritten := min wbytes (clusterSize - offset)
    if bytesWritten = 0 then
      return (fs, 0, 0)
    let ioWrite ← port.ioWrite
    let (dev, ret) := ioWrite fs.dev (source.take bytesWritten) (clusterAddr cluster offset)
    return ({ fs with dev }, ret, bytesWritten)

/-- Returns the value of the driver, the number of bytes read and the bytes. -/
def readCluster (fs : Fs δ) (cluster clusterOffset rbytes : ℕ) :
    Option (Fs δ × ℤ × ℕ × List UInt8) :=
  withAccess fs fun fs => do
    let offset := clusterOffset % clusterSize
    let bytesRead := min rbytes (clusterSize - offset)
    if bytesRead = 0 then
      return (fs, 0, 0, [])
    let ioRead ← port.ioRead
    let (dev, data, ret) := ioRead fs.dev bytesRead (clusterAddr cluster offset)
    return ({ fs with dev }, ret, bytesRead, data)

/-! ### File names -/

/-- The characters of a string, up to its terminator. -/
def cstr (s : List UInt8) : List UInt8 := s.takeWhile (· ≠ 0)

def strlen (s : List UInt8) : ℕ := (cstr s).length

/-- What `strncpy` writes: exactly `n` bytes, padded with zeros. -/
def strncpy (s : List UInt8) (n : ℕ) : List UInt8 :=
  (cstr s).take n ++ List.replicate (n - strlen s) 0

/-- Writing `bytes` over the front of a buffer. -/
def overwrite (buffer bytes : List UInt8) : List UInt8 := bytes ++ buffer.drop bytes.length

/-- The characters allowed in a file name: `0-9`, `A-Z`, `a-z`, `_`, `-`, `.`. -/
def isNameChar (c : UInt8) : Bool :=
  (48 ≤ c && c ≤ 57) || (65 ≤ c && c ≤ 90) || (97 ≤ c && c ≤ 122) || c == 95 || c == 45 || c == 46

def checkFileName (filename : List UInt8) : Bool :=
  strlen filename < maxFilenameLength && (cstr filename).all isNameChar

/-- Where the first `*` (42) of a name is, or the length of the name. -/
def jollyPos (filename : List UInt8) : ℕ := ((cstr filename).takeWhile (· ≠ 42)).length

/-- The first descriptor that is not erased and whose name starts like the
argument up to `*`; the comparison looks at `jollyPos` characters only. -/
def matchesName (filename : List UInt8) (fd : Fd) : Bool :=
  fd.erased == 0 &&
    cstr (strncpy fd.filename (jollyPos filename)) == cstr (strncpy filename (jollyPos filename))

/-- Reading the state under the mutex and going on: every loop over the
descriptors takes the mutex for each of them, so it has to be free. -/
def scan (fs : Fs δ) (p : ℕ → Bool) : Option (Fs δ × Option ℕ) :=
  withAccess fs fun fs => some (fs, (List.range maxNOfFiles).find? p)

/-- Returns the handle found.  The two buffers have `maxFilenameLength` bytes,
so that a longer prefix, or one that leaves no terminator, is undefined. -/
def ffirst (fs : Fs δ) : Option (List UInt8) → Option (Fs δ × Option ℕ)
  | none => some (setError fs .badFilename, none)
  | some filename =>
    if jollyPos filename ≥ maxFilenameLength then none
    else if checkFileName (strncpy filename (jollyPos filename)) = false then
      some (setError fs .badFilename, none)
    else
      scan fs fun i => matchesName filename (fs.ftbl.fileFsDesc i)

def fexist (fs : Fs δ) (filename : Option (List UInt8)) : Option (Fs δ × Bool) := do
  let (fs, found) ← ffirst fs filename
  return (fs, found.isSome)

/-! ### Files -/

def lockFile (fs : Fs δ) (h : ℕ) : Fs δ × Bool :=
  if h ≥ maxNOfFiles then (fs, false)
  else if (fs.fileCtl h).locked then (fs, false)
  else (setCtl fs h { fs.fileCtl h with locked := true }, true)

def unlockFile (fs : Fs δ) (h : ℕ) : Fs δ × Bool :=
  if h ≥ maxNOfFiles then (fs, false)
  else if (fs.fileCtl h).locked then
    (setCtl fs h { fs.fileCtl h with locked := false }, true)
  else (fs, false)

/-- Copies of the descriptor and of the control entry (`mipos_tfs_get_fd`,
`mipos_tfs_get_ctl`), each read under the mutex. -/
def getFdCtl (fs : Fs δ) (h : ℕ) : Option (Fs δ × Fd × Ctl) :=
  withAccess fs fun fs => some (fs, fs.ftbl.fileFsDesc h, fs.fileCtl h)

/-- Returns `*file_size`, or `none` for `FALSE`. -/
def getFsize (fs : Fs δ) (filename : Option (List UInt8)) : Option (Fs δ × Option ℕ) := do
  let (fs, found) ← ffirst fs filename
  match found with
  | none => return (fs, none)
  | some h =>
    let (fs, fd, _) ← getFdCtl fs h
    return (fs, if fd.erased = 0 then some fd.size else none)

/-- Unsigned 32-bit addition of an `int`. -/
def addInt32 (v : ℕ) (k : ℤ) : ℕ := (((v : ℤ) + k) % 2 ^ 32).toNat

def seekFile (fs : Fs δ) (code : SeekCode) (seekpos : ℤ) (h : ℕ) : Option (Fs δ × Bool) :=
  match lockFile fs h with
  | (fs, false) => some (setError fs .seekFailed, false)
  | (fs, true) => do
    let (fs, fd, ctl) ← getFdCtl fs h
    let target : Option ℕ :=
      match code with
      | .begin => if 0 < seekpos ∧ seekpos < (fd.size : ℤ) then some seekpos.toNat else none
      | .current => some (addInt32 ctl.seekPointer seekpos)
      | .fromEnd => some (addInt32 fd.size seekpos)
      | .invalid => none
    match target with
    | none => return ((unlockFile (setError fs .seekFailed) h).1, false)
    | some p =>
      let (fs, _) ← withAccess fs fun fs =>
        some (setCtl fs h { fs.fileCtl h with seekPointer := p }, ())
      return ((unlockFile fs h).1, true)

/-! ### Reading -/

/-- The loop of `mipos_tfs_read_file`: the result, the number of bytes read and
the bytes. -/
def readLoop (h bytesToRead : ℕ) :
    ℕ → Fs δ → ℕ → ℕ → ℕ → ℕ → Option (Fs δ × Bool × ℕ × List UInt8)
  | 0, _, _, _, _, _ => none
  | fuel + 1, fs, cluster, clusterOffset, bytesRead, tmpRbytes => do
    let (fs, _, tmpRbytes, data) ← readCluster port fs cluster clusterOffset tmpRbytes
    if tmpRbytes = 0 then
      return (setError fs .readNotCompleted, false, bytesRead, data)
    let bytesRead := bytesRead + tmpRbytes
    let (fs, _) ← withAccess fs fun fs =>
      let ctl := fs.fileCtl h
      some (setCtl fs h { ctl with seekPointer := (ctl.seekPointer + tmpRbytes) % 2 ^ 32 }, ())
    if bytesRead ≥ bytesToRead then
      return (fs, true, bytesRead, data)
    let (fs, next) ← getNextCluster fs cluster
    match next with
    | none => return (setError fs .readNotCompleted, false, bytesRead, data)
    | some next =>
      let (fs, ok, total, rest) ← readLoop h bytesToRead fuel fs next 0 bytesRead
        (bytesToRead - bytesRead)
      return (fs, ok, total, data ++ rest)

/-- `RD_EXCEPTION_HANDLER`; `*rbytes` keeps its value. -/
def readFail (fs : Fs δ) (h rbytes : ℕ) : Fs δ × Bool × ℕ × List UInt8 :=
  ((unlockFile (setError fs .readFailed) h).1, false, rbytes, [])

/-- Sets `eof_while_read` for a request that goes past the end. -/
def noteEof (fs : Fs δ) (h : ℕ) (atEnd : Bool) : Option (Fs δ) :=
  if atEnd then do
    let (fs, _) ← withAccess fs fun fs =>
      some (setCtl fs h { fs.fileCtl h with eofWhileRead := true }, ())
    return fs
  else some fs

/-- Returns the result, `*rbytes` and the bytes delivered. -/
def readFile (fs : Fs δ) (rbytes h : ℕ) : Option (Fs δ × Bool × ℕ × List UInt8) :=
  match lockFile fs h with
  | (fs, false) => some (readFail fs h rbytes)
  | (fs, true) => do
    let (fs, fd, ctl) ← getFdCtl fs h
    if ctl.isOpen = false ∨ ctl.seekPointer ≥ fd.size then
      return readFail fs h rbytes
    let (fs, arrived, cluster) ← getClusterSeekPt fs fd ctl
    if arrived = false then
      return readFail fs h rbytes
    let atEnd := (rbytes + ctl.seekPointer) % 2 ^ 32 > fd.size
    let fs ← noteEof fs h atEnd
    let bytesToRead := if atEnd then fd.size - ctl.seekPointer else rbytes
    let (fs, ok, bytesRead, data) ← readLoop port h bytesToRead (bytesToRead + 1) fs cluster
      (ctl.seekPointer % clusterSize) 0 bytesToRead
    return ((unlockFile fs h).1, ok, bytesRead, data)

/-! ### Writing -/

/-- The next cluster of `mipos_tfs_write_file`: a new one past the end of the
file, the linked one otherwise.  When there is none, the current cluster is
marked as the last. -/
def nextForWrite (fs : Fs δ) (pastEnd : Bool) (cluster : ℕ) : Option (Fs δ × Option ℕ) := do
  let (fs, next) ← if pastEnd then reserveCluster fs else getNextCluster fs cluster
  match next with
  | none =>
    let fs ← markClusterLast fs cluster
    return (fs, none)
  | some next => return (fs, some next)

/-- The loop of `mipos_tfs_write_file`: the bytes not written, and the last
value of the driver.  In the source the size of the file also grows by
`bytes_written` here, which is still zero. -/
def writeLoop (h : ℕ) : ℕ → Fs δ → ℕ → ℕ → List UInt8 → ℕ → Option (Fs δ × ℕ × ℤ)
  | 0, _, _, _, _, _ => none
  | fuel + 1, fs, cluster, clusterOffset, source, totWbytes => do
    let (fs, ret, tmpWbytes) ← writeCluster port fs cluster clusterOffset source totWbytes
    let totWbytes := totWbytes - tmpWbytes
    let (fs, _) ← withAccess fs fun fs =>
      let ctl := fs.fileCtl h
      some (setCtl fs h { ctl with seekPointer := (ctl.seekPointer + tmpWbytes) % 2 ^ 32 }, ())
    let fd := fs.ftbl.fileFsDesc h
    let seekPointer := (fs.fileCtl h).seekPointer
    if totWbytes = 0 then
      let fs ← if seekPointer > fd.size then
          markClusterLast (setFd fs h { fd with size := seekPointer }) cluster
        else some fs
      return (fs, 0, ret)
    let (fs, next) ← nextForWrite fs (seekPointer > fd.size) cluster
    match next with
    | none => return (fs, totWbytes, ret)
    | some next =>
      if ret ≠ 0 then
        return (fs, totWbytes, ret)
      let (fs, _) ← linkCluster fs cluster next
      writeLoop h fuel fs next 0 (source.drop tmpWbytes) totWbytes

/-- `WR_EXCEPTION_HANDLER`. -/
def writeFail (fs : Fs δ) (h : ℕ) : Fs δ × Bool × ℕ :=
  ((unlockFile (setError fs .writeFailed) h).1, false, 0)

/-- Where `mipos_tfs_write_file` starts: a new cluster for an empty file and at
an aligned end of file, the cluster at the seek pointer otherwise.  `none` as
the cluster stands for the jump to the exception handler. -/
def writeStart (fs : Fs δ) (fd : Fd) (ctl : Ctl) : Option (Fs δ × Option ℕ) :=
  if ctl.seekPointer = fd.size ∧ ctl.seekPointer % clusterSize = 0 then
    if ctl.seekPointer > 0 then do
      let (fs, arrived, cluster) ← getClusterSeekPt fs fd ctl
      if arrived = false then
        return (fs, none)
      let (fs, first) ← reserveCluster fs
      match first with
      | none => return (fs, none)
      | some first =>
        let (fs, linked) ← linkCluster fs cluster first
        return (fs, if linked then some first else none)
    else reserveCluster fs
  else do
    let (fs, arrived, cluster) ← getClusterSeekPt fs fd ctl
    return (fs, if arrived then some cluster else none)

/-- Returns the result and `*wbytes`. -/
def writeFile (fs : Fs δ) (source : List UInt8) (wbytes h : ℕ) : Option (Fs δ × Bool × ℕ) :=
  match lockFile fs h with
  | (fs, false) => some (writeFail fs h)
  | (fs, true) => do
    let (fs, fd, ctl) ← getFdCtl fs h
    if fd.readonly ≠ 0 ∨ ctl.fileOpenMode ≠ .write ∨ ctl.isOpen = false then
      return writeFail fs h
    if ctl.seekPointer > fd.size then
      return writeFail fs h
    let (fs, first) ← writeStart fs fd ctl
    match first with
    | none => return writeFail fs h
    | some first =>
      let (fs, totWbytes, ret) ← writeLoop port h (wbytes + 1) fs first
        (ctl.seekPointer % clusterSize) source wbytes
      if ret ≠ 0 then
        return ((unlockFile fs h).1, false, wbytes)
      -- the first cluster of the descriptor is set if it was not
      let (fs, _) ← withAccess fs fun fs =>
        let fd := fs.ftbl.fileFsDesc h
        some (if fd.firstCluster ≥ clustersCount then
          setFd fs h { fd with firstCluster := first } else fs, ())
      return ((unlockFile fs h).1, decide (totWbytes = 0), wbytes - totWbytes)

/-! ### Formatting and mounting -/

/-- The loop of `mipos_tfs_mkfs` over the clusters, left at the first error. -/
def formatLoop : List ℕ → Fs δ → Option (Fs δ × ℤ)
  | [], fs => some (fs, 0)
  | j :: js, fs => do
    let ioWrite ← port.ioWrite
    let (dev, ret) := ioWrite fs.dev (List.replicate clusterSize 0) (j * clusterSize + tfsOffset)
    let fs := { fs with dev, ftbl := { fs.ftbl with
      clusterTbl := update fs.ftbl.clusterTbl j freeCluster } }
    if ret ≠ 0 then
      return (fs, ret)
    formatLoop js fs

/-- The volume description that `mipos_tfs_mkfs` leaves.  For a null argument
the source clears as many bytes as a pointer has. -/
def labelBytes (old : List UInt8) : Option (List UInt8) → List UInt8
  | some label => strncpy label maxVolumeLength
  | none => overwrite old (List.replicate port.sizeofPtr 0)

/-- The label, the versions and the empty directory that `mipos_tfs_mkfs` sets. -/
def resetTable (fs : Fs δ) (label : Option (List UInt8)) : Fs δ :=
  { fs with
    fileCtl := fun i => if i < maxNOfFiles then Ctl.zero else fs.fileCtl i
    ftbl := { fs.ftbl with
      volumeDescription := labelBytes port fs.ftbl.volumeDescription label
      majVersion := 1
      minVersion := 0
      fileFsDesc := fun i =>
        if i < maxNOfFiles then { Fd.zero with erased := 1 } else fs.ftbl.fileFsDesc i } }

def mkfs (fs : Fs δ) (label : Option (List UInt8)) : Option (Fs δ × Bool) := do
  let (fs, ret) ← withAccess fs fun fs =>
    formatLoop port (List.range clustersCount) (resetTable port fs label)
  if ret ≠ 0 then
    return (fs, false)
  let (fs, ret) ← updateFsOnDisk port fs
  return (fs, decide (ret = 0))

/-- Returns the bytes that `strcpy` stores to the caller's buffer.  The source reads from
the volume description on, and what follows it in the table if it is not terminated. -/
def getLabel (fs : Fs δ) : Option (Fs δ × List UInt8) :=
  withAccess fs fun fs =>
    let text := cstr fs.ftbl.bytes
    if text.length < fs.ftbl.bytes.length then some (fs, text ++ [0]) else none

def fromLe (bytes : List UInt8) : ℕ := bytes.foldr (fun byte acc => byte.toNat + 256 * acc) 0

/-- The descriptor with the given bytes. -/
def Fd.ofBytes (bytes : List UInt8) : Fd where
  filename := chars maxFilenameLength bytes
  size := fromLe ((bytes.drop 8).take 4)
  firstCluster := fromLe ((bytes.drop 12).take 2)
  erased := bytes.getD 14 0
  readonly := bytes.getD 15 0

/-- The table with the given bytes. -/
def Ftbl.ofBytes (bytes : List UInt8) : Ftbl where
  volumeDescription := chars maxVolumeLength bytes
  majVersion := bytes.getD 8 0
  minVersion := bytes.getD 9 0
  padding := chars 2 (bytes.drop 10)
  fileFsDesc i := Fd.ofBytes ((bytes.drop (12 + 16 * i)).take 16)
  clusterTbl i := fromLe ((bytes.drop (140 + 2 * i)).take 2)

def setup (fs : Fs δ) : Option (Fs δ × Bool) :=
  match port.ioRead, port.ioWrite with
  | some ioRead, some _ =>
    let (dev, data, ret) := ioRead fs.dev sizeofFtbl tfsOffset
    if ret < 0 then some ({ fs with dev, ftbl := Ftbl.ofBytes data }, false)
    else do
      let fs := { fs with
        dev
        ftbl := Ftbl.ofBytes data
        fileCtl := fun i => if i < maxNOfFiles then Ctl.zero else fs.fileCtl i }
      let (fs, _) ← updateFsOnDisk port fs
      return ({ fs with lock := false }, true)
  | _, _ => some (fs, false)

/-! ### The directory -/

/-- The source copies the new name to the name of the first descriptor, from
the character with the number of the handle on, over the fields behind it. -/
def renameFile (fs : Fs δ) (filename : Option (List UInt8)) (newFilename : List UInt8) :
    Option (Fs δ × Bool) := do
  let (fs, found) ← ffirst fs filename
  match found with
  | none => return (setError fs .badFilename, false)
  | some h =>
    if checkFileName newFilename = false then
      return (setError fs .badFilename, false)
    let (fs, _) ← withAccess fs fun fs =>
      let bytes := (fs.ftbl.fileFsDesc 0).bytes
      let name := strncpy newFilename maxFilenameLength
      some (setFd fs 0 (Fd.ofBytes (bytes.take h ++ overwrite (bytes.drop h) name)), ())
    let (fs, ret) ← updateFsOnDisk port fs
    return (fs, decide (ret = 0))

/-- The search of `mipos_tfs_open_file`: the slot to open, if any.  A stored
name without a terminator does not fit the buffer it is copied to. -/
def openLoop (fs : Fs δ) (filename : List UInt8) (mode : OpenMode) :
    List ℕ → Option (Option ℕ)
  | [] => some none
  | i :: is =>
    let fd := fs.ftbl.fileFsDesc i
    let ctl := fs.fileCtl i
    if fd.erased ≠ 0 then openLoop fs filename mode is
    else if strlen fd.filename ≥ maxFilenameLength then none
    else if cstr filename = cstr fd.filename ∧ ctl.locked = false ∧ ctl.isOpen = false then
      some (if mode = .write ∧ fd.readonly ≠ 0 then none else some i)
    else openLoop fs filename mode is

/-- Returns the result and the handle. -/
def openFile (fs : Fs δ) (filename : List UInt8) (mode : OpenMode) :
    Option (Fs δ × Bool × ℕ) :=
  if checkFileName filename = false then some (fs, false, invalidFileHandle)
  else withAccess fs fun fs => do
    let found ← openLoop fs filename mode (List.range maxNOfFiles)
    match found with
    | none => return (fs, false, invalidFileHandle)
    | some i =>
      let ctl := { fs.fileCtl i with
        isOpen := true, fileOpenMode := mode, seekPointer := 0, eofWhileRead := false }
      return (setCtl fs i ctl, true, i)

/-- Returns the result and the handle. -/
def createFile (fs : Fs δ) (filename : List UInt8) : Option (Fs δ × Bool × ℕ) :=
  if checkFileName filename = false then
    some (setError fs .badFilename, false, invalidFileHandle)
  else do
    let (fs, exist) ← ffirst fs (some filename)
    if exist.isSome then
      return (setError fs .filenameAlreadyPresent, false, invalidFileHandle)
    let (fs, found) ← scan fs fun i => (fs.ftbl.fileFsDesc i).erased ≠ 0
    match found with
    | none => return (setError fs .noEnoughFreeBlocks, false, invalidFileHandle)
    | some i =>
      let (fs, _) ← withAccess fs fun fs =>
        let fd := fs.ftbl.fileFsDesc i
        let fs := setFd fs i
          { filename := overwrite fd.filename (strncpy filename (maxFilenameLength - 1))
            size := 0, firstCluster := emptyCluster, erased := 0, readonly := 0 }
        some (setCtl fs i { fs.fileCtl i with
          isOpen := true, locked := false, seekPointer := 0, fileOpenMode := .write }, ())
      let (fs, ret) ← updateFsOnDisk port fs
      return (fs, decide (ret = 0), i)

def closeFile (fs : Fs δ) (h : ℕ) : Option (Fs δ × Bool) :=
  if h ≥ maxNOfFiles then some (setError fs .closeFailed, false)
  else do
    let (fs, _) ← withAccess fs fun fs =>
      some (setCtl fs h { fs.fileCtl h with isOpen := false, seekPointer := 0 }, ())
    return (fs, true)

/-- The loop of `mipos_tfs_delete_file`. -/
def deleteLoop : ℕ → Fs δ → ℕ → Option (Fs δ)
  | 0, _, _ => none
  | fuel + 1, fs, current => do
    let (fs, next) ← getNextCluster fs current
    let fs ← if current < clustersCount then markClusterFree fs current else some fs
    match next with
    | none => return fs
    | some next => deleteLoop fuel fs next

/-- The file stays locked: a slot is unlocked when it is created again. -/
def deleteFile (fs : Fs δ) (filename : Option (List UInt8)) : Option (Fs δ × Bool) := do
  let (fs, found) ← ffirst fs filename
  match found with
  | none => return (setError fs .closeFailed, false)
  | some h =>
    match lockFile fs h with
    | (fs, false) => return (setError fs .deleteFailed, false)
    | (fs, true) =>
      let (fs, fd, _) ← getFdCtl fs h
      if fd.erased ≠ 0 ∨ fd.readonly ≠ 0 then
        return (setError (unlockFile fs h).1 .deleteFailed, false)
      let (fs, _) ← withAccess fs fun fs => some (setFd fs h { Fd.zero with erased := 1 }, ())
      let fs ← deleteLoop (clustersCount + 2) fs fd.firstCluster
      let (fs, ret) ← updateFsOnDisk port fs
      return (fs, decide (ret = 0))

end Tfs
