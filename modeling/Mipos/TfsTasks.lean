/-
Tiny-FS calls as tasks run them.

Several tasks may be inside calls at the same time.  A task is switched only where
the source calls the scheduler: in `mipos_mu_lock` while the mutex is held, at each
entry of `reserve_cluster`, and after each cluster of the loop in
`mipos_tfs_delete_file`.  The calls are the programs of this file, cut at these
points; the code between them is that of `TfsModel`.

Two history variables record what no code reads: for which slot a cluster was
handed out (`owner`), and where each task stands with the lock of its file
(`phase`).
-/
import Mipos.Coroutine
import Mipos.TfsCalls

namespace Tfs

open Coroutine

/-- Where a call stands with the lock of its file: it has not asked for it or has
given it back, it holds it, or it was refused. -/
inductive Phase
  | outside
  | holding (h : ℕ)
  | refused (h : ℕ)
  deriving DecidableEq, Repr

/-- What the tasks share, with the history variables. -/
structure Shared (δ ι : Type) where
  fs : Fs δ
  /-- the slot for which the cluster was handed out, until a delete frees it -/
  owner : ℕ → Option ℕ
  phase : ι → Phase

namespace Task

/-- Code that tasks run. -/
abbrev Op (δ ι α : Type) := Prog (Shared δ ι) α

variable {δ ι α : Type} [DecidableEq ι] (port : Port δ) (t : ι)

/-! ### The mutex -/

/-- Code without a switching point. -/
def atomic (f : Fs δ → Option (Fs δ × α)) : Op δ ι α :=
  Prog.atomic fun x => (f x.fs).map fun r => ({ x with fs := r.1 }, r.2)

/-- The mutex is free. -/
def unlocked (x : Shared δ ι) : Bool := !x.fs.lock

/-- Code that takes the mutex first and gives it back: `mipos_mu_lock` lets the
others run as long as it is held. -/
def access (f : Fs δ → Option (Fs δ × α)) : Op δ ι α := .await unlocked (atomic f)

def setError (e : ErrCode) : Op δ ι Unit := atomic fun fs => some (Tfs.setError fs e, ())

/-! ### The cluster table -/

def getClusterVal (current : ℕ) : Op δ ι ℕ := access fun fs => Tfs.getClusterVal fs current

def setClusterVal (current value : ℕ) : Op δ ι Unit :=
  access fun fs => (Tfs.setClusterVal fs current value).map fun fs => (fs, ())

/-- The loop of `reserve_cluster` for the slot `h`, with the mutex held. -/
def reserveLoop (h : ℕ) : List ℕ → Op δ ι (Option ℕ)
  | [] => do
    atomic fun fs => some (unlockAccess fs, ())
    return none
  | i :: is => .yield do
    let taken ← Prog.atomic fun x =>
      if x.fs.ftbl.clusterTbl i = freeCluster then
        some ({ x with
          fs := setCluster x.fs i reservedCluster
          owner := Function.update x.owner i (some h) }, true)
      else some (x, false)
    if taken then
      atomic fun fs => some (unlockAccess fs, ())
      return some i
    else reserveLoop h is

def reserveCluster (h : ℕ) : Op δ ι (Option ℕ) := .await unlocked do
  atomic fun fs => (lockAccess fs).map fun fs => (fs, ())
  reserveLoop h (List.range clustersCount)

def getNextCluster (current : ℕ) : Op δ ι (Option ℕ) :=
  if current ≥ clustersCount then return none
  else do
    let value ← getClusterVal current
    return if value ≥ clustersCount then none else some value

def linkCluster (current linkTo : ℕ) : Op δ ι Bool :=
  if current ≥ clustersCount ∨ linkTo ≥ clustersCount then return false
  else do
    setClusterVal current linkTo
    return true

def markClusterLast (cluster : ℕ) : Op δ ι Unit := setClusterVal cluster lastAllocatedCluster

def markClusterFree (cluster : ℕ) : Op δ ι Unit :=
  .await unlocked <| Prog.atomic fun x => (Tfs.markClusterFree x.fs cluster).map fun fs =>
    ({ x with fs, owner := Function.update x.owner cluster none }, ())

def clusterWalk : ℕ → ℕ → Op δ ι (Bool × ℕ)
  | 0, current => return (true, current)
  | left + 1, current => do
    match ← getNextCluster current with
    | none => return (decide (left = 0), current)
    | some next => clusterWalk left next

def getClusterSeekPt (fd : Fd) (ctl : Ctl) : Op δ ι (Bool × ℕ) :=
  clusterWalk (ctl.seekPointer / clusterSize % 2 ^ 16) fd.firstCluster

/-! ### Files -/

def lockFile (h : ℕ) : Op δ ι Bool := Prog.atomic fun x =>
  let (fs, ok) := Tfs.lockFile x.fs h
  some ({ x with
    fs
    phase := Function.update x.phase t (if ok then .holding h else .refused h) }, ok)

/-- After this a call that held the lock is outside; one that was refused stays
so. -/
def Phase.leave : Phase → Phase
  | .refused h => .refused h
  | _ => .outside

def unlockFile (h : ℕ) : Op δ ι Unit := Prog.atomic fun x =>
  some ({ x with
    fs := (Tfs.unlockFile x.fs h).1
    phase := Function.update x.phase t (Phase.leave (x.phase t)) }, ())

def getFdCtl (h : ℕ) : Op δ ι (Fd × Ctl) := access fun fs => Tfs.getFdCtl fs h

/-- A change of the control entry of a file under the mutex. -/
def editCtl (h : ℕ) (f : Fs δ → Ctl) : Op δ ι Unit :=
  access fun fs => withAccess fs fun fs => some (setCtl fs h (f fs), ())

/-- The seek pointer is set and the file unlocked. -/
def seekTo (h : ℕ) (f : Fs δ → ℕ) : Op δ ι Bool := do
  editCtl h fun fs => { fs.fileCtl h with seekPointer := f fs }
  unlockFile t h
  return true

def seekFail (h : ℕ) : Op δ ι Bool := do
  setError .seekFailed
  unlockFile t h
  return false

def seekFile (code : SeekCode) (seekpos : ℤ) (h : ℕ) : Op δ ι Bool := do
  if (← lockFile t h) then
    let (fd, _) ← getFdCtl h
    match code with
    | .begin =>
      if 0 < seekpos ∧ seekpos < (fd.size : ℤ) then seekTo t h fun _ => seekpos.toNat
      else .await unlocked (seekFail t h)
    | .current => seekTo t h fun fs => addInt32 (fs.fileCtl h).seekPointer seekpos
    | .fromEnd => seekTo t h fun fs => addInt32 (fs.ftbl.fileFsDesc h).size seekpos
    | .invalid => seekFail t h
  else
    setError .seekFailed
    return false

/-! ### Reading -/

def readLoop (h bytesToRead : ℕ) : ℕ → ℕ → ℕ → ℕ → ℕ → Op δ ι (Bool × ℕ × List UInt8)
  | 0, _, _, _, _ => atomic fun _ => none
  | fuel + 1, cluster, clusterOffset, bytesRead, tmpRbytes => do
    let (_, tmpRbytes, data) ← access fun fs => readCluster port fs cluster clusterOffset tmpRbytes
    if tmpRbytes = 0 then
      setError .readNotCompleted
      return (false, bytesRead, data)
    let bytesRead := bytesRead + tmpRbytes
    editCtl h fun fs => { fs.fileCtl h with
      seekPointer := ((fs.fileCtl h).seekPointer + tmpRbytes) % 2 ^ 32 }
    if bytesRead ≥ bytesToRead then
      return (true, bytesRead, data)
    match ← getNextCluster cluster with
    | none =>
      setError .readNotCompleted
      return (false, bytesRead, data)
    | some next =>
      let (ok, total, rest) ← readLoop h bytesToRead fuel next 0 bytesRead (bytesToRead - bytesRead)
      return (ok, total, data ++ rest)

/-- `RD_EXCEPTION_HANDLER`: it unlocks the file whether or not the call locked it. -/
def readFail (h rbytes : ℕ) : Op δ ι (Bool × ℕ × List UInt8) := do
  setError .readFailed
  unlockFile t h
  return (false, rbytes, [])

def noteEof (h : ℕ) (atEnd : Bool) : Op δ ι Unit :=
  if atEnd then editCtl h fun fs => { fs.fileCtl h with eofWhileRead := true } else return ()

def readFile (rbytes h : ℕ) : Op δ ι (Bool × ℕ × List UInt8) := do
  if (← lockFile t h) then
    let (fd, ctl) ← getFdCtl h
    if ctl.isOpen = false ∨ ctl.seekPointer ≥ fd.size then readFail t h rbytes
    else
      let (arrived, cluster) ← getClusterSeekPt fd ctl
      if arrived = false then readFail t h rbytes
      else
        let atEnd := (rbytes + ctl.seekPointer) % 2 ^ 32 > fd.size
        noteEof h atEnd
        let bytesToRead := if atEnd then fd.size - ctl.seekPointer else rbytes
        let r ← readLoop port h bytesToRead (bytesToRead + 1) cluster
          (ctl.seekPointer % clusterSize) 0 bytesToRead
        unlockFile t h
        return r
  else readFail t h rbytes

/-! ### Writing -/

def nextForWrite (h : ℕ) (pastEnd : Bool) (cluster : ℕ) : Op δ ι (Option ℕ) := do
  match ← if pastEnd then reserveCluster h else getNextCluster cluster with
  | none =>
    markClusterLast cluster
    return none
  | some next => return some next

/-- The last round: the size of a file that has grown is set, without the mutex. -/
def endWrite (h cluster : ℕ) (grown : Bool) : Op δ ι Unit :=
  if grown then do
    atomic fun fs => some (setFd fs h { fs.ftbl.fileFsDesc h with
      size := (fs.fileCtl h).seekPointer }, ())
    markClusterLast cluster
  else return ()

def writeLoop (h : ℕ) : ℕ → ℕ → ℕ → List UInt8 → ℕ → Op δ ι (ℕ × ℤ)
  | 0, _, _, _, _ => atomic fun _ => none
  | fuel + 1, cluster, clusterOffset, source, totWbytes => do
    let (ret, tmpWbytes) ← access fun fs =>
      writeCluster port fs cluster clusterOffset source totWbytes
    let totWbytes := totWbytes - tmpWbytes
    editCtl h fun fs => { fs.fileCtl h with
      seekPointer := ((fs.fileCtl h).seekPointer + tmpWbytes) % 2 ^ 32 }
    let grown ← atomic fun fs =>
      some (fs, decide ((fs.fileCtl h).seekPointer > (fs.ftbl.fileFsDesc h).size))
    if totWbytes = 0 then
      endWrite h cluster grown
      return (0, ret)
    else
      match ← nextForWrite h grown cluster with
      | none => return (totWbytes, ret)
      | some next =>
        if ret ≠ 0 then return (totWbytes, ret)
        else
          let _ ← linkCluster cluster next
          writeLoop h fuel next 0 (source.drop tmpWbytes) totWbytes

/-- `WR_EXCEPTION_HANDLER`: it unlocks the file whether or not the call locked it. -/
def writeFail (h : ℕ) : Op δ ι (Bool × ℕ) := do
  setError .writeFailed
  unlockFile t h
  return (false, 0)

def writeStart (h : ℕ) (fd : Fd) (ctl : Ctl) : Op δ ι (Option ℕ) :=
  if ctl.seekPointer = fd.size ∧ ctl.seekPointer % clusterSize = 0 then
    if ctl.seekPointer > 0 then do
      let (arrived, cluster) ← getClusterSeekPt fd ctl
      if arrived = false then return none
      else
        match ← reserveCluster h with
        | none => return none
        | some first =>
          let linked ← linkCluster cluster first
          return if linked then some first else none
    else reserveCluster h
  else do
    let (arrived, cluster) ← getClusterSeekPt fd ctl
    return if arrived then some cluster else none

/-- The first cluster of the descriptor is set if it was not. -/
def setFirst (h first : ℕ) : Op δ ι Unit := access fun fs => withAccess fs fun fs =>
  let fd := fs.ftbl.fileFsDesc h
  some (if fd.firstCluster ≥ clustersCount then
    setFd fs h { fd with firstCluster := first } else fs, ())

def writeFile (source : List UInt8) (wbytes h : ℕ) : Op δ ι (Bool × ℕ) := do
  if (← lockFile t h) then
    let (fd, ctl) ← getFdCtl h
    if fd.readonly ≠ 0 ∨ ctl.fileOpenMode ≠ .write ∨ ctl.isOpen = false then writeFail t h
    else if ctl.seekPointer > fd.size then writeFail t h
    else
      match ← writeStart h fd ctl with
      | none => writeFail t h
      | some first =>
        let (totWbytes, ret) ← writeLoop port h (wbytes + 1) first
          (ctl.seekPointer % clusterSize) source wbytes
        if ret ≠ 0 then
          unlockFile t h
          return (false, wbytes)
        else
          setFirst h first
          unlockFile t h
          return (decide (totWbytes = 0), wbytes - totWbytes)
  else writeFail t h

/-! ### Deleting -/

/-- The search takes the mutex for each descriptor, which waits at most for the
first of them. -/
def ffirst (filename : Option (List UInt8)) : Op δ ι (Option ℕ) :=
  match filename with
  | none => atomic fun fs => Tfs.ffirst fs none
  | some name =>
    if jollyPos name ≥ maxFilenameLength ∨
        checkFileName (strncpy name (jollyPos name)) = false then
      atomic fun fs => Tfs.ffirst fs (some name)
    else access fun fs => Tfs.ffirst fs (some name)

def deleteLoop : ℕ → ℕ → Op δ ι Unit
  | 0, _ => atomic fun _ => none
  | fuel + 1, current => do
    let next ← getNextCluster current
    if current < clustersCount then markClusterFree current
    .yield do
      match next with
      | none => return ()
      | some next => deleteLoop fuel next

/-- The descriptor is cleaned under the mutex. -/
def eraseFd (h : ℕ) : Op δ ι ℕ := access fun fs => withAccess fs fun fs =>
  some (setFd fs h { Fd.zero with erased := 1 }, (fs.ftbl.fileFsDesc h).firstCluster)

/-- The call is outside the locks: when it starts, and when a delete returns without
unlocking its file. -/
def outside : Op δ ι Unit := Prog.atomic fun x =>
  some ({ x with phase := Function.update x.phase t .outside }, ())

def deleteFile (filename : Option (List UInt8)) : Op δ ι Bool := do
  match ← ffirst filename with
  | none =>
    setError .closeFailed
    return false
  | some h =>
    if (← lockFile t h) then
      let (fd, _) ← getFdCtl h
      if fd.erased ≠ 0 ∨ fd.readonly ≠ 0 then
        unlockFile t h
        setError .deleteFailed
        return false
      else
        let first ← eraseFd h
        deleteLoop (clustersCount + 2) first
        let ret ← atomic (updateFsOnDisk port)
        outside t
        return decide (ret = 0)
    else
      setError .deleteFailed
      return false

end Task

/-! ### Calls -/

/-- The calls that tasks make on a file. -/
inductive TaskCall
  | readFile (rbytes h : ℕ)
  | writeFile (data : List UInt8) (h : ℕ)
  | seekFile (code : SeekCode) (seekpos : ℤ) (h : ℕ)
  | deleteFile (name : Option (List UInt8))

/-- The program of a call and the truth value it returns. -/
def TaskCall.code {δ ι : Type} [DecidableEq ι] (port : Port δ) (t : ι) (call : TaskCall) :
    Prog (Shared δ ι) Bool := do
  Task.outside t
  match call with
  | .readFile rbytes h =>
    let r ← Task.readFile port t rbytes h
    return r.1
  | .writeFile data h =>
    let r ← Task.writeFile port t data data.length h
    return r.1
  | .seekFile code seekpos h => Task.seekFile t code seekpos h
  | .deleteFile name => Task.deleteFile port t name

/-- The tasks with the calls they are in. -/
abbrev Tasks (δ ι : Type) := Pool ι TaskCall (Shared δ ι) Bool

end Tfs
