/-
The calls of Tiny-FS on the mutex of the file system (`mipos_tfs.c`).

The mutex is not recursive: `mipos_mu_lock` by the task that holds it spins for ever, and
a call that returns with the mutex held stops every later one.  The functions are written
down as far as they lock and unlock it: where they call each other, which way their loops
and branches go, where they return.  The branches are free, so that the paths are those of
every state of the file system, every argument and every answer of the device.

* `mutex_discipline` — on every path of every public function the mutex is locked only
  where the function does not hold it, unlocked only where it does, and free when the
  function returns.
-/
import Mathlib.Data.List.Induction
import Mipos.ControlFlow

namespace Tfs.Locking

open ControlFlow

inductive Event
  | lock
  | unlock
  deriving DecidableEq, Repr

abbrev Code := Stmt Event

/-- `mipos_tfs_lock_access` -/
def lockAccess : Code := .emit .lock

/-- `mipos_tfs_unlock_access` -/
def unlockAccess : Code := .emit .unlock

/-- Code between the two that goes straight through. -/
def access : Code := lockAccess >> unlockAccess

/-- A test after which the function may return at once. -/
def mayRet : Code := .ret <|> .skip

/-! ### The private functions -/

def getClusterVal : Code := .call (access >> .ret)

def setClusterVal : Code := .call access

/-- The loop is left with the first free cluster. -/
def reserveCluster : Code := .call (lockAccess >> .loop (.brk <|> .skip) >> unlockAccess >> .ret)

def getNextCluster : Code := .call (mayRet >> getClusterVal >> mayRet >> .ret)

def linkCluster : Code := .call (mayRet >> setClusterVal >> .ret)

def markClusterLast : Code := .call setClusterVal

def markClusterFree : Code := .call setClusterVal

def getClusterSeekPt : Code := .call (.loop ((.brk <|> .skip) >> getNextCluster) >> .ret)

def writeCluster : Code := .call (access >> .ret)

def readCluster : Code := .call (access >> .ret)

/-! ### The public functions -/

/-- It initialises the mutex, and does not lock it. -/
def setup : Code := .call (mayRet >> mayRet >> .loop .skip >> .ret)

def getLabel : Code := .call (access >> .ret)

/-- The lock of a file is a flag of its own. -/
def lockFile : Code := .call (mayRet >> .ret)

def unlockFile : Code := .call (mayRet >> .ret)

def getCtl : Code := .call (mayRet >> access >> .ret)

def getFd : Code := .call (mayRet >> access >> .ret)

/-- The cases of the switch are those of `mipos_tfs_SEEK_BEGIN`, which returns from inside
if the position is out of range, `mipos_tfs_SEEK_CURRENT`, `mipos_tfs_SEEK_END` and the
default. -/
def seekFile : Code := .call <|
  lockFile >> mayRet >> access >>
  (lockAccess >> (.skip <|> unlockFile >> unlockAccess >> .ret) >> unlockAccess <|>
    access <|>
    access <|>
    unlockFile >> .ret) >>
  unlockFile >> .ret

/-- `goto RD_EXCEPTION_HANDLER`, if a test says so. -/
def mayReadFail : Code := unlockFile >> .ret <|> .skip

def readFile : Code := .call <|
  lockFile >> mayReadFail >>
  getFd >> getCtl >> mayReadFail >>
  getClusterSeekPt >> mayReadFail >>
  (access <|> .skip) >>
  .loop (readCluster >> (.brk <|> .skip) >> access >>
    (.brk <|> getNextCluster >> (.brk <|> .skip))) >>
  unlockFile >> .ret

/-- `goto WR_EXCEPTION_HANDLER`, if a test says so. -/
def mayWriteFail : Code := unlockFile >> .ret <|> .skip

/-- Where the first byte goes: behind the last cluster, to the first one, or inside. -/
def writeStart : Code :=
  getClusterSeekPt >> mayWriteFail >> reserveCluster >> mayWriteFail >>
    linkCluster >> mayWriteFail <|>
  reserveCluster >> mayWriteFail <|>
  getClusterSeekPt >> mayWriteFail

def writeRound : Code :=
  writeCluster >> access >>
  ((markClusterLast <|> .skip) <|>
    (reserveCluster >> (markClusterLast <|> .skip) <|>
      getNextCluster >> (markClusterLast <|> .skip)) >>
    (linkCluster <|> .skip))

def writeFile : Code := .call <|
  lockFile >> mayWriteFail >>
  getFd >> getCtl >> mayWriteFail >> mayWriteFail >>
  writeStart >>
  writeRound >> .loop writeRound >>
  (access <|> .skip) >>
  unlockFile >> mayRet >> .ret

/-- The mutex is held over the scheduler calls of both loops; an error of the device
leaves the second one. -/
def mkfs : Code := .call (lockAccess >> .loop .skip >> .loop (.brk <|> .skip) >> unlockAccess >> .ret)

/-- The mutex is taken once for a descriptor that is erased, twice for another. -/
def ffirst : Code := .call <|
  mayRet >> .loop (.brk <|> .skip) >> mayRet >>
  .loop (access >> (.skip <|> access >> mayRet)) >> .ret

def fnext : Code := .call (.loop (access >> mayRet) >> .ret)

def fexist : Code := .call (ffirst >> .ret)

def renameFile : Code := .call (ffirst >> (access <|> .ret) >> .ret)

def getFsize : Code := .call (ffirst >> mayRet >> getFd >> mayRet >> .ret)

def openFile : Code := .call <|
  mayRet >>
  .loop (access >> (.skip <|> access >> (.skip <|> mayRet >> access >> .ret))) >> .ret

def createFile : Code := .call <|
  mayRet >> fexist >> mayRet >> .loop (access >> (.brk <|> .skip)) >> mayRet >> access >> .ret

def closeFile : Code := .call (mayRet >> access >> .ret)

def deleteRound : Code := getNextCluster >> (markClusterFree <|> .skip)

def deleteFile : Code := .call <|
  ffirst >> mayRet >> lockFile >> mayRet >> access >> (unlockFile >> .ret <|> .skip) >> access >>
  deleteRound >> .loop deleteRound >> .ret

/-- The functions under "PUBLIC FUNCTIONS DEFINITIONs". -/
inductive PublicFunction
  | getLastError | setup | getLabel | seekFile | readFile | writeFile | mkfs | renameFile
  | ffirst | fnext | fexist | lockFile | unlockFile | getCtl | getFd | getFsize
  | openFile | createFile | closeFile | deleteFile
  deriving DecidableEq, Repr

def PublicFunction.code : PublicFunction → Code
  | .getLastError => .call .ret
  | .setup => Locking.setup
  | .getLabel => Locking.getLabel
  | .seekFile => Locking.seekFile
  | .readFile => Locking.readFile
  | .writeFile => Locking.writeFile
  | .mkfs => Locking.mkfs
  | .renameFile => Locking.renameFile
  | .ffirst => Locking.ffirst
  | .fnext => Locking.fnext
  | .fexist => Locking.fexist
  | .lockFile => Locking.lockFile
  | .unlockFile => Locking.unlockFile
  | .getCtl => Locking.getCtl
  | .getFd => Locking.getFd
  | .getFsize => Locking.getFsize
  | .openFile => Locking.openFile
  | .createFile => Locking.createFile
  | .closeFile => Locking.closeFile
  | .deleteFile => Locking.deleteFile

/-! ### The mutex -/

/-- Whether a function that has done this holds the mutex. -/
def holds (es : List Event) : Bool := es.getLast? == some .lock

/-- Locking and unlocking in turn. -/
def alternate : Bool → Event → Option Bool
  | false, .lock => some true
  | true, .unlock => some false
  | _, _ => none

/-- The state of the automaton is whether the mutex is held. -/
theorem holds_of_alternate {es : List Event} {b : Bool}
    (h : es.foldlM alternate false = some b) : holds es = b := by
  induction es using List.reverseRecOn generalizing b with
  | nil =>
    cases h
    rfl
  | append_singleton es e _ =>
    rw [List.foldlM_append] at h
    obtain ⟨c, -, hlast⟩ := Option.bind_eq_some_iff.mp h
    rw [holds, List.getLast?_concat]
    cases c <;> cases e <;> cases hlast <;> rfl

/-- Along a run of the automaton each event finds the mutex as it should be. -/
theorem alternate_before {pre post : List Event} {e : Event} {b : Bool}
    (h : (pre ++ e :: post).foldlM alternate false = some b) :
    holds pre = decide (e = .unlock) := by
  rw [List.foldlM_append] at h
  obtain ⟨c, hpre, hpost⟩ := Option.bind_eq_some_iff.mp h
  rw [List.foldlM_cons] at hpost
  obtain ⟨d, he, -⟩ := Option.bind_eq_some_iff.mp hpost
  rw [holds_of_alternate hpre]
  cases c <;> cases e <;> cases he <;> rfl

theorem code_checked (f : PublicFunction) :
    f.code.check alternate false (!·) (fun _ => false) (fun _ => false) = true := by
  cases f <;> rfl

/-- On every path of every public function the mutex is locked only where the function
does not hold it and unlocked only where it does; when the function returns it does not
hold it. -/
theorem mutex_discipline (f : PublicFunction) {es : List Event} {e : Exit}
    (hpath : Path f.code es e) :
    (∀ pre post, es = pre ++ .lock :: post → holds pre = false) ∧
    (∀ pre post, es = pre ++ .unlock :: post → holds pre = true) ∧
    (e ≠ .cut → holds es = false) := by
  obtain ⟨b, hrun, hends⟩ := hpath.check (code_checked f)
  refine ⟨?_, ?_, fun he => ?_⟩
  · rintro pre post rfl
    exact alternate_before hrun
  · rintro pre post rfl
    exact alternate_before hrun
  · rw [holds_of_alternate hrun]
    cases e with
    | done =>
      have hfree : (!b) = true := hends
      simpa using hfree
    | broke => exact absurd hends Bool.false_ne_true
    | returned => exact absurd hends Bool.false_ne_true
    | cut => exact absurd rfl he

/-- `mipos_tfs_seek_file` from the beginning, to a position out of range. -/
theorem mutex_discipline_seek : Path seekFile [.lock, .unlock, .lock, .unlock] .done ∧
    holds [.lock, .unlock, .lock, .unlock] = false := by
  have hfile : Path lockFile [] .done := .callRet (.seq (.right .skip) .ret)
  have haccess : Path access [.lock, .unlock] .done :=
    Path.seq (.emit Event.lock) (.emit Event.unlock)
  have hout := Path.seq hfile (.seq (.emit Event.unlock) .ret)
  have hpath : Path seekFile [.lock, .unlock, .lock, .unlock] .done :=
    .callRet (.seq hfile (.seq (.right .skip) (.seq haccess
      (.seqExit (.left (.seq (.emit _) (.seqExit (.right hout) nofun))) nofun))))
  exact ⟨hpath, (mutex_discipline .seekFile hpath).2.2 nofun⟩

end Tfs.Locking
