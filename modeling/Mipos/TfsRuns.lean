/-
Runs of Tiny-FS.

A run formats the volume and then makes calls that do not overlap (`Step`).  What
a call can do to the state, and to the clusters of the files, is said once
(`Effect`); `step_effect` shows that every call of a run does one of these
things, and `run_inv` that the invariant holds after each.

* `cluster_table` — in every state of every run the files head disjoint, acyclic
  chains of the right length, and every other cluster is free.
-/
import Mipos.Evaluate
import Mipos.TfsWriteFile

namespace Tfs

open LinkTable Function Relation

variable {δ : Type} {port : Port δ} {fs fs' : Fs δ} {chain chain' : ℕ → List ℕ}

/-! ### Calls and runs -/

/-- The calls of the interface that change the file system or a file.  The
buffer of a write has the bytes to write. -/
inductive Call
  | mkfs (label : Option (List UInt8))
  | setup
  | createFile (name : List UInt8)
  | openFile (name : List UInt8) (mode : OpenMode)
  | closeFile (h : ℕ)
  | seekFile (code : SeekCode) (seekpos : ℤ) (h : ℕ)
  | readFile (rbytes h : ℕ)
  | writeFile (data : List UInt8) (h : ℕ)
  | deleteFile (name : Option (List UInt8))
  | renameFile (name : Option (List UInt8)) (newName : List UInt8)

/-- A call and the truth value it returns. -/
def Call.exec (port : Port δ) (fs : Fs δ) : Call → Option (Fs δ × Bool)
  | .mkfs label => Tfs.mkfs port fs label
  | .setup => Tfs.setup port fs
  | .createFile name => (Tfs.createFile port fs name).map fun r => (r.1, r.2.1)
  | .openFile name mode => (Tfs.openFile fs name mode).map fun r => (r.1, r.2.1)
  | .closeFile h => Tfs.closeFile fs h
  | .seekFile code seekpos h => Tfs.seekFile fs code seekpos h
  | .readFile rbytes h => (Tfs.readFile port fs rbytes h).map fun r => (r.1, r.2.1)
  | .writeFile data h => (Tfs.writeFile port fs data data.length h).map fun r => (r.1, r.2.1)
  | .deleteFile name => Tfs.deleteFile port fs name
  | .renameFile name newName => Tfs.renameFile port fs name newName

/-- The file that a call would delete is not open. -/
def DeletesClosed (fs : Fs δ) (name : Option (List UInt8)) : Prop :=
  ∀ fs₁ i, ffirst fs name = some (fs₁, some i) → (fs.fileCtl i).isOpen = false

/-- The calls of a run: a write is of at least one byte and returns `TRUE`, and
only files that are not open are deleted. -/
def Call.Allowed (fs : Fs δ) (ok : Bool) : Call → Prop
  | .writeFile data _ => 0 < data.length ∧ ok = true
  | .deleteFile name => DeletesClosed fs name
  | .setup => False
  | .renameFile _ _ => False
  | _ => True

/-- One call of a run. -/
def Step (port : Port δ) (fs fs' : Fs δ) : Prop :=
  ∃ (call : Call) (ok : Bool), call.exec port fs = some (fs', ok) ∧ call.Allowed fs ok

/-! ### What a call does -/

/-- The calls that look at a file. -/
def Call.Looks : Call → Prop
  | .openFile _ _ => True
  | .closeFile _ => True
  | .seekFile _ _ _ => True
  | .readFile _ _ => True
  | _ => False

/-- The effects of the calls of a run on a state whose files have the clusters
`chain`. -/
inductive Effect (port : Port δ) (fs : Fs δ) (chain : ℕ → List ℕ) :
    Call → Bool → Fs δ → (ℕ → List ℕ) → Prop
  | format (label : Option (List UInt8)) :
      Effect port fs chain (.mkfs label) true (flush port (formatted port fs label)) fun _ => []
  | touch {call : Call} {ok : Bool} {h : ℕ} {fs' : Fs δ} (ht : Touched port fs h fs')
      (hcall : ok = false ∨ call.Looks) : Effect port fs chain call ok fs' chain
  | opens {name : List UInt8} {mode : OpenMode} {h : ℕ} (hlive : fs.ftbl.Live h) :
      Effect port fs chain (.openFile name mode) true (opened fs h mode) chain
  | close (h : ℕ) : Effect port fs chain (.closeFile h) true
      (setCtl fs h { fs.fileCtl h with isOpen := false, seekPointer := 0 }) chain
  | create {name : List UInt8} {i : ℕ} (e : ErrCode) (hlt : i < maxNOfFiles)
      (herased : (fs.ftbl.fileFsDesc i).erased ≠ 0) :
      Effect port fs chain (.createFile name) true
        (flush port (created (setError fs e) i name)) chain
  | remove {name : Option (List UInt8)} {i : ℕ} (e : ErrCode) (hlive : fs.ftbl.Live i)
      (hclosed : (fs.fileCtl i).isOpen = false) :
      Effect port fs chain (.deleteFile name) true
        (flush port (removed (setError fs e) i (chain i))) (update chain i [])
  | write {data : List UInt8} {h : ℕ} {l : List ℕ} {fs' : Fs δ}
      (hw : WriteOk port fs fs' h chain data l) :
      Effect port fs chain (.writeFile data h) true fs' (update chain h l)

theorem exec_map {α : Type} {o : Option (Fs δ × α)} {f : α → Bool} {ok : Bool}
    (hexec : (o.map fun r => (r.1, f r.2)) = some (fs', ok)) :
    ∃ r, o = some (fs', r) ∧ f r = ok := by
  obtain ⟨⟨fs₁, r⟩, ho, heq⟩ := Option.map_eq_some_iff.mp hexec
  cases heq
  exact ⟨r, ho, rfl⟩

/-- Every call of a run has one of the effects. -/
theorem exec_effect (hp : port.Succeeds) (hi : FsInv fs chain) {call : Call} {ok : Bool}
    (hexec : call.exec port fs = some (fs', ok)) (hallowed : call.Allowed fs ok) :
    ∃ chain', Effect port fs chain call ok fs' chain' := by
  cases call with
  | mkfs label =>
    have hrun := hexec
    rw [Call.exec, mkfs_eq hp hi.lock] at hrun
    cases hrun
    exact ⟨_, .format label⟩
  | setup => exact hallowed.elim
  | renameFile name newName => exact hallowed.elim
  | createFile name =>
    obtain ⟨⟨ok', i⟩, hrun, rfl⟩ := exec_map hexec
    rcases createFile_cases hp hi.lock hrun with ⟨rfl, e, rfl⟩ | ⟨rfl, hlt, herased, e, rfl⟩
    · exact ⟨chain, .touch (.of_error 0 e) (.inl rfl)⟩
    · exact ⟨chain, .create e hlt herased⟩
  | openFile name mode =>
    obtain ⟨⟨ok', h⟩, hrun, rfl⟩ := exec_map hexec
    rcases openFile_cases hi.lock hrun with ⟨rfl, rfl⟩ | ⟨rfl, rfl, hlive, -⟩
    · exact ⟨chain, .touch (.refl 0) (.inl rfl)⟩
    · exact ⟨chain, .opens hlive⟩
  | closeFile h =>
    rcases closeFile_cases hi.lock hexec with ⟨rfl, rfl⟩ | ⟨rfl, rfl⟩
    · exact ⟨chain, .touch (.of_error h _) (.inl rfl)⟩
    · exact ⟨chain, .close h⟩
  | seekFile code seekpos h =>
    exact ⟨chain, .touch (seekFile_touched hi.lock hexec) (.inr trivial)⟩
  | readFile rbytes h =>
    obtain ⟨⟨ok', r⟩, hrun, -⟩ := exec_map hexec
    exact ⟨chain, .touch (readFile_touched hp hi.lock hrun) (.inr trivial)⟩
  | writeFile data h =>
    obtain ⟨hpos, rfl⟩ := hallowed
    obtain ⟨⟨ok', n⟩, hrun, hok⟩ := exec_map hexec
    obtain ⟨fs₁, ok₁, n₁, hrun₁, hspec⟩ := writeFile_spec hp hi hpos h
    rw [hrun₁] at hrun
    cases hrun
    obtain ⟨-, l, hw⟩ := hspec hok
    exact ⟨_, .write hw⟩
  | deleteFile name =>
    rcases deleteFile_cases hp hi.lock hexec with
      ⟨rfl, h, ht⟩ | ⟨rfl, i, e, fs₁, hfirst, hlive, hloop, rfl⟩
    · exact ⟨chain, .touch ht (.inl rfl)⟩
    · have herror : Touched port fs 0 (setError fs e) := .of_error 0 e
      have hfreed := (hi.touched herror).deleteLoop_eq (i := i) hlive
      obtain rfl := Option.some.inj (hfreed.symm.trans hloop)
      exact ⟨_, .remove e hlive (hallowed _ _ hfirst)⟩

/-- One effect keeps the invariant. -/
theorem Effect.inv (hi : FsInv fs chain) {call : Call} {ok : Bool}
    (he : Effect port fs chain call ok fs' chain') : FsInv fs' chain' := by
  cases he with
  | format label => exact (FsInv.formatted hi.lock label).flush
  | touch ht _ => exact hi.touched ht
  | opens hlive => exact hi.opened_file hlive _
  | close h => exact hi.closed h
  | create e hlt herased =>
    have herror : Touched port fs 0 (setError fs e) := .of_error 0 e
    exact ((hi.touched herror).created hlt herased _).flush
  | remove e hlive hclosed =>
    have herror : Touched port fs 0 (setError fs e) := .of_error 0 e
    exact ((hi.touched herror).removed hclosed).flush
  | write hw => exact hw.inv

/-- Every step of a run has an effect. -/
theorem step_effect (hp : port.Succeeds) (hi : FsInv fs chain) (hs : Step port fs fs') :
    ∃ call ok chain', Effect port fs chain call ok fs' chain' := by
  obtain ⟨call, ok, hexec, hallowed⟩ := hs
  exact ⟨call, ok, exec_effect hp hi hexec hallowed⟩

/-- The invariant holds in every state of every run. -/
theorem run_inv (hp : port.Succeeds) {fs₀ fs₁ : Fs δ} {label : Option (List UInt8)} {ok : Bool}
    (hmkfs : mkfs port fs₀ label = some (fs₁, ok))
    (hrun : ReflTransGen (Step port) fs₁ fs) : ∃ chain, FsInv fs chain := by
  induction hrun with
  | refl =>
    have hl := lock_of_mkfs hmkfs
    rw [mkfs_eq hp hl] at hmkfs
    cases hmkfs
    exact ⟨_, (FsInv.formatted hl label).flush⟩
  | tail _ hstep ih =>
    obtain ⟨chain, hi⟩ := ih
    obtain ⟨call, ok, chain', he⟩ := step_effect hp hi hstep
    exact ⟨chain', he.inv hi⟩

/-! ### The cluster table -/

/-- The clusters of the files, read off the table: `chain h` are those of the
file `h`. -/
structure ClusterChains (t : Ftbl) (chain : ℕ → List ℕ) : Prop where
  /-- a file without bytes has no cluster -/
  empty : ∀ h, t.Live h → (t.fileFsDesc h).size = 0 →
    (t.fileFsDesc h).firstCluster = emptyCluster ∧ chain h = []
  /-- a file with bytes starts at its first cluster -/
  head : ∀ h, t.Live h → 0 < (t.fileFsDesc h).size →
    (chain h).head? = some (t.fileFsDesc h).firstCluster
  /-- each cluster links to the next one, and the last one is marked -/
  links : ∀ h, t.Live h → ∀ j c, (chain h)[j]? = some c →
    c < clustersCount ∧ t.clusterTbl c = (chain h)[j + 1]?.getD lastAllocatedCluster
  acyclic : ∀ h, t.Live h → (chain h).Nodup
  length : ∀ h, t.Live h →
    (chain h).length = ((t.fileFsDesc h).size + (clusterSize - 1)) / clusterSize
  disjoint : ∀ h k, t.Live h → t.Live k → h ≠ k → (chain h).Disjoint (chain k)
  free : ∀ c, c < clustersCount → (∀ h, t.Live h → c ∉ chain h) → t.clusterTbl c = freeCluster

theorem TableInv.clusterChains {t : Ftbl} (ht : TableInv t chain) : ClusterChains t chain := by
  have hseg : ∀ h, t.Live h → Seg t.clusterTbl (t.fileFsDesc h).firstCluster (chain h)
      (stopMark (chain h)) := by
    intro h hlive
    have hstart : t.start h = (t.fileFsDesc h).firstCluster := if_pos hlive
    exact hstart ▸ ht.chains.seg h
  constructor
  case empty =>
    intro h hlive hsize
    have hnil : chain h = [] := by
      refine List.eq_nil_of_length_eq_zero ?_
      rw [ht.length h hlive, hsize]
      decide
    have hend := hseg h hlive
    rw [hnil] at hend
    exact ⟨hend, hnil⟩
  case head =>
    intro h hlive hsize
    have hlen := ht.length h hlive
    have hpath := hseg h hlive
    cases hc : chain h with
    | nil =>
      rw [hc] at hlen
      simp only [clustersFor, clusterSize, List.length_nil] at hlen
      omega
    | cons c l =>
      rw [hc] at hpath
      exact hpath.head?
  case links =>
    intro h hlive j c hc
    refine ⟨ht.chains.valid h c (List.mem_of_getElem? hc), ?_⟩
    have hne : chain h ≠ [] := by
      intro hnil
      simp [hnil] at hc
    have hnext := (hseg h hlive).next hc
    rwa [stopMark, if_neg hne] at hnext
  case acyclic => exact fun h _ => ht.chains.nodup h
  case length => exact fun h hlive => ht.length h hlive
  case disjoint => exact fun h k _ _ hne => ht.chains.disjoint h k hne
  case free =>
    intro c hc hno
    refine ht.chains.unused c hc fun h hmem => ?_
    by_cases hlive : t.Live h
    · exact hno h hlive hmem
    · simp [ht.unused h hlive] at hmem

/-- **The cluster table**: after every call of every run the files head disjoint
acyclic chains of as many clusters as their sizes ask for, ended by the mark of
the last cluster, and every cluster on no chain is free. -/
theorem cluster_table (hp : port.Succeeds) {fs₀ fs₁ : Fs δ} {label : Option (List UInt8)}
    {ok : Bool} (hmkfs : mkfs port fs₀ label = some (fs₁, ok))
    (hrun : ReflTransGen (Step port) fs₁ fs) : ∃ chain, ClusterChains fs.ftbl chain := by
  obtain ⟨chain, hi⟩ := run_inv hp hmkfs hrun
  exact ⟨chain, hi.table.clusterChains⟩

/-- A device that accepts everything and keeps nothing. -/
def nullPort : Port Unit where
  ioWrite := some fun _ _ _ => ((), 0)
  ioRead := some fun _ n _ => ((), List.replicate n 0, 0)
  sizeofPtr := 8

/-- The memory of a file system before it is formatted. -/
def blankFs {δ : Type} (dev : δ) : Fs δ where
  fileCtl _ := Ctl.zero
  ftbl := ⟨List.replicate maxVolumeLength 0, 0, 0, [0, 0], fun _ => Fd.zero, fun _ => 0⟩
  lock := false
  lastErrorCode := .success
  dev := dev

theorem nullPort_succeeds : nullPort.Succeeds :=
  ⟨⟨_, rfl, fun _ _ _ => rfl⟩, ⟨_, rfl, fun _ _ _ => rfl⟩⟩

/-- Calls made one after the other, all of them returning `TRUE`. -/
def runCalls (port : Port δ) (fs : Fs δ) : List Call → Option (Fs δ)
  | [] => some fs
  | call :: calls => match call.exec port fs with
    | some (fs', true) => runCalls port fs' calls
    | _ => none

/-- A list of calls none of which deletes, mounts or renames is a run. -/
theorem run_of_runCalls {calls : List Call} (hrun : runCalls port fs calls = some fs')
    (hallowed : ∀ call ∈ calls, ∀ fs : Fs δ, call.Allowed fs true) :
    ReflTransGen (Step port) fs fs' := by
  induction calls generalizing fs with
  | nil =>
    cases hrun
    exact .refl
  | cons call calls ih =>
    rw [runCalls] at hrun
    split at hrun
    · rename_i fs₁ hexec
      have hstep : Step port fs fs₁ := ⟨call, true, hexec, hallowed call (by simp) fs⟩
      exact .head hstep (ih hrun fun c hc => hallowed c (by simp [hc]))
    · cases hrun

theorem cluster_table_forty_bytes :
    ∃ fs₁ fs : Fs Unit, mkfs nullPort (blankFs ()) none = some (fs₁, true) ∧
      ReflTransGen (Step nullPort) fs₁ fs ∧ fs.ftbl.Live 0 ∧
      (fs.ftbl.fileFsDesc 0).size = 40 ∧ ∃ chain, ClusterChains fs.ftbl chain := by
  have hmkfs : mkfs nullPort (blankFs ()) none
      = some (flush nullPort (formatted nullPort (blankFs ()) none), true) :=
    mkfs_eq nullPort_succeeds rfl none
  obtain ⟨fs, hfs, hlive⟩ : ∃ fs, runCalls nullPort
      (flush nullPort (formatted nullPort (blankFs ()) none))
      [.createFile [97], .writeFile (List.replicate 40 7) 0] = some fs ∧
      fs.ftbl.Live 0 ∧ (fs.ftbl.fileFsDesc 0).size = 40 := by
    refine ⟨_, rfl, ?_, ?_⟩ <;> decide
  have hrun := run_of_runCalls hfs (by simp [Call.Allowed])
  exact ⟨_, fs, hmkfs, hrun, hlive.1, hlive.2, cluster_table nullPort_succeeds hmkfs hrun⟩

end Tfs
