/-
Writing to a file of Tiny-FS.

The loop of `mipos_tfs_write_file` goes along the chain of the file, extends it
by reserved clusters once the seek pointer is past the end, and sets the size only
in its last round.  The state between two rounds is `Writing`: either the chain is
the one of the file, ended as usual, or its last cluster is the reserved one where
the next bytes go.

There are three ways to end (`LoopEnd`):
* `Written` — all bytes are stored: where they went (`Stores`), how the chain grew,
  and that nothing else of the state changed;
* a write that crosses an end of file that is the end of a cluster (`CrossesEnd`)
  stops there;
* `Filled` — no cluster was free: the chain has grown, the size has not.

`writeLoop_spec` says that the loop returns, and that these are all.
-/
import Mipos.TfsTable

namespace Tfs

open LinkTable Function

variable {δ : Type} {port : Port δ} {fs fs' : Fs δ} {chain : ℕ → List ℕ} {start stop : ℕ → ℕ}
  {h c off n : ℕ} {data : List UInt8} {t : ℕ}

/-! ### Positions and clusters -/

theorem clustersFor_eq {size j : ℕ} (hlow : clusterSize * j < size)
    (hhigh : size ≤ clusterSize * (j + 1)) : clustersFor size = j + 1 := by
  simp only [clustersFor, clusterSize] at *
  omega

/-- Writing past the end happens in the last cluster. -/
theorem last_of_past {size q t : ℕ} (hq : q / clusterSize < clustersFor size)
    (ht : t ≤ clusterSize - q % clusterSize) (hpast : size < q + t) :
    clustersFor size = q / clusterSize + 1 := by
  simp only [clustersFor, clusterSize] at *
  omega

/-- A round that fills its cluster ends at the start of the next one. -/
theorem round_up {q t : ℕ} (ht : t = clusterSize - q % clusterSize) :
    q + t = clusterSize * (q / clusterSize + 1) := by
  simp only [clusterSize] at *
  omega

/-! ### The outcome -/

/-- The device goes from `dev` to `dev'` by storing `data` from position `q` of
the chain `l` on, at most a cluster at a time. -/
inductive Stores (port : Port δ) (l : List ℕ) : ℕ → List UInt8 → δ → δ → Prop
  | done (q : ℕ) (dev : δ) : Stores port l q [] dev dev
  | chunk {q c t : ℕ} {data : List UInt8} {dev dev' : δ} (hpos : 0 < t)
      (ht : t = min data.length (clusterSize - q % clusterSize))
      (hc : l[q / clusterSize]? = some c)
      (hrest : Stores port l (q + t) (data.drop t)
        (port.put dev (data.take t) (clusterAddr c (q % clusterSize))) dev') :
      Stores port l q data dev dev'

/-- The state after `n` bytes were written to file `h`, with the new cluster
table and device. -/
def wrote (fs : Fs δ) (h n : ℕ) (tbl : ℕ → ℕ) (dev : δ) : Fs δ :=
  let ctl := fs.fileCtl h
  let fd := fs.ftbl.fileFsDesc h
  setDev (setTable (setFd (setCtl fs h { ctl with seekPointer := ctl.seekPointer + n }) h
    { fd with size := max fd.size (ctl.seekPointer + n) }) tbl) dev

structure Written (port : Port δ) (fs fs' : Fs δ) (h : ℕ) (chain : ℕ → List ℕ)
    (start stop : ℕ → ℕ) (data : List UInt8) (l : List ℕ) : Prop where
  state : fs' = wrote fs h data.length fs'.ftbl.clusterTbl fs'.dev
  chains : Chains (· < clustersCount) freeCluster fs'.ftbl.clusterTbl
    (update chain h l) start (update stop h lastAllocatedCluster)
  length : l.length = clustersFor (max (fs.ftbl.fileFsDesc h).size
    ((fs.fileCtl h).seekPointer + data.length))
  grows : chain h <+: l
  stores : Stores port l (fs.fileCtl h).seekPointer data fs.dev fs'.dev

/-- The state after a round that goes on. -/
def nextRound (fs : Fs δ) (h t : ℕ) (tbl : ℕ → ℕ) (dev : δ) : Fs δ :=
  setTable (advance (setDev fs dev) h t) tbl

/-- The bytes `data` were stored in the clusters `l`, and then there was no free
cluster any more. -/
structure Filled (port : Port δ) (fs fs' : Fs δ) (h : ℕ) (chain : ℕ → List ℕ)
    (start stop : ℕ → ℕ) (data : List UInt8) (l : List ℕ) : Prop where
  state : fs' = nextRound fs h data.length fs'.ftbl.clusterTbl fs'.dev
  chains : Chains (· < clustersCount) freeCluster fs'.ftbl.clusterTbl
    (update chain h l) start (update stop h lastAllocatedCluster)
  length : clusterSize * l.length = (fs.fileCtl h).seekPointer + data.length
  past : (fs.ftbl.fileFsDesc h).size < (fs.fileCtl h).seekPointer + data.length
  full : firstFree fs'.ftbl.clusterTbl = none
  grows : chain h <+: l
  stores : Stores port l (fs.fileCtl h).seekPointer data fs.dev fs'.dev

/-- A write of `n` bytes that starts inside the file and goes beyond its end, which
is the end of a cluster.  There the loop looks for the next cluster of the chain. -/
def CrossesEnd (fs : Fs δ) (h n : ℕ) : Prop :=
  (fs.fileCtl h).seekPointer < (fs.ftbl.fileFsDesc h).size ∧
    (fs.ftbl.fileFsDesc h).size % clusterSize = 0 ∧
    (fs.ftbl.fileFsDesc h).size < (fs.fileCtl h).seekPointer + n

instance (fs : Fs δ) (h n : ℕ) : Decidable (CrossesEnd fs h n) :=
  inferInstanceAs (Decidable (_ ∧ _))

/-- How the loop ends, with the number of bytes that are not written. -/
inductive LoopEnd (port : Port δ) (fs fs' : Fs δ) (h : ℕ) (chain : ℕ → List ℕ)
    (start stop : ℕ → ℕ) (data : List UInt8) : ℕ → Prop
  | complete {l : List ℕ} (hcross : ¬CrossesEnd fs h data.length)
      (hw : Written port fs fs' h chain start stop data l) : LoopEnd port fs fs' h chain start stop
        data 0
  | crossing {k : ℕ} {l : List ℕ} (hcross : CrossesEnd fs h data.length) (hk : k < data.length)
      (hend : (fs.fileCtl h).seekPointer + k = (fs.ftbl.fileFsDesc h).size)
      (hw : Written port fs fs' h chain start stop (data.take k) l) :
      LoopEnd port fs fs' h chain start stop data (data.length - k)
  | filled {k : ℕ} {l : List ℕ} (hcross : ¬CrossesEnd fs h data.length) (hk : k < data.length)
      (hf : Filled port fs fs' h chain start stop (data.take k) l) :
      LoopEnd port fs fs' h chain start stop data (data.length - k)

/-- Before a round: the cluster at the seek pointer is `c`.  Either the file is
as its descriptor says, or `c` was reserved for what is written next. -/
structure Writing (fs : Fs δ) (h : ℕ) (chain : ℕ → List ℕ) (start stop : ℕ → ℕ)
    (c off : ℕ) : Prop where
  lock : fs.lock = false
  chains : Chains (· < clustersCount) freeCluster fs.ftbl.clusterTbl chain start stop
  here : (chain h)[(fs.fileCtl h).seekPointer / clusterSize]? = some c
  offset : off % clusterSize = (fs.fileCtl h).seekPointer % clusterSize
  mode : (stop h = lastAllocatedCluster ∧
      (chain h).length = clustersFor (fs.ftbl.fileFsDesc h).size) ∨
    (stop h = reservedCluster ∧ (fs.ftbl.fileFsDesc h).size ≤ (fs.fileCtl h).seekPointer ∧
      (chain h).length = (fs.fileCtl h).seekPointer / clusterSize + 1)

/-! ### One round -/

theorem Writing.valid (hw : Writing fs h chain start stop c off) : c < clustersCount :=
  hw.chains.valid h c (List.mem_of_getElem? hw.here)

theorem Writing.seek_lt (hw : Writing fs h chain start stop c off) :
    (fs.fileCtl h).seekPointer < storageAreaSize := by
  have hpos := (List.getElem?_eq_some_iff.mp hw.here).1
  have hsub : chain h ⊆ List.range clustersCount := fun c hc =>
    List.mem_range.mpr (hw.chains.valid h c hc)
  have hlen := ((hw.chains.nodup h).subperm hsub).length_le
  simp only [List.length_range, clustersCount, storageAreaSize, clusterSize] at *
  omega

/-- The seek pointer does not wrap. -/
theorem Writing.advance_seek (hw : Writing fs h chain start stop c off)
    (ht : t ≤ clusterSize) (dev : δ) :
    (((advance (setDev fs dev) h t).fileCtl h).seekPointer) = (fs.fileCtl h).seekPointer + t := by
  have hlt := hw.seek_lt
  have hnowrap : (fs.fileCtl h).seekPointer + t < 2 ^ 32 := by
    simp only [storageAreaSize, clusterSize] at *
    omega
  exact advance_seekPointer hnowrap

/-- A round that goes past the end is in the last cluster of the chain. -/
theorem Writing.last (hw : Writing fs h chain start stop c off)
    (ht : t ≤ clusterSize - (fs.fileCtl h).seekPointer % clusterSize)
    (hpast : (fs.ftbl.fileFsDesc h).size < (fs.fileCtl h).seekPointer + t) :
    ∃ m, chain h = m ++ [c] ∧ m.length = (fs.fileCtl h).seekPointer / clusterSize := by
  have hpos := (List.getElem?_eq_some_iff.mp hw.here).1
  have hlen : (chain h).length = (fs.fileCtl h).seekPointer / clusterSize + 1 := by
    rcases hw.mode with ⟨-, hlen⟩ | ⟨-, -, hlen⟩
    · rw [hlen] at hpos ⊢
      exact last_of_past hpos ht hpast
    · exact hlen
  have hne : chain h ≠ [] := by
    intro hnil
    simp [hnil] at hlen
  have hlast : (chain h).getLast hne = c := by
    have hget := List.getLast?_eq_getElem? (l := chain h)
    rw [hlen, Nat.add_sub_cancel, hw.here, List.getLast?_eq_some_getLast hne] at hget
    exact Option.some.inj hget
  refine ⟨(chain h).dropLast, ?_, by simp [hlen]⟩
  rw [← hlast, List.dropLast_append_getLast hne]

/-- A round that stays inside the file is in the chain of the descriptor. -/
theorem Writing.inside (hw : Writing fs h chain start stop c off) (hpos : 0 < t)
    (hin : ¬(fs.ftbl.fileFsDesc h).size < (fs.fileCtl h).seekPointer + t) :
    stop h = lastAllocatedCluster ∧
      (chain h).length = clustersFor (fs.ftbl.fileFsDesc h).size := by
  rcases hw.mode with hmode | ⟨-, hsize, -⟩
  · exact hmode
  · omega

theorem Writing.nextRound_seek (hw : Writing fs h chain start stop c off)
    (ht : t ≤ clusterSize) (tbl : ℕ → ℕ) (dev : δ) :
    ((nextRound fs h t tbl dev).fileCtl h).seekPointer = (fs.fileCtl h).seekPointer + t :=
  hw.advance_seek ht dev

/-- The seek pointer after a round, and what the rounds after it have to write. -/
theorem Writing.nextRound_left (hw : Writing fs h chain start stop c off)
    (ht : t = min data.length (clusterSize - (fs.fileCtl h).seekPointer % clusterSize))
    (tbl : ℕ → ℕ) (dev : δ) :
    ((nextRound fs h t tbl dev).fileCtl h).seekPointer = (fs.fileCtl h).seekPointer + t ∧
      t + (data.drop t).length = data.length := by
  refine ⟨hw.nextRound_seek (by omega) tbl dev, ?_⟩
  rw [List.length_drop]
  omega

theorem wrote_nextRound {t n : ℕ} {tbl tbl₁ : ℕ → ℕ} {dev dev₁ : δ}
    (hseek : ((nextRound fs h t tbl₁ dev₁).fileCtl h).seekPointer
      = (fs.fileCtl h).seekPointer + t) :
    wrote (nextRound fs h t tbl₁ dev₁) h n tbl dev = wrote fs h (t + n) tbl dev := by
  simp only [wrote, hseek, Nat.add_assoc]
  simp [nextRound, setTable, setDev, setFd, setCtl, advance]

/-- Two stretches of rounds, on any seek pointer. -/
theorem nextRound_nextRound {t n : ℕ} {tbl tbl₁ : ℕ → ℕ} {dev dev₁ : δ} :
    nextRound (nextRound fs h t tbl₁ dev₁) h n tbl dev = nextRound fs h (t + n) tbl dev := by
  simp [nextRound, setTable, setDev, setCtl, advance, Nat.add_assoc]

/-- The bytes of a round and of those after it. -/
theorem Writing.stores (hw : Writing fs h chain start stop c off) {dev dev' : δ}
    {m l : List ℕ} (hpos : 0 < t)
    (ht : t = min data.length (clusterSize - (fs.fileCtl h).seekPointer % clusterSize))
    (hm : chain h <+: m) (hl : m <+: l)
    (hdev : dev = port.put fs.dev (data.take t)
      (clusterAddr c ((fs.fileCtl h).seekPointer % clusterSize)))
    (hrest : Stores port l ((fs.fileCtl h).seekPointer + t) (data.drop t) dev dev') :
    Stores port l (fs.fileCtl h).seekPointer data fs.dev dev' := by
  refine .chunk hpos ht ?_ (hdev ▸ hrest)
  obtain ⟨hj, hget⟩ := List.getElem?_eq_some_iff.mp hw.here
  rw [← hget]
  exact List.prefix_iff_getElem?.mp (hm.trans hl) _ hj

/-- What the remaining rounds write, after the round that wrote the first `t`
bytes. -/
theorem Written.of_nextRound (hw : Writing fs h chain start stop c off) {tbl : ℕ → ℕ}
    {dev : δ} {m l : List ℕ} {v : ℕ} (hpos : 0 < t)
    (ht : t = min data.length (clusterSize - (fs.fileCtl h).seekPointer % clusterSize))
    (hm : chain h <+: m)
    (hdev : dev = port.put fs.dev (data.take t)
      (clusterAddr c ((fs.fileCtl h).seekPointer % clusterSize)))
    (hrest : Written port (nextRound fs h t tbl dev) fs' h (update chain h m) start
      (update stop h v) (data.drop t) l) :
    Written port fs fs' h chain start stop data l := by
  obtain ⟨hseek, hlen⟩ := hw.nextRound_left ht tbl dev
  have hgrows : m <+: l := by simpa using hrest.grows
  constructor
  case state => rw [← hlen, ← wrote_nextRound hseek, ← hrest.state]
  case chains =>
    have hchains := hrest.chains
    rwa [update_idem, update_idem] at hchains
  case length =>
    have hlength := hrest.length
    rw [hseek, Nat.add_assoc, hlen] at hlength
    exact hlength
  case grows => exact hm.trans hgrows
  case stores =>
    have hstores := hrest.stores
    rw [hseek] at hstores
    exact hw.stores hpos ht hm hgrows hdev hstores

/-- The same for a write that fills the volume. -/
theorem Filled.of_nextRound (hw : Writing fs h chain start stop c off) {tbl : ℕ → ℕ}
    {dev : δ} {m l : List ℕ} {v : ℕ} (hpos : 0 < t)
    (ht : t = min data.length (clusterSize - (fs.fileCtl h).seekPointer % clusterSize))
    (hm : chain h <+: m)
    (hdev : dev = port.put fs.dev (data.take t)
      (clusterAddr c ((fs.fileCtl h).seekPointer % clusterSize)))
    (hrest : Filled port (nextRound fs h t tbl dev) fs' h (update chain h m) start
      (update stop h v) (data.drop t) l) :
    Filled port fs fs' h chain start stop data l := by
  obtain ⟨hseek, hlen⟩ := hw.nextRound_left ht tbl dev
  have hgrows : m <+: l := by simpa using hrest.grows
  have hsum : (fs.fileCtl h).seekPointer + t + (data.drop t).length
      = (fs.fileCtl h).seekPointer + data.length := by omega
  constructor
  case state => rw [← hlen, ← nextRound_nextRound, ← hrest.state]
  case chains =>
    have hchains := hrest.chains
    rwa [update_idem, update_idem] at hchains
  case length => rw [hrest.length, hseek, hsum]
  case past =>
    have hpast := hrest.past
    rwa [hseek, hsum] at hpast
  case full => exact hrest.full
  case grows => exact hm.trans hgrows
  case stores =>
    have hstores := hrest.stores
    rw [hseek] at hstores
    exact hw.stores hpos ht hm hgrows hdev hstores

/-- The last round: the size is set if the file has grown. -/
theorem Writing.final (hw : Writing fs h chain start stop c off) (hpos : 0 < data.length)
    (ht : data.length ≤ clusterSize - (fs.fileCtl h).seekPointer % clusterSize) {dev : δ}
    (hdev : dev = port.put fs.dev data
      (clusterAddr c ((fs.fileCtl h).seekPointer % clusterSize)))
    (hfs' : fs' = if (fs.fileCtl h).seekPointer + data.length > (fs.ftbl.fileFsDesc h).size then
        setCluster (setFd (advance (setDev fs dev) h data.length) h
          { fs.ftbl.fileFsDesc h with size := (fs.fileCtl h).seekPointer + data.length }) c
          lastAllocatedCluster
      else advance (setDev fs dev) h data.length) :
    Written port fs fs' h chain start stop data (chain h) := by
  have hle : data.length ≤ clusterSize := by omega
  have hseek := hw.advance_seek hle dev
  have hctl : advance (setDev fs dev) h data.length = setCtl (setDev fs dev) h
      { fs.fileCtl h with seekPointer := (fs.fileCtl h).seekPointer + data.length } := by
    rw [← hseek]
    simp [advance]
  have hstores : Stores port (chain h) (fs.fileCtl h).seekPointer data fs.dev dev := by
    refine .chunk hpos (by omega) hw.here ?_
    rw [List.drop_length, List.take_length, hdev]
    exact .done _ _
  by_cases hpast : (fs.ftbl.fileFsDesc h).size < (fs.fileCtl h).seekPointer + data.length
  · rw [if_pos hpast, hctl] at hfs'
    obtain ⟨m, hm, hmlen⟩ := hw.last ht hpast
    subst hfs'
    constructor
    case state =>
      simp only [wrote, Nat.max_eq_right (Nat.le_of_lt hpast)]
      rfl
    case chains =>
      rw [update_eq_self]
      exact hw.chains.setStop hm (by decide)
    case length =>
      rw [Nat.max_eq_right (Nat.le_of_lt hpast), hm, List.length_append, hmlen]
      refine (clustersFor_eq ?_ ?_).symm <;> simp only [clusterSize] at * <;> omega
    case grows => exact List.prefix_rfl
    case stores => exact hstores
  · rw [if_neg hpast, hctl] at hfs'
    obtain ⟨hstop, hlen⟩ := hw.inside hpos hpast
    have hmax : max (fs.ftbl.fileFsDesc h).size ((fs.fileCtl h).seekPointer + data.length)
        = (fs.ftbl.fileFsDesc h).size := Nat.max_eq_left (Nat.le_of_not_lt hpast)
    subst hfs'
    constructor
    case state => simp [wrote, hmax, setFd, setTable, setDev, setCtl]
    case chains =>
      rw [update_eq_self, ← hstop, update_eq_self]
      exact hw.chains
    case length => rw [hmax, hlen]
    case grows => exact List.prefix_rfl
    case stores => exact hstores

/-- A round past the end that goes on in a newly reserved cluster. -/
theorem Writing.extend (hw : Writing fs h chain start stop c off) {t x : ℕ}
    (ht : t = clusterSize - (fs.fileCtl h).seekPointer % clusterSize)
    (hpast : (fs.ftbl.fileFsDesc h).size < (fs.fileCtl h).seekPointer + t)
    (hx : firstFree fs.ftbl.clusterTbl = some x) (dev : δ) :
    Writing (nextRound fs h t (update (update fs.ftbl.clusterTbl x
        reservedCluster) c x) dev) h (update chain h (chain h ++ [x])) start
      (update stop h reservedCluster) x 0 := by
  obtain ⟨m, hm, hmlen⟩ := hw.last (Nat.le_of_eq ht) hpast
  obtain ⟨hxv, hxfree⟩ := firstFree_spec hx
  have hseek := hw.nextRound_seek (t := t) (by omega)
    (update (update fs.ftbl.clusterTbl x reservedCluster) c x) dev
  have hpos := round_up ht
  have hdiv : ((fs.fileCtl h).seekPointer + t) / clusterSize
      = (fs.fileCtl h).seekPointer / clusterSize + 1 := by
    rw [hpos, Nat.mul_div_cancel_left _ (by decide)]
  have hlen : (chain h).length = (fs.fileCtl h).seekPointer / clusterSize + 1 := by
    rw [hm, List.length_append, hmlen]
    rfl
  constructor
  case lock => exact hw.lock
  case chains =>
    rw [hm]
    exact hw.chains.extend hm hxv hxfree (by decide)
  case here =>
    rw [hseek, hdiv, update_self, ← hlen, List.getElem?_concat_length]
  case offset => rw [hseek, hpos, Nat.mul_mod_right, Nat.zero_mod]
  case mode =>
    refine .inr ⟨update_self .., ?_, ?_⟩
    · rw [hseek]
      exact Nat.le_of_lt hpast
    · rw [hseek, hdiv, update_self, List.length_append, hlen]
      rfl

/-- A round inside the file that goes on in the next cluster of the chain. -/
theorem Writing.follow (hw : Writing fs h chain start stop c off) {t y : ℕ}
    (ht : t = clusterSize - (fs.fileCtl h).seekPointer % clusterSize)
    (hin : ¬(fs.ftbl.fileFsDesc h).size < (fs.fileCtl h).seekPointer + t)
    (hy : (chain h)[(fs.fileCtl h).seekPointer / clusterSize + 1]? = some y) (dev : δ) :
    Writing (nextRound fs h t fs.ftbl.clusterTbl dev) h chain start stop y 0 := by
  have hseek := hw.nextRound_seek (t := t) (by omega) fs.ftbl.clusterTbl dev
  have hpos := round_up ht
  have hmod := mod_clusterSize (fs.fileCtl h).seekPointer
  constructor
  case lock => exact hw.lock
  case chains => exact hw.chains
  case here => rw [hseek, hpos, Nat.mul_div_cancel_left _ (by decide), hy]
  case offset => rw [hseek, hpos, Nat.mul_mod_right, Nat.zero_mod]
  case mode => exact .inl (hw.inside (by omega) hin)

/-- The last free cluster was taken: the cluster of the round ends the chain. -/
theorem Writing.fill (hw : Writing fs h chain start stop c off) (hpos : 0 < data.length)
    (ht : data.length = clusterSize - (fs.fileCtl h).seekPointer % clusterSize) {dev : δ}
    (hdev : dev = port.put fs.dev data
      (clusterAddr c ((fs.fileCtl h).seekPointer % clusterSize)))
    (hpast : (fs.ftbl.fileFsDesc h).size < (fs.fileCtl h).seekPointer + data.length)
    (hfull : firstFree fs.ftbl.clusterTbl = none) :
    Filled port fs (setCluster (advance (setDev fs dev) h data.length) c lastAllocatedCluster) h
      chain start stop data (chain h) := by
  obtain ⟨m, hm, hmlen⟩ := hw.last (Nat.le_of_eq ht) hpast
  have hround := round_up ht
  constructor
  case state => rfl
  case chains =>
    rw [update_eq_self]
    exact hw.chains.setStop hm (by decide)
  case length =>
    rw [hround, hm, List.length_append, hmlen]
    rfl
  case past => exact hpast
  case full =>
    rw [firstFree_eq_none] at hfull ⊢
    intro x hx
    rcases eq_or_ne x c with rfl | hne
    · simp [lastAllocatedCluster, freeCluster]
    · simpa [hne] using hfull x hx
  case grows => exact List.prefix_rfl
  case stores =>
    refine .chunk hpos (by omega) hw.here ?_
    rw [List.drop_length, List.take_length, hdev]
    exact .done _ _

/-! ### The end of a file -/

/-- A round that goes past the end does not start inside a file that fills its
clusters. -/
theorem not_crossesEnd_of_past
    (ht : t ≤ clusterSize - (fs.fileCtl h).seekPointer % clusterSize)
    (hpast : (fs.ftbl.fileFsDesc h).size < (fs.fileCtl h).seekPointer + t) :
    ¬CrossesEnd fs h n := by
  rintro ⟨hlt, hmod, -⟩
  simp only [clusterSize] at *
  omega

/-- A round behind which the chain goes on. -/
theorem Writing.crossesEnd_iff (hw : Writing fs h chain start stop c off) {t y : ℕ}
    (ht : t = clusterSize - (fs.fileCtl h).seekPointer % clusterSize) (htn : t < n)
    (hin : ¬(fs.ftbl.fileFsDesc h).size < (fs.fileCtl h).seekPointer + t)
    (hy : (chain h)[(fs.fileCtl h).seekPointer / clusterSize + 1]? = some y)
    (tbl : ℕ → ℕ) (dev : δ) :
    CrossesEnd (nextRound fs h t tbl dev) h (n - t) ↔ CrossesEnd fs h n := by
  have hlt := (List.getElem?_eq_some_iff.mp hy).1
  have hmod := mod_clusterSize (fs.fileCtl h).seekPointer
  rw [(hw.inside (by omega) hin).2] at hlt
  have hfd : (nextRound fs h t tbl dev).ftbl.fileFsDesc h = fs.ftbl.fileFsDesc h := rfl
  rw [CrossesEnd, hw.nextRound_seek (t := t) (by omega) tbl dev, hfd]
  simp only [CrossesEnd, clustersFor, clusterSize] at *
  omega

/-- A round behind which it does not. -/
theorem Writing.crossesEnd_last (hw : Writing fs h chain start stop c off)
    (ht : t = clusterSize - (fs.fileCtl h).seekPointer % clusterSize) (htn : t < n)
    (hin : ¬(fs.ftbl.fileFsDesc h).size < (fs.fileCtl h).seekPointer + t)
    (hy : (chain h)[(fs.fileCtl h).seekPointer / clusterSize + 1]? = none) :
    CrossesEnd fs h n ∧ (fs.fileCtl h).seekPointer + t = (fs.ftbl.fileFsDesc h).size := by
  have hle := List.getElem?_eq_none_iff.mp hy
  have hmod := mod_clusterSize (fs.fileCtl h).seekPointer
  rw [(hw.inside (by omega) hin).2] at hle
  simp only [CrossesEnd, clustersFor, clusterSize] at *
  omega

/-! ### The loop -/

/-- The end of the loop, seen from a round before. -/
theorem LoopEnd.of_nextRound (hw : Writing fs h chain start stop c off) {t rest : ℕ} {tbl : ℕ → ℕ}
    {dev : δ} {m : List ℕ} {v : ℕ} (hpos : 0 < t)
    (ht : t = clusterSize - (fs.fileCtl h).seekPointer % clusterSize) (htn : t < data.length)
    (hm : chain h <+: m)
    (hdev : dev = port.put fs.dev (data.take t)
      (clusterAddr c ((fs.fileCtl h).seekPointer % clusterSize)))
    (hcross : CrossesEnd (nextRound fs h t tbl dev) h (data.length - t)
      ↔ CrossesEnd fs h data.length)
    (hrest : LoopEnd port (nextRound fs h t tbl dev) fs' h (update chain h m) start
      (update stop h v) (data.drop t) rest) :
    LoopEnd port fs fs' h chain start stop data rest := by
  have hseek := hw.nextRound_seek (t := t) (by omega) tbl dev
  have hdrop : (data.drop t).length = data.length - t := List.length_drop
  -- the bytes of this round and the first `k` of those after it
  have hfirst : ∀ k, k < (data.drop t).length → t = min (data.take (t + k)).length
      (clusterSize - (fs.fileCtl h).seekPointer % clusterSize) ∧
      (data.take (t + k)).take t = data.take t ∧
      (data.take (t + k)).drop t = (data.drop t).take k := by
    intro k hk
    refine ⟨?_, ?_, ?_⟩
    · rw [List.length_take]
      omega
    · rw [List.take_take, Nat.min_eq_left (Nat.le_add_right t k)]
    · rw [List.drop_take, Nat.add_sub_cancel_left]
  have hleft : ∀ k, (data.drop t).length - k = data.length - (t + k) := by
    intro k
    omega
  cases hrest with
  | complete hno hwritten =>
    rw [hdrop] at hno
    exact .complete (mt hcross.mpr hno) (hwritten.of_nextRound hw hpos (by omega) hm hdev)
  | @crossing k l hyes hk hend hwritten =>
    obtain ⟨hmin, htake, hrest⟩ := hfirst k hk
    rw [hdrop] at hyes
    rw [← hrest] at hwritten
    rw [hleft]
    refine .crossing (hcross.mp hyes) (by omega) ?_
      (hwritten.of_nextRound hw hpos hmin hm (htake ▸ hdev))
    rw [← Nat.add_assoc, ← hseek]
    exact hend
  | @filled k l hno hk hfilled =>
    obtain ⟨hmin, htake, hrest⟩ := hfirst k hk
    rw [hdrop] at hno
    rw [← hrest] at hfilled
    rw [hleft]
    exact .filled (mt hcross.mpr hno) (by omega)
      (hfilled.of_nextRound hw hpos hmin hm (htake ▸ hdev))

/-- **The loop of `mipos_tfs_write_file`** returns, in one of the three ways. -/
theorem writeLoop_spec (hp : port.Succeeds) {fuel : ℕ} (hw : Writing fs h chain start stop c off)
    (hpos : 0 < data.length) (hfuel : data.length < fuel) :
    ∃ fs' rest, writeLoop port h fuel fs c off data data.length = some (fs', rest, 0) ∧
      fs'.lock = false ∧ LoopEnd port fs fs' h chain start stop data rest := by
  -- the induction is on the fuel, which exceeds the bytes left; `Writing` holds
  -- before each round
  induction fuel generalizing fs chain stop c off data with
  | zero => omega
  | succ fuel ih =>
    obtain ⟨t, ht⟩ : ∃ t, t = min data.length (clusterSize - off % clusterSize) := ⟨_, rfl⟩
    have hmod := mod_clusterSize off
    have htpos : 0 < t := by omega
    have hle : t ≤ clusterSize := by omega
    rw [writeLoop_succ hp hw.lock h fuel off data hw.valid ht htpos]
    rw [hw.offset] at ht ⊢
    generalize hdev : port.put fs.dev (data.take t)
      (clusterAddr c ((fs.fileCtl h).seekPointer % clusterSize)) = dev
    have hseek := hw.advance_seek hle dev
    dsimp only
    rw [hseek]
    by_cases hdone : data.length - t = 0
    · -- the last round
      obtain rfl : t = data.length := by omega
      rw [if_pos hdone]
      refine ⟨_, 0, rfl, ?_, .complete ?_ (hw.final hpos (by omega) ?_ rfl)⟩
      · split <;> exact hw.lock
      · rintro ⟨hlt, hzero, hpast⟩
        simp only [clusterSize] at *
        omega
      · rw [← hdev, List.take_length]
    · rw [if_neg hdone]
      have hfull : t = clusterSize - (fs.fileCtl h).seekPointer % clusterSize := by omega
      have hdrop : (data.drop t).length = data.length - t := List.length_drop
      have htake : (data.take t).length = t := by
        rw [List.length_take]
        omega
      have htn : t < data.length := by omega
      have hleft : 0 < (data.drop t).length := by omega
      have hfuel' : (data.drop t).length < fuel := by omega
      by_cases hpast : (fs.fileCtl h).seekPointer + t > (fs.ftbl.fileFsDesc h).size
      · -- past the end: a free cluster is reserved and linked behind the last one
        rw [if_pos hpast]
        have hno : ¬CrossesEnd fs h data.length := not_crossesEnd_of_past (Nat.le_of_eq hfull) hpast
        cases hx : firstFree fs.ftbl.clusterTbl with
        | none =>
          have hfill : Filled port fs (setCluster (advance (setDev fs dev) h (data.take t).length) c
              lastAllocatedCluster) h chain start stop (data.take t) (chain h) :=
            hw.fill (by omega) (by omega) hdev.symm (by omega) hx
          rw [htake] at hfill
          exact ⟨_, _, rfl, hw.lock, .filled hno htn hfill⟩
        | some x =>
          have hw' := hw.extend hfull hpast hx dev
          obtain ⟨fs', rest, hloop, hlock, hrest⟩ := ih hw' hleft hfuel'
          rw [hdrop] at hloop
          refine ⟨fs', rest, hloop, hlock, hrest.of_nextRound hw htpos hfull htn
            (List.prefix_append _ _) hdev.symm (iff_of_false ?_ hno)⟩
          rintro ⟨hlt, -⟩
          rw [hw.nextRound_seek hle] at hlt
          exact Nat.lt_asymm hlt hpast
      · -- inside the file: the chain is followed, and the link is set to what it was
        rw [if_neg hpast]
        have hnext := (hw.chains.seg h).next hw.here
        cases hy : (chain h)[(fs.fileCtl h).seekPointer / clusterSize + 1]? with
        | none =>
          obtain ⟨hcross, hend⟩ := hw.crossesEnd_last hfull htn hpast hy
          have hlast : fs.ftbl.clusterTbl c = lastAllocatedCluster := by
            rw [hnext, hy, ← (hw.inside htpos hpast).1]
            rfl
          have hsame : (advance (setDev fs dev) h t).ftbl.clusterTbl c = lastAllocatedCluster :=
            hlast
          rw [nextOf_end (by rw [hlast]; decide), setCluster_self hsame]
          have hfinal : Written port fs (advance (setDev fs dev) h t) h chain start stop
              (data.take t) (chain h) :=
            hw.final (by omega) (by omega) hdev.symm (by rw [htake, if_neg hpast])
          exact ⟨_, _, rfl, hw.lock, .crossing hcross htn hend hfinal⟩
        | some y =>
          have hlink : fs.ftbl.clusterTbl c = y := by rw [hnext, hy]; rfl
          have hyv : y < clustersCount := hw.chains.valid h y (List.mem_of_getElem? hy)
          have hsame : update fs.ftbl.clusterTbl c y = fs.ftbl.clusterTbl := by
            rw [← hlink, update_eq_self]
          have hw' := hw.follow hfull hpast hy dev
          obtain ⟨fs', rest, hloop, hlock, hrest⟩ := ih hw' hleft hfuel'
          rw [hdrop] at hloop
          rw [nextOf_link hw.valid hyv hlink]
          have hround : setCluster (advance (setDev fs dev) h t) c y
              = nextRound fs h t fs.ftbl.clusterTbl dev := by
            rw [nextRound, ← hsame]
            rfl
          rw [← hround] at hloop
          refine ⟨fs', rest, hloop, hlock, ?_⟩
          rw [← update_eq_self h chain, ← update_eq_self h stop] at hrest
          exact hrest.of_nextRound hw htpos hfull htn List.prefix_rfl hdev.symm
            (hw.crossesEnd_iff hfull htn hpast hy _ _)

end Tfs
