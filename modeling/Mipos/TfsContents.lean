/-
What the files of Tiny-FS contain.

The abstract view of the file system is a map from slots to byte strings
(`Files`), with the steps of `FileStep`: a write splices its bytes into the string
at the seek pointer, `create` adds an empty string, `delete` takes one away.
`contents` reads the string of a file off the device along its clusters.
* `Stores.bytes_eq` — where the bytes of a write are afterwards;
* `exec_fileStep` — every call of a run is a step of the map;
* `files_refine` — the refinement over whole runs, with what reading returns.
-/
import Mipos.TfsRuns

namespace Tfs

open LinkTable Function Relation

variable {δ : Type} {port : Port δ} {bytes : δ → ℕ → UInt8} {fs fs' : Fs δ}
  {chain chain' : ℕ → List ℕ} {l : List ℕ} {data : List UInt8} {h : ℕ}

/-! ### The device -/

/-- The bytes of the device that Tiny-FS uses: the table and the clusters. -/
def volumeSize : ℕ := tfsSize + storageAreaSize

/-- A device with the contents `bytes`: a read returns what was written last, and
changes nothing. -/
structure Port.Reliable (port : Port δ) (bytes : δ → ℕ → UInt8) : Prop where
  succeeds : port.Succeeds
  put : ∀ dev data addr a, addr + data.length ≤ volumeSize → a < volumeSize →
    bytes (port.put dev data addr) a =
      if addr ≤ a ∧ a < addr + data.length then data.getD (a - addr) 0 else bytes dev a
  get : ∀ dev n addr, addr + n ≤ volumeSize →
    (port.get dev n addr).2 = (List.range n).map fun i => bytes dev (addr + i)
  get_keeps : ∀ dev n addr, bytes (port.get dev n addr).1 = bytes dev

theorem Port.Reliable.reads (hr : port.Reliable bytes) {dev dev' : δ}
    (hreads : port.Reads dev dev') : bytes dev' = bytes dev := by
  induction hreads with
  | refl => rfl
  | tail _ hstep ih =>
    obtain ⟨n, addr, rfl⟩ := hstep
    rw [hr.get_keeps, ih]

/-! ### Addresses -/

theorem clusterAddr_eq {c o : ℕ} (hc : c < clustersCount) (ho : o < clusterSize) :
    clusterAddr c o = tfsSize + clusterSize * c + o := by
  simp only [clusterAddr, clustersCount, storageAreaSize, clusterSize, tfsSize, sizeofFtbl,
    tfsOffset] at *
  omega

/-- The clusters are in the volume. -/
theorem cluster_end_le {c o len : ℕ} (hc : c < clustersCount) (hlen : o + len ≤ clusterSize) :
    tfsSize + clusterSize * c + o + len ≤ volumeSize := by
  simp only [volumeSize, clustersCount, storageAreaSize, clusterSize] at *
  omega

/-- The address of a position in the chain `l`. -/
def posAddr (l : List ℕ) (i : ℕ) : ℕ := clusterAddr (l.getD (i / clusterSize) 0) (i % clusterSize)

theorem posAddr_eq {i c : ℕ} (hc : l[i / clusterSize]? = some c)
    (hvalid : ∀ x ∈ l, x < clustersCount) :
    posAddr l i = tfsSize + clusterSize * c + i % clusterSize := by
  have hget : l.getD (i / clusterSize) 0 = c := by simp [List.getD, hc]
  rw [posAddr, hget, clusterAddr_eq (hvalid c (List.mem_of_getElem? hc)) (mod_clusterSize i)]

/-- Within a chain of distinct clusters the bytes of a chunk are those of the
positions it is for. -/
theorem posAddr_in_chunk {q t i c : ℕ} (hnodup : l.Nodup)
    (hvalid : ∀ x ∈ l, x < clustersCount) (ht : t ≤ clusterSize - q % clusterSize)
    (hc : l[q / clusterSize]? = some c) (hi : i / clusterSize < l.length) :
    (posAddr l q ≤ posAddr l i ∧ posAddr l i < posAddr l q + t) ↔ (q ≤ i ∧ i < q + t) := by
  obtain ⟨x, hx⟩ : ∃ x, l[i / clusterSize]? = some x := ⟨_, List.getElem?_eq_getElem hi⟩
  rw [posAddr_eq hc hvalid, posAddr_eq hx hvalid]
  have hi32 := mod_clusterSize i
  have hq32 := mod_clusterSize q
  by_cases hsame : i / clusterSize = q / clusterSize
  · obtain rfl : x = c := by
      rw [hsame, hc] at hx
      exact (Option.some.inj hx).symm
    simp only [clusterSize] at *
    omega
  · -- another cluster: neither the address nor the position is in the chunk
    have hne : x ≠ c := by
      rintro rfl
      exact hsame ((List.getElem?_inj hi hnodup).mp (hx.trans hc.symm))
    simp only [clusterSize] at *
    omega

/-! ### Where a write goes -/

theorem Port.Reliable.put_chunk (hr : port.Reliable bytes) {q c : ℕ}
    (hvalid : ∀ x ∈ l, x < clustersCount)
    (ht : data.length ≤ clusterSize - q % clusterSize) (hc : l[q / clusterSize]? = some c)
    (dev : δ) {a : ℕ} (ha : a < volumeSize) :
    bytes (port.put dev data (clusterAddr c (q % clusterSize))) a =
      if posAddr l q ≤ a ∧ a < posAddr l q + data.length then data.getD (a - posAddr l q) 0
      else bytes dev a := by
  have hcv := hvalid c (List.mem_of_getElem? hc)
  have hq := mod_clusterSize q
  have haddr : clusterAddr c (q % clusterSize) = posAddr l q := by
    rw [posAddr_eq hc hvalid, clusterAddr_eq hcv hq]
  rw [haddr]
  refine hr.put dev data _ a ?_ ha
  rw [posAddr_eq hc hvalid]
  exact cluster_end_le hcv (by omega)

theorem posAddr_lt {i : ℕ} (hvalid : ∀ x ∈ l, x < clustersCount)
    (hi : i / clusterSize < l.length) : posAddr l i < volumeSize := by
  obtain ⟨x, hx⟩ : ∃ x, l[i / clusterSize]? = some x := ⟨_, List.getElem?_eq_getElem hi⟩
  have hxv := hvalid x (List.mem_of_getElem? hx)
  have hi32 : i % clusterSize + 1 ≤ clusterSize := mod_clusterSize i
  rw [posAddr_eq hx hvalid]
  exact cluster_end_le hxv hi32

/-- The positions of a chunk are next to each other on the device. -/
theorem posAddr_sub {q t i c : ℕ} (hvalid : ∀ x ∈ l, x < clustersCount)
    (ht : t ≤ clusterSize - q % clusterSize) (hc : l[q / clusterSize]? = some c)
    (hin : q ≤ i ∧ i < q + t) : posAddr l i = posAddr l q + (i - q) := by
  have hsame : i / clusterSize = q / clusterSize := by
    simp only [clusterSize] at *
    omega
  rw [posAddr_eq hc hvalid, posAddr_eq (hsame ▸ hc) hvalid]
  simp only [clusterSize] at *
  omega

theorem Port.Reliable.put_pos (hr : port.Reliable bytes) {q c : ℕ}
    (hnodup : l.Nodup) (hvalid : ∀ x ∈ l, x < clustersCount)
    (ht : data.length ≤ clusterSize - q % clusterSize) (hc : l[q / clusterSize]? = some c)
    (dev : δ) {i : ℕ} (hi : i / clusterSize < l.length) :
    bytes (port.put dev data (clusterAddr c (q % clusterSize))) (posAddr l i) =
      if q ≤ i ∧ i < q + data.length then data.getD (i - q) 0 else bytes dev (posAddr l i) := by
  rw [hr.put_chunk hvalid ht hc dev (posAddr_lt hvalid hi),
    if_congr (posAddr_in_chunk hnodup hvalid ht hc hi) rfl rfl]
  by_cases hin : q ≤ i ∧ i < q + data.length
  · rw [if_pos hin, if_pos hin, posAddr_sub hvalid ht hc hin, Nat.add_sub_cancel_left]
  · rw [if_neg hin, if_neg hin]

/-- After a write the positions it covers hold the data, and the others what
they held. -/
theorem Stores.bytes_eq (hr : port.Reliable bytes) {q : ℕ}
    {dev dev' : δ} (hs : Stores port l q data dev dev') (hnodup : l.Nodup)
    (hvalid : ∀ x ∈ l, x < clustersCount) {i : ℕ} (hi : i / clusterSize < l.length) :
    bytes dev' (posAddr l i) =
      if q ≤ i ∧ i < q + data.length then data.getD (i - q) 0 else bytes dev (posAddr l i) := by
  induction hs with
  | done q dev => rw [if_neg (by rw [List.length_nil]; omega)]
  | @chunk q c t data dev dev' hpos ht hc hrest ih =>
    have htake : (data.take t).length = t := by
      rw [List.length_take]
      omega
    rw [ih, hr.put_pos hnodup hvalid (by omega) hc dev hi, htake, List.length_drop]
    -- the position is in the rest, in this chunk, or in neither
    by_cases hrest : q + t ≤ i ∧ i < q + data.length
    · rw [if_pos (by omega), if_pos (by omega), List.getD_eq_getElem?_getD,
        List.getD_eq_getElem?_getD, List.getElem?_drop]
      congr 3
      omega
    · rw [if_neg (by omega)]
      by_cases hhere : q ≤ i ∧ i < q + t
      · rw [if_pos hhere, if_pos (by omega), List.getD_eq_getElem?_getD,
          List.getD_eq_getElem?_getD, List.getElem?_take_of_lt (by omega)]
      · rw [if_neg hhere, if_neg (by omega)]

/-- A write changes nothing outside the clusters of its chain. -/
theorem Stores.bytes_outside (hr : port.Reliable bytes) {q : ℕ}
    {dev dev' : δ} (hs : Stores port l q data dev dev') (hvalid : ∀ x ∈ l, x < clustersCount)
    {a : ℕ} (ha : a < volumeSize) (hout : ∀ c ∈ l, ∀ o < clusterSize, a ≠ clusterAddr c o) :
    bytes dev' a = bytes dev a := by
  induction hs with
  | done q dev => rfl
  | @chunk q c t data dev dev' hpos ht hc hrest ih =>
    have htake : (data.take t).length = t := by
      rw [List.length_take]
      omega
    have hmem := List.mem_of_getElem? hc
    rw [ih, hr.put_chunk hvalid (by omega) hc dev ha, if_neg ?_]
    rintro ⟨hlow, hhigh⟩
    rw [posAddr_eq hc hvalid, htake] at *
    -- the address would be that of a byte of the cluster
    have hq := mod_clusterSize q
    have ho : a - (tfsSize + clusterSize * c) < clusterSize := by omega
    refine hout c hmem _ ho ?_
    rw [clusterAddr_eq (hvalid c hmem) ho]
    omega

/-! ### The byte string of a file -/

/-- The cluster at position `k` of a file. -/
def Ftbl.clusterAt (t : Ftbl) (h k : ℕ) : ℕ := t.clusterTbl^[k] (t.fileFsDesc h).firstCluster

/-- The byte string of a file. -/
def contents (bytes : δ → ℕ → UInt8) (fs : Fs δ) (h : ℕ) : List UInt8 :=
  (List.range (fs.ftbl.fileFsDesc h).size).map fun i =>
    bytes fs.dev (clusterAddr (fs.ftbl.clusterAt h (i / clusterSize)) (i % clusterSize))

@[simp]
theorem length_contents (fs : Fs δ) (h : ℕ) :
    (contents bytes fs h).length = (fs.ftbl.fileFsDesc h).size := by
  simp [contents]

/-- A position inside the file is in one of its clusters. -/
theorem TableInv.pos_lt {t : Ftbl} (ht : TableInv t chain) {h i : ℕ} (hlive : t.Live h)
    (hi : i < (t.fileFsDesc h).size) : i / clusterSize < (chain h).length := by
  rw [ht.length h hlive]
  simp only [clustersFor, clusterSize] at *
  omega

/-- The clusters of a file hold its bytes. -/
theorem TableInv.size_le_chain {t : Ftbl} (ht : TableInv t chain) (hlive : t.Live h) :
    (t.fileFsDesc h).size ≤ clusterSize * (chain h).length := by
  rw [ht.length h hlive]
  simp only [clustersFor, clusterSize]
  omega

theorem TableInv.clusterAt_eq (ht : TableInv fs.ftbl chain) {h k : ℕ} (hlive : fs.ftbl.Live h)
    (hk : k < (chain h).length) : fs.ftbl.clusterAt h k = (chain h).getD k 0 := by
  have hget := List.getElem?_eq_getElem hk
  rw [Ftbl.clusterAt, (ht.seg_file hlive).iterate hget, List.getD_eq_getElem?_getD, hget]
  rfl

theorem contents_eq (ht : TableInv fs.ftbl chain) (hlive : fs.ftbl.Live h) :
    contents bytes fs h = (List.range (fs.ftbl.fileFsDesc h).size).map fun i =>
      bytes fs.dev (posAddr (chain h) i) := by
  refine List.map_congr_left fun i hi => ?_
  rw [ht.clusterAt_eq hlive (ht.pos_lt hlive (List.mem_range.mp hi)), posAddr]

/-- A file keeps its string as long as its size, its clusters and their bytes
stay the same. -/
theorem contents_congr (ht : TableInv fs.ftbl chain) (ht' : TableInv fs'.ftbl chain')
    (hlive : fs.ftbl.Live h) (hlive' : fs'.ftbl.Live h)
    (hsize : (fs'.ftbl.fileFsDesc h).size = (fs.ftbl.fileFsDesc h).size)
    (hchain : chain' h = chain h)
    (hbytes : ∀ i, i < (fs.ftbl.fileFsDesc h).size →
      bytes fs'.dev (posAddr (chain h) i) = bytes fs.dev (posAddr (chain h) i)) :
    contents bytes fs' h = contents bytes fs h := by
  rw [contents_eq ht hlive, contents_eq ht' hlive', hsize, hchain]
  exact List.map_congr_left fun i hi => hbytes i (List.mem_range.mp hi)

/-- The string `s` with `data` in place of what is at `p` and after it. -/
def splice (s : List UInt8) (p : ℕ) (data : List UInt8) : List UInt8 :=
  s.take p ++ data ++ s.drop (p + data.length)

/-- What was spliced into a string is there. -/
theorem drop_take_splice {s : List UInt8} {p : ℕ} (hp : p ≤ s.length) (data : List UInt8) :
    ((splice s p data).drop p).take data.length = data := by
  have hlen : (s.take p).length = p := by
    rw [List.length_take]
    omega
  rw [splice, List.append_assoc, List.drop_left' hlen, List.take_left]

theorem map_range_splice {f g : ℕ → UInt8} {n q : ℕ} (hq : q ≤ n)
    (hf : ∀ i, i < max n (q + data.length) →
      f i = if q ≤ i ∧ i < q + data.length then data.getD (i - q) 0 else g i) :
    (List.range (max n (q + data.length))).map f = splice ((List.range n).map g) q data := by
  refine List.ext_getElem? fun i => ?_
  rw [splice, List.append_assoc]
  by_cases hlow : i < q
  · rw [List.getElem?_append_left (by simp; omega), List.getElem?_take_of_lt hlow]
    simp [hf i (by omega), show i < n by omega,
      show i < max n (q + data.length) by omega, show ¬q ≤ i by omega]
  · rw [List.getElem?_append_right (by simp; omega)]
    have hlen : ((List.map g (List.range n)).take q).length = q := by simp [hq]
    rw [hlen]
    by_cases hmid : i < q + data.length
    · rw [List.getElem?_append_left (by omega)]
      simp [hf i (by omega), show i < max n (q + data.length) by omega,
        show q ≤ i by omega, hmid, List.getD_eq_getElem?_getD,
        List.getElem?_eq_getElem (show i - q < data.length by omega)]
    · rw [List.getElem?_append_right (by omega), List.getElem?_drop]
      have hpos : q + data.length + (i - q - data.length) = i := by omega
      rw [hpos]
      by_cases hn : i < n
      · simp [hf i (by omega), show i < max n (q + data.length) by omega,
          hmid, hn]
      · -- both sides end before `i`
        simp [hn]
        omega

/-! ### The map of byte strings -/

/-- The abstract file system: the byte strings of the slots in use. -/
abbrev Files : Type := ℕ → Option (List UInt8)

/-- What the calls do to the byte strings, with the seek pointers `seek`. -/
inductive FileStep (seek : ℕ → ℕ) : Call → Bool → Files → Files → Prop
  | mkfs (label : Option (List UInt8)) (F : Files) :
      FileStep seek (.mkfs label) true F fun _ => none
  | create {name : List UInt8} {F : Files} {i : ℕ} (hlt : i < maxNOfFiles) (hi : F i = none) :
      FileStep seek (.createFile name) true F (update F i (some []))
  | delete {name : Option (List UInt8)} {F : Files} {i : ℕ} {s : List UInt8} (hi : F i = some s) :
      FileStep seek (.deleteFile name) true F (update F i none)
  | write {data : List UInt8} {h : ℕ} {F : Files} {s : List UInt8} (hs : F h = some s)
      (hseek : seek h ≤ s.length) :
      FileStep seek (.writeFile data h) true F
        (update F h (some (splice s (seek h) data)))
  | look {call : Call} {ok : Bool} (F : Files) (hcall : call.Looks) : FileStep seek call ok F F
  | fail {call : Call} (F : Files) : FileStep seek call false F F

/-- The byte strings of the files. -/
def files (bytes : δ → ℕ → UInt8) (fs : Fs δ) : Files := fun h =>
  if fs.ftbl.Live h then some (contents bytes fs h) else none

theorem files_live (hlive : fs.ftbl.Live h) :
    files bytes fs h = some (contents bytes fs h) := if_pos hlive

theorem files_dead (hdead : ¬fs.ftbl.Live h) : files bytes fs h = none := if_neg hdead

theorem files_congr (hftbl : fs'.ftbl = fs.ftbl) (hbytes : bytes fs'.dev = bytes fs.dev) :
    files bytes fs' = files bytes fs := by
  funext h
  simp only [files, contents, hftbl, hbytes]

/-- One slot gets a new string; the others keep theirs. -/
theorem files_update (ht : TableInv fs.ftbl chain) (ht' : TableInv fs'.ftbl chain') (i : ℕ)
    (hlive : ∀ k, k ≠ i → (fs'.ftbl.Live k ↔ fs.ftbl.Live k))
    (hsize : ∀ k, k ≠ i → (fs'.ftbl.fileFsDesc k).size = (fs.ftbl.fileFsDesc k).size)
    (hchain : ∀ k, k ≠ i → chain' k = chain k)
    (hbytes : ∀ k, k ≠ i → ∀ p, p / clusterSize < (chain k).length →
      bytes fs'.dev (posAddr (chain k) p) = bytes fs.dev (posAddr (chain k) p)) :
    files bytes fs' = update (files bytes fs) i (files bytes fs' i) := by
  funext k
  rcases eq_or_ne k i with rfl | hk
  · rw [update_self]
  · rw [update_of_ne hk]
    by_cases hl : fs.ftbl.Live k
    · have hl' := (hlive k hk).mpr hl
      rw [files_live hl, files_live hl', contents_congr ht ht' hl hl' (hsize k hk) (hchain k hk)
        fun p hp => hbytes k hk p (ht.pos_lt hl hp)]
    · rw [files_dead hl, files_dead fun hl' => hl ((hlive k hk).mp hl')]

/-! ### The stored table and the files -/

theorem length_fd_bytes (fd : Fd) : fd.bytes.length = 16 := by
  simp [Fd.bytes, chars, le32, le16, maxFilenameLength]

theorem length_ftbl_bytes (t : Ftbl) : t.bytes.length = sizeofFtbl := by
  simp [Ftbl.bytes, chars, length_fd_bytes, le16, List.length_flatMap, maxVolumeLength,
    maxNOfFiles, clustersCount, storageAreaSize, clusterSize, sizeofFtbl]

theorem tfsSize_le_posAddr {i : ℕ} (hvalid : ∀ x ∈ l, x < clustersCount)
    (hi : i / clusterSize < l.length) : tfsSize ≤ posAddr l i := by
  rw [posAddr_eq (List.getElem?_eq_getElem hi) hvalid]
  omega

/-- The table is stored in front of the clusters. -/
theorem table_fits (t : Ftbl) : tfsOffset + t.bytes.length ≤ tfsSize := by
  rw [length_ftbl_bytes]
  decide

theorem table_fits_volume (t : Ftbl) : tfsOffset + t.bytes.length ≤ volumeSize :=
  (table_fits t).trans (by decide)

/-- Storing the table does not touch the clusters. -/
theorem Port.Reliable.flush (hr : port.Reliable bytes) (fs : Fs δ) {a : ℕ} (hlow : tfsSize ≤ a)
    (ha : a < volumeSize) : bytes (flush port fs).dev a = bytes fs.dev a := by
  have hfits := table_fits fs.ftbl
  show bytes (port.put fs.dev fs.ftbl.bytes tfsOffset) a = _
  rw [hr.put _ _ _ _ (table_fits_volume fs.ftbl) ha, if_neg (by omega)]

/-! ### The calls of a run -/

theorem WriteOk.size_eq
    (hw : WriteOk port fs fs' h chain data l) :
    (fs'.ftbl.fileFsDesc h).size
      = max (fs.ftbl.fileFsDesc h).size ((fs.fileCtl h).seekPointer + data.length) := by
  rw [hw.state]
  simp [writtenState, wrote, setTable]

theorem WriteOk.live_iff
    (hw : WriteOk port fs fs' h chain data l) (k : ℕ) : fs'.ftbl.Live k ↔ fs.ftbl.Live k := by
  rw [hw.state]
  exact live_writtenState k

/-- A write splices its data into the string of the file. -/
theorem WriteOk.contents_eq (hr : port.Reliable bytes) (hi : FsInv fs chain)
    (hw : WriteOk port fs fs' h chain data l) :
    contents bytes fs' h
      = splice (contents bytes fs h) (fs.fileCtl h).seekPointer data := by
  have hlive' := (hw.live_iff h).mpr hw.live
  have ht' := hw.inv.table
  have hl : update chain h l h = l := update_self ..
  have hnodup : l.Nodup := hl ▸ ht'.chains.nodup h
  have hvalid : ∀ x ∈ l, x < clustersCount := hl ▸ ht'.chains.valid h
  rw [Tfs.contents_eq hi.table hw.live, Tfs.contents_eq ht' hlive', hl, hw.size_eq]
  refine map_range_splice hw.seek_le fun i hlt => ?_
  have hpos : i / clusterSize < l.length := by
    have := ht'.pos_lt hlive' (hw.size_eq ▸ hlt)
    rwa [hl] at this
  rw [hw.stores.bytes_eq hr hnodup hvalid hpos]
  by_cases hin : (fs.fileCtl h).seekPointer ≤ i ∧ i < (fs.fileCtl h).seekPointer + data.length
  · rw [if_pos hin, if_pos hin]
  · -- an old position keeps its cluster, since the chain has only grown
    rw [if_neg hin, if_neg hin]
    have hold : i < (fs.ftbl.fileFsDesc h).size := by
      have := hw.seek_le
      omega
    have hget := List.prefix_iff_getElem?.mp hw.grows _ (hi.table.pos_lt hw.live hold)
    have hgetD : l.getD (i / clusterSize) 0 = (chain h).getD (i / clusterSize) 0 := by
      rw [List.getD_eq_getElem?_getD, List.getD_eq_getElem?_getD, hget,
        List.getElem?_eq_getElem (hi.table.pos_lt hw.live hold)]
    rw [posAddr, posAddr, hgetD]

/-- A write leaves the strings of the other files alone. -/
theorem WriteOk.files_eq (hr : port.Reliable bytes) (hi : FsInv fs chain)
    (hw : WriteOk port fs fs' h chain data l) :
    files bytes fs' = update (files bytes fs) h
      (some (splice (contents bytes fs h) (fs.fileCtl h).seekPointer data)) := by
  have ht' := hw.inv.table
  have hl : update chain h l h = l := update_self ..
  have hvalid : ∀ x ∈ l, x < clustersCount := hl ▸ ht'.chains.valid h
  rw [files_update hi.table ht' h, files_live ((hw.live_iff h).mpr hw.live),
    hw.contents_eq hr hi]
  · exact fun k _ => hw.live_iff k
  · intro k hk
    rw [hw.state]
    simp [writtenState, wrote, setTable, hk]
  · exact fun k hk => update_of_ne hk ..
  · intro k hk p hp
    have hvk := hi.table.chains.valid k
    have hmem : (chain k).getD (p / clusterSize) 0 ∈ chain k := by
      rw [List.getD_eq_getElem?_getD, List.getElem?_eq_getElem hp]
      exact List.getElem_mem hp
    refine hw.stores.bytes_outside hr hvalid (posAddr_lt hvk hp) fun c hc o ho heq => ?_
    -- the cluster of the position would be on both chains
    have hsame : (chain k).getD (p / clusterSize) 0 = c := by
      rw [posAddr, clusterAddr_eq (hvk _ hmem) (mod_clusterSize p),
        clusterAddr_eq (hvalid c hc) ho] at heq
      have := mod_clusterSize p
      simp only [clusterSize] at *
      omega
    have hdisj := ht'.chains.disjoint k h hk
    rw [update_of_ne hk, hl] at hdisj
    exact hdisj hmem (hsame ▸ hc)

/-- Every effect is a step of the map of byte strings. -/
theorem Effect.fileStep (hr : port.Reliable bytes) (hi : FsInv fs chain) {call : Call} {ok : Bool}
    (he : Effect port fs chain call ok fs' chain') :
    FileStep (fun h => (fs.fileCtl h).seekPointer) call ok (files bytes fs) (files bytes fs') := by
  have ht' := (he.inv hi).table
  -- flushing the table, the clusters of the files keep their bytes
  have hflush : ∀ (fs₁ : Fs δ), bytes fs₁.dev = bytes fs.dev → ∀ k p,
      p / clusterSize < (chain k).length →
      bytes (flush port fs₁).dev (posAddr (chain k) p) = bytes fs.dev (posAddr (chain k) p) := by
    intro fs₁ hdev k p hp
    have hvalid := hi.table.chains.valid k
    rw [hr.flush fs₁ (tfsSize_le_posAddr hvalid hp) (posAddr_lt hvalid hp), hdev]
  cases he with
  | format label =>
    have hnone : files bytes (flush port (formatted port fs label)) = fun _ => none := by
      funext h
      refine files_dead fun hlive => ?_
      have herased := hlive.2
      simp [formatted, resetTable, hlive.1] at herased
    rw [hnone]
    exact .mkfs label _
  | touch ht hcall =>
    rw [files_congr ht.ftbl_eq (hr.reads ht.reads)]
    rcases hcall with rfl | hlooks
    · exact .fail _
    · exact .look _ hlooks
  | opens hlive =>
    rw [show files bytes _ = files bytes fs from files_congr rfl rfl]
    exact .look _ trivial
  | close h =>
    rw [show files bytes _ = files bytes fs from files_congr rfl rfl]
    exact .look _ trivial
  | @create name i e hlt herased =>
    have hdead : ¬fs.ftbl.Live i := fun hlive => herased hlive.2
    have hlive : ∀ k, (created (setError fs e) i name).ftbl.Live k ↔ k = i ∨ fs.ftbl.Live k :=
      live_created hlt name
    have hnew : files bytes (flush port (created (setError fs e) i name)) i = some [] := by
      have hl : (flush port (created (setError fs e) i name)).ftbl.Live i :=
        (hlive i).mpr (.inl rfl)
      rw [files_live hl]
      simp [contents, created]
    rw [files_update hi.table ht' i (fun k hk => (hlive k).trans (by simp [hk]))
      (fun k hk => by simp [created, hk]) (fun _ _ => rfl)
      (fun k _ => hflush (created (setError fs e) i name) rfl k), hnew]
    exact .create hlt (files_dead hdead)
  | @remove name i e hlive hclosed =>
    have hlive' : ∀ k, (removed (setError fs e) i (chain i)).ftbl.Live k ↔ k ≠ i ∧ fs.ftbl.Live k :=
      live_removed
    have hgone : files bytes (flush port (removed (setError fs e) i (chain i))) i = none :=
      files_dead fun h => ((hlive' i).mp h).1 rfl
    rw [files_update hi.table ht' i (fun k hk => (hlive' k).trans (by simp [hk]))
      (fun k hk => by simp [removed, setTable, erased, hk])
      (fun k hk => update_of_ne hk ..)
      (fun k _ => hflush (removed (setError fs e) i (chain i)) rfl k), hgone]
    exact .delete (files_live hlive)
  | write hw =>
    rw [hw.files_eq hr hi]
    exact .write (files_live hw.live) (by simpa using hw.seek_le)

/-- **The calls of a run are steps of the map of byte strings.** -/
theorem exec_fileStep (hr : port.Reliable bytes) (hi : FsInv fs chain) {call : Call} {ok : Bool}
    (hexec : call.exec port fs = some (fs', ok)) (hallowed : call.Allowed fs ok) :
    FileStep (fun h => (fs.fileCtl h).seekPointer) call ok (files bytes fs) (files bytes fs') := by
  obtain ⟨chain', he⟩ := exec_effect hr.succeeds hi hexec hallowed
  exact he.fileStep hr hi

/-! ### Reading -/

/-- **The loop of `mipos_tfs_read_file`** delivers the bytes at the seek pointer, as many as it
is asked for or as the clusters of the file hold. -/
theorem readLoop_spec (hr : port.Reliable bytes) {h total fuel c off got n m : ℕ}
    (hl : fs.lock = false) (ht : TableInv fs.ftbl chain) (hlive : fs.ftbl.Live h) (hpos : 0 < n)
    (hhere : (chain h)[(fs.fileCtl h).seekPointer / clusterSize]? = some c)
    (hoff : off % clusterSize = (fs.fileCtl h).seekPointer % clusterSize)
    (hm : m = min n (clusterSize * (chain h).length - (fs.fileCtl h).seekPointer))
    (htotal : got + n = total) (hfuel : n < fuel) :
    ∃ fs', readLoop port h total fuel fs c off got n = some (fs', decide (m = n), got + m,
        (List.range m).map fun i =>
          bytes fs.dev (posAddr (chain h) ((fs.fileCtl h).seekPointer + i))) ∧
      (fs'.fileCtl h).seekPointer = (fs.fileCtl h).seekPointer + m := by
  -- the induction is on the fuel, which exceeds the bytes left
  induction fuel generalizing fs c off got n m with
  | zero => omega
  | succ fuel ih =>
    have hvalid := ht.chains.valid h
    obtain ⟨q, hq⟩ : ∃ q, q = (fs.fileCtl h).seekPointer := ⟨_, rfl⟩
    obtain ⟨t, hteq⟩ : ∃ t, t = min n (clusterSize - off % clusterSize) := ⟨_, rfl⟩
    have hmod := mod_clusterSize off
    have htpos : 0 < t := by omega
    rw [readLoop_succ hr.succeeds hl h total fuel c off got hteq htpos]
    rw [hoff] at hteq ⊢
    rw [← hq] at hhere hm hteq ⊢
    have hcv := hvalid c (List.mem_of_getElem? hhere)
    have hq32 := mod_clusterSize q
    have haddr : clusterAddr c (q % clusterSize) = posAddr (chain h) q := by
      rw [posAddr_eq hhere hvalid, clusterAddr_eq hcv hq32]
    -- the bytes of this round
    have hdata : (port.get fs.dev t (clusterAddr c (q % clusterSize))).2
        = (List.range t).map fun i => bytes fs.dev (posAddr (chain h) (q + i)) := by
      rw [haddr, hr.get]
      · refine List.map_congr_left fun i hi => ?_
        have hit := List.mem_range.mp hi
        have hle : t ≤ clusterSize - q % clusterSize := by omega
        rw [posAddr_sub hvalid hle hhere ⟨Nat.le_add_right q i, by omega⟩,
          Nat.add_sub_cancel_left]
      · rw [posAddr_eq hhere hvalid]
        exact cluster_end_le hcv (by omega)
    have hkeep := hr.get_keeps fs.dev t (clusterAddr c (q % clusterSize))
    generalize port.get fs.dev t (clusterAddr c (q % clusterSize)) = io at hdata hkeep ⊢
    dsimp only
    -- the round ends inside the clusters of the file
    obtain ⟨hcluster, -⟩ := List.getElem?_eq_some_iff.mp hhere
    have hroom : q + t ≤ clusterSize * (chain h).length := by
      simp only [clusterSize] at hcluster hteq ⊢
      omega
    have htn : t ≤ n := hteq ▸ Nat.min_le_left ..
    have htm : t ≤ m := by
      rw [hm]
      exact Nat.le_min.mpr ⟨htn, Nat.le_sub_of_add_le' hroom⟩
    have hseek : ((advance (setDev fs io.1) h t).fileCtl h).seekPointer = q + t := by
      have hlen := ht.length_le h
      have hnowrap : (fs.fileCtl h).seekPointer + t < 2 ^ 32 := by
        simp only [clusterSize, clustersCount, storageAreaSize] at hroom hlen
        omega
      rw [hq]
      exact advance_seekPointer hnowrap
    by_cases hdone : got + t ≥ total
    · obtain rfl : t = n := by omega
      obtain rfl : m = t := by omega
      rw [if_pos hdone, hdata, decide_eq_true rfl]
      exact ⟨_, rfl, hseek⟩
    · rw [if_neg hdone]
      have hfull : t = clusterSize - q % clusterSize := by omega
      have hup := round_up hfull
      have hnextpos : (q + t) / clusterSize = q / clusterSize + 1 := by
        rw [hup, Nat.mul_div_cancel_left _ (by decide)]
      have hlink := (ht.seg_file hlive).next hhere
      rw [← hnextpos] at hlink
      cases hy : (chain h)[(q + t) / clusterSize]? with
      | none =>
        -- the file has no further cluster
        rw [hy, Option.getD_none] at hlink
        have hend : clusterSize * (chain h).length = q + t := by
          have hle := List.getElem?_eq_none_iff.mp hy
          simp only [clusterSize] at hle hup hroom ⊢
          omega
        have hlast : ¬fs.ftbl.clusterTbl c < clustersCount := hlink ▸ not_stopMark_lt (chain h)
        have hnext : nextOf (advance (setDev fs io.1) h t).ftbl.clusterTbl c = none :=
          nextOf_end hlast
        obtain rfl : m = t := by omega
        rw [hnext, hdata, decide_eq_false (by omega)]
        exact ⟨_, rfl, hseek⟩
      | some y =>
        rw [hy, Option.getD_some] at hlink
        have hnext : nextOf (advance (setDev fs io.1) h t).ftbl.clusterTbl c = some y :=
          nextOf_link hcv (hvalid y (List.mem_of_getElem? hy)) hlink
        have hl' : (advance (setDev fs io.1) h t).lock = false := hl
        have hoff' : 0 % clusterSize
            = ((advance (setDev fs io.1) h t).fileCtl h).seekPointer % clusterSize := by
          rw [hseek, hup, Nat.mul_mod_right, Nat.zero_mod]
        have hm' : m - t = min (n - t) (clusterSize * (chain h).length
            - ((advance (setDev fs io.1) h t).fileCtl h).seekPointer) := by
          rw [hseek, hm, Nat.sub_add_eq, Nat.sub_min_sub_right]
        obtain ⟨fs', hrun, hseek'⟩ := ih hl' ht hlive (by omega : 0 < n - t) (by rw [hseek, hy])
          hoff' hm' (by omega : got + t + (n - t) = total) (by omega)
        rw [hseek] at hrun hseek'
        have hleft : total - (got + t) = n - t := by omega
        have hall : decide (m - t = n - t) = decide (m = n) := by
          rw [decide_eq_decide, Nat.sub_eq_iff_eq_add htm, Nat.sub_add_cancel htn]
        have hsplit : t + (m - t) = m := Nat.add_sub_of_le htm
        rw [hnext]
        dsimp only
        rw [hleft, hrun, Option.map_some, hdata, hall, Nat.add_assoc, hsplit]
        refine ⟨fs', ?_, by rw [hseek', Nat.add_assoc, hsplit]⟩
        conv_rhs => rw [← hsplit, List.range_add, List.map_append, List.map_map, hsplit]
        simp only [advance_dev, setDev_dev, hkeep, Nat.add_assoc]
        rfl

/-- The bytes that a request of `n` bytes at `q` gets. -/
theorem map_range_drop_take (f : ℕ → UInt8) (size q n : ℕ) :
    (List.range (min n (size - q))).map (fun i => f (q + i))
      = (((List.range size).map f).drop q).take n := by
  refine List.ext_getElem? fun i => ?_
  by_cases hi : i < min n (size - q)
  · simp [hi]
  · rw [List.getElem?_eq_none (by simp; omega), List.getElem?_eq_none (by simp; omega)]

theorem unlockFile_seekPointer (fs : Fs δ) (h k : ℕ) :
    ((unlockFile fs h).1.fileCtl k).seekPointer = (fs.fileCtl k).seekPointer := by
  rw [unlockFile]
  split
  · rfl
  · split
    · rcases eq_or_ne k h with rfl | hne
      · simp
      · simp [hne]
    · rfl

/-- The bytes that `mipos_tfs_read_file` sets out to read, `bytes_to_read`. -/
def toRead (fs : Fs δ) (h n : ℕ) : ℕ :=
  if (n + (fs.fileCtl h).seekPointer) % 2 ^ 32 > (fs.ftbl.fileFsDesc h).size then
    (fs.ftbl.fileFsDesc h).size - (fs.fileCtl h).seekPointer
  else n

/-- **`mipos_tfs_read_file`** on an open file whose seek pointer is inside it. -/
theorem readFile_chain (hr : port.Reliable bytes) (hl : fs.lock = false)
    (ht : TableInv fs.ftbl chain) {h n m : ℕ} (hlive : fs.ftbl.Live h)
    (hfree : (fs.fileCtl h).locked = false) (hopen : (fs.fileCtl h).isOpen = true)
    (hin : (fs.fileCtl h).seekPointer < (fs.ftbl.fileFsDesc h).size)
    (hm : m = min (toRead fs h n) (clusterSize * (chain h).length - (fs.fileCtl h).seekPointer)) :
    ∃ fs', readFile port fs n h = some (fs', decide (0 < m ∧ m = toRead fs h n), m,
        (List.range m).map fun i =>
          bytes fs.dev (posAddr (chain h) ((fs.fileCtl h).seekPointer + i))) ∧
      (fs'.fileCtl h).seekPointer = (fs.fileCtl h).seekPointer + m := by
  have hclusters := seek_clusters ht hlive (Nat.le_of_lt hin)
  obtain ⟨c, hc⟩ : ∃ c, (chain h)[(fs.fileCtl h).seekPointer / clusterSize]? = some c :=
    ⟨_, List.getElem?_eq_getElem (ht.pos_lt hlive hin)⟩
  have hl₁ : (holding fs h).lock = false := hl
  rw [readFile, lockFile_holding hlive.1 hfree]
  dsimp only
  rw [getFdCtl_eq hl₁]
  dsimp only [Option.bind_eq_bind, Option.bind_some]
  have hwalk : getClusterSeekPt (holding fs h) ((holding fs h).ftbl.fileFsDesc h)
      ((holding fs h).fileCtl h) = some (holding fs h, true, c) := by
    rw [getClusterSeekPt, holding_fileCtl, holding_ftbl, hclusters]
    exact clusterWalk_seg hl₁ (ht.seg_file hlive) (ht.chains.valid h) hc
  rw [if_neg (by simp [hopen, hin]), hwalk]
  dsimp only [Option.bind_some]
  rw [if_neg (by decide), noteEof_eq hl₁]
  dsimp only [Option.bind_some]
  -- what is left to read, cut at the end of the file
  have hcut : (if (n + ((holding fs h).fileCtl h).seekPointer) % 2 ^ 32
      > ((holding fs h).ftbl.fileFsDesc h).size then
      ((holding fs h).ftbl.fileFsDesc h).size - ((holding fs h).fileCtl h).seekPointer else n)
      = toRead fs h n := by
    rw [holding_fileCtl, holding_ftbl, toRead]
  simp only [hcut]
  generalize hfs₂ : setCtl (holding fs h) h _ = fs₂
  have hl₂ : fs₂.lock = false := hfs₂ ▸ hl₁
  have hftbl₂ : fs₂.ftbl = fs.ftbl := hfs₂ ▸ rfl
  have hseek₂ : (fs₂.fileCtl h).seekPointer = (fs.fileCtl h).seekPointer := by simp [← hfs₂]
  have hdev₂ : fs₂.dev = fs.dev := hfs₂ ▸ rfl
  rw [holding_fileCtl]
  rcases Nat.eq_zero_or_pos (toRead fs h n) with hzero | hpos
  · -- nothing is to be read, which the loop takes for an error
    obtain rfl : m = 0 := by omega
    rw [hzero, readLoop_zero hl₂]
    refine ⟨(unlockFile (setError fs₂ .readNotCompleted) h).1, rfl, ?_⟩
    rw [unlockFile_seekPointer]
    exact hseek₂
  · have hoff₂ : (fs.fileCtl h).seekPointer % clusterSize % clusterSize
        = (fs₂.fileCtl h).seekPointer % clusterSize := by
      rw [hseek₂, Nat.mod_mod]
    obtain ⟨fs₃, hloop, hseek₃⟩ := readLoop_spec hr hl₂ (hftbl₂ ▸ ht) (hftbl₂ ▸ hlive) hpos
      (by rw [hseek₂, hc]) hoff₂ (hseek₂ ▸ hm) (Nat.zero_add _) (Nat.lt_succ_self _)
    have hroom := ht.pos_lt hlive hin
    have hmpos : 0 < m := by
      simp only [clusterSize] at hm hroom
      omega
    rw [hloop]
    refine ⟨(unlockFile fs₃ h).1, ?_, ?_⟩
    · simp only [Option.bind_some, hseek₂, hdev₂, Nat.zero_add, hmpos, true_and]
      rfl
    · rw [unlockFile_seekPointer, hseek₃, hseek₂]

/-- A request that stays below `2 ^ 32` gets what the file has. -/
theorem readFile_spec (hr : port.Reliable bytes) (hi : FsInv fs chain) {h n : ℕ}
    (hh : h < maxNOfFiles) (hopen : (fs.fileCtl h).isOpen = true) (hpos : 0 < n)
    (hin : (fs.fileCtl h).seekPointer < (fs.ftbl.fileFsDesc h).size)
    (hnowrap : (fs.fileCtl h).seekPointer + n < 2 ^ 32) :
    ∃ fs', readFile port fs n h = some (fs', true,
        min n ((fs.ftbl.fileFsDesc h).size - (fs.fileCtl h).seekPointer),
        ((contents bytes fs h).drop (fs.fileCtl h).seekPointer).take n) ∧
      (fs'.fileCtl h).seekPointer = (fs.fileCtl h).seekPointer
        + min n ((fs.ftbl.fileFsDesc h).size - (fs.fileCtl h).seekPointer) := by
  have hlive := hi.opened h hh hopen
  have hcut : toRead fs h n = min n ((fs.ftbl.fileFsDesc h).size - (fs.fileCtl h).seekPointer) := by
    rw [toRead, Nat.mod_eq_of_lt (by omega)]
    split <;> omega
  have hm : toRead fs h n = min (toRead fs h n)
      (clusterSize * (chain h).length - (fs.fileCtl h).seekPointer) := by
    have hroom := hi.table.size_le_chain hlive
    omega
  obtain ⟨fs', hread, hseek⟩ := readFile_chain hr hi.lock hi.table hlive (hi.unlocked h hlive)
    hopen hin hm
  have hsome : 0 < toRead fs h n := by omega
  rw [decide_eq_true ⟨hsome, rfl⟩] at hread
  rw [hcut] at hread hseek
  refine ⟨fs', ?_, hseek⟩
  rw [hread, contents_eq hi.table hlive, ← map_range_drop_take]

/-! ### Whole runs -/

/-- **Tiny-FS refines a map from files to byte strings.**  In every state of every
run each file has a string of the length of its size; each call of the run is a
step of the map, so that a write replaces the bytes at its seek pointer and
leaves every other file alone; and a read of an open file delivers the bytes at
its seek pointer up to the end of the string. -/
theorem files_refine (hr : port.Reliable bytes) {fs₀ fs₁ : Fs δ} {label : Option (List UInt8)}
    {ok : Bool} (hmkfs : mkfs port fs₀ label = some (fs₁, ok))
    (hrun : ReflTransGen (Step port) fs₁ fs) :
    (∀ h, fs.ftbl.Live h ↔ ∃ s, files bytes fs h = some s ∧
      s.length = (fs.ftbl.fileFsDesc h).size) ∧
    (∀ (call : Call) (ok : Bool) (fs' : Fs δ), call.exec port fs = some (fs', ok) →
      call.Allowed fs ok →
      FileStep (fun h => (fs.fileCtl h).seekPointer) call ok (files bytes fs) (files bytes fs')) ∧
    (∀ h n s, h < maxNOfFiles → (fs.fileCtl h).isOpen = true → files bytes fs h = some s →
      1 ≤ n → (fs.fileCtl h).seekPointer < s.length → (fs.fileCtl h).seekPointer + n < 2 ^ 32 →
      ∃ fs', readFile port fs n h = some (fs', true,
          ((s.drop (fs.fileCtl h).seekPointer).take n).length,
          (s.drop (fs.fileCtl h).seekPointer).take n) ∧
        (fs'.fileCtl h).seekPointer = (fs.fileCtl h).seekPointer
          + ((s.drop (fs.fileCtl h).seekPointer).take n).length) := by
  obtain ⟨chain, hi⟩ := run_inv hr.succeeds hmkfs hrun
  refine ⟨fun h => ⟨fun hlive => ?_, ?_⟩, fun call ok fs' hexec hallowed => ?_, ?_⟩
  · exact ⟨_, files_live hlive, length_contents fs h⟩
  · rintro ⟨s, hs, -⟩
    by_contra hdead
    rw [files_dead hdead] at hs
    cases hs
  · exact exec_fileStep hr hi hexec hallowed
  · intro h n s hh hopen hs hpos hin hnowrap
    have hlive := hi.opened h hh hopen
    obtain rfl : contents bytes fs h = s := Option.some.inj ((files_live hlive).symm.trans hs)
    have hlen : (((contents bytes fs h).drop (fs.fileCtl h).seekPointer).take n).length
        = min n ((fs.ftbl.fileFsDesc h).size - (fs.fileCtl h).seekPointer) := by simp
    rw [hlen]
    exact readFile_spec hr hi hh hopen hpos (by simpa using hin) hnowrap

/-- A device that keeps its bytes in memory. -/
def memPort : Port (ℕ → UInt8) where
  ioWrite := some fun mem data addr =>
    (fun a => if addr ≤ a ∧ a < addr + data.length then data.getD (a - addr) 0 else mem a, 0)
  ioRead := some fun mem n addr => (mem, (List.range n).map fun i => mem (addr + i), 0)
  sizeofPtr := 8

theorem memPort_reliable : memPort.Reliable id where
  succeeds := ⟨⟨_, rfl, fun _ _ _ => rfl⟩, ⟨_, rfl, fun _ _ _ => rfl⟩⟩
  put _ _ _ _ _ _ := rfl
  get _ _ _ _ := rfl
  get_keeps _ _ _ := rfl

theorem files_refine_two_clusters :
    ∃ fs₁ fs : Fs (ℕ → UInt8), mkfs memPort (blankFs fun _ => 0) none = some (fs₁, true) ∧
      ReflTransGen (Step memPort) fs₁ fs ∧ (fs.fileCtl 0).isOpen = true ∧
      (fs.fileCtl 0).seekPointer = 30 ∧ files id fs 0 = some (List.replicate 33 7) ∧
      ∃ fs', readFile memPort fs 5 0 = some (fs', true, 3, [7, 7, 7]) := by
  have hmkfs : mkfs memPort (blankFs fun _ => 0) none
      = some (flush memPort (formatted memPort (blankFs fun _ => 0) none), true) :=
    mkfs_eq memPort_reliable.succeeds rfl none
  obtain ⟨fs, hfs, hopen, hseek, hfiles⟩ : ∃ fs, runCalls memPort
      (flush memPort (formatted memPort (blankFs fun _ => 0) none))
      [.createFile [97], .writeFile (List.replicate 33 7) 0, .seekFile .current (-3) 0] = some fs ∧
      (fs.fileCtl 0).isOpen = true ∧ (fs.fileCtl 0).seekPointer = 30 ∧
      files id fs 0 = some (List.replicate 33 7) := by
    refine ⟨_, rfl, ?_, ?_, ?_⟩ <;> decide
  have hrun := run_of_runCalls hfs (by simp [Call.Allowed])
  obtain ⟨fs', hread, -⟩ := (files_refine memPort_reliable hmkfs hrun).2.2 0 5 _ (by decide) hopen
    hfiles (by decide) (by rw [hseek]; decide) (by rw [hseek]; decide)
  rw [hseek] at hread
  exact ⟨_, fs, hmkfs, hrun, hopen, hseek, hfiles, fs', hread⟩

end Tfs
