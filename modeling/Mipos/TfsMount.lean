/-
Mounting Tiny-FS again.

The in-memory table is stored on the device by `mkfs`, `create` and `delete`, but
neither by `mipos_tfs_write_file` nor by `mipos_tfs_close_file`: a file that has
grown is stored only when one of the other calls follows.

* `ofBytes_fileFsDesc`, `ofBytes_clusterTbl` — the stored image gives the table
  back;
* `mounted_restored` — mounting a device that holds the image of the table;
* `mount_restores` — in runs in which the last open file is closed only when the
  table is stored, mounting restores all files;
* `close_loses_write` — a run that writes, closes, and mounts an empty file;
* `files_refine_mounts` — the map of byte strings across renames and mounts.
-/
import Mipos.TfsContents

namespace Tfs

open LinkTable Function Relation

variable {δ : Type} {port : Port δ} {bytes : δ → ℕ → UInt8} {fs fs' : Fs δ} {t t' : Ftbl}
  {chain chain' : ℕ → List ℕ} {name : Option (List UInt8)} {newName : List UInt8} {ok : Bool}

/-! ### The image of the table -/

theorem fromLe_le16 {v : ℕ} (hv : v < 2 ^ 16) : fromLe (le16 v) = v := by
  simp only [fromLe, le16, List.foldr_cons, List.foldr_nil, UInt8.toNat_ofNat']
  omega

theorem fromLe_le32 {v : ℕ} (hv : v < 2 ^ 32) : fromLe (le32 v) = v := by
  simp only [fromLe, le32, List.foldr_cons, List.foldr_nil, UInt8.toNat_ofNat']
  omega

theorem chars_eq {n : ℕ} {l : List UInt8} (hl : l.length = n) : chars n l = l := by
  refine List.ext_getElem (by simp [chars, hl]) fun i h₁ h₂ => ?_
  simp [chars, List.getD_eq_getElem?_getD, List.getElem?_eq_getElem h₂]

/-- The fields of a descriptor fit their types. -/
structure Fd.Fits (fd : Fd) : Prop where
  filename : fd.filename.length = maxFilenameLength
  size : fd.size < 2 ^ 32
  firstCluster : fd.firstCluster < 2 ^ 16

theorem Fd.ofBytes_eq (fd : Fd) : Fd.ofBytes fd.bytes = ⟨chars maxFilenameLength fd.filename,
    fromLe (le32 fd.size), fromLe (le16 fd.firstCluster), fd.erased, fd.readonly⟩ := rfl

theorem Fd.ofBytes_bytes {fd : Fd} (hfd : fd.Fits) : Fd.ofBytes fd.bytes = fd := by
  rw [Fd.ofBytes_eq, chars_eq hfd.filename, fromLe_le32 hfd.size, fromLe_le16 hfd.firstCluster]

/-- A list made of blocks of one length, cut at a block. -/
theorem take_drop_flatMap {α β : Type*} {f : α → List β} {k : ℕ} {l : List α} {i : ℕ} {x : α}
    (hlen : ∀ y, (f y).length = k) (hi : l[i]? = some x) (rest : List β) :
    ((l.flatMap f ++ rest).drop (k * i)).take k = f x := by
  induction l generalizing i with
  | nil => simp at hi
  | cons y l ih =>
    rw [List.flatMap_cons, List.append_assoc]
    cases i with
    | zero =>
      obtain rfl : y = x := by simpa using hi
      rw [Nat.mul_zero, List.drop_zero, ← hlen y, List.take_left]
    | succ i =>
      have hskip : k * (i + 1) = (f y).length + k * i := by rw [hlen y, Nat.mul_succ, Nat.add_comm]
      rw [hskip, List.drop_length_add_append]
      exact ih (by simpa using hi)

/-- The fields of the table fit their types. -/
structure Ftbl.Fits (t : Ftbl) : Prop where
  fd : ∀ h, h < maxNOfFiles → (t.fileFsDesc h).Fits
  tbl : ∀ c, c < clustersCount → t.clusterTbl c < 2 ^ 16

/-- A descriptor goes through its bytes. -/
theorem ofBytes_fileFsDesc (t : Ftbl) {h : ℕ} (hh : h < maxNOfFiles) :
    (Ftbl.ofBytes t.bytes).fileFsDesc h = Fd.ofBytes (t.fileFsDesc h).bytes := by
  have hhead : (chars maxVolumeLength t.volumeDescription ++ [t.majVersion, t.minVersion]
      ++ chars 2 t.padding).length = 12 := by simp [chars, maxVolumeLength]
  show Fd.ofBytes ((t.bytes.drop (12 + 16 * h)).take 16) = _
  rw [Ftbl.bytes, List.append_assoc _ (List.flatMap _ _), ← hhead, List.drop_length_add_append,
    take_drop_flatMap (fun _ => length_fd_bytes _) (List.getElem?_range hh)]

theorem ofBytes_clusterTbl {c : ℕ} (hc : c < clustersCount) (hv : t.clusterTbl c < 2 ^ 16) :
    (Ftbl.ofBytes t.bytes).clusterTbl c = t.clusterTbl c := by
  obtain ⟨front, hfront⟩ : ∃ l, l = chars maxVolumeLength t.volumeDescription
      ++ [t.majVersion, t.minVersion] ++ chars 2 t.padding
      ++ (List.range maxNOfFiles).flatMap (fun i => (t.fileFsDesc i).bytes) := ⟨_, rfl⟩
  have hlen : front.length = 140 := by
    simp [hfront, chars, length_fd_bytes, List.length_flatMap, maxVolumeLength, maxNOfFiles]
  have hblock : ∀ i, (le16 (t.clusterTbl i)).length = 2 := fun _ => rfl
  show fromLe ((t.bytes.drop (140 + 2 * c)).take 2) = _
  rw [Ftbl.bytes, ← hfront, ← hlen, List.drop_length_add_append,
    ← List.append_nil (List.flatMap _ _), take_drop_flatMap hblock (List.getElem?_range hc),
    fromLe_le16 hv]

/-! ### Tables that describe the same files -/

/-- Two tables with the same descriptors and the same links. -/
structure Ftbl.Agree (t t' : Ftbl) : Prop where
  fd : ∀ h, h < maxNOfFiles → t'.fileFsDesc h = t.fileFsDesc h
  tbl : ∀ c, c < clustersCount → t'.clusterTbl c = t.clusterTbl c

theorem Ftbl.Agree.live_iff (ha : t.Agree t') (h : ℕ) : t'.Live h ↔ t.Live h :=
  and_congr_right fun hh => by rw [ha.fd h hh]

/-- The invariant of the table is about the first clusters, the sizes and the links. -/
theorem TableInv.congr (ht : TableInv t chain) (hlive : ∀ h, t'.Live h ↔ t.Live h)
    (hfirst : ∀ h, t.Live h → (t'.fileFsDesc h).firstCluster = (t.fileFsDesc h).firstCluster)
    (hsize : ∀ h, t.Live h → (t'.fileFsDesc h).size = (t.fileFsDesc h).size)
    (htbl : ∀ c, c < clustersCount → t'.clusterTbl c = t.clusterTbl c) : TableInv t' chain where
  chains := by
    have hstart : t'.start = t.start := by
      funext h
      by_cases hl : t.Live h
      · rw [Ftbl.start, Ftbl.start, if_pos hl, if_pos ((hlive h).mpr hl), hfirst h hl]
      · rw [Ftbl.start, Ftbl.start, if_neg hl, if_neg (mt (hlive h).mp hl)]
    rw [hstart]
    exact ht.chains.congr htbl
  length h hl := by
    have hl := (hlive h).mp hl
    rw [hsize h hl]
    exact ht.length h hl
  unused h hdead := ht.unused h (mt (hlive h).mpr hdead)

theorem Ftbl.Agree.tableInv (ha : t.Agree t') (ht : TableInv t chain) : TableInv t' chain :=
  ht.congr ha.live_iff (fun h hl => by rw [ha.fd h hl.1]) (fun h hl => by rw [ha.fd h hl.1]) ha.tbl

theorem Ftbl.Agree.fits (ha : t.Agree t') (ht : t.Fits) : t'.Fits where
  fd h hh := by
    rw [ha.fd h hh]
    exact ht.fd h hh
  tbl c hc := by
    rw [ha.tbl c hc]
    exact ht.tbl c hc

/-- Tables that agree, with the same header, have the same image. -/
theorem Ftbl.Agree.bytes_eq (ha : t.Agree t') (hv : t'.volumeDescription = t.volumeDescription)
    (hmaj : t'.majVersion = t.majVersion) (hmin : t'.minVersion = t.minVersion)
    (hpad : t'.padding = t.padding) : t'.bytes = t.bytes := by
  have hfds : (List.range maxNOfFiles).flatMap (fun i => (t'.fileFsDesc i).bytes)
      = (List.range maxNOfFiles).flatMap fun i => (t.fileFsDesc i).bytes :=
    List.flatMap_congr fun i hi => by rw [ha.fd i (List.mem_range.mp hi)]
  have hlinks : (List.range clustersCount).flatMap (fun i => le16 (t'.clusterTbl i))
      = (List.range clustersCount).flatMap fun i => le16 (t.clusterTbl i) :=
    List.flatMap_congr fun i hi => by rw [ha.tbl i (List.mem_range.mp hi)]
  rw [Ftbl.bytes, Ftbl.bytes, hv, hmaj, hmin, hpad, hfds, hlinks]

/-! ### Mounting -/

/-- The table stored on the device. -/
def storedTable (bytes : δ → ℕ → UInt8) (dev : δ) : List UInt8 :=
  (List.range sizeofFtbl).map fun i => bytes dev (tfsOffset + i)

theorem storedTable_congr {dev dev' : δ} (h : ∀ a, a < sizeofFtbl → bytes dev' a = bytes dev a) :
    storedTable bytes dev' = storedTable bytes dev := by
  refine List.map_congr_left fun i hi => h _ ?_
  rw [tfsOffset, Nat.zero_add]
  exact List.mem_range.mp hi

theorem storedTable_flush (hr : port.Reliable bytes) (fs : Fs δ) :
    storedTable bytes (flush port fs).dev = fs.ftbl.bytes := by
  have hlen := length_ftbl_bytes fs.ftbl
  refine List.ext_getElem (by simp [storedTable, hlen]) fun i h₁ h₂ => ?_
  have hi : i < sizeofFtbl := hlen ▸ h₂
  have hfits := table_fits_volume fs.ftbl
  have hvol : tfsOffset + i < volumeSize := by omega
  have hput := hr.put fs.dev fs.ftbl.bytes tfsOffset (tfsOffset + i) hfits hvol
  rw [if_pos (by omega), Nat.add_sub_cancel_left, List.getD_eq_getElem?_getD,
    List.getElem?_eq_getElem h₂] at hput
  simpa [storedTable, flush] using hput

/-- The state that `mipos_tfs_setup` leaves. -/
def mounted (port : Port δ) (fs : Fs δ) : Fs δ :=
  flush port { fs with
    dev := (port.get fs.dev sizeofFtbl tfsOffset).1
    ftbl := Ftbl.ofBytes (port.get fs.dev sizeofFtbl tfsOffset).2
    fileCtl := fun i => if i < maxNOfFiles then Ctl.zero else fs.fileCtl i
    lock := false }

theorem setup_eq (hp : port.Succeeds) (fs : Fs δ) :
    setup port fs = some (mounted port fs, true) := by
  rw [setup, hp.ioRead, hp.ioWrite]
  dsimp only
  rw [if_neg (by decide), updateFsOnDisk_eq hp]
  rfl

/-- `fs'` has the files of `fs`, all of them closed, and its table is stored. -/
structure Restored (bytes : δ → ℕ → UInt8) (fs fs' : Fs δ) : Prop where
  agree : fs.ftbl.Agree fs'.ftbl
  lock : fs'.lock = false
  closed : ∀ h, h < maxNOfFiles → fs'.fileCtl h = Ctl.zero
  clusters : ∀ a, tfsSize ≤ a → a < volumeSize → bytes fs'.dev a = bytes fs.dev a
  stored : storedTable bytes fs'.dev = fs'.ftbl.bytes

/-- **Mounting a device that holds the image of the table** restores it. -/
theorem mounted_restored (hr : port.Reliable bytes) (hfits : fs.ftbl.Fits)
    (hstored : storedTable bytes fs.dev = fs.ftbl.bytes) {fresh : Fs δ}
    (hdev : fresh.dev = fs.dev) : Restored bytes fs (mounted port fresh) := by
  have hread : (port.get fresh.dev sizeofFtbl tfsOffset).2 = fs.ftbl.bytes := by
    rw [hr.get _ _ _ (by decide), hdev]
    exact hstored
  have hftbl : (mounted port fresh).ftbl = Ftbl.ofBytes fs.ftbl.bytes := by rw [← hread]; rfl
  constructor
  case agree =>
    rw [hftbl]
    constructor
    · intro h hh
      rw [ofBytes_fileFsDesc _ hh, Fd.ofBytes_bytes (hfits.fd h hh)]
    · exact fun c hc => ofBytes_clusterTbl hc (hfits.tbl c hc)
  case lock => rfl
  case closed => exact fun h hh => if_pos hh
  case clusters =>
    intro a hlow ha
    rw [mounted, hr.flush _ hlow ha]
    dsimp only
    rw [hr.get_keeps, hdev]
  case stored => exact storedTable_flush hr _

theorem Restored.inv (hres : Restored bytes fs fs') (ht : TableInv fs.ftbl chain) :
    FsInv fs' chain where
  lock := hres.lock
  table := hres.agree.tableInv ht
  opened h hh hopen := by
    rw [hres.closed h hh] at hopen
    cases hopen
  unlocked h hlive := by
    rw [hres.closed h hlive.1]
    rfl

/-- The strings are about the sizes, the chains and the bytes of the clusters. -/
theorem files_eq_of_chains (ht : TableInv fs.ftbl chain) (ht' : TableInv fs'.ftbl chain)
    (hlive : ∀ h, fs'.ftbl.Live h ↔ fs.ftbl.Live h)
    (hsize : ∀ h, fs.ftbl.Live h → (fs'.ftbl.fileFsDesc h).size = (fs.ftbl.fileFsDesc h).size)
    (hbytes : ∀ a, tfsSize ≤ a → a < volumeSize → bytes fs'.dev a = bytes fs.dev a) :
    files bytes fs' = files bytes fs := by
  funext h
  by_cases hl : fs.ftbl.Live h
  · have hl' := (hlive h).mpr hl
    rw [files_live hl, files_live hl']
    refine congrArg some (contents_congr ht ht' hl hl' (hsize h hl) rfl fun i hi => ?_)
    have hvalid := ht.chains.valid h
    have hpos := ht.pos_lt hl hi
    exact hbytes _ (tfsSize_le_posAddr hvalid hpos) (posAddr_lt hvalid hpos)
  · rw [files_dead hl, files_dead (mt (hlive h).mp hl)]

theorem Restored.files_eq (hres : Restored bytes fs fs') (hi : FsInv fs chain) :
    files bytes fs' = files bytes fs :=
  files_eq_of_chains hi.table (hres.inv hi.table).table hres.agree.live_iff
    (fun h hl => by rw [hres.agree.fd h hl.1]) hres.clusters

/-- No file is open. -/
def AllClosed (fs : Fs δ) : Prop := ∀ h, h < maxNOfFiles → (fs.fileCtl h).isOpen = false

instance (fs : Fs δ) : Decidable (AllClosed fs) :=
  inferInstanceAs (Decidable (∀ h, h < maxNOfFiles → _))

/-- With all files closed, a file is found in `fs'` as it is in `fs`. -/
theorem Restored.openLoop_eq (hres : Restored bytes fs fs') (hi : FsInv fs chain)
    (hclosed : AllClosed fs) (name : List UInt8) (mode : OpenMode) {is : List ℕ}
    (his : ∀ i ∈ is, i < maxNOfFiles) : openLoop fs' name mode is = openLoop fs name mode is := by
  induction is with
  | nil => rfl
  | cons i is ih =>
    have hlt := his i (by simp)
    have hrest := ih fun j hj => his j (by simp [hj])
    rw [openLoop, openLoop, hres.agree.fd i hlt, hrest]
    by_cases herased : (fs.ftbl.fileFsDesc i).erased = 0
    · have hctl := hres.closed i hlt
      simp only [hctl, hi.unlocked i ⟨hlt, herased⟩, hclosed i hlt, Ctl.zero]
    · simp only [ne_eq, herased, not_false_eq_true, if_true]

theorem openLoop_lock (fs : Fs δ) (lock : Bool) (name : List UInt8) (mode : OpenMode)
    (is : List ℕ) : openLoop { fs with lock } name mode is = openLoop fs name mode is := by
  induction is with
  | nil => rfl
  | cons i is ih => rw [openLoop, openLoop, ih]

/-- What `mipos_tfs_open_file` returns. -/
theorem openFile_result (hl : fs.lock = false) (name : List UInt8) (mode : OpenMode) :
    (openFile fs name mode).map (·.2) = if checkFileName name = false then
      some (false, invalidFileHandle)
    else (openLoop fs name mode (List.range maxNOfFiles)).map fun found =>
      (found.isSome, found.getD invalidFileHandle) := by
  rw [openFile]
  split
  · rfl
  · simp only [withAccess, lockAccess, hl, Bool.false_eq_true, if_false, Option.bind_eq_bind,
      Option.bind_some, openLoop_lock]
    cases openLoop fs name mode (List.range maxNOfFiles) with
    | none => rfl
    | some found => cases found <;> rfl

theorem Restored.openFile_eq (hres : Restored bytes fs fs') (hi : FsInv fs chain)
    (hclosed : AllClosed fs) (name : List UInt8) (mode : OpenMode) :
    (openFile fs' name mode).map (·.2) = (openFile fs name mode).map (·.2) := by
  rw [openFile_result hi.lock, openFile_result hres.lock,
    hres.openLoop_eq hi hclosed name mode fun _ h => List.mem_range.mp h]

/-- Opening a file and reading it whole delivers its string. -/
theorem read_back (hr : port.Reliable bytes) (hi : FsInv fs chain) {name : List UInt8}
    {mode : OpenMode} {h : ℕ} (hopen : openFile fs name mode = some (fs', true, h)) :
    ∃ s, files bytes fs h = some s ∧ (0 < s.length →
      ∃ fs'', readFile port fs' s.length h = some (fs'', true, s.length, s)) := by
  rcases openFile_cases hi.lock hopen with ⟨hfalse, -⟩ | ⟨-, rfl, hlive, -⟩
  · cases hfalse
  · refine ⟨_, files_live hlive, fun hpos => ?_⟩
    have hsize := hi.table.size_le hlive
    have hi' := hi.opened_file hlive mode
    have hseek : ((opened fs h mode).fileCtl h).seekPointer = 0 := by simp [opened]
    have hisOpen : ((opened fs h mode).fileCtl h).isOpen = true := by simp [opened]
    rw [length_contents] at hpos ⊢
    obtain ⟨fs'', hread, -⟩ := readFile_spec hr hi' hlive.1 hisOpen hpos (by rw [hseek]; exact hpos)
      (by rw [hseek]; simp only [storageAreaSize] at hsize; omega)
    have hsame : contents bytes (opened fs h mode) h = contents bytes fs h := rfl
    rw [hseek, hsame, List.drop_zero, Nat.sub_zero, List.take_of_length_le (by simp)] at hread
    exact ⟨fs'', by rw [hread]; simp [opened]⟩

/-! ### What the calls do to the stored table -/

theorem TableInv.fits (ht : TableInv t chain) (hfd : ∀ h, h < maxNOfFiles → (t.fileFsDesc h).Fits) :
    t.Fits := by
  refine ⟨hfd, fun c hc => ?_⟩
  rcases ht.chains.link_cases hc with hlink | ⟨h, hlink⟩ | hlink
  · exact Nat.lt_trans hlink (by decide)
  · rw [hlink, stopMark]
    split <;> decide
  · rw [hlink]
    decide

theorem TableInv.first_lt (ht : TableInv fs.ftbl chain) {h : ℕ} (hlive : fs.ftbl.Live h) :
    (fs.ftbl.fileFsDesc h).firstCluster < 2 ^ 16 := by
  have hseg := ht.seg_file hlive
  have hvalid := ht.chains.valid h
  cases hc : chain h with
  | nil =>
    rw [hc] at hseg
    rw [hseg]
    decide
  | cons x l =>
    rw [hc] at hseg hvalid
    rw [hseg.1]
    exact Nat.lt_trans (hvalid x (by simp)) (by decide)

theorem length_strncpy (s : List UInt8) (n : ℕ) : (strncpy s n).length = n := by
  simp only [strncpy, strlen, List.length_append, List.length_take, List.length_replicate]
  omega

/-- A write keeps the name and the flags of its file. -/
theorem WriteOk.fd_eq {h : ℕ} {data : List UInt8} {l : List ℕ}
    (hw : WriteOk port fs fs' h chain data l) : fs'.ftbl.fileFsDesc h = { fs.ftbl.fileFsDesc h with
      size := (fs'.ftbl.fileFsDesc h).size
      firstCluster := (fs'.ftbl.fileFsDesc h).firstCluster } := by
  rw [hw.size_eq]
  have hstate := congrArg (fun f => f.ftbl.fileFsDesc h) hw.state
  simpa [writtenState, wrote, setTable] using hstate

theorem WriteOk.fd_ne {h k : ℕ} {data : List UInt8} {l : List ℕ}
    (hw : WriteOk port fs fs' h chain data l) (hne : k ≠ h) :
    fs'.ftbl.fileFsDesc k = fs.ftbl.fileFsDesc k := by
  rw [hw.state]
  simp [writtenState, wrote, setTable, hne]

/-- The calls keep the fields of the table within their types. -/
theorem Effect.fits (hi : FsInv fs chain) {call : Call}
    (he : Effect port fs chain call ok fs' chain') (hfits : fs.ftbl.Fits) : fs'.ftbl.Fits := by
  have hi' := he.inv hi
  have hzero : Fd.Fits { Fd.zero with erased := 1 } := ⟨by decide, by decide, by decide⟩
  cases he with
  | format label =>
    refine hi'.table.fits fun h hh => ?_
    have hfd : (formatted port fs label).ftbl.fileFsDesc h = { Fd.zero with erased := 1 } :=
      if_pos hh
    rw [flush_ftbl, hfd]
    exact hzero
  | touch ht _ => exact ht.ftbl_eq ▸ hfits
  | opens hlive => exact hfits
  | close h => exact hfits
  | @create name i e hlt herased =>
    refine hi'.table.fits fun h hh => ?_
    rcases eq_or_ne h i with rfl | hne
    · have hname := (hfits.fd h hh).filename
      refine ⟨?_, ?_, ?_⟩
      · simp [created, overwrite, length_strncpy, hname, maxFilenameLength]
      · simp [created]
      · simp [created, emptyCluster]
    · simpa [created, hne] using hfits.fd h hh
  | @remove name i e hlive hclosed =>
    refine hi'.table.fits fun h hh => ?_
    rcases eq_or_ne h i with rfl | hne
    · simpa [removed, setTable, erased] using hzero
    · simpa [removed, setTable, erased, hne] using hfits.fd h hh
  | @write data h l fs' hw =>
    refine hi'.table.fits fun k hk => ?_
    rcases eq_or_ne k h with rfl | hne
    · have hsize := hi'.table.size_le ((hw.live_iff k).mpr hw.live)
      refine ⟨?_, ?_, ?_⟩
      · rw [hw.fd_eq]
        exact (hfits.fd k hk).filename
      · simp only [storageAreaSize] at hsize
        omega
      · exact hi'.table.first_lt ((hw.live_iff k).mpr hw.live)
    · rw [hw.fd_ne hne]
      exact hfits.fd k hk

/-- What is stored of the table is not in a cluster. -/
theorem WriteOk.storedTable_eq (hr : port.Reliable bytes) {h : ℕ} {data : List UInt8} {l : List ℕ}
    (hw : WriteOk port fs fs' h chain data l) :
    storedTable bytes fs'.dev = storedTable bytes fs.dev := by
  have hvalid := hw.inv.table.chains.valid h
  rw [update_self] at hvalid
  refine storedTable_congr fun a ha => ?_
  have hlow : a < tfsSize := Nat.lt_trans ha (by decide)
  refine hw.stores.bytes_outside hr hvalid (Nat.lt_trans hlow (by decide)) fun c hc o ho => ?_
  rw [clusterAddr_eq (hvalid c hc) ho]
  omega

/-- A write inside the file changes neither the table nor what is stored of it. -/
theorem WriteOk.stored_eq (hr : port.Reliable bytes) (hi : FsInv fs chain) {h : ℕ}
    {data : List UInt8} {l : List ℕ} (hw : WriteOk port fs fs' h chain data l)
    (hin : (fs.fileCtl h).seekPointer + data.length ≤ (fs.ftbl.fileFsDesc h).size) :
    fs'.ftbl.bytes = fs.ftbl.bytes ∧ storedTable bytes fs'.dev = storedTable bytes fs.dev := by
  have hlive' := (hw.live_iff h).mpr hw.live
  have ht' := hw.inv.table
  have hupd : update chain h l h = l := update_self ..
  have hsize : (fs'.ftbl.fileFsDesc h).size = (fs.ftbl.fileFsDesc h).size := by
    rw [hw.size_eq]
    omega
  -- the chain has grown by nothing
  have hsame : l = chain h := by
    refine (hw.grows.eq_of_length ?_).symm
    have hlen := ht'.length h hlive'
    rw [hupd, hsize] at hlen
    rw [hlen, hi.table.length h hw.live]
  have hchain : update chain h l = chain := by rw [hsame, update_eq_self]
  rw [hchain] at ht'
  have hfirst : (fs'.ftbl.fileFsDesc h).firstCluster = (fs.ftbl.fileFsDesc h).firstCluster :=
    (hi.table.seg_file hw.live).start_eq (ht'.seg_file hlive')
  have hagree : fs.ftbl.Agree fs'.ftbl := by
    refine ⟨fun k _ => ?_, fun c hc => hi.table.chains.link_eq ht'.chains hc⟩
    rcases eq_or_ne k h with rfl | hne
    · rw [hw.fd_eq, hsize, hfirst]
    · exact hw.fd_ne hne
  refine ⟨?_, hw.storedTable_eq hr⟩
  refine hagree.bytes_eq ?_ ?_ ?_ ?_ <;> rw [hw.state] <;> rfl

theorem overwrite_filename (fd : Fd) {name : List UInt8} (hlen : name.length = maxFilenameLength) :
    overwrite fd.bytes name = ({ fd with filename := name } : Fd).bytes := by
  have hchars : (chars maxFilenameLength fd.filename).length = name.length := by
    simp [chars, hlen]
  simp only [overwrite, Fd.bytes, List.append_assoc, chars_eq hlen, List.drop_left' hchars]

/-- `mipos_tfs_rename_file` copies the new name to the bytes of the first descriptor, from
the byte on that has the number of the slot. -/
theorem renameFile_spec (hl : fs.lock = false)
    (hrun : renameFile port fs name newName = some (fs', ok)) :
    (ok = false ∧ ∃ e, fs' = setError fs e) ∨ ∃ h e ret, fs.ftbl.Live h ∧
      ffirst fs name = some (setError fs e, some h) ∧
      updateFsOnDisk port (setFd (setError fs e) 0 (Fd.ofBytes
        ((fs.ftbl.fileFsDesc 0).bytes.take h ++ overwrite ((fs.ftbl.fileFsDesc 0).bytes.drop h)
          (strncpy newName maxFilenameLength)))) = some (fs', ret) ∧ ok = decide (ret = 0) := by
  obtain ⟨⟨fs₁, found⟩, hfound, hrun⟩ := Option.bind_eq_some_iff.mp hrun
  obtain ⟨⟨e, rfl⟩, hlive⟩ := ffirst_cases hl hfound
  have hl₁ : (setError fs e).lock = false := hl
  cases found with
  | none =>
    cases hrun
    exact .inl ⟨rfl, _, rfl⟩
  | some h =>
    dsimp only at hrun
    split at hrun
    · cases hrun
      exact .inl ⟨rfl, _, rfl⟩
    · rw [withAccess_setFd hl₁ 0 fun fd => Fd.ofBytes (fd.bytes.take h
        ++ overwrite (fd.bytes.drop h) (strncpy newName maxFilenameLength))] at hrun
      dsimp only [Option.bind_eq_bind, Option.bind_some] at hrun
      obtain ⟨⟨fs₂, ret⟩, hstore, hrun⟩ := Option.bind_eq_some_iff.mp hrun
      cases hrun
      exact .inr ⟨h, e, ret, hlive h rfl, hfound, hstore, rfl⟩

theorem renameFile_found (hp : port.Succeeds) (hl : fs.lock = false)
    (hrun : renameFile port fs name newName = some (fs', ok)) :
    (ok = false ∧ ∃ e, fs' = setError fs e) ∨ (ok = true ∧ ∃ h e, fs.ftbl.Live h ∧
      ffirst fs name = some (setError fs e, some h) ∧ fs' = flush port (setFd (setError fs e) 0
        (Fd.ofBytes ((fs.ftbl.fileFsDesc 0).bytes.take h
          ++ overwrite ((fs.ftbl.fileFsDesc 0).bytes.drop h)
            (strncpy newName maxFilenameLength))))) := by
  rcases renameFile_spec hl hrun with hfail | ⟨h, e, ret, hlive, hfound, hstore, rfl⟩
  · exact .inl hfail
  · rw [updateFsOnDisk_eq hp] at hstore
    cases hstore
    exact .inr ⟨rfl, h, e, hlive, hfound, rfl⟩

/-- `mipos_tfs_rename_file` of the file in the first slot, whose name is where the
source copies the new one to. -/
theorem renameFile_first (hp : port.Succeeds) (hl : fs.lock = false)
    (hrun : renameFile port fs name newName = some (fs', ok))
    (hfirst : ∀ fs₁ i, ffirst fs name = some (fs₁, some i) → i = 0) :
    (ok = false ∧ ∃ e, fs' = setError fs e) ∨ (ok = true ∧ fs.ftbl.Live 0 ∧ ∃ e,
      fs' = flush port (setFd (setError fs e) 0 (Fd.ofBytes { fs.ftbl.fileFsDesc 0 with
        filename := strncpy newName maxFilenameLength }.bytes))) := by
  rcases renameFile_found hp hl hrun with hfail | ⟨rfl, h, e, hlive, hfound, rfl⟩
  · exact .inl hfail
  · -- the new name covers the old one and nothing else
    obtain rfl := hfirst _ _ hfound
    refine .inr ⟨rfl, hlive, e, ?_⟩
    rw [List.take_zero, List.nil_append, List.drop_zero,
      overwrite_filename _ (length_strncpy newName maxFilenameLength)]

/-- A file is renamed to a valid name only. -/
theorem renameFile_checks
    (hrun : renameFile port fs name newName = some (fs', true)) : checkFileName newName = true := by
  obtain ⟨⟨fs₁, found⟩, -, hrun⟩ := Option.bind_eq_some_iff.mp hrun
  cases found with
  | none => cases hrun
  | some i =>
    by_contra hbad
    dsimp only at hrun
    rw [if_pos (eq_false_of_ne_true hbad)] at hrun
    cases hrun

theorem renameFile_cases (hp : port.Succeeds) (hl : fs.lock = false)
    (hrun : renameFile port fs name newName = some (fs', ok))
    (hfirst : ∀ fs₁ i, ffirst fs name = some (fs₁, some i) → i = 0)
    (hfits : (fs.ftbl.fileFsDesc 0).Fits) :
    (ok = false ∧ ∃ e, fs' = setError fs e) ∨ (ok = true ∧ fs.ftbl.Live 0 ∧ ∃ e,
      fs' = flush port (setFd (setError fs e) 0 { fs.ftbl.fileFsDesc 0 with
        filename := strncpy newName maxFilenameLength })) := by
  have hnew : Fd.Fits { fs.ftbl.fileFsDesc 0 with filename := strncpy newName maxFilenameLength } :=
    ⟨length_strncpy newName maxFilenameLength, hfits.size, hfits.firstCluster⟩
  have hcases := renameFile_first hp hl hrun hfirst
  rwa [Fd.ofBytes_bytes hnew] at hcases

theorem live_renamed (name : List UInt8) (h : ℕ) :
    (setFd fs 0 { fs.ftbl.fileFsDesc 0 with filename := name }).ftbl.Live h ↔ fs.ftbl.Live h := by
  rw [live_setFd]
  split
  · rename_i hh
    rw [hh]
    exact Iff.rfl
  · exact Iff.rfl

theorem size_renamed (name : List UInt8) (h : ℕ) :
    ((setFd fs 0 { fs.ftbl.fileFsDesc 0 with filename := name }).ftbl.fileFsDesc h).size
      = (fs.ftbl.fileFsDesc h).size := by
  rcases eq_or_ne h 0 with rfl | hne
  · simp
  · simp [hne]

theorem FsInv.renamed (hi : FsInv fs chain) (name : List UInt8) :
    FsInv (setFd fs 0 { fs.ftbl.fileFsDesc 0 with filename := name }) chain := by
  have hlive : ∀ h, _ ↔ fs.ftbl.Live h := live_renamed name
  refine ⟨hi.lock, hi.table.congr hlive ?_ (fun h _ => size_renamed name h) fun _ _ => rfl, ?_, ?_⟩
  · intro h _
    rcases eq_or_ne h 0 with rfl | hne
    · simp
    · simp [hne]
  · exact fun h hh hopen => (hlive h).mpr (hi.opened h hh hopen)
  · exact fun h hl => hi.unlocked h ((hlive h).mp hl)

/-- Renaming the file in the first slot keeps the files as they are. -/
theorem renameFile_keeps (hp : port.Succeeds) (hi : FsInv fs chain) (hfits : fs.ftbl.Fits)
   
    (hrun : renameFile port fs name newName = some (fs', ok))
    (hfirst : ∀ fs₁ i, ffirst fs name = some (fs₁, some i) → i = 0) :
    (ok = false ∧ ∃ e, fs' = setError fs e) ∨
      (ok = true ∧ ∃ fs₂, fs' = flush port fs₂ ∧ FsInv fs₂ chain ∧ fs₂.ftbl.Fits) := by
  have hfd := hfits.fd 0 (by decide)
  rcases renameFile_cases hp hi.lock hrun hfirst hfd with hfail | ⟨rfl, hlive, e, rfl⟩
  · exact .inl hfail
  · have herror : Touched port fs 0 (setError fs e) := .of_error 0 e
    have hi' := (hi.touched herror).renamed (strncpy newName maxFilenameLength)
    refine .inr ⟨rfl, _, rfl, hi', hi'.table.fits fun h hh => ?_⟩
    rcases eq_or_ne h 0 with rfl | hne
    · simpa using (⟨length_strncpy _ _, hfd.size, hfd.firstCluster⟩ : Fd.Fits
        { fs.ftbl.fileFsDesc 0 with filename := strncpy newName maxFilenameLength })
    · simpa [hne] using hfits.fd h hh

/-! ### Runs -/

/-- The file `h` is the only one that may be open. -/
def LastOpen (fs : Fs δ) (h : ℕ) : Prop :=
  ∀ k, k < maxNOfFiles → k ≠ h → (fs.fileCtl k).isOpen = false

/-- Whether the table has changed since it was stored: a write that makes a file
longer changes it, and `mkfs`, `create` and `delete` store it. -/
def unstoredAfter (fs : Fs δ) (unstored ok : Bool) : Call → Bool
  | .mkfs _ => !ok && unstored
  | .createFile _ => !ok && unstored
  | .deleteFile _ => !ok && unstored
  | .writeFile data h => unstored ||
      decide ((fs.ftbl.fileFsDesc h).size < (fs.fileCtl h).seekPointer + data.length)
  | _ => unstored

/-- The runs in which the device is mounted again only when the table is stored and,
if `strict`, the last open file is closed only then.  The only file to be renamed is
the one in the first slot. -/
inductive MountStep (port : Port δ) (strict : Bool) : Fs δ × Bool → Fs δ × Bool → Prop
  | call {fs fs' : Fs δ} {unstored ok : Bool} {call : Call}
      (hexec : call.exec port fs = some (fs', ok)) (hallowed : call.Allowed fs ok)
      (hclose : strict = true → ∀ h, call = .closeFile h → LastOpen fs h → unstored = false) :
      MountStep port strict (fs, unstored) (fs', unstoredAfter fs unstored ok call)
  | rename {fs fs' : Fs δ} {unstored ok : Bool} {name : Option (List UInt8)} {newName : List UInt8}
      (hexec : renameFile port fs name newName = some (fs', ok))
      (hfirst : ∀ fs₁ i, ffirst fs name = some (fs₁, some i) → i = 0) :
      MountStep port strict (fs, unstored) (fs', !ok && unstored)
  | mount {fs fresh fs' : Fs δ} {ok : Bool} (hdev : fresh.dev = fs.dev)
      (hexec : setup port fresh = some (fs', ok)) : MountStep port strict (fs, false) (fs', false)

/-- What holds in the states of such a run. -/
structure MountInv (bytes : δ → ℕ → UInt8) (strict : Bool) (fs : Fs δ) (unstored : Bool)
    (chain : ℕ → List ℕ) : Prop where
  inv : FsInv fs chain
  fits : fs.ftbl.Fits
  stored : unstored = false → storedTable bytes fs.dev = fs.ftbl.bytes
  closed : strict = true → AllClosed fs → unstored = false

variable {strict : Bool}

/-- A state whose table was stored last. -/
theorem MountInv.of_flush (hr : port.Reliable bytes) (hi : FsInv (flush port fs) chain)
    (hfits : fs.ftbl.Fits) : MountInv bytes strict (flush port fs) false chain :=
  ⟨hi, hfits, fun _ => storedTable_flush hr fs, fun _ _ => rfl⟩

theorem unstoredAfter_touch {call : Call} (hallowed : call.Allowed fs ok)
    (hcall : ok = false ∨ call.Looks) (unstored : Bool) :
    unstoredAfter fs unstored ok call = unstored := by
  rcases hcall with rfl | hlooks
  · cases call <;> first | rfl | cases hallowed.2
  · cases call <;> first | rfl | exact hlooks.elim

theorem MountInv.touched (hr : port.Reliable bytes) {unstored : Bool}
    (hm : MountInv bytes strict fs unstored chain) {h : ℕ} (ht : Touched port fs h fs') :
    MountInv bytes strict fs' unstored chain where
  inv := hm.inv.touched ht
  fits := ht.ftbl_eq ▸ hm.fits
  stored hu := by
    rw [ht.ftbl_eq, ← hm.stored hu]
    exact storedTable_congr fun a _ => congrFun (hr.reads ht.reads) a
  closed hstrict hall := hm.closed hstrict fun k hk => (ht.isOpen_eq k).symm.trans (hall k hk)

/-- One call keeps the invariant. -/
theorem Effect.mountInv (hr : port.Reliable bytes) {unstored : Bool}
    (hm : MountInv bytes strict fs unstored chain) {call : Call}
    (he : Effect port fs chain call ok fs' chain') (hallowed : call.Allowed fs ok)
    (hclose : strict = true → ∀ h, call = .closeFile h → LastOpen fs h → unstored = false) :
    MountInv bytes strict fs' (unstoredAfter fs unstored ok call) chain' := by
  have hi' := he.inv hm.inv
  have hfits' := he.fits hm.inv hm.fits
  cases he with
  | format label => exact .of_flush hr hi' hfits'
  | touch ht hcall =>
    rw [unstoredAfter_touch hallowed hcall]
    exact hm.touched hr ht
  | @opens name mode h hlive =>
    refine ⟨hi', hfits', hm.stored, fun _ hall => ?_⟩
    have hopen := hall h hlive.1
    simp [opened] at hopen
  | close h =>
    refine ⟨hi', hfits', hm.stored, fun hstrict hall =>
      hclose hstrict h rfl fun k hk hne => ?_⟩
    have hk := hall k hk
    simpa [hne] using hk
  | create e hlt herased => exact .of_flush hr hi' hfits'
  | remove e hlive hclosed => exact .of_flush hr hi' hfits'
  | @write data h l fs' hw =>
    refine ⟨hi', hfits', fun hu => ?_, fun _ hall => ?_⟩
    · obtain ⟨hstored, hin⟩ : unstored = false ∧ ¬(fs.ftbl.fileFsDesc h).size
          < (fs.fileCtl h).seekPointer + data.length := by simpa [unstoredAfter] using hu
      obtain ⟨htable, hdev⟩ := hw.stored_eq hr hm.inv (by omega)
      rw [htable, hdev]
      exact hm.stored hstored
    · -- the file written to is still open
      have hopen := hall h hw.live.1
      rw [hw.state] at hopen
      simp [writtenState, wrote, setTable, hw.isOpen] at hopen

/-- One step keeps the invariant. -/
theorem MountStep.inv (hr : port.Reliable bytes) {p p' : Fs δ × Bool}
    (hs : MountStep port strict p p') (hm : MountInv bytes strict p.1 p.2 chain) :
    ∃ chain', MountInv bytes strict p'.1 p'.2 chain' := by
  cases hs with
  | call hexec hallowed hclose =>
    obtain ⟨chain', he⟩ := exec_effect hr.succeeds hm.inv hexec hallowed
    exact ⟨chain', he.mountInv hr hm hallowed hclose⟩
  | rename hexec hfirst =>
    rcases renameFile_keeps hr.succeeds hm.inv hm.fits hexec hfirst with
      ⟨rfl, e, rfl⟩ | ⟨rfl, fs₂, rfl, hi, hfits⟩
    · exact ⟨chain, hm.touched hr (.of_error 0 e)⟩
    · exact ⟨chain, .of_flush hr hi.flush hfits⟩
  | mount hdev hexec =>
    rw [setup_eq hr.succeeds] at hexec
    cases hexec
    have hres := mounted_restored hr hm.fits (hm.stored rfl) hdev
    exact ⟨chain, hres.inv hm.inv.table, hres.agree.fits hm.fits, fun _ => hres.stored,
      fun _ _ => rfl⟩

theorem mount_inv (hr : port.Reliable bytes) {fs₀ fs₁ : Fs δ} {label : Option (List UInt8)}
    (hmkfs : mkfs port fs₀ label = some (fs₁, ok)) {p : Fs δ × Bool}
    (hrun : ReflTransGen (MountStep port strict) (fs₁, false) p) :
    ∃ chain, MountInv bytes strict p.1 p.2 chain := by
  induction hrun with
  | refl =>
    have hl := lock_of_mkfs hmkfs
    rw [mkfs_eq hr.succeeds hl] at hmkfs
    cases hmkfs
    have hi : FsInv (flush port (formatted port fs₀ label)) _ := (FsInv.formatted hl label).flush
    refine ⟨_, .of_flush hr hi (hi.table.fits fun h hh => ?_)⟩
    have hfd : (formatted port fs₀ label).ftbl.fileFsDesc h = { Fd.zero with erased := 1 } :=
      if_pos hh
    rw [flush_ftbl, hfd]
    exact ⟨by decide, by decide, by decide⟩
  | tail _ hstep ih =>
    obtain ⟨chain, hm⟩ := ih
    exact hstep.inv hr hm

/-- **Mounting again restores the file system**, in runs in which a file that is
closed as the last one has not grown since the table was stored: with all files
closed the stored table is the one in memory, and mounting the device gives the
same descriptors, the same links and the same strings to read. -/
theorem mount_restores (hr : port.Reliable bytes) {fs₀ fs₁ : Fs δ} {label : Option (List UInt8)}
    {ok unstored : Bool} (hmkfs : mkfs port fs₀ label = some (fs₁, ok))
    (hrun : ReflTransGen (MountStep port true) (fs₁, false) (fs, unstored))
    (hclosed : AllClosed fs) :
    storedTable bytes fs.dev = fs.ftbl.bytes ∧
    ∀ fresh : Fs δ, fresh.dev = fs.dev → ∃ fs₂, setup port fresh = some (fs₂, true) ∧
      (∀ h, h < maxNOfFiles → fs₂.ftbl.fileFsDesc h = fs.ftbl.fileFsDesc h) ∧
      (∀ c, c < clustersCount → fs₂.ftbl.clusterTbl c = fs.ftbl.clusterTbl c) ∧
      ∀ name mode, (openFile fs₂ name mode).map (·.2) = (openFile fs name mode).map (·.2) ∧
        ∀ fs₃ h, openFile fs₂ name mode = some (fs₃, true, h) →
          ∃ s, files bytes fs h = some s ∧ (0 < s.length →
            ∃ fs₄, readFile port fs₃ s.length h = some (fs₄, true, s.length, s)) := by
  obtain ⟨chain, hm⟩ := mount_inv hr hmkfs hrun
  have hstored := hm.stored (hm.closed rfl hclosed)
  refine ⟨hstored, fun fresh hdev => ⟨_, setup_eq hr.succeeds fresh, ?_⟩⟩
  have hres := mounted_restored hr hm.fits hstored hdev
  refine ⟨hres.agree.fd, hres.agree.tbl, fun name mode => ?_⟩
  refine ⟨hres.openFile_eq hm.inv hclosed name mode, fun fs₃ h hopen => ?_⟩
  obtain ⟨s, hs, hread⟩ := read_back hr (hres.inv hm.inv.table) hopen
  exact ⟨s, by rw [← hs, hres.files_eq hm.inv], hread⟩

def Call.closes : Call → Bool
  | .closeFile _ => true
  | _ => false

/-- A list of calls as a run: all of them return `TRUE`, and, if `strict`, files are
closed only when the table is stored. -/
def runMounted (port : Port δ) (strict : Bool) (fs : Fs δ) (unstored : Bool) :
    List Call → Option (Fs δ × Bool)
  | [] => some (fs, unstored)
  | call :: calls => match call.exec port fs with
    | some (fs', true) =>
      if strict && call.closes && unstored then none
      else runMounted port strict fs' (unstoredAfter fs unstored true call) calls
    | _ => none

theorem run_of_runMounted {calls : List Call} {unstored : Bool} {p : Fs δ × Bool}
    (hrun : runMounted port strict fs unstored calls = some p)
    (hallowed : ∀ call ∈ calls, ∀ fs : Fs δ, call.Allowed fs true) :
    ReflTransGen (MountStep port strict) (fs, unstored) p := by
  induction calls generalizing fs unstored with
  | nil =>
    cases hrun
    exact .refl
  | cons call calls ih =>
    rw [runMounted] at hrun
    split at hrun
    · rename_i fs₁ hexec
      split at hrun
      · cases hrun
      · rename_i hstored
        have hclose : strict = true → ∀ h, call = .closeFile h → LastOpen fs h →
            unstored = false := by
          rintro rfl h rfl -
          simpa [Call.closes] using hstored
        exact .head (.call hexec (hallowed call (by simp) fs) hclose)
          (ih hrun fun c hc => hallowed c (by simp [hc]))
    · cases hrun

theorem mount_restores_after_create :
    ∃ fs₁ fs : Fs (ℕ → UInt8), mkfs memPort (blankFs fun _ => 0) none = some (fs₁, true) ∧
      ReflTransGen (MountStep memPort true) (fs₁, false) (fs, false) ∧ AllClosed fs ∧
      files id fs 0 = some [7] ∧ storedTable id fs.dev = fs.ftbl.bytes ∧
      ∃ fs₂, setup memPort (blankFs fs.dev) = some (fs₂, true) ∧
        (fs₂.ftbl.fileFsDesc 0).size = 1 := by
  have hmkfs : mkfs memPort (blankFs fun _ => 0) none
      = some (flush memPort (formatted memPort (blankFs fun _ => 0) none), true) :=
    mkfs_eq memPort_reliable.succeeds rfl none
  obtain ⟨fs, hfs, hclosed, hfiles, hsize⟩ : ∃ fs, runMounted memPort true
      (flush memPort (formatted memPort (blankFs fun _ => 0) none)) false
      [.createFile [97], .writeFile [7] 0, .createFile [98], .closeFile 0, .closeFile 1]
        = some (fs, false) ∧
      AllClosed fs ∧ files id fs 0 = some [7] ∧ (fs.ftbl.fileFsDesc 0).size = 1 := by
    refine ⟨_, rfl, ?_, ?_, ?_⟩ <;> decide +kernel
  have hrun := run_of_runMounted hfs (by simp [Call.Allowed])
  obtain ⟨hstored, hmount⟩ := mount_restores memPort_reliable hmkfs hrun hclosed
  obtain ⟨fs₂, hsetup, hfd, -⟩ := hmount (blankFs fs.dev) rfl
  rw [← hfd 0 (by decide)] at hsize
  exact ⟨_, fs, hmkfs, hrun, hclosed, hfiles, hstored, fs₂, hsetup, hsize⟩

/-- A byte is written to a new file, the file is closed and the device is mounted
again: the stored table is the one from before the write, and the file is empty. -/
theorem close_loses_write :
    ∃ fs₁ fs fs₂ : Fs (ℕ → UInt8), mkfs memPort (blankFs fun _ => 0) none = some (fs₁, true) ∧
      runCalls memPort fs₁ [.createFile [97], .writeFile [7] 0, .closeFile 0] = some fs ∧
      AllClosed fs ∧ files id fs 0 = some [7] ∧ storedTable id fs.dev ≠ fs.ftbl.bytes ∧
      setup memPort (blankFs fs.dev) = some (fs₂, true) ∧ files id fs₂ 0 = some [] := by
  have hmkfs : mkfs memPort (blankFs fun _ => 0) none = _ :=
    mkfs_eq memPort_reliable.succeeds rfl none
  refine ⟨_, _, _, hmkfs, rfl, ?_, ?_, fun hstored => ?_, rfl, ?_⟩
  · decide
  · decide
  · -- the low byte of the size of the first file
    have hbyte := congrArg (fun l => l.getD 20 0) hstored
    revert hbyte
    decide +kernel
  · decide +kernel

/-- **Tiny-FS refines the map of byte strings across renames and mounts.**  In every state that
such a run reaches, also one that closes files whose size is not stored, the next call that is
allowed (`Call.Allowed`) makes its step of the map; a change of a name leaves the strings
alone, and so does mounting the device again while its table is the stored one. -/
theorem files_refine_mounts (hr : port.Reliable bytes) {fs₀ fs₁ : Fs δ}
    {label : Option (List UInt8)} {ok unstored : Bool} (hmkfs : mkfs port fs₀ label = some (fs₁, ok))
    (hrun : ReflTransGen (MountStep port false) (fs₁, false) (fs, unstored)) :
    (∀ call ok fs', call.exec port fs = some (fs', ok) → call.Allowed fs ok →
      FileStep (fun h => (fs.fileCtl h).seekPointer) call ok (files bytes fs) (files bytes fs')) ∧
    (∀ name newName ok fs', renameFile port fs name newName = some (fs', ok) →
      (∀ fs₁ i, ffirst fs name = some (fs₁, some i) → i = 0) →
      files bytes fs' = files bytes fs) ∧
    (∀ fresh : Fs δ, fresh.dev = fs.dev → unstored = false →
      ∃ fs', setup port fresh = some (fs', true) ∧ files bytes fs' = files bytes fs) := by
  obtain ⟨chain, hm⟩ := mount_inv hr hmkfs hrun
  refine ⟨fun call ok fs' hexec hallowed => exec_fileStep hr hm.inv hexec hallowed, ?_, ?_⟩
  · intro name newName ok fs' hexec hfirst
    rcases renameFile_cases hr.succeeds hm.inv.lock hexec hfirst (hm.fits.fd 0 (by decide)) with
      ⟨-, e, rfl⟩ | ⟨-, hlive, e, rfl⟩
    · exact files_congr rfl rfl
    · have herror : Touched port fs 0 (setError fs e) := .of_error 0 e
      have hi := (hm.inv.touched herror).renamed (strncpy newName maxFilenameLength)
      exact files_eq_of_chains hm.inv.table hi.table (live_renamed _) (fun h _ => size_renamed _ h)
        fun a hlow ha => hr.flush _ hlow ha
  · intro fresh hdev hstored
    have hrestored := mounted_restored hr hm.fits (hm.stored hstored) hdev
    exact ⟨_, setup_eq hr.succeeds fresh, hrestored.files_eq hm.inv⟩

/-- The file is closed before its size is stored. -/
theorem files_refine_mounts_byte : ∃ fs fs' : Fs (ℕ → UInt8), files id fs 0 = some [7] ∧
    setup memPort (blankFs fs.dev) = some (fs', true) ∧ files id fs' 0 = some [7] := by
  obtain ⟨fs, hfs, hfiles⟩ : ∃ fs, runMounted memPort false
      (flush memPort (formatted memPort (blankFs fun _ => 0) none)) false
      [.createFile [97], .writeFile [7] 0, .closeFile 0, .createFile [98]] = some (fs, false) ∧
      files id fs 0 = some [7] := by
    refine ⟨_, rfl, ?_⟩
    decide +kernel
  have hrun := run_of_runMounted hfs (by simp [Call.Allowed])
  have hmkfs : mkfs memPort (blankFs fun _ => 0) none = _ :=
    mkfs_eq memPort_reliable.succeeds rfl none
  obtain ⟨-, -, hmount⟩ := files_refine_mounts memPort_reliable hmkfs hrun
  obtain ⟨fs', hsetup, hsame⟩ := hmount (blankFs fs.dev) rfl rfl
  exact ⟨fs, fs', hfiles, hsetup, by rw [hsame, hfiles]⟩

end Tfs
