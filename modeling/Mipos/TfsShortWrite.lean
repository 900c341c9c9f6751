/-
Writes that fall short.

`mipos_tfs_write_file` sets the size of the file in the last round of its loop only.
A write that fills the volume before that leaves a file whose seek pointer is behind
its size, on a chain that is longer than the size asks for; an empty write at an end
of file that fills its clusters takes a cluster for nothing.

* `writeFile_empty` — what an empty write does;
* `run_tidy` — runs whose writes all avoid the two cases (`Settles`) keep the invariant
  of the cluster table;
* `write_completes_iff` — with enough free clusters a write is completed, unless it
  crosses an end of file that fills its clusters;
* `short_write_accounted_iff` — in such a run the fields of the file agree with the
  bytes that a call says it has written, just if the call avoids them too.
-/
import Mipos.TfsIsolation

namespace Tfs

open LinkTable Relation

variable {δ : Type} {port : Port δ} {bytes : δ → ℕ → UInt8} {fs fs' : Fs δ}
  {chain : ℕ → List ℕ} {h : ℕ} {data : List UInt8}

/-! ### Empty writes -/

/-- An empty write is refused behind the end of the file, where the links of the file do
not lead to the seek pointer, and where it finds no cluster to start with. -/
def EmptyRefused (fs : Fs δ) (h : ℕ) : Prop :=
  (fs.ftbl.fileFsDesc h).size < (fs.fileCtl h).seekPointer ∨ (seekCluster fs h).1 = false ∨
    (AtEnd fs h ∧ freeClusters fs.ftbl.clusterTbl = 0)

instance (fs : Fs δ) (h : ℕ) : Decidable (EmptyRefused fs h) :=
  inferInstanceAs (Decidable (_ ∨ _ ∨ _))

/-- What follows the start of an empty write that finds a cluster. -/
theorem writeLoop_empty {fs₁ : Fs δ} (hl : fs₁.lock = false)
    (hseek : (fs₁.fileCtl h).seekPointer ≤ (fs₁.ftbl.fileFsDesc h).size)
    (hlt : (fs₁.fileCtl h).seekPointer < 2 ^ 32) (c off : ℕ) (src : List UInt8) :
    (writeLoop port h (0 + 1) fs₁ c off src 0).bind (afterLoop h 0 c)
      = some ((unlockFile (setFd fs₁ h { fs₁.ftbl.fileFsDesc h with
        firstCluster := firstAfter (fs₁.ftbl.fileFsDesc h) c }) h).1, true, 0) := by
  rw [writeLoop_zero hl hseek, advance_zero hlt, Option.bind_some, afterLoop, if_neg (by simp),
    setFirst_eq hl]
  rfl

/-- **An empty write** is refused, or does nothing inside the file; at an end of file that
fills its clusters it takes a free cluster. -/
theorem writeFile_empty (port : Port δ) (hl : fs.lock = false) (ho : OpenForWrite fs h)
    (hlt : (fs.fileCtl h).seekPointer < 2 ^ 32) (src : List UInt8) :
    (EmptyRefused fs h ∧
      writeFile port fs src 0 h = some (setError fs .writeFailed, false, 0)) ∨
    (¬EmptyRefused fs h ∧ ¬AtEnd fs h ∧ writeFile port fs src 0 h = some (fs, true, 0)) ∨
    (¬EmptyRefused fs h ∧ AtEnd fs h ∧ ∃ x fs' ok, fs.ftbl.clusterTbl x = freeCluster ∧
      writeFile port fs src 0 h = some (fs', ok, 0) ∧ fs'.ftbl.clusterTbl x ≠ freeCluster) := by
  have hl₁ : (holding fs h).lock = false := hl
  rw [writeFile_eq port hl ho]
  by_cases hpast : (fs.ftbl.fileFsDesc h).size < (fs.fileCtl h).seekPointer
  · rw [if_pos hpast]
    exact .inl ⟨.inl hpast, rfl⟩
  rw [if_neg hpast, writeBegin, seekCluster_holding]
  cases hwalk : (seekCluster fs h).1 with
  | false =>
    rw [if_pos rfl]
    dsimp only
    rw [writeFail, ho.unlock]
    exact .inl ⟨.inr (.inl hwalk), rfl⟩
  | true =>
    rw [if_neg (by decide)]
    by_cases hend : AtEnd fs h
    · rw [if_pos (atEnd_holding.mpr hend), holding_ftbl]
      cases hx : firstFree fs.ftbl.clusterTbl with
      | none =>
        dsimp only
        rw [writeFail, ho.unlock]
        exact .inl ⟨.inr (.inr ⟨hend, firstFree_eq_none_iff.mp hx⟩), rfl⟩
      | some x =>
        have hfree := (firstFree_spec hx).2
        have hrefused : ¬EmptyRefused fs h := by
          rintro (hlt | hno | ⟨-, hnone⟩)
          · exact hpast hlt
          · simp [hwalk] at hno
          · rw [firstFree_eq_none_iff.mpr hnone] at hx
            cases hx
        refine .inr (.inr ⟨hrefused, hend, x, ?_⟩)
        -- the cluster stays in use, whether it can be linked or not
        dsimp only
        split_ifs with hzero hc
        · dsimp only
          rw [writeLoop_empty (by exact hl) (by simpa using hpast) (by simpa using hlt)]
          exact ⟨_, _, hfree, rfl, by simp [freeCluster, reservedCluster]⟩
        · dsimp only
          rw [writeLoop_empty (by exact hl) (by simpa using hpast) (by simpa using hlt)]
          refine ⟨_, _, hfree, rfl, ?_⟩
          have hx' : x ≠ freeCluster := by
            have := (firstFree_spec hx).1
            simp only [clustersCount, storageAreaSize, clusterSize, freeCluster] at *
            omega
          rcases eq_or_ne x (seekCluster fs h).2 with heq | hne
          · simpa [← heq] using hx'
          · simp [hne, freeCluster, reservedCluster]
        · exact ⟨_, _, hfree, rfl, by simp [freeCluster, reservedCluster]⟩
    · rw [if_neg (mt atEnd_holding.mp hend)]
      have hrefused : ¬EmptyRefused fs h := by
        rintro (hlt | hno | ⟨hyes, -⟩)
        · exact hpast hlt
        · simp [hwalk] at hno
        · exact hend hyes
      refine .inr (.inl ⟨hrefused, hend, ?_⟩)
      -- a first cluster that does not exist is where the walk ends
      have hfirst : firstAfter (fs.ftbl.fileFsDesc h) (seekCluster fs h).2
          = (fs.ftbl.fileFsDesc h).firstCluster := by
        rw [firstAfter]
        split_ifs with hge
        · exact walk_of_ge hge _
        · rfl
      dsimp only
      rw [writeLoop_empty hl₁ (by simpa using hpast) (by simpa using hlt), unlockFile,
        if_neg (Nat.not_le.mpr ho.valid)]
      simp [holding, setFd, setCtl, hfirst, ← ho.unlocked]

/-! ### Runs -/

/-- A write of `n` bytes after which the fields of the file agree: one that is not
stopped for want of clusters, and that takes none if it is empty. -/
def Settles (fs : Fs δ) (h n : ℕ) : Prop :=
  if n = 0 then AtEnd fs h → freeClusters fs.ftbl.clusterTbl = 0
  else CrossesEnd fs h n ∨ clustersNeeded fs h n ≤ freeClusters fs.ftbl.clusterTbl ∨
    (AtEnd fs h ∧ freeClusters fs.ftbl.clusterTbl = 0)

instance (fs : Fs δ) (h n : ℕ) : Decidable (Settles fs h n) :=
  inferInstanceAs (Decidable (if n = 0 then AtEnd fs h → freeClusters fs.ftbl.clusterTbl = 0
    else CrossesEnd fs h n ∨ clustersNeeded fs h n ≤ freeClusters fs.ftbl.clusterTbl ∨
      (AtEnd fs h ∧ freeClusters fs.ftbl.clusterTbl = 0)))

/-- A write that fills the volume has found a cluster to start with. -/
theorem FilledUp.not_refused (ht : TableInv fs.ftbl chain) (hlive : fs.ftbl.Live h) {l : List ℕ}
    (hf : FilledUp port fs fs' h chain data l) :
    ¬(AtEnd fs h ∧ freeClusters fs.ftbl.clusterTbl = 0) := by
  rintro ⟨⟨hend, hzero⟩, hnone⟩
  have hcard := ht.freeClusters_add hf.grows hf.chains
  have hfull : freeClusters fs'.ftbl.clusterTbl = 0 := firstFree_eq_none_iff.mp hf.full
  have hlen := hf.length
  have hpast := hf.past
  rw [hfull, hnone, ht.length h hlive] at hcard
  simp only [clustersFor, clusterSize] at *
  omega

/-- The calls of a run: every write settles, only files that are not open are deleted,
and the only file to be renamed is the one in the first slot. -/
def Call.Settled (fs : Fs δ) : Call → Prop
  | .writeFile data h => Writable fs h → Settles fs h data.length
  | .deleteFile name => DeletesClosed fs name
  | .renameFile name _ => ∀ fs₁ i, ffirst fs name = some (fs₁, some i) → i = 0
  | _ => True

/-- What holds in the states of such a run. -/
structure Tidy (bytes : δ → ℕ → UInt8) (fs : Fs δ) : Prop where
  inv : ∃ chain, FsInv fs chain
  fits : fs.ftbl.Fits
  /-- the table that `mipos_tfs_setup` would find -/
  stored : ∃ t chain, TableInv t chain ∧ t.Fits ∧ storedTable bytes fs.dev = t.bytes

theorem Tidy.touched (hr : port.Reliable bytes) (hs : Tidy bytes fs)
    (ht : Touched port fs h fs') : Tidy bytes fs' where
  inv := hs.inv.imp fun _ hi => hi.touched ht
  fits := ht.ftbl_eq ▸ hs.fits
  stored := by
    rw [storedTable, hr.reads ht.reads]
    exact hs.stored

/-- The table is stored. -/
theorem tidy_flush (hr : port.Reliable bytes) (hi : FsInv fs chain) (hfits : fs.ftbl.Fits) :
    Tidy bytes (flush port fs) :=
  ⟨⟨chain, hi.flush⟩, hfits, fs.ftbl, chain, hi.table, hfits, storedTable_flush hr fs⟩

/-- One effect of a call. -/
theorem Effect.tidy (hr : port.Reliable bytes) (hs : Tidy bytes fs) (hi : FsInv fs chain)
    {call : Call} {ok : Bool} {chain' : ℕ → List ℕ}
    (he : Effect port fs chain call ok fs' chain') : Tidy bytes fs' := by
  have hi' := he.inv hi
  have hfits' := he.fits hi hs.fits
  cases he with
  | format label => exact ⟨⟨_, hi'⟩, hfits', _, _, hi'.table, hfits', storedTable_flush hr _⟩
  | touch ht _ => exact hs.touched hr ht
  | opens hlive => exact ⟨⟨_, hi'⟩, hfits', hs.stored⟩
  | close h => exact ⟨⟨_, hi'⟩, hfits', hs.stored⟩
  | create e hlt herased => exact ⟨⟨_, hi'⟩, hfits', _, _, hi'.table, hfits', storedTable_flush hr _⟩
  | remove e hlive hclosed =>
    exact ⟨⟨_, hi'⟩, hfits', _, _, hi'.table, hfits', storedTable_flush hr _⟩
  | write hw => exact ⟨⟨_, hi'⟩, hfits', hw.storedTable_eq hr ▸ hs.stored⟩

theorem Tidy.mounted (hr : port.Reliable bytes) (hs : Tidy bytes fs) :
    Tidy bytes (mounted port fs) := by
  obtain ⟨t, chain, ht, hfits, hstored⟩ := hs.stored
  -- the device as it is, with the table that is stored on it
  have hres : Restored bytes { fs with ftbl := t } (Tfs.mounted port fs) :=
    mounted_restored hr hfits hstored rfl
  have hi := hres.inv ht
  have hfits' := hres.agree.fits hfits
  exact ⟨⟨chain, hi⟩, hfits', _, chain, hi.table, hfits', hres.stored⟩

/-- A write that settles. -/
theorem Tidy.writeFile (hr : port.Reliable bytes) (hs : Tidy bytes fs)
    (hsettles : Writable fs h → Settles fs h data.length) {r : Bool × ℕ}
    (hrun : Tfs.writeFile port fs data data.length h = some (fs', r)) : Tidy bytes fs' := by
  obtain ⟨chain, hi⟩ := hs.inv
  by_cases hw : Writable fs h
  · have hset := hsettles hw
    rcases Nat.eq_zero_or_pos data.length with hzero | hpos
    · rw [Settles, if_pos hzero] at hset
      rw [hzero] at hrun
      have hlt : (fs.fileCtl h).seekPointer < 2 ^ 32 :=
        hw.seek_le.trans_lt ((hi.table.size_le hw.live).trans_lt (by decide))
      rcases writeFile_empty port hi.lock hw.openForWrite hlt data with
        ⟨-, heq⟩ | ⟨-, -, heq⟩ | ⟨hrefused, hend, -⟩
      · cases heq.symm.trans hrun
        exact hs.touched hr (.of_error h _)
      · cases heq.symm.trans hrun
        exact hs
      · exact absurd (.inr (.inr ⟨hend, hset hend⟩)) hrefused
    · rw [Settles, if_neg (Nat.pos_iff_ne_zero.mp hpos)] at hset
      obtain ⟨fs₁, ok, k, heq, hend⟩ := writeFile_ends hr.succeeds hi hw hpos
      cases heq.symm.trans hrun
      cases hend with
      | complete hcross hroom hok => exact (Effect.write hok).tidy hr hs hi
      | crossing hcross hk hend hok => exact (Effect.write hok).tidy hr hs hi
      | refused hend hfull => exact hs.touched hr (.of_error h _)
      | filled hcross hroom hk hf =>
        rcases hset with hyes | hle | hrefused
        · exact absurd hyes hcross
        · omega
        · exact absurd hrefused (hf.not_refused hi.table hw.live)
  · obtain ⟨fs₁, heq, ht⟩ := writeFile_rejected port hi hw data data.length
    cases heq.symm.trans hrun
    exact hs.touched hr ht

/-- **Every call of a run keeps the tables in order.** -/
theorem Tidy.exec (hr : port.Reliable bytes) (hs : Tidy bytes fs) {call : Call} {ok : Bool}
    (hsettled : call.Settled fs) (hexec : call.exec port fs = some (fs', ok)) : Tidy bytes fs' := by
  obtain ⟨chain, hi⟩ := hs.inv
  -- all calls but three are those of `Step`
  have hstep : call.Allowed fs ok → Tidy bytes fs' := by
    intro hallowed
    obtain ⟨chain', he⟩ := exec_effect hr.succeeds hi hexec hallowed
    exact he.tidy hr hs hi
  cases call with
  | setup =>
    rw [Call.exec, setup_eq hr.succeeds] at hexec
    cases hexec
    exact hs.mounted hr
  | renameFile name newName =>
    rcases renameFile_keeps hr.succeeds hi hs.fits hexec hsettled with
      ⟨-, e, rfl⟩ | ⟨-, fs₂, rfl, hi₂, hfits⟩
    · exact hs.touched hr (.of_error 0 e)
    · exact tidy_flush hr hi₂ hfits
  | writeFile data h =>
    obtain ⟨r, hrun, -⟩ := exec_map hexec
    exact hs.writeFile hr hsettled hrun
  | deleteFile name => exact hstep hsettled
  | mkfs => exact hstep trivial
  | createFile => exact hstep trivial
  | openFile => exact hstep trivial
  | closeFile => exact hstep trivial
  | seekFile => exact hstep trivial
  | readFile => exact hstep trivial

/-- **Every run** from a formatted device keeps them in order. -/
theorem run_tidy (hr : port.Reliable bytes) {fs₀ fs₁ : Fs δ} {label : Option (List UInt8)}
    {ok : Bool} (hmkfs : mkfs port fs₀ label = some (fs₁, ok))
    (hrun : ReflTransGen (CallStep port Call.Settled) fs₁ fs) : Tidy bytes fs := by
  induction hrun with
  | refl =>
    obtain ⟨chain, hm⟩ : ∃ chain, MountInv bytes false fs₁ false chain :=
      mount_inv hr hmkfs .refl
    exact ⟨⟨chain, hm.inv⟩, hm.fits, _, chain, hm.inv.table, hm.fits, hm.stored rfl⟩
  | tail _ hstep ih =>
    obtain ⟨call, ok, hexec, hsettled⟩ := hstep
    exact ih.exec hr hsettled hexec

/-- A test for the calls of a run that neither deletes nor renames. -/
def Call.settledTest (fs : Fs δ) : Call → Bool
  | .writeFile data h => decide (Writable fs h → Settles fs h data.length)
  | .deleteFile _ => false
  | .renameFile _ _ => false
  | _ => true

theorem Call.settled_of_test (fs : Fs δ) (call : Call) (htest : call.settledTest fs = true) :
    call.Settled fs := by
  cases call with
  | writeFile data h =>
    show Writable fs h → Settles fs h data.length
    exact of_decide_eq_true htest
  | deleteFile name => cases htest
  | renameFile name newName => cases htest
  | _ => trivial

/-- The state after the calls on a formatted device, if they pass the test. -/
def settledRun (calls : List Call) : Option (Fs (ℕ → UInt8)) :=
  (mkfs memPort (blankFs fun _ => 0) none).bind fun r =>
    if r.2 then runTested memPort Call.settledTest r.1 calls else none

theorem run_of_settledRun {calls : List Call} {fs : Fs (ℕ → UInt8)}
    (hrun : settledRun calls = some fs) :
    ∃ fs₁, mkfs memPort (blankFs fun _ => 0) none = some (fs₁, true) ∧
      ReflTransGen (CallStep memPort Call.Settled) fs₁ fs := by
  obtain ⟨⟨fs₁, ok⟩, hmkfs, hrun⟩ := Option.bind_eq_some_iff.mp hrun
  dsimp only at hrun
  split at hrun
  · rename_i hok
    subst hok
    exact ⟨fs₁, hmkfs, run_of_runTested Call.settled_of_test hrun⟩
  · cases hrun

/-! ### Enough room -/

/-- The bytes `data` are in the file `h`, from its old seek pointer on, and what the
file says of itself agrees with that. -/
structure Accounted (port : Port δ) (fs fs' : Fs δ) (h : ℕ) (data : List UInt8) : Prop where
  size : (fs'.ftbl.fileFsDesc h).size
    = max (fs.ftbl.fileFsDesc h).size ((fs.fileCtl h).seekPointer + data.length)
  seek : (fs'.fileCtl h).seekPointer = (fs.fileCtl h).seekPointer + data.length
  reads : 0 < data.length → ∃ fs₁, readFile port
    (setCtl fs' h { fs'.fileCtl h with seekPointer := (fs.fileCtl h).seekPointer }) data.length h
      = some (fs₁, true, data.length, data)
  clusters : ∃ l, Seg fs'.ftbl.clusterTbl (fs'.ftbl.fileFsDesc h).firstCluster l (stopMark l) ∧
    l.Nodup ∧ (∀ c ∈ l, c < clustersCount) ∧
    l.length = clustersFor (fs'.ftbl.fileFsDesc h).size

theorem TableInv.clusters (ht : TableInv fs.ftbl chain) (hlive : fs.ftbl.Live h) :
    ∃ l, Seg fs.ftbl.clusterTbl (fs.ftbl.fileFsDesc h).firstCluster l (stopMark l) ∧
      l.Nodup ∧ (∀ c ∈ l, c < clustersCount) ∧
      l.length = clustersFor (fs.ftbl.fileFsDesc h).size :=
  ⟨chain h, ht.seg_file hlive, ht.chains.nodup h, ht.chains.valid h, ht.length h hlive⟩

/-- A write that ends as it should is accounted for. -/
theorem WriteOk.accounted (hr : port.Reliable bytes) (hi : FsInv fs chain) {l : List ℕ}
    (hw : WriteOk port fs fs' h chain data l) : Accounted port fs fs' h data := by
  have hlive' := (hw.live_iff h).mpr hw.live
  have hseek : (fs'.fileCtl h).seekPointer = (fs.fileCtl h).seekPointer + data.length := by
    rw [hw.state]
    simp [writtenState, wrote, setTable]
  refine ⟨hw.size_eq, hseek, fun hpos => ?_, hw.inv.table.clusters hlive'⟩
  -- the state with the seek pointer set back
  obtain ⟨fs₂, hfs₂⟩ : ∃ fs₂, fs₂ = setCtl fs' h
      { fs'.fileCtl h with seekPointer := (fs.fileCtl h).seekPointer } := ⟨_, rfl⟩
  have ht : Touched port fs' h fs₂ :=
    hfs₂ ▸ .of_ctl h _ fs'.lastErrorCode rfl rfl id
  have hseek₂ : (fs₂.fileCtl h).seekPointer = (fs.fileCtl h).seekPointer := by simp [hfs₂]
  have hopen : (fs₂.fileCtl h).isOpen = true := by
    rw [ht.isOpen_eq, hw.state]
    simpa [writtenState, wrote, setTable] using hw.isOpen
  have hsize : (fs₂.ftbl.fileFsDesc h).size
      = max (fs.ftbl.fileFsDesc h).size ((fs.fileCtl h).seekPointer + data.length) := by
    rw [ht.ftbl_eq, hw.size_eq]
  have hmax := (hw.inv.table.size_le hlive').trans_lt (show storageAreaSize < 2 ^ 32 by decide)
  rw [hw.size_eq] at hmax
  obtain ⟨fs₁, hread, -⟩ := readFile_spec hr (hw.inv.touched ht) hw.live.1 hopen hpos
    (by rw [hseek₂, hsize]; omega) (by rw [hseek₂]; omega)
  have hcontents : contents bytes fs₂ h
      = splice (contents bytes fs h) (fs.fileCtl h).seekPointer data := by
    rw [← hw.contents_eq hr hi, hfs₂]
    rfl
  rw [hseek₂, hsize, hcontents,
    drop_take_splice (by rw [length_contents]; exact hw.seek_le)] at hread
  refine ⟨fs₁, ?_⟩
  rw [← hfs₂, hread]
  congr 4
  omega

/-- **A short write is accounted for** just if it settles: in every state of every run
whose writes do, a write returns a number `k`, and the size, the seek pointer, the
clusters and the bytes of the file are those of a write of `k` bytes, just if it is
not stopped for want of clusters. -/
theorem short_write_accounted_iff (hr : port.Reliable bytes) {fs₀ fs₁ : Fs δ}
    {label : Option (List UInt8)} {ok : Bool} (hmkfs : mkfs port fs₀ label = some (fs₁, ok))
    (hrun : ReflTransGen (CallStep port Call.Settled) fs₁ fs) (hw : Writable fs h)
    (hpos : 0 < data.length) :
    ∃ fs' ok k, writeFile port fs data data.length h = some (fs', ok, k) ∧ k ≤ data.length ∧
      (Accounted port fs fs' h (data.take k) ↔ Settles fs h data.length) := by
  obtain ⟨chain, hi⟩ := (run_tidy hr hmkfs hrun).inv
  obtain ⟨fs', ok, k, heq, hend⟩ := writeFile_ends hr.succeeds hi hw hpos
  have hne := Nat.pos_iff_ne_zero.mp hpos
  rw [Settles, if_neg hne]
  cases hend with
  | complete hcross hroom hok =>
    refine ⟨fs', true, _, heq, le_rfl, iff_of_true ?_ (.inr (.inl hroom))⟩
    rw [List.take_length]
    exact hok.accounted hr hi
  | crossing hcross hk hend hok =>
    exact ⟨fs', false, k, heq, Nat.le_of_lt hk, iff_of_true (hok.accounted hr hi) (.inl hcross)⟩
  | refused hend hfull =>
    refine ⟨_, false, 0, heq, Nat.zero_le _, iff_of_true ?_ (.inr (.inr ⟨hend, ?_⟩))⟩
    · refine ⟨?_, rfl, fun h0 => absurd h0 (by simp), hi.table.clusters hw.live⟩
      exact (Nat.max_eq_left hw.seek_le).symm
    · exact firstFree_eq_none_iff.mp hfull
  | filled hcross hroom hk hf =>
    refine ⟨fs', false, k, heq, Nat.le_of_lt hk, iff_of_false ?_ ?_⟩
    · -- the size is still the old one
      intro hacc
      have hpast := hf.past
      have hsize := hacc.size
      rw [hf.state] at hsize
      simp only [setFd_fileFsDesc, Function.update_self] at hsize
      omega
    · rintro (hyes | hle | hrefused)
      · exact hcross hyes
      · omega
      · exact hf.not_refused hi.table hw.live hrefused

theorem short_write_accounted_iff_sixty : ∃ fs₁ fs fs' : Fs (ℕ → UInt8),
    mkfs memPort (blankFs fun _ => 0) none = some (fs₁, true) ∧
    ReflTransGen (CallStep memPort Call.Settled) fs₁ fs ∧ Writable fs 0 ∧
    Settles fs 0 40 ∧ ∃ ok k, writeFile memPort fs (List.replicate 40 9) 40 0 = some (fs', ok, k) ∧
      Accounted memPort fs fs' 0 ((List.replicate 40 9).take k) := by
  have heval : ∃ fs, settledRun [.createFile [97], .writeFile (List.replicate 20 7) 0] = some fs ∧
      Writable fs 0 ∧ Settles fs 0 40 := by decide +kernel
  obtain ⟨fs, hcalls, hw, hsettles⟩ := heval
  obtain ⟨fs₁, hmkfs, hrun⟩ := run_of_settledRun hcalls
  have hpos : 0 < (List.replicate 40 (9 : UInt8)).length := by decide
  obtain ⟨fs', ok, k, hwrite, -, hiff⟩ :=
    short_write_accounted_iff memPort_reliable hmkfs hrun hw hpos
  exact ⟨fs₁, fs, fs', hmkfs, hrun, hw, hsettles, ok, k, hwrite, hiff.mpr hsettles⟩

/-- **The volume fills up**: one cluster is left when 40 bytes are written to a new
file.  The call says that it has written 32 of them, the seek pointer is there, and
the file is still empty. -/
theorem filled_write_loses_size : ∃ fs₁ fs fs' : Fs (ℕ → UInt8),
    mkfs memPort (blankFs fun _ => 0) none = some (fs₁, true) ∧
    ReflTransGen (CallStep memPort Call.Settled) fs₁ fs ∧ Writable fs 1 ∧
    writeFile memPort fs (List.replicate 40 9) 40 1 = some (fs', false, 32) ∧
    (fs'.ftbl.fileFsDesc 1).size = 0 ∧ (fs'.fileCtl 1).seekPointer = 32 ∧
    ¬Accounted memPort fs fs' 1 ((List.replicate 40 9).take 32) := by
  have heval : ∃ fs, settledRun [.createFile [97], .writeFile (List.replicate 992 7) 0, .createFile
        [98]] = some fs ∧ Writable fs 1 ∧
      ∃ fs', writeFile memPort fs (List.replicate 40 9) 40 1 = some (fs', false, 32) ∧
      (fs'.ftbl.fileFsDesc 1).size = 0 ∧ (fs'.fileCtl 1).seekPointer = 32 := by decide +kernel
  obtain ⟨fs, hcalls, hw, fs', hwrite, hsize, hseek⟩ := heval
  obtain ⟨fs₁, hmkfs, hrun⟩ := run_of_settledRun hcalls
  refine ⟨fs₁, fs, fs', hmkfs, hrun, hw, hwrite, hsize, hseek, fun hacc => ?_⟩
  have hgrown := hacc.size
  rw [hsize] at hgrown
  have hlen : ((List.replicate 40 (9 : UInt8)).take 32).length = 32 := rfl
  omega

end Tfs
