/-
Files do not disturb each other.

The runs are sequences of Tiny-FS calls from `mipos_tfs_mkfs` on, the failed ones
included, with any device that keeps what it is given.  `write_isolated` says that a
write leaves what reading any other file returns as it was, in runs that avoid two
things the code does not guard against:
* a write through a handle whose file was deleted, once the slot is unlocked again
  (`StaleWrite`): the descriptor then says that the file starts at cluster 0;
* a rename of a file that is not in the first slot, which overwrites the size and the
  first cluster of the file that is.

`stale_write_changes_file` is a run of the first kind.
-/
import Mipos.TfsAlone
import Mipos.TfsMount
import Mipos.TfsOwnedCalls
import Mipos.TfsReads

namespace Tfs

open Coroutine OwnedLinks Function Relation

variable {δ ι : Type} {port : Port δ} {bytes : δ → ℕ → UInt8} {fs fs' : Fs δ} {t : Ftbl}

/-! ### The mutex after a call -/

section Mutex

variable {α β : Type}

/-- If the code returns, the mutex is free. -/
def Frees (r : Option (Fs δ × α)) : Prop := ∀ fs a, r = some (fs, a) → fs.lock = false

theorem frees_some (hl : fs.lock = false) (a : α) : Frees (some (fs, a)) := by
  rintro _ _ heq
  cases heq
  exact hl

theorem Frees.bind {r : Option (Fs δ × α)} {k : Fs δ × α → Option (Fs δ × β)} (hr : Frees r)
    (hk : ∀ fs a, fs.lock = false → Frees (k (fs, a))) : Frees (r.bind k) := by
  intro fs b hrun
  obtain ⟨⟨fs₁, a⟩, hfirst, hrest⟩ := Option.bind_eq_some_iff.mp hrun
  exact hk fs₁ a (hr fs₁ a hfirst) fs b hrest

theorem frees_withAccess (body : Fs δ → Option (Fs δ × α)) : Frees (withAccess fs body) := by
  intro fs' a hrun
  obtain ⟨fs₁, -, rfl⟩ := withAccess_some hrun
  rfl

theorem frees_setClusterVal {c v : ℕ} {k : Fs δ → Option (Fs δ × α)}
    (hk : ∀ fs, fs.lock = false → Frees (k fs)) : Frees ((setClusterVal fs c v).bind k) := by
  rw [setClusterVal, Option.bind_eq_bind, Option.bind_assoc]
  exact (frees_withAccess _).bind fun fs _ hl => hk fs hl

theorem frees_getNextCluster (hl : fs.lock = false) (c : ℕ) : Frees (getNextCluster fs c) := by
  rw [getNextCluster_eq hl]
  exact frees_some hl _

theorem frees_clusterWalk (hl : fs.lock = false) (left c : ℕ) : Frees (clusterWalk fs left c) := by
  rw [clusterWalk_eq hl]
  exact frees_some hl _

theorem frees_linkCluster (hl : fs.lock = false) (c d : ℕ) : Frees (linkCluster fs c d) := by
  rw [linkCluster]
  split_ifs
  · exact frees_some hl _
  · exact frees_setClusterVal fun fs hl => frees_some hl _

theorem frees_markLast (c : ℕ) (fs : Fs δ) (next : Option ℕ) (hl : fs.lock = false) :
    Frees (match next with
      | none => (markClusterLast fs c).bind fun fs => some (fs, none)
      | some d => some (fs, some d)) := by
  cases next with
  | none => exact frees_setClusterVal fun fs hl => frees_some hl _
  | some d => exact frees_some hl _

theorem frees_nextForWrite (hl : fs.lock = false) (grown : Bool) (c : ℕ) :
    Frees (nextForWrite fs grown c) := by
  rw [nextForWrite]
  split_ifs
  · exact (frees_withAccess _).bind (frees_markLast c)
  · exact (frees_getNextCluster hl c).bind (frees_markLast c)

theorem frees_writeLoop (h fuel c off n : ℕ) (src : List UInt8) :
    Frees (writeLoop port h fuel fs c off src n) := by
  induction fuel generalizing fs c off n src with
  | zero => exact fun _ _ hrun => nomatch hrun
  | succ fuel ih =>
    rw [writeLoop]
    refine (frees_withAccess _).bind fun fs r hl => (frees_withAccess _).bind fun fs _ hl => ?_
    dsimp only
    split
    · split_ifs
      · exact frees_setClusterVal fun fs hl => frees_some hl _
      · exact frees_some hl _
    · refine (frees_nextForWrite hl _ c).bind fun fs next hl => ?_
      cases next with
      | none => exact frees_some hl _
      | some d =>
        dsimp only
        split_ifs
        · exact frees_some hl _
        · exact (frees_linkCluster hl c d).bind fun fs _ _ => ih _ _ _ _

theorem frees_writeStart (hl : fs.lock = false) (fd : Fd) (ctl : Ctl) :
    Frees (writeStart fs fd ctl) := by
  rw [writeStart]
  split_ifs
  · refine (frees_clusterWalk hl _ _).bind fun fs r hl => ?_
    dsimp only
    split
    · exact frees_some hl _
    · refine (frees_withAccess _).bind fun fs first hl => ?_
      cases first with
      | none => exact frees_some hl _
      | some d => exact (frees_linkCluster hl _ d).bind fun fs _ hl => frees_some hl _
  · exact frees_withAccess _
  · exact (frees_clusterWalk hl _ _).bind fun fs _ hl => frees_some hl _

theorem frees_writeFile (hl : fs.lock = false) (src : List UInt8) (wbytes h : ℕ) :
    Frees (writeFile port fs src wbytes h) := by
  have hfail : ∀ fs : Fs δ, fs.lock = false → Frees (some (writeFail fs h)) := by
    intro fs hl
    exact frees_some ((unlockFile_lock (setError fs .writeFailed) h).trans hl) _
  rcases free_or_busy fs h with hfree | hbusy
  · rw [writeFile, lockFile_free hfree.1 hfree.2]
    refine (frees_withAccess _).bind fun fs r hl => ?_
    dsimp only
    split
    · exact hfail fs hl
    · split
      · exact hfail fs hl
      · refine (frees_writeStart hl _ _).bind fun fs first hl => ?_
        cases first with
        | none => exact hfail fs hl
        | some d =>
          refine (frees_writeLoop h _ d _ _ _).bind fun fs r hl => ?_
          dsimp only
          split
          · exact frees_some ((unlockFile_lock _ h).trans hl) _
          · exact (frees_withAccess _).bind fun fs _ hl =>
              frees_some ((unlockFile_lock _ h).trans hl) _
  · rw [writeFile, lockFile_busy hbusy]
    exact hfail fs hl

theorem frees_deleteFile (hp : port.Succeeds) (hl : fs.lock = false) (name : Option (List UInt8)) :
    Frees (deleteFile port fs name) := by
  intro fs' ok hrun
  rcases deleteFile_cases hp hl hrun with ⟨-, h, ht⟩ | ⟨-, i, e, fs₁, -, -, hloop, rfl⟩
  · exact ht.lock_eq.trans hl
  · have hl' : (erased (setError fs e) i).lock = false := hl
    obtain ⟨tbl, rfl⟩ := deleteLoop_some hl' hloop
    exact hl

end Mutex

/-! ### What calls on a slot leave alone -/

section Runs

variable {w : Bool} {g h : ℕ} {x y : Shared δ ι}

theorem env_of_acts (hne : g ≠ h) (hrun : ReflTransGen (Acts port w h) x y) :
    Env g x y := by
  induction hrun with
  | refl => exact .refl g x
  | tail _ ha ih => exact ih.trans (ha.env hne)

theorem clusterAddr_lt {c o : ℕ} (hc : c < clustersCount) (ho : o < clusterSize) :
    tfsSize ≤ clusterAddr c o ∧ clusterAddr c o < volumeSize := by
  have hend := cluster_end_le hc (show o + 1 ≤ clusterSize from ho)
  rw [clusterAddr_eq hc ho]
  omega

/-- Bytes stored in a cluster leave everything outside of it alone. -/
theorem put_outside (hr : port.Reliable bytes) {dev : δ} {c off a : ℕ} {data : List UInt8}
    (hc : c < clustersCount) (hoff : off < clusterSize) (hlen : off + data.length ≤ clusterSize)
    (ha : a < volumeSize) (hout : ∀ o, o < clusterSize → a ≠ clusterAddr c o) :
    bytes (port.put dev data (clusterAddr c off)) a = bytes dev a := by
  have haddr := clusterAddr_eq hc hoff
  have hfits : clusterAddr c off + data.length ≤ volumeSize := by
    rw [haddr]
    exact cluster_end_le hc hlen
  rw [hr.put dev data _ a hfits ha, if_neg]
  rintro ⟨hlow, hhigh⟩
  have hin : off + (a - clusterAddr c off) < clusterSize := by omega
  refine hout _ hin ?_
  rw [clusterAddr_eq hc hin]
  omega

/-- An action changes no byte of clusters that are not those of its slot. -/
theorem Acts.bytes_eq (hr : port.Reliable bytes) (ha : Acts port w h x y) {c o : ℕ}
    (hc : c < clustersCount) (hown : x.owner c ≠ some h) (ho : o < clusterSize) :
    bytes y.fs.dev (clusterAddr c o) = bytes x.fs.dev (clusterAddr c o) := by
  obtain ⟨hlow, hhigh⟩ := clusterAddr_lt hc ho
  rcases ha.dev with (hsame | ⟨d, off, data, hd, hoff, hlen, hput⟩) | ⟨-, hstore⟩
  · rw [hsame]
  · rw [hput]
    refine put_outside hr hd.1 hoff hlen hhigh fun o' ho' heq => hown ?_
    -- equal addresses are in the same cluster
    rw [clusterAddr_eq hc ho, clusterAddr_eq hd.1 ho'] at heq
    have hcd : c = d := by
      simp only [clusterSize] at *
      omega
    rw [hcd]
    exact hd.2
  · have hflush := hr.flush x.fs hlow hhigh
    rw [hstore.dev]
    exact hflush

theorem bytes_of_acts (hr : port.Reliable bytes) (hne : g ≠ h) {c o : ℕ} (hc : c < clustersCount)
    (hown : x.owner c = some g) (ho : o < clusterSize)
    (hrun : ReflTransGen (Acts port w h) x y) :
    bytes y.fs.dev (clusterAddr c o) = bytes x.fs.dev (clusterAddr c o) := by
  induction hrun with
  | refl => rfl
  | @tail y z hrun ha ih =>
    have howner := ((env_of_acts hne hrun).stays.keeps.kept c hown).1
    rw [ha.bytes_eq hr hc (by simp [howner, hne]) ho, ih]

end Runs

/-! ### Sound tables -/

/-- The clusters have owners, and every file is in order. -/
structure Ftbl.Sound (t : Ftbl) : Prop where
  ledger : ∃ owner, Ledger t owner
  rest : ∀ h, AtRest t h
  small : t.Small

/-- What holds between two calls. -/
structure Sound (bytes : δ → ℕ → UInt8) (fs : Fs δ) : Prop where
  lock : fs.lock = false
  table : fs.ftbl.Sound
  /-- the table that `mipos_tfs_setup` would find -/
  stored : ∃ t : Ftbl, t.Sound ∧ storedTable bytes fs.dev = t.bytes

theorem fromLe_le32_pos {v : ℕ} (hv : 0 < fromLe (le32 v)) : 0 < v := by
  rcases Nat.eq_zero_or_pos v with rfl | hpos
  · exact absurd hv (by decide)
  · exact hpos

/-- A new descriptor in a sound table: its file starts where the old one did, or it is
empty. -/
theorem Ftbl.Sound.setFd (ht : fs.ftbl.Sound) {i : ℕ} {fd : Fd}
    (hroot : fd.erased = 0 → fd.firstCluster < clustersCount →
      (fs.ftbl.fileFsDesc i).erased = 0 ∧ fd.firstCluster = (fs.ftbl.fileFsDesc i).firstCluster)
    (hrest : fd.erased = 0 → 0 < fd.size → fd.firstCluster < clustersCount)
    (hsmall : fd.firstCluster < 2 ^ 16) : (setFd fs i fd).ftbl.Sound where
  ledger := by
    obtain ⟨owner, hl⟩ := ht.ledger
    refine ⟨owner, hl.congr (fun _ _ => rfl) ?_⟩
    rintro k r ⟨⟨hk, he⟩, rfl⟩ hvalid
    rcases eq_or_ne k i with rfl | hki
    · simp only [setFd_fileFsDesc, update_self] at he hvalid ⊢
      obtain ⟨he', hfirst⟩ := hroot he hvalid
      exact ⟨⟨hk, he'⟩, hfirst.symm⟩
    · simp only [setFd_fileFsDesc, update_of_ne hki] at he ⊢
      exact ⟨⟨hk, he⟩, rfl⟩
  rest k hlive hsize := by
    rcases eq_or_ne k i with rfl | hki
    · have he := hlive.2
      simp only [setFd_fileFsDesc, update_self] at he hsize ⊢
      exact hrest he hsize
    · have he := hlive.2
      simp only [setFd_fileFsDesc, update_of_ne hki] at he hsize ⊢
      exact ht.rest k ⟨hlive.1, he⟩ hsize
  small := by
    refine ⟨ht.small.tbl, fun k hk => ?_⟩
    rcases eq_or_ne k i with rfl | hki
    · simpa using hsmall
    · simpa [hki] using ht.small.first k hk

/-- A sound table read back from its bytes is sound. -/
theorem Ftbl.Sound.ofBytes (ht : t.Sound) : (Ftbl.ofBytes t.bytes).Sound := by
  have hfd : ∀ h, h < maxNOfFiles → (Ftbl.ofBytes t.bytes).fileFsDesc h
      = ⟨chars maxFilenameLength (t.fileFsDesc h).filename, fromLe (le32 (t.fileFsDesc h).size),
        (t.fileFsDesc h).firstCluster, (t.fileFsDesc h).erased, (t.fileFsDesc h).readonly⟩ := by
    intro h hh
    rw [ofBytes_fileFsDesc t hh, Fd.ofBytes_eq, fromLe_le16 (ht.small.first h hh)]
  have htbl : ∀ c, c < clustersCount → (Ftbl.ofBytes t.bytes).clusterTbl c = t.clusterTbl c :=
    fun c hc => ofBytes_clusterTbl hc (ht.small.tbl c hc)
  constructor
  case ledger =>
    obtain ⟨owner, hl⟩ := ht.ledger
    refine ⟨owner, hl.congr htbl ?_⟩
    rintro k r ⟨⟨hk, he⟩, rfl⟩ _
    rw [hfd k hk] at he ⊢
    exact ⟨⟨hk, he⟩, rfl⟩
  case rest =>
    intro k hlive hsize
    have he := hlive.2
    rw [hfd k hlive.1] at he hsize ⊢
    exact ht.rest k ⟨hlive.1, he⟩ (fromLe_le32_pos hsize)
  case small =>
    refine ⟨fun c hc => ?_, fun k hk => ?_⟩
    · rw [htbl c hc]
      exact ht.small.tbl c hc
    · rw [hfd k hk]
      exact ht.small.first k hk

/-! ### Calls that change the clusters -/

/-- What one action does to the table on the device. -/
theorem Acts.stored (hr : port.Reliable bytes) {w : Bool} {h : ℕ} {x y : Shared δ ι}
    (ha : Acts port w h x y) : storedTable bytes y.fs.dev = storedTable bytes x.fs.dev ∨
      (x.fs.ftbl.fileFsDesc h).erased ≠ 0 ∧ storedTable bytes y.fs.dev = x.fs.ftbl.bytes := by
  rcases ha.dev with (hsame | ⟨d, off, data, hd, hoff, hlen, hput⟩) | ⟨-, hstore⟩
  · exact .inl (by rw [hsame])
  · refine .inl (storedTable_congr fun a ha => ?_)
    have hlow : a < tfsSize := Nat.lt_trans ha (by decide)
    rw [hput]
    refine put_outside hr hd.1 hoff hlen (Nat.lt_trans hlow (by decide)) fun o ho heq => ?_
    have haddr := (clusterAddr_lt hd.1 ho).1
    omega
  · refine .inr ⟨hstore.dead, ?_⟩
    have hflush := storedTable_flush hr x.fs
    rw [hstore.dev]
    exact hflush

/-- A table from which only the file of slot `h` differs, and which is in order there. -/
theorem sound_of_others {t' : Ftbl} {owner : ℕ → Option ℕ} {h : ℕ} (ht : t.Sound)
    (hl : Ledger t' owner) (hsmall : t'.Small) (hrest : AtRest t' h)
    (hothers : ∀ k, k ≠ h → t'.fileFsDesc k = t.fileFsDesc k) : t'.Sound where
  ledger := ⟨owner, hl⟩
  small := hsmall
  rest k := by
    rcases eq_or_ne k h with rfl | hk
    · exact hrest
    · intro hlive hsize
      rw [hothers k hk] at hsize ⊢
      exact ht.rest k ⟨hlive.1, hothers k hk ▸ hlive.2⟩ hsize

/-- The actions of a call keep the tables in order, in memory and on the device. -/
theorem sound_of_acts (hr : port.Reliable bytes) {w : Bool} {h : ℕ} {x y : Shared δ ι}
    (hx : Sound bytes x.fs) (hl : Ledger x.fs.ftbl x.owner)
    (hrun : ReflTransGen (Acts port w h) x y) :
    Ledger y.fs.ftbl y.owner ∧ y.fs.ftbl.Small ∧
      (∀ k, k ≠ h → y.fs.ftbl.fileFsDesc k = x.fs.ftbl.fileFsDesc k) ∧
      ∃ t : Ftbl, t.Sound ∧ storedTable bytes y.fs.dev = t.bytes := by
  induction hrun with
  | refl => exact ⟨hl, hx.table.small, fun _ _ => rfl, hx.stored⟩
  | @tail y z _ ha ih =>
    obtain ⟨hly, hsmall, hothers, hstored⟩ := ih
    refine ⟨ha.ledger, ha.small hsmall, fun k hk => (ha.fd k hk).trans (hothers k hk), ?_⟩
    rcases ha.stored hr with hsame | ⟨hdead, hnew⟩
    · rw [hsame]
      exact hstored
    · refine ⟨y.fs.ftbl, sound_of_others hx.table hly hsmall ?_ hothers, hnew⟩
      exact fun hlive => absurd hlive.2 hdead

/-- A task outside calls. -/
def quietly (fs : Fs δ) (owner : ℕ → Option ℕ) : Shared δ Unit := ⟨fs, owner, fun _ => .outside⟩

/-- **A call whose program is safe**, without other tasks. -/
theorem Sound.of_safe {α : Type} (hr : port.Reliable bytes) (hs : Sound bytes fs) {w : Bool} {h : ℕ}
    {p : Task.Op δ Unit α} {f : Fs δ → Option (Fs δ × α)} (hplain : Task.Plain p f)
    {owner : ℕ → Option ℕ} (hl : Ledger fs.ftbl owner)
    (hsafe : Safe True Eq (Acts port w h) (fun _ z => Resting h z) p (quietly fs owner))
    (hfrees : Frees (f fs)) {a : α} (hrun : f fs = some (fs', a)) :
    Sound bytes fs' ∧ ∃ y : Shared δ Unit, y.fs = fs' ∧
      ReflTransGen (Acts port w h) (quietly fs owner) y := by
  have halone := hplain (quietly fs owner)
  obtain ⟨⟨y, b⟩, hy, heq⟩ := Option.map_eq_some_iff.mp (halone.trans hrun)
  obtain ⟨rfl, rfl⟩ := Prod.mk.inj heq
  obtain ⟨hrest, hacts⟩ := hsafe.of_alone (fun _ => rfl) hy
  obtain ⟨hly, hsmall, hothers, hstored⟩ := sound_of_acts hr hs hl hacts
  refine ⟨⟨hfrees _ _ hrun, ?_, hstored⟩, y, rfl, hacts⟩
  exact sound_of_others hs.table hly hsmall hrest.2 hothers

theorem env_of_eq {h : ℕ} : ∀ x z : Shared δ ι, x = z → Env h x z := by
  rintro x _ rfl
  exact .refl h x

theorem Sound.writeFile (hr : port.Reliable bytes) (hs : Sound bytes fs) {src : List UInt8}
    {wbytes h : ℕ} (hstale : ¬StaleWrite fs h) {owner : ℕ → Option ℕ} (hl : Ledger fs.ftbl owner)
    {r : Bool × ℕ} (hrun : writeFile port fs src wbytes h = some (fs', r)) :
    Sound bytes fs' ∧ ∃ y : Shared δ Unit, y.fs = fs' ∧
      ReflTransGen (Acts port true h) (quietly fs owner) y :=
  hs.of_safe hr (Task.plain_writeFile (t := ()) src wbytes h) hl
    (safe_writeFile env_of_eq hr.succeeds ⟨hl, hs.table.rest h⟩ hstale src wbytes)
    (frees_writeFile hs.lock src wbytes h) hrun

/-- Without other tasks a name finds one file at most. -/
theorem findsOnly_of_ffirst (owner : ℕ → Option ℕ) {name : Option (List UInt8)}
    {r : Fs δ × Option ℕ} (hrun : ffirst fs name = some r) :
    ∃ h, FindsOnly Eq (quietly fs owner) h name := by
  cases name with
  | none => exact ⟨0, trivial⟩
  | some name =>
    have hfits : jollyPos name < maxFilenameLength := by
      by_contra hlong
      rw [ffirst, if_pos (Nat.le_of_not_lt hlong)] at hrun
      cases hrun
    refine ⟨((List.range maxNOfFiles).find? fun i =>
      matchesName name (fs.ftbl.fileFsDesc i)).getD 0, hfits, ?_⟩
    rintro z i rfl hi
    have hi' : (List.range maxNOfFiles).find? (fun i => matchesName name (fs.ftbl.fileFsDesc i))
      = some i := hi
    rw [hi']
    rfl

theorem Sound.deleteFile (hr : port.Reliable bytes) (hs : Sound bytes fs)
    {name : Option (List UInt8)} {ok : Bool}
    (hrun : deleteFile port fs name = some (fs', ok)) : Sound bytes fs' := by
  obtain ⟨owner, hl⟩ := hs.table.ledger
  obtain ⟨r, hfirst, -⟩ := Option.bind_eq_some_iff.mp hrun
  obtain ⟨h, hname⟩ := findsOnly_of_ffirst owner hfirst
  exact (hs.of_safe hr (Task.plain_deleteFile (t := ()) name) hl
    (safe_deleteFile env_of_eq hr.succeeds hname ⟨hl, hs.table.rest h⟩)
    (frees_deleteFile hr.succeeds hs.lock name) hrun).1

/-! ### Runs -/

/-- The calls of a run: no write goes through the handle of a deleted file, and the only
file to be renamed is the one in the first slot. -/
def Call.Tame (fs : Fs δ) : Call → Prop
  | .writeFile _ h => ¬StaleWrite fs h
  | .renameFile name _ => ∀ fs₁ i, ffirst fs name = some (fs₁, some i) → i = 0
  | _ => True

/-- One call that meets `P`.  It may fail. -/
def CallStep (port : Port δ) (P : Fs δ → Call → Prop) (fs fs' : Fs δ) : Prop :=
  ∃ (call : Call) (ok : Bool), call.exec port fs = some (fs', ok) ∧ P fs call

/-- One call of a run. -/
abbrev TameStep (port : Port δ) : Fs δ → Fs δ → Prop := CallStep port Call.Tame

/-- The table is left alone, and the device only read. -/
theorem Sound.same (hs : Sound bytes fs) (hlock : fs'.lock = fs.lock) (hftbl : fs'.ftbl = fs.ftbl)
    (hdev : bytes fs'.dev = bytes fs.dev) : Sound bytes fs' where
  lock := hlock.trans hs.lock
  table := hftbl ▸ hs.table
  stored := by
    rw [storedTable, hdev]
    exact hs.stored

theorem Sound.touched (hr : port.Reliable bytes) (hs : Sound bytes fs) {h : ℕ}
    (ht : Touched port fs h fs') : Sound bytes fs' :=
  hs.same ht.lock_eq ht.ftbl_eq (hr.reads ht.reads)

/-- The table is stored. -/
theorem sound_flush (hr : port.Reliable bytes) (hl : fs.lock = false) (ht : fs.ftbl.Sound) :
    Sound bytes (flush port fs) := ⟨hl, ht, fs.ftbl, ht, storedTable_flush hr fs⟩

theorem sound_formatted (fs : Fs δ) (label : Option (List UInt8)) :
    (formatted port fs label).ftbl.Sound := by
  have hfree : ∀ c, c < clustersCount → (formatted port fs label).ftbl.clusterTbl c = freeCluster :=
    fun c hc => if_pos (List.mem_range.mpr hc)
  have hfd : ∀ h, h < maxNOfFiles →
      (formatted port fs label).ftbl.fileFsDesc h = { Fd.zero with erased := 1 } :=
    fun h hh => if_pos hh
  have hdead : ∀ h, ¬(formatted port fs label).ftbl.Live h := by
    rintro h ⟨hh, he⟩
    rw [hfd h hh] at he
    exact absurd he (by decide)
  refine ⟨⟨_, ledger_unused hfree fun h hlive => absurd hlive (hdead h)⟩,
    fun h hlive => absurd hlive (hdead h), fun c hc => ?_, fun h hh => ?_⟩
  · rw [hfree c hc]
    decide
  · rw [hfd h hh]
    decide

theorem sound_mounted (hr : port.Reliable bytes) (hs : Sound bytes fs) :
    Sound bytes (mounted port fs) := by
  obtain ⟨t, ht, hstored⟩ := hs.stored
  refine sound_flush hr rfl ?_
  have hread : (port.get fs.dev sizeofFtbl tfsOffset).2 = t.bytes := by
    rw [hr.get _ _ _ (by decide)]
    exact hstored
  show (Ftbl.ofBytes (port.get fs.dev sizeofFtbl tfsOffset).2).Sound
  rw [hread]
  exact ht.ofBytes

/-- **Every call of a run keeps the tables in order.** -/
theorem Sound.exec (hr : port.Reliable bytes) (hs : Sound bytes fs) {call : Call} {ok : Bool}
    (htame : call.Tame fs) (hexec : call.exec port fs = some (fs', ok)) : Sound bytes fs' := by
  have hp := hr.succeeds
  have hl := hs.lock
  have herror : ∀ e, Sound bytes (setError fs e) := fun _ => hs.same rfl rfl rfl
  cases call with
  | mkfs label =>
    rw [Call.exec, mkfs_eq hp hl] at hexec
    cases hexec
    exact sound_flush hr hl (sound_formatted fs label)
  | setup =>
    rw [Call.exec, setup_eq hp] at hexec
    cases hexec
    exact sound_mounted hr hs
  | createFile name =>
    obtain ⟨⟨done, i⟩, hrun, -⟩ := exec_map hexec
    rcases createFile_cases hp hl hrun with ⟨-, e, rfl⟩ | ⟨-, hi, hdead, e, rfl⟩
    · exact herror e
    · have hempty : ¬emptyCluster < clustersCount := by decide
      have hsmall : emptyCluster < 2 ^ 16 := by decide
      refine sound_flush hr hl (Ftbl.Sound.setFd (herror e).table ?_ ?_ hsmall)
      · exact fun _ hvalid => absurd hvalid hempty
      · exact fun _ hsize => absurd hsize (Nat.lt_irrefl 0)
  | openFile name mode =>
    obtain ⟨⟨done, h⟩, hrun, -⟩ := exec_map hexec
    rcases openFile_cases hl hrun with ⟨-, rfl⟩ | ⟨-, rfl, -⟩
    · exact hs
    · exact hs.same rfl rfl rfl
  | closeFile h =>
    rcases closeFile_cases hl hexec with ⟨-, rfl⟩ | ⟨-, rfl⟩
    · exact herror _
    · exact hs.same rfl rfl rfl
  | seekFile code pos h =>
    have ht : Touched port fs h fs' := seekFile_touched hl hexec
    exact hs.touched hr ht
  | readFile n h =>
    obtain ⟨r, hrun, -⟩ := exec_map hexec
    exact hs.touched hr (readFile_touched hp hl hrun)
  | writeFile data h =>
    obtain ⟨r, hrun, -⟩ := exec_map hexec
    obtain ⟨owner, hledger⟩ := hs.table.ledger
    exact (hs.writeFile hr htame hledger hrun).1
  | deleteFile name => exact hs.deleteFile hr hexec
  | renameFile name newName =>
    rcases renameFile_first hp hl hexec htame with ⟨-, e, rfl⟩ | ⟨-, hlive, e, rfl⟩
    · exact herror e
    · have hsmall := hs.table.small.first 0 (by decide)
      refine sound_flush hr hl (Ftbl.Sound.setFd (herror e).table ?_ ?_ ?_)
      all_goals rw [Fd.ofBytes_eq, fromLe_le16 hsmall]
      · exact fun he _ => ⟨he, rfl⟩
      · exact fun _ hsize => hs.table.rest 0 hlive (fromLe_le32_pos hsize)
      · exact hsmall

/-- **Every run** from a formatted device keeps them in order. -/
theorem run_sound (hr : port.Reliable bytes) {fs₀ fs₁ : Fs δ} {label : Option (List UInt8)}
    {ok : Bool} (hmkfs : mkfs port fs₀ label = some (fs₁, ok))
    (hrun : ReflTransGen (TameStep port) fs₁ fs) : Sound bytes fs := by
  induction hrun with
  | refl =>
    have hl := lock_of_mkfs hmkfs
    rw [mkfs_eq hr.succeeds hl] at hmkfs
    cases hmkfs
    exact sound_flush hr hl (sound_formatted fs₀ label)
  | tail _ hstep ih =>
    obtain ⟨call, ok, hexec, htame⟩ := hstep
    exact ih.exec hr htame hexec

/-! ### Isolation -/

/-- Whatever the control entry and the number of bytes, reading the file in slot `g`
gives the same result in both states. -/
def SameReads (port : Port δ) (g : ℕ) (fs fs' : Fs δ) : Prop :=
  ∀ ctl n, (readFile port (setCtl fs' g ctl) n g).map Prod.snd
    = (readFile port (setCtl fs g ctl) n g).map Prod.snd

/-- Reading depends on clusters that belong to the file, and a call on another slot
leaves these alone. -/
theorem sameReads_of_acts (hr : port.Reliable bytes) {w : Bool} {g h : ℕ} (hne : g ≠ h)
    {x y : Shared δ ι} (hl : Ledger x.fs.ftbl x.owner) (hrest : AtRest x.fs.ftbl g)
    (hlive : x.fs.ftbl.Live g) (hlock : x.fs.lock = false) (hlock' : y.fs.lock = false)
    (hrun : ReflTransGen (Acts port w h) x y) : SameReads port g x.fs y.fs := by
  intro ctl n
  have henv := env_of_acts hne hrun
  have htwins : Twins bytes g (fun c => Held g c x) (setCtl x.fs g ctl) (setCtl y.fs g ctl) := by
    constructor
    case lock => exact hlock
    case lock' => exact hlock'
    case fd => exact henv.stays.fd
    case ctl => simp
    case valid => exact fun c hc => hc.1
    case tbl => exact fun c hc => (henv.stays.keeps.kept c hc.2).2
    case link => exact fun c hc hnext => ⟨hnext, (hl.link c hc.1 hnext).trans hc.2⟩
    case dev => exact fun c o hc ho => bytes_of_acts hr hne hc.1 hc.2 ho hrun
  refine htwins.readFile_eq hr (fun hsize => ?_) n
  have hfirst := hrest hlive hsize
  exact ⟨hfirst, hl.root_owner g _ ⟨hlive, rfl⟩ hfirst⟩

/-- **File isolation**: in every state of every run, a write through the handle `h` leaves
what reading any other file returns as it was. -/
theorem write_isolated (hr : port.Reliable bytes) {fs₀ fs₁ : Fs δ} {label : Option (List UInt8)}
    {ok : Bool} (hmkfs : mkfs port fs₀ label = some (fs₁, ok))
    (hrun : ReflTransGen (TameStep port) fs₁ fs) {src : List UInt8} {wbytes h : ℕ}
    (hstale : ¬StaleWrite fs h) {r : Bool × ℕ}
    (hwrite : writeFile port fs src wbytes h = some (fs', r)) {g : ℕ} (hne : g ≠ h)
    (hlive : fs.ftbl.Live g) : fs'.ftbl.Live g ∧ SameReads port g fs fs' := by
  have hs : Sound bytes fs := run_sound hr hmkfs hrun
  obtain ⟨owner, hl⟩ := hs.table.ledger
  obtain ⟨hs', y, rfl, hacts⟩ := hs.writeFile hr hstale hl hwrite
  refine ⟨⟨hlive.1, ?_⟩, sameReads_of_acts hr hne hl (hs.table.rest g) hlive hs.lock hs'.lock hacts⟩
  rw [(env_of_acts hne hacts).stays.fd]
  exact hlive.2

/-- Calls one after the other, as long as they pass a test. -/
def runTested (port : Port δ) (test : Fs δ → Call → Bool) (fs : Fs δ) : List Call → Option (Fs δ)
  | [] => some fs
  | call :: calls =>
    if test fs call then (call.exec port fs).bind fun r => runTested port test r.1 calls else none

theorem run_of_runTested {P : Fs δ → Call → Prop} {test : Fs δ → Call → Bool} {calls : List Call}
    (htest : ∀ fs call, test fs call = true → P fs call)
    (hrun : runTested port test fs calls = some fs') :
    ReflTransGen (CallStep port P) fs fs' := by
  induction calls generalizing fs with
  | nil =>
    cases hrun
    exact .refl
  | cons call calls ih =>
    rw [runTested] at hrun
    split at hrun
    · rename_i hpass
      obtain ⟨⟨fs₁, ok⟩, hexec, hrest⟩ := Option.bind_eq_some_iff.mp hrun
      exact .head ⟨call, ok, hexec, htest fs call hpass⟩ (ih hrest)
    · cases hrun

/-- A control entry to read from the start. -/
def readCtl : Ctl := ⟨0, false, true, false, .read⟩

/-- After the calls on a formatted device a write of one byte through the handle 0 returns
`TRUE` and changes the first two bytes of the file in slot 1. -/
abbrev Disturbs (calls : List Call) : Prop :=
  ∃ fs₁, mkfs memPort (blankFs fun _ => 0) none = some (fs₁, true) ∧
    ∃ fs, runTested memPort (fun _ _ => true) fs₁ calls = some fs ∧ fs.ftbl.Live 1 ∧
    ∃ fs', writeFile memPort fs [9] 1 0 = some (fs', true, 1) ∧
      (readFile memPort (setCtl fs' 1 readCtl) 2 1).map Prod.snd ≠
        (readFile memPort (setCtl fs 1 readCtl) 2 1).map Prod.snd

theorem Disturbs.not_isolated {calls : List Call} (h : Disturbs calls) :
    ∃ fs₁ fs fs' : Fs (ℕ → UInt8), mkfs memPort (blankFs fun _ => 0) none = some (fs₁, true) ∧
      ReflTransGen (CallStep memPort fun _ _ => True) fs₁ fs ∧
      writeFile memPort fs [9] 1 0 = some (fs', true, 1) ∧ fs.ftbl.Live 1 ∧
      ¬SameReads memPort 1 fs fs' := by
  obtain ⟨fs₁, hmkfs, fs, hrun, hlive, fs', hwrite, hdiffer⟩ := h
  exact ⟨fs₁, fs, fs', hmkfs, run_of_runTested (fun _ _ _ => trivial) hrun, hwrite, hlive,
    fun hsame => hdiffer (hsame readCtl 2)⟩

/-- The file in slot 0 is deleted while it is open.  The first write through its handle
fails, but unlocks the slot; the second one gives the slot a size, and its first
cluster is 0; the third one stores its byte in cluster 0, which is the other file's. -/
theorem stale_write_changes_file : ∃ fs₁ fs fs' : Fs (ℕ → UInt8),
    mkfs memPort (blankFs fun _ => 0) none = some (fs₁, true) ∧
    ReflTransGen (CallStep memPort fun _ _ => True) fs₁ fs ∧
    writeFile memPort fs [9] 1 0 = some (fs', true, 1) ∧ fs.ftbl.Live 1 ∧
    ¬SameReads memPort 1 fs fs' := by
  have heval : Disturbs [.createFile [97], .createFile [98], .writeFile [5, 6] 1,
    .deleteFile (some [97]), .writeFile [9] 0, .writeFile [9] 0] := by decide +kernel
  exact heval.not_isolated

/-- The file in slot 5 gets a name of seven characters, which end in the size of the file
in slot 0; the terminator makes cluster 0 the first one of that file. -/
theorem rename_changes_file : ∃ fs₁ fs fs' : Fs (ℕ → UInt8),
    mkfs memPort (blankFs fun _ => 0) none = some (fs₁, true) ∧
    ReflTransGen (CallStep memPort fun _ _ => True) fs₁ fs ∧
    writeFile memPort fs [9] 1 0 = some (fs', true, 1) ∧ fs.ftbl.Live 1 ∧
    ¬SameReads memPort 1 fs fs' := by
  have heval : Disturbs [.createFile [97], .createFile [98], .writeFile [5, 6] 1,
    .writeFile [1] 0, .createFile [99], .createFile [100], .createFile [101], .createFile [102],
    .renameFile (some [102]) (List.replicate 7 120)] := by decide +kernel
  exact heval.not_isolated

/-- No file is renamed, and no deleted file written to. -/
def isTame (fs : Fs δ) : Call → Bool
  | .writeFile _ h => !decide (StaleWrite fs h)
  | .renameFile _ _ => false
  | _ => true

theorem isTame_spec (fs : Fs δ) (call : Call) (htame : isTame fs call = true) :
    call.Tame fs := by
  cases call with
  | writeFile data h => simpa [isTame, Call.Tame] using htame
  | renameFile name newName => cases htame
  | _ => trivial

/-- A run with a delete of an open file, a write that is refused, and a new file in the
same slot. -/
theorem write_isolated_new_file : ∃ fs₁ fs fs' : Fs (ℕ → UInt8),
    mkfs memPort (blankFs fun _ => 0) none = some (fs₁, true) ∧
    ReflTransGen (TameStep memPort) fs₁ fs ∧
    writeFile memPort fs [9] 1 0 = some (fs', true, 1) ∧ fs.ftbl.Live 1 ∧
    SameReads memPort 1 fs fs' := by
  have heval : ∃ fs₁, mkfs memPort (blankFs fun _ => 0) none = some (fs₁, true) ∧
      ∃ fs, runTested memPort isTame fs₁ [.createFile [97], .createFile [98], .writeFile [5, 6] 1,
        .deleteFile (some [97]), .writeFile [9] 0, .createFile [97]] = some fs ∧
      fs.ftbl.Live 1 ∧ ¬StaleWrite fs 0 ∧
      ∃ fs', writeFile memPort fs [9] 1 0 = some (fs', true, 1) := by decide +kernel
  obtain ⟨fs₁, hmkfs, fs, hrun, hlive, hstale, fs', hwrite⟩ := heval
  have hsteps := run_of_runTested isTame_spec hrun
  exact ⟨fs₁, fs, fs', hmkfs, hsteps, hwrite, hlive,
    (write_isolated memPort_reliable hmkfs hsteps hstale hwrite (by decide) hlive).2⟩

end Tfs
