/-
Writing and deleting, with other tasks at work.

The calls of `TfsTasks` on a slot `h`, from a state with a ledger and under anything
that calls on other slots do (`TfsOwnership`):
* `safe_writeFile` — a write of any length returns, takes only free clusters and
  touches only clusters of its slot;
* `safe_deleteFile` — a delete returns and frees only clusters of its slot.

A write starts at a cluster `r` and, in a file that had none, makes it the first one at
its end: until then nothing may lead to it (`Working`).
-/
import Mathlib.Data.Finset.Card
import Mathlib.Data.Finset.Range
import Mipos.TfsOwnership

namespace Tfs

open Coroutine OwnedLinks Function

variable {δ ι : Type} {port : Port δ} {h r c d : ℕ} {w : Bool} {x : Shared δ ι}

/-! ### Edits of a slot -/

theorem Lasting.or {P Q : Shared δ ι → Prop} (hP : Lasting h P) (hQ : Lasting h Q) :
    Lasting h fun x => P x ∨ Q x :=
  fun x z hl hs hx => hx.imp (hP x z hl hs) (hQ x z hl hs)

theorem lasting_const (p : Prop) : Lasting h fun _ : Shared δ ι => p := fun _ _ _ _ hp => hp

/-- The ledger after an edit of the descriptor: the file starts where it did, or at a
cluster of its own that nothing leads to. -/
theorem ledger_setFd (hl : Ledger x.fs.ftbl x.owner) {fd : Fd}
    (hfd : h < maxNOfFiles → fd.erased = 0 → fd.firstCluster < clustersCount →
      x.fs.ftbl.Root h fd.firstCluster ∨ x.owner fd.firstCluster = some h ∧
        Unlinked (· < clustersCount) x.fs.ftbl.clusterTbl fd.firstCluster) :
    Ledger (setFd x.fs h fd).ftbl x.owner := by
  refine hl.reroot ?_
  rintro b r' ⟨⟨hb, herased⟩, rfl⟩ hvalid
  rcases eq_or_ne b h with rfl | hbh
  · simp only [setFd_fileFsDesc, update_self] at herased hvalid ⊢
    exact hfd hb herased hvalid
  · refine .inl ⟨⟨hb, ?_⟩, ?_⟩
    · simpa [hbh] using herased
    · simp [hbh]

/-- A cluster of the slot gets a new link: a mark, or a fresh cluster. -/
theorem ledger_setCluster (hl : Ledger x.fs.ftbl x.owner) (hc : Held h c x) (hne : d ≠ freeCluster)
    (hd : d < clustersCount → Fresh h d x) : Ledger (setCluster x.fs c d).ftbl x.owner := by
  refine hl.relink hc.2 hne fun hvalid => ?_
  obtain ⟨⟨-, hown⟩, hunlinked, hfirst⟩ := hd hvalid
  refine ⟨hown, hunlinked, fun b hroot => ?_⟩
  -- a file that starts at a cluster of `h` is that of `h`
  have hb := hl.root_owner b d hroot hvalid
  rw [hown] at hb
  obtain rfl := Option.some.inj hb
  exact hfirst hroot.2

/-- The entry of slot `h` and the phases may change. -/
structure Quiet (h : ℕ) (x x' : Shared δ ι) : Prop where
  ftbl : x'.fs.ftbl = x.fs.ftbl
  owner : x'.owner = x.owner
  ctl : ∀ k, k ≠ h → x'.fs.fileCtl k = x.fs.fileCtl k
  dev : x'.fs.dev = x.fs.dev

theorem Quiet.acts {x' : Shared δ ι} (hq : Quiet h x x') (hl : Ledger x.fs.ftbl x.owner) :
    Acts port w h x x' := acts_of_eq hl hq.ftbl hq.owner hq.ctl (.inl (.inl hq.dev))

theorem Quiet.ledger {x' : Shared δ ι} (hq : Quiet h x x') (hl : Ledger x.fs.ftbl x.owner) :
    Ledger x'.fs.ftbl x'.owner := hq.ftbl ▸ hq.owner ▸ hl

theorem quiet_setCtl (ctl : Ctl) : Quiet h x { x with fs := setCtl x.fs h ctl } :=
  ⟨rfl, rfl, fun k hk => by simp [hk], rfl⟩

/-! ### The state of a write -/

/-- A write of slot `h` that started at `r`. -/
structure Working (h r : ℕ) (x : Shared δ ι) : Prop where
  live : x.fs.ftbl.Live h
  held : Held h r x
  start : (x.fs.ftbl.fileFsDesc h).firstCluster < clustersCount ∨
    Unlinked (· < clustersCount) x.fs.ftbl.clusterTbl r ∧
      (x.fs.ftbl.fileFsDesc h).firstCluster ≠ r

theorem lasting_working : Lasting h (Working h r : Shared δ ι → Prop) := by
  intro x z hl hs hx
  refine ⟨?_, lasting_held x z hl hs hx.held, ?_⟩
  · exact ⟨hx.live.1, by rw [hs.fd]; exact hx.live.2⟩
  · rw [hs.fd]
    refine hx.start.imp_right fun hstart => ⟨?_, hstart.2⟩
    exact (lasting_unlinked x z hl hs ⟨hx.held, hstart.1⟩).2

theorem Working.congr {x' : Shared δ ι} (hw : Working h r x) (hftbl : x'.fs.ftbl = x.fs.ftbl)
    (howner : x'.owner = x.owner) : Working h r x' where
  live := hftbl ▸ hw.live
  held := ⟨hw.held.1, howner ▸ hw.held.2⟩
  start := hftbl ▸ hw.start

/-- `d` comes after `c`: it already does, or it is fresh and not where the write
started. -/
def Joins (h r c d : ℕ) (x : Shared δ ι) : Prop :=
  (Held h c x ∧ x.fs.ftbl.clusterTbl c = d) ∧ Held h d x ∨ Held h c x ∧ Fresh h d x ∧ r ≠ d

theorem lasting_joins : Lasting h (Joins h r c d : Shared δ ι → Prop) :=
  (lasting_linked.and lasting_held).or (lasting_held.and (lasting_fresh.and (lasting_const _)))

theorem Joins.held (hj : Joins h r c d x) : Held h c x ∧ Held h d x := by
  rcases hj with ⟨⟨hc, -⟩, hd⟩ | ⟨hc, hd, -⟩
  · exact ⟨hc, hd⟩
  · exact ⟨hc, hd.held⟩

theorem Working.setCluster (hw : Working h r x) (hd : d < clustersCount → r ≠ d) :
    Working h r { x with fs := setCluster x.fs c d } where
  live := hw.live
  held := hw.held
  start := by
    refine hw.start.imp_right fun hstart => ⟨hstart.1.update ?_, hstart.2⟩
    rintro rfl
    exact hd hw.held.1 rfl

/-! ### The loop of a write -/

theorem writeCluster_stores (hp : port.Succeeds) {fs : Fs δ} (hl : fs.lock = false) (c off n : ℕ)
    (src : List UInt8) : ∃ dev, writeCluster port fs c off src n =
      some (setDev fs dev, 0, min n (clusterSize - off % clusterSize)) ∧
      (dev = fs.dev ∨ ∃ off' data, off' < clusterSize ∧ off' + data.length ≤ clusterSize ∧
        dev = port.put fs.dev data (clusterAddr c off')) := by
  have hoff : off % clusterSize < clusterSize := Nat.mod_lt _ (by decide)
  by_cases hn : n = 0
  · subst hn
    refine ⟨fs.dev, withAccess_eq hl hl ?_, .inl rfl⟩
    rw [Nat.zero_min]
    rfl
  · refine ⟨_, writeCluster_io hp.ioWrite hl c off src rfl (by omega), .inr ⟨_, _, hoff, ?_, rfl⟩⟩
    rw [List.length_take]
    omega

section Write

variable {R : Shared δ ι → Shared δ ι → Prop} (hR : ∀ x z, R x z → Env h x z)

include hR

/-- Linking, when the entries of the slot satisfy `Q`. -/
theorem safe_linkCluster {Q : Fd → Ctl → Prop}
    (hx : Holds (fun z => Working h r z ∧ Joins h r c d z ∧
      Q (z.fs.ftbl.fileFsDesc h) (z.fs.fileCtl h)) x) :
    Safe True R (Acts port w h) (fun ok z => ok = true ∧ Holds (fun z => Working h r z ∧ Held h d z ∧
      Q (z.fs.ftbl.fileFsDesc h) (z.fs.fileCtl h)) z) (Task.linkCluster c d) x := by
  obtain ⟨hc, hd⟩ := hx.2.2.1.held
  have hvalid : ¬(c ≥ clustersCount ∨ d ≥ clustersCount) :=
    not_or.mpr ⟨Nat.not_le_of_lt hc.1, Nat.not_le_of_lt hd.1⟩
  rw [Task.linkCluster, if_neg hvalid]
  refine Safe.bind (safe_access
    ((lasting_working.and (lasting_joins.and (lasting_entries Q))).stable hR) hx fun z hz hl => ?_)
  obtain ⟨hlz, hwork, hjoins, hQ⟩ := hz
  have hheld := hjoins.held
  refine ⟨setCluster z.fs c d, (), by rw [setClusterVal_eq hl hc.1]; rfl, ?_⟩
  rcases hjoins with ⟨⟨-, hlink⟩, -⟩ | ⟨-, hfresh, hne⟩
  · -- the link is there
    rw [setCluster_self hlink]
    exact ⟨.refl hlz, Safe.pure ⟨rfl, hlz, hwork, hheld.2, hQ⟩⟩
  · have hledger := ledger_setCluster hlz hheld.1 (d := d)
      (fun heq => absurd (heq ▸ hd.1) (by decide)) fun _ => hfresh
    refine ⟨acts_setCluster hheld.1 (Nat.lt_trans hd.1 (by decide)) hledger,
      Safe.pure ⟨rfl, hledger, ?_, hheld.2, hQ⟩⟩
    exact hwork.setCluster fun _ => hne

theorem safe_markClusterLast (hx : Holds (fun z => Working h r z ∧ Held h c z) x) :
    Safe True R (Acts port w h) (fun _ z => Holds (Working h r) z) (Task.markClusterLast c) x := by
  refine safe_access ((lasting_working.and lasting_held).stable hR) hx
    fun z ⟨hlz, hwork, hc⟩ hl => ?_
  have hmark : ¬lastAllocatedCluster < clustersCount := by decide
  have hledger := ledger_setCluster hlz hc (by decide : lastAllocatedCluster ≠ freeCluster)
    fun hvalid => absurd hvalid hmark
  refine ⟨setCluster z.fs c lastAllocatedCluster, (), ?_, acts_setCluster hc (by decide) hledger,
    hledger, ?_⟩
  · rw [setClusterVal_eq hl hc.1]
    rfl
  · exact hwork.setCluster fun hvalid => absurd hvalid hmark

/-- The next cluster, or the mark of the last one. -/
theorem safe_nextForWrite (grown : Bool) (hx : Holds (fun z => Working h r z ∧ Held h c z) x) :
    Safe True R (Acts port true h) (fun next z => Holds (Working h r) z ∧
      ∀ d, next = some d → Joins h r c d z) (Task.nextForWrite h grown c) x := by
  have hlast : Lasting h fun z : Shared δ ι => Working h r z ∧ Held h c z :=
    lasting_working.and lasting_held
  have hnone : ∀ z, Holds (fun z => Working h r z ∧ Held h c z) z →
      Safe True R (Acts port true h) (fun next z => Holds (Working h r) z ∧
        ∀ d, next = some d → Joins h r c d z)
        (Task.markClusterLast c >>= fun _ => pure none) z := by
    intro z hz
    exact (safe_markClusterLast hR hz).andThen fun _ _ hy => Safe.pure ⟨hy, by simp⟩
  cases grown with
  | true =>
    refine (safe_reserveCluster hR hlast (fun _ hz => hz.1.live) hx).andThen ?_
    rintro next z ⟨hz, hnext⟩
    cases next with
    | none => exact hnone z hz
    | some d =>
      obtain ⟨hfresh, hne⟩ := hnext d rfl
      refine Safe.pure ⟨⟨hz.1, hz.2.1⟩, fun d' hd' => ?_⟩
      cases hd'
      exact .inr ⟨hz.2.2, hfresh, hne r fun _ hy => hy.1.held⟩
  | false =>
    refine (safe_getNextCluster (hlast.stable hR) (fun _ hz => hz.2) hx).andThen ?_
    rintro next z ⟨hz, hnext⟩
    cases next with
    | none => exact hnone z hz
    | some d =>
      obtain ⟨hd, hlink⟩ := hnext d rfl
      refine Safe.pure ⟨⟨hz.1, hz.2.1⟩, fun d' hd' => ?_⟩
      cases hd'
      exact .inl ⟨⟨hz.2.2, hlink⟩, hd⟩

theorem safe_endWrite (grown : Bool) (hx : Holds (fun z => Working h r z ∧ Held h c z) x) :
    Safe True R (Acts port w h) (fun _ z => Holds (Working h r) z) (Task.endWrite h c grown) x := by
  cases grown with
  | false => exact Safe.pure ⟨hx.1, hx.2.1⟩
  | true =>
    obtain ⟨hl, hwork, hc⟩ := hx
    have hledger : Ledger (setFd x.fs h { x.fs.ftbl.fileFsDesc h with
        size := (x.fs.fileCtl h).seekPointer }).ftbl x.owner :=
      ledger_setFd hl fun hh he _ => .inl ⟨⟨hh, he⟩, rfl⟩
    refine Safe.bind (safe_atomic rfl
      (acts_setFd hledger (fun hh hs => hs.first h hh) fun he => ⟨he, rfl⟩) ?_)
    refine safe_markClusterLast hR ⟨hledger, ⟨?_, hwork.held, ?_⟩, hc⟩
    · exact ⟨hwork.live.1, by simpa using hwork.live.2⟩
    · simpa using hwork.start

/-- **The loop of a write** of `n` bytes ends within `n + 1` rounds. -/
theorem safe_writeLoop (hp : port.Succeeds) {fuel n : ℕ} (hfuel : n < fuel) {off : ℕ}
    {src : List UInt8} (hx : Holds (fun z => Working h r z ∧ Held h c z) x) :
    Safe True R (Acts port true h) (fun res z => res.2 = 0 ∧ Holds (Working h r) z)
      (Task.writeLoop port h fuel c off src n) x := by
  have hlast : ∀ c, Lasting h fun z : Shared δ ι => Working h r z ∧ Held h c z :=
    fun _ => lasting_working.and lasting_held
  induction fuel generalizing x c off src n with
  | zero => omega
  | succ fuel ih =>
    rw [Task.writeLoop]
    -- the bytes are stored in a cluster of the slot
    refine Safe.bind (safe_access ((hlast c).stable hR) hx fun z ⟨hlz, hwork, hc⟩ hl => ?_)
    obtain ⟨dev, hrun, hdev⟩ := writeCluster_stores hp hl c off n src
    refine ⟨setDev z.fs dev, _, hrun, acts_of_eq hlz rfl rfl (fun _ _ => rfl) (.inl ?_), ?_⟩
    · exact hdev.imp id fun ⟨off', data, hstored⟩ => ⟨c, off', data, hc, hstored⟩
    dsimp only
    generalize ht : min n (clusterSize - off % clusterSize) = t
    -- the seek pointer moves on
    refine Safe.bind (safe_access ((hlast c).stable hR) ⟨hlz, hwork.congr rfl rfl, hc⟩
      fun y ⟨hly, hworky, hcy⟩ hly' => ?_)
    have hquiet : Quiet h y { y with fs := advance y.fs h t } := quiet_setCtl _
    refine ⟨advance y.fs h t, (), withAccess_advance hly' h t, hquiet.acts hly, ?_⟩
    refine Safe.bind (safe_atomic rfl (.refl (hquiet.ledger hly)) ?_)
    generalize decide (((advance y.fs h t).fileCtl h).seekPointer >
      ((advance y.fs h t).ftbl.fileFsDesc h).size) = grown
    have hy : Holds (fun z => Working h r z ∧ Held h c z) { y with fs := advance y.fs h t } :=
      ⟨hquiet.ledger hly, hworky.congr rfl rfl, hcy⟩
    by_cases hdone : n - t = 0
    · rw [if_pos hdone]
      exact (safe_endWrite hR grown hy).andThen fun _ z hz => Safe.pure ⟨rfl, hz⟩
    · rw [if_neg hdone]
      refine (safe_nextForWrite hR grown hy).andThen ?_
      rintro next z ⟨hz, hnext⟩
      cases next with
      | none => exact Safe.pure ⟨rfl, hz⟩
      | some d =>
        dsimp only
        rw [if_neg (by simp)]
        refine (safe_linkCluster hR (Q := fun _ _ => True)
          ⟨hz.1, hz.2, hnext d rfl, trivial⟩).andThen ?_
        rintro ok u ⟨-, hlu, hworku, hdu, -⟩
        have hoff : off % clusterSize < clusterSize := Nat.mod_lt _ (by decide)
        exact ih (by omega) ⟨hlu, hworku, hdu⟩

/-- Where a write starts: at a cluster of the slot, or at a fresh one. -/
theorem safe_writeStart {fd : Fd} {ctl : Ctl} (hh : h < maxNOfFiles) (he : fd.erased = 0)
    (hrest : 0 < fd.size → fd.firstCluster < clustersCount) (hseek : ctl.seekPointer ≤ fd.size)
    (hx : Holds (fun z => z.fs.ftbl.fileFsDesc h = fd) x) :
    Safe True R (Acts port true h) (fun res z => Holds (fun z => z.fs.ftbl.fileFsDesc h = fd) z ∧
      ∀ d, res = some d → Working h d z) (Task.writeStart h fd ctl) x := by
  have hfd : Lasting h fun z : Shared δ ι => z.fs.ftbl.fileFsDesc h = fd :=
    lasting_entries fun fd' _ => fd' = fd
  have hlive : ∀ z : Shared δ ι, z.fs.ftbl.fileFsDesc h = fd → z.fs.ftbl.Live h :=
    fun z hz => ⟨hh, hz ▸ he⟩
  -- a file with bytes is walked along from its first cluster
  have hwalk : 0 < fd.size → Safe True R (Acts port true h) (fun res z =>
      Holds (fun z => z.fs.ftbl.fileFsDesc h = fd) z ∧ Held h res.2 z)
      (Task.getClusterSeekPt fd ctl) x := fun hsize =>
    safe_clusterWalk hR hfd _ hx ⟨hrest hsize,
      hx.1.root_owner h _ ⟨hlive x hx.2, congrArg Fd.firstCluster hx.2⟩ (hrest hsize)⟩
  have hworking : 0 < fd.size → ∀ (z : Shared δ ι) c, z.fs.ftbl.fileFsDesc h = fd → Held h c z →
      Working h c z := by
    intro hsize z c hz hc
    exact ⟨hlive z hz, hc, .inl (hz ▸ hrest hsize)⟩
  rw [Task.writeStart]
  split_ifs with hend hpos
  · -- at the aligned end of a file, behind its last cluster
    have hsize : 0 < fd.size := hend.1 ▸ hpos
    refine (hwalk hsize).andThen ?_
    rintro ⟨arrived, c⟩ z ⟨hz, hc⟩
    cases arrived with
    | false => exact Safe.pure ⟨hz, by simp⟩
    | true =>
      refine (safe_reserveCluster hR (hfd.and lasting_held)
        (fun y hy => hlive y hy.1) ⟨hz.1, hz.2, hc⟩).andThen ?_
      rintro res y ⟨⟨hly, hfdy, hcy⟩, hres⟩
      cases res with
      | none => exact Safe.pure ⟨⟨hly, hfdy⟩, by simp⟩
      | some first =>
        obtain ⟨hfresh, hne⟩ := hres first rfl
        refine (safe_linkCluster hR (r := c) (Q := fun fd' _ => fd' = fd) ⟨hly,
          hworking hsize y c hfdy hcy, .inr ⟨hcy, hfresh, hne c fun _ hu => hu.2⟩, hfdy⟩).andThen ?_
        rintro ok u ⟨rfl, hlu, -, hfirst, hfdu⟩
        refine Safe.pure ⟨⟨hlu, hfdu⟩, fun d hd => ?_⟩
        cases hd
        exact hworking hsize u first hfdu hfirst
  · -- in an empty file
    refine (safe_reserveCluster hR hfd hlive hx).mono fun res z ⟨hz, hres⟩ => ⟨hz, fun d hd => ?_⟩
    obtain ⟨hfresh, -⟩ := hres d hd
    exact ⟨hlive z hz.2, hfresh.held, .inr ⟨hfresh.unlinked, hfresh.not_first⟩⟩
  · -- inside a file or its last cluster
    have hsize : 0 < fd.size := by
      rcases Nat.eq_zero_or_pos fd.size with hzero | hpos
      · refine absurd ⟨?_, ?_⟩ hend
        · omega
        · rw [show ctl.seekPointer = 0 by omega]
          rfl
      · exact hpos
    refine (hwalk hsize).andThen ?_
    rintro ⟨arrived, c⟩ z ⟨hz, hc⟩
    refine Safe.pure ⟨hz, fun d hd => ?_⟩
    split at hd
    · cases hd
      exact hworking hsize z c hz.2 hc
    · cases hd

end Write

/-! ### Locks of files -/

/-- The ledger is in order, and so is the file of slot `h` between calls. -/
def Resting (h : ℕ) (x : Shared δ ι) : Prop := Holds (fun z => AtRest z.fs.ftbl h) x

theorem lasting_atRest : Lasting h fun z : Shared δ ι => AtRest z.fs.ftbl h :=
  lasting_entries fun fd _ => (h < maxNOfFiles ∧ fd.erased = 0) → 0 < fd.size →
    fd.firstCluster < clustersCount

theorem Quiet.resting {x' : Shared δ ι} (hq : Quiet h x x') (hx : Resting h x) : Resting h x' :=
  ⟨hq.ledger hx.1, by
    show AtRest x'.fs.ftbl h
    rw [hq.ftbl]
    exact hx.2⟩

section Files

variable [DecidableEq ι] {t : ι} {R : Shared δ ι → Shared δ ι → Prop}

theorem safe_unlockFile (hx : Resting h x) :
    Safe True R (Acts port w h) (fun _ z => Resting h z) (Task.unlockFile t h) x := by
  obtain ⟨ctl, hctl⟩ := unlockFile_eq x.fs h
  have hquiet : Quiet h x { x with
      fs := (unlockFile x.fs h).1
      phase := update x.phase t (Task.Phase.leave (x.phase t)) } := by
    rw [hctl]
    exact ⟨rfl, rfl, fun k hk => by simp [hk], rfl⟩
  exact Safe.atomic rfl (hquiet.acts hx.1) (hquiet.resting hx)

omit [DecidableEq ι] in
theorem safe_setError (e : ErrCode) (hx : Resting h x) :
    Safe True R (Acts port w h) (fun _ z => Resting h z) (Task.setError e) x := by
  have hquiet : Quiet h x { x with fs := setError x.fs e } := ⟨rfl, rfl, fun _ _ => rfl, rfl⟩
  exact safe_atomic rfl (hquiet.acts hx.1) (hquiet.resting hx)

theorem safe_writeFail (hx : Resting h x) :
    Safe True R (Acts port w h) (fun _ z => Resting h z) (Task.writeFail t h) x := by
  refine (safe_setError .writeFailed hx).andThen fun _ y hy => ?_
  exact (safe_unlockFile hy).andThen fun _ _ hz => Safe.pure hz

/-- The lock of the file is taken, or the call is refused. -/
theorem safe_lockFile (hx : Ledger x.fs.ftbl x.owner) : Safe True R (Acts port w h) (fun ok z =>
      Ledger z.fs.ftbl z.owner ∧ z.fs.ftbl = x.fs.ftbl ∧ (ok = true → h < maxNOfFiles ∧
        (x.fs.fileCtl h).locked = false ∧ z.fs.fileCtl h = { x.fs.fileCtl h with locked := true }))
      (Task.lockFile t h) x := by
  rcases free_or_busy x.fs h with ⟨hh, hfree⟩ | hbusy
  · have hquiet : Quiet h x { x with
        fs := setCtl x.fs h { x.fs.fileCtl h with locked := true }
        phase := update x.phase t (.holding h) } :=
      ⟨rfl, rfl, fun k hk => by simp [hk], rfl⟩
    refine Safe.atomic (a := true) ?_ (hquiet.acts hx)
      ⟨hquiet.ledger hx, rfl, fun _ => ⟨hh, hfree, by simp⟩⟩
    rw [lockFile_free hh hfree]
    rfl
  · have hquiet : Quiet h x { x with phase := update x.phase t (.refused h) } :=
      ⟨rfl, rfl, fun _ _ => rfl, rfl⟩
    refine Safe.atomic (a := false) ?_ (hquiet.acts hx) ⟨hquiet.ledger hx, rfl, by simp⟩
    rw [lockFile_busy hbusy]
    rfl

/-! ### Writing -/

/-- A write through the handle `h` of a deleted file gets past its checks: the slot is
unlocked again and still open for writing. -/
def StaleWrite (fs : Fs δ) (h : ℕ) : Prop :=
  h < maxNOfFiles ∧ (fs.ftbl.fileFsDesc h).erased ≠ 0 ∧ (fs.fileCtl h).locked = false ∧
    (fs.fileCtl h).isOpen = true ∧ (fs.fileCtl h).fileOpenMode = .write

instance (fs : Fs δ) (h : ℕ) : Decidable (StaleWrite fs h) :=
  inferInstanceAs (Decidable (_ ∧ _ ∧ _ ∧ _ ∧ _))

variable (hR : ∀ x z, R x z → Env h x z)

include hR

omit [DecidableEq ι] in
/-- A copy of the entries of the slot. -/
theorem safe_getFdCtl {fd : Fd} {ctl : Ctl}
    (hx : Holds (fun z => z.fs.ftbl.fileFsDesc h = fd ∧ z.fs.fileCtl h = ctl) x) :
    Safe True R (Acts port w h) (fun res z => res = (fd, ctl) ∧
      Holds (fun z => z.fs.ftbl.fileFsDesc h = fd ∧ z.fs.fileCtl h = ctl) z) (Task.getFdCtl h) x := by
  refine safe_access ((lasting_entries fun fd' ctl' => fd' = fd ∧ ctl' = ctl).stable hR) hx
    fun z hz hl => ?_
  exact ⟨z.fs, _, getFdCtl_eq hl h, .refl hz.1, by rw [hz.2.1, hz.2.2], hz⟩

omit [DecidableEq ι] in
/-- The file gets its first cluster, if it had none. -/
theorem safe_setFirst (hx : Holds (Working h r) x) :
    Safe True R (Acts port w h) (fun _ z => Resting h z) (Task.setFirst h r) x := by
  refine safe_access (lasting_working.stable hR) hx fun z ⟨hlz, hwork⟩ hl => ?_
  by_cases hfirst : (z.fs.ftbl.fileFsDesc h).firstCluster ≥ clustersCount
  · have hunlinked := (hwork.start.resolve_left (Nat.not_lt_of_le hfirst)).1
    have hledger : Ledger (setFd z.fs h { z.fs.ftbl.fileFsDesc h with firstCluster := r }).ftbl
        z.owner := ledger_setFd hlz fun _ _ _ => .inr ⟨hwork.held.2, hunlinked⟩
    refine ⟨setFd z.fs h { z.fs.ftbl.fileFsDesc h with firstCluster := r }, (),
      withAccess_eq hl hl ?_, acts_setFd hledger (fun _ _ => ?_) fun he => ⟨he, rfl⟩, hledger,
      fun _ _ => ?_⟩
    · exact congrArg (fun fs => some (fs, ())) (if_pos hfirst)
    · exact Nat.lt_trans hwork.held.1 (by decide)
    · simpa using hwork.held.1
  · refine ⟨z.fs, (), withAccess_eq hl hl ?_, .refl hlz, hlz, fun _ _ => Nat.lt_of_not_le hfirst⟩
    exact congrArg (fun fs => some (fs, ())) (if_neg hfirst)

/-- **A write returns, and acts only on free clusters and those of its slot.** -/
theorem safe_writeFile (hp : port.Succeeds) (hx : Resting h x) (hstale : ¬StaleWrite x.fs h)
    (src : List UInt8) (wbytes : ℕ) :
    Safe True R (Acts port true h) (fun _ z => Resting h z)
      (Task.writeFile port t src wbytes h) x := by
  rw [Task.writeFile]
  refine (safe_lockFile hx.1).andThen ?_
  rintro ok z ⟨hlz, hftbl, hok⟩
  have hz : Resting h z := ⟨hlz, by
    show AtRest z.fs.ftbl h
    rw [hftbl]
    exact hx.2⟩
  cases ok with
  | false => exact safe_writeFail hz
  | true =>
    obtain ⟨hh, hfree, hctl⟩ := hok rfl
    have hentries : Holds (fun z => z.fs.ftbl.fileFsDesc h = x.fs.ftbl.fileFsDesc h ∧
        z.fs.fileCtl h = { x.fs.fileCtl h with locked := true }) z := ⟨hlz, by rw [hftbl], hctl⟩
    refine (safe_getFdCtl hR hentries).andThen ?_
    rintro ⟨fd, ctl⟩ y ⟨heq, hly, hfdy, -⟩
    obtain ⟨rfl, rfl⟩ := Prod.mk.inj heq
    have hy : Resting h y := ⟨hly, by
      intro hlive hsize
      rw [hfdy] at hsize ⊢
      exact hx.2 ⟨hh, hfdy ▸ hlive.2⟩ hsize⟩
    dsimp only
    split_ifs with hcheck hseek
    · exact safe_writeFail hy
    · exact safe_writeFail hy
    · simp only [not_or, not_not] at hcheck
      obtain ⟨-, hmode, hopen⟩ := hcheck
      -- the handle is that of a file
      have he : (x.fs.ftbl.fileFsDesc h).erased = 0 := by
        by_contra he
        exact hstale ⟨hh, he, hfree, by simpa using hopen, hmode⟩
      refine (safe_writeStart hR hh he (hx.2 ⟨hh, he⟩) (Nat.le_of_not_lt hseek)
        ⟨hly, hfdy⟩).andThen ?_
      rintro res u ⟨hu, hres⟩
      cases res with
      | none =>
        refine safe_writeFail ⟨hu.1, fun _ hsize => ?_⟩
        rw [hu.2] at hsize ⊢
        exact hx.2 ⟨hh, he⟩ hsize
      | some first =>
        have hwork := hres first rfl
        refine (safe_writeLoop hR hp (Nat.lt_succ_self wbytes)
          ⟨hu.1, hwork, hwork.held⟩).andThen ?_
        rintro ⟨tot, ret⟩ v ⟨rfl, hv⟩
        refine (safe_setFirst hR hv).andThen fun _ u' hu' => ?_
        exact (safe_unlockFile hu').andThen fun _ _ hz' => Safe.pure hz'

end Files

/-! ### Deleting -/

/-- The number of clusters of slot `h`. -/
def heldCount (h : ℕ) (x : Shared δ ι) : ℕ :=
  ((Finset.range clustersCount).filter fun c => x.owner c = some h).card

theorem heldCount_le (h : ℕ) (x : Shared δ ι) : heldCount h x ≤ clustersCount := by
  have hle := Finset.card_filter_le (Finset.range clustersCount) fun c => x.owner c = some h
  rwa [Finset.card_range] at hle

/-- A delete at the cluster `c`, with fewer than `n` clusters to go. -/
structure Doomed (h c n : ℕ) (x : Shared δ ι) : Prop where
  dead : (x.fs.ftbl.fileFsDesc h).erased ≠ 0
  cluster : c < clustersCount → Held h c x ∧ Unlinked (· < clustersCount) x.fs.ftbl.clusterTbl c
  count : heldCount h x < n

/-- The state after `c` was marked free. -/
def freeAt (x : Shared δ ι) (c : ℕ) : Shared δ ι :=
  { x with fs := setCluster x.fs c freeCluster, owner := update x.owner c none }

theorem heldCount_freeAt (hc : Held h c x) : heldCount h (freeAt x c) < heldCount h x := by
  refine Finset.card_lt_card (Finset.ssubset_iff_of_subset ?_ |>.mpr ⟨c, ?_, ?_⟩)
  · intro d hd
    rw [Finset.mem_filter] at hd ⊢
    refine ⟨hd.1, ?_⟩
    rcases eq_or_ne d c with rfl | hdc
    · exact hc.2
    · simpa [freeAt, hdc] using hd.2
  · rw [Finset.mem_filter, Finset.mem_range]
    exact hc
  · rw [Finset.mem_filter]
    simp [freeAt]

section Delete

variable {n : ℕ}

theorem ledger_freeAt (hl : Ledger x.fs.ftbl x.owner) (hx : Doomed h c n x)
    (hc : c < clustersCount) : Ledger (freeAt x c).fs.ftbl (freeAt x c).owner := by
  obtain ⟨hheld, hunlinked⟩ := hx.cluster hc
  refine hl.release hunlinked fun b hroot => ?_
  -- a file that starts at a cluster of `h` is that of `h`, which is gone
  have hb := hl.root_owner b c hroot hc
  rw [hheld.2] at hb
  obtain rfl := Option.some.inj hb
  exact hx.dead hroot.1.2

theorem acts_freeAt (hl : Ledger x.fs.ftbl x.owner) (hx : Doomed h c n x)
    (hc : c < clustersCount) : Acts port false h x (freeAt x c) where
  ledger := ledger_freeAt hl hx hc
  fd _ _ := rfl
  ctl _ _ := rfl
  name he := ⟨he, rfl⟩
  clusters d := by
    rcases eq_or_ne d c with rfl | hdc
    · exact .inr (.inr ⟨rfl, (hx.cluster hc).1.2, by simp [freeAt], by simp [freeAt]⟩)
    · exact .inl ⟨by simp [freeAt, hdc], fun _ => by simp [freeAt, hdc]⟩
  dev := .inl (.inl rfl)
  small hs := hs.setCluster (by decide)

/-- The delete goes on with the cluster that was linked to the one marked free. -/
theorem doomed_freeAt (hl : Ledger x.fs.ftbl x.owner) (hx : Doomed h c (n + 1) x)
    (hc : c < clustersCount) (hd : Held h d x) (hlink : x.fs.ftbl.clusterTbl c = d) :
    Doomed h d n (freeAt x c) := by
  obtain ⟨hheld, hunlinked⟩ := hx.cluster hc
  have hdc : d ≠ c := by
    rintro rfl
    exact hunlinked d hc hlink
  constructor
  case dead => exact hx.dead
  case count =>
    have hless := heldCount_freeAt hheld
    have hcount := hx.count
    omega
  case cluster =>
    intro hvalid
    refine ⟨⟨hvalid, by simpa [freeAt, hdc] using hd.2⟩, ?_⟩
    have hnext := hl.unlinked_next hc (hlink ▸ hvalid : x.fs.ftbl.clusterTbl c < clustersCount)
    rwa [hlink] at hnext

variable {R : Shared δ ι → Shared δ ι → Prop} (hR : ∀ x z, R x z → Env h x z)

include hR

/-- The others neither free clusters of the slot nor add any. -/
theorem stable_doomed : StableIn R (Doomed h c n) := by
  intro x z hRz hx
  have henv := hR x z hRz
  refine ⟨henv.stays.ledger hx.1, ?_, fun hc => ?_, ?_⟩
  · rw [henv.stays.fd]
    exact hx.2.dead
  · exact lasting_unlinked x z hx.1 henv.stays (hx.2.cluster hc)
  · refine Nat.lt_of_le_of_lt (Finset.card_le_card ?_) hx.2.count
    exact Finset.monotone_filter_right _ fun d _ => henv.owned d

/-- **The loop of a delete** ends, within as many rounds as the slot has clusters. -/
theorem safe_deleteLoop {fuel : ℕ} (hx : Holds (Doomed h c fuel) x) :
    Safe True R (Acts port false h)
      (fun _ z => Holds (fun z => (z.fs.ftbl.fileFsDesc h).erased ≠ 0) z)
      (Task.deleteLoop fuel c) x := by
  induction fuel generalizing c x with
  | zero => exact absurd hx.2.count (Nat.not_lt_zero _)
  | succ fuel ih =>
    rw [Task.deleteLoop]
    by_cases hc : c < clustersCount
    · refine (safe_getNextCluster (stable_doomed hR)
        (fun z hz => (hz.cluster hc).1) hx).andThen ?_
      rintro next z ⟨hz, hnext⟩
      rw [if_pos hc]
      refine Safe.bind fun y hRy hready => ?_
      have hy := stable_doomed hR z y hRy hz
      -- nobody else changes the link that was read
      have hlink : ∀ d, next = some d → Held h d y ∧ y.fs.ftbl.clusterTbl c = d := by
        intro d hd
        have hstays := (hR z y hRy).stays
        obtain ⟨hheld, heq⟩ := hnext d hd
        have hcz := (hz.2.cluster hc).1
        exact ⟨lasting_held z y hz.1 hstays hheld,
          (lasting_linked z y hz.1 hstays ⟨hcz, heq⟩).2⟩
      refine Safe.atomic (z := freeAt y c) (a := ()) ?_ (acts_freeAt hy.1 hy.2 hc) ?_
      · rw [markClusterFree, setClusterVal_eq (lock_of_unlocked hready) hc]
        rfl
      intro u hRu
      have hledger := ledger_freeAt hy.1 hy.2 hc
      cases next with
      | none =>
        have hdead : Lasting h fun z : Shared δ ι => (z.fs.ftbl.fileFsDesc h).erased ≠ 0 :=
          lasting_entries fun fd _ => fd.erased ≠ 0
        exact Safe.pure (hdead.stable hR _ u hRu ⟨hledger, hy.2.dead⟩)
      | some d =>
        obtain ⟨hd, heq⟩ := hlink d rfl
        exact ih (stable_doomed hR _ u hRu ⟨hledger, doomed_freeAt hy.1 hy.2 hc hd heq⟩)
    · -- a file without clusters
      have hnone : (Task.getNextCluster c : Task.Op δ ι _) = pure none :=
        if_pos (Nat.le_of_not_lt hc)
      rw [hnone]
      refine Safe.bind (Safe.pure ?_)
      rw [if_neg hc]
      intro u hRu
      have hu := stable_doomed hR _ u hRu hx
      exact Safe.pure ⟨hu.1, hu.2.dead⟩

/-- The name fits its buffer, and the only file it can find is that of slot `h`. -/
def NamesOnly (fs : Fs δ) (h : ℕ) : Option (List UInt8) → Prop
  | none => True
  | some name => jollyPos name < maxFilenameLength ∧
    ∀ k, k < maxNOfFiles → k ≠ h → matchesName name (fs.ftbl.fileFsDesc k) = false

instance (fs : Fs δ) (h : ℕ) : (name : Option (List UInt8)) → Decidable (NamesOnly fs h name)
  | none => inferInstanceAs (Decidable True)
  | some _ => inferInstanceAs (Decidable (_ ∧ ∀ k, k < _ → k ≠ h → _))

/-- The name fits its buffer and finds no file but that of slot `h`, in any state that
the others may leave. -/
def FindsOnly (R : Shared δ ι → Shared δ ι → Prop) (x : Shared δ ι) (h : ℕ) :
    Option (List UInt8) → Prop
  | none => True
  | some name => jollyPos name < maxFilenameLength ∧ ∀ z i, R x z →
    (List.range maxNOfFiles).find? (fun i => matchesName name (z.fs.ftbl.fileFsDesc i)) = some i →
      i = h

/-- Other files may be deleted before the search starts. -/
theorem NamesOnly.findsOnly {name : Option (List UInt8)} (hname : NamesOnly x.fs h name) :
    FindsOnly R x h name := by
  cases name with
  | none => trivial
  | some name =>
    refine ⟨hname.1, fun z i hRz hi => ?_⟩
    by_contra hne
    have hmatch := List.find?_some hi
    have hlt := List.mem_range.mp (List.mem_of_find?_eq_some hi)
    rw [matchesName, Bool.and_eq_true] at hmatch
    -- it was there before, under the same name
    obtain ⟨herased, hsame⟩ := (hR x z hRz).names i hne (by simpa using hmatch.1)
    have hnot := hname.2 i hlt hne
    rw [matchesName, herased, ← hsame, hmatch.2] at hnot
    cases hnot

theorem safe_ffirst {name : Option (List UInt8)} (hname : FindsOnly R x h name)
    (hx : Resting h x) : Safe True R (Acts port w h) (fun found z => Resting h z ∧
      ∀ i, found = some i → i = h) (Task.ffirst name) x := by
  have herror : ∀ e, Quiet h x { x with fs := setError x.fs e } :=
    fun _ => ⟨rfl, rfl, fun _ _ => rfl, rfl⟩
  cases name with
  | none =>
    have hrun : ffirst x.fs none = some (setError x.fs .badFilename, none) := rfl
    rw [Task.ffirst]
    exact safe_atomic hrun ((herror _).acts hx.1) ⟨(herror _).resting hx, by simp⟩
  | some name =>
    obtain ⟨hfits, hfinds⟩ := hname
    rw [Task.ffirst]
    by_cases hbad : checkFileName (strncpy name (jollyPos name)) = false
    · rw [if_pos (.inr hbad)]
      have hrun : ffirst x.fs (some name) = some (setError x.fs .badFilename, none) := by
        rw [ffirst, if_neg (Nat.not_le_of_lt hfits), if_pos hbad]
      exact safe_atomic hrun ((herror _).acts hx.1) ⟨(herror _).resting hx, by simp⟩
    · rw [if_neg (not_or.mpr ⟨Nat.not_le_of_lt hfits, hbad⟩)]
      intro z hRz hready
      have hz := lasting_atRest.stable hR x z hRz hx
      have hrun : ffirst z.fs (some name) = some (z.fs, (List.range maxNOfFiles).find?
          fun i => matchesName name (z.fs.ftbl.fileFsDesc i)) := by
        rw [ffirst, if_neg (Nat.not_le_of_lt hfits), if_neg hbad,
          scan_eq (lock_of_unlocked hready)]
      exact safe_atomic hrun (.refl hz.1) ⟨hz, fun i hi => hfinds z i hRz hi⟩

/-- **A delete returns, and frees only clusters of its slot.** -/
theorem safe_deleteFile [DecidableEq ι] {t : ι} (hp : port.Succeeds) {name : Option (List UInt8)}
    (hname : FindsOnly R x h name) (hx : Resting h x) :
    Safe True R (Acts port false h) (fun _ z => Resting h z) (Task.deleteFile port t name) x := by
  rw [Task.deleteFile]
  refine (safe_ffirst hR hname hx).andThen ?_
  rintro found z ⟨hz, hfound⟩
  cases found with
  | none => exact (safe_setError .closeFailed hz).andThen fun _ _ hy => Safe.pure hy
  | some i =>
    obtain rfl := hfound i rfl
    refine (safe_lockFile hz.1).andThen ?_
    rintro ok y ⟨hly, hftbl, hok⟩
    have hy : Resting i y := ⟨hly, by
      show AtRest y.fs.ftbl i
      rw [hftbl]
      exact hz.2⟩
    cases ok with
    | false => exact (safe_setError .deleteFailed hy).andThen fun _ _ hu => Safe.pure hu
    | true =>
      obtain ⟨hh, -, -⟩ := hok rfl
      have hentries : Holds (fun z => z.fs.ftbl.fileFsDesc i = y.fs.ftbl.fileFsDesc i ∧
        z.fs.fileCtl i = y.fs.fileCtl i) y := ⟨hly, rfl, rfl⟩
      refine (safe_getFdCtl hR hentries).andThen ?_
      rintro ⟨fd, ctl⟩ u ⟨heq, hlu, hfdu, -⟩
      obtain ⟨rfl, rfl⟩ := Prod.mk.inj heq
      have hu : Resting i u := ⟨hlu, by
        intro hlive hsize
        rw [hfdu] at hsize ⊢
        exact hy.2 ⟨hh, hfdu ▸ hlive.2⟩ hsize⟩
      dsimp only
      split_ifs with hcheck
      · refine (safe_unlockFile hu).andThen fun _ _ hv => ?_
        exact (safe_setError .deleteFailed hv).andThen fun _ _ hw => Safe.pure hw
      · have he : (y.fs.ftbl.fileFsDesc i).erased = 0 := by
          simp only [not_or, not_not] at hcheck
          exact hcheck.1
        -- the descriptor goes first
        refine Safe.bind (safe_access ((lasting_entries fun fd _ =>
          fd = y.fs.ftbl.fileFsDesc i).stable hR) ⟨hlu, hfdu⟩ fun v ⟨hlv, hfdv⟩ hlock => ?_)
        have hroot : v.fs.ftbl.Root i (v.fs.ftbl.fileFsDesc i).firstCluster :=
          ⟨⟨hh, hfdv ▸ he⟩, rfl⟩
        have hledger : Ledger (setFd v.fs i { Fd.zero with erased := 1 }).ftbl v.owner :=
          ledger_setFd hlv fun _ hne _ => absurd hne (by decide)
        refine ⟨setFd v.fs i { Fd.zero with erased := 1 }, _, withAccess_eq hlock hlock rfl,
          acts_setFd hledger (fun _ _ => by decide) fun hne => absurd hne (by decide), ?_⟩
        -- then the clusters
        refine (safe_deleteLoop hR ⟨hledger, ?_, fun hc => ?_, ?_⟩).andThen ?_
        · simp
        · exact ⟨⟨hc, hlv.root_owner i _ hroot hc⟩, hlv.root_unlinked i _ hroot hc⟩
        · have hle := heldCount_le i { v with fs := setFd v.fs i { Fd.zero with erased := 1 } }
          omega
        rintro - u' ⟨hlu', hdead⟩
        refine Safe.bind (safe_atomic (updateFsOnDisk_eq hp u'.fs)
          (acts_of_eq hlu' rfl rfl (fun _ _ => rfl) (.inr ⟨rfl, hdead, rfl, rfl⟩)) ?_)
        refine Safe.bind (Safe.atomic rfl
          (acts_of_eq hlu' rfl rfl (fun _ _ => rfl) (.inl (.inl rfl))) ?_)
        exact Safe.pure ⟨hlu', fun hlive => absurd hlive.2 hdead⟩

end Delete

end Tfs
