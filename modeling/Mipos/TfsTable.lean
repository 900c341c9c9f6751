/-
The cluster table of Tiny-FS and the calls that keep it or change it by a whole
file.

`TableInv t chain` says what the table means: `chain h` are the clusters of file
`h`, in order, as many as its size asks for; the chains are disjoint and what is
on no chain is free.  `FsInv` adds what holds of the state between calls.
* walking and freeing: `clusterWalk_seg`, `clusterWalk_past`, `deleteLoop_seg`;
* calls: `FsInv.formatted`, `FsInv.touched`, `FsInv.opened_file`, `FsInv.closed`,
  `FsInv.created`, `FsInv.removed`.
-/
import Mathlib.Data.List.Perm.Subperm
import Mipos.LinkTable
import Mipos.TfsCalls

namespace Tfs

open LinkTable Function

variable {δ : Type} {port : Port δ} {fs fs' : Fs δ} {chain : ℕ → List ℕ}

/-! ### The invariant -/

/-- Where the chain of a file starts; a free slot has none. -/
def Ftbl.start (t : Ftbl) (h : ℕ) : ℕ :=
  if t.Live h then (t.fileFsDesc h).firstCluster else emptyCluster

/-- What ends a chain. -/
def stopMark (l : List ℕ) : ℕ := if l = [] then emptyCluster else lastAllocatedCluster

/-- The number of clusters that hold `size` bytes. -/
def clustersFor (size : ℕ) : ℕ := (size + (clusterSize - 1)) / clusterSize

structure TableInv (t : Ftbl) (chain : ℕ → List ℕ) : Prop where
  chains : Chains (· < clustersCount) freeCluster t.clusterTbl chain t.start
    fun h => stopMark (chain h)
  length : ∀ h, t.Live h → (chain h).length = clustersFor (t.fileFsDesc h).size
  unused : ∀ h, ¬t.Live h → chain h = []

/-- What holds between calls: the mutex is free, open slots hold files, and no
file is locked.  The slot of a deleted file may be. -/
structure FsInv (fs : Fs δ) (chain : ℕ → List ℕ) : Prop where
  lock : fs.lock = false
  table : TableInv fs.ftbl chain
  opened : ∀ h, h < maxNOfFiles → (fs.fileCtl h).isOpen = true → fs.ftbl.Live h
  unlocked : ∀ h, fs.ftbl.Live h → (fs.fileCtl h).locked = false

theorem not_stopMark_lt (l : List ℕ) : ¬stopMark l < clustersCount := by
  rw [stopMark]
  split <;> decide

/-- There are not more clusters than the table has. -/
theorem TableInv.length_le {t : Ftbl} (ht : TableInv t chain) (h : ℕ) :
    (chain h).length ≤ clustersCount := by
  have hsub : chain h ⊆ List.range clustersCount := fun c hc =>
    List.mem_range.mpr (ht.chains.valid h c hc)
  simpa using ((ht.chains.nodup h).subperm hsub).length_le

/-! ### Walking and freeing -/

section

variable {tbl : ℕ → ℕ} {a b c x y : ℕ} {l : List ℕ}

theorem nextOf_link (hx : x < clustersCount) (hy : y < clustersCount) (hlink : tbl x = y) :
    nextOf tbl x = some y := by
  have hin : ¬(x ≥ clustersCount ∨ tbl x ≥ clustersCount) := by omega
  rw [nextOf, if_neg hin, hlink]

theorem nextOf_end (hend : ¬tbl x < clustersCount) : nextOf tbl x = none :=
  if_pos (.inr (Nat.le_of_not_lt hend))

/-- The walk to a position of the chain. -/
theorem clusterWalk_seg (hl : fs.lock = false) (hseg : Seg fs.ftbl.clusterTbl a l b)
    (hvalid : ∀ x ∈ l, x < clustersCount) {n : ℕ} (hn : l[n]? = some c) :
    clusterWalk fs n a = some (fs, true, c) := by
  induction n generalizing a l with
  | zero =>
    cases l with
    | nil => simp at hn
    | cons x l =>
      obtain rfl : x = c := by simpa using hn
      obtain ⟨rfl, -⟩ := hseg
      rfl
  | succ n ih =>
    cases l with
    | nil => simp at hn
    | cons x l =>
      obtain ⟨rfl, hseg⟩ := hseg
      have hn : l[n]? = some c := by simpa using hn
      cases l with
      | nil => simp at hn
      | cons y l =>
        have hy : fs.ftbl.clusterTbl a = y := hseg.1
        rw [clusterWalk_succ hl, nextOf_link (hvalid a (by simp)) (hvalid y (by simp)) hy]
        exact ih (hy ▸ hseg) (fun z hz => hvalid z (List.mem_cons_of_mem a hz)) hn

/-- Steps behind the chain: the walk stays at the last cluster, and after the first of
them it still counts as arrived. -/
theorem clusterWalk_past (hl : fs.lock = false) (hseg : Seg fs.ftbl.clusterTbl a (l ++ [c]) b)
    (hvalid : ∀ x ∈ l ++ [c], x < clustersCount) (hb : ¬b < clustersCount) (j : ℕ) :
    clusterWalk fs (l.length + 1 + j) a = some (fs, decide (j = 0), c) := by
  induction l generalizing a with
  | nil =>
    obtain ⟨rfl, hend⟩ := hseg
    have hend : fs.ftbl.clusterTbl a = b := hend
    rw [List.length_nil, Nat.zero_add, Nat.add_comm, clusterWalk_succ hl,
      nextOf_end (by rwa [hend])]
  | cons x l ih =>
    obtain ⟨rfl, hseg⟩ := hseg
    obtain ⟨y, hy⟩ : ∃ y, (l ++ [c]).head? = some y := by cases l <;> simp
    obtain ⟨m, hm⟩ : ∃ m, l ++ [c] = y :: m := List.head?_eq_some_iff.mp hy
    have hseg : Seg fs.ftbl.clusterTbl (fs.ftbl.clusterTbl a) (l ++ [c]) b := hseg
    have hlink : fs.ftbl.clusterTbl a = y := (hm ▸ hseg).1
    have hvy : y < clustersCount := hvalid y (by simp [hm])
    rw [List.length_cons, Nat.add_right_comm, clusterWalk_succ hl,
      nextOf_link (hvalid a (by simp)) hvy hlink]
    exact ih (hlink ▸ hseg) fun z hz => hvalid z (List.mem_cons_of_mem a hz)

/-- One step more than the chain has. -/
theorem clusterWalk_end (hl : fs.lock = false) (hseg : Seg fs.ftbl.clusterTbl a (l ++ [c]) b)
    (hvalid : ∀ x ∈ l ++ [c], x < clustersCount) (hb : ¬b < clustersCount) :
    clusterWalk fs (l.length + 1) a = some (fs, true, c) :=
  clusterWalk_past hl hseg hvalid hb 0

/-- A new cluster table. -/
def setTable (fs : Fs δ) (tbl : ℕ → ℕ) : Fs δ :=
  { fs with ftbl := { fs.ftbl with clusterTbl := tbl } }

/-- The loop of `mipos_tfs_delete_file` frees the chain it starts at. -/
theorem deleteLoop_seg (hl : fs.lock = false) (hseg : Seg fs.ftbl.clusterTbl a l b)
    (hvalid : ∀ x ∈ l, x < clustersCount) (hb : ¬b < clustersCount) (hnodup : l.Nodup)
    {fuel : ℕ} (hfuel : l.length < fuel) :
    deleteLoop fuel fs a = some (setTable fs fun x =>
      if x ∈ l then freeCluster else fs.ftbl.clusterTbl x) := by
  obtain ⟨fuel, rfl⟩ : ∃ k, fuel = k + 1 := ⟨fuel - 1, by omega⟩
  induction l generalizing a fs fuel with
  | nil =>
    obtain rfl : a = b := hseg
    have hnone : nextOf fs.ftbl.clusterTbl a = none := if_pos (.inl (Nat.le_of_not_lt hb))
    rw [deleteLoop_succ hl, hnone]
    simp [hb, setTable]
  | cons x l ih =>
    obtain ⟨rfl, hseg⟩ := hseg
    have ha : a < clustersCount := hvalid a (by simp)
    have hnot : a ∉ l := (List.nodup_cons.mp hnodup).1
    cases l with
    | nil =>
      have hend : fs.ftbl.clusterTbl a = b := hseg
      rw [deleteLoop_succ hl, nextOf_end (by rwa [hend])]
      simp only [if_pos ha, List.mem_singleton, ← update_apply]
      rfl
    | cons y l =>
      have hy : fs.ftbl.clusterTbl a = y := hseg.1
      rw [deleteLoop_succ hl, nextOf_link ha (hvalid y (by simp)) hy]
      obtain ⟨fuel, rfl⟩ : ∃ k, fuel = k + 1 := ⟨fuel - 1, by simp at hfuel; omega⟩
      have hl' : (setCluster fs a freeCluster).lock = false := hl
      have hrest : Seg (setCluster fs a freeCluster).ftbl.clusterTbl y (y :: l) b :=
        (hy ▸ hseg).update hnot
      dsimp only
      rw [ih hl' hrest (fun z hz => hvalid z (List.mem_cons_of_mem a hz))
        (List.nodup_cons.mp hnodup).2 fuel (by simp at hfuel ⊢; omega)]
      show some (setTable fs _) = some (setTable fs _)
      congr 2
      funext z
      by_cases hz : z = a <;> simp [hz]

end

/-! ### Calls -/

theorem FsInv.touched (hi : FsInv fs chain) {h : ℕ} (ht : Touched port fs h fs') :
    FsInv fs' chain where
  lock := ht.lock_eq.trans hi.lock
  table := ht.ftbl_eq ▸ hi.table
  opened k hk hopen := by
    rw [ht.ftbl_eq]
    exact hi.opened k hk (ht.isOpen_eq k ▸ hopen)
  unlocked k hk := by
    rw [ht.ftbl_eq] at hk
    have hfree := hi.unlocked k hk
    by_contra hlocked
    have hlocked := ht.locked_of (by simpa using hlocked)
    simp [hfree] at hlocked

/-- The table may be stored at any time. -/
theorem FsInv.flush (hi : FsInv fs chain) : FsInv (flush port fs) chain :=
  ⟨hi.lock, hi.table, hi.opened, hi.unlocked⟩

theorem FsInv.formatted (hl : fs.lock = false) (label : Option (List UInt8)) :
    FsInv (Tfs.formatted port fs label) fun _ => [] := by
  have hdead : ∀ h, ¬(Tfs.formatted port fs label).ftbl.Live h := by
    rintro h ⟨hh, herased⟩
    simp [Tfs.formatted, resetTable, hh] at herased
  have hstart : (Tfs.formatted port fs label).ftbl.start = fun _ => emptyCluster :=
    funext fun h => if_neg (hdead h)
  constructor
  case lock => exact hl
  case table =>
    constructor
    case chains =>
      rw [hstart]
      refine Chains.empty ?_ (by decide) (by decide)
      intro c hc
      exact if_pos (List.mem_range.mpr hc)
    case length => exact fun h hlive => absurd hlive (hdead h)
    case unused => exact fun _ _ => rfl
  case opened =>
    intro h hh hopen
    simp [Tfs.formatted, resetTable, hh, Ctl.zero] at hopen
  case unlocked => exact fun h hlive => absurd hlive (hdead h)

theorem FsInv.opened_file (hi : FsInv fs chain) {h : ℕ} (hlive : fs.ftbl.Live h)
    (mode : OpenMode) : FsInv (Tfs.opened fs h mode) chain where
  lock := hi.lock
  table := hi.table
  opened k hk hopen := by
    rcases eq_or_ne k h with rfl | hkh
    · exact hlive
    · exact hi.opened k hk (by simpa [Tfs.opened, hkh] using hopen)
  unlocked k hk := by
    have hfree := hi.unlocked k hk
    rcases eq_or_ne k h with rfl | hkh
    · simpa [Tfs.opened] using hfree
    · simpa [Tfs.opened, hkh] using hfree

theorem FsInv.closed (hi : FsInv fs chain) (h : ℕ) :
    FsInv (setCtl fs h { fs.fileCtl h with isOpen := false, seekPointer := 0 }) chain where
  lock := hi.lock
  table := hi.table
  opened k hk hopen := by
    rcases eq_or_ne k h with rfl | hkh
    · simp at hopen
    · exact hi.opened k hk (by simpa [hkh] using hopen)
  unlocked k hk := by
    have hfree := hi.unlocked k hk
    rcases eq_or_ne k h with rfl | hkh
    · simpa using hfree
    · simpa [hkh] using hfree

theorem live_setFd {i : ℕ} {fd : Fd} (h : ℕ) :
    (setFd fs i fd).ftbl.Live h ↔ if h = i then i < maxNOfFiles ∧ fd.erased = 0
      else fs.ftbl.Live h := by
  rcases eq_or_ne h i with rfl | hne
  · simp [Ftbl.Live]
  · simp [Ftbl.Live, hne]

theorem live_created {i : ℕ} (hlt : i < maxNOfFiles) (name : List UInt8) (h : ℕ) :
    (created fs i name).ftbl.Live h ↔ h = i ∨ fs.ftbl.Live h := by
  refine (live_setFd h).trans ?_
  rcases eq_or_ne h i with rfl | hne
  · simp [hlt]
  · simp [hne]

theorem FsInv.created (hi : FsInv fs chain) {i : ℕ} (hlt : i < maxNOfFiles)
    (herased : (fs.ftbl.fileFsDesc i).erased ≠ 0) (name : List UInt8) :
    FsInv (Tfs.created fs i name) chain := by
  have hdead : ¬fs.ftbl.Live i := fun hlive => herased hlive.2
  have hlive : ∀ h, (Tfs.created fs i name).ftbl.Live h ↔ h = i ∨ fs.ftbl.Live h :=
    live_created hlt name
  have hstart : (Tfs.created fs i name).ftbl.start = fs.ftbl.start := by
    funext h
    rcases eq_or_ne h i with rfl | hne
    · rw [Ftbl.start, if_pos ((hlive h).mpr (.inl rfl)), Ftbl.start, if_neg hdead]
      simp [Tfs.created]
    · simp only [Ftbl.start, hlive, hne, false_or]
      simp [Tfs.created, hne]
  constructor
  case lock => exact hi.lock
  case table =>
    constructor
    case chains =>
      rw [hstart]
      exact hi.table.chains
    case length =>
      intro h hh
      rcases eq_or_ne h i with rfl | hne
      · rw [hi.table.unused h hdead]
        simp [Tfs.created, clustersFor]
        decide
      · have hold := hi.table.length h (((hlive h).mp hh).resolve_left hne)
        simpa [Tfs.created, hne] using hold
    case unused => exact fun h hh => hi.table.unused h fun hold => hh ((hlive h).mpr (.inr hold))
  case opened =>
    intro h hh hopen
    refine (hlive h).mpr ?_
    rcases eq_or_ne h i with rfl | hne
    · exact .inl rfl
    · exact .inr (hi.opened h hh (by simpa [Tfs.created, hne] using hopen))
  case unlocked =>
    intro h hh
    rcases eq_or_ne h i with rfl | hne
    · simp [Tfs.created]
    · have hfree := hi.unlocked h (((hlive h).mp hh).resolve_left hne)
      simpa [Tfs.created, hne] using hfree

theorem stopMark_update (i : ℕ) (l : List ℕ) :
    (fun h => stopMark (update chain i l h))
      = update (fun h => stopMark (chain h)) i (stopMark l) := by
  funext h
  rcases eq_or_ne h i with rfl | hne
  · simp
  · simp [hne]

/-- The state after slot `i` with the clusters `l` was deleted, before the table
is stored. -/
def removed (fs : Fs δ) (i : ℕ) (l : List ℕ) : Fs δ :=
  setTable (erased fs i) fun x => if x ∈ l then freeCluster else fs.ftbl.clusterTbl x

theorem FsInv.deleteLoop_eq (hi : FsInv fs chain) {i : ℕ} (hlive : fs.ftbl.Live i) :
    deleteLoop (clustersCount + 2) (erased fs i) (fs.ftbl.fileFsDesc i).firstCluster
      = some (removed fs i (chain i)) := by
  have hl : (erased fs i).lock = false := hi.lock
  have hstart : fs.ftbl.start i = (fs.ftbl.fileFsDesc i).firstCluster := if_pos hlive
  have hseg : Seg (erased fs i).ftbl.clusterTbl (fs.ftbl.fileFsDesc i).firstCluster
      (chain i) (stopMark (chain i)) := hstart ▸ hi.table.chains.seg i
  have hfuel : (chain i).length < clustersCount + 2 := by
    have := hi.table.length_le i
    omega
  exact deleteLoop_seg hl hseg (hi.table.chains.valid i) (not_stopMark_lt _)
    (hi.table.chains.nodup i) hfuel

theorem live_removed {i : ℕ} {l : List ℕ} (h : ℕ) :
    (removed fs i l).ftbl.Live h ↔ h ≠ i ∧ fs.ftbl.Live h := by
  refine (live_setFd h).trans ?_
  rcases eq_or_ne h i with rfl | hne
  · simp
  · simp only [hne, if_false, ne_eq, not_false_eq_true, true_and]
    rfl

theorem start_removed (i : ℕ) (l : List ℕ) :
    (removed fs i l).ftbl.start = update fs.ftbl.start i emptyCluster := by
  funext h
  rcases eq_or_ne h i with rfl | hne
  · rw [Ftbl.start, if_neg fun hh => ((live_removed h).mp hh).1 rfl, update_self]
  · rw [update_of_ne hne]
    simp only [Ftbl.start, live_removed, ne_eq, hne, not_false_eq_true, true_and]
    simp [removed, setTable, erased, hne]

/-- Deleting a file that is not open takes its chain out of the table. -/
theorem FsInv.removed (hi : FsInv fs chain) {i : ℕ} (hclosed : (fs.fileCtl i).isOpen = false) :
    FsInv (Tfs.removed fs i (chain i)) (update chain i []) := by
  constructor
  case lock => exact hi.lock
  case table =>
    constructor
    case chains =>
      rw [stopMark_update, start_removed]
      exact hi.table.chains.release i (by decide)
    case length =>
      intro h hh
      obtain ⟨hne, hold⟩ := (live_removed h).mp hh
      simpa [Tfs.removed, setTable, erased, hne] using hi.table.length h hold
    case unused =>
      intro h hh
      rcases eq_or_ne h i with rfl | hne
      · simp
      · rw [update_of_ne hne]
        exact hi.table.unused h fun hold => hh ((live_removed h).mpr ⟨hne, hold⟩)
  case opened =>
    intro h hh hopen
    rcases eq_or_ne h i with rfl | hne
    · simp [Tfs.removed, setTable, erased, hclosed] at hopen
    · refine (live_removed h).mpr ⟨hne, hi.opened h hh ?_⟩
      simpa [Tfs.removed, setTable, erased, hne] using hopen
  case unlocked =>
    intro h hh
    obtain ⟨hne, hold⟩ := (live_removed h).mp hh
    simpa [Tfs.removed, setTable, erased, hne] using hi.unlocked h hold

end Tfs
