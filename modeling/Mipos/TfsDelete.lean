/-
Deleting a file.

`mipos_tfs_delete_file` follows the links of the file and marks every cluster as free that it
comes by.  Nothing is assumed here of the table, which `mipos_tfs_setup` takes from the device
as it is: chains may be rings, run into each other or end anywhere.

* `deleteLoop_total` — the loop comes to an end, since a marked cluster links nowhere;
* `deleteLoop_frees` — what it has marked is what the links reach;
* `delete_frees_chain` — both, for the loop and for the call.
-/
import Mathlib.Data.Finset.Card
import Mipos.OwnedLinks
import Mipos.TfsRuns

namespace Tfs

open OwnedLinks Function

variable {δ : Type} {port : Port δ} {fs fs' : Fs δ} {w : δ → List UInt8 → ℕ → δ × ℤ}

/-! ### The loop ends -/

/-- The number of clusters that are linked to another one. -/
def linkedClusters (tbl : ℕ → ℕ) : ℕ :=
  ((Finset.range clustersCount).filter fun c => tbl c < clustersCount).card

theorem linkedClusters_free {tbl : ℕ → ℕ} {c x : ℕ} (hx : nextOf tbl c = some x) :
    linkedClusters (update tbl c freeCluster) < linkedClusters tbl := by
  have hc : c < clustersCount := by
    by_contra hge
    rw [nextOf, if_pos (.inl (Nat.le_of_not_lt hge))] at hx
    cases hx
  obtain ⟨hlt, hlink⟩ := nextOf_lt hx
  refine Finset.card_lt_card (Finset.ssubset_iff_subset_ne.mpr ⟨fun d hd => ?_, fun heq => ?_⟩)
  · rw [Finset.mem_filter] at hd ⊢
    rcases eq_or_ne d c with rfl | hne
    · exact ⟨hd.1, hlink ▸ hlt⟩
    · rwa [update_of_ne hne] at hd
  · have hmem : c ∈ (Finset.range clustersCount).filter fun c => tbl c < clustersCount :=
      Finset.mem_filter.mpr ⟨Finset.mem_range.mpr hc, hlink ▸ hlt⟩
    rw [← heq, Finset.mem_filter, update_self] at hmem
    exact absurd hmem.2 (by decide)

/-- **The loop of `mipos_tfs_delete_file` ends**, also in a ring of clusters: a cluster that
is visited is free from then on. -/
theorem deleteLoop_total (hl : fs.lock = false) {fuel c : ℕ}
    (hfuel : linkedClusters fs.ftbl.clusterTbl < fuel) : ∃ fs', deleteLoop fuel fs c = some fs' := by
  induction fuel generalizing fs c with
  | zero => omega
  | succ fuel ih =>
    rw [deleteLoop_succ hl]
    cases hx : nextOf fs.ftbl.clusterTbl c with
    | none => exact ⟨_, rfl⟩
    | some x =>
      have hless := linkedClusters_free hx
      have hl' : (setCluster fs c freeCluster).lock = false := hl
      exact ih hl' (by rw [setCluster_clusterTbl]; omega)

theorem linkedClusters_le (tbl : ℕ → ℕ) : linkedClusters tbl ≤ clustersCount :=
  (Finset.card_filter_le _ _).trans_eq (Finset.card_range _)

/-! ### What is freed -/

/-- The clusters that are reached from `c` are free, and no others have changed. -/
structure FreesChain (tbl tbl' : ℕ → ℕ) (c : ℕ) : Prop where
  freed : ∀ x, Reach (· < clustersCount) tbl c x → tbl' x = freeCluster
  kept : ∀ x, ¬Reach (· < clustersCount) tbl c x → tbl' x = tbl x

/-- A chain of one cluster. -/
theorem freesChain_last {tbl : ℕ → ℕ} {c : ℕ} (hc : c < clustersCount)
    (hlast : ¬tbl c < clustersCount) : FreesChain tbl (update tbl c freeCluster) c := by
  have hreach : ∀ x, Reach (· < clustersCount) tbl c x ↔ x = c :=
    fun x => reach_iff_of_mark hc hlast
  refine ⟨fun x hx => ?_, fun x hx => ?_⟩
  · rw [(hreach x).mp hx, update_self]
  · exact update_of_ne (mt (hreach x).mpr hx) _ _

/-- The first cluster is freed, and then those that its link reaches. -/
theorem FreesChain.cons {tbl tbl' : ℕ → ℕ} {c : ℕ} (hc : c < clustersCount)
    (hnext : tbl c < clustersCount)
    (hrest : FreesChain (update tbl c freeCluster) tbl' (tbl c)) :
    FreesChain tbl tbl' c := by
  have hfree : ¬freeCluster < clustersCount := by decide
  have hreach : ∀ x, Reach (· < clustersCount) tbl c x ↔
      x = c ∨ Reach (· < clustersCount) tbl (tbl c) x := fun x => reach_iff_of_valid hc hnext
  -- a cluster that comes by again is free already
  have hself : tbl' c = freeCluster := by
    by_cases hagain : Reach (· < clustersCount) (update tbl c freeCluster) (tbl c) c
    · exact hrest.freed c hagain
    · rw [hrest.kept c hagain, update_self]
  refine ⟨fun x hx => ?_, fun x hx => ?_⟩
  · by_cases hxc : x = c
    · rwa [hxc]
    · exact hrest.freed x (((hreach x).mp hx).resolve_left hxc |>.update hxc)
  · have hxc : x ≠ c := fun heq => hx ((hreach x).mpr (.inl heq))
    rw [hrest.kept x fun hr => hx ((hreach x).mpr (.inr (hr.of_update hfree))),
      update_of_ne hxc]

/-- **The loop frees what the links reach**, and nothing else. -/
theorem deleteLoop_frees (hl : fs.lock = false) {fuel c : ℕ}
    (hrun : deleteLoop fuel fs c = some fs') :
    FreesChain fs.ftbl.clusterTbl fs'.ftbl.clusterTbl c := by
  -- the induction is on the rounds; the table is another one in each
  induction fuel generalizing fs c with
  | zero => cases hrun
  | succ fuel ih =>
    rw [deleteLoop_succ hl] at hrun
    by_cases hc : c < clustersCount
    · cases hx : nextOf fs.ftbl.clusterTbl c with
      | none =>
        rw [hx] at hrun
        dsimp only at hrun
        rw [if_pos hc] at hrun
        cases hrun
        refine freesChain_last hc fun hlt => ?_
        rw [nextOf, if_neg (by omega)] at hx
        cases hx
      | some x =>
        rw [hx] at hrun
        obtain ⟨hlt, hlink⟩ := nextOf_lt hx
        have hl' : (setCluster fs c freeCluster).lock = false := hl
        have hrest := ih hl' hrun
        rw [← hlink] at hrest
        exact hrest.cons hc (hlink ▸ hlt)
    · -- there is no such cluster
      have hnone : nextOf fs.ftbl.clusterTbl c = none := if_pos (.inl (Nat.le_of_not_lt hc))
      rw [hnone] at hrun
      dsimp only at hrun
      rw [if_neg hc] at hrun
      cases hrun
      exact ⟨fun x hx => absurd hx.1 hc, fun x _ => rfl⟩

/-! ### The call -/

/-- `mipos_tfs_delete_file` of a file that is neither locked nor read-only. -/
theorem deleteFile_eq (hl : fs.lock = false) {name : Option (List UInt8)} {i : ℕ} {e : ErrCode}
    (hfound : ffirst fs name = some (setError fs e, some i))
    (hfree : (fs.fileCtl i).locked = false) (hwritable : (fs.ftbl.fileFsDesc i).readonly = 0) :
    deleteFile port fs name
      = (deleteLoop (clustersCount + 2) (erased (setError fs e) i)
          (fs.ftbl.fileFsDesc i).firstCluster).bind fun fs₁ =>
        (updateFsOnDisk port fs₁).bind fun r => some (r.1, decide (r.2 = 0)) := by
  have hlive := (ffirst_cases hl hfound).2 i rfl
  have hlock : lockFile (setError fs e) i = (holding (setError fs e) i, true) :=
    lockFile_holding hlive.1 hfree
  have hl₁ : (holding (setError fs e) i).lock = false := hl
  rw [deleteFile, hfound]
  dsimp only [Option.bind_eq_bind, Option.bind_some]
  rw [hlock]
  dsimp only
  rw [getFdCtl_eq hl₁]
  dsimp only [Option.bind_some]
  rw [if_neg (by simp [hlive.2, hwritable]),
    withAccess_setFd hl₁ i fun _ => { Fd.zero with erased := 1 }]
  rfl

/-- **Deleting frees exactly the chain**, whatever the table holds: the loop ends after at most
one round more than there are clusters, and then the clusters that the links of the file reach
are free and all others are as they were. -/
theorem delete_frees_chain (hl : fs.lock = false) (hw : port.ioWrite = some w) :
    (∀ c, ∃ fs', deleteLoop (clustersCount + 1) fs c = some fs' ∧
      FreesChain fs.ftbl.clusterTbl fs'.ftbl.clusterTbl c) ∧
    ∀ name fs₁ i, ffirst fs name = some (fs₁, some i) → (fs.fileCtl i).locked = false →
      (fs.ftbl.fileFsDesc i).readonly = 0 →
      ∃ fs' ok, deleteFile port fs name = some (fs', ok) ∧
        FreesChain fs.ftbl.clusterTbl fs'.ftbl.clusterTbl (fs.ftbl.fileFsDesc i).firstCluster := by
  constructor
  · intro c
    obtain ⟨fs', hrun⟩ : ∃ fs', deleteLoop (clustersCount + 1) fs c = some fs' :=
      deleteLoop_total hl (Nat.lt_succ_of_le (linkedClusters_le _))
    exact ⟨fs', hrun, deleteLoop_frees hl hrun⟩
  · intro name fs₁ i hfound hfree hwritable
    obtain ⟨e, rfl⟩ := (ffirst_cases hl hfound).1
    have hl₁ : (erased (setError fs e) i).lock = false := hl
    obtain ⟨fs₂, hloop⟩ : ∃ fs₂, deleteLoop (clustersCount + 2) (erased (setError fs e) i)
        (fs.ftbl.fileFsDesc i).firstCluster = some fs₂ :=
      deleteLoop_total hl₁ (Nat.lt_of_le_of_lt (linkedClusters_le _) (by decide))
    have hfrees := deleteLoop_frees hl₁ hloop
    rw [deleteFile_eq hl hfound hfree hwritable, hloop, Option.bind_some, updateFsOnDisk, hw]
    exact ⟨_, _, rfl, hfrees⟩

/-- A table as a damaged device may hold it: the clusters form one ring, and the file `a`
starts somewhere on it. -/
def ringFs : Fs Unit :=
  { blankFs () with
    ftbl := { (blankFs ()).ftbl with
      fileFsDesc := fun i => if i = 0 then ⟨strncpy [97] maxFilenameLength, 40, 5, 0, 0⟩
        else { Fd.zero with erased := 1 }
      clusterTbl := fun c => (c + 1) % clustersCount } }

theorem ringFs_reach {c : ℕ} (hc : c < clustersCount) :
    Reach (· < clustersCount) ringFs.ftbl.clusterTbl 5 c := by
  -- one link leads from each cluster to the next
  have hpath : ∀ k, Reach (· < clustersCount) ringFs.ftbl.clusterTbl 5 ((5 + k) % clustersCount) := by
    intro k
    induction k with
    | zero => exact ⟨by decide, .refl⟩
    | succ k ih =>
      refine ⟨ih.1, ih.2.tail ⟨Nat.mod_lt _ (by decide), Nat.mod_lt _ (by decide), ?_⟩⟩
      exact Nat.mod_add_mod (5 + k) clustersCount 1
  have hk := hpath (c + (clustersCount - 5))
  have hround : 5 + (c + (clustersCount - 5)) = c + clustersCount := by
    have : 5 ≤ clustersCount := by decide
    omega
  rwa [hround, Nat.add_mod_right, Nat.mod_eq_of_lt hc] at hk

theorem delete_frees_ring :
    (∃ fs', deleteLoop (clustersCount + 1) ringFs 5 = some fs' ∧
      ∀ c < clustersCount, fs'.ftbl.clusterTbl c = freeCluster) ∧
    ∃ fs' ok, deleteFile nullPort ringFs (some [97]) = some (fs', ok) ∧
      ∀ c < clustersCount, fs'.ftbl.clusterTbl c = freeCluster := by
  have hl : ringFs.lock = false := rfl
  have hw : nullPort.ioWrite = some fun _ _ _ => ((), 0) := rfl
  obtain ⟨hloop, hcall⟩ := delete_frees_chain hl hw
  constructor
  · obtain ⟨fs', hrun, hfrees⟩ := hloop 5
    exact ⟨fs', hrun, fun c hc => hfrees.freed c (ringFs_reach hc)⟩
  · obtain ⟨fs₁, hfound⟩ : ∃ fs₁, ffirst ringFs (some [97]) = some (fs₁, some 0) := by
      decide +kernel
    obtain ⟨fs', ok, hrun, hfrees⟩ := hcall _ _ _ hfound rfl rfl
    exact ⟨fs', ok, hrun, fun c hc => hfrees.freed c (ringFs_reach hc)⟩

end Tfs
