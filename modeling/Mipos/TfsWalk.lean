/-
The walk along the clusters of a file.

`get_cluster_seek_pt` follows the links from the first cluster of a file, in a loop that
tests its counter of 16 bits before a step and counts the step that fails as well.

* `seekLoop` — the loop as the source writes it; by `seekPt_eq` it is the walk of the
  model, which counts the steps that are left.
* `cluster_walk` — the walk arrives if the chain has the cluster, and one step behind its
  end, where it stays at the last cluster.
-/
import Mipos.TfsRuns

namespace Tfs

open LinkTable

variable {δ : Type} {fs : Fs δ}

/-- The loop of `get_cluster_seek_pt`, from the top of its body on: the current cluster
and the counter when it ends. -/
def seekLoop (clustersNum : ℕ) : ℕ → Fs δ → ℕ → ℕ → Option (Fs δ × ℕ × ℕ)
  | 0, _, _, _ => none
  | fuel + 1, fs, currentCluster, clusterCounter =>
    if clusterCounter = clustersNum then some (fs, currentCluster, clusterCounter)
    else do
      let (fs, next) ← getNextCluster fs currentCluster
      let clusterCounter := (clusterCounter + 1) % 2 ^ 16
      match next with
      | none => return (fs, currentCluster, clusterCounter)
      | some nextCluster => seekLoop clustersNum fuel fs nextCluster clusterCounter

/-- `get_cluster_seek_pt` with this loop. -/
def seekPt (fuel : ℕ) (fs : Fs δ) (fd : Fd) (ctl : Ctl) : Option (Fs δ × Bool × ℕ) := do
  let clustersNum := ctl.seekPointer / clusterSize % 2 ^ 16
  let (fs, currentCluster, clusterCounter) ← seekLoop clustersNum fuel fs fd.firstCluster 0
  return (fs, decide (clusterCounter = clustersNum), currentCluster)

/-- Counting up to a number below `2 ^ 16` is counting down what is left. -/
theorem seekLoop_eq {clustersNum left clusterCounter fuel : ℕ} (hnum : clustersNum < 2 ^ 16)
    (hleft : clusterCounter + left = clustersNum) (hfuel : left < fuel) (fs : Fs δ) (c : ℕ) :
    ((seekLoop clustersNum fuel fs c clusterCounter).bind fun r =>
      some (r.1, decide (r.2.2 = clustersNum), r.2.1)) = clusterWalk fs left c := by
  obtain ⟨fuel, rfl⟩ : ∃ k, fuel = k + 1 := ⟨fuel - 1, by omega⟩
  induction left generalizing clusterCounter fuel fs c with
  | zero =>
    have hcounter : clusterCounter = clustersNum := by omega
    rw [seekLoop, if_pos hcounter, clusterWalk]
    simp [hcounter]
  | succ left ih =>
    have hstep : (clusterCounter + 1) % 2 ^ 16 = clusterCounter + 1 :=
      Nat.mod_eq_of_lt (by omega)
    rw [seekLoop, if_neg (by omega), clusterWalk, hstep]
    cases getNextCluster fs c with
    | none => rfl
    | some r =>
      obtain ⟨fs', next⟩ := r
      dsimp only [Option.bind_eq_bind, Option.bind_some]
      cases next with
      | none =>
        -- the step that fails is counted
        have hlast : clusterCounter + 1 = clustersNum ↔ left = 0 := by omega
        simp [hlast]
      | some x =>
        obtain ⟨fuel, rfl⟩ : ∃ k, fuel = k + 1 := ⟨fuel - 1, by omega⟩
        exact ih (by omega) fs' x fuel (by omega)

/-- **The model of `get_cluster_seek_pt` is the loop of the source.** -/
theorem seekPt_eq {fuel : ℕ} (fd : Fd) (ctl : Ctl)
    (hfuel : ctl.seekPointer / clusterSize % 2 ^ 16 < fuel) :
    seekPt fuel fs fd ctl = getClusterSeekPt fs fd ctl :=
  seekLoop_eq (Nat.mod_lt _ (by decide)) (Nat.zero_add _) hfuel fs fd.firstCluster

/-- The walk along a chain, and behind its end. -/
theorem clusterWalk_chain {chain : List ℕ} {a stop : ℕ} (hl : fs.lock = false) (hne : chain ≠ [])
    (hseg : Seg fs.ftbl.clusterTbl a chain stop) (hvalid : ∀ c ∈ chain, c < clustersCount)
    (hstop : clustersCount ≤ stop) (k : ℕ) :
    ∃ arrived cluster, clusterWalk fs k a = some (fs, arrived, cluster) ∧
      (arrived = true ↔ k ≤ chain.length) ∧
      (k < chain.length → chain[k]? = some cluster) ∧
      (k = chain.length → chain[chain.length - 1]? = some cluster) := by
  rcases Nat.lt_or_ge k chain.length with hin | hout
  · have hget := List.getElem?_eq_getElem hin
    refine ⟨true, chain.get ⟨k, hin⟩, clusterWalk_seg hl hseg hvalid hget, ?_, ?_, ?_⟩
    · exact iff_of_true rfl (Nat.le_of_lt hin)
    · exact fun _ => hget
    · exact fun heq => absurd heq (Nat.ne_of_lt hin)
  · -- behind the end the walk stays at the last cluster
    obtain ⟨m, c, rfl⟩ : ∃ m c, chain = m ++ [c] :=
      ⟨_, _, (List.dropLast_append_getLast hne).symm⟩
    have hlen : (m ++ [c]).length = m.length + 1 := by simp
    rw [hlen] at hout
    obtain ⟨j, rfl⟩ : ∃ j, k = m.length + 1 + j := ⟨k - (m.length + 1), by omega⟩
    refine ⟨_, c, clusterWalk_past hl hseg hvalid (Nat.not_lt.mpr hstop) j, ?_, ?_, ?_⟩
    · rw [decide_eq_true_eq, hlen]
      omega
    · intro hin
      omega
    · intro _
      simp

/-- **Where the walk ends.**  Along a chain of clusters that ends with a value that is no
link, `get_cluster_seek_pt` returns `TRUE` just if the number of steps is at most the
number of clusters, with the cluster at that position, or the last one behind the end. -/
theorem cluster_walk {fd : Fd} {ctl : Ctl} {chain : List ℕ} {stop : ℕ} (hl : fs.lock = false)
    (hne : chain ≠ []) (hseg : Seg fs.ftbl.clusterTbl fd.firstCluster chain stop)
    (hvalid : ∀ c ∈ chain, c < clustersCount) (hstop : clustersCount ≤ stop)
    (hk : ctl.seekPointer / clusterSize < 2 ^ 16) :
    ∃ arrived cluster, getClusterSeekPt fs fd ctl = some (fs, arrived, cluster) ∧
      (∀ fuel, ctl.seekPointer / clusterSize < fuel →
        seekPt fuel fs fd ctl = some (fs, arrived, cluster)) ∧
      (arrived = true ↔ ctl.seekPointer / clusterSize ≤ chain.length) ∧
      (ctl.seekPointer / clusterSize < chain.length →
        chain[ctl.seekPointer / clusterSize]? = some cluster) ∧
      (ctl.seekPointer / clusterSize = chain.length →
        chain[chain.length - 1]? = some cluster) := by
  have hmod : ctl.seekPointer / clusterSize % 2 ^ 16 = ctl.seekPointer / clusterSize :=
    Nat.mod_eq_of_lt hk
  obtain ⟨arrived, cluster, hwalk, hrest⟩ := clusterWalk_chain hl hne hseg hvalid hstop
    (ctl.seekPointer / clusterSize)
  have hpt : getClusterSeekPt fs fd ctl = some (fs, arrived, cluster) := by
    rw [getClusterSeekPt, hmod, hwalk]
  refine ⟨arrived, cluster, hpt, fun fuel hfuel => ?_, hrest⟩
  rw [seekPt_eq fd ctl (by rwa [hmod]), hpt]

/-- A file of two clusters, with the seek pointer at its end. -/
theorem cluster_walk_two :
    ∃ fs : Fs Unit, ∃ fd : Fd, Seg fs.ftbl.clusterTbl fd.firstCluster [3, 5] lastAllocatedCluster ∧
      ∃ arrived cluster,
        getClusterSeekPt fs fd { Ctl.zero with seekPointer := 64 } = some (fs, arrived, cluster) ∧
        arrived = true ∧ cluster = 5 := by
  obtain ⟨fs, hfs⟩ : ∃ fs, fs = setTable (blankFs ())
      fun c => if c = 3 then 5 else lastAllocatedCluster := ⟨_, rfl⟩
  have hseg : Seg fs.ftbl.clusterTbl ({ Fd.zero with firstCluster := 3 } : Fd).firstCluster [3, 5]
      lastAllocatedCluster := by
    rw [hfs]
    exact ⟨rfl, rfl, rfl⟩
  obtain ⟨arrived, cluster, hwalk, -, harrived, -, hend⟩ := cluster_walk
    (by rw [hfs]; rfl) (by simp) hseg (by decide) (by decide)
    (show ({ Ctl.zero with seekPointer := 64 } : Ctl).seekPointer / clusterSize < 2 ^ 16 by decide)
  exact ⟨fs, _, hseg, arrived, cluster, hwalk, harrived.mpr (by decide),
    (Option.some.inj (hend rfl)).symm⟩

end Tfs
