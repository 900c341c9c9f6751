/-
What a read of a file depends on.

`mipos_tfs_read_file` looks at the descriptor and the control entry of its file, at the
links of the clusters it gets to, and at the bytes of these clusters.  Two states that
agree on them (`Twins`) give the same results: `Twins.readFile_eq`.
-/
import Mipos.TfsContents

namespace Tfs

variable {δ : Type} {port : Port δ} {bytes : δ → ℕ → UInt8} {fs fs' : Fs δ} {g : ℕ}
  {own : ℕ → Prop}

/-- The states agree on the file in slot `g`, whose clusters are among `own`. -/
structure Twins (bytes : δ → ℕ → UInt8) (g : ℕ) (own : ℕ → Prop) (fs fs' : Fs δ) : Prop where
  lock : fs.lock = false
  lock' : fs'.lock = false
  fd : fs'.ftbl.fileFsDesc g = fs.ftbl.fileFsDesc g
  ctl : fs'.fileCtl g = fs.fileCtl g
  valid : ∀ c, own c → c < clustersCount
  tbl : ∀ c, own c → fs'.ftbl.clusterTbl c = fs.ftbl.clusterTbl c
  link : ∀ c, own c → fs.ftbl.clusterTbl c < clustersCount → own (fs.ftbl.clusterTbl c)
  dev : ∀ c o, own c → o < clusterSize →
    bytes fs'.dev (clusterAddr c o) = bytes fs.dev (clusterAddr c o)

theorem Twins.of_setCtl (ht : Twins bytes g own fs fs') (ctl : Ctl) :
    Twins bytes g own (setCtl fs g ctl) (setCtl fs' g ctl) where
  lock := ht.lock
  lock' := ht.lock'
  fd := ht.fd
  ctl := by simp
  valid := ht.valid
  tbl := ht.tbl
  link := ht.link
  dev := ht.dev

theorem Twins.of_setDev (ht : Twins bytes g own fs fs') {dev dev' : δ}
    (hdev : bytes dev = bytes fs.dev) (hdev' : bytes dev' = bytes fs'.dev) :
    Twins bytes g own (setDev fs dev) (setDev fs' dev') where
  lock := ht.lock
  lock' := ht.lock'
  fd := ht.fd
  ctl := ht.ctl
  valid := ht.valid
  tbl := ht.tbl
  link := ht.link
  dev c o hc ho := by
    rw [setDev_dev, setDev_dev, hdev, hdev']
    exact ht.dev c o hc ho

theorem Twins.nextOf_eq (ht : Twins bytes g own fs fs') {c : ℕ} (hc : own c) :
    nextOf fs'.ftbl.clusterTbl c = nextOf fs.ftbl.clusterTbl c := by
  rw [nextOf, nextOf, ht.tbl c hc]

theorem Twins.own_next (ht : Twins bytes g own fs fs') {c d : ℕ} (hc : own c)
    (hd : nextOf fs.ftbl.clusterTbl c = some d) : own d := by
  obtain ⟨hvalid, rfl⟩ := nextOf_lt hd
  exact ht.link c hc hvalid

theorem Twins.clusterWalk_eq (ht : Twins bytes g own fs fs') (left : ℕ) {c : ℕ} (hc : own c) :
    ∃ r, clusterWalk fs left c = some (fs, r) ∧ clusterWalk fs' left c = some (fs', r) ∧
      own r.2 := by
  induction left generalizing c with
  | zero => exact ⟨(true, c), rfl, rfl, hc⟩
  | succ left ih =>
    rw [clusterWalk_succ ht.lock, clusterWalk_succ ht.lock', ht.nextOf_eq hc]
    cases hnext : nextOf fs.ftbl.clusterTbl c with
    | none => exact ⟨_, rfl, rfl, hc⟩
    | some d => exact ih (ht.own_next hc hnext)

/-- Both devices deliver the same bytes of a cluster. -/
theorem Twins.get_eq (hr : port.Reliable bytes) (ht : Twins bytes g own fs fs') {c off n t : ℕ}
    (hc : own c) (hteq : t = min n (clusterSize - off % clusterSize)) :
    (port.get fs'.dev t (clusterAddr c (off % clusterSize))).2
      = (port.get fs.dev t (clusterAddr c (off % clusterSize))).2 := by
  have hvalid := ht.valid c hc
  have hoff := mod_clusterSize off
  have hfits : clusterAddr c (off % clusterSize) + t ≤ volumeSize := by
    rw [clusterAddr_eq hvalid hoff]
    exact cluster_end_le hvalid (by omega)
  rw [hr.get _ _ _ hfits, hr.get _ _ _ hfits]
  refine List.map_congr_left fun i hi => ?_
  have hin : off % clusterSize + i < clusterSize := by
    have hit := List.mem_range.mp hi
    omega
  have hbyte := ht.dev c (off % clusterSize + i) hc hin
  rw [clusterAddr_eq hvalid hin] at hbyte
  rwa [clusterAddr_eq hvalid hoff, Nat.add_assoc _ (off % clusterSize)]

/-- One round of the loop over twins, and the states in which it leaves them. -/
theorem Twins.of_advance (hr : port.Reliable bytes) (ht : Twins bytes g own fs fs') (t a : ℕ) :
    Twins bytes g own (advance (setDev fs (port.get fs.dev t a).1) g t)
      (advance (setDev fs' (port.get fs'.dev t a).1) g t) := by
  have hget := ht.of_setDev (hr.get_keeps fs.dev t a) (hr.get_keeps fs'.dev t a)
  have hctl : (setDev fs' (port.get fs'.dev t a).1).fileCtl g
      = (setDev fs (port.get fs.dev t a).1).fileCtl g := hget.ctl
  rw [advance, advance, hctl]
  exact hget.of_setCtl _

/-- The bytes of a round go in front of those of the rounds to come. -/
theorem map_snd_append (data : List UInt8) (o : Option (Fs δ × Bool × ℕ × List UInt8)) :
    (o.map fun r => (r.1, r.2.1, r.2.2.1, data ++ r.2.2.2)).map Prod.snd
      = (o.map Prod.snd).map fun r => (r.1, r.2.1, data ++ r.2.2) := by
  cases o <;> rfl

theorem map_snd_unlock (h : ℕ) (o : Option (Fs δ × Bool × ℕ × List UInt8)) :
    (o.bind fun r => some ((unlockFile r.1 h).1, r.2.1, r.2.2.1, r.2.2.2)).map Prod.snd
      = o.map Prod.snd := by
  cases o <;> rfl

theorem Twins.readLoop_eq (hr : port.Reliable bytes) (ht : Twins bytes g own fs fs')
    {total fuel c off got n : ℕ} (hc : own c) :
    (readLoop port g total fuel fs' c off got n).map Prod.snd
      = (readLoop port g total fuel fs c off got n).map Prod.snd := by
  induction fuel generalizing fs fs' c off got n with
  | zero => rfl
  | succ fuel ih =>
    rcases Nat.eq_zero_or_pos n with rfl | hn
    · rw [readLoop_zero ht.lock, readLoop_zero ht.lock']
      rfl
    · obtain ⟨t, hteq⟩ : ∃ t, t = min n (clusterSize - off % clusterSize) := ⟨_, rfl⟩
      have hpos : 0 < t := by
        have hoff := mod_clusterSize off
        omega
      rw [readLoop_succ hr.succeeds ht.lock g total fuel c off got hteq hpos,
        readLoop_succ hr.succeeds ht.lock' g total fuel c off got hteq hpos]
      dsimp only
      rw [ht.get_eq hr hc hteq]
      have hround := ht.of_advance hr t (clusterAddr c (off % clusterSize))
      by_cases hdone : got + t ≥ total
      · rw [if_pos hdone, if_pos hdone]
        rfl
      · rw [if_neg hdone, if_neg hdone, hround.nextOf_eq hc]
        cases hnext : nextOf (advance (setDev fs _) g t).ftbl.clusterTbl c with
        | none => rfl
        | some d =>
          dsimp only
          rw [map_snd_append, map_snd_append, ih hround (hround.own_next hc hnext)]

/-- **A read depends only on its file.** -/
theorem Twins.readFile_eq (hr : port.Reliable bytes) (ht : Twins bytes g own fs fs')
    (hfirst : 0 < (fs.ftbl.fileFsDesc g).size → own (fs.ftbl.fileFsDesc g).firstCluster) (n : ℕ) :
    (readFile port fs' n g).map Prod.snd = (readFile port fs n g).map Prod.snd := by
  rcases free_or_busy fs g with ⟨hg, hfree⟩ | hbusy
  · rw [readFile, readFile, lockFile_free hg hfree, lockFile_free hg (by rw [ht.ctl]; exact hfree)]
    dsimp only
    rw [ht.ctl]
    have ht₁ := ht.of_setCtl { fs.fileCtl g with locked := true }
    have hfirst₁ : 0 < ((setCtl fs g { fs.fileCtl g with locked := true }).ftbl.fileFsDesc g).size →
      own ((setCtl fs g { fs.fileCtl g with locked := true }).ftbl.fileFsDesc g).firstCluster :=
      hfirst
    generalize setCtl fs g { fs.fileCtl g with locked := true } = fs₁ at ht₁ hfirst₁ ⊢
    generalize setCtl fs' g { fs.fileCtl g with locked := true } = fs₁' at ht₁ ⊢
    rw [getFdCtl_eq ht₁.lock, getFdCtl_eq ht₁.lock', ht₁.fd, ht₁.ctl]
    dsimp only [Option.bind_eq_bind, Option.bind_some]
    by_cases hcheck : (fs₁.fileCtl g).isOpen = false ∨
        (fs₁.fileCtl g).seekPointer ≥ (fs₁.ftbl.fileFsDesc g).size
    · rw [if_pos hcheck, if_pos hcheck]
      rfl
    · rw [if_neg hcheck, if_neg hcheck]
      have hsize : 0 < (fs₁.ftbl.fileFsDesc g).size := by omega
      obtain ⟨⟨arrived, c⟩, hwalk, hwalk', hc⟩ := ht₁.clusterWalk_eq
        ((fs₁.fileCtl g).seekPointer / clusterSize % 2 ^ 16) (hfirst₁ hsize)
      rw [getClusterSeekPt, getClusterSeekPt, hwalk, hwalk']
      dsimp only [Option.bind_some]
      cases arrived with
      | false => rfl
      | true =>
        have hnot : ¬true = false := by decide
        rw [if_neg hnot, if_neg hnot, noteEof_eq ht₁.lock, noteEof_eq ht₁.lock', ht₁.ctl]
        dsimp only [Option.bind_some]
        refine (map_snd_unlock g _).trans (Eq.trans ?_ (map_snd_unlock g _).symm)
        exact (ht₁.of_setCtl _).readLoop_eq hr hc
  · rw [readFile, readFile, lockFile_busy hbusy, lockFile_busy (by rw [ht.ctl]; exact hbusy)]
    rfl

end Tfs
