/-
Tiny-FS calls on any device.

Nothing is assumed here of the cluster table: files may share clusters, and chains may be
too long or end anywhere.  A file that has bytes has a first cluster (`Fd.Rooted`), and then
every access to the device is in the clusters, since whatever the table links is one.

* `Puts`, `Gets` — the accesses of a call to the clusters;
* `writeFile_ran` — a write: only the size and the first cluster of the descriptor change,
  and if the driver has not failed the file has its first cluster again;
* `readFile_gets` — a read.
-/
import Mipos.TfsIsolation

namespace Tfs

open Function

variable {δ : Type} {port : Port δ} {bytes : δ → ℕ → UInt8} {fs fs' : Fs δ} {h c n : ℕ}
  {w : δ → List UInt8 → ℕ → δ × ℤ} {r : δ → ℕ → ℕ → δ × List UInt8 × ℤ}

/-! ### Accesses to the clusters -/

/-- Bytes of one cluster. -/
structure InCluster (c off len : ℕ) : Prop where
  valid : c < clustersCount
  start : off < clusterSize
  fits : off + len ≤ clusterSize

theorem InCluster.addr {off len : ℕ} (hin : InCluster c off len) :
    tfsSize ≤ clusterAddr c off ∧ clusterAddr c off + len ≤ volumeSize := by
  refine ⟨(clusterAddr_lt hin.valid hin.start).1, ?_⟩
  rw [clusterAddr_eq hin.valid hin.start]
  exact cluster_end_le hin.valid hin.fits

/-- Writes to the clusters, and what the driver returned for the last one.  It returned
zero for all others. -/
inductive Puts (w : δ → List UInt8 → ℕ → δ × ℤ) : δ → ℤ → δ → Prop
  | none (dev : δ) : Puts w dev 0 dev
  | last (dev : δ) {c off : ℕ} {data : List UInt8} (hin : InCluster c off data.length) :
      Puts w dev (w dev data (clusterAddr c off)).2 (w dev data (clusterAddr c off)).1
  | more {dev dev' : δ} {ret : ℤ} {c off : ℕ} {data : List UInt8}
      (hin : InCluster c off data.length) (hret : (w dev data (clusterAddr c off)).2 = 0)
      (hrest : Puts w (w dev data (clusterAddr c off)).1 ret dev') : Puts w dev ret dev'

/-- Reads from the clusters. -/
def Gets (r : δ → ℕ → ℕ → δ × List UInt8 × ℤ) : δ → δ → Prop :=
  Relation.ReflTransGen fun dev dev' =>
    ∃ c off len, InCluster c off len ∧ dev' = (r dev len (clusterAddr c off)).1

/-- A file with bytes has a first cluster. -/
def Fd.Rooted (fd : Fd) : Prop := 0 < fd.size → fd.firstCluster < clustersCount

/-- The cluster at the seek pointer of such a file exists. -/
theorem seekCluster_lt (hroot : (fs.ftbl.fileFsDesc h).Rooted)
    (hpos : 0 < (fs.ftbl.fileFsDesc h).size) : (seekCluster fs h).2 < clustersCount :=
  walk_lt (hroot hpos) _

/-! ### Writing -/

/-- Of the descriptors `f` only the size of one changes, and it has room for it. -/
def Resized (h : ℕ) (f f' : ℕ → Fd) : Prop :=
  ∃ size, f' = update f h { f h with size := size } ∧ ((f h).size < 2 ^ 32 → size < 2 ^ 32)

theorem Resized.refl (h : ℕ) (f : ℕ → Fd) : Resized h f f :=
  ⟨(f h).size, (update_eq_self h f).symm, id⟩

/-- What the rounds of `mipos_tfs_write_file` do, with `ret` from the driver. -/
structure LoopRan (w : δ → List UInt8 → ℕ → δ × ℤ) (fs fs' : Fs δ) (h n : ℕ) (ret : ℤ) : Prop where
  lock : fs'.lock = false
  fds : Resized h fs.ftbl.fileFsDesc fs'.ftbl.fileFsDesc
  ctl : ∃ k, k ≤ n ∧ (ret ≠ 0 → 0 < k) ∧ fs'.fileCtl = update fs.fileCtl h
    { fs.fileCtl h with seekPointer := ((fs.fileCtl h).seekPointer + k) % 2 ^ 32 }
  puts : Puts w fs.dev ret fs'.dev

section Round

variable {off t : ℕ} {src : List UInt8} (ht : t = min n (clusterSize - off % clusterSize))
  (hc : c < clustersCount)

include ht hc in
theorem inCluster_round : InCluster c (off % clusterSize) (src.take t).length := by
  have hoff := mod_clusterSize off
  refine ⟨hc, hoff, ?_⟩
  rw [List.length_take]
  omega

include ht hc in
/-- A round after which the loop ends. -/
theorem LoopRan.last (hpos : 0 < t) (hl : fs'.lock = false)
    (hfds : Resized h fs.ftbl.fileFsDesc fs'.ftbl.fileFsDesc)
    (hctl : fs'.fileCtl = (advance fs h t).fileCtl)
    (hdev : fs'.dev = (w fs.dev (src.take t) (clusterAddr c (off % clusterSize))).1) :
    LoopRan w fs fs' h n (w fs.dev (src.take t) (clusterAddr c (off % clusterSize))).2 where
  lock := hl
  fds := hfds
  ctl := ⟨t, by omega, fun _ => hpos, hctl⟩
  puts := hdev ▸ .last fs.dev (inCluster_round ht hc)

include ht hc in
/-- A round after which the loop goes on. -/
theorem LoopRan.round {fs₁ : Fs δ} {ret : ℤ}
    (hfds : fs₁.ftbl.fileFsDesc = fs.ftbl.fileFsDesc)
    (hctl : fs₁.fileCtl = (advance fs h t).fileCtl)
    (hdev : fs₁.dev = (w fs.dev (src.take t) (clusterAddr c (off % clusterSize))).1)
    (hret : (w fs.dev (src.take t) (clusterAddr c (off % clusterSize))).2 = 0)
    (hran : LoopRan w fs₁ fs' h (n - t) ret) : LoopRan w fs fs' h n ret where
  lock := hran.lock
  fds := hfds ▸ hran.fds
  ctl := by
    obtain ⟨k, hk, hpos, hctl'⟩ := hran.ctl
    refine ⟨t + k, by omega, fun hne => by have := hpos hne; omega, ?_⟩
    rw [hctl', hctl]
    simp [advance, Nat.add_assoc]
  puts := .more (inCluster_round ht hc) hret (hdev ▸ hran.puts)

end Round

/-- **The loop**, whatever the table links and the driver answers. -/
theorem writeLoop_ran (hw : port.ioWrite = some w) (hl : fs.lock = false)
    (hc : c < clustersCount) (off : ℕ) (src : List UInt8) {fuel : ℕ} (hpos : 0 < n)
    (hfuel : n ≤ fuel) :
    ∃ fs' rest ret, writeLoop port h fuel fs c off src n = some (fs', rest, ret) ∧
      LoopRan w fs fs' h n ret := by
  -- the induction follows the rounds; every one of them writes
  induction fuel generalizing fs c off src n with
  | zero => omega
  | succ fuel ih =>
    obtain ⟨t, ht⟩ : ∃ t, t = min n (clusterSize - off % clusterSize) := ⟨_, rfl⟩
    have htpos : 0 < t := by
      have := mod_clusterSize off
      omega
    rw [writeLoop_io hw hl h fuel off src hc ht htpos]
    dsimp only
    by_cases hdone : n - t = 0
    · rw [if_pos hdone]
      refine ⟨_, _, _, rfl, ?_⟩
      split_ifs
      · have hroom : ((advance fs h t).fileCtl h).seekPointer < 2 ^ 32 := by
          simpa [advance] using Nat.mod_lt _ (by decide)
        exact .last ht hc htpos hl ⟨_, rfl, fun _ => hroom⟩ rfl rfl
      · exact .last ht hc htpos hl (.refl h _) rfl rfl
    · rw [if_neg hdone]
      have hmore : ∀ (fs₁ : Fs δ) (x : ℕ), fs₁.lock = false → x < clustersCount →
          fs₁.ftbl.fileFsDesc = fs.ftbl.fileFsDesc → fs₁.fileCtl = (advance fs h t).fileCtl →
          fs₁.dev = (w fs.dev (src.take t) (clusterAddr c (off % clusterSize))).1 →
          (w fs.dev (src.take t) (clusterAddr c (off % clusterSize))).2 = 0 →
          ∃ fs' rest ret, writeLoop port h fuel fs₁ x 0 (src.drop t) (n - t)
            = some (fs', rest, ret) ∧ LoopRan w fs fs' h n ret := by
        intro fs₁ x hl₁ hx hfds hctl hdev hret
        obtain ⟨fs', rest, ret, hrun, hran⟩ := ih hl₁ hx 0 (src.drop t)
          (Nat.pos_of_ne_zero hdone) (by omega)
        exact ⟨fs', rest, ret, hrun, hran.round ht hc hfds hctl hdev hret⟩
      by_cases hpast : ((advance (setDev fs (w fs.dev (src.take t)
          (clusterAddr c (off % clusterSize))).1) h t).fileCtl h).seekPointer
            > (fs.ftbl.fileFsDesc h).size
      · rw [if_pos hpast]
        cases hx : firstFree fs.ftbl.clusterTbl with
        | none => exact ⟨_, _, _, rfl, .last ht hc htpos hl (.refl h _) rfl rfl⟩
        | some x =>
          dsimp only
          split
          · exact ⟨_, _, _, rfl, .last ht hc htpos hl (.refl h _) rfl rfl⟩
          · rename_i hret
            exact hmore _ x hl (firstFree_spec hx).1 rfl rfl rfl (not_not.mp hret)
      · rw [if_neg hpast]
        cases hx : nextOf fs.ftbl.clusterTbl c with
        | none => exact ⟨_, _, _, rfl, .last ht hc htpos hl (.refl h _) rfl rfl⟩
        | some x =>
          dsimp only
          split
          · exact ⟨_, _, _, rfl, .last ht hc htpos hl (.refl h _) rfl rfl⟩
          · rename_i hret
            exact hmore _ x hl (nextOf_lt hx).1 rfl rfl rfl (not_not.mp hret)

/-! ### A whole write -/

/-- What a call of `mipos_tfs_write_file` does, with `ret` from the driver. -/
structure WriteRan (w : δ → List UInt8 → ℕ → δ × ℤ) (fs fs' : Fs δ) (h n : ℕ) (ret : ℤ) : Prop where
  lock : fs'.lock = false
  fds : ∃ size first, fs'.ftbl.fileFsDesc = update fs.ftbl.fileFsDesc h
    { fs.ftbl.fileFsDesc h with size := size, firstCluster := first }
  fits : (fs.ftbl.fileFsDesc h).Fits → (fs'.ftbl.fileFsDesc h).Fits
  rooted : ret = 0 → h < maxNOfFiles → (fs'.ftbl.fileFsDesc h).Rooted
  others : ∀ k, k ≠ h → fs'.fileCtl k = fs.fileCtl k
  locked : (fs'.fileCtl h).locked = true → (fs.fileCtl h).locked = true
  seek : ret ≠ 0 → ∃ k, 0 < k ∧ k ≤ n ∧
    (fs'.fileCtl h).seekPointer = ((fs.fileCtl h).seekPointer + k) % 2 ^ 32
  puts : Puts w fs.dev ret fs'.dev

/-- A call that changes neither the table nor the device. -/
theorem WriteRan.of_same (hl : fs.lock = false)
    (hroot : h < maxNOfFiles → (fs.ftbl.fileFsDesc h).Rooted)
    (ht : Touched port fs h fs') (hdev : fs'.dev = fs.dev) : WriteRan w fs fs' h n 0 where
  lock := ht.lock_eq.trans hl
  fds := by
    refine ⟨(fs.ftbl.fileFsDesc h).size, (fs.ftbl.fileFsDesc h).firstCluster, ?_⟩
    rw [ht.ftbl_eq]
    exact (update_eq_self h _).symm
  fits hfits := ht.ftbl_eq ▸ hfits
  rooted _ := ht.ftbl_eq ▸ hroot
  others k hk := by
    obtain ⟨e, ctl, dev, rfl, -⟩ := ht
    simp [hk]
  locked := ht.locked_of
  seek hne := absurd rfl hne
  puts := by
    rw [hdev]
    exact .none fs.dev

/-- The start of a write to a file with a first cluster. -/
theorem writeBegin_rooted (hroot : (fs.ftbl.fileFsDesc h).Rooted)
    (hseek : (fs.fileCtl h).seekPointer ≤ (fs.ftbl.fileFsDesc h).size) :
    writeBegin fs h = (fs, none) ∨
      ∃ tbl c, c < clustersCount ∧ writeBegin fs h = (setTable fs tbl, some c) := by
  rw [writeBegin]
  split
  · exact .inl rfl
  · by_cases hend : AtEnd fs h
    · rw [if_pos hend]
      cases hx : firstFree fs.ftbl.clusterTbl with
      | none => exact .inl rfl
      | some x =>
        have hxlt := (firstFree_spec hx).1
        dsimp only
        split_ifs with hzero hc
        · exact .inr ⟨_, x, hxlt, rfl⟩
        · exact .inr ⟨_, x, hxlt, rfl⟩
        · refine absurd (seekCluster_lt hroot ?_) hc
          rw [← hend.1]
          exact Nat.pos_of_ne_zero hzero
    · -- an empty file is at its end
      rw [if_neg hend]
      refine .inr ⟨fs.ftbl.clusterTbl, _, seekCluster_lt hroot ?_, rfl⟩
      by_contra hsize
      refine hend ⟨by omega, ?_⟩
      rw [show (fs.fileCtl h).seekPointer = 0 by omega]
      rfl

/-- From the outcome of the loop to the outcome of the call. -/
theorem LoopRan.finish {tbl : ℕ → ℕ} {fs₂ : Fs δ} {ret : ℤ}
    (hran : LoopRan w (setTable (holding fs h) tbl) fs₂ h n ret) (ho : OpenForWrite fs h)
    (hc : c < clustersCount) (rest : ℕ) :
    ∃ fs' ok k, afterLoop h n c (fs₂, rest, ret) = some (fs', ok, k) ∧
      WriteRan w fs fs' h n ret ∧ (ret ≠ 0 → ok = false) := by
  obtain ⟨size, hfds, hroom⟩ := hran.fds
  obtain ⟨k, hk, hpos, hctl⟩ := hran.ctl
  -- the file is unlocked, and perhaps its first cluster set
  have hfinish : ∀ fs₃ : Fs δ, fs₃.lock = false → fs₃.fileCtl = fs₂.fileCtl → fs₃.dev = fs₂.dev →
      (∃ size first, fs₃.ftbl.fileFsDesc = update fs.ftbl.fileFsDesc h
        { fs.ftbl.fileFsDesc h with size := size, firstCluster := first }) →
      ((fs.ftbl.fileFsDesc h).Fits → (fs₃.ftbl.fileFsDesc h).Fits) →
      (ret = 0 → h < maxNOfFiles → (fs₃.ftbl.fileFsDesc h).Rooted) →
      WriteRan w fs (unlockFile fs₃ h).1 h n ret := by
    intro fs₃ hl₃ hctl₃ hdev₃ hfds₃ hfits₃ hroot₃
    have hunlock : (unlockFile fs₃ h).1.fileCtl = update fs.fileCtl h
        { fs.fileCtl h with seekPointer := ((fs.fileCtl h).seekPointer + k) % 2 ^ 32 } := by
      rw [unlockFile, if_neg (Nat.not_le.mpr ho.valid), hctl₃, hctl]
      simp [setTable, holding, setCtl, hctl₃, hctl, ← ho.unlocked]
    constructor
    case lock => simpa using hl₃
    case fds => simpa using hfds₃
    case fits => simpa using hfits₃
    case rooted => simpa using hroot₃
    case others =>
      intro j hj
      rw [hunlock, update_of_ne hj]
    case locked =>
      rw [hunlock, update_self]
      exact id
    case seek =>
      intro hne
      refine ⟨k, hpos hne, hk, ?_⟩
      rw [hunlock, update_self]
    case puts =>
      rw [unlockFile_dev, hdev₃]
      exact hran.puts
  rw [afterLoop]
  split
  · rename_i hne
    refine ⟨_, _, _, rfl, hfinish fs₂ hran.lock rfl rfl
      ⟨size, (fs.ftbl.fileFsDesc h).firstCluster, hfds⟩ (fun hfits => ?_) fun hz => absurd hz hne,
      fun _ => rfl⟩
    rw [hfds, update_self]
    exact ⟨hfits.filename, hroom hfits.size, hfits.firstCluster⟩
  · rename_i hz
    rw [setFirst_eq hran.lock]
    refine ⟨_, _, _, rfl, hfinish _ hran.lock rfl rfl
      ⟨size, firstAfter (fs₂.ftbl.fileFsDesc h) c, ?_⟩ (fun hfits => ?_) fun _ _ _ => ?_,
      fun hne => absurd hne hz⟩
    · rw [setFd_fileFsDesc, hfds, update_idem, update_self]
      rfl
    · simp only [setFd_fileFsDesc, hfds, update_self, firstAfter]
      refine ⟨hfits.filename, hroom hfits.size, ?_⟩
      dsimp only
      split_ifs
      · exact hc.trans (by decide)
      · exact hfits.firstCluster
    · simp only [setFd_fileFsDesc, update_self, firstAfter]
      split_ifs with hge
      · exact hc
      · exact Nat.lt_of_not_le hge

/-- **A call of `mipos_tfs_write_file`**, whatever the table links and the driver answers. -/
theorem writeFile_ran (hw : port.ioWrite = some w) (hl : fs.lock = false)
    (hroot : h < maxNOfFiles → (fs.ftbl.fileFsDesc h).Rooted) (src : List UInt8) (n : ℕ) :
    ∃ fs' ok k ret, writeFile port fs src n h = some (fs', ok, k) ∧ WriteRan w fs fs' h n ret ∧
      (ret ≠ 0 → ok = false) := by
  by_cases ho : OpenForWrite fs h
  · have herror : WriteRan w fs (setError fs .writeFailed) h n 0 :=
      have ht : Touched port fs h (setError fs .writeFailed) := .of_error h .writeFailed
      .of_same hl hroot ht rfl
    rw [writeFile_eq port hl ho]
    by_cases hpast : (fs.ftbl.fileFsDesc h).size < (fs.fileCtl h).seekPointer
    · rw [if_pos hpast]
      exact ⟨_, _, _, _, rfl, herror, absurd rfl⟩
    · rw [if_neg hpast]
      have hseek :
          ((holding fs h).fileCtl h).seekPointer ≤ ((holding fs h).ftbl.fileFsDesc h).size := by
        simpa using hpast
      rcases writeBegin_rooted (by exact hroot ho.valid) hseek with hnone | ⟨tbl, c, hc, hsome⟩
      · rw [hnone]
        dsimp only
        rw [writeFail, ho.unlock]
        exact ⟨_, _, _, _, rfl, herror, absurd rfl⟩
      · rw [hsome]
        dsimp only
        obtain ⟨fs₂, rest, ret, hloop, hran⟩ : ∃ fs₂ rest ret, writeLoop port h (n + 1)
            (setTable (holding fs h) tbl) c ((fs.fileCtl h).seekPointer % clusterSize) src n
              = some (fs₂, rest, ret) ∧ LoopRan w (setTable (holding fs h) tbl) fs₂ h n ret := by
          have hl₂ : (setTable (holding fs h) tbl).lock = false := hl
          rcases Nat.eq_zero_or_pos n with rfl | hpos
          · refine ⟨_, _, _, writeLoop_zero hl₂ (by exact hseek) 0 c _ src, ?_⟩
            exact ⟨hl, .refl h _, ⟨0, le_rfl, absurd rfl, rfl⟩, .none _⟩
          · exact writeLoop_ran hw hl₂ hc _ src hpos (Nat.le_succ n)
        rw [hloop]
        obtain ⟨fs', ok, k, hafter, hran, hok⟩ := hran.finish ho hc rest
        exact ⟨fs', ok, k, ret, hafter, hran, hok⟩
  · obtain ⟨fs', hrun, ht, hdev⟩ := writeFile_refused port hl ho src n
    exact ⟨fs', _, _, _, hrun, .of_same hl hroot ht hdev, absurd rfl⟩

/-! ### Reading -/

/-- The loop of `mipos_tfs_read_file`, whatever the table links: what it has read is all if it
says so, and `R` relates the states and the bytes in between, if it does so for every round. -/
theorem readLoop_rule (hr : port.ioRead = some r) {R : Fs δ → Fs δ → ℕ → Prop} {C : ℕ → Prop}
    (hround : ∀ fs c off t, C c → off < clusterSize → off + t ≤ clusterSize →
      R fs (advance (setDev fs (r fs.dev t (clusterAddr c off)).1) h t) t)
    (htrans : ∀ {fs₁ fs₂ fs₃ j k}, R fs₁ fs₂ j → R fs₂ fs₃ k → R fs₁ fs₃ (j + k))
    (herror : ∀ {fs₁ fs₂ k} e, R fs₁ fs₂ k → R fs₁ (setError fs₂ e) k)
    (hnext : ∀ c, c < clustersCount → C c) (hl : fs.lock = false) (hc : C c) (off : ℕ)
    {total got fuel : ℕ} (hpos : got < total) (hfuel : total - got ≤ fuel) :
    ∃ fs' ok k data, readLoop port h total fuel fs c off got (total - got)
        = some (fs', ok, got + k, data) ∧ fs'.lock = false ∧ k ≤ total - got ∧
      (ok = false → k < total - got) ∧ R fs fs' k := by
  induction fuel generalizing fs c off got with
  | zero => omega
  | succ fuel ih =>
    have hoff := mod_clusterSize off
    obtain ⟨t, ht⟩ : ∃ t, t = min (total - got) (clusterSize - off % clusterSize) := ⟨_, rfl⟩
    have htpos : 0 < t := by omega
    have hfirst := hround fs c (off % clusterSize) t hc hoff (by omega)
    rw [readLoop_io hr hl h total fuel c off got ht htpos]
    dsimp only
    generalize hfs : advance (setDev fs (r fs.dev t (clusterAddr c (off % clusterSize))).1) h t
      = fs₁ at hfirst ⊢
    have hl₁ : fs₁.lock = false := hfs ▸ hl
    by_cases hend : got + t ≥ total
    · rw [if_pos hend]
      exact ⟨_, _, t, _, rfl, hl₁, by omega, nofun, hfirst⟩
    · rw [if_neg hend]
      cases hx : nextOf fs₁.ftbl.clusterTbl c with
      | none => exact ⟨_, _, t, _, rfl, hl₁, by omega, fun _ => by omega, herror _ hfirst⟩
      | some x =>
        obtain ⟨fs₂, ok, k, data, hrest, hl₂, hk, hshort, hmore⟩ :
            ∃ fs₂ ok k data, readLoop port h total fuel fs₁ x 0 (got + t) (total - (got + t))
              = some (fs₂, ok, got + t + k, data) ∧ fs₂.lock = false ∧ k ≤ total - (got + t) ∧
              (ok = false → k < total - (got + t)) ∧ R fs₁ fs₂ k :=
          ih hl₁ (hnext x (nextOf_lt hx).1) 0 (by omega) (by omega)
        dsimp only
        rw [hrest, Nat.add_assoc]
        refine ⟨fs₂, ok, t + k, _, rfl, hl₂, by omega, fun hok => ?_, htrans hfirst hmore⟩
        have := hshort hok
        omega

theorem readLoop_gets (hr : port.ioRead = some r) (hl : fs.lock = false) (hc : c < clustersCount)
    (off : ℕ) {total got fuel : ℕ} (hpos : got < total) (hfuel : total - got ≤ fuel) :
    ∃ fs' res, readLoop port h total fuel fs c off got (total - got) = some (fs', res) ∧
      Gets r fs.dev fs'.dev := by
  obtain ⟨fs', ok, k, data, hloop, -, -, -, hgets⟩ :=
    readLoop_rule (R := fun fs fs' _ => Gets r fs.dev fs'.dev) (C := (· < clustersCount)) hr
      (fun _ c off t hc hoff hfits => .single ⟨c, off, t, ⟨hc, hoff, hfits⟩, rfl⟩) .trans
      (fun _ hgets => hgets) (fun _ hc => hc) hl hc off hpos hfuel
  exact ⟨fs', _, hloop, hgets⟩

/-- **A call of `mipos_tfs_read_file`**, whatever the table links and the driver answers. -/
theorem readFile_gets (hr : port.ioRead = some r) (hl : fs.lock = false)
    (hroot : h < maxNOfFiles → (fs.ftbl.fileFsDesc h).Rooted) (n : ℕ) :
    ∃ fs' res, readFile port fs n h = some (fs', res) ∧ Gets r fs.dev fs'.dev := by
  have hfail : ∀ (fs₁ : Fs δ) (k : ℕ), fs₁.dev = fs.dev →
      ∃ fs' res, some (readFail fs₁ h k) = some (fs', res) ∧ Gets r fs.dev fs'.dev := by
    intro fs₁ k hdev
    refine ⟨_, _, rfl, ?_⟩
    rw [unlockFile_dev, setError_dev, hdev]
    exact .refl
  rcases free_or_busy fs h with hfree | hbusy
  · have hlock := lockFile_holding hfree.1 hfree.2
    have hl₁ : (holding fs h).lock = false := hl
    rw [readFile, hlock]
    dsimp only
    rw [getFdCtl_eq hl₁]
    dsimp only [Option.bind_eq_bind, Option.bind_some]
    split
    · exact hfail _ n rfl
    · rename_i hopen
      have hpos : 0 < ((holding fs h).ftbl.fileFsDesc h).size := by omega
      rw [getClusterSeekPt_eq hl₁]
      dsimp only [Option.bind_some]
      split
      · exact hfail _ n rfl
      · rw [noteEof_eq hl₁]
        dsimp only [Option.bind_some]
        generalize hfs : setCtl (holding fs h) h _ = fs₁
        have hl₂ : fs₁.lock = false := hfs ▸ hl
        have hdev : fs₁.dev = fs.dev := hfs ▸ rfl
        have hc : (seekCluster (holding fs h) h).2 < clustersCount :=
          seekCluster_lt (by exact hroot hfree.1) hpos
        generalize (if (n + ((holding fs h).fileCtl h).seekPointer) % 2 ^ 32
          > ((holding fs h).ftbl.fileFsDesc h).size then _ else _) = total
        obtain ⟨fs₂, res, hloop, hgets⟩ : ∃ fs₂ res, readLoop port h total (total + 1) fs₁
            (seekCluster (holding fs h) h).2 (((holding fs h).fileCtl h).seekPointer % clusterSize)
              0 total = some (fs₂, res) ∧ Gets r fs₁.dev fs₂.dev := by
          rcases Nat.eq_zero_or_pos total with rfl | htotal
          · exact ⟨_, _, readLoop_zero hl₂ h 0 0 _ _ 0, .refl⟩
          · exact readLoop_gets hr hl₂ hc _ htotal (Nat.le_succ total)
        rw [hloop]
        refine ⟨_, _, rfl, ?_⟩
        rw [unlockFile_dev, ← hdev]
        exact hgets
  · rw [readFile, lockFile_busy hbusy]
    exact hfail fs n rfl

end Tfs
