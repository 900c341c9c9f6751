/-
How many elements were read or written.

`mipos_tfs_fread` and `mipos_tfs_fwrite` multiply the size of an element by their number, in
`size_t`, and hand the product down as a `uint32_t`.  What comes back in it is divided by the
size: the bytes that were moved, or what was asked for, when `mipos_tfs_read_file` refuses the
call or the driver fails during `mipos_tfs_write_file`.

* `Advanced` — how far the position of a file has moved on;
* `readFile_counts`, `writeFile_counts` — for any state of the table and any driver, what is
  returned against what the position says;
* `element_counts_iff` — the two calls return the number of elements that were passed, and do not
  divide by zero, just if none of these cases applies;
* `counts_wrong` — one call for each of them.
-/
import Mipos.TfsDeviceErrors
import Mipos.TfsStdio

namespace Tfs

variable {δ : Type} {port : Port δ} {fs fs' fs₁ : Fs δ} {h c n : ℕ} {log : δ → List Io}
  {w : δ → List UInt8 → ℕ → δ × ℤ} {r : δ → ℕ → ℕ → δ × List UInt8 × ℤ}

/-! ### Positions -/

/-- The position of the file, which has 32 bits, has moved on by `k` bytes. -/
def Advanced (fs fs' : Fs δ) (h k : ℕ) : Prop :=
  (fs'.fileCtl h).seekPointer % 2 ^ 32 = ((fs.fileCtl h).seekPointer + k) % 2 ^ 32

instance (fs fs' : Fs δ) (h k : ℕ) : Decidable (Advanced fs fs' h k) :=
  inferInstanceAs (Decidable (_ = _))

theorem Advanced.of_eq (hseek : (fs'.fileCtl h).seekPointer = (fs.fileCtl h).seekPointer) :
    Advanced fs fs' h 0 := by
  rw [Advanced, hseek]
  rfl

theorem Advanced.trans {j k : ℕ} (hj : Advanced fs fs₁ h j) (hk : Advanced fs₁ fs' h k) :
    Advanced fs fs' h (j + k) := by
  rw [Advanced] at *
  omega

theorem Advanced.unique {j k : ℕ} (hj : Advanced fs fs' h j) (hk : Advanced fs fs' h k)
    (hjlt : j < 2 ^ 32) (hklt : k < 2 ^ 32) : j = k := by
  rw [Advanced] at *
  omega

theorem advanced_advance (fs : Fs δ) (h t : ℕ) : Advanced fs (advance fs h t) h t := by
  simp [Advanced, advance]

/-! ### Reading -/

/-- The loop of `mipos_tfs_read_file`, whatever is linked: what it has read is what it has gone
on by, and it is all if the loop says so. -/
theorem readLoop_counts (hr : port.ioRead = some r) (hl : fs.lock = false) (c off : ℕ)
    {total got fuel : ℕ} (hpos : got < total) (hfuel : total - got ≤ fuel) :
    ∃ fs' ok k data, readLoop port h total fuel fs c off got (total - got)
        = some (fs', ok, got + k, data) ∧ fs'.lock = false ∧ k ≤ total - got ∧
      (ok = false → k < total - got) ∧ Advanced fs fs' h k := by
  exact readLoop_rule (R := fun fs fs' k => Advanced fs fs' h k) (C := fun _ => True) hr
    (fun fs _ _ t _ _ _ => advanced_advance (setDev fs _) h t) .trans (fun _ hadv => hadv)
    (fun _ _ => trivial) hl trivial off hpos hfuel

/-- `mipos_tfs_read_file` goes to its exception handler. -/
def ReadRefused (fs : Fs δ) (h : ℕ) : Prop :=
  maxNOfFiles ≤ h ∨ (fs.fileCtl h).locked = true ∨ (fs.fileCtl h).isOpen = false ∨
    (fs.ftbl.fileFsDesc h).size ≤ (fs.fileCtl h).seekPointer ∨ (seekCluster fs h).1 = false

instance (fs : Fs δ) (h : ℕ) : Decidable (ReadRefused fs h) :=
  inferInstanceAs (Decidable (_ ∨ _ ∨ _ ∨ _ ∨ _))

/-- A call that is refused returns the number that it was given. -/
theorem readFail_counts (hl : fs₁.lock = false)
    (hseek : (fs₁.fileCtl h).seekPointer = (fs.fileCtl h).seekPointer) :
    ∃ fs', some (readFail fs₁ h n) = some (fs', false, n, []) ∧ fs'.lock = false ∧
      Advanced fs fs' h 0 := by
  refine ⟨_, rfl, by simpa using hl, .of_eq ?_⟩
  rw [unlockFile_seekPointer]
  exact hseek

/-- **What `mipos_tfs_read_file` returns**, for any table and any driver. -/
theorem readFile_counts (hr : port.ioRead = some r) (hl : fs.lock = false) (n h : ℕ) :
    (ReadRefused fs h ∧ ∃ fs', readFile port fs n h = some (fs', false, n, []) ∧
      fs'.lock = false ∧ Advanced fs fs' h 0) ∨
    (¬ReadRefused fs h ∧ ∃ fs' ok k data, readFile port fs n h = some (fs', ok, k, data) ∧
      fs'.lock = false ∧ k ≤ n ∧ (n = 0 → ok = false) ∧ (ok = false → k < n ∨ n = 0) ∧
      Advanced fs fs' h k) := by
  rw [readFile]
  rcases free_or_busy fs h with ⟨hh, hfree⟩ | hbusy
  · have hl₁ : (holding fs h).lock = false := hl
    have hseek : ((holding fs h).fileCtl h).seekPointer = (fs.fileCtl h).seekPointer := by simp
    rw [lockFile_holding hh hfree]
    dsimp only
    rw [getFdCtl_eq hl₁]
    dsimp only [Option.bind_eq_bind, Option.bind_some]
    by_cases hno : ((holding fs h).fileCtl h).isOpen = false ∨
        ((holding fs h).fileCtl h).seekPointer ≥ ((holding fs h).ftbl.fileFsDesc h).size
    · rw [if_pos hno]
      rw [holding_fileCtl, holding_ftbl] at hno
      exact .inl ⟨.inr (.inr (hno.imp_right .inl)), readFail_counts hl₁ hseek⟩
    · rw [if_neg hno, getClusterSeekPt_eq hl₁, seekCluster_holding]
      dsimp only [Option.bind_some]
      rw [holding_fileCtl, holding_ftbl, not_or, not_le] at hno
      cases hwalk : (seekCluster fs h).1 with
      | false =>
        rw [if_pos rfl]
        exact .inl ⟨.inr (.inr (.inr (.inr hwalk))), readFail_counts hl₁ hseek⟩
      | true =>
        have haccepted : ¬ReadRefused fs h := by
          rintro (hge | hlocked | hclosed | hend | hlost)
          · omega
          · exact absurd (hfree.symm.trans hlocked) (by decide)
          · exact hno.1 hclosed
          · exact absurd hno.2 (Nat.not_lt.mpr hend)
          · exact absurd (hwalk.symm.trans hlost) (by decide)
        rw [if_neg (by decide), noteEof_eq hl₁]
        dsimp only [Option.bind_some]
        refine .inr ⟨haccepted, ?_⟩
        generalize hfs : setCtl (holding fs h) h _ = fs₁
        have hl₂ : fs₁.lock = false := hfs ▸ hl
        have hadv₁ : Advanced fs fs₁ h 0 := by
          refine .of_eq ?_
          rw [← hfs]
          simp
        -- the request is cut to what the file has
        generalize htotal : (if (n + ((holding fs h).fileCtl h).seekPointer) % 2 ^ 32
          > ((holding fs h).ftbl.fileFsDesc h).size then _ else _) = total
        have hle : total ≤ n ∧ (n = 0 → total = 0) ∧ (0 < n → 0 < total) := by
          simp only [holding_fileCtl, holding_ftbl] at htotal hno
          split at htotal <;> omega
        rcases Nat.eq_zero_or_pos total with rfl | hpos
        · rw [readLoop_zero hl₂]
          refine ⟨_, _, 0, _, rfl, by simpa using hl₂, Nat.zero_le n, fun _ => rfl,
            fun _ => .inr (by omega), ?_⟩
          refine hadv₁.trans (.of_eq ?_)
          rw [unlockFile_seekPointer]
          rfl
        · obtain ⟨fs₂, ok, k, data, hloop, hl₃, hk, hshort, hadv₂⟩ :
              ∃ fs₂ ok k data, readLoop port h total (total + 1) fs₁ (seekCluster fs h).2
                (((holding fs h).fileCtl h).seekPointer % clusterSize) 0 (total - 0)
                = some (fs₂, ok, 0 + k, data) ∧ fs₂.lock = false ∧ k ≤ total - 0 ∧
                (ok = false → k < total - 0) ∧ Advanced fs₁ fs₂ h k :=
            readLoop_counts hr hl₂ _ _ hpos (by omega)
          rw [Nat.sub_zero, Nat.zero_add] at hloop
          rw [hloop]
          refine ⟨_, ok, k, data, rfl, by simpa using hl₃, by omega, fun hzero => by omega,
            fun hok => .inl ?_, ?_⟩
          · have := hshort hok
            omega
          · have hunlock : Advanced fs₂ (unlockFile fs₂ h).1 h 0 :=
              .of_eq (unlockFile_seekPointer fs₂ h h)
            have hall := (hadv₁.trans hadv₂).trans hunlock
            rwa [Nat.zero_add, Nat.add_zero] at hall
  · rw [lockFile_busy hbusy]
    exact .inl ⟨hbusy.imp_right .inl, readFail_counts hl rfl⟩

/-! ### Writing -/

/-- Only the table has changed. -/
def TableOnly (fs fs' : Fs δ) : Prop := ∃ ftbl, fs' = { fs with ftbl }

theorem setClusterVal_table (hl : fs.lock = false) {v : ℕ}
    (hrun : setClusterVal fs c v = some fs') : TableOnly fs fs' := by
  by_cases hc : c < clustersCount
  · rw [setClusterVal_eq hl hc] at hrun
    cases hrun
    exact ⟨_, rfl⟩
  · simp [setClusterVal, withAccess, lockAccess, hl, hc] at hrun

theorem nextForWrite_table (hl : fs.lock = false) {past : Bool} {next : Option ℕ}
    (hrun : nextForWrite fs past c = some (fs', next)) : TableOnly fs fs' := by
  have hlast : ∀ hmark : (markClusterLast fs c).bind (fun fs => some (fs, none))
      = some (fs', next), TableOnly fs fs' := by
    intro hmark
    obtain ⟨fs₁, hset, heq⟩ := Option.bind_eq_some_iff.mp hmark
    cases heq
    exact setClusterVal_table hl hset
  cases past with
  | true =>
    rw [nextForWrite, if_pos rfl, reserveCluster_eq hl] at hrun
    cases hx : firstFree fs.ftbl.clusterTbl with
    | none =>
      rw [hx] at hrun
      exact hlast hrun
    | some x =>
      rw [hx] at hrun
      cases hrun
      exact ⟨_, rfl⟩
  | false =>
    rw [nextForWrite, if_neg (by decide), getNextCluster_eq hl] at hrun
    cases hx : nextOf fs.ftbl.clusterTbl c with
    | none =>
      rw [hx] at hrun
      exact hlast hrun
    | some x =>
      rw [hx] at hrun
      cases hrun
      exact ⟨_, rfl⟩

theorem linkCluster_table (hl : fs.lock = false) {x : ℕ} {ok : Bool}
    (hrun : linkCluster fs c x = some (fs', ok)) : TableOnly fs fs' := by
  rw [linkCluster] at hrun
  split at hrun
  · cases hrun
    exact ⟨_, rfl⟩
  · obtain ⟨fs₁, hset, hrun⟩ := Option.bind_eq_some_iff.mp hrun
    cases hrun
    exact setClusterVal_table hl hset

/-- What the driver has answered in a call that it has returned `ret` to last: it ends with the
first failure. -/
inductive Answers : List Io → ℤ → Prop
  | ok {new : List Io} (hnew : ∀ io ∈ new, ¬io.Failed) : Answers new 0
  | failed {ios : List Io} {io : Io} {ret : ℤ} (hios : ∀ io ∈ ios, ¬io.Failed) (hio : io.Failed)
      (hret : ret ≠ 0) : Answers (ios ++ [io]) ret

theorem Answers.append {new₁ new₂ : List Io} {ret : ℤ} (h₁ : ∀ io ∈ new₁, ¬io.Failed)
    (h₂ : Answers new₂ ret) : Answers (new₁ ++ new₂) ret := by
  cases h₂ with
  | ok hnew => exact .ok fun io hio => (List.mem_append.mp hio).elim (h₁ io) (hnew io)
  | failed hios hio hret =>
    rw [← List.append_assoc]
    exact .failed (fun io hmem => (List.mem_append.mp hmem).elim (h₁ io) (hios io)) hio hret

/-- Only the last access can have failed. -/
theorem Answers.getElem?_failed {new : List Io} {ret : ℤ} (h : Answers new ret) {k : ℕ} {io : Io}
    (hk : new[k]? = some io) (hio : io.Failed) : k + 1 = new.length ∧ ret ≠ 0 := by
  cases h with
  | ok hnew => exact absurd hio (hnew io (List.mem_of_getElem? hk))
  | @failed ios last ret hios _ hret =>
    refine ⟨?_, hret⟩
    rw [List.length_append, List.length_singleton]
    obtain ⟨hlt, -⟩ := List.getElem?_eq_some_iff.mp hk
    rw [List.length_append, List.length_singleton] at hlt
    by_contra hne
    have hmem := List.mem_of_getElem? ((List.getElem?_append_left (by omega)).symm.trans hk)
    exact hios io hmem hio

/-- The accesses of a call in the log, and their number. -/
def Logged (log : δ → List Io) (dev dev' : δ) (ret : ℤ) (i : ℕ) : Prop :=
  ∃ new, log dev' = log dev ++ new ∧ new.length = i ∧ Answers new ret

theorem Logged.none (log : δ → List Io) (dev : δ) : Logged log dev dev 0 0 :=
  ⟨[], (List.append_nil _).symm, rfl, .ok fun _ h => absurd h List.not_mem_nil⟩

theorem Logged.trans {dev dev₁ dev₂ : δ} {ret : ℤ} {i₁ i₂ : ℕ} (h₁ : Logged log dev dev₁ 0 i₁)
    (h₂ : Logged log dev₁ dev₂ ret i₂) : Logged log dev dev₂ ret (i₁ + i₂) := by
  obtain ⟨new₁, hlog₁, rfl, hans₁⟩ := h₁
  obtain ⟨new₂, hlog₂, rfl, hans₂⟩ := h₂
  refine ⟨new₁ ++ new₂, by rw [hlog₂, hlog₁, List.append_assoc], List.length_append,
    .append (fun io hmem hio => ?_) hans₂⟩
  obtain ⟨k, hk⟩ := List.mem_iff_getElem?.mp hmem
  exact (hans₁.getElem?_failed hk hio).2 rfl

/-- How far `i` calls of `io_write` take a write of `n` bytes from offset `off`: the first one to
the end of the cluster, every other one over a whole one. -/
def reach (off n i : ℕ) : ℕ := min n (clusterSize * i - off % clusterSize)

theorem reach_le (off n i : ℕ) : reach off n i ≤ n := Nat.min_le_left _ _

@[simp] theorem reach_zero (off n : ℕ) : reach off n 0 = 0 := by
  rw [reach, Nat.mul_zero, Nat.zero_sub, Nat.min_zero]

/-- One round, and those behind it. -/
theorem reach_succ {off n t : ℕ} (ht : t = reach off n 1) (hmore : n - t ≠ 0) (i : ℕ) :
    t + reach 0 (n - t) i = reach off n (1 + i) := by
  simp only [reach, clusterSize] at *
  omega

section Writes

variable (hlog : port.Logs log)

include hlog in
theorem writeCluster_logs (hl : fs.lock = false) {off t : ℕ} {src : List UInt8} {ret : ℤ}
    (hrun : writeCluster port fs c off src n = some (fs', ret, t)) :
    ∃ dev i, fs' = setDev fs dev ∧ t = reach off n i ∧ (n ≠ 0 → i = 1) ∧
      Logged log fs.dev dev ret i := by
  obtain ⟨fs₁, hbody, rfl⟩ := withAccess_some hrun
  dsimp only at hbody
  split at hbody
  · rename_i hzero
    cases hbody
    refine ⟨fs.dev, 0, unlock_lock hl, (reach_zero off n).symm, fun hne => ?_, .none log fs.dev⟩
    dsimp only [clusterSize] at hzero
    omega
  · obtain ⟨w, hw, hbody⟩ := Option.bind_eq_some_iff.mp hbody
    cases hbody
    generalize src.take (min n (clusterSize - off % clusterSize)) = data
    generalize clusterAddr c (off % clusterSize) = addr
    have hl' : (setDev fs (w fs.dev data addr).1).lock = false := hl
    refine ⟨(w fs.dev data addr).1, 1, unlock_lock hl', by rw [reach, Nat.mul_one], fun _ => rfl,
      _, hlog.write w hw fs.dev data addr, rfl, ?_⟩
    by_cases hret : (w fs.dev data addr).2 = 0
    · rw [hret]
      exact .ok (by simp [Io.Failed])
    · exact Answers.failed (List.forall_mem_nil _) ⟨rfl, hret⟩ hret

include hlog in
/-- The loop of `mipos_tfs_write_file`, wherever it starts: what is left is what the position has
not gone on by, and how far that is follows from the number of rounds. -/
theorem writeLoop_counts (hl : fs.lock = false) {fuel off rest : ℕ} {src : List UInt8} {ret : ℤ}
    (hrun : writeLoop port h fuel fs c off src n = some (fs', rest, ret)) :
    ∃ i, fs'.lock = false ∧ rest = n - reach off n i ∧ Advanced fs fs' h (reach off n i) ∧
      Logged log fs.dev fs'.dev ret i := by
  induction fuel generalizing fs c off src n with
  | zero => cases hrun
  | succ fuel ih =>
    rw [writeLoop] at hrun
    obtain ⟨⟨fs₁, ret₁, t⟩, hwrite, hrun⟩ := Option.bind_eq_some_iff.mp hrun
    obtain ⟨dev, i, rfl, ht, hone, hlogged⟩ := writeCluster_logs hlog hl hwrite
    have hl₁ : (setDev fs dev).lock = false := hl
    have hrun : (withAccess (setDev fs dev) fun fs => some (advance fs h t, ())).bind _ = _ := hrun
    rw [withAccess_advance hl₁, Option.bind_some] at hrun
    dsimp only at hrun
    generalize hfs : advance (setDev fs dev) h t = fs₂ at hrun
    have hl₂ : fs₂.lock = false := hfs ▸ hl
    have hround : Advanced fs fs₂ h t := hfs ▸ advanced_advance (setDev fs dev) h t
    have hlogged : Logged log fs.dev fs₂.dev ret₁ i := hfs ▸ hlogged
    -- what ends the call here leaves the position and the device as the round has
    have hlast : ∀ fs₃, TableOnly fs₂ fs₃ → ∃ i, fs₃.lock = false ∧ n - t = n - reach off n i ∧
        Advanced fs fs₃ h (reach off n i) ∧ Logged log fs.dev fs₃.dev ret₁ i := by
      rintro _ ⟨ftbl, rfl⟩
      exact ⟨i, hl₂, by rw [ht], ht ▸ hround, hlogged⟩
    by_cases hdone : n - t = 0
    · rw [if_pos hdone] at hrun
      rw [hdone] at hlast
      split at hrun
      · obtain ⟨fs₃, hmark, hrun⟩ := Option.bind_eq_some_iff.mp hrun
        cases hrun
        obtain ⟨ftbl, rfl⟩ := setClusterVal_table (by exact hl₂) hmark
        exact hlast _ ⟨ftbl, rfl⟩
      · cases hrun
        exact hlast _ ⟨_, rfl⟩
    · rw [if_neg hdone] at hrun
      obtain ⟨⟨fs₃, next⟩, hnext, hrun⟩ := Option.bind_eq_some_iff.mp hrun
      have htable := nextForWrite_table hl₂ hnext
      cases next with
      | none =>
        cases hrun
        exact hlast fs₃ htable
      | some x =>
        dsimp only at hrun
        split at hrun
        · cases hrun
          exact hlast _ htable
        · rename_i hret
          obtain ⟨⟨fs₄, linked⟩, hlink, hrun⟩ := Option.bind_eq_some_iff.mp hrun
          obtain ⟨ftbl₃, rfl⟩ := htable
          obtain ⟨ftbl₄, rfl⟩ := linkCluster_table (by exact hl₂) hlink
          obtain ⟨i', hl', hrest, hadv, hmore⟩ := ih (by exact hl₂) hrun
          obtain rfl : i = 1 := hone (by omega)
          have hsum := reach_succ ht hdone i'
          rw [not_not.mp hret] at hlogged
          exact ⟨1 + i', hl', by omega, hsum ▸ hround.trans hadv, hlogged.trans hmore⟩

/-- The start of a write changes the clusters and no descriptor. -/
theorem writeBegin_table (fs : Fs δ) (h : ℕ) : ∃ clusterTbl,
    (writeBegin fs h).1 = { fs with ftbl := { fs.ftbl with clusterTbl } } := by
  rw [writeBegin]
  cases firstFree fs.ftbl.clusterTbl with
  | none => split_ifs <;> exact ⟨_, rfl⟩
  | some x => split_ifs <;> exact ⟨_, rfl⟩

/-- What a call of `mipos_tfs_write_file` returns, when the position has moved on by `j` bytes and
the driver has returned `ret` last. -/
structure WriteCounts (n j : ℕ) (ret : ℤ) (ok : Bool) (k : ℕ) : Prop where
  le : j ≤ n
  failed : ret ≠ 0 → ok = false ∧ k = n
  succeeded : ret = 0 → k = j ∧ (ok = false → k < n ∨ n = 0)

/-- A call that goes to the exception handler. -/
theorem writeFail_counts (log : δ → List Io) (n : ℕ) {ok : Bool} {k : ℕ}
    (hseek : (fs₁.fileCtl h).seekPointer = (fs.fileCtl h).seekPointer) (hdev : fs₁.dev = fs.dev)
    (hrun : writeFail fs₁ h = (fs', ok, k)) :
    ∃ i ret, Advanced fs fs' h (reach (fs.fileCtl h).seekPointer n i) ∧
      Logged log fs.dev fs'.dev ret i ∧
      WriteCounts n (reach (fs.fileCtl h).seekPointer n i) ret ok k := by
  cases hrun
  refine ⟨0, 0, ?_⟩
  rw [reach_zero]
  refine ⟨.of_eq ?_, ?_, Nat.zero_le n, absurd rfl, fun _ => ⟨rfl, fun _ => ?_⟩⟩
  · rw [unlockFile_seekPointer]
    exact hseek
  · rw [unlockFile_dev, setError_dev, hdev]
    exact .none log fs.dev
  · omega

include hlog in
/-- **What `mipos_tfs_write_file` returns**, for any table and any driver. -/
theorem writeFile_counts (hl : fs.lock = false) {src : List UInt8} {ok : Bool} {k : ℕ}
    (hrun : writeFile port fs src n h = some (fs', ok, k)) :
    ∃ i ret, Advanced fs fs' h (reach (fs.fileCtl h).seekPointer n i) ∧
      Logged log fs.dev fs'.dev ret i ∧
      WriteCounts n (reach (fs.fileCtl h).seekPointer n i) ret ok k := by
  by_cases ho : OpenForWrite fs h
  · rw [writeFile_eq port hl ho] at hrun
    split at hrun
    · cases hrun
      refine ⟨0, 0, ?_⟩
      rw [reach_zero]
      exact ⟨.of_eq rfl, .none log fs.dev, Nat.zero_le n, absurd rfl,
        fun _ => ⟨rfl, fun _ => by omega⟩⟩
    · have htable := writeBegin_table (holding fs h) h
      have hseek : ((holding fs h).fileCtl h).seekPointer = (fs.fileCtl h).seekPointer := by simp
      generalize writeBegin (holding fs h) h = start at hrun htable
      obtain ⟨fs₁, _ | c⟩ := start
      · obtain ⟨clusterTbl, rfl⟩ := htable
        exact writeFail_counts log n (by exact hseek) (by rfl) (Option.some.inj hrun)
      · obtain ⟨clusterTbl, rfl⟩ := htable
        obtain ⟨⟨fs₂, rest, ret⟩, hloop, hrun⟩ := Option.bind_eq_some_iff.mp hrun
        obtain ⟨i, hl₂, hrest, hadv, hlogged⟩ := writeLoop_counts hlog (by exact hl) hloop
        have hoff : ∀ m, reach ((fs.fileCtl h).seekPointer % clusterSize) n m
            = reach (fs.fileCtl h).seekPointer n m := fun m => by rw [reach, Nat.mod_mod, reach]
        rw [hoff] at hrest hadv
        have hle := reach_le (fs.fileCtl h).seekPointer n i
        have hstart : Advanced fs { holding fs h with ftbl := { fs.ftbl with clusterTbl } } h 0 :=
          .of_eq hseek
        have hunlock : ∀ fs₃ : Fs δ, fs₃.fileCtl = fs₂.fileCtl →
            Advanced fs (unlockFile fs₃ h).1 h (reach (fs.fileCtl h).seekPointer n i) := by
          intro fs₃ hctl
          have hlast : Advanced fs₂ (unlockFile fs₃ h).1 h 0 := by
            refine .of_eq ?_
            rw [unlockFile_seekPointer, hctl]
          have hall := (hstart.trans hadv).trans hlast
          rwa [Nat.zero_add, Nat.add_zero] at hall
        rw [afterLoop] at hrun
        split at hrun
        · rename_i hret
          cases hrun
          refine ⟨i, ret, hunlock fs₂ rfl, ?_, hle, fun _ => ⟨rfl, rfl⟩,
            fun hzero => absurd hzero hret⟩
          rw [unlockFile_dev]
          exact hlogged
        · rename_i hret
          rw [setFirst_eq (by exact hl₂), Option.bind_some] at hrun
          cases hrun
          refine ⟨i, ret, hunlock _ rfl, ?_, hle, fun hne => absurd hne hret,
            fun _ => ⟨by dsimp only; omega, fun hok => ?_⟩⟩
          · rw [unlockFile_dev]
            exact hlogged
          · have hrest := of_decide_eq_false hok
            dsimp only at *
            omega
  · obtain ⟨fs₁, hfail, hsame⟩ := writeFile_fails port hl ho src n
    rw [hfail] at hrun
    rcases hsame with rfl | ⟨-, rfl⟩
    · exact writeFail_counts log n rfl rfl (Option.some.inj hrun)
    · exact writeFail_counts log n (by simp) (by rfl) (Option.some.inj hrun)

end Writes

/-- A write that finds a cluster to start with. -/
def StartsWrite (fs : Fs δ) (h : ℕ) : Prop :=
  OpenForWrite fs h ∧ (fs.fileCtl h).seekPointer ≤ (fs.ftbl.fileFsDesc h).size ∧
    (writeBegin (holding fs h) h).2.isSome = true

instance (fs : Fs δ) (h : ℕ) : Decidable (StartsWrite fs h) :=
  inferInstanceAs (Decidable (_ ∧ _ ∧ _))

/-- A write of no bytes returns `TRUE` as soon as it starts. -/
theorem writeFile_nothing_iff (port : Port δ) (hl : fs.lock = false) (src : List UInt8) :
    (∃ fs' k, writeFile port fs src 0 h = some (fs', true, k)) ↔ StartsWrite fs h := by
  by_cases ho : OpenForWrite fs h
  · rw [writeFile_eq port hl ho, StartsWrite]
    by_cases hpast : (fs.ftbl.fileFsDesc h).size < (fs.fileCtl h).seekPointer
    · rw [if_pos hpast]
      refine iff_of_false ?_ fun hstarts => absurd hstarts.2.1 (Nat.not_le.mpr hpast)
      rintro ⟨fs', k, hrun⟩
      cases hrun
    · rw [if_neg hpast]
      have hseek := Nat.not_lt.mp hpast
      have htable := writeBegin_table (holding fs h) h
      generalize writeBegin (holding fs h) h = start at htable
      obtain ⟨fs₁, _ | c⟩ := start
      · refine iff_of_false ?_ fun hstarts => Bool.false_ne_true hstarts.2.2
        rintro ⟨fs', k, hrun⟩
        cases hrun
      · obtain ⟨clusterTbl, rfl⟩ := htable
        have hseek₁ : ((holding fs h).fileCtl h).seekPointer ≤ (fs.ftbl.fileFsDesc h).size := by
          simpa using hseek
        dsimp only
        rw [writeLoop_zero (by exact hl) (by exact hseek₁), Option.bind_some, afterLoop,
          if_neg (by simp), setFirst_eq (by exact hl)]
        exact iff_of_true ⟨_, _, rfl⟩ ⟨ho, hseek, rfl⟩
  · obtain ⟨fs', hrefused, -⟩ := writeFile_refused port hl ho src 0
    refine iff_of_false ?_ fun hstarts => ho hstarts.1
    rintro ⟨fs₁, k, hrun⟩
    cases hrefused.symm.trans hrun

end Tfs

namespace Stdio

open Tfs

variable {δ : Type} {port : Port δ} {fs fs' : Fs δ} {log : δ → List Io} {f : File} {size count : ℕ}
  {w : δ → List UInt8 → ℕ → δ × ℤ} {r : δ → ℕ → ℕ → δ × List UInt8 × ℤ}

/-! ### Elements -/

/-- `size * count`, in a `size_t`. -/
def byteCount (port : Port δ) (size count : ℕ) : ℕ := size * count % 2 ^ (8 * port.sizeofPtr)

/-- The value is the number of whole elements by which the position has moved on, and not more
than were asked for. -/
structure Counted (fs fs' : Fs δ) (f : File) (size count v : ℕ) : Prop where
  le : v ≤ count
  passed : ∃ k, k < 2 ^ 32 ∧ Advanced fs fs' f.handle k ∧ v = k / size

/-- The call returns, and returns the right number. -/
def FreadRight (port : Port δ) (fs : Fs δ) (size count : ℕ) (f : File) : Prop :=
  ∃ fs' v data, fread port fs size count f = some (fs', v, data) ∧
    (0 < size → Counted fs fs' f size count v)

/-- The call divides by the size of an element, which is zero. -/
def DividesByZero (port : Port δ) (fs : Fs δ) (buffer : List UInt8) (size count : ℕ) (f : File) :
    Prop :=
  size = 0 ∧ ∃ fs' k, writeFile port fs buffer (byteCount port size count % 2 ^ 32) f.handle
    = some (fs', true, k)

/-- The call does not divide by zero, returns if the file has a first cluster for its bytes, and
returns the right number. -/
structure FwriteRight (port : Port δ) (fs : Fs δ) (buffer : List UInt8) (size count : ℕ)
    (f : File) : Prop where
  divides : ¬DividesByZero port fs buffer size count f
  returns : (f.handle < maxNOfFiles → (fs.ftbl.fileFsDesc f.handle).Rooted) →
    ∃ r, fwrite port fs buffer size count f = some r
  counts : ∀ fs' v, fwrite port fs buffer size count f = some (fs', v) → 0 < size →
    Counted fs fs' f size count v

/-- The driver fails during the call, after `k` calls of `io_write`. -/
def FailsAfter (log : δ → List Io) (port : Port δ) (fs : Fs δ) (buffer : List UInt8)
    (size count : ℕ) (f : File) (k : ℕ) : Prop :=
  ∃ fs' v io, fwrite port fs buffer size count f = some (fs', v) ∧
    (accessed log fs fs')[k]? = some io ∧ io.Failed

/-- A failure after `k` calls of `io_write` may be taken for a write of nothing: the calls before
it and the one that fails have not come to the end of an element, or, where the product has more
than 32 bits, have come to the last one. -/
def FailureCounted (fs : Fs δ) (h size total k : ℕ) : Prop :=
  let passed := reach (fs.fileCtl h).seekPointer (total % 2 ^ 32) (k + 1)
  if total < 2 ^ 32 then passed < size else passed / size = total % 2 ^ 32 / size

theorem byteCount_zero (port : Port δ) (count : ℕ) : byteCount port 0 count = 0 := by
  rw [byteCount, Nat.zero_mul, Nat.zero_mod]

/-- Not more elements than were asked for. -/
theorem div_le_count (port : Port δ) {k : ℕ} (hk : k ≤ byteCount port size count) :
    k / size ≤ count := Nat.div_le_of_le_mul (hk.trans (Nat.mod_le _ _))

/-- The value for a call that comes back with the number of bytes it was given. -/
theorem asked_eq_iff (total : ℕ) {j : ℕ} (hpos : 0 < size) :
    (if total % 2 ^ 32 < total then total % 2 ^ 32 / size else 0) = j / size ↔
      (if total < 2 ^ 32 then j < size else j / size = total % 2 ^ 32 / size) := by
  have hcut : total % 2 ^ 32 < total ↔ ¬total < 2 ^ 32 := by omega
  by_cases hlt : total < 2 ^ 32
  · rw [if_neg fun h => hcut.mp h hlt, if_pos hlt, eq_comm, Nat.div_eq_zero_iff_lt hpos]
  · rw [if_pos (hcut.mpr hlt), if_neg hlt, eq_comm]

/-- The value for a call that fails after `k` of the bytes, or that was to move none. -/
theorem short_eq {total k : ℕ} (hle : k ≤ total % 2 ^ 32)
    (hshort : k < total % 2 ^ 32 ∨ total % 2 ^ 32 = 0) :
    (if k < total then k / size else 0) = k / size := by
  have hmod := Nat.mod_le total (2 ^ 32)
  split
  · rfl
  · obtain rfl : k = 0 := by omega
    rw [Nat.zero_div]

theorem fread_failed {fs₁ : Fs δ} {k : ℕ} {data : List UInt8} (hl : fs₁.lock = false)
    (hread : readFile port fs (byteCount port size count % 2 ^ 32) f.handle
      = some (fs₁, false, k, data)) :
    fread port fs size count f
      = some (fs₁, if k < byteCount port size count then k / size else 0, data) := by
  rw [byteCount] at *
  rw [fread, hread]
  dsimp only [Option.bind_eq_bind, Option.bind_some]
  rw [if_neg (by decide)]
  split
  · rfl
  · rw [getFdCtl_eq hl]
    rfl

theorem fread_succeeded {fs₁ : Fs δ} {k : ℕ} {data : List UInt8} (hsize : size ≠ 0)
    (hread : readFile port fs (byteCount port size count % 2 ^ 32) f.handle
      = some (fs₁, true, k, data)) :
    fread port fs size count f = some (fs₁, k / size, data) := by
  rw [byteCount] at hread
  rw [fread, hread]
  dsimp only [Option.bind_eq_bind, Option.bind_some]
  rw [if_pos rfl, if_neg hsize]

theorem fread_right_iff (hl : fs.lock = false) (hr : port.ioRead = some r) (size count : ℕ)
    (f : File) : FreadRight port fs size count f ↔
      ¬(ReadRefused fs f.handle ∧ 2 ^ 32 ≤ byteCount port size count ∧
        size ≤ byteCount port size count % 2 ^ 32) := by
  have hlt : byteCount port size count % 2 ^ 32 < 2 ^ 32 := Nat.mod_lt _ (by decide)
  have hmod : byteCount port size count % 2 ^ 32 ≤ byteCount port size count := Nat.mod_le _ _
  have hnone : size = 0 → byteCount port size count = 0 := by
    rintro rfl
    exact byteCount_zero port count
  rcases readFile_counts hr hl (byteCount port size count % 2 ^ 32) f.handle with
    ⟨hrefused, fs₁, hread, hl₁, hadv⟩ | ⟨haccepted, fs₁, ok, k, data, hread, hl₁, hk, hzero,
      hshort, hadv⟩
  · have hfread := fread_failed hl₁ hread
    constructor
    · rintro ⟨fs', v, data, hrun, hcounted⟩ ⟨-, hlong, hge⟩
      have hpos : 0 < size := Nat.pos_of_ne_zero fun h => by omega
      cases hfread.symm.trans hrun
      obtain ⟨k, hklt, hkadv, hv⟩ := (hcounted hpos).passed
      obtain rfl := hkadv.unique hadv hklt (by decide)
      have hzero := (asked_eq_iff _ hpos).mp hv
      rw [if_neg (Nat.not_lt.mpr hlong), Nat.zero_div] at hzero
      exact absurd hzero.symm (Nat.div_pos hge hpos).ne'
    · intro hno
      refine ⟨fs₁, _, _, hfread, fun hpos => ?_⟩
      have hv := (asked_eq_iff (byteCount port size count) (j := 0) hpos).mpr (by
        split
        · exact hpos
        · rename_i hlong
          rw [Nat.zero_div, Nat.div_eq_of_lt]
          exact Nat.lt_of_not_le fun hge => hno ⟨hrefused, Nat.not_lt.mp hlong, hge⟩)
      rw [hv]
      exact ⟨div_le_count port (Nat.zero_le _), 0, by decide, hadv, rfl⟩
  · refine iff_of_true ?_ fun h => haccepted h.1
    have hright : Counted fs fs₁ f size count (k / size) :=
      ⟨div_le_count port (hk.trans hmod), k, by omega, hadv, rfl⟩
    cases ok with
    | true =>
      have hsize : size ≠ 0 := by
        intro h
        rw [hnone h] at hzero
        cases hzero rfl
      exact ⟨fs₁, _, _, fread_succeeded hsize hread, fun _ => hright⟩
    | false =>
      refine ⟨fs₁, _, _, fread_failed hl₁ hread, fun _ => ?_⟩
      rw [short_eq hk (hshort rfl)]
      exact hright

/-- What `mipos_tfs_fwrite` makes of the result of the write. -/
theorem fwrite_some {buffer : List UInt8} {v : ℕ}
    (hrun : fwrite port fs buffer size count f = some (fs', v)) :
    ∃ ok k, writeFile port fs buffer (byteCount port size count % 2 ^ 32) f.handle
        = some (fs', ok, k) ∧
      v = if ok = true ∨ k < byteCount port size count then k / size else 0 := by
  rw [fwrite] at hrun
  obtain ⟨⟨fs₁, ok, k⟩, hwrite, hrun⟩ := Option.bind_eq_some_iff.mp hrun
  dsimp only at hrun
  split at hrun
  · rename_i hok
    split at hrun
    · cases hrun
    · cases hrun
      refine ⟨ok, k, hwrite, ?_⟩
      rw [if_pos (.inl hok)]
  · rename_i hok
    cases hrun
    refine ⟨ok, k, hwrite, if_congr ?_ rfl rfl⟩
    simp [hok, byteCount]

theorem fwrite_right_iff (hl : fs.lock = false) (hw : port.ioWrite = some w)
    (hlog : port.Logs log) (buffer : List UInt8) (size count : ℕ) (f : File) :
    FwriteRight port fs buffer size count f ↔
      (size = 0 → ¬StartsWrite fs f.handle) ∧
      ∀ k, 0 < size → FailsAfter log port fs buffer size count f k →
        FailureCounted fs f.handle size (byteCount port size count) k := by
  have hlt : byteCount port size count % 2 ^ 32 < 2 ^ 32 := Nat.mod_lt _ (by decide)
  have hmod : byteCount port size count % 2 ^ 32 ≤ byteCount port size count := Nat.mod_le _ _
  have hdivides : DividesByZero port fs buffer size count f ↔
      size = 0 ∧ StartsWrite fs f.handle := by
    refine and_congr_right ?_
    rintro rfl
    rw [byteCount_zero, Nat.zero_mod]
    exact writeFile_nothing_iff port hl buffer
  constructor
  · intro hright
    refine ⟨fun hsize hstarts => hright.divides (hdivides.mpr ⟨hsize, hstarts⟩), ?_⟩
    rintro k hpos ⟨fs', v, io, hrun, hk, hio⟩
    obtain ⟨ok, n, hwrite, hv⟩ := fwrite_some hrun
    obtain ⟨i, ret, hadv, ⟨new, hnew, rfl, hans⟩, hcounts⟩ := writeFile_counts hlog hl hwrite
    rw [accessed_eq hnew] at hk
    obtain ⟨hlast, hret⟩ := hans.getElem?_failed hk hio
    obtain ⟨rfl, rfl⟩ := hcounts.failed hret
    obtain ⟨j, hjlt, hjadv, hj⟩ := (hright.counts fs' v hrun hpos).passed
    obtain rfl := hjadv.unique hadv hjlt (Nat.lt_of_le_of_lt hcounts.le hlt)
    rw [hv] at hj
    simp only [Bool.false_eq_true, false_or] at hj
    rw [FailureCounted, hlast]
    exact (asked_eq_iff _ hpos).mp hj
  · rintro ⟨hzero, hfailed⟩
    have hno : ¬DividesByZero port fs buffer size count f := fun h =>
      hzero (hdivides.mp h).1 (hdivides.mp h).2
    constructor
    case divides => exact hno
    case returns =>
      intro hroot
      obtain ⟨fs', ok, k, ret, hwrite, -, -⟩ :=
        writeFile_ran hw hl hroot buffer (byteCount port size count % 2 ^ 32)
      have hwrite' := hwrite
      rw [byteCount] at hwrite'
      rw [fwrite, hwrite']
      dsimp only [Option.bind_eq_bind, Option.bind_some]
      cases ok with
      | false => exact ⟨_, rfl⟩
      | true =>
        rw [if_pos rfl, if_neg fun hsize => hno ⟨hsize, fs', k, hwrite⟩]
        exact ⟨_, rfl⟩
    case counts =>
      intro fs' v hrun hpos
      obtain ⟨ok, k, hwrite, hv⟩ := fwrite_some hrun
      obtain ⟨i, ret, hadv, ⟨new, hnew, rfl, hans⟩, hcounts⟩ := writeFile_counts hlog hl hwrite
      generalize hj : reach (fs.fileCtl f.handle).seekPointer _ new.length = j at hadv hcounts
      have hjlt : j < 2 ^ 32 := Nat.lt_of_le_of_lt hcounts.le hlt
      have hvj : v = j / size := by
        cases hans with
        | @failed ios io ret hios hio hret =>
          -- the number of bytes asked for comes back, whatever was written
          obtain ⟨rfl, rfl⟩ := hcounts.failed hret
          have hcounted := hfailed ios.length hpos ⟨fs', v, io, hrun, by simp [accessed_eq hnew], hio⟩
          rw [List.length_append, List.length_singleton] at hj
          rw [FailureCounted, hj] at hcounted
          rw [hv]
          simp only [Bool.false_eq_true, false_or]
          exact (asked_eq_iff _ hpos).mpr hcounted
        | ok _ =>
          obtain ⟨rfl, hshort⟩ := hcounts.succeeded rfl
          rw [hv]
          cases ok with
          | true => rw [if_pos (.inl rfl)]
          | false =>
            simp only [Bool.false_eq_true, false_or]
            exact short_eq hcounts.le (hshort rfl)
      rw [hvj]
      exact ⟨div_le_count port (hcounts.le.trans hmod), j, hjlt, hadv, rfl⟩

/-- **The numbers that `mipos_tfs_fread` and `mipos_tfs_fwrite` return**, between calls, whatever
the table holds and the driver answers, for all sizes and numbers.  Reading is right just if it
is not refused for a product of more than 32 bits that leaves an element; writing just if nothing
of size zero is written, except where that is refused, and the `io_write` that fails, if one does,
is early enough for where the file is. -/
theorem element_counts_iff (hl : fs.lock = false) (hr : port.ioRead = some r)
    (hw : port.ioWrite = some w) (hlog : port.Logs log) (buffer : List UInt8) (size count : ℕ)
    (f : File) :
    (FreadRight port fs size count f ↔
      ¬(ReadRefused fs f.handle ∧ 2 ^ 32 ≤ byteCount port size count ∧
        size ≤ byteCount port size count % 2 ^ 32)) ∧
    (FwriteRight port fs buffer size count f ↔
      (size = 0 → ¬StartsWrite fs f.handle) ∧
      ∀ k, 0 < size → FailsAfter log port fs buffer size count f k →
        FailureCounted fs f.handle size (byteCount port size count) k) :=
  ⟨fread_right_iff hl hr size count f, fwrite_right_iff hl hw hlog buffer size count f⟩

/-- A file of ten bytes is open for reading: two elements of four bytes are read.  And of an
element of two clusters, the first cluster of which the driver refuses, none is written. -/
theorem element_counts_iff_ten : ∃ fs fs' fs₁ : Fs ((ℕ → UInt8) × List Io), ∃ data,
    plainRun memPort.logged (fun _ => 0, []) [.createFile [97], .writeFile (List.replicate 10 7) 0,
      .closeFile 0, .openFile [97] .read] = some fs ∧
    fread memPort.logged fs 4 5 ⟨0, true⟩ = some (fs', 2, data) ∧
    FreadRight memPort.logged fs 4 5 ⟨0, true⟩ ∧
    plainRun memPort.logged (fun _ => 0, []) [.createFile [97]] = some fs₁ ∧
    FailsAfter Prod.snd brokenPort.logged fs₁ (List.replicate 64 9) 64 1 ⟨0, false⟩ 0 ∧
    FwriteRight brokenPort.logged fs₁ (List.replicate 64 9) 64 1 ⟨0, false⟩ := by
  have hreads : ∃ fs, plainRun memPort.logged (fun _ => 0, []) [.createFile [97], .writeFile
        (List.replicate 10 7) 0, .closeFile 0, .openFile [97] .read] = some fs ∧ fs.lock = false ∧
      ¬ReadRefused fs 0 ∧ ∃ r, fread memPort.logged fs 4 5 ⟨0, true⟩ = some r ∧ r.2.1 = 2 := by
    decide +kernel
  have hfails : ∃ fs, plainRun memPort.logged (fun _ => 0, []) [.createFile [97]] = some fs ∧
      fs.lock = false ∧ (fs.fileCtl 0).seekPointer = 0 ∧
      ∃ r, fwrite brokenPort.logged fs (List.replicate 64 9) 64 1 ⟨0, false⟩ = some r ∧
      (accessed Prod.snd fs r.1).map Io.ret = [-1] ∧
      ∃ io, (accessed Prod.snd fs r.1)[0]? = some io ∧ io.Failed := by decide +kernel
  obtain ⟨fs, hrun, hl, haccepted, ⟨fs', v, data⟩, hread, rfl⟩ := hreads
  obtain ⟨fs₁, hrun₁, hl₁, hseek, ⟨fs₂, v⟩, hwrite, hone, io, hio, hfailed⟩ := hfails
  have hfread := (element_counts_iff hl rfl rfl memPort.logged_logs [] 4 5 ⟨0, true⟩).1
  have hfwrite := (element_counts_iff hl₁ rfl rfl brokenPort.logged_logs (List.replicate 64 9) 64 1
    ⟨0, false⟩).2
  refine ⟨fs, fs', fs₁, data, hrun, hread, hfread.mpr fun h => haccepted h.1, hrun₁,
    ⟨fs₂, v, io, hwrite, hio, hfailed⟩, hfwrite.mpr ⟨nofun, ?_⟩⟩
  rintro k - ⟨fs₃, v₃, io₃, hrun₃, hk, -⟩
  cases hwrite.symm.trans hrun₃
  -- only one `io_write` was made
  obtain ⟨hlt, -⟩ := List.getElem?_eq_some_iff.mp hk
  have hlen : (accessed Prod.snd fs₁ fs₂).length = 1 := by
    simpa using congrArg List.length hone
  obtain rfl : k = 0 := by omega
  rw [FailureCounted, hseek]
  decide

/-- **Wrong numbers.**  A new file is open.  Reading `2 ^ 32 + 5` bytes at its end returns 5.
Writing three elements of size zero divides by zero.  And when the driver fails, none of ten bytes
counts as written, though the position is behind them. -/
theorem counts_wrong : ∃ fs : Fs ((ℕ → UInt8) × List Io),
    plainRun memPort.logged (fun _ => 0, []) [.createFile [97]] = some fs ∧
    (∃ fs', fread memPort.logged fs 1 (2 ^ 32 + 5) ⟨0, false⟩ = some (fs', 5, []) ∧
      Advanced fs fs' 0 0) ∧
    ¬FreadRight memPort.logged fs 1 (2 ^ 32 + 5) ⟨0, false⟩ ∧
    DividesByZero memPort.logged fs [] 0 3 ⟨0, false⟩ ∧
    ¬FwriteRight memPort.logged fs [] 0 3 ⟨0, false⟩ ∧
    (∃ fs', fwrite brokenPort.logged fs (List.replicate 10 9) 1 10 ⟨0, false⟩ = some (fs', 0) ∧
      Advanced fs fs' 0 10) ∧
    ¬FwriteRight brokenPort.logged fs (List.replicate 10 9) 1 10 ⟨0, false⟩ := by
  have heval : ∃ fs, plainRun memPort.logged (fun _ => 0, []) [.createFile [97]] = some fs ∧
      (∃ fs', fread memPort.logged fs 1 (2 ^ 32 + 5) ⟨0, false⟩ = some (fs', 5, []) ∧
        Advanced fs fs' 0 0) ∧ (∃ r, writeFile memPort.logged fs [] 0 0 = some r ∧ r.2.1 = true) ∧
      ∃ fs', fwrite brokenPort.logged fs (List.replicate 10 9) 1 10 ⟨0, false⟩ = some (fs', 0) ∧
        Advanced fs fs' 0 10 := by decide +kernel
  obtain ⟨fs, hrun, ⟨fs₁, hread, hstays⟩, ⟨⟨fs₂, ok, k⟩, hnothing, rfl⟩, fs₃, hwrite, hmoved⟩ := heval
  have hdivides : DividesByZero memPort.logged fs [] 0 3 ⟨0, false⟩ := ⟨rfl, fs₂, k, hnothing⟩
  refine ⟨fs, hrun, ⟨fs₁, hread, hstays⟩, ?_, hdivides, fun hright => hright.divides hdivides,
    ⟨fs₃, hwrite, hmoved⟩, fun hright => ?_⟩
  · rintro ⟨fs', v, data, hrun', hcounted⟩
    cases hread.symm.trans hrun'
    obtain ⟨k, hk, hadv, hv⟩ := (hcounted (by decide)).passed
    obtain rfl := hadv.unique hstays hk (by decide)
    cases hv
  · obtain ⟨k, hk, hadv, hv⟩ := (hright.counts fs₃ 0 hwrite (by decide)).passed
    obtain rfl := hadv.unique hmoved hk (by decide)
    cases hv

end Stdio
