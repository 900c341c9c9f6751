/-
Device errors.

The driver keeps a log of the accesses that are made to the device (`Port.Logs`); any driver
can be given one (`Port.logged`).  When it fails during `mipos_tfs_write_file` the call
returns `FALSE`, but the seek pointer has moved on already, and in the last round the size
is set as well, while the first cluster is not: later calls then look for the file at a
cluster that does not exist.

* `Puts.logs`, `Gets.logs` — the accesses to the clusters are in the volume;
* `FaultyStep`, `faulty_run_orderly` — runs during which the driver fails;
* `device_error_iff` — a write leaves the file as it was when the driver fails just if the
  driver does not fail, and every access of a read or a write is in the volume as long as
  no failure has left a file with bytes but without a first cluster;
* `failed_write_escapes` — a failure, and a read outside of the volume after it.
-/
import Mipos.TfsDirectory

namespace Tfs

open Relation

variable {δ : Type} {port : Port δ} {bytes : δ → ℕ → UInt8} {fs fs' : Fs δ} {h : ℕ}
  {w : δ → List UInt8 → ℕ → δ × ℤ} {r : δ → ℕ → ℕ → δ × List UInt8 × ℤ}

/-! ### Accesses to the device -/

/-- A call of the driver, and what it returned. -/
structure Io where
  isWrite : Bool
  addr : ℕ
  len : ℕ
  ret : ℤ
  deriving DecidableEq, Repr

def Io.Failed (io : Io) : Prop := io.isWrite = true ∧ io.ret ≠ 0

/-- Between the start of the table and the end of the clusters. -/
def Io.InVolume (io : Io) : Prop :=
  tfsOffset ≤ io.addr ∧ io.addr + io.len ≤ tfsOffset + tfsSize + storageAreaSize

instance (io : Io) : Decidable io.Failed := inferInstanceAs (Decidable (_ ∧ _))

instance (io : Io) : Decidable io.InVolume := inferInstanceAs (Decidable (_ ∧ _))

/-- The driver writes every call to the log. -/
structure Port.Logs (port : Port δ) (log : δ → List Io) : Prop where
  write : ∀ w, port.ioWrite = some w → ∀ dev data addr,
    log (w dev data addr).1 = log dev ++ [⟨true, addr, data.length, (w dev data addr).2⟩]
  read : ∀ r, port.ioRead = some r → ∀ dev n addr,
    log (r dev n addr).1 = log dev ++ [⟨false, addr, n, (r dev n addr).2.2⟩]

/-- A driver with a log. -/
def Port.logged (port : Port δ) : Port (δ × List Io) where
  ioWrite := port.ioWrite.map fun w d data addr =>
    let io := w d.1 data addr
    ((io.1, d.2 ++ [⟨true, addr, data.length, io.2⟩]), io.2)
  ioRead := port.ioRead.map fun r d n addr =>
    let io := r d.1 n addr
    ((io.1, d.2 ++ [⟨false, addr, n, io.2.2⟩]), io.2)
  sizeofPtr := port.sizeofPtr

theorem Port.logged_logs (port : Port δ) : port.logged.Logs Prod.snd where
  write w hw dev data addr := by
    obtain ⟨w₀, -, rfl⟩ := Option.map_eq_some_iff.mp hw
    rfl
  read r hr dev n addr := by
    obtain ⟨r₀, -, rfl⟩ := Option.map_eq_some_iff.mp hr
    rfl

theorem Port.Reliable.logged (hr : port.Reliable bytes) :
    port.logged.Reliable fun d => bytes d.1 := by
  obtain ⟨w, hw, hwret⟩ := hr.succeeds.write
  obtain ⟨r, hr', hrret⟩ := hr.succeeds.read
  have hlw : port.logged.ioWrite = some _ := congrArg (Option.map _) hw
  have hlr : port.logged.ioRead = some _ := congrArg (Option.map _) hr'
  have hput : ∀ d data addr, (port.logged.put d data addr).1 = port.put d.1 data addr := by
    intro d data addr
    rw [Port.put, Port.put, hlw, hw]
  have hget : ∀ d n addr, (port.logged.get d n addr).2 = (port.get d.1 n addr).2 ∧
      (port.logged.get d n addr).1.1 = (port.get d.1 n addr).1 := by
    intro d n addr
    rw [Port.get, Port.get, hlr, hr']
    exact ⟨rfl, rfl⟩
  constructor
  case succeeds =>
    exact ⟨⟨_, hlw, fun d data addr => hwret d.1 data addr⟩,
      ⟨_, hlr, fun d n addr => hrret d.1 n addr⟩⟩
  case put =>
    intro d data addr a hfits ha
    rw [hput]
    exact hr.put d.1 data addr a hfits ha
  case get =>
    intro d n addr hfits
    rw [(hget d n addr).1]
    exact hr.get d.1 n addr hfits
  case get_keeps =>
    intro d n addr
    rw [(hget d n addr).2]
    exact hr.get_keeps d.1 n addr

/-- The accesses made between two states. -/
def accessed (log : δ → List Io) (fs fs' : Fs δ) : List Io :=
  (log fs'.dev).drop (log fs.dev).length

section Logs

variable {log : δ → List Io} (hlog : port.Logs log) {dev dev' : δ}

/-- Bytes of a cluster are in the volume. -/
theorem InCluster.inVolume {c off len : ℕ} (hin : InCluster c off len) (isWrite : Bool) (ret : ℤ) :
    Io.InVolume ⟨isWrite, clusterAddr c off, len, ret⟩ := by
  obtain ⟨hlow, hfits⟩ := hin.addr
  refine ⟨Nat.zero_le _, hfits.trans ?_⟩
  rw [Nat.add_assoc]
  exact Nat.le_add_left volumeSize tfsOffset

include hlog in
/-- What writes to the clusters add to the log: of the accesses only the last one can have
failed. -/
theorem Puts.logs (hw : port.ioWrite = some w) {ret : ℤ} (hputs : Puts w dev ret dev') :
    ∃ new, log dev' = log dev ++ new ∧ (∀ io ∈ new, io.InVolume) ∧
      ((∃ io ∈ new, io.Failed) ↔ ret ≠ 0) := by
  induction hputs with
  | none dev => exact ⟨[], (List.append_nil _).symm, by simp, by simp⟩
  | last dev hin =>
    refine ⟨_, hlog.write w hw _ _ _, ?_, ?_⟩
    · simpa using hin.inVolume true _
    · simp [Io.Failed]
  | more hin hret _ ih =>
    obtain ⟨new, hnew, hvol, hfailed⟩ := ih
    rw [hlog.write w hw, List.append_assoc, List.singleton_append] at hnew
    refine ⟨_, hnew, ?_, ?_⟩
    · rw [List.forall_mem_cons]
      exact ⟨hin.inVolume true _, hvol⟩
    · rw [List.exists_mem_cons_iff, hfailed]
      simp [Io.Failed, hret]

include hlog in
theorem Gets.logs (hr : port.ioRead = some r) (hgets : Gets r dev dev') :
    ∃ new, log dev' = log dev ++ new ∧ ∀ io ∈ new, io.InVolume := by
  induction hgets with
  | refl => exact ⟨[], (List.append_nil _).symm, by simp⟩
  | @tail dev₁ _ _ hstep ih =>
    obtain ⟨new, hnew, hvol⟩ := ih
    obtain ⟨c, off, len, hin, rfl⟩ := hstep
    have hread := hlog.read r hr dev₁ len (clusterAddr c off)
    rw [hnew, List.append_assoc] at hread
    refine ⟨_, hread, ?_⟩
    rw [List.forall_mem_append]
    exact ⟨hvol, by simpa using hin.inVolume false _⟩

theorem accessed_eq {new : List Io} (hnew : log fs'.dev = log fs.dev ++ new) :
    accessed log fs fs' = new := by
  rw [accessed, hnew, List.drop_left]

end Logs

/-! ### Failed writes -/

/-- The file of slot `h` and the clusters in use are as they were. -/
structure AsBefore (fs fs' : Fs δ) (h : ℕ) : Prop where
  size : (fs'.ftbl.fileFsDesc h).size = (fs.ftbl.fileFsDesc h).size
  firstCluster : (fs'.ftbl.fileFsDesc h).firstCluster = (fs.ftbl.fileFsDesc h).firstCluster
  seek : (fs'.fileCtl h).seekPointer = (fs.fileCtl h).seekPointer
  used : ∀ c, c < clustersCount →
    (fs'.ftbl.clusterTbl c = freeCluster ↔ fs.ftbl.clusterTbl c = freeCluster)

/-- Once the driver has failed, the seek pointer has moved on. -/
theorem WriteRan.not_asBefore {n : ℕ} {ret : ℤ} (hran : WriteRan w fs fs' h n ret) (hne : ret ≠ 0)
    (hn : n < 2 ^ 32) : ¬AsBefore fs fs' h := by
  intro hsame
  obtain ⟨k, hpos, hk, hmoved⟩ := hran.seek hne
  rw [hsame.seek] at hmoved
  omega

/-- A write during which the driver may fail, and after which the file has a first cluster if
it has bytes. -/
def RootedWrite (bytes : δ → ℕ → UInt8) (fs fs' : Fs δ) : Prop :=
  ∃ port' w src n h r, port'.ioWrite = some w ∧ Confined bytes w ∧
    writeFile port' fs src n h = some (fs', r) ∧
    (h < maxNOfFiles → (fs'.ftbl.fileFsDesc h).Rooted)

/-- The calls of a run with device errors. -/
def FaultyStep (port : Port δ) (bytes : δ → ℕ → UInt8) (fs fs' : Fs δ) : Prop :=
  CallStep port Call.RenamesFirst fs fs' ∨ RootedWrite bytes fs fs'

/-- **Every run with device errors** keeps the descriptors in order. -/
theorem faulty_run_orderly (hr : port.Reliable bytes) {fs₀ fs₁ : Fs δ}
    {label : Option (List UInt8)} {ok : Bool} (hmkfs : mkfs port fs₀ label = some (fs₁, ok))
    (hrun : ReflTransGen (FaultyStep port bytes) fs₁ fs) : Orderly bytes fs := by
  induction hrun with
  | refl => exact run_orderly hr hmkfs .refl
  | tail _ hstep ih =>
    rcases hstep with ⟨call, ok, hexec, hcall⟩ | ⟨port', w, src, n, h, r, hw, hconf, hwrite, hroot⟩
    · exact ih.exec hr hcall hexec
    · obtain ⟨fs', ok, k, ret, heq, hran, -⟩ :=
        writeFile_ran hw ih.lock (fun hh => (ih.fds h hh).rooted) src n
      cases heq.symm.trans hwrite
      exact ih.wrote hconf hran hroot

/-- **Device errors.**  In every state of every run in which only the file in the first slot
is renamed, and in which the writes that failed have left no file with bytes but without a
first cluster: whatever the driver answers then, a write leaves the file as it was in case
of a failure just if there is no failure, and it returns `FALSE` if there is one; all
accesses of a write and of a read are in the volume. -/
theorem device_error_iff {port' : Port δ} {log : δ → List Io} (hr : port.Reliable bytes)
    {fs₀ fs₁ : Fs δ} {label : Option (List UInt8)} {ok₀ : Bool}
    (hmkfs : mkfs port fs₀ label = some (fs₁, ok₀))
    (hrun : ReflTransGen (FaultyStep port bytes) fs₁ fs)
    (hw : port'.ioWrite = some w) (hr' : port'.ioRead = some r) (hlog : port'.Logs log)
    (h : ℕ) (src : List UInt8) {n : ℕ} (hn : n < 2 ^ 32) :
    (∃ fs' ok k, writeFile port' fs src n h = some (fs', ok, k) ∧
      ((∃ io ∈ accessed log fs fs', io.Failed) → ok = false) ∧
      (((∃ io ∈ accessed log fs fs', io.Failed) → AsBefore fs fs' h) ↔
        ¬∃ io ∈ accessed log fs fs', io.Failed) ∧
      ∀ io ∈ accessed log fs fs', io.InVolume) ∧
    ∃ fs' res, readFile port' fs n h = some (fs', res) ∧
      ∀ io ∈ accessed log fs fs', io.InVolume := by
  have ho := faulty_run_orderly hr hmkfs hrun
  have hroot : h < maxNOfFiles → (fs.ftbl.fileFsDesc h).Rooted := fun hh => (ho.fds h hh).rooted
  constructor
  · obtain ⟨fs', ok, k, ret, hwrite, hran, hok⟩ := writeFile_ran hw ho.lock hroot src n
    obtain ⟨new, hnew, hvol, hfailed⟩ := hran.puts.logs hlog hw
    refine ⟨fs', ok, k, hwrite, ?_⟩
    rw [accessed_eq hnew, hfailed]
    refine ⟨hok, ⟨fun hkeeps hne => ?_, fun hzero hne => absurd hne hzero⟩, hvol⟩
    exact hran.not_asBefore hne hn (hkeeps hne)
  · obtain ⟨fs', res, hread, hgets⟩ := readFile_gets hr' ho.lock hroot n
    obtain ⟨new, hnew, hvol⟩ := hgets.logs hlog hr'
    refine ⟨fs', res, hread, ?_⟩
    rwa [accessed_eq hnew]

/-- A device that takes no bytes. -/
def brokenPort : Port (ℕ → UInt8) :=
  { memPort with ioWrite := some fun mem _ _ => (mem, -1) }

theorem brokenPort_confined : ∃ w, brokenPort.logged.ioWrite = some w ∧
    Confined (fun d : (ℕ → UInt8) × List Io => d.1) w := ⟨_, rfl, fun _ _ _ _ _ _ _ => rfl⟩

theorem device_error_iff_broken : ∃ fs₁ fs : Fs ((ℕ → UInt8) × List Io),
    mkfs memPort.logged (blankFs (fun _ => 0, [])) none = some (fs₁, true) ∧
    ReflTransGen (FaultyStep memPort.logged Prod.fst) fs₁ fs ∧
    (∃ io ∈ fs.dev.2, io.Failed) ∧
    (∃ fs' ok k, writeFile brokenPort.logged fs (List.replicate 40 9) 40 0 = some (fs', ok, k) ∧
      ((∃ io ∈ accessed Prod.snd fs fs', io.Failed) → ok = false) ∧
      (((∃ io ∈ accessed Prod.snd fs fs', io.Failed) → AsBefore fs fs' 0) ↔
        ¬∃ io ∈ accessed Prod.snd fs fs', io.Failed) ∧
      ∀ io ∈ accessed Prod.snd fs fs', io.InVolume) ∧
    ∃ fs' res, readFile brokenPort.logged fs 40 0 = some (fs', res) ∧
      ∀ io ∈ accessed Prod.snd fs fs', io.InVolume := by
  -- the first write succeeds, the second does not
  have heval : ∃ fs, plainRun memPort.logged (fun _ => 0, [])
        [.createFile [97], .writeFile [1, 2, 3] 0] = some fs ∧
      ∃ r, writeFile brokenPort.logged fs [9] 1 0 = some r ∧
      (r.1.ftbl.fileFsDesc 0).firstCluster < clustersCount ∧ ∃ io ∈ r.1.dev.2, io.Failed := by
    decide +kernel
  obtain ⟨fs, hcalls, ⟨fs', r⟩, hwrite, hfirst, hfailed⟩ := heval
  obtain ⟨fs₁, hmkfs, hrun⟩ := run_of_plainRun hcalls
  obtain ⟨w, hw, hconf⟩ := brokenPort_confined
  have hplain : ReflTransGen (FaultyStep memPort.logged Prod.fst) fs₁ fs :=
    ReflTransGen.mono (fun _ _ hstep => .inl hstep) _ _ hrun
  have hsteps : ReflTransGen (FaultyStep memPort.logged Prod.fst) fs₁ fs' :=
    hplain.tail (.inr ⟨_, w, _, _, 0, r, hw, hconf, hwrite, fun _ _ => hfirst⟩)
  exact ⟨fs₁, fs', hmkfs, hsteps, hfailed, device_error_iff memPort_reliable.logged hmkfs hsteps
    rfl rfl brokenPort.logged_logs 0 (List.replicate 40 9) (by decide)⟩

/-- **A write fails, and a read leaves the volume.**  The driver fails when ten bytes are
written to a new file: the file then has ten bytes and no first cluster, and reading them
back asks the driver for bytes 2 MB behind the start of the volume. -/
theorem failed_write_escapes : ∃ fs₁ fs fs' fs₂ fs₃ : Fs ((ℕ → UInt8) × List Io),
    mkfs memPort.logged (blankFs (fun _ => 0, [])) none = some (fs₁, true) ∧
    ReflTransGen (CallStep memPort.logged Call.RenamesFirst) fs₁ fs ∧
    writeFile brokenPort.logged fs (List.replicate 10 9) 10 0 = some (fs', false, 10) ∧
    accessed Prod.snd fs fs' = [⟨true, 448, 10, -1⟩] ∧
    (fs'.ftbl.fileFsDesc 0).size = 10 ∧ (fs'.ftbl.fileFsDesc 0).firstCluster = emptyCluster ∧
    (fs'.fileCtl 0).seekPointer = 10 ∧ ¬AsBefore fs fs' 0 ∧
    seekFile fs' .current (-10) 0 = some (fs₂, true) ∧
    (∃ data, readFile memPort.logged fs₂ 10 0 = some (fs₃, true, 10, data)) ∧
    accessed Prod.snd fs₂ fs₃ = [⟨false, 2097440, 10, 0⟩] ∧
    ¬Io.InVolume ⟨false, 2097440, 10, 0⟩ := by
  have heval : ∃ fs, plainRun memPort.logged (fun _ => 0, []) [.createFile [97]] = some fs ∧
      (fs.fileCtl 0).seekPointer = 0 ∧
      ∃ fs', writeFile brokenPort.logged fs (List.replicate 10 9) 10 0 = some (fs', false, 10) ∧
      accessed Prod.snd fs fs' = [⟨true, 448, 10, -1⟩] ∧ (fs'.ftbl.fileFsDesc 0).size = 10 ∧
      (fs'.ftbl.fileFsDesc 0).firstCluster = emptyCluster ∧ (fs'.fileCtl 0).seekPointer = 10 ∧
      ∃ fs₂, seekFile fs' .current (-10) 0 = some (fs₂, true) ∧
      ∃ x, readFile memPort.logged fs₂ 10 0 = some x ∧ x.2.1 = true ∧ x.2.2.1 = 10 ∧
      accessed Prod.snd fs₂ x.1 = [⟨false, 2097440, 10, 0⟩] := by decide +kernel
  obtain ⟨fs, hcalls, hzero, fs', hwrite, hlog, hsize, hfirst, hseek, fs₂, hback, ⟨fs₃, ok, k,
    data⟩, hread, rfl, rfl, hlog'⟩ := heval
  obtain ⟨fs₁, hmkfs, hrun⟩ := run_of_plainRun hcalls
  refine ⟨fs₁, fs, fs', fs₂, fs₃, hmkfs, hrun, hwrite, hlog, hsize, hfirst, hseek, fun hsame => ?_,
    hback, ⟨data, hread⟩, hlog', by decide⟩
  have hmoved := hsame.seek
  rw [hseek, hzero] at hmoved
  cases hmoved

end Tfs
