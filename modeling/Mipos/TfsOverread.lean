/-
Reading up to the end of a file.

`mipos_tfs_read_file` cuts a request at the end of the file by comparing
`bytes_to_read + seek_pointer` with the size, in 32 bits.  A request that is long enough for the
sum to wrap around to a small number is not cut, and then only the clusters of the file bound
the loop.

* `readFile_refused` — a locked file, or a seek pointer at the end: nothing is delivered;
* `read_within_iff` — a read stays inside the file just if the sum does not wrap around to at
  most the size, or the file fills its last cluster;
* `read_past_end` — a file of 10 bytes of which 27 are read, from byte 5 on.
-/
import Mipos.TfsContents

namespace Tfs

open Relation

variable {δ : Type} {port : Port δ} {bytes : δ → ℕ → UInt8} {fs fs' : Fs δ} {chain : ℕ → List ℕ}
  {h n : ℕ}

/-- The bytes delivered are those of the file at the seek pointer, and the seek pointer stays
inside the file. -/
structure ReadsWithin (bytes : δ → ℕ → UInt8) (fs fs' : Fs δ) (h : ℕ) (data : List UInt8) : Prop where
  length_le : data.length ≤ (fs.ftbl.fileFsDesc h).size - (fs.fileCtl h).seekPointer
  bytes : data <+: (contents bytes fs h).drop (fs.fileCtl h).seekPointer
  seek_le : (fs.fileCtl h).seekPointer ≤ (fs.ftbl.fileFsDesc h).size →
    (fs'.fileCtl h).seekPointer ≤ (fs.ftbl.fileFsDesc h).size

/-- A request of `n` bytes that starts inside the file, whose end is taken to be inside it as
well, and for which there is room behind the end in the last cluster. -/
structure Overruns (fs : Fs δ) (h n : ℕ) : Prop where
  unlocked : (fs.fileCtl h).locked = false
  inside : (fs.fileCtl h).seekPointer < (fs.ftbl.fileFsDesc h).size
  wraps : 2 ^ 32 ≤ n + (fs.fileCtl h).seekPointer
  to_inside : n + (fs.fileCtl h).seekPointer - 2 ^ 32 ≤ (fs.ftbl.fileFsDesc h).size
  room : (fs.ftbl.fileFsDesc h).size % clusterSize ≠ 0

theorem readFile_refused (hl : fs.lock = false)
    (hno : (fs.fileCtl h).locked = true ∨ (fs.ftbl.fileFsDesc h).size ≤ (fs.fileCtl h).seekPointer) :
    ∃ fs', readFile port fs n h = some (fs', false, n, []) ∧
      (fs'.fileCtl h).seekPointer = (fs.fileCtl h).seekPointer := by
  rw [readFile]
  rcases free_or_busy fs h with ⟨hh, hfree⟩ | hbusy
  · have hend := hno.resolve_left (by simp [hfree])
    have hl₁ : (holding fs h).lock = false := hl
    have hend₁ :
        ((holding fs h).fileCtl h).seekPointer ≥ ((holding fs h).ftbl.fileFsDesc h).size := by
      simpa using hend
    rw [lockFile_holding hh hfree]
    dsimp only
    rw [getFdCtl_eq hl₁]
    dsimp only [Option.bind_eq_bind, Option.bind_some]
    rw [if_pos (.inr hend₁)]
    refine ⟨_, rfl, ?_⟩
    rw [unlockFile_seekPointer, setError_fileCtl, holding_fileCtl]
  · rw [lockFile_busy hbusy]
    exact ⟨_, rfl, unlockFile_seekPointer _ h h⟩

/-- What is delivered ends inside the file, unless the request overruns it. -/
theorem delivered_le_iff (ht : TableInv fs.ftbl chain) (hlive : fs.ftbl.Live h)
    (hfree : (fs.fileCtl h).locked = false)
    (hin : (fs.fileCtl h).seekPointer < (fs.ftbl.fileFsDesc h).size) (hn : n < 2 ^ 32) :
    min (toRead fs h n) (clusterSize * (chain h).length - (fs.fileCtl h).seekPointer)
        ≤ (fs.ftbl.fileFsDesc h).size - (fs.fileCtl h).seekPointer ↔ ¬Overruns fs h n := by
  have hsize := ht.size_le hlive
  rw [ht.length h hlive, toRead]
  constructor
  · rintro hle ⟨-, -, hwraps, hto, hroom⟩
    simp only [clustersFor, clusterSize, storageAreaSize] at hle hroom hsize
    rw [if_neg (by omega)] at hle
    omega
  · intro hno
    split
    · exact Nat.min_le_left _ _
    · rename_i huncut
      by_cases hwraps : 2 ^ 32 ≤ n + (fs.fileCtl h).seekPointer
      · -- the clusters are full, and end where the file does
        have hfull : (fs.ftbl.fileFsDesc h).size % clusterSize = 0 := by
          by_contra hroom
          refine hno ⟨hfree, hin, hwraps, ?_, hroom⟩
          simp only [storageAreaSize] at hsize
          omega
        simp only [clustersFor, clusterSize] at hfull ⊢
        omega
      · rw [Nat.mod_eq_of_lt (Nat.lt_of_not_le hwraps)] at huncut
        omega

/-- Bytes at the front of what is left of the file. -/
theorem map_range_isPrefix {f : ℕ → UInt8} {size q m : ℕ} (hm : m ≤ size - q) :
    (List.range m).map (fun i => f (q + i)) <+: ((List.range size).map f).drop q := by
  have htake := map_range_drop_take f size q m
  rw [Nat.min_eq_left hm] at htake
  rw [htake]
  exact List.take_prefix m _

/-- **A read stays inside the file**, for every request of 32 bits, just if the wrap-around does
not get in its way. -/
theorem read_within_iff (hr : port.Reliable bytes) (hl : fs.lock = false)
    (ht : TableInv fs.ftbl chain) (hfile : 0 < (fs.ftbl.fileFsDesc h).size → fs.ftbl.Live h)
    (hopen : (fs.fileCtl h).isOpen = true) (hn : n < 2 ^ 32) :
    ∃ fs' ok k data, readFile port fs n h = some (fs', ok, k, data) ∧
      (ReadsWithin bytes fs fs' h data ↔ ¬Overruns fs h n) := by
  by_cases hno : (fs.fileCtl h).locked = true ∨
      (fs.ftbl.fileFsDesc h).size ≤ (fs.fileCtl h).seekPointer
  · obtain ⟨fs', hread, hseek⟩ := readFile_refused (n := n) hl hno
    refine ⟨fs', _, _, _, hread, iff_of_true ⟨Nat.zero_le _, List.nil_prefix, ?_⟩ ?_⟩
    · rw [hseek]
      exact id
    · rintro ⟨hfree, hin, -⟩
      rcases hno with hlocked | hend
      · rw [hfree] at hlocked
        cases hlocked
      · omega
  · obtain ⟨hunlocked, hin⟩ := not_or.mp hno
    have hfree := Bool.eq_false_of_not_eq_true hunlocked
    have hlive := hfile (by omega)
    have hin := Nat.lt_of_not_le hin
    obtain ⟨m, hm⟩ : ∃ m, m = min (toRead fs h n)
      (clusterSize * (chain h).length - (fs.fileCtl h).seekPointer) := ⟨_, rfl⟩
    obtain ⟨fs', hread, hseek⟩ := readFile_chain hr hl ht hlive hfree hopen hin hm
    refine ⟨fs', _, _, _, hread, ?_⟩
    rw [← delivered_le_iff ht hlive hfree hin hn, ← hm]
    constructor
    · intro hwithin
      have hlen := hwithin.length_le
      rwa [List.length_map, List.length_range] at hlen
    · intro hle
      refine ⟨by simpa using hle, ?_, fun _ => ?_⟩
      · rw [contents_eq ht hlive]
        exact map_range_isPrefix (f := fun i => bytes fs.dev (posAddr (chain h) i)) hle
      · rw [hseek]
        omega

/-- A file of ten bytes, with the seek pointer in their middle. -/
def tenBytes : Option (Fs (ℕ → UInt8)) :=
  runCalls memPort (flush memPort (formatted memPort (blankFs fun _ => 0) none))
    [.createFile [97], .writeFile (List.replicate 10 7) 0, .seekFile .current (-5) 0]

theorem tenBytes_run {fs : Fs (ℕ → UInt8)} (h : tenBytes = some fs) : ∃ fs₁,
    mkfs memPort (blankFs fun _ => 0) none = some (fs₁, true) ∧
      ReflTransGen (Step memPort) fs₁ fs :=
  ⟨_, mkfs_eq memPort_reliable.succeeds rfl none, run_of_runCalls h (by simp [Call.Allowed])⟩

theorem read_within_iff_twenty : ∃ fs₁ fs fs' : Fs (ℕ → UInt8), ∃ ok k data,
    mkfs memPort (blankFs fun _ => 0) none = some (fs₁, true) ∧
    ReflTransGen (Step memPort) fs₁ fs ∧ (fs.fileCtl 0).seekPointer = 5 ∧
    (fs.ftbl.fileFsDesc 0).size = 10 ∧ readFile memPort fs 20 0 = some (fs', ok, k, data) ∧
    ReadsWithin id fs fs' 0 data := by
  have heval : ∃ fs, tenBytes = some fs ∧ fs.ftbl.Live 0 ∧ (fs.fileCtl 0).isOpen = true ∧
      (fs.fileCtl 0).seekPointer = 5 ∧ (fs.ftbl.fileFsDesc 0).size = 10 := by decide
  obtain ⟨fs, hten, hlive, hopen, hseek, hsize⟩ := heval
  obtain ⟨fs₁, hmkfs, hrun⟩ := tenBytes_run hten
  obtain ⟨chain, hi⟩ := run_inv memPort_reliable.succeeds hmkfs hrun
  obtain ⟨fs', ok, k, data, hread, hwithin⟩ := read_within_iff memPort_reliable hi.lock hi.table
    (fun _ => hlive) hopen (by decide : 20 < 2 ^ 32)
  refine ⟨fs₁, fs, fs', ok, k, data, hmkfs, hrun, hseek, hsize, hread, hwithin.mpr ?_⟩
  intro hover
  have hwraps := hover.wraps
  rw [hseek] at hwraps
  omega

/-- **A request that is too long for 32 bits.**  Of a file of 10 bytes 27 are delivered from its
byte 5 on, the whole rest of its cluster, and the seek pointer is 32 then. -/
theorem read_past_end : ∃ fs₁ fs fs' : Fs (ℕ → UInt8), ∃ data,
    mkfs memPort (blankFs fun _ => 0) none = some (fs₁, true) ∧
    ReflTransGen (Step memPort) fs₁ fs ∧ (fs.fileCtl 0).isOpen = true ∧
    (fs.fileCtl 0).seekPointer = 5 ∧ (fs.ftbl.fileFsDesc 0).size = 10 ∧
    readFile memPort fs (2 ^ 32 - 5) 0 = some (fs', false, 27, data) ∧ data.length = 27 ∧
    (fs'.fileCtl 0).seekPointer = 32 ∧ ¬ReadsWithin id fs fs' 0 data := by
  have heval : ∃ fs, tenBytes = some fs ∧ (fs.fileCtl 0).isOpen = true ∧
      (fs.fileCtl 0).seekPointer = 5 ∧ (fs.ftbl.fileFsDesc 0).size = 10 ∧
      ∃ r, readFile memPort fs (2 ^ 32 - 5) 0 = some r ∧ r.2.1 = false ∧ r.2.2.1 = 27 ∧
        r.2.2.2.length = 27 ∧ (r.1.fileCtl 0).seekPointer = 32 := by decide +kernel
  obtain ⟨fs, hten, hopen, hseek, hsize, ⟨fs', _, _, data⟩, hread, rfl, rfl, hlen, hseek'⟩ := heval
  obtain ⟨fs₁, hmkfs, hrun⟩ := tenBytes_run hten
  refine ⟨fs₁, fs, fs', data, hmkfs, hrun, hopen, hseek, hsize, hread, hlen, hseek', ?_⟩
  intro hwithin
  have hle := hwithin.length_le
  rw [hlen, hseek, hsize] at hle
  omega

end Tfs
