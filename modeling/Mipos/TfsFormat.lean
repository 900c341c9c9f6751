/-
What `mipos_tfs_mkfs` leaves.

The clusters are cleared from the start of the volume on, where the table is, while
`read_cluster` finds them behind the table.  The label has as many characters as the
field has bytes, and `mipos_tfs_get_label` copies it as a string.

The driver may fail; it has stored what it was given if it returns 0 (`Port.Honest`).
* `mkfs_some` — the table and the device after a `mipos_tfs_mkfs` that returns `TRUE`;
* `cstr_formatted` — the string that starts at the label;
* `mkfs_clean_iff` — the volume is clean just if what is behind the cleared bytes was zero
  before, and the description leaves room for its terminator;
* `mkfs_leaves_bytes` — a volume that keeps old bytes, and a label that is too long.
-/
import Mathlib.Data.List.GetD
import Mipos.TfsLookup

namespace Tfs

variable {δ : Type} {port : Port δ} {bytes : δ → ℕ → UInt8} {fs fs' : Fs δ}
  {label : Option (List UInt8)}

/-! ### The device -/

/-- A driver that may fail, and has stored what it was given if it returns 0. -/
def Port.Honest (port : Port δ) (bytes : δ → ℕ → UInt8) : Prop :=
  ∀ w, port.ioWrite = some w → ∀ dev data addr, (w dev data addr).2 = 0 →
    addr + data.length ≤ volumeSize → ∀ a, a < volumeSize →
    bytes (w dev data addr).1 a =
      if addr ≤ a ∧ a < addr + data.length then data.getD (a - addr) 0 else bytes dev a

theorem memPort_honest : memPort.Honest id := by
  intro w hw dev data addr _ _ a _
  cases hw
  rfl

/-- A round of the loop of `mipos_tfs_mkfs` that is not its last one. -/
theorem formatLoop_cons {j : ℕ} {js : List ℕ} (hrun : formatLoop port (j :: js) fs = some (fs', 0)) :
    ∃ w, port.ioWrite = some w ∧
      (w fs.dev (List.replicate clusterSize 0) (j * clusterSize + tfsOffset)).2 = 0 ∧
      formatLoop port js (setDev
        (setTable fs (Function.update fs.ftbl.clusterTbl j freeCluster))
        (w fs.dev (List.replicate clusterSize 0) (j * clusterSize + tfsOffset)).1)
        = some (fs', 0) := by
  obtain ⟨w, hw, hround⟩ := Option.bind_eq_some_iff.mp hrun
  refine ⟨w, hw, ?_⟩
  dsimp only at hround
  split at hround
  · rename_i hne
    exact absurd (Prod.ext_iff.mp (Option.some.inj hround)).2 hne
  · rename_i hret
    exact ⟨not_not.mp hret, hround⟩

/-- Clearing one block of bytes and then the blocks of the rest. -/
theorem clear_cons (hp : port.Honest bytes) {w : δ → List UInt8 → ℕ → δ × ℤ}
    (hw : port.ioWrite = some w) {j : ℕ} (hj : j < clustersCount) {dev : δ}
    (hret : (w dev (List.replicate clusterSize 0) (j * clusterSize + tfsOffset)).2 = 0)
    (js : List ℕ) {a : ℕ} (ha : a < volumeSize) :
    (if a / clusterSize ∈ js then 0 else bytes
        (w dev (List.replicate clusterSize 0) (j * clusterSize + tfsOffset)).1 a)
      = if a / clusterSize ∈ j :: js then 0 else bytes dev a := by
  have hfits : j * clusterSize + tfsOffset + (List.replicate clusterSize (0 : UInt8)).length
      ≤ volumeSize := by
    simp only [List.length_replicate, clustersCount, clusterSize, tfsOffset, volumeSize, tfsSize,
      sizeofFtbl, storageAreaSize] at *
    omega
  have hblock : (j * clusterSize + tfsOffset ≤ a ∧
      a < j * clusterSize + tfsOffset + (List.replicate clusterSize (0 : UInt8)).length) ↔
      a / clusterSize = j := by
    simp only [clusterSize, tfsOffset, List.length_replicate]
    omega
  rw [hp w hw dev _ _ hret hfits a ha]
  by_cases hrest : a / clusterSize ∈ js
  · rw [if_pos hrest, if_pos (List.mem_cons_of_mem j hrest)]
  · rw [if_neg hrest]
    by_cases hcur : a / clusterSize = j
    · rw [if_pos (hblock.mpr hcur), if_pos (by simp [hcur])]
      rw [List.getD_eq_getElem?_getD]
      exact List.getElem?_getD_replicate_default_eq _ _ _
    · rw [if_neg (mt hblock.mp hcur), if_neg (by simp [hcur, hrest])]

/-- The loop marks the clusters as free and clears as many bytes as they have, from the
start of the volume on. -/
theorem formatLoop_some (hp : port.Honest bytes) {js : List ℕ}
    (hjs : ∀ j ∈ js, j < clustersCount) (hrun : formatLoop port js fs = some (fs', 0)) :
    ∃ dev, fs' = setDev (setTable fs fun c =>
        if c ∈ js then freeCluster else fs.ftbl.clusterTbl c) dev ∧
      ∀ a, a < volumeSize →
        bytes dev a = if a / clusterSize ∈ js then 0 else bytes fs.dev a := by
  induction js generalizing fs with
  | nil =>
    cases hrun
    exact ⟨fs'.dev, by simp [setDev, setTable], fun a _ => by simp⟩
  | cons j js ih =>
    obtain ⟨w, hw, hret, hloop⟩ := formatLoop_cons hrun
    obtain ⟨dev, hfs, hbytes⟩ := ih (fun i hi => hjs i (List.mem_cons_of_mem j hi)) hloop
    refine ⟨dev, ?_, fun a ha => ?_⟩
    · have hlinks : (fun c => if c ∈ js then freeCluster
          else Function.update fs.ftbl.clusterTbl j freeCluster c)
          = fun c => if c ∈ j :: js then freeCluster else fs.ftbl.clusterTbl c := by
        funext c
        by_cases hc : c ∈ js
        · simp [hc]
        · by_cases hcj : c = j <;> simp [hc, hcj]
      rw [← hlinks]
      exact hfs
    · rw [hbytes a ha]
      exact clear_cons hp hw (hjs j List.mem_cons_self) hret js ha

/-- Storing the table does not touch what is behind it. -/
theorem updateFsOnDisk_stored (hp : port.Honest bytes)
    (hrun : updateFsOnDisk port fs = some (fs', 0)) :
    ∃ dev, fs' = setDev fs dev ∧
      ∀ a, tfsSize ≤ a → a < volumeSize → bytes dev a = bytes fs.dev a := by
  obtain ⟨w, hw, hstore⟩ := Option.bind_eq_some_iff.mp hrun
  obtain ⟨hfs, hret⟩ := Prod.ext_iff.mp (Option.some.inj hstore)
  refine ⟨_, hfs.symm, fun a hlow ha => ?_⟩
  have hfits := table_fits fs.ftbl
  rw [hp w hw _ _ _ hret (table_fits_volume fs.ftbl) a ha, if_neg (by omega)]

/-- **After a successful `mipos_tfs_mkfs`**: the table is the empty one, and behind the
table the bytes of the first `storageAreaSize` are zero and the others what they were. -/
theorem mkfs_some (hp : port.Honest bytes) (hmkfs : mkfs port fs label = some (fs', true)) :
    fs'.ftbl = (formatted port fs label).ftbl ∧ fs'.lock = false ∧
      ∀ a, tfsSize ≤ a → a < volumeSize →
        bytes fs'.dev a = if a < storageAreaSize then 0 else bytes fs.dev a := by
  obtain ⟨⟨fs₁, ret⟩, hformat, hrest⟩ := Option.bind_eq_some_iff.mp hmkfs
  dsimp only at hrest
  split at hrest
  · cases hrest
  · rename_i hret
    obtain rfl : ret = 0 := not_not.mp hret
    obtain ⟨fs₂, hloop, hunlock⟩ := withAccess_some hformat
    obtain ⟨dev, hfs₂, hbytes⟩ := formatLoop_some hp (fun j hj => List.mem_range.mp hj) hloop
    obtain ⟨⟨fs₃, ret⟩, hflush, hend⟩ := Option.bind_eq_some_iff.mp hrest
    obtain ⟨hfs₃, hret⟩ := Prod.ext_iff.mp (Option.some.inj hend)
    obtain rfl : ret = 0 := of_decide_eq_true hret
    obtain rfl : fs₃ = fs' := hfs₃
    obtain ⟨dev', hfs', hkept⟩ := updateFsOnDisk_stored hp hflush
    have hfinal : fs₃ = setDev (unlockAccess fs₂) dev' := by
      rw [hunlock]
      exact hfs'
    have hdev : fs₁.dev = dev := by
      rw [← hunlock, hfs₂]
      rfl
    refine ⟨?_, ?_, fun a hlow ha => ?_⟩
    · rw [hfinal, hfs₂]
      rfl
    · rw [hfinal]
      rfl
    · have hin : a / clusterSize ∈ List.range clustersCount ↔ a < storageAreaSize := by
        simp only [List.mem_range, clustersCount, clusterSize, storageAreaSize]
        omega
      rw [hfinal]
      show bytes dev' a = _
      rw [hkept a hlow ha, hdev, hbytes a ha]
      by_cases hlt : a < storageAreaSize
      · rw [if_pos (hin.mpr hlt), if_pos hlt]
      · rw [if_neg (mt hin.mp hlt), if_neg hlt]
        rfl

/-- The bytes of the clusters are those behind the table. -/
theorem clusters_zero_iff (mem : ℕ → UInt8) :
    (∀ c, c < clustersCount → ∀ o, o < clusterSize → mem (clusterAddr c o) = 0) ↔
      ∀ a, tfsSize ≤ a → a < volumeSize → mem a = 0 := by
  constructor
  · intro h a hlow ha
    have haddr : clusterAddr ((a - tfsSize) / clusterSize) ((a - tfsSize) % clusterSize) = a := by
      simp only [clusterAddr, clusterSize, tfsSize, tfsOffset, sizeofFtbl, volumeSize,
        storageAreaSize] at *
      omega
    rw [← haddr]
    refine h _ ?_ _ (Nat.mod_lt _ (by decide))
    simp only [clustersCount, clusterSize, tfsSize, sizeofFtbl, volumeSize, storageAreaSize] at *
    omega
  · intro h c hc o ho
    simp only [clustersCount, clusterSize, storageAreaSize] at hc ho
    refine h _ ?_ ?_
    · simp only [clusterAddr, clusterSize, tfsSize, tfsOffset, sizeofFtbl]
      omega
    · simp only [clusterAddr, clusterSize, tfsSize, tfsOffset, sizeofFtbl, volumeSize,
        storageAreaSize]
      omega

/-! ### The label -/

/-- A string that starts in one array goes on in the next one if it is not terminated. -/
theorem cstr_append (l r : List UInt8) :
    cstr (l ++ r) = if strlen l = l.length then l ++ cstr r else cstr l :=
  List.takeWhile_append

/-- The string that starts at the label of a volume. -/
def labelString (label : Option (List UInt8)) : List UInt8 :=
  let text := cstr (label.getD [])
  if text.length < maxVolumeLength then text else text.take maxVolumeLength ++ [1]

/-- **The string that starts at the label**: the description, or its first characters and
the major version, where nothing ends it. -/
theorem cstr_formatted (hptr : 0 < port.sizeofPtr) (fs : Fs δ) (label : Option (List UInt8)) :
    cstr (formatted port fs label).ftbl.bytes = labelString label := by
  have hfield : (formatted port fs label).ftbl.volumeDescription
      = labelBytes port fs.ftbl.volumeDescription label := rfl
  have hmaj : (formatted port fs label).ftbl.majVersion = 1 := rfl
  have hmin : (formatted port fs label).ftbl.minVersion = 0 := rfl
  rw [Ftbl.bytes, hfield, hmaj, hmin, List.append_assoc, List.append_assoc, List.append_assoc]
  cases label with
  | none =>
    -- the first byte is cleared, whatever the size of a pointer is
    obtain ⟨k, hk⟩ : ∃ k, port.sizeofPtr = k + 1 := ⟨port.sizeofPtr - 1, by omega⟩
    rw [labelBytes, hk, List.replicate_succ, overwrite, List.cons_append, chars, maxVolumeLength,
      List.range_succ_eq_map, List.map_cons, List.getD_cons_zero, List.cons_append, cstr,
      List.takeWhile_cons_of_neg (by simp), labelString]
    simp [cstr, maxVolumeLength]
  | some text =>
    have hchars : chars maxVolumeLength (labelBytes port fs.ftbl.volumeDescription (some text))
        = strncpy text maxVolumeLength := chars_eq (length_strncpy text maxVolumeLength)
    have hlen : strlen (strncpy text maxVolumeLength)
        = min maxVolumeLength (cstr text).length := by
      rw [strlen, cstr_strncpy, List.length_take]
    rw [hchars, cstr_append, hlen, length_strncpy, labelString, Option.getD_some]
    by_cases hshort : (cstr text).length < maxVolumeLength
    · rw [if_neg (by omega), if_pos hshort, cstr_strncpy, List.take_of_length_le (by omega)]
    · rw [if_pos (by omega), if_neg hshort, strncpy, strlen, Nat.sub_eq_zero_of_le (by omega),
        List.replicate_zero, List.append_nil]
      rfl

theorem getLabel_eq (hl : fs.lock = false) (hlen : (cstr fs.ftbl.bytes).length < sizeofFtbl) :
    getLabel fs = some (fs, cstr fs.ftbl.bytes ++ [0]) := by
  refine withAccess_eq hl hl ?_
  rw [length_ftbl_bytes]
  exact if_pos hlen

/-- What the caller gets, up to its terminator, fits just if the description does. -/
theorem labelString_fits_iff (label : Option (List UInt8)) :
    (labelString label <+: cstr (label.getD []) ∧
      (labelString label ++ [0]).length ≤ maxVolumeLength) ↔
    strlen (label.getD []) < maxVolumeLength := by
  rw [labelString, strlen]
  by_cases hshort : (cstr (label.getD [])).length < maxVolumeLength
  · rw [if_pos hshort, List.length_append]
    exact iff_of_true ⟨List.prefix_rfl, hshort⟩ hshort
  · rw [if_neg hshort]
    refine iff_of_false ?_ hshort
    rintro ⟨-, hlen⟩
    rw [List.length_append, List.length_append, List.length_take] at hlen
    simp only [List.length_singleton] at hlen
    omega

theorem length_labelString (label : Option (List UInt8)) :
    (labelString label).length ≤ maxVolumeLength + 1 := by
  rw [labelString]
  split
  · omega
  · rw [List.length_append, List.length_take, List.length_singleton]
    omega

/-- **What `mipos_tfs_get_label` returns** after a successful `mipos_tfs_mkfs`. -/
theorem getLabel_mkfs (hp : port.Honest bytes) (hptr : 0 < port.sizeofPtr)
    (hmkfs : mkfs port fs label = some (fs', true)) :
    getLabel fs' = some (fs', labelString label ++ [0]) := by
  obtain ⟨hftbl, hlock, -⟩ := mkfs_some hp hmkfs
  have hstring : cstr fs'.ftbl.bytes = labelString label := by
    rw [hftbl]
    exact cstr_formatted hptr fs label
  have hlen := length_labelString label
  rw [← hstring] at hlen ⊢
  exact getLabel_eq hlock (Nat.lt_of_le_of_lt hlen (by decide))

/-! ### A clean volume -/

/-- What is asked of a volume after `mipos_tfs_mkfs`: no file, no used cluster, only zeros
in the clusters, and a label that is a prefix of the description and fits the buffer of
the caller of `mipos_tfs_get_label`. -/
structure Clean (bytes : δ → ℕ → UInt8) (label : Option (List UInt8)) (fs : Fs δ) : Prop where
  erased : ∀ h, h < maxNOfFiles → (fs.ftbl.fileFsDesc h).erased = 1
  free : ∀ c, c < clustersCount → fs.ftbl.clusterTbl c = freeCluster
  zero : ∀ c, c < clustersCount → ∀ o, o < clusterSize → bytes fs.dev (clusterAddr c o) = 0
  text : ∃ text, getLabel fs = some (fs, text ++ [0]) ∧ text <+: cstr (label.getD []) ∧
    (text ++ [0]).length ≤ maxVolumeLength

/-- **Formatting leaves a clean volume just if** the bytes behind the cleared ones were
zero before and the description leaves room for its terminator. -/
theorem mkfs_clean_iff (hp : port.Honest bytes) (hptr : 0 < port.sizeofPtr)
    (hmkfs : mkfs port fs label = some (fs', true)) :
    Clean bytes label fs' ↔
      (∀ a, storageAreaSize ≤ a → a < volumeSize → bytes fs.dev a = 0) ∧
        strlen (label.getD []) < maxVolumeLength := by
  obtain ⟨hftbl, hlock, hbytes⟩ := mkfs_some hp hmkfs
  have hlabel := getLabel_mkfs hp hptr hmkfs
  have hzero : (∀ c, c < clustersCount → ∀ o, o < clusterSize →
      bytes fs'.dev (clusterAddr c o) = 0) ↔
      ∀ a, storageAreaSize ≤ a → a < volumeSize → bytes fs.dev a = 0 := by
    rw [clusters_zero_iff]
    constructor
    · intro h a hlow ha
      have hbyte := hbytes a (Nat.le_trans (by decide) hlow) ha
      rw [if_neg (Nat.not_lt.mpr hlow)] at hbyte
      rw [← hbyte]
      exact h a (Nat.le_trans (by decide) hlow) ha
    · intro h a hlow ha
      rw [hbytes a hlow ha]
      by_cases hlt : a < storageAreaSize
      · rw [if_pos hlt]
      · rw [if_neg hlt]
        exact h a (Nat.not_lt.mp hlt) ha
  constructor
  · intro hclean
    obtain ⟨text, htext, hpre, hlen⟩ := hclean.text
    rw [hlabel] at htext
    obtain rfl : labelString label = text :=
      List.append_cancel_right (Prod.ext_iff.mp (Option.some.inj htext)).2
    exact ⟨hzero.mp hclean.zero, (labelString_fits_iff label).mp ⟨hpre, hlen⟩⟩
  · rintro ⟨hbehind, hshort⟩
    constructor
    case erased =>
      intro h hh
      rw [hftbl]
      simp [formatted, resetTable, hh]
    case free =>
      intro c hc
      rw [hftbl]
      simp [formatted, hc]
    case zero => exact hzero.mpr hbehind
    case text => exact ⟨_, hlabel, (labelString_fits_iff label).mpr hshort⟩

/-- A device with other bytes wherever they are cleared, and a label of two characters. -/
theorem mkfs_clean_iff_cleared :
    ∃ fs' : Fs (ℕ → UInt8), mkfs memPort (blankFs fun a => if a < 1024 then 255 else 0)
        (some [97, 98]) = some (fs', true) ∧ Clean id (some [97, 98]) fs' := by
  have hmkfs : mkfs memPort (blankFs fun a => if a < 1024 then 255 else 0) (some [97, 98]) = _ :=
    mkfs_eq memPort_reliable.succeeds rfl (some [97, 98])
  refine ⟨_, hmkfs, (mkfs_clean_iff memPort_honest (by decide) hmkfs).mpr ⟨?_, by decide⟩⟩
  intro a hbehind _
  exact if_neg (Nat.not_lt.mpr hbehind)

/-- A device with other bytes, and a label of eight characters: the last cluster keeps what
the device had there, and the caller of `mipos_tfs_get_label` gets ten bytes, the major
version among them. -/
theorem mkfs_leaves_bytes :
    ∃ fs' : Fs (ℕ → UInt8), mkfs memPort (blankFs fun _ => 255)
        (some [97, 98, 99, 100, 101, 102, 103, 104]) = some (fs', true) ∧
      readCluster memPort fs' 31 0 1 = some (fs', 0, 1, [255]) ∧
      getLabel fs' = some (fs', [97, 98, 99, 100, 101, 102, 103, 104, 1, 0]) := by
  obtain ⟨fs', hmkfs⟩ : ∃ fs' : Fs (ℕ → UInt8), mkfs memPort (blankFs fun _ => 255)
      (some [97, 98, 99, 100, 101, 102, 103, 104]) = some (fs', true) :=
    ⟨_, mkfs_eq memPort_reliable.succeeds rfl _⟩
  obtain ⟨-, hlock, hbytes⟩ := mkfs_some memPort_honest hmkfs
  have hbyte : fs'.dev 1440 = 255 := hbytes 1440 (by decide) (by decide)
  refine ⟨fs', hmkfs, ?_, getLabel_mkfs memPort_honest (by decide) hmkfs⟩
  rw [readCluster_io rfl hlock 31 0 rfl (by decide), ← hbyte]
  rfl

end Tfs
