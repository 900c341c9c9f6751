/-
The sizes and the addresses of blocks, in both builds.

The runs are those whose calls fit and, in the 32-bit build, cut blocks only where there is
room (`SoundStep`); every call of such a run is a sequence of changes of blocks, so an
invariant of the changes is one of the run (`soundRun_inv`).

* `big_enough_iff` — a block that `mipos_mm_alloc` or `mipos_calloc` returns has room for the
  request just if the request is at least four bytes below the range of `size_t`: above that
  it is rounded to zero, and a product above it wraps;
* `descriptors_aligned` — descriptors are at multiples of the word size as long as requests
  are, rounded as the source rounds them: to a multiple of four, which is a word of the 32-bit
  build only;
* `oversized_request_accepted`, `descriptor_misaligned` — requests for which this fails.
-/
import Mipos.MallocRuns

namespace Malloc

open Tiling DoublyLinked Relation

/-! ### Runs of either build -/

/-- One step of a run whose calls fit.  The requests satisfy `P`, and the 32-bit build finds room
where it cuts a block. -/
abbrev SoundStep (b : Build) (base : ℕ) (P : ℕ → Prop) : Mm → Mm → Prop :=
  StepOf b base (Call.Returns b fun mm c => c.Fits b ∧ P (c.request b) ∧
    (b = .mipos32 → AllocSound b mm (c.request b)))

variable {b : Build} {base len n w : ℕ} {mm mm' : Mm} {H H' : Blocks} {P : ℕ → Prop}

/-- In the 64-bit build every allocation is sound. -/
theorem HeapInv.allocSound (h : HeapInv b base mm H) (hsound : b = .mipos32 → AllocSound b mm n) :
    AllocSound b mm n := by
  cases b with
  | mipos32 => exact hsound rfl
  | mipos64 => exact splitSound_mipos64.allocSound h n

/-- An invariant of the single changes is one of their sequences. -/
theorem Blocks.Changes.induction {hdr : ℕ} {I : Blocks → Prop} (hhdr : 0 < hdr)
    (hI : ∀ {H H' : Blocks}, Blocks.Change hdr n H H' → H.Tiled hdr base len → I H → I H')
    (hc : Blocks.Changes hdr n H H') (ht : H.Tiled hdr base len) (h : I H) : I H' := by
  have hboth : H'.Tiled hdr base len ∧ I H' := by
    induction hc with
    | refl => exact ⟨ht, h⟩
    | tail _ hchange ih => exact ⟨hchange.tiled hhdr ih.1, hI hchange ih.1 ih.2⟩
  exact hboth.2

/-- **What a run preserves**: the invariant, and whatever the changes preserve. -/
theorem soundRun_inv {m : Memory} {I : Blocks → Prop} (hpos : 0 < base)
    (hend : base + len < b.modulus) (hlen : b.sizeofMdesc ≤ len)
    (hI : ∀ {n : ℕ} {H H' : Blocks}, P n → Blocks.Change b.sizeofMdesc (alignedSize b n) H H' →
      H.Tiled b.sizeofMdesc base len → I H → I H')
    (hinit : I ⟨[⟨base, len - b.sizeofMdesc⟩], []⟩)
    (hrun : ReflTransGen (SoundStep b base P) (miposMmInit b m base len) mm) :
    mm.arenaSize = len ∧ ∃ H, HeapInv b base mm H ∧ I H := by
  refine run_inv hpos hend hlen hinit ?_ hrun
  intro mm mm' e H h harena hIH he
  obtain ⟨⟨hfits, hP, hsound⟩, hexec⟩ := he
  obtain ⟨H', hl, hchanges⟩ := Call.changes_of_exec h (h.allocSound hsound) hfits hexec
  have ht := h.tiled
  rw [harena] at ht
  exact ⟨hl.leaves.arena, H', hl.leaves.inv, hchanges.induction b.sizeofMdesc_pos (hI hP) ht hIH⟩

/-! ### Large enough -/

/-- The block that an allocation returned. -/
theorem miposMmAlloc_block {r size : ℕ} (h : HeapInv b base mm H)
    (hs : AllocSound b mm size) (hexec : miposMmAlloc b mm size = some (mm', r)) (hr : r ≠ 0) :
    ∃ H' x, HeapInv b base mm' H' ∧ x ∈ H'.used ∧ r = x.addr + b.sizeofMdesc ∧
      alignedSize b size ≤ x.size := by
  obtain ⟨mm₁, r₁, H', hrun, hleaves, hres, -⟩ := miposMmAlloc_sim h hs
  rw [hrun, Option.some_inj, Prod.mk.injEq] at hexec
  obtain ⟨rfl, rfl⟩ := hexec
  obtain ⟨hr0, -⟩ | ⟨x, hrx, hnx, hused⟩ := hres
  · exact absurd hr0 hr
  · exact ⟨H', x, hleaves.inv, by rw [hused]; simp, hrx, hnx⟩

/-- What `mipos_calloc` returns is what `mipos_mm_alloc` did, with the bytes cleared. -/
theorem miposCalloc_eq_some {r nmemb size : ℕ} (hexec : miposCalloc b mm nmemb size = some (mm', r))
    (hr : r ≠ 0) : ∃ mm₁, miposMmAlloc b mm (size * nmemb % b.modulus) = some (mm₁, r) ∧
      mm' = { mm₁ with mem := mm₁.mem.fill r (size * nmemb % b.modulus) 0 } := by
  rw [miposCalloc] at hexec
  obtain ⟨⟨mm₁, r₁⟩, hrun, hexec⟩ := Option.bind_eq_some_iff.mp hexec
  dsimp only at hexec
  by_cases hr₁ : r₁ = 0
  · rw [if_pos hr₁] at hexec
    obtain ⟨-, rfl⟩ := Prod.mk.inj (Option.some.inj hexec)
    exact absurd rfl hr
  · rw [if_neg hr₁] at hexec
    obtain ⟨rfl, rfl⟩ := Prod.mk.inj (Option.some.inj hexec)
    exact ⟨mm₁, hrun, rfl⟩

/-- Bytes cleared from a payload on do not change the size of its block. -/
theorem mdescGetsize_fill (m : Memory) (d k : ℕ) (v : UInt8) :
    mdescGetsize b (m.fill (d + b.sizeofMdesc) k v) d = mdescGetsize b m d := by
  refine Memory.readWord_congr fun a hlo hhi => Memory.fill_of_not_mem m v (Or.inl ?_)
  unfold Build.sizeofMdesc
  omega

/-- A capacity leaves room for a descriptor. -/
theorem HeapInv.capacity_add_lt (h : HeapInv b base mm H) {x : Block} (hx : x ∈ H.used) :
    x.size + 4 ≤ b.modulus := by
  have hlt := h.size_lt (Blocks.mem_all_of_used hx)
  have hhdr : 4 ≤ b.sizeofMdesc := by cases b <;> decide
  omega

theorem alloc_big_enough_iff {r size : ℕ} (h : HeapInv b base mm H) (hs : AllocSound b mm size)
    (hexec : miposMmAlloc b mm size = some (mm', r)) (hr : r ≠ 0) :
    (∃ d, LiveDesc b mm' d ∧ r = d + b.sizeofMdesc ∧ size ≤ mdescGetsize b mm'.mem d) ↔
      size + 4 ≤ b.modulus := by
  obtain ⟨H', x, h', hx, hrx, hnx⟩ := miposMmAlloc_block h hs hexec hr
  have hsize := h'.size_eq x (Blocks.mem_all_of_used hx)
  constructor
  · rintro ⟨d, -, hrd, hle⟩
    obtain rfl : d = x.addr := by omega
    have := h'.capacity_add_lt hx
    omega
  · intro hrange
    refine ⟨x.addr, h'.liveDesc_iff.mpr ⟨x, hx, rfl⟩, hrx, ?_⟩
    rw [hsize]
    exact le_trans (le_alignedSize hrange) hnx

theorem calloc_big_enough_iff {r nmemb size : ℕ} (h : HeapInv b base mm H)
    (hs : AllocSound b mm (size * nmemb % b.modulus))
    (hexec : miposCalloc b mm nmemb size = some (mm', r)) (hr : r ≠ 0) :
    (∃ d, LiveDesc b mm' d ∧ r = d + b.sizeofMdesc ∧ nmemb * size ≤ mdescGetsize b mm'.mem d ∧
        ∀ i, i < nmemb * size → mm'.mem (r + i) = 0) ↔
      nmemb * size + 4 ≤ b.modulus := by
  obtain ⟨mm₁, hrun, hmm'⟩ := miposCalloc_eq_some hexec hr
  constructor
  · rintro ⟨d, -, hrd, hle, -⟩
    -- the capacity is the one that the allocation left
    obtain ⟨H₁, x, h₁, hx, hrx, -⟩ := miposMmAlloc_block h hs hrun hr
    obtain rfl : d = x.addr := by omega
    rw [hmm', hrd, mdescGetsize_fill, h₁.size_eq x (Blocks.mem_all_of_used hx)] at hle
    have := h₁.capacity_add_lt hx
    omega
  · intro hrange
    have hbytes : size * nmemb % b.modulus = nmemb * size := by
      rw [Nat.mul_comm, Nat.mod_eq_of_lt (by omega)]
    rw [hbytes] at hmm' hs
    obtain ⟨mm₂, r₂, H', hrun₂, hleaves, hres, -⟩ :=
      miposCalloc_sim h (hbytes.symm ▸ hs) (hbytes.symm ▸ hrange)
    rw [hexec, Option.some_inj, Prod.mk.injEq] at hrun₂
    obtain ⟨rfl, rfl⟩ := hrun₂
    obtain ⟨hr0, -⟩ | ⟨x, hrx, hnx, hused⟩ := hres
    · exact absurd hr0 hr
    have hx : x ∈ H'.used := by
      rw [hused]
      simp
    refine ⟨x.addr, hleaves.inv.liveDesc_iff.mpr ⟨x, hx, rfl⟩, hrx, ?_, fun i hi => ?_⟩
    · rw [hbytes] at hnx
      rw [hleaves.inv.size_eq x (Blocks.mem_all_of_used hx)]
      exact le_trans (le_alignedSize hrange) hnx
    · rw [hmm']
      exact Memory.fill_add _ r 0 hi

/-- **A block is large enough** just if the request is at least four bytes below the range of
`size_t`, in every state of every run; `mipos_calloc` takes the mathematical product, and clears
the bytes. -/
theorem big_enough_iff {m : Memory} (hpos : 0 < base) (hend : base + len < b.modulus)
    (hlen : b.sizeofMdesc ≤ len)
    (hrun : ReflTransGen (SoundStep b base fun _ => True) (miposMmInit b m base len) mm) :
    (∀ size mm' r, (b = .mipos32 → AllocSound b mm size) →
      miposMmAlloc b mm size = some (mm', r) → r ≠ 0 →
      ((∃ d, LiveDesc b mm' d ∧ r = d + b.sizeofMdesc ∧ size ≤ mdescGetsize b mm'.mem d) ↔
        size + 4 ≤ b.modulus)) ∧
    ∀ nmemb size mm' r, (b = .mipos32 → AllocSound b mm (size * nmemb % b.modulus)) →
      miposCalloc b mm nmemb size = some (mm', r) → r ≠ 0 →
      ((∃ d, LiveDesc b mm' d ∧ r = d + b.sizeofMdesc ∧ nmemb * size ≤ mdescGetsize b mm'.mem d ∧
          ∀ i, i < nmemb * size → mm'.mem (r + i) = 0) ↔
        nmemb * size + 4 ≤ b.modulus) := by
  obtain ⟨-, H, h, -⟩ := soundRun_inv (I := fun _ => True) hpos hend hlen
    (fun _ _ _ _ => trivial) trivial hrun
  exact ⟨fun size mm' r hsound hexec hr => alloc_big_enough_iff h (h.allocSound hsound) hexec hr,
    fun nmemb size mm' r hsound hexec hr =>
      calloc_big_enough_iff h (h.allocSound hsound) hexec hr⟩

theorem big_enough_iff_ten :
    ∃ mm', miposMmAlloc .mipos64 (miposMmInit .mipos64 (fun _ => 0) 64 256) 10 = some (mm', 308) ∧
      ∃ d, LiveDesc .mipos64 mm' d ∧ 308 = d + Build.mipos64.sizeofMdesc ∧
        10 ≤ mdescGetsize .mipos64 mm'.mem d := by
  have heval : ∃ mm', miposMmAlloc .mipos64 (miposMmInit .mipos64 (fun _ => 0) 64 256) 10
      = some (mm', 308) := by decide
  obtain ⟨mm', hexec⟩ := heval
  have hrun : ReflTransGen (SoundStep .mipos64 64 fun _ => True)
      (miposMmInit .mipos64 (fun _ => 0) 64 256) (miposMmInit .mipos64 (fun _ => 0) 64 256) := .refl
  obtain ⟨halloc, -⟩ := big_enough_iff (by omega) (by decide) (by decide) hrun
  exact ⟨mm', hexec, (halloc 10 mm' 308 (fun e => nomatch e) hexec (by decide)).mpr (by decide)⟩

/-- **Requests that wrap.**  `2^64 - 1` bytes are rounded to zero, and the block returned is empty;
three members of `(2^64 + 2) / 3` bytes are two bytes, and get four. -/
theorem oversized_request_accepted :
    (∃ mm', miposMmAlloc .mipos64 (miposMmInit .mipos64 (fun _ => 0) 64 256) (2 ^ 64 - 1)
        = some (mm', 320) ∧ mdescGetsize .mipos64 mm'.mem 296 = 0 ∧
      ¬ ∃ d, LiveDesc .mipos64 mm' d ∧ 320 = d + Build.mipos64.sizeofMdesc ∧
        2 ^ 64 - 1 ≤ mdescGetsize .mipos64 mm'.mem d) ∧
    ∃ mm', miposCalloc .mipos64 (miposMmInit .mipos64 (fun _ => 0) 64 256) 3 6148914691236517206
        = some (mm', 316) ∧ mdescGetsize .mipos64 mm'.mem 292 = 4 ∧
      ¬ ∃ d, LiveDesc .mipos64 mm' d ∧ 316 = d + Build.mipos64.sizeofMdesc ∧
        3 * 6148914691236517206 ≤ mdescGetsize .mipos64 mm'.mem d := by
  have hhdr : Build.mipos64.sizeofMdesc = 24 := rfl
  have hevalA : ∃ mm', miposMmAlloc .mipos64 (miposMmInit .mipos64 (fun _ => 0) 64 256) (2 ^ 64 - 1)
      = some (mm', 320) ∧ mdescGetsize .mipos64 mm'.mem 296 = 0 := by decide +kernel
  have hevalC : ∃ mm', miposCalloc .mipos64 (miposMmInit .mipos64 (fun _ => 0) 64 256) 3
      6148914691236517206 = some (mm', 316) ∧ mdescGetsize .mipos64 mm'.mem 292 = 4 := by
    decide +kernel
  obtain ⟨mmA, hexecA, hsizeA⟩ := hevalA
  obtain ⟨mmC, hexecC, hsizeC⟩ := hevalC
  refine ⟨⟨mmA, hexecA, hsizeA, ?_⟩, mmC, hexecC, hsizeC, ?_⟩
  · rintro ⟨d, -, hd, hle⟩
    obtain rfl : d = 296 := by omega
    exact absurd (hle.trans_eq hsizeA) (by decide)
  · rintro ⟨d, -, hd, hle⟩
    obtain rfl : d = 292 := by omega
    exact absurd (hle.trans_eq hsizeC) (by decide)

/-! ### Alignment -/

/-- The descriptors are at multiples of `w`, and the sizes are multiples of `w`. -/
def Blocks.Aligned (w : ℕ) (H : Blocks) : Prop := ∀ x ∈ H.all, w ∣ x.addr ∧ w ∣ x.size

/-- **A change keeps the alignment**, if the size that is cut off is a multiple. -/
theorem Blocks.Change.aligned {hdr : ℕ} (hc : Blocks.Change hdr n H H')
    (ht : H.Tiled hdr base len) (hhdr : w ∣ hdr) (hn : w ∣ n) (h : H.Aligned w) :
    H'.Aligned w := by
  have hfree : ∀ {y : Block}, y ∈ H.free → w ∣ y.addr ∧ w ∣ y.size := fun hy =>
    h _ (List.mem_append_left _ hy)
  have hused : ∀ {y : Block}, y ∈ H.used → w ∣ y.addr ∧ w ∣ y.size := fun hy =>
    h _ (List.mem_append_right _ hy)
  intro z hz
  cases hc with
  | @take x hx =>
    rcases List.mem_append.mp hz with hz | hz
    · exact hfree (List.mem_of_mem_erase hz)
    · rcases mem_pushAfterHead.mp hz with rfl | hz
      · exact hfree hx
      · exact hused hz
  | @cut x hx hroom =>
    obtain ⟨haddr, hsize⟩ := hfree hx
    have hrest : w ∣ x.size - (n + hdr) := Nat.dvd_sub hsize (Nat.dvd_add hn hhdr)
    rcases List.mem_cons.mp ((ht.cut_perm hx).mem_iff.mp hz) with rfl | hz
    · exact ⟨haddr, hrest⟩
    rcases List.mem_cons.mp hz with rfl | hz
    · exact ⟨Nat.dvd_add haddr (Nat.dvd_add hhdr hrest), hn⟩
    rcases List.mem_append.mp hz with hz | hz
    · exact hfree (List.mem_of_mem_erase hz)
    · exact hused hz
  | @release x hx =>
    rcases List.mem_append.mp hz with hz | hz
    · rcases mem_pushAfterHead.mp hz with rfl | hz
      · exact hused hx
      · exact hfree hz
    · exact hused (List.mem_of_mem_erase hz)
  | @fuse x y hx hy hadj =>
    rcases List.mem_append.mp hz with hz | hz
    · have hxy : x ≠ y := by
        rintro rfl
        have := ht.span_pos (List.mem_append_left _ hx)
        omega
      rcases (ht.mem_fuse_free hx hxy).mp hz with rfl | ⟨hz, -, -⟩
      · obtain ⟨haddr, hsize⟩ := hfree hx
        exact ⟨haddr, Nat.dvd_add (Nat.dvd_add hsize (hfree hy).2) hhdr⟩
      · exact hfree hz
    · exact hused hz

theorem aligned_of_run {m : Memory} (hpos : 0 < base) (hend : base + len < b.modulus)
    (hlen : b.sizeofMdesc ≤ len) (hhdr : w ∣ b.sizeofMdesc) (hbase : w ∣ base) (hsize : w ∣ len)
    (hP : ∀ n, P n → w ∣ alignedSize b n)
    (hrun : ReflTransGen (SoundStep b base P) (miposMmInit b m base len) mm) :
    ∀ d, LiveDesc b mm d ∨ FreeDesc b mm d → w ∣ d := by
  have hinit : Blocks.Aligned w ⟨[⟨base, len - b.sizeofMdesc⟩], []⟩ := by
    intro x hx
    obtain rfl : x = ⟨base, len - b.sizeofMdesc⟩ := by simpa [Blocks.all] using hx
    exact ⟨hbase, Nat.dvd_sub hsize hhdr⟩
  obtain ⟨-, H, h, haligned⟩ := soundRun_inv (I := Blocks.Aligned w) hpos hend hlen
    (fun hn hchange ht => hchange.aligned ht hhdr (hP _ hn)) hinit hrun
  rintro d (hlive | hfree)
  · obtain ⟨x, hx, rfl⟩ := h.liveDesc_iff.mp hlive
    exact (haligned x (Blocks.mem_all_of_used hx)).1
  · obtain ⟨x, hx, rfl⟩ := h.freeDesc_iff.mp hfree
    exact (haligned x (Blocks.mem_all_of_free hx)).1

/-- The source rounds to multiples of four, in both builds. -/
theorem four_dvd_alignedSize (b : Build) (size : ℕ) : 4 ∣ alignedSize b size :=
  Nat.dvd_mul_left 4 _

/-- **Descriptors are at multiples of the word size**, and so are the pointers that
`mipos_mm_alloc` returns, in every run in which the 64-bit build is asked only for sizes that are
rounded to a multiple of eight. -/
theorem descriptors_aligned {m : Memory} (hpos : 0 < base) (hend : base + len < b.modulus)
    (hlen : b.sizeofMdesc ≤ len) (hbase : b.wordBytes ∣ base) (hsize : b.wordBytes ∣ len)
    (hrun : ReflTransGen
      (SoundStep b base fun n => b = .mipos64 → 8 ∣ alignedSize .mipos64 n)
      (miposMmInit b m base len) mm) :
    (∀ d, LiveDesc b mm d ∨ FreeDesc b mm d → b.wordBytes ∣ d) ∧
      ∀ size mm' r, (b = .mipos64 → 8 ∣ alignedSize .mipos64 size) →
        (b = .mipos32 → AllocSound b mm size) → miposMmAlloc b mm size = some (mm', r) →
        b.wordBytes ∣ r := by
  have hhdr : b.wordBytes ∣ b.sizeofMdesc := Nat.dvd_mul_left _ 3
  have hP : ∀ n, (b = .mipos64 → 8 ∣ alignedSize .mipos64 n) → b.wordBytes ∣ alignedSize b n := by
    intro n hn
    cases b with
    | mipos32 => exact four_dvd_alignedSize .mipos32 n
    | mipos64 => exact hn rfl
  refine ⟨aligned_of_run hpos hend hlen hhdr hbase hsize hP hrun, ?_⟩
  intro size mm' r hn hsound hexec
  have hfits : (Call.alloc size).Fits b := trivial
  have hrun' := hrun.tail ⟨[(.alloc size, r)], .call ⟨⟨hfits, hn, hsound⟩, hexec⟩⟩
  obtain ⟨-, H, h, -⟩ := soundRun_inv (I := fun _ => True) hpos hend hlen
    (fun _ _ _ _ => trivial) trivial hrun
  obtain ⟨H', hl, -⟩ := Call.changes_of_exec (c := .alloc size) h (h.allocSound hsound) hfits hexec
  by_cases hr : r = 0
  · rw [hr]
    exact Nat.dvd_zero _
  · obtain ⟨d, hlive, rfl⟩ := hl.liveDesc hr
    exact Nat.dvd_add (aligned_of_run hpos hend hlen hhdr hbase hsize hP hrun' d (Or.inl hlive)) hhdr

theorem descriptors_aligned_sixteen :
    ∃ mm' r, miposMmAlloc .mipos64 (miposMmInit .mipos64 (fun _ => 0) 64 256) 16 = some (mm', r) ∧
      r ≠ 0 ∧ 8 ∣ r := by
  have heval : ∃ p, miposMmAlloc .mipos64 (miposMmInit .mipos64 (fun _ => 0) 64 256) 16 = some p ∧
      p.2 ≠ 0 := by decide
  obtain ⟨⟨mm', r⟩, hexec, hr⟩ := heval
  have hrun : ReflTransGen (SoundStep .mipos64 64
      fun n => Build.mipos64 = .mipos64 → 8 ∣ alignedSize .mipos64 n)
      (miposMmInit .mipos64 (fun _ => 0) 64 256) (miposMmInit .mipos64 (fun _ => 0) 64 256) := .refl
  obtain ⟨-, hptr⟩ := descriptors_aligned (by omega) (by decide) (by decide) (by decide) (by decide)
    hrun
  exact ⟨mm', r, hexec, hr, hptr 16 mm' r (fun _ => by decide) (fun e => nomatch e) hexec⟩

/-- **Four bytes in the 64-bit build**: the descriptor is at 292 and the pointer is 316, and
neither is a multiple of eight. -/
theorem descriptor_misaligned :
    ∃ mm', ReflTransGen (Step .mipos64 64) (miposMmInit .mipos64 (fun _ => 0) 64 256) mm' ∧
      miposMmAlloc .mipos64 (miposMmInit .mipos64 (fun _ => 0) 64 256) 4 = some (mm', 316) ∧
      LiveDesc .mipos64 mm' 292 ∧ ¬ 8 ∣ 292 ∧ ¬ 8 ∣ 316 := by
  have heval : ∃ mm', miposMmAlloc .mipos64 (miposMmInit .mipos64 (fun _ => 0) 64 256) 4
      = some (mm', 316) := by decide
  obtain ⟨mm', hexec⟩ := heval
  have hrange : (Call.alloc 4).InRange .mipos64 := show 4 + 4 ≤ _ by decide
  have hinit := miposMmInit_inv (b := .mipos64) (fun _ => 0) (show 0 < 64 by omega)
    (show 64 + 256 < _ by decide) (by decide)
  obtain ⟨H, hl⟩ := Call.leaves_of_exec splitSound_mipos64 hinit hrange.fits hexec
  obtain ⟨d, hlive, hd⟩ := hl.liveDesc (by decide)
  obtain rfl : d = 292 := by
    have hhdr : Build.mipos64.sizeofMdesc = 24 := rfl
    omega
  exact ⟨mm', .single (StepWhere.call (.alloc 4) hrange hexec), hexec, hlive, by decide, by decide⟩

end Malloc
