/-
Streams over Tiny-FS (`mipos_stdio.c`).

A stream is a handle, and a handle the number of a descriptor slot.  Which slots are in
use is told from two flags: `mipos_tfs_open_file` refuses a slot that is open,
`mipos_tfs_create_file` takes the first slot that is erased.  `mipos_tfs_delete_file`
erases a slot without looking whether it is open, also on behalf of `mipos_tfs_fopen` with
mode "w".

* `Held` — the slot of a file that is open; opening and creating never return the number
  of such a slot, and only closing and deleting end it;
* `handles_distinct` — if no call deletes a file under a handle, and the handle of a stream
  is closed by `mipos_tfs_fclose` only, the handles that are not closed are of different
  slots;
* `opened_twice` — `mipos_tfs_fopen` with mode "w" of an open file returns its slot again.
-/
import Mipos.TfsRuns

namespace Stdio

open Tfs Relation

variable {δ : Type} {port : Port δ} {fs fs' : Fs δ} {name : List UInt8} {ok : Bool}

/-! ### Opening and closing streams -/

/-- The mode strings of `mipos_tfs_fopen`. -/
inductive Mode
  | r
  | rPlus
  | w
  | wPlus
  deriving DecidableEq, Repr

/-- `mipos_tfs_FILE` -/
structure File where
  handle : ℕ
  readOnly : Bool
  deriving DecidableEq, Repr

/-- Without memory for the stream (`mem`) the file stays open, and nothing is returned. -/
def openStream (fs : Fs δ) (name : List UInt8) (mode : OpenMode) (mem : Bool) :
    Option (Fs δ × Option File) := do
  let (fs, ok, h) ← openFile fs name mode
  return (fs, if ok && mem then some ⟨h, true⟩ else none)

/-- Whether there was a file to delete does not matter. -/
def createStream (port : Port δ) (fs : Fs δ) (name : List UInt8) (mem : Bool) :
    Option (Fs δ × Option File) := do
  let (fs, _) ← deleteFile port fs (some name)
  let (fs, ok, h) ← createFile port fs name
  return (fs, if ok && mem then some ⟨h, false⟩ else none)

def fopen (port : Port δ) (fs : Fs δ) (name : List UInt8) (mode : Mode) (mem : Bool) :
    Option (Fs δ × Option File) :=
  match mode with
  | .r => openStream fs name .read mem
  | .rPlus => openStream fs name .write mem
  | .w => createStream port fs name mem
  | .wPlus => createStream port fs name mem

/-- The mode that the source compares a string with. -/
def modeOf (m : List UInt8) : Option Mode :=
  if m = [114] then some .r
  else if m = [114, 43] then some .rPlus
  else if m = [119, 43] then some .wPlus
  else if m = [119] then some .w
  else none

/-- `mipos_tfs_fopen` with the string for its mode, of which seven characters are copied.  With
an empty one `m[lm - 1]` is in front of the buffer. -/
def fopenStr (port : Port δ) (fs : Fs δ) (name mode : List UInt8) (mem : Bool) :
    Option (Fs δ × Option File) :=
  let m := cstr (strncpy mode 7)
  if m.length = 0 then none
  else
    match modeOf m with
    | some mode => fopen port fs name mode mem
    | none => some (fs, none)

/-- The number of elements written; `size_t` has the size of a pointer.  Without a size,
a write that returns `TRUE` divides by zero. -/
def fwrite (port : Port δ) (fs : Fs δ) (buffer : List UInt8) (size count : ℕ) (f : File) :
    Option (Fs δ × ℕ) := do
  let total := size * count % 2 ^ (8 * port.sizeofPtr)
  let (fs, ok, wbytes) ← writeFile port fs buffer (total % 2 ^ 32) f.handle
  if ok then
    if size = 0 then none else some (fs, wbytes / size)
  else
    return (fs, if wbytes < total then wbytes / size else 0)

/-- The number of elements read, and the bytes.  Without a size, a read that returns `TRUE`
divides by zero.  What `mipos_tfs_get_fd` finds after a read that fails is not used. -/
def fread (port : Port δ) (fs : Fs δ) (size count : ℕ) (f : File) :
    Option (Fs δ × ℕ × List UInt8) := do
  let total := size * count % 2 ^ (8 * port.sizeofPtr)
  let (fs, ok, rbytes, data) ← readFile port fs (total % 2 ^ 32) f.handle
  if ok then
    if size = 0 then none else some (fs, rbytes / size, data)
  else
    let (fs, _) ← if f.handle ≥ maxNOfFiles then some (fs, Fd.zero, Ctl.zero)
      else getFdCtl fs f.handle
    return (fs, if rbytes < total then rbytes / size else 0, data)

/-- A `char` as an `int`: the platform says whether it is signed. -/
def ofChar (charSigned : Bool) (c : UInt8) : ℤ :=
  if charSigned then Int.bmod c.toNat (2 ^ 8) else c.toNat

def fgetc (charSigned : Bool) (port : Port δ) (fs : Fs δ) (f : File) : Option (Fs δ × ℤ) := do
  let (fs, ret, data) ← fread port fs 1 1 f
  return (fs, if ret = 1 then ofChar charSigned (data.headD 0) else ret)

def feof (fs : Fs δ) (f : File) : Option (Fs δ × ℤ) :=
  if f.readOnly = false ∨ f.handle ≥ maxNOfFiles then some (fs, 0)
  else do
    let (fs, _, ctl) ← getFdCtl fs f.handle
    return (fs, if ctl.eofWhileRead then 1 else 0)

/-- The position in a `long`; `EOF` for a handle that is none. -/
def ftell (sizeofLong : ℕ) (fs : Fs δ) (f : File) : Option (Fs δ × ℤ) :=
  if f.handle ≥ maxNOfFiles then some (fs, -1)
  else do
    let (fs, _, ctl) ← getFdCtl fs f.handle
    return (fs, Int.bmod ctl.seekPointer (2 ^ (8 * sizeofLong)))

/-- `SEEK_SET`, `SEEK_CUR` and `SEEK_END`. -/
def seekCode (origin : ℤ) : Option SeekCode :=
  if origin = 0 then some .begin
  else if origin = 1 then some .current
  else if origin = 2 then some .fromEnd
  else none

/-- The offset is a `long`, and made an `int`. -/
def tinyFseek (fs : Fs δ) (f : File) (pos origin : ℤ) : Option (Fs δ × ℤ) :=
  match seekCode origin with
  | none => some (fs, 0)
  | some code => do
    let newPos := pos.bmod (2 ^ 32)
    let (fs, ok) ← seekFile fs code newPos f.handle
    return (fs, if ok then 0 else newPos)

def rename (port : Port δ) (fs : Fs δ) (sourceFile : Option (List UInt8)) (destFile : List UInt8) :
    Option (Fs δ × ℤ) := do
  let (fs, ok) ← renameFile port fs sourceFile destFile
  return (fs, if ok then 0 else -1)

def remove (port : Port δ) (fs : Fs δ) (filename : Option (List UInt8)) : Option (Fs δ × ℤ) := do
  let (fs, ok) ← deleteFile port fs filename
  return (fs, if ok then 0 else -1)

/-- The size, a `uint32_t`, is made an `int`. -/
def filesize (fs : Fs δ) (filename : Option (List UInt8)) : Option (Fs δ × ℤ) := do
  let (fs, size) ← getFsize fs filename
  match size with
  | some size => return (fs, Int.bmod size (2 ^ 32))
  | none => return (fs, -1)

/-- What a call has returned and its caller not closed: a stream, by its address, or a
handle of the layer below. -/
inductive Handle
  | stream (ptr : ℕ) (f : File)
  | raw (h : ℕ)
  deriving DecidableEq, Repr

def Handle.slot : Handle → ℕ
  | .stream _ f => f.handle
  | .raw h => h

def Handle.isStream (ptr : ℕ) : Handle → Bool
  | .stream p _ => p == ptr
  | .raw _ => false

structure World (δ : Type) where
  fs : Fs δ
  handles : List Handle
  /-- the address of the next stream -/
  next : ℕ

def World.slots (x : World δ) : List ℕ := x.handles.map Handle.slot

/-- What `mipos_tfs_fopen` returned is kept by its caller. -/
def World.returns (x : World δ) (fs : Fs δ) : Option File → World δ
  | some f => ⟨fs, .stream x.next f :: x.handles, x.next + 1⟩
  | none => { x with fs }

inductive Call
  | fopen (name : List UInt8) (mode : Mode) (mem : Bool)
  | fclose (ptr : Option ℕ)
  | remove (name : Option (List UInt8))
  | createFile (name : List UInt8)
  | openFile (name : List UInt8) (mode : OpenMode)
  | closeFile (h : ℕ)
  | deleteFile (name : Option (List UInt8))

/-- `mipos_tfs_fclose` needs a stream that is not closed yet, or a null pointer. -/
def Call.exec (port : Port δ) (x : World δ) : Call → Option (World δ)
  | .fopen name mode mem => do
    let (fs, f) ← Stdio.fopen port x.fs name mode mem
    return x.returns fs f
  | .fclose none => some x
  | .fclose (some ptr) => do
    let f ← x.handles.find? (·.isStream ptr)
    let (fs, ok) ← Tfs.closeFile x.fs f.slot
    return { x with fs, handles := if ok then x.handles.erase f else x.handles }
  | .remove name => do
    let (fs, _) ← Tfs.deleteFile port x.fs name
    return { x with fs }
  | .createFile name => do
    let (fs, ok, h) ← Tfs.createFile port x.fs name
    return { x with fs, handles := if ok then .raw h :: x.handles else x.handles }
  | .openFile name mode => do
    let (fs, ok, h) ← Tfs.openFile x.fs name mode
    return { x with fs, handles := if ok then .raw h :: x.handles else x.handles }
  | .closeFile h => do
    let (fs, ok) ← Tfs.closeFile x.fs h
    return { x with fs, handles := if ok then x.handles.erase (.raw h) else x.handles }
  | .deleteFile name => do
    let (fs, _) ← Tfs.deleteFile port x.fs name
    return { x with fs }

/-! ### Slots in use -/

/-- The slot of a file that is open. -/
def Held (fs : Fs δ) (h : ℕ) : Prop := fs.ftbl.Live h ∧ (fs.fileCtl h).isOpen = true

/-- A call that returns a handle, if `ok` says so: it keeps what is held, and returns what
was not. -/
structure Takes (fs fs' : Fs δ) (ok : Bool) (h : ℕ) : Prop where
  lock : fs'.lock = false
  keeps : ∀ k, Held fs k → Held fs' k
  takes : ok = true → Held fs' h ∧ ¬ Held fs h

theorem openFile_takes (hl : fs.lock = false) {mode : OpenMode}
    {h : ℕ} (hrun : openFile fs name mode = some (fs', ok, h)) : Takes fs fs' ok h := by
  rcases openFile_cases hl hrun with ⟨rfl, rfl⟩ | ⟨rfl, rfl, hlive, hclosed⟩
  · exact ⟨hl, fun _ hk => hk, nofun⟩
  · refine ⟨hl, fun k hk => ⟨hk.1, ?_⟩, fun _ => ⟨⟨hlive, ?_⟩, fun hheld => ?_⟩⟩
    · rcases eq_or_ne k h with rfl | hne
      · simp [opened]
      · simpa [opened, hne] using hk.2
    · simp [opened]
    · exact absurd (hheld.2.symm.trans hclosed) (by decide)

theorem createFile_takes (hl : fs.lock = false) {h : ℕ}
    (hrun : createFile port fs name = some (fs', ok, h)) : Takes fs fs' ok h := by
  rcases createFile_spec hl hrun with ⟨rfl, e, rfl⟩ | ⟨hlt, herased, e, ret, hstore, -⟩
  · exact ⟨hl, fun _ hk => hk, nofun⟩
  · obtain ⟨dev, rfl⟩ := updateFsOnDisk_some hstore
    have hnot : ¬ Held fs h := fun hheld => herased hheld.1.2
    refine ⟨hl, fun k hk => ?_, fun _ => ⟨⟨⟨hlt, ?_⟩, ?_⟩, hnot⟩⟩
    · have hne : k ≠ h := fun heq => hnot (heq ▸ hk)
      refine ⟨⟨hk.1.1, ?_⟩, ?_⟩
      · simpa [created, hne] using hk.1.2
      · simpa [created, hne] using hk.2
    · simp [created]
    · simp [created]

theorem closeFile_keeps (hl : fs.lock = false) {h : ℕ}
    (hrun : closeFile fs h = some (fs', ok)) :
    fs'.lock = false ∧ (∀ k, Held fs k → k ≠ h → Held fs' k) ∧
      (ok = false → ∀ k, Held fs k → Held fs' k) := by
  rcases closeFile_cases hl hrun with ⟨rfl, rfl⟩ | ⟨rfl, rfl⟩
  · exact ⟨hl, fun _ hk _ => hk, fun _ _ hk => hk⟩
  · refine ⟨hl, fun k hk hne => ⟨hk.1, ?_⟩, nofun⟩
    simpa [hne] using hk.2

/-- The file that a call would delete is of none of the slots `l`. -/
def Spares (fs : Fs δ) (l : List ℕ) (name : Option (List UInt8)) : Prop :=
  ∀ i ∈ (ffirst fs name).bind (·.2), i ∉ l

instance (fs : Fs δ) (l : List ℕ) (name : Option (List UInt8)) : Decidable (Spares fs l name) :=
  inferInstanceAs (Decidable (∀ i ∈ (ffirst fs name).bind (·.2), i ∉ l))

theorem deleteFile_keeps (hl : fs.lock = false) {name : Option (List UInt8)}
    (hrun : deleteFile port fs name = some (fs', ok)) :
    fs'.lock = false ∧ ∀ l, Spares fs l name → ∀ k ∈ l, Held fs k → Held fs' k := by
  rcases deleteFile_spec hl hrun with ⟨-, e, rfl⟩ | ⟨i, e, fs₁, ret, hfirst, -, hloop, hstore, -⟩
  · exact ⟨hl, fun l _ k _ hk => hk⟩
  · have hl' : (erased (setError fs e) i).lock = false := hl
    obtain ⟨tbl, rfl⟩ := deleteLoop_some hl' hloop
    obtain ⟨dev, rfl⟩ := updateFsOnDisk_some hstore
    refine ⟨hl, fun l hspares k hmem hk => ?_⟩
    have hfound : i ∈ (ffirst fs name).bind (·.2) := by rw [hfirst]; rfl
    have hne : k ≠ i := fun heq => hspares i hfound (heq ▸ hmem)
    refine ⟨⟨hk.1.1, ?_⟩, ?_⟩
    · simpa [erased, hne] using hk.1.2
    · simpa [erased, hne] using hk.2

/-! ### Runs -/

/-- No file is deleted under a handle, and only `mipos_tfs_fclose` closes the handle of a
stream. -/
def Call.Allowed (x : World δ) : Call → Prop
  | .fopen name mode _ => mode = .w ∨ mode = .wPlus → Spares x.fs x.slots (some name)
  | .remove name => Spares x.fs x.slots name
  | .closeFile h => ∀ y ∈ x.handles, y.slot = h → y = .raw h
  | .deleteFile name => Spares x.fs x.slots name
  | _ => True

instance (x : World δ) : (call : Call) → Decidable (call.Allowed x)
  | .fopen name mode _ =>
    inferInstanceAs (Decidable (mode = .w ∨ mode = .wPlus → Spares x.fs x.slots (some name)))
  | .remove name => inferInstanceAs (Decidable (Spares x.fs x.slots name))
  | .closeFile h => inferInstanceAs (Decidable (∀ y ∈ x.handles, y.slot = h → y = .raw h))
  | .deleteFile name => inferInstanceAs (Decidable (Spares x.fs x.slots name))
  | .fclose _ => .isTrue trivial
  | .createFile _ => .isTrue trivial
  | .openFile _ _ => .isTrue trivial

def Step (port : Port δ) (x y : World δ) : Prop :=
  ∃ call : Call, call.Allowed x ∧ call.exec port x = some y

/-- The handles are of different slots, and these are held. -/
structure Inv (x : World δ) : Prop where
  lock : x.fs.lock = false
  nodup : x.slots.Nodup
  held : ∀ h ∈ x.slots, Held x.fs h

variable {x : World δ}

/-- The call returns no handle. -/
theorem Inv.keep (hi : Inv x) (hl : fs'.lock = false)
    (hkeeps : ∀ k ∈ x.slots, Held x.fs k → Held fs' k) : Inv { x with fs := fs' } :=
  ⟨hl, hi.nodup, fun k hk => hkeeps k hk (hi.held k hk)⟩

/-- The call returns a handle of the slot `h`. -/
theorem Inv.take (hi : Inv x) {h : ℕ} (ht : Takes x.fs fs' true h) {y : Handle}
    (hy : y.slot = h) (n : ℕ) : Inv ⟨fs', y :: x.handles, n⟩ := by
  obtain ⟨hheld, hnot⟩ := ht.takes rfl
  refine ⟨ht.lock, List.nodup_cons.mpr ⟨?_, hi.nodup⟩, List.forall_mem_cons.mpr ⟨hy ▸ hheld, ?_⟩⟩
  · exact fun hmem => hnot (hi.held h (hy ▸ hmem))
  · exact fun k hk => ht.keeps k (hi.held k hk)

/-- The handle `y` is closed: no other one is of its slot. -/
theorem Inv.close (hi : Inv x) {y : Handle} (hmem : y ∈ x.handles) (hl : fs'.lock = false)
    (hkeeps : ∀ k, Held x.fs k → k ≠ y.slot → Held fs' k) :
    Inv { x with fs := fs', handles := x.handles.erase y } := by
  have hsub : ((x.handles.erase y).map Handle.slot).Sublist x.slots := List.erase_sublist.map _
  refine ⟨hl, hi.nodup.sublist hsub, fun k hk => ?_⟩
  obtain ⟨z, hz, rfl⟩ := List.mem_map.mp hk
  obtain ⟨hne, hz⟩ := hi.nodup.of_map.mem_erase_iff.mp hz
  refine hkeeps _ (hi.held _ (List.mem_map_of_mem hz)) fun heq => ?_
  exact hne (List.inj_on_of_nodup_map hi.nodup hz hmem heq)

/-- A call of the layer below that returns a handle if `ok`. -/
theorem Inv.takes (hi : Inv x) {h : ℕ} (ht : Takes x.fs fs' ok h) :
    Inv { x with fs := fs', handles := if ok then .raw h :: x.handles else x.handles } := by
  cases ok with
  | false => exact hi.keep ht.lock fun k _ => ht.keeps k
  | true => exact hi.take ht rfl x.next

theorem Inv.returns (hi : Inv x) {ok readOnly : Bool} {h : ℕ} (ht : Takes x.fs fs' ok h)
    (mem : Bool) :
    Inv (x.returns fs' (if ok && mem then some ⟨h, readOnly⟩ else none)) := by
  cases hok : ok && mem with
  | false => exact hi.keep ht.lock fun k _ => ht.keeps k
  | true =>
    obtain ⟨rfl, -⟩ := Bool.and_eq_true_iff.mp hok
    exact hi.take ht rfl _

theorem Inv.deleteFile (hi : Inv x) {name : Option (List UInt8)}
    (hrun : Tfs.deleteFile port x.fs name = some (fs', ok)) (hspares : Spares x.fs x.slots name) :
    Inv { x with fs := fs' } := by
  obtain ⟨hl, hkeeps⟩ := deleteFile_keeps hi.lock hrun
  exact hi.keep hl (hkeeps x.slots hspares)

theorem Inv.closeFile (hi : Inv x) {h : ℕ} {y : Handle}
    (hrun : Tfs.closeFile x.fs h = some (fs', ok)) (hslot : y.slot = h)
    (hy : ∀ z ∈ x.handles, z.slot = h → z = y) :
    Inv { x with fs := fs', handles := if ok then x.handles.erase y else x.handles } := by
  obtain ⟨hl, hkeeps, hfail⟩ := closeFile_keeps hi.lock hrun
  cases ok with
  | false => exact hi.keep hl fun k _ => hfail rfl k
  | true =>
    by_cases hmem : y ∈ x.handles
    · exact hi.close hmem hl (hslot ▸ hkeeps)
    · -- nobody has a handle of the slot
      rw [if_pos rfl, List.erase_of_not_mem hmem]
      refine hi.keep hl fun k hk hheld => hkeeps k hheld ?_
      rintro rfl
      obtain ⟨z, hz, hzslot⟩ := List.mem_map.mp hk
      exact hmem (hy z hz hzslot ▸ hz)

theorem Inv.openStream (hi : Inv x) {mode : OpenMode} {mem : Bool}
    {f : Option File} (hrun : openStream x.fs name mode mem = some (fs', f)) :
    Inv (x.returns fs' f) := by
  obtain ⟨⟨fs₁, ok, h⟩, hopen, hrun⟩ := Option.bind_eq_some_iff.mp hrun
  cases hrun
  exact hi.returns (openFile_takes hi.lock hopen) mem

theorem Inv.createStream (hi : Inv x) {mem : Bool} {f : Option File}
    (hrun : createStream port x.fs name mem = some (fs', f))
    (hspares : Spares x.fs x.slots (some name)) : Inv (x.returns fs' f) := by
  obtain ⟨⟨fs₁, ok₁⟩, hdelete, hrun⟩ := Option.bind_eq_some_iff.mp hrun
  obtain ⟨⟨fs₂, ok, h⟩, hcreate, hrun⟩ := Option.bind_eq_some_iff.mp hrun
  cases hrun
  have hi₁ := hi.deleteFile hdelete hspares
  exact hi₁.returns (createFile_takes hi₁.lock hcreate) mem

theorem Inv.fopen (hi : Inv x) {mode : Mode} {mem : Bool} {f : Option File}
    (hrun : fopen port x.fs name mode mem = some (fs', f))
    (hspares : mode = .w ∨ mode = .wPlus → Spares x.fs x.slots (some name)) :
    Inv (x.returns fs' f) := by
  cases mode with
  | r => exact hi.openStream hrun
  | rPlus => exact hi.openStream hrun
  | w => exact hi.createStream hrun (hspares (.inl rfl))
  | wPlus => exact hi.createStream hrun (hspares (.inr rfl))

/-- One call keeps the invariant. -/
theorem Inv.exec (hi : Inv x) {call : Call} (hallowed : call.Allowed x) {y : World δ}
    (hexec : call.exec port x = some y) : Inv y := by
  cases call with
  | fopen name mode mem =>
    obtain ⟨⟨fs', f⟩, hrun, hexec⟩ := Option.bind_eq_some_iff.mp hexec
    cases hexec
    exact hi.fopen hrun hallowed
  | fclose ptr =>
    cases ptr with
    | none =>
      cases hexec
      exact hi
    | some ptr =>
      obtain ⟨f, hf, hexec⟩ := Option.bind_eq_some_iff.mp hexec
      obtain ⟨⟨fs', ok⟩, hrun, hexec⟩ := Option.bind_eq_some_iff.mp hexec
      cases hexec
      have hmem := List.mem_of_find?_eq_some hf
      exact hi.closeFile hrun rfl fun z hz => List.inj_on_of_nodup_map hi.nodup hz hmem
  | remove name =>
    obtain ⟨⟨fs', ok⟩, hrun, hexec⟩ := Option.bind_eq_some_iff.mp hexec
    cases hexec
    exact hi.deleteFile hrun hallowed
  | createFile name =>
    obtain ⟨⟨fs', ok, h⟩, hrun, hexec⟩ := Option.bind_eq_some_iff.mp hexec
    cases hexec
    exact hi.takes (createFile_takes hi.lock hrun)
  | openFile name mode =>
    obtain ⟨⟨fs', ok, h⟩, hrun, hexec⟩ := Option.bind_eq_some_iff.mp hexec
    cases hexec
    exact hi.takes (openFile_takes hi.lock hrun)
  | closeFile h =>
    obtain ⟨⟨fs', ok⟩, hrun, hexec⟩ := Option.bind_eq_some_iff.mp hexec
    cases hexec
    exact hi.closeFile hrun rfl hallowed
  | deleteFile name =>
    obtain ⟨⟨fs', ok⟩, hrun, hexec⟩ := Option.bind_eq_some_iff.mp hexec
    cases hexec
    exact hi.deleteFile hrun hallowed

/-- No two handles that have been returned and not closed are of the same slot. -/
theorem handles_distinct (hl : fs.lock = false) (n : ℕ)
    (hrun : ReflTransGen (Step port) ⟨fs, [], n⟩ x) : x.slots.Nodup := by
  have hi : Inv x := by
    induction hrun with
    | refl => exact ⟨hl, List.nodup_nil, nofun⟩
    | tail _ hstep ih =>
      obtain ⟨call, hallowed, hexec⟩ := hstep
      exact ih.exec hallowed hexec
  exact hi.nodup

/-- The calls of a list, as long as all of them meet `Allowed`. -/
def runCalls (port : Port δ) (x : World δ) : List Call → Option (World δ)
  | [] => some x
  | call :: calls =>
    if call.Allowed x then (call.exec port x).bind fun y => runCalls port y calls else none

theorem run_of_runCalls {calls : List Call} {y : World δ}
    (hrun : runCalls port x calls = some y) : ReflTransGen (Step port) x y := by
  induction calls generalizing x with
  | nil =>
    cases hrun
    exact .refl
  | cons call calls ih =>
    rw [runCalls] at hrun
    split at hrun
    · rename_i hallowed
      obtain ⟨z, hexec, hrun⟩ := Option.bind_eq_some_iff.mp hrun
      exact .head ⟨call, hallowed, hexec⟩ (ih hrun)
    · cases hrun

/-- A formatted volume. -/
def emptyVolume : Fs Unit := formatted nullPort (blankFs ()) none

/-- The file "a" is written and closed, and then read while "b" is written. -/
theorem handles_distinct_two : ∃ x : World Unit,
    ReflTransGen (Step nullPort) ⟨emptyVolume, [], 0⟩ x ∧ x.slots = [1, 0] ∧
      x.slots.Nodup := by
  have heval : ∃ x, runCalls nullPort ⟨emptyVolume, [], 0⟩ [.fopen [97] .w true, .fclose (some 0),
      .fopen [97] .r true, .fopen [98] .wPlus true] = some x ∧ x.slots = [1, 0] := by decide +kernel
  obtain ⟨x, hx, hslots⟩ := heval
  have hrun := run_of_runCalls hx
  exact ⟨x, hrun, hslots, handles_distinct rfl 0 hrun⟩

/-- The file "a" is opened for writing while it is open for writing. -/
theorem opened_twice : ∃ x : World Unit,
    (Call.fopen [97] .w true).exec nullPort ⟨emptyVolume, [], 0⟩ = some x ∧
    ∃ y, (Call.fopen [97] .w true).exec nullPort x = some y ∧
      y.handles = [.stream 1 ⟨0, false⟩, .stream 0 ⟨0, false⟩] := by
  decide +kernel

end Stdio
