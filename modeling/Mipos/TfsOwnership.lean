/-
Who owns the clusters of Tiny-FS.

While calls overlap, a cluster may be linked to nothing: `reserve_cluster` has handed
it out and the write has not linked it yet, or a delete has taken the descriptor away
and not freed it yet.  Nor do the clusters have to be on a chain between calls: a
write that fails may leave some behind.  What holds all the time is the ledger
(`Ledger`): each cluster in use has the slot for which it was handed out as its owner,
and links stay with their owner.

A call on slot `h` is verified against what the calls on other slots do in the
meantime.  `Acts` is what a call on `h` guarantees, `Env` what it relies on, and
`Acts.env` that the two fit.  This file has the ledger and the code that walks along
the table and reserves clusters (`safe_clusterWalk`, `safe_reserveCluster`); the calls
are in `TfsOwnedCalls`.
-/
import Mipos.OwnedLinks
import Mipos.TfsTasks

namespace Tfs

open Coroutine OwnedLinks Function

variable {δ ι : Type} {port : Port δ}

/-! ### The ledger -/

/-- The slot `h` holds a file that starts at `r`. -/
def Ftbl.Root (t : Ftbl) (h r : ℕ) : Prop := t.Live h ∧ (t.fileFsDesc h).firstCluster = r

/-- The owners of the clusters of a table. -/
def Ledger (t : Ftbl) (owner : ℕ → Option ℕ) : Prop :=
  Owned (· < clustersCount) freeCluster t.clusterTbl owner t.Root

/-- With all clusters free nobody owns any. -/
theorem ledger_unused {t : Ftbl} (hfree : ∀ c, c < clustersCount → t.clusterTbl c = freeCluster)
    (hfirst : ∀ h, t.Live h → clustersCount ≤ (t.fileFsDesc h).firstCluster) :
    Ledger t fun _ => none := by
  have hmark : ¬freeCluster < clustersCount := by decide
  have hroot : ∀ h r, t.Root h r → ¬r < clustersCount := by
    rintro h r ⟨hlive, rfl⟩
    exact Nat.not_lt_of_le (hfirst h hlive)
  constructor
  case mark => exact hmark
  case free_iff => exact fun c hc => ⟨fun _ => hfree c hc, fun _ => rfl⟩
  case link => exact fun c hc hnext => absurd (hfree c hc ▸ hnext) hmark
  case inj => exact fun c d hc _ hnext _ => absurd (hfree c hc ▸ hnext) hmark
  case root_owner => exact fun h r hr hvalid => absurd hvalid (hroot h r hr)
  case root_unlinked => exact fun h r hr hvalid => absurd hvalid (hroot h r hr)

/-- A file with bytes has a first cluster. -/
def AtRest (t : Ftbl) (h : ℕ) : Prop :=
  t.Live h → 0 < (t.fileFsDesc h).size → (t.fileFsDesc h).firstCluster < clustersCount

/-- Links and first clusters fit the 16 bits they have on the device. -/
structure Ftbl.Small (t : Ftbl) : Prop where
  tbl : ∀ c, c < clustersCount → t.clusterTbl c < 2 ^ 16
  first : ∀ h, h < maxNOfFiles → (t.fileFsDesc h).firstCluster < 2 ^ 16

/-- The cluster belongs to the slot `h`. -/
def Held (h c : ℕ) (x : Shared δ ι) : Prop := c < clustersCount ∧ x.owner c = some h

/-- A cluster of slot `h` that nothing leads to. -/
structure Fresh (h c : ℕ) (x : Shared δ ι) : Prop where
  held : Held h c x
  unlinked : Unlinked (· < clustersCount) x.fs.ftbl.clusterTbl c
  not_first : (x.fs.ftbl.fileFsDesc h).firstCluster ≠ c

/-- The slot `h` keeps its entries and its clusters; it may have got clusters that are
not linked yet. -/
structure Stays (h : ℕ) (x x' : Shared δ ι) : Prop where
  ledger : Ledger x.fs.ftbl x.owner → Ledger x'.fs.ftbl x'.owner
  keeps : Keeps (· < clustersCount) h x.fs.ftbl.clusterTbl x.owner x'.fs.ftbl.clusterTbl x'.owner
  fd : x'.fs.ftbl.fileFsDesc h = x.fs.ftbl.fileFsDesc h
  ctl : x'.fs.fileCtl h = x.fs.fileCtl h

/-- What a call on slot `h` relies on.  The others may delete their files. -/
structure Env (h : ℕ) (x x' : Shared δ ι) : Prop where
  stays : Stays h x x'
  owned : ∀ c, x'.owner c = some h → x.owner c = some h
  names : ∀ k, k ≠ h → (x'.fs.ftbl.fileFsDesc k).erased = 0 →
    (x.fs.ftbl.fileFsDesc k).erased = 0 ∧
      (x'.fs.ftbl.fileFsDesc k).filename = (x.fs.ftbl.fileFsDesc k).filename

/-- The entry of `c` changes only if the cluster belongs to `h`, and its owner stays. -/
def KeptCluster (h c : ℕ) (x x' : Shared δ ι) : Prop :=
  x'.owner c = x.owner c ∧
    (x.owner c ≠ some h → x'.fs.ftbl.clusterTbl c = x.fs.ftbl.clusterTbl c)

/-- `reserve_cluster` hands out `c` for the slot `h`. -/
structure HandedOut (h c : ℕ) (x x' : Shared δ ι) : Prop where
  valid : c < clustersCount
  was_free : x.fs.ftbl.clusterTbl c = freeCluster
  no_owner : x.owner c = none
  reserved : x'.fs.ftbl.clusterTbl c = reservedCluster
  owned : x'.owner c = some h

/-- A delete of slot `h` marks its cluster `c` free. -/
structure Freed (h c : ℕ) (x x' : Shared δ ι) : Prop where
  owned : x.owner c = some h
  free : x'.fs.ftbl.clusterTbl c = freeCluster
  no_owner : x'.owner c = none

/-- The device is left alone, or bytes are stored in a cluster of slot `h`. -/
def StoresOwn (port : Port δ) (h : ℕ) (x x' : Shared δ ι) : Prop :=
  x'.fs.dev = x.fs.dev ∨ ∃ c off data, Held h c x ∧ off < clusterSize ∧
    off + data.length ≤ clusterSize ∧ x'.fs.dev = port.put x.fs.dev data (clusterAddr c off)

/-- The table is stored, without a file in slot `h`. -/
structure StoresTable (port : Port δ) (h : ℕ) (x x' : Shared δ ι) : Prop where
  dead : (x.fs.ftbl.fileFsDesc h).erased ≠ 0
  ftbl : x'.fs.ftbl = x.fs.ftbl
  dev : x'.fs.dev = port.put x.fs.dev x.fs.ftbl.bytes tfsOffset

/-- What a call on slot `h` guarantees: a write (`w`) takes free clusters and stores
bytes in its own ones, a delete frees its own ones and stores the table. -/
structure Acts (port : Port δ) (w : Bool) (h : ℕ) (x x' : Shared δ ι) : Prop where
  ledger : Ledger x'.fs.ftbl x'.owner
  fd : ∀ k, k ≠ h → x'.fs.ftbl.fileFsDesc k = x.fs.ftbl.fileFsDesc k
  ctl : ∀ k, k ≠ h → x'.fs.fileCtl k = x.fs.fileCtl k
  name : (x'.fs.ftbl.fileFsDesc h).erased = 0 → (x.fs.ftbl.fileFsDesc h).erased = 0 ∧
    (x'.fs.ftbl.fileFsDesc h).filename = (x.fs.ftbl.fileFsDesc h).filename
  clusters : ∀ c, KeptCluster h c x x' ∨ (w = true ∧ HandedOut h c x x') ∨
    (w = false ∧ Freed h c x x')
  dev : StoresOwn port h x x' ∨ (w = false ∧ StoresTable port h x x')
  small : x.fs.ftbl.Small → x'.fs.ftbl.Small

/-! ### Relying on the others -/

section Relies

variable {h k : ℕ} {x y z : Shared δ ι} {w : Bool}

theorem Stays.refl (h : ℕ) (x : Shared δ ι) : Stays h x x :=
  ⟨id, ⟨fun _ hc => ⟨hc, rfl⟩, fun _ hc => .inl hc⟩, rfl, rfl⟩

theorem Stays.trans (h₁ : Stays h x y) (h₂ : Stays h y z) : Stays h x z where
  ledger := h₂.ledger ∘ h₁.ledger
  keeps := by
    constructor
    case kept =>
      intro c hc
      obtain ⟨hc', heq⟩ := h₁.keeps.kept c hc
      obtain ⟨hc'', heq'⟩ := h₂.keeps.kept c hc'
      exact ⟨hc'', heq'.trans heq⟩
    case fresh =>
      intro c hc
      rcases h₂.keeps.fresh c hc with hc' | hmark
      · rcases h₁.keeps.fresh c hc' with hold | hmark
        · exact .inl hold
        · rw [← (h₂.keeps.kept c hc').2] at hmark
          exact .inr hmark
      · exact .inr hmark
  fd := h₂.fd.trans h₁.fd
  ctl := h₂.ctl.trans h₁.ctl

theorem Env.refl (h : ℕ) (x : Shared δ ι) : Env h x x :=
  ⟨.refl h x, fun _ hc => hc, fun _ _ he => ⟨he, rfl⟩⟩

theorem Env.trans (h₁ : Env h x y) (h₂ : Env h y z) : Env h x z where
  stays := h₁.stays.trans h₂.stays
  owned c hc := h₁.owned c (h₂.owned c hc)
  names k hk he := by
    obtain ⟨he₁, hname₁⟩ := h₂.names k hk he
    obtain ⟨he₂, hname₂⟩ := h₁.names k hk he₁
    exact ⟨he₂, hname₁.trans hname₂⟩

/-- A call on another slot does not give clusters to `h`, nor take any. -/
theorem Acts.owner_iff (ha : Acts port w k x y) (hne : h ≠ k) (c : ℕ) :
    y.owner c = some h ↔ x.owner c = some h := by
  have hne' : some k ≠ some h := fun heq => hne (Option.some.inj heq).symm
  rcases ha.clusters c with hkept | ⟨-, hout⟩ | ⟨-, hfreed⟩
  · rw [hkept.1]
  · simp [hout.owned, hout.no_owner, hne']
  · simp [hfreed.owned, hfreed.no_owner, hne']

theorem Acts.tbl_eq (ha : Acts port w k x y) (hne : h ≠ k) {c : ℕ} (hc : x.owner c = some h) :
    y.fs.ftbl.clusterTbl c = x.fs.ftbl.clusterTbl c := by
  rcases ha.clusters c with hkept | ⟨-, hout⟩ | ⟨-, hfreed⟩
  · refine hkept.2 ?_
    rw [hc]
    exact fun heq => hne (Option.some.inj heq)
  · rw [hout.no_owner] at hc
    cases hc
  · rw [hfreed.owned] at hc
    exact absurd (Option.some.inj hc).symm hne

/-- **What a call on one slot guarantees is what a call on another relies on.** -/
theorem Acts.env (ha : Acts port w k x y) (hne : h ≠ k) : Env h x y where
  stays := by
    constructor
    case ledger => exact fun _ => ha.ledger
    case fd => exact ha.fd h hne
    case ctl => exact ha.ctl h hne
    case keeps =>
      constructor
      case kept => exact fun c hc => ⟨(ha.owner_iff hne c).mpr hc, ha.tbl_eq hne hc⟩
      case fresh => exact fun c hc => .inl ((ha.owner_iff hne c).mp hc)
  owned c := (ha.owner_iff hne c).mp
  names j hj he := by
    rcases eq_or_ne j k with rfl | hjk
    · exact ha.name he
    · rw [ha.fd j hjk] at he ⊢
      exact ⟨he, rfl⟩

end Relies

/-! ### What stays true meanwhile -/

/-- `P` survives what the others do to slot `h`, and new clusters for it. -/
def Lasting (h : ℕ) (P : Shared δ ι → Prop) : Prop :=
  ∀ x z, Ledger x.fs.ftbl x.owner → Stays h x z → P x → P z

/-- The ledger is in order and `P` holds. -/
def Holds (P : Shared δ ι → Prop) (x : Shared δ ι) : Prop := Ledger x.fs.ftbl x.owner ∧ P x

section Lasts

variable {h c d : ℕ} {x z : Shared δ ι} {P Q : Shared δ ι → Prop}

theorem Holds.stays (hP : Lasting h P) (hx : Holds P x) (hs : Stays h x z) : Holds P z :=
  ⟨hs.ledger hx.1, hP x z hx.1 hs hx.2⟩

theorem Lasting.and (hP : Lasting h P) (hQ : Lasting h Q) : Lasting h fun x => P x ∧ Q x :=
  fun x z hl hs hx => ⟨hP x z hl hs hx.1, hQ x z hl hs hx.2⟩

/-- What is said of the entries of the slot lasts. -/
theorem lasting_entries (Q : Fd → Ctl → Prop) :
    Lasting h fun x : Shared δ ι => Q (x.fs.ftbl.fileFsDesc h) (x.fs.fileCtl h) := by
  intro x z _ hs hx
  show Q (z.fs.ftbl.fileFsDesc h) (z.fs.fileCtl h)
  rw [hs.fd, hs.ctl]
  exact hx

theorem lasting_held : Lasting h (Held h c : Shared δ ι → Prop) :=
  fun _ _ _ hs hx => ⟨hx.1, (hs.keeps.kept c hx.2).1⟩

theorem lasting_linked :
    Lasting h fun x : Shared δ ι => Held h c x ∧ x.fs.ftbl.clusterTbl c = d :=
  fun _ _ _ hs hx => ⟨⟨hx.1.1, (hs.keeps.kept c hx.1.2).1⟩, (hs.keeps.kept c hx.1.2).2.trans hx.2⟩

theorem lasting_unlinked : Lasting h fun x : Shared δ ι =>
    Held h c x ∧ Unlinked (· < clustersCount) x.fs.ftbl.clusterTbl c :=
  fun x z hl hs hx => ⟨lasting_held x z hl hs hx.1,
    (hs.ledger hl).unlinked_of_keeps hs.keeps hx.1.1 hx.1.2 hx.2⟩

theorem lasting_fresh : Lasting h (Fresh h c : Shared δ ι → Prop) := by
  intro x z hl hs hx
  obtain ⟨hheld, hunlinked⟩ := lasting_unlinked x z hl hs ⟨hx.held, hx.unlinked⟩
  refine ⟨hheld, hunlinked, ?_⟩
  rw [hs.fd]
  exact hx.not_first

end Lasts

/-! ### Single actions -/

section Actions

variable {h c v : ℕ} {w : Bool} {x x' : Shared δ ι}

theorem stays_of_eq (hftbl : x'.fs.ftbl = x.fs.ftbl) (howner : x'.owner = x.owner)
    (hctl : x'.fs.fileCtl h = x.fs.fileCtl h) : Stays h x x' := by
  constructor
  case ledger => exact fun hl => hftbl ▸ howner ▸ hl
  case keeps => exact ⟨fun _ hc => ⟨howner ▸ hc, hftbl ▸ rfl⟩, fun _ hc => .inl (howner ▸ hc)⟩
  case fd => rw [hftbl]
  case ctl => exact hctl

/-- An action that leaves the table and the owners alone. -/
theorem acts_of_eq (hl : Ledger x.fs.ftbl x.owner) (hftbl : x'.fs.ftbl = x.fs.ftbl)
    (howner : x'.owner = x.owner) (hctl : ∀ k, k ≠ h → x'.fs.fileCtl k = x.fs.fileCtl k)
    (hdev : StoresOwn port h x x' ∨ (w = false ∧ StoresTable port h x x')) : Acts port w h x x' where
  ledger := hftbl ▸ howner ▸ hl
  fd k _ := by rw [hftbl]
  ctl := hctl
  name he := by
    rw [hftbl] at he ⊢
    exact ⟨he, rfl⟩
  clusters _ := .inl ⟨by rw [howner], fun _ => by rw [hftbl]⟩
  dev := hdev
  small hs := hftbl ▸ hs

theorem Acts.refl (hl : Ledger x.fs.ftbl x.owner) : Acts port w h x x :=
  acts_of_eq hl rfl rfl (fun _ _ => rfl) (.inl (.inl rfl))

/-- The descriptor of the slot changes, but not to that of another file. -/
theorem acts_setFd {fd : Fd} (hl : Ledger (setFd x.fs h fd).ftbl x.owner)
    (hfirst : h < maxNOfFiles → x.fs.ftbl.Small → fd.firstCluster < 2 ^ 16)
    (hname : fd.erased = 0 → (x.fs.ftbl.fileFsDesc h).erased = 0 ∧
      fd.filename = (x.fs.ftbl.fileFsDesc h).filename) :
    Acts port w h x { x with fs := setFd x.fs h fd } where
  ledger := hl
  fd k hk := by simp [hk]
  ctl _ _ := rfl
  name he := by
    simp only [setFd_fileFsDesc, update_self] at he ⊢
    exact hname he
  clusters _ := .inl ⟨rfl, fun _ => rfl⟩
  dev := .inl (.inl rfl)
  small hs := by
    refine ⟨hs.tbl, fun k hk => ?_⟩
    rcases eq_or_ne k h with rfl | hkh
    · simpa using hfirst hk hs
    · simpa [hkh] using hs.first k hk

theorem Ftbl.Small.setCluster (hs : x.fs.ftbl.Small) (hv : v < 2 ^ 16) :
    (setCluster x.fs c v).ftbl.Small := by
  refine ⟨fun d hd => ?_, hs.first⟩
  rcases eq_or_ne d c with rfl | hdc
  · simpa using hv
  · simpa [hdc] using hs.tbl d hd

/-- The link of a cluster of the slot is set. -/
theorem acts_setCluster (hc : Held h c x) (hv : v < 2 ^ 16)
    (hl : Ledger (setCluster x.fs c v).ftbl x.owner) :
    Acts port w h x { x with fs := setCluster x.fs c v } where
  ledger := hl
  fd _ _ := rfl
  ctl _ _ := rfl
  name he := ⟨he, rfl⟩
  clusters d := by
    refine .inl ⟨rfl, fun hd => ?_⟩
    have hdc : d ≠ c := by
      rintro rfl
      exact hd hc.2
    simp [hdc]
  dev := .inl (.inl rfl)
  small hs := hs.setCluster hv

theorem not_valid_reserved : ¬reservedCluster < clustersCount := by decide

/-- The state after `reserve_cluster` took `c` for the slot `h`. -/
def handOut (x : Shared δ ι) (h c : ℕ) : Shared δ ι :=
  { x with
    fs := setCluster x.fs c reservedCluster
    owner := update x.owner c (some h) }

theorem ledger_handOut (hl : Ledger x.fs.ftbl x.owner) (hc : c < clustersCount)
    (hfree : x.owner c = none) : Ledger (handOut x h c).fs.ftbl (handOut x h c).owner :=
  hl.take hc hfree not_valid_reserved (by decide) h

theorem acts_handOut (hl : Ledger x.fs.ftbl x.owner) (hc : c < clustersCount)
    (hfree : x.fs.ftbl.clusterTbl c = freeCluster) : Acts port true h x (handOut x h c) := by
  have hnone : x.owner c = none := (hl.free_iff c hc).mpr hfree
  constructor
  case ledger => exact ledger_handOut hl hc hnone
  case fd => exact fun _ _ => rfl
  case ctl => exact fun _ _ => rfl
  case name => exact fun he => ⟨he, rfl⟩
  case dev => exact .inl (.inl rfl)
  case small => exact fun hs => hs.setCluster (by decide)
  case clusters =>
    intro d
    rcases eq_or_ne d c with rfl | hdc
    · exact .inr (.inl ⟨rfl, hc, hfree, hnone, by simp [handOut], by simp [handOut]⟩)
    · exact .inl ⟨by simp [handOut, hdc], fun _ => by simp [handOut, hdc]⟩

/-- A new cluster is not linked, so that its slot may take it as the others'. -/
theorem stays_handOut (hc : c < clustersCount) (hfree : x.owner c = none) :
    Stays h x (handOut x h c) := by
  constructor
  case ledger => exact fun hl => ledger_handOut hl hc hfree
  case fd => rfl
  case ctl => rfl
  case keeps =>
    constructor
    case kept =>
      intro d hd
      have hdc : d ≠ c := by
        rintro rfl
        rw [hfree] at hd
        cases hd
      simp [handOut, hdc, hd]
    case fresh =>
      intro d hd
      rcases eq_or_ne d c with rfl | hdc
      · simp [handOut, not_valid_reserved]
      · exact .inl (by simpa [handOut, hdc] using hd)

/-- What was just handed out is fresh. -/
theorem fresh_handOut (hl : Ledger x.fs.ftbl x.owner) (hc : c < clustersCount)
    (hfree : x.owner c = none) (hlive : x.fs.ftbl.Live h) : Fresh h c (handOut x h c) where
  held := ⟨hc, by simp [handOut]⟩
  unlinked := (hl.unlinked_of_free hc hfree).update fun heq => not_valid_reserved (heq ▸ hc)
  not_first heq := hl.not_root_of_free hc hfree h ⟨hlive, heq⟩

end Actions

/-! ### The cluster table -/

section Clusters

variable {α : Type} {h c : ℕ} {w : Bool} {x : Shared δ ι} {R : Shared δ ι → Shared δ ι → Prop}
  {P : Shared δ ι → Prop}

theorem lock_of_unlocked {z : Shared δ ι} (hz : Task.unlocked z = true) : z.fs.lock = false := by
  simpa [Task.unlocked] using hz

/-- Code without a switching point. -/
theorem safe_atomic {G : Shared δ ι → Shared δ ι → Prop} {f : Fs δ → Option (Fs δ × α)} {fs' : Fs δ}
    {a : α} {Q : α → Shared δ ι → Prop} (hf : f x.fs = some (fs', a))
    (hG : G x { x with fs := fs' }) (hQ : Q a { x with fs := fs' }) :
    Safe True R G Q (Task.atomic f) x := Safe.atomic (by simp [hf]) hG hQ

/-- `P` survives what `R` allows. -/
def StableIn (R : Shared δ ι → Shared δ ι → Prop) (P : Shared δ ι → Prop) : Prop :=
  ∀ x z, R x z → Holds P x → Holds P z

theorem Lasting.stable (hP : Lasting h P) (hR : ∀ x z, R x z → Env h x z) : StableIn R P :=
  fun x z hRz hx => hx.stays hP (hR x z hRz).stays

/-- Code under the mutex, from any state that the others may leave. -/
theorem safe_access {f : Fs δ → Option (Fs δ × α)} {Q : α → Shared δ ι → Prop}
    (hP : StableIn R P) (hx : Holds P x)
    (hf : ∀ z, Holds P z → z.fs.lock = false → ∃ fs' a, f z.fs = some (fs', a) ∧
      Acts port w h z { z with fs := fs' } ∧ Q a { z with fs := fs' }) :
    Safe True R (Acts port w h) Q (Task.access f) x := by
  intro z hRz hready
  obtain ⟨fs', a, hrun, hacts, hQ⟩ := hf z (hP x z hRz hx) (lock_of_unlocked hready)
  exact safe_atomic hrun hacts hQ

theorem safe_getNextCluster (hP : StableIn R P) (hc : ∀ z, P z → Held h c z) (hx : Holds P x) :
    Safe True R (Acts port w h) (fun next z => Holds P z ∧
      ∀ d, next = some d → Held h d z ∧ z.fs.ftbl.clusterTbl c = d) (Task.getNextCluster c) x := by
  have hlt := (hc x hx.2).1
  rw [Task.getNextCluster, if_neg (Nat.not_le_of_lt hlt)]
  refine Safe.bind (safe_access hP hx fun z hz hl => ?_)
  refine ⟨z.fs, _, getClusterVal_eq hl hlt, .refl hz.1, Safe.pure ⟨hz, fun d hd => ?_⟩⟩
  split at hd
  · cases hd
  · rename_i hvalid
    cases hd
    have hnext : z.fs.ftbl.clusterTbl c < clustersCount := Nat.lt_of_not_le hvalid
    exact ⟨⟨hnext, (hz.1.link c hlt hnext).trans (hc z hz.2).2⟩, rfl⟩

section Walk

variable (hR : ∀ x z, R x z → Env h x z) (hP : Lasting h P)

include hR hP

theorem safe_clusterWalk (left : ℕ) (hx : Holds P x) (hc : Held h c x) :
    Safe True R (Acts port w h) (fun r z => Holds P z ∧ Held h r.2 z)
      (Task.clusterWalk left c) x := by
  induction left generalizing c x with
  | zero => exact Safe.pure ⟨hx, hc⟩
  | succ left ih =>
    refine Safe.bind (Safe.mono (safe_getNextCluster
      ((hP.and (lasting_held (c := c))).stable hR) (fun _ hz => hz.2) ⟨hx.1, hx.2, hc⟩) ?_)
    rintro next z ⟨⟨hl, hPz, hcz⟩, hnext⟩
    cases next with
    | none => exact Safe.pure ⟨⟨hl, hPz⟩, hcz⟩
    | some d => exact ih ⟨hl, hPz⟩ (hnext d rfl).1

/-- **Reserving**: the others may run before each look at the table, and a cluster is
handed out only if it is free then. -/
theorem safe_reserveLoop (hlive : ∀ z, P z → z.fs.ftbl.Live h) {l : List ℕ}
    (hl : ∀ i ∈ l, i < clustersCount) (hx : Holds P x) :
    Safe True R (Acts port true h) (fun r z => Holds P z ∧ ∀ d, r = some d → Fresh h d z ∧
      ∀ e, (∀ y, P y → Held h e y) → e ≠ d) (Task.reserveLoop h l) x := by
  have hunlock : ∀ z : Shared δ ι, Stays h z { z with fs := unlockAccess z.fs } :=
    fun _ => stays_of_eq rfl rfl rfl
  induction l generalizing x with
  | nil =>
    refine Safe.bind (Safe.atomic rfl (acts_of_eq hx.1 rfl rfl (fun _ _ => rfl) (.inl (.inl rfl))) ?_)
    exact Safe.pure ⟨hx.stays hP (hunlock x), by simp⟩
  | cons i is ih =>
    intro z hRz
    have hz := hx.stays hP (hR x z hRz).stays
    have hi := hl i (List.mem_cons_self ..)
    by_cases hfree : z.fs.ftbl.clusterTbl i = freeCluster
    · have hnone : z.owner i = none := (hz.1.free_iff i hi).mpr hfree
      have hstays := stays_handOut (h := h) hi hnone
      have hfresh := fresh_handOut hz.1 hi hnone (hlive z hz.2)
      refine Safe.bind (Safe.atomic (if_pos hfree) (acts_handOut hz.1 hi hfree) ?_)
      refine Safe.bind (Safe.atomic rfl (acts_of_eq (ledger_handOut hz.1 hi hnone) rfl rfl
        (fun _ _ => rfl) (.inl (.inl rfl))) (Safe.pure ⟨?_, fun d hd => ?_⟩))
      · exact hz.stays hP (hstays.trans (hunlock _))
      · cases hd
        refine ⟨lasting_fresh _ _ (ledger_handOut hz.1 hi hnone) (hunlock _) hfresh, ?_⟩
        rintro e he rfl
        have hown := (he z hz.2).2
        rw [hnone] at hown
        cases hown
    · refine Safe.bind (Safe.atomic (if_neg hfree) (.refl hz.1) ?_)
      exact ih (fun j hj => hl j (List.mem_cons_of_mem i hj)) hz

theorem safe_reserveCluster (hlive : ∀ z, P z → z.fs.ftbl.Live h) (hx : Holds P x) :
    Safe True R (Acts port true h) (fun r z => Holds P z ∧ ∀ d, r = some d → Fresh h d z ∧
      ∀ e, (∀ y, P y → Held h e y) → e ≠ d) (Task.reserveCluster h) x := by
  intro z hRz hready
  have hz := hx.stays hP (hR x z hRz).stays
  have hlock :
      (lockAccess z.fs).map (fun fs => (fs, ())) = some ({ z.fs with lock := true }, ()) := by
    rw [lockAccess, lock_of_unlocked hready]
    rfl
  refine Safe.bind (safe_atomic hlock
    (acts_of_eq hz.1 rfl rfl (fun _ _ => rfl) (.inl (.inl rfl))) ?_)
  exact safe_reserveLoop hR hP hlive (fun i hi => List.mem_range.mp hi)
    (hz.stays hP (stays_of_eq rfl rfl rfl))

end Walk

end Clusters

end Tfs
