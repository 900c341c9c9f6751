/-
Tasks that write and delete their files at the same time.

Each task works on a file of its own: it writes to it and deletes it, in any order and
as often as it likes, and is switched at any of the points at which the code lets the
others run.  `clusters_exclusive` says that the tasks never share a cluster:
* a cluster on the chain of a file belongs to that file's slot and to no other one;
* a cluster is handed out only if it is free, and not again until a delete of the
  file it was handed out for marks it free;
* what a delete marks free is on no other file's chain;
* a write stores bytes in clusters of its own file only.
-/
import Mipos.TfsOwnedCalls
import Mipos.TfsRuns

namespace Tfs

open Coroutine OwnedLinks Function Relation

variable {δ ι : Type} {port : Port δ}

/-- The cluster `c` is on the chain of the file in slot `h`. -/
def OnChain (t : Ftbl) (h c : ℕ) : Prop :=
  t.Live h ∧ Reach (· < clustersCount) t.clusterTbl (t.fileFsDesc h).firstCluster c

/-- No cluster has two owners: one on a chain belongs to the slot of the file, and those
without an owner are the free ones. -/
structure Exclusive (x : Shared δ ι) : Prop where
  chain : ∀ h c, OnChain x.fs.ftbl h c → x.owner c = some h
  free : ∀ c, c < clustersCount → (x.owner c = none ↔ x.fs.ftbl.clusterTbl c = freeCluster)

theorem Ledger.exclusive {x : Shared δ ι} (hl : Ledger x.fs.ftbl x.owner) : Exclusive x where
  chain _ _ hc := hl.owner_of_reach ⟨hc.1, rfl⟩ hc.2
  free := hl.free_iff

/-- The calls that tasks make: task `i` writes and deletes the file of slot `own i`. -/
def OwnCall (own : ι → ℕ) (x : Shared δ ι) (i : ι) : TaskCall → Prop
  | .writeFile _ h => h = own i ∧ ¬StaleWrite x.fs h
  | .deleteFile name => NamesOnly x.fs (own i) name
  | _ => False

instance (own : ι → ℕ) (x : Shared δ ι) (i : ι) : (call : TaskCall) → Decidable (OwnCall own x i call)
  | .writeFile _ _ => inferInstanceAs (Decidable (_ ∧ ¬_))
  | .deleteFile name => inferInstanceAs (Decidable (NamesOnly x.fs (own i) name))
  | .readFile _ _ => inferInstanceAs (Decidable False)
  | .seekFile _ _ _ => inferInstanceAs (Decidable False)

/-- What a task does in a call on slot `h`. -/
def TaskCall.acts (port : Port δ) (h : ℕ) : TaskCall → Shared δ ι → Shared δ ι → Prop
  | .writeFile _ _ => Acts port true h
  | .deleteFile _ => Acts port false h
  | _ => fun _ _ => False

theorem TaskCall.acts_cases {h : ℕ} {call : TaskCall} {x x' : Shared δ ι}
    (ha : call.acts port h x x') :
    (∃ data k, call = .writeFile data k ∧ Acts port true h x x') ∨
      (∃ name, call = .deleteFile name ∧ Acts port false h x x') := by
  cases call with
  | writeFile data k => exact .inl ⟨data, k, rfl, ha⟩
  | deleteFile name => exact .inr ⟨name, rfl, ha⟩
  | readFile n k => exact ha.elim
  | seekFile code pos k => exact ha.elim

section Pools

variable [DecidableEq ι] {own : ι → ℕ}

/-- A step of the tasks, each on its own file. -/
abbrev OwnStep (port : Port δ) (own : ι → ℕ) : Tasks δ ι → Tasks δ ι → Prop :=
  PoolStep (fun i call => call.code port i) (OwnCall own)

/-- The calls fit together. -/
theorem relyGuarantee (hp : port.Succeeds) (hown : Injective own) :
    RelyGuarantee True (fun i call => TaskCall.code port i call) (OwnCall own)
      (fun x : Shared δ ι => Ledger x.fs.ftbl x.owner) (fun i => Env (own i))
      (fun i call => call.acts port (own i)) (fun i (_ : Bool) => Resting (own i)) where
  refl i x := Env.refl (own i) x
  trans := Env.trans
  compat hne _ hacts := by
    have hslots := hown.ne hne
    rcases TaskCall.acts_cases hacts with ⟨data, k, rfl, ha⟩ | ⟨name, rfl, ha⟩
    · exact ha.env hslots
    · exact ha.env hslots
  inv _ hacts := by
    rcases TaskCall.acts_cases hacts with ⟨data, k, rfl, ha⟩ | ⟨name, rfl, ha⟩
    · exact ha.ledger
    · exact ha.ledger
  stable hx henv := hx.stays lasting_atRest henv.stays
  starts {i call a x} _ hx hmay := by
    have hquiet : Quiet (own i) x { x with phase := update x.phase i .outside } :=
      ⟨rfl, rfl, fun _ _ => rfl, rfl⟩
    have hx' := hquiet.resting hx
    cases call with
    | writeFile data h =>
      obtain ⟨rfl, hstale⟩ := hmay
      refine Safe.bind (Safe.atomic rfl (hquiet.acts hx.1) (Safe.bind ?_))
      exact (safe_writeFile (fun _ _ he => he) hp hx' hstale data data.length).mono
        fun _ _ hz => Safe.pure hz
    | deleteFile name =>
      refine Safe.bind (Safe.atomic rfl (hquiet.acts hx.1) ?_)
      exact safe_deleteFile (fun _ _ he => he) hp
        (NamesOnly.findsOnly (fun _ _ he => he) hmay) hx'
    | readFile n k => exact hmay.elim
    | seekFile code pos k => exact hmay.elim

/-- What a step does to the cluster `c`: it stays with its owner, who alone changes its
entry; a write of the running task gets it, or a delete of the running task marks it
free and no file has it on its chain, now or before, but the deleted one. -/
def ClusterStep (own : ι → ℕ) (pool pool' : Tasks δ ι) (c : ℕ) : Prop :=
  KeptCluster (own pool.running) c pool.shared pool'.shared ∨
  (∃ data h, pool.call pool.running = some (.writeFile data h) ∧
    HandedOut (own pool.running) c pool.shared pool'.shared) ∨
  (∃ name, pool.call pool.running = some (.deleteFile name) ∧
    Freed (own pool.running) c pool.shared pool'.shared ∧
    (∀ h, OnChain pool.shared.fs.ftbl h c → h = own pool.running) ∧
    ∀ h, ¬OnChain pool'.shared.fs.ftbl h c)

/-- The device in a step: bytes go to clusters of the running task, or a delete stores
the table. -/
def DeviceStep (port : Port δ) (own : ι → ℕ) (pool pool' : Tasks δ ι) : Prop :=
  StoresOwn port (own pool.running) pool.shared pool'.shared ∨
  ∃ name, pool.call pool.running = some (.deleteFile name) ∧
    StoresTable port (own pool.running) pool.shared pool'.shared

omit [DecidableEq ι] in
theorem Acts.clusterStep {w : Bool} {pool pool' : Tasks δ ι}
    (ha : Acts port w (own pool.running) pool.shared pool'.shared)
    (hl : Ledger pool.shared.fs.ftbl pool.shared.owner)
    (hwrite : w = true → ∃ data h, pool.call pool.running = some (.writeFile data h))
    (hdelete : w = false → ∃ name, pool.call pool.running = some (.deleteFile name)) (c : ℕ) :
    ClusterStep own pool pool' c := by
  rcases ha.clusters c with hkept | ⟨hw, hout⟩ | ⟨hw, hfreed⟩
  · exact .inl hkept
  · obtain ⟨data, h, hcall⟩ := hwrite hw
    exact .inr (.inl ⟨data, h, hcall, hout⟩)
  · obtain ⟨name, hcall⟩ := hdelete hw
    refine .inr (.inr ⟨name, hcall, hfreed, fun h hc => ?_, fun h hc => ?_⟩)
    · have hown := hl.exclusive.chain h c hc
      rw [hfreed.owned] at hown
      exact (Option.some.inj hown).symm
    · have hown := ha.ledger.exclusive.chain h c hc
      rw [hfreed.no_owner] at hown
      cases hown

/-- What holds of the tasks between two steps. -/
def InOrder (port : Port δ) (own : ι → ℕ) (pool : Tasks δ ι) : Prop :=
  pool.Ok True (fun x => Ledger x.fs.ftbl x.owner) (fun i => Env (own i))
    (fun i call => call.acts port (own i)) fun i _ => Resting (own i)

theorem InOrder.step (hp : port.Succeeds) (hown : Injective own) {pool pool' : Tasks δ ι}
    (hok : InOrder port own pool) (hs : OwnStep port own pool pool') :
    InOrder port own pool' ∧ (∀ c, ClusterStep own pool pool' c) ∧
      DeviceStep port own pool pool' := by
  obtain ⟨hok', hsame | ⟨call, hcall, hacts⟩⟩ := (relyGuarantee hp hown).step_ok hok hs
  · refine ⟨hok', fun c => .inl ⟨by rw [hsame], fun _ => by rw [hsame]⟩, .inl (.inl ?_)⟩
    rw [hsame]
  · refine ⟨hok', ?_⟩
    rcases TaskCall.acts_cases hacts with ⟨data, k, rfl, ha⟩ | ⟨name, rfl, ha⟩
    · constructor
      · exact ha.clusterStep hok.inv (fun _ => ⟨data, k, hcall⟩) nofun
      · exact ha.dev.elim .inl fun hdev => nomatch hdev.1
    · constructor
      · exact ha.clusterStep hok.inv nofun fun _ => ⟨name, hcall⟩
      · exact ha.dev.imp id fun hdev => ⟨name, hcall, hdev.2⟩

/-- A step in which the file of slot `h` does not lose `c` to a delete. -/
def KeepingStep (port : Port δ) (own : ι → ℕ) (h c : ℕ) (pool pool' : Tasks δ ι) : Prop :=
  OwnStep port own pool pool' ∧ ¬Freed h c pool.shared pool'.shared

/-- A cluster stays with its file until a delete marks it free. -/
theorem InOrder.keeps (hp : port.Succeeds) (hown : Injective own) {h c : ℕ}
    {pool pool' : Tasks δ ι} (hok : InOrder port own pool) (howner : pool.shared.owner c = some h)
    (hrun : ReflTransGen (KeepingStep port own h c) pool pool') :
    InOrder port own pool' ∧ pool'.shared.owner c = some h := by
  induction hrun with
  | refl => exact ⟨hok, howner⟩
  | tail _ hs ih =>
    obtain ⟨hok', hclusters, -⟩ := ih.1.step hp hown hs.1
    refine ⟨hok', ?_⟩
    rcases hclusters c with hkept | ⟨_, _, _, hout⟩ | ⟨_, _, hfreed, _⟩
    · exact hkept.1.trans ih.2
    · have hnone := hout.no_owner
      rw [ih.2] at hnone
      cases hnone
    · have hslot := hfreed.owned
      rw [ih.2] at hslot
      rw [← Option.some.inj hslot] at hfreed
      exact absurd hfreed hs.2

/-- **Tasks on files of their own never share a cluster.**  They start outside calls, in
any state whose clusters have owners. -/
theorem clusters_exclusive (hp : port.Succeeds) (hown : Injective own)
    {x₀ : Shared δ ι} (hledger : Ledger x₀.fs.ftbl x₀.owner)
    (hrest : ∀ h, AtRest x₀.fs.ftbl h) {i : ι} {pool : Tasks δ ι}
    (hrun : ReflTransGen (OwnStep port own) (Pool.idle x₀ i true) pool) :
    Exclusive pool.shared ∧
    (∀ pool', OwnStep port own pool pool' →
      (∀ c, ClusterStep own pool pool' c) ∧ DeviceStep port own pool pool') ∧
    ∀ h c pool', pool.shared.owner c = some h →
      ReflTransGen (KeepingStep port own h c) pool pool' →
      pool'.shared.owner c = some h := by
  have hok : InOrder port own pool := (relyGuarantee hp hown).run_ok
    (Pool.idle_ok hledger fun j => ⟨hledger, hrest (own j)⟩) hrun
  refine ⟨hok.inv.exclusive, fun pool' hs => (hok.step hp hown hs).2, ?_⟩
  exact fun h c pool' howner hkeeps => (hok.keeps hp hown howner hkeeps).2

end Pools

/-- Two tasks, with the slots 0 and 1.  The second one writes two clusters and deletes its
file; as soon as the first cluster is free, the first task reserves it, while the
other one waits for the mutex and then goes on. -/
def reuseActions : List (Action Bool TaskCall) :=
  Action.start (TaskCall.writeFile (List.replicate 40 7) 1) :: List.replicate 34 .run ++
    Action.start (TaskCall.deleteFile (some [98])) :: List.replicate 12 .run ++
    Action.switch false :: .start (TaskCall.writeFile [1, 2, 3] 0) :: List.replicate 6 .run ++
    Action.switch true :: .run :: .switch false :: List.replicate 14 .run ++
    Action.switch true :: List.replicate 7 .run

theorem clusters_exclusive_reuse : ∃ (x₀ : Shared Unit Bool) (pool : Tasks Unit Bool),
    ReflTransGen (OwnStep nullPort Bool.toNat) (Pool.idle x₀ true true) pool ∧
    OnChain pool.shared.fs.ftbl 0 0 ∧ pool.shared.fs.ftbl.clusterTbl 1 = freeCluster ∧
    Exclusive pool.shared := by
  have heval : ∃ fs, ((mkfs nullPort (blankFs ()) none).bind fun r => runCalls nullPort r.1
        [.createFile [97], .createFile [98]]) = some fs ∧
      (∀ c, c < clustersCount → fs.ftbl.clusterTbl c = freeCluster) ∧
      (∀ h, h < maxNOfFiles → (fs.ftbl.fileFsDesc h).erased = 0 → clustersCount ≤
        (fs.ftbl.fileFsDesc h).firstCluster ∧ (fs.ftbl.fileFsDesc h).size = 0) ∧
      ∃ pool, (Pool.idle ⟨fs, fun _ => none, fun _ => .outside⟩ true true : Tasks Unit Bool).runActs
        (fun i call => call.code nullPort i) (fun x i call => decide (OwnCall Bool.toNat x i call))
        reuseActions = some pool ∧ pool.shared.fs.ftbl.Live 0 ∧
      (pool.shared.fs.ftbl.fileFsDesc 0).firstCluster = 0 ∧
      pool.shared.fs.ftbl.clusterTbl 1 = freeCluster := by decide +kernel
  obtain ⟨fs, -, hfree, hfiles, pool, hrun, hlive, hfirst, hnext⟩ := heval
  have hledger : Ledger fs.ftbl fun _ => none :=
    ledger_unused hfree fun h hh => (hfiles h hh.1 hh.2).1
  have hrest : ∀ h, AtRest fs.ftbl h := by
    intro h hh hsize
    rw [(hfiles h hh.1 hh.2).2] at hsize
    cases hsize
  have hsteps := run_of_runActs (fun x i call => of_decide_eq_true) hrun
  have hown : Injective Bool.toNat := by decide
  refine ⟨_, pool, hsteps, ⟨hlive, ?_⟩, hnext,
    (clusters_exclusive nullPort_succeeds hown hledger hrest hsteps).1⟩
  rw [hfirst]
  exact ⟨by decide, .refl⟩

end Tfs
