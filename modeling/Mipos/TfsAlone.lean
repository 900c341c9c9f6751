/-
Tiny-FS tasks without other tasks.

A program of `TfsTasks` that runs alone computes what the function of `TfsModel` of
the same name computes (`Plain`): nothing else happens where it may be switched,
and a function that would wait for the mutex for ever is undefined in both.

* `plain_readFile`, `plain_writeFile`, `plain_seekFile`, `plain_deleteFile` — the
  calls;
* `TaskCall.plain` — the same for the calls by name.
-/
import Mipos.TfsTasks
import Mipos.TfsRuns

namespace Tfs

open Coroutine

namespace Task

variable {δ ι α : Type}

/-- Run alone, the program computes what `f` does; the history is forgotten. -/
def Plain (p : Op δ ι α) (f : Fs δ → Option (Fs δ × α)) : Prop :=
  ∀ x, (p.alone x).map (fun r => (r.1.fs, r.2)) = f x.fs

section Plain

variable {β : Type} {p q : Op δ ι α} {f g : Fs δ → Option (Fs δ × α)}

theorem Plain.congr (hp : Plain p f) (hfg : ∀ fs, f fs = g fs) : Plain p g :=
  fun x => (hp x).trans (hfg x.fs)

theorem plain_pure (a : α) : Plain (pure a : Op δ ι α) fun fs => some (fs, a) := fun _ => rfl

theorem Plain.bind {k : α → Op δ ι β} {g : α → Fs δ → Option (Fs δ × β)} (hp : Plain p f)
    (hk : ∀ a, Plain (k a) (g a)) :
    Plain (p >>= k) fun fs => (f fs).bind fun r => g r.2 r.1 := by
  intro x
  dsimp only
  rw [alone_bind, ← hp x]
  rcases p.alone x with _ | ⟨x', a⟩
  · rfl
  · exact hk a x'

/-- A step that is known. -/
theorem Plain.okStep {k : α → Op δ ι β} {fs : Fs δ} {a : α} {r : Option (Fs δ × β)}
    (hp : Plain p f) (x : Shared δ ι) (hf : f x.fs = some (fs, a))
    (hk : ∀ x', x'.fs = fs → ((k a).alone x').map (fun r => (r.1.fs, r.2)) = r) :
    ((p >>= k).alone x).map (fun r => (r.1.fs, r.2)) = r := by
  obtain ⟨⟨x', _⟩, hrun, heq⟩ := Option.map_eq_some_iff.mp ((hp x).trans hf)
  obtain ⟨hfs, rfl⟩ := Prod.mk.inj heq
  rw [alone_bind, hrun]
  exact hk x' hfs

/-- `Plain.bind`, one step at a time. -/
theorem Plain.step {k : α → Op δ ι β} {g : Fs δ × α → Option (Fs δ × β)} (hp : Plain p f)
    (x : Shared δ ι) (hk : ∀ x' a, f x.fs = some (x'.fs, a) →
      ((k a).alone x').map (fun r => (r.1.fs, r.2)) = g (x'.fs, a)) :
    ((p >>= k).alone x).map (fun r => (r.1.fs, r.2)) = (f x.fs).bind g := by
  have hx := hp x
  rw [alone_bind, ← hx]
  rcases hrun : p.alone x with _ | ⟨x', a⟩
  · rfl
  · rw [hrun] at hx
    exact hk x' a hx.symm

/-- The same for a function without a result. -/
theorem Plain.unitStep {p : Op δ ι Unit} {f : Fs δ → Option (Fs δ)} {k : Unit → Op δ ι β}
    {g : Fs δ → Option (Fs δ × β)} (hp : Plain p fun fs => (f fs).map fun fs => (fs, ()))
    (x : Shared δ ι) (hk : ∀ x', ((k ()).alone x').map (fun r => (r.1.fs, r.2)) = g x'.fs) :
    ((p >>= k).alone x).map (fun r => (r.1.fs, r.2)) = (f x.fs).bind g := by
  refine (hp.step (g := fun r => g r.1) x fun x' _ _ => hk x').trans ?_
  rcases f x.fs with _ | fs
  · rfl
  · rfl

theorem Plain.ite (c : Prop) [Decidable c] (hp : Plain p f) (hq : Plain q g) :
    Plain (if c then p else q) fun fs => if c then f fs else g fs := by
  by_cases hc : c
  · simpa only [if_pos hc] using hp
  · simpa only [if_neg hc] using hq

/-- Waiting for the mutex before code that cannot run without it. -/
theorem Plain.await (hp : Plain p f) (hlock : ∀ fs, fs.lock = true → f fs = none) :
    Plain (Prog.await unlocked p) f := by
  intro x
  rw [Prog.alone, unlocked]
  cases hl : x.fs.lock with
  | false => exact hp x
  | true =>
    rw [hlock _ hl]
    rfl

theorem plain_atomic (f : Fs δ → Option (Fs δ × α)) : Plain (atomic f : Op δ ι α) f := by
  intro x
  rw [atomic, Prog.atomic, Prog.alone]
  rcases f x.fs with _ | ⟨fs, a⟩
  · rfl
  · rfl

theorem plain_access {f : Fs δ → Option (Fs δ × α)} (hlock : ∀ fs, fs.lock = true → f fs = none) :
    Plain (access f : Op δ ι α) f := (plain_atomic f).await hlock

theorem withAccess_locked {fs : Fs δ} (hl : fs.lock = true) (body : Fs δ → Option (Fs δ × α)) :
    withAccess fs body = none := by
  rw [withAccess, lockAccess, if_pos hl]
  rfl

theorem plain_withAccess (body : Fs δ → Option (Fs δ × α)) :
    Plain (access fun fs => withAccess fs body : Op δ ι α) fun fs => withAccess fs body :=
  plain_access fun _ hl => withAccess_locked hl body

end Plain

/-! ### The cluster table -/

theorem plain_getClusterVal (c : ℕ) :
    Plain (getClusterVal c : Op δ ι ℕ) fun fs => Tfs.getClusterVal fs c := plain_withAccess _

theorem plain_setClusterVal (c v : ℕ) :
    Plain (setClusterVal c v : Op δ ι Unit)
      fun fs => (Tfs.setClusterVal fs c v).map fun fs => (fs, ()) := by
  refine plain_access fun fs hl => ?_
  rw [Tfs.setClusterVal, withAccess_locked hl]
  rfl

theorem plain_getNextCluster (c : ℕ) :
    Plain (getNextCluster c : Op δ ι (Option ℕ)) fun fs => Tfs.getNextCluster fs c :=
  ((plain_pure none).ite _ ((plain_getClusterVal c).bind fun _ => plain_pure _)).congr
    fun _ => rfl

theorem plain_linkCluster (c d : ℕ) :
    Plain (linkCluster c d : Op δ ι Bool) fun fs => Tfs.linkCluster fs c d := by
  refine ((plain_pure false).ite _ ((plain_setClusterVal c d).bind fun _ => plain_pure _)).congr ?_
  intro fs
  rw [Tfs.linkCluster]
  congr 1
  rcases Tfs.setClusterVal fs c d with _ | fs₁
  · rfl
  · rfl

theorem plain_markClusterLast (c : ℕ) :
    Plain (markClusterLast c : Op δ ι Unit)
      fun fs => (Tfs.markClusterLast fs c).map fun fs => (fs, ()) := plain_setClusterVal c _

theorem plain_markClusterFree (c : ℕ) :
    Plain (markClusterFree c : Op δ ι Unit)
      fun fs => (Tfs.markClusterFree fs c).map fun fs => (fs, ()) := by
  refine Plain.await ?_ ?_
  · intro x
    rw [Prog.atomic, Prog.alone]
    dsimp only
    rcases Tfs.markClusterFree x.fs c with _ | fs₁
    · rfl
    · rfl
  · intro fs hl
    rw [Tfs.markClusterFree, Tfs.setClusterVal, withAccess_locked hl]
    rfl

theorem plain_reserveLoop (h : ℕ) (l : List ℕ) :
    Plain (reserveLoop h l : Op δ ι (Option ℕ)) fun fs =>
      match l.find? (fun i => fs.ftbl.clusterTbl i = freeCluster) with
      | none => some (unlockAccess fs, none)
      | some i => some (unlockAccess (setCluster fs i reservedCluster), some i) := by
  induction l with
  | nil => exact (plain_atomic _).bind fun _ => plain_pure none
  | cons i l ih =>
    intro x
    rw [reserveLoop, Prog.alone, alone_bind]
    dsimp only
    rw [List.find?_cons]
    by_cases hfree : x.fs.ftbl.clusterTbl i = freeCluster
    · simp [Prog.atomic, Prog.alone, hfree, alone_bind, atomic]
    · simpa [Prog.atomic, Prog.alone, hfree] using ih x

theorem plain_reserveCluster (h : ℕ) :
    Plain (reserveCluster h : Op δ ι (Option ℕ)) Tfs.reserveCluster := by
  have hloop := (plain_atomic (ι := ι) fun fs : Fs δ => (lockAccess fs).map fun fs => (fs, ())).bind
    fun _ => plain_reserveLoop h (List.range clustersCount)
  refine Plain.await (hloop.congr ?_) fun fs hl => withAccess_locked hl _
  intro fs
  rw [Tfs.reserveCluster, withAccess]
  rcases lockAccess fs with _ | fs₁
  · rfl
  · simp only [Option.map_some, Option.bind_some, Option.bind_eq_bind]
    cases (List.range clustersCount).find? fun i => fs₁.ftbl.clusterTbl i = freeCluster with
    | none => rfl
    | some i => rfl

theorem plain_clusterWalk (left c : ℕ) :
    Plain (clusterWalk left c : Op δ ι (Bool × ℕ)) fun fs => Tfs.clusterWalk fs left c := by
  induction left generalizing c with
  | zero => exact plain_pure _
  | succ left ih =>
    intro x
    refine (plain_getNextCluster c).step x fun x' next _ => ?_
    cases next with
    | none => rfl
    | some d => exact ih d x'

/-! ### Files -/

theorem plain_setError (e : ErrCode) :
    Plain (setError e : Op δ ι Unit) fun fs => some (Tfs.setError fs e, ()) := plain_atomic _

theorem plain_getFdCtl (h : ℕ) :
    Plain (getFdCtl h : Op δ ι (Fd × Ctl)) fun fs => Tfs.getFdCtl fs h := plain_withAccess _

theorem plain_editCtl (h : ℕ) (f : Fs δ → Ctl) :
    Plain (editCtl h f : Op δ ι Unit)
      fun fs => withAccess fs fun fs => some (setCtl fs h (f fs), ()) := plain_withAccess _

theorem plain_noteEof (h : ℕ) (atEnd : Bool) :
    Plain (noteEof h atEnd : Op δ ι Unit)
      fun fs => (Tfs.noteEof fs h atEnd).map fun fs => (fs, ()) := by
  intro x
  show _ = (Tfs.noteEof x.fs h atEnd).map fun fs => (fs, ())
  rw [noteEof, Tfs.noteEof]
  cases atEnd with
  | false => rfl
  | true =>
    have hedit : _ = withAccess x.fs _ :=
      plain_editCtl h (fun fs => { fs.fileCtl h with eofWhileRead := true }) x
    rw [if_pos rfl, if_pos rfl, hedit]
    rcases withAccess x.fs fun fs => some (setCtl fs h { fs.fileCtl h with eofWhileRead := true }, ())
      with _ | r
    · rfl
    · rfl

theorem plain_readCluster (port : Port δ) (c off n : ℕ) :
    Plain (access fun fs => readCluster port fs c off n : Op δ ι (ℤ × ℕ × List UInt8))
      fun fs => readCluster port fs c off n := plain_withAccess _

theorem plain_readLoop (port : Port δ) (h total fuel c off got n : ℕ) :
    Plain (readLoop port h total fuel c off got n : Op δ ι (Bool × ℕ × List UInt8))
      fun fs => Tfs.readLoop port h total fuel fs c off got n := by
  induction fuel generalizing c off got n with
  | zero => exact plain_atomic _
  | succ fuel ih =>
    intro x
    show _ = Tfs.readLoop port h total (fuel + 1) x.fs c off got n
    rw [Tfs.readLoop]
    refine (plain_readCluster port c off n).step x ?_
    rintro x₁ ⟨ret, tmp, data⟩ -
    dsimp only
    by_cases htmp : tmp = 0
    · rw [if_pos htmp, if_pos htmp]
      rfl
    rw [if_neg htmp, if_neg htmp]
    refine (plain_editCtl h _).step x₁ fun x₂ _ _ => ?_
    dsimp only
    by_cases hend : got + tmp ≥ total
    · rw [if_pos hend, if_pos hend]
      rfl
    rw [if_neg hend, if_neg hend]
    refine (plain_getNextCluster c).step x₂ ?_
    rintro x₃ next -
    dsimp only
    cases next with
    | none => rfl
    | some d =>
      refine (ih d 0 (got + tmp) (total - (got + tmp))).step x₃ ?_
      rintro x₄ ⟨ok, all, rest⟩ -
      rfl

/-! ### Writing and deleting -/

/-- A search for the next cluster that marks the current one when there is none. -/
theorem plain_orLast {p : Op δ ι (Option ℕ)} {f : Fs δ → Option (Fs δ × Option ℕ)}
    (hp : Plain p f) (c : ℕ) :
    Plain (p >>= fun next => match next with
        | none => do
          markClusterLast c
          return none
        | some next => return some next)
      fun fs => do
        let (fs, next) ← f fs
        match next with
        | none =>
          let fs ← Tfs.markClusterLast fs c
          return (fs, none)
        | some next => return (fs, some next) := by
  intro x
  dsimp only
  refine hp.step x fun x₁ next _ => ?_
  dsimp only
  cases next with
  | some d => rfl
  | none => exact (plain_markClusterLast c).unitStep x₁ fun _ => rfl

theorem plain_nextForWrite (h : ℕ) (pastEnd : Bool) (c : ℕ) :
    Plain (nextForWrite h pastEnd c : Op δ ι (Option ℕ))
      fun fs => Tfs.nextForWrite fs pastEnd c := by
  cases pastEnd with
  | true => exact plain_orLast (plain_reserveCluster h) c
  | false => exact plain_orLast (plain_getNextCluster c) c

/-- The last round, with the size and the seek pointer it looks at. -/
theorem plain_endWrite (h c : ℕ) (grown : Bool) :
    Plain (endWrite h c grown : Op δ ι Unit) fun fs =>
      (if grown then Tfs.markClusterLast (setFd fs h { fs.ftbl.fileFsDesc h with
        size := (fs.fileCtl h).seekPointer }) c else some fs).map fun fs => (fs, ()) := by
  refine (((plain_atomic _).bind fun _ => plain_markClusterLast c).ite (grown = true)
    (plain_pure ())).congr fun fs => ?_
  cases grown with
  | false => rfl
  | true => rfl

theorem plain_writeCluster (port : Port δ) (c off : ℕ) (src : List UInt8) (n : ℕ) :
    Plain (access fun fs => writeCluster port fs c off src n : Op δ ι (ℤ × ℕ))
      fun fs => writeCluster port fs c off src n := plain_withAccess _

theorem plain_writeLoop (port : Port δ) (h fuel c off : ℕ) (src : List UInt8) (n : ℕ) :
    Plain (writeLoop port h fuel c off src n : Op δ ι (ℕ × ℤ))
      fun fs => Tfs.writeLoop port h fuel fs c off src n := by
  induction fuel generalizing c off src n with
  | zero => exact plain_atomic _
  | succ fuel ih =>
    intro x
    show _ = Tfs.writeLoop port h (fuel + 1) x.fs c off src n
    rw [Tfs.writeLoop]
    refine (plain_writeCluster port c off src n).step x ?_
    rintro x₁ ⟨ret, tmp⟩ -
    dsimp only
    refine (plain_editCtl h _).step x₁ fun x₂ _ _ => ?_
    dsimp only
    refine (plain_atomic _).okStep x₂ rfl fun x₃ hfs => ?_
    rw [← hfs]
    by_cases hdone : n - tmp = 0
    · rw [if_pos hdone, if_pos hdone]
      by_cases hpast : (x₃.fs.fileCtl h).seekPointer > (x₃.fs.ftbl.fileFsDesc h).size
      · rw [decide_eq_true hpast, if_pos hpast]
        exact (plain_endWrite h c true).unitStep x₃ fun _ => rfl
      · rw [decide_eq_false hpast, if_neg hpast]
        rfl
    rw [if_neg hdone, if_neg hdone]
    refine (plain_nextForWrite h _ c).step x₃ ?_
    rintro x₄ next -
    dsimp only
    cases next with
    | none => rfl
    | some d =>
      dsimp only [Option.bind_some]
      by_cases hret : ret ≠ 0
      · rw [if_pos hret, if_pos hret]
        rfl
      rw [if_neg hret, if_neg hret]
      refine (plain_linkCluster c d).step x₄ ?_
      rintro x₅ linked -
      dsimp only
      exact ih d 0 _ _ x₅

theorem plain_writeStart (h : ℕ) (fd : Fd) (ctl : Ctl) :
    Plain (writeStart h fd ctl : Op δ ι (Option ℕ)) fun fs => Tfs.writeStart fs fd ctl := by
  intro x
  show _ = Tfs.writeStart x.fs fd ctl
  rw [writeStart, Tfs.writeStart, Tfs.getClusterSeekPt]
  by_cases hnew : ctl.seekPointer = fd.size ∧ ctl.seekPointer % clusterSize = 0
  · rw [if_pos hnew, if_pos hnew]
    by_cases hpos : ctl.seekPointer > 0
    · rw [if_pos hpos, if_pos hpos]
      refine (plain_clusterWalk _ _).step x ?_
      rintro x₁ ⟨arrived, c⟩ -
      dsimp only
      by_cases harr : arrived = false
      · rw [if_pos harr, if_pos harr]
        rfl
      rw [if_neg harr, if_neg harr]
      refine (plain_reserveCluster h).step x₁ ?_
      rintro x₂ first -
      dsimp only
      cases first with
      | none => rfl
      | some d => exact (plain_linkCluster c d).step x₂ fun _ _ _ => rfl
    · rw [if_neg hpos, if_neg hpos]
      exact plain_reserveCluster h x
  · rw [if_neg hnew, if_neg hnew]
    refine (plain_clusterWalk _ _).step x ?_
    rintro x₁ ⟨arrived, c⟩ -
    dsimp only
    rfl

theorem plain_setFirst (h first : ℕ) :
    Plain (setFirst h first : Op δ ι Unit) fun fs => withAccess fs fun fs =>
      let fd := fs.ftbl.fileFsDesc h
      some (if fd.firstCluster ≥ clustersCount then
        setFd fs h { fd with firstCluster := first } else fs, ()) := plain_withAccess _

theorem plain_ffirst (name : Option (List UInt8)) :
    Plain (ffirst name : Op δ ι (Option ℕ)) fun fs => Tfs.ffirst fs name := by
  cases name with
  | none => exact plain_atomic fun fs => Tfs.ffirst fs none
  | some name =>
    rw [ffirst]
    by_cases hbad : jollyPos name ≥ maxFilenameLength ∨
        checkFileName (strncpy name (jollyPos name)) = false
    · rw [if_pos hbad]
      exact plain_atomic _
    · rw [if_neg hbad]
      refine plain_access fun fs hl => ?_
      rw [not_or] at hbad
      rw [Tfs.ffirst, if_neg hbad.1, if_neg hbad.2]
      exact withAccess_locked hl _

theorem plain_deleteLoop (fuel c : ℕ) :
    Plain (deleteLoop fuel c : Op δ ι Unit)
      fun fs => (Tfs.deleteLoop fuel fs c).map fun fs => (fs, ()) := by
  induction fuel generalizing c with
  | zero => exact plain_atomic _
  | succ fuel ih =>
    intro x
    show _ = (Tfs.deleteLoop (fuel + 1) x.fs c).map fun fs => (fs, ())
    rw [Tfs.deleteLoop]
    refine ((plain_getNextCluster c).step x ?_).trans Option.map_bind.symm
    rintro x₁ next -
    -- the rest of the loop after a cluster
    have hrest : ∀ x₂ : Shared δ ι, (Prog.alone (.yield (match next with
          | none => pure ()
          | some next => deleteLoop fuel next)) x₂).map (fun r => (r.1.fs, r.2))
        = (match next with
          | none => some x₂.fs
          | some next => Tfs.deleteLoop fuel x₂.fs next).map fun fs => (fs, ()) := by
      intro x₂
      cases next with
      | none => rfl
      | some d => exact ih d x₂
    dsimp only [Function.comp_apply]
    by_cases hc : c < clustersCount
    · rw [if_pos hc, if_pos hc]
      exact ((plain_markClusterFree c).unitStep x₁ hrest).trans Option.map_bind.symm
    · rw [if_neg hc, if_neg hc]
      exact hrest x₁

theorem plain_eraseFd (h : ℕ) :
    Plain (eraseFd h : Op δ ι ℕ) fun fs => withAccess fs fun fs =>
      some (setFd fs h { Fd.zero with erased := 1 }, (fs.ftbl.fileFsDesc h).firstCluster) :=
  plain_withAccess _

theorem eraseFd_eq {fs : Fs δ} (hl : fs.lock = false) (h : ℕ) :
    withAccess fs (fun fs =>
      some (setFd fs h { Fd.zero with erased := 1 }, (fs.ftbl.fileFsDesc h).firstCluster))
      = some (setFd fs h { Fd.zero with erased := 1 }, (fs.ftbl.fileFsDesc h).firstCluster) :=
  withAccess_eq hl hl rfl

section Calls

variable [DecidableEq ι] {port : Port δ} {t : ι}

theorem plain_lockFile (h : ℕ) :
    Plain (lockFile t h : Op δ ι Bool) fun fs => some (Tfs.lockFile fs h) := fun _ => rfl

theorem plain_unlockFile (h : ℕ) :
    Plain (unlockFile t h : Op δ ι Unit) fun fs => some ((Tfs.unlockFile fs h).1, ()) :=
  fun _ => rfl

theorem seekTo_alone {x : Shared δ ι} (hl : x.fs.lock = false) (h : ℕ) {f : Fs δ → ℕ}
    (hf : f { x.fs with lock := true } = f x.fs) :
    ((seekTo t h f).alone x).map (fun r => (r.1.fs, r.2))
      = some ((Tfs.unlockFile (setCtl x.fs h
          { x.fs.fileCtl h with seekPointer := f x.fs }) h).1, true) := by
  have hedit : withAccess x.fs (fun fs =>
      some (setCtl fs h { fs.fileCtl h with seekPointer := f fs }, ()))
      = some (setCtl x.fs h { x.fs.fileCtl h with seekPointer := f x.fs }, ()) := by
    refine withAccess_eq hl hl ?_
    rw [hf]
    rfl
  refine (plain_editCtl h _).okStep x hedit fun x₁ hfs => ?_
  rw [← hfs]
  rfl

theorem plain_seekFail (h : ℕ) :
    Plain (seekFail t h : Op δ ι Bool)
      fun fs => some ((Tfs.unlockFile (Tfs.setError fs .seekFailed) h).1, false) :=
  (plain_setError _).bind fun _ => (plain_unlockFile h).bind fun _ => plain_pure false

/-- What the second look at a file sees, where nothing happens in between. -/
theorem getFdCtl_some {fs fs' : Fs δ} {h : ℕ} {fd : Fd} {ctl : Ctl}
    (hget : Tfs.getFdCtl fs h = some (fs', fd, ctl)) :
    fs.lock = false ∧ fs' = fs ∧ fd = fs.ftbl.fileFsDesc h ∧ ctl = fs.fileCtl h := by
  cases hl : fs.lock with
  | true =>
    rw [Tfs.getFdCtl, withAccess_locked hl] at hget
    cases hget
  | false =>
    rw [getFdCtl_eq hl] at hget
    cases hget
    exact ⟨rfl, rfl, rfl, rfl⟩

theorem plain_seekFile (code : SeekCode) (pos : ℤ) (h : ℕ) :
    Plain (seekFile t code pos h : Op δ ι Bool) fun fs => Tfs.seekFile fs code pos h := by
  intro x
  rcases hlock : Tfs.lockFile x.fs h with ⟨fs₁, ok⟩
  refine (plain_lockFile h).okStep x (congrArg some hlock) fun x₁ hfs₁ => ?_
  show _ = Tfs.seekFile x.fs code pos h
  rw [Tfs.seekFile, hlock, ← hfs₁]
  cases ok with
  | false => rfl
  | true =>
    dsimp only
    refine (plain_getFdCtl h).step x₁ ?_
    rintro x₂ ⟨fd, ctl⟩ hget
    dsimp only
    obtain ⟨hl, hfs, rfl, rfl⟩ := getFdCtl_some hget
    have hl₂ : x₂.fs.lock = false := hfs ▸ hl
    rw [← hfs]
    have hedit := fun p => withAccess_setCtl hl₂ h fun ctl => { ctl with seekPointer := p }
    cases code with
    | begin =>
      by_cases hin : 0 < pos ∧ pos < ((x₂.fs.ftbl.fileFsDesc h).size : ℤ)
      · simp only [Option.bind_eq_bind, Option.bind_some, if_pos hin, hedit]
        exact seekTo_alone hl₂ h rfl
      · simp only [if_neg hin]
        rw [Prog.alone, unlocked, hl₂]
        exact plain_seekFail h x₂
    | current =>
      simp only [Option.bind_eq_bind, Option.bind_some, hedit]
      exact seekTo_alone hl₂ h rfl
    | fromEnd =>
      simp only [Option.bind_eq_bind, Option.bind_some, hedit]
      exact seekTo_alone hl₂ h rfl
    | invalid => exact plain_seekFail h x₂

theorem plain_readFile (rbytes h : ℕ) :
    Plain (readFile port t rbytes h : Op δ ι (Bool × ℕ × List UInt8))
      fun fs => Tfs.readFile port fs rbytes h := by
  intro x
  rcases hlock : Tfs.lockFile x.fs h with ⟨fs₁, ok⟩
  refine (plain_lockFile h).okStep x (congrArg some hlock) fun x₁ hfs₁ => ?_
  show _ = Tfs.readFile port x.fs rbytes h
  rw [Tfs.readFile, hlock, ← hfs₁]
  cases ok with
  | false => rfl
  | true =>
    dsimp only
    refine (plain_getFdCtl h).step x₁ ?_
    rintro x₂ ⟨fd, ctl⟩ -
    dsimp only
    by_cases hbad : ctl.isOpen = false ∨ ctl.seekPointer ≥ fd.size
    · rw [if_pos hbad, if_pos hbad]
      rfl
    rw [if_neg hbad, if_neg hbad]
    rw [Tfs.getClusterSeekPt]
    refine (plain_clusterWalk _ _).step x₂ ?_
    rintro x₃ ⟨arrived, c⟩ -
    dsimp only
    by_cases harr : arrived = false
    · rw [if_pos harr, if_pos harr]
      rfl
    rw [if_neg harr, if_neg harr]
    refine (plain_noteEof h _).unitStep x₃ fun x₄ => ?_
    refine (plain_readLoop port h _ _ c _ 0 _).step x₄ ?_
    rintro x₅ ⟨ok, got, data⟩ -
    dsimp only
    rfl

theorem plain_writeFile (src : List UInt8) (wbytes h : ℕ) :
    Plain (writeFile port t src wbytes h : Op δ ι (Bool × ℕ))
      fun fs => Tfs.writeFile port fs src wbytes h := by
  intro x
  rcases hlock : Tfs.lockFile x.fs h with ⟨fs₁, ok⟩
  refine (plain_lockFile h).okStep x (congrArg some hlock) fun x₁ hfs₁ => ?_
  show _ = Tfs.writeFile port x.fs src wbytes h
  rw [Tfs.writeFile, hlock, ← hfs₁]
  cases ok with
  | false => rfl
  | true =>
    dsimp only
    refine (plain_getFdCtl h).step x₁ ?_
    rintro x₂ ⟨fd, ctl⟩ -
    dsimp only
    by_cases hbad : fd.readonly ≠ 0 ∨ ctl.fileOpenMode ≠ .write ∨ ctl.isOpen = false
    · rw [if_pos hbad, if_pos hbad]
      rfl
    rw [if_neg hbad, if_neg hbad]
    by_cases hpast : ctl.seekPointer > fd.size
    · rw [if_pos hpast, if_pos hpast]
      rfl
    rw [if_neg hpast, if_neg hpast]
    refine (plain_writeStart h fd ctl).step x₂ ?_
    rintro x₃ first -
    dsimp only
    cases first with
    | none => rfl
    | some first =>
      dsimp only [Option.bind_some]
      refine (plain_writeLoop port h _ first _ src wbytes).step x₃ ?_
      rintro x₄ ⟨tot, ret⟩ -
      dsimp only
      by_cases hret : ret ≠ 0
      · rw [if_pos hret, if_pos hret]
        rfl
      rw [if_neg hret, if_neg hret]
      refine (plain_setFirst h first).step x₄ ?_
      rintro x₅ _ -
      dsimp only
      rfl

theorem plain_deleteFile (name : Option (List UInt8)) :
    Plain (deleteFile port t name : Op δ ι Bool) fun fs => Tfs.deleteFile port fs name := by
  intro x
  show _ = Tfs.deleteFile port x.fs name
  rw [Tfs.deleteFile]
  refine (plain_ffirst name).step x fun x₁ found _ => ?_
  dsimp only
  cases found with
  | none => rfl
  | some h =>
    dsimp only [Option.bind_eq_bind, Option.bind_some]
    rcases hlock : Tfs.lockFile x₁.fs h with ⟨fs₂, ok⟩
    refine (plain_lockFile h).okStep x₁ (congrArg some hlock) fun x₂ hfs₂ => ?_
    rw [← hfs₂]
    cases ok with
    | false => rfl
    | true =>
      dsimp only
      refine (plain_getFdCtl h).step x₂ ?_
      rintro x₃ ⟨fd, ctl⟩ hget
      dsimp only
      obtain ⟨hl, hfs, rfl, -⟩ := getFdCtl_some hget
      have hl₃ : x₃.fs.lock = false := hfs ▸ hl
      rw [← hfs]
      by_cases hbad : (x₃.fs.ftbl.fileFsDesc h).erased ≠ 0 ∨ (x₃.fs.ftbl.fileFsDesc h).readonly ≠ 0
      · rw [if_pos hbad, if_pos hbad]
        rfl
      rw [if_neg hbad, if_neg hbad, withAccess_setFd hl₃ h fun _ => { Fd.zero with erased := 1 }]
      dsimp only [Option.bind_some]
      refine (plain_eraseFd h).okStep x₃ (eraseFd_eq hl₃ h) fun x₄ hfs₄ => ?_
      rw [← hfs₄]
      refine (plain_deleteLoop _ _).unitStep x₄ fun x₅ => ?_
      exact (plain_atomic _).step x₅ fun _ _ _ => rfl

end Calls

end Task

/-- The call of the interface. -/
def TaskCall.toCall : TaskCall → Call
  | .readFile rbytes h => .readFile rbytes h
  | .writeFile data h => .writeFile data h
  | .seekFile code seekpos h => .seekFile code seekpos h
  | .deleteFile name => .deleteFile name

/-- **A call without other tasks** does what it does in a run of calls that do not
overlap. -/
theorem TaskCall.plain {δ ι : Type} [DecidableEq ι] (port : Port δ) (t : ι) (c : TaskCall) :
    Task.Plain (c.code port t) fun fs => c.toCall.exec port fs := by
  have hstart : ∀ {p : Task.Op δ ι Bool} {f : Fs δ → Option (Fs δ × Bool)}, Task.Plain p f →
      Task.Plain (Task.outside t >>= fun _ => p) f := fun hp x => hp _
  cases c with
  | readFile rbytes h =>
    refine hstart (((Task.plain_readFile rbytes h).bind fun r =>
      Task.plain_pure r.1).congr fun fs => ?_)
    show _ = (Tfs.readFile port fs rbytes h).map fun r => (r.1, r.2.1)
    rcases Tfs.readFile port fs rbytes h with _ | r
    · rfl
    · rfl
  | writeFile data h =>
    refine hstart (((Task.plain_writeFile data data.length h).bind fun r =>
      Task.plain_pure r.1).congr fun fs => ?_)
    show _ = (Tfs.writeFile port fs data data.length h).map fun r => (r.1, r.2.1)
    rcases Tfs.writeFile port fs data data.length h with _ | r
    · rfl
    · rfl
  | seekFile code seekpos h => exact hstart (Task.plain_seekFile code seekpos h)
  | deleteFile name => exact hstart (Task.plain_deleteFile name)

end Tfs
