/-
The pointers of the kernel.

`current_task` is moved by the selection loop and by RT tasks that ask for a deferred
call; `task_context_ptr` follows it at the task state machine.  Neither ever means the
idle task while code other than the scheduler runs, so that the descriptor of the idle
task stays as `scheduler_init` made it.

* `step_pointer`, `step_taskContextPtr` — what one step does to the two.
* `Reachable.control` — what holds of them, and of the idle slot, in every state.
-/
import Mipos.KernelTasks

namespace Kernel

variable {w : ℕ} {env env' env₁ env₂ : Env} {act : Act} {t : ℕ}

/-! ### The pointer `current_task` -/

/-- The slot that the next round of the loop comes to. -/
def Env.nextTask (env : Env) : ℕ := (env.currentTask + 1) % tasksTblEntriesCnt

/-- The processor is in the selection loop. -/
def Pc.selecting : Pc → Bool
  | .select _ => true
  | .inRt _ => true
  | _ => false

/-- What a step does to `current_task`. -/
inductive PointerStep (env : Env) (act : Act) : Env → Prop
  | keep {env' : Env} (hact : act ≠ .sched) (hpc : env'.pc = env.pc)
      (hcur : env'.currentTask = env.currentTask)
      (htable : env.pc.inUserCode = false → env'.taskTable = env.taskTable) :
      PointerStep env act env'
  | other {env' : Env} (hpc : env.pc.selecting = false) (hpc' : ∀ n, env'.pc ≠ .inRt n)
      (htsm : env'.pc ≠ .tsm) (hcur : env'.currentTask = env.currentTask) :
      PointerStep env act env'
  | call {n : ℕ} (hact : act = .sched) (hpc : env.pc = .select n)
      (hrt : (env.taskTable env.nextTask).rtTask = true) :
      PointerStep env act { env with currentTask := env.nextTask, pc := .inRt (n + 1) }
  | round {n : ℕ} (hact : act = .sched) (hpc : env.pc = .select n)
      (hrt : (env.taskTable env.nextTask).rtTask = false) :
      PointerStep env act (({ env with currentTask := env.nextTask } : Env).selectEnd (n + 1))
  | rtReturn {n : ℕ} (hact : act ≠ .sched) (hpc : env.pc = .inRt n) :
      PointerStep env act ((env.setTask env.currentTask
        { env.taskTable env.currentTask with taskRetValue := 0 }).selectEnd n)
  | promote {n : ℕ} {env' : Env} (hprom : Promotes env act env'.currentTask)
      (hcur : env'.currentTask < tasksTblEntriesCnt) (hpc : env.pc = .inRt n)
      (hne : env'.currentTask ≠ idleTaskId) (hpc' : ∀ n, env'.pc ≠ .inRt n) :
      PointerStep env act env'

theorem TimerVisit.pc_ne_inRt {timers timers' : Timers} {rtcCounter id : ℕ} {pc : Pc}
    (hv : TimerVisit timers rtcCounter id timers' pc) (n : ℕ) : pc ≠ .inRt n := by
  cases hv with
  | last _ => simp
  | pass _ _ => simp
  | cancel _ _ hpc => rcases hpc with rfl | rfl <;> simp
  | expire _ _ => simp

/-- The task state machine points `task_context_ptr` to the selected task. -/
theorem visitTask_control (hs : env.visitTask = some env') :
    env'.currentTask = env.currentTask ∧ env'.taskContextPtr = env.currentTask ∧
      (env'.pc = .epoch ∨ env'.pc = .running ∨ env'.pc = .panic) := by
  rw [Env.visitTask] at hs
  dsimp only at hs
  split at hs
  · cases hs
    exact ⟨rfl, rfl, .inl rfl⟩
  · split at hs
    · cases hs
      exact ⟨rfl, rfl, .inl rfl⟩
    · split at hs
      · obtain ⟨hpc, hcur, hptr, -⟩ := dispatch_cases hs
        exact ⟨hcur, hptr, .inr (.inl hpc)⟩
      · cases hs
        exact ⟨rfl, rfl, .inr (.inr rfl)⟩

theorem selectEnd_ne_inRt (env : Env) (n m : ℕ) : (env.selectEnd n).pc ≠ .inRt m := by
  rcases selectEnd_pc env n with h | h | h | ⟨h, -⟩ <;> rw [h] <;> simp

theorem sched_pointer (hs : env.sched = some env') : PointerStep env .sched env' := by
  rw [Env.sched] at hs
  split at hs
  · rename_i hpc
    cases hs
    refine .other (by rw [hpc]; rfl) ?_ ?_ rfl
    · intro n
      dsimp only
      split <;> simp
    · dsimp only
      split <;> simp
  · rename_i id hpc
    obtain ⟨timers, pc, rfl, hv⟩ := visitTimer_cases hs
    exact .other (by rw [hpc]; rfl) hv.pc_ne_inRt hv.pc_ne.2.1 rfl
  · rename_i n hpc
    rw [Env.selectRound] at hs
    dsimp only at hs
    split at hs
    · rename_i hrt
      split at hs
      · cases hs
        exact .call rfl hpc hrt
      · cases hs
    · rename_i hrt
      cases hs
      exact .round rfl hpc (Bool.not_eq_true _ ▸ hrt)
  · rename_i hpc
    obtain ⟨hcur, -, hpc'⟩ := visitTask_control hs
    refine .other (by rw [hpc]; rfl) ?_ ?_ hcur
    · intro n h
      simp [h] at hpc'
    · intro h
      simp [h] at hpc'
  · cases hs

/-- **What one step does to `current_task`.** -/
theorem step_pointer (hs : step w env act = some env') : PointerStep env act env' := by
  cases act with
  | sched => exact sched_pointer hs
  | updateRtc quantum =>
    cases hs
    exact .keep (by simp) rfl rfl fun _ => rfl
  | api call =>
    obtain ⟨huser, hs⟩ := step_api hs
    have hc := api_sameControl hs
    exact .keep (by simp) hc.pc hc.currentTask fun h => by rw [huser] at h; cases h
  | block call =>
    obtain ⟨hpc, rfl⟩ := step_block hs
    refine .other (by rw [hpc]; rfl) ?_ ?_ ?_
    · intro n h
      rcases block_pc w hpc call with h' | h' <;> simp [h'] at h
    · intro h
      rcases block_pc w hpc call with h' | h' <;> simp [h'] at h
    · exact (block_pointers w call).2
  | ret value =>
    rw [step, Env.ret] at hs
    split at hs
    · rename_i hpc
      cases hs
      exact .other (by rw [hpc]; rfl) (by simp) (by simp) rfl
    · rename_i hpc
      cases hs
      exact .other (by rw [hpc]; rfl) (by simp) (by simp) rfl
    · rename_i n hpc
      rw [Env.rtReturn] at hs
      split at hs
      · rename_i hzero
        cases hs
        rw [hzero]
        exact .rtReturn (by simp) hpc
      · split at hs
        · rename_i hvalue
          cases hs
          refine .promote ⟨n, hpc, ?_⟩ ?_ hpc ?_ (selectEnd_ne_inRt _ n)
          · rw [selectEnd_currentTask, setTask_currentTask]
            show Act.ret value = Act.ret (value.toNat : ℤ)
            rw [Int.toNat_of_nonneg (by omega)]
          · rw [selectEnd_currentTask, setTask_currentTask]
            show value.toNat < tasksTblEntriesCnt
            omega
          · rw [selectEnd_currentTask, setTask_currentTask]
            show value.toNat ≠ idleTaskId
            rw [idleTaskId]
            omega
        · cases hs
    · rename_i hpc
      cases hs
      exact .other (by rw [hpc]; rfl) (by simp) (by simp) rfl
    · rename_i hpc
      cases hs
      exact .other (by rw [hpc]; rfl) (by simp) (by simp) rfl
    · cases hs

/-- The state in which an RT task has asked for `t`, before the loop goes on. -/
def Env.asked (env : Env) (t : ℕ) : Env :=
  let stored := env.setTask env.currentTask
    { env.taskTable env.currentTask with taskRetValue := (t : ℤ) }
  ({ stored with currentTask := t } : Env).setTask t (stored.taskTable t).promote

/-- The step in which an RT task asks for `t`. -/
theorem Promotes.step_eq (hprom : Promotes env act t) (hne : t ≠ idleTaskId)
    (hs : step w env act = some env') :
    t < tasksTblEntriesCnt ∧ ∃ n, env.pc = .inRt n ∧ env' = (env.asked t).selectEnd n := by
  obtain ⟨n, hpc, rfl⟩ := hprom
  have hpos : ¬(t : ℤ) = 0 := by exact_mod_cast hne
  rw [step, Env.ret, hpc] at hs
  dsimp only at hs
  rw [Env.rtReturn, if_neg hpos] at hs
  split at hs
  · rename_i hvalue
    cases hs
    exact ⟨by exact_mod_cast hvalue.2, n, hpc, rfl⟩
  · cases hs

/-- The task that is asked for is set to go on, whatever it was doing. -/
theorem asked_taskTable (env : Env) (t : ℕ) : ∃ value, (env.asked t).taskTable t
    = { ({ env.taskTable t with taskRetValue := value } : Task) with
        wkup := true, status := taskReady } := by
  rcases eq_or_ne t env.currentTask with rfl | hne
  · exact ⟨(env.currentTask : ℤ), by simp [Env.asked, Task.promote]⟩
  · exact ⟨(env.taskTable t).taskRetValue, by simp [Env.asked, Task.promote, hne]⟩

/-! ### The idle slot -/

/-- No identifier means the idle task. -/
theorem getPTask_ne_idle (hptr : env.taskContextPtr ≠ idleTaskId) (id : ℕ) :
    env.getPTask id ≠ some idleTaskId := by
  intro h
  rw [Env.getPTask] at h
  split at h
  · exact hptr (Option.some.inj h)
  · rename_i hid
    split at h
    · exact hid (Option.some.inj h)
    · cases h

theorem freeSlot_pos {id : ℕ} (h : env.freeSlot = some id) :
    id ≠ idleTaskId ∧ id < tasksTblEntriesCnt := by
  have hmem := List.mem_of_find?_eq_some h
  rw [List.mem_range'_1] at hmem
  simp only [tasksTblEntriesCnt, idleTaskId] at hmem ⊢
  omega

/-- A task that is not RT and is ready; the idle task is one. -/
structure ReadyTask (task : Task) : Prop where
  entryPoint : task.entryPoint ≠ none
  rtTask : task.rtTask = false
  status : task.status = taskReady

theorem ReadyTask.skipped {task : Task} (h : ReadyTask task) : task.skipped = false := by
  obtain ⟨hentry, hrt, hstatus⟩ := h
  have hsome := Option.isSome_iff_ne_none.mpr hentry
  simp [Task.skipped, hsome, hrt, hstatus, taskReady, taskNotRunning, taskZombie, taskFrozen]

theorem TaskEdit.idleOk {task task' : Task} (hedit : TaskEdit env act idleTaskId task task')
    (hptr : ∀ call, act = .api call → env.taskContextPtr ≠ idleTaskId) (hok : ReadyTask task) :
    ReadyTask task' := by
  cases hedit with
  | same => exact hok
  | retValue value _ _ => exact ⟨hok.entryPoint, hok.rtTask, hok.status⟩
  | notifySignal _ hact hid | notifyQueue hact _ hid | sigIgnore _ hact hid
  | sigAllow _ hact hid | freeze hact hid | unfreeze hact hid | restart _ hact hid =>
    exact absurd hid (getPTask_ne_idle (hptr _ hact) _)

/-- The idle slot is kept by a step that is not a visit to it, if it does not have the
processor. -/
theorem SlotStep.idleOk {sl sl' : Slot} (hstep : SlotStep env act idleTaskId sl sl')
    (hcpu : sl.onCpu = false) (hvisit : ¬Visits env act idleTaskId)
    (hptr : ∀ call, act = .api call → env.taskContextPtr ≠ idleTaskId) (hok : ReadyTask sl.task) :
    ReadyTask sl'.task := by
  cases hstep with
  | edit hedit => exact hedit.idleOk hptr hok
  | create _ hslot _ => exact absurd rfl (freeSlot_pos hslot).1
  | delete hdel =>
    obtain ⟨id, hact, hid⟩ := hdel
    exact absurd hid (getPTask_ne_idle (hptr _ hact) id)
  | promote _ hne _ => exact absurd rfl hne
  | suspend _ _ _ _ _ => cases hcpu
  | finish _ _ => cases hcpu
  | zombie h _ | visit h _ | begin h _ _ | resume h _ _ _ => exact absurd h hvisit

/-! ### The pointer `task_context_ptr` -/

/-- **What one step does to `task_context_ptr`.** -/
theorem step_taskContextPtr (hs : step w env act = some env') :
    (env'.taskContextPtr = env.taskContextPtr ∧
        (env'.pc = .running → env.pc = .running ∧ env'.currentTask = env.currentTask)) ∨
      (env.pc = .tsm ∧ env'.currentTask = env.currentTask ∧
        env'.taskContextPtr = env.currentTask) := by
  cases act with
  | sched =>
    rw [step, Env.sched] at hs
    split at hs
    · cases hs
      refine .inl ⟨rfl, ?_⟩
      dsimp only
      split <;> simp
    · obtain ⟨timers, pc, rfl, hv⟩ := visitTimer_cases hs
      exact .inl ⟨rfl, fun h => absurd h hv.pc_ne.1⟩
    · rw [Env.selectRound] at hs
      dsimp only at hs
      split at hs
      · split at hs
        · cases hs
          exact .inl ⟨rfl, by simp⟩
        · cases hs
      · cases hs
        exact .inl ⟨selectEnd_taskContextPtr _ _, fun h => absurd h (selectEnd_pc_ne _ _).1⟩
    · rename_i hpc
      obtain ⟨hcur, hptr, -⟩ := visitTask_control hs
      exact .inr ⟨hpc, hcur, hptr⟩
    · cases hs
  | updateRtc quantum =>
    cases hs
    exact .inl ⟨rfl, fun h => ⟨h, rfl⟩⟩
  | api call =>
    obtain ⟨-, hs⟩ := step_api hs
    have hc := api_sameControl hs
    exact .inl ⟨hc.taskContextPtr, fun h => ⟨hc.pc ▸ h, hc.currentTask⟩⟩
  | block call =>
    obtain ⟨hpc, rfl⟩ := step_block hs
    exact .inl ⟨(block_pointers w call).1, fun _ => ⟨hpc, (block_pointers w call).2⟩⟩
  | ret value =>
    rw [step, Env.ret] at hs
    split at hs
    · cases hs
      exact .inl ⟨rfl, by simp⟩
    · cases hs
      exact .inl ⟨rfl, by simp⟩
    · rw [Env.rtReturn] at hs
      split at hs
      · cases hs
        exact .inl ⟨selectEnd_taskContextPtr _ _, fun h => absurd h (selectEnd_pc_ne _ _).1⟩
      · split at hs
        · cases hs
          exact .inl ⟨selectEnd_taskContextPtr _ _, fun h => absurd h (selectEnd_pc_ne _ _).1⟩
        · cases hs
    · cases hs
      exact .inl ⟨rfl, by simp⟩
    · cases hs
      exact .inl ⟨rfl, by simp⟩
    · cases hs

/-! ### The start -/

/-- Before the root task is visited for the first time, which is before any other code
runs. -/
structure Booting (env : Env) : Prop where
  root : (env.taskTable 1).rtTask = false ∧ (env.taskTable 1).skipped = false
  timers : ∀ id, env.timers.timerBitmap id = false
  place : ((env.pc = .epoch ∨ env.pc = .select 0) ∧ env.currentTask = idleTaskId) ∨
    (env.pc = .tsm ∧ env.currentTask = 1)

theorem Booting.not_inUserCode (hb : Booting env) : env.pc.inUserCode = false := by
  rcases hb.place with ⟨hpc | hpc, -⟩ | ⟨hpc, -⟩ <;> rw [hpc] <;> rfl

theorem Booting.step (hb : Booting env) (hs : step w env act = some env') :
    Booting env' ∨ env'.taskContextPtr = 1 := by
  have hno := hb.not_inUserCode
  obtain ⟨⟨hrt, hskip⟩, htimers, hplace⟩ := hb
  cases act with
  | sched =>
    rw [Kernel.step, Env.sched] at hs
    rcases hplace with ⟨hpc | hpc, hcur⟩ | ⟨hpc, hcur⟩
    · -- no timer is armed
      have hdue : env.timers.due env.rtcCounter = false := by
        simp [Timers.due, htimers]
      rw [hpc] at hs
      dsimp only at hs
      rw [hdue] at hs
      cases hs
      exact .inl ⟨⟨hrt, hskip⟩, htimers, .inl ⟨.inr rfl, hcur⟩⟩
    · -- the loop comes to the root task first
      have hnext : (env.currentTask + 1) % tasksTblEntriesCnt = 1 := by
        rw [hcur]
        rfl
      rw [hpc] at hs
      dsimp only at hs
      rw [Env.selectRound] at hs
      dsimp only at hs
      rw [hnext, hrt] at hs
      cases hs
      have hend : (({ env with currentTask := 1 } : Env).selectEnd 1)
          = { env with currentTask := 1, pc := .tsm } := by
        rw [Env.selectEnd, if_neg, if_neg]
        · show ¬(1 : ℕ) = idleTaskId
          decide
        · rintro (h | ⟨-, h⟩)
          · rw [hskip] at h
            cases h
          · cases h
      left
      show Booting (({ env with currentTask := 1 } : Env).selectEnd 1)
      rw [hend]
      exact ⟨⟨hrt, hskip⟩, htimers, .inr ⟨rfl, rfl⟩⟩
    · rw [hpc] at hs
      exact .inr ((visitTask_control hs).2.1.trans hcur)
  | updateRtc quantum =>
    cases hs
    exact .inl ⟨⟨hrt, hskip⟩, htimers, hplace⟩
  | api call =>
    rw [Kernel.step, if_neg (by rw [hno]; simp)] at hs
    cases hs
  | block call =>
    rw [Kernel.step, if_neg (by rintro hpc; rw [hpc] at hno; cases hno)] at hs
    cases hs
  | ret value =>
    rw [Kernel.step, Env.ret] at hs
    rcases hplace with ⟨hpc | hpc, -⟩ | ⟨hpc, -⟩
    all_goals
      rw [hpc] at hs
      cases hs

/-! ### Reachable states -/

structure ControlInv (env : Env) : Prop where
  currentTask : env.currentTask < tasksTblEntriesCnt
  taskContextPtr : env.taskContextPtr < tasksTblEntriesCnt
  running : env.pc = .running → env.taskContextPtr = env.currentTask
  booting : env.taskContextPtr = idleTaskId → Booting env
  idle : ReadyTask (env.taskTable idleTaskId)

/-- Code other than the scheduler does not run as the idle task. -/
theorem ControlInv.ptr_ne (hc : ControlInv env) (huser : env.pc.inUserCode = true) :
    env.taskContextPtr ≠ idleTaskId := by
  intro hptr
  rw [(hc.booting hptr).not_inUserCode] at huser
  cases huser

theorem PointerStep.currentTask_lt (hstep : PointerStep env act env')
    (hcur : env.currentTask < tasksTblEntriesCnt) : env'.currentTask < tasksTblEntriesCnt := by
  have hnext : env.nextTask < tasksTblEntriesCnt := Nat.mod_lt _ (by decide)
  cases hstep with
  | keep _ _ h _ => rwa [h]
  | other _ _ _ h => rwa [h]
  | call _ _ _ => exact hnext
  | round _ _ _ => rwa [selectEnd_currentTask]
  | rtReturn _ _ => rwa [selectEnd_currentTask]
  | promote _ h _ _ _ => exact h

/-- One step keeps the invariant. -/
theorem ControlInv.step (hc : ControlInv env) (hi : EnvInv env)
    (hs : step w env act = some env') : ControlInv env' := by
  have hptr := step_taskContextPtr hs
  refine ⟨(step_pointer hs).currentTask_lt hc.currentTask, ?_, ?_, ?_, ?_⟩
  · rcases hptr with ⟨h, -⟩ | ⟨-, -, h⟩
    · rw [h]
      exact hc.taskContextPtr
    · rw [h]
      exact hc.currentTask
  · intro hpc
    rcases hptr with ⟨h, hsame⟩ | ⟨-, hcur, h⟩
    · obtain ⟨hrun, hcur⟩ := hsame hpc
      rw [h, hcur]
      exact hc.running hrun
    · rw [h, hcur]
  · intro hidle
    rcases hptr with ⟨h, -⟩ | ⟨hpc, -, h⟩
    · rcases (hc.booting (h ▸ hidle)).step hs with hb | hone
      · exact hb
      · rw [hone] at hidle
        cases hidle
    · -- the selected task is not the idle task
      exact absurd (h ▸ hidle) (hi.selected hpc).2
  · refine (step_slot hs idleTaskId).idleOk ?_ ?_ ?_ hc.idle
    · simp only [Env.slot, decide_eq_false_iff_not]
      rintro ⟨hpc, hzero⟩
      exact hc.ptr_ne (by rw [hpc]; rfl) hzero
    · rintro ⟨-, hpc, hcur⟩
      exact (hi.selected hpc).2 hcur
    · rintro call rfl
      exact hc.ptr_ne (step_api hs).1

theorem controlInv_start (root param : ℕ) (queues : ℕ → Queue) :
    ControlInv (.start root param queues) := by
  have hzero : 0 < tasksTblEntriesCnt := by decide
  have hroot : ReadyTask ((Env.start root param queues).taskTable 1) :=
    ⟨Option.some_ne_none root, rfl, rfl⟩
  refine ⟨hzero, hzero, fun h => ?_, fun _ => ?_, ?_⟩
  · cases h
  · exact ⟨⟨hroot.rtTask, hroot.skipped⟩, fun _ => rfl, .inl ⟨.inl rfl, rfl⟩⟩
  · exact ⟨Option.some_ne_none 0, rfl, rfl⟩

theorem Reachable.control (hr : Reachable w env) : ControlInv env := by
  obtain ⟨root, param, queues, hrun⟩ := hr
  induction hrun with
  | refl => exact controlInv_start root param queues
  | tail hrun' hstep ih =>
    obtain ⟨act, hs⟩ := hstep
    exact ih.step (Reachable.inv ⟨root, param, queues, hrun'⟩) hs

end Kernel
