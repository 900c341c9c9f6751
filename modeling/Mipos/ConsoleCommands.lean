/-
The console commands for tasks (`exec_ps_command` and `exec_taskdbg_command` of
`mipos_console.c`).

Both look at the slots below `MIPOS_MAX_TASKS_COUNT`, while `mipos_t_create` and
`_mipos_get_p_task` know one more.  Of the table that `ps` prints, the names and the
stacks of the tasks are left out, as in the model of the tasks.

* `atoi_decimal` — what `atoi` makes of a number in decimal.
* `execTaskdbgCommand_eq` — a command for a slot that the console knows.
* `console_reaches_iff` — the console reaches every task just if there is none in the last
  slot.
* `last_slot_unreachable` — a table that is full.
-/
import Mipos.ConsoleLine
import Mipos.KernelContexts

namespace Console

open Kernel

/-! ### The code -/

/-- `MIPOS_MAX_TASKS_COUNT`. -/
def maxTasksCount : ℕ := 7

def isSpace (c : UInt8) : Bool := c == 32 || (9 ≤ c && c ≤ 13)

def isDigit (c : UInt8) : Bool := 48 ≤ c && c ≤ 57

/-- The value of the digits that a string starts with. -/
def digitsValue (s : List UInt8) : ℕ :=
  (s.takeWhile isDigit).foldl (fun value c => 10 * value + (c.toNat - 48)) 0

/-- `atoi`, which is undefined for a number that is no `int`. -/
def atoi (s : List UInt8) : Option ℤ :=
  let s := s.dropWhile isSpace
  let value : ℤ :=
    if s.head? = some 45 then -digitsValue s.tail
    else if s.head? = some 43 then digitsValue s.tail
    else digitsValue s
  if -2 ^ 31 ≤ value ∧ value < 2 ^ 31 then some value else none

/-- The `switch` of `exec_taskdbg_command`: the kernel after it, and what it prints. -/
def taskdbgSwitch (w : ℕ) (env : Env) (argv : List (List UInt8)) (tid : ℕ) :
    Option (Env × List UInt8) :=
  let cmd := (argv.getD 0 []).headD 0
  if cmd = 117 then (env.api w (.tUnfreeze tid)).map fun env => (env, [])
  else if cmd = 102 then (env.api w (.tFreeze tid)).map fun env => (env, [])
  else if cmd = 100 then (env.api w (.tDelete tid)).map fun env => (env, [])
  else if cmd = 115 then
    if argv.length > 2 then do
      let signum ← atoi (argv.getD 2 [])
      (env.api w (.tNotifySignal tid (BitVec.ofInt 8 signum))).map fun env => (env, [])
    else some (env, ascii "\rMissing second parameter\r")
  else some (env, [])

def execTaskdbgCommand (w : ℕ) (env : Env) (argv : List (List UInt8)) :
    Option (Env × List UInt8) := do
  let tid ← if argv.length > 1 then atoi (argv.getD 1 []) else some 0
  if tid > 0 ∧ tid < maxTasksCount then taskdbgSwitch w env argv tid.toNat
  else return (env, ascii "\rMissing first parameter\r")

/-- `mipos_dbg_describe_state`. -/
def describeState (st : BitVec 16) : List UInt8 :=
  ascii (if st &&& taskFrozen ≠ 0 then "frozen"
    else if st = taskNotRunning then "not run"
    else if st = taskReady then "ready"
    else if st = taskRunning then "running"
    else if st = taskSuspended then "suspend"
    else if st = taskZombie then "zombie"
    else "unknown")

/-- A line of the table that `ps` prints. -/
structure PsLine where
  pid : ℕ
  entryPoint : Option ℕ
  psig : BitVec 8
  wsig : BitVec 8
  status : BitVec 16
  state : List UInt8
  deriving DecidableEq, Repr

def psLine (task : Task) (id : ℕ) : PsLine :=
  ⟨id, task.entryPoint, task.signalPending, task.signalWaiting, task.status,
    describeState task.status⟩

/-- `exec_ps_command`.  It sleeps after each line, so every slot is looked at in a kernel
of its own. -/
def execPsCommand (seen : ℕ → Env) : List PsLine :=
  (List.range' 1 (maxTasksCount - 1)).filterMap fun id =>
    let task := (seen id).taskTable id
    if task.entryPoint.isSome then some (psLine task id) else none

/-! ### Numbers in decimal -/

/-- A number in decimal. -/
def decimal (n : ℕ) : List UInt8 :=
  if n < 10 then [UInt8.ofNat (48 + n)] else decimal (n / 10) ++ [UInt8.ofNat (48 + n % 10)]

theorem isDigit_digit {d : ℕ} (hd : d < 10) : isDigit (UInt8.ofNat (48 + d)) = true := by
  have hnat : (UInt8.ofNat (48 + d)).toNat = 48 + d := by
    rw [UInt8.toNat_ofNat']
    omega
  rw [isDigit, Bool.and_eq_true, decide_eq_true_eq, decide_eq_true_eq, UInt8.le_iff_toNat_le,
    UInt8.le_iff_toNat_le, hnat]
  exact ⟨Nat.le_add_right 48 d, show 48 + d ≤ 57 by omega⟩

theorem toNat_digit {d : ℕ} (hd : d < 10) : (UInt8.ofNat (48 + d)).toNat - 48 = d := by
  rw [UInt8.toNat_ofNat']
  omega

theorem isDigit_of_mem_decimal (n : ℕ) : ∀ c ∈ decimal n, isDigit c = true := by
  induction n using Nat.strong_induction_on with
  | _ n ih =>
    intro c hc
    rw [decimal] at hc
    split at hc
    · rename_i hn
      rw [List.mem_singleton.mp hc]
      exact isDigit_digit hn
    · rename_i hn
      rcases List.mem_append.mp hc with hc | hc
      · exact ih (n / 10) (by omega) c hc
      · rw [List.mem_singleton.mp hc]
        exact isDigit_digit (Nat.mod_lt n (by decide))

theorem digitsValue_decimal (n : ℕ) : digitsValue (decimal n) = n := by
  rw [digitsValue, List.takeWhile_eq_self_iff.mpr (isDigit_of_mem_decimal n)]
  induction n using Nat.strong_induction_on with
  | _ n ih =>
    rw [decimal]
    split
    · rename_i hn
      rw [List.foldl_cons, List.foldl_nil, toNat_digit hn, Nat.mul_zero, Nat.zero_add]
    · rename_i hn
      rw [List.foldl_append, ih (n / 10) (by omega), List.foldl_cons, List.foldl_nil,
        toNat_digit (Nat.mod_lt n (by decide))]
      omega

theorem exists_decimal_cons (n : ℕ) : ∃ c s, decimal n = c :: s := by
  rw [decimal]
  split
  · exact ⟨_, _, rfl⟩
  · exact List.exists_cons_of_ne_nil (by simp)

/-- A digit is neither a blank nor a sign. -/
theorem digit_cases {c : UInt8} (hc : isDigit c = true) :
    isSpace c = false ∧ c ≠ 45 ∧ c ≠ 43 := by
  rw [isDigit, Bool.and_eq_true, decide_eq_true_eq, decide_eq_true_eq, UInt8.le_iff_toNat_le,
    UInt8.le_iff_toNat_le] at hc
  have hlow : 48 ≤ c.toNat := hc.1
  refine ⟨?_, ?_, ?_⟩
  · rw [isSpace, Bool.or_eq_false_iff, Bool.and_eq_false_iff]
    refine ⟨beq_eq_false_iff_ne.mpr ?_, .inr (decide_eq_false fun hle => ?_)⟩
    · rintro rfl
      exact absurd hlow (by decide)
    · have hle : c.toNat ≤ 13 := UInt8.le_iff_toNat_le.mp hle
      omega
  · rintro rfl
    exact absurd hlow (by decide)
  · rintro rfl
    exact absurd hlow (by decide)

/-- **`atoi` reads a number in decimal**, if it is an `int`. -/
theorem atoi_decimal {n : ℕ} (hn : n < 2 ^ 31) : atoi (decimal n) = some (n : ℤ) := by
  obtain ⟨c, s, hcons⟩ := exists_decimal_cons n
  have hdigit := isDigit_of_mem_decimal n c (by rw [hcons]; exact List.mem_cons_self)
  obtain ⟨hspace, hminus, hplus⟩ := digit_cases hdigit
  have hdrop : (decimal n).dropWhile isSpace = decimal n := by
    rw [hcons, List.dropWhile_cons_of_neg (by simp [hspace])]
  have hhead : (decimal n).head? = some c := by
    rw [hcons]
    rfl
  rw [atoi]
  simp only [hdrop, hhead, Option.some.injEq, hminus, hplus, if_false, digitsValue_decimal]
  exact if_pos ⟨by omega, by exact_mod_cast hn⟩

/-! ### The commands -/

variable {w : ℕ} {env : Env} {id : ℕ}

/-- A command for a slot that the console knows. -/
theorem execTaskdbgCommand_eq (hpos : 1 ≤ id) (hlt : id < maxTasksCount) (cmd : List UInt8)
    (args : List (List UInt8)) :
    execTaskdbgCommand w env (cmd :: decimal id :: args)
      = taskdbgSwitch w env (cmd :: decimal id :: args) id := by
  rw [maxTasksCount] at hlt
  have hatoi : atoi (decimal id) = some (id : ℤ) := atoi_decimal (by omega)
  have hrange : (id : ℤ) > 0 ∧ (id : ℤ) < maxTasksCount := by
    rw [maxTasksCount]
    omega
  rw [execTaskdbgCommand, if_pos (by simp), List.getD_cons_succ, List.getD_cons_zero, hatoi]
  dsimp only [Option.bind_eq_bind, Option.bind_some]
  rw [if_pos hrange, Int.toNat_natCast]

/-- A command for any other slot changes nothing. -/
theorem execTaskdbgCommand_refused (hge : maxTasksCount ≤ id) (hint : id < 2 ^ 31)
    (cmd : List UInt8) (args : List (List UInt8)) :
    execTaskdbgCommand w env (cmd :: decimal id :: args)
      = some (env, ascii "\rMissing first parameter\r") := by
  have hrange : ¬((id : ℤ) > 0 ∧ (id : ℤ) < maxTasksCount) := by omega
  rw [execTaskdbgCommand, if_pos (by simp), List.getD_cons_succ, List.getD_cons_zero,
    atoi_decimal hint]
  dsimp only [Option.bind_eq_bind, Option.bind_some]
  rw [if_neg hrange]
  rfl

/-- What an operation of the kernel does to the slot that it is for. -/
theorem modifyTask_eq (hpos : 1 ≤ id) (hlt : id < tasksTblEntriesCnt) (f : Task → Task) :
    env.modifyTask id f = env.setTask id (f (env.taskTable id)) := by
  rw [Env.modifyTask, Env.getPTask, if_neg (by omega), if_pos hlt]

/-- A command that is an operation of the kernel on one task. -/
theorem execTaskdbgCommand_slot (hpos : 1 ≤ id) (hlt : id < maxTasksCount) {cmd : List UInt8}
    {args : List (List UInt8)} {f : Task → Task}
    (hswitch : taskdbgSwitch w env (cmd :: decimal id :: args) id
      = some (env.modifyTask id f, [])) :
    execTaskdbgCommand w env (cmd :: decimal id :: args)
      = some (env.setTask id (f (env.taskTable id)), []) := by
  have htable : id < tasksTblEntriesCnt := Nat.lt_trans hlt (by decide)
  rw [execTaskdbgCommand_eq hpos hlt, hswitch, modifyTask_eq hpos htable]

/-- The slot holds a task, and is not the slot of the idle task. -/
structure HoldsTask (env : Env) (id : ℕ) : Prop where
  not_idle : 1 ≤ id
  in_table : id < tasksTblEntriesCnt
  task : (env.taskTable id).entryPoint.isSome = true

/-- The console lists the slots that hold a task, and no other, and its commands do to each
of them what the kernel does. -/
structure Reaches (w : ℕ) (env : Env) : Prop where
  ps : (execPsCommand fun _ => env).map PsLine.pid
    = (List.range' 1 (tasksTblEntriesCnt - 1)).filter fun id =>
      (env.taskTable id).entryPoint.isSome
  freeze : ∀ id, HoldsTask env id → execTaskdbgCommand w env [ascii "freeze", decimal id]
    = some (env.setTask id (env.taskTable id).freeze, [])
  unfreeze : ∀ id, HoldsTask env id → execTaskdbgCommand w env [ascii "unfreeze", decimal id]
    = some (env.setTask id (env.taskTable id).unfreeze, [])
  delete : ∀ id, HoldsTask env id → execTaskdbgCommand w env [ascii "delete", decimal id]
    = some (env.setTask id (env.taskTable id).delete, [])
  signal : ∀ id, HoldsTask env id → ∀ signum, signum < 2 ^ 31 →
    execTaskdbgCommand w env [ascii "signal", decimal id, decimal signum]
      = some (env.setTask id ((env.taskTable id).notifySignal (BitVec.ofNat 8 signum)), [])

/-- The slots that `ps` lists. -/
theorem map_pid_execPsCommand (env : Env) :
    (execPsCommand fun _ => env).map PsLine.pid
      = (List.range' 1 (maxTasksCount - 1)).filter fun id =>
        (env.taskTable id).entryPoint.isSome := by
  rw [execPsCommand, List.map_filterMap, ← List.filterMap_eq_filter]
  refine List.filterMap_congr fun id _ => ?_
  dsimp only
  split
  · rename_i htask
    rw [Option.guard, if_pos htask]
    rfl
  · rename_i htask
    rw [Option.guard, if_neg htask]
    rfl

/-- **The console reaches every task just if** there is none in the last slot.  The arguments are
given as `argv`, ready-made: which lines the splitter turns into them is another question. -/
theorem console_reaches_iff (w : ℕ) (env : Env) :
    Reaches w env ↔ (env.taskTable maxTasksCount).entryPoint = none := by
  have hslots : List.range' 1 (tasksTblEntriesCnt - 1)
      = List.range' 1 (maxTasksCount - 1) ++ [maxTasksCount] := rfl
  constructor
  · intro h
    have hps := h.ps
    rw [map_pid_execPsCommand, hslots, List.filter_append, List.self_eq_append_right,
      List.filter_eq_nil_iff] at hps
    simpa using hps
  · intro hlast
    -- a slot that holds a task is one that the console knows
    have hknown : ∀ id, HoldsTask env id → id < maxTasksCount := by
      intro id hid
      have hlt := hid.in_table
      rw [tasksTblEntriesCnt] at hlt
      have hne : id ≠ maxTasksCount := by
        rintro rfl
        have htask := hid.task
        rw [hlast] at htask
        cases htask
      rw [maxTasksCount] at hne ⊢
      omega
    constructor
    case ps =>
      rw [map_pid_execPsCommand, hslots, List.filter_append, List.self_eq_append_right,
        List.filter_eq_nil_iff]
      simpa using hlast
    case freeze =>
      intro id hid
      exact execTaskdbgCommand_slot hid.not_idle (hknown id hid) rfl
    case unfreeze =>
      intro id hid
      exact execTaskdbgCommand_slot hid.not_idle (hknown id hid) rfl
    case delete =>
      intro id hid
      exact execTaskdbgCommand_slot hid.not_idle (hknown id hid) rfl
    case signal =>
      intro id hid signum hsignum
      refine execTaskdbgCommand_slot (f := fun task =>
        task.notifySignal (BitVec.ofNat 8 signum)) hid.not_idle (hknown id hid) ?_
      show (atoi (decimal signum)).bind _ = _
      rw [atoi_decimal hsignum, Option.bind_some, BitVec.ofInt_natCast]
      rfl

/-- The root task creates six tasks: the last one is in the slot 7.  `ps` does not list it,
and the command that is to freeze it says that a parameter is missing. -/
theorem last_slot_unreachable :
    ∃ env env' : Env, Reachable 64 env ∧ env.tCreate (some 5) 9 false = (env', some 7) ∧
      Reachable 64 env' ∧ (execPsCommand fun _ => env').map PsLine.pid = [1, 2, 3, 4, 5, 6] ∧
      execTaskdbgCommand 64 env' [ascii "freeze", decimal 7]
        = some (env', ascii "\rMissing first parameter\r") := by
  have heval : ∃ env, runActs 64 boot (toRoot ++
        List.replicate 5 (Act.api (.tCreate (some 5) 9 false))) = some env ∧ env.pc = .running ∧
      (env.tCreate (some 5) 9 false).2 = some 7 ∧
      (execPsCommand fun _ => (env.tCreate (some 5) 9 false).1).map PsLine.pid
        = [1, 2, 3, 4, 5, 6] := by decide +kernel
  obtain ⟨env, hrun, hpc, hid, hps⟩ := heval
  have hr : Reachable 64 env := Reachable.runActs .boot hrun
  have hs : step 64 env (.api (.tCreate (some 5) 9 false))
      = some (env.tCreate (some 5) 9 false).1 := by
    rw [step, hpc]
    rfl
  exact ⟨env, _, hr, Prod.ext rfl hid, hr.step hs, hps,
    execTaskdbgCommand_refused (by decide) (by decide) _ _⟩

end Console
