/-
The critical sections of the kernel on the ports.

Every block with `mipos_init_cs` is a scope, and every call that opens a section is
written down as far as it touches the interrupt mask: where it enters and leaves the
section, where it calls another such call, where it returns.  `mipos_start` is taken as
a whole, with what the timer handlers, the RT tasks and the tasks call.

The ports define the macros in three ways.  QEMU ARM and vexpress-a9 save the mask in a
variable of the block, Cortex-M3 in a static one; STM8 has `sim` and `rim` alone, which
enables the interrupts at the end of every section.  The simulator has no interrupts.

* `critical_sections` — where the mask is saved all calls keep the interrupts masked from
  the outermost enter to its leave and give back the mask they found; on STM8 a path does
  if it leaves no section inside another, and none with the interrupts masked before;
* `stm8_timer_start` — `mipos_timer_start` reads the RTC inside its section.
-/
import Mipos.CriticalSections

namespace Sections

open ControlFlow CriticalSection

/-- The blocks with `mipos_init_cs`, by the function or macro they stand in.  A macro that
is expanded twice has one name: its copies are never nested. -/
inductive Block
  | idleTask | search | searchCond | zombie | suspended | wakeup | ready | dispatcher
  | getRtcCounter | setIdleCbk
  | tCreate | tDelete | tGetStatus
  | tRestart | tRestartWithParam | rtcQuantumSleep | notifySignal | freeze | unfreeze
  | sigIgnore | sigAllow
  | qInit | qSend | qCount | qMessagePending
  | timerStart | timerCancel | timerDelete | timerRestart
  | muInit | muUnlock
  | addDiskDriver | findDiskDriver
  | rtcEpoch | replaceSp | setSp
  deriving DecidableEq, Repr

abbrev Code := Stmt (Event Block)

/-- `mipos_enter_cs` -/
def enter : Code := .emit .enter

/-- `mipos_leave_cs` -/
def leave : Code := .emit .leave

/-- Code that does not touch the mask. -/
def work : Code := .emit .work

/-- A block that starts with `mipos_init_cs`. -/
def block (b : Block) (p : Code) : Code := .emit (.declare b) >> .call p >> .emit .discard

/-- A section around code that does not touch the mask, as most calls are. -/
def guarded (b : Block) : Code := block b (enter >> work >> leave)

/-! ### The calls of the API -/

def miposGetRtcCounter : Code := guarded .getRtcCounter
def miposSetIdleCbk : Code := guarded .setIdleCbk

/-- It leaves the section in the loop if it finds a free entry. -/
def miposTCreate : Code := block .tCreate <|
  enter >> .loop (work >> (work <|> work >> leave >> .ret)) >> leave >> .ret

def miposTDelete : Code := guarded .tDelete
def miposTGetStatus : Code := guarded .tGetStatus
def miposTRestart : Code := guarded .tRestart
def miposTRestartWithParam : Code := guarded .tRestartWithParam
def miposTNotifySignal : Code := guarded .notifySignal
def miposTFreeze : Code := guarded .freeze
def miposTUnfreeze : Code := guarded .unfreeze
def miposTSigIgnore : Code := guarded .sigIgnore
def miposTSigAllow : Code := guarded .sigAllow

def miposQInit : Code := guarded .qInit

/-- Both branches signal the waiting task, if there is one. -/
def miposQSend : Code := block .qSend <|
  enter >>
  (work >> (miposTNotifySignal <|> work) >> work >> leave >> .ret <|>
    (miposTNotifySignal <|> work)) >>
  leave >> .ret

def miposQCount : Code := guarded .qCount
def miposQMessagePending : Code := guarded .qMessagePending

/-- The first free timer is started, and the loop is left. -/
def miposTimerStart : Code := block .timerStart <|
  (.ret <|> work) >>
  enter >> .loop (work >> (work >> miposGetRtcCounter >> work >> .brk <|> work)) >> leave >>
  work >> .ret

def miposTimerCancel : Code := block .timerCancel <|
  (.ret <|> work) >> enter >> work >> leave >> .ret

def miposTimerDelete : Code := block .timerDelete <|
  (.ret <|> work) >> enter >> work >> leave >> .ret

def miposTimerRestart : Code := block .timerRestart <|
  (.ret <|> work) >>
  enter >> (work >> miposGetRtcCounter >> work <|> work) >> leave >> .ret

def miposMuInit : Code := guarded .muInit
def miposMuUnlock : Code := guarded .muUnlock

def miposAddDiskDriver : Code := block .addDiskDriver <|
  enter >> (work <|> leave >> .ret) >> work >> leave >> .ret

def miposFindDiskDriver : Code := block .findDiskDriver <|
  enter >> work >> leave >> (.ret <|> .loop work >> .ret)

/-- `mipos_tm_msleep`, which is not for RT tasks: it switches after its section. -/
def rtcQuantumSleep : Code := guarded .rtcQuantumSleep

/-- The calls that do not switch, for tasks of both kinds and handlers. -/
inductive ApiCall
  | getRtcCounter | setIdleCbk
  | tCreate | tDelete | tGetStatus
  | tRestart | tRestartWithParam | notifySignal | freeze | unfreeze | sigIgnore | sigAllow
  | qInit | qSend | qCount | qMessagePending
  | timerStart | timerCancel | timerDelete | timerRestart
  | muInit | muUnlock
  | addDiskDriver | findDiskDriver
  deriving DecidableEq, Repr

def ApiCall.code : ApiCall → Code
  | .getRtcCounter => miposGetRtcCounter
  | .setIdleCbk => miposSetIdleCbk
  | .tCreate => miposTCreate
  | .tDelete => miposTDelete
  | .tGetStatus => miposTGetStatus
  | .tRestart => miposTRestart
  | .tRestartWithParam => miposTRestartWithParam
  | .notifySignal => miposTNotifySignal
  | .freeze => miposTFreeze
  | .unfreeze => miposTUnfreeze
  | .sigIgnore => miposTSigIgnore
  | .sigAllow => miposTSigAllow
  | .qInit => miposQInit
  | .qSend => miposQSend
  | .qCount => miposQCount
  | .qMessagePending => miposQMessagePending
  | .timerStart => miposTimerStart
  | .timerCancel => miposTimerCancel
  | .timerDelete => miposTimerDelete
  | .timerRestart => miposTimerRestart
  | .muInit => miposMuInit
  | .muUnlock => miposMuUnlock
  | .addDiskDriver => miposAddDiskDriver
  | .findDiskDriver => miposFindDiskDriver

def apiCalls : List ApiCall :=
  [.getRtcCounter, .setIdleCbk, .tCreate, .tDelete, .tGetStatus, .tRestart, .tRestartWithParam,
    .notifySignal, .freeze, .unfreeze, .sigIgnore, .sigAllow, .qInit, .qSend, .qCount,
    .qMessagePending, .timerStart, .timerCancel, .timerDelete, .timerRestart, .muInit, .muUnlock,
    .addDiskDriver, .findDiskDriver]

/-- User code: any number of calls, in any order. -/
def anyCalls : Code := .loop (apiCalls.foldr (fun c p => c.code <|> p) work)

/-! ### The ports -/

inductive Bsp
  | qemuArm
  | vexpressA9
  | ctxm3
  | stm8
  deriving DecidableEq, Repr

def Bsp.port : Bsp → Port
  | .qemuArm => .saveLocal
  | .vexpressA9 => .saveLocal
  | .ctxm3 => .saveStatic
  | .stm8 => .noSave

/-- The SysTick count of QEMU ARM is read with the interrupts masked. -/
def Bsp.notifySchedulerEpoch : Bsp → Code
  | .qemuArm => guarded .rtcEpoch
  | _ => work

/-- Only Cortex-M3 changes the stack pointer with the interrupts masked. -/
def Bsp.replaceSp : Bsp → Code
  | .ctxm3 => guarded .replaceSp
  | _ => work

def Bsp.setSp : Bsp → Code
  | .ctxm3 => guarded .setSp
  | _ => work

/-! ### The scheduler -/

def idleTask : Code := guarded .idleTask >> anyCalls

/-- One entry of the task table is visited; an RT task is called on the spot. -/
def searchRound : Code := block .search <|
  enter >> work >> (anyCalls >> work <|> work) >> work >> leave

/-- What a task does until the control is back in the kernel. -/
def taskRun : Code := .loop (anyCalls <|> rtcQuantumSleep)

/-- A task runs for the first time in the block of the dispatcher.  It comes back there
when its entry point returns, at once or after it has been resumed. -/
def dispatcher (b : Bsp) : Code :=
  (taskRun >> (block .dispatcher (enter >> b.setSp >> leave) <|> work)) <|>
  block .dispatcher
    (enter >> work >> leave >> b.replaceSp >> taskRun >>
      (enter >> b.setSp >> leave <|> work))

/-- The task state machine.  A task that is woken makes the scheduler start again. -/
def taskStateMachine (b : Bsp) : Code :=
  guarded .zombie <|>
  block .suspended (enter >> work >> leave >> (guarded .wakeup <|> work)) <|>
  guarded .ready >> dispatcher b

/-- From `scheduler:` to the next `goto scheduler`.  The timer handlers are called
outside the sections. -/
def epoch (b : Bsp) : Code :=
  b.notifySchedulerEpoch >> anyCalls >> searchRound >> .loop searchRound >>
  guarded .searchCond >> (idleTask <|> taskStateMachine b)

def miposStart (b : Bsp) : Code := miposTCreate >> .loop (epoch b)

inductive KernelCall
  | api (c : ApiCall)
  | rtcQuantumSleep
  | start
  deriving DecidableEq, Repr

def KernelCall.code (b : Bsp) : KernelCall → Code
  | .api c => c.code
  | .rtcQuantumSleep => Sections.rtcQuantumSleep
  | .start => miposStart b

/-! ### The interrupt mask -/

/-- In every block of the call the sections and what stands between them alternate, no
path ends or returns inside one, and nothing that a section calls comes back to its
block. -/
theorem code_checked (b : Bsp) (call : KernelCall) :
    (call.code b).check advance [] List.isEmpty (fun _ => false) (fun _ => false) = true := by
  cases call with
  | api c => cases c <;> rfl
  | rtcQuantumSleep => rfl
  | start => cases b <;> decide +kernel

/-- The processor when user code makes a call with the mask `m`. -/
def calling (m : Bool) (statics : Block → Bool) : Cpu Block := ⟨m, 0, [], statics⟩

/-- Where the mask is saved, every call on every path keeps the interrupts masked from
the outermost enter to its leave and gives back the mask it found.  On STM8 a path does
so if and only if every section that it leaves is an outermost one and was entered with
the interrupts enabled. -/
theorem critical_sections (b : Bsp) (call : KernelCall) {es : List (Event Block)} {e : Exit}
    (hpath : Path (call.code b) es e) (m : Bool) (statics : Block → Bool) :
    Guards b.port m (calling m statics) es ↔
      b.port ≠ .noSave ∨ ∀ d ∈ closings 0 es, d = 1 ∧ m = false := by
  obtain ⟨l, hes, -⟩ := hpath.check (code_checked b call)
  by_cases hport : b.port = .noSave
  · have hiff : Guards .noSave m (calling m statics) es ↔ _ := guards_noSave_iff hes rfl rfl
    rw [hport, hiff]
    exact ⟨.inr, fun h => h.resolve_left (absurd rfl)⟩
  · exact iff_of_true (guards_of_saves hport hes m statics) (.inl hport)

/-- A timer is started in the first entry. -/
def startsTimer : List (Event Block) :=
  [.declare .timerStart, .work, .enter, .work, .work,
    .declare .getRtcCounter, .enter, .work, .leave, .discard, .work, .leave, .work, .discard]

theorem startsTimer_path : Path miposTimerStart startsTimer .done := by
  have hrtc : Path miposGetRtcCounter
      [.declare .getRtcCounter, .enter, .work, .leave, .discard] .done :=
    .seq (.emit _) (.seq (.call (.seq (.emit _) (.seq (.emit _) (.emit _)))) (.emit _))
  have hfound := Path.seq (.emit .work) (.seq hrtc (.seq (.emit .work) .brk))
  exact .seq (.emit _) (.seq (.callRet (.seq (.right (.emit _)) (.seq (.emit _)
    (.seq (.loopBreak (.seq (.emit _) (.left hfound))) (.seq (.emit _) (.seq (.emit _) .ret))))))
    (.emit _))

theorem qemuArm_timer_start :
    Guards Bsp.qemuArm.port true (calling true fun _ => false) startsTimer :=
  (critical_sections .qemuArm (.api .timerStart) startsTimer_path true _).mpr (.inl nofun)

/-- On STM8 the interrupts are enabled in the section of `mipos_timer_start` from where it
has read the RTC. -/
theorem stm8_timer_start :
    Path ((KernelCall.api .timerStart).code .stm8) startsTimer .done ∧
    ¬ Guards Bsp.stm8.port false (calling false fun _ => false) startsTimer :=
  ⟨startsTimer_path, by decide⟩

end Sections
