import Rtos.Kernel.Sync

/-! What `main` does before the first context switch: `osSemaphoreInit`, `osMutexInit`,
`osTaskCreate` and `osStart`. A rejected `osTaskCreate` traps, so it has no result. -/
namespace Rtos

/-- The arguments of one `osTaskCreate` call. -/
structure TaskSpec where
  name : String
  func : Word
  stack : Word
  stackWords : Word
  priority : BitVec 8
  deriving DecidableEq, Repr

/-- The arguments of one `osSemaphoreInit` or `osMutexInit` call. -/
inductive Init where
  | sem (k : Nat) (initialCount : Int)
  | mutex (m : Nat)
  deriving DecidableEq, Repr

def Init.ref : Init → SemRef
  | .sem k _ => .sem k
  | .mutex m => .mutex m

def Init.count : Init → Int
  | .sem _ n => n
  | .mutex _ => 1

def Init.apply (k : Kernel) : Init → Kernel
  | .sem j n => osSemaphoreInit k (.sem j) n
  | .mutex m => osMutexInit k m

/-- A `static TCB_t` before its creation. -/
def zeroTcb : Tcb :=
  { sp := 0, state := .ready, priority := 0, wakeTick := 0, runTicks := 0, runCount := 0,
    stackBase := 0, stackWords := 0, name := "" }

/-- The kernel after `ticks` SysTicks and before any call. -/
def resetKernel (ticks : Nat) : Kernel :=
  { taskPool := fun _ => zeroTcb, taskCount := 0, currentTask := 0, currentTaskIndex := 0,
    sysTick := BitVec.ofNat 32 ticks, rtosStarted := false, pendsv := false,
    sems := fun _ => none, owner := fun _ => none }

/-- The `sp` that `os_task_stack_init` leaves in the TCB: 16 words below the top. -/
def initialSp (spec : TaskSpec) : Word := spec.stack + 4 * spec.stackWords - 64

def newTcb (spec : TaskSpec) : Tcb :=
  { sp := initialSp spec, state := .ready, priority := spec.priority, wakeTick := 0,
    runTicks := 0, runCount := 0, stackBase := spec.stack, stackWords := spec.stackWords,
    name := spec.name }

def osTaskCreate (k : Kernel) (spec : TaskSpec) : Option Kernel :=
  if maxTasks ≤ k.taskCount then none
  else if spec.stackWords < 16 then none
  else some { k.setTask k.taskCount (newTcb spec) with
    currentTask := if k.taskCount = 0 then k.taskCount else k.currentTask,
    taskCount := k.taskCount + 1 }

def createAll (k : Kernel) : List TaskSpec → Option Kernel
  | [] => some k
  | spec :: rest =>
    match osTaskCreate k spec with
    | none => none
    | some k' => createAll k' rest

/-- `osStart` and the PENDSVSET write of `_rtos_start`. -/
def osStart (k : Kernel) : Kernel :=
  let k := if 0 < k.taskCount then
      { k with currentTaskIndex := k.taskCount - 1, currentTask := k.taskCount - 1 }
    else k
  k.triggerPendsv

/-- Initialise each object once. -/
def initAll (k : Kernel) : List Init → Option Kernel
  | [] => some k
  | i :: rest => if (k.sems i.ref).isNone then initAll (i.apply k) rest else none

/-- `ticks` SysTicks arrive before `osStart`. -/
structure Config where
  ticks : Nat
  inits : List Init
  tasks : List TaskSpec

def bootKernel (cfg : Config) : Option Kernel :=
  match initAll (resetKernel cfg.ticks) cfg.inits with
  | none => none
  | some k =>
    match createAll k cfg.tasks with
    | none => none
    | some k => some (osStart k)

/-- The tasks of `main.c`, at the addresses of `RTOS.map`. -/
def mainTasks : List TaskSpec :=
  [⟨"led", 0x080005C5, 0x20000054, 64, 1⟩, ⟨"counter", 0x0800060D, 0x20000154, 64, 1⟩,
    ⟨"consumer", 0x08000629, 0x20000254, 64, 2⟩, ⟨"idle", 0x0800064D, 0x20000354, 32, 0⟩]

/-- `main` with `sem_blink`, and with a mutex next to it. -/
def mainConfig : Config := { ticks := 0, inits := [.sem 0 0, .mutex 0], tasks := mainTasks }

@[simp] theorem Init.apply_taskPool (k : Kernel) (i : Init) :
    (i.apply k).taskPool = k.taskPool := by
  cases i <;> rfl

@[simp] theorem Init.apply_taskCount (k : Kernel) (i : Init) :
    (i.apply k).taskCount = k.taskCount := by
  cases i <;> rfl

@[simp] theorem Init.apply_currentTask (k : Kernel) (i : Init) :
    (i.apply k).currentTask = k.currentTask := by
  cases i <;> rfl

@[simp] theorem Init.apply_currentTaskIndex (k : Kernel) (i : Init) :
    (i.apply k).currentTaskIndex = k.currentTaskIndex := by
  cases i <;> rfl

@[simp] theorem Init.apply_sysTick (k : Kernel) (i : Init) :
    (i.apply k).sysTick = k.sysTick := by
  cases i <;> rfl

@[simp] theorem Init.apply_rtosStarted (k : Kernel) (i : Init) :
    (i.apply k).rtosStarted = k.rtosStarted := by
  cases i <;> rfl

@[simp] theorem Init.apply_pendsv (k : Kernel) (i : Init) : (i.apply k).pendsv = k.pendsv := by
  cases i <;> rfl

@[simp] theorem Init.apply_state (k : Kernel) (i : Init) (t : TaskId) :
    (i.apply k).state t = k.state t := by
  cases i <;> rfl

@[simp] theorem Init.apply_prio (k : Kernel) (i : Init) (t : TaskId) :
    (i.apply k).prio t = k.prio t := by
  cases i <;> rfl

theorem Init.apply_sems (k : Kernel) (i : Init) (r : SemRef) :
    (i.apply k).sems r = if r = i.ref then some (semInit i.count) else k.sems r := by
  cases i with
  | sem j n => exact Kernel.setSem_sems ..
  | mutex m => exact Kernel.setSem_sems ..

theorem Init.apply_owner (k : Kernel) (i : Init) (m : Nat) :
    (i.apply k).owner m = if i = .mutex m then none else k.owner m := by
  cases i with
  | sem j n => rfl
  | mutex n => simp [Init.apply, osMutexInit, osSemaphoreInit]; grind

end Rtos
