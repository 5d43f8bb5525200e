import Mathlib.Data.BitVec
import Mathlib.Logic.Function.Basic

/-! The kernel's data: task control blocks, semaphores and the global scheduler
state of `rtos.c` and `scheduler.c`. A pointer into `task_pool` is its index. -/
namespace Rtos

abbrev Word := BitVec 32
abbrev TaskId := Nat

/-- `MAX_TASKS` -/
def maxTasks : Nat := 8

inductive TaskState where
  | ready
  | running
  | sleeping
  | blocked
  deriving DecidableEq, Repr

/-- `TCB_t` -/
structure Tcb where
  sp : Word
  state : TaskState
  priority : BitVec 8
  wakeTick : Word
  runTicks : Word
  runCount : Word
  stackBase : Word
  stackWords : Word
  name : String
  deriving DecidableEq, Repr

/-- `struct Semaphore`. The slots from `maxTasks` on are not memory of the array;
the code that would write one is undefined in the model. -/
structure Semaphore where
  count : Int
  waiting : Nat → Option TaskId
  waitCount : Nat

/-- The address of a semaphore: a `Semaphore_t`, or the `sem` field of a `Mutex_t`. -/
inductive SemRef where
  | sem (k : Nat)
  | mutex (m : Nat)
  deriving DecidableEq, Repr

/-- The globals of the kernel, the semaphores initialised so far, the `owner` field of
every mutex, and the PENDSVSET bit of SCB->ICSR. `current_task` is NULL only before the
first `osTaskCreate`, when nothing reads it. -/
structure Kernel where
  taskPool : TaskId → Tcb
  taskCount : Nat
  currentTask : TaskId
  currentTaskIndex : Nat
  sysTick : Word
  rtosStarted : Bool
  pendsv : Bool
  sems : SemRef → Option Semaphore
  owner : Nat → Option TaskId

namespace Kernel

def state (k : Kernel) (t : TaskId) : TaskState := (k.taskPool t).state
def prio (k : Kernel) (t : TaskId) : BitVec 8 := (k.taskPool t).priority

def setTask (k : Kernel) (t : TaskId) (c : Tcb) : Kernel :=
  { k with taskPool := Function.update k.taskPool t c }

def setState (k : Kernel) (t : TaskId) (st : TaskState) : Kernel :=
  k.setTask t { k.taskPool t with state := st }

def setSem (k : Kernel) (r : SemRef) (s : Semaphore) : Kernel :=
  { k with sems := Function.update k.sems r (some s) }

def setOwner (k : Kernel) (m : Nat) (o : Option TaskId) : Kernel :=
  { k with owner := Function.update k.owner m o }

/-- `trigger_pendsv()` -/
def triggerPendsv (k : Kernel) : Kernel := { k with pendsv := true }

/- What each update leaves alone; the state and the queues are all that the
invariants read. -/
section frame
variable (k : Kernel) (t u : TaskId) (c : Tcb) (st : TaskState) (r r' : SemRef) (s : Semaphore)
  (m : Nat) (o : Option TaskId)

@[simp, grind =] theorem state_setTask : (k.setTask t c).state u = if u = t then c.state else k.state u := by
  unfold setTask state; grind

@[simp, grind =] theorem prio_setTask : (k.setTask t c).prio u = if u = t then c.priority else k.prio u := by
  unfold setTask prio; grind

@[simp, grind =] theorem state_setState : (k.setState t st).state u = if u = t then st else k.state u :=
  state_setTask ..

@[simp, grind =] theorem prio_setState : (k.setState t st).prio u = k.prio u := by
  unfold setState setTask prio; grind

@[simp, grind =] theorem wakeTick_setState :
    ((k.setState t st).taskPool u).wakeTick = (k.taskPool u).wakeTick := by
  unfold setState setTask; grind

@[simp] theorem setTask_taskCount : (k.setTask t c).taskCount = k.taskCount := rfl
@[simp] theorem setTask_currentTask : (k.setTask t c).currentTask = k.currentTask := rfl
@[simp] theorem setTask_currentTaskIndex :
    (k.setTask t c).currentTaskIndex = k.currentTaskIndex := rfl
@[simp] theorem setTask_sems : (k.setTask t c).sems = k.sems := rfl
@[simp] theorem setTask_owner : (k.setTask t c).owner = k.owner := rfl
@[simp] theorem setTask_sysTick : (k.setTask t c).sysTick = k.sysTick := rfl
@[simp] theorem setTask_rtosStarted : (k.setTask t c).rtosStarted = k.rtosStarted := rfl
@[simp] theorem setTask_pendsv : (k.setTask t c).pendsv = k.pendsv := rfl

@[simp] theorem setState_taskCount : (k.setState t st).taskCount = k.taskCount := rfl
@[simp] theorem setState_currentTask : (k.setState t st).currentTask = k.currentTask := rfl
@[simp] theorem setState_currentTaskIndex :
    (k.setState t st).currentTaskIndex = k.currentTaskIndex := rfl
@[simp] theorem setState_sems : (k.setState t st).sems = k.sems := rfl
@[simp] theorem setState_owner : (k.setState t st).owner = k.owner := rfl
@[simp] theorem setState_sysTick : (k.setState t st).sysTick = k.sysTick := rfl
@[simp] theorem setState_rtosStarted : (k.setState t st).rtosStarted = k.rtosStarted := rfl
@[simp] theorem setState_pendsv : (k.setState t st).pendsv = k.pendsv := rfl

@[simp] theorem setSem_sems :
    (k.setSem r s).sems r' = if r' = r then some s else k.sems r' := by
  unfold setSem; grind

@[simp] theorem setSem_taskPool : (k.setSem r s).taskPool = k.taskPool := rfl
@[simp, grind =] theorem state_setSem : (k.setSem r s).state u = k.state u := rfl
@[simp, grind =] theorem prio_setSem : (k.setSem r s).prio u = k.prio u := rfl
@[simp] theorem setSem_taskCount : (k.setSem r s).taskCount = k.taskCount := rfl
@[simp] theorem setSem_currentTask : (k.setSem r s).currentTask = k.currentTask := rfl
@[simp] theorem setSem_currentTaskIndex :
    (k.setSem r s).currentTaskIndex = k.currentTaskIndex := rfl
@[simp] theorem setSem_owner : (k.setSem r s).owner = k.owner := rfl
@[simp] theorem setSem_sysTick : (k.setSem r s).sysTick = k.sysTick := rfl
@[simp] theorem setSem_rtosStarted : (k.setSem r s).rtosStarted = k.rtosStarted := rfl
@[simp] theorem setSem_pendsv : (k.setSem r s).pendsv = k.pendsv := rfl

@[simp] theorem setOwner_owner (n : Nat) :
    (k.setOwner m o).owner n = if n = m then o else k.owner n := by
  unfold setOwner; grind

@[simp] theorem setOwner_taskPool : (k.setOwner m o).taskPool = k.taskPool := rfl
@[simp, grind =] theorem state_setOwner : (k.setOwner m o).state u = k.state u := rfl
@[simp, grind =] theorem prio_setOwner : (k.setOwner m o).prio u = k.prio u := rfl
@[simp] theorem setOwner_taskCount : (k.setOwner m o).taskCount = k.taskCount := rfl
@[simp] theorem setOwner_currentTask : (k.setOwner m o).currentTask = k.currentTask := rfl
@[simp] theorem setOwner_currentTaskIndex :
    (k.setOwner m o).currentTaskIndex = k.currentTaskIndex := rfl
@[simp] theorem setOwner_sems : (k.setOwner m o).sems = k.sems := rfl
@[simp] theorem setOwner_sysTick : (k.setOwner m o).sysTick = k.sysTick := rfl
@[simp] theorem setOwner_rtosStarted : (k.setOwner m o).rtosStarted = k.rtosStarted := rfl
@[simp] theorem setOwner_pendsv : (k.setOwner m o).pendsv = k.pendsv := rfl

@[simp, grind =] theorem state_triggerPendsv : k.triggerPendsv.state u = k.state u := rfl
@[simp, grind =] theorem prio_triggerPendsv : k.triggerPendsv.prio u = k.prio u := rfl
@[simp, grind =] theorem triggerPendsv_pendsv : k.triggerPendsv.pendsv = true := rfl
end frame

end Kernel

end Rtos
