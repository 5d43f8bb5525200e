import Rtos.Kernel.Types
import Rtos.Lib.Clock

/-! `SysTick_Handler` and the critical section of `osDelay`. The handler runs unmasked,
so it is given twice: instruction by instruction, and as one uninterrupted call. -/
namespace Rtos
open Lib

/-- Where a `SysTick_Handler` call stands. -/
inductive TickPc where
  | enter
  /-- at the loop head, about to read the state of task `i` -/
  | scan (i : Nat)
  /-- task `i` was SLEEPING, its `wake_tick` is read next -/
  | due (i : Nat)
  /-- both tests passed, TASK_READY is written next -/
  | wake (i : Nat)
  | charge
  | pend
  | leave
  deriving DecidableEq, Repr

/-- `current_task->run_ticks++` -/
def chargeCurrent (k : Kernel) : Kernel :=
  k.setTask k.currentTask { k.taskPool k.currentTask with
    runTicks := (k.taskPool k.currentTask).runTicks + 1 }

def isDue (k : Kernel) (i : TaskId) : Bool := reached k.sysTick (k.taskPool i).wakeTick

/-- One instruction of the handler; nothing follows `leave` but the return. -/
def tickStep (k : Kernel) : TickPc → Kernel × TickPc
  | .enter => ({ k with sysTick := k.sysTick + 1 }, .scan 0)
  | .scan i =>
    if i < k.taskCount then
      if k.state i = .sleeping then (k, .due i) else (k, .scan (i + 1))
    else (k, .charge)
  | .due i => if isDue k i then (k, .wake i) else (k, .scan (i + 1))
  | .wake i => (k.setState i .ready, .scan (i + 1))
  | .charge => if k.rtosStarted then (chargeCurrent k, .pend) else (k, .leave)
  | .pend => (k.triggerPendsv, .leave)
  | .leave => (k, .leave)

/-- Everything one instruction can do. -/
inductive TickCase (k : Kernel) : TickPc → Kernel → TickPc → Prop where
  | enter : TickCase k .enter { k with sysTick := k.sysTick + 1 } (.scan 0)
  | asleep {i : Nat} (created : i < k.taskCount) (sleeping : k.state i = .sleeping) :
      TickCase k (.scan i) k (.due i)
  | awake {i : Nat} (created : i < k.taskCount) (not : k.state i ≠ .sleeping) :
      TickCase k (.scan i) k (.scan (i + 1))
  | done {i : Nat} (all : k.taskCount ≤ i) : TickCase k (.scan i) k .charge
  | due {i : Nat} (due : isDue k i = true) : TickCase k (.due i) k (.wake i)
  | notDue {i : Nat} (not : isDue k i = false) : TickCase k (.due i) k (.scan (i + 1))
  | wake {i : Nat} : TickCase k (.wake i) (k.setState i .ready) (.scan (i + 1))
  | charge (started : k.rtosStarted = true) : TickCase k .charge (chargeCurrent k) .pend
  | notStarted (not : k.rtosStarted = false) : TickCase k .charge k .leave
  | pend : TickCase k .pend k.triggerPendsv .leave

theorem tickStep_cases (k : Kernel) {pc : TickPc} (more : pc ≠ .leave) :
    TickCase k pc (tickStep k pc).1 (tickStep k pc).2 := by
  cases pc with
  | enter => exact .enter
  | scan i =>
    simp only [tickStep]
    split
    · rename_i created
      split
      · rename_i sleeping; exact .asleep created sleeping
      · rename_i awake; exact .awake created awake
    · rename_i all; exact .done (Nat.le_of_not_lt all)
  | due i =>
    simp only [tickStep]
    split
    · rename_i due; exact .due due
    · rename_i not; exact .notDue (by simpa using not)
  | wake i => exact .wake
  | charge =>
    simp only [tickStep]
    split
    · rename_i started; exact .charge started
    · rename_i not; exact .notStarted (by simpa using not)
  | pend => exact .pend
  | leave => exact absurd rfl more

theorem tickStep_eq_with (k : Kernel) (pc : TickPc) : ∃ pool tick pend,
    (tickStep k pc).1 = { k with taskPool := pool, sysTick := tick, pendsv := pend } := by
  cases pc with
  | scan i => simp only [tickStep]; split <;> (try split) <;> exact ⟨_, _, _, rfl⟩
  | due i => simp only [tickStep]; split <;> exact ⟨_, _, _, rfl⟩
  | charge => simp only [tickStep]; split <;> exact ⟨_, _, _, rfl⟩
  | _ => exact ⟨_, _, _, rfl⟩

theorem tickStep_sems (k : Kernel) (pc : TickPc) : (tickStep k pc).1.sems = k.sems := by
  obtain ⟨_, _, _, eq⟩ := tickStep_eq_with k pc
  rw [eq]

theorem tickStep_owner (k : Kernel) (pc : TickPc) : (tickStep k pc).1.owner = k.owner := by
  obtain ⟨_, _, _, eq⟩ := tickStep_eq_with k pc
  rw [eq]

def wakeDue (k : Kernel) (i : TaskId) : Kernel :=
  if k.state i = .sleeping ∧ isDue k i = true then k.setState i .ready else k

/-- `n` iterations of the wake loop from index `i` on. -/
def wakeLoop (k : Kernel) (i : Nat) : Nat → Kernel
  | 0 => k
  | n + 1 => wakeLoop (wakeDue k i) (i + 1) n

def chargeTick (k : Kernel) : Kernel :=
  if k.rtosStarted then (chargeCurrent k).triggerPendsv else k

/-- `SysTick_Handler` without interruption. -/
def sysTickHandler (k : Kernel) : Kernel :=
  let k := { k with sysTick := k.sysTick + 1 }
  chargeTick (wakeLoop k 0 k.taskCount)

/-- What is left of an uninterrupted call that stands at `pc`. -/
def tickRest (k : Kernel) : TickPc → Kernel
  | .enter => sysTickHandler k
  | .scan i => chargeTick (wakeLoop k i (k.taskCount - i))
  | .due i =>
    chargeTick (wakeLoop (if isDue k i then k.setState i .ready else k) (i + 1)
      (k.taskCount - (i + 1)))
  | .wake i => chargeTick (wakeLoop (k.setState i .ready) (i + 1) (k.taskCount - (i + 1)))
  | .charge => chargeTick k
  | .pend => k.triggerPendsv
  | .leave => k

/-- Going on by one instruction does not change where the call ends. -/
theorem tickRest_step (k : Kernel) (pc : TickPc) :
    tickRest (tickStep k pc).1 (tickStep k pc).2 = tickRest k pc := by
  cases pc with
  | enter => rfl
  | scan i =>
    by_cases more : i < k.taskCount
    · have count : k.taskCount - i = k.taskCount - (i + 1) + 1 := by omega
      by_cases asleep : k.state i = .sleeping
      · simp [tickStep, more, asleep, tickRest, count, wakeLoop, wakeDue]
      · simp [tickStep, more, asleep, tickRest, count, wakeLoop, wakeDue]
    · have done : k.taskCount - i = 0 := by omega
      simp only [tickStep, if_neg more, tickRest, done, wakeLoop]
  | due i =>
    cases h : isDue k i <;> simp [tickStep, tickRest, h]
  | wake i => rfl
  | charge =>
    cases h : k.rtosStarted <;> simp [tickStep, tickRest, chargeTick, h]
  | pend => rfl
  | leave => rfl

/-- The critical section of `osDelay`. -/
def markSleeping (k : Kernel) (ticks : Word) : Kernel :=
  k.setTask k.currentTask { k.taskPool k.currentTask with
    wakeTick := k.sysTick + ticks, state := .sleeping }

section frame
variable (k : Kernel) (ticks : Word) (t : TaskId)

@[simp, grind =] theorem markSleeping_state :
    (markSleeping k ticks).state t = if t = k.currentTask then .sleeping else k.state t := by
  simp [markSleeping]

@[simp, grind =] theorem markSleeping_prio : (markSleeping k ticks).prio t = k.prio t := by
  unfold markSleeping Kernel.setTask Kernel.prio; grind

@[grind =] theorem markSleeping_wakeTick : ((markSleeping k ticks).taskPool t).wakeTick =
    if t = k.currentTask then k.sysTick + ticks else (k.taskPool t).wakeTick := by
  unfold markSleeping Kernel.setTask; grind

@[simp, grind =] theorem chargeCurrent_state : (chargeCurrent k).state t = k.state t := by
  unfold chargeCurrent Kernel.setTask Kernel.state; grind

@[simp, grind =] theorem chargeCurrent_prio : (chargeCurrent k).prio t = k.prio t := by
  unfold chargeCurrent Kernel.setTask Kernel.prio; grind

@[simp, grind =] theorem chargeCurrent_wakeTick :
    ((chargeCurrent k).taskPool t).wakeTick = (k.taskPool t).wakeTick := by
  unfold chargeCurrent Kernel.setTask; grind
end frame

end Rtos
