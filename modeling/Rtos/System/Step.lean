import Rtos.Kernel.Schedule
import Rtos.Kernel.Tick
import Rtos.System.Boot

/-! The running system: tasks, interrupt handlers and PendSV on one core.

A masked critical section is one step. Everything else the handlers and the kernel calls do
is one step per access to shared data, and an interrupt may come between any two steps at
which PRIMASK is clear. The handlers nest: only the topmost active one executes. PendSV has
the lowest priority, so it is entered from thread mode only, and a pending PendSV is taken
before the next instruction of the running task. -/
namespace Rtos

/-- One call of `osSemaphoreWait`: the `no`-th one of `task`. -/
structure CallId where
  task : TaskId
  no : Nat
  deriving DecidableEq, Repr

/-- What has happened so far. The steps write the history and never read it, except to
number the calls they record. -/
inductive Event where
  | init (r : SemRef) (n : Int)
  | tick
  /-- `osDelay` has run its critical section; the deadline counts SysTicks without wrapping -/
  | sleep (t : TaskId) (deadline : Nat)
  | wake (t : TaskId)
  | delayRet (t : TaskId)
  | enter (r : SemRef) (c : CallId)
  | grant (r : SemRef) (c : CallId)
  | waitRet (r : SemRef) (c : CallId)
  /-- the critical section of `osSemaphoreSignal`, by a task or by an interrupt handler -/
  | signal (r : SemRef) (signaller : Option TaskId)
  | signalRet (r : SemRef) (t : TaskId)
  | acquired (m : Nat) (t : TaskId)
  | released (m : Nat) (t : TaskId)
  deriving DecidableEq, Repr

/-- A kernel call that ends in `trigger_pendsv()`. -/
inductive Call where
  | delay
  | wait (r : SemRef)
  | signal (r : SemRef)
  deriving DecidableEq, Repr

/-- Where a task stands. -/
inductive Pc where
  /-- in its own code -/
  | user
  /-- behind the critical section of the call, before its `trigger_pendsv()` -/
  | yield (c : Call)
  /-- about to return from the call -/
  | ret (c : Call)
  /-- in `osMutexAcquire`, before the owner write -/
  | own (m : Nat)
  /-- in `osMutexRelease`, between the owner write and `osSemaphoreSignal` -/
  | unlock (m : Nat)
  /-- in the endless loop of `osMutexRelease` -/
  | spin
  /-- in `os_task_exit` -/
  | exit
  deriving DecidableEq, Repr

/-- Where an interrupt handler other than SysTick stands: between two signals, or in
`osSemaphoreSignal` before its `trigger_pendsv()`. -/
inductive IsrPc where
  | body
  | yield
  deriving DecidableEq, Repr

/-- An active handler. `pendSv` has been entered and has not masked interrupts yet. -/
inductive Frame where
  | sysTick (pc : TickPc)
  | isr (pc : IsrPc)
  | pendSv
  deriving DecidableEq, Repr

/-- What a task does next in its own code. -/
inductive Op where
  | delay (ticks : Word)
  | wait (k : Nat)
  | signal (k : Nat)
  | acquire (m : Nat)
  | release (m : Nat)
  | init (i : Init)
  | leave
  deriving DecidableEq, Repr

inductive Action where
  | sysTick
  | isr
  | pendSv
  /-- the topmost handler goes on inside the kernel -/
  | handler
  | isrSignal (k : Nat)
  | isrReturn
  | call (op : Op)
  /-- the running task goes on inside the kernel -/
  | task
  deriving DecidableEq, Repr

/-- Active handlers are listed from the topmost one down. -/
structure System where
  k : Kernel
  pc : TaskId → Pc
  frames : List Frame
  primask : Bool
  log : List Event

def ticks (log : List Event) : Nat := log.count .tick

/-- How many `osSemaphoreWait` calls of the task have entered their critical section. -/
def waits (t : TaskId) (log : List Event) : Nat :=
  log.countP fun
    | .enter _ c => c.task = t
    | _ => false

namespace System

/-- The running task goes on at `pc`. -/
def goOn (s : System) (k : Kernel) (pc : Pc) (es : List Event) : System :=
  { s with k := k, pc := Function.update s.pc s.k.currentTask pc, log := s.log ++ es }

/-- The topmost handler goes on at `frame`. -/
def goOnAt (s : System) (k : Kernel) (frames : List Frame) (es : List Event) : System :=
  { s with k := k, frames := frames, log := s.log ++ es }

section frame
variable (s : System) (k : Kernel) (pc : Pc) (frames : List Frame) (es : List Event)

@[simp] theorem goOn_k : (s.goOn k pc es).k = k := rfl
@[simp] theorem goOn_pc : (s.goOn k pc es).pc = Function.update s.pc s.k.currentTask pc := rfl
@[simp] theorem goOn_frames : (s.goOn k pc es).frames = s.frames := rfl
@[simp] theorem goOn_log : (s.goOn k pc es).log = s.log ++ es := rfl
@[simp] theorem goOnAt_k : (s.goOnAt k frames es).k = k := rfl
@[simp] theorem goOnAt_pc : (s.goOnAt k frames es).pc = s.pc := rfl
@[simp] theorem goOnAt_frames : (s.goOnAt k frames es).frames = frames := rfl
@[simp] theorem goOnAt_log : (s.goOnAt k frames es).log = s.log ++ es := rfl
end frame

end System

def signalEvents (log : List Event) (r : SemRef) (signaller woken : Option TaskId) : List Event :=
  .signal r signaller ::
    match woken with
    | some u => [.grant r ⟨u, waits u log⟩]
    | none => []

def waitStep (s : System) (r : SemRef) : Option System :=
  let c : CallId := ⟨s.k.currentTask, waits s.k.currentTask s.log + 1⟩
  match osSemaphoreWait s.k r with
  | none => none
  | some (k, true) => some (s.goOn k (.yield (.wait r)) [.enter r c])
  | some (k, false) => some (s.goOn k (.ret (.wait r)) [.enter r c, .grant r c])

def signalStep (s : System) (r : SemRef) : Option System :=
  match osSemaphoreSignal s.k r with
  | none => none
  | some (k, woken) =>
    some (s.goOn k (if woken.isSome then .yield (.signal r) else .ret (.signal r))
      (signalEvents s.log r (some s.k.currentTask) woken))

def callStep (s : System) : Op → Option System
  | .delay d =>
    if d = 0 then some s
    else some (s.goOn (markSleeping s.k d) (.yield .delay)
      [.sleep s.k.currentTask (ticks s.log + d.toNat)])
  | .wait k => waitStep s (.sem k)
  | .signal k => signalStep s (.sem k)
  | .acquire m => waitStep s (.mutex m)
  | .release m =>
    if (s.k.sems (.mutex m)).isNone then none
    else if s.k.owner m = some s.k.currentTask then
      some (s.goOn (s.k.setOwner m none) (.unlock m) [.released m s.k.currentTask])
    else some (s.goOn s.k .spin [])
  | .init i =>
    if (s.k.sems i.ref).isNone then some (s.goOn (i.apply s.k) .user [.init i.ref i.count]) else none
  | .leave => some { s.goOn s.k .exit [] with primask := true }

/-- Where a call returns to, and the return itself. -/
def returnTo (t : TaskId) (log : List Event) : Call → Pc × List Event
  | .delay => (.user, [.delayRet t])
  | .wait (.sem k) => (.user, [.waitRet (.sem k) ⟨t, waits t log⟩])
  | .wait (.mutex m) => (.own m, [.waitRet (.mutex m) ⟨t, waits t log⟩])
  | .signal r => (.user, [.signalRet r t])

def taskStep (s : System) : Option System :=
  match s.pc s.k.currentTask with
  | .user => none
  | .yield c => some (s.goOn s.k.triggerPendsv (.ret c) [])
  | .ret c =>
    let (pc, es) := returnTo s.k.currentTask s.log c
    some (s.goOn s.k pc es)
  | .own m =>
    some (s.goOn (s.k.setOwner m (some s.k.currentTask)) .user [.acquired m s.k.currentTask])
  | .unlock m => signalStep s (.mutex m)
  | .spin => some s
  | .exit => some s

/-- What the handler has done that the history records. -/
def tickEvents : TickPc → List Event
  | .enter => [.tick]
  | .wake i => [.wake i]
  | _ => []

/-- The masked part of `PendSV_Handler` and its return. Interrupts between `CPSIE I` and
`BX LR` find the same data as right after the return. -/
def switchStep (s : System) (rest : List Frame) : System :=
  s.goOnAt (osSchedule { s.k with rtosStarted := true }) rest []

def handlerStep (s : System) : Option System :=
  match s.frames with
  | .sysTick .leave :: rest => some (s.goOnAt s.k rest [])
  | .sysTick pc :: rest =>
    some (s.goOnAt (tickStep s.k pc).1 (.sysTick (tickStep s.k pc).2 :: rest) (tickEvents pc))
  | .isr .yield :: rest => some (s.goOnAt s.k.triggerPendsv (.isr .body :: rest) [])
  | .isr .body :: _ => none
  | .pendSv :: rest => some (switchStep s rest)
  | [] => none

def isrSignalStep (s : System) (r : SemRef) : Option System :=
  match s.frames with
  | .isr .body :: rest =>
    match osSemaphoreSignal s.k r with
    | none => none
    | some (k, woken) =>
      some (s.goOnAt k (.isr (if woken.isSome then .yield else .body) :: rest)
        (signalEvents s.log r none woken))
  | _ => none

@[simp] def Frame.isTick : Frame → Bool
  | .sysTick _ => true
  | _ => false

/-- A `SysTick_Handler` call is active. -/
def System.inTick (s : System) : Bool := s.frames.any Frame.isTick

/-- The running task may execute. -/
def System.inThread (s : System) : Bool :=
  s.frames.isEmpty && !s.k.pendsv && s.k.rtosStarted && !s.primask

def step (s : System) : Action → Option System
  | .sysTick =>
    if s.primask = false ∧ s.inTick = false then
      some (s.goOnAt s.k (.sysTick .enter :: s.frames) [])
    else none
  | .isr => if s.primask = false then some (s.goOnAt s.k (.isr .body :: s.frames) []) else none
  | .pendSv =>
    if s.primask = false ∧ s.frames = [] ∧ s.k.pendsv = true then
      some (s.goOnAt { s.k with pendsv := false } [.pendSv] [])
    else none
  | .handler => handlerStep s
  | .isrSignal k => isrSignalStep s (.sem k)
  | .isrReturn =>
    match s.frames with
    | .isr .body :: rest => some (s.goOnAt s.k rest [])
    | _ => none
  | .call op => if s.inThread ∧ s.pc s.k.currentTask = .user then callStep s op else none
  | .task => if s.inThread then taskStep s else none

/-- The state right after the PENDSVSET write of `_rtos_start`. -/
def boot (cfg : Config) : Option System :=
  (bootKernel cfg).map fun k =>
    { k := k, pc := fun _ => .user, frames := [], primask := false,
      log := List.replicate cfg.ticks .tick ++ cfg.inits.map fun i => .init i.ref i.count }

end Rtos
