import Rtos.Lib.Handshake
import Rtos.System.Reachable

/-! The program of `main.c`: four tasks, their counters and `sem_blink`. Tasks 0 to 3 are led,
counter, consumer and idle. An access to a volatile counter or to the LED is one step, and an
interrupt may come before any of them. -/
namespace Rtos
open Lib

/-- Where `task_led` stands in its own code. While it is in a call, this is where the call
returns to. -/
inductive LedPc where
  | on
  | delayOn
  | off
  | delayOff
  /-- `sem_signal_count++` reads the counter -/
  | load
  /-- and writes it -/
  | store (v : Word)
  | signal
  deriving DecidableEq, Repr

inductive CounterPc where
  | load
  | store (v : Word)
  | delay
  deriving DecidableEq, Repr

inductive ConsumerPc where
  | wait
  | load
  | store (v : Word)
  deriving DecidableEq, Repr

/-- The data of `main.c`. `ledPin` is the output level of PA5. -/
structure App where
  led : LedPc
  counter : CounterPc
  consumer : ConsumerPc
  ledPin : Bool
  semSignalCount : Word
  semConsumeCount : Word
  task2Counter : Word
  deriving DecidableEq, Repr

/-- The next instruction of the task: the kernel call it makes, if any, and what it leaves. -/
def taskLed (g : App) : Option Op × App :=
  match g.led with
  | .on => (none, { g with ledPin := true, led := .delayOn })
  | .delayOn => (some (.delay 500), { g with led := .off })
  | .off => (none, { g with ledPin := false, led := .delayOff })
  | .delayOff => (some (.delay 500), { g with led := .load })
  | .load => (none, { g with led := .store (g.semSignalCount + 1) })
  | .store v => (none, { g with semSignalCount := v, led := .signal })
  | .signal => (some (.signal 0), { g with led := .on })

def taskCounter (g : App) : Option Op × App :=
  match g.counter with
  | .load => (none, { g with counter := .store (g.task2Counter + 1) })
  | .store v => (none, { g with task2Counter := v, counter := .delay })
  | .delay => (some (.delay 10), { g with counter := .load })

def taskConsumer (g : App) : Option Op × App :=
  match g.consumer with
  | .wait => (some (.wait 0), { g with consumer := .load })
  | .load => (none, { g with consumer := .store (g.semConsumeCount + 1) })
  | .store v => (none, { g with semConsumeCount := v, consumer := .wait })

/-- `__WFI()` -/
def taskIdle (g : App) : Option Op × App := (none, g)

def taskCode (t : TaskId) (g : App) : Option (Option Op × App) :=
  match t with
  | 0 => some (taskLed g)
  | 1 => some (taskCounter g)
  | 2 => some (taskConsumer g)
  | 3 => some (taskIdle g)
  | _ => none

structure Demo where
  sys : System
  app : App

/-- `thread` is the next instruction of the current task, in its own code or in the kernel. -/
inductive DemoAction where
  | sysTick
  | pendSv
  | handler
  | thread
  deriving DecidableEq, Repr

namespace Demo

/-- The current task is in its own code. -/
def InUser (d : Demo) : Prop := d.sys.pc d.sys.k.currentTask = .user

instance (d : Demo) : Decidable d.InUser := by unfold InUser; infer_instance

def kernelStep (d : Demo) (a : Action) : Option Demo :=
  (step d.sys a).map fun sys => { d with sys := sys }

def threadStep (d : Demo) : Option Demo :=
  if d.InUser then
    match taskCode d.sys.k.currentTask d.app with
    | none => none
    | some (none, app) => some { d with app := app }
    | some (some op, app) => (step d.sys (.call op)).map fun sys => ⟨sys, app⟩
  else d.kernelStep .task

end Demo

def demoStep (d : Demo) : DemoAction → Option Demo
  | .sysTick => d.kernelStep .sysTick
  | .pendSv => d.kernelStep .pendSv
  | .handler => d.kernelStep .handler
  | .thread => if d.sys.inThread then d.threadStep else none

/-- `main` up to `osStart`, with `ticks` SysTicks before it. -/
def demoConfig (ticks : Nat) : Config :=
  { ticks := ticks, inits := [.sem 0 0], tasks := mainTasks }

/-- What the startup code leaves in the data of `main.c`. -/
def resetApp : App :=
  { led := .on, counter := .load, consumer := .wait, ledPin := false, semSignalCount := 0,
    semConsumeCount := 0, task2Counter := 0 }

def demoBoot (ticks : Nat) : Option Demo :=
  (boot (demoConfig ticks)).map fun sys => ⟨sys, resetApp⟩

abbrev DemoStep : Demo → DemoAction → Demo → Prop := Steps demoStep fun _ _ _ => True

/-- The beat that the next instruction of a task is: a write to one of the two counters, or a
call on `sem_blink`. -/
def LedPc.beat : LedPc → Option Beat
  | .store _ => some .raise
  | .signal => some .hand
  | .on | .delayOn | .off | .delayOff | .load => none

def ConsumerPc.beat : ConsumerPc → Option Beat
  | .wait => some .await
  | .store _ => some .serve
  | .load => none

def App.beat (g : App) : TaskId → Option Beat
  | 0 => g.led.beat
  | 2 => g.consumer.beat
  | _ => none

def Demo.beat (d : Demo) (a : DemoAction) : Option Beat :=
  if a = .thread ∧ d.InUser then d.app.beat d.sys.k.currentTask else none

def beats (tr : List (Demo × DemoAction)) : List Beat := tr.filterMap fun p => p.1.beat p.2

/-- Everything one step can do. -/
inductive DemoCase (d : Demo) : DemoAction → Demo → Prop where
  | interrupt {a : DemoAction} {b : Action} {s : System} (other : a ≠ .thread)
      (kind : b = .sysTick ∨ b = .pendSv ∨ b = .handler) (hstep : step d.sys b = some s) :
      DemoCase d a { d with sys := s }
  | kernel {s : System} (thread : d.sys.Thread) (inside : ¬ d.InUser)
      (hstep : step d.sys .task = some s) : DemoCase d .thread { d with sys := s }
  | own {g : App} (thread : d.sys.Thread) (user : d.InUser)
      (code : taskCode d.sys.k.currentTask d.app = some (none, g)) :
      DemoCase d .thread { d with app := g }
  | call {op : Op} {g : App} {s : System} (thread : d.sys.Thread) (user : d.InUser)
      (code : taskCode d.sys.k.currentTask d.app = some (some op, g))
      (hstep : step d.sys (.call op) = some s) : DemoCase d .thread ⟨s, g⟩

theorem Demo.kernelStep_cases {d d' : Demo} {a : Action} (h : d.kernelStep a = some d') :
    ∃ s, step d.sys a = some s ∧ d' = { d with sys := s } := by
  obtain ⟨s, hstep, rfl⟩ := Option.map_eq_some_iff.mp h
  exact ⟨s, hstep, rfl⟩

theorem Demo.threadStep_cases {d d' : Demo} (thread : d.sys.Thread)
    (h : d.threadStep = some d') : DemoCase d .thread d' := by
  unfold threadStep at h
  split at h
  · rename_i user
    split at h
    · cases h
    · rename_i app code
      cases Option.some.inj h
      exact .own thread user code
    · rename_i op app code
      obtain ⟨s, hstep, rfl⟩ := Option.map_eq_some_iff.mp h
      exact .call thread user code hstep
  · rename_i inside
    obtain ⟨s, hstep, rfl⟩ := kernelStep_cases h
    exact .kernel thread inside hstep

theorem demoStep_cases {d d' : Demo} {a : DemoAction} (h : demoStep d a = some d') :
    DemoCase d a d' := by
  cases a with
  | sysTick =>
    obtain ⟨s, hstep, rfl⟩ := Demo.kernelStep_cases h
    exact .interrupt (by simp) (.inl rfl) hstep
  | pendSv =>
    obtain ⟨s, hstep, rfl⟩ := Demo.kernelStep_cases h
    exact .interrupt (by simp) (.inr (.inl rfl)) hstep
  | handler =>
    obtain ⟨s, hstep, rfl⟩ := Demo.kernelStep_cases h
    exact .interrupt (by simp) (.inr (.inr rfl)) hstep
  | thread =>
    obtain ⟨thread, eq⟩ := Option.ite_none_right_eq_some.mp h
    exact Demo.threadStep_cases (d.sys.inThread_iff.mp thread) eq

/-- The idle task makes no call, so the runs of the demo are runs of the kernel. -/
theorem demoStep_reachable {n : Nat} {d d' : Demo} {a : DemoAction}
    (h : Reachable (demoConfig n) 3 d.sys) (hstep : demoStep d a = some d') :
    Reachable (demoConfig n) 3 d'.sys := by
  have inv := h.idleInv
  have follow : ∀ {b s}, step d.sys b = some s → Idles 3 d.sys b s → Reachable (demoConfig n) 3 s :=
    fun hs idles => h.next ⟨hs, step_awake inv.inv.wf inv.awake hs idles⟩
  cases demoStep_cases hstep with
  | interrupt _ kind hs =>
    refine follow hs fun op eq _ => ?_
    rcases kind with rfl | rfl | rfl <;> cases eq
  | kernel _ _ hs => exact follow hs fun op eq _ => by cases eq
  | own => exact h
  | call _ _ code hs =>
    refine follow hs fun op _ idle => ?_
    rw [idle] at code
    simp [taskCode, taskIdle] at code

end Rtos
