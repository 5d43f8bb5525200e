import Rtos.Kernel.Types
import Rtos.Lib.Slots

/-! The critical sections of `semaphore.c`. Interrupts are masked in each of them, so each
is one function; what a call does before and after them is in the system model. A section
the code leaves undefined (no initialised semaphore, a write behind the array, a NULL
dereference) has no result. -/
namespace Rtos
open Lib

/-- Signed 32-bit wrap of a counter. -/
def wrap32 (n : Int) : Int := n.bmod (2 ^ 32)

/-- `osSemaphoreInit` -/
def semInit (initialCount : Int) : Semaphore :=
  { count := initialCount, waiting := fun _ => none, waitCount := 0 }

def osSemaphoreInit (k : Kernel) (r : SemRef) (initialCount : Int) : Kernel :=
  k.setSem r (semInit initialCount)

def osMutexInit (k : Kernel) (m : Nat) : Kernel :=
  (osSemaphoreInit k (.mutex m) 1).setOwner m none

/-- `osSemaphoreWait` up to the end of its critical section. The flag tells whether the
caller was queued, and so goes on to `trigger_pendsv()`. -/
def osSemaphoreWait (k : Kernel) (r : SemRef) : Option (Kernel × Bool) :=
  match k.sems r with
  | none => none
  | some s =>
    if 0 < s.count then some (k.setSem r { s with count := s.count - 1 }, false)
    else if s.waitCount < maxTasks then
      some ((k.setSem r { s with
        waiting := Function.update s.waiting s.waitCount (some k.currentTask),
        waitCount := s.waitCount + 1 }).setState k.currentTask .blocked, true)
    else none

/-- `osSemaphoreSignal` up to the end of its critical section, with the task it made
ready. Only then does the caller go on to `trigger_pendsv()`. -/
def osSemaphoreSignal (k : Kernel) (r : SemRef) : Option (Kernel × Option TaskId) :=
  match k.sems r with
  | none => none
  | some s =>
    if 0 < s.waitCount then
      match s.waiting 0 with
      | none => none
      | some unblocked =>
        some ((k.setSem r { s with
          waiting := Function.update (shiftSlots s.waiting (s.waitCount - 1)) (s.waitCount - 1) none,
          waitCount := s.waitCount - 1 }).setState unblocked .ready, some unblocked)
    else some (k.setSem r { s with count := wrap32 (s.count + 1) }, none)

theorem osSemaphoreWait_cases {k k' : Kernel} {r : SemRef} {queued : Bool}
    (h : osSemaphoreWait k r = some (k', queued)) :
    ∃ s, k.sems r = some s ∧
      ((0 < s.count ∧ queued = false ∧ k' = k.setSem r { s with count := s.count - 1 }) ∨
       (s.count ≤ 0 ∧ s.waitCount < maxTasks ∧ queued = true ∧
        k' = (k.setSem r { s with
          waiting := Function.update s.waiting s.waitCount (some k.currentTask),
          waitCount := s.waitCount + 1 }).setState k.currentTask .blocked)) := by
  unfold osSemaphoreWait at h
  split at h
  · cases h
  · rename_i s hs
    refine ⟨s, hs, ?_⟩
    split at h
    · rename_i free
      cases Option.some.inj h
      exact .inl ⟨free, rfl, rfl⟩
    · rename_i taken
      split at h
      · rename_i room
        cases Option.some.inj h
        exact .inr ⟨by omega, room, rfl, rfl⟩
      · cases h

theorem osSemaphoreSignal_cases {k k' : Kernel} {r : SemRef} {woken : Option TaskId}
    (h : osSemaphoreSignal k r = some (k', woken)) :
    ∃ s, k.sems r = some s ∧
      ((∃ u, 0 < s.waitCount ∧ s.waiting 0 = some u ∧ woken = some u ∧
        k' = (k.setSem r { s with
          waiting := Function.update (shiftSlots s.waiting (s.waitCount - 1)) (s.waitCount - 1) none,
          waitCount := s.waitCount - 1 }).setState u .ready) ∨
       (s.waitCount = 0 ∧ woken = none ∧
        k' = k.setSem r { s with count := wrap32 (s.count + 1) })) := by
  unfold osSemaphoreSignal at h
  split at h
  · cases h
  · rename_i s hs
    refine ⟨s, hs, ?_⟩
    split at h
    · rename_i waiters
      split at h
      · cases h
      · rename_i u first
        cases Option.some.inj h
        exact .inl ⟨u, waiters, first, rfl, rfl⟩
    · rename_i empty
      cases Option.some.inj h
      exact .inr ⟨by omega, rfl, rfl⟩

theorem osSemaphoreWait_eq_with {k k' : Kernel} {r : SemRef} {queued : Bool}
    (h : osSemaphoreWait k r = some (k', queued)) :
    ∃ pool sems, k' = { k with taskPool := pool, sems := sems } := by
  obtain ⟨s, -, ⟨-, -, rfl⟩ | ⟨-, -, -, rfl⟩⟩ := osSemaphoreWait_cases h
  · exact ⟨k.taskPool, _, rfl⟩
  · exact ⟨_, _, rfl⟩

theorem osSemaphoreSignal_eq_with {k k' : Kernel} {r : SemRef} {woken : Option TaskId}
    (h : osSemaphoreSignal k r = some (k', woken)) :
    ∃ pool sems, k' = { k with taskPool := pool, sems := sems } := by
  obtain ⟨s, -, ⟨u, -, -, -, rfl⟩ | ⟨-, -, rfl⟩⟩ := osSemaphoreSignal_cases h
  · exact ⟨_, _, rfl⟩
  · exact ⟨k.taskPool, _, rfl⟩

end Rtos
