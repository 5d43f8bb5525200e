import Rtos.System.Reachable

/-! Which tasks stand in the wait queues, for all semaphores and mutexes at once. -/
namespace Rtos
open Lib

namespace Kernel

/-- `t` is in slot `i` of the first `wait_count` slots of `r`. -/
def InSlot (k : Kernel) (r : SemRef) (i : Nat) (t : TaskId) : Prop :=
  ∃ s, k.sems r = some s ∧ i < s.waitCount ∧ s.waiting i = some t

/-- The state fields and the wait arrays agree, and every array has room for one more. -/
structure Membership (k : Kernel) : Prop where
  blocked : ∀ t, t < k.taskCount → (k.state t = .blocked ↔ ∃ r i, k.InSlot r i t)
  once : ∀ t r i r' i', k.InSlot r i t → k.InSlot r' i' t → r = r' ∧ i = i'
  free : ∀ r s, k.sems r = some s → ∀ i, s.waitCount ≤ i → s.waiting i = none
  used : ∀ r s, k.sems r = some s → ∀ i, i < s.waitCount →
    ∃ t, s.waiting i = some t ∧ t < k.taskCount
  room : ∀ r s, k.sems r = some s → s.waitCount ≤ k.taskCount - 1 ∧ s.waitCount < maxTasks

theorem Queued.inSlot_iff {k : Kernel} (h : k.Queued) {r : SemRef} {i : Nat} {t : TaskId} :
    k.InSlot r i t ↔ (k.queue r)[i]? = some t := by
  constructor
  · rintro ⟨s, hs, -, slot⟩
    rw [← (h.hold r s hs).2 i]; exact slot
  · intro at_
    cases hs : k.sems r with
    | none => rw [queue_none hs] at at_; cases at_
    | some s =>
      have hold := h.hold r s hs
      refine ⟨s, hs, ?_, by rw [hold.2 i]; exact at_⟩
      rw [hold.1]; exact (List.getElem?_eq_some_iff.mp at_).1

theorem Queued.mem_iff_inSlot {k : Kernel} (h : k.Queued) {r : SemRef} {t : TaskId} :
    t ∈ k.queue r ↔ ∃ i, k.InSlot r i t := by
  simp only [h.inSlot_iff, List.mem_iff_getElem?]

theorem Queued.membership {k : Kernel} (h : k.Queued) {idle : TaskId}
    (count_le : k.taskCount ≤ maxTasks) (created : idle < k.taskCount)
    (awake : k.state idle ≠ .blocked) : k.Membership := by
  constructor
  · intro t ht
    rw [h.blocked t ht]
    exact exists_congr fun r => h.mem_iff_inSlot
  · intro t r i r' i' at_ at'
    have eq : r = r' := h.once r r' t (h.mem_iff_inSlot.mpr ⟨i, at_⟩) (h.mem_iff_inSlot.mpr ⟨i', at'⟩)
    subst eq
    refine ⟨rfl, ?_⟩
    rw [h.inSlot_iff] at at_ at'
    exact (List.getElem?_inj (List.getElem?_eq_some_iff.mp at_).1 (h.nodup r)).mp (at_.trans at'.symm)
  · intro r s hs i behind
    have hold := h.hold r s hs
    rw [hold.2 i]
    exact List.getElem?_eq_none (hold.1 ▸ behind)
  · intro r s hs i below
    have hold := h.hold r s hs
    rw [hold.1] at below
    refine ⟨(k.queue r)[i], ?_, h.created r _ (List.getElem_mem below)⟩
    rw [hold.2 i]; exact List.getElem?_eq_getElem below
  · intro r s hs
    have short := h.length_lt created awake r
    rw [(h.hold r s hs).1]
    omega

end Kernel

/-- No instruction of `SysTick_Handler` changes the state of a blocked task. -/
theorem InvAt.tick_blocked {k : Kernel} {pc : TaskId → Pc} {p : TickPc}
    {rest : List Frame} (h : InvAt k pc (.sysTick p :: rest)) (more : p ≠ .leave) {t : TaskId}
    (blocked : k.state t = .blocked) : (tickStep k p).1.state t = .blocked := by
  have tick := tickStep_cases k more
  generalize (tickStep k p).1 = k', (tickStep k p).2 = p' at tick ⊢
  cases tick with
  | enter | asleep | awake | done | due | notDue | notStarted | pend => exact blocked
  | @wake i =>
    have asleep := (h.scanning i (.inr List.mem_cons_self)).2
    have other : t ≠ i := fun eq => by rw [eq, asleep] at blocked; cases blocked
    rw [Kernel.state_setState, if_neg other]; exact blocked
  | charge => rw [chargeCurrent_state]; exact blocked

theorem signal_state {k k' : Kernel} {r : SemRef} {woken : Option TaskId} (h : k.Queued)
    (result : osSemaphoreSignal k r = some (k', woken)) {t : TaskId}
    (free : k.state t ≠ .blocked) : k'.state t = k.state t := by
  obtain ⟨s, -, ⟨u, q, -, hq, rfl⟩ | ⟨-, -, rfl⟩⟩ := osSemaphoreSignal_effect h result
  · have blocked := h.state_of_mem (r := r) (by rw [hq]; exact List.mem_cons_self)
    have other : t ≠ u := fun eq => free (eq ▸ blocked)
    rw [Kernel.dequeue_state, if_neg other]
  · rfl

/-- In every reachable state a task is blocked exactly when it is in a wait queue, in one
place; the queues never overflow; SysTick wakes no queued task, and a signal wakes none
but a queued one. -/
theorem wait_queue_membership {cfg : Config} {idle : TaskId} {s : System}
    (h : Reachable cfg idle s) :
    s.k.Membership ∧
    (∀ r, s.k.sems r ≠ none → osSemaphoreWait s.k r ≠ none) ∧
    (∀ p rest s' r i t, s.frames = .sysTick p :: rest → step s .handler = some s' →
      s.k.InSlot r i t → s'.k.state t = .blocked) ∧
    ∀ r k' woken t, osSemaphoreSignal s.k r = some (k', woken) → s.k.state t ≠ .blocked →
      k'.state t = s.k.state t := by
  obtain ⟨inv, created, awake⟩ := h.idleInv
  have membership : s.k.Membership :=
    inv.queued.membership inv.wf.count_le created awake.not_blocked
  refine ⟨membership, ?_, ?_, ?_⟩
  · intro r initialised undefined
    obtain ⟨sem, hs⟩ := Option.ne_none_iff_exists'.mp initialised
    have room := (membership.room r sem hs).2
    simp only [osSemaphoreWait, hs, if_pos room] at undefined
    split at undefined <;> cases undefined
  · intro p rest s' r i t frames hstep slot
    have blocked := inv.queued.state_of_mem (inv.queued.mem_iff_inSlot.mpr ⟨i, slot⟩)
    cases step_cases hstep with
    | tickLeave frames' => exact blocked
    | @tick p' _ frames' more =>
      have at_ := inv.at_frames frames'
      exact at_.tick_blocked more blocked
    | isrYield frames' | switch frames' => rw [frames] at frames'; cases frames'
    | nothing => exact blocked
    | signal thread => rw [thread.frames] at frames; cases frames
  · intro r k' woken t result free
    exact signal_state inv.queued result free

/-- `main` when the consumer waits for the first blink. -/
theorem wait_queue_membership_consumer : ∃ s : System, s.k.state 2 = .blocked ∧ s.k.Membership := by
  obtain ⟨s, h, blocked⟩ := reachable_of_exec mainConfig 3
    [.pendSv, .handler, .call (.wait 0), .task, .pendSv, .handler]
    (fun s => s.k.state 2 = .blocked) (by decide) (by decide)
  exact ⟨s, of_decide_eq_true blocked, (wait_queue_membership h).1⟩

end Rtos
