import Rtos.Kernel.Sync
import Rtos.System.Boot

/-! The wait queues of all semaphores at once, as lists, and what each critical section
does to them. -/
namespace Rtos
open Lib

namespace Kernel

/-- The tasks in the first `wait_count` slots, in order. -/
def queue (k : Kernel) (r : SemRef) : List TaskId :=
  match k.sems r with
  | none => []
  | some s => (List.range s.waitCount).filterMap s.waiting

/-- The slots hold the queues, and the blocked tasks are exactly the queued ones, each
queued once. -/
structure Queued (k : Kernel) : Prop where
  hold : ∀ r s, k.sems r = some s → SlotsHold s.waiting s.waitCount (k.queue r)
  blocked : ∀ t, t < k.taskCount → (k.state t = .blocked ↔ ∃ r, t ∈ k.queue r)
  created : ∀ r t, t ∈ k.queue r → t < k.taskCount
  nodup : ∀ r, (k.queue r).Nodup
  once : ∀ r r' t, t ∈ k.queue r → t ∈ k.queue r' → r = r'

theorem queue_eq {k : Kernel} {r : SemRef} {s : Semaphore} {q : List TaskId}
    (hs : k.sems r = some s) (h : SlotsHold s.waiting s.waitCount q) : k.queue r = q := by
  simp only [queue, hs]; exact h.toList

theorem queue_none {k : Kernel} {r : SemRef} (hs : k.sems r = none) : k.queue r = [] := by
  simp only [queue, hs]

theorem queue_congr {k k' : Kernel} {r : SemRef} (h : k'.sems r = k.sems r) :
    k'.queue r = k.queue r := by
  simp only [queue, h]

theorem Queued.congr {k k' : Kernel} (h : k.Queued) (sems : k'.sems = k.sems)
    (count : k'.taskCount = k.taskCount)
    (same : ∀ t, t < k.taskCount → (k'.state t = .blocked ↔ k.state t = .blocked)) :
    k'.Queued := by
  have queue : ∀ r, k'.queue r = k.queue r := fun r => queue_congr (congrFun sems r)
  constructor
  · intro r s hs
    rw [queue]; exact h.hold r s (by rw [← sems]; exact hs)
  · intro t ht
    rw [count] at ht
    simp only [queue]
    exact (same t ht).trans (h.blocked t ht)
  · intro r t ht
    rw [queue] at ht
    rw [count]; exact h.created r t ht
  · intro r
    rw [queue]; exact h.nodup r
  · intro r r' t ht ht'
    rw [queue] at ht ht'
    exact h.once r r' t ht ht'

theorem Queued.not_mem {k : Kernel} (h : k.Queued) {t : TaskId} (ht : t < k.taskCount)
    (awake : k.state t ≠ .blocked) (r : SemRef) : t ∉ k.queue r :=
  fun mem => awake ((h.blocked t ht).mpr ⟨r, mem⟩)

theorem Queued.state_of_mem {k : Kernel} (h : k.Queued) {r : SemRef} {t : TaskId}
    (mem : t ∈ k.queue r) : k.state t = .blocked :=
  (h.blocked t (h.created r t mem)).mpr ⟨r, mem⟩

theorem queue_setCount {k : Kernel} {r : SemRef} {s : Semaphore} (hs : k.sems r = some s)
    (n : Int) (r' : SemRef) : (k.setSem r { s with count := n }).queue r' = k.queue r' := by
  by_cases eq : r' = r
  · subst eq; simp [queue, hs]
  · exact queue_congr (by simp [eq])

theorem Queued.setCount {k : Kernel} (h : k.Queued) {r : SemRef} {s : Semaphore}
    (hs : k.sems r = some s) (n : Int) : (k.setSem r { s with count := n }).Queued := by
  have queue := queue_setCount hs n
  constructor
  · intro r' s' hs'
    rw [queue]
    by_cases eq : r' = r
    · subst eq
      simp only [setSem_sems, if_true, Option.some.injEq] at hs'
      subst hs'; exact h.hold _ s hs
    · simp only [setSem_sems, if_neg eq] at hs'
      exact h.hold r' s' hs'
  · intro t ht
    simp only [queue]; exact h.blocked t ht
  · intro r' t ht
    rw [queue] at ht; exact h.created r' t ht
  · intro r'
    rw [queue]; exact h.nodup r'
  · intro r₁ r₂ t h₁ h₂
    rw [queue] at h₁ h₂; exact h.once r₁ r₂ t h₁ h₂

/-- The kernel after the slow path of `osSemaphoreWait`. -/
def enqueue (k : Kernel) (r : SemRef) (s : Semaphore) (t : TaskId) : Kernel :=
  (k.setSem r { s with
    waiting := Function.update s.waiting s.waitCount (some t),
    waitCount := s.waitCount + 1 }).setState t .blocked

/-- The kernel after the hand-over of `osSemaphoreSignal`. -/
def dequeue (k : Kernel) (r : SemRef) (s : Semaphore) (u : TaskId) : Kernel :=
  (k.setSem r { s with
    waiting := Function.update (shiftSlots s.waiting (s.waitCount - 1)) (s.waitCount - 1) none,
    waitCount := s.waitCount - 1 }).setState u .ready

section frame
variable (k : Kernel) (r r' : SemRef) (s : Semaphore) (t u : TaskId)

@[simp, grind =] theorem enqueue_state :
    (k.enqueue r s t).state u = if u = t then .blocked else k.state u := by
  simp [enqueue]

@[simp, grind =] theorem dequeue_state :
    (k.dequeue r s t).state u = if u = t then .ready else k.state u := by
  simp [dequeue]

theorem enqueue_sems : (k.enqueue r s t).sems r' = if r' = r then some { s with
    waiting := Function.update s.waiting s.waitCount (some t),
    waitCount := s.waitCount + 1 } else k.sems r' := by
  simp [enqueue]

theorem dequeue_sems : (k.dequeue r s t).sems r' = if r' = r then some { s with
    waiting := Function.update (shiftSlots s.waiting (s.waitCount - 1)) (s.waitCount - 1) none,
    waitCount := s.waitCount - 1 } else k.sems r' := by
  simp [dequeue]

@[simp, grind =] theorem enqueue_prio : (k.enqueue r s t).prio u = k.prio u := by
  simp [enqueue]

@[simp, grind =] theorem dequeue_prio : (k.dequeue r s t).prio u = k.prio u := by
  simp [dequeue]
end frame

theorem Queued.queue_enqueue {k : Kernel} (h : k.Queued) {r : SemRef} {s : Semaphore}
    (hs : k.sems r = some s) (t : TaskId) (r' : SemRef) :
    (k.enqueue r s t).queue r' = if r' = r then k.queue r ++ [t] else k.queue r' := by
  by_cases eq : r' = r
  · subst eq
    rw [if_pos rfl]
    exact queue_eq (by rw [enqueue_sems, if_pos rfl]) ((h.hold _ s hs).append t)
  · rw [if_neg eq]
    exact queue_congr (by rw [enqueue_sems, if_neg eq])

theorem Queued.enqueue {k : Kernel} (h : k.Queued) {r : SemRef} {s : Semaphore}
    (hs : k.sems r = some s) {t : TaskId} (ht : t < k.taskCount)
    (awake : k.state t ≠ .blocked) : (k.enqueue r s t).Queued := by
  have queue := h.queue_enqueue hs t
  have out := h.not_mem ht awake
  have mem : ∀ r' u, u ∈ (k.enqueue r s t).queue r' ↔ u ∈ k.queue r' ∨ (r' = r ∧ u = t) := by
    intro r' u
    rw [queue]
    by_cases eq : r' = r
    · subst eq; simp
    · simp [eq]
  constructor
  · intro r' s' hs'
    rw [queue]
    rw [enqueue_sems] at hs'
    by_cases eq : r' = r
    · rw [if_pos eq] at hs' ⊢
      cases hs'
      exact (h.hold _ s hs).append t
    · rw [if_neg eq] at hs' ⊢
      exact h.hold r' s' hs'
  · intro u hu
    have old := h.blocked u hu
    simp only [mem, enqueue_state]
    by_cases eq : u = t
    · subst eq; simp
    · simpa [eq] using old
  · intro r' u hu
    rcases (mem r' u).mp hu with old | ⟨-, rfl⟩
    · exact h.created r' u old
    · exact ht
  · intro r'
    rw [queue]
    by_cases eq : r' = r
    · rw [if_pos eq]
      exact List.Nodup.append (h.nodup r) (List.nodup_singleton t)
        (List.disjoint_singleton.mpr (out r))
    · rw [if_neg eq]; exact h.nodup r'
  · intro r₁ r₂ u h₁ h₂
    rcases (mem r₁ u).mp h₁ with old₁ | ⟨rfl, rfl⟩ <;> rcases (mem r₂ u).mp h₂ with old₂ | ⟨eq₂, eq⟩
    · exact h.once r₁ r₂ u old₁ old₂
    · subst eq; exact absurd old₁ (out r₁)
    · exact absurd old₂ (out r₂)
    · exact eq₂.symm

theorem Queued.head {k : Kernel} (h : k.Queued) {r : SemRef} {s : Semaphore} {u : TaskId}
    (hs : k.sems r = some s) (first : s.waiting 0 = some u) : ∃ q, k.queue r = u :: q := by
  have hold := h.hold r s hs
  rw [hold.first] at first
  cases hq : k.queue r with
  | nil => rw [hq] at first; cases first
  | cons v q => rw [hq] at first; cases first; exact ⟨q, rfl⟩

theorem Queued.queue_dequeue {k : Kernel} (h : k.Queued) {r : SemRef} {s : Semaphore}
    {u : TaskId} {q : List TaskId} (hs : k.sems r = some s) (hq : k.queue r = u :: q)
    (r' : SemRef) : (k.dequeue r s u).queue r' = if r' = r then q else k.queue r' := by
  by_cases eq : r' = r
  · subst eq
    have hold := h.hold _ s hs
    rw [hq] at hold
    rw [if_pos rfl]
    exact queue_eq (by rw [dequeue_sems, if_pos rfl]) hold.takeFirst
  · rw [if_neg eq]
    exact queue_congr (by rw [dequeue_sems, if_neg eq])

theorem Queued.dequeue {k : Kernel} (h : k.Queued) {r : SemRef} {s : Semaphore}
    {u : TaskId} {q : List TaskId} (hs : k.sems r = some s) (hq : k.queue r = u :: q) :
    (k.dequeue r s u).Queued := by
  have queue := h.queue_dequeue hs hq
  have nodup := h.nodup r
  rw [hq] at nodup
  have head : u ∈ k.queue r := by rw [hq]; exact List.mem_cons_self
  have mem : ∀ r' v, v ∈ (k.dequeue r s u).queue r' ↔ v ∈ k.queue r' ∧ v ≠ u := by
    intro r' v
    rw [queue]
    by_cases eq : r' = r
    · subst eq
      rw [if_pos rfl, hq, List.mem_cons]
      constructor
      · intro hv
        exact ⟨.inr hv, fun e => (List.nodup_cons.mp nodup).1 (e ▸ hv)⟩
      · rintro ⟨rfl | hv, ne⟩
        · exact absurd rfl ne
        · exact hv
    · rw [if_neg eq]
      refine ⟨fun hv => ⟨hv, ?_⟩, fun hv => hv.1⟩
      rintro rfl
      exact eq (h.once r' r v hv head)
  constructor
  · intro r' s' hs'
    rw [queue]
    rw [dequeue_sems] at hs'
    by_cases eq : r' = r
    · rw [if_pos eq] at hs' ⊢
      cases hs'
      have hold := h.hold _ s hs
      rw [hq] at hold
      exact hold.takeFirst
    · rw [if_neg eq] at hs' ⊢
      exact h.hold r' s' hs'
  · intro v hv
    have old := h.blocked v hv
    simp only [mem, dequeue_state]
    by_cases eq : v = u
    · simp [eq]
    · simpa [eq] using old
  · intro r' v hv
    exact h.created r' v ((mem r' v).mp hv).1
  · intro r'
    rw [queue]
    by_cases eq : r' = r
    · rw [if_pos eq]; exact (List.nodup_cons.mp nodup).2
    · rw [if_neg eq]; exact h.nodup r'
  · intro r₁ r₂ v h₁ h₂
    exact h.once r₁ r₂ v ((mem r₁ v).mp h₁).1 ((mem r₂ v).mp h₂).1

theorem queue_init {k : Kernel} {i : Init} (fresh : k.sems i.ref = none) (r : SemRef) :
    (i.apply k).queue r = k.queue r := by
  by_cases eq : r = i.ref
  · rw [eq, queue_none fresh]
    exact queue_eq (by rw [Init.apply_sems, if_pos rfl]) (SlotsHold.nil fun _ => rfl)
  · exact queue_congr (by rw [Init.apply_sems, if_neg eq])

theorem Queued.init {k : Kernel} (h : k.Queued) {i : Init} (fresh : k.sems i.ref = none) :
    (i.apply k).Queued := by
  have queue := queue_init fresh
  constructor
  · intro r s hs
    rw [queue]
    rw [Init.apply_sems] at hs
    split at hs
    · rename_i eq
      cases hs
      rw [eq, queue_none fresh]; exact SlotsHold.nil fun _ => rfl
    · exact h.hold r s hs
  · intro t ht
    simp only [queue, Init.apply_state]
    exact h.blocked t (by simpa using ht)
  · intro r t ht
    rw [queue] at ht
    simpa using h.created r t ht
  · intro r
    rw [queue]; exact h.nodup r
  · intro r₁ r₂ t h₁ h₂
    rw [queue] at h₁ h₂; exact h.once r₁ r₂ t h₁ h₂

/-- A task that is never queued leaves room for every append. -/
theorem Queued.length_lt {k : Kernel} (h : k.Queued) {idle : TaskId}
    (created : idle < k.taskCount) (awake : k.state idle ≠ .blocked) (r : SemRef) :
    (k.queue r).length < k.taskCount := by
  have out : idle ∉ k.queue r := h.not_mem created awake r
  have sub : idle :: k.queue r ⊆ List.range k.taskCount := by
    intro t ht
    rcases List.mem_cons.mp ht with rfl | mem
    · exact List.mem_range.mpr created
    · exact List.mem_range.mpr (h.created r t mem)
  have len := ((List.nodup_cons.mpr ⟨out, h.nodup r⟩).subperm sub).length_le
  simp only [List.length_cons, List.length_range] at len
  omega

end Kernel

theorem osSemaphoreWait_effect {k k' : Kernel} {r : SemRef} {queued : Bool}
    (h : osSemaphoreWait k r = some (k', queued)) : ∃ s, k.sems r = some s ∧
      ((queued = false ∧ 0 < s.count ∧ k' = k.setSem r { s with count := s.count - 1 }) ∨
       (queued = true ∧ s.count ≤ 0 ∧ s.waitCount < maxTasks ∧
        k' = k.enqueue r s k.currentTask)) := by
  obtain ⟨s, hs, ⟨free, rfl, rfl⟩ | ⟨taken, room, rfl, rfl⟩⟩ := osSemaphoreWait_cases h
  · exact ⟨s, hs, .inl ⟨rfl, free, rfl⟩⟩
  · exact ⟨s, hs, .inr ⟨rfl, taken, room, rfl⟩⟩

/-- `osSemaphoreSignal` by name: the first waiter gets the token, or the counter does. -/
theorem osSemaphoreSignal_effect {k k' : Kernel} {r : SemRef} {woken : Option TaskId}
    (inv : k.Queued) (h : osSemaphoreSignal k r = some (k', woken)) : ∃ s, k.sems r = some s ∧
      ((∃ u q, woken = some u ∧ k.queue r = u :: q ∧ k' = k.dequeue r s u) ∨
       (woken = none ∧ k.queue r = [] ∧ k' = k.setSem r { s with count := wrap32 (s.count + 1) })) := by
  obtain ⟨s, hs, ⟨u, _, first, rfl, rfl⟩ | ⟨empty, rfl, rfl⟩⟩ := osSemaphoreSignal_cases h
  · obtain ⟨q, hq⟩ := inv.head hs first
    exact ⟨s, hs, .inl ⟨u, q, rfl, hq, rfl⟩⟩
  · exact ⟨s, hs, .inr ⟨rfl, (inv.hold r s hs).empty_iff.mp empty, rfl⟩⟩

end Rtos
