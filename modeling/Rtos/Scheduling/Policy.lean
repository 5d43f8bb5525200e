import Rtos.System.Reachable

/-! `os_schedule` against the policy that its comment states: among the ready tasks of the
highest priority, the next one in creation order. -/
namespace Rtos
open Lib

/-- The reference policy: a most urgent candidate, and the first of its priority in the order
`c+1, c+2, ..., c+n` modulo `n`. -/
structure Policy (k : Kernel) (x : TaskId) : Prop where
  candidate : k.Candidate x
  highest : ∀ y, k.Candidate y → k.prio y ≤ k.prio x
  first : ∃ i < k.taskCount, x = (k.currentTaskIndex + (i + 1)) % k.taskCount ∧
    ∀ j < i, ∀ y, y = (k.currentTaskIndex + (j + 1)) % k.taskCount →
      k.Candidate y → k.prio y ≠ k.prio x

/-- The pool after `x` has been selected. -/
def selectedPool (k : Kernel) (x t : TaskId) : Tcb :=
  if t = x then
    { k.taskPool t with state := .running, runCount := (k.taskPool t).runCount + 1 }
  else if t = k.currentTask ∧ k.state t = .running then { k.taskPool t with state := .ready }
  else k.taskPool t

namespace Kernel.Named
variable {k : Kernel} {x : TaskId}

/-- The two passes compute the policy. -/
theorem policy_iff (h : k.Named) : Policy k x ↔ scheduled k = some x := by
  have index : k.currentTaskIndex < k.taskCount := by rw [h.index_eq]; exact h.current_lt
  rw [h.scheduled_some]
  constructor
  · rintro ⟨candidate, highest, i, hi, rfl, earlier⟩
    refine ⟨candidate, fun y hy => ⟨highest y hy, fun same => ?_⟩⟩
    rw [← h.index_eq, cyclicPos_add index hi]
    by_contra before
    exact earlier _ (Nat.lt_of_not_le before) y (add_cyclicPos index hy.1).symm hy same
  · rintro ⟨candidate, best⟩
    refine ⟨candidate, fun y hy => (best y hy).1, cyclicPos k.taskCount k.currentTaskIndex x,
      cyclicPos_lt index candidate.1, (add_cyclicPos index candidate.1).symm, ?_⟩
    rintro j hj y rfl hy same
    have le := (best _ hy).2 same
    have small : j < k.taskCount := Nat.lt_trans hj (cyclicPos_lt index candidate.1)
    rw [← h.index_eq, cyclicPos_add index small] at le
    omega

theorem policy_exists (h : k.Named) (some_candidate : ∃ t, k.Candidate t) : ∃ x, Policy k x := by
  have selects : scheduled k ≠ none := fun none =>
    some_candidate.elim (h.scheduled_none.mp none)
  obtain ⟨x, hx⟩ := Option.ne_none_iff_exists'.mp selects
  exact ⟨x, h.policy_iff.mpr hx⟩

end Kernel.Named

theorem Policy.unique {k : Kernel} {x y : TaskId} (named : k.Named) (hx : Policy k x)
    (hy : Policy k y) : y = x :=
  Option.some.inj ((named.policy_iff.mp hy).symm.trans (named.policy_iff.mp hx))

theorem releaseCurrent_pool (k : Kernel) (t : TaskId) : (releaseCurrent k).taskPool t =
    if t = k.currentTask ∧ k.state t = .running then { k.taskPool t with state := .ready }
    else k.taskPool t := by
  unfold releaseCurrent
  by_cases run : k.state k.currentTask = .running
  · rw [if_pos run]
    by_cases eq : t = k.currentTask
    · rw [if_pos ⟨eq, eq ▸ run⟩, eq]
      exact Function.update_self ..
    · rw [if_neg fun h => eq h.1]
      exact Function.update_of_ne eq ..
  · rw [if_neg run, if_neg]
    rintro ⟨rfl, still⟩
    exact run still

/-- A call that selects `x` writes the states of `x` and of a preempted task, one counter, and
the current task. -/
theorem osSchedule_selects {k : Kernel} {x : TaskId} (hx : scheduled k = some x) :
    osSchedule k =
      { k with taskPool := selectedPool k x, currentTask := x, currentTaskIndex := x } := by
  have pool : (selectTask (releaseCurrent k) x).taskPool = selectedPool k x := by
    funext t
    unfold selectedPool
    by_cases eq : t = x
    · subst eq
      simp only [selectTask, Kernel.setTask, Function.update_self, if_true, releaseCurrent_pool]
      split <;> rfl
    · simp only [selectTask, Kernel.setTask, Function.update_of_ne eq, if_neg eq,
        releaseCurrent_pool]
  obtain ⟨_, release⟩ := releaseCurrent_eq k
  rw [osSchedule_eq, hx, ← pool]
  simp only [selectTask, Kernel.setTask, release]

/-- `os_schedule` is its reference policy, whatever the states and priorities are. -/
theorem schedule_policy {k : Kernel} (current : k.currentTask < k.taskCount)
    (index : k.currentTaskIndex = k.currentTask) :
    ((∃ t, k.Candidate t) → ∃ x, Policy k x ∧ (∀ y, Policy k y → y = x) ∧ osSchedule k =
      { k with taskPool := selectedPool k x, currentTask := x, currentTaskIndex := x }) ∧
    ((∀ t, ¬ k.Candidate t) → osSchedule k = k) ∧
    (scanReady (releaseCurrent k) = none →
      (releaseCurrent k).state (releaseCurrent k).currentTask ≠ .ready) := by
  have named : k.Named := ⟨current, index⟩
  refine ⟨fun some_candidate => ?_, fun empty => ?_, fun none => ?_⟩
  · obtain ⟨x, hx⟩ := named.policy_exists some_candidate
    exact ⟨x, hx, fun y hy => hx.unique named hy, osSchedule_selects (named.policy_iff.mp hx)⟩
  · exact named.fallback (named.scheduled_none.mpr empty)
  · obtain ⟨same, notReady⟩ := named.released none
    rw [same]; exact notReady

/-- The first call in `main.c` selects the consumer. -/
theorem schedule_policy_main : ∃ k : Kernel, k.currentTask = 3 ∧ Policy k 2 ∧ osSchedule k =
    { k with taskPool := selectedPool k 2, currentTask := 2, currentTaskIndex := 2 } := by
  have trace : (bootKernel mainConfig).any (fun k => k.currentTask = 3 ∧
      k.currentTask < k.taskCount ∧ k.currentTaskIndex = k.currentTask ∧ 2 < k.taskCount ∧
      k.state 2 = .ready ∧ scheduled k = some 2) = true := by decide
  obtain ⟨k, -, hp⟩ := (Option.any_eq_true _ _).mp trace
  obtain ⟨third, current, index, created, ready, selects⟩ := of_decide_eq_true hp
  obtain ⟨x, hx, only, eq⟩ := (schedule_policy current index).1 ⟨2, created, .inl ready⟩
  have named : k.Named := ⟨current, index⟩
  obtain rfl : 2 = x := only 2 (named.policy_iff.mpr selects)
  exact ⟨k, third, hx, eq⟩

end Rtos
