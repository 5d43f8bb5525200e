import Rtos.Scheduling.Policy
import Rtos.Scheduling.RoundRobin

/-! How long a ready task of the highest priority waits. The tasks that compete with it may
change from call to call; its distance from `current_task_index` still shrinks with every
selection. -/
namespace Rtos
open Lib

/-- What happens between two calls of `os_schedule`: anything, as long as no task is created and
only `os_schedule` moves the current task. -/
structure Interlude (k k' : Kernel) : Prop where
  count : k'.taskCount = k.taskCount
  current : k'.currentTask = k.currentTask
  index : k'.currentTaskIndex = k.currentTaskIndex

/-- How many indices stand before `b` in the scan order. -/
def distance (k : Kernel) (b : TaskId) : Nat := cyclicPos k.taskCount k.currentTaskIndex b

theorem Interlude.named {k k' : Kernel} (h : Interlude k k') (named : k.Named) : k'.Named := by
  constructor
  · rw [h.current, h.count]; exact named.current_lt
  · rw [h.index, h.current]; exact named.index_eq

theorem Interlude.distance {k k' : Kernel} (h : Interlude k k') (b : TaskId) :
    distance k' b = distance k b := by
  rw [Rtos.distance, Rtos.distance, h.count, h.index]

/-- Every step of the running system but the switch itself is part of one. -/
theorem step_interlude {s s' : System} {a : Action} (wf : s.k.Wf) (hstep : step s a = some s')
    (other : ¬ (a = .handler ∧ s.Switching)) : Interlude s.k s'.k := by
  have index := step_index hstep other
  refine ⟨step_taskCount hstep, ?_, index⟩
  rw [← (step_wf wf hstep).index_eq, index, wf.index_eq]

theorem osSchedule_named {k : Kernel} (h : k.Named) : (osSchedule k).Named := by
  cases hx : scheduled k with
  | none => rw [h.fallback hx]; exact h
  | some x =>
    have created := ((h.scheduled_some x).mp hx).1.1
    rw [osSchedule_selects hx]
    exact ⟨created, rfl⟩

/-- Selecting another task of its priority brings a ready task nearer. -/
theorem select_nearer {k : Kernel} {b x : TaskId} (named : k.Named) (created : b < k.taskCount)
    (ready : k.state b = .ready) (hx : scheduled k = some x) (other : x ≠ b)
    (level : k.prio x = k.prio b) : distance (osSchedule k) b < distance k b := by
  obtain ⟨candidate, best⟩ := (named.scheduled_some x).mp hx
  have index : k.currentTaskIndex < k.taskCount := by
    rw [named.index_eq]; exact named.current_lt
  have le := (best b ⟨created, .inl ready⟩).2 level.symm
  rw [← named.index_eq] at le
  have ne : cyclicPos k.taskCount k.currentTaskIndex x ≠ cyclicPos k.taskCount k.currentTaskIndex b :=
    fun same => other (cyclicPos_inj index candidate.1 created same)
  have nearer := cyclicPos_advance index candidate.1 created (Nat.lt_of_le_of_ne le ne)
  rw [distance, distance, osSchedule_taskCount, (osSchedule_current hx).2]
  omega

/-- The `m` calls of a sequence, where `ks i` is the kernel that call `i` finds. Up to the call
that selects `b`, each finds `b` ready and selects a task of its priority `p`. -/
structure Contest (ks : Nat → Kernel) (m n : Nat) (b : TaskId) (p : BitVec 8) : Prop where
  named : (ks 0).Named
  count : (ks 0).taskCount = n
  created : b < n
  between : ∀ i, i + 1 < m → Interlude (osSchedule (ks i)) (ks (i + 1))
  ready : ∀ i < m, (∀ j < i, scheduled (ks j) ≠ some b) →
    (ks i).state b = .ready ∧ (ks i).prio b = p
  level : ∀ i < m, (∀ j < i, scheduled (ks j) ≠ some b) →
    ∃ x, scheduled (ks i) = some x ∧ (ks i).prio x = p

namespace Contest
variable {ks : Nat → Kernel} {m n : Nat} {b : TaskId} {p : BitVec 8}

theorem kernel (h : Contest ks m n b p) {i : Nat} (hi : i < m) :
    (ks i).Named ∧ (ks i).taskCount = n := by
  induction i with
  | zero => exact ⟨h.named, h.count⟩
  | succ i ih =>
    obtain ⟨named, count⟩ := ih (Nat.lt_of_succ_lt hi)
    have quiet := h.between i hi
    exact ⟨quiet.named (osSchedule_named named),
      quiet.count.trans ((osSchedule_taskCount _).trans count)⟩

theorem nearer (h : Contest ks m n b p) {i : Nat} (hi : i < m)
    (waits : ∀ j ≤ i, scheduled (ks j) ≠ some b) :
    distance (osSchedule (ks i)) b < distance (ks i) b := by
  have before : ∀ j < i, scheduled (ks j) ≠ some b := fun j hj => waits j (Nat.le_of_lt hj)
  obtain ⟨named, count⟩ := h.kernel hi
  obtain ⟨ready, prio⟩ := h.ready i hi before
  obtain ⟨x, hx, level⟩ := h.level i hi before
  have other : x ≠ b := fun eq => waits i le_rfl (eq ▸ hx)
  exact select_nearer named (count ▸ h.created) ready hx other (level.trans prio.symm)

/-- While `b` waits, its distance falls by one at least with every call. -/
theorem approach (h : Contest ks m n b p) {i j : Nat} (le : i ≤ j) (hj : j < m)
    (waits : ∀ l < j, scheduled (ks l) ≠ some b) :
    distance (ks j) b + (j - i) ≤ distance (ks i) b := by
  induction j, le using Nat.le_induction with
  | base => omega
  | succ j le ih =>
    have far := ih (Nat.lt_of_succ_lt hj) fun l hl => waits l (Nat.lt_succ_of_lt hl)
    have step := h.nearer (Nat.lt_of_succ_lt hj) fun l hl => waits l (Nat.lt_succ_of_le hl)
    have same := (h.between j hj).distance b
    omega

end Contest

/-- A ready task of the highest priority is selected at the `n`-th call at the latest, and before
that no other task is selected twice. -/
theorem bounded_waiting {ks : Nat → Kernel} {m n : Nat} {b : TaskId} {p : BitVec 8}
    (h : Contest ks m n b p) :
    (n ≤ m → ∃ i < n, scheduled (ks i) = some b) ∧
    ∀ i j, i < j → j < m → (∀ l ≤ j, scheduled (ks l) ≠ some b) →
      scheduled (ks i) ≠ scheduled (ks j) := by
  constructor
  · intro enough
    by_contra never
    have pos : 0 < n := Nat.zero_lt_of_lt h.created
    have waits : ∀ l ≤ n - 1, scheduled (ks l) ≠ some b := by
      intro l hl selected
      exact never ⟨l, by omega, selected⟩
    have index : (ks 0).currentTaskIndex < (ks 0).taskCount := by
      rw [h.named.index_eq]; exact h.named.current_lt
    have start : distance (ks 0) b < (ks 0).taskCount :=
      cyclicPos_lt index (h.count.symm ▸ h.created)
    have walked := h.approach (Nat.zero_le (n - 1)) (by omega)
      fun l hl => waits l (Nat.le_of_lt hl)
    have last := h.nearer (i := n - 1) (by omega) waits
    rw [h.count] at start
    omega
  · intro i j lt hj waits same
    have early : ∀ l ≤ i, scheduled (ks l) ≠ some b := fun l hl => waits l (by omega)
    obtain ⟨x, hx, -⟩ := h.level i (by omega) fun l hl => early l (Nat.le_of_lt hl)
    have walked := h.approach (i := i + 1) lt hj fun l hl => waits l (Nat.le_of_lt hl)
    have last := h.nearer hj waits
    have next := (h.between i (by omega)).distance b
    -- both calls leave `x` current, so `b` is equally far from both
    have count := (h.kernel hj).2.trans (h.kernel (i := i) (by omega)).2.symm
    have equal : distance (osSchedule (ks j)) b = distance (osSchedule (ks i)) b := by
      rw [distance, distance, osSchedule_taskCount, osSchedule_taskCount, count,
        (osSchedule_current hx).2, (osSchedule_current (same ▸ hx)).2]
    omega

/-- The counter task of `main.c` while the consumer waits: the led task goes first. -/
theorem bounded_waiting_counter : ∃ k : Kernel, scheduled k = some 0 ∧
    ∃ i < 4, scheduled (osSchedule^[i] k) = some 1 := by
  have trace : (bootKernel mainConfig).any (fun k =>
      let k := k.setState 2 .blocked
      k.currentTask < k.taskCount ∧ k.currentTaskIndex = k.currentTask ∧ k.taskCount = 4 ∧
      (k.state 1 = .ready ∧ k.prio 1 = 1) ∧ (scheduled k = some 0 ∧ k.prio 0 = 1) ∧
      ((osSchedule k).state 1 = .ready ∧ (osSchedule k).prio 1 = 1) ∧
      scheduled (osSchedule k) = some 1) = true := by decide
  obtain ⟨k, -, hp⟩ := (Option.any_eq_true _ _).mp trace
  obtain ⟨current, index, count, ready, led, still, counter⟩ := of_decide_eq_true hp
  have contest : Contest (fun i => osSchedule^[i] (k.setState 2 .blocked)) 4 4 1 1 := by
    refine ⟨⟨current, index⟩, count, by decide, ?_, ?_, ?_⟩
    · intro i _
      rw [Function.iterate_succ_apply']
      exact ⟨rfl, rfl, rfl⟩
    · rintro (_ | _ | i) _ waits
      · exact ready
      · exact still
      · exact absurd counter (waits 1 (by omega))
    · rintro (_ | _ | i) _ waits
      · exact ⟨0, led⟩
      · exact ⟨1, counter, still.2⟩
      · exact absurd counter (waits 1 (by omega))
  exact ⟨_, led.1, (bounded_waiting contest).1 le_rfl⟩

end Rtos
