import Rtos.Kernel.Types
import Rtos.Lib.Cyclic

/-! `os_schedule` of `scheduler.c`: step 0, the two passes and the fallback. -/
namespace Rtos
open Lib

/-- Step 0: a preempted task goes back to the ready pool. -/
def releaseCurrent (k : Kernel) : Kernel :=
  if k.state k.currentTask = .running then k.setState k.currentTask .ready else k

/-- Pass 1 after its first iterations: `(max_prio, any_ready)`. -/
def maxReadyPrio (k : Kernel) : Nat → BitVec 8 × Bool
  | 0 => (0, false)
  | i + 1 =>
    let (maxPrio, anyReady) := maxReadyPrio k i
    if k.state i = .ready ∧ (anyReady = false ∨ maxPrio < k.prio i) then (k.prio i, true)
    else (maxPrio, anyReady)

/-- Pass 2: the first ready task of that priority after `current_task_index`. -/
def nextReady (k : Kernel) (maxPrio : BitVec 8) : Option TaskId :=
  (cyclicOrder k.currentTaskIndex k.taskCount).find? fun idx =>
    decide (k.state idx = .ready ∧ k.prio idx = maxPrio)

/-- What the two passes find; `none` sends `os_schedule` to its fallback. -/
def scanReady (k : Kernel) : Option TaskId :=
  let (maxPrio, anyReady) := maxReadyPrio k k.taskCount
  if anyReady then nextReady k maxPrio else none

def selectTask (k : Kernel) (idx : TaskId) : Kernel :=
  { k.setTask idx { k.taskPool idx with
      state := .running, runCount := (k.taskPool idx).runCount + 1 } with
    currentTaskIndex := idx, currentTask := idx }

def scheduleFallback (k : Kernel) : Kernel :=
  if k.state k.currentTask = .ready then k.setState k.currentTask .running else k

def osSchedule (k : Kernel) : Kernel :=
  let k := releaseCurrent k
  match scanReady k with
  | some idx => selectTask k idx
  | none => scheduleFallback k

/-- The task this call of `os_schedule` selects, if any. -/
def scheduled (k : Kernel) : Option TaskId := scanReady (releaseCurrent k)

namespace Kernel

/-- What pass 1 and pass 2 see as ready after step 0. -/
def Candidate (k : Kernel) (t : TaskId) : Prop :=
  t < k.taskCount ∧ (k.state t = .ready ∨ t = k.currentTask ∧ k.state t = .running)

/-- The pointer and the index name one created task. -/
structure Named (k : Kernel) : Prop where
  current_lt : k.currentTask < k.taskCount
  index_eq : k.currentTaskIndex = k.currentTask

/-- The pointer and the index name one created task, and only it may be running. -/
structure Wf (k : Kernel) : Prop where
  count_le : k.taskCount ≤ maxTasks
  current_lt : k.currentTask < k.taskCount
  index_eq : k.currentTaskIndex = k.currentTask
  running : ∀ t, t < k.taskCount → k.state t = .running → t = k.currentTask

theorem Wf.named {k : Kernel} (h : k.Wf) : k.Named := ⟨h.current_lt, h.index_eq⟩

end Kernel

section release
variable (k : Kernel) (t : TaskId)

theorem releaseCurrent_state :
    (releaseCurrent k).state t =
      if t = k.currentTask ∧ k.state t = .running then .ready else k.state t := by
  unfold releaseCurrent; grind

@[simp] theorem releaseCurrent_prio : (releaseCurrent k).prio t = k.prio t := by
  unfold releaseCurrent; split <;> simp

@[simp] theorem releaseCurrent_taskCount : (releaseCurrent k).taskCount = k.taskCount := by
  unfold releaseCurrent; split <;> rfl

@[simp] theorem releaseCurrent_currentTask : (releaseCurrent k).currentTask = k.currentTask := by
  unfold releaseCurrent; split <;> rfl

@[simp] theorem releaseCurrent_index :
    (releaseCurrent k).currentTaskIndex = k.currentTaskIndex := by
  unfold releaseCurrent; split <;> rfl

theorem releaseCurrent_ready :
    (t < k.taskCount ∧ (releaseCurrent k).state t = .ready) ↔ k.Candidate t := by
  rw [releaseCurrent_state]
  unfold Kernel.Candidate; grind

end release

theorem maxReadyPrio_congr {k k' : Kernel} (states : k'.state = k.state) (prios : k'.prio = k.prio)
    (n : Nat) : maxReadyPrio k' n = maxReadyPrio k n := by
  induction n with
  | zero => rfl
  | succ n ih => simp only [maxReadyPrio, ih, states, prios]

theorem scheduled_started (k : Kernel) (b : Bool) :
    scheduled { k with rtosStarted := b } = scheduled k := by
  have states : (releaseCurrent { k with rtosStarted := b }).state = (releaseCurrent k).state := by
    funext t
    simp only [releaseCurrent_state]
    rfl
  have prios : (releaseCurrent { k with rtosStarted := b }).prio = (releaseCurrent k).prio := by
    funext t
    simp only [releaseCurrent_prio]
    rfl
  unfold scheduled scanReady nextReady
  rw [maxReadyPrio_congr states prios]
  simp only [releaseCurrent_taskCount, releaseCurrent_index, states, prios]

/-- Pass 1: some ready task was seen, and the maximum over the ready tasks seen. -/
theorem maxReadyPrio_spec (k : Kernel) (n : Nat) :
    ((maxReadyPrio k n).2 = true ↔ ∃ i, i < n ∧ k.state i = .ready) ∧
    ((maxReadyPrio k n).2 = true →
      (∃ i, i < n ∧ k.state i = .ready ∧ k.prio i = (maxReadyPrio k n).1) ∧
      ∀ i, i < n → k.state i = .ready → k.prio i ≤ (maxReadyPrio k n).1) := by
  induction n with
  | zero => simp [maxReadyPrio]
  | succ n ih =>
    obtain ⟨seen, best⟩ := ih
    rw [maxReadyPrio]
    generalize maxReadyPrio k n = pass at seen best
    obtain ⟨maxPrio, anyReady⟩ := pass
    dsimp only at seen best ⊢
    split
    · rename_i better
      refine ⟨⟨fun _ => ⟨n, by omega, better.1⟩, fun _ => rfl⟩, fun _ => ⟨⟨n, by omega, better.1, rfl⟩, ?_⟩⟩
      intro i hi ready
      rcases Nat.lt_succ_iff_lt_or_eq.mp hi with below | rfl
      · have any : anyReady = true := seen.mpr ⟨i, below, ready⟩
        have above := (best any).2 i below ready
        rcases better.2 with none | higher
        · rw [any] at none; cases none
        · exact BitVec.le_trans above (BitVec.le_of_lt higher)
      · exact BitVec.le_refl _
    · rename_i kept
      refine ⟨⟨fun any => ?_, ?_⟩, fun any => ⟨?_, ?_⟩⟩
      · obtain ⟨i, hi, ready⟩ := seen.mp any
        exact ⟨i, by omega, ready⟩
      · rintro ⟨i, hi, ready⟩
        rcases Nat.lt_succ_iff_lt_or_eq.mp hi with below | rfl
        · exact seen.mpr ⟨i, below, ready⟩
        · by_contra missed
          exact kept ⟨ready, .inl (by simpa using missed)⟩
      · obtain ⟨i, hi, ready, eq⟩ := (best any).1
        exact ⟨i, by omega, ready, eq⟩
      · intro i hi ready
        rcases Nat.lt_succ_iff_lt_or_eq.mp hi with below | rfl
        · exact (best any).2 i below ready
        · by_contra higher
          exact kept ⟨ready, .inr (BitVec.not_le.mp higher)⟩

theorem scanReady_none (k : Kernel) (index : k.currentTaskIndex < k.taskCount) :
    scanReady k = none ↔ ∀ t, t < k.taskCount → k.state t ≠ .ready := by
  have pass := maxReadyPrio_spec k k.taskCount
  unfold scanReady nextReady
  generalize maxReadyPrio k k.taskCount = best at pass
  obtain ⟨maxPrio, anyReady⟩ := best
  dsimp only at pass ⊢
  cases anyReady with
  | false =>
    simp only [Bool.false_eq_true, if_false, true_iff]
    intro t ht ready
    exact Bool.false_ne_true (pass.1.mpr ⟨t, ht, ready⟩)
  | true =>
    simp only [if_true]
    rw [find?_cyclicOrder_none index]
    obtain ⟨t, ht, ready, eq⟩ := (pass.2 rfl).1
    constructor
    · intro none
      have miss := none t ht
      simp [ready, eq] at miss
    · intro none
      exact absurd ready (none t ht)

/-- The passes select the ready task of the highest priority that comes first after
`current_task_index`. -/
theorem scanReady_some (k : Kernel) (index : k.currentTaskIndex < k.taskCount) (x : TaskId) :
    scanReady k = some x ↔ x < k.taskCount ∧ k.state x = .ready ∧
      ∀ y, y < k.taskCount → k.state y = .ready → k.prio y ≤ k.prio x ∧
        (k.prio y = k.prio x → cyclicPos k.taskCount k.currentTaskIndex x ≤
          cyclicPos k.taskCount k.currentTaskIndex y) := by
  have pass := maxReadyPrio_spec k k.taskCount
  unfold scanReady nextReady
  generalize maxReadyPrio k k.taskCount = best at pass
  obtain ⟨maxPrio, anyReady⟩ := best
  dsimp only at pass ⊢
  cases anyReady with
  | false =>
    simp only [Bool.false_eq_true, if_false, reduceCtorEq, false_iff]
    rintro ⟨hx, ready, -⟩
    exact Bool.false_ne_true (pass.1.mpr ⟨x, hx, ready⟩)
  | true =>
    simp only [if_true]
    rw [find?_cyclicOrder index]
    simp only [decide_eq_true_eq]
    obtain ⟨⟨top, htop, topReady, topPrio⟩, upper⟩ := pass.2 rfl
    constructor
    · rintro ⟨hx, ⟨ready, eq⟩, first⟩
      refine ⟨hx, ready, ?_⟩
      intro y hy yready
      refine ⟨by rw [eq]; exact upper y hy yready, ?_⟩
      intro same
      exact first y hy ⟨yready, same.trans eq⟩
    · rintro ⟨hx, ready, best⟩
      have eq : k.prio x = maxPrio := by
        apply BitVec.le_antisymm (upper x hx ready)
        rw [← topPrio]
        exact (best top htop topReady).1
      refine ⟨hx, ⟨ready, eq⟩, ?_⟩
      rintro y hy ⟨yready, yprio⟩
      exact (best y hy yready).2 (yprio.trans eq.symm)

namespace Kernel.Named
variable {k : Kernel}

theorem released_index (h : k.Named) :
    (releaseCurrent k).currentTaskIndex < (releaseCurrent k).taskCount := by
  simpa [h.index_eq] using h.current_lt

theorem scheduled_none (h : k.Named) : scheduled k = none ↔ ∀ t, ¬ k.Candidate t := by
  rw [scheduled, scanReady_none _ h.released_index]
  simp only [← releaseCurrent_ready, releaseCurrent_taskCount, ne_eq, not_and]

theorem scheduled_some (h : k.Named) (x : TaskId) :
    scheduled k = some x ↔ k.Candidate x ∧
      ∀ y, k.Candidate y → k.prio y ≤ k.prio x ∧
        (k.prio y = k.prio x → cyclicPos k.taskCount k.currentTask x ≤
          cyclicPos k.taskCount k.currentTask y) := by
  rw [scheduled, scanReady_some _ h.released_index]
  simp only [← releaseCurrent_ready, releaseCurrent_taskCount, releaseCurrent_prio,
    releaseCurrent_index, h.index_eq, and_assoc, and_imp]

end Kernel.Named

theorem scheduled_none {k : Kernel} (wf : k.Wf) :
    scheduled k = none ↔ ∀ t, ¬ k.Candidate t :=
  wf.named.scheduled_none

theorem scheduled_some {k : Kernel} (wf : k.Wf) (x : TaskId) :
    scheduled k = some x ↔ k.Candidate x ∧
      ∀ y, k.Candidate y → k.prio y ≤ k.prio x ∧
        (k.prio y = k.prio x → cyclicPos k.taskCount k.currentTask x ≤
          cyclicPos k.taskCount k.currentTask y) :=
  wf.named.scheduled_some x

theorem osSchedule_eq (k : Kernel) :
    osSchedule k = match scheduled k with
      | some idx => selectTask (releaseCurrent k) idx
      | none => scheduleFallback (releaseCurrent k) := rfl

/-- Everything a call that selects a task does. -/
theorem osSchedule_state {k : Kernel} {x : TaskId} (h : scheduled k = some x) (t : TaskId) :
    (osSchedule k).state t =
      if t = x then .running
      else if t = k.currentTask ∧ k.state t = .running then .ready else k.state t := by
  rw [osSchedule_eq, h]
  by_cases eq : t = x
  · subst eq; simp [selectTask, Kernel.state, Kernel.setTask]
  · rw [if_neg eq, ← releaseCurrent_state]
    simp [selectTask, Kernel.state, Kernel.setTask, eq]

theorem osSchedule_current {k : Kernel} {x : TaskId} (h : scheduled k = some x) :
    (osSchedule k).currentTask = x ∧ (osSchedule k).currentTaskIndex = x := by
  rw [osSchedule_eq, h]; exact ⟨rfl, rfl⟩

/-- Where the fallback is reached, step 0 did nothing and the test of the fallback fails. -/
theorem Kernel.Named.released {k : Kernel} (named : k.Named) (h : scheduled k = none) :
    releaseCurrent k = k ∧ k.state k.currentTask ≠ .ready := by
  have none := named.scheduled_none.mp h k.currentTask
  have idle : k.state k.currentTask ≠ .ready ∧ k.state k.currentTask ≠ .running := by
    constructor <;> intro eq <;> exact none ⟨named.current_lt, by simp [eq]⟩
  exact ⟨by rw [releaseCurrent, if_neg idle.2], idle.1⟩

theorem Kernel.Named.fallback {k : Kernel} (named : k.Named) (h : scheduled k = none) :
    osSchedule k = k := by
  obtain ⟨same, notReady⟩ := named.released h
  rw [osSchedule_eq, h]
  simp only [same, scheduleFallback, if_neg notReady]

theorem osSchedule_fallback {k : Kernel} (wf : k.Wf) (h : scheduled k = none) :
    osSchedule k = k :=
  wf.named.fallback h

section frame
variable (k : Kernel) (t : TaskId)

@[simp] theorem osSchedule_taskCount : (osSchedule k).taskCount = k.taskCount := by
  rw [osSchedule_eq]; split
  · simp [selectTask]
  · unfold scheduleFallback; split <;> simp

@[simp] theorem osSchedule_prio : (osSchedule k).prio t = k.prio t := by
  rw [osSchedule_eq]; split
  · rename_i x _
    have h : (selectTask (releaseCurrent k) x).prio t = (releaseCurrent k).prio t := by
      unfold selectTask Kernel.setTask Kernel.prio; grind
    simp [h]
  · unfold scheduleFallback; split <;> simp

theorem releaseCurrent_eq : ∃ pool, releaseCurrent k = { k with taskPool := pool } := by
  unfold releaseCurrent; split
  · exact ⟨_, rfl⟩
  · exact ⟨k.taskPool, rfl⟩

/-- `os_schedule` writes the task pool and the current task, and nothing else. -/
theorem osSchedule_eq_with : ∃ pool cur idx, osSchedule k =
    { k with taskPool := pool, currentTask := cur, currentTaskIndex := idx } := by
  obtain ⟨pool, h⟩ := releaseCurrent_eq k
  rw [osSchedule_eq, h]
  split
  · exact ⟨_, _, _, rfl⟩
  · unfold scheduleFallback; split
    · exact ⟨_, _, _, rfl⟩
    · exact ⟨pool, k.currentTask, k.currentTaskIndex, rfl⟩

@[simp] theorem osSchedule_sems : (osSchedule k).sems = k.sems := by
  obtain ⟨_, _, _, h⟩ := osSchedule_eq_with k; rw [h]

@[simp] theorem osSchedule_owner : (osSchedule k).owner = k.owner := by
  obtain ⟨_, _, _, h⟩ := osSchedule_eq_with k; rw [h]

@[simp] theorem osSchedule_sysTick : (osSchedule k).sysTick = k.sysTick := by
  obtain ⟨_, _, _, h⟩ := osSchedule_eq_with k; rw [h]

@[simp] theorem osSchedule_pendsv : (osSchedule k).pendsv = k.pendsv := by
  obtain ⟨_, _, _, h⟩ := osSchedule_eq_with k; rw [h]

@[simp] theorem osSchedule_wakeTick :
    ((osSchedule k).taskPool t).wakeTick = (k.taskPool t).wakeTick := by
  have released : ((releaseCurrent k).taskPool t).wakeTick = (k.taskPool t).wakeTick := by
    unfold releaseCurrent; split <;> simp
  rw [osSchedule_eq, ← released]
  generalize releaseCurrent k = j
  split
  · unfold selectTask Kernel.setTask; grind
  · unfold scheduleFallback; split <;> simp
end frame

theorem osSchedule_wf {k : Kernel} (wf : k.Wf) : (osSchedule k).Wf := by
  cases h : scheduled k with
  | none => rw [osSchedule_fallback wf h]; exact wf
  | some x =>
    have candidate := ((scheduled_some wf x).mp h).1
    obtain ⟨cur, idx⟩ := osSchedule_current h
    constructor
    · rw [osSchedule_taskCount]; exact wf.count_le
    · rw [osSchedule_taskCount, cur]; exact candidate.1
    · rw [cur, idx]
    · intro t ht running
      rw [osSchedule_taskCount] at ht
      rw [osSchedule_state h] at running
      rw [cur]
      have only := wf.running t ht
      grind

end Rtos
