import Rtos.System.Invariant

/-! The states of the runs that start in `_rtos_start`, and their invariant. -/
namespace Rtos
open Lib

/-- What a sequence of accepted `osTaskCreate` calls does: task `i` is the `i`-th one
accepted, and nothing but the pool, the number of tasks and the current task changes. -/
theorem createAll_spec {specs : List TaskSpec} {k k' : Kernel}
    (h : createAll k specs = some k') :
    k'.taskCount = k.taskCount + specs.length ∧
    (k.taskCount ≤ maxTasks → k'.taskCount ≤ maxTasks) ∧
    (∀ i (hi : i < specs.length), k'.taskPool (k.taskCount + i) = newTcb specs[i] ∧
      16 ≤ specs[i].stackWords) ∧
    (∀ t, t < k.taskCount ∨ k.taskCount + specs.length ≤ t → k'.taskPool t = k.taskPool t) ∧
    ∃ pool cur, k' = { k with
      taskPool := pool, currentTask := cur, taskCount := k.taskCount + specs.length } := by
  induction specs generalizing k with
  | nil =>
    cases Option.some.inj h
    exact ⟨rfl, id, by simp, fun _ _ => rfl, _, _, rfl⟩
  | cons spec rest ih =>
    simp only [createAll, osTaskCreate] at h
    split at h
    · cases h
    · rename_i k₁ accepted
      split at accepted
      · cases accepted
      split at accepted
      · cases accepted
      rename_i room words
      cases Option.some.inj accepted
      obtain ⟨count, bound, new, old, pool, cur, eq⟩ := ih h
      dsimp only at count bound new old
      refine ⟨?_, fun _ => bound (by omega), ?_, ?_, pool, cur, ?_⟩
      · rw [count, List.length_cons]; omega
      · intro i hi
        cases i with
        | zero =>
          refine ⟨?_, BitVec.not_lt.mp words⟩
          rw [Nat.add_zero, old _ (.inl (Nat.lt_succ_self _))]
          simp [Kernel.setTask]
        | succ i =>
          have later := new i (by simpa using hi)
          rw [Nat.add_right_comm] at later
          exact later
      · intro t ht
        rw [List.length_cons] at ht
        rw [old t (by omega)]
        have other : t ≠ k.taskCount := by omega
        simp [Kernel.setTask, other]
      · rw [eq, List.length_cons]
        congr 1
        exact Nat.add_right_comm ..

theorem initAll_spec {inits : List Init} {k k' : Kernel} (h : initAll k inits = some k') :
    (∀ i ∈ inits, k'.sems i.ref = some (semInit i.count)) ∧
    (∀ r, (∀ i ∈ inits, i.ref ≠ r) → k'.sems r = k.sems r) ∧
    (∀ m, k.owner m = none → k'.owner m = none) ∧
    (∀ i ∈ inits, k.sems i.ref = none) ∧ (inits.map Init.ref).Nodup ∧
    ∃ sems owner, k' = { k with sems := sems, owner := owner } := by
  induction inits generalizing k with
  | nil =>
    cases Option.some.inj h
    exact ⟨by simp, fun _ _ => rfl, fun _ => id, by simp, List.nodup_nil, _, _, rfl⟩
  | cons i rest ih =>
    simp only [initAll] at h
    split at h
    · rename_i fresh
      obtain ⟨set, keep, owner, first, nodup, sems, owners, eq⟩ := ih h
      have later : ∀ j ∈ rest, j.ref ≠ i.ref := by
        intro j hj same
        have none := first j hj
        rw [Init.apply_sems, if_pos same] at none
        cases none
      refine ⟨?_, ?_, ?_, ?_, ?_, sems, owners, ?_⟩
      · intro j hj
        rcases List.mem_cons.mp hj with rfl | hj
        · rw [keep _ later, Init.apply_sems, if_pos rfl]
        · exact set j hj
      · intro r hr
        rw [keep r fun j hj => hr j (List.mem_cons_of_mem _ hj), Init.apply_sems,
          if_neg (hr i List.mem_cons_self).symm]
      · intro m free
        apply owner
        rw [Init.apply_owner]
        split
        · rfl
        · exact free
      · intro j hj
        rcases List.mem_cons.mp hj with rfl | hj
        · exact Option.isNone_iff_eq_none.mp fresh
        · have none := first j hj
          rwa [Init.apply_sems, if_neg (later j hj)] at none
      · rw [List.map_cons, List.nodup_cons]
        refine ⟨?_, nodup⟩
        intro mem
        obtain ⟨j, hj, same⟩ := List.mem_map.mp mem
        exact later j hj same
      · rw [eq]
        cases i <;> rfl
    · cases h

/-- The kernel when `_rtos_start` has pended the first switch. -/
structure Booted (cfg : Config) (k : Kernel) : Prop where
  count : k.taskCount = cfg.tasks.length
  count_le : cfg.tasks.length ≤ maxTasks
  tcb : ∀ t (ht : t < cfg.tasks.length), k.taskPool t = newTcb cfg.tasks[t] ∧
    16 ≤ cfg.tasks[t].stackWords
  current : k.currentTask = cfg.tasks.length - 1 ∧ k.currentTaskIndex = cfg.tasks.length - 1
  started : k.rtosStarted = false
  pendsv : k.pendsv = true
  sysTick : k.sysTick = BitVec.ofNat 32 cfg.ticks
  sems : ∀ i ∈ cfg.inits, k.sems i.ref = some (semInit i.count)
  uninit : ∀ r, (∀ i ∈ cfg.inits, i.ref ≠ r) → k.sems r = none
  owner : ∀ m, k.owner m = none
  nodup : (cfg.inits.map Init.ref).Nodup

theorem bootKernel_spec {cfg : Config} {k : Kernel} (h : bootKernel cfg = some k)
    (some_task : 0 < cfg.tasks.length) : Booted cfg k := by
  unfold bootKernel at h
  split at h
  · cases h
  rename_i k₁ init
  split at h
  · cases h
  rename_i k₂ create
  obtain ⟨set, keep, owner, -, nodup, sems, owners, rfl⟩ := initAll_spec init
  obtain ⟨count, bound, new, -, pool, cur, eq⟩ := createAll_spec create
  simp only [resetKernel, Nat.zero_add] at count bound new eq
  have pos : 0 < k₂.taskCount := by omega
  simp only [osStart, if_pos pos, Option.some.injEq] at h
  subst h
  have le := bound (Nat.zero_le _)
  constructor
  · exact count
  · omega
  · exact new
  · rw [← count]; exact ⟨rfl, rfl⟩
  · rw [eq]; rfl
  · rfl
  · rw [eq]; rfl
  · rw [eq]; exact set
  · rw [eq]; exact keep
  · rw [eq]; exact fun m => owner m rfl
  · exact nodup

theorem boot_spec {cfg : Config} {s : System} (h : boot cfg = some s)
    (some_task : 0 < cfg.tasks.length) :
    Booted cfg s.k ∧ s.pc = (fun _ => .user) ∧ s.frames = [] ∧ s.primask = false ∧
    s.log = List.replicate cfg.ticks .tick ++ cfg.inits.map fun i => .init i.ref i.count := by
  obtain ⟨k, hk, rfl⟩ := Option.map_eq_some_iff.mp h
  exact ⟨bootKernel_spec hk some_task, rfl, rfl, rfl, rfl⟩

/-- Before the first step the history holds SysTicks and initialisations only. -/
theorem boot_log {cfg : Config} {s : System} (h : boot cfg = some s)
    (some_task : 0 < cfg.tasks.length) :
    ∀ e ∈ s.log, e = .tick ∨ ∃ i ∈ cfg.inits, e = .init i.ref i.count := by
  obtain ⟨-, -, -, -, log⟩ := boot_spec h some_task
  intro e mem
  rw [log] at mem
  rcases List.mem_append.mp mem with tick | init
  · exact .inl (List.mem_replicate.mp tick).2
  · obtain ⟨i, hi, rfl⟩ := List.mem_map.mp init
    exact .inr ⟨i, hi, rfl⟩

namespace Booted
variable {cfg : Config} {k : Kernel}

theorem state (h : Booted cfg k) {t : TaskId} (ht : t < cfg.tasks.length) : k.state t = .ready := by
  rw [Kernel.state, (h.tcb t ht).1]; rfl

theorem sem (h : Booted cfg k) {r : SemRef} {s : Semaphore} (hs : k.sems r = some s) :
    ∃ i ∈ cfg.inits, i.ref = r ∧ s = semInit i.count := by
  by_cases used : ∃ i ∈ cfg.inits, i.ref = r
  · obtain ⟨i, hi, rfl⟩ := used
    refine ⟨i, hi, rfl, ?_⟩
    rw [h.sems i hi] at hs
    exact (Option.some.inj hs).symm
  · rw [h.uninit r fun i hi eq => used ⟨i, hi, eq⟩] at hs
    cases hs

theorem queue (h : Booted cfg k) (r : SemRef) : k.queue r = [] := by
  cases hs : k.sems r with
  | none => exact Kernel.queue_none hs
  | some s =>
    obtain ⟨i, -, -, rfl⟩ := h.sem hs
    exact Kernel.queue_eq hs (SlotsHold.nil fun _ => rfl)

theorem wf (h : Booted cfg k) (some_task : 0 < cfg.tasks.length) : k.Wf := by
  constructor
  · rw [h.count]; exact h.count_le
  · rw [h.count, h.current.1]; exact Nat.sub_one_lt_of_lt some_task
  · rw [h.current.1, h.current.2]
  · intro t ht run
    rw [h.state (h.count ▸ ht)] at run
    cases run

theorem queued (h : Booted cfg k) : k.Queued := by
  constructor
  · intro r s hs
    rw [h.queue]
    obtain ⟨i, -, -, rfl⟩ := h.sem hs
    exact SlotsHold.nil fun _ => rfl
  · intro t ht
    simp [h.queue, h.state (h.count ▸ ht)]
  · simp [h.queue]
  · simp [h.queue]
  · simp [h.queue]

end Booted

theorem boot_inv {cfg : Config} {s : System} (h : boot cfg = some s)
    (some_task : 0 < cfg.tasks.length) : Inv s := by
  obtain ⟨booted, pc, frames, -, -⟩ := boot_spec h some_task
  constructor
  · exact booted.wf some_task
  · exact booted.queued
  · intro t ht asleep
    rw [booted.state (booted.count ▸ ht)] at asleep
    cases asleep
  · simp [booted.queue]
  · rw [frames]; exact .nil
  · simp [frames]
  · exact fun _ => .inl (.inl booted.pendsv)
  · exact fun _ => .inl booted.pendsv

/-- `idle` is neither sleeping nor blocked. -/
def Awake (idle : TaskId) (k : Kernel) : Prop := k.state idle = .ready ∨ k.state idle = .running

instance (idle : TaskId) (k : Kernel) : Decidable (Awake idle k) := by
  unfold Awake; infer_instance

theorem Awake.selects {idle : TaskId} {k : Kernel} (h : Awake idle k) (wf : k.Wf)
    (created : idle < k.taskCount) : scheduled k ≠ none := by
  intro hs
  refine absurd ⟨created, ?_⟩ ((scheduled_none wf).mp hs idle)
  rcases h with ready | run
  · exact .inl ready
  · exact .inr ⟨wf.running idle created run, run⟩

theorem Awake.not_blocked {idle : TaskId} {k : Kernel} (h : Awake idle k) :
    k.state idle ≠ .blocked := by
  rcases h with eq | eq <;> rw [eq] <;> simp

theorem step_taskCount {s s' : System} {a : Action} (hstep : step s a = some s') :
    s'.k.taskCount = s.k.taskCount := by
  cases step_cases hstep with
  | sysTick | isr | pendSv | tickLeave | isrYield | isrReturn | nothing | release | trap | leave |
    yield | ret | own | delay => rfl
  | init => exact Init.apply_taskCount ..
  | @tick pc =>
    obtain ⟨_, _, _, eq⟩ := tickStep_eq_with s.k pc
    rw [System.goOnAt_k, eq]
  | switch => exact osSchedule_taskCount _
  | isrSignal _ result | signal _ _ result =>
    obtain ⟨_, _, rfl⟩ := osSemaphoreSignal_eq_with result
    rfl
  | waitQueued _ _ _ result | waitTaken _ _ _ result =>
    obtain ⟨_, _, rfl⟩ := osSemaphoreWait_eq_with result
    rfl

/-- What holds while the created task `idle` never sleeps or blocks. -/
structure IdleInv (idle : TaskId) (s : System) : Prop where
  inv : Inv s
  idle_lt : idle < s.k.taskCount
  awake : Awake idle s.k

/-- One step of a run in which `idle` never sleeps or blocks. -/
abbrev AwakeStep (idle : TaskId) : System → Action → System → Prop :=
  Steps step fun _ _ t => Awake idle t.k

theorem IdleInv.next {idle : TaskId} {s s' : System} {a : Action} (h : IdleInv idle s)
    (hstep : AwakeStep idle s a s') : IdleInv idle s' :=
  ⟨step_inv h.inv hstep.1 fun _ _ => h.awake.selects h.inv.wf h.idle_lt,
    (step_taskCount hstep.1).symm ▸ h.idle_lt, hstep.2⟩

/-- The states of all runs in which the created task `idle` never sleeps or blocks. -/
def Reachable (cfg : Config) (idle : TaskId) (s : System) : Prop :=
  ∃ s₀, boot cfg = some s₀ ∧ idle < cfg.tasks.length ∧ Reach (AwakeStep idle) s₀ s

theorem Reachable.some_task {cfg : Config} {idle : TaskId} {s : System}
    (h : Reachable cfg idle s) : 0 < cfg.tasks.length := by
  obtain ⟨_, _, created, _⟩ := h
  exact Nat.zero_lt_of_lt created

theorem Reachable.induct {cfg : Config} {idle : TaskId} {s : System} {P : System → Prop}
    (h : Reachable cfg idle s)
    (start : ∀ s₀, boot cfg = some s₀ → Booted cfg s₀.k → P s₀)
    (keeps : ∀ t a u, IdleInv idle t → P t → step t a = some u → IdleInv idle u → P u) :
    IdleInv idle s ∧ P s := by
  obtain ⟨s₀, hboot, created, reach⟩ := h
  have some_task : 0 < cfg.tasks.length := Nat.zero_lt_of_lt created
  have booted := (boot_spec hboot some_task).1
  have inv₀ : IdleInv idle s₀ := ⟨boot_inv hboot some_task, booted.count.symm ▸ created,
    .inl (booted.state created)⟩
  refine reach.invariant (P := fun t => IdleInv idle t ∧ P t) ⟨inv₀, start s₀ hboot booted⟩ ?_
  rintro t a u ⟨inv, p⟩ hstep
  exact ⟨inv.next hstep, keeps t a u inv p hstep.1 (inv.next hstep)⟩

theorem Reachable.idleInv {cfg : Config} {idle : TaskId} {s : System} (h : Reachable cfg idle s) :
    IdleInv idle s :=
  (h.induct (P := fun _ => True) (fun _ _ _ => trivial) fun _ _ _ _ _ _ _ => trivial).1

theorem Reachable.next {cfg : Config} {idle : TaskId} {s t : System} {a : Action}
    (h : Reachable cfg idle s) (hstep : AwakeStep idle s a t) : Reachable cfg idle t := by
  obtain ⟨s₀, hboot, created, reach⟩ := h
  exact ⟨s₀, hboot, created, reach.next hstep⟩

theorem Reachable.follow {cfg : Config} {idle : TaskId} {s t : System} (h : Reachable cfg idle s)
    (later : Reach (AwakeStep idle) s t) : Reachable cfg idle t :=
  later.invariant h fun _ _ _ reachable hstep => reachable.next hstep

/-- A call that can put its caller to sleep or into a wait queue. -/
def Op.blocking : Op → Bool
  | .delay d => d != 0
  | .wait _ => true
  | .acquire _ => true
  | _ => false

/-- `idle` calls no blocking primitive in this step. -/
def Idles (idle : TaskId) (s : System) (a : Action) (_ : System) : Prop :=
  ∀ op, a = .call op → s.k.currentTask = idle → op.blocking = false

/-- A task that calls no blocking primitive stays awake. -/
theorem step_awake {idle : TaskId} {s s' : System} {a : Action} (h : s.k.Wf)
    (awake : Awake idle s.k) (hstep : step s a = some s') (idles : Idles idle s a s') :
    Awake idle s'.k := by
  unfold Awake at awake ⊢
  cases step_cases hstep with
  | sysTick | isr | pendSv | tickLeave | isrYield | isrReturn | nothing | release | trap | leave |
    yield | ret | own => exact awake
  | init => simpa [System.goOn] using awake
  | @tick pc _ _ more =>
    have tick := tickStep_cases s.k more
    simp only [System.goOnAt]
    generalize (tickStep s.k pc).1 = k', (tickStep s.k pc).2 = pc' at tick
    cases tick with
    | enter | asleep | awake | done | due | notDue | notStarted | pend => exact awake
    | wake => grind
    | charge => simpa using awake
  | @switch rest _ =>
    have h' := h.started true
    have state : ∀ t, Kernel.state { s.k with rtosStarted := true } t = s.k.state t := fun _ => rfl
    simp only [switchStep, System.goOnAt]
    cases hs : scheduled { s.k with rtosStarted := true } with
    | none => rw [osSchedule_fallback h' hs]; exact awake
    | some x => rw [osSchedule_state hs]; grind
  | isrSignal _ result | signal _ _ result =>
    obtain ⟨sem, -, ⟨u, -, -, -, rfl⟩ | ⟨-, -, rfl⟩⟩ := osSemaphoreSignal_cases result
    · simp only [System.goOn, System.goOnAt]; grind
    · exact awake
  | delay _ _ pos =>
    have other : idle ≠ s.k.currentTask := fun eq => by
      exact pos (by simpa [Op.blocking] using idles _ rfl eq.symm)
    simp only [System.goOn]; grind
  | waitQueued _ _ ref result =>
    have other : idle ≠ s.k.currentTask := fun eq => by
      have not := idles _ rfl eq.symm
      rcases ref with ⟨_, rfl, -⟩ | ⟨_, rfl, -⟩ <;> cases not
    obtain ⟨sem, -, ⟨eq, -⟩ | ⟨-, -, -, rfl⟩⟩ := osSemaphoreWait_effect result
    · cases eq
    · simpa [System.goOn, other] using awake
  | waitTaken _ _ _ result =>
    obtain ⟨sem, -, ⟨-, -, rfl⟩ | ⟨eq, -⟩⟩ := osSemaphoreWait_effect result
    · exact awake
    · cases eq

/-- So every run in which `idle` calls no blocking primitive is covered. -/
theorem reachable_of_idles {cfg : Config} {idle : TaskId} {s₀ s : System}
    (hboot : boot cfg = some s₀) (created : idle < cfg.tasks.length)
    (reach : Reach (Steps step (Idles idle)) s₀ s) : Reachable cfg idle s := by
  refine reach.invariant (P := Reachable cfg idle) ⟨s₀, hboot, created, Reach.refl _ _⟩ ?_
  rintro t a u reachable ⟨hstep, idles⟩
  have inv := reachable.idleInv
  exact reachable.next ⟨hstep, step_awake inv.inv.wf inv.awake hstep idles⟩

theorem exec_awake {idle : TaskId} {acts : List Action} {s t : System}
    (h : exec step (fun _ _ t => decide (Awake idle t.k)) s acts = some t) :
    Run (AwakeStep idle) s (visited step s acts) t :=
  (exec_run h).mono fun _ _ _ hstep => ⟨hstep.1, of_decide_eq_true hstep.2⟩

theorem reachable_of_exec (cfg : Config) (idle : TaskId) (acts : List Action)
    (p : System → Bool) (created : idle < cfg.tasks.length)
    (h : ((boot cfg).bind fun s =>
      exec step (fun _ _ t => decide (Awake idle t.k)) s acts).any p = true) :
    ∃ s, Reachable cfg idle s ∧ p s = true := by
  obtain ⟨s, hs, hp⟩ := (Option.any_eq_true _ _).mp h
  obtain ⟨s₀, hboot, hexec⟩ := Option.bind_eq_some_iff.mp hs
  exact ⟨s, ⟨s₀, hboot, created, _, exec_awake hexec⟩, hp⟩

end Rtos
