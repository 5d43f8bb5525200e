import Rtos.Scheduling.Resume

/-! Time slices within one priority level. The round-robin position is one index for all
levels, so two tasks of a level take turns as long as no task of a higher level that stands
between them in the scan order is selected. -/
namespace Rtos
open Lib

/-- `a` comes before `b` in the scan order of pass 2. -/
def Turn (k : Kernel) (a b : TaskId) : Prop :=
  cyclicPos k.taskCount k.currentTaskIndex a < cyclicPos k.taskCount k.currentTaskIndex b

/-- The most urgent runnable task, the first in scan order among equals, is more urgent than
`a` and `b` and stands strictly between them in scan order. -/
def PassesOver (k : Kernel) (a b : TaskId) : Prop :=
  ∃ x, k.Candidate x ∧
    (∀ y, k.Candidate y → k.prio y ≤ k.prio x ∧ (k.prio y = k.prio x →
      cyclicPos k.taskCount k.currentTask x ≤ cyclicPos k.taskCount k.currentTask y)) ∧
    k.prio a < k.prio x ∧ k.prio b < k.prio x ∧
    Between k.taskCount k.currentTaskIndex a b x

/-- Two tasks of one priority. -/
structure Rivals (k : Kernel) (a b : TaskId) : Prop where
  wf : k.Wf
  left_lt : a < k.taskCount
  right_lt : b < k.taskCount
  other : a ≠ b
  level : k.prio a = k.prio b

theorem Rivals.swap {k : Kernel} {a b : TaskId} (h : Rivals k a b) : Rivals k b a :=
  ⟨h.wf, h.right_lt, h.left_lt, h.other.symm, h.level.symm⟩

theorem Rivals.index_lt {k : Kernel} {a b : TaskId} (h : Rivals k a b) :
    k.currentTaskIndex < k.taskCount := by
  rw [h.wf.index_eq]; exact h.wf.current_lt

theorem Rivals.turn {k : Kernel} {a b : TaskId} (h : Rivals k a b) : Turn k a b ∨ Turn k b a := by
  apply Nat.lt_or_gt_of_ne
  intro same
  exact h.other (cyclicPos_inj h.index_lt h.left_lt h.right_lt same)

theorem Turn.asymm {k : Kernel} {a b : TaskId} (h : Turn k a b) : ¬ Turn k b a :=
  Nat.lt_asymm h

theorem Awake.candidate {k : Kernel} {t : TaskId} (h : Awake t k) (wf : k.Wf)
    (created : t < k.taskCount) : k.Candidate t :=
  ⟨created, h.imp_right fun run => ⟨wf.running t created run, run⟩⟩

/-- A task is selected on its turn, and then it is the other one's. -/
theorem select_turn {k : Kernel} {a b : TaskId} (h : Rivals k a b) (awake : Awake b k)
    (hx : scheduled k = some a) : Turn k a b ∧ Turn (osSchedule k) b a := by
  obtain ⟨-, best⟩ := (scheduled_some h.wf a).mp hx
  have first := (best b (awake.candidate h.wf h.right_lt)).2 h.level.symm
  constructor
  · rcases h.turn with turn | turn
    · exact turn
    · unfold Turn at turn
      rw [h.wf.index_eq] at turn
      omega
  · have last := cyclicPos_self h.left_lt
    have lt := cyclicPos_lt h.left_lt h.right_lt
    have ne : cyclicPos k.taskCount a b ≠ cyclicPos k.taskCount a a := fun same =>
      h.other (cyclicPos_inj h.left_lt h.right_lt h.left_lt same).symm
    unfold Turn
    rw [osSchedule_taskCount, (osSchedule_current hx).2]
    omega

/-- Selecting a third task passes the turn on exactly when it passes over one of the two. -/
theorem select_other {k : Kernel} {a b x : TaskId} (h : Rivals k a b) (left : Awake a k)
    (right : Awake b k) (hx : scheduled k = some x) (xa : x ≠ a) (xb : x ≠ b) :
    (Turn (osSchedule k) a b ↔ Turn k a b) ↔ ¬ PassesOver k a b := by
  obtain ⟨candidate, best⟩ := (scheduled_some h.wf x).mp hx
  have shift := cyclicPos_shift h.index_lt candidate.1 h.left_lt h.right_lt xa xb
  have a_le := best a (left.candidate h.wf h.left_lt)
  have b_le := best b (right.candidate h.wf h.right_lt)
  have moved : Turn (osSchedule k) a b ↔ cyclicPos k.taskCount x a < cyclicPos k.taskCount x b := by
    unfold Turn
    rw [osSchedule_taskCount, (osSchedule_current hx).2]
  rw [moved]
  refine shift.trans (not_congr ?_)
  constructor
  · intro between
    refine ⟨x, candidate, best, ?_⟩
    -- a task of the same level is selected before both, never between them
    have higher : k.prio a ≠ k.prio x := by
      intro level
      have before_a := a_le.2 level
      have before_b := b_le.2 (h.level ▸ level)
      unfold Between at between
      rw [h.wf.index_eq] at between
      omega
    have lt := BitVec.lt_of_le_ne a_le.1 higher
    exact ⟨lt, h.level ▸ lt, between⟩
  · rintro ⟨y, hy, best', -, -, between⟩
    have same : y = x := Option.some.inj (((scheduled_some h.wf y).mpr ⟨hy, best'⟩).symm.trans hx)
    exact same ▸ between

/-- In this step `os_schedule` selects `x`. It does not read `rtos_started`, which the handler
sets just before. -/
def Selects (x : TaskId) (p : System × Action) : Prop :=
  p.2 = .handler ∧ p.1.Switching ∧ scheduled p.1.k = some x

instance (x : TaskId) (p : System × Action) : Decidable (Selects x p) := by
  unfold Selects; infer_instance

/-- How often `os_schedule` selects `x` in a stretch of a run. -/
def slices (x : TaskId) (tr : List (System × Action)) : Nat := tr.countP fun p => Selects x p

/-- A step of a stretch in which `a` and `b` stay READY or RUNNING. -/
abbrev SharedStep (a b : TaskId) : System → Action → System → Prop :=
  Steps step fun s _ t => (Awake a s.k ∧ Awake b s.k) ∧ Awake a t.k ∧ Awake b t.k

theorem step_prio {s s' : System} {a : Action} (hstep : step s a = some s') (t : TaskId) :
    s'.k.prio t = s.k.prio t := by
  cases step_cases hstep with
  | sysTick | isr | pendSv | tickLeave | isrYield | isrReturn | nothing | release | trap | leave |
    yield | ret | own => rfl
  | init => exact Init.apply_prio ..
  | @tick p rest frames more =>
    have tick := tickStep_cases s.k more
    simp only [System.goOnAt_k]
    generalize (tickStep s.k p).1 = k', (tickStep s.k p).2 = p' at tick ⊢
    cases tick with
    | enter | asleep | awake | done | due | notDue | notStarted | pend => rfl
    | wake => exact Kernel.prio_setState ..
    | charge => exact chargeCurrent_prio ..
  | switch => exact osSchedule_prio ..
  | isrSignal _ result | signal _ _ result =>
    obtain ⟨sem, -, ⟨u, -, -, -, rfl⟩ | ⟨-, -, rfl⟩⟩ := osSemaphoreSignal_cases result
    · exact Kernel.prio_setState ..
    · rfl
  | delay => exact markSleeping_prio ..
  | waitQueued _ _ _ result | waitTaken _ _ _ result =>
    obtain ⟨sem, -, ⟨-, -, rfl⟩ | ⟨-, -, -, rfl⟩⟩ := osSemaphoreWait_cases result
    · rfl
    · exact Kernel.prio_setState ..

/-- The tasks of a run and their priorities are those that `main` created. -/
theorem Reachable.tasks {cfg : Config} {idle : TaskId} {s : System} (h : Reachable cfg idle s) :
    s.k.taskCount = cfg.tasks.length ∧
    ∀ t (ht : t < cfg.tasks.length), s.k.prio t = cfg.tasks[t].priority :=
  (h.induct (P := fun s => s.k.taskCount = cfg.tasks.length ∧
      ∀ t (ht : t < cfg.tasks.length), s.k.prio t = cfg.tasks[t].priority)
    (fun _ _ booted => ⟨booted.count, fun t ht => by rw [Kernel.prio, (booted.tcb t ht).1]; rfl⟩)
    fun _ _ _ _ same hstep _ => ⟨(step_taskCount hstep).trans same.1,
      fun t ht => (step_prio hstep t).trans (same.2 t ht)⟩).2

theorem step_index {s s' : System} {a : Action} (hstep : step s a = some s')
    (other : ¬ (a = .handler ∧ s.Switching)) :
    s'.k.currentTaskIndex = s.k.currentTaskIndex := by
  cases step_cases hstep with
  | sysTick | isr | pendSv | tickLeave | isrYield | isrReturn | nothing | release | trap | leave |
    yield | ret | own | delay => rfl
  | init => exact Init.apply_currentTaskIndex ..
  | @tick p =>
    obtain ⟨_, _, _, eq⟩ := tickStep_eq_with s.k p
    rw [System.goOnAt_k, eq]
  | switch frames => exact absurd ⟨rfl, by simp [System.Switching, frames]⟩ other
  | isrSignal _ result | signal _ _ result =>
    obtain ⟨_, _, rfl⟩ := osSemaphoreSignal_eq_with result
    rfl
  | waitQueued _ _ _ result | waitTaken _ _ _ result =>
    obtain ⟨_, _, rfl⟩ := osSemaphoreWait_eq_with result
    rfl

theorem Rivals.next {s s' : System} {a : Action} {x y : TaskId} (h : Rivals s.k x y)
    (hstep : step s a = some s') : Rivals s'.k x y := by
  have count := step_taskCount hstep
  refine ⟨step_wf h.wf hstep, count ▸ h.left_lt, count ▸ h.right_lt, h.other, ?_⟩
  rw [step_prio hstep, step_prio hstep]; exact h.level

theorem slices_snoc (x : TaskId) (tr : List (System × Action)) (p : System × Action) :
    slices x (tr ++ [p]) = slices x tr + if Selects x p then 1 else 0 := by
  simp [slices, List.countP_append, List.countP_singleton]

/-- As long as nothing passes over one of the two, they are selected in turns. -/
theorem run_turns {s t : System} {tr : List (System × Action)} {x y : TaskId}
    (h : Rivals s.k x y) (turn : Turn s.k x y) (run : Run (SharedStep x y) s tr t)
    (fair : ∀ p ∈ tr, p.1.Switching → p.2 = .handler → ¬ PassesOver p.1.k x y) :
    Rivals t.k x y ∧
      ((slices x tr = slices y tr ∧ Turn t.k x y) ∨
        (slices x tr = slices y tr + 1 ∧ Turn t.k y x)) := by
  induction run with
  | nil => exact ⟨h, .inl ⟨rfl, turn⟩⟩
  | @snoc tr t u a _ hstep ih =>
    obtain ⟨hstep, ⟨left, right⟩, -⟩ := hstep
    obtain ⟨rivals, turns⟩ := ih fun p mem => fair p (List.mem_append_left _ mem)
    refine ⟨rivals.next hstep, ?_⟩
    simp only [slices_snoc]
    by_cases switch : a = .handler ∧ t.Switching
    · obtain ⟨rfl, switching⟩ := switch
      obtain ⟨rest, rfl⟩ := switching_step switching hstep
      have kept := fair (t, .handler) (by simp) switching rfl
      have moved : Rivals { t.k with rtosStarted := true } x y :=
        ⟨rivals.wf.congr rfl rfl rfl fun _ run => run, rivals.left_lt, rivals.right_lt,
          rivals.other, rivals.level⟩
      obtain ⟨z, hz⟩ := Option.ne_none_iff_exists'.mp (left.selects rivals.wf rivals.left_lt)
      have hz' : scheduled { t.k with rtosStarted := true } = some z := by
        rw [scheduled_started]; exact hz
      have sel : ∀ v, Selects v (t, .handler) ↔ v = z := fun v =>
        ⟨fun h => Option.some.inj (h.2.2.symm.trans hz), fun eq => ⟨rfl, switching, eq ▸ hz⟩⟩
      simp only [sel]
      by_cases zx : z = x
      · subst zx
        obtain ⟨now, next⟩ := select_turn moved right hz'
        rcases turns with ⟨same, -⟩ | ⟨-, late⟩
        · refine .inr ⟨?_, next⟩
          rw [if_pos rfl, if_neg rivals.other.symm]; omega
        · exact absurd late (Turn.asymm now)
      by_cases zy : z = y
      · subst zy
        obtain ⟨now, next⟩ := select_turn moved.swap left hz'
        rcases turns with ⟨-, early⟩ | ⟨ahead, -⟩
        · exact absurd early (Turn.asymm now)
        · refine .inl ⟨?_, next⟩
          rw [if_neg rivals.other, if_pos rfl]; omega
      · have keeps := (select_other moved left right hz' zx zy).mpr kept
        have after := (rivals.next hstep).turn
        rw [if_neg (Ne.symm zx), if_neg (Ne.symm zy)]
        refine turns.imp (fun h => ⟨h.1, keeps.mpr h.2⟩) fun h => ⟨h.1, ?_⟩
        exact after.resolve_left fun early => Turn.asymm h.2 (keeps.mp early)
    · have still := step_index hstep switch
      have none : ∀ v, ¬ Selects v (t, a) := fun v h => switch ⟨h.1, h.2.1⟩
      simpa only [if_neg (none _), Nat.add_zero, Turn, still, step_taskCount hstep] using turns

/-- Two runnable tasks of one priority get equally many slices, up to one, in every stretch
of a run in which no switch passes over one of them. -/
theorem equal_slices {cfg : Config} {s₀ s t : System} {tr : List (System × Action)}
    {x y : TaskId} (hboot : boot cfg = some s₀) (start : Reach AnyStep s₀ s)
    (left : x < cfg.tasks.length) (right : y < cfg.tasks.length) (other : x ≠ y)
    (level : s.k.prio x = s.k.prio y) (run : Run (SharedStep x y) s tr t)
    (fair : ∀ p ∈ tr, p.1.Switching → p.2 = .handler → ¬ PassesOver p.1.k x y) :
    slices x tr ≤ slices y tr + 1 ∧ slices y tr ≤ slices x tr + 1 := by
  have some_task : 0 < cfg.tasks.length := Nat.zero_lt_of_lt left
  have inv₀ := boot_inv hboot some_task
  have booted := (boot_spec hboot some_task).1
  obtain ⟨wf, count⟩ := start.invariant (P := fun s => s.k.Wf ∧ s.k.taskCount = cfg.tasks.length)
    ⟨inv₀.wf, booted.count⟩
    fun _ _ _ h hstep => ⟨step_wf h.1 hstep.1, (step_taskCount hstep.1).trans h.2⟩
  have rivals : Rivals s.k x y := ⟨wf, count ▸ left, count ▸ right, other, level⟩
  rcases rivals.turn with turn | turn
  · rcases (run_turns rivals turn run fair).2 with ⟨same, -⟩ | ⟨ahead, -⟩ <;> omega
  · have swapped : ∀ p ∈ tr, p.1.Switching → p.2 = .handler → ¬ PassesOver p.1.k y x := by
      rintro p mem switching handler ⟨z, hz, best, hx, hy, between⟩
      exact fair p mem switching handler ⟨z, hz, best, hy, hx, Or.symm between⟩
    have run' : Run (SharedStep y x) s tr t :=
      run.mono fun _ _ _ h => ⟨h.1, h.2.1.symm, h.2.2.symm⟩
    rcases (run_turns rivals.swap turn run' swapped).2 with ⟨same, -⟩ | ⟨ahead, -⟩ <;> omega

/-- Only the selected task can pass over others. -/
theorem PassesOver.selected {k : Kernel} {x y z : TaskId} (h : PassesOver k x y) (wf : k.Wf)
    (hz : scheduled k = some z) : k.prio x < k.prio z ∧ Between k.taskCount k.currentTaskIndex x y z := by
  obtain ⟨v, candidate, best, higher, -, between⟩ := h
  have same : v = z :=
    Option.some.inj (((scheduled_some wf v).mpr ⟨candidate, best⟩).symm.trans hz)
  exact same ▸ ⟨higher, between⟩

theorem exec_shared {x y : TaskId} {acts : List Action} {s t : System}
    (h : exec step (fun s _ t => decide ((Awake x s.k ∧ Awake y s.k) ∧ Awake x t.k ∧ Awake y t.k))
      s acts = some t) : Run (SharedStep x y) s (visited step s acts) t :=
  (exec_run h).mono fun _ _ _ hstep => ⟨hstep.1, of_decide_eq_true hstep.2⟩

/-- One SysTick of four tasks of which task `w` is due, and the switch that it requests. -/
def tickActions (w : TaskId) : List Action :=
  [.sysTick, .handler] ++ (List.range 4).flatMap (fun i =>
    if i = w then [.handler, .handler, .handler] else [.handler]) ++
    [.handler, .handler, .handler, .handler, .pendSv, .handler]

/-- The counter task signals, and the consumer takes the token and waits again. -/
def signalRound : List Action :=
  [.call (.signal 0), .task, .pendSv, .handler, .task, .call (.wait 0), .task, .pendSv, .handler]

/-- The led and the counter task of `main.c` share the core with the more urgent consumer, which
the counter task signals once in each of its slices. It is selected right behind the counter
task, and so passes over none of the two. -/
theorem equal_slices_main : ∃ tr : List (System × Action),
    slices 2 tr = 3 ∧ slices 0 tr = 3 ∧ slices 0 tr ≤ slices 1 tr + 1 ∧ slices 1 tr ≤ slices 0 tr + 1 := by
  let acts := tickActions 4 ++ signalRound ++
    (List.range 2).flatMap fun _ => tickActions 4 ++ .task :: signalRound
  have trace : ((boot mainConfig).bind fun s => exec step (fun _ _ _ => true) s
      [.pendSv, .handler, .call (.wait 0), .task, .pendSv, .handler]).any (fun s =>
        decide (s.k.prio 0 = s.k.prio 1) && decide (slices 2 (visited step s acts) = 3) &&
        decide (slices 0 (visited step s acts) = 3) &&
        (visited step s acts).all (fun p => decide (p.1.Switching →
          (scheduled p.1.k).any (fun z => decide (p.1.k.prio z ≤ p.1.k.prio 0 ∨
            ¬ Between p.1.k.taskCount p.1.k.currentTaskIndex 0 1 z)) = true)) &&
        (exec step (fun s _ t => decide ((Awake 0 s.k ∧ Awake 1 s.k) ∧ Awake 0 t.k ∧ Awake 1 t.k))
          s acts).isSome) = true := by decide +kernel
  obtain ⟨s, hs, hp⟩ := (Option.any_eq_true _ _).mp trace
  obtain ⟨s₀, hboot, hexec⟩ := Option.bind_eq_some_iff.mp hs
  simp only [Bool.and_eq_true, decide_eq_true_eq, List.all_eq_true] at hp
  obtain ⟨⟨⟨⟨level, urgent⟩, three⟩, apart⟩, done⟩ := hp
  obtain ⟨t, hshared⟩ := Option.isSome_iff_exists.mp done
  have start := exec_any hexec
  have run := exec_shared hshared
  have wf := start.invariant (P := fun s => s.k.Wf) (boot_inv hboot (by decide)).wf
    fun _ _ _ wf h => step_wf wf h.1
  have along := (run.invariant_at (P := fun s => s.k.Wf) wf fun _ _ _ wf h => step_wf wf h.1).1
  refine ⟨_, urgent, three,
    equal_slices hboot ⟨_, start⟩ (by decide) (by decide) (by decide) level run ?_⟩
  intro p mem switching _ passes
  obtain ⟨z, hz, beside⟩ := (Option.any_eq_true _ _).mp (apart p mem switching)
  obtain ⟨higher, between⟩ := passes.selected (along p mem) hz
  rcases of_decide_eq_true beside with level | not
  · exact absurd higher (BitVec.not_lt.mpr level)
  · exact not between

/-- An urgent task created before two tasks of one level, and an idle task. -/
def urgentConfig : Config :=
  { ticks := 0, inits := [], tasks :=
      [⟨"urgent", 0x08000101, 0x20000100, 64, 2⟩, ⟨"left", 0x08000201, 0x20000200, 64, 1⟩,
        ⟨"right", 0x08000301, 0x20000300, 64, 1⟩, ⟨"idle", 0x08000401, 0x20000400, 64, 0⟩] }

/-- The urgent task sleeps for one tick, the next task gets its slice, and the tick ends it. -/
def urgentRound : List Action :=
  [.call (.delay 1), .task, .pendSv, .handler] ++ tickActions 0 ++ [.task]

/-- The urgent task moves the position back before the left task each time it runs, so the
right one gets no slice at all. -/
theorem urgent_starves_right : ¬ ∀ (cfg : Config) (s₀ s t : System) (tr : List (System × Action))
    (x y : TaskId), boot cfg = some s₀ → Reach AnyStep s₀ s → x < cfg.tasks.length →
    y < cfg.tasks.length → x ≠ y → s.k.prio x = s.k.prio y → Run (SharedStep x y) s tr t →
    slices x tr ≤ slices y tr + 1 ∧ slices y tr ≤ slices x tr + 1 := by
  intro claim
  have trace : (boot urgentConfig).any (fun s =>
      let acts := [.pendSv, .handler] ++ urgentRound ++ urgentRound
      decide (s.k.prio 1 = s.k.prio 2) && decide (slices 1 (visited step s acts) = 2) &&
      decide (slices 2 (visited step s acts) = 0) &&
      (exec step (fun s _ t => decide ((Awake 1 s.k ∧ Awake 2 s.k) ∧ Awake 1 t.k ∧ Awake 2 t.k))
        s acts).isSome) = true := by decide
  obtain ⟨s₀, hboot, hp⟩ := (Option.any_eq_true _ _).mp trace
  simp only [Bool.and_eq_true, decide_eq_true_eq] at hp
  obtain ⟨⟨⟨level, two⟩, zero⟩, done⟩ := hp
  obtain ⟨t, hexec⟩ := Option.isSome_iff_exists.mp done
  have run := exec_shared hexec
  have equal := (claim urgentConfig s₀ s₀ t _ 1 2 hboot (Reach.refl _ _) (by decide) (by decide)
    (by decide) level run).1
  omega

end Rtos
