import Rtos.System.Reachable

/-! What `PendSV_Handler` resumes. The fallback of `os_schedule` leaves a sleeping or blocked
task current, and the handler returns into it; this is the only way in which a task runs that
is not running. -/
namespace Rtos
open Lib

/-- One step of a run with any tasks, calls and interrupts. -/
abbrev AnyStep : System → Action → System → Prop := Steps step fun _ _ _ => True

theorem exec_any {acts : List Action} {s t : System}
    (h : exec step (fun _ _ _ => true) s acts = some t) : Run AnyStep s (visited step s acts) t :=
  (exec_run h).mono fun _ _ _ hstep => ⟨hstep.1, trivial⟩

/-- Step 0 of `os_schedule` leaves a task that is ready. -/
def Runnable (k : Kernel) : Prop :=
  (∃ t, t < k.taskCount ∧ k.state t = .ready) ∨ k.state k.currentTask = .running

theorem scheduled_iff_runnable {k : Kernel} (wf : k.Wf) : scheduled k ≠ none ↔ Runnable k := by
  rw [Ne, scheduled_none wf, not_forall_not]
  constructor
  · rintro ⟨t, created, ready | ⟨rfl, run⟩⟩
    · exact .inl ⟨t, created, ready⟩
    · exact .inr run
  · rintro (⟨t, created, ready⟩ | run)
    · exact ⟨t, created, .inl ready⟩
    · exact ⟨_, wf.current_lt, .inr ⟨rfl, run⟩⟩

/-- This step makes `t` ready: in the wake loop of SysTick, or as the first waiter in
`osSemaphoreSignal`. -/
def Wakes (s : System) (a : Action) (t : TaskId) : Prop :=
  (a = .handler ∧ ∃ rest, s.frames = .sysTick (.wake t) :: rest) ∨
  ∃ r k', osSemaphoreSignal s.k r = some (k', some t)

/-- The task that executes beyond the `trigger_pendsv()` of its blocking call. -/
def PastYield (s : System) (a : Action) : Prop :=
  s.Thread ∧ (a = .task ∨ ∃ op, a = .call op) ∧ s.pc s.k.currentTask ≠ .yield .delay ∧
    ∀ r, s.pc s.k.currentTask ≠ .yield (.wait r)

/-- Only running tasks run: a switch resumes a running task, a task executes beyond its
blocking call only while it is running, and it leaves SLEEPING and BLOCKED only when it is
woken, to wait as READY for `os_schedule`. -/
structure RunningOnly (tr : List (System × Action)) : Prop where
  resumed : ∀ p ∈ tr, p.1.Switching → p.2 = .handler → ∀ u, step p.1 p.2 = some u →
    u.k.state u.k.currentTask = .running
  executes : ∀ p ∈ tr, PastYield p.1 p.2 → p.1.k.state p.1.k.currentTask = .running
  woken : ∀ p ∈ tr, ∀ u, step p.1 p.2 = some u → ∀ t,
    p.1.k.state t = .sleeping ∨ p.1.k.state t = .blocked → u.k.state t ≠ p.1.k.state t →
    u.k.state t = .ready ∧ Wakes p.1 p.2 t
  selected : ∀ p ∈ tr, ∀ u, step p.1 p.2 = some u → ∀ t, p.1.k.state t ≠ .running →
    u.k.state t = .running → p.1.Switching ∧ scheduled p.1.k = some t

theorem Inv.past_yield {s : System} {a : Action} (h : Inv s) (past : PastYield s a) :
    s.k.state s.k.currentTask = .running := by
  obtain ⟨thread, -, notDelay, notWait⟩ := past
  exact (h.at_frames thread.frames).running thread.pendsv notDelay notWait

theorem switchStep_resumed {s : System} {x : TaskId} (rest : List Frame)
    (hx : scheduled s.k = some x) :
    (switchStep s rest).k.currentTask = x ∧ (switchStep s rest).k.state x = .running := by
  have hx' : scheduled { s.k with rtosStarted := true } = some x := by
    rw [scheduled_started]; exact hx
  refine ⟨(osSchedule_current hx').1, ?_⟩
  simp only [switchStep, System.goOnAt]
  rw [osSchedule_state hx', if_pos rfl]

theorem switching_step {s u : System} (switching : s.Switching)
    (hstep : step s .handler = some u) : ∃ rest, u = switchStep s rest := by
  obtain ⟨rest, frames⟩ := List.head?_eq_some_iff.mp switching
  rw [step, handlerStep, frames] at hstep
  exact ⟨rest, (Option.some.inj hstep).symm⟩

/-- A switch that finds no task returns into the one that has just gone to sleep. -/
theorem switch_stuck {s : System} (rest : List Frame) (wf : s.k.Wf) (stuck : ¬ Runnable s.k) :
    (switchStep s rest).k.currentTask = s.k.currentTask ∧
    (switchStep s rest).k.state s.k.currentTask ≠ .running := by
  have hs : scheduled { s.k with rtosStarted := true } = none := by
    rw [scheduled_started]
    by_contra selects
    exact stuck ((scheduled_iff_runnable wf).mp selects)
  have wf' := wf.started true
  have same : (switchStep s rest).k = { s.k with rtosStarted := true } :=
    osSchedule_fallback wf' hs
  rw [same]
  exact ⟨rfl, fun run => stuck (.inr run)⟩

theorem Inv.step_states {s u : System} {a : Action} (h : Inv s) (hstep : step s a = some u)
    (t : TaskId) (changed : u.k.state t ≠ s.k.state t) :
    (u.k.state t = .ready ∧ Wakes s a t) ∨
    (s.Switching ∧ s.k.state t ≠ .sleeping ∧ s.k.state t ≠ .blocked ∧
      (u.k.state t = .running → scheduled s.k = some t)) ∨
    (s.k.state t = .running ∧ u.k.state t ≠ .running) := by
  cases step_cases hstep with
  | sysTick | isr | pendSv | tickLeave | isrYield | isrReturn | nothing | release | trap | leave |
    yield | ret | own => exact absurd rfl changed
  | init => exact absurd (Init.apply_state ..) changed
  | @tick p rest frames more =>
    have tick := tickStep_cases s.k more
    simp only [System.goOnAt] at changed ⊢
    generalize (tickStep s.k p).1 = k', (tickStep s.k p).2 = p' at tick changed ⊢
    cases tick with
    | enter | asleep | awake | done | due | notDue | notStarted | pend => exact absurd rfl changed
    | charge => exact absurd (chargeCurrent_state ..) changed
    | @wake i =>
      have eq : t = i := by
        by_contra other
        exact changed (by rw [Kernel.state_setState, if_neg other])
      subst eq
      refine .inl ⟨?_, .inl ⟨rfl, rest, frames⟩⟩
      rw [Kernel.state_setState, if_pos rfl]
  | @switch rest frames =>
    have switching : s.Switching := by simp [System.Switching, frames]
    have wf' := h.wf.started true
    have same : ∀ v, Kernel.state { s.k with rtosStarted := true } v = s.k.state v := fun _ => rfl
    simp only [switchStep, System.goOnAt] at changed ⊢
    cases hs : scheduled { s.k with rtosStarted := true } with
    | none =>
      rw [osSchedule_fallback wf' hs] at changed
      exact absurd rfl changed
    | some x =>
      have candidate := ((scheduled_some wf' x).mp hs).1
      rw [scheduled_started] at hs
      have state := osSchedule_state (k := { s.k with rtosStarted := true })
        (by rw [scheduled_started]; exact hs) t
      unfold Kernel.Candidate at candidate
      simp only [same] at candidate state
      refine .inr (.inl ⟨switching, ?_, ?_, ?_⟩) <;> grind
  | isrSignal _ result | signal _ _ result =>
    obtain ⟨sem, hs, ⟨v, q, rfl, hq, rfl⟩ | ⟨-, -, rfl⟩⟩ := osSemaphoreSignal_effect h.queued result
    · have eq : t = v := by
        by_contra other
        exact changed (by simp [System.goOn, System.goOnAt, other])
      subst eq
      exact .inl ⟨by simp [System.goOn, System.goOnAt], .inr ⟨_, _, result⟩⟩
    · exact absurd rfl changed
  | delay thread pc =>
    have run := h.thread_running thread pc (by simp) (by simp)
    simp only [System.goOn] at changed ⊢
    exact .inr (.inr (by grind))
  | waitQueued thread pc _ result =>
    have run := h.thread_running thread pc (by simp) (by simp)
    obtain ⟨sem, -, ⟨eq, -⟩ | ⟨-, -, -, rfl⟩⟩ := osSemaphoreWait_effect result
    · cases eq
    · simp only [System.goOn] at changed ⊢
      exact .inr (.inr (by grind))
  | waitTaken _ _ _ result =>
    obtain ⟨sem, -, ⟨-, -, rfl⟩ | ⟨eq, -⟩⟩ := osSemaphoreWait_effect result
    · exact absurd rfl changed
    · cases eq

/-- Only running tasks run, exactly in the runs in which every switch finds a task that is
ready or still running. -/
theorem running_only_iff {cfg : Config} {s₀ s : System} {tr : List (System × Action)}
    (hboot : boot cfg = some s₀) (some_task : 0 < cfg.tasks.length) (run : Run AnyStep s₀ tr s) :
    RunningOnly tr ↔ ∀ p ∈ tr, p.1.Switching → p.2 = .handler → Runnable p.1.k := by
  have inv₀ := boot_inv hboot some_task
  have enabled : ∀ p ∈ tr, ∃ u, step p.1 p.2 = some u := fun p mem =>
    (run.step_at p mem).2.imp fun _ h => h.1
  constructor
  · intro only p mem switching handler
    obtain ⟨wf, -⟩ := run.invariant_at (P := fun s => s.k.Wf) inv₀.wf
      fun _ _ _ wf hstep => step_wf wf hstep.1
    obtain ⟨u, hstep⟩ := enabled p mem
    have running := only.resumed p mem switching handler u hstep
    rw [handler] at hstep
    obtain ⟨rest, rfl⟩ := switching_step switching hstep
    by_contra stuck
    obtain ⟨current, not⟩ := switch_stuck rest (wf p mem) stuck
    rw [current] at running
    exact not running
  · intro runnable
    obtain ⟨inv, -⟩ := run.invariant_at (P := Inv) inv₀ fun p mem u inv hstep =>
      step_inv inv hstep.1 fun handler switching =>
        (scheduled_iff_runnable inv.wf).mpr (runnable p mem switching handler)
    constructor
    · intro p mem switching handler u hstep
      have selects := (scheduled_iff_runnable (inv p mem).wf).mpr (runnable p mem switching handler)
      obtain ⟨x, hx⟩ := Option.ne_none_iff_exists'.mp selects
      rw [handler] at hstep
      obtain ⟨rest, rfl⟩ := switching_step switching hstep
      obtain ⟨current, running⟩ := switchStep_resumed rest hx
      rw [current]; exact running
    · intro p mem past
      exact (inv p mem).past_yield past
    · intro p mem u hstep t asleep changed
      rcases (inv p mem).step_states hstep t changed with woken | ⟨-, awake⟩ | ⟨running, -⟩
      · exact woken
      · exact absurd asleep (by simp [awake.1, awake.2.1])
      · simp [running] at asleep
    · intro p mem u hstep t not running
      have changed : u.k.state t ≠ p.1.k.state t := by rw [running]; exact not.symm
      rcases (inv p mem).step_states hstep t changed with ⟨ready, -⟩ | ⟨switching, -, -, sel⟩ | ⟨was, -⟩
      · rw [running] at ready; cases ready
      · exact ⟨switching, sel running⟩
      · exact absurd was not

theorem awake_runnable {cfg : Config} {idle : TaskId} {s₀ s : System}
    {tr : List (System × Action)} (hboot : boot cfg = some s₀) (created : idle < cfg.tasks.length)
    (run : Run (AwakeStep idle) s₀ tr s) : ∀ p ∈ tr, Runnable p.1.k := by
  intro p mem
  obtain ⟨inv, lt, awake⟩ := Reachable.idleInv ⟨s₀, hboot, created, (run.step_at p mem).1⟩
  exact (scheduled_iff_runnable inv.wf).mp (awake.selects inv.wf lt)

/-- `main`, with its idle task, until the consumer waits. -/
theorem running_only_main : ∃ (tr : List (System × Action)) (s : System),
    s.k.state 2 = .blocked ∧ RunningOnly tr := by
  obtain ⟨s, ⟨s₀, hboot, created, tr, run⟩, blocked⟩ := reachable_of_exec mainConfig 3
    [.pendSv, .handler, .call (.wait 0), .task, .pendSv, .handler]
    (fun s => s.k.state 2 = .blocked) (by decide) (by decide)
  have run' : Run AnyStep s₀ tr s := run.mono fun _ _ _ h => ⟨h.1, trivial⟩
  refine ⟨tr, s, of_decide_eq_true blocked, (running_only_iff hboot (by decide) run').mpr ?_⟩
  exact fun p mem _ _ => awake_runnable hboot created run p mem

/-- A single task that sleeps, with nothing else to run. -/
def soloConfig : Config :=
  { ticks := 0, inits := [], tasks := [⟨"solo", 0x08000101, 0x20000100, 64, 1⟩] }

/-- Its first `osDelay(5)` puts it to sleep, and the switch returns into the sleeping task. -/
theorem solo_resumes_sleeping : ¬ ∀ (cfg : Config) (s₀ s : System) (tr : List (System × Action)),
    boot cfg = some s₀ → 0 < cfg.tasks.length → Run AnyStep s₀ tr s → RunningOnly tr := by
  intro claim
  have trace : ((boot soloConfig).bind fun s => exec step (fun _ _ _ => true) s
      [.pendSv, .handler, .call (.delay 5), .task, .pendSv]).any
        (fun s => decide s.Switching && (step s .handler).any fun u =>
          u.k.state u.k.currentTask = .sleeping) = true := by decide
  obtain ⟨s, hs, hp⟩ := (Option.any_eq_true _ _).mp trace
  obtain ⟨s₀, hboot, hexec⟩ := Option.bind_eq_some_iff.mp hs
  rw [Bool.and_eq_true, decide_eq_true_iff] at hp
  obtain ⟨switching, hnext⟩ := hp
  obtain ⟨u, hstep, asleep⟩ := (Option.any_eq_true _ _).mp hnext
  have run : Run AnyStep s₀ (_ ++ [(s, .handler)]) u := (exec_any hexec).snoc ⟨hstep, trivial⟩
  have running := (claim soloConfig s₀ u _ hboot (by decide) run).resumed (s, .handler)
    (by simp) switching rfl u hstep
  rw [decide_eq_true_iff, running] at asleep
  cases asleep

end Rtos
