import Rtos.Scheduling.Resume

/-! Strict priority: what holds right after a context switch, and why a more urgent ready
task always has a switch coming. -/
namespace Rtos
open Lib

/-- Some ready task has a strictly higher priority than the current one. -/
def Urgent (k : Kernel) : Prop :=
  ∃ t, t < k.taskCount ∧ k.state t = .ready ∧ k.prio k.currentTask < k.prio t

/-- PENDSVSET is set, a `SysTick_Handler` call is active, or the running task or a handler is
in `osSemaphoreSignal` between TASK_READY and `trigger_pendsv()`. -/
def Requested (s : System) : Prop :=
  s.k.pendsv = true ∨ s.inTick = true ∨ (∃ r, s.pc s.k.currentTask = .yield (.signal r)) ∨
    .isr .yield ∈ s.frames

/-- Strict priority: the task that `os_schedule` leaves current. -/
structure Elected (k : Kernel) : Prop where
  current_lt : k.currentTask < k.taskCount
  index_eq : k.currentTaskIndex = k.currentTask
  running : k.state k.currentTask = .running
  only : ∀ t, t < k.taskCount → k.state t = .running → t = k.currentTask
  calm : ¬ Urgent k

theorem Urgent.mono {k k' : Kernel} (h : Urgent k') (count : k'.taskCount = k.taskCount)
    (current : k'.currentTask = k.currentTask) (prio : ∀ t, k'.prio t = k.prio t)
    (ready : ∀ t, k'.state t = .ready → k.state t = .ready) : Urgent k := by
  obtain ⟨t, created, hready, higher⟩ := h
  refine ⟨t, count ▸ created, ready t hready, ?_⟩
  rwa [current, prio, prio] at higher

/-- What `os_schedule` leaves behind when it finds a task. -/
theorem osSchedule_elected {k : Kernel} {x : TaskId} (wf : k.Wf) (hx : scheduled k = some x) :
    Elected (osSchedule k) := by
  obtain ⟨candidate, best⟩ := (scheduled_some wf x).mp hx
  obtain ⟨current, index⟩ := osSchedule_current hx
  have wf' := osSchedule_wf wf
  have running : (osSchedule k).state x = .running := by rw [osSchedule_state hx, if_pos rfl]
  refine ⟨wf'.current_lt, wf'.index_eq, current ▸ running, wf'.running, ?_⟩
  rintro ⟨t, created, ready, higher⟩
  rw [osSchedule_taskCount] at created
  rw [current, osSchedule_prio, osSchedule_prio] at higher
  have was : k.Candidate t := by
    rw [osSchedule_state hx] at ready
    unfold Kernel.Candidate
    grind
  exact absurd (best t was).1 (BitVec.not_le.mpr higher)

/-- Every wake-up of a more urgent task is on its way to a switch. -/
structure Covered (s : System) : Prop where
  leave : .sysTick .leave ∈ s.frames → SwitchDue s.k s.frames
  urgent : Urgent s.k → Requested s ∨ .pendSv ∈ s.frames

theorem Covered.calm {s : System} (h : Covered s) (thread : s.Thread)
    (pc : ∀ r, s.pc s.k.currentTask ≠ .yield (.signal r)) : ¬ Urgent s.k := by
  intro urgent
  rcases h.urgent urgent with (pend | tick | ⟨r, yield⟩ | isr) | due
  · rw [thread.pendsv] at pend; cases pend
  · simp [System.inTick, thread.frames] at tick
  · exact pc r yield
  · simp [thread.frames] at isr
  · simp [thread.frames] at due

theorem Covered.calm_step {s s' : System} (h : Covered s) (thread : s.Thread)
    (pc : ∀ r, s.pc s.k.currentTask ≠ .yield (.signal r)) (frames : s'.frames = s.frames)
    (count : s'.k.taskCount = s.k.taskCount) (current : s'.k.currentTask = s.k.currentTask)
    (prio : ∀ t, s'.k.prio t = s.k.prio t)
    (ready : ∀ t, s'.k.state t = .ready → s.k.state t = .ready) : Covered s' := by
  constructor
  · rw [frames, thread.frames]; simp
  · exact fun urgent => absurd (urgent.mono count current prio ready) (h.calm thread pc)

theorem requested_keep {s s' : System} (h : Requested s ∨ .pendSv ∈ s.frames)
    (pendsv : s.k.pendsv = true → s'.k.pendsv = true)
    (current : s'.k.currentTask = s.k.currentTask) (pc : s'.pc = s.pc)
    (frames : ∀ f ∈ s.frames, f ≠ .isr .body → f ∈ s'.frames) :
    Requested s' ∨ .pendSv ∈ s'.frames := by
  rcases h with (pend | tick | yield | isr) | due
  · exact .inl (.inl (pendsv pend))
  · obtain ⟨f, mem, isTick⟩ := List.any_eq_true.mp tick
    have other : f ≠ .isr .body := by rintro rfl; cases isTick
    exact .inl (.inr (.inl (List.any_eq_true.mpr ⟨f, frames f mem other, isTick⟩)))
  · exact .inl (.inr (.inr (.inl (by rw [pc, current]; exact yield))))
  · exact .inl (.inr (.inr (.inr (frames _ isr (by simp)))))
  · exact .inr (frames _ due (by simp))

theorem step_covered {s s' : System} {a : Action} (inv : Inv s) (h : Covered s)
    (hstep : step s a = some s') (selects : a = .handler → s.Switching → scheduled s.k ≠ none) :
    Covered s' := by
  cases step_cases hstep with
  | sysTick =>
    refine ⟨fun mem => ?_, fun _ => .inl (.inr (.inl ?_))⟩
    · exact (h.leave (by simpa using mem)).imp_right (List.mem_cons_of_mem _)
    · simp [System.inTick, Frame.isTick]
  | isr =>
    refine ⟨fun mem => ?_, fun urgent => ?_⟩
    · exact (h.leave (by simpa using mem)).imp_right (List.mem_cons_of_mem _)
    · exact requested_keep (h.urgent urgent) id rfl rfl fun f mem _ => List.mem_cons_of_mem _ mem
  | pendSv => exact ⟨fun mem => by simp at mem, fun _ => .inr List.mem_cons_self⟩
  | @tickLeave rest frames =>
    have due : SwitchDue s.k rest := by
      have due := h.leave (by simp [frames])
      simpa [SwitchDue, frames] using due
    exact ⟨fun _ => due, fun _ => due.imp_left .inl⟩
  | @tick pc rest frames more =>
    refine ⟨fun mem => ?_, fun _ => .inl (.inr (.inl ?_))⟩
    · have at_ := inv.at_frames frames
      have last : (tickStep s.k pc).2 = .leave := by
        rcases List.mem_cons.mp mem with eq | below
        · exact (Frame.sysTick.inj eq).symm
        · exact absurd (at_.no_tick _ below) (by simp)
      have tick := tickStep_cases s.k more
      simp only [System.goOnAt_k, System.goOnAt_frames, last] at tick ⊢
      generalize (tickStep s.k pc).1 = k' at tick ⊢
      cases tick with
      | notStarted not =>
        have due := at_.boot not
        simpa [SwitchDue] using due
      | pend => exact .inl rfl
    · simp [System.inTick, Frame.isTick]
  | isrYield => exact ⟨fun _ => .inl rfl, fun _ => .inl (.inl rfl)⟩
  | @switch rest frames =>
    have at_ := inv.at_frames frames
    obtain rfl := at_.bottom
    obtain ⟨x, hx⟩ := Option.ne_none_iff_exists'.mp (selects rfl (by simp [System.Switching, frames]))
    have wf := inv.wf.started true
    refine ⟨fun mem => (List.not_mem_nil mem).elim, fun urgent => absurd urgent ?_⟩
    exact (osSchedule_elected wf (by rw [scheduled_started]; exact hx)).calm
  | @isrSignal j rest k woken frames result =>
    obtain ⟨pool, sems, with_⟩ := osSemaphoreSignal_eq_with result
    refine ⟨fun mem => ?_, fun urgent => ?_⟩
    · have due := h.leave (by simpa [frames] using mem)
      simpa [SwitchDue, frames, with_] using due
    · cases woken with
      | some u => exact .inl (.inr (.inr (.inr (by simp))))
      | none =>
        obtain ⟨sem, -, ⟨_, _, eq, _⟩ | ⟨-, -, rfl⟩⟩ := osSemaphoreSignal_effect inv.queued result
        · cases eq
        · refine requested_keep (h.urgent urgent) id rfl rfl ?_
          simp +contextual [frames]
  | isrReturn frames =>
    refine ⟨fun mem => ?_, fun urgent => ?_⟩
    · have due := h.leave (by simp [frames]; exact mem)
      simpa [SwitchDue, frames] using due
    · refine requested_keep (h.urgent urgent) id rfl rfl ?_
      simp +contextual [frames]
  | nothing => exact h
  | delay thread pc =>
    refine h.calm_step thread (by simp [pc]) rfl rfl rfl (by simp) ?_
    intro t ready
    simp only [System.goOn_k] at ready
    grind
  | waitQueued thread pc _ result =>
    obtain ⟨sem, -, ⟨eq, -⟩ | ⟨-, -, -, rfl⟩⟩ := osSemaphoreWait_effect result
    · cases eq
    · refine h.calm_step thread (by simp [pc]) rfl rfl rfl (by simp) ?_
      intro t ready
      simp only [System.goOn_k] at ready
      grind
  | waitTaken thread pc _ result =>
    obtain ⟨sem, -, ⟨-, -, rfl⟩ | ⟨eq, -⟩⟩ := osSemaphoreWait_effect result
    · exact h.calm_step thread (by simp [pc]) rfl rfl rfl (fun _ => rfl) fun _ => id
    · cases eq
  | @signal _ r k woken thread ref result =>
    have pc : ∀ r, s.pc s.k.currentTask ≠ .yield (.signal r) := by
      intro r
      rcases ref with ⟨_, -, -, pc⟩ | ⟨_, -, -, pc⟩ <;> simp [pc]
    cases woken with
    | some u =>
      refine ⟨?_, fun _ => .inl (.inr (.inr (.inl ⟨r, ?_⟩)))⟩
      · simp [thread.frames]
      · obtain ⟨pool, sems, rfl⟩ := osSemaphoreSignal_eq_with result
        simp
    | none =>
      obtain ⟨sem, -, ⟨_, _, eq, _⟩ | ⟨-, -, rfl⟩⟩ := osSemaphoreSignal_effect inv.queued result
      · cases eq
      · exact h.calm_step thread pc rfl rfl rfl (fun _ => rfl) fun _ => id
  | release thread pc | trap thread pc | leave thread pc | ret thread pc | own thread pc =>
    exact h.calm_step thread (by simp [pc]) rfl rfl rfl (fun _ => rfl) fun _ => id
  | init thread pc =>
    refine h.calm_step thread (by simp [pc]) rfl (by simp) (by simp) (by simp) ?_
    simp
  | yield thread =>
    refine ⟨by simp [thread.frames], fun _ => .inl (.inl rfl)⟩

theorem Reachable.covered {cfg : Config} {idle : TaskId} {s : System} (h : Reachable cfg idle s) :
    Covered s :=
  (h.induct (P := Covered)
    (fun s₀ hboot booted => ⟨by
      obtain ⟨k, -, rfl⟩ := Option.map_eq_some_iff.mp hboot
      simp, fun _ => .inl (.inl booted.pendsv)⟩)
    fun t a u inv covered hstep _ => step_covered inv.inv covered hstep
      fun _ _ => inv.awake.selects inv.inv.wf inv.idle_lt).2

/-- After every context switch the current task is the only running one and none that is
ready is more urgent; and whenever a more urgent task is ready, a switch is requested, or
`PendSV_Handler` has been entered and has not run `os_schedule` yet. -/
theorem strict_priority {cfg : Config} {idle : TaskId} {s : System} (h : Reachable cfg idle s) :
    (∀ s', s.Switching → step s .handler = some s' →
      Elected s'.k ∧ scheduled { s.k with rtosStarted := true } = some s'.k.currentTask) ∧
    (Urgent s.k → Requested s ∨ .pendSv ∈ s.frames) := by
  obtain ⟨inv, created, awake⟩ := h.idleInv
  refine ⟨fun s' switching hstep => ?_, h.covered.urgent⟩
  obtain ⟨x, hx⟩ := Option.ne_none_iff_exists'.mp (awake.selects inv.wf created)
  obtain ⟨rest, rfl⟩ := switching_step switching hstep
  have wf := inv.wf.started true
  have hx' : scheduled { s.k with rtosStarted := true } = some x := by
    rw [scheduled_started]; exact hx
  refine ⟨osSchedule_elected wf hx', ?_⟩
  rw [hx']
  exact congrArg some (osSchedule_current hx').1.symm

/-- The consumer of `main.c` waits, is signalled by the led task, and its switch is taken. -/
def wakeConsumer : List Action :=
  [.pendSv, .handler, .call (.wait 0), .task, .pendSv, .handler, .call (.signal 0), .task, .pendSv]

/-- The exception entry has cleared the request, and the handler has not masked yet. -/
theorem switch_not_pending : ∃ s, Reachable mainConfig 3 s ∧ Urgent s.k ∧ ¬ Requested s := by
  obtain ⟨s, h, hp⟩ := reachable_of_exec mainConfig 3 wakeConsumer
    (fun s => s.k.taskCount = 4 ∧ s.k.state 2 = .ready ∧ s.k.prio s.k.currentTask < s.k.prio 2 ∧
      s.k.pendsv = false ∧ s.inTick = false ∧ s.pc s.k.currentTask = .ret (.signal (.sem 0)) ∧
      .isr .yield ∉ s.frames) (by decide) (by decide)
  obtain ⟨count, ready, higher, pendsv, tick, pc, isr⟩ := of_decide_eq_true hp
  refine ⟨s, h, ⟨2, by omega, ready, higher⟩, ?_⟩
  rintro (pend | inTick | ⟨r, yield⟩ | mem)
  · rw [pendsv] at pend; cases pend
  · rw [tick] at inTick; cases inTick
  · rw [pc] at yield; cases yield
  · exact isr mem

/-- The switch to the woken consumer. -/
theorem strict_priority_consumer : ∃ s s' : System, step s .handler = some s' ∧
    s'.k.currentTask = 2 ∧ Elected s'.k := by
  obtain ⟨s, h, hp⟩ := reachable_of_exec mainConfig 3 wakeConsumer
    (fun s => decide s.Switching && (step s .handler).any fun s' => s'.k.currentTask = 2)
    (by decide) (by decide)
  rw [Bool.and_eq_true, decide_eq_true_iff] at hp
  obtain ⟨s', hstep, current⟩ := (Option.any_eq_true _ _).mp hp.2
  exact ⟨s, s', hstep, of_decide_eq_true current, ((strict_priority h).1 s' hp.1 hstep).1⟩

end Rtos
