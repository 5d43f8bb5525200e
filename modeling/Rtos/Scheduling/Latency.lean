import Rtos.Scheduling.BoundedWaiting
import Rtos.Scheduling.Preemption
import Rtos.Sync.Deadlock

/-! How long a ready task waits in a run, counted in switches and in ticks, and who waits for good.
A tick ends the slice of the running task: no task executes between the entry of `SysTick_Handler`
and the next switch. -/
namespace Rtos
open Lib

/-- A SysTick call is active, or a switch is due. -/
def Coming (s : System) : Prop := s.inTick = true ∨ SwitchDue s.k s.frames

theorem Coming.not_thread {s : System} (h : Coming s) : ¬ s.Thread := by
  intro thread
  rcases h with tick | pend | entered
  · simp [System.inTick, thread.frames] at tick
  · rw [thread.pendsv] at pend; cases pend
  · simp [thread.frames] at entered

theorem Coming.keep {s s' : System} (h : Coming s) (pendsv : s.k.pendsv = true → s'.k.pendsv = true)
    (frames : ∀ f ∈ s.frames, f.isTick = true ∨ f = .pendSv → f ∈ s'.frames) : Coming s' := by
  rcases h with tick | pend | entered
  · obtain ⟨f, mem, isTick⟩ := List.any_eq_true.mp tick
    exact .inl (List.any_eq_true.mpr ⟨f, frames f mem (.inl isTick), isTick⟩)
  · exact .inr (.inl (pendsv pend))
  · exact .inr (.inr (frames _ entered (.inr rfl)))

/-- Up to the switch, nothing lets a task execute. -/
theorem step_coming {s s' : System} {a : Action} (covered : Covered s) (h : Coming s)
    (hstep : step s a = some s') (other : ¬ (a = .handler ∧ s.Switching)) : Coming s' := by
  cases step_cases hstep with
  | sysTick | isr => exact h.keep id fun f mem _ => List.mem_cons_of_mem _ mem
  | pendSv => exact .inr (.inr List.mem_cons_self)
  | @tickLeave rest frames =>
    have due := covered.leave (by rw [frames]; exact List.mem_cons_self)
    exact .inr (by simpa [SwitchDue, frames] using due)
  | tick => exact .inl (by simp [System.inTick])
  | isrYield frames =>
    refine h.keep (fun _ => rfl) fun f mem kind => ?_
    rw [frames] at mem
    rcases List.mem_cons.mp mem with rfl | mem
    · simp at kind
    · exact List.mem_cons_of_mem _ mem
  | switch frames => exact absurd ⟨rfl, by simp [System.Switching, frames]⟩ other
  | isrSignal frames result =>
    obtain ⟨_, _, rfl⟩ := osSemaphoreSignal_eq_with result
    refine h.keep id fun f mem kind => ?_
    rw [frames] at mem
    rcases List.mem_cons.mp mem with rfl | mem
    · simp at kind
    · exact List.mem_cons_of_mem _ mem
  | isrReturn frames =>
    refine h.keep id fun f mem kind => ?_
    rw [frames] at mem
    rcases List.mem_cons.mp mem with rfl | mem
    · simp at kind
    · exact mem
  | nothing thread | delay thread | waitQueued thread | waitTaken thread | signal thread
  | release thread | trap thread | init thread | leave thread | yield thread | ret thread
  | own thread => exact absurd thread h.not_thread

def Action.inThread : Action → Bool
  | .call _ => true
  | .task => true
  | _ => false

theorem step_thread {s s' : System} {a : Action} (hstep : step s a = some s')
    (thread : a.inThread = true) : s.Thread := by
  cases a with
  | call op => exact s.inThread_iff.mp (Option.ite_none_right_eq_some.mp hstep).1.1
  | task => exact s.inThread_iff.mp (Option.ite_none_right_eq_some.mp hstep).1
  | _ => cases thread

theorem step_nothing {s : System} {a : Action} (thread : s.Thread) (hstep : step s a = some s) : a.inThread = true := by
  cases a with
  | sysTick =>
    have eq := congrArg System.frames (Option.some.inj ((Option.ite_none_right_eq_some.mp hstep).2))
    simp [thread.frames] at eq
  | isr =>
    have eq := congrArg System.frames (Option.some.inj ((Option.ite_none_right_eq_some.mp hstep).2))
    simp [thread.frames] at eq
  | pendSv =>
    have pend := (Option.ite_none_right_eq_some.mp hstep).1.2.2
    rw [thread.pendsv] at pend; cases pend
  | handler => simp [step, handlerStep, thread.frames] at hstep
  | isrSignal => simp [step, isrSignalStep, thread.frames] at hstep
  | isrReturn => simp [step, thread.frames] at hstep
  | call | task => rfl

/-- In this step `os_schedule` runs. -/
def Switches (p : System × Action) : Prop := p.2 = .handler ∧ p.1.Switching

instance (p : System × Action) : Decidable (Switches p) := by unfold Switches; infer_instance

def switches (tr : List (System × Action)) : Nat := tr.countP fun p => Switches p

theorem switches_snoc (tr : List (System × Action)) (p : System × Action) :
    switches (tr ++ [p]) = switches tr + if Switches p then 1 else 0 := by
  simp [switches, List.countP_append, List.countP_singleton]

/-- Rounds so far, and whether a tick has come since the last instruction of a task. -/
def nextRound (r : Nat × Bool) (p : System × Action) : Nat × Bool :=
  if p.2 = .sysTick then (r.1, true)
  else if p.2.inThread && r.2 then (r.1 + 1, false)
  else r

/-- How often a task executes again after a tick. -/
def rounds (tr : List (System × Action)) : Nat := (tr.foldl nextRound (0, false)).1

theorem rounds_snoc (tr : List (System × Action)) (p : System × Action) :
    (tr ++ [p]).foldl nextRound (0, false) = nextRound (tr.foldl nextRound (0, false)) p := by
  rw [List.foldl_append]; rfl

/-- Between two rounds there is a switch. -/
theorem run_rounds {cfg : Config} {idle : TaskId} {s t : System} {tr : List (System × Action)}
    (h : Reachable cfg idle s) (run : Run (AwakeStep idle) s tr t) :
    Reachable cfg idle t ∧ rounds tr ≤ switches tr ∧
      ((tr.foldl nextRound (0, false)).2 = true → Coming t ∨ rounds tr < switches tr) := by
  induction run with
  | nil => exact ⟨h, le_rfl, fun owed => by cases owed⟩
  | @snoc tr t u a _ hstep ih =>
    obtain ⟨reachable, fewer, owes⟩ := ih
    refine ⟨reachable.next hstep, ?_⟩
    unfold rounds at fewer owes ⊢
    rw [rounds_snoc, switches_snoc]
    generalize tr.foldl nextRound (0, false) = r at fewer owes ⊢
    unfold nextRound
    by_cases tick : a = .sysTick
    · subst tick
      obtain ⟨-, eq⟩ := Option.ite_none_right_eq_some.mp hstep.1
      cases eq
      simp only [if_true]
      exact ⟨by omega, fun _ => .inl (.inl (by simp [System.inTick]))⟩
    rw [if_neg tick]
    by_cases thread : a.inThread = true
    · have quiet : ¬ Coming t := fun coming => coming.not_thread (step_thread hstep.1 thread)
      cases owed : r.2 with
      | false => simpa [thread, owed] using Nat.le_add_right_of_le fewer
      | true =>
        have less := (owes owed).resolve_left quiet
        simp only [thread, Bool.and_self, if_true]
        exact ⟨by omega, fun no => by cases no⟩
    · simp only [thread, Bool.false_and, Bool.false_eq_true, if_false]
      by_cases switch : Switches (t, a)
      · rw [if_pos switch]
        exact ⟨by omega, fun _ => .inr (by omega)⟩
      · rw [if_neg switch]
        refine ⟨fewer, fun owed => (owes owed).imp_left fun coming => ?_⟩
        exact step_coming reachable.covered coming hstep.1 switch

theorem switching_other {s s' : System} {a : Action} (switching : s.Switching)
    (hstep : step s a = some s') (other : ¬ Switches (s, a)) : s'.k = s.k := by
  obtain ⟨rest, frames⟩ := List.head?_eq_some_iff.mp switching
  cases step_cases hstep with
  | sysTick | isr => rfl
  | switch => exact absurd ⟨rfl, switching⟩ other
  | pendSv _ top | tickLeave top | tick top | isrYield top | isrSignal top | isrReturn top =>
    exact absurd (frames.symm.trans top) (by simp)
  | nothing thread | delay thread | waitQueued thread | waitTaken thread | signal thread
  | release thread | trap thread | init thread | leave thread | yield thread | ret thread
  | own thread => exact absurd (thread.frames.symm.trans frames) (by simp)

/-- A ready task stays ready until it is selected. -/
theorem step_ready {s s' : System} {a : Action} {b : TaskId} (inv : Inv s)
    (ready : s.k.state b = .ready) (hstep : step s a = some s') (passed : ¬ Selects b (s, a)) :
    s'.k.state b = .ready := by
  by_contra changed
  have changed' : s'.k.state b ≠ s.k.state b := by rw [ready]; exact changed
  rcases inv.step_states hstep b changed' with ⟨now, -⟩ | ⟨switching, -, -, selected⟩ | ⟨run, -⟩
  · exact changed now
  · by_cases switch : Switches (s, a)
    · obtain ⟨rfl, -⟩ := switch
      obtain ⟨rest, rfl⟩ := switching_step switching hstep
      have same : Kernel.state { s.k with rtosStarted := true } b = .ready := ready
      cases hx : scheduled { s.k with rtosStarted := true } with
      | none =>
        refine changed ?_
        show (osSchedule { s.k with rtosStarted := true }).state b = .ready
        rw [osSchedule_fallback (inv.wf.started true) hx]; exact ready
      | some x =>
        have other : b ≠ x := by
          rintro rfl
          rw [scheduled_started] at hx
          exact passed ⟨rfl, switching, hx⟩
        refine changed ?_
        show (osSchedule { s.k with rtosStarted := true }).state b = .ready
        rw [osSchedule_state hx, if_neg other, same]
        simp
    · exact changed' (congrFun (congrArg Kernel.state (switching_other switching hstep switch)) b)
  · rw [run] at ready; cases ready

/-- At this point no runnable task is more urgent than `b`. -/
def Topmost (b : TaskId) (k : Kernel) : Prop := ∀ y, k.Candidate y → k.prio y ≤ k.prio b

/-- Every switch to another task brings a ready task of the highest priority nearer. -/
theorem switch_nearer {s s' : System} {b : TaskId} (inv : Inv s) (created : b < s.k.taskCount)
    (ready : s.k.state b = .ready) (top : Topmost b s.k) (switching : s.Switching)
    (hstep : step s .handler = some s') (passed : ¬ Selects b (s, .handler)) :
    distance s'.k b < distance s.k b := by
  obtain ⟨rest, rfl⟩ := switching_step switching hstep
  have selects : scheduled s.k ≠ none := by
    intro none
    exact (scheduled_none inv.wf).mp none b ⟨created, .inl ready⟩
  obtain ⟨x, hx⟩ := Option.ne_none_iff_exists'.mp selects
  obtain ⟨candidate, best⟩ := (scheduled_some inv.wf x).mp hx
  have other : x ≠ b := fun eq => passed ⟨rfl, switching, eq ▸ hx⟩
  have level : s.k.prio x = s.k.prio b :=
    BitVec.le_antisymm (top x candidate) (best b ⟨created, .inl ready⟩).1
  have hx' : scheduled { s.k with rtosStarted := true } = some x := by
    rw [scheduled_started]; exact hx
  exact select_nearer (inv.wf.started true).named created ready hx' other level

theorem slices_zero_snoc {b : TaskId} {tr : List (System × Action)} {p : System × Action}
    (h : slices b (tr ++ [p]) = 0) : slices b tr = 0 ∧ ¬ Selects b p := by
  rw [slices_snoc] at h
  refine ⟨by omega, fun sel => ?_⟩
  rw [if_pos sel] at h
  omega

theorem run_nearer {cfg : Config} {idle : TaskId} {s t : System} {tr : List (System × Action)}
    {b : TaskId} (h : Reachable cfg idle s) (created : b < cfg.tasks.length)
    (ready : s.k.state b = .ready) (run : Run (AwakeStep idle) s tr t)
    (top : ∀ p ∈ tr, Switches p → Topmost b p.1.k) (late : slices b tr = 0) :
    Reachable cfg idle t ∧ t.k.state b = .ready ∧
      distance t.k b + switches tr ≤ distance s.k b := by
  induction run with
  | nil => exact ⟨h, ready, le_rfl⟩
  | @snoc tr t u a _ hstep ih =>
    obtain ⟨before, passed⟩ := slices_zero_snoc late
    obtain ⟨reachable, waits, near⟩ := ih (fun p mem => top p (List.mem_append_left _ mem)) before
    have inv := reachable.idleInv.inv
    refine ⟨reachable.next hstep, step_ready inv waits hstep.1 passed, ?_⟩
    rw [switches_snoc]
    by_cases switch : Switches (t, a)
    · obtain ⟨rfl, switching⟩ := switch
      have last := top (t, .handler) (List.mem_append_right _ List.mem_cons_self) ⟨rfl, switching⟩
      have nearer := switch_nearer inv (reachable.tasks.1 ▸ created) waits last switching hstep.1 passed
      rw [if_pos ⟨rfl, switching⟩]
      omega
    · have same := (step_interlude inv.wf hstep.1 switch).distance b
      rw [if_neg switch]
      omega

/-- A ready task of the highest priority is the next to be selected after less than `task_count`
switches to other tasks; so no more ticks than that end a slice while it waits. -/
theorem response_time {cfg : Config} {idle : TaskId} {s t : System} {tr : List (System × Action)}
    {b : TaskId} (h : Reachable cfg idle s) (created : b < cfg.tasks.length)
    (ready : s.k.state b = .ready) (run : Run (AwakeStep idle) s tr t)
    (top : ∀ p ∈ tr, Switches p → Topmost b p.1.k) (late : slices b tr = 0) :
    t.k.state b = .ready ∧ rounds tr ≤ switches tr ∧ switches tr < cfg.tasks.length := by
  obtain ⟨-, waits, near⟩ := run_nearer h created ready run top late
  refine ⟨waits, (run_rounds h run).2.1, ?_⟩
  have inv := h.idleInv.inv
  have index : s.k.currentTaskIndex < s.k.taskCount := by
    rw [inv.wf.index_eq]; exact inv.wf.current_lt
  have start : distance s.k b < s.k.taskCount := cyclicPos_lt index (h.tasks.1 ▸ created)
  rw [h.tasks.1] at start
  omega

/-- The counter task of `main.c` is ready when the consumer has gone to wait, and lets the led task
go first; a tick comes before the led task executes. -/
theorem response_time_counter : ∃ tr : List (System × Action),
    rounds tr = 1 ∧ slices 1 tr = 0 ∧ switches tr < 4 := by
  let acts : List Action := .sysTick :: List.replicate 9 .handler ++ [.pendSv, .handler, .call (.signal 0)]
  obtain ⟨s, h, hp⟩ := reachable_of_exec mainConfig 3 [.pendSv, .handler, .call (.wait 0), .task]
    (fun s => decide (s.k.state 1 = .ready) &&
      decide (rounds (visited step s acts) = 1 ∧ slices 1 (visited step s acts) = 0) &&
      (visited step s acts).all (fun p => decide (Switches p → ∀ y < p.1.k.taskCount,
        p.1.k.state y = .ready ∨ p.1.k.state y = .running → p.1.k.prio y ≤ p.1.k.prio 1)) &&
      (exec step (fun _ _ t => decide (Awake 3 t.k)) s acts).isSome) (by decide) (by decide)
  simp only [Bool.and_eq_true, decide_eq_true_eq, List.all_eq_true] at hp
  obtain ⟨⟨⟨ready, one, none⟩, level⟩, done⟩ := hp
  obtain ⟨t, hexec⟩ := Option.isSome_iff_exists.mp done
  have run := exec_awake hexec
  refine ⟨_, one, none, (response_time h (by decide) ready run ?_ none).2.2⟩
  intro p mem switch y candidate
  exact level p mem switch y candidate.1 (candidate.2.imp_right And.right)

/-- As long as a task stays runnable, no task of lower priority is selected. -/
theorem busy_starves {cfg : Config} {idle : TaskId} {s t : System} {tr : List (System × Action)}
    {a b : TaskId} (h : Reachable cfg idle s) (created : a < cfg.tasks.length)
    (lower : s.k.prio b < s.k.prio a) (run : Run (AwakeStep idle) s tr t)
    (busy : ∀ p ∈ tr, Awake a p.1.k) : slices b tr = 0 := by
  refine List.countP_eq_zero.mpr fun p mem selected => ?_
  obtain ⟨-, -, hb⟩ := of_decide_eq_true selected
  obtain ⟨reach, -⟩ := run.step_at p mem
  obtain ⟨reachable, prios⟩ := reach.invariant
    (P := fun t => Reachable cfg idle t ∧ ∀ x, t.k.prio x = s.k.prio x) ⟨h, fun _ => rfl⟩
    fun t a u ⟨reachable, same⟩ hstep =>
      ⟨reachable.next hstep, fun x => (step_prio hstep.1 x).trans (same x)⟩
  have inv := reachable.idleInv.inv
  have candidate := (busy p mem).candidate inv.wf (reachable.tasks.1 ▸ created)
  have le := (((scheduled_some inv.wf b).mp hb).2 a candidate).1
  rw [prios, prios] at le
  exact absurd le (BitVec.not_le.mpr lower)

theorem Trapped.awake {s : System} {a : TaskId} (h : Trapped s a) (inv : Inv s)
    (created : a < s.k.taskCount) : Awake a s.k := by
  have out : ∀ c : Call, s.pc a ≠ .yield c ∧ s.pc a ≠ .ret c := by
    rw [Trapped] at h
    simp [h]
  cases state : s.k.state a with
  | ready => exact .inl state
  | running => exact .inr state
  | sleeping =>
    rcases inv.sleeping_pc a created state with pc | pc
    · exact absurd pc (out _).1
    · exact absurd pc (out _).2
  | blocked =>
    obtain ⟨r, mem⟩ := (inv.queued.blocked a created).mp state
    rcases inv.queue_pc r a mem with pc | pc
    · exact absurd pc (out _).1
    · exact absurd pc (out _).2

/-- A task that has released a mutex of another one never comes back, stays runnable for good, and
no task of lower priority is ever selected again. -/
theorem trap_starves {cfg : Config} {idle : TaskId} {s t : System} {tr : List (System × Action)}
    {a : TaskId} (h : Reachable cfg idle s) (created : a < cfg.tasks.length)
    (trapped : Trapped s a) (run : Run (AwakeStep idle) s tr t) :
    Trapped t a ∧ Awake a t.k ∧ ∀ b, s.k.prio b < s.k.prio a → slices b tr = 0 := by
  have stays : ∀ u, Reach (AwakeStep idle) s u → Trapped u a ∧ Awake a u.k := by
    intro u reach
    obtain ⟨reachable, spin⟩ := reach.invariant (P := fun u => Reachable cfg idle u ∧ Trapped u a)
      ⟨h, trapped⟩ fun t b u ⟨reachable, spin⟩ hstep =>
        ⟨reachable.next hstep, step_spin spin hstep.1⟩
    exact ⟨spin, spin.awake reachable.idleInv.inv (reachable.tasks.1 ▸ created)⟩
  obtain ⟨spin, awake⟩ := stays t ⟨tr, run⟩
  refine ⟨spin, awake, fun b lower => busy_starves h created lower run fun p mem => ?_⟩
  exact (stays p.1 (run.step_at p mem).1).2

/-- The consumer of `main.c` releases a mutex that nobody has acquired, and the led task is never
selected, a whole tick later. -/
theorem trap_starves_led : ∃ (tr : List (System × Action)) (t : System),
    switches tr = 1 ∧ Trapped t 2 ∧ slices 0 tr = 0 := by
  let acts : List Action := .sysTick :: List.replicate 9 .handler ++ [.pendSv, .handler]
  obtain ⟨s, h, hp⟩ := reachable_of_exec mainConfig 3 [.pendSv, .handler, .call (.release 0)]
    (fun s => decide (s.pc 2 = .spin ∧ s.k.prio 0 < s.k.prio 2) &&
      decide (switches (visited step s acts) = 1) &&
      (exec step (fun _ _ t => decide (Awake 3 t.k)) s acts).isSome) (by decide) (by decide)
  simp only [Bool.and_eq_true, decide_eq_true_eq] at hp
  obtain ⟨⟨⟨spin, lower⟩, one⟩, done⟩ := hp
  obtain ⟨t, hexec⟩ := Option.isSome_iff_exists.mp done
  have run := exec_awake hexec
  obtain ⟨spins, -, starves⟩ := trap_starves h (by decide) spin run
  exact ⟨_, t, one, spins, starves 0 lower⟩

end Rtos
