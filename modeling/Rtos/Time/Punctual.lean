import Rtos.Scheduling.Accounting
import Rtos.Time.Elapsed

/-! Delays do not drift. If the processor has time to spare at every tick, what a task asks for in one
`osDelay` call after the other takes exactly as many ticks. -/
namespace Rtos
open Lib

/-- The ticks so far, with the one that an active SysTick call is going to count. -/
def raised (s : System) : Nat := ticks s.log + if .sysTick .enter ∈ s.frames then 1 else 0

/-- The delays of task `i` reach exactly to tick `a`. -/
structure Punctual (i : TaskId) (a : Nat) (s : System) : Prop where
  out : ¬ InDelay (s.pc i) → raised s = a
  inside : InDelay (s.pc i) → deadline i s.log = a ∧ raised s ≤ a

/-- A task of lower priority than `i` executes its own code, and `i` waits for no token. -/
structure Spare (i : TaskId) (s : System) : Prop where
  thread : s.Thread
  user : s.pc s.k.currentTask = .user
  lower : s.k.prio s.k.currentTask < s.k.prio i
  free : s.k.state i ≠ .blocked

theorem Punctual.start {i : TaskId} {s : System} (out : ¬ InDelay (s.pc i)) :
    Punctual i (raised s) s :=
  ⟨fun _ => rfl, fun delayed => absurd delayed out⟩

theorem System.Thread.counted {s : System} (h : s.Thread) : raised s = ticks s.log := by
  simp [raised, h.frames]

/-- While a task executes its own code, a task of higher priority has a delay ahead or is blocked. -/
theorem ahead_or_blocked {cfg : Config} {idle i : TaskId} {s : System} (reachable : Reachable cfg idle s)
    (timed : Timed s) (thread : s.Thread) (user : s.pc s.k.currentTask = .user)
    (task : i < s.k.taskCount) (lower : s.k.prio s.k.currentTask < s.k.prio i) :
    (InDelay (s.pc i) ∧ ticks s.log < deadline i s.log) ∨ s.k.state i = .blocked := by
  have inv := reachable.idleInv.inv
  have calm := reachable.covered.calm thread fun r yield => by rw [user] at yield; cases yield
  cases state : s.k.state i with
  | ready => exact absurd ⟨i, task, state, lower⟩ calm
  | running =>
    rw [inv.wf.running i task state] at lower
    exact absurd lower (BitVec.lt_irrefl _)
  | sleeping =>
    refine .inl ⟨inv.sleeping_pc i task state, ?_⟩
    rcases timed.ahead i task state with later | ⟨-, j, -, mem⟩
    · exact later
    · simp [thread.frames] at mem
  | blocked => exact .inr rfl

theorem Spare.ahead {cfg : Config} {idle i : TaskId} {s : System} (h : Spare i s)
    (reachable : Reachable cfg idle s) (timed : Timed s) (task : i < s.k.taskCount) :
    InDelay (s.pc i) ∧ raised s < deadline i s.log := by
  rw [h.thread.counted]
  exact (ahead_or_blocked reachable timed h.thread h.user task h.lower).resolve_right h.free

section step
variable {i : TaskId} {a : Nat} {s s' : System} {act : Action}

theorem raised_keep {es : List Event} (log : s'.log = s.log ++ es) (none : .tick ∉ es)
    (enter : .sysTick .enter ∈ s'.frames ↔ .sysTick .enter ∈ s.frames) : raised s' = raised s := by
  have same : ticks s'.log = ticks s.log := by
    rw [ticks, log, List.count_append, List.count_eq_zero.mpr none]; rfl
  simp only [raised, same, enter]

theorem raised_tick {p : TickPc} {rest : List Frame} (inv : Inv s)
    (frames : s.frames = .sysTick p :: rest) (more : p ≠ .leave) :
    raised (s.goOnAt (tickStep s.k p).1 (.sysTick (tickStep s.k p).2 :: rest) (tickEvents p)) =
      raised s := by
  have below : .sysTick .enter ∉ rest := fun mem => by
    have tick := (inv.at_frames frames).no_tick _ mem
    cases tick
  have tick := tickStep_cases s.k more
  generalize (tickStep s.k p).1 = k', (tickStep s.k p).2 = p' at tick ⊢
  cases tick with
  | enter => simp [raised, frames, below, tickEvents, ticks_snoc_tick]
  | asleep | awake | done | due | notDue | wake | charge | notStarted | pend =>
    exact raised_keep rfl (by simp [tickEvents]) (by simp [frames])

/-- A tick is raised with the entry of SysTick. -/
theorem raised_step (inv : Inv s) (hstep : step s act = some s') :
    raised s' = raised s + if act = .sysTick then 1 else 0 := by
  cases step_cases hstep with
  | sysTick _ once =>
    have clear := (not_owes (List.any_eq_false.mp once)).2
    simp [raised, clear]
  | isr => exact raised_keep rfl List.not_mem_nil (by simp)
  | pendSv _ frames => exact raised_keep rfl List.not_mem_nil (by simp [frames])
  | tickLeave frames | isrYield frames | isrReturn frames | switch frames =>
    exact raised_keep rfl List.not_mem_nil (by simp [frames, switchStep])
  | tick frames more => exact raised_tick inv frames more
  | isrSignal frames =>
    refine raised_keep rfl (fun mem => ?_) (by simp [frames])
    cases signalEvents_untimed _ _ _ _ _ mem
  | nothing thread =>
    have other : act ≠ .sysTick := by
      rintro rfl
      cases step_nothing thread hstep
    rw [if_neg other]; rfl
  | delay | waitQueued | waitTaken | release | trap | init | leave | yield | own =>
    exact raised_keep rfl (by simp) Iff.rfl
  | signal thread ref =>
    have other : act ≠ .sysTick := by
      rintro rfl
      rcases ref with ⟨_, eq, -⟩ | ⟨_, eq, -⟩ <;> cases eq
    rw [if_neg other]
    refine raised_keep rfl (fun mem => ?_) Iff.rfl
    cases signalEvents_untimed _ _ _ _ _ mem
  | ret =>
    refine raised_keep rfl (fun mem => ?_) Iff.rfl
    cases returnTo_untimed _ _ _ _ mem

theorem Punctual.keep (h : Punctual i a s) (same : raised s' = raised s)
    (due : deadline i s'.log = deadline i s.log) (into : InDelay (s'.pc i) → InDelay (s.pc i))
    (back : ¬ InDelay (s'.pc i) → ¬ InDelay (s.pc i) ∨ deadline i s.log ≤ ticks s.log) :
    Punctual i a s' := by
  constructor
  · intro out
    rw [same]
    by_cases delayed : InDelay (s.pc i)
    · obtain ⟨reaches, early⟩ := h.inside delayed
      have come := (back out).resolve_left (not_not_intro delayed)
      have counted : ticks s.log ≤ raised s := Nat.le_add_right _ _
      omega
    · exact h.out delayed
  · intro delayed
    rw [same, due]
    exact h.inside (into delayed)

/-- A task that is in no delay goes on, and starts none. -/
theorem Punctual.goOn {k : Kernel} {p : Pc} {es : List Event} (h : Punctual i a s)
    (same : raised (s.goOn k p es) = raised s) (untimed : ∀ e ∈ es, e.timed = false)
    (before : ¬ InDelay (s.pc s.k.currentTask)) (after : ¬ InDelay p) :
    Punctual i a (s.goOn k p es) := by
  exact h.keep same (deadline_append untimed i)
    (inDelay_update (fun delayed => absurd delayed after) i) fun out => .inl (goOn_out before out)

/-- A step that is no tick and in which the task asks for no delay. -/
theorem Punctual.quiet (inv : Inv s) (timed : Timed s) (h : Punctual i a s)
    (hstep : step s act = some s') (other : act ≠ .sysTick) (none : delayOf i (s, act) = 0) :
    Punctual i a s' := by
  have silent : ∀ e ∈ ([] : List Event), e.timed = false := List.forall_mem_nil _
  have same : raised s' = raised s := by rw [raised_step inv hstep, if_neg other, add_zero]
  cases step_cases hstep with
  | sysTick => exact absurd rfl other
  | isr | pendSv | tickLeave | isrYield | isrReturn | switch =>
    exact h.keep same (deadline_append silent i) id .inl
  | @tick p =>
    refine h.keep same ?_ id .inl
    cases p with
    | enter => exact deadline_snoc_tick ..
    | _ => exact deadline_append (by simp [tickEvents, Event.timed]) i
  | isrSignal => exact h.keep same (deadline_append (signalEvents_untimed _ _ _ _) i) id .inl
  | nothing => exact h
  | @delay d _ pc pos =>
    have away : i ≠ s.k.currentTask := by
      rintro rfl
      simp only [delayOf, if_pos] at none
      exact pos (BitVec.eq_of_toNat_eq none)
    refine h.keep same ?_ (fun delayed => ?_) fun out => .inl ?_
    · rw [System.goOn_log, deadline_snoc_sleep, if_neg away.symm]
    · rwa [System.goOn_pc, Function.update_of_ne away] at delayed
    · rwa [System.goOn_pc, Function.update_of_ne away] at out
  | waitQueued _ pc | waitTaken _ pc | release _ pc | trap _ pc | init _ pc | own _ pc =>
    exact h.goOn same (by simp [Event.timed]) (by simp [InDelay, pc]) (by simp [InDelay])
  | @signal _ _ _ woken _ ref =>
    refine h.goOn same (signalEvents_untimed _ _ _ _) ?_ ?_
    · rcases ref with ⟨_, -, -, pc⟩ | ⟨_, -, -, pc⟩ <;> simp [InDelay, pc]
    · cases woken <;> simp [InDelay]
  | leave _ pc =>
    have moved := h.goOn (k := s.k) (p := .exit) same silent (by simp [InDelay, pc])
      (by simp [InDelay])
    exact ⟨moved.out, moved.inside⟩
  | @yield c _ pc =>
    exact h.keep same (deadline_append silent i) (inDelay_update (by simp [InDelay, pc]) i)
      fun out => .inl (yield_out pc out)
  | @ret c thread pc =>
    refine h.keep same (deadline_append (returnTo_untimed _ _ _) i) (inDelay_update ?_ i)
      fun out => ret_out inv timed thread pc out
    rcases c with _ | (_ | _) | _ <;> simp [InDelay, returnTo]

theorem Punctual.tick (inv : Inv s) (h : Punctual i a s) (hstep : step s .sysTick = some s')
    (delayed : InDelay (s.pc i)) (ahead : raised s < deadline i s.log) : Punctual i a s' := by
  obtain ⟨reaches, -⟩ := h.inside delayed
  have one := raised_step inv hstep
  obtain ⟨-, eq⟩ := Option.ite_none_right_eq_some.mp hstep
  cases eq
  have same : deadline i (s.log ++ []) = deadline i s.log := by rw [List.append_nil]
  refine ⟨fun out => absurd delayed out, fun _ => ⟨same.trans reaches, ?_⟩⟩
  rw [one, if_pos rfl]
  omega

/-- A call asks for a delay. -/
theorem Punctual.sleep {d : Word} (h : Punctual s.k.currentTask a s) (thread : s.Thread)
    (pc : s.pc s.k.currentTask = .user) {k : Kernel}
    (same : raised (s.goOn k (.yield .delay) [.sleep s.k.currentTask (ticks s.log + d.toNat)]) =
      raised s) : Punctual s.k.currentTask (a + d.toNat) (s.goOn k (.yield .delay)
        [.sleep s.k.currentTask (ticks s.log + d.toNat)]) := by
  have now : raised s = a := h.out (by simp [InDelay, pc])
  have counted := thread.counted
  constructor
  · intro out
    exact absurd (.inl (Function.update_self ..)) out
  · intro _
    rw [same, System.goOn_log, deadline_snoc_sleep, if_pos rfl]
    omega

theorem Punctual.step (inv : Inv s) (timed : Timed s) (h : Punctual i a s)
    (hstep : step s act = some s')
    (spare : act = .sysTick → InDelay (s.pc i) ∧ raised s < deadline i s.log) :
    Punctual i (a + delayOf i (s, act)) s' := by
  by_cases tick : act = .sysTick
  · subst tick
    obtain ⟨delayed, ahead⟩ := spare rfl
    exact h.tick inv hstep delayed ahead
  · by_cases none : delayOf i (s, act) = 0
    · rw [none]
      exact h.quiet inv timed hstep tick none
    · have same : raised s' = raised s := by rw [raised_step inv hstep, if_neg tick, Nat.add_zero]
      obtain ⟨d, rfl, rfl, asks, pc, rfl⟩ := delay_step hstep none
      rw [asks]
      exact h.sleep (step_thread hstep rfl) pc same

end step

theorem run_raised {cfg : Config} {idle : TaskId} {s t : System} {tr : List (System × Action)}
    (h : Reachable cfg idle s) (run : Run (AwakeStep idle) s tr t) :
    raised t = raised s + (interrupted tr).length := by
  induction run with
  | nil => rfl
  | @snoc tr t u a prior hstep ih =>
    have one := raised_step (h.follow ⟨tr, prior⟩).idleInv.inv hstep.1
    rw [one, ih, interrupted_snoc, List.length_append]
    by_cases tick : a = .sysTick <;> simp [interrupts, tick, Nat.add_assoc]

/-- No drift: if every tick finds a task of lower priority at work and `i` in no wait, as many ticks
come as `i` asks for in all its `osDelay` calls. -/
theorem no_drift {cfg : Config} {idle i : TaskId} {s₀ s t : System} {tr : List (System × Action)}
    (hboot : boot cfg = some s₀) (created : idle < cfg.tasks.length) (task : i < cfg.tasks.length)
    (reach : Reach (TimedStep idle) s₀ s) (run : Run (TimedStep idle) s tr t)
    (out : ¬ InDelay (s.pc i)) (spare : ∀ p ∈ tr, p.2 = .sysTick → Spare i p.1) :
    (interrupted tr).length ≤ asked i tr ∧
      (¬ InDelay (t.pc i) → (interrupted tr).length = asked i tr) := by
  have reachable : ∀ {u}, Reach (TimedStep idle) s₀ u → Reachable cfg idle u := fun reach =>
    ⟨s₀, hboot, created, reach.imp fun _ run => run.mono fun _ _ _ h => ⟨h.1, h.2.1⟩⟩
  have count := run_raised (reachable reach) (run.mono fun _ _ _ h => ⟨h.1, h.2.1⟩)
  have punctual : Reach (TimedStep idle) s₀ t ∧ Punctual i (raised s + asked i tr) t := by
    clear count
    induction run with
    | nil => exact ⟨reach, .start out⟩
    | @snoc tr t u a _ hstep ih =>
      obtain ⟨reach, punctual⟩ := ih fun p mem => spare p (List.mem_append_left _ mem)
      obtain ⟨inv, timed⟩ := reach_timed hboot created reach
      have next := punctual.step inv.inv timed hstep.1 fun tick =>
        (spare (t, a) (List.mem_append_right _ List.mem_cons_self) tick).ahead (reachable reach) timed
          ((reachable reach).tasks.1 ▸ task)
      rw [Nat.add_assoc, ← asked_snoc] at next
      exact ⟨reach.next hstep, next⟩
  obtain ⟨-, back, inside⟩ := punctual
  constructor
  · by_cases delayed : InDelay (t.pc i)
    · have early := (inside delayed).2
      omega
    · have now := back delayed
      omega
  · intro returned
    have now := back returned
    omega

/-- The consumer of `main.c` asks for one tick, and one comes. -/
theorem no_drift_consumer : ∃ (s t : System) (tr : List (System × Action)),
    s.pc 2 = .user ∧ t.pc 2 = .user ∧ asked 2 tr = 1 ∧ (interrupted tr).length = 1 := by
  let acts : List Action :=
    [.pendSv, .handler, .call (.delay 1), .task, .pendSv, .handler, .sysTick] ++
      List.replicate 11 .handler ++ [.pendSv, .handler, .task]
  have trace : (boot mainConfig).any (fun s =>
      decide (s.pc 2 = .user ∧ asked 2 (visited step s acts) = 1) &&
      (visited step s acts).all (fun p => decide (p.2 = .sysTick → p.1.inThread = true ∧
        p.1.pc p.1.k.currentTask = .user ∧ p.1.k.prio p.1.k.currentTask < p.1.k.prio 2 ∧
        p.1.k.state 2 ≠ .blocked)) &&
      (exec step (fun _ a t => decide (Awake 3 t.k) && a.inRange) s acts).any fun t =>
        decide (t.pc 2 = .user)) = true := by decide
  obtain ⟨s, hboot, hp⟩ := (Option.any_eq_true _ _).mp trace
  simp only [Bool.and_eq_true, decide_eq_true_eq, List.all_eq_true] at hp
  obtain ⟨⟨⟨user, one⟩, spare⟩, done⟩ := hp
  obtain ⟨t, hexec, back⟩ := (Option.any_eq_true _ _).mp done
  have run := exec_timed hexec
  have returned : t.pc 2 = .user := of_decide_eq_true back
  have out : ¬ InDelay (s.pc 2) := by simp [InDelay, user]
  have back : ¬ InDelay (t.pc 2) := by simp [InDelay, returned]
  have came := (no_drift hboot (by decide) (by decide) (Reach.refl _ _) run out fun p mem tick => by
    obtain ⟨thread, user, lower, free⟩ := spare p mem tick
    exact ⟨p.1.inThread_iff.mp thread, user, lower, free⟩).2 back
  exact ⟨s, t, _, user, returned, one, came.trans one⟩

end Rtos
