import Rtos.Time.Deadlines

/-! Delays add up. What a task asks for in one `osDelay` call after the other takes at least as many
ticks, whatever the other tasks and the interrupts do meanwhile. -/
namespace Rtos
open Lib

/-- The ticks that task `i` asks for in this step. -/
def delayOf (i : TaskId) (p : System × Action) : Nat :=
  match p.2 with
  | .call (.delay d) => if p.1.k.currentTask = i then d.toNat else 0
  | _ => 0

def asked (i : TaskId) (tr : List (System × Action)) : Nat := (tr.map (delayOf i)).sum

theorem asked_snoc (i : TaskId) (tr : List (System × Action)) (p : System × Action) :
    asked i (tr ++ [p]) = asked i tr + delayOf i p := by
  simp [asked]

/-- The delays of task `i` reach from some tick to tick `a`, at most `c` ticks ahead of the clock. -/
structure Elapsed (i : TaskId) (a c : Nat) (s : System) : Prop where
  out : ¬ InDelay (s.pc i) → a ≤ ticks s.log
  inside : a ≤ max (deadline i s.log) (ticks s.log)
  ahead : a ≤ ticks s.log + c

theorem Elapsed.start (i : TaskId) (s : System) : Elapsed i (ticks s.log) 0 s where
  out _ := le_rfl
  inside := le_max_right _ _
  ahead := le_rfl

section step
variable {i : TaskId} {a c : Nat} {s s' : System}

theorem Elapsed.mono {m : Nat} (h : Elapsed i a c s) (le : c ≤ m) : Elapsed i a m s :=
  ⟨h.out, h.inside, h.ahead.trans (Nat.add_le_add_left le _)⟩

theorem Elapsed.settle (h : Elapsed i a c s) (out : ¬ InDelay (s.pc i)) : Elapsed i a 0 s :=
  ⟨h.out, h.inside, h.out out⟩

theorem Elapsed.keep {es : List Event} (h : Elapsed i a c s) (log : s'.log = s.log ++ es)
    (untimed : ∀ e ∈ es, e.timed = false)
    (back : ¬ InDelay (s'.pc i) → ¬ InDelay (s.pc i) ∨ deadline i s.log ≤ ticks s.log) :
    Elapsed i a c s' := by
  have same : ticks s'.log = ticks s.log := by rw [log, ticks_append untimed]
  have kept : deadline i s'.log = deadline i s.log := by rw [log, deadline_append untimed]
  have inside := h.inside
  constructor
  · intro out
    rw [same]
    rcases back out with before | reached
    · exact h.out before
    · rwa [max_eq_right reached] at inside
  · rwa [same, kept]
  · rw [same]; exact h.ahead

theorem goOn_out {k : Kernel} {p : Pc} {es : List Event} (before : ¬ InDelay (s.pc s.k.currentTask))
    (after : ¬ InDelay ((s.goOn k p es).pc i)) : ¬ InDelay (s.pc i) := by
  intro delayed
  have other : i ≠ s.k.currentTask := fun eq => before (eq ▸ delayed)
  rw [System.goOn_pc, Function.update_of_ne other] at after
  exact after delayed

theorem yield_out {k : Kernel} {called : Call} {es : List Event}
    (pc : s.pc s.k.currentTask = .yield called)
    (after : ¬ InDelay ((s.goOn k (.ret called) es).pc i)) : ¬ InDelay (s.pc i) := by
  intro delayed
  apply after
  by_cases cur : i = s.k.currentTask
  · subst cur
    rw [pc] at delayed
    simpa [InDelay] using delayed
  · rwa [System.goOn_pc, Function.update_of_ne cur]

/-- The task runs again, so its deadline has come. -/
theorem ret_out {k : Kernel} {called : Call} {p : Pc} {es : List Event} (inv : Inv s) (timed : Timed s)
    (thread : s.Thread) (pc : s.pc s.k.currentTask = .ret called)
    (after : ¬ InDelay ((s.goOn k p es).pc i)) :
    ¬ InDelay (s.pc i) ∨ deadline i s.log ≤ ticks s.log := by
  by_cases cur : i = s.k.currentTask
  · subst cur
    by_cases delayed : InDelay (s.pc s.k.currentTask)
    · have run := inv.thread_running thread pc (by simp) (by simp)
      rcases timed.called _ inv.wf.current_lt delayed with asleep | reached
      · rw [run] at asleep; cases asleep
      · exact .inr reached
    · exact .inl delayed
  · rw [System.goOn_pc, Function.update_of_ne cur] at after
    exact .inl after

/-- A task that is in no delay goes on. -/
theorem Elapsed.goOn {k : Kernel} {p : Pc} {es : List Event} (h : Elapsed i a c s)
    (out : ¬ InDelay (s.pc s.k.currentTask)) (untimed : ∀ e ∈ es, e.timed = false) :
    Elapsed i a c (s.goOn k p es) :=
  h.keep rfl untimed fun after => .inl (goOn_out out after)

theorem Elapsed.tick {p : TickPc} {frames : List Frame} {k : Kernel} (h : Elapsed i a c s) :
    Elapsed i a c (s.goOnAt k frames (tickEvents p)) := by
  have inside := h.inside
  have ahead := h.ahead
  cases p with
  | enter =>
    constructor <;> simp only [System.goOnAt_pc, System.goOnAt_log, tickEvents, ticks_snoc_tick,
      deadline_snoc_tick]
    · exact fun out => (h.out out).trans (Nat.le_succ _)
    · omega
    · omega
  | _ => exact h.keep rfl (by simp [tickEvents, Event.timed]) .inl

/-- A call asks for a delay. -/
theorem Elapsed.sleep {k : Kernel} {d : Word} (h : Elapsed s.k.currentTask a c s)
    (pc : s.pc s.k.currentTask = .user) :
    Elapsed s.k.currentTask (a + d.toNat) (c + d.toNat) (s.goOn k (.yield .delay)
      [.sleep s.k.currentTask (ticks s.log + d.toNat)]) := by
  have now : a ≤ ticks s.log := h.out (by simp [InDelay, pc])
  constructor <;> simp only [System.goOn_pc, System.goOn_log, Function.update_self, ticks_snoc_sleep,
    deadline_snoc_sleep, if_pos]
  · exact fun out => absurd (.inl rfl) out
  · exact (Nat.add_le_add_right now _).trans (le_max_left _ _)
  · omega

theorem Elapsed.otherSleeps {k : Kernel} {d : Nat} (h : Elapsed i a c s)
    (other : i ≠ s.k.currentTask) :
    Elapsed i a c (s.goOn k (.yield .delay) [.sleep s.k.currentTask d]) := by
  constructor <;> simp only [System.goOn_pc, System.goOn_log, Function.update_of_ne other,
    ticks_snoc_sleep, deadline_snoc_sleep, if_neg other.symm]
  · exact h.out
  · exact h.inside
  · exact h.ahead

/-- A step in which the task asks for no delay. -/
theorem Elapsed.quiet {act : Action} (inv : Inv s) (timed : Timed s) (h : Elapsed i a c s)
    (hstep : step s act = some s') (none : delayOf i (s, act) = 0) : Elapsed i a c s' := by
  have silent : ∀ e ∈ ([] : List Event), e.timed = false := List.forall_mem_nil _
  cases step_cases hstep with
  | sysTick | isr | pendSv | tickLeave | isrYield | isrReturn | switch =>
    exact h.keep rfl silent .inl
  | tick => exact h.tick
  | isrSignal => exact h.keep rfl (signalEvents_untimed _ _ _ _) .inl
  | nothing => exact h
  | @delay d _ pc pos =>
    have other : i ≠ s.k.currentTask := by
      rintro rfl
      simp only [delayOf, if_pos] at none
      exact pos (BitVec.eq_of_toNat_eq none)
    exact h.otherSleeps other
  | waitQueued _ pc | waitTaken _ pc | release _ pc | trap _ pc | init _ pc | own _ pc =>
    exact h.goOn (by simp [InDelay, pc]) (by simp [Event.timed])
  | signal _ ref =>
    refine h.goOn ?_ (signalEvents_untimed _ _ _ _)
    rcases ref with ⟨_, -, -, pc⟩ | ⟨_, -, -, pc⟩ <;> simp [InDelay, pc]
  | leave _ pc =>
    have moved := h.goOn (k := s.k) (p := .exit) (by simp [InDelay, pc]) silent
    exact ⟨moved.out, moved.inside, moved.ahead⟩
  | yield _ pc => exact h.keep rfl silent fun out => .inl (yield_out pc out)
  | ret thread pc =>
    exact h.keep rfl (returnTo_untimed _ _ _) fun out => ret_out inv timed thread pc out

/-- A step in which it asks for one. -/
theorem delay_step {act : Action} (hstep : step s act = some s') (asks : delayOf i (s, act) ≠ 0) :
    ∃ d : Word, act = .call (.delay d) ∧ s.k.currentTask = i ∧ delayOf i (s, act) = d.toNat ∧
      s.pc s.k.currentTask = .user ∧ s' = s.goOn (markSleeping s.k d) (.yield .delay)
        [.sleep s.k.currentTask (ticks s.log + d.toNat)] := by
  cases act with
  | call op =>
    cases op with
    | delay d =>
      have cur : s.k.currentTask = i := by_contra fun other => asks (if_neg other)
      have words : delayOf i (s, .call (.delay d)) = d.toNat := if_pos cur
      have pos : d ≠ 0 := by
        rintro rfl
        exact asks words
      obtain ⟨⟨-, pc⟩, eq⟩ := Option.ite_none_right_eq_some.mp hstep
      simp only [callStep, if_neg pos] at eq
      exact ⟨d, rfl, cur, words, pc, (Option.some.inj eq).symm⟩
    | _ => exact absurd rfl asks
  | _ => exact absurd rfl asks

theorem Elapsed.step {act : Action} (inv : Inv s) (timed : Timed s) (h : Elapsed i a c s)
    (hstep : step s act = some s') :
    Elapsed i (a + delayOf i (s, act)) (c + delayOf i (s, act)) s' := by
  by_cases none : delayOf i (s, act) = 0
  · rw [none]
    exact h.quiet inv timed hstep none
  · obtain ⟨d, rfl, rfl, asks, pc, rfl⟩ := delay_step hstep none
    rw [asks]
    exact h.sleep pc

end step

/-- In any stretch of a run, a task that is not left in a delay has asked for no more ticks than
there were. -/
theorem delays_add_up {cfg : Config} {idle i : TaskId} {s₀ s t : System}
    {tr : List (System × Action)} (hboot : boot cfg = some s₀) (created : idle < cfg.tasks.length)
    (reach : Reach (TimedStep idle) s₀ s) (run : Run (TimedStep idle) s tr t)
    (back : ¬ InDelay (t.pc i)) : ticks s.log + asked i tr ≤ ticks t.log := by
  have elapsed : Reach (TimedStep idle) s₀ t ∧
      ∃ c, Elapsed i (ticks s.log + asked i tr) c t := by
    clear back
    induction run with
    | nil => exact ⟨reach, _, Elapsed.start i s⟩
    | @snoc tr t u a _ hstep ih =>
      obtain ⟨reach, c, elapsed⟩ := ih
      obtain ⟨inv, timed⟩ := reach_timed hboot created reach
      have next := elapsed.step inv.inv timed hstep.1
      rw [Nat.add_assoc, ← asked_snoc] at next
      exact ⟨reach.next hstep, _, next⟩
  obtain ⟨-, c, elapsed⟩ := elapsed
  exact elapsed.out back

/-- The consumer of `main.c` asks for one tick and comes back. -/
theorem delays_add_up_consumer : ∃ (s t : System) (tr : List (System × Action)),
    asked 2 tr = 1 ∧ ticks s.log + asked 2 tr ≤ ticks t.log := by
  let acts : List Action :=
    [.pendSv, .handler, .call (.delay 1), .task, .pendSv, .handler, .sysTick] ++
      List.replicate 11 .handler ++ [.pendSv, .handler, .task]
  have trace : (boot mainConfig).any (fun s =>
      decide (asked 2 (visited step s acts) = 1) &&
      (exec step (fun _ a t => decide (Awake 3 t.k) && a.inRange) s acts).any fun t =>
        decide (t.pc 2 = .user)) = true := by decide
  obtain ⟨s, hboot, hp⟩ := (Option.any_eq_true _ _).mp trace
  simp only [Bool.and_eq_true, decide_eq_true_eq] at hp
  obtain ⟨one, done⟩ := hp
  obtain ⟨t, hexec, user⟩ := (Option.any_eq_true _ _).mp done
  have run := exec_timed hexec
  have back : ¬ InDelay (t.pc 2) := by simp [InDelay, of_decide_eq_true user]
  exact ⟨s, t, _, one, delays_add_up hboot (by decide) (Reach.refl _ _) run back⟩

end Rtos
