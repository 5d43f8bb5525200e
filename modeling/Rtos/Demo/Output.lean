import Rtos.Demo.Rates
import Rtos.Time.Punctual

/-! What `main.c` shows after `t` ticks, if at every tick the other tasks have come to rest and the
idle task waits. -/
namespace Rtos
open Lib

/-- The idle task is at `__WFI()`. -/
structure Demo.Waits (d : Demo) : Prop where
  thread : d.sys.Thread
  user : d.InUser
  idle : d.sys.k.currentTask = 3

instance (d : Demo) : Decidable d.Waits :=
  decidable_of_iff (d.sys.inThread = true ∧ d.InUser ∧ d.sys.k.currentTask = 3)
    ⟨fun ⟨thread, user, idle⟩ => ⟨d.sys.inThread_iff.mp thread, user, idle⟩,
      fun ⟨thread, user, idle⟩ => ⟨d.sys.inThread_iff.mpr thread, user, idle⟩⟩

/-- One step of a run in which the tasks come to rest before each tick. -/
abbrev LightStep : Demo → DemoAction → Demo → Prop :=
  Steps demoStep fun d a _ => a = .sysTick → d.Waits

def demoTicks (tr : List (Demo × DemoAction)) : Nat := tr.countP fun p => p.2 = .sysTick

theorem demoTicks_snoc (tr : List (Demo × DemoAction)) (p : Demo × DemoAction) :
    demoTicks (tr ++ [p]) = demoTicks tr + if p.2 = .sysTick then 1 else 0 := by
  simp [demoTicks, List.countP_append, List.countP_singleton]

theorem idle_lowest : ∀ (_ : 3 < mainTasks.length) t (_ : t < mainTasks.length), t = 0 ∨ t = 1 →
    mainTasks[3].priority < mainTasks[t].priority := by
  decide

section waits
variable {n : Nat} {bs : List Beat} {queued : Bool} {d d' : Demo} {a : DemoAction}

/-- Meanwhile the led task and the counter task are in their delays. -/
theorem Demo.Waits.spare {i : TaskId} (h : d.Waits) (paced : Paced n bs queued d)
    (task : i = 0 ∨ i = 1) : Spare i d.sys := by
  have inv := paced.reachable.idleInv.inv
  obtain ⟨count, prio⟩ := paced.reachable.tasks
  have created : i < mainTasks.length := by rcases task with rfl | rfl <;> decide
  refine ⟨h.thread, h.user, ?_, fun blocked => ?_⟩
  · rw [h.idle, prio 3 (show 3 < mainTasks.length by decide), prio i created]
    exact idle_lowest _ _ created task
  · obtain ⟨r, mem⟩ := (inv.queued.blocked i (by rw [count]; exact created)).mp blocked
    have may := (paced.fits i).mayBeIn (inv.queue_pc r i mem)
    rcases task with rfl | rfl
    · rcases may with eq | ⟨eq, -⟩ <;> cases eq
    · cases may

/-- A step of the kernel, or none, for each step. -/
theorem demoStep_kernel (hstep : demoStep d a = some d') :
    d'.sys = d.sys ∧ a ≠ .sysTick ∨
      ∃ b, step d.sys b = some d'.sys ∧ (b = .sysTick ↔ a = .sysTick) := by
  cases a with
  | sysTick =>
    obtain ⟨s, hs, rfl⟩ := Demo.kernelStep_cases hstep
    exact .inr ⟨.sysTick, hs, by simp⟩
  | pendSv =>
    obtain ⟨s, hs, rfl⟩ := Demo.kernelStep_cases hstep
    exact .inr ⟨.pendSv, hs, by simp⟩
  | handler =>
    obtain ⟨s, hs, rfl⟩ := Demo.kernelStep_cases hstep
    exact .inr ⟨.handler, hs, by simp⟩
  | thread =>
    cases demoStep_cases hstep with
    | interrupt other => exact absurd rfl other
    | kernel _ _ hs => exact .inr ⟨.task, hs, by simp⟩
    | own => exact .inl ⟨rfl, by simp⟩
    | @call op _ _ _ _ _ hs => exact .inr ⟨.call op, hs, by simp⟩

theorem demoStep_raised (inv : Inv d.sys) (hstep : demoStep d a = some d') :
    raised d'.sys = raised d.sys + if a = .sysTick then 1 else 0 := by
  rcases demoStep_kernel hstep with ⟨same, other⟩ | ⟨b, hs, tick⟩
  · rw [same, if_neg other, Nat.add_zero]
  · rw [raised_step inv hs]
    simp only [tick]

end waits

/-- Since tick `x`, when the credit was `r`, the task did the thing `n` times and was never late. -/
def Pace.Met (P : Pace) (x r n : Nat) (d : Demo) : Prop :=
  ∃ a, Punctual P.task a d.sys ∧ x + P.cost * n + P.credit d.app = a + r

section step
variable {P : Pace} {x r n : Nat} {d d' : Demo} {a : DemoAction}

theorem Pace.Met.interrupt {s : System} {b : Action} (h : P.Met x r n d) (inv : Inv d.sys)
    (timed : Timed d.sys) (hstep : step d.sys b = some s)
    (spare : b = .sysTick → InDelay (d.sys.pc P.task) ∧ raised d.sys < deadline P.task d.sys.log)
    (none : delayOf P.task (d.sys, b) = 0) : P.Met x r n { d with sys := s } := by
  obtain ⟨a, punctual, eq⟩ := h
  have next := punctual.step inv timed hstep spare
  rw [none, Nat.add_zero] at next
  exact ⟨a, next, eq⟩

theorem Pace.Met.thread (h : P.Met x r n d) (inv : Inv d.sys) (timed : Timed d.sys)
    (hstep : demoStep d .thread = some d') :
    P.Met x r (n + if P.Hits (d, .thread) then 1 else 0) d' := by
  cases demoStep_cases hstep with
  | interrupt other => exact absurd rfl other
  | kernel _ inside hs =>
    rw [if_neg fun hits => inside hits.2.1]
    exact h.interrupt inv timed hs (by simp) rfl
  | own _ user code =>
    obtain ⟨a, punctual, eq⟩ := h
    have paid := P.paid user code
    simp only [opTicks, ite_self] at paid
    exact ⟨a, punctual, by rw [Nat.mul_add]; dsimp only; omega⟩
  | call _ user code hs =>
    obtain ⟨a, punctual, eq⟩ := h
    have paid := P.paid user code
    rw [← delayOf_op] at paid
    have next := punctual.step inv timed hs (by simp)
    exact ⟨_, next, by rw [Nat.mul_add]; dsimp only; omega⟩

theorem Pace.Met.next (h : P.Met x r n d) (inv : Inv d.sys) (timed : Timed d.sys)
    (hstep : demoStep d a = some d')
    (spare : a = .sysTick → InDelay (d.sys.pc P.task) ∧ raised d.sys < deadline P.task d.sys.log) :
    P.Met x r (n + if P.Hits (d, a) then 1 else 0) d' := by
  cases a with
  | sysTick =>
    obtain ⟨s, hs, rfl⟩ := Demo.kernelStep_cases hstep
    rw [if_neg fun hits => by cases hits.1]
    exact h.interrupt inv timed hs (fun _ => spare rfl) rfl
  | pendSv | handler =>
    obtain ⟨s, hs, rfl⟩ := Demo.kernelStep_cases hstep
    rw [if_neg fun hits => by cases hits.1]
    exact h.interrupt inv timed hs (by simp) rfl
  | thread => exact h.thread inv timed hstep

end step

section run
variable {n : Nat} {d₀ d : Demo} {tr : List (Demo × DemoAction)}

theorem boot_raised (hboot : demoBoot n = some d₀) :
    raised d₀.sys = ticks d₀.sys.log ∧ d₀.app = resetApp ∧ ∀ t, d₀.sys.pc t = .user := by
  obtain ⟨s, booted, rfl⟩ := Option.map_eq_some_iff.mp hboot
  obtain ⟨-, pc, frames, -⟩ := boot_spec booted (show 0 < mainTasks.length by decide)
  exact ⟨by simp [raised, frames], rfl, fun t => by rw [pc]⟩

theorem LightStep.run (run : Run LightStep d₀ tr d) : Run DemoStep d₀ tr d :=
  run.mono fun _ _ _ hstep => ⟨hstep.1, trivial⟩

theorem Demo.Waits.ahead {i : TaskId} (h : d.Waits) (hboot : demoBoot n = some d₀)
    (run : Run DemoStep d₀ tr d) (task : i = 0 ∨ i = 1) :
    InDelay (d.sys.pc i) ∧ raised d.sys < deadline i d.sys.log := by
  obtain ⟨reachable, timed⟩ := run_timed hboot run
  obtain ⟨_, paced⟩ := run_paced hboot run
  refine (h.spare paced task).ahead reachable timed ?_
  have count : d.sys.k.taskCount = mainTasks.length := reachable.tasks.1
  rw [count]
  rcases task with rfl | rfl <;> decide

theorem light_raised (hboot : demoBoot n = some d₀) (run : Run LightStep d₀ tr d) :
    raised d.sys = ticks d₀.sys.log + demoTicks tr := by
  induction run with
  | nil => exact (boot_raised hboot).1
  | snoc prior hstep ih =>
    have inv := (run_timed hboot (LightStep.run prior)).1.idleInv.inv
    rw [demoStep_raised inv hstep.1, ih, demoTicks_snoc, Nat.add_assoc]

theorem Pace.run_met (P : Pace) (task : P.task = 0 ∨ P.task = 1) (hboot : demoBoot n = some d₀)
    (run : Run LightStep d₀ tr d) :
    P.Met (ticks d₀.sys.log) (P.credit d₀.app) (P.hits tr) d := by
  induction run with
  | nil =>
    obtain ⟨now, -, pc⟩ := boot_raised hboot
    refine ⟨_, .start (by simp [InDelay, pc]), ?_⟩
    rw [now]; rfl
  | snoc prior hstep ih =>
    have before := LightStep.run prior
    obtain ⟨reachable, timed⟩ := run_timed hboot before
    rw [hits_snoc]
    exact ih.next reachable.idleInv.inv timed hstep.1 fun tick =>
      (hstep.2 tick).ahead hboot before task

/-- While the idle task waits, the number of times follows from the number of ticks. -/
theorem Pace.exact_hits (P : Pace) (task : P.task = 0 ∨ P.task = 1) (hboot : demoBoot n = some d₀)
    (run : Run LightStep d₀ tr d) (waits : d.Waits) :
    P.hits tr = (demoTicks tr + P.credit resetApp) / P.cost ∧ 0 < P.credit d.app := by
  have plain := LightStep.run run
  obtain ⟨now, app, -⟩ := boot_raised hboot
  obtain ⟨reachable, timed⟩ := run_timed hboot .nil
  obtain ⟨a, elapsed, paid⟩ := (P.run_keeps reachable timed plain).2
  obtain ⟨a', punctual, met⟩ := P.run_met task hboot run
  obtain ⟨delayed, ahead⟩ := waits.ahead hboot plain task
  have come := light_raised hboot run
  have counted := waits.thread.counted
  have near := elapsed.ahead
  have reaches := (punctual.inside delayed).1
  have most := P.bounded d.app
  rw [app] at paid met
  -- the deadline is ahead, but by no more than the task has asked for since the last time
  refine ⟨(Nat.div_eq_of_lt_le ?_ ?_).symm, by omega⟩
  · rw [Nat.mul_comm]; omega
  · rw [Nat.mul_comm, Nat.mul_succ]; omega

end run

/-- What `main.c` does. Whenever the idle task waits, the counter task has counted once and then once
in ten ticks, the LED is lit in the first half of every second, and every second that is over has been
signalled and consumed. -/
theorem demo_output {n : Nat} {d₀ d : Demo} {tr : List (Demo × DemoAction)}
    (hboot : demoBoot n = some d₀) (run : Run LightStep d₀ tr d) (waits : d.Waits) :
    d.app.task2Counter = BitVec.ofNat 32 (demoTicks tr / 10 + 1) ∧
    (d.app.ledPin = true ↔ Even (demoTicks tr / 500)) ∧
    d.app.semSignalCount = BitVec.ofNat 32 (demoTicks tr / 1000) ∧
    d.app.semConsumeCount = BitVec.ofNat 32 (demoTicks tr / 1000) := by
  have plain := LightStep.run run
  have shown := run_shown hboot plain
  obtain ⟨queued, paced⟩ := run_paced hboot plain
  obtain ⟨counter, -⟩ := counterPace.exact_hits (.inr rfl) hboot run waits
  obtain ⟨led, -⟩ := ledPace.exact_hits (.inl rfl) hboot run waits
  obtain ⟨signal, credit⟩ := signalPace.exact_hits (.inl rfl) hboot run waits
  have tens : counterPace.hits tr = demoTicks tr / 10 + 1 :=
    counter.trans (Nat.add_div_right _ (by decide))
  have halves : ledPace.hits tr = demoTicks tr / 500 + 1 :=
    led.trans (Nat.add_div_right _ (by decide))
  have seconds : (beats tr).count .raise = demoTicks tr / 1000 := by
    rw [count_raise, signal]; rfl
  have tally := paced.tally
  obtain rfl := paced.queued_of_user waits.thread waits.user (by rw [waits.idle]; decide)
  have raise : d.app.due true = .raise := by
    have idle : d.app.led ≠ .signal := fun at_ => by
      simp [signalPace, at_, LedPc.raiseCredit] at credit
    simp [App.due, idle]
  have raised := tally.inStep.counts.1
  rw [raise] at raised
  refine ⟨?_, ?_, ?_, ?_⟩
  · rw [shown.counter, tens]
  · rw [shown.pin, halves, Nat.odd_add_one, Nat.not_odd_iff_even]
  · rw [tally.signals, seconds]
  · rw [tally.consumes, ← seconds, raised]; rfl

/-- The first ten ticks: the counter task counts a second time. -/
theorem demo_output_counter : ∃ d : Demo, d.app.task2Counter = 2 ∧ d.app.ledPin = true ∧
    d.app.semSignalCount = 0 ∧ d.app.semConsumeCount = 0 := by
  let acts : List DemoAction :=
    takeSwitch ++ [.thread, .thread] ++ takeSwitch ++ [.thread, .thread, .thread] ++ takeSwitch ++
      [.thread, .thread, .thread, .thread] ++ takeSwitch ++ (List.replicate 9 quietTick).flatten ++
      .sysTick :: List.replicate 12 .handler ++ takeSwitch ++
      [.thread, .thread, .thread, .thread, .thread] ++ takeSwitch
  have trace : (demoBoot 0).any (fun d =>
      decide (demoTicks (visited demoStep d acts) = 10) &&
      (exec demoStep (fun d a _ => decide (a = .sysTick → d.Waits)) d acts).any fun d =>
        decide d.Waits) = true := by decide +kernel
  obtain ⟨d₀, hboot, hp⟩ := (Option.any_eq_true _ _).mp trace
  simp only [Bool.and_eq_true, decide_eq_true_eq] at hp
  obtain ⟨ten, done⟩ := hp
  obtain ⟨d, hexec, waits⟩ := (Option.any_eq_true _ _).mp done
  have run : Run LightStep d₀ (visited demoStep d₀ acts) d :=
    (exec_run hexec).mono fun _ _ _ h => ⟨h.1, of_decide_eq_true h.2⟩
  obtain ⟨counter, led, signals, consumes⟩ := demo_output hboot run (of_decide_eq_true waits)
  rw [ten] at counter led signals consumes
  exact ⟨d, counter, led.mpr (by decide), signals, consumes⟩

end Rtos
