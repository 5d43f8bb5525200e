import Rtos.Time.Atomicity
import Rtos.Time.Deadlines

/-! The whole range of `osDelay`. `wake_tick` is the right one for every argument, but the signed
comparison of `SysTick_Handler` takes a deadline more than half the range ahead for one that
has passed. -/
namespace Rtos
open Lib

/-- What everything but `SysTick_Handler` does to a sleeping task: nothing. -/
structure LeavesAsleep (t : TaskId) (k k' : Kernel) : Prop where
  sysTick : k'.sysTick = k.sysTick
  count : k'.taskCount = k.taskCount
  sleeper : k.state t = .sleeping →
    k'.state t = .sleeping ∧ (k'.taskPool t).wakeTick = (k.taskPool t).wakeTick

/-- The kernel after some calls of `SysTick_Handler`, and anything else between them. -/
inductive AfterTicks (t : TaskId) (k₀ : Kernel) : Nat → Kernel → Prop where
  | start : AfterTicks t k₀ 0 k₀
  | other {n : Nat} {k k' : Kernel} :
      AfterTicks t k₀ n k → LeavesAsleep t k k' → AfterTicks t k₀ n k'
  | tick {n : Nat} {k : Kernel} : AfterTicks t k₀ n k → AfterTicks t k₀ (n + 1) (sysTickHandler k)

/-- From `k₀` on, call number `d` of `SysTick_Handler` makes `t` ready, and none before it. -/
def Honours (t : TaskId) (k₀ : Kernel) (d : Nat) : Prop :=
  ∀ n k, AfterTicks t k₀ n k →
    (n + 1 < d → (sysTickHandler k).state t = .sleeping) ∧
    (n + 1 = d → (sysTickHandler k).state t = .ready)

section handler
variable (k : Kernel) (i : Nat) (t : TaskId)

theorem wakeDue_state : (wakeDue k i).state t =
    if t = i ∧ k.state t = .sleeping ∧ isDue k t = true then .ready else k.state t := by
  unfold wakeDue
  by_cases eq : t = i
  · subst eq
    split <;> simp_all
  · split <;> simp [eq]

theorem wakeDue_eq_with : ∃ pool, wakeDue k i = { k with taskPool := pool } := by
  unfold wakeDue
  split
  · exact ⟨_, rfl⟩
  · exact ⟨k.taskPool, rfl⟩

theorem wakeDue_wakeTick : ((wakeDue k i).taskPool t).wakeTick = (k.taskPool t).wakeTick := by
  unfold wakeDue
  split
  · exact Kernel.wakeTick_setState ..
  · rfl

theorem wakeDue_isDue : isDue (wakeDue k i) t = isDue k t := by
  obtain ⟨pool, eq⟩ := wakeDue_eq_with k i
  rw [isDue, isDue, wakeDue_wakeTick, eq]

theorem wakeLoop_wakeTick (n : Nat) :
    ((wakeLoop k i n).taskPool t).wakeTick = (k.taskPool t).wakeTick := by
  induction n generalizing k i with
  | zero => rfl
  | succ n ih => rw [wakeLoop, ih, wakeDue_wakeTick]

theorem wakeLoop_eq_with (n : Nat) : ∃ pool, wakeLoop k i n = { k with taskPool := pool } := by
  induction n generalizing k i with
  | zero => exact ⟨k.taskPool, rfl⟩
  | succ n ih =>
    obtain ⟨pool, eq⟩ := wakeDue_eq_with k i
    obtain ⟨pool', eq'⟩ := ih (wakeDue k i) (i + 1)
    exact ⟨pool', by rw [wakeLoop, eq', eq]⟩

/-- The loop makes exactly the sleepers in its range ready that are due. -/
theorem wakeLoop_state (n : Nat) : (wakeLoop k i n).state t =
    if (i ≤ t ∧ t < i + n) ∧ k.state t = .sleeping ∧ isDue k t = true then .ready
    else k.state t := by
  induction n generalizing k i with
  | zero =>
    rw [wakeLoop, if_neg]
    rintro ⟨⟨le, lt⟩, -⟩
    exact absurd le (Nat.not_le.mpr lt)
  | succ n ih =>
    rw [wakeLoop, ih, wakeDue_isDue, wakeDue_state]
    grind

theorem chargeTick_state : (chargeTick k).state t = k.state t := by
  unfold chargeTick
  split
  · exact chargeCurrent_state k t
  · rfl

theorem chargeTick_wakeTick : ((chargeTick k).taskPool t).wakeTick = (k.taskPool t).wakeTick := by
  unfold chargeTick
  split
  · exact chargeCurrent_wakeTick k t
  · rfl

theorem chargeTick_clock : (chargeTick k).sysTick = k.sysTick ∧
    (chargeTick k).taskCount = k.taskCount := by
  unfold chargeTick
  split <;> exact ⟨rfl, rfl⟩

theorem sysTickHandler_state (created : t < k.taskCount) : (sysTickHandler k).state t =
    if k.state t = .sleeping ∧ reached (k.sysTick + 1) (k.taskPool t).wakeTick = true then .ready
    else k.state t := by
  rw [sysTickHandler, chargeTick_state, wakeLoop_state]
  have inside : 0 ≤ t ∧ t < 0 + k.taskCount := ⟨Nat.zero_le t, (Nat.zero_add _).symm ▸ created⟩
  simp only [inside, true_and]
  rfl

theorem sysTickHandler_wakeTick :
    ((sysTickHandler k).taskPool t).wakeTick = (k.taskPool t).wakeTick := by
  rw [sysTickHandler, chargeTick_wakeTick, wakeLoop_wakeTick]

theorem sysTickHandler_clock : (sysTickHandler k).sysTick = k.sysTick + 1 ∧
    (sysTickHandler k).taskCount = k.taskCount := by
  obtain ⟨pool, eq⟩ := wakeLoop_eq_with { k with sysTick := k.sysTick + 1 } 0 k.taskCount
  obtain ⟨clock, count⟩ := chargeTick_clock (wakeLoop { k with sysTick := k.sysTick + 1 } 0 k.taskCount)
  rw [sysTickHandler]
  exact ⟨by rw [clock, eq], by rw [count, eq]⟩

end handler

/-- Task `t` sleeps, `n` ticks after the tick `a` at which it was marked. -/
structure AsleepAt (t : TaskId) (a d n : Nat) (k : Kernel) : Prop where
  created : t < k.taskCount
  now : k.sysTick = BitVec.ofNat 32 (a + n)
  asleep : k.state t = .sleeping
  wake : (k.taskPool t).wakeTick = BitVec.ofNat 32 (a + d)

theorem markSleeping_asleepAt {k : Kernel} (created : k.currentTask < k.taskCount) (d : Word) :
    AsleepAt k.currentTask k.sysTick.toNat d.toNat 0 (markSleeping k d) := by
  constructor
  · exact created
  · rw [Nat.add_zero, BitVec.ofNat_toNat, BitVec.setWidth_eq]; rfl
  · rw [markSleeping_state, if_pos rfl]
  · rw [markSleeping_wakeTick, if_pos rfl, BitVec.ofNat_add, BitVec.ofNat_toNat,
      BitVec.ofNat_toNat, BitVec.setWidth_eq, BitVec.setWidth_eq]

namespace AsleepAt
variable {t : TaskId} {a d n : Nat} {k k' : Kernel}

theorem other (h : AsleepAt t a d n k) (leaves : LeavesAsleep t k k') : AsleepAt t a d n k' := by
  obtain ⟨asleep, wake⟩ := leaves.sleeper h.asleep
  exact ⟨leaves.count.symm ▸ h.created, leaves.sysTick.trans h.now, asleep, wake.trans h.wake⟩

theorem tick_state (h : AsleepAt t a d n k) : (sysTickHandler k).state t =
    if reached (BitVec.ofNat 32 (a + (n + 1))) (BitVec.ofNat 32 (a + d)) = true then .ready
    else .sleeping := by
  rw [sysTickHandler_state k t h.created, h.asleep, h.wake, h.now, ofNat_succ]
  simp only [true_and]
  rfl

theorem tick (h : AsleepAt t a d n k) (still : (sysTickHandler k).state t = .sleeping) :
    AsleepAt t a d (n + 1) (sysTickHandler k) := by
  obtain ⟨clock, count⟩ := sysTickHandler_clock k
  refine ⟨count.symm ▸ h.created, ?_, still, (sysTickHandler_wakeTick k t).trans h.wake⟩
  rw [clock, h.now, ofNat_succ]; rfl

/-- In range, the comparison is that of the unbounded counters. -/
theorem tick_due (h : AsleepAt t a d n k) (ahead : n < d) (near : d ≤ 2 ^ 31 + 1) :
    (n + 1 < d → (sysTickHandler k).state t = .sleeping) ∧
    (n + 1 = d → (sysTickHandler k).state t = .ready) := by
  have due := reached_iff (w := 32) (n := a + (n + 1)) (d := a + d) (by decide) (by omega) (by omega)
  constructor
  · intro early
    rw [h.tick_state, if_neg]
    intro now
    have := due.mp now
    omega
  · intro last
    rw [h.tick_state, if_pos (due.mpr (by omega))]

end AsleepAt

theorem AfterTicks.asleepAt {t : TaskId} {a d n : Nat} {k₀ k : Kernel} (h : AfterTicks t k₀ n k)
    (start : AsleepAt t a d 0 k₀) (near : d ≤ 2 ^ 31 + 1) (ahead : n < d) :
    AsleepAt t a d n k := by
  induction h with
  | start => exact start
  | other _ leaves ih => exact (ih ahead).other leaves
  | tick _ ih =>
    have before := ih (Nat.lt_of_succ_lt ahead)
    exact before.tick ((before.tick_due (Nat.lt_of_succ_lt ahead) near).1 ahead)

/-- The clock and the deadlines of the sleepers, in a step that is not in `SysTick_Handler`. -/
theorem step_clock {s s' : System} {a : Action} (inv : Inv s) (hstep : step s a = some s')
    (outside : ∀ p rest, s.frames = .sysTick p :: rest → a ≠ .handler) :
    s'.k.sysTick = s.k.sysTick ∧ ∀ t, s.k.state t = .sleeping →
      (s'.k.taskPool t).wakeTick = (s.k.taskPool t).wakeTick := by
  cases step_cases hstep with
  | sysTick | isr | pendSv | tickLeave | isrYield | isrReturn | nothing | release | trap | leave |
    yield | ret | own => exact ⟨rfl, fun _ _ => rfl⟩
  | tick frames => exact absurd rfl (outside _ _ frames)
  | switch => exact ⟨osSchedule_sysTick _, fun t _ => osSchedule_wakeTick _ t⟩
  | init => exact ⟨Init.apply_sysTick .., fun t _ => by simp [System.goOn]⟩
  | isrSignal _ result | signal _ _ result =>
    refine ⟨?_, fun t _ => signal_wakeTick result t⟩
    obtain ⟨_, _, rfl⟩ := osSemaphoreSignal_eq_with result; rfl
  | delay thread pc =>
    have run := inv.thread_running thread pc (by simp) (by simp)
    refine ⟨rfl, fun t asleep => ?_⟩
    have other : t ≠ s.k.currentTask := fun eq => by rw [eq, run] at asleep; cases asleep
    simp only [System.goOn]
    rw [markSleeping_wakeTick, if_neg other]
  | waitQueued _ _ _ result | waitTaken _ _ _ result =>
    obtain ⟨sem, -, ⟨-, -, rfl⟩ | ⟨-, -, -, rfl⟩⟩ := osSemaphoreWait_effect result
    · exact ⟨rfl, fun _ _ => rfl⟩
    · exact ⟨rfl, fun t _ => Kernel.wakeTick_setState ..⟩

/-- Every step of the running system that is not in `SysTick_Handler` leaves a sleeper alone. -/
theorem step_leaves_asleep {s s' : System} {a : Action} (inv : Inv s) (hstep : step s a = some s')
    (outside : ∀ p rest, s.frames = .sysTick p :: rest → a ≠ .handler) (t : TaskId) :
    LeavesAsleep t s.k s'.k := by
  obtain ⟨clock, wake⟩ := step_clock inv hstep outside
  refine ⟨clock, step_taskCount hstep, fun asleep => ⟨?_, wake t asleep⟩⟩
  by_contra changed
  have changed' : s'.k.state t ≠ s.k.state t := by rw [asleep]; exact changed
  rcases inv.step_states hstep t changed' with ⟨-, wakes⟩ | ⟨-, awake, -⟩ | ⟨run, -⟩
  · rcases wakes with ⟨handler, rest, frames⟩ | ⟨r, k', result⟩
    · exact outside _ _ frames handler
    · have blocked := (signal_asleep inv.queued result t).mpr asleep
      obtain ⟨sem, -, ⟨u, q, eq, hq, rfl⟩ | ⟨eq, -⟩⟩ := osSemaphoreSignal_effect inv.queued result
      · cases eq
        rw [Kernel.dequeue_state, if_pos rfl] at blocked
        cases blocked
      · cases eq
  · exact awake asleep
  · rw [run] at asleep; cases asleep

section leaves
variable {t : TaskId} {k k' k'' : Kernel}

theorem LeavesAsleep.refl (t : TaskId) (k : Kernel) : LeavesAsleep t k k :=
  ⟨rfl, rfl, fun asleep => ⟨asleep, rfl⟩⟩

theorem LeavesAsleep.trans (h : LeavesAsleep t k k') (h' : LeavesAsleep t k' k'') :
    LeavesAsleep t k k'' := by
  refine ⟨h'.sysTick.trans h.sysTick, h'.count.trans h.count, fun asleep => ?_⟩
  obtain ⟨asleep', wake⟩ := h.sleeper asleep
  obtain ⟨still, wake'⟩ := h'.sleeper asleep'
  exact ⟨still, wake'.trans wake⟩

/-- Nor does a signal between two instructions of the handler. -/
theorem signalCall_leaves_asleep {r : SemRef} (queued : k.Queued) (result : signalCall k r = some k')
    (t : TaskId) : LeavesAsleep t k k' := by
  obtain ⟨⟨k₁, woken⟩, hsignal, eq⟩ := Option.map_eq_some_iff.mp result
  have asleep := signal_asleep queued hsignal t
  have wake := signal_wakeTick hsignal t
  obtain ⟨_, _, rfl⟩ := osSemaphoreSignal_eq_with hsignal
  subst eq
  dsimp only
  split <;> exact ⟨rfl, rfl, fun sleeping => ⟨asleep.mpr sleeping, wake⟩⟩

theorem signalAll_leaves_asleep {rs : List SemRef} (queued : k.Queued)
    (result : signalAll k rs = some k') (t : TaskId) : LeavesAsleep t k k' := by
  induction rs generalizing k with
  | nil =>
    cases result
    exact .refl ..
  | cons r rs ih =>
    simp only [signalAll, List.foldlM_cons, Option.bind_eq_bind, Option.bind_eq_some_iff] at result
    obtain ⟨k₁, first, rest⟩ := result
    exact (signalCall_leaves_asleep queued first t).trans (ih (signalCall_queued queued first) rest)

end leaves

/-- How many SysTicks come in a run. -/
def tickCalls (tr : List (System × Action)) : Nat := tr.countP fun p => p.2 = .sysTick

/-- Where a run stands after `n` SysTicks: between two calls of the handler, or inside call `n`. -/
inductive TicksAt (t : TaskId) (k₀ : Kernel) : Nat → System → Prop where
  | between {n : Nat} {s : System} (outside : s.inTick = false) (after : AfterTicks t k₀ n s.k) :
      TicksAt t k₀ n s
  | within {n : Nat} {s : System} {k : Kernel} {rest : List Frame} {rs : List SemRef}
      (after : AfterTicks t k₀ n k) (queued : k.Queued) (outer : ∀ f ∈ rest, f.isTick = false)
      (midway : Midway k rest rs s) : TicksAt t k₀ (n + 1) s

theorem step_outside {s s' : System} {a : Action} (outside : s.inTick = false)
    (hstep : step s a = some s') (other : a ≠ .sysTick) : s'.inTick = false := by
  cases step_cases hstep with
  | sysTick => exact absurd rfl other
  | tick frames | tickLeave frames => simp [System.inTick, frames] at outside
  | isrYield frames | isrSignal frames | isrReturn frames | switch frames =>
    simpa [System.inTick, frames, switchStep] using outside
  | isr => simpa [System.inTick] using outside
  | pendSv => rfl
  | nothing | delay | waitQueued | waitTaken | signal | release | trap | init | leave | yield | ret |
    own => exact outside

section run
variable {idle t : TaskId} {k₀ : Kernel} {s s' u : System} {a : Action} {n : Nat}
  {tr : List (System × Action)}

theorem TicksAt.next (h : TicksAt t k₀ n s) (inv : Inv s) (hstep : step s a = some s') :
    TicksAt t k₀ (n + if a = .sysTick then 1 else 0) s' := by
  cases h with
  | between outside after =>
    have out : ∀ f ∈ s.frames, f.isTick = false := by simpa [System.inTick] using outside
    by_cases tick : a = .sysTick
    · subst tick
      obtain ⟨-, entered⟩ := Option.ite_none_right_eq_some.mp hstep
      cases entered
      have enters : Midway s.k s.frames [] (s.goOnAt s.k (.sysTick .enter :: s.frames) []) :=
        ⟨[], .enter, rfl, by simp, rfl⟩
      exact .within after inv.queued out enters
    · rw [if_neg tick]
      have leaves := step_leaves_asleep inv hstep (fun p rest frames => by simp [frames] at out) t
      exact .between (step_outside outside hstep tick) (after.other leaves)
  | @within m _ k rest rs after queued outer midway =>
    have other : a ≠ .sysTick := by
      rintro rfl
      have once := (Option.ite_none_right_eq_some.mp hstep).1.2
      rw [midway.inTick] at once
      cases once
    rw [if_neg other]
    rcases step_midway inv midway hstep with midway | ⟨frames, ended⟩
    · exact .within after queued outer midway
    · -- the whole call is the handler, with the signals nested in it before it
      rw [sysTickHandler_signalAll _ queued] at ended
      obtain ⟨k', signals, eq⟩ := Option.map_eq_some_iff.mp ended
      refine .between (by simpa [System.inTick, frames] using outer) ?_
      rw [← eq]
      exact (after.other (signalAll_leaves_asleep queued signals t)).tick

theorem run_ticksAt (inv : IdleInv idle s) (outside : s.inTick = false)
    (run : Run (AwakeStep idle) s tr u) (t : TaskId) :
    IdleInv idle u ∧ TicksAt t s.k (tickCalls tr) u := by
  induction run with
  | nil => exact ⟨inv, .between outside .start⟩
  | @snoc tr v w a _ hstep ih =>
    obtain ⟨inv, ticksAt⟩ := ih
    have more : tickCalls (tr ++ [(v, a)]) = tickCalls tr + if a = .sysTick then 1 else 0 := by
      simp [tickCalls, List.countP_append, List.countP_singleton]
    rw [more]
    exact ⟨inv.next hstep, ticksAt.next inv.inv hstep.1⟩

/-- A run with `n` SysTicks is `n` calls of `SysTick_Handler` with steps between them that leave the
sleepers alone, wherever its interrupts nest. -/
theorem run_afterTicks (inv : IdleInv idle s) (outside : s.inTick = false)
    (run : Run (AwakeStep idle) s tr u) (left : u.inTick = false) (t : TaskId) :
    AfterTicks t s.k (tickCalls tr) u.k := by
  obtain ⟨-, at_⟩ := run_ticksAt inv outside run t
  generalize tickCalls tr = n at at_ ⊢
  cases at_ with
  | between _ after => exact after
  | within _ _ _ midway =>
    rw [midway.inTick] at left
    cases left

end run

/-- In every run, a task sleeps through all SysTicks of its `osDelay` but the last one. -/
theorem delay_sleeps {cfg : Config} {idle : TaskId} {s s' u : System} {d : Word}
    {tr : List (System × Action)} (h : Reachable cfg idle s)
    (call : AwakeStep idle s (.call (.delay d)) s') (pos : d ≠ 0) (near : d.toNat ≤ 2 ^ 31 + 1)
    (run : Run (AwakeStep idle) s' tr u) (outside : u.inTick = false)
    (early : tickCalls tr < d.toNat) : u.k.state s.k.currentTask = .sleeping := by
  obtain ⟨guard, called⟩ := Option.ite_none_right_eq_some.mp call.1
  have thread := s.inThread_iff.mp guard.1
  rw [callStep, if_neg pos, Option.some.injEq] at called
  have asleep := markSleeping_asleepAt h.idleInv.inv.wf.current_lt d
  have quiet : s'.inTick = false := by
    rw [← called]
    simp [System.inTick, thread.frames]
  have after := run_afterTicks (h.idleInv.next call) quiet run outside s.k.currentTask
  rw [← called] at after
  exact (after.asleepAt asleep near early).asleep

/-- `osDelay` honours its argument up to half the range and one tick more, whatever `sys_tick`
is, and no argument beyond. -/
theorem delay_range {k : Kernel} {d : Word} (created : k.currentTask < k.taskCount)
    (pos : d ≠ 0) :
    Honours k.currentTask (markSleeping k d) d.toNat ↔ d.toNat ≤ 2 ^ 31 + 1 := by
  have start := markSleeping_asleepAt created d
  constructor
  · intro honours
    by_contra far
    have first := (honours 0 _ .start).1 (by omega)
    rw [start.tick_state, if_pos (reached_far (by omega) (by omega))] at first
    cases first
  · intro near n k' after
    have later : 0 < d.toNat := by
      rw [Nat.pos_iff_ne_zero]
      exact fun zero => pos (BitVec.eq_of_toNat_eq zero)
    by_cases ahead : n < d.toNat
    · exact (after.asleepAt start near ahead).tick_due ahead near
    · exact ⟨fun early => by omega, fun last => by omega⟩

theorem led_runs : ∃ k : Kernel, k.currentTask = 0 ∧ k.currentTask < k.taskCount ∧
    (sysTickHandler (markSleeping k 0xFFFFFFFF)).state 0 = .ready := by
  have trace : ((boot mainConfig).bind fun s => exec step (fun _ _ _ => true) s
      [.pendSv, .handler, .call (.wait 0), .task, .pendSv, .handler]).any (fun s =>
        s.k.currentTask = 0 ∧ s.k.currentTask < s.k.taskCount ∧
        (sysTickHandler (markSleeping s.k 0xFFFFFFFF)).state 0 = .ready) = true := by decide
  obtain ⟨s, -, hp⟩ := (Option.any_eq_true _ _).mp trace
  exact ⟨s.k, of_decide_eq_true hp⟩

/-- The led task of `main.c` calls `osDelay(500)`. -/
theorem delay_range_led : ∃ k : Kernel, k.currentTask = 0 ∧
    Honours k.currentTask (markSleeping k 500) 500 := by
  obtain ⟨k, led, created, -⟩ := led_runs
  exact ⟨k, led, (delay_range created (d := 500) (by decide)).mpr (by decide)⟩

/-- The led task would sleep for as long as possible, and the first tick wakes it. -/
theorem longest_delay_wakes : ¬ ∀ (k : Kernel) (d : Word), k.currentTask < k.taskCount → d ≠ 0 →
    Honours k.currentTask (markSleeping k d) d.toNat := by
  intro claim
  obtain ⟨k, led, created, ready⟩ := led_runs
  have sleeping := (claim k 0xFFFFFFFF created (by decide) 0 _ .start).1 (by decide)
  rw [led, ready] at sleeping
  cases sleeping

end Rtos
