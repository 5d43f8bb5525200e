import Rtos.Demo.LockStep
import Rtos.Time.Elapsed

/-! How fast the tasks of `main.c` can go. Between two things that a task does there is a delay, so
it does them no more often than its delays allow, however the other tasks and the ticks come. -/
namespace Rtos
open Lib

def opTicks : Option Op → Nat
  | some (.delay d) => d.toNat
  | _ => 0

/-- A thing that a task does at most once in `cost` ticks. `credit` is what the task has asked for
since it did so. -/
structure Pace where
  task : TaskId
  beat : App → Bool
  cost : Nat
  credit : App → Nat
  own : ∀ g op g', taskCode task g = some (op, g') →
    credit g' + (if beat g then cost else 0) = credit g + opTicks op
  asked : ∀ g op g', taskCode task g = some (op, g') → opTicks op ≤ credit g'
  other : ∀ t g op g', taskCode t g = some (op, g') → t ≠ task → credit g' = credit g
  bounded : ∀ g, credit g ≤ cost

namespace Pace

/-- The next instruction is the thing. -/
def Hits (P : Pace) (p : Demo × DemoAction) : Prop :=
  p.2 = .thread ∧ p.1.InUser ∧ p.1.sys.k.currentTask = P.task ∧ P.beat p.1.app = true

instance (P : Pace) (p : Demo × DemoAction) : Decidable (P.Hits p) := by unfold Hits; infer_instance

def hits (P : Pace) (tr : List (Demo × DemoAction)) : Nat := tr.countP fun p => P.Hits p

theorem hits_append (P : Pace) (tr us : List (Demo × DemoAction)) :
    P.hits (tr ++ us) = P.hits tr + P.hits us := List.countP_append

theorem hits_snoc (P : Pace) (tr : List (Demo × DemoAction)) (p : Demo × DemoAction) :
    P.hits (tr ++ [p]) = P.hits tr + if P.Hits p then 1 else 0 := by
  simp [hits, List.countP_append, List.countP_singleton]

/-- Since tick `x`, when the credit was `r`, the task did the thing `n` times. -/
def Kept (P : Pace) (x r n : Nat) (d : Demo) : Prop :=
  ∃ a, Elapsed P.task a (P.credit d.app) d.sys ∧ x + P.cost * n + P.credit d.app = a + r

section step
variable {P : Pace} {x r n : Nat} {d d' : Demo} {a : DemoAction}

theorem Kept.bound (h : P.Kept x r n d) : x + P.cost * n ≤ ticks d.sys.log + r := by
  obtain ⟨a, elapsed, eq⟩ := h
  have ahead := elapsed.ahead
  omega

/-- The kernel goes on, and the task asks for no delay. -/
theorem Kept.quiet {s : System} {b : Action} (h : P.Kept x r n d) (inv : Inv d.sys)
    (timed : Timed d.sys) (hstep : step d.sys b = some s) (none : delayOf P.task (d.sys, b) = 0) :
    P.Kept x r n { d with sys := s } := by
  obtain ⟨a, elapsed, eq⟩ := h
  exact ⟨a, elapsed.quiet inv timed hstep none, eq⟩

/-- What the code asks for, it has before the next time. -/
theorem paid (P : Pace) {g : App} {op : Option Op} (user : d.InUser)
    (code : taskCode d.sys.k.currentTask d.app = some (op, g)) :
    P.cost * (if P.Hits (d, .thread) then 1 else 0) + P.credit g =
      P.credit d.app + if d.sys.k.currentTask = P.task then opTicks op else 0 := by
  by_cases cur : d.sys.k.currentTask = P.task
  · rw [cur] at code
    have own := P.own _ _ _ code
    rw [if_pos cur, ← own]
    by_cases beat : P.beat d.app = true
    · rw [if_pos ⟨rfl, user, cur, beat⟩, if_pos beat, Nat.mul_one, Nat.add_comm]
    · rw [if_neg fun hits => beat hits.2.2.2, if_neg beat, Nat.mul_zero, Nat.zero_add, Nat.add_zero]
  · have same := P.other _ _ _ _ code cur
    rw [if_neg cur, if_neg fun hits => cur hits.2.2.1, same, Nat.mul_zero, Nat.zero_add, Nat.add_zero]

theorem delayOf_op (i : TaskId) (s : System) (op : Op) :
    delayOf i (s, .call op) = if s.k.currentTask = i then opTicks (some op) else 0 := by
  cases op <;> simp [delayOf, opTicks]

theorem out_of_user {i : TaskId} (user : d.InUser) (cur : d.sys.k.currentTask = i) :
    ¬ InDelay (d.sys.pc i) := by
  rw [← cur, user]
  simp [InDelay]

theorem Kept.own {g : App} (h : P.Kept x r n d) (user : d.InUser)
    (code : taskCode d.sys.k.currentTask d.app = some (none, g)) :
    P.Kept x r (n + if P.Hits (d, .thread) then 1 else 0) { d with app := g } := by
  obtain ⟨a, elapsed, eq⟩ := h
  have paid := P.paid user code
  simp only [opTicks, ite_self] at paid
  refine ⟨a, ?_, by rw [Nat.mul_add]; dsimp only; omega⟩
  by_cases cur : d.sys.k.currentTask = P.task
  · exact (elapsed.settle (out_of_user user cur)).mono (Nat.zero_le _)
  · rwa [P.other _ _ _ _ code cur]

theorem Kept.call {op : Op} {g : App} {s : System} (h : P.Kept x r n d) (inv : Inv d.sys)
    (timed : Timed d.sys) (user : d.InUser)
    (code : taskCode d.sys.k.currentTask d.app = some (some op, g))
    (hstep : step d.sys (.call op) = some s) :
    P.Kept x r (n + if P.Hits (d, .thread) then 1 else 0) ⟨s, g⟩ := by
  obtain ⟨a, elapsed, eq⟩ := h
  have paid := P.paid user code
  rw [← delayOf_op] at paid
  refine ⟨a + delayOf P.task (d.sys, .call op), ?_, by rw [Nat.mul_add]; dsimp only; omega⟩
  by_cases cur : d.sys.k.currentTask = P.task
  · have moved := (elapsed.settle (out_of_user user cur)).step inv timed hstep
    rw [Nat.zero_add, delayOf_op, if_pos cur] at moved
    rw [delayOf_op, if_pos cur]
    rw [cur] at code
    exact moved.mono (P.asked _ _ _ code)
  · have none : delayOf P.task (d.sys, .call op) = 0 := by rw [delayOf_op, if_neg cur]
    rw [none, P.other _ _ _ _ code cur]
    exact elapsed.quiet inv timed hstep none

theorem Kept.next (h : P.Kept x r n d) (inv : Inv d.sys) (timed : Timed d.sys)
    (hstep : demoStep d a = some d') :
    P.Kept x r (n + if P.Hits (d, a) then 1 else 0) d' := by
  cases demoStep_cases hstep with
  | interrupt other kind hs =>
    rw [if_neg fun hits => other hits.1]
    refine h.quiet inv timed hs ?_
    rcases kind with rfl | rfl | rfl <;> rfl
  | kernel _ inside hs =>
    rw [if_neg fun hits => inside hits.2.1]
    exact h.quiet inv timed hs rfl
  | own _ user code => exact h.own user code
  | call _ user code hs => exact h.call inv timed user code hs

end step
end Pace

theorem demoStep_timed {n : Nat} {d d' : Demo} {a : DemoAction}
    (h : Reachable (demoConfig n) 3 d.sys) (timed : Timed d.sys) (hstep : demoStep d a = some d') :
    Timed d'.sys := by
  have inv := h.idleInv.inv
  cases demoStep_cases hstep with
  | interrupt _ kind hs =>
    refine step_timed inv timed hs fun d eq => ?_
    rcases kind with rfl | rfl | rfl <;> cases eq
  | kernel _ _ hs => exact step_timed inv timed hs fun d eq => by cases eq
  | own => exact timed
  | @call op g s _ _ code hs =>
    refine step_timed inv timed hs fun d eq => ?_
    cases eq
    rcases taskCode_cases code with ⟨-, eq⟩ | ⟨-, eq⟩ | ⟨-, eq⟩ | ⟨-, eq⟩
    · unfold taskLed at eq
      split at eq <;> cases eq <;> decide
    · unfold taskCounter at eq
      split at eq
      · cases eq
      · cases eq
      · cases eq; decide
    · unfold taskConsumer at eq
      split at eq <;> cases eq
    · cases eq

theorem Pace.run_keeps (P : Pace) {n : Nat} {d d' : Demo} {tr : List (Demo × DemoAction)}
    (h : Reachable (demoConfig n) 3 d.sys) (timed : Timed d.sys) (run : Run DemoStep d tr d') :
    (Reachable (demoConfig n) 3 d'.sys ∧ Timed d'.sys) ∧
      P.Kept (ticks d.sys.log) (P.credit d.app) (P.hits tr) d' := by
  induction run with
  | nil => exact ⟨⟨h, timed⟩, _, (Elapsed.start P.task d.sys).mono (Nat.zero_le _), rfl⟩
  | snoc _ hstep ih =>
    obtain ⟨⟨h, timed⟩, kept⟩ := ih
    rw [hits_snoc]
    exact ⟨⟨demoStep_reachable h hstep.1, demoStep_timed h timed hstep.1⟩,
      kept.next h.idleInv.inv timed hstep.1⟩

/-- In any stretch of a run the thing happens no more often than `cost` allows. -/
theorem Pace.run_kept (P : Pace) {n : Nat} {d d' : Demo} {tr : List (Demo × DemoAction)}
    (h : Reachable (demoConfig n) 3 d.sys) (timed : Timed d.sys) (run : Run DemoStep d tr d') :
    ticks d.sys.log + P.cost * P.hits tr ≤ ticks d'.sys.log + P.cost :=
  (P.run_keeps h timed run).2.bound.trans (Nat.add_le_add_left (P.bounded _) _)

def CounterPc.stores : CounterPc → Bool
  | .store _ => true
  | .load | .delay => false

def CounterPc.credit : CounterPc → Nat
  | .load | .store _ => 10
  | .delay => 0

def LedPc.writes : LedPc → Bool
  | .on | .off => true
  | .delayOn | .delayOff | .load | .store _ | .signal => false

def LedPc.writeCredit : LedPc → Nat
  | .delayOn | .delayOff => 0
  | .on | .off | .load | .store _ | .signal => 500

def LedPc.raiseCredit : LedPc → Nat
  | .on | .delayOn | .signal => 0
  | .off | .delayOff => 500
  | .load | .store _ => 1000

theorem taskCode_counter {t : TaskId} {g g' : App} {op : Option Op}
    (code : taskCode t g = some (op, g')) (other : t ≠ 1) :
    g'.counter = g.counter := by
  rcases taskCode_cases code with ⟨rfl, eq⟩ | ⟨rfl, -⟩ | ⟨rfl, eq⟩ | ⟨rfl, eq⟩
  · unfold taskLed at eq
    split at eq <;> cases eq <;> rfl
  · exact absurd rfl other
  · unfold taskConsumer at eq
    split at eq <;> cases eq <;> rfl
  · cases eq; rfl

/-- `task2_counter++` -/
def counterPace : Pace where
  task := 1
  beat g := g.counter.stores
  cost := 10
  credit g := g.counter.credit
  own g op g' code := by
    cases at_ : g.counter <;> simp [taskCode, taskCounter, at_] at code <;>
      obtain ⟨rfl, rfl⟩ := code <;> rfl
  asked g op g' code := by
    cases at_ : g.counter <;> simp [taskCode, taskCounter, at_] at code <;>
      obtain ⟨rfl, rfl⟩ := code <;> simp [opTicks, CounterPc.credit]
  other t g op g' code ne := by rw [taskCode_counter code ne]
  bounded g := by cases g.counter <;> simp [CounterPc.credit]

def ledPace : Pace where
  task := 0
  beat g := g.led.writes
  cost := 500
  credit g := g.led.writeCredit
  own g op g' code := by
    cases at_ : g.led <;> simp [taskCode, taskLed, at_] at code <;>
      obtain ⟨rfl, rfl⟩ := code <;> rfl
  asked g op g' code := by
    cases at_ : g.led <;> simp [taskCode, taskLed, at_] at code <;>
      obtain ⟨rfl, rfl⟩ := code <;> simp [opTicks, LedPc.writeCredit]
  other t g op g' code ne := by rw [(taskCode_frame code).1 ne]
  bounded g := by cases g.led <;> simp [LedPc.writeCredit]

/-- `sem_signal_count++` -/
def signalPace : Pace where
  task := 0
  beat g := g.led.beat = some .raise
  cost := 1000
  credit g := g.led.raiseCredit
  own g op g' code := by
    cases at_ : g.led <;> simp [taskCode, taskLed, at_] at code <;>
      obtain ⟨rfl, rfl⟩ := code <;> rfl
  asked g op g' code := by
    cases at_ : g.led <;> simp [taskCode, taskLed, at_] at code <;>
      obtain ⟨rfl, rfl⟩ := code <;> simp [opTicks, LedPc.raiseCredit]
  other t g op g' code ne := by rw [(taskCode_frame code).1 ne]
  bounded g := by cases g.led <;> simp [LedPc.raiseCredit]

/-- After a write of the LED and until the next one, the LED is lit. -/
def LedPc.lit : LedPc → Bool
  | .delayOn | .off => true
  | .on | .delayOff | .load | .store _ | .signal => false

/-- What can be seen of the counter task after `c` increments and of the led task after `w` writes. -/
structure Shown (c w : Nat) (g : App) : Prop where
  counter : g.task2Counter = BitVec.ofNat 32 c
  stored : ∀ v, g.counter = .store v → v = g.task2Counter + 1
  pin : g.ledPin = true ↔ Odd w
  lit : g.ledPin = g.led.lit

theorem Shown.led {c w : Nat} {g : App} (h : Shown c w g) :
    Shown c (w + if g.led.writes = true then 1 else 0) (taskLed g).2 := by
  have pin := h.pin
  have lit := h.lit
  cases at_ : g.led <;> simp only [taskLed, at_, LedPc.writes, LedPc.lit] at lit ⊢
  case on | off =>
    refine ⟨h.counter, h.stored, ?_, rfl⟩
    simp only [lit] at pin
    simpa [Nat.odd_add_one] using pin
  all_goals exact ⟨h.counter, h.stored, pin, lit⟩

theorem Shown.count {c w : Nat} {g : App} (h : Shown c w g) :
    Shown (c + if g.counter.stores = true then 1 else 0) w (taskCounter g).2 := by
  cases at_ : g.counter <;> simp only [taskCounter, at_, CounterPc.stores]
  case store v =>
    refine ⟨?_, by simp, h.pin, h.lit⟩
    have next := h.stored v at_
    rw [next, h.counter, if_pos trivial, ofNat_succ]
  all_goals exact ⟨h.counter, by simp, h.pin, h.lit⟩

theorem Shown.consume {c w : Nat} {g : App} (h : Shown c w g) : Shown c w (taskConsumer g).2 := by
  cases at_ : g.consumer <;> simp only [taskConsumer, at_] <;>
    exact ⟨h.counter, h.stored, h.pin, h.lit⟩

theorem Shown.code {c w : Nat} {t : TaskId} {g g' : App} {op : Option Op} (h : Shown c w g)
    (code : taskCode t g = some (op, g')) :
    Shown (c + if t = 1 ∧ g.counter.stores = true then 1 else 0)
      (w + if t = 0 ∧ g.led.writes = true then 1 else 0) g' := by
  rcases taskCode_cases code with ⟨rfl, eq⟩ | ⟨rfl, eq⟩ | ⟨rfl, eq⟩ | ⟨rfl, eq⟩
  · have next := h.led
    rw [eq] at next
    simpa using next
  · have next := h.count
    rw [eq] at next
    simpa using next
  · have next := h.consume
    rw [eq] at next
    simpa using next
  · cases eq; simpa using h

theorem run_shown {n : Nat} {d₀ d : Demo} {tr : List (Demo × DemoAction)}
    (hboot : demoBoot n = some d₀) (run : Run DemoStep d₀ tr d) :
    Shown (counterPace.hits tr) (ledPace.hits tr) d.app := by
  induction run with
  | nil =>
    obtain ⟨s, -, rfl⟩ := Option.map_eq_some_iff.mp hboot
    exact ⟨rfl, by simp [resetApp], by simp [resetApp, Pace.hits], rfl⟩
  | snoc _ hstep ih =>
    rw [Pace.hits_snoc, Pace.hits_snoc]
    cases demoStep_cases hstep.1 with
    | interrupt other =>
      rw [if_neg fun hits => other hits.1, if_neg fun hits => other hits.1]
      exact ih
    | kernel _ inside =>
      rw [if_neg fun hits => inside hits.2.1, if_neg fun hits => inside hits.2.1]
      exact ih
    | own _ user code | call _ user code =>
      have next := ih.code code
      simpa [Pace.Hits, user, counterPace, ledPace] using next

theorem ConsumerPc.beat_ne_raise (p : ConsumerPc) : p.beat ≠ some .raise := by
  cases p <;> simp [beat]

theorem signalPace_hits (p : Demo × DemoAction) :
    signalPace.Hits p ↔ p.1.beat p.2 = some .raise := by
  unfold Demo.beat
  split
  · rename_i thread
    cases t : p.1.sys.k.currentTask with
    | zero => simp [Pace.Hits, signalPace, App.beat, thread, t]
    | succ t' =>
      have never : p.1.app.beat (t' + 1) ≠ some .raise := by
        cases t' with
        | zero => simp [App.beat]
        | succ t' =>
          cases t' with
          | zero => exact ConsumerPc.beat_ne_raise _
          | succ => simp [App.beat]
      simp [Pace.Hits, signalPace, t, never]
  · rename_i other
    exact iff_of_false (fun hits => other ⟨hits.1, hits.2.1⟩) (by simp)

theorem count_raise (tr : List (Demo × DemoAction)) :
    (beats tr).count .raise = signalPace.hits tr := by
  induction tr with
  | nil => rfl
  | cons p tr ih =>
    have hits := signalPace_hits p
    unfold beats Pace.hits at ih ⊢
    cases beat : p.1.beat p.2 <;>
      simp_all [List.countP_cons, List.count_cons]

theorem run_timed {n : Nat} {d₀ d : Demo} {tr : List (Demo × DemoAction)}
    (hboot : demoBoot n = some d₀) (run : Run DemoStep d₀ tr d) :
    Reachable (demoConfig n) 3 d.sys ∧ Timed d.sys := by
  induction run with
  | nil =>
    obtain ⟨s, hboot', rfl⟩ := Option.map_eq_some_iff.mp hboot
    exact ⟨(boot_paced hboot).reachable, boot_timed hboot' (show 0 < mainTasks.length by decide)⟩
  | snoc _ hstep ih =>
    exact ⟨demoStep_reachable ih.1 hstep.1, demoStep_timed ih.1 ih.2 hstep.1⟩

/-- In any stretch of a run of `main.c`, `task2_counter` goes up once in ten ticks at most, the LED
changes once in 500 and `sem_signal_count` goes up once in 1000, but for one more that may come at
once. -/
theorem demo_rates {n : Nat} {d₀ d d' : Demo} {tr₀ tr : List (Demo × DemoAction)}
    (hboot : demoBoot n = some d₀) (start : Run DemoStep d₀ tr₀ d) (run : Run DemoStep d tr d') :
    (d'.app.task2Counter = d.app.task2Counter + BitVec.ofNat 32 (counterPace.hits tr) ∧
      ticks d.sys.log + 10 * counterPace.hits tr ≤ ticks d'.sys.log + 10) ∧
    ((d'.app.ledPin = true ↔ (d.app.ledPin = true ↔ Even (ledPace.hits tr))) ∧
      ticks d.sys.log + 500 * ledPace.hits tr ≤ ticks d'.sys.log + 500) ∧
    d'.app.semSignalCount = d.app.semSignalCount + BitVec.ofNat 32 (signalPace.hits tr) ∧
      ticks d.sys.log + 1000 * signalPace.hits tr ≤ ticks d'.sys.log + 1000 := by
  obtain ⟨reachable, timed⟩ := run_timed hboot start
  have before := run_shown hboot start
  have after := run_shown hboot (start.append run)
  obtain ⟨_, paced⟩ := run_paced hboot start
  obtain ⟨_, paced'⟩ := run_paced hboot (start.append run)
  refine ⟨⟨?_, counterPace.run_kept reachable timed run⟩, ⟨?_, ledPace.run_kept reachable timed run⟩,
    ?_, signalPace.run_kept reachable timed run⟩
  · rw [after.counter, before.counter, Pace.hits_append, BitVec.ofNat_add]
  · rw [after.pin, before.pin, Pace.hits_append, Nat.odd_add]
  · rw [paced'.tally.signals, paced.tally.signals, count_raise, count_raise, Pace.hits_append,
      BitVec.ofNat_add]

/-- A tick at which the led task and the counter task sleep on. -/
def quietTick : List DemoAction := .sysTick :: List.replicate 11 .handler ++ takeSwitch

/-- Once the consumer of `main.c` waits: the LED goes on, the counter task counts, and ten ticks
later it counts again. -/
theorem demo_rates_led : ∃ (d d' : Demo) (tr : List (Demo × DemoAction)),
    counterPace.hits tr = 2 ∧ ledPace.hits tr = 1 ∧ signalPace.hits tr = 0 ∧
    d.app.task2Counter = 0 ∧ d'.app.task2Counter = 2 ∧ d.app.ledPin = false ∧ d'.app.ledPin = true ∧
      ticks d.sys.log + 10 ≤ ticks d'.sys.log := by
  let acts : List DemoAction :=
    takeSwitch ++ [.thread, .thread, .thread] ++ takeSwitch ++ [.thread, .thread, .thread, .thread] ++
      takeSwitch ++ (List.replicate 9 quietTick).flatten ++ .sysTick :: List.replicate 12 .handler ++
      takeSwitch ++ [.thread, .thread, .thread]
  have trace : ((demoBoot 0).bind fun d => d.play (takeSwitch ++ [.thread, .thread])).any (fun d =>
      decide (d.app.task2Counter = 0 ∧ d.app.ledPin = false ∧
        counterPace.hits (visited demoStep d acts) = 2 ∧ ledPace.hits (visited demoStep d acts) = 1 ∧
        signalPace.hits (visited demoStep d acts) = 0) &&
      (d.play acts).isSome) = true := by decide +kernel
  obtain ⟨d, hplay, hp⟩ := (Option.any_eq_true _ _).mp trace
  obtain ⟨d₀, hboot, started⟩ := Option.bind_eq_some_iff.mp hplay
  simp only [Bool.and_eq_true, decide_eq_true_eq] at hp
  obtain ⟨⟨zero, dark, two, one, none⟩, done⟩ := hp
  obtain ⟨d', played⟩ := Option.isSome_iff_exists.mp done
  obtain ⟨⟨counter, pace⟩, ⟨pin, -⟩, -⟩ := demo_rates hboot (Demo.play_run started)
    (Demo.play_run played)
  rw [two] at counter pace
  rw [one] at pin
  refine ⟨d, d', _, two, one, none, zero, ?_, dark, pin.mpr (by simp [dark]), by omega⟩
  rw [counter, zero]
  rfl

end Rtos
