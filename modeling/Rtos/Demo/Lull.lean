import Rtos.Demo.Program

/-! Time that passes while no sleeper is due: all that the calls of `SysTick_Handler` do is
count, charge the current task and ask for a switch. -/
namespace Rtos
open Lib

/-- No sleeper is due at any of the next `n` ticks. -/
def Lull (k : Kernel) (n : Nat) : Prop :=
  ∀ m < n, ∀ t < k.taskCount, k.state t = .sleeping →
    reached (k.sysTick + BitVec.ofNat 32 (m + 1)) (k.taskPool t).wakeTick = false

/-- The kernel after `n` such ticks. -/
def afterTicks (k : Kernel) (n : Nat) : Kernel :=
  { k with
    taskPool := Function.update k.taskPool k.currentTask { k.taskPool k.currentTask with
      runTicks := (k.taskPool k.currentTask).runTicks + BitVec.ofNat 32 n }
    sysTick := k.sysTick + BitVec.ofNat 32 n
    pendsv := k.pendsv || decide (0 < n) }

section lull
variable {k : Kernel} {n : Nat}

@[simp] theorem afterTicks_state (t : TaskId) : (afterTicks k n).state t = k.state t := by
  unfold afterTicks Kernel.state; grind

@[simp] theorem afterTicks_wakeTick (t : TaskId) :
    ((afterTicks k n).taskPool t).wakeTick = (k.taskPool t).wakeTick := by
  unfold afterTicks; grind

theorem afterTicks_add (m : Nat) : afterTicks (afterTicks k n) m = afterTicks k (n + m) := by
  have pend : decide (0 < n + m) = (decide (0 < n) || decide (0 < m)) := by
    rw [← Bool.decide_or]
    exact decide_eq_decide.mpr (by omega)
  simp only [afterTicks, Function.update_self, Function.update_idem, BitVec.ofNat_add,
    BitVec.add_assoc, pend, Bool.or_assoc]

theorem Lull.mono {m : Nat} (h : Lull k n) (le : m ≤ n) : Lull k m :=
  fun j lt => h j (Nat.lt_of_lt_of_le lt le)

theorem Lull.last (h : Lull k (n + 1)) : Lull (afterTicks k n) 1 := by
  intro m lt t created asleep
  obtain rfl := Nat.lt_one_iff.mp lt
  rw [afterTicks_state] at asleep
  have early := h n (Nat.lt_succ_self n) t created asleep
  rw [afterTicks_wakeTick]
  simpa [afterTicks, BitVec.ofNat_add, BitVec.add_assoc] using early

theorem lull_of_sleepers {left : Nat} (ahead : n < left) (near : left ≤ 2 ^ 31)
    (sleepers : ∀ t < k.taskCount, k.state t = .sleeping →
      (k.taskPool t).wakeTick = k.sysTick + BitVec.ofNat 32 left) : Lull k n := by
  intro m lt t created asleep
  rw [sleepers t created asleep, reached_add_left]
  have due := reached_iff (w := 32) (n := m + 1) (d := left) (by decide) (by omega) (by omega)
  rw [Bool.eq_false_iff, Ne, due]
  omega

end lull

namespace Demo

def afterTicks (d : Demo) (n : Nat) : Demo :=
  { d with sys := { d.sys with
      k := Rtos.afterTicks d.sys.k n, log := d.sys.log ++ List.replicate n .tick } }

def atFrames (d : Demo) (frames : List Frame) : Demo :=
  { d with sys := { d.sys with frames := frames } }

theorem afterTicks_add (d : Demo) (n m : Nat) :
    (d.afterTicks n).afterTicks m = d.afterTicks (n + m) := by
  simp only [afterTicks, Rtos.afterTicks_add, List.append_assoc, List.replicate_append_replicate]

theorem tick_step {d : Demo} {p p' : TickPc} {k : Kernel} {rest : List Frame}
    (frames : d.sys.frames = .sysTick p :: rest) (more : p ≠ .leave)
    (result : tickStep d.sys.k p = (k, p')) :
    DemoStep d .handler ⟨d.sys.goOnAt k (.sysTick p' :: rest) (tickEvents p), d.app⟩ := by
  refine ⟨?_, trivial⟩
  cases p <;> simp_all [demoStep, kernelStep, step, handlerStep]

theorem tick_silent {d : Demo} {p p' : TickPc} {rest : List Frame}
    (frames : d.sys.frames = .sysTick p :: rest) (more : p ≠ .leave)
    (result : tickStep d.sys.k p = (d.sys.k, p')) (silent : tickEvents p = []) :
    DemoStep d .handler (d.atFrames (.sysTick p' :: rest)) := by
  have hstep := tick_step frames more result
  rw [silent, System.goOnAt, List.append_nil] at hstep
  exact hstep

theorem tick_leave {d : Demo} {rest : List Frame} (frames : d.sys.frames = .sysTick .leave :: rest) :
    DemoStep d .handler (d.atFrames rest) := by
  refine ⟨?_, trivial⟩
  simp [demoStep, kernelStep, step, handlerStep, frames, System.goOnAt, atFrames]

/-- The loop of the handler goes past every task. -/
theorem scan_passes {d₀ d : Demo} {rest : List Frame} (reach : Reach DemoStep d₀ d)
    (frames : d.sys.frames = .sysTick (.scan 0) :: rest)
    (early : ∀ t < d.sys.k.taskCount, d.sys.k.state t = .sleeping → isDue d.sys.k t = false)
    (i : Nat) (le : i ≤ d.sys.k.taskCount) :
    Reach DemoStep d₀ (d.atFrames (.sysTick (.scan i) :: rest)) := by
  induction i with
  | zero =>
    have same : d.atFrames (.sysTick (.scan 0) :: rest) = d := by rw [atFrames, ← frames]
    rw [same]; exact reach
  | succ i ih =>
    have before := ih (Nat.le_of_succ_le le)
    have created : i < d.sys.k.taskCount := le
    by_cases asleep : d.sys.k.state i = .sleeping
    · have test : tickStep d.sys.k (.scan i) = (d.sys.k, .due i) := by
        rw [tickStep, if_pos created, if_pos asleep]
      have skip : tickStep d.sys.k (.due i) = (d.sys.k, .scan (i + 1)) := by
        rw [tickStep, early i created asleep]; rfl
      exact (before.next (tick_silent rfl (by simp) test rfl)).next
        (tick_silent rfl (by simp) skip rfl)
    · have skip : tickStep d.sys.k (.scan i) = (d.sys.k, .scan (i + 1)) := by
        rw [tickStep, if_pos created, if_neg asleep]
      exact before.next (tick_silent rfl (by simp) skip rfl)

theorem tick_passes {d₀ d : Demo} (reach : Reach DemoStep d₀ d) (primask : d.sys.primask = false)
    (frames : d.sys.frames = []) (started : d.sys.k.rtosStarted = true) (lull : Lull d.sys.k 1) :
    Reach DemoStep d₀ (d.afterTicks 1) := by
  have enter : DemoStep d .sysTick (d.atFrames [.sysTick .enter]) := by
    refine ⟨?_, trivial⟩
    simp [demoStep, kernelStep, step, System.inTick, primask, frames, System.goOnAt, atFrames]
  let k : Kernel := { d.sys.k with sysTick := d.sys.k.sysTick + 1 }
  have count : tickStep d.sys.k .enter = (k, .scan 0) := rfl
  have past : tickStep k (.scan k.taskCount) = (k, .charge) := if_neg (Nat.lt_irrefl _)
  have charge : tickStep k .charge = (chargeCurrent k, .pend) := if_pos started
  have pend : tickStep (chargeCurrent k) .pend = ((chargeCurrent k).triggerPendsv, .leave) := rfl
  have early : ∀ t < k.taskCount, k.state t = .sleeping → isDue k t = false :=
    fun t created asleep => lull 0 (by decide) t created asleep
  have counted := (reach.next enter).next (tick_step rfl (by simp) count)
  have scanned := (scan_passes counted rfl early _ le_rfl).next (tick_silent rfl (by simp) past rfl)
  have pended := (scanned.next (tick_step rfl (by simp) charge)).next (tick_step rfl (by simp) pend)
  have left := pended.next (tick_leave rfl)
  convert left using 1
  simp [afterTicks, Rtos.afterTicks, atFrames, System.goOnAt, k, frames, chargeCurrent, Kernel.setTask, Kernel.triggerPendsv, tickEvents]

/-- Any number of ticks may pass, up to the next deadline. -/
theorem ticks_pass {d₀ d : Demo} (reach : Reach DemoStep d₀ d) (primask : d.sys.primask = false)
    (frames : d.sys.frames = []) (started : d.sys.k.rtosStarted = true) (n : Nat)
    (lull : Lull d.sys.k n) : Reach DemoStep d₀ (d.afterTicks n) := by
  induction n with
  | zero =>
    have same : d.afterTicks 0 = d := by simp [afterTicks, Rtos.afterTicks]
    rw [same]; exact reach
  | succ n ih =>
    have before := ih (lull.mono (Nat.le_succ n))
    have after := tick_passes before primask frames started lull.last
    rwa [afterTicks_add] at after

end Demo

end Rtos
