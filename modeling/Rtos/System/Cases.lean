import Rtos.System.Step

/-! Everything one step of the system can do, guards included. The invariants are derived
from these cases and never unfold the step function. -/
namespace Rtos

/-- Thread mode, with nothing to take before the next instruction. -/
structure System.Thread (s : System) : Prop where
  frames : s.frames = []
  pendsv : s.k.pendsv = false
  started : s.k.rtosStarted = true
  primask : s.primask = false

theorem System.inThread_iff (s : System) : s.inThread = true ↔ s.Thread := by
  unfold System.inThread
  simp only [Bool.and_eq_true, List.isEmpty_iff, Bool.not_eq_true']
  constructor
  · rintro ⟨⟨⟨hf, hp⟩, hs⟩, hm⟩; exact ⟨hf, hp, hs, hm⟩
  · rintro ⟨hf, hp, hs, hm⟩; exact ⟨⟨⟨hf, hp⟩, hs⟩, hm⟩

inductive StepCase (s : System) : Action → System → Prop where
  | sysTick (primask : s.primask = false) (once : s.inTick = false) :
      StepCase s .sysTick (s.goOnAt s.k (.sysTick .enter :: s.frames) [])
  | isr (primask : s.primask = false) : StepCase s .isr (s.goOnAt s.k (.isr .body :: s.frames) [])
  | pendSv (primask : s.primask = false) (frames : s.frames = []) (pending : s.k.pendsv = true) :
      StepCase s .pendSv (s.goOnAt { s.k with pendsv := false } [.pendSv] [])
  | tickLeave {rest : List Frame} (frames : s.frames = .sysTick .leave :: rest) :
      StepCase s .handler (s.goOnAt s.k rest [])
  | tick {pc : TickPc} {rest : List Frame} (frames : s.frames = .sysTick pc :: rest)
      (more : pc ≠ .leave) : StepCase s .handler
        (s.goOnAt (tickStep s.k pc).1 (.sysTick (tickStep s.k pc).2 :: rest) (tickEvents pc))
  | isrYield {rest : List Frame} (frames : s.frames = .isr .yield :: rest) :
      StepCase s .handler (s.goOnAt s.k.triggerPendsv (.isr .body :: rest) [])
  | switch {rest : List Frame} (frames : s.frames = .pendSv :: rest) :
      StepCase s .handler (switchStep s rest)
  | isrSignal {j : Nat} {rest : List Frame} {k : Kernel} {woken : Option TaskId}
      (frames : s.frames = .isr .body :: rest)
      (result : osSemaphoreSignal s.k (.sem j) = some (k, woken)) :
      StepCase s (.isrSignal j) (s.goOnAt k (.isr (if woken.isSome then .yield else .body) :: rest)
        (signalEvents s.log (.sem j) none woken))
  | isrReturn {rest : List Frame} (frames : s.frames = .isr .body :: rest) :
      StepCase s .isrReturn (s.goOnAt s.k rest [])
  | nothing {a : Action} (thread : s.Thread) : StepCase s a s
  | delay {d : Word} (thread : s.Thread) (pc : s.pc s.k.currentTask = .user) (pos : d ≠ 0) :
      StepCase s (.call (.delay d)) (s.goOn (markSleeping s.k d) (.yield .delay)
        [.sleep s.k.currentTask (ticks s.log + d.toNat)])
  | waitQueued {op : Op} {r : SemRef} {k : Kernel} (thread : s.Thread)
      (pc : s.pc s.k.currentTask = .user)
      (ref : (∃ j, op = .wait j ∧ r = .sem j) ∨ ∃ m, op = .acquire m ∧ r = .mutex m)
      (result : osSemaphoreWait s.k r = some (k, true)) :
      StepCase s (.call op) (s.goOn k (.yield (.wait r))
        [.enter r ⟨s.k.currentTask, waits s.k.currentTask s.log + 1⟩])
  | waitTaken {op : Op} {r : SemRef} {k : Kernel} (thread : s.Thread)
      (pc : s.pc s.k.currentTask = .user)
      (ref : (∃ j, op = .wait j ∧ r = .sem j) ∨ ∃ m, op = .acquire m ∧ r = .mutex m)
      (result : osSemaphoreWait s.k r = some (k, false)) :
      StepCase s (.call op) (s.goOn k (.ret (.wait r))
        [.enter r ⟨s.k.currentTask, waits s.k.currentTask s.log + 1⟩,
          .grant r ⟨s.k.currentTask, waits s.k.currentTask s.log + 1⟩])
  | signal {a : Action} {r : SemRef} {k : Kernel} {woken : Option TaskId} (thread : s.Thread)
      (ref : (∃ j, a = .call (.signal j) ∧ r = .sem j ∧ s.pc s.k.currentTask = .user) ∨
        ∃ m, a = .task ∧ r = .mutex m ∧ s.pc s.k.currentTask = .unlock m)
      (result : osSemaphoreSignal s.k r = some (k, woken)) :
      StepCase s a (s.goOn k (if woken.isSome then .yield (.signal r) else .ret (.signal r))
        (signalEvents s.log r (some s.k.currentTask) woken))
  | release {m : Nat} (thread : s.Thread) (pc : s.pc s.k.currentTask = .user)
      (owner : s.k.owner m = some s.k.currentTask) :
      StepCase s (.call (.release m))
        (s.goOn (s.k.setOwner m none) (.unlock m) [.released m s.k.currentTask])
  | trap {m : Nat} (thread : s.Thread) (pc : s.pc s.k.currentTask = .user)
      (owner : s.k.owner m ≠ some s.k.currentTask) :
      StepCase s (.call (.release m)) (s.goOn s.k .spin [])
  | init {i : Init} (thread : s.Thread) (pc : s.pc s.k.currentTask = .user)
      (fresh : s.k.sems i.ref = none) :
      StepCase s (.call (.init i)) (s.goOn (i.apply s.k) .user [.init i.ref i.count])
  | leave (thread : s.Thread) (pc : s.pc s.k.currentTask = .user) :
      StepCase s (.call .leave) { s.goOn s.k .exit [] with primask := true }
  | yield {c : Call} (thread : s.Thread) (pc : s.pc s.k.currentTask = .yield c) :
      StepCase s .task (s.goOn s.k.triggerPendsv (.ret c) [])
  | ret {c : Call} (thread : s.Thread) (pc : s.pc s.k.currentTask = .ret c) :
      StepCase s .task (s.goOn s.k (returnTo s.k.currentTask s.log c).1
        (returnTo s.k.currentTask s.log c).2)
  | own {m : Nat} (thread : s.Thread) (pc : s.pc s.k.currentTask = .own m) :
      StepCase s .task (s.goOn (s.k.setOwner m (some s.k.currentTask)) .user
        [.acquired m s.k.currentTask])

theorem waitStep_cases {s s' : System} {r : SemRef} {op : Op} (thread : s.Thread)
    (pc : s.pc s.k.currentTask = .user)
    (ref : (∃ j, op = .wait j ∧ r = .sem j) ∨ ∃ m, op = .acquire m ∧ r = .mutex m)
    (h : waitStep s r = some s') : StepCase s (.call op) s' := by
  unfold waitStep at h
  split at h
  · cases h
  · rename_i k result
    cases Option.some.inj h
    exact .waitQueued thread pc ref result
  · rename_i k result
    cases Option.some.inj h
    exact .waitTaken thread pc ref result

theorem signalStep_cases {s s' : System} {r : SemRef} {a : Action} (thread : s.Thread)
    (ref : (∃ j, a = .call (.signal j) ∧ r = .sem j ∧ s.pc s.k.currentTask = .user) ∨
      ∃ m, a = .task ∧ r = .mutex m ∧ s.pc s.k.currentTask = .unlock m)
    (h : signalStep s r = some s') : StepCase s a s' := by
  unfold signalStep at h
  split at h
  · cases h
  · rename_i k woken result
    cases Option.some.inj h
    exact .signal thread ref result

theorem callStep_cases {s s' : System} {op : Op} (thread : s.Thread)
    (pc : s.pc s.k.currentTask = .user) (h : callStep s op = some s') :
    StepCase s (.call op) s' := by
  cases op with
  | delay d =>
    simp only [callStep] at h
    split at h
    · cases Option.some.inj h; exact .nothing thread
    · rename_i pos
      cases Option.some.inj h; exact .delay thread pc pos
  | wait j => exact waitStep_cases thread pc (.inl ⟨j, rfl, rfl⟩) h
  | signal j => exact signalStep_cases thread (.inl ⟨j, rfl, rfl, pc⟩) h
  | acquire m => exact waitStep_cases thread pc (.inr ⟨m, rfl, rfl⟩) h
  | release m =>
    simp only [callStep] at h
    split at h
    · cases h
    · split at h
      · rename_i owner
        cases Option.some.inj h; exact .release thread pc owner
      · rename_i owner
        cases Option.some.inj h; exact .trap thread pc owner
  | init i =>
    simp only [callStep] at h
    split at h
    · rename_i fresh
      cases Option.some.inj h
      exact .init thread pc (Option.isNone_iff_eq_none.mp fresh)
    · cases h
  | leave => cases Option.some.inj h; exact .leave thread pc

theorem taskStep_cases {s s' : System} (thread : s.Thread) (h : taskStep s = some s') :
    StepCase s .task s' := by
  unfold taskStep at h
  split at h
  · cases h
  · rename_i c pc
    cases Option.some.inj h; exact .yield thread pc
  · rename_i c pc
    cases Option.some.inj h; exact .ret thread pc
  · rename_i m pc
    cases Option.some.inj h; exact .own thread pc
  · rename_i m pc
    exact signalStep_cases thread (.inr ⟨m, rfl, rfl, pc⟩) h
  · cases Option.some.inj h; exact .nothing thread
  · cases Option.some.inj h; exact .nothing thread

theorem handlerStep_cases {s s' : System} (h : handlerStep s = some s') :
    StepCase s .handler s' := by
  unfold handlerStep at h
  split at h
  · rename_i rest frames
    cases Option.some.inj h; exact .tickLeave frames
  · rename_i pc rest more frames
    cases Option.some.inj h
    exact .tick frames more
  · rename_i rest frames
    cases Option.some.inj h; exact .isrYield frames
  · cases h
  · rename_i rest frames
    cases Option.some.inj h; exact .switch frames
  · cases h

theorem isrSignalStep_cases {s s' : System} {j : Nat} (h : isrSignalStep s (.sem j) = some s') :
    StepCase s (.isrSignal j) s' := by
  unfold isrSignalStep at h
  split at h
  · rename_i rest frames
    split at h
    · cases h
    · rename_i k woken result
      cases Option.some.inj h; exact .isrSignal frames result
  · cases h

theorem step_cases {s s' : System} {a : Action} (h : step s a = some s') : StepCase s a s' := by
  cases a with
  | sysTick =>
    obtain ⟨guard, eq⟩ := Option.ite_none_right_eq_some.mp h
    cases eq; exact .sysTick guard.1 guard.2
  | isr =>
    obtain ⟨guard, eq⟩ := Option.ite_none_right_eq_some.mp h
    cases eq; exact .isr guard
  | pendSv =>
    obtain ⟨guard, eq⟩ := Option.ite_none_right_eq_some.mp h
    cases eq; exact .pendSv guard.1 guard.2.1 guard.2.2
  | handler => exact handlerStep_cases h
  | isrSignal j => exact isrSignalStep_cases h
  | isrReturn =>
    simp only [step] at h
    split at h
    · rename_i rest frames
      cases Option.some.inj h; exact .isrReturn frames
    · cases h
  | call op =>
    obtain ⟨guard, eq⟩ := Option.ite_none_right_eq_some.mp h
    exact callStep_cases (s.inThread_iff.mp guard.1) guard.2 eq
  | task =>
    obtain ⟨guard, eq⟩ := Option.ite_none_right_eq_some.mp h
    exact taskStep_cases (s.inThread_iff.mp guard) eq

end Rtos
