import Mathlib.Algebra.BigOperators.Group.Finset.Basic
import Rtos.Scheduling.Latency

/-! The kernel is never stuck. What the handlers and the calls have begun takes a bounded number of
steps, whatever the order, and an interrupt adds a bounded number; when no step of it can be made, the
most urgent task runs. -/
namespace Rtos
open Lib

/-- Before the `trigger_pendsv()` of a call. -/
def Pc.yields : Pc → Bool
  | .yield _ => true
  | _ => false

/-- A step of what has been begun: a handler goes on or returns, a requested switch is entered, or
the running task comes to the `trigger_pendsv()` of its call. -/
def serves (p : System × Action) : Bool :=
  match p.2 with
  | .handler => true
  | .isrReturn => true
  | .pendSv => true
  | .task => (p.1.pc p.1.k.currentTask).yields
  | _ => false

/-- The steps a SysTick call has left, with the switch it is going to request. -/
def TickPc.work (n : Nat) : TickPc → Nat
  | .enter => 7 + 3 * n
  | .scan i => 6 + 3 * (n - i)
  | .due i => 8 + 3 * (n - (i + 1))
  | .wake i => 7 + 3 * (n - (i + 1))
  | .charge => 5
  | .pend => 4
  | .leave => 1

def Frame.work (n : Nat) : Frame → Nat
  | .sysTick pc => pc.work n
  | .isr .body => 1
  | .isr .yield => 4
  | .pendSv => 1

def Pc.work (p : Pc) : Nat := if p.yields then 3 else 0

def callWork (n : Nat) (pc : TaskId → Pc) : Nat := ∑ i ∈ Finset.range n, (pc i).work

/-- The entry of `PendSV_Handler` and the switch. -/
def pendWork (k : Kernel) : Nat := 2 * k.pendsv.toNat

/-- The steps of all that has been begun. -/
def work (s : System) : Nat :=
  (s.frames.map (Frame.work s.k.taskCount)).sum + callWork s.k.taskCount s.pc + pendWork s.k

/-- What a step adds. -/
def asks (p : System × Action) : Nat :=
  match p.2 with
  | .sysTick => 7 + 3 * p.1.k.taskCount
  | .isr => 1
  | .isrSignal _ => 3
  | .call _ => 3
  | .task => if serves p then 0 else 3
  | _ => 0

/-- A total over the tasks, when one of them changes. -/
theorem sum_update {T : Type} (f : T → Nat) (g : Nat → T) {n t : Nat} (created : t < n) (v : T) :
    ∑ i ∈ Finset.range n, f (Function.update g t v i) + f (g t) =
      ∑ i ∈ Finset.range n, f (g i) + f v := by
  have mem : t ∈ Finset.range n := Finset.mem_range.mpr created
  have rest : ∀ i ∈ (Finset.range n).erase t, f (Function.update g t v i) = f (g i) :=
    fun i hi => by rw [Function.update_of_ne (Finset.ne_of_mem_erase hi)]
  calc ∑ i ∈ Finset.range n, f (Function.update g t v i) + f (g t)
      = f v + ∑ i ∈ (Finset.range n).erase t, f (g i) + f (g t) := by
        rw [← Finset.add_sum_erase _ _ mem, Finset.sum_congr rfl rest, Function.update_self]
    _ = f (g t) + ∑ i ∈ (Finset.range n).erase t, f (g i) + f v := by omega
    _ = ∑ i ∈ Finset.range n, f (g i) + f v := by
        rw [Finset.add_sum_erase _ (fun i => f (g i)) mem]

section step
variable {s s' : System} {a : Action}

/-- A task goes on. -/
theorem goOn_work {k : Kernel} {p : Pc} (es : List Event) (wf : s.k.Wf)
    (count : k.taskCount = s.k.taskCount) :
    work (s.goOn k p es) + (s.pc s.k.currentTask).work + pendWork s.k =
      work s + p.work + pendWork k := by
  have calls := sum_update Pc.work s.pc wf.current_lt p
  simp only [work, callWork, System.goOn_frames, System.goOn_k, System.goOn_pc, count]
  omega

theorem goOn_asks {k : Kernel} {p : Pc} (es : List Event) (wf : s.k.Wf)
    (count : k.taskCount = s.k.taskCount) (pendsv : k.pendsv = s.k.pendsv)
    (task : a.inThread = true) (other : serves (s, a) = false) :
    (if serves (s, a) then 1 else 0) + work (s.goOn k p es) ≤ work s + asks (s, a) := by
  have moved := goOn_work (p := p) es wf count
  have most : p.work ≤ 3 := by unfold Pc.work; split <;> omega
  have three : asks (s, a) = 3 := by
    cases a with
    | call => rfl
    | task => simp [asks, other]
    | _ => cases task
  simp only [pendWork, pendsv] at moved
  rw [other, three, if_neg (by simp)]
  omega

theorem tick_work {k k' : Kernel} {pc pc' : TickPc} (tick : TickCase k pc k' pc') :
    1 + pc'.work k.taskCount + pendWork k' ≤ pc.work k.taskCount + pendWork k := by
  have pend : k.pendsv.toNat ≤ 1 := Bool.toNat_le _
  cases tick with
  | enter | wake | charge =>
    simp only [TickPc.work, pendWork, Kernel.setState, Kernel.setTask, chargeCurrent]
    omega
  | asleep | awake | done | due | notDue | notStarted =>
    simp only [TickPc.work]
    omega
  | pend =>
    simp only [TickPc.work, pendWork, Kernel.triggerPendsv, Bool.toNat_true]
    omega

/-- A step of the begun work takes it down by one at least, and no other step adds more than it
asks for. -/
theorem step_work (wf : s.k.Wf) (hstep : step s a = some s') :
    (if serves (s, a) then 1 else 0) + work s' ≤ work s + asks (s, a) := by
  cases step_cases hstep with
  | sysTick | isr =>
    simp [serves, asks, work, Frame.work, TickPc.work]
    omega
  | pendSv _ frames pending =>
    simp [serves, asks, work, frames, Frame.work, pendWork, pending]
    omega
  | tickLeave frames | isrReturn frames =>
    simp [serves, asks, work, frames, Frame.work, TickPc.work]
    omega
  | @tick pc rest frames more =>
    have count : (tickStep s.k pc).1.taskCount = s.k.taskCount := by
      obtain ⟨_, _, _, eq⟩ := tickStep_eq_with s.k pc
      rw [eq]
    have less := tick_work (tickStep_cases s.k more)
    simp [serves, asks, work, frames, Frame.work, count]
    omega
  | isrYield frames =>
    simp [serves, asks, work, frames, Frame.work, pendWork, Kernel.triggerPendsv]
    omega
  | switch frames =>
    obtain ⟨_, _, _, eq⟩ := osSchedule_eq_with { s.k with rtosStarted := true }
    simp [serves, asks, work, frames, Frame.work, switchStep, eq, pendWork]
    omega
  | @isrSignal _ _ _ woken frames result =>
    obtain ⟨_, _, rfl⟩ := osSemaphoreSignal_eq_with result
    cases woken with
    | none => simp [serves, asks, work, frames, Frame.work, pendWork]
    | some _ => simp [serves, asks, work, frames, Frame.work, pendWork]; omega
  | nothing thread =>
    have idles : serves (s, a) = false := by
      cases a with
      | task =>
        cases pc : s.pc s.k.currentTask with
        | yield c =>
          have on := (Option.ite_none_right_eq_some.mp hstep).2
          simp only [taskStep, pc, Option.some.injEq] at on
          have moved := congrFun (congrArg System.pc on) s.k.currentTask
          simp [pc] at moved
        | _ => simp [serves, pc, Pc.yields]
      | call => rfl
      | _ => exact absurd (step_nothing thread hstep) (by simp [Action.inThread])
    rw [if_neg (by simp [idles])]
    omega
  | delay | release | trap => exact goOn_asks _ wf rfl rfl rfl rfl
  | init => exact goOn_asks _ wf (Init.apply_taskCount ..) (Init.apply_pendsv ..) rfl rfl
  | leave => exact goOn_asks (k := s.k) (p := .exit) [] wf rfl rfl rfl rfl
  | waitQueued _ _ _ result | waitTaken _ _ _ result =>
    obtain ⟨_, _, rfl⟩ := osSemaphoreWait_eq_with result
    exact goOn_asks _ wf rfl rfl rfl rfl
  | signal _ ref result =>
    obtain ⟨_, _, rfl⟩ := osSemaphoreSignal_eq_with result
    rcases ref with ⟨_, rfl, -⟩ | ⟨_, rfl, -, pc⟩
    · exact goOn_asks _ wf rfl rfl rfl rfl
    · exact goOn_asks _ wf rfl rfl rfl (by simp [serves, pc, Pc.yields])
  | own _ pc => exact goOn_asks _ wf rfl rfl rfl (by simp [serves, pc, Pc.yields])
  | ret _ pc => exact goOn_asks _ wf rfl rfl rfl (by simp [serves, pc, Pc.yields])
  | @yield c _ pc =>
    have moved := goOn_work (k := s.k.triggerPendsv) (p := .ret c) [] wf rfl
    simp [serves, asks, pc, Pc.yields, Pc.work, pendWork, Kernel.triggerPendsv] at moved ⊢
    omega

end step

/-- A task has returned from its function: interrupts are masked, and it spins. -/
structure Halts (s : System) : Prop where
  masked : s.primask = true → s.frames = [] ∧ ∃ t, s.pc t = .exit
  exit : ∀ t, s.pc t = .exit → s.primask = true

theorem Halts.stuck {s : System} (h : Halts s) (primask : s.primask = true) (a : Action) :
    step s a = none := by
  have frames := (h.masked primask).1
  cases a <;> simp [step, handlerStep, isrSignalStep, System.inThread, frames, primask]

theorem step_halts {s s' : System} {a : Action} (h : Halts s) (hstep : step s a = some s') :
    Halts s' := by
  have open_ : s.primask = false := by
    cases primask : s.primask with
    | false => rfl
    | true =>
      rw [h.stuck primask a] at hstep
      cases hstep
  have out : ∀ t, s.pc t ≠ .exit := fun t exit => by
    rw [h.exit t exit] at open_
    cases open_
  have goes : ∀ {p : Pc}, p ≠ .exit → ∀ t, Function.update s.pc s.k.currentTask p t ≠ .exit := by
    intro p stays t
    by_cases eq : t = s.k.currentTask
    · rw [eq, Function.update_self]; exact stays
    · rw [Function.update_of_ne eq]; exact out t
  have halts : ∀ u : System, u.primask = s.primask → (∀ t, u.pc t ≠ .exit) → Halts u := by
    intro u same stays
    refine ⟨fun primask => ?_, fun t exit => absurd exit (stays t)⟩
    rw [same, open_] at primask
    cases primask
  cases step_cases hstep with
  | sysTick | isr | pendSv | tickLeave | tick | isrYield | isrReturn | switch | isrSignal =>
    exact halts _ rfl out
  | nothing => exact h
  | leave thread =>
    exact ⟨fun _ => ⟨thread.frames, s.k.currentTask, Function.update_self ..⟩, fun _ _ => rfl⟩
  | delay | waitQueued | waitTaken | release | trap | init | yield | own =>
    exact halts _ rfl (goes (by simp))
  | @signal _ _ _ woken => exact halts _ rfl (goes (by cases woken <;> simp))
  | @ret c => exact halts _ rfl (goes (by rcases c with _ | (_ | _) | _ <;> simp [returnTo]))

theorem Reachable.halts {cfg : Config} {idle : TaskId} {s : System} (h : Reachable cfg idle s) :
    Halts s :=
  (h.induct (P := Halts) (fun s₀ hboot _ => by
      obtain ⟨-, pc, -, primask, -⟩ := boot_spec hboot h.some_task
      constructor
      · intro masked
        rw [primask] at masked
        cases masked
      · intro t exit
        rw [pc] at exit
        cases exit)
    fun _ _ _ _ halts hstep _ => step_halts halts hstep).2

theorem signal_defined {k : Kernel} (h : k.Queued) {r : SemRef} (made : k.sems r ≠ none) :
    osSemaphoreSignal k r ≠ none := by
  obtain ⟨s, hs⟩ := Option.ne_none_iff_exists'.mp made
  have hold := h.hold r s hs
  unfold osSemaphoreSignal
  rw [hs]
  dsimp only
  split
  · rename_i waiters
    cases first : s.waiting 0 with
    | some u => simp
    | none =>
      rw [hold.first, List.head?_eq_none_iff, ← hold.empty_iff] at first
      omega
  · simp

/-- No step of the begun work can be made: no handler is active, no switch is requested, and the
running task is the most urgent one, in its own code or before a step that it can make. What is left
is in calls that were preempted before their `trigger_pendsv()`; it goes on when they run again. -/
structure Settled (s : System) : Prop where
  thread : s.Thread
  elected : Elected s.k
  goes : s.pc s.k.currentTask ≠ .user → ∃ u, step s .task = some u
  still : ∀ a, serves (s, a) = true → step s a = none
  left : work s = callWork s.k.taskCount s.pc

theorem thread_still {s : System} (thread : s.Thread) (own : (s.pc s.k.currentTask).yields = false)
    (a : Action) (serving : serves (s, a) = true) : step s a = none := by
  cases a with
  | handler => simp only [step, handlerStep, thread.frames]
  | isrReturn => simp only [step, thread.frames]
  | pendSv => simp [step, thread.pendsv]
  | task =>
    rw [serves, own] at serving
    cases serving
  | _ => cases serving

theorem thread_left {s : System} (thread : s.Thread) : work s = callWork s.k.taskCount s.pc := by
  simp [work, pendWork, thread.frames, thread.pendsv]

/-- As long as interrupts are not masked for good, some step of the begun work can be made, or the
kernel has settled. -/
theorem serves_or_settled {cfg : Config} {idle : TaskId} {s : System} (h : Reachable cfg idle s)
    (open_ : s.primask = false) :
    (∃ a u, step s a = some u ∧ serves (s, a) = true) ∨ Settled s := by
  have inv := h.idleInv.inv
  cases frames : s.frames with
  | cons f rest =>
    left
    cases f with
    | sysTick pc =>
      refine ⟨.handler, ?_⟩
      cases pc <;> simp [step, handlerStep, frames, serves]
    | isr pc =>
      cases pc with
      | body => exact ⟨.isrReturn, by simp [step, frames, serves]⟩
      | yield => exact ⟨.handler, by simp [step, handlerStep, frames, serves]⟩
    | pendSv => exact ⟨.handler, by simp [step, handlerStep, frames, serves]⟩
  | nil =>
    cases pend : s.k.pendsv with
    | true => exact .inl ⟨.pendSv, by simp [step, open_, frames, pend, serves]⟩
    | false =>
      have started : s.k.rtosStarted = true := by
        by_contra not
        rcases inv.boot (by simpa using not) with due | due
        · rw [pend] at due; cases due
        · rw [frames] at due; cases due
      have thread : s.Thread := ⟨frames, pend, started, open_⟩
      have may := s.inThread_iff.mpr thread
      cases yields : (s.pc s.k.currentTask).yields with
      | true =>
        refine .inl ⟨.task, ?_⟩
        cases pc : s.pc s.k.currentTask <;> simp_all [step, taskStep, serves, Pc.yields]
      | false =>
        have at_ : ∀ c, s.pc s.k.currentTask ≠ .yield c := fun c pc => by
          rw [pc] at yields
          cases yields
        refine .inr ⟨thread, ⟨inv.wf.current_lt, inv.wf.index_eq, ?_, inv.wf.running, ?_⟩, ?_,
          thread_still thread yields, thread_left thread⟩
        · exact inv.thread_running thread rfl (at_ _) fun r => at_ _
        · exact h.covered.calm thread fun r => at_ _
        · intro inside
          simp only [step, may, if_true, taskStep]
          cases pc : s.pc s.k.currentTask with
          | user => exact absurd pc inside
          | yield c => exact absurd pc (at_ c)
          | unlock m =>
            have made : s.k.sems (.mutex m) ≠ none := by
              obtain ⟨tok, token⟩ := h.token m
              have taken := (token.claims _).mp (.inr (.inr pc))
              rw [Ne, token.made, taken]
              simp
            obtain ⟨⟨k, woken⟩, result⟩ :=
              Option.ne_none_iff_exists'.mp (signal_defined inv.queued made)
            simp only [signalStep, result]
            exact ⟨_, rfl⟩
          | ret | own | spin | exit => exact ⟨_, rfl⟩

/-- The begun work puts no task to sleep. -/
theorem serves_awake {idle : TaskId} {s u : System} {a : Action} (inv : IdleInv idle s)
    (hstep : step s a = some u) (work : serves (s, a) = true) : AwakeStep idle s a u :=
  ⟨hstep, step_awake inv.inv.wf inv.awake hstep fun op call => by rw [call] at work; cases work⟩

/-- In every run the handlers and the calls together make no more steps than were begun and have
been asked for since. Where the run has come to, a task has returned from its function and nothing
ever happens again, or some step of the begun work can be made, or none can and the most urgent task
runs. -/
theorem kernel_settles {cfg : Config} {idle : TaskId} {s t : System} {tr : List (System × Action)}
    (h : Reachable cfg idle s) (run : Run (AwakeStep idle) s tr t) :
    tr.countP serves + work t ≤ work s + (tr.map asks).sum ∧
    ((∃ i, t.pc i = .exit) ∧ (∀ a, step t a = none) ∨
      (∀ i, t.pc i ≠ .exit) ∧
        ((∃ a u, AwakeStep idle t a u ∧ serves (t, a) = true) ∨ Settled t)) := by
  obtain ⟨reachable, bound⟩ := run.amortized (P := Reachable cfg idle) work serves asks h
    fun t a u reachable hstep =>
      ⟨reachable.next hstep, step_work reachable.idleInv.inv.wf hstep.1⟩
  refine ⟨bound, ?_⟩
  have halts := reachable.halts
  cases primask : t.primask with
  | true => exact .inl ⟨(halts.masked primask).2, halts.stuck primask⟩
  | false =>
    refine .inr ⟨fun i exit => ?_, ?_⟩
    · rw [halts.exit i exit] at primask
      cases primask
    · rcases serves_or_settled reachable primask with ⟨a, u, hstep, work⟩ | settled
      · exact .inl ⟨a, u, serves_awake reachable.idleInv hstep work, work⟩
      · exact .inr settled

/-- The first tick of `main.c`: eleven steps up to the task that runs next. -/
theorem kernel_settles_tick : ∃ (s t : System) (tr : List (System × Action)),
    tr.countP serves = 11 ∧ work s = 0 ∧ 11 + work t ≤ (tr.map asks).sum := by
  let acts : List Action := .sysTick :: List.replicate 9 .handler ++ [.pendSv, .handler]
  obtain ⟨s, h, hp⟩ := reachable_of_exec mainConfig 3 [.pendSv, .handler]
    (fun s => decide (work s = 0 ∧ (visited step s acts).countP serves = 11) &&
      (exec step (fun _ _ t => decide (Awake 3 t.k)) s acts).isSome) (by decide) (by decide)
  simp only [Bool.and_eq_true, decide_eq_true_eq] at hp
  obtain ⟨⟨none, steps⟩, done⟩ := hp
  obtain ⟨t, hexec⟩ := Option.isSome_iff_exists.mp done
  have run := exec_awake hexec
  have bound := (kernel_settles h run).1
  rw [steps, none, Nat.zero_add] at bound
  exact ⟨s, t, _, steps, none, bound⟩

end Rtos
