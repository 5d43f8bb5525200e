import Rtos.Scheduling.Accounting
import Rtos.Scheduling.Progress

/-! Every switch has been asked for, with a tick or with a call. -/
namespace Rtos
open Lib

def Event.prompts : Event → Bool
  | .tick => true
  | .sleep _ _ => true
  | .enter _ _ => true
  | .signal _ _ => true
  | _ => false

/-- The ticks and the calls that can ask for a switch. -/
def prompted (log : List Event) : Nat := log.countP Event.prompts

/-- A handler that has been asked for a switch, and has not requested it or made it. -/
def Frame.request : Frame → Nat
  | .sysTick .enter => 0
  | .sysTick .leave => 0
  | .sysTick _ => 1
  | .isr .body => 0
  | .isr .yield => 1
  | .pendSv => 1

def yielding (n : Nat) (pc : TaskId → Pc) : Nat := ∑ i ∈ Finset.range n, (pc i).yields.toNat

/-- The switches that have been asked for and not been made. -/
def requests (s : System) : Nat :=
  (s.frames.map Frame.request).sum + yielding s.k.taskCount s.pc + s.k.pendsv.toNat

theorem prompted_append (log es : List Event) : prompted (log ++ es) = prompted log + prompted es :=
  List.countP_append

theorem prompted_signal (log : List Event) (r : SemRef) (signaller woken : Option TaskId) :
    prompted (signalEvents log r signaller woken) = 1 := by
  cases woken <;> rfl

section step
variable {s s' : System} {a : Action}

theorem goOn_requests {k : Kernel} {p : Pc} (es : List Event) (wf : s.k.Wf)
    (count : k.taskCount = s.k.taskCount) :
    requests (s.goOn k p es) + (s.pc s.k.currentTask).yields.toNat + s.k.pendsv.toNat =
      requests s + p.yields.toNat + k.pendsv.toNat := by
  have moved := sum_update (fun p : Pc => p.yields.toNat) s.pc wf.current_lt p
  simp only [requests, yielding, System.goOn_frames, System.goOn_k, System.goOn_pc, count]
  omega

/-- A task that goes on asks for a switch only with an event. -/
theorem goOn_prompted {k : Kernel} {p : Pc} {es : List Event} (wf : s.k.Wf)
    (count : k.taskCount = s.k.taskCount) (pendsv : k.pendsv = s.k.pendsv)
    (paid : p.yields.toNat ≤ prompted es) :
    requests (s.goOn k p es) + prompted s.log ≤ requests s + prompted (s.goOn k p es).log := by
  have moved := goOn_requests (p := p) es wf count
  rw [pendsv] at moved
  rw [System.goOn_log, prompted_append]
  omega

theorem tick_requests {k k' : Kernel} {pc pc' : TickPc} (tick : TickCase k pc k' pc') :
    Frame.request (.sysTick pc') + k'.pendsv.toNat ≤
      Frame.request (.sysTick pc) + k.pendsv.toNat + prompted (tickEvents pc) := by
  cases tick with
  | enter =>
    have one : prompted (tickEvents .enter) = 1 := rfl
    simp only [Frame.request, one]
    omega
  | pend =>
    simp only [Frame.request, Kernel.triggerPendsv, Bool.toNat_true]
    omega
  | asleep | awake | done | due | notDue | wake | charge | notStarted =>
    simp only [Frame.request, Kernel.setState, Kernel.setTask, chargeCurrent]
    omega

/-- A switch takes a request away, and only a tick or a call brings one. -/
theorem step_requests (wf : s.k.Wf) (hstep : step s a = some s') :
    (if Switches (s, a) then 1 else 0) + requests s' + prompted s.log ≤ requests s + prompted s'.log := by
  cases step_cases hstep with
  | sysTick | isr =>
    simp [Switches, requests, Frame.request]
  | pendSv _ frames pending =>
    simp [Switches, requests, frames, Frame.request, pending]
    omega
  | tickLeave frames | isrReturn frames =>
    simp [Switches, System.Switching, requests, frames, Frame.request]
  | @tick pc rest frames more =>
    have count : (tickStep s.k pc).1.taskCount = s.k.taskCount := by
      obtain ⟨_, _, _, eq⟩ := tickStep_eq_with s.k pc
      rw [eq]
    have fewer := tick_requests (tickStep_cases s.k more)
    simp [Switches, System.Switching, requests, frames, count, prompted_append]
    omega
  | isrYield frames =>
    simp [Switches, System.Switching, requests, frames, Frame.request, Kernel.triggerPendsv]
    omega
  | switch frames =>
    obtain ⟨_, _, _, eq⟩ := osSchedule_eq_with { s.k with rtosStarted := true }
    simp [Switches, System.Switching, requests, frames, Frame.request, switchStep, eq]
    omega
  | @isrSignal _ _ _ woken frames result =>
    obtain ⟨_, _, rfl⟩ := osSemaphoreSignal_eq_with result
    simp only [requests, frames, System.goOnAt_frames, System.goOnAt_k, System.goOnAt_pc,
      System.goOnAt_log, prompted_append, prompted_signal]
    cases woken with
    | none => simp [Switches, Frame.request]
    | some _ => simp [Switches, Frame.request]; omega
  | nothing thread =>
    rw [if_neg (not_switches thread)]
    omega
  | delay thread | release thread | trap thread =>
    rw [if_neg (not_switches thread), Nat.zero_add]
    exact goOn_prompted wf rfl rfl (by simp [Pc.yields, prompted, Event.prompts])
  | init thread =>
    rw [if_neg (not_switches thread), Nat.zero_add]
    exact goOn_prompted wf (Init.apply_taskCount ..) (Init.apply_pendsv ..)
      (by simp [Pc.yields, prompted, Event.prompts])
  | leave thread =>
    rw [if_neg (not_switches thread), Nat.zero_add]
    have none : Pc.exit.yields.toNat ≤ prompted [] := Nat.zero_le _
    have moved := goOn_prompted (k := s.k) wf rfl rfl none
    exact moved
  | waitQueued thread _ _ result | waitTaken thread _ _ result =>
    obtain ⟨_, _, rfl⟩ := osSemaphoreWait_eq_with result
    rw [if_neg (not_switches thread), Nat.zero_add]
    exact goOn_prompted wf rfl rfl (by simp [Pc.yields, prompted, Event.prompts])
  | @signal _ _ _ woken thread _ result =>
    obtain ⟨_, _, rfl⟩ := osSemaphoreSignal_eq_with result
    rw [if_neg (not_switches thread), Nat.zero_add]
    exact goOn_prompted wf rfl rfl (by rw [prompted_signal]; exact Bool.toNat_le _)
  | own thread =>
    rw [if_neg (not_switches thread), Nat.zero_add]
    exact goOn_prompted wf rfl rfl (by simp [Pc.yields, prompted, Event.prompts])
  | @ret c thread =>
    rw [if_neg (not_switches thread), Nat.zero_add]
    exact goOn_prompted wf rfl rfl (by rcases c with _ | (_ | _) | _ <;> simp [returnTo, Pc.yields])
  | @yield c thread pc =>
    have moved := goOn_requests (k := s.k.triggerPendsv) (p := .ret c) [] wf rfl
    rw [if_neg (not_switches thread)]
    simp [pc, Pc.yields, Kernel.triggerPendsv] at moved ⊢
    omega

end step

/-- The system switches only when it is asked to: each switch of a run answers a tick or one call of
`osDelay`, of `Wait` or of `Signal`, out of those still owed a switch before the run and those that
came in it. -/
theorem switches_requested {cfg : Config} {idle : TaskId} {s t : System}
    {tr : List (System × Action)} (h : Reachable cfg idle s) (run : Run (AwakeStep idle) s tr t) :
    switches tr + requests t + prompted s.log ≤ requests s + prompted t.log := by
  induction run with
  | nil => simp [switches]
  | @snoc tr t u a prior hstep ih =>
    have wf := (h.follow ⟨tr, prior⟩).idleInv.inv.wf
    have paid := step_requests wf hstep.1
    rw [switches_snoc]
    omega

/-- The first tick of `main.c` asks for one switch, and gets it. -/
theorem switches_requested_tick : ∃ (s t : System) (tr : List (System × Action)),
    switches tr = 1 ∧ requests s = 0 ∧ 1 + requests t + prompted s.log ≤ prompted t.log := by
  let acts : List Action := .sysTick :: List.replicate 9 .handler ++ [.pendSv, .handler]
  obtain ⟨s, h, hp⟩ := reachable_of_exec mainConfig 3 [.pendSv, .handler]
    (fun s => decide (requests s = 0 ∧ switches (visited step s acts) = 1) &&
      (exec step (fun _ _ t => decide (Awake 3 t.k)) s acts).isSome) (by decide) (by decide)
  simp only [Bool.and_eq_true, decide_eq_true_eq] at hp
  obtain ⟨⟨none, once⟩, done⟩ := hp
  obtain ⟨t, hexec⟩ := Option.isSome_iff_exists.mp done
  have run := exec_awake hexec
  have bound := switches_requested h run
  rw [once, none, Nat.zero_add] at bound
  exact ⟨s, t, _, once, none, bound⟩

end Rtos
