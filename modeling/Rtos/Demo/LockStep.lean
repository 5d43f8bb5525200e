import Rtos.Demo.Lull
import Rtos.Scheduling.Preemption
import Rtos.Scheduling.RoundRobin

/-! The led task and the consumer go in lock-step. The code of the tasks keeps the order of the
beats as long as the led task runs only while the consumer is queued, and strict priority sees
to that. -/
namespace Rtos
open Lib

/-- The beat that is due, where `queued` tells whether the consumer waits on `sem_blink`. -/
def App.due (g : App) (queued : Bool) : Beat :=
  if queued then if g.led = .signal then .hand else .raise
  else if g.consumer = .wait then .await else .serve

/-- A call on `sem_blink` queues the consumer or takes it out. -/
def queuedAfter (queued : Bool) : Option Op → Bool
  | some (.wait _) => true
  | some (.signal _) => false
  | _ => queued

/-- The data of `main.c` after these beats. -/
structure Tally (bs : List Beat) (queued : Bool) (g : App) : Prop where
  inStep : InStep bs (g.due queued)
  led_on : queued = false → g.led = .on
  at_load : queued = true → g.consumer = .load
  signals : g.semSignalCount = BitVec.ofNat 32 (bs.count .raise)
  consumes : g.semConsumeCount = BitVec.ofNat 32 (bs.count .serve)
  raised : ∀ v, g.led = .store v → v = g.semSignalCount + 1
  served : ∀ v, g.consumer = .store v → v = g.semConsumeCount + 1

/-- The calls that a task may be in. -/
def App.MayBeIn (g : App) (t : TaskId) (c : Call) : Prop :=
  match t with
  | 0 => c = .delay ∨ c = .signal (.sem 0) ∧ g.led = .on
  | 1 => c = .delay
  | 2 => c = .wait (.sem 0) ∧ g.consumer = .load
  | _ => False

/-- The kernel and the task agree on where the task stands. -/
def Fits (g : App) (t : TaskId) (pc : Pc) : Prop :=
  pc = .user ∨ ∃ c, (pc = .yield c ∨ pc = .ret c) ∧ g.MayBeIn t c

theorem Fits.mayBeIn {g : App} {t : TaskId} {pc : Pc} {c : Call} (h : Fits g t pc)
    (at_ : pc = .yield c ∨ pc = .ret c) : g.MayBeIn t c := by
  rcases h with user | ⟨c', at', may⟩
  · rcases at_ with eq | eq <;> rw [user] at eq <;> cases eq
  · rcases at_ with eq | eq <;> rcases at' with eq' | eq' <;> rw [eq] at eq' <;> cases eq' <;>
      exact may

/-- No task of `main.c` uses a mutex. -/
theorem Fits.no_mutex {g : App} {t : TaskId} {pc : Pc} (h : Fits g t pc) (m : Nat) :
    pc ≠ .own m ∧ pc ≠ .unlock m := by
  rcases h with rfl | ⟨c, rfl | rfl, -⟩ <;> simp

section code
variable {t : TaskId} {g g' : App} {op : Option Op}

theorem taskCode_cases (code : taskCode t g = some (op, g')) :
    (t = 0 ∧ taskLed g = (op, g')) ∨ (t = 1 ∧ taskCounter g = (op, g')) ∨
    (t = 2 ∧ taskConsumer g = (op, g')) ∨ (t = 3 ∧ taskIdle g = (op, g')) := by
  unfold taskCode at code
  split at code <;> simp_all

/-- A task moves its own program point only. -/
theorem taskCode_frame (code : taskCode t g = some (op, g')) :
    (t ≠ 0 → g'.led = g.led) ∧ (t ≠ 2 → g'.consumer = g.consumer) := by
  rcases taskCode_cases code with ⟨rfl, eq⟩ | ⟨rfl, eq⟩ | ⟨rfl, eq⟩ | ⟨rfl, eq⟩
  · unfold taskLed at eq
    split at eq <;> cases eq <;> simp
  · unfold taskCounter at eq
    split at eq <;> cases eq <;> simp
  · unfold taskConsumer at eq
    split at eq <;> cases eq <;> simp
  · cases eq; simp

/-- Every call of the four tasks, and where it returns to. -/
theorem taskCode_call {op : Op} (code : taskCode t g = some (some op, g')) :
    (∃ d, d ≠ 0 ∧ op = .delay d ∧ (t = 0 ∨ t = 1)) ∨
    (t = 2 ∧ op = .wait 0 ∧ g'.consumer = .load) ∨ (t = 0 ∧ op = .signal 0 ∧ g'.led = .on) := by
  rcases taskCode_cases code with ⟨rfl, eq⟩ | ⟨rfl, eq⟩ | ⟨rfl, eq⟩ | ⟨rfl, eq⟩
  · unfold taskLed at eq
    split at eq <;> cases eq <;> simp
  · unfold taskCounter at eq
    split at eq
    · cases eq
    · cases eq
    · cases eq
      exact .inl ⟨10, by decide, rfl, .inr rfl⟩
  · unfold taskConsumer at eq
    split at eq
    · cases eq; simp
    · cases eq
    · cases eq
  · cases eq

theorem Fits.frame {u : TaskId} {pc : Pc} (h : Fits g u pc)
    (code : taskCode t g = some (op, g')) (other : u ≠ t) : Fits g' u pc := by
  obtain ⟨led, consumer⟩ := taskCode_frame code
  refine h.imp_right fun ⟨c, at_, may⟩ => ⟨c, at_, ?_⟩
  rcases u with _ | _ | _ | u
  · simp only [App.MayBeIn, led other.symm] at may ⊢; exact may
  · exact may
  · simp only [App.MayBeIn, consumer other.symm] at may ⊢; exact may
  · exact may

end code

namespace Tally
variable {bs : List Beat} {queued : Bool} {t : TaskId} {g g' : App} {op : Option Op}

theorem quiet (h : Tally bs queued g) (beat : g.beat t = none)
    (due : g'.due queued = g.due queued) (led_on : queued = false → g'.led = .on)
    (at_load : queued = true → g'.consumer = .load)
    (signals : g'.semSignalCount = g.semSignalCount)
    (consumes : g'.semConsumeCount = g.semConsumeCount)
    (raised : ∀ v, g'.led = .store v → v = g.semSignalCount + 1)
    (served : ∀ v, g'.consumer = .store v → v = g.semConsumeCount + 1) :
    Tally (bs ++ (g.beat t).toList) queued g' := by
  rw [beat, Option.toList_none, List.append_nil]
  constructor
  · rw [due]; exact h.inStep
  · exact led_on
  · exact at_load
  · rw [signals]; exact h.signals
  · rw [consumes]; exact h.consumes
  · rw [signals]; exact raised
  · rw [consumes]; exact served

theorem onBeat {b : Beat} {queued' : Bool} (h : Tally bs queued g) (beat : g.beat t = some b)
    (due : g.due queued = b) (next : g'.due queued' = b.next)
    (led_on : queued' = false → g'.led = .on) (at_load : queued' = true → g'.consumer = .load)
    (signals : g'.semSignalCount = g.semSignalCount + if b = .raise then 1 else 0)
    (consumes : g'.semConsumeCount = g.semConsumeCount + if b = .serve then 1 else 0)
    (raised : ∀ v, g'.led = .store v → v = g'.semSignalCount + 1)
    (served : ∀ v, g'.consumer = .store v → v = g'.semConsumeCount + 1) :
    Tally (bs ++ (g.beat t).toList) queued' g' := by
  have grown : ∀ c : Beat, BitVec.ofNat 32 ((bs ++ [b]).count c) =
      BitVec.ofNat 32 (bs.count c) + if b = c then 1 else 0 := by
    intro c
    rw [List.count_append, BitVec.ofNat_add, List.count_singleton]
    simp only [beq_iff_eq]
    split <;> rfl
  rw [beat, Option.toList_some]
  constructor
  · rw [next, ← due]
    exact .beat h.inStep
  · exact led_on
  · exact at_load
  · rw [signals, h.signals, grown]
  · rw [consumes, h.consumes, grown]
  · exact raised
  · exact served

/-- The code of the tasks keeps the order of the beats. -/
theorem code (h : Tally bs queued g) (code : taskCode t g = some (op, g'))
    (others : t ≠ 2 → queued = true) (consumer : t = 2 → queued = false) :
    Tally (bs ++ (g.beat t).toList) (queuedAfter queued op) g' := by
  rcases taskCode_cases code with ⟨rfl, eq⟩ | ⟨rfl, eq⟩ | ⟨rfl, eq⟩ | ⟨rfl, eq⟩
  · obtain rfl := others (by decide)
    cases at_ : g.led with
    | on | delayOn | off | delayOff | load =>
      simp only [taskLed, at_] at eq
      cases eq
      exact h.quiet (by simp [App.beat, LedPc.beat, at_]) (by simp [App.due, at_]) (by simp)
        h.at_load rfl rfl (by simp) h.served
    | store v =>
      simp only [taskLed, at_] at eq
      cases eq
      exact h.onBeat (b := .raise) (by simp [App.beat, LedPc.beat, at_]) (by simp [App.due, at_])
        (by simp [App.due, queuedAfter, Beat.next]) (by simp [queuedAfter]) h.at_load
        (by simpa using h.raised v at_) (by simp) (by simp) h.served
    | signal =>
      simp only [taskLed, at_] at eq
      cases eq
      have load := h.at_load rfl
      exact h.onBeat (b := .hand) (by simp [App.beat, LedPc.beat, at_]) (by simp [App.due, at_])
        (by simp [App.due, queuedAfter, Beat.next, load]) (by simp) (by simp [queuedAfter]) (by simp)
        (by simp) (by simp) h.served
  · cases at_ : g.counter with
    | load | store | delay =>
      simp only [taskCounter, at_] at eq
      cases eq
      exact h.quiet rfl rfl h.led_on h.at_load rfl rfl h.raised h.served
  · obtain rfl := consumer rfl
    have on := h.led_on rfl
    cases at_ : g.consumer with
    | wait =>
      simp only [taskConsumer, at_] at eq
      cases eq
      exact h.onBeat (b := .await) (by simp [App.beat, ConsumerPc.beat, at_])
        (by simp [App.due, at_]) (by simp [App.due, queuedAfter, Beat.next, on]) (fun _ => on)
        (by simp) (by simp) (by simp) h.raised (by simp)
    | load =>
      simp only [taskConsumer, at_] at eq
      cases eq
      exact h.quiet (by simp [App.beat, ConsumerPc.beat, at_]) (by simp [App.due, at_]) h.led_on
        (by simp) rfl rfl h.raised (by simp)
    | store v =>
      simp only [taskConsumer, at_] at eq
      cases eq
      exact h.onBeat (b := .serve) (by simp [App.beat, ConsumerPc.beat, at_])
        (by simp [App.due, at_]) (by simp [App.due, queuedAfter, Beat.next]) h.led_on
        (by simp [queuedAfter]) (by simp) (by simpa using h.served v at_) h.raised (by simp)
  · cases eq
    exact h.quiet rfl rfl h.led_on h.at_load rfl rfl h.raised h.served

end Tally

/-- Interrupts move no task and touch no semaphore: `main.c` has no handler that signals. -/
theorem step_interrupt {s s' : System} {a : Action} (hstep : step s a = some s')
    (kind : a = .sysTick ∨ a = .pendSv ∨ a = .handler) :
    s'.k.sems = s.k.sems ∧ s'.pc = s.pc := by
  cases step_cases hstep with
  | sysTick | pendSv | tickLeave | isrYield | nothing => exact ⟨rfl, rfl⟩
  | tick => exact ⟨tickStep_sems .., rfl⟩
  | switch => exact ⟨osSchedule_sems _, rfl⟩
  | signal _ ref => rcases ref with ⟨_, rfl, -⟩ | ⟨_, rfl, -⟩ <;> simp at kind
  | isr | isrSignal | isrReturn | delay | waitQueued | waitTaken | release | trap | init | leave |
    yield | ret | own => simp at kind

theorem App.MayBeIn.returns {g : App} {t u : TaskId} {c : Call} (h : g.MayBeIn t c)
    (log : List Event) : (returnTo u log c).1 = .user := by
  rcases t with _ | _ | _ | t
  · rcases h with rfl | ⟨rfl, -⟩ <;> rfl
  · cases h; rfl
  · obtain ⟨rfl, -⟩ := h; rfl
  · exact h.elim

/-- A task of `main.c` that goes on in the kernel ends its call. -/
theorem step_task {s s' : System} {g : App} (hstep : step s .task = some s')
    (fits : Fits g s.k.currentTask (s.pc s.k.currentTask)) :
    s'.k.sems = s.k.sems ∧
    ∃ p, s'.pc = Function.update s.pc s.k.currentTask p ∧ Fits g s.k.currentTask p := by
  cases step_cases hstep with
  | nothing => exact ⟨rfl, _, (Function.update_eq_self ..).symm, fits⟩
  | @yield c _ pc => exact ⟨rfl, .ret c, rfl, .inr ⟨c, .inr rfl, fits.mayBeIn (.inl pc)⟩⟩
  | ret _ pc => exact ⟨rfl, _, rfl, .inl ((fits.mayBeIn (.inr pc)).returns s.log)⟩
  | own _ pc => exact absurd pc (fits.no_mutex _).1
  | signal _ ref =>
    rcases ref with ⟨_, eq, -⟩ | ⟨m, -, -, pc⟩
    · cases eq
    · exact absurd pc (fits.no_mutex m).2

section call
variable {s s' : System} {j : Nat} {sem : Semaphore}

theorem step_delay {d : Word} (hstep : step s (.call (.delay d)) = some s') (pos : d ≠ 0) :
    s'.k = markSleeping s.k d ∧ s'.pc = Function.update s.pc s.k.currentTask (.yield .delay) := by
  have eq := (Option.ite_none_right_eq_some.mp hstep).2
  simp only [callStep, if_neg pos, Option.some.injEq] at eq
  subst eq
  exact ⟨rfl, rfl⟩

theorem step_wait (hs : s.k.sems (.sem j) = some sem) (none : sem.count ≤ 0)
    (hstep : step s (.call (.wait j)) = some s') :
    s'.k = s.k.enqueue (.sem j) sem s.k.currentTask ∧
    s'.pc = Function.update s.pc s.k.currentTask (.yield (.wait (.sem j))) := by
  have eq := (Option.ite_none_right_eq_some.mp hstep).2
  simp only [callStep, waitStep] at eq
  split at eq
  · cases eq
  all_goals
    rename_i k result
    obtain ⟨sem', hs', ⟨flag, free, -⟩ | ⟨flag, -, -, rfl⟩⟩ := osSemaphoreWait_effect result
    all_goals
      obtain rfl : sem = sem' := Option.some.inj (hs.symm.trans hs')
  · cases flag
  · cases Option.some.inj eq
    exact ⟨rfl, rfl⟩
  · omega
  · cases flag

theorem step_signal {u : TaskId} {q : List TaskId} (queued : s.k.Queued)
    (hs : s.k.sems (.sem j) = some sem) (hq : s.k.queue (.sem j) = u :: q)
    (hstep : step s (.call (.signal j)) = some s') :
    s'.k = s.k.dequeue (.sem j) sem u ∧
    s'.pc = Function.update s.pc s.k.currentTask (.yield (.signal (.sem j))) := by
  have eq := (Option.ite_none_right_eq_some.mp hstep).2
  simp only [callStep, signalStep] at eq
  split at eq
  · cases eq
  · rename_i k woken result
    obtain ⟨sem', hs', ⟨v, q', rfl, hq', rfl⟩ | ⟨-, empty, -⟩⟩ :=
      osSemaphoreSignal_effect queued result
    · obtain rfl : sem = sem' := Option.some.inj (hs.symm.trans hs')
      cases hq.symm.trans hq'
      cases Option.some.inj eq
      exact ⟨rfl, rfl⟩
    · rw [empty] at hq; cases hq

end call

/-- The joint invariant of the kernel and the four tasks. -/
structure Paced (n : Nat) (bs : List Beat) (queued : Bool) (d : Demo) : Prop where
  reachable : Reachable (demoConfig n) 3 d.sys
  fits : ∀ t, Fits d.app t (d.sys.pc t)
  sem : ∃ sem, d.sys.k.sems (.sem 0) = some sem ∧ sem.count = 0
  queue : d.sys.k.queue (.sem 0) = if queued then [2] else []
  tally : Tally bs queued d.app

theorem consumer_highest : ∀ (_ : 2 < mainTasks.length) t (_ : t < mainTasks.length), t ≠ 2 →
    mainTasks[t].priority < mainTasks[2].priority := by
  decide

namespace Paced
variable {n : Nat} {bs : List Beat} {queued : Bool} {d d' : Demo} {a : DemoAction}

theorem consumer_created (h : Paced n bs queued d) : 2 < d.sys.k.taskCount := by
  have count : d.sys.k.taskCount = 4 := h.reachable.tasks.1
  rw [count]; decide

theorem consumer_awake (h : Paced n bs false d) :
    d.sys.k.state 2 = .ready ∨ d.sys.k.state 2 = .running := by
  have inv := h.reachable.idleInv.inv
  have created := h.consumer_created
  have call : ∀ c, d.sys.pc 2 = .yield c ∨ d.sys.pc 2 = .ret c → c = .wait (.sem 0) :=
    fun c at_ => ((h.fits 2).mayBeIn at_).1
  cases state : d.sys.k.state 2 with
  | ready => exact .inl rfl
  | running => exact .inr rfl
  | sleeping => cases call .delay (inv.sleeping_pc 2 created state)
  | blocked =>
    obtain ⟨r, mem⟩ := (inv.queued.blocked 2 created).mp state
    cases call (.wait r) (inv.queue_pc r 2 mem)
    rw [h.queue] at mem
    cases mem

/-- While another task executes, the consumer is queued. -/
theorem queued_of_other (h : Paced n bs queued d) (thread : d.sys.Thread)
    (other : d.sys.k.currentTask ≠ 2)
    (pc : ∀ r, d.sys.pc d.sys.k.currentTask ≠ .yield (.signal r)) : queued = true := by
  have inv := h.reachable.idleInv.inv
  obtain ⟨count, prio⟩ := h.reachable.tasks
  by_contra away
  rw [Bool.not_eq_true] at away
  subst away
  have created := h.consumer_created
  have ready : d.sys.k.state 2 = .ready :=
    h.consumer_awake.resolve_right fun run => other (inv.wf.running 2 created run).symm
  refine h.reachable.covered.calm thread pc ⟨2, created, ready, ?_⟩
  have current := inv.wf.current_lt
  rw [count] at current
  rw [prio _ current, prio 2 (show 2 < mainTasks.length by decide)]
  exact consumer_highest _ _ current other

theorem queued_of_user (h : Paced n bs queued d) (thread : d.sys.Thread) (user : d.InUser)
    (other : d.sys.k.currentTask ≠ 2) : queued = true := by
  refine h.queued_of_other thread other fun r yield => ?_
  rw [Demo.InUser, yield] at user
  cases user

theorem not_queued (h : Paced n bs queued d) (thread : d.sys.Thread) (user : d.InUser)
    (consumer : d.sys.k.currentTask = 2) : queued = false := by
  have inv := h.reachable.idleInv.inv
  have run := inv.thread_running thread user (by simp) (by simp)
  have out := inv.queued.not_mem inv.wf.current_lt (by rw [run]; simp) (.sem 0)
  by_contra stays
  rw [Bool.not_eq_false] at stays
  subst stays
  rw [h.queue, consumer] at out
  exact out List.mem_cons_self

/-- In the return from its signal, the led task has counted no further one. -/
theorem due_of_ret (h : Paced n bs true d) (ret : d.sys.pc 0 = .ret (.signal (.sem 0))) :
    d.app.due true = .raise := by
  have may := (h.fits 0).mayBeIn (.inr ret)
  obtain eq | ⟨-, on⟩ := may
  · cases eq
  · simp [App.due, on]

/-- The kernel does nothing to the hand-over on its own. -/
theorem quiet {s : System} (h : Paced n bs queued d) (reachable : Reachable (demoConfig n) 3 s)
    (sems : s.k.sems = d.sys.k.sems) (fits : ∀ t, Fits d.app t (s.pc t)) :
    Paced n bs queued { d with sys := s } := by
  constructor
  · exact reachable
  · exact fits
  · show ∃ sem, s.k.sems (.sem 0) = some sem ∧ sem.count = 0
    rw [sems]; exact h.sem
  · exact (Kernel.queue_congr (congrFun sems _)).trans h.queue
  · exact h.tally

/-- A call queues the consumer, or takes it out of the queue, or does neither. -/
theorem call_effect {op : Op} {g : App} {s : System} (h : Paced n bs queued d)
    (code : taskCode d.sys.k.currentTask d.app = some (some op, g))
    (others : d.sys.k.currentTask ≠ 2 → queued = true)
    (consumer : d.sys.k.currentTask = 2 → queued = false)
    (hstep : step d.sys (.call op) = some s) :
    (∃ sem, s.k.sems (.sem 0) = some sem ∧ sem.count = 0) ∧
    s.k.queue (.sem 0) = (if queuedAfter queued (some op) then [2] else []) ∧
    ∃ p, s.pc = Function.update d.sys.pc d.sys.k.currentTask p ∧ Fits g d.sys.k.currentTask p := by
  have inv := h.reachable.idleInv.inv
  obtain ⟨sem, hs, zero⟩ := h.sem
  rcases taskCode_call code with ⟨_, pos, rfl, caller⟩ | ⟨caller, rfl, load⟩ | ⟨caller, rfl, on⟩
  · obtain ⟨kernel, pc⟩ := step_delay hstep pos
    rw [kernel]
    refine ⟨⟨sem, hs, zero⟩, h.queue, _, pc, .inr ⟨.delay, .inl rfl, ?_⟩⟩
    rcases caller with eq | eq <;> rw [eq]
    · exact .inl rfl
    · rfl
  · obtain ⟨kernel, pc⟩ := step_wait hs zero.le hstep
    obtain rfl := consumer caller
    have set := Kernel.enqueue_sems d.sys.k (.sem 0) (.sem 0) sem d.sys.k.currentTask
    rw [if_pos rfl] at set
    rw [kernel]
    refine ⟨⟨_, set, zero⟩, ?_, _, pc, .inr ⟨_, .inl rfl, ?_⟩⟩
    · rw [inv.queued.queue_enqueue hs, if_pos rfl, h.queue, caller]; rfl
    · rw [caller]; exact ⟨rfl, load⟩
  · obtain rfl := others (by rw [caller]; decide)
    obtain ⟨kernel, pc⟩ := step_signal inv.queued hs h.queue hstep
    have set := Kernel.dequeue_sems d.sys.k (.sem 0) (.sem 0) sem 2
    rw [if_pos rfl] at set
    rw [kernel]
    refine ⟨⟨_, set, zero⟩, ?_, _, pc, .inr ⟨_, .inl rfl, ?_⟩⟩
    · rw [inv.queued.queue_dequeue hs h.queue, if_pos rfl]; rfl
    · rw [caller]; exact .inr ⟨rfl, on⟩

/-- One step keeps the invariant, and its beat is the one that is due. -/
theorem next (h : Paced n bs queued d) (hstep : demoStep d a = some d') :
    ∃ queued', Paced n (bs ++ (d.beat a).toList) queued' d' := by
  have reachable := demoStep_reachable h.reachable hstep
  cases demoStep_cases hstep with
  | interrupt other kind hs =>
    obtain ⟨sems, pc⟩ := step_interrupt hs kind
    have silent : d.beat a = none := if_neg fun beat => other beat.1
    rw [silent, Option.toList_none, List.append_nil]
    exact ⟨queued, h.quiet reachable sems (by rw [pc]; exact h.fits)⟩
  | @kernel s thread inside hs =>
    obtain ⟨sems, p, pc, fits⟩ := step_task hs (h.fits _)
    have silent : d.beat .thread = none := if_neg fun beat => inside beat.2
    rw [silent, Option.toList_none, List.append_nil]
    refine ⟨queued, h.quiet reachable sems fun t => ?_⟩
    rw [pc]
    by_cases eq : t = d.sys.k.currentTask
    · rw [eq, Function.update_self]; exact fits
    · rw [Function.update_of_ne eq]; exact h.fits t
  | @own g thread user code =>
    have beat : d.beat .thread = d.app.beat d.sys.k.currentTask := if_pos ⟨rfl, user⟩
    rw [beat]
    refine ⟨queued, reachable, fun t => ?_, h.sem, h.queue,
      h.tally.code code (h.queued_of_user thread user) (h.not_queued thread user)⟩
    by_cases eq : t = d.sys.k.currentTask
    · rw [eq]; exact .inl user
    · exact (h.fits t).frame code eq
  | @call op g s thread user code hs =>
    have beat : d.beat .thread = d.app.beat d.sys.k.currentTask := if_pos ⟨rfl, user⟩
    have others := h.queued_of_user thread user
    have consumer := h.not_queued thread user
    obtain ⟨sem, queue, p, pc, fits⟩ := h.call_effect code others consumer hs
    rw [beat]
    refine ⟨_, reachable, fun t => ?_, sem, queue, h.tally.code code others consumer⟩
    show Fits g t (s.pc t)
    rw [pc]
    by_cases eq : t = d.sys.k.currentTask
    · rw [eq, Function.update_self]; exact fits
    · rw [Function.update_of_ne eq]; exact (h.fits t).frame code eq

end Paced

theorem boot_paced {n : Nat} {d : Demo} (h : demoBoot n = some d) : Paced n [] false d := by
  obtain ⟨s, hboot, rfl⟩ := Option.map_eq_some_iff.mp h
  obtain ⟨booted, pc, -⟩ := boot_spec hboot (show 0 < mainTasks.length by decide)
  constructor
  · exact ⟨s, hboot, show 3 < mainTasks.length by decide, Reach.refl _ _⟩
  · intro t
    show Fits resetApp t (s.pc t)
    rw [pc]; exact .inl rfl
  · exact ⟨semInit 0, booted.sems (.sem 0 0) List.mem_cons_self, rfl⟩
  · exact booted.queue _
  · exact ⟨.start, fun _ => rfl, by simp, rfl, rfl, by simp [resetApp], by simp [resetApp]⟩

theorem run_paced {n : Nat} {d₀ d : Demo} {tr : List (Demo × DemoAction)}
    (hboot : demoBoot n = some d₀) (run : Run DemoStep d₀ tr d) :
    ∃ queued, Paced n (beats tr) queued d := by
  induction run with
  | nil => exact ⟨false, boot_paced hboot⟩
  | @snoc tr t u a _ hstep ih =>
    obtain ⟨queued, paced⟩ := ih
    have split : beats (tr ++ [(t, a)]) = beats tr ++ (t.beat a).toList := by
      simp only [beats, List.filterMap_append, List.filterMap_cons, List.filterMap_nil]
      cases t.beat a <;> rfl
    rw [split]
    exact paced.next hstep.1

/-- The call `osSemaphoreSignal(&sem_blink)` of `task_led` returns. -/
def SignalReturns (d d' : Demo) : Prop :=
  demoStep d .thread = some d' ∧ d.sys.k.currentTask = 0 ∧ d.sys.pc 0 = .ret (.signal (.sem 0))

theorem SignalReturns.same {d d' : Demo} (h : SignalReturns d d') :
    d.sys.Thread ∧ d'.app = d.app ∧ d'.sys.k = d.sys.k := by
  obtain ⟨hstep, led, ret⟩ := h
  have pc : d.sys.pc d.sys.k.currentTask = .ret (.signal (.sem 0)) := by rw [led]; exact ret
  cases demoStep_cases hstep with
  | interrupt other => exact absurd rfl other
  | own _ user | call _ user => rw [Demo.InUser, pc] at user; cases user
  | kernel thread _ hs =>
    refine ⟨thread, rfl, ?_⟩
    cases step_cases hs with
    | nothing | ret => rfl
    | yield _ at_ | own _ at_ => rw [pc] at at_; cases at_
    | signal _ ref =>
      rcases ref with ⟨_, eq, -⟩ | ⟨_, -, -, at_⟩
      · cases eq
      · rw [pc] at at_; cases at_

/-- The acceptance check of `main.c`: the two counters differ by the signal in flight at most, and
when the led task returns from its signal, the consumer has counted every signal and is back in
the queue. -/
theorem lock_step {n : Nat} {d₀ d : Demo} {tr : List (Demo × DemoAction)}
    (hboot : demoBoot n = some d₀) (run : Run DemoStep d₀ tr d) :
    (d.app.semSignalCount - d.app.semConsumeCount = 0 ∨
      d.app.semSignalCount - d.app.semConsumeCount = 1) ∧
    ∀ d', SignalReturns d d' →
      d'.app.semSignalCount = d'.app.semConsumeCount ∧
      (beats tr).count .serve = (beats tr).count .hand ∧
      d'.sys.k.queue (.sem 0) = [2] ∧ d'.sys.k.state 2 = .blocked := by
  obtain ⟨queued, paced⟩ := run_paced hboot run
  have tally := paced.tally
  have difference := tally.inStep.difference (w := 32)
  rw [← tally.signals, ← tally.consumes] at difference
  refine ⟨?_, fun d' returns => ?_⟩
  · rw [difference]
    cases d.app.due queued
    · exact .inl rfl
    · exact .inl rfl
    · exact .inr rfl
    · exact .inr rfl
  · obtain ⟨thread, app, kernel⟩ := returns.same
    obtain ⟨-, led, ret⟩ := returns
    have pc : d.sys.pc d.sys.k.currentTask = .ret (.signal (.sem 0)) := by rw [led]; exact ret
    obtain rfl := paced.queued_of_other thread (by rw [led]; decide) (by simp [pc])
    have queue : d.sys.k.queue (.sem 0) = [2] := paced.queue
    have blocked := paced.reachable.idleInv.inv.queued.state_of_mem
      (queue ▸ List.mem_cons_self : 2 ∈ d.sys.k.queue (.sem 0))
    obtain ⟨raised, handed⟩ := tally.inStep.counts
    rw [paced.due_of_ret ret] at raised handed
    rw [app, kernel]
    refine ⟨?_, handed.symm, queue, blocked⟩
    rw [tally.signals, tally.consumes, raised]; rfl

/-- Let `n` ticks pass if every sleeper has one more left. -/
def Demo.sleepOn (d : Demo) (n : Nat) : Option Demo :=
  if d.sys.primask = false ∧ d.sys.frames = [] ∧ d.sys.k.rtosStarted = true ∧
      ∀ t < d.sys.k.taskCount, d.sys.k.state t = .sleeping →
        (d.sys.k.taskPool t).wakeTick = d.sys.k.sysTick + BitVec.ofNat 32 (n + 1) then
    some (d.afterTicks n)
  else none

def Demo.play (d : Demo) (as : List DemoAction) : Option Demo :=
  exec demoStep (fun _ _ _ => true) d as

theorem Demo.sleepOn_reach {d₀ d d' : Demo} {n : Nat} (reach : Reach DemoStep d₀ d)
    (h : d.sleepOn n = some d') (small : n < 2 ^ 31) : Reach DemoStep d₀ d' := by
  obtain ⟨⟨primask, frames, started, sleepers⟩, eq⟩ := Option.ite_none_right_eq_some.mp h
  cases eq
  exact ticks_pass reach primask frames started n
    (lull_of_sleepers (Nat.lt_succ_self n) small sleepers)

theorem Demo.play_run {d d' : Demo} {as : List DemoAction} (h : d.play as = some d') :
    Run DemoStep d (visited demoStep d as) d' :=
  (exec_run h).mono fun _ _ _ hstep => ⟨hstep.1, trivial⟩

theorem Demo.play_reach {d₀ d d' : Demo} {as : List DemoAction} (reach : Reach DemoStep d₀ d)
    (h : d.play as = some d') : Reach DemoStep d₀ d' := by
  obtain ⟨tr, run⟩ := reach
  exact ⟨_, run.append (Demo.play_run h)⟩

def takeSwitch : List DemoAction := [.pendSv, .handler]

/-- A tick at which nobody is due ends a time slice. -/
def takeSlice : List DemoAction := .sysTick :: List.replicate 9 .handler ++ takeSwitch

/-- The last tick of the led task's delay, and slices with the counter task until the call
returns. -/
def delayEnds : List DemoAction :=
  .sysTick :: List.replicate 11 .handler ++ takeSwitch ++ takeSlice ++ [.thread] ++ takeSwitch ++
    takeSlice ++ [.thread]

/-- The first blink, from the first dispatch to the return from the signal. -/
def blink : Option Demo :=
  (demoBoot 0).bind fun d =>
  (d.play (takeSwitch ++ [.thread, .thread] ++ takeSwitch ++ [.thread, .thread])).bind fun d =>
  (d.sleepOn 499).bind fun d =>
  (d.play (delayEnds ++ [.thread, .thread])).bind fun d =>
  (d.sleepOn 499).bind fun d =>
  d.play (delayEnds ++ [.thread, .thread, .thread, .thread] ++ takeSwitch ++
    [.thread, .thread, .thread, .thread, .thread] ++ takeSwitch)

theorem lock_step_blink : ∃ d d' : Demo, SignalReturns d d' ∧ d'.app.semSignalCount = 1 ∧
    d'.app.semSignalCount = d'.app.semConsumeCount ∧ d'.sys.k.queue (.sem 0) = [2] := by
  have trace : blink.any (fun d => d.sys.k.currentTask = 0 ∧
      d.sys.pc 0 = .ret (.signal (.sem 0)) ∧
      (demoStep d .thread).any fun d' => d'.app.semSignalCount = 1) = true := by decide +kernel
  obtain ⟨d, played, hp⟩ := (Option.any_eq_true _ _).mp trace
  obtain ⟨current, pc, returns⟩ := of_decide_eq_true hp
  obtain ⟨d', hstep, one⟩ := (Option.any_eq_true _ _).mp returns
  rw [blink] at played
  obtain ⟨d₀, hboot, played⟩ := Option.bind_eq_some_iff.mp played
  obtain ⟨d₁, start, played⟩ := Option.bind_eq_some_iff.mp played
  obtain ⟨d₂, on, played⟩ := Option.bind_eq_some_iff.mp played
  obtain ⟨d₃, half, played⟩ := Option.bind_eq_some_iff.mp played
  obtain ⟨d₄, off, last⟩ := Option.bind_eq_some_iff.mp played
  have first := Demo.sleepOn_reach (Demo.play_reach (Reach.refl _ _) start) on (by decide)
  have second := Demo.sleepOn_reach (Demo.play_reach first half) off (by decide)
  obtain ⟨tr, run⟩ := Demo.play_reach second last
  have signalled : SignalReturns d d' := ⟨hstep, current, pc⟩
  obtain ⟨equal, -, queue, -⟩ := (lock_step hboot run).2 d' signalled
  exact ⟨d, d', signalled, of_decide_eq_true one, equal, queue⟩

end Rtos
