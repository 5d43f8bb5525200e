import Rtos.Kernel.Queue
import Rtos.System.Cases
import Rtos.Lib.Run

/-! The invariant of every run in which `os_schedule` always finds a task. It ties the state
field of a task to its program point, keeps the handlers nested, and says why a current task
that is not running is about to be switched out. -/
namespace Rtos
open Lib

theorem Kernel.Wf.congr {k k' : Kernel} (h : k.Wf) (count : k'.taskCount = k.taskCount)
    (current : k'.currentTask = k.currentTask)
    (index : k'.currentTaskIndex = k.currentTaskIndex)
    (running : ∀ t, k'.state t = .running → k.state t = .running) : k'.Wf := by
  constructor
  · rw [count]; exact h.count_le
  · rw [count, current]; exact h.current_lt
  · rw [current, index]; exact h.index_eq
  · intro t ht run
    rw [count] at ht
    rw [current]; exact h.running t ht (running t run)

theorem Kernel.Wf.started {k : Kernel} (h : k.Wf) (b : Bool) :
    Kernel.Wf { k with rtosStarted := b } :=
  h.congr rfl rfl rfl fun _ run => run

theorem wait_wf {k k' : Kernel} {r : SemRef} {queued : Bool} (h : k.Wf)
    (result : osSemaphoreWait k r = some (k', queued)) : k'.Wf := by
  obtain ⟨s, -, ⟨-, -, rfl⟩ | ⟨-, -, -, rfl⟩⟩ := osSemaphoreWait_effect result
  · exact h.congr rfl rfl rfl fun _ run => run
  · refine h.congr rfl rfl rfl fun t run => ?_
    rw [Kernel.enqueue_state] at run
    split at run
    · cases run
    · exact run

theorem signal_wf {k k' : Kernel} {r : SemRef} {woken : Option TaskId} (h : k.Wf)
    (result : osSemaphoreSignal k r = some (k', woken)) : k'.Wf := by
  obtain ⟨s, -, ⟨u, -, -, -, rfl⟩ | ⟨-, -, rfl⟩⟩ := osSemaphoreSignal_cases result
  · refine h.congr rfl rfl rfl fun t run => ?_
    rw [Kernel.state_setState] at run
    split at run
    · cases run
    · exact run
  · exact h.congr rfl rfl rfl fun _ run => run

theorem tickStep_wf {k k' : Kernel} {pc pc' : TickPc} (h : k.Wf) (tick : TickCase k pc k' pc') :
    k'.Wf := by
  cases tick with
  | asleep | awake | done | due | notDue | notStarted => exact h
  | enter | pend => exact h.congr rfl rfl rfl fun _ run => run
  | wake =>
    refine h.congr rfl rfl rfl fun t run => ?_
    rw [Kernel.state_setState] at run
    split at run
    · cases run
    · exact run
  | charge => exact h.congr rfl rfl rfl fun t run => by simpa using run

theorem step_wf {s s' : System} {a : Action} (h : s.k.Wf) (hstep : step s a = some s') :
    s'.k.Wf := by
  cases step_cases hstep with
  | sysTick | isr | tickLeave | isrReturn | nothing | trap | leave | ret => exact h
  | pendSv | isrYield | yield | release | own => exact h.congr rfl rfl rfl fun _ run => run
  | tick _ more => exact tickStep_wf h (tickStep_cases s.k more)
  | switch => exact osSchedule_wf (h.started true)
  | isrSignal _ result => exact signal_wf h result
  | signal _ _ result => exact signal_wf h result
  | waitQueued _ _ _ result => exact wait_wf h result
  | waitTaken _ _ _ result => exact wait_wf h result
  | delay =>
    refine h.congr rfl rfl rfl fun t run => ?_
    simp only [System.goOn, markSleeping_state] at run
    split at run
    · cases run
    · exact run
  | init =>
    exact h.congr (Init.apply_taskCount ..) (Init.apply_currentTask ..)
      (Init.apply_currentTaskIndex ..) fun t run => by simpa [System.goOn] using run

/-- What may lie above what: PendSV preempts nothing, and SysTick not itself. -/
def Nests (upper lower : Frame) : Prop :=
  upper ≠ .pendSv ∧ (upper.isTick = true → lower.isTick = false)

/-- PENDSVSET is set, or the handler has been entered and has not run `os_schedule` yet. -/
def SwitchDue (k : Kernel) (frames : List Frame) : Prop := k.pendsv = true ∨ .pendSv ∈ frames

/-- The invariant, on the parts of a state that it reads. -/
structure InvAt (k : Kernel) (pc : TaskId → Pc) (frames : List Frame) : Prop where
  wf : k.Wf
  queued : k.Queued
  sleeping_pc : ∀ t, t < k.taskCount → k.state t = .sleeping →
    pc t = .yield .delay ∨ pc t = .ret .delay
  queue_pc : ∀ r t, t ∈ k.queue r → pc t = .yield (.wait r) ∨ pc t = .ret (.wait r)
  nested : frames.Pairwise Nests
  scanning : ∀ i, (.sysTick (.due i) ∈ frames ∨ .sysTick (.wake i) ∈ frames) →
    i < k.taskCount ∧ k.state i = .sleeping
  resched : k.state k.currentTask ≠ .running → SwitchDue k frames ∨
    pc k.currentTask = .yield .delay ∨ ∃ r, pc k.currentTask = .yield (.wait r)
  boot : k.rtosStarted = false → SwitchDue k frames

abbrev Inv (s : System) : Prop := InvAt s.k s.pc s.frames

namespace InvAt
variable {k k' : Kernel} {pc : TaskId → Pc} {frames rest : List Frame}

/-- The running task executes only while it is running, except for the `trigger_pendsv()` that
ends its own blocking call. -/
theorem running (h : InvAt k pc []) (pendsv : k.pendsv = false)
    (notDelay : pc k.currentTask ≠ .yield .delay)
    (notWait : ∀ r, pc k.currentTask ≠ .yield (.wait r)) :
    k.state k.currentTask = .running := by
  by_contra not
  rcases h.resched not with (due | due) | yield | ⟨r, yield⟩
  · rw [pendsv] at due; cases due
  · cases due
  · exact notDelay yield
  · exact notWait r yield

theorem same (h : InvAt k pc frames) (count : k'.taskCount = k.taskCount)
    (current : k'.currentTask = k.currentTask)
    (index : k'.currentTaskIndex = k.currentTaskIndex) (sems : k'.sems = k.sems)
    (states : ∀ t, k'.state t = k.state t) (started : k'.rtosStarted = k.rtosStarted)
    (pendsv : k.pendsv = true → k'.pendsv = true) : InvAt k' pc frames := by
  have due : SwitchDue k frames → SwitchDue k' frames := Or.imp_left pendsv
  constructor
  · exact h.wf.congr count current index fun t run => by rwa [states] at run
  · exact h.queued.congr sems count fun t _ => by rw [states]
  · intro t ht; rw [states]; exact h.sleeping_pc t (count ▸ ht)
  · intro r t; rw [Kernel.queue_congr (congrFun sems r)]; exact h.queue_pc r t
  · exact h.nested
  · intro i hi; rw [states, count]; exact h.scanning i hi
  · rw [current, states]
    intro not; exact (h.resched not).imp_left due
  · rw [started]
    intro not; exact due (h.boot not)

theorem trigger (h : InvAt k pc frames) : InvAt k.triggerPendsv pc frames :=
  h.same rfl rfl rfl rfl (fun _ => rfl) rfl fun _ => rfl

/-- A running task is in no queue and not asleep, so it may go anywhere. -/
theorem setPc (h : InvAt k pc frames) (run : k.state k.currentTask = .running) (p : Pc) :
    InvAt k (Function.update pc k.currentTask p) frames := by
  refine { h with sleeping_pc := ?_, queue_pc := ?_, resched := fun not => absurd run not }
  · intro t ht asleep
    have other : t ≠ k.currentTask := fun eq => by rw [eq, run] at asleep; cases asleep
    rw [Function.update_of_ne other]; exact h.sleeping_pc t ht asleep
  · intro r t mem
    have other : t ≠ k.currentTask := fun eq => by
      have blocked := h.queued.state_of_mem mem
      rw [eq, run] at blocked; cases blocked
    rw [Function.update_of_ne other]; exact h.queue_pc r t mem

theorem yield {c : Call} (h : InvAt k pc frames) (at_ : pc k.currentTask = .yield c) :
    InvAt k.triggerPendsv (Function.update pc k.currentTask (.ret c)) frames := by
  refine { h.trigger with sleeping_pc := ?_, queue_pc := ?_, resched := fun _ => .inl (.inl rfl) }
  · intro t ht asleep
    have old := h.sleeping_pc t ht asleep
    by_cases eq : t = k.currentTask
    · rw [eq, at_] at old
      rw [eq, Function.update_self]
      rcases old with old | old <;> cases old
      exact .inr rfl
    · rw [Function.update_of_ne eq]; exact old
  · intro r t mem
    have old := h.queue_pc r t mem
    by_cases eq : t = k.currentTask
    · rw [eq, at_] at old
      rw [eq, Function.update_self]
      rcases old with old | old <;> cases old
      exact .inr rfl
    · rw [Function.update_of_ne eq]; exact old

/-- New handlers, as long as a due switch stays due. -/
theorem setFrames (h : InvAt k pc frames) (nested : rest.Pairwise Nests)
    (scanning : ∀ i, (.sysTick (.due i) ∈ rest ∨ .sysTick (.wake i) ∈ rest) →
      i < k.taskCount ∧ k.state i = .sleeping)
    (due : .pendSv ∈ frames → .pendSv ∈ rest) : InvAt k pc rest :=
  { h with
    nested := nested
    scanning := scanning
    resched := fun not => (h.resched not).imp_left (Or.imp_right due)
    boot := fun not => (h.boot not).imp_right due }

theorem pushIsr (h : InvAt k pc frames) (p : IsrPc) :
    InvAt k pc (.isr p :: frames) := by
  refine h.setFrames ?_ ?_ fun due => List.mem_cons_of_mem _ due
  · exact List.pairwise_cons.mpr ⟨fun _ _ => ⟨by simp, by simp⟩, h.nested⟩
  · intro i hi
    apply h.scanning i
    simpa using hi

theorem pushTick (h : InvAt k pc frames) (once : ∀ f ∈ frames, f.isTick = false) :
    InvAt k pc (.sysTick .enter :: frames) := by
  refine h.setFrames ?_ ?_ fun due => List.mem_cons_of_mem _ due
  · exact List.pairwise_cons.mpr ⟨fun f hf => ⟨by simp, fun _ => once f hf⟩, h.nested⟩
  · intro i hi
    apply h.scanning i
    simpa using hi

theorem pop {f : Frame} (h : InvAt k pc (f :: rest)) (not : f ≠ .pendSv) :
    InvAt k pc rest := by
  refine h.setFrames (List.pairwise_cons.mp h.nested).2 ?_ ?_
  · intro i hi
    exact h.scanning i (hi.imp (List.mem_cons_of_mem _) (List.mem_cons_of_mem _))
  · intro due
    rcases List.mem_cons.mp due with eq | mem
    · exact absurd eq.symm not
    · exact mem

theorem no_tick {p : TickPc} (h : InvAt k pc (.sysTick p :: rest)) :
    ∀ f ∈ rest, f.isTick = false :=
  fun f hf => ((List.pairwise_cons.mp h.nested).1 f hf).2 rfl

/-- The SysTick handler goes on to a point that is not between a test and its write. -/
theorem tickTo {p p' : TickPc} (h : InvAt k pc (.sysTick p :: rest))
    (free : ∀ i, p' = .due i ∨ p' = .wake i → i < k.taskCount ∧ k.state i = .sleeping) :
    InvAt k pc (.sysTick p' :: rest) := by
  have none := h.no_tick
  refine h.setFrames ?_ ?_ fun due => ?_
  · exact List.pairwise_cons.mpr ⟨fun f hf => ⟨by simp, fun _ => none f hf⟩,
      (List.pairwise_cons.mp h.nested).2⟩
  · intro i hi
    simp only [List.mem_cons, Frame.sysTick.injEq] at hi
    rcases hi with (eq | mem) | (eq | mem)
    · exact free i (.inl eq.symm)
    · exact absurd (none _ mem) (by simp)
    · exact free i (.inr eq.symm)
    · exact absurd (none _ mem) (by simp)
  · simpa using due

theorem dequeue {r : SemRef} {s : Semaphore} {u : TaskId} {q : List TaskId}
    (h : InvAt k pc frames) (hs : k.sems r = some s) (hq : k.queue r = u :: q) :
    InvAt (k.dequeue r s u) pc frames := by
  have blocked : k.state u = .blocked :=
    h.queued.state_of_mem (r := r) (by rw [hq]; exact List.mem_cons_self)
  constructor
  · refine h.wf.congr rfl rfl rfl fun t run => ?_
    rw [Kernel.dequeue_state] at run
    split at run
    · cases run
    · exact run
  · exact h.queued.dequeue hs hq
  · intro t ht asleep
    rw [Kernel.dequeue_state] at asleep
    split at asleep
    · cases asleep
    · exact h.sleeping_pc t ht asleep
  · intro r' t mem
    apply h.queue_pc r' t
    rw [h.queued.queue_dequeue hs hq] at mem
    split at mem
    · rename_i eq
      rw [eq, hq]; exact List.mem_cons_of_mem _ mem
    · exact mem
  · exact h.nested
  · intro i hi
    obtain ⟨created, asleep⟩ := h.scanning i hi
    refine ⟨created, ?_⟩
    rw [Kernel.dequeue_state, if_neg fun eq => by rw [eq, blocked] at asleep; cases asleep]
    exact asleep
  · intro not
    apply h.resched
    intro run
    apply not
    show (k.dequeue r s u).state k.currentTask = .running
    rw [Kernel.dequeue_state, if_neg fun eq => by rw [eq, blocked] at run; cases run]
    exact run
  · exact h.boot

theorem setCount {r : SemRef} {s : Semaphore} (h : InvAt k pc frames)
    (hs : k.sems r = some s) (n : Int) :
    InvAt (k.setSem r { s with count := n }) pc frames := by
  refine ⟨h.wf.congr rfl rfl rfl fun _ run => run, h.queued.setCount hs n,
    h.sleeping_pc, ?_, h.nested, h.scanning, h.resched, h.boot⟩
  intro r' t mem
  rw [Kernel.queue_setCount hs] at mem
  exact h.queue_pc r' t mem

theorem signal {r : SemRef} {woken : Option TaskId} (h : InvAt k pc frames)
    (result : osSemaphoreSignal k r = some (k', woken)) : InvAt k' pc frames := by
  obtain ⟨s, hs, ⟨u, q, -, hq, rfl⟩ | ⟨-, -, rfl⟩⟩ := osSemaphoreSignal_effect h.queued result
  · exact h.dequeue hs hq
  · exact h.setCount hs _

theorem wake {i : TaskId} (h : InvAt k pc frames) (created : i < k.taskCount)
    (asleep : k.state i = .sleeping) (none : ∀ f ∈ frames, f.isTick = true →
      f ≠ .sysTick (.due i) ∧ f ≠ .sysTick (.wake i)) :
    InvAt (k.setState i .ready) pc frames := by
  constructor
  · refine h.wf.congr rfl rfl rfl fun t run => ?_
    rw [Kernel.state_setState] at run
    split at run
    · cases run
    · exact run
  · refine h.queued.congr rfl rfl fun t _ => ?_
    rw [Kernel.state_setState]
    split
    · rename_i eq
      rw [eq, asleep]; simp
    · rfl
  · intro t ht sleeping
    rw [Kernel.state_setState] at sleeping
    split at sleeping
    · cases sleeping
    · exact h.sleeping_pc t ht sleeping
  · exact h.queue_pc
  · exact h.nested
  · intro j hj
    obtain ⟨lt, sleeping⟩ := h.scanning j hj
    have other : j ≠ i := by
      rintro rfl
      rcases hj with mem | mem
      · exact (none _ mem rfl).1 rfl
      · exact (none _ mem rfl).2 rfl
    exact ⟨lt, by rw [Kernel.state_setState, if_neg other]; exact sleeping⟩
  · intro not
    apply h.resched
    intro run
    apply not
    show (k.setState i .ready).state k.currentTask = .running
    rw [Kernel.state_setState, if_neg fun eq => by rw [eq, asleep] at run; cases run]
    exact run
  · exact h.boot

theorem tick {p p' : TickPc} (h : InvAt k pc (.sysTick p :: rest))
    (tick : TickCase k p k' p') : InvAt k' pc (.sysTick p' :: rest) := by
  cases tick with
  | enter =>
    exact (h.tickTo (by simp)).same rfl rfl rfl rfl (fun _ => rfl) rfl id
  | asleep created sleeping =>
    refine h.tickTo ?_
    rintro j (eq | eq) <;> cases eq
    exact ⟨created, sleeping⟩
  | awake | done | notDue | notStarted => exact h.tickTo (by simp)
  | due =>
    refine h.tickTo ?_
    rintro j (eq | eq) <;> cases eq
    exact h.scanning _ (.inl List.mem_cons_self)
  | @wake i =>
    obtain ⟨created, asleep⟩ := h.scanning i (.inr List.mem_cons_self)
    refine (h.tickTo (by simp)).wake created asleep ?_
    intro f mem tick
    rcases List.mem_cons.mp mem with rfl | mem
    · simp
    · rw [h.no_tick f mem] at tick; cases tick
  | charge =>
    refine (h.tickTo (by simp)).same rfl rfl rfl rfl (fun t => ?_) rfl id
    exact chargeCurrent_state k t
  | pend => exact (h.tickTo (by simp)).trigger

theorem enqueue {r : SemRef} {s : Semaphore} (h : InvAt k pc [])
    (hs : k.sems r = some s) (run : k.state k.currentTask = .running)
    (at_ : pc k.currentTask = .yield (.wait r)) :
    InvAt (k.enqueue r s k.currentTask) pc [] := by
  have notBlocked : k.state k.currentTask ≠ .blocked := by rw [run]; simp
  constructor
  · refine h.wf.congr rfl rfl rfl fun t run => ?_
    rw [Kernel.enqueue_state] at run
    split at run
    · cases run
    · exact run
  · exact h.queued.enqueue hs h.wf.current_lt notBlocked
  · intro t ht asleep
    rw [Kernel.enqueue_state] at asleep
    split at asleep
    · cases asleep
    · exact h.sleeping_pc t ht asleep
  · intro r' t mem
    rw [h.queued.queue_enqueue hs] at mem
    split at mem
    · rename_i eq
      rcases List.mem_append.mp mem with old | new
      · rw [eq]; exact h.queue_pc r t old
      · cases List.mem_singleton.mp new
        rw [eq]; exact .inl at_
    · exact h.queue_pc r' t mem
  · exact h.nested
  · simp
  · exact fun _ => .inr (.inr ⟨r, at_⟩)
  · exact h.boot

theorem sleep {d : Word} (h : InvAt k pc []) (run : k.state k.currentTask = .running)
    (at_ : pc k.currentTask = .yield .delay) :
    InvAt (markSleeping k d) pc [] := by
  constructor
  · refine h.wf.congr rfl rfl rfl fun t run => ?_
    rw [markSleeping_state] at run
    split at run
    · cases run
    · exact run
  · refine h.queued.congr rfl rfl fun t _ => ?_
    rw [markSleeping_state]
    split
    · rename_i eq
      rw [eq, run]; simp
    · rfl
  · intro t ht asleep
    rw [markSleeping_state] at asleep
    split at asleep
    · rename_i eq
      rw [eq]; exact .inl at_
    · exact h.sleeping_pc t ht asleep
  · exact h.queue_pc
  · exact h.nested
  · simp
  · exact fun _ => .inr (.inl at_)
  · exact h.boot

theorem init {i : Init} (h : InvAt k pc frames) (fresh : k.sems i.ref = none) :
    InvAt (i.apply k) pc frames := by
  constructor
  · exact h.wf.congr (by simp) (by simp) (by simp) fun t run => by simpa using run
  · exact h.queued.init fresh
  · simpa using h.sleeping_pc
  · intro r t
    rw [Kernel.queue_init fresh]; exact h.queue_pc r t
  · exact h.nested
  · simpa using h.scanning
  · simpa [SwitchDue] using h.resched
  · simpa [SwitchDue] using h.boot

/-- PendSV is taken: the request moves from the pending bit to the active handler. -/
theorem enterPendSv (h : InvAt k pc []) :
    InvAt { k with pendsv := false } pc [.pendSv] := by
  constructor
  · exact h.wf.congr rfl rfl rfl fun _ run => run
  · exact h.queued.congr rfl rfl fun _ _ => Iff.rfl
  · exact h.sleeping_pc
  · exact h.queue_pc
  · exact List.pairwise_singleton _ _
  · simp
  · exact fun _ => .inl (.inr List.mem_cons_self)
  · exact fun _ => .inr List.mem_cons_self

/-- PendSV is entered from thread mode, so nothing lies below it. -/
theorem bottom (h : InvAt k pc (.pendSv :: rest)) : rest = [] := by
  cases rest with
  | nil => rfl
  | cons f l => exact absurd rfl ((List.pairwise_cons.mp h.nested).1 f List.mem_cons_self).1

theorem switch {x : TaskId} (h : InvAt k pc (.pendSv :: rest)) (hx : scheduled k = some x) :
    InvAt (osSchedule { k with rtosStarted := true }) pc rest := by
  obtain rfl := h.bottom
  have hx' : scheduled { k with rtosStarted := true } = some x := by
    rw [scheduled_started]; exact hx
  have wf := h.wf.started true
  have state : ∀ t, (osSchedule { k with rtosStarted := true }).state t =
      if t = x then .running
      else if t = k.currentTask ∧ k.state t = .running then .ready else k.state t :=
    osSchedule_state hx'
  have candidate : k.Candidate x := ((scheduled_some h.wf x).mp hx).1
  have xstate : k.state x = .ready ∨ k.state x = .running := candidate.2.imp_right And.right
  constructor
  · exact osSchedule_wf wf
  · refine h.queued.congr (by simp) (by simp) fun t _ => ?_
    rw [state]; grind
  · intro t ht asleep
    rw [state] at asleep
    rw [osSchedule_taskCount] at ht
    have old : k.state t = .sleeping := by grind
    exact h.sleeping_pc t ht old
  · intro r t mem
    rw [Kernel.queue_congr (by simp : (osSchedule { k with rtosStarted := true }).sems r = k.sems r)] at mem
    exact h.queue_pc r t mem
  · exact .nil
  · simp
  · intro not
    rw [(osSchedule_current hx').1, state, if_pos rfl] at not
    exact absurd rfl not
  · intro not
    obtain ⟨_, _, _, eq⟩ := osSchedule_eq_with { k with rtosStarted := true }
    rw [eq] at not; cases not

end InvAt

theorem Inv.at_frames {s : System} {frames : List Frame} (h : Inv s)
    (eq : s.frames = frames) : InvAt s.k s.pc frames := by
  have h' : InvAt s.k s.pc s.frames := h
  rwa [eq] at h'

theorem Inv.thread_running {s : System} (h : Inv s) (thread : s.Thread)
    {p : Pc} (pc : s.pc s.k.currentTask = p) (notDelay : p ≠ .yield .delay)
    (notWait : ∀ r, p ≠ .yield (.wait r)) : s.k.state s.k.currentTask = .running := by
  have h' := h.at_frames thread.frames
  subst pc
  exact h'.running thread.pendsv notDelay notWait

/-- The next step of the topmost handler is the masked part of `PendSV_Handler`. -/
def System.Switching (s : System) : Prop := s.frames.head? = some .pendSv

instance (s : System) : Decidable s.Switching := by unfold System.Switching; infer_instance

/-- Every step keeps the invariant as long as `os_schedule` finds a task. -/
theorem step_inv {s s' : System} {a : Action} (h : Inv s) (hstep : step s a = some s')
    (selects : a = .handler → s.Switching → scheduled s.k ≠ none) : Inv s' := by
  cases step_cases hstep with
  | sysTick _ once =>
    refine h.pushTick ?_
    simpa [System.inTick] using once
  | isr => exact h.pushIsr .body
  | pendSv _ frames =>
    have h' := h.at_frames frames
    exact h'.enterPendSv
  | tickLeave frames =>
    have h' := h.at_frames frames
    exact h'.pop (by simp)
  | tick frames more =>
    have h' := h.at_frames frames
    exact h'.tick (tickStep_cases s.k more)
  | isrYield frames =>
    have h' := h.at_frames frames
    exact (h'.pop (by simp)).trigger.pushIsr .body
  | switch frames =>
    have h' := h.at_frames frames
    obtain ⟨x, hx⟩ := Option.ne_none_iff_exists'.mp (selects rfl (by simp [System.Switching, frames]))
    exact h'.switch hx
  | isrSignal frames result =>
    have h' := h.at_frames frames
    exact ((h'.pop (by simp)).signal result).pushIsr _
  | isrReturn frames =>
    have h' := h.at_frames frames
    exact h'.pop (by simp)
  | nothing => exact h
  | @delay d thread pc _ =>
    have run := h.thread_running thread pc (by simp) (by simp)
    have h' := h.at_frames thread.frames
    show InvAt (markSleeping s.k d) _ s.frames
    rw [thread.frames]
    exact (h'.setPc run (.yield .delay)).sleep run (Function.update_self ..)
  | waitQueued thread pc _ result =>
    have run := h.thread_running thread pc (by simp) (by simp)
    have h' := h.at_frames thread.frames
    obtain ⟨sem, hs, ⟨eq, -⟩ | ⟨-, -, -, rfl⟩⟩ := osSemaphoreWait_effect result
    · cases eq
    · show InvAt _ _ s.frames
      rw [thread.frames]
      exact (h'.setPc run (.yield (.wait _))).enqueue hs run (Function.update_self ..)
  | waitTaken thread pc _ result =>
    have run := h.thread_running thread pc (by simp) (by simp)
    obtain ⟨sem, hs, ⟨-, -, rfl⟩ | ⟨eq, -⟩⟩ := osSemaphoreWait_effect result
    · exact (h.setPc run _).setCount hs _
    · cases eq
  | signal thread ref result =>
    have run : s.k.state s.k.currentTask = .running := by
      rcases ref with ⟨_, -, -, pc⟩ | ⟨_, -, -, pc⟩
      · exact h.thread_running thread pc (by simp) (by simp)
      · exact h.thread_running thread pc (by simp) (by simp)
    exact (h.setPc run _).signal result
  | release thread pc | own thread pc =>
    have run := h.thread_running thread pc (by simp) (by simp)
    exact (h.setPc run _).same rfl rfl rfl rfl (fun _ => rfl) rfl id
  | trap thread pc | leave thread pc | ret thread pc =>
    exact h.setPc (h.thread_running thread pc (by simp) (by simp)) _
  | init thread pc fresh =>
    exact (h.setPc (h.thread_running thread pc (by simp) (by simp)) _).init fresh
  | yield _ pc => exact h.yield pc

end Rtos
