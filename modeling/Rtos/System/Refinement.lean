import Rtos.Lib.Ideal
import Rtos.Scheduling.Latency
import Rtos.Time.Deadlines

/-! The code against an ideal kernel. The tables, the 32-bit clock, the interruptible handler and
the delayed switch come down to the moves of a kernel that always knows who sleeps until when, who
waits for what, and who may run. -/
namespace Rtos
open Lib

def modeOf (st : TaskState) (deadline : Nat) : IdealState.Mode :=
  match st with
  | .sleeping => .asleep deadline
  | .blocked => .waiting
  | .ready => .runnable
  | .running => .runnable

/-- What a state means. A sleeper's deadline is that of its latest `osDelay` call. -/
def ideal (s : System) : IdealState TaskId SemRef Nat :=
  { clock := ticks s.log
    mode := fun t => modeOf (s.k.state t) (deadline t s.log)
    current := s.k.currentTask
    tokens := fun r => (s.k.sems r).map Semaphore.count
    line := s.k.queue
    owner := s.k.owner }

def waitMove (k : Kernel) (r : SemRef) : Option (IdealState.Move TaskId SemRef Nat) :=
  (k.sems r).map fun sem => if 0 < sem.count then .take r else .join r

def signalMove (k : Kernel) (r : SemRef) : IdealState.Move TaskId SemRef Nat :=
  if k.queue r = [] then .give r else .hand r

/-- The move that a step makes, if it makes one. -/
def move (p : System × Action) : Option (IdealState.Move TaskId SemRef Nat) :=
  match p.2 with
  | .handler =>
    match p.1.frames with
    | .sysTick .enter :: _ => some .tick
    | .sysTick (.wake i) :: _ => some (.wake i)
    | .pendSv :: _ => (scheduled p.1.k).map .dispatch
    | _ => none
  | .isrSignal j => some (signalMove p.1.k (.sem j))
  | .call (.delay d) => if d = 0 then none else some (.sleep d.toNat)
  | .call (.wait j) => waitMove p.1.k (.sem j)
  | .call (.signal j) => some (signalMove p.1.k (.sem j))
  | .call (.acquire m) => waitMove p.1.k (.mutex m)
  | .call (.release m) => if p.1.k.owner m = some p.1.k.currentTask then some (.unlock m) else none
  | .call (.init i) => some (.make i.ref i.count)
  | .task =>
    match p.1.pc p.1.k.currentTask with
    | .own m => some (.lock m)
    | .unlock m => some (signalMove p.1.k (.mutex m))
    | _ => none
  | _ => none

/-- The values of an `int32_t`. -/
def FitsInt32 (n : Int) : Prop := -2 ^ 31 ≤ n ∧ n < 2 ^ 31

theorem wrap32_fits {n : Int} (fits : FitsInt32 n) : wrap32 n = n := by
  obtain ⟨low, high⟩ := fits
  unfold wrap32
  rw [Int.bmod_eq_of_le] <;> omega

/-- Nobody waits while there is a token. -/
def Kernel.Busy (k : Kernel) : Prop := ∀ r s, k.sems r = some s → 0 < s.count → k.queue r = []

theorem Kernel.Busy.congr {k k' : Kernel} (h : k.Busy) (sems : k'.sems = k.sems) : k'.Busy := by
  intro r s hs
  rw [Kernel.queue_congr (congrFun sems r)]
  exact h r s (by rw [← sems]; exact hs)

theorem Kernel.Busy.signal {k k' : Kernel} {r : SemRef} {woken : Option TaskId} (h : k.Busy)
    (queued : k.Queued) (result : osSemaphoreSignal k r = some (k', woken)) : k'.Busy := by
  obtain ⟨s, hs, ⟨u, q, -, hq, rfl⟩ | ⟨-, hq, rfl⟩⟩ := osSemaphoreSignal_effect queued result
  · intro r' s' hs' free
    rw [queued.queue_dequeue hs hq]
    rw [Kernel.dequeue_sems] at hs'
    by_cases eq : r' = r
    · rw [if_pos eq] at hs'
      cases hs'
      rw [h r s hs free] at hq
      cases hq
    · rw [if_neg eq] at hs' ⊢
      exact h r' s' hs' free
  · intro r' s' hs' free
    rw [Kernel.queue_setCount hs]
    by_cases eq : r' = r
    · rw [eq, hq]
    · rw [Kernel.setSem_sems, if_neg eq] at hs'
      exact h r' s' hs' free

theorem Kernel.Busy.wait {k k' : Kernel} {r : SemRef} {up : Bool} (h : k.Busy)
    (queued : k.Queued) (result : osSemaphoreWait k r = some (k', up)) : k'.Busy := by
  obtain ⟨s, hs, ⟨-, free, rfl⟩ | ⟨-, none, -, rfl⟩⟩ := osSemaphoreWait_effect result
  · intro r' s' hs' free'
    rw [Kernel.queue_setCount hs]
    by_cases eq : r' = r
    · rw [eq, h r s hs free]
    · rw [Kernel.setSem_sems, if_neg eq] at hs'
      exact h r' s' hs' free'
  · intro r' s' hs' free'
    rw [queued.queue_enqueue hs]
    rw [Kernel.enqueue_sems] at hs'
    by_cases eq : r' = r
    · rw [if_pos eq] at hs'
      cases hs'
      exact absurd free' (Int.not_lt.mpr none)
    · rw [if_neg eq] at hs' ⊢
      exact h r' s' hs' free'

theorem Kernel.Busy.init {k : Kernel} {i : Init} (h : k.Busy) (fresh : k.sems i.ref = none) :
    (i.apply k).Busy := by
  intro r s hs free
  rw [Kernel.queue_init fresh]
  rw [Init.apply_sems] at hs
  by_cases eq : r = i.ref
  · rw [eq, Kernel.queue_none fresh]
  · rw [if_neg eq] at hs
    exact h r s hs free

theorem step_busy {s s' : System} {a : Action} (inv : Inv s) (h : s.k.Busy)
    (hstep : step s a = some s') : s'.k.Busy := by
  cases step_cases hstep with
  | sysTick | isr | pendSv | tickLeave | isrYield | isrReturn | nothing | release | trap | leave |
    yield | ret | own | delay => exact h.congr rfl
  | tick => exact h.congr (tickStep_sems ..)
  | switch => exact h.congr (osSchedule_sems _)
  | isrSignal _ result | signal _ _ result => exact h.signal inv.queued result
  | waitQueued _ _ _ result | waitTaken _ _ _ result => exact h.wait inv.queued result
  | init _ _ fresh => exact h.init fresh

theorem Reachable.busy {cfg : Config} {idle : TaskId} {s : System} (h : Reachable cfg idle s) :
    s.k.Busy :=
  (h.induct (P := fun s => s.k.Busy) (fun _ _ booted r _ _ _ => booted.queue r)
    fun _ _ _ inv busy hstep _ => step_busy inv.inv busy hstep).2

theorem ideal_eq {s : System} {x : IdealState TaskId SemRef Nat} (clock : ticks s.log = x.clock)
    (mode : ∀ t, modeOf (s.k.state t) (deadline t s.log) = x.mode t)
    (current : s.k.currentTask = x.current)
    (tokens : ∀ r, (s.k.sems r).map Semaphore.count = x.tokens r)
    (line : ∀ r, s.k.queue r = x.line r) (owner : ∀ m, s.k.owner m = x.owner m) : ideal s = x :=
  IdealState.ext clock (funext mode) current (funext tokens) (funext line) (funext owner)

theorem modeOf_runnable {st : TaskState} {d : Nat} :
    modeOf st d = .runnable ↔ st = .ready ∨ st = .running := by
  cases st <;> simp [modeOf]

theorem modeOf_asleep {st : TaskState} {d due : Nat} :
    modeOf st d = .asleep due ↔ st = .sleeping ∧ d = due := by
  cases st <;> simp [modeOf]

section step
variable {cfg : Config} {idle : TaskId} {s s' : System} {a : Action} {es : List Event}

/-- The moves of an ideal kernel with the tasks and the priorities of `cfg`. -/
abbrev IdealStep (cfg : Config) (prio : TaskId → BitVec 8) :
    IdealState TaskId SemRef Nat → IdealState.Move TaskId SemRef Nat → IdealState TaskId SemRef Nat → Prop :=
  Does (· < cfg.tasks.length) prio FitsInt32

/-- The step makes the move that it is said to make. -/
def Moves (cfg : Config) (s : System) (a : Action) (s' : System) : Prop :=
  (move (s, a)).elim (ideal s' = ideal s) fun b => IdealStep cfg s.k.prio (ideal s) b (ideal s')

theorem Moves.none (label : move (s, a) = none) (same : ideal s' = ideal s) : Moves cfg s a s' := by
  rw [Moves, label]
  exact same

theorem Moves.some {b : IdealState.Move TaskId SemRef Nat} {x : IdealState TaskId SemRef Nat}
    (label : move (s, a) = some b) (does : IdealStep cfg s.k.prio (ideal s) b x)
    (reached : ideal s' = x) : Moves cfg s a s' := by
  rw [Moves, label, reached]
  exact does

/-- Nothing that the ideal kernel knows has changed. -/
theorem ideal_same (log : s'.log = s.log ++ es) (untimed : ∀ e ∈ es, e.timed = false)
    (state : ∀ t, s'.k.state t = s.k.state t) (current : s'.k.currentTask = s.k.currentTask)
    (sems : s'.k.sems = s.k.sems) (owner : s'.k.owner = s.k.owner) : ideal s' = ideal s := by
  refine ideal_eq ?_ (fun t => ?_) current (fun r => ?_) (fun r => ?_) (fun m => ?_)
  · rw [log, ticks_append untimed]; rfl
  · rw [log, deadline_append untimed, state]; rfl
  · rw [sems]; rfl
  · exact Kernel.queue_congr (congrFun sems r)
  · rw [owner]; rfl

theorem tick_moves {pc : TickPc} {rest : List Frame} (h : Reachable cfg idle s) (timed : Timed s)
    (frames : s.frames = .sysTick pc :: rest) (more : pc ≠ .leave) : Moves cfg s .handler
      (s.goOnAt (tickStep s.k pc).1 (.sysTick (tickStep s.k pc).2 :: rest) (tickEvents pc)) := by
  have at_ := h.idleInv.inv.at_frames frames
  have tick := tickStep_cases s.k more
  generalize (tickStep s.k pc).1 = k', (tickStep s.k pc).2 = pc' at tick ⊢
  have none : ∀ e ∈ ([] : List Event), e.timed = false := by simp
  cases tick with
  | enter =>
    refine .some (by simp [move, frames]) (.tick fun t created due asleep => ?_)
      (ideal_eq ?_ (fun t => ?_) rfl (fun _ => rfl) (fun _ => rfl) (fun _ => rfl))
    · obtain ⟨sleeping, rfl⟩ := modeOf_asleep.mp asleep
      rcases timed.ahead t (h.tasks.1 ▸ created) sleeping with later | ⟨-, pending⟩
      · exact later
      · rw [frames] at pending
        exact absurd pending (pending_outside at_.no_tick (by simp) t)
    · exact ticks_snoc_tick s.log
    · exact congrArg (modeOf _) (deadline_snoc_tick t s.log)
  | @wake i =>
    obtain ⟨created, sleeping⟩ := at_.scanning i (.inr List.mem_cons_self)
    have untimed : ∀ e ∈ [Event.wake i], e.timed = false := by simp [Event.timed]
    have now := timed.due i (by simp [frames])
    refine .some (by simp [move, frames]) (.wake (h.tasks.1 ▸ created) ?_)
      (ideal_eq (ticks_append untimed) (fun t => ?_) rfl (fun _ => rfl) (fun _ => rfl) (fun _ => rfl))
    · exact modeOf_asleep.mpr ⟨sleeping, now⟩
    · simp only [System.goOnAt_k, System.goOnAt_log, Kernel.state_setState, tickEvents,
        deadline_append untimed]
      by_cases eq : t = i
      · subst eq; simp [modeOf]
      · simp [eq, ideal]
  | asleep | awake | done | due | notDue | notStarted | pend =>
    exact .none (by simp [move, frames]) (ideal_same rfl none (fun _ => rfl) rfl rfl rfl)
  | charge =>
    exact .none (by simp [move, frames]) (ideal_same rfl none (chargeCurrent_state s.k) rfl rfl rfl)

theorem switch_moves {rest : List Frame} (h : Reachable cfg idle s)
    (frames : s.frames = .pendSv :: rest) : Moves cfg s .handler (switchStep s rest) := by
  have inv := h.idleInv.inv
  obtain ⟨x, hx⟩ := Option.ne_none_iff_exists'.mp (h.idleInv.awake.selects inv.wf h.idleInv.idle_lt)
  have hx' : scheduled { s.k with rtosStarted := true } = some x := by
    rw [scheduled_started]; exact hx
  obtain ⟨candidate, best⟩ := (scheduled_some inv.wf x).mp hx
  have runs : ∀ u, (ideal s).mode u = .runnable → s.k.state u = .ready ∨ s.k.state u = .running :=
    fun u => modeOf_runnable.mp
  refine .some (by simp [move, frames, hx]) (.dispatch (h.tasks.1 ▸ candidate.1) ?_ ?_)
    (ideal_eq ?_ (fun t => ?_) (osSchedule_current hx').1 (fun r => ?_) (fun r => ?_) (fun m => ?_))
  · exact modeOf_runnable.mpr (candidate.2.imp_right And.right)
  · intro u created runnable
    have created' : u < s.k.taskCount := h.tasks.1 ▸ created
    exact (best u ⟨created', (runs u runnable).imp_right
      fun run => ⟨inv.wf.running u created' run, run⟩⟩).1
  · exact congrArg ticks (List.append_nil s.log)
  · have same : Kernel.state { s.k with rtosStarted := true } t = s.k.state t := rfl
    simp only [switchStep, System.goOnAt_k, System.goOnAt_log, List.append_nil, ideal]
    rw [osSchedule_state hx', same]
    split
    · rename_i eq
      rw [eq, modeOf_runnable.mpr (.inr rfl)]
      exact (modeOf_runnable.mpr (candidate.2.imp_right And.right)).symm
    · split
      · rename_i left
        rw [left.2, modeOf_runnable.mpr (.inl rfl), modeOf_runnable.mpr (.inr rfl)]
      · rfl
  · exact congrArg (Option.map Semaphore.count) (congrFun (osSchedule_sems _) r)
  · exact Kernel.queue_congr (congrFun (osSchedule_sems _) r)
  · exact congrFun (osSchedule_owner _) m

theorem signal_moves {r : SemRef} {k : Kernel} {signaller woken : Option TaskId}
    (h : Reachable cfg idle s) (result : osSemaphoreSignal s.k r = some (k, woken))
    (label : move (s, a) = some (signalMove s.k r)) (k_eq : s'.k = k)
    (log : s'.log = s.log ++ signalEvents s.log r signaller woken) : Moves cfg s a s' := by
  have inv := h.idleInv.inv
  subst k_eq
  have untimed := signalEvents_untimed s.log r signaller woken
  have clock : ticks s'.log = ticks s.log := by rw [log, ticks_append untimed]
  have deadline_eq : ∀ t, deadline t s'.log = deadline t s.log := fun t => by
    rw [log, deadline_append untimed]
  obtain ⟨sem, hs, ⟨u, q, -, hq, eq⟩ | ⟨-, hq, eq⟩⟩ := osSemaphoreSignal_effect inv.queued result
  · have created := inv.queued.created r u (by rw [hq]; exact List.mem_cons_self)
    refine .some (by rw [label, signalMove, if_neg (by simp [hq])])
      (.hand (h.tasks.1 ▸ created) hq) (ideal_eq clock (fun t => ?_) ?_ (fun x => ?_) (fun x => ?_) ?_)
    · rw [eq, Kernel.dequeue_state, deadline_eq]
      by_cases first : t = u
      · subst first; simp [modeOf]
      · simp [first, ideal]
    · rw [eq]; rfl
    · rw [eq, Kernel.dequeue_sems]
      by_cases same : x = r
      · subst same; simp [ideal, hs]
      · simp [same, ideal]
    · rw [eq, inv.queued.queue_dequeue hs hq]
      by_cases same : x = r
      · subst same; simp
      · simp [same, ideal]
    · rw [eq]; exact fun _ => rfl
  · refine .some (by rw [label, signalMove, if_pos hq])
      (.give (n := sem.count) (k := wrap32 (sem.count + 1)) (by simp [ideal, hs]) hq wrap32_fits)
      (ideal_eq clock (fun t => ?_) ?_ (fun x => ?_) (fun x => ?_) ?_)
    · rw [eq, deadline_eq]; rfl
    · rw [eq]; rfl
    · rw [eq, Kernel.setSem_sems]
      by_cases same : x = r
      · subst same; simp
      · simp [same, ideal]
    · rw [eq, Kernel.queue_setCount hs]; rfl
    · rw [eq]; exact fun _ => rfl

theorem wait_moves {r : SemRef} {k : Kernel} {queued : Bool} (h : Reachable cfg idle s)
    (run : s.k.state s.k.currentTask = .running) (result : osSemaphoreWait s.k r = some (k, queued))
    (label : move (s, a) = waitMove s.k r) (k_eq : s'.k = k) (log : s'.log = s.log ++ es)
    (untimed : ∀ e ∈ es, e.timed = false) : Moves cfg s a s' := by
  have inv := h.idleInv.inv
  subst k_eq
  have clock : ticks s'.log = ticks s.log := by rw [log, ticks_append untimed]
  have deadline_eq : ∀ t, deadline t s'.log = deadline t s.log := fun t => by
    rw [log, deadline_append untimed]
  have runs : (ideal s).mode (ideal s).current = .runnable := modeOf_runnable.mpr (.inr run)
  obtain ⟨sem, hs, ⟨-, free, eq⟩ | ⟨-, none, -, eq⟩⟩ := osSemaphoreWait_effect result
  · refine .some (by simp [label, waitMove, hs, free])
      (.take (n := sem.count) runs (by simp [ideal, hs]) free (h.busy r sem hs free))
      (ideal_eq clock (fun t => ?_) ?_ (fun x => ?_) (fun x => ?_) ?_)
    · rw [eq, deadline_eq]; rfl
    · rw [eq]; rfl
    · rw [eq, Kernel.setSem_sems]
      by_cases same : x = r
      · subst same; simp
      · simp [same, ideal]
    · rw [eq, Kernel.queue_setCount hs]; rfl
    · rw [eq]; exact fun _ => rfl
  · refine .some (by simp [label, waitMove, hs, Int.not_lt.mpr none])
      (.join (r := r) (n := sem.count) runs (by simp [ideal, hs]) none)
      (ideal_eq clock (fun t => ?_) ?_ (fun x => ?_) (fun x => ?_) ?_)
    · rw [eq, Kernel.enqueue_state, deadline_eq]
      by_cases cur : t = s.k.currentTask
      · subst cur; simp [modeOf, ideal]
      · simp [cur, ideal]
    · rw [eq]; rfl
    · rw [eq, Kernel.enqueue_sems]
      by_cases same : x = r
      · subst same; simp [ideal, hs]
      · simp [same, ideal]
    · rw [eq, inv.queued.queue_enqueue hs]
      by_cases same : x = r
      · subst same; simp [ideal]
      · simp [same, ideal]
    · rw [eq]; exact fun _ => rfl

theorem delay_moves {d : Word} (run : s.k.state s.k.currentTask = .running) (pos : d ≠ 0) :
    Moves cfg s (.call (.delay d)) (s.goOn (markSleeping s.k d) (.yield .delay)
      [.sleep s.k.currentTask (ticks s.log + d.toNat)]) := by
  have later : 0 < d.toNat := Nat.pos_of_ne_zero fun zero => pos (BitVec.eq_of_toNat_eq zero)
  refine .some (if_neg pos) (.sleep (modeOf_runnable.mpr (.inr run)) later)
    (ideal_eq ?_ (fun t => ?_) rfl (fun _ => rfl) (fun _ => rfl) (fun _ => rfl))
  · exact ticks_snoc_sleep ..
  · simp only [System.goOn_k, System.goOn_log, markSleeping_state, deadline_snoc_sleep]
    by_cases cur : t = s.k.currentTask
    · subst cur; simp [modeOf, ideal]
    · simp [cur, Ne.symm cur, ideal]

/-- Only the owner of a mutex changes. -/
theorem owner_moves {m : Nat} {o : Option TaskId} {p : Pc}
    (untimed : ∀ e ∈ es, e.timed = false) : ideal (s.goOn (s.k.setOwner m o) p es) =
      { ideal s with owner := Function.update (ideal s).owner m o } := by
  refine ideal_eq (ticks_append untimed) (fun t => ?_) rfl (fun _ => rfl) (fun _ => rfl) (fun x => ?_)
  · exact congrArg (modeOf _) (deadline_append untimed t)
  · rw [System.goOn_k, Kernel.setOwner_owner]
    by_cases same : x = m
    · subst same; simp
    · simp [same, ideal]

theorem init_moves {i : Init} (h : Reachable cfg idle s) (fresh : s.k.sems i.ref = none) :
    Moves cfg s (.call (.init i)) (s.goOn (i.apply s.k) .user [.init i.ref i.count]) := by
  have untimed : ∀ e ∈ [Event.init i.ref i.count], e.timed = false := by simp [Event.timed]
  refine .some rfl (.make (by simp [ideal, fresh]) (Kernel.queue_none fresh))
    (ideal_eq (ticks_append untimed) (fun t => ?_) (Init.apply_currentTask ..) (fun r => ?_)
      (fun r => ?_) (fun m => ?_))
  · rw [System.goOn_k, System.goOn_log, Init.apply_state, deadline_append untimed]; rfl
  · rw [System.goOn_k, Init.apply_sems]
    by_cases same : r = i.ref
    · subst same; simp [semInit]
    · simp [same, ideal]
  · exact Kernel.queue_init fresh r
  · rw [System.goOn_k, Init.apply_owner]
    split
    · rename_i same
      obtain ⟨tok, token⟩ := h.token m
      subst same
      have unmade := token.made.mp fresh
      show none = s.k.owner m
      rw [token.owner, unmade]; rfl
    · rfl

theorem goOn_ne {k : Kernel} {p q : Pc} (pc : s.pc s.k.currentTask = q) (other : p ≠ q) :
    s.goOn k p es ≠ s := by
  intro same
  have moved := congrFun (congrArg System.pc same) s.k.currentTask
  rw [System.goOn_pc, Function.update_self, pc] at moved
  exact other moved

theorem waitStep_ne {r : SemRef} (pc : s.pc s.k.currentTask = .user) : waitStep s r ≠ some s := by
  unfold waitStep
  dsimp only
  split
  · simp
  · simpa using goOn_ne pc (by simp)
  · simpa using goOn_ne pc (by simp)

theorem signalStep_ne {r : SemRef} {p : Pc} (pc : s.pc s.k.currentTask = p)
    (out : ∀ c, p ≠ .yield c ∧ p ≠ .ret c) : signalStep s r ≠ some s := by
  unfold signalStep
  split
  · simp
  · rename_i woken _
    simp only [ne_eq, Option.some.injEq]
    refine goOn_ne pc ?_
    cases woken
    · exact (out _).2.symm
    · exact (out _).1.symm

/-- A step that changes nothing makes no move. -/
theorem nothing_moves (thread : s.Thread) (hstep : step s a = some s) : Moves cfg s a s := by
  refine .none ?_ rfl
  cases a with
  | call op =>
    obtain ⟨⟨-, pc⟩, eq⟩ := Option.ite_none_right_eq_some.mp hstep
    cases op with
    | delay d =>
      simp only [callStep] at eq
      split at eq
      · rename_i zero
        exact if_pos zero
      · exact absurd (Option.some.inj eq) (goOn_ne pc (by simp))
    | wait | acquire => exact absurd eq (waitStep_ne pc)
    | signal => exact absurd eq (signalStep_ne pc (by simp))
    | release m =>
      simp only [callStep] at eq
      split at eq
      · cases eq
      · split at eq
        · exact absurd (Option.some.inj eq) (goOn_ne pc (by simp))
        · exact absurd (Option.some.inj eq) (goOn_ne pc (by simp))
    | init i =>
      simp only [callStep] at eq
      split at eq
      · have log := congrArg System.log (Option.some.inj eq)
        simp at log
      · cases eq
    | leave => rfl
  | task =>
    have eq := (Option.ite_none_right_eq_some.mp hstep).2
    cases pc : s.pc s.k.currentTask with
    | own m =>
      simp only [taskStep, pc] at eq
      exact absurd (Option.some.inj eq) (goOn_ne pc (by simp))
    | unlock m =>
      simp only [taskStep, pc] at eq
      exact absurd eq (signalStep_ne pc (by simp))
    | user | yield | ret | spin | exit => simp [move, pc]
  | _ => exact absurd (step_nothing thread hstep) (by simp [Action.inThread])

/-- Every step makes the move that belongs to it, or no move. -/
theorem step_moves (h : Reachable cfg idle s) (timed : Timed s) (hstep : step s a = some s') :
    Moves cfg s a s' := by
  have inv := h.idleInv.inv
  have silent : ∀ e ∈ ([] : List Event), e.timed = false := by simp
  cases step_cases hstep with
  | sysTick | isr =>
    exact .none (by simp [move]) (ideal_same rfl silent (fun _ => rfl) rfl rfl rfl)
  | pendSv _ frames =>
    exact .none (by simp [move]) (ideal_same rfl silent (fun _ => rfl) rfl rfl rfl)
  | tickLeave frames | isrYield frames | isrReturn frames =>
    exact .none (by simp [move, frames]) (ideal_same rfl silent (fun _ => rfl) rfl rfl rfl)
  | tick frames more => exact tick_moves h timed frames more
  | switch frames => exact switch_moves h frames
  | isrSignal frames result => exact signal_moves h result rfl rfl rfl
  | nothing thread => exact nothing_moves thread hstep
  | delay thread pc pos => exact delay_moves (inv.thread_running thread pc (by simp) (by simp)) pos
  | waitQueued thread pc ref result | waitTaken thread pc ref result =>
    have run := inv.thread_running thread pc (by simp) (by simp)
    refine wait_moves h run result ?_ rfl rfl (by simp [Event.timed])
    rcases ref with ⟨_, rfl, rfl⟩ | ⟨_, rfl, rfl⟩ <;> rfl
  | signal thread ref result =>
    refine signal_moves h result ?_ rfl rfl
    rcases ref with ⟨_, rfl, rfl, -⟩ | ⟨_, rfl, rfl, pc⟩
    · rfl
    · simp [move, pc]
  | @release m thread pc owner =>
    have run := inv.thread_running thread pc (by simp) (by simp)
    exact .some (by simp [move, owner]) (.unlock (modeOf_runnable.mpr (.inr run)) owner)
      (owner_moves (by simp [Event.timed]))
  | trap _ pc owner =>
    exact .none (by simp [move, owner]) (ideal_same rfl silent (fun _ => rfl) rfl rfl rfl)
  | leave => exact .none (by simp [move]) (ideal_same rfl silent (fun _ => rfl) rfl rfl rfl)
  | @init i thread pc fresh => exact init_moves h fresh
  | yield _ pc =>
    exact .none (by simp [move, pc]) (ideal_same rfl silent (fun _ => rfl) rfl rfl rfl)
  | @ret c _ pc =>
    exact .none (by simp [move, pc])
      (ideal_same rfl (returnTo_untimed _ _ _) (fun _ => rfl) rfl rfl rfl)
  | @own m thread pc =>
    have run := inv.thread_running thread pc (by simp) (by simp)
    obtain ⟨tok, token⟩ := h.token m
    have taken := (token.claims _).mp (.inr (.inl pc))
    have free : s.k.owner m = none := by rw [token.owner, taken]; rfl
    exact .some (by simp [move, pc]) (.lock (modeOf_runnable.mpr (.inr run)) free)
      (owner_moves (by simp [Event.timed]))

end step

/-- Every run is a run of the ideal kernel that starts with all tasks runnable and nobody waiting:
the clock passes no deadline of a sleeper, a wake-up comes on its tick, tokens and waiting lines are
exact, a lock is taken only when it is free, and no task is made current that another one outranks. -/
theorem kernel_refines {cfg : Config} {idle : TaskId} {s₀ s : System} {tr : List (System × Action)}
    (hboot : boot cfg = some s₀) (created : idle < cfg.tasks.length)
    (run : Run (TimedStep idle) s₀ tr s) :
    ((ideal s₀).clock = cfg.ticks ∧ (∀ t < cfg.tasks.length, (ideal s₀).mode t = .runnable) ∧
      (∀ r, (ideal s₀).line r = []) ∧ ∀ m, (ideal s₀).owner m = none) ∧
    ∃ us, Run (IdealStep cfg s₀.k.prio) (ideal s₀) us (ideal s) ∧
      us.map Prod.snd = tr.filterMap move := by
  have some_task : 0 < cfg.tasks.length := Nat.zero_lt_of_lt created
  obtain ⟨booted, -, -, -, log⟩ := boot_spec hboot some_task
  have started : Reachable cfg idle s₀ := ⟨s₀, hboot, created, Reach.refl _ _⟩
  refine ⟨⟨?_, fun t ht => ?_, booted.queue, booted.owner⟩, ?_⟩
  · show ticks s₀.log = cfg.ticks
    rw [log, ticks_append (by simp [Event.timed]), ticks, List.count_replicate_self]
  · exact modeOf_runnable.mpr (.inl (booted.state ht))
  · refine (run.simulates (P := fun t => Reachable cfg idle t ∧ Timed t ∧ t.k.prio = s₀.k.prio)
      ideal move ⟨started, boot_timed hboot some_task, rfl⟩ ?_).2
    rintro t a u ⟨reachable, timed, prio⟩ ⟨hstep, awake, range⟩
    refine ⟨⟨reachable.next ⟨hstep, awake⟩, ?_, ?_⟩, ?_⟩
    · refine step_timed reachable.idleInv.inv timed hstep ?_
      rintro d rfl
      exact of_decide_eq_true range
    · exact (funext (step_prio hstep)).trans prio
    · have moves := step_moves reachable timed hstep
      rw [Moves, prio] at moves
      exact moves

/-- The tasks of `main.c`: the led task sleeps with the mutex, for which the counter task queues; the
tick wakes the led task, and it hands the mutex over. Then the consumer gets its signal. -/
theorem kernel_refines_led : ∃ (x y : IdealState TaskId SemRef Nat)
    (us : List (IdealState TaskId SemRef Nat × IdealState.Move TaskId SemRef Nat)) (prio : TaskId → BitVec 8),
    Run (IdealStep mainConfig prio) x us y ∧
      us.map Prod.snd = [.dispatch 2, .join (.sem 0), .dispatch 0, .take (.mutex 0), .lock 0, .sleep 1,
        .dispatch 1, .join (.mutex 0), .dispatch 3, .tick, .wake 0, .dispatch 0, .unlock 0,
        .hand (.mutex 0), .dispatch 1, .lock 0, .hand (.sem 0), .dispatch 2] := by
  let takeSwitch : List Action := [.pendSv, .handler]
  let acts : List Action :=
    takeSwitch ++ [.call (.wait 0), .task] ++ takeSwitch ++
    [.call (.acquire 0), .task, .task, .call (.delay 1), .task] ++ takeSwitch ++
    [.call (.acquire 0), .task] ++ takeSwitch ++ .sysTick :: List.replicate 11 .handler ++ takeSwitch ++
    [.task, .call (.release 0), .task, .task] ++ takeSwitch ++
    [.task, .task, .call (.signal 0), .task] ++ takeSwitch
  have trace : (boot mainConfig).any (fun s =>
      decide ((visited step s acts).filterMap move =
        [.dispatch 2, .join (.sem 0), .dispatch 0, .take (.mutex 0), .lock 0, .sleep 1,
        .dispatch 1, .join (.mutex 0), .dispatch 3, .tick, .wake 0, .dispatch 0, .unlock 0,
        .hand (.mutex 0), .dispatch 1, .lock 0, .hand (.sem 0), .dispatch 2]) &&
      (exec step (fun _ a t => decide (Awake 3 t.k) && a.inRange) s acts).isSome) = true := by
    decide +kernel
  obtain ⟨s₀, hboot, hp⟩ := (Option.any_eq_true _ _).mp trace
  simp only [Bool.and_eq_true, decide_eq_true_eq] at hp
  obtain ⟨moves, done⟩ := hp
  obtain ⟨s, hexec⟩ := Option.isSome_iff_exists.mp done
  have run := exec_timed hexec
  obtain ⟨us, ideal_run, labels⟩ := (kernel_refines hboot (by decide) run).2
  exact ⟨_, _, us, _, ideal_run, labels.trans moves⟩

end Rtos
