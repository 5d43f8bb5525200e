import Rtos.Lib.TokenLedger
import Rtos.System.Log
import Rtos.System.Reachable

/-! Every semaphore keeps a ledger: its counter is the number of tokens, its wait queue the
calls that wait, and both paths that give out tokens post to the same accounts. -/
namespace Rtos
open Lib

/-- The semaphore `r` and its history, read as a ledger. -/
structure Refines (r : SemRef) (k : Kernel) (log : List Event) {n : Nat} (l : Ledger CallId n) :
    Prop where
  tokens : ∃ s, k.sems r = some s ∧ s.count = l.tokens
  waiting : l.waiting = (k.queue r).map (callOf log)
  granted : l.granted = granted r log
  entered : l.entered = entered r log
  signals : l.signals = signals r log

/-- An uninitialised semaphore has no history, an initialised one a ledger. -/
structure Accounts (r : SemRef) (k : Kernel) (log : List Event) : Prop where
  fresh : k.sems r = none → ∀ e ∈ log, e.account ≠ some r
  ledger : ∀ n : Nat, .init r n ∈ log → n + signals r log < 2 ^ 31 →
    ∃ l : Ledger CallId n, Refines r k log l

section steps
variable {r : SemRef} {k k' : Kernel} {log es : List Event}

theorem Accounts.other (h : Accounts r k log) (sems : k'.sems r = k.sems r)
    (apart : ∀ e ∈ es, e.account ≠ some r)
    (calls : ∀ t ∈ k.queue r, ∀ r' c, .enter r' c ∈ es → c.task ≠ t) :
    Accounts r k' (log ++ es) := by
  have signals_eq : signals r (log ++ es) = signals r log := by
    rw [signals_append, signals_other apart, Nat.add_zero]
  constructor
  · intro none e mem
    rw [sems] at none
    exact (List.mem_append.mp mem).elim (h.fresh none e) (apart e)
  · intro n init small
    have old : .init r (n : Int) ∈ log := by
      refine (List.mem_append.mp init).resolve_right fun new => ?_
      exact apart _ new rfl
    rw [signals_eq] at small
    obtain ⟨l, tokens, waiting, grants, enters, sigs⟩ := h.ledger n old small
    refine ⟨l, ?_, ?_, ?_, ?_, ?_⟩
    · rw [sems]; exact tokens
    · rw [waiting, Kernel.queue_congr sems]
      exact List.map_congr_left fun t mem => (callOf_append (calls t mem)).symm
    · rw [granted_append, granted_other apart, List.append_nil]; exact grants
    · rw [entered_append, entered_other apart, List.append_nil]; exact enters
    · rw [signals_eq]; exact sigs

theorem Accounts.signal {woken signaller : Option TaskId} (h : Accounts r k log)
    (queued : k.Queued) (result : osSemaphoreSignal k r = some (k', woken)) :
    Accounts r k' (log ++ signalEvents log r signaller woken) := by
  obtain ⟨s, hs, effect⟩ := osSemaphoreSignal_effect queued result
  have sems' : k'.sems r ≠ none := by
    rcases effect with ⟨u, q, -, -, rfl⟩ | ⟨-, -, rfl⟩
    · rw [Kernel.dequeue_sems, if_pos rfl]; simp
    · rw [Kernel.setSem_sems, if_pos rfl]; simp
  refine ⟨fun none => absurd none sems', fun n init small => ?_⟩
  have old : .init r (n : Int) ∈ log := by
    refine (List.mem_append.mp init).resolve_right fun new => ?_
    cases woken <;> simp [signalEvents] at new
  have one : signals r (log ++ signalEvents log r signaller woken) = signals r log + 1 := by
    rw [signals_append]
    cases woken <;> simp [signalEvents, signals]
  have waits_eq : ∀ t, callOf (log ++ signalEvents log r signaller woken) t = callOf log t := by
    intro t
    apply callOf_append
    cases woken <;> simp [signalEvents]
  have entered_eq : entered r (log ++ signalEvents log r signaller woken) = entered r log := by
    rw [entered_append]
    cases woken <;> simp [signalEvents, entered]
  rw [one] at small
  obtain ⟨l, ⟨s₀, hs₀, tokens⟩, waiting, grants, enters, sigs⟩ := h.ledger n old (by omega)
  obtain rfl : s = s₀ := Option.some.inj (hs.symm.trans hs₀)
  rcases effect with ⟨u, q, rfl, hq, rfl⟩ | ⟨rfl, hq, rfl⟩
  · have first : l.waiting = callOf log u :: q.map (callOf log) := by rw [waiting, hq]; rfl
    refine ⟨l.handOver _ _ first, ?_, ?_, ?_, ?_, ?_⟩
    · exact ⟨_, (Kernel.dequeue_sems ..).trans (if_pos rfl), tokens⟩
    · rw [queued.queue_dequeue hs hq, if_pos rfl]
      exact List.map_congr_left fun t _ => (waits_eq t).symm
    · rw [granted_append, ← grants]
      simp [Ledger.handOver, signalEvents, granted, callOf]
    · rw [Ledger.handOver_entered, entered_eq]; exact enters
    · rw [one, ← sigs]; rfl
  · have empty : l.waiting = [] := by rw [waiting, hq]; rfl
    refine ⟨l.put empty, ?_, ?_, ?_, ?_, ?_⟩
    · refine ⟨_, by rw [Kernel.setSem_sems, if_pos rfl], ?_⟩
      have balance := l.balance
      have range : s.count + 1 = (l.tokens + 1 : Nat) := by rw [tokens]; rfl
      simp only [range, wrap32, Ledger.put]
      apply Int.bmod_eq_of_le <;> omega
    · rw [Kernel.queue_setCount hs, hq]; exact empty
    · rw [granted_append, ← grants]
      simp [Ledger.put, signalEvents, granted]
    · rw [Ledger.put_entered, entered_eq]; exact enters
    · rw [one, ← sigs]; rfl

theorem Accounts.wait {queuedUp : Bool} {c : CallId} (h : Accounts r k log) (queued : k.Queued)
    (awake : k.state k.currentTask ≠ .blocked) (created : k.currentTask < k.taskCount)
    (result : osSemaphoreWait k r = some (k', queuedUp))
    (fresh : c = ⟨k.currentTask, waits k.currentTask log + 1⟩)
    (events : es = .enter r c :: if queuedUp then [] else [.grant r c]) :
    Accounts r k' (log ++ es) := by
  obtain ⟨s, hs, effect⟩ := osSemaphoreWait_effect result
  have sems' : k'.sems r ≠ none := by
    rcases effect with ⟨-, -, rfl⟩ | ⟨-, -, -, rfl⟩
    · rw [Kernel.setSem_sems, if_pos rfl]; simp
    · rw [Kernel.enqueue_sems, if_pos rfl]; simp
  have task : c.task = k.currentTask := by rw [fresh]
  refine ⟨fun none => absurd none sems', fun n init small => ?_⟩
  have old : .init r (n : Int) ∈ log := by
    refine (List.mem_append.mp init).resolve_right fun new => ?_
    cases queuedUp <;> simp [events] at new
  have none : signals r (log ++ es) = signals r log := by
    rw [signals_append]
    cases queuedUp <;> simp [events, signals]
  have enters_eq : entered r (log ++ es) = entered r log ++ [c] := by
    rw [entered_append]
    cases queuedUp <;> simp [events, entered]
  have others : ∀ t ∈ k.queue r, callOf (log ++ es) t = callOf log t := by
    intro t mem
    have other : k.currentTask ≠ t := fun eq =>
      queued.not_mem created awake r (eq ▸ mem)
    apply callOf_append
    cases queuedUp <;> simp [events, task, other]
  rw [none] at small
  obtain ⟨l, ⟨s₀, hs₀, tokens⟩, waiting, grants, enters, sigs⟩ := h.ledger n old small
  obtain rfl : s = s₀ := Option.some.inj (hs.symm.trans hs₀)
  rcases effect with ⟨rfl, free, rfl⟩ | ⟨rfl, taken, -, rfl⟩
  · have some_token : 0 < l.tokens := by omega
    refine ⟨l.take c some_token, ?_, ?_, ?_, ?_, ?_⟩
    · refine ⟨_, by rw [Kernel.setSem_sems, if_pos rfl], ?_⟩
      simp only [Ledger.take]
      omega
    · rw [Kernel.queue_setCount hs]
      refine Eq.trans (waiting : (l.take c some_token).waiting = _) ?_
      exact List.map_congr_left fun t mem => (others t mem).symm
    · rw [granted_append, ← grants]
      simp [Ledger.take, events, granted]
    · rw [Ledger.take_entered, enters_eq, ← enters]
    · rw [none]; exact sigs
  · have no_token : l.tokens = 0 := by omega
    have last : callOf (log ++ es) k.currentTask = c := by
      rw [callOf, waits_append, fresh]
      simp [events, waits, task]
    refine ⟨l.queue c no_token, ?_, ?_, ?_, ?_, ?_⟩
    · exact ⟨_, (Kernel.enqueue_sems ..).trans (if_pos rfl), tokens⟩
    · rw [queued.queue_enqueue hs, if_pos rfl, List.map_append, List.map_singleton, last]
      refine congrArg (· ++ [c]) (waiting.trans ?_)
      exact List.map_congr_left fun t mem => (others t mem).symm
    · rw [granted_append, ← grants]
      simp [Ledger.queue, events, granted]
    · rw [Ledger.queue_entered, enters_eq, ← enters]
    · rw [none]; exact sigs

theorem Accounts.init {i : Init} (h : Accounts i.ref k log) (fresh : k.sems i.ref = none) :
    Accounts i.ref (i.apply k) (log ++ [.init i.ref i.count]) := by
  have silent := h.fresh fresh
  have sems' : (i.apply k).sems i.ref = some (semInit i.count) := by
    rw [Init.apply_sems, if_pos rfl]
  refine ⟨fun none => Option.some_ne_none _ (sems'.symm.trans none) |>.elim, fun n init _ => ?_⟩
  have n_eq : (n : Int) = i.count := by
    rcases List.mem_append.mp init with old | new
    · exact absurd rfl (silent _ old)
    · simpa using new
  refine ⟨.start n, ⟨_, sems', n_eq.symm⟩, ?_, ?_, ?_, ?_⟩
  · rw [Kernel.queue_init fresh, Kernel.queue_none fresh]; rfl
  · rw [granted_append, granted_other silent]; rfl
  · rw [entered_append, entered_other silent]; rfl
  · rw [signals_append, signals_other silent]; rfl

end steps

theorem signal_sems {k k' : Kernel} {r r' : SemRef} {woken : Option TaskId}
    (result : osSemaphoreSignal k r' = some (k', woken)) (other : r ≠ r') :
    k'.sems r = k.sems r := by
  obtain ⟨s, -, ⟨u, -, -, -, rfl⟩ | ⟨-, -, rfl⟩⟩ := osSemaphoreSignal_cases result
  · rw [Kernel.setState_sems, Kernel.setSem_sems, if_neg other]
  · rw [Kernel.setSem_sems, if_neg other]

theorem wait_sems {k k' : Kernel} {r r' : SemRef} {queued : Bool}
    (result : osSemaphoreWait k r' = some (k', queued)) (other : r ≠ r') :
    k'.sems r = k.sems r := by
  obtain ⟨s, -, ⟨-, -, rfl⟩ | ⟨-, -, -, rfl⟩⟩ := osSemaphoreWait_cases result
  · rw [Kernel.setSem_sems, if_neg other]
  · rw [Kernel.setState_sems, Kernel.setSem_sems, if_neg other]

theorem signalEvents_account {log : List Event} {r r' : SemRef} {signaller woken : Option TaskId}
    (other : r ≠ r') : ∀ e ∈ signalEvents log r' signaller woken, e.account ≠ some r := by
  cases woken <;> simp [signalEvents, Event.account, other.symm]

theorem signalEvents_calls (log : List Event) (r' : SemRef) (signaller woken : Option TaskId)
    (r'' : SemRef) (c : CallId) : .enter r'' c ∉ signalEvents log r' signaller woken := by
  cases woken <;> simp [signalEvents]

theorem Accounts.wait_any {k k' : Kernel} {log es : List Event} {r r' : SemRef} {queuedUp : Bool}
    (h : Accounts r k log) (wf : k.Wf) (queued : k.Queued)
    (run : k.state k.currentTask = .running) (result : osSemaphoreWait k r' = some (k', queuedUp))
    (events : es = .enter r' ⟨k.currentTask, waits k.currentTask log + 1⟩ ::
      if queuedUp then [] else [.grant r' ⟨k.currentTask, waits k.currentTask log + 1⟩]) :
    Accounts r k' (log ++ es) := by
  have awake : k.state k.currentTask ≠ .blocked := by rw [run]; simp
  by_cases eq : r = r'
  · subst eq
    exact h.wait queued awake wf.current_lt result rfl events
  · refine h.other (wait_sems result eq) ?_ ?_
    · cases queuedUp <;> simp [events, Event.account, Ne.symm eq]
    · intro t mem r'' c enter task
      have cur : c.task = k.currentTask := by
        cases queuedUp <;> simp [events] at enter <;> rw [enter.2]
      rw [← task, cur] at mem
      exact queued.not_mem wf.current_lt awake r mem

theorem step_accounts {s s' : System} {a : Action} {r : SemRef} (inv : Inv s)
    (h : Accounts r s.k s.log) (hstep : step s a = some s') : Accounts r s'.k s'.log := by
  cases step_cases hstep with
  | sysTick | isr | pendSv | tickLeave | isrYield | isrReturn | trap | leave | yield =>
    exact h.other rfl (by simp) (by simp)
  | nothing => exact h
  | @tick p =>
    refine h.other (congrFun (tickStep_sems s.k p) r) ?_ ?_ <;> cases p <;>
      simp [tickEvents, Event.account]
  | switch => exact h.other (congrFun (osSchedule_sems _) r) (by simp) (by simp)
  | @isrSignal j _ _ _ _ result =>
    by_cases eq : r = .sem j
    · subst eq; exact h.signal inv.queued result
    · exact h.other (signal_sems result eq) (signalEvents_account eq)
        fun _ _ _ _ mem => absurd mem (signalEvents_calls _ _ _ _ _ _)
  | delay | release | own => exact h.other rfl (by simp [Event.account]) (by simp)
  | waitQueued thread pc _ result | waitTaken thread pc _ result =>
    exact h.wait_any inv.wf inv.queued (inv.thread_running thread pc (by simp) (by simp)) result rfl
  | @signal _ r' _ _ _ _ result =>
    by_cases eq : r = r'
    · subst eq; exact h.signal inv.queued result
    · exact h.other (signal_sems result eq) (signalEvents_account eq)
        fun _ _ _ _ mem => absurd mem (signalEvents_calls _ _ _ _ _ _)
  | @init i _ _ fresh =>
    by_cases eq : r = i.ref
    · subst eq; exact h.init fresh
    · refine h.other ?_ (by simp [Event.account, Ne.symm eq]) (by simp)
      rw [System.goOn_k, Init.apply_sems, if_neg eq]
  | @ret c =>
    refine h.other rfl ?_ ?_ <;> rcases c with _ | (_ | _) | _ <;> simp [returnTo, Event.account]

theorem boot_accounts {cfg : Config} {s : System} (hboot : boot cfg = some s)
    (some_task : 0 < cfg.tasks.length) (r : SemRef) : Accounts r s.k s.log := by
  have booted := (boot_spec hboot some_task).1
  have plain := boot_log hboot some_task
  constructor
  · intro none e mem acc
    rcases plain e mem with rfl | ⟨i, hi, rfl⟩
    · cases acc
    · cases Option.some.inj acc
      rw [booted.sems i hi] at none; cases none
  · intro n init _
    obtain ⟨i, hi, eq⟩ := (plain _ init).resolve_left (by simp)
    obtain ⟨rfl, count⟩ : r = i.ref ∧ (n : Int) = i.count := by simpa using eq
    refine ⟨.start n, ⟨_, booted.sems i hi, count.symm⟩, ?_, ?_, ?_, ?_⟩
    · rw [booted.queue]; rfl
    · refine (List.filterMap_eq_nil_iff.mpr fun e mem => ?_).symm
      rcases plain e mem with rfl | ⟨_, _, rfl⟩ <;> rfl
    · refine (List.filterMap_eq_nil_iff.mpr fun e mem => ?_).symm
      rcases plain e mem with rfl | ⟨_, _, rfl⟩ <;> rfl
    · refine (List.countP_eq_zero.mpr fun e mem => ?_).symm
      rcases plain e mem with rfl | ⟨_, _, rfl⟩ <;> simp

/-- The calls on every semaphore are numbered apart. -/
def Numbered (log : List Event) : Prop :=
  ∀ r, (∀ c ∈ entered r log, c.no ≤ waits c.task log) ∧ (entered r log).Nodup

theorem entered_none {es : List Event} (quiet : ∀ r c, .enter r c ∉ es) (r : SemRef) :
    entered r es = [] := by
  rw [entered, List.filterMap_eq_nil_iff]
  intro e mem
  cases e with
  | enter r' c => exact absurd mem (quiet r' c)
  | _ => rfl

theorem Numbered.quiet {log es : List Event} (h : Numbered log) (quiet : ∀ r c, .enter r c ∉ es) :
    Numbered (log ++ es) := by
  intro r
  rw [entered_append, entered_none quiet, List.append_nil]
  refine ⟨fun c mem => ?_, (h r).2⟩
  rw [waits_append]
  exact Nat.le_add_right_of_le ((h r).1 c mem)

theorem Numbered.enter {log rest : List Event} {r' : SemRef} {t : TaskId} (h : Numbered log)
    (quiet : ∀ r c, .enter r c ∉ rest) :
    Numbered (log ++ .enter r' ⟨t, waits t log + 1⟩ :: rest) := by
  intro r
  have count : ∀ u, waits u (log ++ .enter r' ⟨t, waits t log + 1⟩ :: rest) =
      waits u log + if t = u then 1 else 0 := by
    intro u
    rw [waits_append]
    congr 1
    have none := waits_other (t := u) fun r c mem => absurd mem (quiet r c)
    rw [waits] at none
    rw [waits, List.countP_cons, none]
    simp
  have enters : entered r (log ++ .enter r' ⟨t, waits t log + 1⟩ :: rest) =
      entered r log ++ if r' = r then [⟨t, waits t log + 1⟩] else [] := by
    rw [entered_append]
    congr 1
    rw [← List.singleton_append, entered_append, entered_none quiet, List.append_nil]
    by_cases same : r' = r <;> simp [entered, same]
  rw [enters]
  refine ⟨fun c mem => ?_, ?_⟩
  · rw [count]
    rcases List.mem_append.mp mem with old | new
    · exact Nat.le_add_right_of_le ((h r).1 c old)
    · split at new
      · cases List.mem_singleton.mp new
        simp
      · cases new
  · split
    · refine List.Nodup.append (h r).2 (List.nodup_singleton _) (List.disjoint_singleton.mpr ?_)
      intro mem
      exact absurd ((h r).1 _ mem) (Nat.not_succ_le_self _)
    · rw [List.append_nil]; exact (h r).2

/-- In `osSemaphoreWait(r)`, behind its critical section. -/
def InWait (r : SemRef) (p : Pc) : Prop := p = .yield (.wait r) ∨ p = .ret (.wait r)

/-- A call that waits is queued or has been granted, and one that has returned was granted
before. -/
structure Calls (s : System) : Prop where
  numbered : Numbered s.log
  inWait : ∀ t r, InWait r (s.pc t) → t ∈ s.k.queue r ∨ callOf s.log t ∈ granted r s.log
  returned : ∀ r pre c, pre ++ [.waitRet r c] <+: s.log → c ∈ granted r pre

theorem Calls.keep {s s' : System} {es : List Event} (h : Calls s) (log : s'.log = s.log ++ es)
    (enters : ∀ r c, .enter r c ∉ es) (returns : ∀ r c, .waitRet r c ∉ es)
    (pc : ∀ t r, InWait r (s'.pc t) → InWait r (s.pc t))
    (queue : ∀ t r, InWait r (s.pc t) → t ∈ s.k.queue r →
      t ∈ s'.k.queue r ∨ callOf s.log t ∈ granted r es) : Calls s' := by
  constructor
  · rw [log]; exact h.numbered.quiet enters
  · intro t r waiting
    have same : callOf s'.log t = callOf s.log t := by
      rw [log]; exact callOf_append fun r c mem => absurd mem (enters r c)
    rw [same, log, granted_append]
    rcases h.inWait t r (pc t r waiting) with queued | given
    · exact (queue t r (pc t r waiting) queued).imp_right (List.mem_append_right _)
    · exact .inr (List.mem_append_left _ given)
  · intro r pre c returned
    rw [log] at returned
    exact h.returned r pre c (prefix_append_of_not_mem returned (returns r c))

theorem inWait_update {pc : TaskId → Pc} {cur : TaskId} {p : Pc}
    (still : ∀ r, InWait r p → InWait r (pc cur)) (t : TaskId) (r : SemRef)
    (waiting : InWait r (Function.update pc cur p t)) : InWait r (pc t) := by
  by_cases eq : t = cur
  · subst eq
    rw [Function.update_self] at waiting
    exact still r waiting
  · rwa [Function.update_of_ne eq] at waiting

theorem Calls.signal {s s' : System} {r : SemRef} {signaller woken : Option TaskId} (inv : Inv s)
    (h : Calls s) (result : osSemaphoreSignal s.k r = some (s'.k, woken))
    (log : s'.log = s.log ++ signalEvents s.log r signaller woken)
    (pc : ∀ t r, InWait r (s'.pc t) → InWait r (s.pc t)) : Calls s' := by
  refine h.keep log (signalEvents_calls _ _ _ _) ?_ pc ?_
  · intro r c
    cases woken <;> simp [signalEvents]
  · intro t r' waiting mem
    obtain ⟨sem, hs, ⟨u, q, rfl, hq, eq⟩ | ⟨-, hq, eq⟩⟩ := osSemaphoreSignal_effect inv.queued result
    · rw [eq, inv.queued.queue_dequeue hs hq]
      by_cases same : r' = r
      · subst same
        rw [if_pos rfl]
        rw [hq] at mem
        rcases List.mem_cons.mp mem with rfl | later
        · exact .inr (by simp [granted, signalEvents, callOf])
        · exact .inl later
      · rw [if_neg same]; exact .inl mem
    · rw [eq, Kernel.queue_setCount hs]; exact .inl mem

theorem Calls.wait {s s' : System} {r : SemRef} {queuedUp : Bool} {es : List Event} {p : Pc}
    (inv : Inv s) (h : Calls s) (run : s.k.state s.k.currentTask = .running)
    (result : osSemaphoreWait s.k r = some (s'.k, queuedUp)) (log : s'.log = s.log ++ es)
    (events : es = .enter r ⟨s.k.currentTask, waits s.k.currentTask s.log + 1⟩ ::
      if queuedUp then [] else [.grant r ⟨s.k.currentTask, waits s.k.currentTask s.log + 1⟩])
    (pc : s'.pc = Function.update s.pc s.k.currentTask p) (at_ : InWait r p) : Calls s' := by
  have awake : s.k.state s.k.currentTask ≠ .blocked := by rw [run]; simp
  have quiet : ∀ r' c, .enter r' c ∉ (if queuedUp then [] else
      [.grant r ⟨s.k.currentTask, waits s.k.currentTask s.log + 1⟩] : List Event) := by
    cases queuedUp <;> simp
  constructor
  · rw [log, events]; exact h.numbered.enter quiet
  · intro t r' waiting
    rw [pc] at waiting
    by_cases cur : t = s.k.currentTask
    · subst cur
      rw [Function.update_self] at waiting
      have own : r' = r := by
        rcases at_ with rfl | rfl <;> rcases waiting with eq | eq <;> cases eq <;> rfl
      subst own
      obtain ⟨sem, hs, ⟨rfl, -, eq⟩ | ⟨rfl, -, -, eq⟩⟩ := osSemaphoreWait_effect result
      · right
        have call : callOf s'.log s.k.currentTask =
            ⟨s.k.currentTask, waits s.k.currentTask s.log + 1⟩ := by
          rw [callOf, log, waits_append, events]
          simp [waits]
        rw [call, log, granted_append, events]
        simp [granted]
      · left
        rw [eq, inv.queued.queue_enqueue hs, if_pos rfl]
        simp
    · rw [Function.update_of_ne cur] at waiting
      have same : callOf s'.log t = callOf s.log t := by
        rw [log]
        apply callOf_append
        intro r'' c mem task
        cases queuedUp <;> simp [events] at mem <;> rw [mem.2] at task <;> exact cur task.symm
      rw [same, log, granted_append]
      rcases h.inWait t r' waiting with queued | given
      · left
        obtain ⟨sem, hs, ⟨-, -, eq⟩ | ⟨-, -, -, eq⟩⟩ := osSemaphoreWait_effect result
        · rw [eq, Kernel.queue_setCount hs]; exact queued
        · rw [eq, inv.queued.queue_enqueue hs]
          split
          · rename_i eq; exact List.mem_append_left _ (eq ▸ queued)
          · exact queued
      · exact .inr (List.mem_append_left _ given)
  · intro r' pre c returned
    rw [log] at returned
    refine h.returned r' pre c (prefix_append_of_not_mem returned ?_)
    cases queuedUp <;> simp [events]

/-- A wait call returns: its caller is not queued any more, so it was granted. -/
theorem Calls.waitRet {s s' : System} {r : SemRef} {p : Pc} (inv : Inv s) (h : Calls s)
    (run : s.k.state s.k.currentTask = .running) (at_ : s.pc s.k.currentTask = .ret (.wait r))
    (k : s'.k = s.k) (log : s'.log = s.log ++ [.waitRet r (callOf s.log s.k.currentTask)])
    (pc : s'.pc = Function.update s.pc s.k.currentTask p) (out : ∀ r, ¬ InWait r p) : Calls s' := by
  have awake : s.k.state s.k.currentTask ≠ .blocked := by rw [run]; simp
  have given := (h.inWait _ r (.inr at_)).resolve_left
    (inv.queued.not_mem inv.wf.current_lt awake r)
  constructor
  · rw [log]; exact h.numbered.quiet (by simp)
  · intro t r' waiting
    rw [pc] at waiting
    have other : t ≠ s.k.currentTask := by
      rintro rfl
      rw [Function.update_self] at waiting
      exact out r' waiting
    rw [Function.update_of_ne other] at waiting
    have same : callOf s'.log t = callOf s.log t := by
      rw [log]; exact callOf_append (by simp)
    rw [same, log, granted_append, k]
    exact (h.inWait t r' waiting).imp_right (List.mem_append_left _)
  · intro r' pre c returned
    rw [log] at returned
    rcases List.prefix_concat_iff.mp returned with now | before
    · obtain ⟨rfl, last⟩ := List.append_inj' now rfl
      obtain ⟨rfl, rfl⟩ : r' = r ∧ c = callOf s.log s.k.currentTask := by simpa using last
      exact given
    · exact h.returned r' pre c before

theorem step_calls {s s' : System} {a : Action} (inv : Inv s) (h : Calls s)
    (hstep : step s a = some s') : Calls s' := by
  have keep_queue : ∀ {k : Kernel}, k.sems = s.k.sems → ∀ t r, InWait r (s.pc t) →
      t ∈ s.k.queue r → t ∈ k.queue r ∨ callOf s.log t ∈ granted r ([] : List Event) := by
    intro k sems t r _ mem
    rw [Kernel.queue_congr (congrFun sems r)]; exact .inl mem
  cases step_cases hstep with
  | sysTick | isr | pendSv | tickLeave | isrYield | isrReturn =>
    exact h.keep rfl (by simp) (by simp) (fun _ _ => id) (keep_queue rfl)
  | nothing => exact h
  | @tick p =>
    refine h.keep rfl ?_ ?_ (fun _ _ => id) fun t r _ mem => .inl ?_
    · cases p <;> simp [tickEvents]
    · cases p <;> simp [tickEvents]
    · rw [System.goOnAt_k, Kernel.queue_congr (congrFun (tickStep_sems s.k p) r)]; exact mem
  | switch => exact h.keep rfl (by simp) (by simp) (fun _ _ => id) (keep_queue (osSchedule_sems _))
  | isrSignal _ result => exact h.signal inv result rfl fun _ _ => id
  | delay thread pc | release thread pc | own thread pc =>
    exact h.keep rfl (by simp) (by simp) (inWait_update (by simp [InWait])) fun _ _ _ mem => .inl mem
  | waitQueued thread pc _ result =>
    exact h.wait inv (inv.thread_running thread pc (by simp) (by simp)) result rfl rfl rfl (.inl rfl)
  | waitTaken thread pc _ result =>
    exact h.wait inv (inv.thread_running thread pc (by simp) (by simp)) result rfl rfl rfl (.inr rfl)
  | signal _ _ result =>
    refine h.signal inv result rfl (inWait_update ?_)
    intro r
    split <;> simp [InWait]
  | trap | leave =>
    exact h.keep rfl (by simp) (by simp) (inWait_update (by simp [InWait])) (keep_queue rfl)
  | init _ _ fresh =>
    refine h.keep rfl (by simp) (by simp) (inWait_update (by simp [InWait])) fun t r _ mem => .inl ?_
    rw [System.goOn_k, Kernel.queue_init fresh]; exact mem
  | yield _ pc =>
    exact h.keep rfl (by simp) (by simp) (inWait_update (by simp [InWait, pc])) (keep_queue rfl)
  | @ret c thread pc =>
    have run := inv.thread_running thread pc (by simp) (by simp)
    cases c with
    | delay | signal r =>
      exact h.keep rfl (by simp [returnTo]) (by simp [returnTo])
        (inWait_update (by simp [InWait, returnTo])) fun _ _ _ mem => .inl mem
    | wait r =>
      cases r with
      | sem j => exact h.waitRet inv run pc rfl rfl rfl (by simp [InWait, returnTo])
      | mutex m => exact h.waitRet inv run pc rfl rfl rfl (by simp [InWait, returnTo])

theorem boot_calls {cfg : Config} {s : System} (hboot : boot cfg = some s)
    (some_task : 0 < cfg.tasks.length) : Calls s := by
  obtain ⟨-, pc, -⟩ := boot_spec hboot some_task
  have no_enter : ∀ r c, .enter r c ∉ s.log := by
    intro r c mem
    rcases boot_log hboot some_task _ mem with eq | ⟨_, _, eq⟩ <;> cases eq
  constructor
  · intro r
    rw [entered_none no_enter]
    exact ⟨by simp, List.nodup_nil⟩
  · intro t r waiting
    rw [pc] at waiting
    rcases waiting with eq | eq <;> cases eq
  · intro r pre c returned
    have mem := returned.subset (List.mem_append_right pre List.mem_cons_self)
    rcases boot_log hboot some_task _ mem with eq | ⟨_, _, eq⟩ <;> cases eq

/-- Tokens are conserved, nobody waits while there is one, they are given out in the order of
the calls, and a call returns only with a grant of its own. -/
theorem tokens_conserved {cfg : Config} {idle : TaskId} {s : System} {r : SemRef} {n : Int}
    (h : Reachable cfg idle s) (init : .init r n ∈ s.log) (nonneg : 0 ≤ n)
    (small : n + signals r s.log < 2 ^ 31) :
    ∃ sem, s.k.sems r = some sem ∧
      sem.count = n + signals r s.log - (granted r s.log).length ∧ 0 ≤ sem.count ∧
      (0 < sem.count → sem.waitCount = 0) ∧
      granted r s.log <+: entered r s.log ∧
      (∀ pre c, pre ++ [.waitRet r c] <+: s.log → c ∈ granted r pre) ∧
      (entered r s.log).Nodup ∧ (granted r s.log).Nodup := by
  obtain ⟨⟨inv, -, -⟩, accounts, calls⟩ := h.induct
    (P := fun s => (∀ r, Accounts r s.k s.log) ∧ Calls s)
    (fun s₀ hboot _ => ⟨boot_accounts hboot h.some_task, boot_calls hboot h.some_task⟩)
    fun t a u inv p hstep _ =>
      ⟨fun r => step_accounts inv.inv (p.1 r) hstep, step_calls inv.inv p.2 hstep⟩
  obtain ⟨m, rfl⟩ := Int.eq_ofNat_of_zero_le nonneg
  obtain ⟨l, ⟨sem, hs, tokens⟩, waiting, grants, enters, sigs⟩ :=
    (accounts r).ledger m init (by omega)
  have balance := l.balance
  have order : granted r s.log <+: entered r s.log := by
    rw [← grants, ← enters]; exact l.granted_prefix
  have apart := (calls.numbered r).2
  refine ⟨sem, hs, ?_, ?_, ?_, order, calls.returned r, apart, apart.sublist order.sublist⟩
  · rw [tokens, ← sigs, ← grants]; omega
  · omega
  · intro free
    have empty : l.waiting = [] := l.busy (by omega)
    rw [waiting, List.map_eq_nil_iff] at empty
    exact (inv.queued.hold r sem hs).empty_iff.mpr empty

/-- The consumer of `main.c` waits for a blink, gets it from the led task, and returns. -/
theorem tokens_conserved_blink : ∃ s : System, (granted (.sem 0) s.log).length = 1 ∧
    ∃ sem, s.k.sems (.sem 0) = some sem ∧ sem.count = 0 + (1 : Nat) - (1 : Nat) := by
  obtain ⟨s, h, hp⟩ := reachable_of_exec mainConfig 3
    [.pendSv, .handler, .call (.wait 0), .task, .pendSv, .handler, .call (.signal 0), .task,
      .pendSv, .handler, .task]
    (fun s => .init (.sem 0) 0 ∈ s.log ∧ signals (.sem 0) s.log = 1 ∧
      (granted (.sem 0) s.log).length = 1 ∧ .waitRet (.sem 0) ⟨2, 1⟩ ∈ s.log)
    (by decide) (by decide)
  obtain ⟨init, sigs, grants, -⟩ := of_decide_eq_true hp
  obtain ⟨sem, hs, count, -⟩ := tokens_conserved h init le_rfl (by omega)
  rw [sigs, grants] at count
  exact ⟨s, grants, sem, hs, count⟩

end Rtos
