import Rtos.System.Step

/-! What the history says about the clock, and about the calls on one semaphore. -/
namespace Rtos

/-- The deadline of the latest `osDelay` call of `t`, counted in SysTicks without wrapping. -/
def newDeadline (t : TaskId) (deadline : Nat) : Event → Nat
  | .sleep u d => if u = t then d else deadline
  | _ => deadline

def deadline (t : TaskId) (log : List Event) : Nat := log.foldl (newDeadline t) 0

def Event.timed : Event → Bool
  | .tick => true
  | .sleep _ _ => true
  | _ => false

theorem ticks_snoc_tick (log : List Event) : ticks (log ++ [.tick]) = ticks log + 1 := by
  simp [ticks]

theorem ticks_snoc_sleep (log : List Event) (t : TaskId) (d : Nat) :
    ticks (log ++ [.sleep t d]) = ticks log := by
  simp [ticks]

theorem deadline_snoc_tick (t : TaskId) (log : List Event) :
    deadline t (log ++ [.tick]) = deadline t log := by
  simp [deadline, newDeadline]

theorem deadline_snoc_sleep (t u : TaskId) (d : Nat) (log : List Event) :
    deadline t (log ++ [.sleep u d]) = if u = t then d else deadline t log := by
  simp [deadline, newDeadline]

theorem ticks_append {log es : List Event} (untimed : ∀ e ∈ es, e.timed = false) :
    ticks (log ++ es) = ticks log := by
  have none : es.count .tick = 0 := by
    rw [List.count_eq_zero]
    intro mem
    cases untimed _ mem
  rw [ticks, List.count_append, none]; rfl

theorem deadline_append {log es : List Event} (untimed : ∀ e ∈ es, e.timed = false) (t : TaskId) :
    deadline t (log ++ es) = deadline t log := by
  rw [deadline, List.foldl_append]
  change es.foldl (newDeadline t) (deadline t log) = _
  induction es generalizing log with
  | nil => rfl
  | cons e es ih =>
    have same : newDeadline t (deadline t log) e = deadline t log := by
      have head := untimed e List.mem_cons_self
      cases e <;> first | rfl | cases head
    rw [List.foldl_cons, same]
    exact ih fun e mem => untimed e (List.mem_cons_of_mem _ mem)

theorem signalEvents_untimed (log : List Event) (r : SemRef) (signaller woken : Option TaskId) :
    ∀ e ∈ signalEvents log r signaller woken, e.timed = false := by
  cases woken <;> simp [signalEvents, Event.timed]

theorem returnTo_untimed (t : TaskId) (log : List Event) (c : Call) :
    ∀ e ∈ (returnTo t log c).2, e.timed = false := by
  rcases c with _ | (_ | _) | _ <;> simp [returnTo, Event.timed]

theorem prefix_append_of_not_mem {α : Type} {pre log es : List α} {e : α}
    (h : pre ++ [e] <+: log ++ es) (not : e ∉ es) : pre ++ [e] <+: log := by
  obtain ⟨t, eq⟩ := h
  rcases List.append_eq_append_iff.mp eq with ⟨mid, rfl, -⟩ | ⟨mid, split, rfl⟩
  · exact List.prefix_append _ _
  · cases mid using List.reverseRecOn with
    | nil => rw [List.append_nil] at split; rw [split]
    | append_singleton mid x =>
      rw [← List.append_assoc] at split
      have last := List.append_inj_right' split rfl
      simp at last
      simp [last] at not

/-- The calls on `r` that have entered their critical section, in this order. -/
def entered (r : SemRef) (log : List Event) : List CallId :=
  log.filterMap fun
    | .enter r' c => if r' = r then some c else none
    | _ => none

/-- The calls on `r` that were given a token, in this order. -/
def granted (r : SemRef) (log : List Event) : List CallId :=
  log.filterMap fun
    | .grant r' c => if r' = r then some c else none
    | _ => none

def signals (r : SemRef) (log : List Event) : Nat :=
  log.countP fun
    | .signal r' _ => r' = r
    | _ => false

/-- The latest `osSemaphoreWait` call of the task. -/
def callOf (log : List Event) (t : TaskId) : CallId := ⟨t, waits t log⟩

section append
variable (r : SemRef) (t : TaskId) (log es : List Event)

theorem entered_append : entered r (log ++ es) = entered r log ++ entered r es :=
  List.filterMap_append

theorem granted_append : granted r (log ++ es) = granted r log ++ granted r es :=
  List.filterMap_append

theorem signals_append : signals r (log ++ es) = signals r log + signals r es :=
  List.countP_append

theorem waits_append : waits t (log ++ es) = waits t log + waits t es :=
  List.countP_append
end append

/-- The semaphore whose account the event belongs to. -/
def Event.account : Event → Option SemRef
  | .init r _ => some r
  | .enter r _ => some r
  | .grant r _ => some r
  | .signal r _ => some r
  | _ => none

section account
variable {r : SemRef} {es : List Event}

theorem entered_other (h : ∀ e ∈ es, e.account ≠ some r) : entered r es = [] := by
  rw [entered, List.filterMap_eq_nil_iff]
  intro e mem
  have other := h e mem
  cases e <;> grind [Event.account]

theorem granted_other (h : ∀ e ∈ es, e.account ≠ some r) : granted r es = [] := by
  rw [granted, List.filterMap_eq_nil_iff]
  intro e mem
  have other := h e mem
  cases e <;> grind [Event.account]

theorem signals_other (h : ∀ e ∈ es, e.account ≠ some r) : signals r es = 0 := by
  rw [signals, List.countP_eq_zero]
  intro e mem
  have other := h e mem
  cases e <;> grind [Event.account]

theorem waits_other {t : TaskId} (h : ∀ r c, .enter r c ∈ es → c.task ≠ t) : waits t es = 0 := by
  rw [waits, List.countP_eq_zero]
  intro e mem
  cases e with
  | enter r c => simpa using h r c mem
  | _ => simp

theorem callOf_append {log : List Event} {t : TaskId} (h : ∀ r c, .enter r c ∈ es → c.task ≠ t) :
    callOf (log ++ es) t = callOf log t := by
  rw [callOf, waits_append, waits_other h, Nat.add_zero]; rfl
end account

end Rtos
