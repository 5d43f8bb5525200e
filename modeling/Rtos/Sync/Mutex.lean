import Mathlib.Algebra.BigOperators.Group.List.Basic
import Rtos.Sync.Conservation

/-! Mutual exclusion. A mutex has one token. `osMutexAcquire` takes it in `osSemaphoreWait` and
records the owner later; `osMutexRelease` clears the owner and hands the token on later. The
invariant says where the token is at all these points. -/
namespace Rtos
open Lib

/-- Where the token of a mutex is. -/
inductive Token where
  | unmade
  | free
  /-- granted to the task, but not recorded as its own, or not any more -/
  | taken (t : TaskId)
  | owned (t : TaskId)
  deriving DecidableEq, Repr

namespace Token

def count : Token → Int
  | .free => 1
  | _ => 0

def holder : Token → Option TaskId
  | .taken t => some t
  | .owned t => some t
  | _ => none

def owner : Token → Option TaskId
  | .owned t => some t
  | _ => none

end Token

/-- Grants of the token to `t`, less the signals by `t`. -/
def tokenChange (m : Nat) (t : TaskId) : Event → Int
  | .grant r c => if r = .mutex m ∧ c.task = t then 1 else 0
  | .signal r u => if r = .mutex m ∧ u = some t then -1 else 0
  | _ => 0

def held (m : Nat) (t : TaskId) (log : List Event) : Int := (log.map (tokenChange m t)).sum

/-- Returns of `osMutexAcquire` to `t`, less its calls of `osMutexRelease`. -/
def sectionChange (m : Nat) (t : TaskId) : Event → Int
  | .acquired m' u => if m' = m ∧ u = t then 1 else 0
  | .released m' u => if m' = m ∧ u = t then -1 else 0
  | _ => 0

def inSection (m : Nat) (t : TaskId) (log : List Event) : Int :=
  (log.map (sectionChange m t)).sum

theorem held_append (m : Nat) (t : TaskId) (log es : List Event) :
    held m t (log ++ es) = held m t log + held m t es := by
  simp [held]

theorem inSection_append (m : Nat) (t : TaskId) (log es : List Event) :
    inSection m t (log ++ es) = inSection m t log + inSection m t es := by
  simp [inSection]

/-- The event moves nothing of the mutex. -/
def Event.passes (m : Nat) (e : Event) : Prop :=
  ∀ t, tokenChange m t e = 0 ∧ sectionChange m t e = 0

theorem held_pass {m : Nat} {es : List Event} (h : ∀ e ∈ es, e.passes m) (t : TaskId) :
    held m t es = 0 :=
  List.sum_eq_zero fun n mem => by
    obtain ⟨e, he, rfl⟩ := List.mem_map.mp mem
    exact (h e he t).1

theorem inSection_pass {m : Nat} {es : List Event} (h : ∀ e ∈ es, e.passes m) (t : TaskId) :
    inSection m t es = 0 :=
  List.sum_eq_zero fun n mem => by
    obtain ⟨e, he, rfl⟩ := List.mem_map.mp mem
    exact (h e he t).2

/-- A task that has been granted the token and has not recorded it, or has cleared the owner
and not signalled. -/
def Claims (m : Nat) (k : Kernel) (pc : TaskId → Pc) (t : TaskId) : Prop :=
  (InWait (.mutex m) (pc t) ∧ t ∉ k.queue (.mutex m)) ∨ pc t = .own m ∨ pc t = .unlock m

/-- The mutex, its tasks' program points and its history agree on where the token is. -/
structure TokenAt (m : Nat) (k : Kernel) (pc : TaskId → Pc) (log : List Event) (tok : Token) :
    Prop where
  made : k.sems (.mutex m) = none ↔ tok = .unmade
  count : ∀ s, k.sems (.mutex m) = some s → s.count = tok.count
  queue : tok = .free → k.queue (.mutex m) = []
  owner : k.owner m = tok.owner
  claims : ∀ t, Claims m k pc t ↔ tok = .taken t
  held : ∀ t, held m t log = if tok.holder = some t then 1 else 0
  inside : ∀ t, inSection m t log = if tok.owner = some t then 1 else 0

section steps
variable {m : Nat} {k k' : Kernel} {pc pc' : TaskId → Pc} {log es : List Event} {tok : Token}

theorem TokenAt.keep (h : TokenAt m k pc log tok) (sems : k'.sems (.mutex m) = k.sems (.mutex m))
    (owner : k'.owner m = k.owner m) (passes : ∀ e ∈ es, e.passes m)
    (claims : ∀ t, Claims m k' pc' t ↔ Claims m k pc t) : TokenAt m k' pc' (log ++ es) tok := by
  refine ⟨?_, ?_, ?_, owner.trans h.owner, fun t => (claims t).trans (h.claims t), ?_, ?_⟩
  · rw [sems]; exact h.made
  · rw [sems]; exact h.count
  · rw [Kernel.queue_congr sems]; exact h.queue
  · intro t
    rw [held_append, held_pass passes, Int.add_zero]; exact h.held t
  · intro t
    rw [inSection_append, inSection_pass passes, Int.add_zero]; exact h.inside t

/-- A point of the program outside the calls on `m`. -/
def Away (m : Nat) (p : Pc) : Prop := ¬ InWait (.mutex m) p ∧ p ≠ .own m ∧ p ≠ .unlock m

theorem claims_other {t cur : TaskId} {p : Pc} (other : t ≠ cur)
    (queue : t ∈ k'.queue (.mutex m) ↔ t ∈ k.queue (.mutex m)) :
    Claims m k' (Function.update pc cur p) t ↔ Claims m k pc t := by
  unfold Claims
  rw [queue, Function.update_of_ne other]

theorem not_claims {t : TaskId} (away : Away m (pc t)) : ¬ Claims m k pc t := by
  rintro (⟨waiting, -⟩ | own | unlock)
  · exact away.1 waiting
  · exact away.2.1 own
  · exact away.2.2 unlock

theorem claims_sems {t : TaskId} (sems : k'.sems (.mutex m) = k.sems (.mutex m)) :
    Claims m k' pc t ↔ Claims m k pc t := by
  rw [Claims, Claims, Kernel.queue_congr sems]

theorem claims_move {cur : TaskId} {p : Pc} (sems : k'.sems (.mutex m) = k.sems (.mutex m))
    (same : Claims m k' (Function.update pc cur p) cur ↔ Claims m k pc cur) (t : TaskId) :
    Claims m k' (Function.update pc cur p) t ↔ Claims m k pc t := by
  by_cases eq : t = cur
  · rw [eq]; exact same
  · exact claims_other eq (by rw [Kernel.queue_congr sems])

theorem claims_update {cur : TaskId} {p : Pc} (sems : k'.sems (.mutex m) = k.sems (.mutex m))
    (before : Away m (pc cur)) (after : Away m p) (t : TaskId) :
    Claims m k' (Function.update pc cur p) t ↔ Claims m k pc t := by
  refine claims_move sems (iff_of_false ?_ (not_claims before)) t
  exact not_claims (by rw [Function.update_self]; exact after)

theorem TokenAt.not_taken {t : TaskId} (h : TokenAt m k pc log tok) (away : Away m (pc t)) :
    tok ≠ .taken t :=
  fun eq => not_claims away ((h.claims t).mpr eq)

theorem TokenAt.take {s : Semaphore} {c : CallId} (h : TokenAt m k pc log tok)
    (hs : k.sems (.mutex m) = some s) (free : 0 < s.count) (task : c.task = k.currentTask) :
    TokenAt m (k.setSem (.mutex m) { s with count := s.count - 1 })
      (Function.update pc k.currentTask (.ret (.wait (.mutex m))))
      (log ++ [.enter (.mutex m) c, .grant (.mutex m) c]) (.taken k.currentTask) := by
  have count := h.count s hs
  obtain rfl : tok = .free := by
    cases tok <;> simp_all [Token.count]
  have empty : (k.setSem (.mutex m) { s with count := s.count - 1 }).queue (.mutex m) = [] := by
    rw [Kernel.queue_setCount hs]; exact h.queue rfl
  refine ⟨by simp, ?_, by simp, h.owner, ?_, ?_, ?_⟩
  · simp [count, Token.count]
  · intro t
    by_cases cur : t = k.currentTask
    · subst cur
      simp [Claims, InWait, empty]
    · rw [claims_other (k := k) cur (by rw [empty, h.queue rfl]), h.claims]
      simp [Ne.symm cur]
  · intro t
    rw [held_append, h.held]
    simp [Rtos.held, tokenChange, Token.holder, task]
  · intro t
    rw [inSection_append, h.inside]
    simp [inSection, sectionChange, Token.owner]

theorem TokenAt.enqueue {s : Semaphore} {c : CallId} (h : TokenAt m k pc log tok)
    (queued : k.Queued) (hs : k.sems (.mutex m) = some s) (taken : s.count ≤ 0)
    (away : Away m (pc k.currentTask)) :
    TokenAt m (k.enqueue (.mutex m) s k.currentTask)
      (Function.update pc k.currentTask (.yield (.wait (.mutex m))))
      (log ++ [.enter (.mutex m) c]) tok := by
  have queue := queued.queue_enqueue hs k.currentTask (.mutex m)
  rw [if_pos rfl] at queue
  have made := mt h.made.mpr (by rw [hs]; simp)
  refine ⟨?_, ?_, ?_, h.owner, ?_, ?_, ?_⟩
  · simp [Kernel.enqueue_sems, made]
  · simp only [Kernel.enqueue_sems, if_true, Option.some.injEq]
    rintro _ rfl
    exact h.count s hs
  · rintro rfl
    simp [h.count s hs, Token.count] at taken
  · intro t
    by_cases cur : t = k.currentTask
    · subst cur
      refine iff_of_false ?_ (h.not_taken away)
      simp [Claims, queue]
    · rw [claims_other (k := k) cur (by simp [queue, cur]), h.claims]
  · intro t
    rw [held_append, h.held]
    simp [Rtos.held, tokenChange]
  · intro t
    rw [inSection_append, h.inside]
    simp [inSection, sectionChange]

theorem TokenAt.own (h : TokenAt m k pc log tok) (at_ : pc k.currentTask = .own m) :
    TokenAt m (k.setOwner m (some k.currentTask)) (Function.update pc k.currentTask .user)
      (log ++ [.acquired m k.currentTask]) (.owned k.currentTask) := by
  obtain rfl : tok = .taken k.currentTask := (h.claims _).mp (.inr (.inl at_))
  refine ⟨?_, h.count, by simp, by simp [Token.owner], ?_, ?_, ?_⟩
  · simpa using h.made
  · intro t
    refine iff_of_false ?_ (by simp)
    by_cases cur : t = k.currentTask
    · subst cur
      exact not_claims (by simp [Away, InWait])
    · rw [claims_other (k := k) cur (by exact Iff.rfl), h.claims]
      simpa using Ne.symm cur
  · intro t
    rw [held_append, h.held]
    simp [Rtos.held, tokenChange, Token.holder]
  · intro t
    rw [inSection_append, h.inside]
    simp [inSection, sectionChange, Token.owner]

theorem TokenAt.disown (h : TokenAt m k pc log tok) (owner : k.owner m = some k.currentTask) :
    TokenAt m (k.setOwner m none) (Function.update pc k.currentTask (.unlock m))
      (log ++ [.released m k.currentTask]) (.taken k.currentTask) := by
  obtain rfl : tok = .owned k.currentTask := by
    rw [h.owner] at owner
    cases tok <;> simp_all [Token.owner]
  refine ⟨?_, h.count, by simp, by simp [Token.owner], ?_, ?_, ?_⟩
  · simpa using h.made
  · intro t
    by_cases cur : t = k.currentTask
    · subst cur
      simp [Claims]
    · rw [claims_other (k := k) cur (by exact Iff.rfl), h.claims]
      simp [Ne.symm cur]
  · intro t
    rw [held_append, h.held]
    simp [Rtos.held, tokenChange, Token.holder]
  · intro t
    rw [inSection_append, h.inside]
    by_cases cur : k.currentTask = t <;> simp [Token.owner, inSection, sectionChange, cur]

theorem TokenAt.handOver {s : Semaphore} {u : TaskId} {q : List TaskId} {p : Pc} {n : Nat}
    (h : TokenAt m k pc log tok) (queued : k.Queued) (hs : k.sems (.mutex m) = some s)
    (hq : k.queue (.mutex m) = u :: q) (at_ : pc k.currentTask = .unlock m)
    (waiting : InWait (.mutex m) (pc u)) (away : Away m p) :
    TokenAt m (k.dequeue (.mutex m) s u) (Function.update pc k.currentTask p)
      (log ++ [.signal (.mutex m) (some k.currentTask), .grant (.mutex m) ⟨u, n⟩]) (.taken u) := by
  obtain rfl : tok = .taken k.currentTask := (h.claims _).mp (.inr (.inr at_))
  have queue := queued.queue_dequeue hs hq (.mutex m)
  rw [if_pos rfl] at queue
  have out : u ∉ q := by
    have nodup := queued.nodup (.mutex m)
    rw [hq] at nodup
    exact (List.nodup_cons.mp nodup).1
  have other : u ≠ k.currentTask := by
    rintro rfl
    rw [at_] at waiting
    rcases waiting with eq | eq <;> cases eq
  refine ⟨?_, ?_, by simp, h.owner, ?_, ?_, ?_⟩
  · simp [Kernel.dequeue_sems]
  · simp only [Kernel.dequeue_sems, if_true, Option.some.injEq]
    rintro _ rfl
    exact h.count s hs
  · intro t
    by_cases woken : t = u
    · subst woken
      refine iff_of_true (.inl ⟨?_, ?_⟩) rfl
      · rw [Function.update_of_ne other]; exact waiting
      · rw [queue]; exact out
    · refine iff_of_false ?_ (by simpa using Ne.symm woken)
      by_cases cur : t = k.currentTask
      · subst cur
        exact not_claims (by rw [Function.update_self]; exact away)
      · rw [claims_other (k := k) cur (by simp [queue, hq, woken]), h.claims]
        simpa using Ne.symm cur
  · intro t
    rw [held_append, h.held]
    by_cases cur : k.currentTask = t
    · subst cur
      simp [Rtos.held, tokenChange, Token.holder, other]
    · simp [Rtos.held, tokenChange, Token.holder, cur]
  · intro t
    rw [inSection_append, h.inside]
    simp [inSection, sectionChange, Token.owner]

theorem TokenAt.put {s : Semaphore} {p : Pc} (h : TokenAt m k pc log tok)
    (hs : k.sems (.mutex m) = some s) (hq : k.queue (.mutex m) = [])
    (at_ : pc k.currentTask = .unlock m) (away : Away m p) :
    TokenAt m (k.setSem (.mutex m) { s with count := wrap32 (s.count + 1) })
      (Function.update pc k.currentTask p)
      (log ++ [.signal (.mutex m) (some k.currentTask)]) .free := by
  obtain rfl : tok = .taken k.currentTask := (h.claims _).mp (.inr (.inr at_))
  have queue := Kernel.queue_setCount hs (wrap32 (s.count + 1)) (.mutex m)
  refine ⟨by simp, ?_, fun _ => queue.trans hq, h.owner, ?_, ?_, ?_⟩
  · simp [h.count s hs, Token.count, wrap32]
  · intro t
    refine iff_of_false ?_ (by simp)
    by_cases cur : t = k.currentTask
    · subst cur
      exact not_claims (by rw [Function.update_self]; exact away)
    · rw [claims_other (k := k) cur (by rw [queue]), h.claims]
      simpa using Ne.symm cur
  · intro t
    rw [held_append, h.held]
    by_cases cur : k.currentTask = t <;> simp [Rtos.held, tokenChange, Token.holder, cur]
  · intro t
    rw [inSection_append, h.inside]
    simp [inSection, sectionChange, Token.owner]

theorem TokenAt.make (h : TokenAt m k pc log tok) (fresh : k.sems (.mutex m) = none) :
    TokenAt m ((Init.mutex m).apply k) (Function.update pc k.currentTask .user)
      (log ++ [.init (.mutex m) 1]) .free := by
  obtain rfl := h.made.mp fresh
  have sems : ((Init.mutex m).apply k).sems (.mutex m) = some (semInit 1) :=
    (Init.apply_sems ..).trans (if_pos rfl)
  have queue : ((Init.mutex m).apply k).queue (.mutex m) = k.queue (.mutex m) :=
    Kernel.queue_init fresh _
  refine ⟨by simp [sems], ?_, fun _ => queue.trans (Kernel.queue_none fresh), ?_, ?_, ?_, ?_⟩
  · intro s hs
    cases Option.some.inj (sems.symm.trans hs); rfl
  · rw [Init.apply_owner, if_pos rfl]; rfl
  · intro t
    refine iff_of_false ?_ (by simp)
    by_cases cur : t = k.currentTask
    · subst cur
      exact not_claims (by simp [Away, InWait])
    · rw [claims_other (k := k) cur (by rw [queue]), h.claims]
      simp
  · intro t
    rw [held_append, h.held]
    simp [Rtos.held, tokenChange, Token.holder]
  · intro t
    rw [inSection_append, h.inside]
    simp [inSection, sectionChange, Token.owner]

end steps

theorem signal_owner {k k' : Kernel} {r : SemRef} {woken : Option TaskId}
    (result : osSemaphoreSignal k r = some (k', woken)) : k'.owner = k.owner := by
  obtain ⟨_, _, rfl⟩ := osSemaphoreSignal_eq_with result
  rfl

theorem signalEvents_passes {m : Nat} {log : List Event} {r : SemRef}
    {signaller woken : Option TaskId} (other : r ≠ .mutex m) :
    ∀ e ∈ signalEvents log r signaller woken, e.passes m := by
  cases woken <;> simp [signalEvents, Event.passes, tokenChange, sectionChange, other]

theorem TokenAt.signal {m : Nat} {k k' : Kernel} {pc : TaskId → Pc} {log : List Event}
    {tok : Token} {woken : Option TaskId} {frames : List Frame} (h : TokenAt m k pc log tok)
    (inv : InvAt k pc frames) (at_ : pc k.currentTask = .unlock m)
    (result : osSemaphoreSignal k (.mutex m) = some (k', woken)) :
    ∃ tok', TokenAt m k' (Function.update pc k.currentTask
        (if woken.isSome then .yield (.signal (.mutex m)) else .ret (.signal (.mutex m))))
      (log ++ signalEvents log (.mutex m) (some k.currentTask) woken) tok' := by
  obtain ⟨s, hs, ⟨u, q, rfl, hq, rfl⟩ | ⟨rfl, hq, rfl⟩⟩ := osSemaphoreSignal_effect inv.queued result
  · have first : u ∈ k.queue (.mutex m) := by rw [hq]; exact List.mem_cons_self
    exact ⟨_, h.handOver inv.queued hs hq at_ (inv.queue_pc _ _ first) (by simp [Away, InWait])⟩
  · exact ⟨_, h.put hs hq at_ (by simp [Away, InWait])⟩

theorem wait_owner {k k' : Kernel} {r : SemRef} {queued : Bool}
    (result : osSemaphoreWait k r = some (k', queued)) : k'.owner = k.owner := by
  obtain ⟨_, _, ⟨-, -, rfl⟩ | ⟨-, -, -, rfl⟩⟩ := osSemaphoreWait_cases result <;> rfl

theorem away_user {m : Nat} {pc : TaskId → Pc} {t : TaskId} (at_ : pc t = .user) :
    Away m (pc t) := by
  rw [at_]; simp [Away, InWait]

theorem step_token {s s' : System} {a : Action} {m : Nat} {tok : Token} (inv : Inv s)
    (h : TokenAt m s.k s.pc s.log tok) (hstep : step s a = some s') :
    ∃ tok', TokenAt m s'.k s'.pc s'.log tok' := by
  cases step_cases hstep with
  | sysTick | isr | pendSv | tickLeave | isrYield | isrReturn =>
    exact ⟨tok, h.keep rfl rfl (by simp) fun _ => Iff.rfl⟩
  | nothing => exact ⟨tok, h⟩
  | @tick p =>
    have sems := congrFun (tickStep_sems s.k p) (.mutex m)
    refine ⟨tok, h.keep sems (congrFun (tickStep_owner s.k p) m) ?_ fun _ => claims_sems sems⟩
    cases p <;> simp [tickEvents, Event.passes, tokenChange, sectionChange]
  | switch =>
    have sems := congrFun (osSchedule_sems { s.k with rtosStarted := true }) (.mutex m)
    exact ⟨tok, h.keep sems (congrFun (osSchedule_owner _) m) (by simp) fun _ => claims_sems sems⟩
  | isrSignal _ result =>
    have sems := signal_sems (r := .mutex m) result (by simp)
    exact ⟨tok, h.keep sems (congrFun (signal_owner result) m) (signalEvents_passes (by simp))
      fun _ => claims_sems sems⟩
  | delay thread pc =>
    exact ⟨tok, h.keep rfl rfl (by simp [Event.passes, tokenChange, sectionChange])
      (claims_update rfl (away_user pc) (by simp [Away, InWait]))⟩
  | @waitQueued _ r k thread pc _ result =>
    by_cases eq : r = .mutex m
    · subst eq
      obtain ⟨sem, hs, ⟨no, -⟩ | ⟨-, taken, -, rfl⟩⟩ := osSemaphoreWait_effect result
      · cases no
      · exact ⟨tok, h.enqueue inv.queued hs taken (away_user pc)⟩
    · have sems := wait_sems result (Ne.symm eq)
      refine ⟨tok, h.keep sems (congrFun (wait_owner result) m) ?_ ?_⟩
      · simp [Event.passes, tokenChange, sectionChange]
      · exact claims_update sems (away_user pc) (by simp [Away, InWait, eq])
  | @waitTaken _ r _ thread pc _ result =>
    by_cases eq : r = .mutex m
    · subst eq
      obtain ⟨sem, hs, ⟨-, free, rfl⟩ | ⟨no, -⟩⟩ := osSemaphoreWait_effect result
      · exact ⟨_, h.take hs free rfl⟩
      · cases no
    · have sems := wait_sems result (Ne.symm eq)
      refine ⟨tok, h.keep sems (congrFun (wait_owner result) m) ?_ ?_⟩
      · simp [Event.passes, tokenChange, sectionChange, eq]
      · exact claims_update sems (away_user pc) (by simp [Away, InWait, eq])
  | @signal _ r _ woken _ ref result =>
    by_cases eq : r = .mutex m
    · subst eq
      rcases ref with ⟨_, -, no, -⟩ | ⟨_, -, eq, pc⟩
      · cases no
      · cases eq
        exact h.signal inv pc result
    · have sems := signal_sems result (Ne.symm eq)
      refine ⟨tok, h.keep sems (congrFun (signal_owner result) m) (signalEvents_passes eq) ?_⟩
      refine claims_update sems ?_ (by cases woken <;> simp [Away, InWait])
      rcases ref with ⟨_, -, -, pc⟩ | ⟨m', -, rfl, pc⟩
      · exact away_user pc
      · rw [pc]; simpa [Away, InWait] using eq
  | @release m' thread pc owner =>
    by_cases eq : m' = m
    · subst eq
      exact ⟨_, h.disown owner⟩
    · refine ⟨tok, h.keep rfl ?_ ?_ ?_⟩
      · simp [Ne.symm eq]
      · simp [Event.passes, tokenChange, sectionChange, eq]
      · exact claims_update rfl (away_user pc) (by simp [Away, InWait, eq])
  | trap thread pc | leave thread pc =>
    exact ⟨tok, h.keep rfl rfl (by simp)
      (claims_update rfl (away_user pc) (by simp [Away, InWait]))⟩
  | @init i thread pc fresh =>
    by_cases eq : i = .mutex m
    · subst eq
      exact ⟨_, h.make fresh⟩
    · have other : SemRef.mutex m ≠ i.ref := by
        cases i <;> simp_all [Init.ref, eq_comm]
      have sems : (i.apply s.k).sems (.mutex m) = s.k.sems (.mutex m) := by
        rw [Init.apply_sems, if_neg other]
      refine ⟨tok, h.keep sems ?_ ?_ ?_⟩
      · rw [System.goOn_k, Init.apply_owner, if_neg eq]
      · simp [Event.passes, tokenChange, sectionChange]
      · exact claims_update sems (away_user pc) (by simp [Away, InWait])
  | yield thread pc =>
    refine ⟨tok, h.keep rfl rfl (by simp) (claims_move rfl ?_)⟩
    rw [System.goOn_k]
    have queue : s.k.triggerPendsv.queue (.mutex m) = s.k.queue (.mutex m) := rfl
    simp [Claims, InWait, pc, queue]
  | @ret c thread pc =>
    have run := inv.thread_running thread pc (by simp) (by simp)
    have out := inv.queued.not_mem inv.wf.current_lt (by rw [run]; simp) (.mutex m)
    refine ⟨tok, h.keep rfl rfl ?_ (claims_move rfl ?_)⟩
    · rcases c with _ | (_ | _) | _ <;>
        simp [returnTo, Event.passes, tokenChange, sectionChange]
    · rw [System.goOn_k]
      rcases c with _ | (_ | _) | _ <;> simp [Claims, InWait, pc, returnTo, out]
  | @own m' thread pc =>
    by_cases eq : m' = m
    · subst eq
      exact ⟨_, h.own pc⟩
    · refine ⟨tok, h.keep rfl ?_ ?_ ?_⟩
      · simp [Ne.symm eq]
      · simp [Event.passes, tokenChange, sectionChange, eq]
      · exact claims_update rfl (by rw [pc]; simp [Away, InWait, eq]) (by simp [Away, InWait])

theorem boot_token {cfg : Config} {s : System} (hboot : boot cfg = some s)
    (some_task : 0 < cfg.tasks.length) (m : Nat) : ∃ tok, TokenAt m s.k s.pc s.log tok := by
  obtain ⟨booted, pc, -⟩ := boot_spec hboot some_task
  have passes : ∀ e ∈ s.log, e.passes m := by
    intro e mem
    rcases boot_log hboot some_task e mem with rfl | ⟨_, _, rfl⟩ <;>
      simp [Event.passes, tokenChange, sectionChange]
  have claims : ∀ t, ¬ Claims m s.k s.pc t := fun t => not_claims (away_user (by rw [pc]))
  cases hs : s.k.sems (.mutex m) with
  | none =>
    refine ⟨.unmade, by simp [hs], by simp [hs], by simp, booted.owner m, fun t => ?_, ?_, ?_⟩
    · exact iff_of_false (claims t) (by simp)
    · exact held_pass passes
    · exact inSection_pass passes
  | some sem =>
    have count : sem.count = 1 := by
      obtain ⟨i, -, ref, rfl⟩ := booted.sem hs
      cases i with
      | sem j n => cases ref
      | mutex n => rfl
    refine ⟨.free, by simp [hs], ?_, fun _ => booted.queue _, booted.owner m, fun t => ?_, ?_, ?_⟩
    · rintro _ eq
      cases Option.some.inj (hs.symm.trans eq); exact count
    · exact iff_of_false (claims t) (by simp)
    · exact held_pass passes
    · exact inSection_pass passes

theorem step_spin {s s' : System} {a : Action} {t : TaskId} (at_ : s.pc t = .spin)
    (hstep : step s a = some s') : s'.pc t = .spin := by
  have other : ∀ {p q : Pc}, s.pc s.k.currentTask = p → p ≠ .spin →
      Function.update s.pc s.k.currentTask q t = .spin := by
    intro p q cur not
    rw [Function.update_of_ne]
    · exact at_
    · rintro rfl
      exact not (cur.symm.trans at_)
  cases step_cases hstep with
  | sysTick | isr | pendSv | tickLeave | tick | isrYield | switch | isrSignal | isrReturn |
    nothing => exact at_
  | delay _ pc => exact other pc (by simp)
  | waitQueued _ pc | waitTaken _ pc | release _ pc | trap _ pc | init _ pc | leave _ pc =>
    exact other pc (by simp)
  | yield _ pc | ret _ pc | own _ pc => exact other pc (by simp)
  | signal _ ref =>
    rcases ref with ⟨_, -, -, pc⟩ | ⟨_, -, -, pc⟩
    · exact other pc (by simp)
    · exact other pc (by simp)

/-- A release by a task that is not the owner changes nothing, and its caller never comes
back from it. -/
theorem release_trapped {s s' : System} {m : Nat} (hstep : step s (.call (.release m)) = some s')
    (owner : s.k.owner m ≠ some s.k.currentTask) : s'.k = s.k ∧ s'.log = s.log ∧
    ∀ v, Reach (fun t a u => step t a = some u) s' v → v.pc s.k.currentTask = .spin := by
  have guard := Option.ite_none_right_eq_some.mp hstep
  have eq := guard.2
  simp only [callStep, if_neg owner] at eq
  split at eq
  · cases eq
  · cases eq
    refine ⟨rfl, List.append_nil _, fun v reach => ?_⟩
    exact reach.invariant (P := fun v => v.pc s.k.currentTask = .spin)
      (Function.update_self ..) fun _ _ _ => step_spin

/-- One token, at most one task in its section, and only that task can release. -/
theorem mutual_exclusion {cfg : Config} {idle : TaskId} {s : System} {m : Nat} {sem : Semaphore}
    (h : Reachable cfg idle s) (hs : s.k.sems (.mutex m) = some sem) :
    ((sem.count = 1 ∧ s.k.owner m = none ∧ sem.waitCount = 0 ∧ ∀ t, held m t s.log = 0) ∨
      (sem.count = 0 ∧ ∃ t, held m t s.log = 1 ∧ (∀ u, u ≠ t → held m u s.log = 0) ∧
        (s.k.owner m = none ∨ s.k.owner m = some t))) ∧
    (∀ t, inSection m t s.log = if s.k.owner m = some t then 1 else 0) ∧
    (∀ t u, inSection m t s.log ≠ 0 → inSection m u s.log ≠ 0 → t = u) ∧
    ∀ s', step s (.call (.release m)) = some s' → s.k.owner m ≠ some s.k.currentTask →
      s'.k = s.k ∧ s'.log = s.log ∧
      ∀ v, Reach (fun t a u => step t a = some u) s' v → v.pc s.k.currentTask = .spin := by
  obtain ⟨⟨inv, -, -⟩, tok, token⟩ := h.induct
    (P := fun s => ∃ tok, TokenAt m s.k s.pc s.log tok)
    (fun s₀ hboot _ => boot_token hboot h.some_task m)
    fun t a u inv ⟨tok, token⟩ hstep _ => step_token inv.inv token hstep
  have inside : ∀ t, inSection m t s.log = if s.k.owner m = some t then 1 else 0 := by
    intro t
    rw [token.owner]; exact token.inside t
  refine ⟨?_, inside, ?_, fun s' hstep owner => release_trapped hstep owner⟩
  · have count := token.count sem hs
    have held := token.held
    have owner := token.owner
    cases tok with
    | unmade => rw [token.made.mpr rfl] at hs; cases hs
    | free =>
      refine .inl ⟨count, owner, ?_, fun t => by rw [held]; rfl⟩
      exact (inv.queued.hold _ sem hs).empty_iff.mpr (token.queue rfl)
    | taken t =>
      refine .inr ⟨count, t, by simp [held, Token.holder], fun u other => ?_, .inl owner⟩
      simp [held, Token.holder, Ne.symm other]
    | owned t =>
      refine .inr ⟨count, t, by simp [held, Token.holder], fun u other => ?_, .inr owner⟩
      simp [held, Token.holder, Ne.symm other]
  · intro t u ht hu
    rw [inside] at ht hu
    have owned : s.k.owner m = some t := by by_contra not; exact ht (if_neg not)
    have owned' : s.k.owner m = some u := by by_contra not; exact hu (if_neg not)
    exact Option.some.inj (owned.symm.trans owned')

/-- The consumer of `main.c` acquires the mutex. -/
theorem mutual_exclusion_consumer : ∃ (s : System) (sem : Semaphore),
    s.k.sems (.mutex 0) = some sem ∧ s.k.owner 0 = some 2 ∧ inSection 0 2 s.log = 1 := by
  obtain ⟨s, h, hp⟩ := reachable_of_exec mainConfig 3
    [.pendSv, .handler, .call (.acquire 0), .task, .task]
    (fun s => (s.k.sems (.mutex 0)).isSome ∧ s.k.owner 0 = some 2) (by decide) (by decide)
  obtain ⟨made, owner⟩ := of_decide_eq_true hp
  obtain ⟨sem, hs⟩ := Option.isSome_iff_exists.mp made
  have inside := (mutual_exclusion h hs).2.1 2
  rw [owner] at inside
  exact ⟨s, sem, hs, owner, inside⟩

end Rtos
