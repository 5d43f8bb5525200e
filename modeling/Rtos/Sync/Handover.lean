import Rtos.Sync.Deadlock

/-! Whose turn it is. A mutex goes to the tasks in the order in which they came to
`osMutexAcquire`, and the task that has it is the one that gives it back. -/
namespace Rtos

/-- The tasks that came to `osMutexAcquire`, in this order. -/
def comers (m : Nat) (log : List Event) : List TaskId := (entered (.mutex m) log).map CallId.task

/-- The tasks that returned from `osMutexAcquire` as the owner, in this order. -/
def acquirers (m : Nat) (log : List Event) : List TaskId :=
  log.filterMap fun
    | .acquired m' t => if m' = m then some t else none
    | _ => none

/-- The tasks that gave up the ownership, in this order. -/
def releasers (m : Nat) (log : List Event) : List TaskId :=
  log.filterMap fun
    | .released m' t => if m' = m then some t else none
    | _ => none

theorem comers_append (m : Nat) (log es : List Event) :
    comers m (log ++ es) = comers m log ++ comers m es := by
  rw [comers, entered_append, List.map_append]; rfl

theorem acquirers_append (m : Nat) (log es : List Event) :
    acquirers m (log ++ es) = acquirers m log ++ acquirers m es :=
  List.filterMap_append

theorem releasers_append (m : Nat) (log es : List Event) :
    releasers m (log ++ es) = releasers m log ++ releasers m es :=
  List.filterMap_append

/-- The token is on its way to the task: it has been granted and not recorded yet. -/
def Receives (m : Nat) (k : Kernel) (pc : TaskId → Pc) (t : TaskId) : Prop :=
  (InWait (.mutex m) (pc t) ∧ t ∉ k.queue (.mutex m)) ∨ pc t = .own m

/-- Who came is, in this order: who has had the mutex or has it, who receives it, and who waits. -/
structure Turns (m : Nat) (k : Kernel) (pc : TaskId → Pc) (log : List Event) (now : List TaskId) :
    Prop where
  came : comers m log = acquirers m log ++ now ++ k.queue (.mutex m)
  receives : ∀ t, t ∈ now ↔ Receives m k pc t
  once : now.length ≤ 1
  gave : acquirers m log = releasers m log ++ (k.owner m).toList

section steps
variable {m : Nat} {k k' : Kernel} {pc pc' : TaskId → Pc} {log es : List Event} {tok : Token}
  {now : List TaskId}

theorem Receives.claims {t : TaskId} (h : Receives m k pc t) : Claims m k pc t :=
  h.imp_right .inl

theorem Turns.nobody (h : Turns m k pc log now) (token : TokenAt m k pc log tok)
    (away : ∀ t, tok = .taken t → pc t = .unlock m) : now = [] := by
  rw [List.eq_nil_iff_forall_not_mem]
  intro t mem
  have receives := (h.receives t).mp mem
  have at_ := away t ((token.claims t).mp receives.claims)
  rcases receives with ⟨waiting, -⟩ | own
  · rw [at_] at waiting
    rcases waiting with eq | eq <;> cases eq
  · rw [at_] at own
    cases own

/-- Nothing happens to the mutex. -/
theorem Turns.keep (h : Turns m k pc log now) (queue : k'.queue (.mutex m) = k.queue (.mutex m))
    (owner : k'.owner m = k.owner m)
    (quiet : comers m es = [] ∧ acquirers m es = [] ∧ releasers m es = [])
    (receives : ∀ t, Receives m k' pc' t ↔ Receives m k pc t) :
    Turns m k' pc' (log ++ es) now := by
  refine ⟨?_, fun t => (h.receives t).trans (receives t).symm, h.once, ?_⟩
  · rw [comers_append, acquirers_append, quiet.1, quiet.2.1, List.append_nil, List.append_nil, queue]
    exact h.came
  · rw [acquirers_append, releasers_append, quiet.2.1, quiet.2.2, List.append_nil, List.append_nil,
      owner]
    exact h.gave

/-- A point of the program at which a task receives nothing, whatever the queue. -/
def Off (m : Nat) (p : Pc) : Prop := ¬ InWait (.mutex m) p ∧ p ≠ .own m

theorem not_receives {t : TaskId} (off : Off m (pc t)) : ¬ Receives m k pc t := by
  rintro (⟨waiting, -⟩ | own)
  · exact off.1 waiting
  · exact off.2 own

theorem receives_other {t cur : TaskId} {p : Pc} (other : t ≠ cur)
    (queue : t ∈ k'.queue (.mutex m) ↔ t ∈ k.queue (.mutex m)) :
    Receives m k' (Function.update pc cur p) t ↔ Receives m k pc t := by
  unfold Receives
  rw [queue, Function.update_of_ne other]

theorem receives_queue {t : TaskId} (queue : k'.queue (.mutex m) = k.queue (.mutex m)) :
    Receives m k' pc t ↔ Receives m k pc t := by
  rw [Receives, Receives, queue]

theorem receives_move {cur : TaskId} {p : Pc} (queue : k'.queue (.mutex m) = k.queue (.mutex m))
    (same : Receives m k' (Function.update pc cur p) cur ↔ Receives m k pc cur) (t : TaskId) :
    Receives m k' (Function.update pc cur p) t ↔ Receives m k pc t := by
  by_cases eq : t = cur
  · rw [eq]; exact same
  · exact receives_other eq (by rw [queue])

theorem receives_update {cur : TaskId} {p : Pc} (queue : k'.queue (.mutex m) = k.queue (.mutex m))
    (before : Off m (pc cur)) (after : Off m p) (t : TaskId) :
    Receives m k' (Function.update pc cur p) t ↔ Receives m k pc t :=
  receives_move queue (iff_of_false (not_receives (by rw [Function.update_self]; exact after))
    (not_receives before)) t

theorem Turns.take {s : Semaphore} {c : CallId} (h : Turns m k pc log now)
    (token : TokenAt m k pc log tok) (hs : k.sems (.mutex m) = some s) (free : 0 < s.count)
    (task : c.task = k.currentTask) :
    Turns m (k.setSem (.mutex m) { s with count := s.count - 1 })
      (Function.update pc k.currentTask (.ret (.wait (.mutex m))))
      (log ++ [.enter (.mutex m) c, .grant (.mutex m) c]) [k.currentTask] := by
  have count := token.count s hs
  obtain rfl : tok = .free := by
    cases tok <;> simp_all [Token.count]
  have queue := token.queue rfl
  have queue' : (k.setSem (.mutex m) { s with count := s.count - 1 }).queue (.mutex m) = [] := by
    rw [Kernel.queue_setCount hs]; exact queue
  obtain rfl := h.nobody token (by simp)
  have came := h.came
  refine ⟨?_, fun t => ?_, le_rfl, ?_⟩
  · rw [comers_append, acquirers_append, came, queue, queue']
    simp [comers, acquirers, entered, task]
  · by_cases cur : t = k.currentTask
    · subst cur
      simp [Receives, InWait, queue']
    · rw [receives_other (k := k) cur (by rw [queue', queue]), ← h.receives]
      simp [cur]
  · rw [acquirers_append, releasers_append, h.gave]
    simp [acquirers, releasers]

theorem Turns.enqueue {s : Semaphore} {c : CallId} (h : Turns m k pc log now)
    (queued : k.Queued) (hs : k.sems (.mutex m) = some s) (off : Off m (pc k.currentTask))
    (task : c.task = k.currentTask) :
    Turns m (k.enqueue (.mutex m) s k.currentTask)
      (Function.update pc k.currentTask (.yield (.wait (.mutex m))))
      (log ++ [.enter (.mutex m) c]) now := by
  have queue := queued.queue_enqueue hs k.currentTask (.mutex m)
  rw [if_pos rfl] at queue
  refine ⟨?_, fun t => ?_, h.once, ?_⟩
  · rw [comers_append, acquirers_append, h.came, queue]
    simp [comers, acquirers, entered, task]
  · rw [h.receives]
    by_cases cur : t = k.currentTask
    · subst cur
      refine iff_of_false (not_receives off) ?_
      simp [Receives, queue]
    · exact (receives_other cur (by simp [queue, cur])).symm
  · rw [acquirers_append, releasers_append, h.gave]
    simp [acquirers, releasers]; rfl

theorem Turns.own (h : Turns m k pc log now) (token : TokenAt m k pc log tok)
    (at_ : pc k.currentTask = .own m) :
    Turns m (k.setOwner m (some k.currentTask)) (Function.update pc k.currentTask .user)
      (log ++ [.acquired m k.currentTask]) [] := by
  obtain rfl : tok = .taken k.currentTask := (token.claims _).mp (.inr (.inl at_))
  have owner : k.owner m = none := token.owner
  have mem : k.currentTask ∈ now := (h.receives _).mpr (.inr at_)
  obtain ⟨t, rfl⟩ := List.length_eq_one_iff.mp (le_antisymm h.once (List.length_pos_of_mem mem))
  obtain rfl := List.mem_singleton.mp mem
  refine ⟨?_, fun t => ?_, by simp, ?_⟩
  · rw [comers_append, acquirers_append, h.came]
    simp [comers, acquirers, entered]; rfl
  · refine iff_of_false (by simp) ?_
    by_cases cur : t = k.currentTask
    · subst cur
      exact not_receives (by simp [Off, InWait])
    · rw [receives_other (k := k) cur (by exact Iff.rfl), ← h.receives]
      simpa using cur
  · rw [acquirers_append, releasers_append, h.gave, owner]
    simp [acquirers, releasers]

theorem Turns.disown (h : Turns m k pc log now) (token : TokenAt m k pc log tok)
    (owner : k.owner m = some k.currentTask) :
    Turns m (k.setOwner m none) (Function.update pc k.currentTask (.unlock m))
      (log ++ [.released m k.currentTask]) [] := by
  obtain rfl := token.owned owner
  obtain rfl := h.nobody token (by simp)
  refine ⟨?_, fun t => ?_, by simp, ?_⟩
  · rw [comers_append, acquirers_append, h.came]
    simp [comers, acquirers, entered]; rfl
  · refine iff_of_false (by simp) ?_
    by_cases cur : t = k.currentTask
    · subst cur
      exact not_receives (by simp [Off, InWait])
    · rw [receives_other (k := k) cur (by exact Iff.rfl), ← h.receives]
      simp
  · rw [acquirers_append, releasers_append, h.gave, owner]
    simp [acquirers, releasers]

theorem Turns.handOver {s : Semaphore} {u : TaskId} {q : List TaskId} {p : Pc} {n : Nat}
    (h : Turns m k pc log now) (token : TokenAt m k pc log tok) (queued : k.Queued)
    (hs : k.sems (.mutex m) = some s) (hq : k.queue (.mutex m) = u :: q)
    (at_ : pc k.currentTask = .unlock m) (waiting : InWait (.mutex m) (pc u)) (off : Off m p) :
    Turns m (k.dequeue (.mutex m) s u) (Function.update pc k.currentTask p)
      (log ++ [.signal (.mutex m) (some k.currentTask), .grant (.mutex m) ⟨u, n⟩]) [u] := by
  obtain rfl : tok = .taken k.currentTask := (token.claims _).mp (.inr (.inr at_))
  obtain rfl := h.nobody token (by simp [at_])
  have queue := queued.queue_dequeue hs hq (.mutex m)
  rw [if_pos rfl] at queue
  have out : u ∉ q := by
    have nodup := queued.nodup (.mutex m)
    rw [hq] at nodup
    exact (List.nodup_cons.mp nodup).1
  have other : u ≠ k.currentTask := by
    rintro rfl
    rw [at_] at waiting
    rcases waiting with eq | eq <;> cases eq
  refine ⟨?_, fun t => ?_, le_rfl, ?_⟩
  · rw [comers_append, acquirers_append, h.came, hq, queue]
    simp [comers, acquirers, entered]
  · rw [List.mem_singleton]
    by_cases woken : t = u
    · subst woken
      refine iff_of_true rfl (.inl ⟨?_, ?_⟩)
      · rw [Function.update_of_ne other]; exact waiting
      · rw [queue]; exact out
    · refine iff_of_false woken ?_
      by_cases cur : t = k.currentTask
      · subst cur
        exact not_receives (by rw [Function.update_self]; exact off)
      · rw [receives_other (k := k) cur (by simp [queue, hq, woken]), ← h.receives]
        simp
  · rw [acquirers_append, releasers_append, h.gave]
    simp [acquirers, releasers]; rfl

theorem Turns.signal {woken : Option TaskId} {frames : List Frame} (h : Turns m k pc log now)
    (token : TokenAt m k pc log tok) (inv : InvAt k pc frames) (at_ : pc k.currentTask = .unlock m)
    (result : osSemaphoreSignal k (.mutex m) = some (k', woken)) :
    ∃ now', Turns m k' (Function.update pc k.currentTask
        (if woken.isSome then .yield (.signal (.mutex m)) else .ret (.signal (.mutex m))))
      (log ++ signalEvents log (.mutex m) (some k.currentTask) woken) now' := by
  obtain ⟨s, hs, ⟨u, q, rfl, hq, rfl⟩ | ⟨rfl, hq, rfl⟩⟩ := osSemaphoreSignal_effect inv.queued result
  · have first : u ∈ k.queue (.mutex m) := by rw [hq]; exact List.mem_cons_self
    exact ⟨_, h.handOver token inv.queued hs hq at_ (inv.queue_pc _ _ first) (by simp [Off, InWait])⟩
  · have queue := Kernel.queue_setCount hs (wrap32 (s.count + 1)) (.mutex m)
    refine ⟨now, ?_, fun t => ?_, h.once, ?_⟩
    · rw [comers_append, acquirers_append, h.came, queue]
      simp [comers, acquirers, entered, signalEvents]
    · rw [h.receives]
      by_cases cur : t = k.currentTask
      · subst cur
        exact iff_of_false (not_receives (by simp [Off, InWait, at_]))
          (not_receives (by simp [Off, InWait]))
      · exact (receives_other cur (by rw [queue])).symm
    · rw [acquirers_append, releasers_append, h.gave]
      simp [acquirers, releasers, signalEvents]

end steps

theorem off_user {m : Nat} {pc : TaskId → Pc} {t : TaskId} (at_ : pc t = .user) : Off m (pc t) := by
  rw [at_]; simp [Off, InWait]

theorem signalEvents_quiet {m : Nat} {log : List Event} {r : SemRef}
    {signaller woken : Option TaskId} :
    comers m (signalEvents log r signaller woken) = [] ∧
    acquirers m (signalEvents log r signaller woken) = [] ∧
    releasers m (signalEvents log r signaller woken) = [] := by
  cases woken <;> simp [signalEvents, comers, entered, acquirers, releasers]

theorem step_turns {s s' : System} {a : Action} {m : Nat} {tok : Token} {now : List TaskId}
    (inv : Inv s) (token : TokenAt m s.k s.pc s.log tok) (h : Turns m s.k s.pc s.log now)
    (hstep : step s a = some s') : ∃ now', Turns m s'.k s'.pc s'.log now' := by
  have quiet : comers m [] = [] ∧ acquirers m [] = [] ∧ releasers m [] = [] := by
    simp [comers, entered, acquirers, releasers]
  cases step_cases hstep with
  | sysTick | isr | pendSv | tickLeave | isrYield | isrReturn =>
    exact ⟨now, h.keep rfl rfl quiet fun _ => Iff.rfl⟩
  | nothing => exact ⟨now, h⟩
  | @tick p =>
    have queue := Kernel.queue_congr (congrFun (tickStep_sems s.k p) (.mutex m))
    refine ⟨now, h.keep queue (congrFun (tickStep_owner s.k p) m) ?_ fun _ => receives_queue queue⟩
    cases p <;> simp [tickEvents, comers, entered, acquirers, releasers]
  | switch =>
    have queue := Kernel.queue_congr
      (congrFun (osSchedule_sems { s.k with rtosStarted := true }) (.mutex m))
    exact ⟨now, h.keep queue (congrFun (osSchedule_owner _) m) quiet fun _ => receives_queue queue⟩
  | isrSignal _ result =>
    have queue := Kernel.queue_congr (signal_sems (r := .mutex m) result (by simp))
    exact ⟨now, h.keep queue (congrFun (signal_owner result) m) signalEvents_quiet
      fun _ => receives_queue queue⟩
  | delay thread pc =>
    exact ⟨now, h.keep rfl rfl (by simp [comers, entered, acquirers, releasers])
      (receives_update rfl (off_user pc) (by simp [Off, InWait]))⟩
  | @waitQueued _ r _ thread pc _ result =>
    by_cases eq : r = .mutex m
    · subst eq
      obtain ⟨sem, hs, ⟨no, -⟩ | ⟨-, -, -, rfl⟩⟩ := osSemaphoreWait_effect result
      · cases no
      · exact ⟨now, h.enqueue inv.queued hs (off_user pc) rfl⟩
    · have queue := Kernel.queue_congr (wait_sems result (Ne.symm eq))
      refine ⟨now, h.keep queue (congrFun (wait_owner result) m) ?_ ?_⟩
      · simp [comers, entered, acquirers, releasers, eq]
      · exact receives_update queue (off_user pc) (by simp [Off, InWait, eq])
  | @waitTaken _ r _ thread pc _ result =>
    by_cases eq : r = .mutex m
    · subst eq
      obtain ⟨sem, hs, ⟨-, free, rfl⟩ | ⟨no, -⟩⟩ := osSemaphoreWait_effect result
      · exact ⟨_, h.take token hs free rfl⟩
      · cases no
    · have queue := Kernel.queue_congr (wait_sems result (Ne.symm eq))
      refine ⟨now, h.keep queue (congrFun (wait_owner result) m) ?_ ?_⟩
      · simp [comers, entered, acquirers, releasers, eq]
      · exact receives_update queue (off_user pc) (by simp [Off, InWait, eq])
  | @signal _ r _ woken _ ref result =>
    by_cases eq : r = .mutex m
    · subst eq
      rcases ref with ⟨_, -, no, -⟩ | ⟨_, -, eq, pc⟩
      · cases no
      · cases eq
        exact h.signal token inv pc result
    · have queue := Kernel.queue_congr (signal_sems result (Ne.symm eq))
      refine ⟨now, h.keep queue (congrFun (signal_owner result) m) signalEvents_quiet ?_⟩
      refine receives_update queue ?_ (by cases woken <;> simp [Off, InWait])
      rcases ref with ⟨_, -, -, pc⟩ | ⟨_, -, -, pc⟩
      · exact off_user pc
      · rw [pc]; simp [Off, InWait]
  | @release m' thread pc owner =>
    by_cases eq : m' = m
    · subst eq
      exact ⟨_, h.disown token owner⟩
    · refine ⟨now, h.keep rfl ?_ ?_ ?_⟩
      · simp [Ne.symm eq]
      · simp [comers, entered, acquirers, releasers, eq]
      · exact receives_update rfl (off_user pc) (by simp [Off, InWait])
  | trap thread pc | leave thread pc =>
    exact ⟨now, h.keep rfl rfl quiet (receives_update rfl (off_user pc) (by simp [Off, InWait]))⟩
  | @init i thread pc fresh =>
    have queue : (i.apply s.k).queue (.mutex m) = s.k.queue (.mutex m) := Kernel.queue_init fresh _
    refine ⟨now, h.keep queue ?_ ?_ (receives_update queue (off_user pc) (by simp [Off, InWait]))⟩
    · rw [System.goOn_k, Init.apply_owner]
      split
      · rename_i same
        subst same
        rw [token.owner, token.made.mp fresh]; rfl
      · rfl
    · simp [comers, entered, acquirers, releasers]
  | yield thread pc =>
    refine ⟨now, h.keep rfl rfl quiet (receives_move rfl ?_)⟩
    rw [System.goOn_k]
    have queue : s.k.triggerPendsv.queue (.mutex m) = s.k.queue (.mutex m) := rfl
    simp [Receives, InWait, pc, queue]
  | @ret c thread pc =>
    have run := inv.thread_running thread pc (by simp) (by simp)
    have out := inv.queued.not_mem inv.wf.current_lt (by rw [run]; simp) (.mutex m)
    refine ⟨now, h.keep rfl rfl ?_ (receives_move rfl ?_)⟩
    · rcases c with _ | (_ | _) | _ <;>
        simp [returnTo, comers, entered, acquirers, releasers]
    · rw [System.goOn_k]
      rcases c with _ | (_ | _) | _ <;> simp [Receives, InWait, pc, returnTo, out]
  | @own m' thread pc =>
    by_cases eq : m' = m
    · subst eq
      exact ⟨_, h.own token pc⟩
    · refine ⟨now, h.keep rfl ?_ ?_ ?_⟩
      · simp [Ne.symm eq]
      · simp [comers, entered, acquirers, releasers, eq]
      · exact receives_update rfl (by rw [pc]; simp [Off, InWait, eq]) (by simp [Off, InWait])

theorem boot_turns {cfg : Config} {s : System} (hboot : boot cfg = some s)
    (some_task : 0 < cfg.tasks.length) (m : Nat) : Turns m s.k s.pc s.log [] := by
  obtain ⟨booted, pc, -⟩ := boot_spec hboot some_task
  have plain := boot_log hboot some_task
  have none : ∀ {β : Type} (f : Event → Option β), f .tick = none → (∀ r n, f (.init r n) = none) →
      s.log.filterMap f = [] := by
    intro β f tick init
    rw [List.filterMap_eq_nil_iff]
    intro e mem
    rcases plain e mem with rfl | ⟨i, -, rfl⟩
    · exact tick
    · exact init _ _
  have acquired : acquirers m s.log = [] := none _ rfl fun _ _ => rfl
  have released : releasers m s.log = [] := none _ rfl fun _ _ => rfl
  have came : comers m s.log = [] := by
    rw [comers, entered, none _ rfl fun _ _ => rfl]; rfl
  refine ⟨?_, fun t => ?_, by simp, ?_⟩
  · rw [came, acquired, booted.queue]; rfl
  · exact iff_of_false (by simp) (not_receives (off_user (by rw [pc])))
  · rw [acquired, released, booted.owner]; rfl

/-- A mutex is handed on in the order in which the tasks came to `osMutexAcquire`, and every owner
gives it back before the next one has it. Between the owners and those that wait in the queue there
is at most one task, and only while nobody owns the mutex. -/
theorem mutex_handover {cfg : Config} {idle : TaskId} {s : System} (h : Reachable cfg idle s)
    (m : Nat) :
    (∃ now, comers m s.log = acquirers m s.log ++ now ++ s.k.queue (.mutex m) ∧ now.length ≤ 1 ∧
      (now ≠ [] → s.k.owner m = none)) ∧
    acquirers m s.log = releasers m s.log ++ (s.k.owner m).toList := by
  obtain ⟨-, ⟨tok, token⟩, now, turns⟩ := h.induct
    (P := fun s => (∃ tok, TokenAt m s.k s.pc s.log tok) ∧ ∃ now, Turns m s.k s.pc s.log now)
    (fun s₀ hboot _ => ⟨boot_token hboot h.some_task m, _, boot_turns hboot h.some_task m⟩)
    fun t a u inv ⟨⟨_, token⟩, _, turns⟩ hstep _ =>
      ⟨step_token inv.inv token hstep, step_turns inv.inv token turns hstep⟩
  refine ⟨⟨now, turns.came, turns.once, fun some => ?_⟩, turns.gave⟩
  obtain ⟨t, mem⟩ := List.exists_mem_of_ne_nil _ some
  have taken := (token.claims t).mp ((turns.receives t).mp mem).claims
  rw [token.owner, taken]; rfl

/-- In `main.c` the consumer acquires the mutex and sleeps, the led task and the counter task come
for it, and the consumer gives it back. The led task is next. -/
theorem mutex_handover_led : ∃ (s : System) (now : List TaskId),
    [2, 0, 1] = acquirers 0 s.log ++ now ++ [1] ∧ acquirers 0 s.log = [2] ∧ now.length ≤ 1 := by
  obtain ⟨s, h, hp⟩ := reachable_of_exec mainConfig 3
    ([.pendSv, .handler, .call (.acquire 0), .task, .task, .call (.delay 1), .task, .pendSv, .handler,
      .call (.acquire 0), .task, .pendSv, .handler, .call (.acquire 0), .task, .pendSv, .handler,
      .sysTick] ++ List.replicate 11 .handler ++
      [.pendSv, .handler, .task, .call (.release 0), .task])
    (fun s => comers 0 s.log = [2, 0, 1] ∧ releasers 0 s.log = [2] ∧ s.k.owner 0 = none ∧
      s.k.queue (.mutex 0) = [1]) (by decide) (by decide)
  obtain ⟨came, released, free, queue⟩ := of_decide_eq_true hp
  obtain ⟨⟨now, order, once, -⟩, gave⟩ := mutex_handover h 0
  rw [came, queue] at order
  rw [released, free] at gave
  exact ⟨s, now, order, gave, once⟩

end Rtos
