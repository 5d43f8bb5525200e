import Mathlib.Algebra.Order.BigOperators.Group.List
import Rtos.Lib.WaitGraph
import Rtos.Sync.Mutex

/-! Deadlock. A mutex leaves its owner only through `osMutexRelease` of that owner, so a circle of
waits never opens again, and neither does a wait for a task that has trapped. Tasks that acquire
their mutexes in one order close no circle. -/
namespace Rtos
open Lib Relation

/-- `t` stands in the wait queue of a mutex that `o` owns. -/
def WaitsFor (k : Kernel) (t o : TaskId) : Prop := ∃ m, t ∈ k.queue (.mutex m) ∧ k.owner m = some o

/-- `t` is in the endless loop of `osMutexRelease`. -/
def Trapped (s : System) (t : TaskId) : Prop := s.pc t = .spin

/-- `t` waits, directly or through others, for a circle of waits or for a trapped task. -/
abbrev Deadlocked (s : System) : TaskId → Prop := Stuck (WaitsFor s.k) (Trapped s)

theorem Reachable.token {cfg : Config} {idle : TaskId} {s : System} (h : Reachable cfg idle s)
    (m : Nat) : ∃ tok, TokenAt m s.k s.pc s.log tok :=
  (h.induct (P := fun s => ∃ tok, TokenAt m s.k s.pc s.log tok)
    (fun _ hboot _ => boot_token hboot h.some_task m)
    fun _ _ _ inv ⟨_, token⟩ hstep _ => step_token inv.inv token hstep).2

section token
variable {m : Nat} {k : Kernel} {pc : TaskId → Pc} {log : List Event} {tok : Token} {t o : TaskId}

theorem TokenAt.owned (h : TokenAt m k pc log tok) (owner : k.owner m = some o) : tok = .owned o := by
  rw [h.owner] at owner
  cases tok <;> simp_all [Token.owner]

/-- While a mutex has an owner, nobody is between its two halves of an acquire or a release. -/
theorem TokenAt.no_claim (h : TokenAt m k pc log tok) (owner : k.owner m = some o) :
    ¬ Claims m k pc t := by
  rw [h.claims, h.owned owner]
  simp

/-- Who owns a mutex has acquired it. -/
theorem TokenAt.acquired (h : TokenAt m k pc log tok) (owner : k.owner m = some o) :
    .acquired m o ∈ log := by
  by_contra never
  have inside := h.inside o
  rw [← h.owner, if_pos owner] at inside
  have nonpos : ∀ n ∈ log.map (sectionChange m o), n ≤ 0 := by
    intro n mem
    obtain ⟨e, he, rfl⟩ := List.mem_map.mp mem
    cases e with
    | acquired m' u =>
      rw [sectionChange, if_neg]
      rintro ⟨rfl, rfl⟩
      exact never he
    | released m' u => simp only [sectionChange]; split <;> decide
    | _ => exact le_rfl
  have none : inSection m o log ≤ 0 := by
    simpa [inSection] using List.sum_le_card_nsmul _ 0 nonpos
  omega

end token

/-- While the owner of a mutex does not execute its own code, it keeps the mutex, and nobody leaves
the queue. -/
theorem step_owned {s s' : System} {a : Action} {m : Nat} {o : TaskId} (inv : Inv s)
    (token : ∃ tok, TokenAt m s.k s.pc s.log tok) (owner : s.k.owner m = some o)
    (away : s.Thread → s.pc s.k.currentTask = .user → s.k.currentTask ≠ o)
    (hstep : step s a = some s') :
    s'.k.owner m = some o ∧ s.k.queue (.mutex m) <+: s'.k.queue (.mutex m) := by
  obtain ⟨tok, token⟩ := token
  have same : ∀ {k : Kernel}, k.owner m = s.k.owner m → k.sems (.mutex m) = s.k.sems (.mutex m) →
      k.owner m = some o ∧ s.k.queue (.mutex m) <+: k.queue (.mutex m) := fun owners sems =>
    ⟨owners.trans owner, Kernel.queue_congr sems ▸ List.prefix_rfl⟩
  cases step_cases hstep with
  | sysTick | isr | pendSv | tickLeave | isrYield | isrReturn | nothing | trap | leave | yield |
    ret | delay => exact same rfl rfl
  | @tick p => exact same (congrFun (tickStep_owner s.k p) m) (congrFun (tickStep_sems s.k p) _)
  | switch => exact same (congrFun (osSchedule_owner _) m) (congrFun (osSchedule_sems _) _)
  | isrSignal _ result => exact same (congrFun (signal_owner result) m) (signal_sems result (by simp))
  | @waitQueued _ r _ _ _ _ result =>
    obtain ⟨sem, hs, ⟨no, -⟩ | ⟨-, -, -, rfl⟩⟩ := osSemaphoreWait_effect result
    · cases no
    · refine ⟨owner, ?_⟩
      rw [System.goOn_k, inv.queued.queue_enqueue hs]
      split
      · rename_i eq
        rw [eq]; exact List.prefix_append _ _
      · exact List.prefix_rfl
  | waitTaken _ _ _ result =>
    obtain ⟨sem, hs, ⟨-, -, rfl⟩ | ⟨no, -⟩⟩ := osSemaphoreWait_effect result
    · refine ⟨owner, ?_⟩
      rw [System.goOn_k, Kernel.queue_setCount hs]
    · cases no
  | @signal _ r _ _ _ ref result =>
    refine same (congrFun (signal_owner result) m) (signal_sems result ?_)
    rintro rfl
    rcases ref with ⟨_, -, no, -⟩ | ⟨_, -, eq, pc⟩
    · cases no
    · cases eq
      exact token.no_claim owner (.inr (.inr pc))
  | @release m' thread pc own =>
    refine same ?_ rfl
    rw [System.goOn_k, Kernel.setOwner_owner, if_neg]
    rintro rfl
    exact away thread pc (Option.some.inj (own.symm.trans owner))
  | @init i _ _ fresh =>
    have made : s.k.sems (.mutex m) ≠ none := by
      rw [Ne, token.made, token.owned owner]; simp
    have other : SemRef.mutex m ≠ i.ref := fun eq => made (eq ▸ fresh)
    refine same ?_ (by rw [System.goOn_k, Init.apply_sems, if_neg other])
    rw [System.goOn_k, Init.apply_owner, if_neg]
    rintro rfl
    exact other rfl
  | @own m' _ pc =>
    refine same ?_ rfl
    rw [System.goOn_k, Kernel.setOwner_owner, if_neg]
    rintro rfl
    exact token.no_claim owner (.inr (.inl pc))

/-- An owner that is blocked or has trapped executes nothing. -/
theorem step_lost {s s' : System} {a : Action} {m : Nat} {o : TaskId} (inv : Inv s)
    (token : ∃ tok, TokenAt m s.k s.pc s.log tok) (owner : s.k.owner m = some o)
    (halted : s.k.state o = .blocked ∨ Trapped s o) (hstep : step s a = some s') :
    s'.k.owner m = some o ∧ s.k.queue (.mutex m) <+: s'.k.queue (.mutex m) := by
  refine step_owned inv token owner ?_ hstep
  rintro thread pc rfl
  have run := inv.thread_running thread pc (by simp) (by simp)
  rcases halted with blocked | spin
  · rw [run] at blocked; cases blocked
  · rw [Trapped, pc] at spin; cases spin

section deadlocked
variable {s s' : System} {a : Action} {t o o' : TaskId}

theorem WaitsFor.blocked (h : WaitsFor s.k t o) (inv : Inv s) : s.k.state t = .blocked := by
  obtain ⟨m, mem, -⟩ := h
  exact inv.queued.state_of_mem mem

theorem WaitsFor.unique (h : WaitsFor s.k t o) (h' : WaitsFor s.k t o') (inv : Inv s) : o = o' := by
  obtain ⟨m, mem, owner⟩ := h
  obtain ⟨m', mem', owner'⟩ := h'
  cases inv.queued.once _ _ t mem mem'
  exact Option.some.inj (owner.symm.trans owner')

theorem WaitsFor.not_trapped (h : WaitsFor s.k t o) (inv : Inv s) : ¬ Trapped s t := by
  obtain ⟨m, mem, -⟩ := h
  intro spin
  rw [Trapped] at spin
  rcases inv.queue_pc _ t mem with pc | pc
  · rw [spin] at pc; cases pc
  · rw [spin] at pc; cases pc

theorem Stuck.halted (h : Deadlocked s t) (inv : Inv s) : s.k.state t = .blocked ∨ Trapped s t := by
  by_cases spin : Trapped s t
  · exact .inr spin
  · obtain ⟨o, waits, -⟩ := h.waits spin
    exact .inl (waits.blocked inv)

theorem step_deadlocked (inv : Inv s) (token : ∀ m, ∃ tok, TokenAt m s.k s.pc s.log tok)
    (h : Deadlocked s t) (hstep : step s a = some s') : Deadlocked s' t := by
  refine h.mono ?_ fun x spin => step_spin spin hstep
  intro x y stuck waits
  obtain ⟨o, waits', stuck'⟩ := stuck.waits (waits.not_trapped inv)
  cases waits.unique waits' inv
  obtain ⟨m, mem, owner⟩ := waits
  obtain ⟨kept, queue⟩ := step_lost inv (token m) owner (Stuck.halted stuck' inv) hstep
  exact ⟨m, queue.subset mem, kept⟩

end deadlocked

/-- A deadlocked task is blocked on a mutex or trapped, and it is so in every state of every
continuation. The mutexes that it owns are lost: they keep their owner, and their queues only
grow at the end. -/
theorem deadlock_permanent {cfg : Config} {idle : TaskId} {s t : System} {x : TaskId}
    (h : Reachable cfg idle s) (later : Reach (AwakeStep idle) s t) (stuck : Deadlocked s x) :
    Deadlocked t x ∧ (t.k.state x = .blocked ∨ Trapped t x) ∧
    ∀ m, s.k.owner m = some x →
      t.k.owner m = some x ∧ s.k.queue (.mutex m) <+: t.k.queue (.mutex m) := by
  have all := later.invariant (P := fun t => Reachable cfg idle t ∧ Deadlocked t x ∧
      ∀ m, s.k.owner m = some x →
        t.k.owner m = some x ∧ s.k.queue (.mutex m) <+: t.k.queue (.mutex m))
    ⟨h, stuck, fun m owner => ⟨owner, List.prefix_rfl⟩⟩ ?_
  · obtain ⟨reachable, stuck', lost⟩ := all
    exact ⟨stuck', Stuck.halted stuck' reachable.idleInv.inv, lost⟩
  · rintro t a u ⟨reachable, stuck, lost⟩ hstep
    have inv := reachable.idleInv.inv
    refine ⟨reachable.next hstep, step_deadlocked inv reachable.token stuck hstep.1, ?_⟩
    intro m owner
    obtain ⟨kept, queue⟩ := lost m owner
    obtain ⟨kept', queue'⟩ :=
      step_lost inv (reachable.token m) kept (Stuck.halted stuck inv) hstep.1
    exact ⟨kept', queue.trans queue'⟩

/-- Two tasks of one level and an idle task, with two mutexes. -/
def twoLocks : Config :=
  { ticks := 0, inits := [.mutex 0, .mutex 1], tasks :=
      [⟨"left", 0x08000101, 0x20000100, 64, 1⟩, ⟨"right", 0x08000201, 0x20000200, 64, 1⟩,
        ⟨"idle", 0x08000301, 0x20000300, 64, 0⟩] }

/-- The left task takes the first mutex, a tick ends its slice, and the right one takes the
second and asks for the first. -/
def crossing : List Action :=
  [.pendSv, .handler, .call (.acquire 0), .task, .task, .sysTick] ++ List.replicate 8 .handler ++
    [.pendSv, .handler, .call (.acquire 1), .task, .task, .call (.acquire 0), .task, .pendSv, .handler]

/-- Then the left task asks for the second. -/
theorem deadlock_permanent_crossing : ∃ s, WaitsFor s.k 0 1 ∧ WaitsFor s.k 1 0 ∧
    ∀ t, Reach (AwakeStep 2) s t → t.k.state 0 = .blocked ∨ Trapped t 0 := by
  obtain ⟨s, h, hp⟩ := reachable_of_exec twoLocks 2 (crossing ++ [.call (.acquire 1)])
    (fun s => (s.k.queue (.mutex 1) = [0] ∧ s.k.owner 1 = some 1) ∧
      s.k.queue (.mutex 0) = [1] ∧ s.k.owner 0 = some 0) (by decide) (by decide)
  obtain ⟨⟨second, right⟩, first, left⟩ := of_decide_eq_true hp
  have forth : WaitsFor s.k 0 1 := ⟨1, by rw [second]; exact List.mem_cons_self, right⟩
  have back : WaitsFor s.k 1 0 := ⟨0, by rw [first]; exact List.mem_cons_self, left⟩
  have circle : TransGen (WaitsFor s.k) 0 0 := .tail (.single forth) back
  exact ⟨s, forth, back, fun t later => (deadlock_permanent h later (.of_circle circle)).2.1⟩

/-! A discipline that avoids the circles. -/

section order
variable {α : Type} [Preorder α] (rank : Nat → α)

/-- One step of a run in which each task acquires only mutexes that rank above all it owns. -/
abbrev OrderedStep (idle : TaskId) : System → Action → System → Prop :=
  Steps step fun s a t => Awake idle t.k ∧ ∀ m, a = .call (.acquire m) →
    ∀ m', s.k.owner m' = some s.k.currentTask → rank m' < rank m

/-- Who is in `osMutexAcquire` owns mutexes of lower rank only. -/
def Ascending (s : System) : Prop :=
  ∀ t m m', InWait (.mutex m) (s.pc t) → s.k.owner m' = some t → rank m' < rank m

variable {rank} {s s' : System} {a : Action} {idle : TaskId}

theorem Ascending.keep (h : Ascending rank s)
    (owner : ∀ m t, s'.k.owner m = some t → s.k.owner m = some t ∨ ∀ r, ¬ InWait r (s'.pc t))
    (pc : ∀ t r, InWait r (s'.pc t) → InWait r (s.pc t)) : Ascending rank s' := by
  intro t m m' waiting owned
  rcases owner m' t owned with old | away
  · exact h t m m' (pc t _ waiting) old
  · exact absurd waiting (away _)

theorem step_ascending (h : Ascending rank s) (hstep : OrderedStep rank idle s a s') :
    Ascending rank s' := by
  obtain ⟨hstep, -, order⟩ := hstep
  have out : ∀ {p : Pc}, (∀ r, ¬ InWait r p) → ∀ t r,
      InWait r (Function.update s.pc s.k.currentTask p t) → InWait r (s.pc t) :=
    fun away => inWait_update fun r waiting => absurd waiting (away r)
  have acquire : ∀ {op : Op} {r : SemRef} {k : Kernel} {p : Pc} {es : List Event}, a = .call op →
      ((∃ j, op = .wait j ∧ r = .sem j) ∨ ∃ m, op = .acquire m ∧ r = .mutex m) →
      k.owner = s.k.owner → (∀ r', InWait r' p → r' = r) → Ascending rank (s.goOn k p es) := by
    intro op r k p es call ref owners at_ t m m' waiting owned
    rw [System.goOn_pc] at waiting
    rw [System.goOn_k, owners] at owned
    by_cases eq : t = s.k.currentTask
    · subst eq
      rw [Function.update_self] at waiting
      cases at_ _ waiting
      rcases ref with ⟨_, -, no⟩ | ⟨_, rfl, eq⟩
      · cases no
      · cases eq
        exact order m call m' owned
    · rw [Function.update_of_ne eq] at waiting
      exact h t m m' waiting owned
  cases step_cases hstep with
  | sysTick | isr | pendSv | tickLeave | isrYield | isrReturn | nothing => exact h
  | @tick p => exact h.keep (fun m t owned => .inl (by rwa [← tickStep_owner s.k p])) fun _ _ => id
  | switch =>
    refine h.keep (fun m t owned => .inl ?_) fun _ _ => id
    exact (congrFun (osSchedule_owner { s.k with rtosStarted := true }) m).symm.trans owned
  | isrSignal _ result =>
    exact h.keep (fun m t owned => .inl (by rwa [← signal_owner result])) fun _ _ => id
  | waitQueued _ _ ref result =>
    exact acquire rfl ref (wait_owner result) (by simp [InWait])
  | waitTaken _ _ ref result =>
    exact acquire rfl ref (wait_owner result) (by simp [InWait])
  | @signal _ _ _ woken _ _ result =>
    refine h.keep (fun m t owned => .inl (by rwa [← signal_owner result])) (out ?_)
    cases woken <;> simp [InWait]
  | delay | trap | leave => exact h.keep (fun _ _ => .inl) (out (by simp [InWait]))
  | release =>
    refine h.keep (fun m t owned => .inl ?_) (out (by simp [InWait]))
    rw [System.goOn_k, Kernel.setOwner_owner] at owned
    split at owned
    · cases owned
    · exact owned
  | @init i =>
    refine h.keep (fun m t owned => .inl ?_) (out (by simp [InWait]))
    rw [System.goOn_k, Init.apply_owner] at owned
    split at owned
    · cases owned
    · exact owned
  | yield _ pc =>
    refine h.keep (fun _ _ => .inl) (inWait_update fun r waiting => ?_)
    rw [pc]
    simpa [InWait] using waiting
  | @ret c =>
    refine h.keep (fun _ _ => .inl) (out ?_)
    rcases c with _ | (_ | _) | _ <;> simp [InWait, returnTo]
  | @own m' =>
    refine h.keep (fun m t owned => ?_) (out (by simp [InWait]))
    rw [System.goOn_k, Kernel.setOwner_owner] at owned
    split at owned
    · cases Option.some.inj owned
      right
      simp [InWait]
    · exact .inl owned

theorem ordered_ascending {cfg : Config} {s₀ : System} (hboot : boot cfg = some s₀)
    (created : idle < cfg.tasks.length) (run : Reach (OrderedStep rank idle) s₀ s) :
    Reachable cfg idle s ∧ Ascending rank s := by
  have start : Ascending rank s₀ := by
    intro t m m' waiting
    obtain ⟨-, pc, -⟩ := boot_spec hboot (Nat.zero_lt_of_lt created)
    rw [pc] at waiting
    rcases waiting with eq | eq <;> cases eq
  refine run.invariant (P := fun s => Reachable cfg idle s ∧ Ascending rank s)
    ⟨⟨s₀, hboot, created, Reach.refl _ _⟩, start⟩ ?_
  rintro t a u ⟨reachable, ascending⟩ hstep
  exact ⟨reachable.next ⟨hstep.1, hstep.2.1⟩, step_ascending ascending hstep⟩

/-- The mutex in whose `osMutexAcquire` the task waits. -/
def Pc.waitsOn : Pc → Nat
  | .yield (.wait (.mutex m)) => m
  | .ret (.wait (.mutex m)) => m
  | _ => 0

theorem InWait.waitsOn {m : Nat} {p : Pc} (h : InWait (.mutex m) p) : p.waitsOn = m := by
  rcases h with rfl | rfl <;> rfl

/-- Tasks that acquire their mutexes in one order never wait in a circle; in every nonempty set of
tasks there is one that waits for none of them. -/
theorem lock_order {cfg : Config} {s₀ : System} (hboot : boot cfg = some s₀)
    (created : idle < cfg.tasks.length) (run : Reach (OrderedStep rank idle) s₀ s) :
    (∀ t, ¬ TransGen (WaitsFor s.k) t t) ∧
    ∀ D : Set TaskId, D.Nonempty → ∃ t ∈ D, ∀ o ∈ D, ¬ WaitsFor s.k t o := by
  obtain ⟨reachable, ascending⟩ := ordered_ascending hboot created run
  have inv := reachable.idleInv.inv
  have acyclic : ∀ t, ¬ TransGen (WaitsFor s.k) t t := by
    refine no_circle (fun t => rank (s.pc t).waitsOn) ?_
    rintro x y z ⟨m, mem, owner⟩ ⟨m', mem', -⟩
    have waiting : InWait (.mutex m) (s.pc x) := inv.queue_pc _ x mem
    have waiting' : InWait (.mutex m') (s.pc y) := inv.queue_pc _ y mem'
    rw [waiting.waitsOn, waiting'.waitsOn]
    exact ascending y m' m waiting' owner
  refine ⟨acyclic, fun D nonempty => ?_⟩
  by_contra closed
  push Not at closed
  have finite : D.Finite := by
    refine (Set.finite_lt_nat s.k.taskCount).subset fun t mem => ?_
    obtain ⟨o, -, m, queued, -⟩ := closed t mem
    exact inv.queued.created _ t queued
  obtain ⟨t, mem⟩ := nonempty
  have stuck : Stuck (WaitsFor s.k) (fun _ => False) t := stuck_of_closed finite closed mem
  obtain ⟨o, -, circle | dead⟩ := stuck
  · exact acyclic o circle
  · exact dead

end order

/-- The task has acquired mutexes below `m` only, released or not. -/
def acquiredBelow (m : Nat) (t : TaskId) (log : List Event) : Bool :=
  log.all fun
    | .acquired m' u => u ≠ t || m' < m
    | _ => true

/-- The left task takes both mutexes in their order, and the right one waits for the first. -/
theorem lock_order_waiting : ∃ s : System, WaitsFor s.k 1 0 ∧
    ∀ t, ¬ TransGen (WaitsFor s.k) t t := by
  let acts : List Action :=
    [.pendSv, .handler, .call (.acquire 0), .task, .task, .call (.acquire 1), .task, .task,
      .sysTick] ++ List.replicate 8 .handler ++ [.pendSv, .handler, .call (.acquire 0)]
  have trace : ((boot twoLocks).bind fun s => exec step (fun s a t => decide (Awake 2 t.k) &&
      match a with
      | .call (.acquire m) => acquiredBelow m s.k.currentTask s.log
      | _ => true) s acts).any
      (fun s => s.k.queue (.mutex 0) = [1] ∧ s.k.owner 0 = some 0) = true := by decide
  obtain ⟨s, hs, hp⟩ := (Option.any_eq_true _ _).mp trace
  obtain ⟨queue, owner⟩ := of_decide_eq_true hp
  obtain ⟨s₀, hboot, hexec⟩ := Option.bind_eq_some_iff.mp hs
  have created : 2 < twoLocks.tasks.length := by decide
  have ordered := (exec_run hexec).invariant
    (P := fun s => Reachable twoLocks 2 s ∧ Reach (OrderedStep id 2) s₀ s)
    ⟨⟨s₀, hboot, created, Reach.refl _ _⟩, Reach.refl _ _⟩ ?_
  · have acyclic := (lock_order hboot created ordered.2).1
    exact ⟨s, ⟨0, by rw [queue]; exact List.mem_cons_self, owner⟩, acyclic⟩
  · rintro t a u ⟨reachable, reach⟩ ⟨hstep, ok⟩
    obtain ⟨awake, below⟩ := (Bool.and_eq_true _ _).mp ok
    refine ⟨reachable.next ⟨hstep, of_decide_eq_true awake⟩,
      reach.next ⟨hstep, of_decide_eq_true awake, ?_⟩⟩
    rintro m rfl m' owned
    obtain ⟨tok, token⟩ := reachable.token m'
    have event := List.all_eq_true.mp below _ (token.acquired owned)
    simpa using event

end Rtos
