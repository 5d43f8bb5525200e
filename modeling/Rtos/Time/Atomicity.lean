import Rtos.System.Reachable

/-! `SysTick_Handler` runs unmasked, so signals from other interrupt handlers come between
its instructions. They all commute with what is left of the call. -/
namespace Rtos
open Lib

/-- `osSemaphoreSignal` without interruption. -/
def signalCall (k : Kernel) (r : SemRef) : Option Kernel :=
  (osSemaphoreSignal k r).map fun (k', woken) => if woken.isSome then k'.triggerPendsv else k'

def signalAll (k : Kernel) (rs : List SemRef) : Option Kernel := rs.foldlM signalCall k

/-- The first waiter of every semaphore is not asleep. -/
def WaitersAwake (k : Kernel) : Prop :=
  ∀ r s u, k.sems r = some s → 0 < s.waitCount → s.waiting 0 = some u → k.state u ≠ .sleeping

theorem Kernel.Queued.waitersAwake {k : Kernel} (h : k.Queued) : WaitersAwake k := by
  intro r s u hs _ first
  obtain ⟨q, hq⟩ := h.head hs first
  rw [h.state_of_mem (r := r) (by rw [hq]; exact List.mem_cons_self)]
  simp

theorem signalCall_eq (k : Kernel) (r : SemRef) : signalCall k r =
    match k.sems r with
    | none => none
    | some s =>
      if 0 < s.waitCount then
        (s.waiting 0).map fun u => (k.dequeue r s u).triggerPendsv
      else some (k.setSem r { s with count := wrap32 (s.count + 1) }) := by
  unfold signalCall osSemaphoreSignal
  cases hs : k.sems r with
  | none => rfl
  | some s =>
    by_cases waiters : 0 < s.waitCount
    · cases first : s.waiting 0 with
      | none => simp only [if_pos waiters, first]; rfl
      | some u => simp only [if_pos waiters, first]; rfl
    · simp only [if_neg waiters]; rfl

/-- An update that leaves the semaphores alone and commutes with the writes of a signal
commutes with the signal. -/
theorem signalCall_comm {k : Kernel} {r : SemRef} {f : Kernel → Kernel}
    (sems : (f k).sems r = k.sems r) (count : ∀ s, (f k).setSem r s = f (k.setSem r s))
    (first : ∀ s u, k.sems r = some s → 0 < s.waitCount → s.waiting 0 = some u →
      ((f k).dequeue r s u).triggerPendsv = f (k.dequeue r s u).triggerPendsv) :
    signalCall (f k) r = (signalCall k r).map f := by
  rw [signalCall_eq, signalCall_eq, sems]
  cases hs : k.sems r with
  | none => rfl
  | some s =>
    by_cases waiters : 0 < s.waitCount
    · cases head : s.waiting 0 with
      | none => simp only [if_pos waiters, head]; rfl
      | some u =>
        simp only [if_pos waiters, head, Option.map_some]
        exact congrArg some (first s u hs waiters head)
    · simp only [if_neg waiters, Option.map_some]
      exact congrArg some (count _)

theorem signalCall_sysTick (k : Kernel) (r : SemRef) :
    signalCall { k with sysTick := k.sysTick + 1 } r =
      (signalCall k r).map fun k => { k with sysTick := k.sysTick + 1 } :=
  signalCall_comm (f := fun k => { k with sysTick := k.sysTick + 1 }) rfl (fun _ => rfl)
    fun _ _ _ _ _ => rfl

theorem signalCall_trigger (k : Kernel) (r : SemRef) :
    signalCall k.triggerPendsv r = (signalCall k r).map Kernel.triggerPendsv :=
  signalCall_comm rfl (fun _ => rfl) fun _ _ _ _ _ => rfl

theorem setState_comm (k : Kernel) (t u : TaskId) (st : TaskState) :
    (k.setState t st).setState u st = (k.setState u st).setState t st := by
  by_cases eq : t = u
  · rw [eq]
  · unfold Kernel.setState Kernel.setTask
    simp only [Function.update_of_ne eq, Function.update_of_ne (Ne.symm eq)]
    rw [Function.update_comm eq]

/-- Waking a task by the tick and waking one by a signal write the same value. -/
theorem signalCall_wake (k : Kernel) (r : SemRef) (i : TaskId) :
    signalCall (k.setState i .ready) r = (signalCall k r).map (·.setState i .ready) := by
  refine signalCall_comm (f := (·.setState i .ready)) rfl (fun _ => rfl) fun s u _ _ _ => ?_
  exact congrArg Kernel.triggerPendsv (setState_comm (k.setSem r _) i u .ready)

theorem chargeCurrent_setState (k : Kernel) (u : TaskId) (st : TaskState) :
    chargeCurrent (k.setState u st) = (chargeCurrent k).setState u st := by
  unfold chargeCurrent Kernel.setState Kernel.setTask
  by_cases eq : u = k.currentTask
  · subst eq
    simp only [Function.update_self, Function.update_idem]
  · simp only [Function.update_of_ne eq, Function.update_of_ne (Ne.symm eq)]
    rw [Function.update_comm eq]

theorem signalCall_charge (k : Kernel) (r : SemRef) :
    signalCall (chargeCurrent k) r = (signalCall k r).map chargeCurrent := by
  refine signalCall_comm rfl (fun _ => rfl) fun s u _ _ _ => ?_
  exact congrArg Kernel.triggerPendsv (chargeCurrent_setState (k.setSem r _) u .ready).symm

theorem signalCall_keeps {k k' : Kernel} {r : SemRef} (awake : WaitersAwake k)
    (result : signalCall k r = some k') :
    k'.taskCount = k.taskCount ∧ k'.rtosStarted = k.rtosStarted ∧
    ∀ i, (k'.state i = .sleeping ↔ k.state i = .sleeping) ∧ isDue k' i = isDue k i := by
  rw [signalCall_eq] at result
  cases hs : k.sems r with
  | none => rw [hs] at result; cases result
  | some s =>
    simp only [hs] at result
    split at result
    · rename_i waiters
      obtain ⟨u, head, rfl⟩ := Option.map_eq_some_iff.mp result
      refine ⟨rfl, rfl, fun i => ⟨?_, ?_⟩⟩
      · have notAsleep := awake r s u hs waiters head
        rw [Kernel.state_triggerPendsv]
        grind
      · exact congrArg (reached k.sysTick) (Kernel.wakeTick_setState (k.setSem r _) u i .ready)
    · cases Option.some.inj result
      exact ⟨rfl, rfl, fun _ => ⟨Iff.rfl, rfl⟩⟩

theorem signalCall_wakeDue {k : Kernel} (awake : WaitersAwake k) (r : SemRef) (i : TaskId) :
    signalCall (wakeDue k i) r = (signalCall k r).map (wakeDue · i) := by
  have decides : ∀ k' ∈ signalCall k r, (k'.state i = .sleeping ∧ isDue k' i = true ↔
      k.state i = .sleeping ∧ isDue k i = true) := by
    intro k' result
    obtain ⟨asleep, due⟩ := (signalCall_keeps awake result).2.2 i
    rw [asleep, due]
  by_cases due : k.state i = .sleeping ∧ isDue k i = true
  · rw [wakeDue, if_pos due, signalCall_wake]
    refine Option.map_congr fun k' result => ?_
    rw [wakeDue, if_pos ((decides k' result).mpr due)]
  · have still : (signalCall k r).map (wakeDue · i) = (signalCall k r).map id := by
      refine Option.map_congr fun k' result => ?_
      rw [wakeDue, if_neg (mt (decides k' result).mp due), id]
    rw [wakeDue, if_neg due, still, Option.map_id]; rfl

theorem WaitersAwake.setReady {k : Kernel} (h : WaitersAwake k) (i : TaskId) :
    WaitersAwake (k.setState i .ready) := by
  intro r s u hs waiters head
  have notAsleep := h r s u hs waiters head
  grind

theorem WaitersAwake.wakeDue {k : Kernel} (h : WaitersAwake k) (i : TaskId) :
    WaitersAwake (wakeDue k i) := by
  unfold Rtos.wakeDue
  split
  · exact h.setReady i
  · exact h

theorem signalCall_wakeLoop (r : SemRef) (n : Nat) : ∀ {k : Kernel} (i : Nat), WaitersAwake k →
    signalCall (wakeLoop k i n) r = (signalCall k r).map (wakeLoop · i n) := by
  induction n with
  | zero =>
    intro k i _
    exact Option.map_id'.symm
  | succ n ih =>
    intro k i awake
    rw [wakeLoop, ih (i + 1) (awake.wakeDue i), signalCall_wakeDue awake, Option.map_map]
    rfl

theorem signalCall_chargeTick {k : Kernel} (r : SemRef) (awake : WaitersAwake k) :
    signalCall (chargeTick k) r = (signalCall k r).map chargeTick := by
  have started : ∀ k' ∈ signalCall k r, k'.rtosStarted = k.rtosStarted := fun k' result =>
    (signalCall_keeps awake result).2.1
  by_cases on : k.rtosStarted = true
  · rw [chargeTick, if_pos on, signalCall_trigger, signalCall_charge, Option.map_map]
    refine Option.map_congr fun k' result => ?_
    rw [chargeTick, if_pos ((started k' result).trans on), Function.comp_apply]
  · have still : (signalCall k r).map chargeTick = (signalCall k r).map id := by
      refine Option.map_congr fun k' result => ?_
      rw [chargeTick, if_neg (started k' result ▸ on), id]
    rw [chargeTick, if_neg on, still, Option.map_id]; rfl

theorem WaitersAwake.wakeLoop (n : Nat) : ∀ {k : Kernel} (i : Nat), WaitersAwake k →
    WaitersAwake (wakeLoop k i n) := by
  induction n with
  | zero => exact fun _ h => h
  | succ n ih => exact fun i h => ih (i + 1) (h.wakeDue i)

theorem signalCall_finish {k : Kernel} (awake : WaitersAwake k) (r : SemRef) (i n : Nat) :
    signalCall (chargeTick (wakeLoop k i n)) r =
      (signalCall k r).map fun k => chargeTick (wakeLoop k i n) := by
  rw [signalCall_chargeTick r (awake.wakeLoop n i), signalCall_wakeLoop r n i awake, Option.map_map]
  rfl

/-- A signal commutes with everything that a SysTick call has left to do. -/
theorem signalCall_tickRest {k : Kernel} (awake : WaitersAwake k) (r : SemRef) (p : TickPc) :
    signalCall (tickRest k p) r = (signalCall k r).map (tickRest · p) := by
  have count : ∀ k' ∈ signalCall k r, k'.taskCount = k.taskCount := fun k' result =>
    (signalCall_keeps awake result).1
  cases p with
  | enter =>
    have awake' : WaitersAwake { k with sysTick := k.sysTick + 1 } := awake
    simp only [tickRest, sysTickHandler]
    rw [signalCall_finish awake', signalCall_sysTick, Option.map_map]
    refine Option.map_congr fun k' result => ?_
    rw [Function.comp_apply]
    exact congrArg (fun n => chargeTick (wakeLoop { k' with sysTick := k'.sysTick + 1 } 0 n))
      (count k' result).symm
  | scan i =>
    simp only [tickRest]
    rw [signalCall_finish awake]
    refine Option.map_congr fun k' result => ?_
    rw [count k' result]
  | due i =>
    have due : ∀ k' ∈ signalCall k r, isDue k' i = isDue k i := fun k' result =>
      ((signalCall_keeps awake result).2.2 i).2
    simp only [tickRest]
    by_cases now : isDue k i = true
    · rw [if_pos now, signalCall_finish (awake.setReady i), signalCall_wake, Option.map_map]
      refine Option.map_congr fun k' result => ?_
      rw [Function.comp_apply, due k' result, if_pos now, count k' result]
    · rw [if_neg now, signalCall_finish awake]
      refine Option.map_congr fun k' result => ?_
      rw [due k' result, if_neg now, count k' result]
  | wake i =>
    simp only [tickRest]
    rw [signalCall_finish (awake.setReady i), signalCall_wake, Option.map_map]
    refine Option.map_congr fun k' result => ?_
    rw [Function.comp_apply, count k' result]
  | charge => exact signalCall_chargeTick r awake
  | pend => exact signalCall_trigger k r
  | leave => exact Option.map_id'.symm

/-- The handlers above a SysTick call, and the PENDSVSET writes they still owe. -/
def settle (isrs : List Frame) (k : Kernel) : Kernel :=
  if .isr .yield ∈ isrs then k.triggerPendsv else k

theorem settle_body (isrs : List Frame) (k : Kernel) :
    settle (.isr .body :: isrs) k = settle isrs k := by
  simp [settle]

theorem settle_yield (isrs : List Frame) (k : Kernel) :
    settle (.isr .yield :: isrs) k = k.triggerPendsv := by
  simp [settle]

theorem settle_trigger (isrs : List Frame) (k : Kernel) :
    settle isrs k.triggerPendsv = k.triggerPendsv := by
  unfold settle; split <;> rfl

theorem signalCall_settle (isrs : List Frame) (k : Kernel) (r : SemRef) :
    signalCall (settle isrs k) r = (signalCall k r).map (settle isrs) := by
  by_cases owed : .isr .yield ∈ isrs
  · have eq : settle isrs = Kernel.triggerPendsv := funext fun k => if_pos owed
    rw [eq]; exact signalCall_trigger k r
  · have eq : settle isrs = id := funext fun k => if_neg owed
    rw [eq, Option.map_id]; rfl

theorem WaitersAwake.settle {k : Kernel} (h : WaitersAwake k) (isrs : List Frame) :
    WaitersAwake (settle isrs k) := by
  unfold Rtos.settle; split <;> exact h

/-- Which signal the step makes from an interrupt handler, if any. -/
def Action.isrSignals : Action → List SemRef
  | .isrSignal j => [.sem j]
  | _ => []

def isrSignals (tr : List (System × Action)) : List SemRef := tr.flatMap fun p => p.2.isrSignals

/-- A SysTick call entered in `k₀` above `rest` is under way: what it has left to do, behind
the signals so far, ends where the whole call followed by these signals ends. -/
def Midway (k₀ : Kernel) (rest : List Frame) (rs : List SemRef) (s : System) : Prop :=
  ∃ isrs p, s.frames = isrs ++ .sysTick p :: rest ∧ (∀ f ∈ isrs, ∃ q, f = .isr q) ∧
    signalAll (sysTickHandler k₀) rs = some (tickRest (settle isrs s.k) p)

def Finished (k₀ : Kernel) (rest : List Frame) (rs : List SemRef) (s : System) : Prop :=
  s.frames = rest ∧ signalAll (sysTickHandler k₀) rs = some s.k

theorem signalAll_snoc (k : Kernel) (rs : List SemRef) (r : SemRef) :
    signalAll k (rs ++ [r]) = (signalAll k rs).bind fun k' => signalCall k' r := by
  simp [signalAll, List.foldlM_append]

/-- The next handler to go on is the topmost one: one of the nested ones, or SysTick itself. -/
theorem top_cases {isrs rest top : List Frame} {f : Frame} {p : TickPc} {s : System}
    (frames : s.frames = isrs ++ .sysTick p :: rest) (above : ∀ f ∈ isrs, ∃ q, f = .isr q)
    (at_ : s.frames = f :: top) :
    (isrs = [] ∧ f = .sysTick p ∧ top = rest) ∨
    ∃ q isrs', f = .isr q ∧ isrs = .isr q :: isrs' ∧ top = isrs' ++ .sysTick p :: rest := by
  rw [frames] at at_
  cases isrs with
  | nil =>
    obtain ⟨rfl, rfl⟩ := List.cons.inj at_
    exact .inl ⟨rfl, rfl, rfl⟩
  | cons g isrs =>
    obtain ⟨rfl, rfl⟩ := List.cons.inj at_
    obtain ⟨q, rfl⟩ := above g List.mem_cons_self
    exact .inr ⟨q, isrs, rfl, rfl, rfl⟩

theorem step_midway {k₀ : Kernel} {rest : List Frame} {rs : List SemRef} {s s' : System}
    {a : Action} (inv : Inv s) (h : Midway k₀ rest rs s) (hstep : step s a = some s') :
    Midway k₀ rest (rs ++ a.isrSignals) s' ∨ Finished k₀ rest (rs ++ a.isrSignals) s' := by
  obtain ⟨isrs, p, frames, above, eq⟩ := h
  have busy : ¬ s.Thread := fun thread => by simp [thread.frames] at frames
  have push : ∀ q, ∀ f ∈ Frame.isr q :: isrs, ∃ q, f = .isr q := fun q f mem =>
    (List.mem_cons.mp mem).elim (fun eq => ⟨q, eq⟩) (above f)
  cases step_cases hstep with
  | sysTick _ once =>
    rw [System.inTick, frames] at once
    simp [Frame.isTick] at once
  | isr =>
    refine .inl ⟨.isr .body :: isrs, p, by simp [frames], push .body, ?_⟩
    simpa [settle, Action.isrSignals] using eq
  | pendSv _ none =>
    rw [frames] at none
    simp at none
  | tickLeave top =>
    rcases top_cases frames above top with ⟨rfl, leave, rfl⟩ | ⟨q, isrs', isr, -⟩
    · cases leave
      exact .inr ⟨rfl, by simpa [settle, tickRest, Action.isrSignals] using eq⟩
    · cases isr
  | @tick p' _ top more =>
    rcases top_cases frames above top with ⟨rfl, same, rfl⟩ | ⟨q, isrs', isr, -⟩
    · cases same
      refine .inl ⟨[], (tickStep s.k p).2, rfl, by simp, ?_⟩
      have settled : ∀ k, settle [] k = k := fun k => rfl
      simp only [Action.isrSignals, List.append_nil, settled] at eq ⊢
      rw [System.goOnAt_k, tickRest_step]; exact eq
    · cases isr
  | isrYield top =>
    rcases top_cases frames above top with ⟨-, tick, -⟩ | ⟨q, isrs', isr, rfl, rfl⟩
    · cases tick
    · cases isr
      refine .inl ⟨.isr .body :: isrs', p, rfl, ?_, ?_⟩
      · exact fun f mem => (List.mem_cons.mp mem).elim (fun eq => ⟨.body, eq⟩)
          fun mem => above f (List.mem_cons_of_mem _ mem)
      · rw [settle_yield] at eq
        rw [System.goOnAt_k, settle_body, settle_trigger]
        simpa [Action.isrSignals] using eq
  | switch top =>
    rcases top_cases frames above top with ⟨-, tick, -⟩ | ⟨q, isrs', isr, -⟩
    · cases tick
    · cases isr
  | @isrSignal j _ k woken top result =>
    rcases top_cases frames above top with ⟨-, tick, -⟩ | ⟨q, isrs', isr, rfl, rfl⟩
    · cases tick
    · cases isr
      refine .inl ⟨.isr (if woken.isSome then .yield else .body) :: isrs', p, rfl, ?_, ?_⟩
      · exact fun f mem => (List.mem_cons.mp mem).elim (fun eq => ⟨_, eq⟩)
          fun mem => above f (List.mem_cons_of_mem _ mem)
      · have call : signalCall s.k (.sem j) = some (if woken.isSome then k.triggerPendsv else k) := by
          rw [signalCall, result]; rfl
        rw [settle_body] at eq
        rw [Action.isrSignals, signalAll_snoc, eq, Option.bind_some,
          signalCall_tickRest (inv.queued.waitersAwake.settle isrs'), signalCall_settle, call]
        simp only [Option.map_some, Option.some.injEq, System.goOnAt_k]
        cases woken with
        | none => simp only [Option.isSome_none, Bool.false_eq_true, if_false, settle_body]
        | some u => simp only [Option.isSome_some, if_true, settle_trigger, settle_yield]
  | isrReturn top =>
    rcases top_cases frames above top with ⟨-, tick, -⟩ | ⟨q, isrs', isr, rfl, rfl⟩
    · cases tick
    · cases isr
      refine .inl ⟨isrs', p, rfl, fun f mem => above f (List.mem_cons_of_mem _ mem), ?_⟩
      rw [settle_body] at eq
      simpa [Action.isrSignals] using eq
  | nothing thread => exact absurd thread busy
  | delay thread => exact absurd thread busy
  | waitQueued thread => exact absurd thread busy
  | waitTaken thread => exact absurd thread busy
  | signal thread => exact absurd thread busy
  | release thread => exact absurd thread busy
  | trap thread => exact absurd thread busy
  | init thread => exact absurd thread busy
  | leave thread => exact absurd thread busy
  | yield thread => exact absurd thread busy
  | ret thread => exact absurd thread busy
  | own thread => exact absurd thread busy

theorem Midway.inTick {k₀ : Kernel} {rest : List Frame} {rs : List SemRef} {s : System}
    (h : Midway k₀ rest rs s) : s.inTick = true := by
  obtain ⟨isrs, p, frames, -⟩ := h
  simp [System.inTick, frames, Frame.isTick]

theorem run_midway {idle : TaskId} {k₀ : Kernel} {rest : List Frame} {rs : List SemRef}
    {s t : System} {tr : List (System × Action)} (inv : IdleInv idle s)
    (start : Midway k₀ rest rs s) (run : Run (AwakeStep idle) s tr t)
    (inside : ∀ p ∈ tr, p.1.inTick = true) (outer : ∀ f ∈ rest, f.isTick = false) :
    IdleInv idle t ∧ (Midway k₀ rest (rs ++ isrSignals tr) t ∨
      Finished k₀ rest (rs ++ isrSignals tr) t) := by
  induction run with
  | nil => exact ⟨inv, .inl (by simpa [isrSignals] using start)⟩
  | @snoc tr t u a _ hstep ih =>
    obtain ⟨inv, progress⟩ := ih fun p mem => inside p (List.mem_append_left _ mem)
    have active : t.inTick = true := inside (t, a) (by simp)
    have midway : Midway k₀ rest (rs ++ isrSignals tr) t := by
      refine progress.resolve_right ?_
      rintro ⟨frames, -⟩
      rw [System.inTick, frames, List.any_eq_true] at active
      obtain ⟨f, mem, tick⟩ := active
      rw [outer f mem] at tick; cases tick
    refine ⟨inv.next hstep, ?_⟩
    have signals : rs ++ isrSignals (tr ++ [(t, a)]) = rs ++ isrSignals tr ++ a.isrSignals := by
      simp [isrSignals]
    rw [signals]
    exact step_midway inv.inv midway hstep.1

theorem signalCall_queued {k k' : Kernel} {r : SemRef} (h : k.Queued)
    (result : signalCall k r = some k') : k'.Queued := by
  obtain ⟨⟨k₁, woken⟩, hsignal, eq⟩ := Option.map_eq_some_iff.mp result
  have queued : k₁.Queued := by
    obtain ⟨s, hs, ⟨u, q, -, hq, rfl⟩ | ⟨-, -, rfl⟩⟩ := osSemaphoreSignal_effect h hsignal
    · exact h.dequeue hs hq
    · exact h.setCount hs _
  subst eq
  dsimp only
  split
  · exact queued.congr rfl rfl fun _ _ => Iff.rfl
  · exact queued

/-- A whole SysTick call commutes with any signals. -/
theorem sysTickHandler_signalAll (rs : List SemRef) : ∀ {k : Kernel}, k.Queued →
    signalAll (sysTickHandler k) rs = (signalAll k rs).map sysTickHandler := by
  induction rs with
  | nil => exact fun _ => rfl
  | cons r rs ih =>
    intro k queued
    have first := signalCall_tickRest queued.waitersAwake r .enter
    simp only [tickRest] at first
    simp only [signalAll, List.foldlM_cons, Option.bind_eq_bind, first]
    cases hcall : signalCall k r with
    | none => rfl
    | some k' => exact ih (signalCall_queued queued hcall)

theorem wakeLoop_started (n : Nat) : ∀ (k : Kernel) (i : Nat),
    (wakeLoop k i n).rtosStarted = k.rtosStarted := by
  induction n with
  | zero => exact fun _ _ => rfl
  | succ n ih =>
    intro k i
    rw [wakeLoop, ih, wakeDue]
    split <;> rfl

theorem sysTickHandler_pendsv {k : Kernel} (started : k.rtosStarted = true) :
    (sysTickHandler k).pendsv = true := by
  have on := wakeLoop_started k.taskCount { k with sysTick := k.sysTick + 1 } 0
  simp only [sysTickHandler]
  rw [chargeTick, if_pos (on.trans started)]; rfl

theorem signalAll_started (rs : List SemRef) : ∀ {k k' : Kernel}, k.Queued →
    signalAll k rs = some k' → k'.rtosStarted = k.rtosStarted := by
  induction rs with
  | nil =>
    intro k k' _ result
    cases Option.some.inj result; rfl
  | cons r rs ih =>
    intro k k' queued result
    simp only [signalAll, List.foldlM_cons, Option.bind_eq_bind, Option.bind_eq_some_iff] at result
    obtain ⟨k₁, hcall, rest⟩ := result
    have same := (signalCall_keeps queued.waitersAwake hcall).2.1
    exact (ih (signalCall_queued queued hcall) rest).trans same

/-- A SysTick call with any signals nested at any of its instructions ends in the kernel state
in which it ends with the signals all before it, and with the signals all behind it; and a
started system has a switch pending. -/
theorem sysTick_atomic {cfg : Config} {idle : TaskId} {s t : System} {rest : List Frame}
    {tr : List (System × Action)} (h : Reachable cfg idle s)
    (entered : s.frames = .sysTick .enter :: rest) (run : Run (AwakeStep idle) s tr t)
    (inside : ∀ p ∈ tr, p.1.inTick = true) (left : t.inTick = false) :
    (signalAll s.k (isrSignals tr)).map sysTickHandler = some t.k ∧
    signalAll (sysTickHandler s.k) (isrSignals tr) = some t.k ∧
    (s.k.rtosStarted = true → t.k.pendsv = true) := by
  have inv := h.idleInv
  have outer := (inv.inv.at_frames entered).no_tick
  have start : Midway s.k rest [] s := ⟨[], .enter, entered, by simp, rfl⟩
  obtain ⟨-, midway | ⟨-, after⟩⟩ := run_midway inv start run inside outer
  · rw [midway.inTick] at left; cases left
  · rw [List.nil_append] at after
    have before := sysTickHandler_signalAll (isrSignals tr) inv.inv.queued
    rw [after] at before
    refine ⟨before.symm, after, fun started => ?_⟩
    obtain ⟨k₁, signals, eq⟩ := Option.map_eq_some_iff.mp before.symm
    rw [← eq]
    exact sysTickHandler_pendsv ((signalAll_started _ inv.inv.queued signals).trans started)

/-- The consumer of `main.c` waits; its signal comes between two instructions of a SysTick. -/
theorem sysTick_atomic_consumer : ∃ s t : System, t.k.state 2 = .ready ∧
    (signalAll s.k [.sem 0]).map sysTickHandler = some t.k ∧
    signalAll (sysTickHandler s.k) [.sem 0] = some t.k := by
  let nested : List Action := [.handler, .handler, .isr, .isrSignal 0, .handler, .isrReturn,
    .handler, .handler, .handler, .handler, .handler, .handler, .handler]
  obtain ⟨s, h, hp⟩ := reachable_of_exec mainConfig 3
    [.pendSv, .handler, .call (.wait 0), .task, .pendSv, .handler, .sysTick]
    (fun s => decide (s.frames = [.sysTick .enter]) &&
      decide (isrSignals (visited step s nested) = [.sem 0]) &&
      (visited step s nested).all (fun p => p.1.inTick) &&
      (exec step (fun _ _ t => decide (Awake 3 t.k)) s nested).any fun t : System =>
        decide (t.inTick = false ∧ t.k.state 2 = .ready)) (by decide) (by decide)
  simp only [Bool.and_eq_true, decide_eq_true_eq, List.all_eq_true] at hp
  obtain ⟨⟨⟨entered, signals⟩, inside⟩, ends⟩ := hp
  obtain ⟨t, hexec, ht⟩ := (Option.any_eq_true _ _).mp ends
  obtain ⟨left, ready⟩ := of_decide_eq_true ht
  have run := exec_awake hexec
  have atomic := sysTick_atomic h entered run inside left
  rw [signals] at atomic
  exact ⟨s, t, ready, atomic.1, atomic.2.1⟩

end Rtos
