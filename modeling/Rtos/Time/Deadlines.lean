import Rtos.Lib.Clock
import Rtos.Scheduling.Resume
import Rtos.System.Log

/-! The 32-bit sleep mechanism against a clock that never wraps. Each `osDelay(d)` call has
the deadline `D` = SysTicks so far + `d`; the signed comparison in `SysTick_Handler` agrees
with the comparison of `D` to the number of SysTicks, because a deadline is never more than
half the counter's range ahead. -/
namespace Rtos
open Lib

/-- Behind the critical section of an `osDelay` call that has not returned. -/
def InDelay (p : Pc) : Prop := p = .yield .delay ∨ p = .ret .delay

/-- The active SysTick call has not passed task `t`. -/
def Pending (frames : List Frame) (t : TaskId) : Prop :=
  ∃ i : Nat, i ≤ t ∧ (.sysTick (.scan i) ∈ frames ∨ .sysTick (.due i) ∈ frames ∨
    .sysTick (.wake i) ∈ frames)

/-- The counters of the code against the unbounded ones of the history. -/
structure Timed (s : System) : Prop where
  now : s.k.sysTick = BitVec.ofNat 32 (ticks s.log)
  wake : ∀ t, t < s.k.taskCount → s.k.state t = .sleeping →
    (s.k.taskPool t).wakeTick = BitVec.ofNat 32 (deadline t s.log)
  near : ∀ t, t < s.k.taskCount → s.k.state t = .sleeping →
    deadline t s.log ≤ ticks s.log + 2 ^ 31
  ahead : ∀ t, t < s.k.taskCount → s.k.state t = .sleeping →
    ticks s.log < deadline t s.log ∨ (deadline t s.log = ticks s.log ∧ Pending s.frames t)
  due : ∀ i, .sysTick (.wake i) ∈ s.frames → deadline i s.log = ticks s.log
  called : ∀ t, t < s.k.taskCount → InDelay (s.pc t) →
    s.k.state t = .sleeping ∨ deadline t s.log ≤ ticks s.log

theorem pending_tick {p : TickPc} {rest : List Frame} (none : ∀ f ∈ rest, f.isTick = false)
    (t : TaskId) : Pending (.sysTick p :: rest) t ↔
      ∃ i : Nat, i ≤ t ∧ (p = .scan i ∨ p = .due i ∨ p = .wake i) := by
  have out : ∀ q, .sysTick q ∉ rest := fun q mem => absurd (none _ mem) (by simp)
  simp only [Pending, List.mem_cons, Frame.sysTick.injEq, out, or_false]
  exact exists_congr fun i => and_congr_right fun _ => by simp only [eq_comm]

theorem Timed.keep {s s' : System} {es : List Event} (h : Timed s) (log : s'.log = s.log ++ es)
    (untimed : ∀ e ∈ es, e.timed = false) (sysTick : s'.k.sysTick = s.k.sysTick)
    (count : s'.k.taskCount = s.k.taskCount)
    (wakeTick : ∀ t, (s'.k.taskPool t).wakeTick = (s.k.taskPool t).wakeTick)
    (asleep : ∀ t, s'.k.state t = .sleeping → s.k.state t = .sleeping)
    (pending : ∀ t, t < s.k.taskCount → s'.k.state t = .sleeping →
      deadline t s.log = ticks s.log → Pending s.frames t → Pending s'.frames t)
    (wakes : ∀ i, .sysTick (.wake i) ∈ s'.frames → deadline i s.log = ticks s.log)
    (called : ∀ t, InDelay (s'.pc t) → InDelay (s.pc t) ∧
      (s.k.state t = .sleeping → s'.k.state t = .sleeping ∨ deadline t s.log ≤ ticks s.log)) :
    Timed s' := by
  have ticks_eq : ticks s'.log = ticks s.log := by rw [log, ticks_append untimed]
  have deadline_eq : ∀ t, deadline t s'.log = deadline t s.log := fun t => by
    rw [log, deadline_append untimed]
  constructor
  · rw [sysTick, ticks_eq]; exact h.now
  · intro t created sleeping
    rw [wakeTick, deadline_eq]
    exact h.wake t (count ▸ created) (asleep t sleeping)
  · intro t created sleeping
    rw [ticks_eq, deadline_eq]
    exact h.near t (count ▸ created) (asleep t sleeping)
  · intro t created sleeping
    rw [ticks_eq, deadline_eq]
    rw [count] at created
    rcases h.ahead t created (asleep t sleeping) with later | ⟨now, mem⟩
    · exact .inl later
    · exact .inr ⟨now, pending t created sleeping now mem⟩
  · intro i mem
    rw [ticks_eq, deadline_eq]
    exact wakes i mem
  · intro t created delayed
    rw [ticks_eq, deadline_eq]
    rw [count] at created
    obtain ⟨delayed, kept⟩ := called t delayed
    rcases h.called t created delayed with sleeping | reached
    · exact kept sleeping
    · exact .inr reached

/-- For a sleeping task the signed comparison of the code is the comparison of the deadline
to the number of SysTicks. -/
theorem Timed.reaches {s : System} (h : Timed s) {t : TaskId} (created : t < s.k.taskCount)
    (sleeping : s.k.state t = .sleeping) : isDue s.k t = true ↔ deadline t s.log = ticks s.log := by
  have near := h.near t created sleeping
  have ahead : ticks s.log ≤ deadline t s.log := by
    rcases h.ahead t created sleeping with later | ⟨now, -⟩ <;> omega
  rw [isDue, h.now, h.wake t created sleeping, reached_iff (by decide) ahead near]
  omega

/-- At the head of the loop and inside its body, the tasks from the index on are pending. -/
theorem pending_at {p : TickPc} {rest : List Frame} {i : Nat}
    (none : ∀ f ∈ rest, f.isTick = false) (at_ : p = .scan i ∨ p = .due i ∨ p = .wake i) (t : TaskId) :
    Pending (.sysTick p :: rest) t ↔ i ≤ t := by
  rw [pending_tick none]
  constructor
  · rintro ⟨j, le, at_'⟩
    obtain rfl : i = j := by
      rcases at_ with rfl | rfl | rfl <;> simpa using at_'
    exact le
  · exact fun le => ⟨i, le, at_⟩

theorem pending_outside {p : TickPc} {rest : List Frame} (none : ∀ f ∈ rest, f.isTick = false)
    (out : ∀ i, p ≠ .scan i ∧ p ≠ .due i ∧ p ≠ .wake i) (t : TaskId) :
    ¬ Pending (.sysTick p :: rest) t := by
  rw [pending_tick none]
  rintro ⟨i, -, at_⟩
  obtain ⟨scan, due, wake⟩ := out i
  rcases at_ with eq | eq | eq
  · exact scan eq
  · exact due eq
  · exact wake eq

section tick
variable {k k' : Kernel} {p p' : TickPc} {rest : List Frame} {t : TaskId}

/-- One instruction passes a task only if the task does not sleep behind it, or is not due. -/
theorem TickCase.passes (tick : TickCase k p k' p') (none : ∀ f ∈ rest, f.isTick = false)
    (created : t < k.taskCount) (pending : Pending (.sysTick p :: rest) t) :
    Pending (.sysTick p' :: rest) t ∨ k'.state t ≠ .sleeping ∨ p = .due t ∧ isDue k t = false := by
  have next : ∀ {i : Nat}, i ≤ t → t ≠ i → Pending (.sysTick (.scan (i + 1)) :: rest) t :=
    fun le other => (pending_at none (.inl rfl) t).mpr (Nat.lt_of_le_of_ne le other.symm)
  cases tick with
  | @asleep i =>
    rw [pending_at none (.inl rfl)] at pending
    exact .inl ((pending_at none (.inr (.inl rfl)) t).mpr pending)
  | @awake i _ not =>
    rw [pending_at none (.inl rfl)] at pending
    by_cases eq : t = i
    · exact .inr (.inl (eq ▸ not))
    · exact .inl (next pending eq)
  | @done i all =>
    rw [pending_at none (.inl rfl)] at pending
    exact absurd created (Nat.not_lt.mpr (all.trans pending))
  | @due i =>
    rw [pending_at none (.inr (.inl rfl))] at pending
    exact .inl ((pending_at none (.inr (.inr rfl)) t).mpr pending)
  | @notDue i not =>
    rw [pending_at none (.inr (.inl rfl))] at pending
    by_cases eq : t = i
    · subst eq
      exact .inr (.inr ⟨rfl, not⟩)
    · exact .inl (next pending eq)
  | @wake i =>
    rw [pending_at none (.inr (.inr rfl))] at pending
    by_cases eq : t = i
    · exact .inr (.inl (by simp [eq]))
    · exact .inl (next pending eq)
  | enter | charge | notStarted | pend => exact absurd pending (pending_outside none (by simp) t)

/-- It comes to the write of TASK_READY only from a test that has passed. -/
theorem TickCase.wakes {i : Nat} (tick : TickCase k p k' p') (at_ : p' = .wake i) :
    p = .due i ∧ isDue k i = true := by
  cases tick with
  | due due =>
    cases at_
    exact ⟨rfl, due⟩
  | _ => cases at_

end tick

theorem Timed.tick {s : System} {p : TickPc} {rest : List Frame} (inv : Inv s) (h : Timed s)
    (frames : s.frames = .sysTick p :: rest) (more : p ≠ .leave) :
    Timed (s.goOnAt (tickStep s.k p).1 (.sysTick (tickStep s.k p).2 :: rest) (tickEvents p)) := by
  have at_ := inv.at_frames frames
  have none := at_.no_tick
  have out : ∀ q, .sysTick q ∉ rest := fun q mem => absurd (none _ mem) (by simp)
  have tick := tickStep_cases s.k more
  generalize (tickStep s.k p).1 = k', (tickStep s.k p).2 = p' at tick ⊢
  have pending : ∀ t, t < s.k.taskCount → k'.state t = .sleeping → deadline t s.log = ticks s.log →
      Pending s.frames t → Pending (.sysTick p' :: rest) t := by
    intro t created sleeping now pending
    rw [frames] at pending
    rcases tick.passes none created pending with stays | awake | ⟨rfl, not⟩
    · exact stays
    · exact absurd sleeping awake
    · have asleep := (at_.scanning t (.inl List.mem_cons_self)).2
      rw [(h.reaches created asleep).mpr now] at not
      cases not
  have wakes : ∀ i, .sysTick (.wake i) ∈ Frame.sysTick p' :: rest → deadline i s.log = ticks s.log := by
    intro i mem
    have here : p' = .wake i := by simpa [out, eq_comm] using mem
    obtain ⟨rfl, due⟩ := tick.wakes here
    obtain ⟨created, asleep⟩ := at_.scanning i (.inl List.mem_cons_self)
    exact (h.reaches created asleep).mp due
  have same : ∀ t, InDelay (s.pc t) → InDelay (s.pc t) ∧ (s.k.state t = .sleeping →
      s.k.state t = .sleeping ∨ deadline t s.log ≤ ticks s.log) := fun _ d => ⟨d, .inl⟩
  cases tick with
  | enter =>
    constructor <;> simp only [System.goOnAt_k, System.goOnAt_log, System.goOnAt_frames,
      System.goOnAt_pc, tickEvents, ticks_snoc_tick, deadline_snoc_tick]
    · rw [h.now, ofNat_succ]
    · exact h.wake
    · intro t created sleeping
      have near := h.near t created sleeping
      omega
    · intro t created sleeping
      rcases h.ahead t created sleeping with later | ⟨-, pending⟩
      · by_cases now : deadline t s.log = ticks s.log + 1
        · exact .inr ⟨now, (pending_at none (.inl rfl) t).mpr (Nat.zero_le t)⟩
        · exact .inl (by omega)
      · rw [frames] at pending
        exact absurd pending (pending_outside none (by simp) t)
    · intro i mem
      simp [out] at mem
    · intro t created delayed
      exact (h.called t created delayed).imp_right Nat.le_succ_of_le
  | asleep | awake | done | due | notDue | notStarted | pend =>
    exact h.keep rfl (by simp [tickEvents]) rfl rfl (fun _ => rfl) (fun _ => id) pending wakes same
  | @wake i =>
    have now := h.due i (by simp [frames])
    refine h.keep rfl (by simp [tickEvents, Event.timed]) rfl rfl
      (Kernel.wakeTick_setState s.k i · .ready) ?_ pending wakes ?_
    · intro t sleeping
      simp only [System.goOnAt_k] at sleeping
      grind
    · intro t delayed
      refine ⟨delayed, fun sleeping => ?_⟩
      by_cases woken : t = i
      · exact .inr (woken ▸ now.le)
      · left
        simp only [System.goOnAt_k]
        rw [Kernel.state_setState, if_neg woken]; exact sleeping
  | charge =>
    refine h.keep rfl (by simp [tickEvents]) rfl rfl (chargeCurrent_wakeTick s.k) ?_ pending wakes ?_
    · intro t sleeping
      exact (chargeCurrent_state s.k t).symm.trans sleeping
    · intro t delayed
      refine ⟨delayed, fun sleeping => .inl ?_⟩
      exact (chargeCurrent_state s.k t).trans sleeping

/-- A step outside SysTick that leaves the sleepers, their deadlines and the handlers alone,
and after which nobody is in `osDelay` who was not. -/
theorem Timed.same {s s' : System} {es : List Event} (h : Timed s) (log : s'.log = s.log ++ es)
    (untimed : ∀ e ∈ es, e.timed = false) (sysTick : s'.k.sysTick = s.k.sysTick)
    (count : s'.k.taskCount = s.k.taskCount)
    (wakeTick : ∀ t, (s'.k.taskPool t).wakeTick = (s.k.taskPool t).wakeTick)
    (asleep : ∀ t, s'.k.state t = .sleeping ↔ s.k.state t = .sleeping)
    (frames : ∀ p, p ≠ .enter → p ≠ .leave → (.sysTick p ∈ s'.frames ↔ .sysTick p ∈ s.frames))
    (pc : ∀ t, InDelay (s'.pc t) → InDelay (s.pc t)) : Timed s' := by
  refine h.keep log untimed sysTick count wakeTick (fun t => (asleep t).mp) ?_ ?_ ?_
  · rintro t - - - ⟨i, le, mem⟩
    refine ⟨i, le, ?_⟩
    rwa [frames (.scan i) (by simp) (by simp), frames (.due i) (by simp) (by simp), frames (.wake i) (by simp) (by simp)]
  · intro i mem
    exact h.due i ((frames (.wake i) (by simp) (by simp)).mp mem)
  · exact fun t delayed => ⟨pc t delayed, fun sleeping => .inl ((asleep t).mpr sleeping)⟩

theorem inDelay_update {pc : TaskId → Pc} {cur : TaskId} {p : Pc}
    (still : InDelay p → InDelay (pc cur)) (t : TaskId)
    (delayed : InDelay (Function.update pc cur p t)) : InDelay (pc t) := by
  by_cases eq : t = cur
  · subst eq
    rw [Function.update_self] at delayed
    exact still delayed
  · rwa [Function.update_of_ne eq] at delayed

theorem signal_wakeTick {k k' : Kernel} {r : SemRef} {woken : Option TaskId}
    (result : osSemaphoreSignal k r = some (k', woken)) (t : TaskId) :
    (k'.taskPool t).wakeTick = (k.taskPool t).wakeTick := by
  obtain ⟨sem, -, ⟨u, -, -, -, rfl⟩ | ⟨-, -, rfl⟩⟩ := osSemaphoreSignal_cases result
  · exact Kernel.wakeTick_setState ..
  · rfl

theorem signal_asleep {k k' : Kernel} {r : SemRef} {woken : Option TaskId} (queued : k.Queued)
    (result : osSemaphoreSignal k r = some (k', woken)) (t : TaskId) :
    k'.state t = .sleeping ↔ k.state t = .sleeping := by
  obtain ⟨sem, -, ⟨u, q, -, hq, rfl⟩ | ⟨-, -, rfl⟩⟩ := osSemaphoreSignal_effect queued result
  · have blocked := queued.state_of_mem (r := r) (by rw [hq]; exact List.mem_cons_self)
    grind
  · rfl

theorem Timed.sleep {s : System} {d : Word} (h : Timed s) (thread : s.Thread)
    (pos : d ≠ 0) (range : d.toNat ≤ 2 ^ 31) :
    Timed (s.goOn (markSleeping s.k d) (.yield .delay)
      [.sleep s.k.currentTask (ticks s.log + d.toNat)]) := by
  have later : 0 < d.toNat := by
    rw [Nat.pos_iff_ne_zero]
    exact fun zero => pos (BitVec.eq_of_toNat_eq zero)
  constructor <;> simp only [System.goOn_k, System.goOn_log, System.goOn_frames, System.goOn_pc,
    ticks_snoc_sleep, deadline_snoc_sleep]
  · exact h.now
  · intro t created sleeping
    rw [markSleeping_wakeTick]
    by_cases cur : t = s.k.currentTask
    · rw [if_pos cur, if_pos cur.symm, h.now, BitVec.ofNat_add, BitVec.ofNat_toNat,
        BitVec.setWidth_eq]
    · rw [markSleeping_state, if_neg cur] at sleeping
      rw [if_neg cur, if_neg (Ne.symm cur)]
      exact h.wake t created sleeping
  · intro t created sleeping
    by_cases cur : t = s.k.currentTask
    · rw [if_pos cur.symm]; omega
    · rw [markSleeping_state, if_neg cur] at sleeping
      rw [if_neg (Ne.symm cur)]
      exact h.near t created sleeping
  · intro t created sleeping
    by_cases cur : t = s.k.currentTask
    · rw [if_pos cur.symm]; exact .inl (by omega)
    · rw [markSleeping_state, if_neg cur] at sleeping
      rw [if_neg (Ne.symm cur)]
      exact h.ahead t created sleeping
  · rw [thread.frames]; simp
  · intro t created delayed
    rw [markSleeping_state]
    by_cases cur : t = s.k.currentTask
    · exact .inl (if_pos cur)
    · rw [Function.update_of_ne cur] at delayed
      rw [if_neg cur, if_neg (Ne.symm cur)]
      exact h.called t created delayed

theorem step_timed {s s' : System} {a : Action} (inv : Inv s) (h : Timed s)
    (hstep : step s a = some s') (range : ∀ d, a = .call (.delay d) → d.toNat ≤ 2 ^ 31) :
    Timed s' := by
  have none : ∀ e ∈ ([] : List Event), e.timed = false := (by simp)
  cases step_cases hstep with
  | sysTick | isr =>
    exact h.same rfl none rfl rfl (fun _ => rfl) (fun _ => Iff.rfl) (by simp +contextual)
      fun _ => id
  | pendSv _ frames =>
    exact h.same rfl none rfl rfl (fun _ => rfl) (fun _ => Iff.rfl) (by simp [frames])
      fun _ => id
  | tickLeave frames | isrYield frames | isrReturn frames =>
    refine h.same rfl none rfl rfl (fun _ => rfl) (fun _ => Iff.rfl) ?_ fun _ => id
    simp +contextual [frames]
  | tick frames more => exact h.tick inv frames more
  | switch frames =>
    refine h.same rfl none (osSchedule_sysTick _) (osSchedule_taskCount _)
      (osSchedule_wakeTick _) ?_ (by simp [switchStep, frames]) fun _ => id
    intro t
    have wf := inv.wf.started true
    show (osSchedule _).state t = _ ↔ _
    cases hs : scheduled { s.k with rtosStarted := true } with
    | none => rw [osSchedule_fallback wf hs]; rfl
    | some x =>
      have candidate := ((scheduled_some wf x).mp hs).1.2
      have same : ∀ v, Kernel.state { s.k with rtosStarted := true } v = s.k.state v := fun _ => rfl
      rw [osSchedule_state hs]
      simp only [same] at candidate ⊢
      grind
  | isrSignal frames result =>
    refine h.same rfl (signalEvents_untimed _ _ _ _) ?_ ?_ (signal_wakeTick result)
      (signal_asleep inv.queued result) (by simp [frames]) fun _ => id
    all_goals obtain ⟨_, _, rfl⟩ := osSemaphoreSignal_eq_with result; rfl
  | nothing => exact h
  | delay thread _ pos => exact h.sleep thread pos (range _ rfl)
  | waitQueued thread pc _ result =>
    have run := inv.thread_running thread pc (by simp) (by simp)
    obtain ⟨sem, -, ⟨eq, -⟩ | ⟨-, -, -, rfl⟩⟩ := osSemaphoreWait_effect result
    · cases eq
    · refine h.same rfl (by simp [Event.timed]) rfl rfl (Kernel.wakeTick_setState _ _ · _) ?_
        (fun _ _ _ => Iff.rfl) (inDelay_update (by simp [InDelay]))
      intro t
      simp only [System.goOn_k]
      grind
  | waitTaken thread pc _ result =>
    obtain ⟨sem, -, ⟨-, -, rfl⟩ | ⟨eq, -⟩⟩ := osSemaphoreWait_effect result
    · exact h.same rfl (by simp [Event.timed]) rfl rfl (fun _ => rfl) (fun _ => Iff.rfl)
        (fun _ _ _ => Iff.rfl) (inDelay_update (by simp [InDelay]))
    · cases eq
  | signal thread ref result =>
    refine h.same rfl (signalEvents_untimed _ _ _ _) ?_ ?_ (signal_wakeTick result)
      (signal_asleep inv.queued result) (fun _ _ _ => Iff.rfl) (inDelay_update ?_)
    · obtain ⟨_, _, rfl⟩ := osSemaphoreSignal_eq_with result; rfl
    · obtain ⟨_, _, rfl⟩ := osSemaphoreSignal_eq_with result; rfl
    · split <;> simp [InDelay]
  | release | own =>
    exact h.same rfl (by simp [Event.timed]) rfl rfl (fun _ => rfl) (fun _ => Iff.rfl)
      (fun _ _ _ => Iff.rfl) (inDelay_update (by simp [InDelay]))
  | trap | leave =>
    exact h.same rfl none rfl rfl (fun _ => rfl) (fun _ => Iff.rfl) (fun _ _ _ => Iff.rfl)
      (inDelay_update (by simp [InDelay]))
  | init =>
    exact h.same rfl (by simp [Event.timed]) (Init.apply_sysTick ..) (Init.apply_taskCount ..)
      (fun t => by simp) (fun t => by simp) (fun _ _ _ => Iff.rfl)
      (inDelay_update (by simp [InDelay]))
  | yield _ pc =>
    exact h.same rfl none rfl rfl (fun _ => rfl) (fun _ => Iff.rfl) (fun _ _ _ => Iff.rfl)
      (inDelay_update (by simp [InDelay, pc]))
  | @ret c =>
    refine h.same rfl (returnTo_untimed _ _ _) rfl rfl (fun _ => rfl) (fun _ => Iff.rfl)
      (fun _ _ _ => Iff.rfl) (inDelay_update ?_)
    rcases c with _ | (_ | _) | _ <;> simp [InDelay, returnTo]

/-- Every `osDelay` argument is at most half the range of the counter. -/
def Action.inRange : Action → Bool
  | .call (.delay d) => d.toNat ≤ 2 ^ 31
  | _ => true

/-- One step of a run in which `idle` never sleeps or blocks and all delays are in range. -/
abbrev TimedStep (idle : TaskId) : System → Action → System → Prop :=
  Steps step fun _ a t => Awake idle t.k ∧ a.inRange = true

theorem exec_timed {idle : TaskId} {acts : List Action} {s t : System}
    (h : exec step (fun _ a t => decide (Awake idle t.k) && a.inRange) s acts = some t) :
    Run (TimedStep idle) s (visited step s acts) t :=
  (exec_run h).mono fun _ _ _ hstep => ⟨hstep.1, by simpa using hstep.2⟩

theorem boot_timed {cfg : Config} {s : System} (hboot : boot cfg = some s)
    (some_task : 0 < cfg.tasks.length) : Timed s := by
  obtain ⟨booted, pc, frames, -, log⟩ := boot_spec hboot some_task
  have awake : ∀ t, t < s.k.taskCount → s.k.state t ≠ .sleeping := by
    intro t created
    rw [booted.state (booted.count ▸ created)]; simp
  have started : ticks s.log = cfg.ticks := by
    rw [log, ticks_append (by simp [Event.timed]), ticks, List.count_replicate_self]
  constructor
  · rw [started]; exact booted.sysTick
  · exact fun t created sleeping => absurd sleeping (awake t created)
  · exact fun t created sleeping => absurd sleeping (awake t created)
  · exact fun t created sleeping => absurd sleeping (awake t created)
  · rw [frames]; simp
  · intro t _ delayed
    rw [pc] at delayed
    rcases delayed with eq | eq <;> cases eq

theorem reach_timed {cfg : Config} {idle : TaskId} {s₀ s : System} (hboot : boot cfg = some s₀)
    (created : idle < cfg.tasks.length) (reach : Reach (TimedStep idle) s₀ s) :
    IdleInv idle s ∧ Timed s := by
  have some_task : 0 < cfg.tasks.length := Nat.zero_lt_of_lt created
  refine reach.invariant (P := fun s => IdleInv idle s ∧ Timed s) ?_ ?_
  · exact ⟨Reachable.idleInv ⟨s₀, hboot, created, Reach.refl _ _⟩, boot_timed hboot some_task⟩
  · rintro t a u ⟨inv, timed⟩ ⟨hstep, awake, range⟩
    refine ⟨inv.next ⟨hstep, awake⟩, step_timed inv.inv timed hstep ?_⟩
    rintro d rfl
    exact of_decide_eq_true range

/-- The sleep mechanism keeps the deadlines of a clock that never wraps. Between SysTick calls
a task is asleep exactly while it is in an `osDelay` call with a deadline ahead; the SysTick
call that wakes it is the one whose number is the deadline; and the call returns when that
SysTick has been handled. -/
theorem delays_keep_deadlines {cfg : Config} {idle : TaskId} {s₀ s : System}
    (hboot : boot cfg = some s₀) (created : idle < cfg.tasks.length)
    (reach : Reach (TimedStep idle) s₀ s) :
    (s.inTick = false → ∀ t, t < s.k.taskCount →
      (s.k.state t = .sleeping ↔ InDelay (s.pc t) ∧ ticks s.log < deadline t s.log)) ∧
    (∀ a s' t, t < s.k.taskCount → step s a = some s' → s.k.state t = .sleeping →
      s'.k.state t ≠ .sleeping → s'.k.state t = .ready ∧ a = .handler ∧
        (∃ rest, s.frames = .sysTick (.wake t) :: rest) ∧ ticks s.log = deadline t s.log) ∧
    (∀ s', step s .task = some s' → s.pc s.k.currentTask = .ret .delay →
      s.inTick = false ∧ deadline s.k.currentTask s.log ≤ ticks s.log) := by
  obtain ⟨⟨inv, -, -⟩, timed⟩ := reach_timed hboot created reach
  refine ⟨?_, ?_, ?_⟩
  · intro outside t ht
    have out : ∀ p, .sysTick p ∉ s.frames := by
      intro p mem
      have inside : s.inTick = true := List.any_eq_true.mpr ⟨.sysTick p, mem, rfl⟩
      rw [outside] at inside; cases inside
    constructor
    · intro sleeping
      refine ⟨inv.sleeping_pc t ht sleeping, ?_⟩
      rcases timed.ahead t ht sleeping with later | ⟨-, i, -, mem⟩
      · exact later
      · simp [out] at mem
    · rintro ⟨delayed, later⟩
      exact (timed.called t ht delayed).resolve_right (Nat.not_le.mpr later)
  · intro a s' t ht hstep sleeping woken
    have changed : s'.k.state t ≠ s.k.state t := by rw [sleeping]; exact woken
    rcases inv.step_states hstep t changed with ⟨ready, by_⟩ | ⟨-, awake, -⟩ | ⟨run, -⟩
    · rcases by_ with ⟨rfl, rest, frames⟩ | ⟨r, k', result⟩
      · exact ⟨ready, rfl, ⟨rest, frames⟩, (timed.due t (by simp [frames])).symm⟩
      · obtain ⟨sem, -, ⟨u, q, eq, hq, -⟩ | ⟨eq, -⟩⟩ := osSemaphoreSignal_effect inv.queued result
        · cases eq
          have blocked := inv.queued.state_of_mem (r := r) (by rw [hq]; exact List.mem_cons_self)
          rw [blocked] at sleeping; cases sleeping
        · cases eq
    · exact absurd sleeping awake
    · rw [run] at sleeping; cases sleeping
  · intro s' hstep pc
    have thread : s.Thread := s.inThread_iff.mp (Option.ite_none_right_eq_some.mp hstep).1
    have run := inv.thread_running thread pc (by simp) (by simp)
    refine ⟨by simp [System.inTick, thread.frames], ?_⟩
    have delayed : InDelay (s.pc s.k.currentTask) := .inr pc
    refine (timed.called _ inv.wf.current_lt delayed).resolve_left ?_
    rw [run]; simp

/-- The consumer of `main.c` in an `osDelay(3)` across the wrap of `sys_tick`: asleep after two ticks,
woken in the third one, and back in its own code behind it. -/
theorem delays_keep_deadlines_wrap : ∃ s t u : System,
    (s.k.sysTick = 0 ∧ s.k.state 2 = .sleeping ∧ ticks s.log < deadline 2 s.log) ∧
    (t.k.sysTick = 1 ∧ ticks t.log = deadline 2 t.log ∧
      (step t .handler).any (fun t' => t'.k.state 2 = .ready) = true) ∧
    (u.k.currentTask = 2 ∧ u.pc 2 = .ret .delay ∧ deadline 2 u.log ≤ ticks u.log) := by
  let late : Config := { mainConfig with ticks := 2 ^ 32 - 2 }
  let tick : List Action := .sysTick :: List.replicate 10 .handler
  let s₀ := (boot late).get (by decide +kernel)
  let s := (exec step (fun _ a t => decide (Awake 3 t.k) && a.inRange) s₀
    ([.pendSv, .handler, .call (.delay 3), .task, .pendSv, .handler] ++ tick ++ tick)).get
      (by decide +kernel)
  let t := (exec step (fun _ a t => decide (Awake 3 t.k) && a.inRange) s
    (.sysTick :: List.replicate 5 .handler)).get (by decide +kernel)
  let u := (exec step (fun _ a t => decide (Awake 3 t.k) && a.inRange) t
    (List.replicate 6 .handler ++ [.pendSv, .handler])).get (by decide +kernel)
  have hboot : boot late = some s₀ := (Option.some_get _).symm
  have early : Run (TimedStep 3) s₀ _ s := exec_timed (Option.some_get _).symm
  have due : Run (TimedStep 3) s _ t := exec_timed (Option.some_get _).symm
  have back : Run (TimedStep 3) t _ u := exec_timed (Option.some_get _).symm
  obtain ⟨asleep, -⟩ := delays_keep_deadlines hboot (by decide) ⟨_, early⟩
  obtain ⟨-, wakes, -⟩ := delays_keep_deadlines hboot (by decide) ⟨_, early.append due⟩
  obtain ⟨-, -, returns⟩ := delays_keep_deadlines hboot (by decide) ⟨_, (early.append due).append back⟩
  have outside : s.inTick = false ∧ 2 < s.k.taskCount ∧ s.k.sysTick = 0 ∧ s.k.state 2 = .sleeping := by
    decide +kernel
  have ready : (step t .handler).any (fun t' => t'.k.state 2 = .ready) = true := by decide +kernel
  have sleeper : 2 < t.k.taskCount ∧ t.k.sysTick = 1 ∧ t.k.state 2 = .sleeping := by decide +kernel
  have behind : u.k.currentTask = 2 ∧ u.pc u.k.currentTask = .ret .delay ∧
      (step u .task).isSome = true := by decide +kernel
  refine ⟨s, t, u, ⟨outside.2.2.1, outside.2.2.2, ?_⟩, ⟨sleeper.2.1, ?_, ready⟩, ⟨behind.1, ?_, ?_⟩⟩
  · exact ((asleep outside.1 2 outside.2.1).mp outside.2.2.2).2
  · obtain ⟨t', hstep, woken⟩ := (Option.any_eq_true _ _).mp ready
    exact (wakes .handler t' 2 sleeper.1 hstep sleeper.2.2
      (by rw [of_decide_eq_true woken]; simp)).2.2.2
  · rw [← behind.1]
    exact behind.2.1
  · obtain ⟨u', hstep⟩ := Option.isSome_iff_exists.mp behind.2.2
    rw [← behind.1]
    exact (returns u' hstep behind.2.1).2

end Rtos
