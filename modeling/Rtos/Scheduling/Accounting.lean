import Mathlib.Algebra.BigOperators.Group.Finset.Piecewise
import Mathlib.Algebra.BigOperators.Ring.Finset
import Mathlib.Data.BitVec
import Rtos.Scheduling.Latency

/-! The run-time statistics. `run_ticks` counts the SysTicks that interrupted the task, and
`run_count` its selections; over all tasks they add up to the clock and to the switches. -/
namespace Rtos
open Lib

/-- `run_ticks` and `run_count`. -/
def Kernel.stats (k : Kernel) (i : TaskId) : Word × Word :=
  ((k.taskPool i).runTicks, (k.taskPool i).runCount)

section stats
variable (k : Kernel) (t i : TaskId)

@[simp] theorem stats_setState (st : TaskState) : (k.setState t st).stats i = k.stats i := by
  unfold Kernel.setState Kernel.setTask Kernel.stats; grind

@[simp] theorem stats_markSleeping (d : Word) : (markSleeping k d).stats i = k.stats i := by
  unfold markSleeping Kernel.setTask Kernel.stats; grind

theorem stats_chargeCurrent : (chargeCurrent k).stats i =
    ((k.stats i).1 + if k.currentTask = i then 1 else 0, (k.stats i).2) := by
  unfold chargeCurrent Kernel.setTask Kernel.stats; grind

theorem stats_releaseCurrent : (releaseCurrent k).stats i = k.stats i := by
  unfold releaseCurrent
  split
  · exact stats_setState ..
  · rfl

theorem stats_selectTask (x : TaskId) : (selectTask k x).stats i =
    ((k.stats i).1, (k.stats i).2 + if x = i then 1 else 0) := by
  unfold selectTask Kernel.setTask Kernel.stats; grind

theorem osSchedule_stats {x : TaskId} (hx : scheduled k = some x) : (osSchedule k).stats i =
    ((k.stats i).1, (k.stats i).2 + if x = i then 1 else 0) := by
  rw [osSchedule_eq, hx, stats_selectTask, stats_releaseCurrent]

end stats

theorem signal_stats {k k' : Kernel} {r : SemRef} {woken : Option TaskId} (i : TaskId)
    (result : osSemaphoreSignal k r = some (k', woken)) : k'.stats i = k.stats i := by
  obtain ⟨s, -, ⟨u, -, -, -, rfl⟩ | ⟨-, -, rfl⟩⟩ := osSemaphoreSignal_cases result
  · exact stats_setState ..
  · rfl

theorem wait_stats {k k' : Kernel} {r : SemRef} {queued : Bool} (i : TaskId)
    (result : osSemaphoreWait k r = some (k', queued)) : k'.stats i = k.stats i := by
  obtain ⟨s, -, ⟨-, -, rfl⟩ | ⟨-, -, -, rfl⟩⟩ := osSemaphoreWait_cases result
  · rfl
  · exact stats_setState ..

/-- A SysTick call that has not charged its tick yet. -/
def Frame.owes : Frame → Bool
  | .sysTick .pend => false
  | .sysTick .leave => false
  | .sysTick _ => true
  | _ => false

/-- The tick that the active SysTick call is going to charge to task `i`. -/
def owed (s : System) (i : TaskId) : Word :=
  if s.frames.any Frame.owes ∧ s.k.currentTask = i then 1 else 0

/-- The tick that the active SysTick call is going to count. -/
def uncounted (s : System) : Word := if .sysTick .enter ∈ s.frames then 1 else 0

/-- The task that a SysTick interrupts, at its entry. -/
def interrupts (p : System × Action) : Option TaskId :=
  if p.2 = .sysTick then some p.1.k.currentTask else none

/-- The tasks that the SysTicks of a stretch interrupted. -/
def interrupted (tr : List (System × Action)) : List TaskId := tr.filterMap interrupts

/-- What one step adds to the statistics of task `i`, and to the clock. -/
structure Counts (s : System) (a : Action) (s' : System) : Prop where
  started : s'.k.rtosStarted = true
  runTicks : ∀ i, (s'.k.stats i).1 + owed s' i =
    (s.k.stats i).1 + owed s i + if interrupts (s, a) = some i then 1 else 0
  runCount : ∀ i, (s'.k.stats i).2 = (s.k.stats i).2 + if Selects i (s, a) then 1 else 0
  sysTick : s'.k.sysTick + uncounted s' =
    s.k.sysTick + uncounted s + if a = .sysTick then 1 else 0

section counts
variable {s s' : System} {a : Action}

theorem not_selects {a : Action} (other : ¬ Switches (s, a)) (i : TaskId) : ¬ Selects i (s, a) :=
  fun sel => other ⟨sel.1, sel.2.1⟩

/-- A step that is no SysTick entry and no switch, and changes neither the statistics nor the
clock, nor what is still to be counted. -/
theorem Counts.quiet (started : s.k.rtosStarted = true) (tick : a ≠ .sysTick)
    (switch : ¬ Switches (s, a)) (same : s'.k.rtosStarted = s.k.rtosStarted)
    (stats : ∀ i, s'.k.stats i = s.k.stats i) (sysTick : s'.k.sysTick = s.k.sysTick)
    (current : s'.k.currentTask = s.k.currentTask)
    (owes : s'.frames.any Frame.owes = s.frames.any Frame.owes)
    (enter : .sysTick .enter ∈ s'.frames ↔ .sysTick .enter ∈ s.frames) : Counts s a s' := by
  constructor
  · exact same.trans started
  · intro i
    simp [stats, owed, owes, current, interrupts, tick]
  · intro i
    simp [stats, not_selects switch i]
  · simp [sysTick, uncounted, enter, tick]

theorem not_switches (thread : s.Thread) : ¬ Switches (s, a) := by
  rintro ⟨-, switching⟩
  rw [System.Switching, thread.frames] at switching
  cases switching

theorem Counts.thread (thread : s.Thread) (task : a.inThread = true)
    (same : s'.k.rtosStarted = s.k.rtosStarted) (stats : ∀ i, s'.k.stats i = s.k.stats i)
    (sysTick : s'.k.sysTick = s.k.sysTick) (current : s'.k.currentTask = s.k.currentTask)
    (frames : s'.frames = s.frames) : Counts s a s' := by
  refine .quiet thread.started ?_ (not_switches thread) same stats sysTick current ?_ ?_
  · rintro rfl
    cases task
  · rw [frames]
  · rw [frames]

theorem not_owes {frames : List Frame} (none : ∀ f ∈ frames, ¬ f.isTick = true) :
    frames.any Frame.owes = false ∧ .sysTick .enter ∉ frames := by
  constructor
  · rw [List.any_eq_false]
    intro f mem owes
    have tick := none f mem
    cases f <;> simp_all [Frame.owes]
  · intro mem
    exact none _ mem rfl

theorem tick_counts {pc : TickPc} {rest : List Frame} (inv : Inv s)
    (started : s.k.rtosStarted = true) (frames : s.frames = .sysTick pc :: rest)
    (more : pc ≠ .leave) : Counts s .handler
      (s.goOnAt (tickStep s.k pc).1 (.sysTick (tickStep s.k pc).2 :: rest) (tickEvents pc)) := by
  have at_ := inv.at_frames frames
  have clear : rest.any Frame.owes = false ∧ .sysTick .enter ∉ rest := by
    refine not_owes fun f mem tick => ?_
    rw [at_.no_tick f mem] at tick
    cases tick
  obtain ⟨below, entered⟩ := clear
  have switch : ¬ Switches (s, .handler) := by
    rintro ⟨-, switching⟩
    rw [System.Switching, frames] at switching
    cases switching
  have tick := tickStep_cases s.k more
  generalize (tickStep s.k pc).1 = k', (tickStep s.k pc).2 = pc' at tick ⊢
  cases tick with
  | enter =>
    refine ⟨started, fun i => ?_, fun i => ?_, ?_⟩
    · simp [owed, frames, Frame.owes, interrupts, Kernel.stats]
    · simp [not_selects switch i, Kernel.stats]
    · simp [uncounted, frames, entered]
  | asleep | awake | done | due | notDue =>
    refine .quiet started (by simp) switch rfl (fun _ => rfl) rfl rfl ?_ ?_
    · simp [frames, Frame.owes]
    · simp [frames]
  | wake =>
    refine .quiet started (by simp) switch rfl (fun i => stats_setState ..) rfl rfl ?_ ?_
    · simp [frames, Frame.owes]
    · simp [frames]
  | charge =>
    refine ⟨started, fun i => ?_, fun i => ?_, ?_⟩
    · simp [owed, frames, Frame.owes, below, interrupts, stats_chargeCurrent]
    · simp [not_selects switch i, stats_chargeCurrent]
    · simp [uncounted, frames, entered, chargeCurrent]
  | notStarted not => rw [started] at not; cases not
  | pend =>
    refine .quiet started (by simp) switch rfl (fun _ => rfl) rfl rfl ?_ ?_
    · simp [frames, Frame.owes]
    · simp [frames]

theorem step_counts (inv : Inv s) (started : s.k.rtosStarted = true)
    (selects : scheduled s.k ≠ none) (hstep : step s a = some s') : Counts s a s' := by
  cases step_cases hstep with
  | sysTick _ once =>
    have clear := not_owes (List.any_eq_false.mp once)
    refine ⟨started, fun i => ?_, fun i => ?_, ?_⟩
    · simp [owed, clear.1, Frame.owes, interrupts]
    · simp [not_selects (s := s) (a := .sysTick) (by simp [Switches]) i]
    · simp [uncounted, clear.2]
  | isr =>
    exact .quiet started (by simp) (by simp [Switches]) rfl (fun _ => rfl) rfl rfl
      (by simp [Frame.owes]) (by simp)
  | pendSv _ frames =>
    exact .quiet started (by simp) (by simp [Switches]) rfl (fun _ => rfl) rfl rfl
      (by simp [frames, Frame.owes]) (by simp [frames])
  | tickLeave frames | isrYield frames =>
    refine .quiet started (by simp) ?_ rfl (fun _ => rfl) rfl rfl ?_ ?_
    · simp [Switches, System.Switching, frames]
    · simp [frames, Frame.owes]
    · simp [frames]
  | isrReturn frames =>
    exact .quiet started (by simp) (by simp [Switches]) rfl (fun _ => rfl) rfl rfl
      (by simp [frames, Frame.owes]) (by simp [frames])
  | tick frames more => exact tick_counts inv started frames more
  | @isrSignal _ _ _ woken frames result =>
    obtain ⟨_, _, eq⟩ := osSemaphoreSignal_eq_with result
    refine .quiet started (by simp) (by simp [Switches]) ?_ (fun i => signal_stats i result) ?_ ?_ ?_ ?_
    · rw [System.goOnAt_k, eq]
    · rw [System.goOnAt_k, eq]
    · rw [System.goOnAt_k, eq]
    · simp [frames, Frame.owes]
    · simp [frames]
  | @switch rest frames =>
    obtain rfl := (inv.at_frames frames).bottom
    obtain ⟨x, hx⟩ := Option.ne_none_iff_exists'.mp selects
    have hx' : scheduled { s.k with rtosStarted := true } = some x := by
      rw [scheduled_started]; exact hx
    have stats : ∀ i, (switchStep s []).k.stats i =
        ((s.k.stats i).1, (s.k.stats i).2 + if x = i then 1 else 0) :=
      fun i => osSchedule_stats _ i hx'
    have selected : ∀ i, Selects i (s, .handler) ↔ x = i := fun i =>
      ⟨fun sel => Option.some.inj (hx.symm.trans sel.2.2),
        fun eq => ⟨rfl, by simp [System.Switching, frames], eq ▸ hx⟩⟩
    refine ⟨?_, fun i => ?_, fun i => ?_, ?_⟩
    · obtain ⟨_, _, _, eq⟩ := osSchedule_eq_with { s.k with rtosStarted := true }
      exact congrArg Kernel.rtosStarted eq
    · simp only [stats]
      simp [owed, frames, Frame.owes, interrupts, switchStep]
    · simp [stats, selected]
    · simp [uncounted, frames, switchStep]
  | nothing thread =>
    exact .thread thread (step_nothing thread hstep) rfl (fun _ => rfl) rfl rfl rfl
  | delay thread =>
    exact .thread thread rfl rfl (fun i => stats_markSleeping ..) rfl rfl rfl
  | waitQueued thread _ _ result | waitTaken thread _ _ result =>
    obtain ⟨_, _, eq⟩ := osSemaphoreWait_eq_with result
    refine .thread thread rfl ?_ (fun i => wait_stats i result) ?_ ?_ rfl <;>
      rw [System.goOn_k, eq]
  | signal thread ref result =>
    obtain ⟨_, _, eq⟩ := osSemaphoreSignal_eq_with result
    have task : a.inThread = true := by
      rcases ref with ⟨_, rfl, -⟩ | ⟨_, rfl, -⟩ <;> rfl
    refine .thread thread task ?_ (fun i => signal_stats i result) ?_ ?_ rfl <;>
      rw [System.goOn_k, eq]
  | release thread | trap thread | leave thread | yield thread | ret thread | own thread =>
    exact .thread thread rfl rfl (fun _ => rfl) rfl rfl rfl
  | init thread =>
    refine .thread thread rfl ?_ (fun i => ?_) ?_ ?_ rfl
    · exact Init.apply_rtosStarted ..
    · rw [Kernel.stats, Kernel.stats, System.goOn_k, Init.apply_taskPool]
    · exact Init.apply_sysTick ..
    · exact Init.apply_currentTask ..

end counts

theorem interrupted_snoc (tr : List (System × Action)) (p : System × Action) :
    interrupted (tr ++ [p]) = interrupted tr ++ (interrupts p).toList := by
  rw [interrupted, List.filterMap_append]
  cases h : interrupts p <;> simp [interrupted, h]

/-- What a run adds, if it starts outside SysTick. -/
theorem run_counts {cfg : Config} {idle : TaskId} {s t : System} {tr : List (System × Action)}
    (h : Reachable cfg idle s) (started : s.k.rtosStarted = true) (quiet : s.inTick = false)
    (run : Run (AwakeStep idle) s tr t) : t.k.rtosStarted = true ∧
    (∀ i, (t.k.stats i).1 + owed t i =
      (s.k.stats i).1 + BitVec.ofNat 32 ((interrupted tr).count i)) ∧
    (∀ i, (t.k.stats i).2 = (s.k.stats i).2 + BitVec.ofNat 32 (slices i tr)) ∧
    t.k.sysTick + uncounted t = s.k.sysTick + BitVec.ofNat 32 (interrupted tr).length := by
  induction run with
  | nil =>
    have clear : s.frames.any Frame.owes = false ∧ .sysTick .enter ∉ s.frames :=
      not_owes (List.any_eq_false.mp quiet)
    refine ⟨started, fun i => ?_, fun i => ?_, ?_⟩
    · simp [owed, clear.1, interrupted]
    · simp [slices]
    · simp [uncounted, clear.2, interrupted]
  | @snoc tr t u a prior hstep ih =>
    obtain ⟨started', runTicks, runCount, sysTick⟩ := ih
    have inv := (h.follow ⟨tr, prior⟩).idleInv
    have counts := step_counts inv.inv started' (inv.awake.selects inv.inv.wf inv.idle_lt) hstep.1
    refine ⟨counts.started, fun i => ?_, fun i => ?_, ?_⟩
    · rw [counts.runTicks, runTicks, interrupted_snoc, List.count_append, BitVec.ofNat_add,
        BitVec.add_assoc]
      congr 2
      cases interrupts (t, a) with
      | none => simp
      | some v => by_cases eq : v = i <;> simp [eq]
    · rw [counts.runCount, runCount, slices_snoc, BitVec.ofNat_add, BitVec.add_assoc]
      congr 2
      split <;> rfl
    · rw [counts.sysTick, sysTick, interrupted_snoc, List.length_append, BitVec.ofNat_add,
        BitVec.add_assoc]
      congr 2
      by_cases tick : a = .sysTick <;> simp [interrupts, tick]

/-- Only created tasks are interrupted, and every switch selects one of them. -/
theorem run_tasks {cfg : Config} {idle : TaskId} {s t : System} {tr : List (System × Action)}
    (h : Reachable cfg idle s) (run : Run (AwakeStep idle) s tr t) :
    (∀ i ∈ interrupted tr, i < cfg.tasks.length) ∧
    ∑ i ∈ Finset.range cfg.tasks.length, slices i tr = switches tr := by
  induction run with
  | nil => exact ⟨fun i mem => by simp [interrupted] at mem, by simp [slices, switches]⟩
  | @snoc tr t u a prior hstep ih =>
    have reachable := h.follow ⟨tr, prior⟩
    have wf := reachable.idleInv.inv.wf
    have count := reachable.tasks.1
    constructor
    · intro i mem
      rw [interrupted_snoc] at mem
      rcases List.mem_append.mp mem with old | new
      · exact ih.1 i old
      · simp only [interrupts, Option.mem_toList, Option.ite_none_right_eq_some,
          Option.some.injEq] at new
        exact new.2 ▸ count ▸ wf.current_lt
    · simp only [slices_snoc, switches_snoc, Finset.sum_add_distrib, ih.2]
      congr 1
      by_cases switch : Switches (t, a)
      · have selects := reachable.idleInv.awake.selects wf reachable.idleInv.idle_lt
        obtain ⟨x, hx⟩ := Option.ne_none_iff_exists'.mp selects
        have created : x < cfg.tasks.length := count ▸ ((scheduled_some wf x).mp hx).1.1
        have selected : ∀ i, Selects i (t, a) ↔ x = i := fun i =>
          ⟨fun sel => Option.some.inj (hx.symm.trans sel.2.2),
            fun eq => ⟨switch.1, switch.2, eq ▸ hx⟩⟩
        simp [switch, selected, created]
      · simp [switch, not_selects switch]

theorem sum_ofNat (n : Nat) (f : Nat → Nat) :
    ∑ i ∈ Finset.range n, BitVec.ofNat 32 (f i) = BitVec.ofNat 32 (∑ i ∈ Finset.range n, f i) := by
  simp only [← BitVec.natCast_eq_ofNat, Nat.cast_sum]

/-- From the first switch on, between two states outside SysTick, every task is charged the ticks that
interrupted it and its selections, and nothing is lost or counted twice: all of `run_ticks` together
advances like the clock, and all of `run_count` by the number of switches. -/
theorem time_accounted {cfg : Config} {idle : TaskId} {s t : System} {tr : List (System × Action)}
    (h : Reachable cfg idle s) (started : s.k.rtosStarted = true) (quiet : s.inTick = false)
    (run : Run (AwakeStep idle) s tr t) (after : t.inTick = false) :
    (∀ i, (t.k.taskPool i).runTicks =
        (s.k.taskPool i).runTicks + BitVec.ofNat 32 ((interrupted tr).count i) ∧
      (t.k.taskPool i).runCount = (s.k.taskPool i).runCount + BitVec.ofNat 32 (slices i tr)) ∧
    ∑ i ∈ Finset.range cfg.tasks.length, ((t.k.taskPool i).runTicks - (s.k.taskPool i).runTicks) =
      t.k.sysTick - s.k.sysTick ∧
    ∑ i ∈ Finset.range cfg.tasks.length, ((t.k.taskPool i).runCount - (s.k.taskPool i).runCount) =
      BitVec.ofNat 32 (switches tr) := by
  obtain ⟨-, runTicks, runCount, sysTick⟩ := run_counts h started quiet run
  obtain ⟨created, selections⟩ := run_tasks h run
  have clear : t.frames.any Frame.owes = false ∧ .sysTick .enter ∉ t.frames :=
    not_owes (List.any_eq_false.mp after)
  have ticks : ∀ i, (t.k.taskPool i).runTicks =
      (s.k.taskPool i).runTicks + BitVec.ofNat 32 ((interrupted tr).count i) := by
    intro i
    have charged := runTicks i
    rwa [owed, if_neg (by simp [clear.1]), add_zero] at charged
  have clock : t.k.sysTick = s.k.sysTick + BitVec.ofNat 32 (interrupted tr).length := by
    rwa [uncounted, if_neg clear.2, add_zero] at sysTick
  refine ⟨fun i => ⟨ticks i, runCount i⟩, ?_, ?_⟩
  · have all : ∑ i ∈ Finset.range cfg.tasks.length, (interrupted tr).count i =
        (interrupted tr).length := by
      simpa only [Multiset.coe_count, Multiset.coe_card] using
        Multiset.sum_count_eq_card (m := (interrupted tr : Multiset TaskId))
          fun i mem => Finset.mem_range.mpr (created i mem)
    simp only [ticks, add_sub_cancel_left, sum_ofNat, all, clock]
  · have counts : ∀ i, (t.k.taskPool i).runCount =
        (s.k.taskPool i).runCount + BitVec.ofNat 32 (slices i tr) := runCount
    simp only [counts, add_sub_cancel_left, sum_ofNat, selections]

/-- The first tick of `main.c` finds the consumer running. -/
theorem time_accounted_consumer : ∃ s t : System, t.k.sysTick - s.k.sysTick = 1 ∧
    (t.k.taskPool 2).runTicks = (s.k.taskPool 2).runTicks + 1 ∧
    (t.k.taskPool 0).runTicks = (s.k.taskPool 0).runTicks := by
  let acts : List Action := .sysTick :: List.replicate 9 .handler ++ [.pendSv, .handler]
  obtain ⟨s, h, hp⟩ := reachable_of_exec mainConfig 3 [.pendSv, .handler]
    (fun s => decide (s.k.rtosStarted = true ∧ s.inTick = false) &&
      decide (interrupted (visited step s acts) = [2]) &&
      (exec step (fun _ _ t => decide (Awake 3 t.k)) s acts).any
        fun t => decide (t.inTick = false ∧ t.k.sysTick - s.k.sysTick = 1)) (by decide) (by decide)
  simp only [Bool.and_eq_true, decide_eq_true_eq] at hp
  obtain ⟨⟨⟨started, quiet⟩, one⟩, done⟩ := hp
  obtain ⟨t, hexec, after⟩ := (Option.any_eq_true _ _).mp done
  have run := exec_awake hexec
  have after := of_decide_eq_true after
  have counts := (time_accounted h started quiet run after.1).1
  refine ⟨s, t, after.2, ?_, ?_⟩
  · have charged := (counts 2).1
    rwa [one] at charged
  · have spared := (counts 0).1
    rwa [one, List.count_singleton, if_neg (by decide), BitVec.add_zero] at spared

end Rtos
