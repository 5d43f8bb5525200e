import Rtos.Machine.TaskStats
import Rtos.Scheduling.Resume

/-! A whole call of `osGetTaskStats`, with the task, the ticks and the switches coming in between its
steps. -/
namespace Rtos
open Lib

/-- The fields that a tick or a switch updates are those of one moment, at the start of the call. -/
def Snapshot (t : TaskId) (us : List (Probe × ProbeAction)) (o : TaskStats) : Prop :=
  ∃ p ∈ us, p.2 = .stats ∧ p.1.pc = .enter ∧ o.runTicks = (p.1.k.taskPool t).runTicks ∧
    o.runCount = (p.1.k.taskPool t).runCount ∧ o.state = (p.1.k.taskPool t).state

/-- The fields that do not change after the creation. -/
structure Describes (spec : TaskSpec) (o : TaskStats) : Prop where
  name : o.name = spec.name
  priority : o.priority = spec.priority
  total : o.stackTotalWords = spec.stackWords

/-- Task `t` has been created as `spec` says. -/
structure Enrolled (t : TaskId) (spec : TaskSpec) (k : Kernel) : Prop where
  created : t < k.taskCount
  name : (k.taskPool t).name = spec.name
  priority : (k.taskPool t).priority = spec.priority
  stackWords : (k.taskPool t).stackWords = spec.stackWords

/-- How far a call has come after the run `us`, in which it has made `n` steps. -/
def CallAt (t : TaskId) (spec : TaskSpec) (us : List (Probe × ProbeAction)) (n : Nat) (o : TaskStats) :
    StatsPc → Prop
  | .enter => n = 0
  | .copy => n = 1 ∧ Snapshot t us o
  | .scan i _ => n = i.toNat + 2 ∧ Snapshot t us o ∧ Describes spec o
  | .returned => Snapshot t us o ∧ Describes spec o

section call
variable {t : TaskId} {spec : TaskSpec} {as : List Word} {s u v : Probe}
  {us : List (Probe × ProbeAction)} {o : TaskStats}

theorem Enrolled.run (h : Enrolled t spec s.k) (run : Run (ProbeStep t) s us u) :
    Enrolled t spec u.k := by
  induction run with
  | nil => exact h
  | snoc _ step ih =>
    cases step with
    | write | call => exact ih
    | kernel same =>
      exact ⟨ih.created.trans_le same.count, same.name.trans ih.name, same.priority.trans ih.priority,
        same.stackWords.trans ih.stackWords⟩
    | stats => rw [(osGetTaskStats_frame t _).1]; exact ih

theorem Snapshot.later (h : Snapshot t us o) (p : Probe × ProbeAction) : Snapshot t (us ++ [p]) o := by
  obtain ⟨q, mem, snap⟩ := h
  exact ⟨q, List.mem_append_left _ mem, snap⟩

theorem CallAt.wait {n : Nat} {pc : StatsPc} (h : CallAt t spec us n o pc) (p : Probe × ProbeAction) :
    CallAt t spec (us ++ [p]) n o pc := by
  cases pc with
  | enter => exact h
  | copy => exact ⟨h.1, h.2.later p⟩
  | scan => exact ⟨h.1, h.2.1.later p, h.2.2⟩
  | returned => exact ⟨h.1.later p, h.2⟩

theorem CallAt.stats {n : Nat} (h : CallAt t spec us n o v.pc) (task : Enrolled t spec v.k)
    (target : v.out = some o) :
    ∃ o', (osGetTaskStats t v).out = some o' ∧
      CallAt t spec (us ++ [(v, .stats)]) (n + 1) o' (osGetTaskStats t v).pc := by
  have last : (v, ProbeAction.stats) ∈ us ++ [(v, .stats)] :=
    List.mem_append_right _ List.mem_cons_self
  cases pc : v.pc with
  | enter =>
    rw [pc] at h
    simp only [osGetTaskStats, target, pc, if_neg (Nat.not_le.mpr task.created)]
    refine ⟨_, rfl, ?_, (v, .stats), last, rfl, pc, rfl, rfl, rfl⟩
    rw [show n = 0 from h]
  | copy =>
    rw [pc] at h
    obtain ⟨one, snapshot⟩ := h
    simp only [osGetTaskStats, target, pc]
    exact ⟨_, rfl, by rw [one]; rfl, snapshot.later _, task.name, task.priority, task.stackWords⟩
  | scan i unused =>
    rw [pc] at h
    obtain ⟨steps, snapshot, describes⟩ := h
    simp only [osGetTaskStats, target, pc, scanStep]
    split
    · rename_i more
      have next : (i + 1).toNat = i.toNat + 1 := by
        have below := BitVec.lt_def.mp more.1
        have range := (v.k.taskPool t).stackWords.isLt
        rw [BitVec.toNat_add]
        exact Nat.mod_eq_of_lt (show i.toNat + 1 < 2 ^ 32 by omega)
      exact ⟨o, rfl, by omega, snapshot.later _, describes⟩
    · exact ⟨_, rfl, snapshot.later _, describes.name, describes.priority, describes.total⟩
  | returned =>
    rw [pc] at h
    simp only [osGetTaskStats, target, pc]
    exact ⟨o, rfl, h.1.later _, h.2⟩

theorem CallAt.run (task : Enrolled t spec s.k) (called : s.pc = .enter) (target : s.out = some o)
    (run : Run (ProbeStep t) s us u) (alone : ∀ p ∈ us, p.2 ≠ .call) :
    ∃ o', u.out = some o' ∧ CallAt t spec us (iterations us) o' u.pc := by
  induction run with
  | nil => exact ⟨o, target, by rw [called]; rfl⟩
  | @snoc us v u a prior step ih =>
    obtain ⟨o', hout, at_⟩ := ih fun p mem => alone p (List.mem_append_left _ mem)
    have counted : iterations (us ++ [(v, a)]) = iterations us + if a = .stats then 1 else 0 := by
      simp [iterations, List.countP_append, List.countP_singleton]
    cases step with
    | write | kernel =>
      rw [counted, if_neg (by simp)]
      exact ⟨o', hout, at_.wait _⟩
    | call => exact absurd rfl (alone (v, .call) (List.mem_append_right _ List.mem_cons_self))
    | stats =>
      rw [counted, if_pos rfl]
      exact at_.stats (task.run prior) hout

end call

section same
variable {t : TaskId} {k k' k'' : Kernel}

theorem SameTask.refl (t : TaskId) (k : Kernel) : SameTask t k k := ⟨le_rfl, rfl, rfl, rfl, rfl⟩

theorem SameTask.trans (h : SameTask t k k') (h' : SameTask t k' k'') : SameTask t k k'' :=
  ⟨h.count.trans h'.count, h'.stackBase.trans h.stackBase, h'.stackWords.trans h.stackWords,
    h'.name.trans h.name, h'.priority.trans h.priority⟩

/-- Nothing else of the kernel matters. -/
theorem SameTask.of_pool (pool : k'.taskPool = k.taskPool) (count : k'.taskCount = k.taskCount) :
    SameTask t k k' :=
  ⟨count.ge, by rw [pool], by rw [pool], by rw [pool], by rw [pool]⟩

theorem SameTask.setTask {u : TaskId} {c : Tcb} (stackBase : c.stackBase = (k.taskPool u).stackBase)
    (stackWords : c.stackWords = (k.taskPool u).stackWords) (name : c.name = (k.taskPool u).name)
    (priority : c.priority = (k.taskPool u).priority) : SameTask t k (k.setTask u c) := by
  by_cases written : t = u
  · subst written
    constructor <;> simp [Kernel.setTask, stackBase, stackWords, name, priority]
  · constructor <;> simp [Kernel.setTask, written]

theorem SameTask.setState (h : SameTask t k k') (u : TaskId) (st : TaskState) :
    SameTask t k (k'.setState u st) :=
  h.trans (.setTask rfl rfl rfl rfl)

theorem osSchedule_sameTask (t : TaskId) (k : Kernel) : SameTask t k (osSchedule k) := by
  have released : SameTask t k (releaseCurrent k) := by
    unfold releaseCurrent
    split
    · exact (SameTask.refl t k).setState ..
    · exact .refl ..
  rw [osSchedule_eq]
  split
  · rename_i x _
    have selected : SameTask t k ((releaseCurrent k).setTask x _) :=
      released.trans (.setTask (c := { (releaseCurrent k).taskPool x with
        state := .running, runCount := ((releaseCurrent k).taskPool x).runCount + 1 }) rfl rfl rfl rfl)
    exact selected.trans (.of_pool rfl rfl)
  · unfold scheduleFallback
    split
    · exact released.setState ..
    · exact released

theorem tickStep_sameTask {pc pc' : TickPc} (tick : TickCase k pc k' pc') : SameTask t k k' := by
  cases tick with
  | asleep | awake | done | due | notDue | notStarted => exact .refl ..
  | enter | pend => exact .of_pool rfl rfl
  | wake => exact (SameTask.refl t k).setState ..
  | charge => exact .setTask rfl rfl rfl rfl

theorem wait_sameTask {r : SemRef} {queued : Bool} (h : osSemaphoreWait k r = some (k', queued)) :
    SameTask t k k' := by
  obtain ⟨s, -, ⟨-, -, rfl⟩ | ⟨-, -, -, rfl⟩⟩ := osSemaphoreWait_cases h
  · exact .of_pool rfl rfl
  · refine SameTask.setState ?_ ..
    exact .of_pool rfl rfl

theorem signal_sameTask {r : SemRef} {woken : Option TaskId}
    (h : osSemaphoreSignal k r = some (k', woken)) : SameTask t k k' := by
  obtain ⟨s, -, ⟨u, -, -, -, rfl⟩ | ⟨-, -, rfl⟩⟩ := osSemaphoreSignal_cases h
  · refine SameTask.setState ?_ ..
    exact .of_pool rfl rfl
  · exact .of_pool rfl rfl

theorem step_sameTask {s s' : System} {a : Action} (hstep : step s a = some s') :
    SameTask t s.k s'.k := by
  cases step_cases hstep with
  | sysTick | isr | tickLeave | isrReturn | nothing | trap | leave | ret | pendSv | isrYield |
    release | yield | own => exact .of_pool rfl rfl
  | init => exact .of_pool (Init.apply_taskPool ..) (Init.apply_taskCount ..)
  | delay => exact .setTask rfl rfl rfl rfl
  | tick _ more => exact tickStep_sameTask (tickStep_cases s.k more)
  | switch =>
    have started : SameTask t s.k { s.k with rtosStarted := true } := .of_pool rfl rfl
    exact started.trans (osSchedule_sameTask ..)
  | isrSignal _ result | signal _ _ result => exact signal_sameTask result
  | waitQueued _ _ _ result | waitTaken _ _ _ result => exact wait_sameTask result

/-- The tasks that `main` creates later, and `osStart`. -/
theorem createAll_sameTask {specs : List TaskSpec} (old : t < k.taskCount)
    (h : createAll k specs = some k') : SameTask t k k' := by
  induction specs generalizing k with
  | nil =>
    cases h
    exact .refl ..
  | cons spec rest ih =>
    simp only [createAll] at h
    split at h
    · cases h
    · rename_i k₁ created
      obtain ⟨-, accepted⟩ := Option.ite_none_left_eq_some.mp created
      obtain ⟨-, eq⟩ := Option.ite_none_left_eq_some.mp accepted
      cases eq
      have other : t ≠ k.taskCount := old.ne
      refine SameTask.trans ?_ (ih (Nat.lt_succ_of_lt old) h)
      constructor <;> simp [Kernel.setTask, other]

theorem osStart_sameTask (t : TaskId) (k : Kernel) : SameTask t k (osStart k) := by
  unfold osStart
  split <;> exact .of_pool rfl rfl

/-- Every run of the system may come between two steps of the call. -/
theorem probe_run {s u : System} {tr : List (System × Action)} (run : Run AnyStep s tr u) {p : Probe}
    (at_ : p.k = s.k) :
    ∃ us, Run (ProbeStep t) p us { p with k := u.k } ∧ ∀ q ∈ us, q.2 = .kernel := by
  induction run with
  | nil => exact ⟨[], by rw [← at_]; exact .nil, by simp⟩
  | snoc _ hstep ih =>
    obtain ⟨us, prior, kernel⟩ := ih
    refine ⟨_, prior.snoc (.kernel (step_sameTask hstep.1)), fun q mem => ?_⟩
    rcases List.mem_append.mp mem with old | new
    · exact kernel q old
    · cases List.mem_singleton.mp new
      rfl

end same

theorem osTaskCreate_enrolled {k k₀ : Kernel} {spec : TaskSpec} (created : osTaskCreate k spec = some k₀) :
    Enrolled k.taskCount spec k₀ := by
  obtain ⟨-, accepted⟩ := Option.ite_none_left_eq_some.mp created
  obtain ⟨-, eq⟩ := Option.ite_none_left_eq_some.mp accepted
  cases eq
  refine ⟨Nat.lt_succ_self _, ?_, ?_, ?_⟩
  all_goals simp [Kernel.setTask, newTcb]

/-- However often it is preempted, a call of `osGetTaskStats` returns after three steps and one for
each word below the initial frame at most, and it reports the task as it was at one moment. The
stack fits into the address space, and the TCB does not lie in it. -/
theorem stats_snapshot {k k₀ : Kernel} {spec : TaskSpec} {m : Memory} {tcb taskExit : Word}
    {tr us : List (Probe × ProbeAction)} {s u : Probe} {out : TaskStats}
    (created : osTaskCreate k spec = some k₀) (fits : spec.stackWords.toNat ≤ 2 ^ 30)
    (apart : tcb ∉ wordAddrs spec.stack spec.stackWords.toNat)
    (history : Run (ProbeStep k.taskCount) (Probe.fresh k₀ m tcb taskExit spec) tr s)
    (called : s.pc = .enter) (target : s.out = some out)
    (run : Run (ProbeStep k.taskCount) s us u) (alone : ∀ p ∈ us, p.2 ≠ .call) :
    (spec.stackWords.toNat - 16 + 3 ≤ iterations us → u.pc = .returned) ∧
    (u.pc = .returned →
      ∃ o, u.out = some o ∧ Snapshot k.taskCount us o ∧ Describes spec o) := by
  have fresh : 16 ≤ spec.stackWords.toNat ∧
      ProbeInv k.taskCount spec [] (Probe.fresh k₀ m tcb taskExit spec) :=
    fresh_inv created fits apart
  obtain ⟨words, inv⟩ := fresh
  have enrolled : Enrolled k.taskCount spec (Probe.fresh k₀ m tcb taskExit spec).k :=
    osTaskCreate_enrolled created
  obtain ⟨o, hout, at_⟩ := CallAt.run (enrolled.run history) called target run alone
  constructor
  · intro enough
    cases pc : u.pc with
    | enter =>
      rw [pc] at at_
      rw [show iterations us = 0 from at_] at enough
      omega
    | copy =>
      rw [pc] at at_
      have := at_.1
      omega
    | scan i unused =>
      rw [pc] at at_
      -- the scan does not come past the words of the initial frame
      have started : Counted spec ([] ++ written tr) s := fun j n at_ => by rw [called] at at_; cases at_
      have passed := ((started.run (inv.run history) words run) i unused pc).2
      have bound := (lowestWritten_spec spec ([] ++ written tr)).1
      have := at_.1
      omega
    | returned => rfl
  · intro returned
    rw [returned] at at_
    exact ⟨o, hout, at_⟩

/-- The program of `main.c`: the LED task runs while a call for it is active, and a tick is charged to
it behind the critical section of the call. -/
theorem stats_snapshot_led : ∃ (spec : TaskSpec) (s₀ v : System) (us : List (Probe × ProbeAction))
    (u : Probe) (o : TaskStats), spec ∈ mainTasks ∧ boot mainConfig = some s₀ ∧ Reach AnyStep s₀ v ∧
      u.k = v.k ∧ u.out = some o ∧ Describes spec o ∧ Snapshot 0 us o ∧ o.runTicks = 0 ∧
      (u.k.taskPool 0).runTicks = 1 := by
  let spec : TaskSpec := ⟨"led", 0x080005C5, 0x20000054, 64, 1⟩
  let k := (initAll (resetKernel 0) mainConfig.inits).get (by decide +kernel)
  let k₀ := (osTaskCreate k spec).get (by decide +kernel)
  let k₁ := (createAll k₀ mainTasks.tail).get (by decide +kernel)
  let s₀ := (boot mainConfig).get (by decide +kernel)
  -- the consumer waits, and the LED task is switched in
  let s₁ := (exec step (fun _ _ _ => true) s₀
    [.pendSv, .handler, .call (.wait 0), .task, .pendSv, .handler]).get (by decide +kernel)
  -- a whole call of the handler
  let s₂ := (exec step (fun _ _ _ => true) s₁ (.sysTick :: List.replicate 9 .handler)).get
    (by decide +kernel)
  have first : Run AnyStep s₀ _ s₁ := exec_any (Option.some_get _).symm
  have second : Run AnyStep s₁ _ s₂ := exec_any (Option.some_get _).symm
  have created : osTaskCreate k spec = some k₀ := (Option.some_get _).symm
  have booted : SameTask 0 k₀ s₀.k :=
    (createAll_sameTask (by decide) (Option.some_get _).symm).trans (osStart_sameTask 0 k₁)
  have apart : (0x200003D8 : Word) ∉ wordAddrs spec.stack spec.stackWords.toNat := by decide
  let start := Probe.fresh k₀ (fun _ => 0) 0x200003D8 0x08000809 spec
  let painted := { start.write (wordAddr spec.stack 1) 7 with k := s₀.k }
  have early : Run (ProbeStep 0) start _ painted :=
    (Run.nil.snoc (.write fun _ => by decide)).snoc (.kernel booted)
  obtain ⟨_, switches, -⟩ := probe_run (t := 0) first (p := painted) rfl
  let s := { painted with k := s₁.k }.call (some ⟨"", .ready, 9, 9, 0, 0, 0⟩)
  have history : Run (ProbeStep 0) start _ s := (early.append switches).snoc (.call rfl)
  let v := osGetTaskStats 0 s
  obtain ⟨_, ticks, kernel⟩ := probe_run (t := 0) second (p := v) (osGetTaskStats_frame 0 s).1
  let u := osGetTaskStats 0 (osGetTaskStats 0 (osGetTaskStats 0 { v with k := s₂.k }))
  have call : Run (ProbeStep 0) s _ u :=
    ((((Run.nil.snoc .stats).append ticks).snoc .stats).snoc .stats).snoc .stats
  have returned : u.pc = .returned := by decide +kernel
  obtain ⟨-, report⟩ := stats_snapshot created (by decide) apart history rfl rfl call (by
    simp only [List.nil_append, List.forall_mem_append, List.forall_mem_singleton]
    refine ⟨⟨⟨⟨by decide, fun q mem => ?_⟩, by decide⟩, by decide⟩, by decide⟩
    rw [kernel q mem]; decide)
  obtain ⟨o, out, snapshot, describes⟩ := report returned
  have still : u.k = s₂.k := by simp only [u, osGetTaskStats_frame]
  have before : u.out.map TaskStats.runTicks = some 0 := by decide +kernel
  have after : (u.k.taskPool 0).runTicks = 1 := by decide +kernel
  rw [out] at before
  exact ⟨spec, s₀, s₂, _, u, o, by decide, (Option.some_get _).symm, ⟨_, first.append second⟩, still, out,
    describes, snapshot, Option.some.inj before, after⟩

end Rtos
