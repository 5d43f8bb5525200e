import Rtos.Scheduling.Resume

/-! Up to the first switch every task is as it was created, so the first `os_schedule` selects
the earliest created task of the highest priority. -/
namespace Rtos
open Lib

/-- Nothing but interrupts has run since `osStart`. -/
structure Waiting (cfg : Config) (s : System) : Prop where
  inv : Inv s
  started : s.k.rtosStarted = false
  count : s.k.taskCount = cfg.tasks.length
  current : s.k.currentTask = cfg.tasks.length - 1
  task : ∀ t (ht : t < cfg.tasks.length),
    s.k.state t = .ready ∧ s.k.prio t = cfg.tasks[t].priority

/-- No task has a higher priority, and no earlier one has the same. -/
def Earliest (cfg : Config) (x : TaskId) : Prop :=
  ∃ hx : x < cfg.tasks.length, ∀ t (ht : t < cfg.tasks.length),
    cfg.tasks[t].priority ≤ cfg.tasks[x].priority ∧
      (t < x → cfg.tasks[t].priority < cfg.tasks[x].priority)

theorem boot_waiting {cfg : Config} {s : System} (hboot : boot cfg = some s)
    (some_task : 0 < cfg.tasks.length) : Waiting cfg s := by
  have booted := (boot_spec hboot some_task).1
  refine ⟨boot_inv hboot some_task, booted.started, booted.count, booted.current.1, fun t ht => ?_⟩
  exact ⟨booted.state ht, by rw [Kernel.prio, (booted.tcb t ht).1]; rfl⟩

namespace Waiting
variable {cfg : Config} {s s' : System}

theorem not_thread (h : Waiting cfg s) (thread : s.Thread) : False := by
  have started := thread.started
  rw [h.started] at started; cases started

theorem keep (h : Waiting cfg s) (inv : Inv s') (started : s'.k.rtosStarted = s.k.rtosStarted)
    (count : s'.k.taskCount = s.k.taskCount) (current : s'.k.currentTask = s.k.currentTask)
    (states : ∀ t, s'.k.state t = s.k.state t) (prios : ∀ t, s'.k.prio t = s.k.prio t) :
    Waiting cfg s' := by
  refine ⟨inv, started.trans h.started, count.trans h.count, current.trans h.current, fun t ht => ?_⟩
  rw [states, prios]; exact h.task t ht

theorem ready (h : Waiting cfg s) {t : TaskId} (ht : t < s.k.taskCount) : s.k.state t = .ready :=
  (h.task t (h.count ▸ ht)).1

theorem signal {k : Kernel} {r : SemRef} {woken : Option TaskId} (h : Waiting cfg s)
    (result : osSemaphoreSignal s.k r = some (k, woken)) :
    ∃ sem, k = s.k.setSem r sem := by
  obtain ⟨sem, hs, ⟨u, q, -, hq, -⟩ | ⟨-, -, rfl⟩⟩ := osSemaphoreSignal_effect h.inv.queued result
  · have mem : u ∈ s.k.queue r := by rw [hq]; exact List.mem_cons_self
    have blocked := h.inv.queued.state_of_mem mem
    rw [h.ready (h.inv.queued.created r u mem)] at blocked
    cases blocked
  · exact ⟨_, rfl⟩

theorem next {a : Action} (h : Waiting cfg s) (hstep : step s a = some s')
    (quiet : a = .handler → ¬ s.Switching) : Waiting cfg s' := by
  have inv := step_inv h.inv hstep fun handler switching => absurd switching (quiet handler)
  cases step_cases hstep with
  | sysTick | isr | pendSv | tickLeave | isrYield | isrReturn | nothing =>
    exact h.keep inv rfl rfl rfl (fun _ => rfl) fun _ => rfl
  | @tick pc rest frames more =>
    have tick := tickStep_cases s.k more
    have at_ := h.inv.at_frames frames
    simp only [System.goOnAt] at inv ⊢
    generalize (tickStep s.k pc).1 = k', (tickStep s.k pc).2 = pc' at tick inv
    cases tick with
    | enter | asleep | awake | done | due | notDue | notStarted | pend =>
      exact h.keep inv rfl rfl rfl (fun _ => rfl) fun _ => rfl
    | @wake i =>
      obtain ⟨created, asleep⟩ := at_.scanning i (.inr List.mem_cons_self)
      rw [h.ready created] at asleep
      cases asleep
    | charge started => rw [h.started] at started; cases started
  | switch frames => exact absurd (by simp [System.Switching, frames]) (quiet rfl)
  | isrSignal _ result =>
    obtain ⟨sem, rfl⟩ := h.signal result
    exact h.keep inv rfl rfl rfl (fun _ => rfl) fun _ => rfl
  | delay thread | waitQueued thread | waitTaken thread | signal thread | release thread =>
    exact (h.not_thread thread).elim
  | trap thread | init thread | leave thread | yield thread | ret thread | own thread =>
    exact (h.not_thread thread).elim

theorem switch (h : Waiting cfg s) (some_task : 0 < cfg.tasks.length) (switching : s.Switching)
    (hstep : step s .handler = some s') : Earliest cfg s'.k.currentTask := by
  obtain ⟨rest, rfl⟩ := switching_step switching hstep
  have candidate : ∀ t, t < cfg.tasks.length → s.k.Candidate t :=
    fun t ht => ⟨h.count.symm ▸ ht, .inl (h.task t ht).1⟩
  have some_ready : scheduled s.k ≠ none := fun none =>
    (scheduled_none h.inv.wf).mp none 0 (candidate 0 some_task)
  obtain ⟨x, hx⟩ := Option.ne_none_iff_exists'.mp some_ready
  obtain ⟨⟨created, -⟩, best⟩ := (scheduled_some h.inv.wf x).mp hx
  have lt : x < cfg.tasks.length := h.count ▸ created
  -- the scan starts at task 0, so a position is the task itself
  have pos : ∀ t, t < cfg.tasks.length →
      cyclicPos s.k.taskCount s.k.currentTask t = t := by
    intro t ht
    rw [h.count, h.current, cyclicPos]
    split_ifs <;> omega
  rw [(switchStep_resumed rest hx).1]
  refine ⟨lt, fun t ht => ?_⟩
  obtain ⟨le, first⟩ := best t (candidate t ht)
  rw [(h.task t ht).2, (h.task x lt).2] at le first
  refine ⟨le, fun earlier => BitVec.lt_of_le_ne le fun same => ?_⟩
  have position := first same
  rw [pos x lt, pos t ht] at position
  omega

end Waiting

end Rtos
