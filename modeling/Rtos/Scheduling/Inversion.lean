import Rtos.Scheduling.Latency

/-! Priority inversion has no bound. A mutex does not lend its owner the priority of the tasks that
wait for it, so an owner that is not running waits for every task of higher priority than its own,
and so do they. -/
namespace Rtos
open Lib

section away
variable {s s' : System} {a : Action} {o : TaskId}

/-- A task that is not current and is not selected does not become current. -/
theorem step_away (inv : Inv s) (away : s.k.currentTask ≠ o) (hstep : step s a = some s')
    (passed : ¬ Selects o (s, a)) : s'.k.currentTask ≠ o := by
  by_cases switch : a = .handler ∧ s.Switching
  · obtain ⟨rfl, switching⟩ := switch
    obtain ⟨rest, rfl⟩ := switching_step switching hstep
    cases hx : scheduled { s.k with rtosStarted := true } with
    | none =>
      show (osSchedule { s.k with rtosStarted := true }).currentTask ≠ o
      rw [osSchedule_fallback (inv.wf.started true) hx]; exact away
    | some x =>
      have other : x ≠ o := by
        rintro rfl
        rw [scheduled_started] at hx
        exact passed ⟨rfl, switching, hx⟩
      show (osSchedule { s.k with rtosStarted := true }).currentTask ≠ o
      rw [(osSchedule_current hx).1]; exact other
  · rw [(step_interlude inv.wf hstep switch).current]; exact away

theorem not_selects_blocked (wf : s.k.Wf) (blocked : s.k.state o = .blocked) : ¬ Selects o (s, a) := by
  rintro ⟨-, -, selected⟩
  rcases ((scheduled_some wf o).mp selected).1.2 with ready | ⟨-, run⟩
  · rw [blocked] at ready; cases ready
  · rw [blocked] at run; cases run

/-- In a stretch in which the owner is not selected it keeps the mutex, and no waiter is selected. -/
theorem run_owned {cfg : Config} {idle : TaskId} {t : System} {tr : List (System × Action)} {m : Nat}
    (h : Reachable cfg idle s) (owner : s.k.owner m = some o) (away : s.k.currentTask ≠ o)
    (run : Run (AwakeStep idle) s tr t) (never : slices o tr = 0) :
    Reachable cfg idle t ∧ t.k.currentTask ≠ o ∧ t.k.owner m = some o ∧
      s.k.queue (.mutex m) <+: t.k.queue (.mutex m) ∧
      ∀ w ∈ s.k.queue (.mutex m), slices w tr = 0 := by
  induction run with
  | nil => exact ⟨h, away, owner, List.prefix_rfl, fun _ _ => rfl⟩
  | @snoc tr t u a _ hstep ih =>
    rw [slices_snoc] at never
    have passed : ¬ Selects o (t, a) := by
      intro selects
      rw [if_pos selects] at never
      omega
    obtain ⟨reachable, away, owner, queue, none⟩ := ih (by omega)
    have inv := reachable.idleInv.inv
    obtain ⟨kept, longer⟩ :=
      step_owned inv (reachable.token m) owner (fun _ _ => away) hstep.1
    refine ⟨reachable.next hstep, step_away inv away hstep.1 passed, kept, queue.trans longer, ?_⟩
    intro w mem
    have blocked := inv.queued.state_of_mem (queue.subset mem)
    rw [slices_snoc, none w mem, if_neg (not_selects_blocked inv.wf blocked)]

end away

/-- The owner `o` of a mutex is not running, and a task `b` of higher priority stays runnable: then
`o` keeps the mutex, and whoever waits for it, of whatever priority, is not selected once. -/
theorem priority_inversion {cfg : Config} {idle : TaskId} {s t : System}
    {tr : List (System × Action)} {m : Nat} {o b : TaskId} (h : Reachable cfg idle s)
    (created : b < cfg.tasks.length) (owner : s.k.owner m = some o) (away : s.k.currentTask ≠ o)
    (lower : s.k.prio o < s.k.prio b) (run : Run (AwakeStep idle) s tr t)
    (busy : ∀ p ∈ tr, Awake b p.1.k) :
    t.k.owner m = some o ∧ s.k.queue (.mutex m) <+: t.k.queue (.mutex m) ∧
    ∀ w ∈ s.k.queue (.mutex m), t.k.state w = .blocked ∧ slices w tr = 0 := by
  have never := busy_starves h created lower run busy
  obtain ⟨reachable, -, kept, queue, none⟩ := run_owned h owner away run never
  refine ⟨kept, queue, fun w mem => ⟨?_, none w mem⟩⟩
  exact reachable.idleInv.inv.queued.state_of_mem (queue.subset mem)

/-- In `main.c` the idle task owns the mutex that the consumer waits for, and the led task and the
counter task keep it from giving it back. -/
theorem priority_inversion_idle : ∃ (tr : List (System × Action)) (t : System),
    switches tr = 2 ∧ t.k.owner 0 = some 3 ∧ t.k.state 2 = .blocked ∧ slices 2 tr = 0 := by
  let sleep : List Action := [.call (.delay 1), .task, .pendSv, .handler]
  let slice : List Action := .sysTick :: List.replicate 9 .handler ++ [.pendSv, .handler]
  obtain ⟨s, h, hp⟩ := reachable_of_exec mainConfig 3
    ([.pendSv, .handler] ++ sleep ++ sleep ++ sleep ++ [.call (.acquire 0), .task, .task, .sysTick] ++
      List.replicate 15 .handler ++
      [.pendSv, .handler, .task, .call (.acquire 0), .task, .pendSv, .handler])
    (fun s => decide (s.k.owner 0 = some 3 ∧ s.k.currentTask ≠ 3 ∧ s.k.prio 3 < s.k.prio 0) &&
      decide (s.k.queue (.mutex 0) = [2]) &&
      decide (switches (visited step s (slice ++ slice)) = 2) &&
      (visited step s (slice ++ slice)).all (fun p => decide (Awake 0 p.1.k)) &&
      (exec step (fun _ _ t => decide (Awake 3 t.k)) s (slice ++ slice)).isSome) (by decide)
      (by decide +kernel)
  simp only [Bool.and_eq_true, decide_eq_true_eq, List.all_eq_true] at hp
  obtain ⟨⟨⟨⟨⟨owner, away, lower⟩, queue⟩, two⟩, busy⟩, done⟩ := hp
  obtain ⟨t, hexec⟩ := Option.isSome_iff_exists.mp done
  have run := exec_awake hexec
  obtain ⟨kept, -, waits⟩ := priority_inversion h (by decide) owner away lower run busy
  exact ⟨_, t, two, kept, waits 2 (queue ▸ List.mem_cons_self)⟩

end Rtos
