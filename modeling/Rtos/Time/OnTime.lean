import Rtos.System.Refinement
import Rtos.Time.Punctual

/-! Priority and time together, in terms of what the tasks have asked for and not of the states that
the scheduler keeps. -/
namespace Rtos
open Lib

/-- Whenever a task executes its own code, every task of higher priority is in a delay that is not
over, or waits in line for a token that is not there. -/
theorem on_time {cfg : Config} {idle : TaskId} {s₀ s : System} (hboot : boot cfg = some s₀)
    (created : idle < cfg.tasks.length) (reach : Reach (TimedStep idle) s₀ s) (thread : s.Thread)
    (user : s.pc s.k.currentTask = .user) :
    ∀ x < cfg.tasks.length, s.k.prio s.k.currentTask < s.k.prio x →
      (InDelay (s.pc x) ∧ ticks s.log < deadline x s.log) ∨
      ∃ r sem, InWait r (s.pc x) ∧ x ∈ s.k.queue r ∧ s.k.sems r = some sem ∧ sem.count ≤ 0 := by
  intro x hx higher
  have reachable : Reachable cfg idle s :=
    ⟨s₀, hboot, created, reach.imp fun _ run => run.mono fun _ _ _ h => ⟨h.1, h.2.1⟩⟩
  have inv := reachable.idleInv.inv
  have timed := (reach_timed hboot created reach).2
  have task : x < s.k.taskCount := reachable.tasks.1 ▸ hx
  rcases ahead_or_blocked reachable timed thread user task higher with ahead | blocked
  · exact .inl ahead
  · right
    obtain ⟨r, mem⟩ := (inv.queued.blocked x task).mp blocked
    cases hs : s.k.sems r with
    | none => rw [Kernel.queue_none hs] at mem; cases mem
    | some sem =>
      refine ⟨r, sem, inv.queue_pc r x mem, mem, hs, Int.not_lt.mp fun free => ?_⟩
      rw [reachable.busy r sem hs free] at mem
      cases mem

/-- The counter task of `main.c` executes its own code while the consumer has a delay ahead. -/
theorem on_time_consumer : ∃ s : System, s.k.currentTask = 1 ∧ s.pc 1 = .user ∧
    ticks s.log < deadline 2 s.log := by
  have trace : ((boot mainConfig).bind fun s =>
      exec step (fun _ a t => decide (Awake 3 t.k) && a.inRange) s
        [.pendSv, .handler, .call (.delay 5), .task, .pendSv, .handler, .call (.delay 7), .task,
          .pendSv, .handler]).any
      (fun s => s.inThread ∧ s.k.currentTask = 1 ∧ s.pc 1 = .user ∧ s.pc 2 = .ret .delay ∧
        s.k.prio 1 < s.k.prio 2) = true := by decide
  obtain ⟨s, hs, hp⟩ := (Option.any_eq_true _ _).mp trace
  obtain ⟨s₀, hboot, hexec⟩ := Option.bind_eq_some_iff.mp hs
  obtain ⟨thread, current, user, delayed, higher⟩ := of_decide_eq_true hp
  have run := exec_timed hexec
  rcases on_time hboot (by decide) ⟨_, run⟩ (s.inThread_iff.mp thread) (by rw [current]; exact user) 2
    (by decide) (by rw [current]; exact higher) with ⟨-, ahead⟩ | ⟨r, sem, waits, -⟩
  · exact ⟨s, current, user, ahead⟩
  · simp [InWait, delayed] at waits

end Rtos
