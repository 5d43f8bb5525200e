import Rtos.Sync.Conservation

/-! A wait queue is a countdown: a task in it waits for as many signals as there are tasks before it,
and one more. -/
namespace Rtos
open Lib

theorem step_log {s s' : System} {a : Action} (hstep : step s a = some s') : s.log <+: s'.log := by
  cases step_cases hstep with
  | nothing => exact List.prefix_rfl
  | _ => exact List.prefix_append _ _

theorem run_log {idle : TaskId} {s t : System} {tr : List (System × Action)}
    (run : Run (AwakeStep idle) s tr t) : s.log <+: t.log :=
  run.invariant (P := fun t => s.log <+: t.log) List.prefix_rfl fun _ _ _ before hstep =>
    before.trans (step_log hstep.1)

theorem Reachable.accounts {cfg : Config} {idle : TaskId} {s : System} (h : Reachable cfg idle s)
    (r : SemRef) : Accounts r s.k s.log :=
  (h.induct (P := fun s => Accounts r s.k s.log)
    (fun _ hboot _ => boot_accounts hboot h.some_task r)
    fun _ _ _ inv accounts hstep _ => step_accounts inv.inv accounts hstep).2

/-- A task at place `j` of a wait queue is at place `j - m` when `m` signals have come, and has been
given its token when more than `j` have, whatever the priorities and whoever comes after it. -/
theorem signal_countdown {cfg : Config} {idle : TaskId} {s t : System} {tr : List (System × Action)}
    {r : SemRef} {n : Int} {j m : Nat} {x : TaskId} (h : Reachable cfg idle s)
    (init : .init r n ∈ s.log) (nonneg : 0 ≤ n) (run : Run (AwakeStep idle) s tr t)
    (small : n + signals r t.log < 2 ^ 31) (place : (s.k.queue r)[j]? = some x)
    (come : signals r t.log = signals r s.log + m) :
    (m ≤ j → (t.k.queue r)[j - m]? = some x ∧ t.k.state x = .blocked) ∧
    (j < m → callOf s.log x ∈ granted r t.log) := by
  have later := run_log run
  have reachable := h.follow ⟨_, run⟩
  obtain ⟨n, rfl⟩ := Int.eq_ofNat_of_zero_le nonneg
  obtain ⟨l, -, waiting, -, enters, sigs⟩ := (h.accounts r).ledger n init (by omega)
  obtain ⟨l', -, waiting', grants', enters', sigs'⟩ :=
    (reachable.accounts r).ledger n (later.subset init) (by omega)
  have order : l.entered <+: l'.entered := by
    obtain ⟨es, eq⟩ := later
    rw [enters, enters', ← eq, entered_append]
    exact List.prefix_append _ _
  have call : l.waiting[j]? = some (callOf s.log x) := by
    rw [waiting, List.getElem?_map, place]; rfl
  obtain ⟨moves, served⟩ := l.countdown l' order call (by rw [sigs, sigs', come])
  constructor
  · intro le
    have still := moves le
    rw [waiting', List.getElem?_map] at still
    obtain ⟨y, at_, same⟩ := Option.map_eq_some_iff.mp still
    obtain rfl : y = x := congrArg CallId.task same
    exact ⟨at_, reachable.idleInv.inv.queued.state_of_mem (List.mem_of_getElem? at_)⟩
  · intro lt
    rw [← grants']; exact served lt

/-- In `main.c` the consumer waits before the led task, and the counter task signals once. -/
theorem signal_countdown_led : ∃ s t : System, s.k.queue (.sem 0) = [2, 0] ∧
    signals (.sem 0) t.log = 1 ∧ (t.k.queue (.sem 0))[0]? = some 0 ∧ t.k.state 0 = .blocked := by
  let wait : List Action := [.call (.wait 0), .task, .pendSv, .handler]
  obtain ⟨s, h, hp⟩ := reachable_of_exec mainConfig 3 ([.pendSv, .handler] ++ wait ++ wait)
    (fun s => decide (s.k.queue (.sem 0) = [2, 0] ∧ .init (.sem 0) 0 ∈ s.log ∧
        signals (.sem 0) s.log = 0) &&
      (exec step (fun _ _ t => decide (Awake 3 t.k)) s [.call (.signal 0)]).any
        fun t => decide (signals (.sem 0) t.log = 1)) (by decide) (by decide)
  simp only [Bool.and_eq_true, decide_eq_true_eq] at hp
  obtain ⟨⟨queue, init, none⟩, done⟩ := hp
  obtain ⟨t, hexec, one⟩ := (Option.any_eq_true _ _).mp done
  have one := of_decide_eq_true one
  have run := exec_awake hexec
  have place : (s.k.queue (.sem 0))[1]? = some 0 := by rw [queue]; rfl
  have come : signals (.sem 0) t.log = signals (.sem 0) s.log + 1 := by rw [one, none]
  obtain ⟨moves, -⟩ := signal_countdown h init le_rfl run (by omega) place come
  obtain ⟨first, blocked⟩ := moves le_rfl
  exact ⟨s, t, queue, one, first, blocked⟩

end Rtos
