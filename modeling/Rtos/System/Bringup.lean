import Rtos.Lib.Run
import Rtos.System.Step

/-! `main` from `__CPSIE_I()` on, with SysTick already running: an interrupt may come wherever it is
not masked. What the handler reads is written in one step each, and `osSemaphoreInit` writes nothing
of it. -/
namespace Rtos
open Lib

inductive BootOp where
  | init (i : Init)
  /-- the guards of `osTaskCreate` -/
  | room
  | size (spec : TaskSpec)
  /-- the critical section -/
  | enroll (spec : TaskSpec)
  /-- the two writes of `osStart` -/
  | index
  | current
  /-- the PENDSVSET write of `_rtos_start` -/
  | pend
  /-- the endless loop of a guard -/
  | trap
  deriving DecidableEq, Repr

def addTask (k : Kernel) (spec : TaskSpec) : Kernel :=
  { k.setTask k.taskCount (newTcb spec) with
    currentTask := if k.taskCount = 0 then k.taskCount else k.currentTask,
    taskCount := k.taskCount + 1 }

/-- A guard that does not let the call pass has no result. -/
def BootOp.run (k : Kernel) : BootOp → Option Kernel
  | .init i => some (i.apply k)
  | .room => if maxTasks ≤ k.taskCount then none else some k
  | .size spec => if spec.stackWords < 16 then none else some k
  | .enroll spec => some (addTask k spec)
  | .index => some (if 0 < k.taskCount then { k with currentTaskIndex := k.taskCount - 1 } else k)
  | .current => some (if 0 < k.taskCount then { k with currentTask := k.currentTaskIndex } else k)
  | .pend => some k.triggerPendsv
  | .trap => none

def createOps (spec : TaskSpec) : List BootOp := [.room, .size spec, .enroll spec]

def startOps : List BootOp := [.index, .current, .pend]

def Config.code (cfg : Config) : List BootOp :=
  cfg.inits.map .init ++ cfg.tasks.flatMap createOps ++ startOps

/-- `tick` tells where an active `SysTick_Handler` stands. -/
structure Booting where
  k : Kernel
  todo : List BootOp
  tick : Option TickPc
  primask : Bool

inductive BootAction where
  | main
  | sysTick
  | handler
  deriving DecidableEq, Repr

def mainStep (s : Booting) : Option Booting :=
  match s.todo with
  | [] => none
  | op :: rest =>
    match op.run s.k with
    | some k => some { s with k := k, todo := rest }
    | none => some { s with todo := [.trap], primask := true }

def bootStep (s : Booting) : BootAction → Option Booting
  | .main => if s.tick = none then mainStep s else none
  | .sysTick => if s.primask = false ∧ s.tick = none then some { s with tick := some .enter } else none
  | .handler =>
    match s.tick with
    | none => none
    | some .leave => some { s with tick := none }
    | some pc => some { s with k := (tickStep s.k pc).1, tick := some (tickStep s.k pc).2 }

abbrev BootStep : Booting → BootAction → Booting → Prop := Steps bootStep fun _ _ _ => True

def Config.start (cfg : Config) : Booting := ⟨resetKernel 0, cfg.code, none, false⟩

def sysTicks (tr : List (Booting × BootAction)) : Nat := tr.countP fun p => p.2 = .sysTick

/-- What an uninterrupted `main` makes of the rest of its code. -/
def finish (k : Kernel) : List BootOp → Option Kernel
  | [] => some k
  | op :: rest => (op.run k).bind fun k => finish k rest

/-- The kernel, had SysTick come `n` times. -/
def Kernel.atTick (k : Kernel) (n : Nat) : Kernel := { k with sysTick := BitVec.ofNat 32 n }

theorem finish_append (k : Kernel) (ops rest : List BootOp) :
    finish k (ops ++ rest) = (finish k ops).bind fun k => finish k rest := by
  induction ops generalizing k with
  | nil => rfl
  | cons op ops ih =>
    rw [List.cons_append, finish, finish, Option.bind_assoc]
    exact congrArg _ (funext ih)

theorem finish_inits {k : Kernel} {inits : List Init} (once : (inits.map Init.ref).Nodup)
    (fresh : ∀ i ∈ inits, k.sems i.ref = none) :
    finish k (inits.map .init) = initAll k inits := by
  induction inits generalizing k with
  | nil => rfl
  | cons i inits ih =>
    rw [List.map_cons, List.nodup_cons] at once
    obtain ⟨new, once⟩ := once
    have now : (k.sems i.ref).isNone := Option.isNone_iff_eq_none.mpr (fresh i List.mem_cons_self)
    rw [List.map_cons, finish, initAll, if_pos now]
    apply ih once
    intro j mem
    have other : j.ref ≠ i.ref := fun same => new (same ▸ List.mem_map_of_mem mem)
    rw [Init.apply_sems, if_neg other]
    exact fresh j (List.mem_cons_of_mem _ mem)

theorem osTaskCreate_ops (k : Kernel) (spec : TaskSpec) :
    finish k (createOps spec) = osTaskCreate k spec := by
  by_cases full : maxTasks ≤ k.taskCount
  · rw [createOps, finish, BootOp.run, osTaskCreate, if_pos full, if_pos full]; rfl
  · by_cases small : spec.stackWords < 16
    · rw [createOps, finish, BootOp.run, osTaskCreate, if_neg full, if_neg full, if_pos small,
        Option.bind_some, finish, BootOp.run, if_pos small]
      rfl
    · rw [createOps, finish, BootOp.run, osTaskCreate, if_neg full, if_neg full, if_neg small,
        Option.bind_some, finish, BootOp.run, if_neg small]
      rfl

theorem finish_creates (k : Kernel) (specs : List TaskSpec) :
    finish k (specs.flatMap createOps) = createAll k specs := by
  induction specs generalizing k with
  | nil => rfl
  | cons spec specs ih =>
    rw [List.flatMap_cons, finish_append, osTaskCreate_ops, createAll]
    cases osTaskCreate k spec with
    | none => rfl
    | some k' => exact ih k'

theorem finish_start (k : Kernel) : finish k startOps = some (osStart k) := by
  by_cases some_ : 0 < k.taskCount
  · simp [startOps, finish, BootOp.run, osStart, some_]
  · simp [startOps, finish, BootOp.run, osStart, some_]

theorem finish_code {cfg : Config} (once : (cfg.inits.map Init.ref).Nodup) (n : Nat) :
    finish (resetKernel n) cfg.code = bootKernel { cfg with ticks := n } := by
  rw [Config.code, finish_append, finish_append, finish_inits once fun _ _ => rfl, bootKernel]
  cases initAll (resetKernel n) cfg.inits with
  | none => rfl
  | some k =>
    rw [Option.bind_some, finish_creates]
    cases created : createAll k cfg.tasks with
    | none => simp [created]
    | some k' => simp [created, finish_start]

theorem run_atTick (k : Kernel) (op : BootOp) (n : Nat) :
    op.run (k.atTick n) = (op.run k).map fun k => k.atTick n := by
  cases op with
  | init i => cases i <;> rfl
  | room => by_cases full : maxTasks ≤ k.taskCount <;> simp [BootOp.run, Kernel.atTick, full]
  | size spec => by_cases small : spec.stackWords < 16#32 <;> simp [BootOp.run, small]
  | index | current =>
    by_cases some_ : 0 < k.taskCount <;> simp [BootOp.run, Kernel.atTick, some_]
  | enroll | pend | trap => rfl

/-- What `SysTick_Handler` finds before the first switch: nobody to wake and nobody to charge. -/
structure Quiet (k : Kernel) : Prop where
  started : k.rtosStarted = false
  awake : ∀ t, k.state t ≠ .sleeping

theorem run_spec {k k' : Kernel} {op : BootOp} (h : op.run k = some k') :
    k'.sysTick = k.sysTick ∧ k'.rtosStarted = k.rtosStarted ∧
    (∀ t, k'.state t = k.state t ∨ k'.state t = .ready) ∧
    (op ≠ .pend → k'.pendsv = k.pendsv) := by
  cases op with
  | init i => cases h; simp
  | room =>
    obtain ⟨-, same⟩ := Option.ite_none_left_eq_some.mp h
    cases same; simp
  | size spec =>
    obtain ⟨-, same⟩ := Option.ite_none_left_eq_some.mp h
    cases same; simp
  | enroll spec =>
    cases h
    refine ⟨rfl, rfl, fun t => ?_, fun _ => rfl⟩
    show (k.setTask k.taskCount (newTcb spec)).state t = _ ∨ (k.setTask _ _).state t = _
    rw [Kernel.state_setTask]
    split
    · exact .inr rfl
    · exact .inl rfl
  | index | current =>
    cases h
    split <;> exact ⟨rfl, rfl, fun _ => .inl rfl, fun _ => rfl⟩
  | pend => cases h; simp [Kernel.triggerPendsv, Kernel.state]
  | trap => cases h

theorem Quiet.run {k k' : Kernel} {op : BootOp} (h : Quiet k) (run : op.run k = some k') :
    Quiet k' := by
  obtain ⟨-, started, states, -⟩ := run_spec run
  refine ⟨started.trans h.started, fun t => ?_⟩
  rcases states t with same | ready
  · rw [same]; exact h.awake t
  · rw [ready]; simp

/-- Where a call that finds nothing to do comes by. -/
def TickPc.passes : TickPc → Bool
  | .due _ => false
  | .wake _ => false
  | .pend => false
  | _ => true

theorem Quiet.tickStep {k : Kernel} {pc : TickPc} (h : Quiet k) (passes : pc.passes = true) :
    ((tickStep k pc).2.passes = true ∧ (tickStep k pc).2 ≠ .enter) ∧
    (tickStep k pc).1 = if pc = .enter then { k with sysTick := k.sysTick + 1 } else k := by
  cases pc with
  | enter => simp [Rtos.tickStep, TickPc.passes]
  | scan i =>
    simp only [Rtos.tickStep, if_neg (h.awake i)]
    split <;> simp [TickPc.passes]
  | due | wake | pend => cases passes
  | charge => simp [Rtos.tickStep, h.started, TickPc.passes]
  | leave => simp [Rtos.tickStep, TickPc.passes]

/-- What holds wherever `main` stands, if SysTick has come `n` times. -/
structure BootInv (cfg : Config) (n : Nat) (s : Booting) : Prop where
  rest : ∀ m, finish (s.k.atTick m) s.todo = bootKernel { cfg with ticks := m }
  clock : s.k.sysTick + (if s.tick = some .enter then 1 else 0) = BitVec.ofNat 32 n
  quiet : Quiet s.k
  passes : ∀ pc ∈ s.tick, pc.passes = true
  last : .pend ∉ s.todo.dropLast
  pendsv : s.todo ≠ [] → s.k.pendsv = false

theorem pend_last (cfg : Config) : .pend ∉ cfg.code.dropLast := by
  have split : cfg.code.dropLast = cfg.inits.map .init ++ cfg.tasks.flatMap createOps ++
      [.index, .current] := List.dropLast_append_of_ne_nil (by simp [startOps])
  rw [split]
  simp [createOps]

namespace BootInv
variable {cfg : Config} {n : Nat} {s s' : Booting}

theorem start (once : (cfg.inits.map Init.ref).Nodup) : BootInv cfg 0 cfg.start := by
  constructor
  · exact finish_code once
  · rfl
  · exact ⟨rfl, fun t => by simp [Config.start, resetKernel, Kernel.state, zeroTcb]⟩
  · simp [Config.start]
  · exact pend_last cfg
  · exact fun _ => rfl

theorem main (h : BootInv cfg n s) (idle : s.tick = none) (hstep : mainStep s = some s') :
    BootInv cfg n s' := by
  obtain ⟨k, todo, tick, primask⟩ := s
  obtain ⟨rest, clock, quiet, passes, last, pendsv⟩ := h
  simp only at idle rest clock quiet passes last pendsv
  cases todo with
  | nil => cases hstep
  | cons op ops =>
    simp only [finish, run_atTick] at rest
    cases run : op.run k with
    | none =>
      simp only [mainStep, run, Option.some.injEq] at hstep
      subst hstep
      simp only [run] at rest
      exact ⟨rest, clock, quiet, passes, by simp, fun _ => pendsv (by simp)⟩
    | some k' =>
      simp only [mainStep, run, Option.some.injEq] at hstep
      subst hstep
      simp only [run] at rest
      obtain ⟨sysTick, -, -, pend⟩ := run_spec run
      refine ⟨rest, sysTick ▸ clock, quiet.run run, passes, ?_, fun more => ?_⟩
      · intro mem
        cases ops with
        | nil => cases mem
        | cons => exact last (List.mem_cons_of_mem _ mem)
      · have inner : op ≠ .pend := by
          rintro rfl
          rw [List.dropLast_cons_of_ne_nil more] at last
          exact last List.mem_cons_self
        exact (pend inner).trans (pendsv (by simp))

theorem sysTick (h : BootInv cfg n s) (idle : s.tick = none) :
    BootInv cfg (n + 1) { s with tick := some .enter } := by
  obtain ⟨rest, clock, quiet, -, last, pendsv⟩ := h
  refine ⟨rest, ?_, quiet, by simp [TickPc.passes], last, pendsv⟩
  rw [idle] at clock
  simp only [if_true, BitVec.ofNat_add, ← clock]
  simp

theorem handler (h : BootInv cfg n s) {pc : TickPc} (active : s.tick = some pc) :
    BootInv cfg n { s with k := (tickStep s.k pc).1, tick := some (tickStep s.k pc).2 } := by
  obtain ⟨rest, clock, quiet, passes, last, pendsv⟩ := h
  obtain ⟨⟨on, more⟩, same⟩ := quiet.tickStep (passes pc active)
  have next : (if some (tickStep s.k pc).2 = some .enter then 1 else 0) = (0 : Word) := by
    rw [if_neg fun eq => more (Option.some.inj eq)]
  have stays : ∀ q ∈ some (tickStep s.k pc).2, q.passes = true := by
    rintro q ⟨⟩; exact on
  by_cases first : pc = .enter
  · rw [active, first, if_pos rfl] at clock
    rw [if_pos first] at same
    rw [same]
    refine ⟨rest, ?_, ⟨quiet.started, quiet.awake⟩, stays, last, pendsv⟩
    show s.k.sysTick + 1 + (if some (tickStep s.k pc).2 = some .enter then 1 else 0) = _
    rw [next, add_zero, clock]
  · rw [active, if_neg fun eq => first (Option.some.inj eq)] at clock
    rw [if_neg first] at same
    rw [same]
    refine ⟨rest, ?_, quiet, stays, last, pendsv⟩
    show s.k.sysTick + (if some (tickStep s.k pc).2 = some .enter then 1 else 0) = _
    rw [next, clock]

theorem leave (h : BootInv cfg n s) (active : s.tick = some .leave) :
    BootInv cfg n { s with tick := none } := by
  obtain ⟨rest, clock, quiet, -, last, pendsv⟩ := h
  rw [active] at clock
  exact ⟨rest, clock, quiet, by simp, last, pendsv⟩

theorem step (h : BootInv cfg n s) {a : BootAction} (hstep : bootStep s a = some s') :
    BootInv cfg (n + if a = .sysTick then 1 else 0) s' := by
  cases a with
  | main =>
    obtain ⟨idle, hstep⟩ := Option.ite_none_right_eq_some.mp hstep
    exact h.main idle hstep
  | sysTick =>
    obtain ⟨⟨-, idle⟩, eq⟩ := Option.ite_none_right_eq_some.mp hstep
    cases eq
    exact h.sysTick idle
  | handler =>
    simp only [bootStep] at hstep
    split at hstep
    · cases hstep
    · rename_i active
      cases hstep
      exact h.leave active
    · rename_i active
      cases hstep
      exact h.handler active

theorem run (once : (cfg.inits.map Init.ref).Nodup) {tr : List (Booting × BootAction)}
    (run : Run BootStep cfg.start tr s) : BootInv cfg (sysTicks tr) s := by
  induction run with
  | nil => exact start once
  | @snoc tr t u a _ hstep ih =>
    have counted : sysTicks (tr ++ [(t, a)]) = sysTicks tr + if a = .sysTick then 1 else 0 := by
      rw [sysTicks, List.countP_append, List.countP_singleton]
      simp [sysTicks]
    rw [counted]; exact ih.step hstep.1

end BootInv

/-- However SysTick comes in between the initialisations, the creations and `osStart`: it never pends
PendSV, a guard that traps is one that traps without it, and otherwise the system starts in the state
of an uninterrupted `main` that comes so many ticks later. -/
theorem boot_interleaved {cfg : Config} (once : (cfg.inits.map Init.ref).Nodup)
    {tr : List (Booting × BootAction)} {s : Booting} (run : Run BootStep cfg.start tr s) :
    (s.k.rtosStarted = false ∧ (s.todo ≠ [] → s.k.pendsv = false)) ∧
    (s.todo = [.trap] → boot { cfg with ticks := sysTicks tr } = none) ∧
    (s.todo = [] → s.tick = none →
      ∃ b, boot { cfg with ticks := sysTicks tr } = some b ∧ b.k = s.k) := by
  have h := BootInv.run once run
  refine ⟨⟨h.quiet.started, h.pendsv⟩, fun trapped => ?_, fun done idle => ?_⟩
  · have rest := h.rest (sysTicks tr)
    rw [trapped] at rest
    rw [boot, ← rest]; rfl
  · have rest := h.rest (sysTicks tr)
    have clock := h.clock
    rw [done] at rest
    rw [idle] at clock
    have same : s.k.atTick (sysTicks tr) = s.k := by
      rw [Kernel.atTick, ← clock]; simp
    rw [boot, ← rest, same]
    exact ⟨_, rfl, rfl⟩

/-- SysTick comes before the first task of `main.c` and in between two guards. -/
theorem boot_interleaved_main : ∃ (s : Booting) (b : System), Reach BootStep mainConfig.start s ∧
    s.k.sysTick = 2 ∧ boot { mainConfig with ticks := 2 } = some b ∧ b.k = s.k := by
  let acts : List BootAction := List.replicate 2 .main ++ .sysTick :: List.replicate 4 .handler ++
    List.replicate 7 .main ++ .sysTick :: List.replicate 6 .handler ++ List.replicate 8 .main
  have trace : (exec bootStep (fun _ _ _ => true) mainConfig.start acts).any
      fun s => decide (s.todo = [] ∧ s.tick = none ∧ s.k.sysTick = 2) := by decide
  have two : sysTicks (visited bootStep mainConfig.start acts) = 2 := by decide
  obtain ⟨s, hexec, done⟩ := (Option.any_eq_true _ _).mp trace
  have done := of_decide_eq_true done
  have run := (exec_run hexec).mono fun _ _ _ hstep => (⟨hstep.1, trivial⟩ : BootStep _ _ _)
  have once : (mainConfig.inits.map Init.ref).Nodup := by decide
  obtain ⟨b, booted, same⟩ := (boot_interleaved once run).2.2 done.1 done.2.1
  rw [two] at booted
  exact ⟨s, b, ⟨_, run⟩, done.2.2, booted, same⟩

end Rtos
