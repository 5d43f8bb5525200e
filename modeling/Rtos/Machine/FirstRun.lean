import Rtos.Machine.Preserve
import Rtos.Scheduling.FirstSwitch

/-! The kernel and the core together: every task runs for the first time from the frame that
`os_task_stack_init` has built, and the first one is the earliest of the highest priority. -/
namespace Rtos
open Lib

/-- The kernel's view and the core's view of one run. -/
structure Board where
  sys : System
  core : Core

inductive BoardMove where
  | kernel (a : Action)
  | core (m : Move)
  deriving DecidableEq, Repr

/-- `PendSV_Handler` is entered on both sides at once, and so is `os_schedule`. -/
inductive BoardStep (L : Layout) (b : Board) : BoardMove → Board → Prop where
  | kernel {a : Action} {sys : System} (hstep : step b.sys a = some sys) (other : a ≠ .pendSv)
      (quiet : a = .handler → ¬ b.sys.Switching) : BoardStep L b (.kernel a) { b with sys := sys }
  | core {m : Move} {core : Core} (hstep : CoreStep L b.core m core)
      (own : m = .thread ∨ m = .interrupt ∨ m = .leave) : BoardStep L b (.core m) { b with core := core }
  | pendSv {m : Move} {sys : System} {core : Core} (hsys : step b.sys .pendSv = some sys)
      (hcore : CoreStep L b.core m core) (entry : m = .enter ∨ m = .chain) :
      BoardStep L b (.core m) ⟨sys, core⟩
  | switch {sys : System} {core : Core} (switching : b.sys.Switching)
      (hsys : step b.sys .handler = some sys)
      (hcore : CoreStep L b.core (.switch sys.k.currentTask) core) :
      BoardStep L b (.core (.switch sys.k.currentTask)) ⟨sys, core⟩

/-- The core's part of a run. -/
def cores (tr : List (Board × BoardMove)) : List (Core × Move) :=
  tr.filterMap fun p =>
    match p.2 with
    | .kernel _ => none
    | .core m => some (p.1.core, m)

theorem cores_snoc (tr : List (Board × BoardMove)) (b : Board) (a : BoardMove) :
    cores (tr ++ [(b, a)]) = cores tr ++ match a with
      | .kernel _ => []
      | .core m => [(b.core, m)] := by
  cases a <;> simp [cores]

theorem cores_append (tr us : List (Board × BoardMove)) : cores (tr ++ us) = cores tr ++ cores us :=
  List.filterMap_append

theorem BoardStep.coreStep {L : Layout} {b b' : Board} {m : Move}
    (hstep : BoardStep L b (.core m) b') : CoreStep L b.core m b'.core := by
  cases hstep with
  | core hstep => exact hstep
  | pendSv _ hcore => exact hcore
  | switch _ _ hcore => exact hcore

theorem CoreStep.created {L : Layout} {s s' : Core} {x : TaskId}
    (hstep : CoreStep L s (.switch x) s') : x < L.tasks.length := by
  cases hstep with
  | switch handler =>
    obtain ⟨d, schedules, -⟩ := handler
    exact schedules.created

theorem run_cores {L : Layout} {b₀ b : Board} {tr : List (Board × BoardMove)}
    (run : Run (BoardStep L) b₀ tr b) : Run (CoreStep L) b₀.core (cores tr) b.core := by
  induction run with
  | nil => exact .nil
  | @snoc tr t u a _ hstep ih =>
    rw [cores_snoc]
    cases a with
    | kernel a =>
      cases hstep with
      | kernel => rw [List.append_nil]; exact ih
    | core m => exact ih.snoc hstep.coreStep

/-- Thread mode has just been entered at the first instruction of task `t`, with an empty stack. -/
structure Entered (L : Layout) (t : TaskId) (c : Cpu) : Prop where
  pc : c.pc = (L.spec t).func
  lr : c.reg .lr = L.taskExit
  xpsr : c.xpsr = 0x01000000#32
  zero : ∀ r, r ≠ .lr → c.reg r = 0
  psp : c.psp = L.stackAddr t (L.stackWords t)

theorem GoesOn.entered {L : Layout} {t : TaskId} {c : Cpu} (h : GoesOn (L.created t) c)
    (placed : L.Placed) (ht : t < L.tasks.length) : Entered L t c := by
  have callee := h.callee
  have frame := h.frame
  simp only [calleeRegs, Layout.created, List.map_cons, List.map_nil, List.cons.injEq,
    frameRegs] at callee frame
  refine ⟨by simp [frame], by simp [frame], by simp [frame], ?_, h.top placed ht⟩
  intro r other
  cases r <;> simp_all

theorem PendSv.first_writes {L : Layout} {x : TaskId} {c c' : Cpu} (h : PendSv L x c c')
    (placed : L.Placed) (msp : c.msp = L.msp) (boot : c.mem.readByte L.rtosStarted = 0) :
    ∃ ws, c'.writes = c.writes ++ ws ∧ ∀ a ∈ ws, L.Apart a := by
  obtain ⟨d, schedules, rfl⟩ := h
  obtain ⟨ws, log, apart⟩ := schedules.writes
  have half := (pendSvHalf_first_stores L c boot).2
  have pushed := (pendSvHalf_keeps L c).2.2.1.trans msp
  refine ⟨Memory.wordOf L.rtosStarted :: (L.msp - 4) :: ws, ?_, fun a mem => ?_⟩
  · rw [(pendSvRestore_mem L d).2, log, pendSvCall_pushes, half, pushed]; simp
  · rcases List.mem_cons.mp mem with rfl | mem
    · exact ⟨placed.reserved _ Layout.reserved_started, fun t ht => (placed.pool t ht).2.symm⟩
    rcases List.mem_cons.mp mem with rfl | mem
    · exact Layout.Scratch.apart (.inr (.inl rfl)) placed
    · exact apart a mem

theorem CoreInv.boot_writes {L : Layout} {h : History} {c : Cpu} (inv : CoreInv L h c .thread)
    (placed : L.Placed) (none : h.current = none) :
    ∃ ws, c.exceptionEntry.writes = c.writes ++ ws ∧ ∀ a ∈ ws, L.Apart a := by
  refine ⟨wordAddrs L.dummyStack 8, ?_, fun a mem => Layout.Scratch.apart (.inl mem) placed⟩
  rw [Cpu.exceptionEntry_psp inv.spsel, ← frameAddr_top placed.dummy, ← (inv.boot none).2.2 rfl]
  rfl

/-- What the restoring half and the unstacking read when task `x` is selected with the context
`ctx`: the pushed LR, `current_task`, the `sp` of the task, and words of its stack. -/
theorem PendSv.reads {L : Layout} {x : TaskId} {ctx : Context} {c c' t : Cpu}
    (h : PendSv L x c c') (placed : L.Placed) (msp : c.msp = L.msp)
    (lr : c.reg .lr = excReturnPsp) (suspended : Suspended L c'.mem x ctx)
    (returns : c'.exceptionReturn = some t) : ∃ d ws,
      Schedules L x ((pendSvHalf L c).run pendSvCall) d ∧ c' = d.run (pendSvRestore L) ∧
      t.reads = d.reads ++ [d.msp, L.currentTask, L.tcb x] ++ ws ∧ ∀ a ∈ ws, L.InStack x a := by
  have resumed := h.resumes placed msp suspended
  have lr' := (h.loads msp).2.2.2.2.1.trans lr
  obtain ⟨d, schedules, rfl⟩ := h
  obtain ⟨-, -, -, -, -, reads⟩ := pendSvRestore_loads L d (congrArg d.mem schedules.selected)
  have frame := suspended.frame_at
  have sp := suspended.sp
  rw [(pendSvRestore_mem L d).1] at sp
  rw [Cpu.exceptionReturn_psp lr'] at returns
  cases Option.some.inj returns
  refine ⟨d, wordAddrs (wordAddr (ctx.psp - 32) 4) 4 ++ wordAddrs (ctx.psp - 32) 4 ++
    wordAddrs ctx.psp 8, schedules, rfl, ?_, fun a mem => ?_⟩
  · have psp : (d.run (pendSvRestore L)).psp = ctx.psp := congrArg Context.psp resumed
    simp only [Cpu.unstackFrame, reads, psp, sp, schedules.selected, List.append_assoc]
  · simp only [List.mem_append, mem_wordAddrs, wordAddr_wordAddr] at mem
    rcases mem with (⟨i, hi, rfl⟩ | ⟨i, hi, rfl⟩) | ⟨i, hi, rfl⟩
    · exact frame.inStack_below (by omega)
    · exact frame.inStack_below (by omega)
    · exact frame.inStack hi

namespace CoreInv
variable {L : Layout} {h : History} {s s' : Core}

theorem first_writes {m : Move} (inv : CoreInv L h s.cpu s.mode) (placed : L.Placed)
    (none : h.selected = []) (hstep : CoreStep L s m s')
    (move : m = .enter ∨ ∃ x, m = .switch x) :
    ∃ ws, s'.cpu.writes = s.cpu.writes ++ ws ∧ ∀ a ∈ ws, L.Apart a := by
  have idle : h.current = Option.none := List.getLast?_eq_none_iff.mpr none
  cases hstep with
  | enter => exact inv.boot_writes placed idle
  | switch handler => exact handler.first_writes placed inv.msp (inv.boot idle).1
  | thread | interrupt | chain | leave => simp at move

theorem first_reads {x : TaskId} (inv : CoreInv L h s.cpu s.mode) (placed : L.Placed)
    (out : x ∉ h.entered) (hstep : CoreStep L s (.switch x) s') : ∃ d t ws,
      Schedules L x ((pendSvHalf L s.cpu).run pendSvCall) d ∧
      s'.cpu = d.run (pendSvRestore L) ∧ s'.cpu.exceptionReturn = some t ∧
      Entered L x t ∧ t.reads = d.reads ++ [d.msp, L.currentTask, L.tcb x] ++ ws ∧
      ∀ a ∈ ws, L.InStack x a := by
  have created := hstep.created
  cases hstep with
  | switch handler =>
    obtain ⟨-, suspended, fresh⟩ := inv.suspends (s := ⟨_, .pendSv⟩) placed handler
    have lr := inv.lr (by simp)
    have after := inv.switch (s := ⟨_, .pendSv⟩) placed handler
    have returns := Cpu.exceptionReturn_psp (after.lr (by simp))
    have goesOn := exceptionReturn_goesOn (after.lr (by simp)) returns
    rw [handler.resumes placed inv.msp (suspended x created), fresh x out] at goesOn
    obtain ⟨d, ws, schedules, restored, reads, own⟩ :=
      handler.reads placed inv.msp lr (suspended x created) returns
    exact ⟨d, _, ws, schedules, restored, returns, goesOn.entered placed created, reads, own⟩

theorem enters {x : TaskId} (inv : CoreInv L h s.cpu s.mode) (placed : L.Placed)
    (hstep : CoreStep L s .leave s') (cur : h.current = some x) (out : x ∉ h.entered) :
    Entered L x s'.cpu := by
  cases hstep with
  | leave returns =>
    have goesOn := leave_goesOn inv cur returns
    rw [inv.fresh x out] at goesOn
    exact goesOn.entered placed (inv.running x cur).2.1

end CoreInv

theorem history_entered (tr : List (Core × Move)) :
    ∀ t ∈ (history tr).entered, t ∈ (history tr).selected := by
  induction tr using List.reverseRecOn with
  | nil =>
    intro t mem
    cases mem
  | append_singleton tr p ih =>
    rw [history_snoc]
    obtain ⟨s, move⟩ := p
    intro t mem
    cases move with
    | thread | interrupt | enter | chain => exact ih t mem
    | switch x => exact List.mem_append_left _ (ih t mem)
    | leave =>
      rcases List.mem_append.mp mem with old | new
      · exact ih t old
      · exact List.mem_of_getLast? (Option.mem_toList.mp new)

/-- Until the first switch nothing but interrupts has run, and that switch selects the earliest
task of the highest priority. -/
structure FirstSelected (cfg : Config) (b : Board) (h : History) : Prop where
  waiting : h.selected = [] → 0 < cfg.tasks.length → Waiting cfg b.sys
  first : ∀ x, h.selected.head? = some x → Earliest cfg x

theorem FirstSelected.step {L : Layout} {cfg : Config} {b b' : Board} {h : History} {m : Move}
    (fs : FirstSelected cfg b h) (tasks : L.tasks = cfg.tasks)
    (hstep : BoardStep L b (.core m) b') : FirstSelected cfg b' (h.next (b.core, m)) := by
  cases hstep with
  | core hstep own =>
    rcases own with rfl | rfl | rfl <;> exact ⟨fs.waiting, fs.first⟩
  | pendSv hsys hcore entry =>
    have waiting : h.selected = [] → 0 < cfg.tasks.length → Waiting cfg _ :=
      fun none some_task => (fs.waiting none some_task).next hsys (by simp)
    rcases entry with rfl | rfl <;> exact ⟨waiting, fs.first⟩
  | switch switching hsys hcore =>
    refine ⟨fun none => absurd none (List.append_ne_nil_of_right_ne_nil _ (by simp)), fun x head => ?_⟩
    cases sel : h.selected with
    | nil =>
      have created : 0 < cfg.tasks.length := tasks ▸ Nat.zero_lt_of_lt hcore.created
      have earliest := (fs.waiting sel created).switch created switching hsys
      simp only [History.next, sel, List.nil_append, List.head?_cons] at head
      exact Option.some.inj head ▸ earliest
    | cons y ys =>
      refine fs.first x ?_
      simpa [History.next, sel] using head

theorem FirstSelected.run {L : Layout} {cfg : Config} {s₀ : System} {core : Core} {b : Board}
    {tr : List (Board × BoardMove)} (tasks : L.tasks = cfg.tasks) (hboot : boot cfg = some s₀)
    (run : Run (BoardStep L) ⟨s₀, core⟩ tr b) : FirstSelected cfg b (history (cores tr)) := by
  induction run with
  | nil => exact ⟨fun _ some_task => boot_waiting hboot some_task, fun x head => by cases head⟩
  | @snoc tr t u a _ hstep ih =>
    rw [cores_snoc]
    cases a with
    | kernel a =>
      rw [List.append_nil]
      cases hstep with
      | kernel hstep other quiet =>
        exact ⟨fun none some_task => (ih.waiting none some_task).next hstep quiet, ih.first⟩
    | core m =>
      rw [history_snoc]
      exact ih.step tasks hstep

section execution
variable {L : Layout} {c : Cpu} {s₀ s s₁ s₂ : System}

theorem kernel_run {acts : List Action} (core : Core)
    (h : exec step (fun s a _ => decide (a ≠ .pendSv ∧ (a = .handler → ¬ s.Switching))) s acts =
      some s₁) : ∃ tr', Run (BoardStep L) ⟨s, core⟩ tr' ⟨s₁, core⟩ ∧ cores tr' = [] := by
  have run := exec_run h
  clear h
  generalize visited step s acts = tr at run
  induction run with
  | nil => exact ⟨[], .nil, rfl⟩
  | @snoc tr t u a _ hstep ih =>
    obtain ⟨tr', run', none⟩ := ih
    obtain ⟨other, quiet⟩ := of_decide_eq_true hstep.2
    exact ⟨_, run'.snoc (.kernel hstep.1 other quiet), by rw [cores_snoc, none]; rfl⟩

theorem switch_run {tr : List (Board × BoardMove)} {core : Core} {m : Move} {d : Cpu}
    (placed : L.Placed) (starts : L.Starts c)
    (run : Run (BoardStep L) ⟨s₀, ⟨c, .thread⟩⟩ tr ⟨s, core⟩) (entry : m = .enter ∨ m = .chain)
    (hcore : CoreStep L core m ⟨d, .pendSv⟩) (hpend : step s .pendSv = some s₁)
    (switching : s₁.Switching) (hswitch : step s₁ .handler = some s₂)
    (created : s₂.k.currentTask < L.tasks.length) :
    ∃ tr' d', Run (BoardStep L) ⟨s₀, ⟨c, .thread⟩⟩ tr' ⟨s₂, ⟨d', .leaving⟩⟩ ∧
      (history (cores tr')).selected = (history (cores tr)).selected ++ [s₂.k.currentTask] ∧
      (history (cores tr')).entered = (history (cores tr)).entered := by
  have entered := run.snoc (.pendSv hpend hcore entry)
  have inv := CoreInv.run placed starts (run_cores entered)
  have switches := inv.switches placed created
  refine ⟨_, _, entered.snoc (.switch switching hswitch switches), ?_⟩
  rw [cores_snoc, history_snoc, cores_snoc, history_snoc]
  rcases entry with rfl | rfl <;> exact ⟨rfl, rfl⟩

theorem boot_switch_run (placed : L.Placed) (starts : L.Starts c)
    (hpend : step s₀ .pendSv = some s₁) (switching : s₁.Switching)
    (hswitch : step s₁ .handler = some s₂) (created : s₂.k.currentTask < L.tasks.length) :
    ∃ tr d, Run (BoardStep L) ⟨s₀, ⟨c, .thread⟩⟩ tr ⟨s₂, ⟨d, .leaving⟩⟩ ∧
      (history (cores tr)).selected = [s₂.k.currentTask] ∧ (history (cores tr)).entered = [] := by
  obtain ⟨-, -, -, byte, -⟩ := starts.spec placed
  have nothing : Run (BoardStep L) ⟨s₀, ⟨c, .thread⟩⟩ [] ⟨s₀, ⟨c, .thread⟩⟩ := .nil
  exact switch_run placed starts nothing (.inl rfl) (.enter fun started => absurd byte started)
    hpend switching hswitch created

theorem return_run {tr : List (Board × BoardMove)} {d : Cpu} (placed : L.Placed)
    (starts : L.Starts c) (run : Run (BoardStep L) ⟨s₀, ⟨c, .thread⟩⟩ tr ⟨s, ⟨d, .leaving⟩⟩) :
    ∃ d', BoardStep L ⟨s, ⟨d, .leaving⟩⟩ (.core .leave) ⟨s, ⟨d', .thread⟩⟩ ∧
      (history (cores (tr ++ [(⟨s, ⟨d, .leaving⟩⟩, .core .leave)]))).entered =
        (history (cores tr)).entered ++ (history (cores tr)).current.toList := by
  obtain ⟨d', leaves⟩ := (CoreInv.run placed starts (run_cores run)).leaves
  refine ⟨d', .core leaves (.inr (.inr rfl)), ?_⟩
  rw [cores_snoc, history_snoc]; rfl

end execution

/-- In every run the first PendSV stores neither in a task stack nor in the `sp` of a TCB, and
it selects the earliest task of the highest priority. When a task is selected for the first
time, the unstacking enters it at its function with an empty stack, and apart from the pointers
to it only words of its stack are read. (The reads are those of data memory; the literal pools of
the handler are code memory.) So is every task entered that has not run before; the first one is
the earliest of the highest priority, unless PendSV was pending again when the first handler
returned. -/
theorem first_runs {L : Layout} {cfg : Config} {s₀ : System} {c : Cpu} {b : Board}
    {tr : List (Board × BoardMove)} (placed : L.Placed) (tasks : L.tasks = cfg.tasks)
    (hboot : boot cfg = some s₀) (starts : L.Starts c)
    (run : Run (BoardStep L) ⟨s₀, ⟨c, .thread⟩⟩ tr b) :
    let h := history (cores tr)
    (h.selected = [] → ∀ m b', BoardStep L b (.core m) b' → m = .enter ∨ (∃ x, m = .switch x) →
      ∃ ws, b'.core.cpu.writes = b.core.cpu.writes ++ ws ∧ ∀ a ∈ ws, L.Apart a) ∧
    (∀ x b', x ∉ h.selected → BoardStep L b (.core (.switch x)) b' → ∃ d t ws,
      Schedules L x ((pendSvHalf L b.core.cpu).run pendSvCall) d ∧
      b'.core.cpu = d.run (pendSvRestore L) ∧ b'.core.cpu.exceptionReturn = some t ∧
      Entered L x t ∧ t.reads = d.reads ++ [d.msp, L.currentTask, L.tcb x] ++ ws ∧
      ∀ a ∈ ws, L.InStack x a) ∧
    (∀ x b', h.current = some x → x ∉ h.entered → BoardStep L b (.core .leave) b' →
      Entered L x b'.core.cpu) ∧
    (∀ x, h.selected.head? = some x → Earliest cfg x) ∧
    ∀ x b', h.selected = [x] → h.entered = [] → BoardStep L b (.core .leave) b' →
      Entered L x b'.core.cpu ∧ Earliest cfg x := by
  intro h
  have inv : CoreInv L h b.core.cpu b.core.mode := .run placed starts (run_cores run)
  have fs := FirstSelected.run tasks hboot run
  have leave : ∀ x b', h.current = some x → x ∉ h.entered → BoardStep L b (.core .leave) b' →
      Entered L x b'.core.cpu := by
    intro x b' cur out hstep
    exact (inv.enters placed hstep.coreStep cur out)
  refine ⟨fun none m b' hstep move => ?_, fun x b' out hstep => ?_, leave, fs.first, ?_⟩
  · exact inv.first_writes placed none hstep.coreStep move
  · exact inv.first_reads placed (fun mem => out (history_entered _ x mem)) hstep.coreStep
  · intro x b' sel none hstep
    have cur : h.current = some x := by
      rw [History.current, sel]; rfl
    exact ⟨leave x b' cur (by rw [none]; simp) hstep, fs.first x (by rw [sel]; rfl)⟩

/-- The consumer of `main.c` is entered first. When it waits, the led task is selected for the first
time, and entered as well. -/
theorem first_runs_main : ∃ (b b' : Board) (tr : List (Board × BoardMove)) (s₀ : System) (c : Cpu),
    boot mainConfig = some s₀ ∧ mainLayout.Starts c ∧
    Run (BoardStep mainLayout) ⟨s₀, ⟨c, .thread⟩⟩ tr b ∧ BoardStep mainLayout b (.core .leave) b' ∧
    (history (cores tr)).selected = [2, 0] ∧ (history (cores tr)).entered = [2] ∧
    Earliest mainConfig 2 ∧ Entered mainLayout 0 b'.core.cpu := by
  have trace : (boot mainConfig).any (fun s₀ => (step s₀ .pendSv).any fun s₁ =>
      decide s₁.Switching && (step s₁ .handler).any fun s₂ => decide (s₂.k.currentTask = 2) &&
      (exec step (fun s a _ => decide (a ≠ .pendSv ∧ (a = .handler → ¬ s.Switching))) s₂
        [.call (.wait 0), .task]).any fun s₃ => (step s₃ .pendSv).any fun s₄ =>
      decide s₄.Switching && (step s₄ .handler).any fun s₅ => s₅.k.currentTask = 0) = true := by
    decide
  simp only [Option.any_eq_true, Bool.and_eq_true, decide_eq_true_eq] at trace
  obtain ⟨s₀, hboot, s₁, hpend, switching, s₂, hswitch, consumer, s₃, waits, s₄, hpend', switching', s₅,
    hswitch', led⟩ := trace
  have placed := mainLayout_placed
  have starts := resetCpu_starts mainLayout
  obtain ⟨tr, d, run, selected, entered⟩ :=
    boot_switch_run placed starts hpend switching hswitch (by rw [consumer]; decide)
  rw [consumer] at selected
  obtain ⟨d', leaves, entered'⟩ := return_run placed starts run
  obtain ⟨-, -, -, -, first⟩ := first_runs placed rfl hboot starts run
  obtain ⟨started, earliest⟩ := first 2 _ selected entered leaves
  have run₁ := run.snoc leaves
  rw [entered, History.current, selected] at entered'
  obtain ⟨calls, run₂, quiet⟩ := kernel_run (L := mainLayout) ⟨d', .thread⟩ waits
  have run₃ := run₁.append run₂
  have same := cores_append (tr ++ [(⟨s₂, ⟨d, .leaving⟩⟩, .core .leave)]) calls
  rw [quiet, List.append_nil] at same
  have selected₁ : (history (cores (tr ++ [(⟨s₂, ⟨d, .leaving⟩⟩, .core .leave)]))).selected = [2] := by
    rw [cores_snoc, history_snoc]
    exact selected
  -- the consumer has nothing on its stack
  have room := (CoreInv.run placed starts (run_cores run₁)).room placed fun x cur => by
    rw [History.current, selected₁] at cur
    cases cur
    exact .of_le started.psp le_rfl (by decide)
  obtain ⟨tr', d'', run₄, selected₄, entered₄⟩ := switch_run placed starts run₃ (.inl rfl) (.enter room)
    hpend' switching' hswitch' (by rw [led]; decide)
  rw [same, selected₁, led] at selected₄
  rw [same, entered'] at entered₄
  obtain ⟨d₅, leaves', -⟩ := return_run placed starts run₄
  obtain ⟨-, -, enters, -⟩ := first_runs placed rfl hboot starts run₄
  refine ⟨_, _, tr', s₀, _, hboot, starts, run₄, leaves', selected₄, entered₄, earliest, ?_⟩
  exact enters 0 _ (by rw [History.current, selected₄]; rfl) (by rw [entered₄]; decide) leaves'

/-- The led and the counter task of `main.c` alone: two tasks of one level. -/
def pairLayout : Layout := { mainLayout with tasks := mainTasks.take 2 }

def pairConfig : Config := { ticks := 0, inits := [], tasks := mainTasks.take 2 }

/-- A SysTick during the first PendSV lets the counter task run first, although the led task has
been selected before it. -/
theorem tail_chained_counter : ¬ ∀ (L : Layout) (cfg : Config) (s₀ : System) (c : Cpu) (b : Board)
    (tr : List (Board × BoardMove)), L.Placed → L.tasks = cfg.tasks → boot cfg = some s₀ →
    L.Starts c → Run (BoardStep L) ⟨s₀, ⟨c, .thread⟩⟩ tr b →
    ∀ x, (history (cores tr)).entered.head? = some x → Earliest cfg x := by
  intro claim
  have trace : (boot pairConfig).any (fun s₀ => (step s₀ .pendSv).any fun s₁ =>
      decide s₁.Switching && (step s₁ .handler).any fun s₂ => decide (s₂.k.currentTask = 0) &&
      (exec step (fun s a _ => decide (a ≠ .pendSv ∧ (a = .handler → ¬ s.Switching))) s₂
        (.sysTick :: List.replicate 7 .handler)).any fun s₃ => (step s₃ .pendSv).any fun s₄ =>
      decide s₄.Switching && (step s₄ .handler).any fun s₅ => s₅.k.currentTask = 1) = true := by
    decide
  simp only [Option.any_eq_true, Bool.and_eq_true, decide_eq_true_eq] at trace
  obtain ⟨s₀, hboot, s₁, hpend, switching, s₂, hswitch, led, s₃, tick, s₄, again, switching', s₅,
    hswitch', counter⟩ := trace
  have placed : pairLayout.Placed := Layout.Linked.placed (by decide)
  have starts := resetCpu_starts pairLayout
  obtain ⟨tr, d, run, -, idle⟩ :=
    boot_switch_run placed starts hpend switching hswitch (by rw [led]; decide)
  obtain ⟨ticks, run', quiet⟩ := kernel_run (L := pairLayout) ⟨d, .leaving⟩ tick
  obtain ⟨tr', d', run'', selected, idle'⟩ := switch_run placed starts (run.append run')
    (.inr rfl) .chain again switching' hswitch' (by rw [counter]; decide)
  obtain ⟨d'', leaves, entered⟩ := return_run placed starts run''
  have idle'' := idle'.trans (by rw [cores_append, quiet, List.append_nil, idle])
  rw [idle'', History.current, selected, counter, List.getLast?_concat] at entered
  obtain ⟨_, earliest⟩ := claim pairLayout pairConfig s₀ _ _ _ placed rfl hboot starts
    (run''.snoc leaves) 1 (by rw [entered]; rfl)
  have lower : (1 : BitVec 8) < 1 := (earliest 0 (by decide)).2 (by decide)
  exact absurd lower (by decide)

end Rtos
