import Rtos.Lib.Run
import Rtos.Machine.Create

/-! Runs of the core: the tasks, the interrupts and `PendSV_Handler` in any order, with any task
selected. The history of a run says which task runs and with which context a task was
switched out; the invariant ties it to the words in memory. -/
namespace Rtos
open Lib

inductive Mode where
  | thread
  /-- the hardware frame is stacked, and `PendSV_Handler` is about to start -/
  | pendSv
  /-- before the `BX LR` of `PendSV_Handler` -/
  | leaving
  deriving DecidableEq, Repr

structure Core where
  cpu : Cpu
  mode : Mode

inductive Move where
  /-- the running task executes, and so do interrupts that return to it -/
  | thread
  /-- an interrupt handler executes and returns, or ends in the exception that is entered next -/
  | interrupt
  | enter
  | switch (x : TaskId)
  /-- PendSV is pending again at the `BX LR`, and the hardware skips the unstacking -/
  | chain
  | leave
  deriving DecidableEq, Repr

/-- What only the context switch writes is as before, and so are the stacks of the others. -/
structure Spares (L : Layout) (own : TaskId → Prop) (m m' : Memory) : Prop where
  stack : ∀ t a, ¬ own t → L.InStack t a → m' a = m a
  pool : ∀ t < L.tasks.length, m' (L.tcb t) = m (L.tcb t)
  current : m' L.currentTask = m L.currentTask
  started : m'.readByte L.rtosStarted = m.readByte L.rtosStarted

/-- Handlers save the callee-saved registers, and return as they were entered. -/
structure Returns (c c' : Cpu) : Prop where
  callee : ∀ r ∈ calleeRegs, c'.reg r = c.reg r
  lr : c'.reg .lr = c.reg .lr
  psp : c'.psp = c.psp
  msp : c'.msp = c.msp
  spsel : c'.spsel = c.spsel

inductive CoreStep (L : Layout) : Core → Move → Core → Prop where
  | thread {c c' : Cpu} {x : TaskId} (started : c.mem.readByte L.rtosStarted ≠ 0)
      (created : x < L.tasks.length) (current : c.mem L.currentTask = L.tcb x)
      (spares : Spares L (· = x) c.mem c'.mem) (msp : c'.msp = c.msp) (spsel : c'.spsel = c.spsel) :
      CoreStep L ⟨c, .thread⟩ .thread ⟨c', .thread⟩
  | interrupt {c c' : Cpu} {mode : Mode} (spares : Spares L (fun _ => False) c.mem c'.mem)
      (returns : Returns c c') : CoreStep L ⟨c, mode⟩ .interrupt ⟨c', mode⟩
  | enter {c : Cpu} (room : c.mem.readByte L.rtosStarted ≠ 0 →
      ∀ x < L.tasks.length, c.mem L.currentTask = L.tcb x → L.Room x c.psp) :
      CoreStep L ⟨c, .thread⟩ .enter ⟨c.exceptionEntry, .pendSv⟩
  | switch {c c' : Cpu} {x : TaskId} (handler : PendSv L x c c') :
      CoreStep L ⟨c, .pendSv⟩ (.switch x) ⟨c', .leaving⟩
  | chain {c : Cpu} : CoreStep L ⟨c, .leaving⟩ .chain ⟨c, .pendSv⟩
  | leave {c c' : Cpu} (returns : c.exceptionReturn = some c') :
      CoreStep L ⟨c, .leaving⟩ .leave ⟨c', .thread⟩

/-- The tasks that `os_schedule` selected and those that have run, in this order, and the context
with which each task was last switched out. -/
structure History where
  selected : List TaskId
  entered : List TaskId
  saved : TaskId → Option Context

namespace History

def start : History := ⟨[], [], fun _ => none⟩

def current (h : History) : Option TaskId := h.selected.getLast?

@[simp] theorem current_start : start.current = none := rfl

def next (h : History) (p : Core × Move) : History :=
  match p.2 with
  | .switch x =>
    { h with
      selected := h.selected ++ [x]
      saved := match h.current with
        | some t => Function.update h.saved t (some (Rtos.context p.1.cpu))
        | none => h.saved }
  | .leave => { h with entered := h.entered ++ h.current.toList }
  | _ => h

/-- What the task will find when it is resumed. -/
def context (L : Layout) (h : History) (t : TaskId) : Context := (h.saved t).getD (L.created t)

end History

def history (tr : List (Core × Move)) : History := tr.foldl History.next .start

theorem history_snoc (tr : List (Core × Move)) (p : Core × Move) :
    history (tr ++ [p]) = (history tr).next p :=
  List.foldl_concat ..

/-- The invariant, of the registers, the memory and the mode after the history `h`. -/
structure CoreInv (L : Layout) (h : History) (c : Cpu) (mode : Mode) : Prop where
  spsel : c.spsel = true
  msp : c.msp = L.msp
  lr : mode ≠ .thread → c.reg .lr = excReturnPsp
  boot : h.current = none → c.mem.readByte L.rtosStarted = 0 ∧ mode ≠ .leaving ∧
    (mode = .thread → c.psp = wordAddr L.dummyStack 8)
  running : ∀ x, h.current = some x → c.mem.readByte L.rtosStarted ≠ 0 ∧ x < L.tasks.length ∧
    c.mem L.currentTask = L.tcb x ∧ (mode ≠ .thread → L.FrameAt x c.psp)
  suspended : ∀ t < L.tasks.length, h.current ≠ some t → Suspended L c.mem t (h.context L t)
  leaving : ∀ x, h.current = some x → mode = .leaving → context c = h.context L x
  fresh : ∀ t, t ∉ h.entered → h.context L t = L.created t
  starting : ∀ x, h.current = some x → x ∉ h.entered → mode ≠ .thread ∧ context c = L.created x

namespace CoreInv
variable {L : Layout} {h : History} {c c' : Cpu} {mode : Mode}

/-- Once a task runs, it is the one that `current_task` points to. -/
theorem own {x : TaskId} (inv : CoreInv L h c mode) (placed : L.Placed)
    (started : c.mem.readByte L.rtosStarted ≠ 0) (created : x < L.tasks.length)
    (current : c.mem L.currentTask = L.tcb x) : h.current = some x := by
  cases cur : h.current with
  | none => exact absurd (inv.boot cur).1 started
  | some y =>
    obtain ⟨-, hy, current', -⟩ := inv.running y cur
    rw [Layout.tcb_inj placed hy created (current'.symm.trans current)]

theorem thread {x : TaskId} (inv : CoreInv L h c .thread) (placed : L.Placed)
    (started : c.mem.readByte L.rtosStarted ≠ 0) (created : x < L.tasks.length)
    (current : c.mem L.currentTask = L.tcb x) (spares : Spares L (· = x) c.mem c'.mem)
    (msp : c'.msp = c.msp) (spsel : c'.spsel = c.spsel) : CoreInv L h c' .thread := by
  have own := inv.own placed started created current
  constructor
  · exact spsel.trans inv.spsel
  · exact msp.trans inv.msp
  · intro not; exact absurd rfl not
  · intro none; rw [own] at none; cases none
  · intro y hy
    obtain ⟨byte, lt, cur, -⟩ := inv.running y hy
    exact ⟨by rw [spares.started]; exact byte, lt, spares.current.trans cur, fun not => absurd rfl not⟩
  · intro t ht other
    have ne : t ≠ x := fun eq => other (own.trans (congrArg some eq.symm))
    exact (inv.suspended t ht other).keep (fun a mem => spares.stack t a ne mem) (spares.pool t ht)
  · simp
  · exact inv.fresh
  · intro y hy out
    exact absurd rfl (inv.starting y hy out).1

theorem interrupt (inv : CoreInv L h c mode) (spares : Spares L (fun _ => False) c.mem c'.mem)
    (returns : Returns c c') : CoreInv L h c' mode := by
  have same : ∀ x, h.current = some x → mode ≠ .thread → context c' = context c := by
    intro x cur handler
    have frame := (inv.running x cur).2.2.2 handler
    rw [context, context, returns.psp, List.map_congr_left returns.callee,
      Memory.readWords_congr fun i hi => spares.stack x _ id (frame.inStack hi)]
  constructor
  · exact returns.spsel.trans inv.spsel
  · exact returns.msp.trans inv.msp
  · intro handler; exact returns.lr.trans (inv.lr handler)
  · intro none
    obtain ⟨byte, not, psp⟩ := inv.boot none
    exact ⟨spares.started.trans byte, not, fun thread => returns.psp.trans (psp thread)⟩
  · intro x cur
    obtain ⟨byte, lt, current, frame⟩ := inv.running x cur
    refine ⟨by rw [spares.started]; exact byte, lt, spares.current.trans current, fun handler => ?_⟩
    rw [returns.psp]; exact frame handler
  · intro t ht other
    exact (inv.suspended t ht other).keep (fun a mem => spares.stack t a id mem) (spares.pool t ht)
  · intro x cur leaving
    rw [same x cur (by rw [leaving]; simp)]; exact inv.leaving x cur leaving
  · exact inv.fresh
  · intro x cur out
    obtain ⟨handler, created⟩ := inv.starting x cur out
    exact ⟨handler, (same x cur handler).trans created⟩

theorem entry_spares (inv : CoreInv L h c .thread) (placed : L.Placed)
    (room : ∀ x, h.current = some x → L.FrameAt x (frameAddr c.psp)) :
    Spares L (h.current = some ·) c.mem c.exceptionEntry.mem := by
  have keep : ∀ a, (∀ i < 8, a ≠ wordAddr (frameAddr c.psp) i) →
      c.exceptionEntry.mem a = c.mem a := by
    intro a out
    rw [Cpu.exceptionEntry_psp inv.spsel]
    refine Memory.writeWords_other fun mem => ?_
    obtain ⟨i, hi, eq⟩ := mem_wordAddrs.mp mem
    exact out i hi eq
  have frame : ∀ i < 8, L.Scratch (wordAddr (frameAddr c.psp) i) ∨
      ∃ x, h.current = some x ∧ L.InStack x (wordAddr (frameAddr c.psp) i) := by
    intro i hi
    cases cur : h.current with
    | none =>
      rw [(inv.boot cur).2.2 rfl, frameAddr_top placed.dummy]
      exact .inl (.inl (mem_wordAddrs.mpr ⟨i, hi, rfl⟩))
    | some x => exact .inr ⟨x, rfl, (room x cur).inStack hi⟩
  have reserved : ∀ a, L.Reserved a → c.exceptionEntry.mem a = c.mem a := by
    intro a res
    refine keep a fun i hi eq => ?_
    rcases frame i hi with scratch | ⟨x, -, inStack⟩
    · exact (placed.scratch _ scratch).1 (eq ▸ res)
    · exact placed.reserved a res x (eq ▸ inStack)
  refine ⟨fun t a other mem => keep a fun i hi eq => ?_, fun t ht => reserved _ (Layout.reserved_tcb ht),
    reserved _ Layout.reserved_current, Memory.readByte_congr (reserved _ Layout.reserved_started)⟩
  rcases frame i hi with scratch | ⟨x, cur, inStack⟩
  · exact (placed.scratch _ scratch).2 t (eq ▸ mem)
  · exact other (cur.trans (congrArg some (placed.disjoint _ _ _ (eq ▸ inStack) mem)))

theorem enter (inv : CoreInv L h c .thread) (placed : L.Placed)
    (room : c.mem.readByte L.rtosStarted ≠ 0 →
      ∀ x < L.tasks.length, c.mem L.currentTask = L.tcb x → L.Room x c.psp) :
    CoreInv L h c.exceptionEntry .pendSv := by
  have frame : ∀ x, h.current = some x → L.FrameAt x (frameAddr c.psp) := by
    intro x cur
    obtain ⟨byte, lt, current, -⟩ := inv.running x cur
    exact (room byte x lt current).frameAt
  have spares := inv.entry_spares placed frame
  have entry := Cpu.exceptionEntry_psp inv.spsel
  constructor
  · rw [entry]; exact inv.spsel
  · rw [entry]; exact inv.msp
  · intro _; rw [entry]; rfl
  · intro none
    exact ⟨spares.started.trans (inv.boot none).1, by simp, by simp⟩
  · intro x cur
    obtain ⟨byte, lt, current, -⟩ := inv.running x cur
    refine ⟨by rw [spares.started]; exact byte, lt, spares.current.trans current, fun _ => ?_⟩
    rw [entry]; exact frame x cur
  · intro t ht other
    exact (inv.suspended t ht other).keep (fun a mem => spares.stack t a other mem) (spares.pool t ht)
  · simp
  · exact inv.fresh
  · intro x cur out
    exact absurd rfl (inv.starting x cur out).1

theorem chain (inv : CoreInv L h c .leaving) : CoreInv L h c .pendSv := by
  refine { inv with lr := fun _ => inv.lr (by simp), boot := ?_, running := ?_, leaving := by simp, starting := ?_ }
  · intro none; exact absurd rfl (inv.boot none).2.1
  · intro x cur
    obtain ⟨byte, lt, current, frame⟩ := inv.running x cur
    exact ⟨byte, lt, current, fun _ => frame (by simp)⟩
  · intro x cur out
    exact ⟨by simp, (inv.starting x cur out).2⟩

theorem leave (inv : CoreInv L h c .leaving) (returns : c.exceptionReturn = some c') :
    CoreInv L { h with entered := h.entered ++ h.current.toList } c' .thread := by
  rw [Cpu.exceptionReturn_psp (inv.lr (by simp))] at returns
  cases Option.some.inj returns
  constructor
  · rfl
  · exact inv.msp
  · intro not; exact absurd rfl not
  · intro none; exact absurd rfl (inv.boot none).2.1
  · intro x cur
    obtain ⟨byte, lt, current, -⟩ := inv.running x cur
    exact ⟨byte, lt, current, fun not => absurd rfl not⟩
  · exact inv.suspended
  · simp
  · intro t out
    exact inv.fresh t fun mem => out (List.mem_append_left _ mem)
  · intro x cur out
    refine absurd (List.mem_append_right _ ?_) out
    rw [show h.current = some x from cur]; exact List.mem_cons_self

/-- After `os_schedule` every task is suspended, the selected one included. -/
theorem suspends {x : TaskId} {s : Core} (inv : CoreInv L h s.cpu .pendSv) (placed : L.Placed)
    (handler : PendSv L x s.cpu c') : c'.mem.readByte L.rtosStarted ≠ 0 ∧
    (∀ t < L.tasks.length, Suspended L c'.mem t ((h.next (s, .switch x)).context L t)) ∧
    ∀ t, t ∉ h.entered → (h.next (s, .switch x)).context L t = L.created t := by
  cases cur : h.current with
  | none =>
    -- the first switch saves nothing, so every task still has its first frame
    obtain ⟨stack, pool, started⟩ := handler.first placed inv.msp (inv.boot cur).1
    have same : ∀ t, (h.next (s, .switch x)).context L t = h.context L t := by
      simp [History.context, History.next, cur]
    refine ⟨started, fun t ht => ?_, fun t out => ?_⟩
    · rw [same]
      exact (inv.suspended t ht (by rw [cur]; simp)).keep (stack t) (pool t ht)
    · rw [same]; exact inv.fresh t out
  | some u =>
    obtain ⟨byte, lt, current, frame⟩ := inv.running u cur
    obtain ⟨saved, stack, pool, started⟩ :=
      handler.save placed inv.msp byte lt current (frame (by simp))
    have new : (h.next (s, .switch x)).context L u = context s.cpu := by
      simp [History.context, History.next, cur]
    have old : ∀ t, t ≠ u → (h.next (s, .switch x)).context L t = h.context L t := by
      intro t other
      simp [History.context, History.next, cur, other]
    refine ⟨started, fun t ht => ?_, fun t out => ?_⟩
    · by_cases eq : t = u
      · rw [eq, new]; exact saved
      · rw [old t eq]
        refine (inv.suspended t ht ?_).keep (fun a mem => stack t a eq mem) (pool t ht eq)
        rw [cur]
        exact fun same => eq (Option.some.inj same).symm
    · by_cases eq : t = u
      · rw [eq, new]
        exact (inv.starting u cur (eq ▸ out)).2
      · rw [old t eq]; exact inv.fresh t out

theorem switch {x : TaskId} {s : Core} (inv : CoreInv L h s.cpu .pendSv) (placed : L.Placed)
    (handler : PendSv L x s.cpu c') : CoreInv L (h.next (s, .switch x)) c' .leaving := by
  have now : (h.next (s, .switch x)).current = some x := by
    simp [History.current, History.next]
  obtain ⟨started, suspended, fresh⟩ := inv.suspends placed handler
  obtain ⟨lt, current, -, -, lr, msp, spsel⟩ := handler.loads inv.msp
  have resumed := handler.resumes placed inv.msp (suspended x lt)
  constructor
  · exact spsel.trans inv.spsel
  · exact msp
  · intro _; exact lr.trans (inv.lr (by simp))
  · intro none; rw [now] at none; cases none
  · intro y cur
    obtain rfl := Option.some.inj (now.symm.trans cur)
    have frame := (suspended x lt).frame_at
    rw [← congrArg Context.psp resumed] at frame
    exact ⟨started, lt, current, fun _ => frame⟩
  · intro t ht _; exact suspended t ht
  · intro y cur _
    obtain rfl := Option.some.inj (now.symm.trans cur)
    exact resumed
  · exact fresh
  · intro y cur out
    obtain rfl := Option.some.inj (now.symm.trans cur)
    exact ⟨by simp, resumed.trans (fresh x out)⟩

theorem step {s s' : Core} {a : Move} (inv : CoreInv L h s.cpu s.mode) (placed : L.Placed)
    (hstep : CoreStep L s a s') : CoreInv L (h.next (s, a)) s'.cpu s'.mode := by
  cases hstep with
  | thread started created current spares msp spsel =>
    exact inv.thread placed started created current spares msp spsel
  | interrupt spares returns => exact inv.interrupt spares returns
  | enter room => exact inv.enter placed room
  | switch handler => exact inv.switch (s := ⟨_, .pendSv⟩) placed handler
  | chain => exact inv.chain
  | leave returns => exact inv.leave returns

theorem start (placed : L.Placed) (starts : L.Starts c) : CoreInv L .start c .thread := by
  obtain ⟨psp, spsel, msp, byte, suspended⟩ := starts.spec placed
  refine ⟨spsel, msp, fun not => absurd rfl not, fun _ => ⟨byte, by simp, fun _ => psp⟩, by simp,
    fun t ht _ => suspended t ht, by simp, fun _ _ => rfl, by simp⟩

theorem run {tr : List (Core × Move)} {s : Core} (placed : L.Placed) (starts : L.Starts c)
    (run : Run (CoreStep L) ⟨c, .thread⟩ tr s) : CoreInv L (history tr) s.cpu s.mode := by
  induction run with
  | nil => exact .start placed starts
  | snoc _ hstep ih =>
    rw [history_snoc]
    exact ih.step placed hstep

end CoreInv

end Rtos
