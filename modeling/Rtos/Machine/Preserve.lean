import Rtos.Machine.AnySchedule
import Rtos.Machine.Linked

/-! Every task is resumed with the context with which it was switched out, and saving it
touches nothing else. -/
namespace Rtos
open Lib

/-- The registers that the exception return takes from the hardware frame. -/
def frameRegs (c : Cpu) : List Word :=
  [c.reg .r0, c.reg .r1, c.reg .r2, c.reg .r3, c.reg .r12, c.reg .lr, c.pc, c.xpsr]

/-- Thread mode goes on from `ctx`. -/
structure GoesOn (ctx : Context) (c : Cpu) : Prop where
  callee : calleeRegs.map c.reg = ctx.callee
  frame : frameRegs c = ctx.frame
  psp : c.psp = unstackedSp ctx.psp c.xpsr

theorem unstackFrame_regs (c : Cpu) (f : Word) :
    frameRegs (c.unstackFrame f) = c.mem.readWords f 8 ∧
    calleeRegs.map (c.unstackFrame f).reg = calleeRegs.map c.reg := by
  have last : wordAddr f 6 + 4#32 = wordAddr f 7 := wordAddr_wordAddr f 6 1
  rw [Memory.readWords_append 6 2]
  simp [frameRegs, calleeRegs, Cpu.unstackFrame, loadRegs, Memory.readWords, last]

theorem exceptionReturn_goesOn {c c' : Cpu} (lr : c.reg .lr = excReturnPsp)
    (returns : c.exceptionReturn = some c') : GoesOn (context c) c' := by
  rw [Cpu.exceptionReturn_psp lr] at returns
  cases Option.some.inj returns
  obtain ⟨frame, callee⟩ := unstackFrame_regs c c.psp
  exact ⟨callee, frame, rfl⟩

theorem leave_goesOn {L : Layout} {h : History} {c c' : Cpu} {x : TaskId}
    (inv : CoreInv L h c .leaving) (cur : h.current = some x)
    (returns : c.exceptionReturn = some c') : GoesOn (h.context L x) c' := by
  rw [← inv.leaving x cur rfl]
  exact exceptionReturn_goesOn (inv.lr (by simp)) returns

/-- In every run, a task that was switched out before has its context again when the handler is
about to return to it and when it goes on, and `pendsv_save` writes the eight words below the
hardware frame and the `sp` of the task that it saves, and nothing else. -/
theorem context_preserved {L : Layout} {c : Cpu} {tr : List (Core × Move)} {s : Core}
    (placed : L.Placed) (starts : L.Starts c) (run : Run (CoreStep L) ⟨c, .thread⟩ tr s) :
    (∀ x ctx, (history tr).current = some x → (history tr).saved x = some ctx →
      s.mode = .leaving → context s.cpu = ctx ∧
      ∀ s', CoreStep L s .leave s' → GoesOn ctx s'.cpu) ∧
    ∀ t x s', (history tr).current = some t → CoreStep L s (.switch x) s' →
      (pendSvHalf L s.cpu).writes =
        s.cpu.writes ++ wordAddrs (s.cpu.psp - 32) 8 ++ [L.tcb t] ∧
      ∀ a, a ∉ wordAddrs (s.cpu.psp - 32) 8 → a ≠ L.tcb t →
        (pendSvHalf L s.cpu).mem a = s.cpu.mem a := by
  have inv := CoreInv.run placed starts run
  refine ⟨fun x ctx cur saved leaving => ?_, fun t x s' cur hstep => ?_⟩
  · have same : (history tr).context L x = ctx := by
      rw [History.context, saved]; rfl
    refine ⟨(inv.leaving x cur leaving).trans same, fun s' hstep => ?_⟩
    cases hstep with
    | leave returns => exact same ▸ leave_goesOn inv cur returns
  · obtain ⟨byte, lt, current, frame⟩ := inv.running t cur
    cases hstep with
    | switch handler =>
      obtain ⟨mem, writes⟩ := pendSvHalf_save_stores L _ byte
      have pointer : savedRegs _ L.currentTask = L.tcb t :=
        (savedRegs_other placed (frame (by simp)) (.inl Layout.reserved_current)).trans current
      rw [pointer] at mem writes
      refine ⟨writes, fun a out ne => ?_⟩
      rw [mem, Function.update_of_ne ne]
      exact Memory.writeWords_other out

theorem GoesOn.top {L : Layout} {t : TaskId} {c : Cpu} (h : GoesOn (L.created t) c)
    (placed : L.Placed) (ht : t < L.tasks.length) : c.psp = L.stackAddr t (L.stackWords t) := by
  have frame := h.frame
  simp only [Layout.created, frameRegs, List.cons.injEq] at frame
  have xpsr : c.xpsr = 0x01000000#32 := by simp [frame]
  rw [h.psp, xpsr, Layout.created_top placed ht]

/-- The running task loads R4 and pushes it. -/
def pushR4 (c : Cpu) (v : Word) : Cpu :=
  { (c.setReg .r4 v).store [.r4] (c.psp - 4) with psp := c.psp - 4 }

theorem pushR4_step {L : Layout} {h : History} {c : Cpu} {x : TaskId} (inv : CoreInv L h c .thread)
    (placed : L.Placed) (cur : h.current = some x) (own : L.InStack x (c.psp - 4)) (v : Word) :
    CoreStep L ⟨c, .thread⟩ .thread ⟨pushR4 c v, .thread⟩ := by
  obtain ⟨byte, created, current, -⟩ := inv.running x cur
  have other : ∀ a, ¬ L.InStack x a → (pushR4 c v).mem a = c.mem a := by
    intro a out
    refine Memory.writeWords_other fun mem => out ?_
    obtain ⟨i, hi, rfl⟩ := mem_wordAddrs.mp mem
    obtain rfl : i = 0 := Nat.lt_one_iff.mp hi
    simpa [wordAddr] using own
  have reserved : ∀ a, L.Reserved a → (pushR4 c v).mem a = c.mem a :=
    fun a res => other a (placed.reserved a res x)
  refine .thread byte created current ⟨fun t a ne mem => other a fun inStack => ?_,
    fun t ht => reserved _ (Layout.reserved_tcb ht), reserved _ Layout.reserved_current,
    Memory.readByte_congr (reserved _ Layout.reserved_started)⟩ rfl rfl
  exact ne (placed.disjoint _ _ _ mem inStack)

/-- It does so, and is switched out for task `y`. -/
theorem pushed_switch {L : Layout} {h : History} {c : Cpu} {x y : TaskId} {i : Nat}
    (inv : CoreInv L h c .thread) (placed : L.Placed) (cur : h.current = some x)
    (top : c.psp = L.stackAddr x i) (high : i ≤ L.stackWords x) (low : 18 ≤ i)
    (hy : y < L.tasks.length) (v : Word) : ∃ tr c' ctx,
      Run (CoreStep L) ⟨c, .thread⟩ tr ⟨c', .leaving⟩ ∧
      CoreInv L (tr.foldl History.next h) c' .leaving ∧
      (tr.foldl History.next h).selected = h.selected ++ [y] ∧
      (tr.foldl History.next h).entered = h.entered ∧
      (tr.foldl History.next h).saved = Function.update h.saved x (some ctx) ∧
      ctx.callee.head? = some v := by
  have pushed : c.psp - 4 = L.stackAddr x (i - 1) := by
    rw [top]
    exact wordAddr_sub _ _ 1 (by omega)
  have push := pushR4_step inv placed cur ⟨i - 1, by omega, pushed⟩ v
  have inv₁ : CoreInv L h (pushR4 c v) .thread := inv.step placed push
  have room := inv₁.room placed fun z other => by
    obtain rfl := Option.some.inj (cur.symm.trans other)
    exact .of_le pushed (by omega) (by omega)
  have entered := inv₁.enter placed room
  have switches := entered.switches placed hy
  refine ⟨_, _, context (pushR4 c v).exceptionEntry, ((Run.nil.snoc push).snoc (.enter room)).snoc switches,
    entered.step placed switches, rfl, rfl, ?_, ?_⟩
  · simp [History.next, cur]
  · rw [Cpu.exceptionEntry_psp inv₁.spsel]
    rfl

/-- The led task of `main.c` pushes R4 = 42 and is switched out for the counter task, which pushes
R4 = 7; the led task comes back with 42. -/
theorem context_preserved_led : ∃ (c : Cpu) (tr : List (Core × Move)) (s s' : Core) (ctx : Context),
    mainLayout.Starts c ∧ Run (CoreStep mainLayout) ⟨c, .thread⟩ tr s ∧
    CoreStep mainLayout s .leave s' ∧ (history tr).selected = [0, 1, 0] ∧
    (history tr).saved 0 = some ctx ∧ context s.cpu = ctx ∧ GoesOn ctx s'.cpu ∧
    s'.cpu.reg .r4 = 42 := by
  have placed := mainLayout_placed
  have starts := resetCpu_starts mainLayout
  obtain ⟨tr₀, c₀, run₀, rest, selected₀, entered₀⟩ :=
    any_schedule placed starts (by decide) [0] (by decide)
  have led : (history tr₀).current = some 0 := by rw [History.current, selected₀]; rfl
  obtain ⟨tr₁, c₁, ctx, run₁, inv₁, selected₁, entered₁, saved₁, r4⟩ :=
    pushed_switch rest.inv placed led (rest.top 0 led) le_rfl (by decide) (y := 1) (by decide) 42
  have counter : (tr₁.foldl History.next (history tr₀)).current = some 1 := by
    rw [History.current, selected₁, List.getLast?_concat]
  obtain ⟨c₂, leaves⟩ := inv₁.leaves
  have top : c₂.psp = mainLayout.stackAddr 1 (mainLayout.stackWords 1) := by
    cases leaves with
    | leave returns =>
      have goesOn := leave_goesOn inv₁ counter returns
      rw [inv₁.fresh 1 (by rw [entered₁, entered₀]; decide)] at goesOn
      exact goesOn.top placed (by decide)
  have inv₂ := inv₁.step (s := ⟨_, .leaving⟩) placed leaves
  obtain ⟨tr₂, c₃, ctx', run₂, inv₃, selected₂, -, saved₂, -⟩ :=
    pushed_switch inv₂ placed counter top le_rfl (by decide) (y := 0) (by decide) 7
  have run := ((run₀.append run₁).snoc leaves).append run₂
  have all : history (tr₀ ++ tr₁ ++ [(⟨c₁, .leaving⟩, .leave)] ++ tr₂) =
      tr₂.foldl History.next ((tr₁.foldl History.next (history tr₀)).next (⟨c₁, .leaving⟩, .leave)) := by
    simp [history, List.foldl_append]
  rw [← all] at inv₃ selected₂ saved₂
  have selected : (history (tr₀ ++ tr₁ ++ [(⟨c₁, .leaving⟩, .leave)] ++ tr₂)).selected = [0, 1, 0] := by
    rw [selected₂]
    show (tr₁.foldl History.next (history tr₀)).selected ++ [0] = _
    rw [selected₁, selected₀]
    rfl
  have saved : (history (tr₀ ++ tr₁ ++ [(⟨c₁, .leaving⟩, .leave)] ++ tr₂)).saved 0 = some ctx := by
    rw [saved₂, Function.update_of_ne (by decide)]
    show (tr₁.foldl History.next (history tr₀)).saved 0 = _
    rw [saved₁, Function.update_self]
  obtain ⟨c', back⟩ := inv₃.leaves
  obtain ⟨same, goesOn⟩ := (context_preserved placed starts run).1 0 ctx
    (by rw [History.current, selected]; rfl) saved rfl
  have callee := (goesOn _ back).callee
  rw [← callee] at r4
  exact ⟨_, _, _, _, ctx, starts, run, back, selected, saved, same, goesOn _ back, Option.some.inj r4⟩

end Rtos
