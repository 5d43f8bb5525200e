import Rtos.Machine.Layout

/-! `PendSV_Handler` of `context_switch.s`, block by block, and what each block does to the
registers and to memory. The call of `os_schedule` in its middle may select any task. -/
namespace Rtos
open Lib

section code
variable (L : Layout)

/-- `_rtos_start` up to its endless loop. -/
def rtosStart : List Instr :=
  [.ldrLit .r0 L.dummyStack, .adds .r0 32, .msrPsp .r0, .movs .r0 2, .msrControl .r0, .isb,
    .ldrLit .r0 scbIcsr, .movs .r1 1, .lsls .r1 28, .str .r1 .r0 0, .dsb, .isb]

/-- `PendSV_Handler` up to its `BNE`. -/
def pendSvGuard : List Instr :=
  [.cpsid, .ldrLit .r0 L.rtosStarted, .ldrb .r1 .r0 0, .cmp .r1 0]

def pendSvFirst : List Instr := [.movs .r1 1, .strb .r1 .r0 0]

/-- `pendsv_save` -/
def pendSvSave : List Instr :=
  [.mrsPsp .r0, .subs .r0 32, .stmia .r0 [.r4, .r5, .r6, .r7],
    .mov .r4 .r8, .mov .r5 .r9, .mov .r6 .r10, .mov .r7 .r11, .stmia .r0 [.r4, .r5, .r6, .r7],
    .subs .r0 32, .ldrLit .r1 L.currentTask, .ldr .r1 .r1 0, .str .r0 .r1 0]

/-- `pendsv_restore` up to its `BL os_schedule` -/
def pendSvCall : List Instr := [.push [.lr]]

/-- The rest, up to its `BX LR`. -/
def pendSvRestore : List Instr :=
  [.pop [.r4], .mov .lr .r4,
    .ldrLit .r1 L.currentTask, .ldr .r1 .r1 0, .ldr .r0 .r1 0,
    .adds .r0 16, .ldmia .r0 [.r4, .r5, .r6, .r7],
    .mov .r8 .r4, .mov .r9 .r5, .mov .r10 .r6, .mov .r11 .r7,
    .subs .r0 32, .ldmia .r0 [.r4, .r5, .r6, .r7], .adds .r0 16,
    .msrPsp .r0, .cpsie]

/-- The handler up to the end of its first half: `BNE pendsv_save` skips the first switch. -/
def pendSvHalf (c : Cpu) : Cpu :=
  let c := c.run (pendSvGuard L)
  if c.zero then c.run pendSvFirst else c.run (pendSvSave L)

end code

/-- `os_schedule` is called in `c` and returns in `c'` with task `x` selected. It follows the
calling convention, and of the words that matter here it writes `current_task` only. -/
structure Schedules (L : Layout) (x : TaskId) (c c' : Cpu) : Prop where
  created : x < L.tasks.length
  selected : c'.mem L.currentTask = L.tcb x
  callee : ∀ r ∈ calleeRegs, c'.reg r = c.reg r
  psp : c'.psp = c.psp
  msp : c'.msp = c.msp
  spsel : c'.spsel = c.spsel
  stack : ∀ t a, L.InStack t a → c'.mem a = c.mem a
  pool : ∀ t < L.tasks.length, c'.mem (L.tcb t) = c.mem (L.tcb t)
  started : c'.mem.readByte L.rtosStarted = c.mem.readByte L.rtosStarted
  caller : c'.mem c.msp = c.mem c.msp
  writes : ∃ ws, c'.writes = c.writes ++ ws ∧ ∀ a ∈ ws, L.Apart a

/-- `PendSV_Handler` from its first instruction up to its `BX LR`. -/
def PendSv (L : Layout) (x : TaskId) (c c' : Cpu) : Prop :=
  ∃ d, Schedules L x ((pendSvHalf L c).run pendSvCall) d ∧ c' = d.run (pendSvRestore L)

section blocks
variable (L : Layout) (c : Cpu)

theorem pendSvGuard_zero : (c.run (pendSvGuard L)).zero = (c.mem.readByte L.rtosStarted == 0) := by
  simp [pendSvGuard, Cpu.run, Instr.exec, Cpu.setReg]

theorem pendSvHalf_first (boot : c.mem.readByte L.rtosStarted = 0) :
    pendSvHalf L c = c.run (pendSvGuard L ++ pendSvFirst) := by
  rw [pendSvHalf, pendSvGuard_zero, boot, Cpu.run_append]; rfl

theorem pendSvHalf_save (started : c.mem.readByte L.rtosStarted ≠ 0) :
    pendSvHalf L c = c.run (pendSvGuard L ++ pendSvSave L) := by
  rw [pendSvHalf, pendSvGuard_zero, beq_false_of_ne started, Cpu.run_append]; rfl

theorem pendSvHalf_keeps : (pendSvHalf L c).reg .lr = c.reg .lr ∧ (pendSvHalf L c).psp = c.psp ∧
    (pendSvHalf L c).msp = c.msp ∧ (pendSvHalf L c).spsel = c.spsel := by
  by_cases boot : c.mem.readByte L.rtosStarted = 0
  · rw [pendSvHalf_first L c boot]
    exact ⟨run_reg (by simp [pendSvGuard, pendSvFirst, Instr.dests]),
      run_stacks (by simp [pendSvGuard, pendSvFirst, Instr.stacks])⟩
  · rw [pendSvHalf_save L c boot]
    exact ⟨run_reg (by simp [pendSvGuard, pendSvSave, Instr.dests]),
      run_stacks (by simp [pendSvGuard, pendSvSave, Instr.stacks])⟩

theorem pendSvHalf_first_stores (boot : c.mem.readByte L.rtosStarted = 0) :
    (pendSvHalf L c).mem = c.mem.writeByte L.rtosStarted 1 ∧
    (pendSvHalf L c).writes = c.writes ++ [Memory.wordOf L.rtosStarted] := by
  rw [pendSvHalf_first L c boot]
  simp [pendSvGuard, pendSvFirst, Cpu.run, Instr.exec, Cpu.setReg, Cpu.setResult]

/-- The memory after the two `STMIA` of `pendsv_save`. -/
def savedRegs (c : Cpu) : Memory := c.mem.writeWords (c.psp - 32) (calleeRegs.map c.reg)

/-- The other switches store R4-R11 below the hardware frame, and where they are in the TCB. -/
theorem pendSvHalf_save_stores (started : c.mem.readByte L.rtosStarted ≠ 0) :
    (pendSvHalf L c).mem =
      Function.update (savedRegs c) (savedRegs c L.currentTask) (c.psp - 32) ∧
    (pendSvHalf L c).writes =
      c.writes ++ wordAddrs (c.psp - 32) 8 ++ [savedRegs c L.currentTask] := by
  have regs : (c.mem.writeWords (c.psp - 32#32) [c.reg .r4, c.reg .r5, c.reg .r6, c.reg .r7]).writeWords
      (wordAddr (c.psp - 32#32) 4) [c.reg .r8, c.reg .r9, c.reg .r10, c.reg .r11] = savedRegs c :=
    (Memory.writeWords_append [c.reg .r4, c.reg .r5, c.reg .r6, c.reg .r7]
      [c.reg .r8, c.reg .r9, c.reg .r10, c.reg .r11]).symm
  have base : wordAddr (c.psp - 32#32) 8 - 32#32 = c.psp - 32#32 := wordAddr_back _ 8
  have addrs := wordAddrs_append (c.psp - 32#32) 4 4
  rw [pendSvHalf_save L c started]
  simp [pendSvGuard, pendSvSave, Cpu.run, Instr.exec, Cpu.setReg, Cpu.setResult, Cpu.load,
    Cpu.store, loadRegs, regs, base, addrs]

theorem pendSvCall_pushes : c.run pendSvCall =
    { c with
      mem := Function.update c.mem (c.msp - 4) (c.reg .lr)
      msp := c.msp - 4
      writes := c.writes ++ [c.msp - 4] } := by
  simp [pendSvCall, Cpu.run, Instr.exec, Cpu.store]

/-- R4-R11 come from the eight words at the selected task's `sp`, and PSP points behind them. -/
theorem pendSvRestore_loads {sp : Word} (hsp : c.mem (c.mem L.currentTask) = sp) :
    calleeRegs.map (c.run (pendSvRestore L)).reg = c.mem.readWords sp 8 ∧
    (c.run (pendSvRestore L)).psp = wordAddr sp 8 &&& ~~~3#32 ∧
    (c.run (pendSvRestore L)).reg .lr = c.mem c.msp ∧
    (c.run (pendSvRestore L)).msp = wordAddr c.msp 1 ∧
    (c.run (pendSvRestore L)).spsel = c.spsel ∧
    (c.run (pendSvRestore L)).reads = c.reads ++ [c.msp, L.currentTask, c.mem L.currentTask] ++
      (wordAddrs (wordAddr sp 4) 4 ++ wordAddrs sp 4) := by
  have four : wordAddr sp 4 = sp + 16#32 := rfl
  have base : wordAddr (sp + 16#32) 4 - 32#32 = sp := by
    rw [← four, wordAddr_wordAddr]; exact wordAddr_back _ 8
  have top : sp + 16#32 + 16#32 = wordAddr sp 8 := by
    rw [wordAddr, BitVec.add_assoc]; rfl
  have words := Memory.readWords_append (m := c.mem) (a := sp) 4 4
  rw [four] at words
  rw [words]
  simp [calleeRegs, pendSvRestore, Cpu.run, Instr.exec, Cpu.setReg, Cpu.setResult, Cpu.load,
    loadRegs, Memory.readWords, hsp, four, base, top]

theorem pendSvRestore_mem : (c.run (pendSvRestore L)).mem = c.mem ∧
    (c.run (pendSvRestore L)).writes = c.writes :=
  run_mem (by simp [pendSvRestore, Instr.stores])

end blocks

/-- The eight words below PSP are the only ones that the two `STMIA` write. -/
theorem savedRegs_other {L : Layout} {c : Cpu} {t : TaskId} {a : Word} (placed : L.Placed)
    (frame : L.FrameAt t c.psp)
    (outside : L.Reserved a ∨ (∃ u, u ≠ t ∧ L.InStack u a) ∨ a ∈ wordAddrs c.psp 8) :
    savedRegs c a = c.mem a := by
  refine Memory.writeWords_other fun mem => ?_
  obtain ⟨i, hi, rfl⟩ := mem_wordAddrs.mp mem
  simp only [calleeRegs, List.length_map, List.length_cons, List.length_nil] at hi
  have own := frame.inStack_below (i := i) (by omega)
  rcases outside with reserved | ⟨u, other, inStack⟩ | above
  · exact placed.reserved _ reserved t own
  · exact other (placed.disjoint _ _ _ inStack own)
  · obtain ⟨j, hj, eq⟩ := mem_wordAddrs.mp above
    have split : wordAddr c.psp j = wordAddr (c.psp - 32) (8 + j) := by
      rw [← wordAddr_wordAddr, show wordAddr (c.psp - 32) 8 = c.psp from sub_add_cancel c.psp 32]
    rw [split, wordAddr_inj _ _ _ (by omega) (by omega)] at eq
    omega

namespace PendSv
variable {L : Layout} {x : TaskId} {c c' : Cpu}

/-- Up to `current_task` and the caller's LR, memory is as the first half left it. -/
structure Leaves (L : Layout) (m m' : Memory) : Prop where
  stack : ∀ t a, L.InStack t a → m' a = m a
  pool : ∀ t < L.tasks.length, m' (L.tcb t) = m (L.tcb t)
  started : m'.readByte L.rtosStarted = m.readByte L.rtosStarted

theorem leaves (h : PendSv L x c c') (placed : L.Placed) (msp : c.msp = L.msp) :
    Leaves L (pendSvHalf L c).mem c'.mem := by
  obtain ⟨d, schedules, rfl⟩ := h
  rw [(pendSvRestore_mem L d).1]
  have other : ∀ a, a ≠ L.msp - 4 →
      ((pendSvHalf L c).run pendSvCall).mem a = (pendSvHalf L c).mem a := by
    intro a ne
    rw [pendSvCall_pushes, (pendSvHalf_keeps L c).2.2.1, msp]
    exact Function.update_of_ne ne _ _
  have scratch := placed.scratch (L.msp - 4) (.inr (.inl rfl))
  constructor
  · intro t a mem
    rw [schedules.stack t a mem, other]
    rintro rfl
    exact scratch.2 t mem
  · intro t ht
    rw [schedules.pool t ht, other]
    intro eq
    exact scratch.1 (eq ▸ Layout.reserved_tcb ht)
  · rw [schedules.started, Memory.readByte_congr (other _ _)]
    intro eq
    exact scratch.1 (eq ▸ Layout.reserved_started)

theorem loads (h : PendSv L x c c') (msp : c.msp = L.msp) :
    x < L.tasks.length ∧ c'.mem L.currentTask = L.tcb x ∧
    calleeRegs.map c'.reg = c'.mem.readWords (c'.mem (L.tcb x)) 8 ∧
    c'.psp = wordAddr (c'.mem (L.tcb x)) 8 &&& ~~~3#32 ∧
    c'.reg .lr = c.reg .lr ∧ c'.msp = L.msp ∧ c'.spsel = c.spsel := by
  obtain ⟨d, schedules, rfl⟩ := h
  have half := pendSvHalf_keeps L c
  obtain ⟨regs, psp, lr, msp', spsel, -⟩ := pendSvRestore_loads L d (congrArg d.mem schedules.selected)
  rw [(pendSvRestore_mem L d).1]
  have called : ((pendSvHalf L c).run pendSvCall).msp = L.msp - 4 ∧
      ((pendSvHalf L c).run pendSvCall).mem (L.msp - 4) = c.reg .lr ∧
      ((pendSvHalf L c).run pendSvCall).spsel = c.spsel := by
    simp [pendSvCall_pushes, half, msp]
  refine ⟨schedules.created, schedules.selected, regs, psp, ?_, ?_, ?_⟩
  · rw [lr, schedules.msp, schedules.caller, called.1, called.2.1]
  · rw [msp', schedules.msp, called.1, wordAddr]; exact sub_add_cancel L.msp 4
  · rw [spsel, schedules.spsel, called.2.2]

theorem first (h : PendSv L x c c') (placed : L.Placed) (msp : c.msp = L.msp)
    (boot : c.mem.readByte L.rtosStarted = 0) :
    (∀ t a, L.InStack t a → c'.mem a = c.mem a) ∧
    (∀ t < L.tasks.length, c'.mem (L.tcb t) = c.mem (L.tcb t)) ∧
    c'.mem.readByte L.rtosStarted ≠ 0 := by
  have kept := h.leaves placed msp
  have half := (pendSvHalf_first_stores L c boot).1
  refine ⟨fun t a mem => ?_, fun t ht => ?_, ?_⟩
  · rw [kept.stack t a mem, half, Memory.writeByte_other]
    rintro rfl
    exact placed.reserved _ Layout.reserved_started t mem
  · rw [kept.pool t ht, half, Memory.writeByte_other (placed.pool t ht).2]
  · rw [kept.started, half, Memory.readByte_writeByte]; decide

theorem save {t : TaskId} (h : PendSv L x c c') (placed : L.Placed) (msp : c.msp = L.msp)
    (started : c.mem.readByte L.rtosStarted ≠ 0) (ht : t < L.tasks.length)
    (current : c.mem L.currentTask = L.tcb t) (frame : L.FrameAt t c.psp) :
    Suspended L c'.mem t (context c) ∧
    (∀ u a, u ≠ t → L.InStack u a → c'.mem a = c.mem a) ∧
    (∀ u < L.tasks.length, u ≠ t → c'.mem (L.tcb u) = c.mem (L.tcb u)) ∧
    c'.mem.readByte L.rtosStarted ≠ 0 := by
  have kept := h.leaves placed msp
  have below : ∀ a, L.Reserved a ∨ (∃ u, u ≠ t ∧ L.InStack u a) ∨ a ∈ wordAddrs c.psp 8 →
      savedRegs c a = c.mem a := fun a => savedRegs_other placed frame
  have half : (pendSvHalf L c).mem = Function.update (savedRegs c) (L.tcb t) (c.psp - 32) := by
    rw [(pendSvHalf_save_stores L c started).1, below _ (.inl Layout.reserved_current), current]
  have stack : ∀ u a, L.InStack u a → c'.mem a = savedRegs c a := by
    intro u a mem
    rw [kept.stack u a mem, half, Function.update_of_ne]
    rintro rfl
    exact placed.reserved _ (Layout.reserved_tcb ht) u mem
  refine ⟨⟨frame, ?_, ?_, ?_⟩, fun u a other mem => ?_, fun u hu other => ?_, ?_⟩
  · rw [kept.pool t ht, half, Function.update_self]; rfl
  · rw [show (context c).psp = c.psp from rfl, Memory.readWords_congr (m := savedRegs c)]
    · exact Memory.readWords_writeWords (m := c.mem) (a := c.psp - 32) _ (by simp [calleeRegs])
    · exact fun i hi => stack t _ (frame.inStack_below (by omega))
  · refine Memory.readWords_congr fun i hi => ?_
    have mem : wordAddr c.psp i ∈ wordAddrs c.psp 8 := mem_wordAddrs.mpr ⟨i, hi, rfl⟩
    rw [show (context c).psp = c.psp from rfl, stack t _ (frame.inStack hi), below _ (.inr (.inr mem))]
  · rw [stack u a mem, below _ (.inr (.inl ⟨u, other, mem⟩))]
  · have ne : L.tcb u ≠ L.tcb t := fun eq => other (Layout.tcb_inj placed hu ht eq)
    rw [kept.pool u hu, half, Function.update_of_ne ne, below _ (.inl (Layout.reserved_tcb hu))]
  · have ne : Memory.wordOf L.rtosStarted ≠ L.tcb t := (placed.pool t ht).2.symm
    rw [kept.started, half, Memory.readByte_congr (m := c.mem)]
    · exact started
    · rw [Function.update_of_ne ne, below _ (.inl Layout.reserved_started)]

theorem resumes {ctx : Context} (h : PendSv L x c c') (placed : L.Placed) (msp : c.msp = L.msp)
    (suspended : Suspended L c'.mem x ctx) : context c' = ctx := by
  obtain ⟨-, -, regs, psp, -⟩ := h.loads msp
  have top : wordAddr (ctx.psp - 32) 8 = ctx.psp := sub_add_cancel ctx.psp 32
  rw [suspended.sp] at regs psp
  rw [top, suspended.frame_at.aligned placed] at psp
  rw [context, psp, regs, suspended.callee, suspended.frame]

end PendSv

end Rtos
