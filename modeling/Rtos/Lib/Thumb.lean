import Rtos.Lib.WordMemory

/-! The registers, the instructions and the exceptions of an ARMv6-M core, as far as a context
switch needs them. The core logs the words of data memory that it reads and writes, and neither the
fetches of instructions nor the words of literal pools, which are code memory. -/
namespace Rtos.Lib

inductive Reg where
  | r0 | r1 | r2 | r3 | r4 | r5 | r6 | r7 | r8 | r9 | r10 | r11 | r12 | lr
  deriving DecidableEq, Repr

/-- `pc` and `xpsr` are those of thread mode, which runs on PSP if `spsel` is set. Of the flags
only Z is kept. -/
structure Cpu where
  reg : Reg → BitVec 32
  pc : BitVec 32
  xpsr : BitVec 32
  psp : BitVec 32
  msp : BitVec 32
  spsel : Bool
  primask : Bool
  zero : Bool
  mem : Memory
  reads : List (BitVec 32)
  writes : List (BitVec 32)

inductive Instr where
  | cpsid
  | cpsie
  | isb
  | dsb
  /-- `LDR Rd, =value`: the literal pool lies in code memory, so the read is not logged -/
  | ldrLit (rd : Reg) (value : BitVec 32)
  | ldr (rt rn : Reg) (offset : BitVec 32)
  | str (rt rn : Reg) (offset : BitVec 32)
  | ldrb (rt rn : Reg) (offset : BitVec 32)
  | strb (rt rn : Reg) (offset : BitVec 32)
  | cmp (rn : Reg) (imm : BitVec 32)
  | movs (rd : Reg) (imm : BitVec 32)
  | mov (rd rm : Reg)
  | adds (rdn : Reg) (imm : BitVec 32)
  | subs (rdn : Reg) (imm : BitVec 32)
  | lsls (rdn : Reg) (shift : Nat)
  /-- the base register is written back, and is not in the list -/
  | stmia (rn : Reg) (regs : List Reg)
  | ldmia (rn : Reg) (regs : List Reg)
  /-- in handler mode, so on MSP -/
  | push (regs : List Reg)
  | pop (regs : List Reg)
  | mrsPsp (rd : Reg)
  | msrPsp (rn : Reg)
  | msrControl (rn : Reg)
  deriving DecidableEq, Repr

def loadRegs (reg : Reg → BitVec 32) : List Reg → List (BitVec 32) → Reg → BitVec 32
  | r :: rs, v :: vs => loadRegs (Function.update reg r v) rs vs
  | _, _ => reg

namespace Cpu

def setReg (c : Cpu) (r : Reg) (v : BitVec 32) : Cpu := { c with reg := Function.update c.reg r v }

/-- A result that sets the flags. -/
def setResult (c : Cpu) (r : Reg) (v : BitVec 32) : Cpu := { c.setReg r v with zero := v == 0 }

def load (c : Cpu) (regs : List Reg) (a : BitVec 32) : Cpu :=
  { c with
    reg := loadRegs c.reg regs (c.mem.readWords a regs.length)
    reads := c.reads ++ wordAddrs a regs.length }

def store (c : Cpu) (regs : List Reg) (a : BitVec 32) : Cpu :=
  { c with
    mem := c.mem.writeWords a (regs.map c.reg)
    writes := c.writes ++ wordAddrs a regs.length }

end Cpu

def Instr.exec (c : Cpu) : Instr → Cpu
  | .cpsid => { c with primask := true }
  | .cpsie => { c with primask := false }
  | .isb => c
  | .dsb => c
  | .ldrLit rd value => c.setReg rd value
  | .ldr rt rn offset => c.load [rt] (c.reg rn + offset)
  | .str rt rn offset => c.store [rt] (c.reg rn + offset)
  | .ldrb rt rn offset =>
    let a := c.reg rn + offset
    { c.setReg rt (c.mem.readByte a) with reads := c.reads ++ [Memory.wordOf a] }
  | .strb rt rn offset =>
    let a := c.reg rn + offset
    { c with mem := c.mem.writeByte a (c.reg rt), writes := c.writes ++ [Memory.wordOf a] }
  | .cmp rn imm => { c with zero := c.reg rn == imm }
  | .movs rd imm => c.setResult rd imm
  | .mov rd rm => c.setReg rd (c.reg rm)
  | .adds rdn imm => c.setResult rdn (c.reg rdn + imm)
  | .subs rdn imm => c.setResult rdn (c.reg rdn - imm)
  | .lsls rdn shift => c.setResult rdn (c.reg rdn <<< shift)
  | .stmia rn regs =>
    let a := c.reg rn
    (c.store regs a).setReg rn (wordAddr a regs.length)
  | .ldmia rn regs =>
    let a := c.reg rn
    (c.load regs a).setReg rn (wordAddr a regs.length)
  | .push regs =>
    let a := c.msp - BitVec.ofNat 32 (4 * regs.length)
    { c.store regs a with msp := a }
  | .pop regs =>
    let a := c.msp
    { c.load regs a with msp := wordAddr a regs.length }
  | .mrsPsp rd => c.setReg rd c.psp
  | .msrPsp rn => { c with psp := c.reg rn &&& ~~~3#32 }
  | .msrControl rn => { c with spsel := (c.reg rn).getLsbD 1 }

/-- Straight-line code. -/
def Cpu.run (c : Cpu) (code : List Instr) : Cpu := code.foldl Instr.exec c

theorem Cpu.run_append (c : Cpu) (code code' : List Instr) :
    c.run (code ++ code') = (c.run code).run code' :=
  List.foldl_append

/-- Return to thread mode on PSP. -/
def excReturnPsp : BitVec 32 := 0xFFFFFFFD#32

/-- Return to thread mode on MSP. -/
def excReturnMsp : BitVec 32 := 0xFFFFFFF9#32

/-- The frame below `sp`, aligned to eight bytes. -/
def frameAddr (sp : BitVec 32) : BitVec 32 := (sp - 32) &&& ~~~4#32

/-- Bit 9 of the stacked xPSR tells whether the frame was moved down for its alignment. -/
def stackedPsr (xpsr : BitVec 32) (padded : Bool) : BitVec 32 :=
  (xpsr &&& ~~~0x200#32) ||| if padded then 0x200#32 else 0

def unstackedSp (frame xpsr : BitVec 32) : BitVec 32 :=
  (frame + 32) ||| if xpsr.getLsbD 9 then 4#32 else 0

theorem bit_mask (a : BitVec 32) : a &&& 4#32 = if a.getLsbD 2 then 4#32 else 0 :=
  BitVec.and_twoPow a 2

theorem frameAddr_eq (sp : BitVec 32) :
    frameAddr sp = if sp.getLsbD 2 then sp - 36 else sp - 32 := by
  have bit : (sp - 32).getLsbD 2 = sp.getLsbD 2 := by
    simp only [BitVec.getLsbD, Nat.testBit_eq_decide_div_mod_eq, decide_eq_decide]
    bv_omega
  have split := and_not_add_and (sp - 32) 4#32
  rw [bit_mask, bit] at split
  rw [frameAddr, eq_sub_of_add_eq split]
  split_ifs
  · bv_omega
  · simp

theorem frameAddr_top {a : BitVec 32} (aligned : a &&& 7#32 = 0) : frameAddr (wordAddr a 8) = a := by
  have split := and_not_add_and a 4#32
  have low : a &&& 4#32 = 0 := by
    rw [show (4#32 : BitVec 32) = 7#32 &&& 4#32 from rfl, ← BitVec.and_assoc, aligned]; rfl
  rw [low, add_zero] at split
  rw [frameAddr, show wordAddr a 8 - 32 = a from wordAddr_back a 8, split]

theorem stackedPsr_padded (xpsr : BitVec 32) (padded : Bool) :
    (stackedPsr xpsr padded).getLsbD 9 = padded := by
  cases padded <;> simp [stackedPsr]

/-- The exception return restores the stack pointer of the entry. -/
theorem unstackedSp_frameAddr (sp xpsr : BitVec 32) :
    unstackedSp (frameAddr sp) (stackedPsr xpsr (sp.getLsbD 2)) = sp := by
  rw [unstackedSp, stackedPsr_padded, frameAddr_eq]
  cases bit : sp.getLsbD 2 with
  | false => simp
  | true =>
    have split := and_not_add_and sp 4#32
    rw [bit_mask, bit, if_pos rfl] at split
    have apart : (sp &&& ~~~4#32) &&& 4#32 = 0 := by
      rw [BitVec.and_assoc, show ~~~4#32 &&& 4#32 = (0 : BitVec 32) from rfl]
      exact BitVec.and_zero
    have down : sp - 36 + 32 = sp &&& ~~~4#32 := by
      rw [eq_sub_of_add_eq split]
      bv_omega
    simp only [if_true]
    rw [down, ← BitVec.add_eq_or_of_and_eq_zero _ _ apart, split]

namespace Cpu

def frameWords (c : Cpu) (sp : BitVec 32) : List (BitVec 32) :=
  [c.reg .r0, c.reg .r1, c.reg .r2, c.reg .r3, c.reg .r12, c.reg .lr, c.pc,
    stackedPsr c.xpsr (sp.getLsbD 2)]

def stackFrame (c : Cpu) (sp : BitVec 32) : Cpu :=
  { c with
    mem := c.mem.writeWords (frameAddr sp) (c.frameWords sp)
    writes := c.writes ++ wordAddrs (frameAddr sp) 8 }

/-- An exception is taken from thread mode. -/
def exceptionEntry (c : Cpu) : Cpu :=
  if c.spsel then
    { (c.stackFrame c.psp).setReg .lr excReturnPsp with psp := frameAddr c.psp }
  else { (c.stackFrame c.msp).setReg .lr excReturnMsp with msp := frameAddr c.msp }

def unstackFrame (c : Cpu) (frame : BitVec 32) : Cpu :=
  { c with
    reg := loadRegs c.reg [.r0, .r1, .r2, .r3, .r12, .lr] (c.mem.readWords frame 6)
    pc := c.mem (wordAddr frame 6)
    xpsr := c.mem (wordAddr frame 7)
    reads := c.reads ++ wordAddrs frame 8 }

/-- `BX LR` in handler mode; other values of LR are no return. -/
def exceptionReturn (c : Cpu) : Option Cpu :=
  if c.reg .lr = excReturnPsp then
    let t := c.unstackFrame c.psp
    some { t with psp := unstackedSp c.psp t.xpsr, spsel := true }
  else if c.reg .lr = excReturnMsp then
    let t := c.unstackFrame c.msp
    some { t with msp := unstackedSp c.msp t.xpsr, spsel := false }
  else none

variable {c : Cpu}

theorem exceptionEntry_psp (spsel : c.spsel = true) : c.exceptionEntry =
    { (c.stackFrame c.psp).setReg .lr excReturnPsp with psp := frameAddr c.psp } :=
  if_pos spsel

theorem exceptionEntry_frame (spsel : c.spsel = true) :
    c.exceptionEntry.psp = frameAddr c.psp ∧
    c.exceptionEntry.mem.readWords (frameAddr c.psp) 8 = c.frameWords c.psp := by
  have words := Memory.readWords_writeWords (m := c.mem) (a := frameAddr c.psp)
    (c.frameWords c.psp) (by simp [frameWords])
  rw [exceptionEntry_psp spsel]
  exact ⟨rfl, words⟩

theorem exceptionReturn_psp (lr : c.reg .lr = excReturnPsp) : c.exceptionReturn =
    some { c.unstackFrame c.psp with
      psp := unstackedSp c.psp (c.unstackFrame c.psp).xpsr, spsel := true } :=
  if_pos lr

end Cpu

/-! What code leaves alone is read off its instructions. -/

/-- The registers that an instruction writes. -/
def Instr.dests : Instr → List Reg
  | .ldrLit rd _ => [rd]
  | .ldr rt _ _ => [rt]
  | .ldrb rt _ _ => [rt]
  | .movs rd _ => [rd]
  | .mov rd _ => [rd]
  | .adds rdn _ => [rdn]
  | .subs rdn _ => [rdn]
  | .lsls rdn _ => [rdn]
  | .stmia rn _ => [rn]
  | .ldmia rn regs => rn :: regs
  | .pop regs => regs
  | .mrsPsp rd => [rd]
  | _ => []

/-- Instructions that write memory. -/
def Instr.stores : Instr → Bool
  | .str _ _ _ => true
  | .strb _ _ _ => true
  | .stmia _ _ => true
  | .push _ => true
  | _ => false

/-- Instructions that write a stack pointer or choose one. -/
def Instr.stacks : Instr → Bool
  | .push _ => true
  | .pop _ => true
  | .msrPsp _ => true
  | .msrControl _ => true
  | _ => false

theorem loadRegs_other {reg : Reg → BitVec 32} {regs : List Reg} {vs : List (BitVec 32)} {r : Reg}
    (out : r ∉ regs) : loadRegs reg regs vs r = reg r := by
  induction regs generalizing reg vs with
  | nil => rfl
  | cons r' rs ih =>
    rw [List.mem_cons, not_or] at out
    cases vs with
    | nil => rfl
    | cons v vs => rw [loadRegs, ih out.2, Function.update_of_ne out.1]

section frame
variable {c : Cpu} {i : Instr} {code : List Instr} {r : Reg}

theorem exec_reg (out : r ∉ i.dests) : (i.exec c).reg r = c.reg r := by
  cases i <;> simp_all [Instr.dests, Instr.exec, Cpu.setReg, Cpu.setResult, Cpu.load, Cpu.store,
    loadRegs_other]

theorem exec_mem (silent : i.stores = false) :
    (i.exec c).mem = c.mem ∧ (i.exec c).writes = c.writes := by
  cases i <;> first | exact ⟨rfl, rfl⟩ | cases silent

theorem exec_stacks (plain : i.stacks = false) :
    (i.exec c).psp = c.psp ∧ (i.exec c).msp = c.msp ∧ (i.exec c).spsel = c.spsel := by
  cases i <;> first | exact ⟨rfl, rfl, rfl⟩ | cases plain

theorem run_reg (out : ∀ i ∈ code, r ∉ i.dests) : (c.run code).reg r = c.reg r := by
  induction code generalizing c with
  | nil => rfl
  | cons i code ih =>
    exact (ih fun j mem => out j (List.mem_cons_of_mem _ mem)).trans
      (exec_reg (out i List.mem_cons_self))

theorem run_mem (silent : ∀ i ∈ code, i.stores = false) :
    (c.run code).mem = c.mem ∧ (c.run code).writes = c.writes := by
  induction code generalizing c with
  | nil => exact ⟨rfl, rfl⟩
  | cons i code ih =>
    have head := exec_mem (c := c) (silent i List.mem_cons_self)
    have rest := ih (c := i.exec c) fun j mem => silent j (List.mem_cons_of_mem _ mem)
    exact ⟨rest.1.trans head.1, rest.2.trans head.2⟩

theorem run_stacks (plain : ∀ i ∈ code, i.stacks = false) :
    (c.run code).psp = c.psp ∧ (c.run code).msp = c.msp ∧ (c.run code).spsel = c.spsel := by
  induction code generalizing c with
  | nil => exact ⟨rfl, rfl, rfl⟩
  | cons i code ih =>
    have head := exec_stacks (c := c) (plain i List.mem_cons_self)
    have rest := ih (c := i.exec c) fun j mem => plain j (List.mem_cons_of_mem _ mem)
    exact ⟨rest.1.trans head.1, rest.2.1.trans head.2.1, rest.2.2.trans head.2.2⟩
end frame

end Rtos.Lib
