import Mathlib.Logic.Relation
import Rtos.Lib.Thumb

/-! Code with branches, over the instructions of straight-line code. The labels are positions in the
code. -/
namespace Rtos.Lib

inductive Op where
  | instr (i : Instr)
  /-- in thread mode -/
  | movSp (rm : Reg)
  | ldrReg (rt rn rm : Reg)
  | strReg (rt rn rm : Reg)
  | addsReg (rd rn rm : Reg)
  | cmpReg (rn rm : Reg)
  | b (label : Nat)
  /-- taken if the last comparison found the first operand lower -/
  | bcc (label : Nat)
  /-- a call that returns, with the flags as it likes -/
  | bl (routine : Cpu → Cpu × Bool)

/-- The core, the carry flag, and the position of the next instruction. -/
structure Machine where
  cpu : Cpu
  carry : Bool
  pos : Nat

/-- The carry flag after an instruction. -/
def Instr.carry (c : Cpu) (carry : Bool) : Instr → Bool
  | .cmp rn imm => decide (imm.toNat ≤ (c.reg rn).toNat)
  | .adds rdn imm => decide (2 ^ 32 ≤ (c.reg rdn).toNat + imm.toNat)
  | .subs rdn imm => decide (imm.toNat ≤ (c.reg rdn).toNat)
  | .lsls rdn shift => if shift = 0 then carry else (c.reg rdn).getLsbD (32 - shift)
  | _ => carry

/-- The address of an access to words. The stack pointers are always multiples of four. -/
def Instr.wordAccess (c : Cpu) : Instr → Option (BitVec 32)
  | .ldr _ rn offset => some (c.reg rn + offset)
  | .str _ rn offset => some (c.reg rn + offset)
  | .stmia rn _ => some (c.reg rn)
  | .ldmia rn _ => some (c.reg rn)
  | _ => none

def Instr.Aligned (c : Cpu) (i : Instr) : Prop := ∀ a ∈ i.wordAccess c, a &&& 3#32 = 0

instance (c : Cpu) (i : Instr) : Decidable (i.Aligned c) :=
  inferInstanceAs (Decidable (∀ a ∈ i.wordAccess c, a &&& 3#32 = 0))

namespace Machine

/-- An access that is not aligned ends in a fault. -/
def instr (s : Machine) (i : Instr) : Option Machine :=
  if i.Aligned s.cpu then some ⟨i.exec s.cpu, i.carry s.cpu s.carry, s.pos + 1⟩ else none

def step (code : List Op) (s : Machine) : Option Machine :=
  match code[s.pos]? with
  | none => none
  | some (.instr i) => s.instr i
  | some (.movSp rm) =>
    let sp := s.cpu.reg rm &&& ~~~3#32
    some { s with
      cpu := if s.cpu.spsel then { s.cpu with psp := sp } else { s.cpu with msp := sp }
      pos := s.pos + 1 }
  | some (.ldrReg rt rn rm) => s.instr (.ldr rt rn (s.cpu.reg rm))
  | some (.strReg rt rn rm) => s.instr (.str rt rn (s.cpu.reg rm))
  | some (.addsReg rd rn rm) =>
    some ⟨s.cpu.setResult rd (s.cpu.reg rn + s.cpu.reg rm),
      decide (2 ^ 32 ≤ (s.cpu.reg rn).toNat + (s.cpu.reg rm).toNat), s.pos + 1⟩
  | some (.cmpReg rn rm) => s.instr (.cmp rn (s.cpu.reg rm))
  | some (.b label) => some { s with pos := label }
  | some (.bcc label) => some { s with pos := if s.carry then s.pos + 1 else label }
  | some (.bl routine) => some ⟨(routine s.cpu).1, (routine s.cpu).2, s.pos + 1⟩

/-- The code gets to a state that meets `P`. -/
def Gets (code : List Op) (s : Machine) (P : Machine → Prop) : Prop :=
  ∃ t, Relation.ReflTransGen (fun s t => step code s = some t) s t ∧ P t

section gets
variable {code : List Op} {s t : Machine} {P : Machine → Prop}

theorem Gets.after (rest : Gets code t P) (first : step code s = some t) : Gets code s P := by
  obtain ⟨u, path, goal⟩ := rest
  exact ⟨u, .head first path, goal⟩

theorem Gets.trans {Q : Machine → Prop} (first : Gets code s Q) (rest : ∀ t, Q t → Gets code t P) :
    Gets code s P := by
  obtain ⟨t, path, half⟩ := first
  obtain ⟨u, path', goal⟩ := rest t half
  exact ⟨u, path.trans path', goal⟩

/-- A loop with a count: `I j` holds of the state at its head after `j` rounds. -/
theorem gets_rounds {I : Nat → Machine → Prop} {n : Nat} (start : Gets code s (I 0))
    (round : ∀ j < n, ∀ t, I j t → Gets code t (I (j + 1))) : Gets code s (I n) := by
  induction n with
  | zero => exact start
  | succ n ih =>
    have before := ih fun j hj => round j (Nat.lt_succ_of_lt hj)
    exact before.trans (round n (Nat.lt_succ_self n))

end gets

/-! One instruction at position `n`, after which the flags do not matter. -/

section instr
variable {code : List Op} {P : Machine → Prop} {c : Cpu} {f : Bool} {n : Nat} {i : Instr}
  {rt rd rn rm : Reg}

@[simp] theorem setResult_self (v : BitVec 32) : (c.setResult rd v).reg rd = v :=
  Function.update_self ..

theorem aligned_silent (silent : i.wordAccess c = none) : i.Aligned c := by
  intro a access
  rw [silent] at access
  cases access

theorem gets_instr (at_ : code[n]? = some (.instr i)) (aligned : i.Aligned c)
    (rest : ∀ f, Gets code ⟨i.exec c, f, n + 1⟩ P) : Gets code ⟨c, f, n⟩ P := by
  apply (rest (i.carry c f)).after
  simp only [step, at_]
  exact if_pos aligned

theorem gets_movSp {a : BitVec 32} (at_ : code[n]? = some (.movSp rm)) (main : c.spsel = false)
    (sp : c.reg rm &&& ~~~3#32 = a) (rest : Gets code ⟨{ c with msp := a }, f, n + 1⟩ P) :
    Gets code ⟨c, f, n⟩ P := by
  subst sp
  apply rest.after
  simp [step, at_, main]

theorem gets_ldrReg {a : BitVec 32} (at_ : code[n]? = some (.ldrReg rt rn rm))
    (addr : c.reg rn + c.reg rm = a) (aligned : a &&& 3#32 = 0)
    (rest : Gets code ⟨c.load [rt] a, f, n + 1⟩ P) : Gets code ⟨c, f, n⟩ P := by
  subst addr
  apply rest.after
  simp only [step, at_]
  exact if_pos fun a access => Option.some.inj access ▸ aligned

theorem gets_strReg {a : BitVec 32} (at_ : code[n]? = some (.strReg rt rn rm))
    (addr : c.reg rn + c.reg rm = a) (aligned : a &&& 3#32 = 0)
    (rest : Gets code ⟨c.store [rt] a, f, n + 1⟩ P) : Gets code ⟨c, f, n⟩ P := by
  subst addr
  apply rest.after
  simp only [step, at_]
  exact if_pos fun a access => Option.some.inj access ▸ aligned

theorem gets_addsReg {v : BitVec 32} (at_ : code[n]? = some (.addsReg rd rn rm))
    (sum : c.reg rn + c.reg rm = v) (rest : ∀ f, Gets code ⟨c.setResult rd v, f, n + 1⟩ P) :
    Gets code ⟨c, f, n⟩ P := by
  subst sum
  apply (rest (decide (2 ^ 32 ≤ (c.reg rn).toNat + (c.reg rm).toNat))).after
  simp only [step, at_]

theorem gets_b {label : Nat} (at_ : code[n]? = some (.b label))
    (rest : Gets code ⟨c, f, label⟩ P) : Gets code ⟨c, f, n⟩ P := by
  apply rest.after
  simp only [step, at_]

theorem gets_bl {routine : Cpu → Cpu × Bool} (at_ : code[n]? = some (.bl routine))
    (rest : ∀ f, Gets code ⟨(routine c).1, f, n + 1⟩ P) : Gets code ⟨c, f, n⟩ P := by
  apply (rest (routine c).2).after
  simp only [step, at_]

/-- A comparison and the branch on it. -/
theorem gets_lower {label : Nat} {a b : BitVec 32} (cmp : code[n]? = some (.cmpReg rn rm))
    (bcc : code[n + 1]? = some (.bcc label)) (first : c.reg rn = a) (second : c.reg rm = b)
    (rest : ∀ f zero, Gets code ⟨{ c with zero }, f, if a.toNat < b.toNat then label else n + 2⟩ P) :
    Gets code ⟨c, f, n⟩ P := by
  subst first second
  have flags : step code ⟨c, f, n⟩ = some ⟨{ c with zero := c.reg rn == c.reg rm },
      decide ((c.reg rm).toNat ≤ (c.reg rn).toNat), n + 1⟩ := by
    simp only [step, cmp]
    exact if_pos (aligned_silent rfl)
  apply Gets.after _ flags
  apply (rest (decide ((c.reg rm).toNat ≤ (c.reg rn).toNat)) (c.reg rn == c.reg rm)).after
  simp only [step, bcc, Option.some.injEq]
  by_cases lower : (c.reg rn).toNat < (c.reg rm).toNat
  · simp [lower]
  · simp [lower, Nat.not_lt.mp lower]

end instr

end Machine

end Rtos.Lib
