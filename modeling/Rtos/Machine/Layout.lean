import Rtos.Lib.Thumb
import Rtos.System.Boot

/-! Where the kernel's words and the task stacks lie in memory, and what a suspended task looks
like there. -/
namespace Rtos
open Lib

/-- The symbols that the context switch uses, the main stack pointer at `osStart`, and the tasks
in the order of their creation. -/
structure Layout where
  taskPool : Word
  currentTask : Word
  rtosStarted : Word
  dummyStack : Word
  taskExit : Word
  msp : Word
  tasks : List TaskSpec

/-- `SCB_ICSR_ADDR` -/
def scbIcsr : Word := 0xE000ED04#32

namespace Layout
variable (L : Layout)

/-- `&task_pool[t]`, which is also the address of its `sp` field: the TCB has 36 bytes. -/
def tcb (t : TaskId) : Word := L.taskPool + BitVec.ofNat 32 (36 * t)

def spec (t : TaskId) : TaskSpec := L.tasks.getD t ⟨"", 0, 0, 0, 0⟩

/-- The address of word `i` of the stack of task `t`. -/
def stackAddr (t : TaskId) (i : Nat) : Word := wordAddr (L.spec t).stack i

def stackWords (t : TaskId) : Nat := (L.spec t).stackWords.toNat

def InStack (t : TaskId) (a : Word) : Prop := ∃ i < L.stackWords t, a = L.stackAddr t i

/-- The words that only the context switch writes. -/
def Reserved (a : Word) : Prop :=
  (∃ t < L.tasks.length, a = L.tcb t) ∨ a = L.currentTask ∨ a = Memory.wordOf L.rtosStarted

/-- Neither in a task stack nor the `sp` of a TCB. -/
def Apart (a : Word) : Prop := (∀ t, ¬ L.InStack t a) ∧ ∀ t < L.tasks.length, a ≠ L.tcb t

/-- The words of `os_dummy_stack`, the one that `PUSH {LR}` writes, and SCB->ICSR. -/
def Scratch (a : Word) : Prop := a ∈ wordAddrs L.dummyStack 8 ∨ a = L.msp - 4 ∨ a = scbIcsr

/-- What `osTaskCreate` accepts and the linker guarantees: stacks are arrays of words,
`os_dummy_stack` is aligned to eight bytes, and no two of the objects overlap. -/
structure Placed : Prop where
  count_le : L.tasks.length ≤ maxTasks
  aligned : ∀ t, (L.spec t).stack &&& 3#32 = 0
  words_ge : ∀ t < L.tasks.length, 16 ≤ L.stackWords t
  words_le : ∀ t, L.stackWords t ≤ 2 ^ 30
  dummy : L.dummyStack &&& 7#32 = 0
  disjoint : ∀ t u a, L.InStack t a → L.InStack u a → t = u
  reserved : ∀ a, L.Reserved a → ∀ t, ¬ L.InStack t a
  scratch : ∀ a, L.Scratch a → ¬ L.Reserved a ∧ ∀ t, ¬ L.InStack t a
  pool : ∀ t < L.tasks.length, L.tcb t ≠ L.currentTask ∧ L.tcb t ≠ Memory.wordOf L.rtosStarted
  globals : L.currentTask ≠ Memory.wordOf L.rtosStarted

/-- A hardware frame at `f` in the stack of task `t`, with eight words of the stack below it. -/
def FrameAt (t : TaskId) (f : Word) : Prop :=
  ∃ j, f = L.stackAddr t j ∧ 8 ≤ j ∧ j + 8 ≤ L.stackWords t

/-- There is room below `psp` for the hardware frame, its padding and the eight words of
`PendSV_Handler`. -/
def Room (t : TaskId) (psp : Word) : Prop :=
  ∃ i, psp = L.stackAddr t i ∧ i ≤ L.stackWords t ∧ (if psp.getLsbD 2 then 17 else 16) ≤ i

end Layout

/-- What `PendSV_Handler` saves itself. -/
def calleeRegs : List Reg := [.r4, .r5, .r6, .r7, .r8, .r9, .r10, .r11]

/-- What a task finds again when it is resumed: R4-R11, PSP and the hardware frame. -/
structure Context where
  callee : List Word
  psp : Word
  frame : List Word
  deriving DecidableEq, Repr

/-- The context of the task under the handler. -/
def context (c : Cpu) : Context :=
  ⟨calleeRegs.map c.reg, c.psp, c.mem.readWords c.psp 8⟩

/-- Task `t` is suspended with `ctx`: the TCB points to R4-R11, and the hardware frame lies
above them. -/
structure Suspended (L : Layout) (m : Memory) (t : TaskId) (ctx : Context) : Prop where
  frame_at : L.FrameAt t ctx.psp
  sp : m (L.tcb t) = ctx.psp - 32
  callee : m.readWords (ctx.psp - 32) 8 = ctx.callee
  frame : m.readWords ctx.psp 8 = ctx.frame

namespace Layout
variable {L : Layout}

theorem tcb_inj (h : L.Placed) {t u : Nat} (ht : t < L.tasks.length) (hu : u < L.tasks.length)
    (eq : L.tcb t = L.tcb u) : t = u := by
  have small : ∀ v : Nat, v < L.tasks.length → 36 * v < 2 ^ 32 := by
    intro v hv
    have le : L.tasks.length ≤ 8 := h.count_le
    omega
  have offset := congrArg BitVec.toNat (add_left_cancel eq)
  rw [BitVec.toNat_ofNat, BitVec.toNat_ofNat, Nat.mod_eq_of_lt (small t ht),
    Nat.mod_eq_of_lt (small u hu)] at offset
  omega

theorem reserved_tcb {t : TaskId} (ht : t < L.tasks.length) : L.Reserved (L.tcb t) := .inl ⟨t, ht, rfl⟩

theorem reserved_current : L.Reserved L.currentTask := .inr (.inl rfl)

theorem reserved_started : L.Reserved (Memory.wordOf L.rtosStarted) := .inr (.inr rfl)

theorem Scratch.apart {a : Word} (h : L.Scratch a) (placed : L.Placed) : L.Apart a := by
  obtain ⟨free, out⟩ := placed.scratch a h
  exact ⟨out, fun t ht eq => free (eq ▸ reserved_tcb ht)⟩

namespace FrameAt
variable {t : TaskId} {f : Word}

theorem inStack (h : L.FrameAt t f) {i : Nat} (hi : i < 8) : L.InStack t (wordAddr f i) := by
  obtain ⟨j, rfl, low, high⟩ := h
  exact ⟨j + i, by omega, by rw [stackAddr, wordAddr_wordAddr]; rfl⟩

theorem below (h : L.FrameAt t f) : ∃ j, f - 32 = L.stackAddr t j ∧ j + 16 ≤ L.stackWords t := by
  obtain ⟨j, rfl, low, high⟩ := h
  exact ⟨j - 8, wordAddr_sub _ _ 8 low, by omega⟩

theorem inStack_below (h : L.FrameAt t f) {i : Nat} (hi : i < 16) :
    L.InStack t (wordAddr (f - 32) i) := by
  obtain ⟨j, eq, high⟩ := h.below
  exact ⟨j + i, by omega, by rw [eq, stackAddr, wordAddr_wordAddr]; rfl⟩

theorem aligned (h : L.FrameAt t f) (placed : L.Placed) : f &&& ~~~3#32 = f := by
  obtain ⟨j, rfl, -, -⟩ := h
  exact and_not_three (aligned_wordAddr (placed.aligned t) j)

end FrameAt

theorem Room.of_le {t : TaskId} {psp : Word} {i : Nat} (at_ : psp = L.stackAddr t i)
    (high : i ≤ L.stackWords t) (low : 17 ≤ i) : L.Room t psp := by
  refine ⟨i, at_, high, ?_⟩
  split_ifs <;> omega

/-- The exception entry puts the frame where `PendSV_Handler` has room below it. -/
theorem Room.frameAt {t : TaskId} {psp : Word} (h : L.Room t psp) : L.FrameAt t (frameAddr psp) := by
  obtain ⟨i, rfl, high, low⟩ := h
  rw [frameAddr_eq]
  split_ifs at low ⊢
  · exact ⟨i - 9, wordAddr_sub _ _ 9 (by omega), by omega, by omega⟩
  · exact ⟨i - 8, wordAddr_sub _ _ 8 (by omega), by omega, by omega⟩

end Layout

theorem Suspended.keep {L : Layout} {m m' : Memory} {t : TaskId} {ctx : Context}
    (h : Suspended L m t ctx) (stack : ∀ a, L.InStack t a → m' a = m a)
    (sp : m' (L.tcb t) = m (L.tcb t)) : Suspended L m' t ctx := by
  refine ⟨h.frame_at, sp.trans h.sp, ?_, ?_⟩
  · rw [Memory.readWords_congr fun i hi => stack _ (h.frame_at.inStack_below (by omega))]
    exact h.callee
  · rw [Memory.readWords_congr fun i hi => stack _ (h.frame_at.inStack hi)]
    exact h.frame

end Rtos
