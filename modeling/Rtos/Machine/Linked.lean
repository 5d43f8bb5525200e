import Mathlib.Tactic.MkIffOfInductiveProp
import Rtos.Machine.Create

/-! A link map is checked by evaluation: the tasks of `main.c` are placed as the context switch
needs it. -/
namespace Rtos
open Lib

namespace Layout
variable (L : Layout)

def reservedWords : List Word :=
  (List.range L.tasks.length).map L.tcb ++ [L.currentTask, Memory.wordOf L.rtosStarted]

def scratchWords : List Word := wordAddrs L.dummyStack 8 ++ [L.msp - 4, scbIcsr]

/-- Where the stack of task `t` ends. -/
def stackEnd (t : TaskId) : Nat := (L.spec t).stack.toNat + 4 * L.stackWords t

/-- The address `a` is not among those from the start to the end of a stack. -/
def Clear (a : Word) : Prop :=
  ∀ t < L.tasks.length, (L.spec t).stack.toNat ≤ a.toNat → L.stackEnd t ≤ a.toNat

/-- `Placed`, in terms of the addresses that a link map lists. -/
@[mk_iff]
structure Linked : Prop where
  count_le : L.tasks.length ≤ maxTasks
  aligned : ∀ t < L.tasks.length, (L.spec t).stack &&& 3#32 = 0
  words_ge : ∀ t < L.tasks.length, 16 ≤ L.stackWords t
  fits : ∀ t < L.tasks.length, L.stackEnd t ≤ 2 ^ 32
  dummy : L.dummyStack &&& 7#32 = 0
  disjoint : ∀ t < L.tasks.length, ∀ u < t,
    L.stackEnd t ≤ (L.spec u).stack.toNat ∨ L.stackEnd u ≤ (L.spec t).stack.toNat
  nodup : (L.reservedWords ++ L.scratchWords).Nodup
  clear : ∀ a ∈ L.reservedWords ++ L.scratchWords, L.Clear a

instance : DecidablePred L.Clear := fun a =>
  inferInstanceAs (Decidable (∀ t < L.tasks.length, _ → L.stackEnd t ≤ a.toNat))

instance : Decidable L.Linked :=
  letI := List.decidableBAll L.Clear (L.reservedWords ++ L.scratchWords)
  decidable_of_iff _ (linked_iff L).symm

variable {L}

theorem mem_reservedWords {a : Word} : a ∈ L.reservedWords ↔ L.Reserved a := by
  simp [reservedWords, Reserved, eq_comm]

theorem mem_scratchWords {a : Word} : a ∈ L.scratchWords ↔ L.Scratch a := by
  simp [scratchWords, Scratch]

theorem spec_default {t : TaskId} (out : L.tasks.length ≤ t) : L.spec t = ⟨"", 0, 0, 0, 0⟩ := by
  rw [spec, List.getD_eq_getElem?_getD, List.getElem?_eq_none out]; rfl

theorem InStack.lt {t : TaskId} {a : Word} (h : L.InStack t a) : t < L.tasks.length := by
  by_contra out
  obtain ⟨i, hi, -⟩ := h
  have none := spec_default (Nat.le_of_not_lt out)
  simp [stackWords, none] at hi

theorem Linked.range (h : L.Linked) {t : TaskId} {a : Word} (mem : L.InStack t a) :
    (L.spec t).stack.toNat ≤ a.toNat ∧ a.toNat < L.stackEnd t := by
  have fits := h.fits t mem.lt
  obtain ⟨i, hi, rfl⟩ := mem
  simp only [stackEnd] at fits ⊢
  have value : (L.stackAddr t i).toNat = (L.spec t).stack.toNat + 4 * i := by
    rw [stackAddr, wordAddr, BitVec.toNat_add, BitVec.toNat_ofNat]
    omega
  omega

theorem Linked.placed (h : L.Linked) : L.Placed := by
  have out : ∀ a ∈ L.reservedWords ++ L.scratchWords, ∀ t, ¬ L.InStack t a := by
    intro a mem t inStack
    have range := h.range inStack
    have clear := h.clear a mem t inStack.lt range.1
    omega
  have spec : ∀ t, t < L.tasks.length ∨ L.spec t = ⟨"", 0, 0, 0, 0⟩ := by
    intro t
    rcases Nat.lt_or_ge t L.tasks.length with lt | ge
    · exact .inl lt
    · exact .inr (spec_default ge)
  obtain ⟨reserved, -, apart⟩ := List.nodup_append.mp h.nodup
  obtain ⟨-, globals, pool⟩ := List.nodup_append.mp reserved
  have mem_pool : ∀ t < L.tasks.length, L.tcb t ∈ (List.range L.tasks.length).map L.tcb :=
    fun t ht => List.mem_map_of_mem (List.mem_range.mpr ht)
  constructor
  · exact h.count_le
  · intro t
    rcases spec t with lt | none
    · exact h.aligned t lt
    · rw [none]; rfl
  · exact h.words_ge
  · intro t
    rcases spec t with lt | none
    · have fits := h.fits t lt
      simp only [stackEnd] at fits
      omega
    · simp [stackWords, none]
  · exact h.dummy
  · intro t u a mem mem'
    have range := h.range mem
    have range' := h.range mem'
    rcases Nat.lt_trichotomy t u with lt | eq | gt
    · have := h.disjoint u mem'.lt t lt
      omega
    · exact eq
    · have := h.disjoint t mem.lt u gt
      omega
  · intro a res
    exact out a (List.mem_append_left _ (mem_reservedWords.mpr res))
  · intro a scratch
    have mem := mem_scratchWords.mpr scratch
    exact ⟨fun res => apart a (mem_reservedWords.mpr res) a mem rfl,
      out a (List.mem_append_right _ mem)⟩
  · intro t ht
    exact ⟨pool _ (mem_pool t ht) _ List.mem_cons_self,
      pool _ (mem_pool t ht) _ (List.mem_cons_of_mem _ List.mem_cons_self)⟩
  · simpa using globals

end Layout

/-- `main.c` at the addresses of `RTOS.map`, with a few words of the main stack in use. -/
def mainLayout : Layout :=
  { taskPool := 0x200003D8
    currentTask := 0x200004F8
    rtosStarted := 0x20000504
    dummyStack := 0x20000508
    taskExit := 0x08000809
    msp := 0x20002FF0
    tasks := mainTasks }

set_option maxRecDepth 2000 in
theorem mainLayout_placed : mainLayout.Placed := Layout.Linked.placed (by decide)

/-- The core in `_rtos_start`, before any register has been set. -/
def resetCpu (L : Layout) : Cpu :=
  { reg := fun _ => 0
    pc := 0
    xpsr := 0x01000000
    psp := 0
    msp := L.msp
    spsel := false
    primask := false
    zero := false
    mem := L.startMemory fun _ => 0
    reads := []
    writes := [] }

theorem resetCpu_starts (L : Layout) : L.Starts ((resetCpu L).run (rtosStart L)) := by
  have zero : Memory.readByte (fun _ => 0) L.rtosStarted = 0 := by
    simp [Memory.readByte]
  exact ⟨_, _, zero, rfl, rfl, rfl⟩

end Rtos
