import Rtos.Machine.PendSv

/-! Memory and registers when `_rtos_start` waits for the first switch: every task is suspended
with the frame that `os_task_stack_init` has written. -/
namespace Rtos
open Lib

/-- `OS_STACK_SENTINEL` -/
def osStackSentinel : Word := 0xA5A5A5A5#32

/-- The painting loop of `os_task_stack_init`. -/
def paintStack (m : Memory) (stack : Word) : Nat → Memory
  | 0 => m
  | i + 1 => Function.update (paintStack m stack i) (wordAddr stack i) osStackSentinel

/-- `*(--sp) = v` -/
def pushWord (s : Memory × Word) (v : Word) : Memory × Word :=
  (Function.update s.1 (s.2 - 4) v, s.2 - 4)

/-- xPSR, PC, LR, R12, R3 to R0, and R11 to R4, in the order of the pushes. -/
def initialFrame (func taskExit : Word) : List Word :=
  [0x01000000#32, func, taskExit, 0, 0, 0, 0, 0, 0, 0, 0, 0, 0, 0, 0, 0]

def osTaskStackInit (m : Memory) (tcb taskExit : Word) (spec : TaskSpec) : Memory :=
  let painted := paintStack m spec.stack spec.stackWords.toNat
  let pushed := (initialFrame spec.func taskExit).foldl pushWord
    (painted, wordAddr spec.stack spec.stackWords.toNat)
  Function.update pushed.1 tcb pushed.2

namespace Layout

/-- The words that the first `n` calls of `osTaskCreate` write, up to the rest of the TCBs. -/
def createTasks (L : Layout) (m : Memory) : Nat → Memory
  | 0 => m
  | t + 1 =>
    let m := osTaskStackInit (createTasks L m t) (L.tcb t) L.taskExit (L.spec t)
    if t = 0 then Function.update m L.currentTask (L.tcb t) else m

section defs
variable (L : Layout)

/-- `osTaskCreate` for every task, then `osStart`. -/
def startMemory (m : Memory) : Memory :=
  let m := L.createTasks m L.tasks.length
  if 0 < L.tasks.length then Function.update m L.currentTask (L.tcb (L.tasks.length - 1)) else m

/-- What a task finds when it runs for the first time. -/
def created (t : TaskId) : Context :=
  { callee := [0, 0, 0, 0, 0, 0, 0, 0]
    psp := L.stackAddr t (L.stackWords t - 8)
    frame := [0, 0, 0, 0, 0, L.taskExit, (L.spec t).func, 0x01000000#32] }

/-- The core spins in `_rtos_start`, and the first switch is pending. The zero-initialised
`rtos_started` has not been written yet. -/
def Starts (c : Cpu) : Prop :=
  ∃ (m : Memory) (b : Cpu), m.readByte L.rtosStarted = 0 ∧ b.mem = L.startMemory m ∧
    b.msp = L.msp ∧ c = b.run (rtosStart L)

end defs

end Layout

theorem paintStack_other {m : Memory} {stack a : Word} {n : Nat} (out : a ∉ wordAddrs stack n) :
    paintStack m stack n a = m a := by
  induction n with
  | zero => rfl
  | succ n ih =>
    rw [mem_wordAddrs] at out
    rw [paintStack, Function.update_of_ne, ih]
    · rw [mem_wordAddrs]
      rintro ⟨i, hi, rfl⟩
      exact out ⟨i, by omega, rfl⟩
    · rintro rfl
      exact out ⟨n, Nat.lt_succ_self n, rfl⟩

/-- Words pushed down to `a` are read up from there in reverse. -/
theorem pushWords_spec {m : Memory} {a : Word} (vs : List Word) (fits : vs.length ≤ 2 ^ 30) :
    let s := vs.foldl pushWord (m, wordAddr a vs.length)
    s.2 = a ∧ s.1.readWords a vs.length = vs.reverse ∧
      ∀ b, b ∉ wordAddrs a vs.length → s.1 b = m b := by
  induction vs generalizing m with
  | nil => exact ⟨wordAddr_zero a, rfl, fun _ _ => rfl⟩
  | cons v vs ih =>
    simp only [List.length_cons] at fits
    have down : wordAddr a (vs.length + 1) - 4 = wordAddr a vs.length :=
      wordAddr_sub a (vs.length + 1) 1 (by omega)
    obtain ⟨sp, words, other⟩ := ih (m := Function.update m (wordAddr a vs.length) v) (by omega)
    rw [List.foldl_cons, List.length_cons, pushWord, down]
    refine ⟨sp, ?_, fun b out => ?_⟩
    · have top : wordAddr a vs.length ∉ wordAddrs a vs.length := by
        rw [mem_wordAddrs]
        rintro ⟨i, hi, eq⟩
        rw [wordAddr_inj _ _ _ (by omega) (by omega)] at eq
        omega
      rw [Memory.readWords_append, words, Memory.readWords_one, other _ top, Function.update_self,
        List.reverse_cons]
    · rw [mem_wordAddrs] at out
      rw [other, Function.update_of_ne]
      · rintro rfl
        exact out ⟨vs.length, Nat.lt_succ_self _, rfl⟩
      · rw [mem_wordAddrs]
        rintro ⟨i, hi, rfl⟩
        exact out ⟨i, Nat.lt_succ_of_lt hi, rfl⟩

namespace Layout
variable {L : Layout} {m : Memory} {t : TaskId}

theorem top_eq (placed : L.Placed) (ht : t < L.tasks.length) :
    wordAddr (L.spec t).stack (L.spec t).stackWords.toNat =
      wordAddr (L.stackAddr t (L.stackWords t - 16)) 16 := by
  have ge := placed.words_ge t ht
  rw [stackAddr, wordAddr_wordAddr, Nat.sub_add_cancel ge]; rfl

theorem created_top (placed : L.Placed) (ht : t < L.tasks.length) :
    unstackedSp (L.created t).psp 0x01000000#32 = L.stackAddr t (L.stackWords t) := by
  have ge := placed.words_ge t ht
  have flag : (0x01000000#32 : Word).getLsbD 9 = false := by decide
  have top : L.stackAddr t (L.stackWords t - 8) + 32 = L.stackAddr t (L.stackWords t) := by
    refine (wordAddr_wordAddr _ _ 8).trans ?_
    rw [Nat.sub_add_cancel (by omega)]; rfl
  rw [unstackedSp, flag, created, top]
  exact BitVec.or_zero

theorem stackInit_other (placed : L.Placed) (ht : t < L.tasks.length) {a : Word}
    (out : ¬ L.InStack t a) (ne : a ≠ L.tcb t) :
    osTaskStackInit m (L.tcb t) L.taskExit (L.spec t) a = m a := by
  have ge := placed.words_ge t ht
  rw [osTaskStackInit, top_eq placed ht, Function.update_of_ne ne]
  obtain ⟨-, -, other⟩ := pushWords_spec (m := paintStack m (L.spec t).stack (L.stackWords t))
    (a := L.stackAddr t (L.stackWords t - 16)) (initialFrame (L.spec t).func L.taskExit)
    (by simp [initialFrame])
  refine (other a ?_).trans (paintStack_other ?_)
  · rw [mem_wordAddrs]
    rintro ⟨i, hi, rfl⟩
    simp only [initialFrame, List.length_cons, List.length_nil] at hi
    exact out ⟨L.stackWords t - 16 + i, by omega, wordAddr_wordAddr ..⟩
  · rw [mem_wordAddrs]
    exact out

/-- The pushed frame is the one that `PendSV_Handler` and the exception return expect. -/
theorem stackInit_suspended (placed : L.Placed) (ht : t < L.tasks.length) :
    Suspended L (osTaskStackInit m (L.tcb t) L.taskExit (L.spec t)) t (L.created t) := by
  have ge := placed.words_ge t ht
  have frame : L.FrameAt t (L.created t).psp := ⟨_, rfl, by omega, by omega⟩
  have bottom : (L.created t).psp - 32 = L.stackAddr t (L.stackWords t - 16) :=
    (wordAddr_sub _ _ 8 (by omega)).trans (congrArg _ (Nat.sub_sub _ 8 8))
  obtain ⟨sp, words, -⟩ := pushWords_spec (m := paintStack m (L.spec t).stack (L.stackWords t))
    (a := L.stackAddr t (L.stackWords t - 16)) (initialFrame (L.spec t).func L.taskExit)
    (by simp [initialFrame])
  have stack : ∀ a, L.InStack t a → osTaskStackInit m (L.tcb t) L.taskExit (L.spec t) a =
      ((initialFrame (L.spec t).func L.taskExit).foldl pushWord
        (paintStack m (L.spec t).stack (L.stackWords t),
          wordAddr (L.stackAddr t (L.stackWords t - 16)) 16)).1 a := by
    intro a mem
    rw [osTaskStackInit, top_eq placed ht, Function.update_of_ne]
    · rfl
    · rintro rfl
      exact placed.reserved _ (reserved_tcb ht) t mem
  have words16 : (osTaskStackInit m (L.tcb t) L.taskExit (L.spec t)).readWords
      (L.stackAddr t (L.stackWords t - 16)) 16 = (L.created t).callee ++ (L.created t).frame := by
    rw [Memory.readWords_congr fun i hi => stack _ ?_]
    · exact words
    · rw [← bottom]; exact frame.inStack_below hi
  rw [Memory.readWords_append 8 8, ← bottom] at words16
  obtain ⟨callee, frame_eq⟩ := List.append_inj words16 (by simp [created])
  refine ⟨frame, ?_, callee, ?_⟩
  · rw [osTaskStackInit, Function.update_self, top_eq placed ht]
    exact sp.trans bottom.symm
  · rw [← frame_eq]
    exact congrArg (Memory.readWords _ · 8) (sub_add_cancel (L.created t).psp 32).symm

theorem createTasks_spec (placed : L.Placed) {n : Nat} (hn : n ≤ L.tasks.length) :
    (∀ u < n, Suspended L (L.createTasks m n) u (L.created u)) ∧
    (L.createTasks m n).readByte L.rtosStarted = m.readByte L.rtosStarted := by
  induction n with
  | zero => exact ⟨by simp, rfl⟩
  | succ n ih =>
    obtain ⟨before, byte⟩ := ih (by omega)
    have other : ∀ a, ¬ L.InStack n a → a ≠ L.tcb n → a ≠ L.currentTask →
        L.createTasks m (n + 1) a = L.createTasks m n a := by
      intro a out ne ne'
      rw [createTasks]
      split_ifs
      · rw [Function.update_of_ne ne', stackInit_other placed hn out ne]
      · exact stackInit_other placed hn out ne
    have fresh : Suspended L (L.createTasks m (n + 1)) n (L.created n) := by
      have init := stackInit_suspended (m := L.createTasks m n) placed hn
      rw [createTasks]
      split_ifs
      · refine init.keep (fun a mem => ?_) ?_
        · rw [Function.update_of_ne]
          rintro rfl
          exact placed.reserved _ reserved_current n mem
        · rw [Function.update_of_ne (placed.pool n hn).1]
      · exact init
    refine ⟨fun u hu => ?_, ?_⟩
    · by_cases new : u = n
      · rw [new]; exact fresh
      · have hu' : u < L.tasks.length := by omega
        refine (before u (by omega)).keep (fun a mem => other a ?_ ?_ ?_) (other _ ?_ ?_ ?_)
        · exact fun mem' => new (placed.disjoint _ _ _ mem mem')
        · rintro rfl; exact placed.reserved _ (reserved_tcb hn) u mem
        · rintro rfl; exact placed.reserved _ reserved_current u mem
        · exact placed.reserved _ (reserved_tcb hu') n
        · exact fun eq => new (tcb_inj placed hu' hn eq)
        · exact (placed.pool u hu').1
    · rw [Memory.readByte_congr (other _ ?_ ?_ ?_), byte]
      · exact placed.reserved _ reserved_started n
      · exact (placed.pool n hn).2.symm
      · exact placed.globals.symm

theorem startMemory_other {a : Word} (other : a ≠ L.currentTask) :
    L.startMemory m a = L.createTasks m L.tasks.length a := by
  rw [startMemory]
  split_ifs
  · exact Function.update_of_ne other _ _
  · rfl

theorem Starts.spec {c : Cpu} (h : L.Starts c) (placed : L.Placed) :
    c.psp = wordAddr L.dummyStack 8 ∧ c.spsel = true ∧ c.msp = L.msp ∧
    c.mem.readByte L.rtosStarted = 0 ∧
    ∀ t < L.tasks.length, Suspended L c.mem t (L.created t) := by
  obtain ⟨m, b, zero, mem, msp, rfl⟩ := h
  obtain ⟨suspended, byte⟩ := createTasks_spec (m := m) placed le_rfl
  have run : (b.run (rtosStart L)).psp = wordAddr L.dummyStack 8 &&& ~~~3#32 ∧
      (b.run (rtosStart L)).spsel = true ∧ (b.run (rtosStart L)).msp = b.msp ∧
      (b.run (rtosStart L)).mem = Function.update b.mem scbIcsr (1#32 <<< 28) := by
    simp [rtosStart, Cpu.run, Instr.exec, Cpu.setReg, Cpu.setResult, Cpu.store, wordAddr]
  have scratch := placed.scratch scbIcsr (.inr (.inr rfl))
  have same : ∀ a, a ≠ scbIcsr → a ≠ L.currentTask →
      (b.run (rtosStart L)).mem a = L.createTasks m L.tasks.length a := by
    intro a icsr current
    rw [run.2.2.2, Function.update_of_ne icsr, mem, startMemory_other current]
  have low : L.dummyStack &&& 3#32 = 0 := by
    rw [show (3#32 : Word) = 7#32 &&& 3#32 from rfl, ← BitVec.and_assoc, placed.dummy]; rfl
  refine ⟨?_, run.2.1, run.2.2.1.trans msp, ?_, fun t ht => ?_⟩
  · rw [run.1, and_not_three (aligned_wordAddr low 8)]
  · rw [Memory.readByte_congr (same _ ?_ placed.globals.symm), byte, zero]
    intro eq
    exact scratch.1 (eq ▸ reserved_started)
  · refine (suspended t ht).keep (fun a mem => same a ?_ ?_) (same _ ?_ (placed.pool t ht).1)
    · rintro rfl; exact scratch.2 t mem
    · rintro rfl; exact placed.reserved _ reserved_current t mem
    · intro eq
      exact scratch.1 (eq ▸ reserved_tcb ht)

end Layout

end Rtos
