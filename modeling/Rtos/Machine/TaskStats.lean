import Rtos.Lib.Run
import Rtos.Machine.Create

/-! `osGetTaskStats`. Its scan for the stack high-water mark is not masked, so the measured task
and every interrupt may write between two iterations. -/
namespace Rtos
open Lib

/-- `TaskStats_t` -/
structure TaskStats where
  name : String
  state : TaskState
  priority : BitVec 8
  runTicks : Word
  runCount : Word
  stackHwmWords : Word
  stackTotalWords : Word
  deriving DecidableEq, Repr

/-- Where a call of `osGetTaskStats` stands. -/
inductive StatsPc where
  | enter
  /-- behind the critical section -/
  | copy
  /-- at the head of the loop -/
  | scan (i unused : Word)
  | returned
  deriving DecidableEq, Repr

/-- The kernel, the memory that holds the stacks, and the latest call for one task. `out` is what
its `*out` holds, and `none` for NULL. -/
structure Probe where
  k : Kernel
  mem : Memory
  pc : StatsPc
  out : Option TaskStats

namespace Probe

def write (s : Probe) (a v : Word) : Probe := { s with mem := Function.update s.mem a v }

def call (s : Probe) (out : Option TaskStats) : Probe := { s with pc := .enter, out := out }

/-- Task `t` has just been created, and no call is active. -/
def fresh (k : Kernel) (m : Memory) (tcb taskExit : Word) (spec : TaskSpec) : Probe :=
  { k := k, mem := osTaskStackInit m tcb taskExit spec, pc := .returned, out := none }

end Probe

/-- The loop body, or what follows the loop. -/
def scanStep (tcb : Tcb) (m : Memory) (out : TaskStats) (i unused : Word) : StatsPc × TaskStats :=
  if i < tcb.stackWords ∧ m (wordAddr tcb.stackBase i.toNat) = osStackSentinel then
    (.scan (i + 1) (unused + 1), out)
  else (.returned, { out with stackHwmWords := tcb.stackWords - unused })

/-- One step of `osGetTaskStats(t, out)`. -/
def osGetTaskStats (t : TaskId) (s : Probe) : Probe :=
  match s.out with
  | none => { s with pc := .returned }
  | some out =>
    let tcb := s.k.taskPool t
    match s.pc with
    | .enter =>
      if s.k.taskCount ≤ t then { s with pc := .returned }
      else { s with
        pc := .copy
        out := some { out with
          runTicks := tcb.runTicks, runCount := tcb.runCount, state := tcb.state } }
    | .copy => { s with
        pc := .scan 0 0
        out := some { out with
          name := tcb.name, priority := tcb.priority, stackTotalWords := tcb.stackWords } }
    | .scan i unused =>
      let (pc, out) := scanStep tcb s.mem out i unused
      { s with pc := pc, out := some out }
    | .returned => s

/-- What the kernel does not change after the creation of `t`. Other tasks may still be created. -/
structure SameTask (t : TaskId) (k k' : Kernel) : Prop where
  count : k.taskCount ≤ k'.taskCount
  stackBase : (k'.taskPool t).stackBase = (k.taskPool t).stackBase
  stackWords : (k'.taskPool t).stackWords = (k.taskPool t).stackWords
  name : (k'.taskPool t).name = (k.taskPool t).name
  priority : (k'.taskPool t).priority = (k.taskPool t).priority

inductive ProbeAction where
  | write (a v : Word)
  | kernel
  | call
  | stats
  deriving DecidableEq, Repr

/-- A word of the stack is written with any value but the sentinel; words elsewhere with any. -/
inductive ProbeStep (t : TaskId) : Probe → ProbeAction → Probe → Prop where
  | write {s : Probe} {a v : Word}
      (value : a ∈ wordAddrs (s.k.taskPool t).stackBase (s.k.taskPool t).stackWords.toNat →
        v ≠ osStackSentinel) :
      ProbeStep t s (.write a v) (s.write a v)
  | kernel {s : Probe} {k' : Kernel} (same : SameTask t s.k k') :
      ProbeStep t s .kernel { s with k := k' }
  | call {s : Probe} {out : Option TaskStats} (idle : s.pc = .returned) :
      ProbeStep t s .call (s.call out)
  | stats {s : Probe} : ProbeStep t s .stats (osGetTaskStats t s)

/-- The addresses written in a run. -/
def written (tr : List (Probe × ProbeAction)) : List Word :=
  tr.filterMap fun p => match p.2 with
    | .write a _ => some a
    | _ => none

/-- The lowest stack index written since the painting, the initial frame included. -/
def lowestWritten (spec : TaskSpec) (as : List Word) : Nat :=
  ((List.range (spec.stackWords.toNat - 16)).find? fun i => wordAddr spec.stack i ∈ as).getD
    (spec.stackWords.toNat - 16)

theorem lowestWritten_spec (spec : TaskSpec) (as : List Word) :
    lowestWritten spec as ≤ spec.stackWords.toNat - 16 ∧
    (lowestWritten spec as = spec.stackWords.toNat - 16 ∨
      wordAddr spec.stack (lowestWritten spec as) ∈ as) ∧
    ∀ i < lowestWritten spec as, wordAddr spec.stack i ∉ as := by
  unfold lowestWritten
  cases found : (List.range (spec.stackWords.toNat - 16)).find? fun i => wordAddr spec.stack i ∈ as with
  | none =>
    rw [List.find?_range_eq_none] at found
    exact ⟨le_rfl, .inl rfl, fun i hi => by simpa using found i hi⟩
  | some low =>
    obtain ⟨mem, inside, first⟩ := List.find?_range_eq_some.mp found
    refine ⟨(List.mem_range.mp inside).le, .inr (by simpa using mem), fun i hi => ?_⟩
    simpa using first i hi

/-- Words that nobody has written still hold the sentinel, and the others do not. -/
structure Painted (spec : TaskSpec) (as : List Word) (m : Memory) : Prop where
  unwritten : ∀ i < spec.stackWords.toNat - 16, wordAddr spec.stack i ∉ as →
    m (wordAddr spec.stack i) = osStackSentinel
  written : ∀ i < spec.stackWords.toNat, i = spec.stackWords.toNat - 16 ∨ wordAddr spec.stack i ∈ as →
    m (wordAddr spec.stack i) ≠ osStackSentinel

theorem paintStack_sentinel {m : Memory} {stack : Word} {n i : Nat} (fits : n ≤ 2 ^ 30) (hi : i < n) :
    paintStack m stack n (wordAddr stack i) = osStackSentinel := by
  induction n with
  | zero => omega
  | succ n ih =>
    rw [paintStack]
    by_cases last : i = n
    · rw [last, Function.update_self]
    · rw [Function.update_of_ne, ih (by omega) (by omega)]
      rw [ne_eq, wordAddr_inj _ _ _ (by omega) (by omega)]
      exact last

theorem stackInit_painted {m : Memory} {tcb taskExit : Word} {spec : TaskSpec}
    (words : 16 ≤ spec.stackWords.toNat) (fits : spec.stackWords.toNat ≤ 2 ^ 30)
    (apart : tcb ∉ wordAddrs spec.stack spec.stackWords.toNat) :
    Painted spec [] (osTaskStackInit m tcb taskExit spec) := by
  have top : wordAddr spec.stack spec.stackWords.toNat =
      wordAddr (wordAddr spec.stack (spec.stackWords.toNat - 16)) 16 := by
    rw [wordAddr_wordAddr, Nat.sub_add_cancel words]
  obtain ⟨-, frame, below⟩ := pushWords_spec
    (m := paintStack m spec.stack spec.stackWords.toNat)
    (a := wordAddr spec.stack (spec.stackWords.toNat - 16)) (initialFrame spec.func taskExit)
    (by simp [initialFrame])
  have inside : ∀ i < spec.stackWords.toNat, wordAddr spec.stack i ≠ tcb := by
    rintro i hi rfl
    exact apart (mem_wordAddrs.mpr ⟨i, hi, rfl⟩)
  constructor
  · intro i hi _
    rw [osTaskStackInit, top, Function.update_of_ne (inside i (by omega))]
    refine (below _ ?_).trans (paintStack_sentinel fits (by omega))
    rw [mem_wordAddrs]
    rintro ⟨j, hj, eq⟩
    simp only [initialFrame, List.length_cons, List.length_nil] at hj
    rw [wordAddr_wordAddr, wordAddr_inj _ _ _ (by omega) (by omega)] at eq
    omega
  · rintro i hi (rfl | mem)
    · rw [osTaskStackInit, top, Function.update_of_ne (inside _ hi)]
      -- R4 is the last word pushed
      have r4 := Option.some.inj (congrArg List.head? frame)
      exact fun eq => absurd (r4.symm.trans eq) (by decide)
    · cases mem

theorem Painted.write {spec : TaskSpec} {as : List Word} {m : Memory} (h : Painted spec as m)
    {a v : Word} (value : a ∈ wordAddrs spec.stack spec.stackWords.toNat → v ≠ osStackSentinel) :
    Painted spec (as ++ [a]) (Function.update m a v) := by
  constructor
  · intro i hi out
    rw [List.mem_append, List.mem_singleton, not_or] at out
    rw [Function.update_of_ne out.2]
    exact h.unwritten i hi out.1
  · intro i hi touched
    by_cases eq : wordAddr spec.stack i = a
    · rw [eq, Function.update_self]
      exact value (mem_wordAddrs.mpr ⟨i, hi, eq.symm⟩)
    · rw [Function.update_of_ne eq]
      exact h.written i hi (touched.imp_right fun mem => by simpa [eq] using mem)

/-- A scan does not pass the lowest word written before it began. -/
theorem Painted.stops {spec : TaskSpec} {as as' : List Word} {m : Memory} (h : Painted spec as' m)
    (words : 16 ≤ spec.stackWords.toNat) (before : as ⊆ as') :
    m (wordAddr spec.stack (lowestWritten spec as)) ≠ osStackSentinel := by
  obtain ⟨bound, touched, -⟩ := lowestWritten_spec spec as
  exact h.written _ (by omega) (touched.imp_right fun mem => before mem)

/-- What a run from the creation of `t` keeps, after the writes `as`. -/
structure ProbeInv (t : TaskId) (spec : TaskSpec) (as : List Word) (s : Probe) : Prop where
  stackBase : (s.k.taskPool t).stackBase = spec.stack
  stackWords : (s.k.taskPool t).stackWords = spec.stackWords
  painted : Painted spec as s.mem

theorem osGetTaskStats_frame (t : TaskId) (s : Probe) :
    (osGetTaskStats t s).k = s.k ∧ (osGetTaskStats t s).mem = s.mem := by
  unfold osGetTaskStats
  split
  · exact ⟨rfl, rfl⟩
  · split
    · split <;> exact ⟨rfl, rfl⟩
    · exact ⟨rfl, rfl⟩
    · exact ⟨rfl, rfl⟩
    · exact ⟨rfl, rfl⟩

theorem written_snoc (tr : List (Probe × ProbeAction)) (p : Probe × ProbeAction) :
    written (tr ++ [p]) = written tr ++ written [p] :=
  List.filterMap_append

section run
variable {t : TaskId} {spec : TaskSpec} {as : List Word} {s u : Probe}

theorem ProbeInv.next {a : ProbeAction} (h : ProbeInv t spec as s) (step : ProbeStep t s a u) :
    ProbeInv t spec (as ++ written [(s, a)]) u := by
  cases step with
  | write value =>
    rw [h.stackBase, h.stackWords] at value
    exact ⟨h.stackBase, h.stackWords, h.painted.write value⟩
  | kernel same =>
    rw [show written [(s, .kernel)] = [] from rfl, List.append_nil]
    exact ⟨same.stackBase.trans h.stackBase, same.stackWords.trans h.stackWords, h.painted⟩
  | call =>
    rw [show written [(s, .call)] = [] from rfl, List.append_nil]
    exact ⟨h.stackBase, h.stackWords, h.painted⟩
  | stats =>
    rw [show written [(s, .stats)] = [] from rfl, List.append_nil]
    obtain ⟨k, mem⟩ := osGetTaskStats_frame t s
    exact ⟨by rw [k]; exact h.stackBase, by rw [k]; exact h.stackWords, by rw [mem]; exact h.painted⟩

theorem ProbeInv.run {tr : List (Probe × ProbeAction)} (h : ProbeInv t spec as s)
    (run : Run (ProbeStep t) s tr u) : ProbeInv t spec (as ++ written tr) u := by
  induction run with
  | nil => simpa [written] using h
  | snoc _ step ih =>
    rw [written_snoc, ← List.append_assoc]
    exact ih.next step

theorem ProbeInv.scan {i unused : Word} {out : TaskStats} (h : ProbeInv t spec as s)
    (at_ : s.pc = .scan i unused) (hout : s.out = some out)
    (inside : i.toNat < spec.stackWords.toNat) : osGetTaskStats t s =
      if s.mem (wordAddr spec.stack i.toNat) = osStackSentinel then
        { s with pc := .scan (i + 1) (unused + 1) }
      else { s with
        pc := .returned
        out := some { out with stackHwmWords := spec.stackWords - unused } } := by
  have inside' : i < spec.stackWords := BitVec.lt_def.mpr inside
  simp only [osGetTaskStats, hout, at_, scanStep, h.stackBase, h.stackWords, inside', true_and]
  split
  · simp only [← hout]
  · rfl

/-- The scan has counted every word that it has passed, and has not passed the lowest word written
before it began. -/
def Counted (spec : TaskSpec) (as : List Word) (s : Probe) : Prop :=
  ∀ i unused, s.pc = .scan i unused → unused = i ∧ i.toNat ≤ lowestWritten spec as

theorem Counted.next {as' : List Word} {a : ProbeAction} (h : Counted spec as s)
    (inv : ProbeInv t spec as' s) (words : 16 ≤ spec.stackWords.toNat) (before : as ⊆ as')
    (step : ProbeStep t s a u) : Counted spec as u := by
  cases step with
  | write | kernel => exact h
  | call => exact fun i unused at_ => by cases at_
  | stats =>
    intro i unused at_
    cases hout : s.out with
    | none => simp [osGetTaskStats, hout] at at_
    | some out =>
      cases pc : s.pc with
      | enter =>
        simp only [osGetTaskStats, hout, pc] at at_
        split at at_ <;> cases at_
      | copy =>
        simp only [osGetTaskStats, hout, pc, StatsPc.scan.injEq] at at_
        obtain ⟨rfl, rfl⟩ := at_
        exact ⟨rfl, Nat.zero_le _⟩
      | returned =>
        simp only [osGetTaskStats, hout, pc] at at_
        cases at_
      | scan j counted =>
        obtain ⟨rfl, le⟩ := h j counted pc
        have bound := (lowestWritten_spec spec as).1
        rw [inv.scan pc hout (by omega)] at at_
        split at at_
        · rename_i sentinel
          obtain ⟨rfl, rfl⟩ := StatsPc.scan.inj at_
          have ne : counted.toNat ≠ lowestWritten spec as := fun eq =>
            inv.painted.stops words before (eq ▸ sentinel)
          refine ⟨rfl, ?_⟩
          have range := spec.stackWords.isLt
          have next : (counted + 1).toNat = counted.toNat + 1 := by
            rw [BitVec.toNat_add]
            exact Nat.mod_eq_of_lt (show counted.toNat + 1 < 2 ^ 32 by omega)
          omega
        · cases at_

theorem Counted.run {us : List (Probe × ProbeAction)} (h : Counted spec as s)
    (inv : ProbeInv t spec as s) (words : 16 ≤ spec.stackWords.toNat) (run : Run (ProbeStep t) s us u) :
    Counted spec as u := by
  induction run with
  | nil => exact h
  | snoc prior step ih =>
    exact ih.next (inv.run prior) words (List.subset_append_left _ _) step

theorem Counted.start (begins : s.pc = .scan 0 0) : Counted spec as s := by
  intro i unused at_
  rw [begins] at at_
  cases at_
  exact ⟨rfl, Nat.zero_le _⟩

/-- How often the call itself has gone on. -/
def iterations (us : List (Probe × ProbeAction)) : Nat := us.countP fun p => p.2 = .stats

end run

theorem fresh_inv {k k₀ : Kernel} {spec : TaskSpec} {m : Memory} {tcb taskExit : Word}
    (created : osTaskCreate k spec = some k₀) (fits : spec.stackWords.toNat ≤ 2 ^ 30)
    (apart : tcb ∉ wordAddrs spec.stack spec.stackWords.toNat) :
    16 ≤ spec.stackWords.toNat ∧
    ProbeInv k.taskCount spec [] (Probe.fresh k₀ m tcb taskExit spec) := by
  unfold osTaskCreate at created
  split at created
  · cases created
  split at created
  · cases created
  rename_i room small
  cases Option.some.inj created
  have words : 16 ≤ spec.stackWords.toNat := BitVec.le_def.mp (BitVec.not_lt.mp small)
  refine ⟨words, ?_, ?_, stackInit_painted words fits apart⟩
  · simp [Probe.fresh, Kernel.setTask, newTcb]
  · simp [Probe.fresh, Kernel.setTask, newTcb]

end Rtos
