import Rtos.Machine.Linked

/-! How much room a context save needs. The hardware aligns the frame to eight bytes, so that
sixteen free words are enough only where PSP is aligned already. -/
namespace Rtos
open Lib

/-- The exception entry and `pendsv_save` write words of the stack of `t` only, but for the `sp`
field of its TCB, and this points into the stack afterwards. -/
def SavedInside (L : Layout) (c : Cpu) (t : TaskId) : Prop :=
  ∃ ws, (pendSvHalf L c.exceptionEntry).writes = c.writes ++ ws ++ [L.tcb t] ∧
    (∀ a ∈ ws, L.InStack t a) ∧ L.InStack t ((pendSvHalf L c.exceptionEntry).mem (L.tcb t))

theorem low_bit {a : Word} (aligned : a &&& 3#32 = 0) : 8 ∣ a.toNat ↔ a.getLsbD 2 = false := by
  have four : a.toNat % 4 = 0 := (toNat_and_three a).symm.trans (congrArg BitVec.toNat aligned)
  simp only [BitVec.getLsbD, Nat.testBit_eq_decide_div_mod_eq, decide_eq_false_iff_not]
  omega

namespace Layout
variable {L : Layout} {t : TaskId}

/-- A stack does not fill the address space: `rtos_started` is elsewhere. -/
theorem Placed.words_lt (placed : L.Placed) (t : TaskId) : L.stackWords t < 2 ^ 30 := by
  have aligned := congrArg BitVec.toNat (placed.aligned t)
  have zero : Memory.wordOf L.rtosStarted &&& 3#32 = 0 := by
    rw [Memory.wordOf, BitVec.and_assoc]; exact BitVec.and_zero
  have other := congrArg BitVec.toNat zero
  rw [toNat_and_three] at aligned other
  by_contra full
  refine placed.reserved _ reserved_started t
    ⟨(Memory.wordOf L.rtosStarted - (L.spec t).stack).toNat / 4, by omega, ?_⟩
  rw [stackAddr, wordAddr]
  bv_omega

theorem Placed.below (placed : L.Placed) (t : TaskId) : ¬ L.InStack t (L.stackAddr t 7 - 32) := by
  rintro ⟨i, hi, eq⟩
  have words := placed.words_lt t
  rw [stackAddr, stackAddr, wordAddr, wordAddr] at eq
  bv_omega

end Layout

section save
variable {L : Layout} {c : Cpu} {t : TaskId} {d : Nat}

/-- Where the entry puts the frame, in words of the stack. -/
theorem frameAddr_index (psp : c.psp = L.stackAddr t (L.stackWords t - d))
    (free : d + 16 ≤ L.stackWords t) : ∃ j, frameAddr c.psp = L.stackAddr t j ∧
      j + (if c.psp.getLsbD 2 then 9 else 8) = L.stackWords t - d := by
  rw [frameAddr_eq]
  split_ifs
  · refine ⟨L.stackWords t - d - 9, ?_, by omega⟩
    rw [psp]; exact wordAddr_sub _ _ 9 (by omega)
  · refine ⟨L.stackWords t - d - 8, ?_, by omega⟩
    rw [psp]; exact wordAddr_sub _ _ 8 (by omega)

theorem entry_inside (psp : c.psp = L.stackAddr t (L.stackWords t - d))
    (free : d + 16 ≤ L.stackWords t) : ∀ a ∈ wordAddrs (frameAddr c.psp) 8, L.InStack t a := by
  obtain ⟨j, frame, index⟩ := frameAddr_index psp free
  intro a mem
  obtain ⟨i, hi, rfl⟩ := mem_wordAddrs.mp mem
  refine ⟨j + i, by split at index <;> omega, ?_⟩
  rw [frame, Layout.stackAddr, wordAddr_wordAddr]; rfl

theorem entry_other (thread : c.spsel = true) (psp : c.psp = L.stackAddr t (L.stackWords t - d))
    (free : d + 16 ≤ L.stackWords t) {a : Word} (out : ¬ L.InStack t a) :
    c.exceptionEntry.mem a = c.mem a := by
  rw [Cpu.exceptionEntry_psp thread]
  exact Memory.writeWords_other fun mem => out (entry_inside psp free a mem)

theorem save_writes (thread : c.spsel = true)
    (started : c.exceptionEntry.mem.readByte L.rtosStarted ≠ 0) :
    (pendSvHalf L c.exceptionEntry).writes =
      c.writes ++ (wordAddrs (frameAddr c.psp) 8 ++ wordAddrs (frameAddr c.psp - 32) 8) ++
        [savedRegs c.exceptionEntry L.currentTask] := by
  have entry : c.exceptionEntry.psp = frameAddr c.psp ∧
      c.exceptionEntry.writes = c.writes ++ wordAddrs (frameAddr c.psp) 8 := by
    rw [Cpu.exceptionEntry_psp thread]; exact ⟨rfl, rfl⟩
  rw [(pendSvHalf_save_stores L _ started).2, entry.1, entry.2, List.append_assoc c.writes]

/-- With room for the padding, everything lies inside. -/
theorem save_inside (placed : L.Placed) (thread : c.spsel = true)
    (started : c.mem.readByte L.rtosStarted ≠ 0) (current : c.mem L.currentTask = L.tcb t)
    (psp : c.psp = L.stackAddr t (L.stackWords t - d)) (free : d + 16 ≤ L.stackWords t)
    (room : L.Room t c.psp) : SavedInside L c t := by
  have frame : L.FrameAt t c.exceptionEntry.psp := by
    rw [(Cpu.exceptionEntry_frame thread).1]; exact room.frameAt
  have other : ∀ a, L.Reserved a → c.exceptionEntry.mem a = c.mem a := fun a res =>
    entry_other thread psp free (placed.reserved a res t)
  have started' : c.exceptionEntry.mem.readByte L.rtosStarted ≠ 0 := by
    rw [Memory.readByte_congr (other _ Layout.reserved_started)]; exact started
  have pointer : savedRegs c.exceptionEntry L.currentTask = L.tcb t := by
    rw [savedRegs_other placed frame (.inl Layout.reserved_current),
      other _ Layout.reserved_current, current]
  refine ⟨wordAddrs (frameAddr c.psp) 8 ++ wordAddrs (frameAddr c.psp - 32) 8, ?_, ?_, ?_⟩
  · rw [save_writes thread started', pointer]
  · intro a mem
    rcases List.mem_append.mp mem with entry | save
    · exact entry_inside psp free a entry
    · obtain ⟨i, hi, rfl⟩ := mem_wordAddrs.mp save
      exact room.frameAt.inStack_below (by omega)
  · rw [(pendSvHalf_save_stores L _ started').1, pointer, Function.update_self,
      (Cpu.exceptionEntry_frame thread).1, ← wordAddr_zero (frameAddr c.psp - 32)]
    exact room.frameAt.inStack_below (by omega)

/-- Where the frame is moved down and exactly sixteen words are free, the word below the stack is
overwritten. -/
theorem save_outside (placed : L.Placed) (thread : c.spsel = true)
    (started : c.mem.readByte L.rtosStarted ≠ 0) (psp : c.psp = L.stackAddr t (L.stackWords t - d))
    (free : d + 16 = L.stackWords t) (padded : c.psp.getLsbD 2 = true) : ¬ SavedInside L c t := by
  rintro ⟨ws, writes, inside, -⟩
  have started' : c.exceptionEntry.mem.readByte L.rtosStarted ≠ 0 := by
    rw [Memory.readByte_congr (entry_other thread psp free.le
      (placed.reserved _ Layout.reserved_started t))]
    exact started
  obtain ⟨j, frame, index⟩ := frameAddr_index psp free.le
  rw [if_pos padded] at index
  obtain rfl : j = 7 := by omega
  rw [save_writes thread started', List.append_assoc, List.append_assoc c.writes] at writes
  have same := (List.append_inj' (List.append_cancel_left writes) rfl).1
  refine placed.below t (inside _ ?_)
  rw [← same, ← frame, List.mem_append, mem_wordAddrs, mem_wordAddrs]
  exact .inr ⟨0, by omega, (wordAddr_zero _).symm⟩

end save

/-- A context save stays inside the stack when sixteen words are free, if PSP is a multiple of
eight or one more word is free, and only then. -/
theorem save_stays_inside {L : Layout} {c : Cpu} {t : TaskId} {d : Nat} (placed : L.Placed)
    (thread : c.spsel = true) (started : c.mem.readByte L.rtosStarted ≠ 0)
    (current : c.mem L.currentTask = L.tcb t)
    (psp : c.psp = L.stackAddr t (L.stackWords t - d)) (free : d + 16 ≤ L.stackWords t) :
    SavedInside L c t ↔ 8 ∣ c.psp.toNat ∨ d + 17 ≤ L.stackWords t := by
  have aligned : c.psp &&& 3#32 = 0 := by
    rw [psp]; exact aligned_wordAddr (placed.aligned t) _
  rw [low_bit aligned]
  constructor
  · intro inside
    by_contra tight
    rw [not_or, Bool.not_eq_false] at tight
    exact save_outside placed thread started psp (by omega) tight.1 inside
  · intro enough
    refine save_inside placed thread started current psp free
      ⟨_, psp, Nat.sub_le .., ?_⟩
    split_ifs with padded
    · have := enough.resolve_left (by simp [padded])
      omega
    · omega

/-- Thread mode at the first instruction of task 0, whose stack is empty. -/
def firstInstruction (L : Layout) : Cpu :=
  { resetCpu L with
    psp := L.stackAddr 0 (L.stackWords 0)
    spsel := true
    mem := fun a => if a = L.currentTask then L.tcb 0 else 0x01010101 }

/-- The led task of `main.c`, at its address of `RTOS.map`, which is no multiple of eight. -/
theorem save_stays_inside_led : SavedInside mainLayout (firstInstruction mainLayout) 0 :=
  (save_stays_inside (d := 0) mainLayout_placed rfl (by decide) rfl rfl (by decide)).mpr
    (.inr (by decide))

/-- The led task with the smallest stack that `osTaskCreate` accepts. -/
def smallLayout : Layout :=
  { mainLayout with tasks := [⟨"led", 0x080005C5, 0x20000054, 16, 1⟩] }

set_option maxRecDepth 2000 in
theorem smallLayout_placed : smallLayout.Placed := Layout.Linked.placed (by decide)

/-- The first save of this task overwrites the word below its stack. -/
theorem small_stack_overflows : ¬ ∀ (L : Layout) (c : Cpu) (t : TaskId) (d : Nat), L.Placed →
    c.spsel = true → c.mem.readByte L.rtosStarted ≠ 0 → c.mem L.currentTask = L.tcb t →
    c.psp = L.stackAddr t (L.stackWords t - d) → d + 16 ≤ L.stackWords t → SavedInside L c t := by
  intro claim
  have placed := smallLayout_placed
  have inside := claim smallLayout (firstInstruction smallLayout) 0 0 placed rfl (by decide) rfl rfl
    (by decide)
  exact save_outside (d := 0) placed rfl (by decide) rfl rfl (by decide) inside

end Rtos
