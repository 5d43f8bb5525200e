import Rtos.Lib.Branching
import Rtos.Machine.Linked

/-! From the reset to `main`: `Reset_Handler` copies the initial values of `.data` and clears
`.bss`, whatever the memory holds at power-on. -/
namespace Rtos
open Lib

/-- The symbols of the linker script that `Reset_Handler` uses. -/
structure Sections where
  estack : Word
  sidata : Word
  sdata : Word
  edata : Word
  sbss : Word
  ebss : Word

/-- `SystemInit` is not part of the repository. The code ends before the call of
`__libc_init_array`. -/
def resetHandler (S : Sections) (systemInit : Cpu → Cpu × Bool) : List Op := [
  .instr (.ldrLit .r0 S.estack),
  .movSp .r0,
  .bl systemInit,
  .instr (.ldrLit .r0 S.sdata),
  .instr (.ldrLit .r1 S.edata),
  .instr (.ldrLit .r2 S.sidata),
  .instr (.movs .r3 0),
  .b 11,
  -- CopyDataInit
  .ldrReg .r4 .r2 .r3,
  .strReg .r4 .r0 .r3,
  .instr (.adds .r3 4),
  -- LoopCopyDataInit
  .addsReg .r4 .r0 .r3,
  .cmpReg .r4 .r1,
  .bcc 8,
  .instr (.ldrLit .r2 S.sbss),
  .instr (.ldrLit .r4 S.ebss),
  .instr (.movs .r3 0),
  .b 20,
  -- FillZerobss
  .instr (.str .r3 .r2 0),
  .instr (.adds .r2 4),
  -- LoopFillZerobss
  .cmpReg .r2 .r4,
  .bcc 18]

namespace Sections
variable (S : Sections)

def dataWords : Nat := (S.edata.toNat - S.sdata.toNat) / 4

def bssWords : Nat := (S.ebss.toNat - S.sbss.toNat) / 4

def InBss (a : Word) : Prop := S.sbss.toNat ≤ a.toNat ∧ a.toNat < S.ebss.toNat

/-- What the linker script makes sure of. -/
structure Placed : Prop where
  estack : S.estack &&& 3#32 = 0
  sidata : S.sidata &&& 3#32 = 0
  sdata : S.sdata &&& 3#32 = 0
  edata : S.edata &&& 3#32 = 0
  sbss : S.sbss &&& 3#32 = 0
  ebss : S.ebss &&& 3#32 = 0
  data : S.sdata.toNat ≤ S.edata.toNat
  order : S.edata.toNat ≤ S.sbss.toNat
  bss : S.sbss.toNat ≤ S.ebss.toNat
  image : S.sidata.toNat + (S.edata.toNat - S.sdata.toNat) ≤ S.sdata.toNat

/-- The core at the call of `SystemInit`. -/
def entry (c : Cpu) : Cpu := { c.setReg .r0 S.estack with msp := S.estack }

/-- At `LoopCopyDataInit`, with `j` words copied. -/
structure CopyAt (c : Cpu) (j : Nat) (s : Machine) : Prop where
  pos : s.pos = 11
  r0 : s.cpu.reg .r0 = S.sdata
  r1 : s.cpu.reg .r1 = S.edata
  r2 : s.cpu.reg .r2 = S.sidata
  r3 : s.cpu.reg .r3 = BitVec.ofNat 32 (4 * j)
  msp : s.cpu.msp = c.msp
  mem : s.cpu.mem = c.mem.writeWords S.sdata (c.mem.readWords S.sidata j)
  reads : s.cpu.reads = c.reads ++ wordAddrs S.sidata j
  writes : s.cpu.writes = c.writes ++ wordAddrs S.sdata j

/-- At `LoopFillZerobss`, with `j` words cleared. -/
structure FillAt (c : Cpu) (j : Nat) (s : Machine) : Prop where
  pos : s.pos = 20
  r2 : s.cpu.reg .r2 = wordAddr S.sbss j
  r3 : s.cpu.reg .r3 = 0
  r4 : s.cpu.reg .r4 = S.ebss
  msp : s.cpu.msp = c.msp
  mem : s.cpu.mem = c.mem.writeWords S.sbss (List.replicate j 0)
  reads : s.cpu.reads = c.reads
  writes : s.cpu.writes = c.writes ++ wordAddrs S.sbss j

/-- What `main` finds, if `SystemInit` left `b`. -/
structure Initialised (b t : Cpu) : Prop where
  msp : t.msp = S.estack
  data : ∀ i < S.dataWords, t.mem (wordAddr S.sdata i) = b.mem (wordAddr S.sidata i)
  bss : ∀ a, S.InBss a → t.mem.readByte a = 0
  others : ∀ a, a ∉ wordAddrs S.sdata S.dataWords → a ∉ wordAddrs S.sbss S.bssWords →
    t.mem a = b.mem a
  reads : t.reads = b.reads ++ wordAddrs S.sidata S.dataWords
  writes : t.writes = b.writes ++ wordAddrs S.sdata S.dataWords ++ wordAddrs S.sbss S.bssWords

variable {S} {systemInit : Cpu → Cpu × Bool} {c : Cpu} {s : Machine} {j : Nat}

theorem words_between {a b : Word} (low : a &&& 3#32 = 0) (high : b &&& 3#32 = 0)
    (le : a.toNat ≤ b.toNat) : b.toNat = a.toNat + 4 * ((b.toNat - a.toNat) / 4) := by
  have low := (toNat_and_three a).symm.trans (congrArg BitVec.toNat low)
  have high := (toNat_and_three b).symm.trans (congrArg BitVec.toNat high)
  simp only [BitVec.ofNat_eq_ofNat, BitVec.toNat_ofNat] at low high
  omega

/-- The image in the flash is not among the words that are written. -/
theorem Placed.image_kept (placed : S.Placed) (m : Memory) (more : j < S.dataWords) :
    m.writeWords S.sdata (m.readWords S.sidata j) (wordAddr S.sidata j) =
      m (wordAddr S.sidata j) := by
  have image := placed.image
  have room := S.edata.isLt
  have data := words_between placed.sdata placed.edata placed.data
  rw [dataWords] at more
  apply Memory.writeWords_other
  rw [Memory.length_readWords, mem_wordAddrs]
  rintro ⟨i, hi, eq⟩
  have eq := congrArg BitVec.toNat eq
  rw [toNat_wordAddr (by omega), toNat_wordAddr (by omega)] at eq
  omega

theorem copy_round (placed : S.Placed) (more : j < S.dataWords) (h : S.CopyAt c j s) :
    Machine.Gets (resetHandler S systemInit) s (S.CopyAt c (j + 1)) := by
  obtain ⟨cpu, carry, pos⟩ := s
  obtain ⟨at_, r0, r1, r2, r3, msp, mem, reads, writes⟩ := h
  cases at_
  simp only at r0 r1 r2 r3 msp mem reads writes
  have lower : (wordAddr S.sdata j).toNat < S.edata.toNat := by
    have data := words_between placed.sdata placed.edata placed.data
    have room := S.edata.isLt
    rw [dataWords] at more
    rw [toNat_wordAddr (by omega)]
    omega
  have source : cpu.reg .r2 + cpu.reg .r3 = wordAddr S.sidata j := by rw [r2, r3]; rfl
  have target : cpu.reg .r0 + cpu.reg .r3 = wordAddr S.sdata j := by rw [r0, r3]; rfl
  refine Machine.gets_addsReg rfl target fun f => ?_
  refine Machine.gets_lower rfl rfl (Machine.setResult_self _) r1 fun f zero => ?_
  rw [if_pos lower]
  refine Machine.gets_ldrReg rfl source (aligned_wordAddr placed.sidata j) ?_
  refine Machine.gets_strReg rfl target (aligned_wordAddr placed.sdata j) ?_
  refine Machine.gets_instr rfl (Machine.aligned_silent rfl) fun f => ?_
  refine ⟨_, .refl, rfl, r0, r1, r2, ?_, msp, ?_, ?_, ?_⟩
  · show cpu.reg .r3 + 4 = _
    rw [r3, Nat.mul_succ, BitVec.ofNat_add]; rfl
  · show Function.update cpu.mem (wordAddr S.sdata j) (cpu.mem (wordAddr S.sidata j)) = _
    rw [mem, placed.image_kept _ more, Memory.readWords_append j 1, Memory.writeWords_append,
      Memory.readWords_one, Memory.writeWords_one, Memory.length_readWords]
  · show cpu.reads ++ wordAddrs (wordAddr S.sidata j) 1 = _
    rw [reads, wordAddrs_append, List.append_assoc]
  · show cpu.writes ++ wordAddrs (wordAddr S.sdata j) 1 = _
    rw [writes, wordAddrs_append, List.append_assoc]

/-- The copy loop ends where the other one starts. -/
theorem copy_done (placed : S.Placed) (h : S.CopyAt c S.dataWords s) :
    Machine.Gets (resetHandler S systemInit) s fun t => ∃ b : Cpu, S.FillAt b 0 t ∧
      b.msp = c.msp ∧ b.mem = c.mem.writeWords S.sdata (c.mem.readWords S.sidata S.dataWords) ∧
      b.reads = c.reads ++ wordAddrs S.sidata S.dataWords ∧
      b.writes = c.writes ++ wordAddrs S.sdata S.dataWords := by
  obtain ⟨cpu, carry, pos⟩ := s
  obtain ⟨at_, r0, r1, r2, r3, msp, mem, reads, writes⟩ := h
  cases at_
  simp only at r0 r1 r2 r3 msp mem reads writes
  have past : ¬ (wordAddr S.sdata S.dataWords).toNat < S.edata.toNat := by
    have data := words_between placed.sdata placed.edata placed.data
    have room := S.edata.isLt
    rw [dataWords, toNat_wordAddr (by omega)]
    omega
  have target : cpu.reg .r0 + cpu.reg .r3 = wordAddr S.sdata S.dataWords := by rw [r0, r3]; rfl
  refine Machine.gets_addsReg rfl target fun f => ?_
  refine Machine.gets_lower rfl rfl (Machine.setResult_self _) r1 fun f zero => ?_
  rw [if_neg past]
  refine Machine.gets_instr rfl (Machine.aligned_silent rfl) fun f => ?_
  refine Machine.gets_instr rfl (Machine.aligned_silent rfl) fun f => ?_
  refine Machine.gets_instr rfl (Machine.aligned_silent rfl) fun f => ?_
  refine Machine.gets_b rfl ⟨_, .refl, cpu, ?_, msp, mem, reads, writes⟩
  exact ⟨rfl, (wordAddr_zero _).symm, rfl, rfl, rfl, rfl, rfl, (List.append_nil _).symm⟩

theorem fill_round (placed : S.Placed) (more : j < S.bssWords) (h : S.FillAt c j s) :
    Machine.Gets (resetHandler S systemInit) s (S.FillAt c (j + 1)) := by
  obtain ⟨cpu, carry, pos⟩ := s
  obtain ⟨at_, r2, r3, r4, msp, mem, reads, writes⟩ := h
  cases at_
  simp only at r2 r3 r4 msp mem reads writes
  have lower : (wordAddr S.sbss j).toNat < S.ebss.toNat := by
    have bss := words_between placed.sbss placed.ebss placed.bss
    have room := S.ebss.isLt
    rw [bssWords] at more
    rw [toNat_wordAddr (by omega)]
    omega
  refine Machine.gets_lower rfl rfl r2 r4 fun f zero => ?_
  rw [if_pos lower]
  have target : cpu.reg .r2 + 0 = wordAddr S.sbss j := r2 ▸ BitVec.add_zero _
  have aligned : (Instr.str .r3 .r2 0).Aligned { cpu with zero } := by
    intro a access
    obtain rfl : cpu.reg .r2 + 0 = a := Option.some.inj access
    rw [target]; exact aligned_wordAddr placed.sbss j
  refine Machine.gets_instr rfl aligned fun f => ?_
  refine Machine.gets_instr rfl (Machine.aligned_silent rfl) fun f => ?_
  refine ⟨_, .refl, rfl, ?_, r3, r4, msp, ?_, reads, ?_⟩
  · show cpu.reg .r2 + 4 = _
    rw [r2]; exact wordAddr_wordAddr S.sbss j 1
  · show Function.update cpu.mem (cpu.reg .r2 + 0) (cpu.reg .r3) = _
    rw [target, r3, mem, List.replicate_succ', Memory.writeWords_append, Memory.writeWords_one,
      List.length_replicate]
  · show cpu.writes ++ wordAddrs (cpu.reg .r2 + 0) 1 = _
    rw [target, writes, wordAddrs_append, List.append_assoc]

theorem fill_done (placed : S.Placed) (h : S.FillAt c S.bssWords s) :
    Machine.Gets (resetHandler S systemInit) s fun t =>
      t.pos = (resetHandler S systemInit).length ∧ t.cpu.msp = c.msp ∧
      t.cpu.mem = c.mem.writeWords S.sbss (List.replicate S.bssWords 0) ∧
      t.cpu.reads = c.reads ∧ t.cpu.writes = c.writes ++ wordAddrs S.sbss S.bssWords := by
  obtain ⟨cpu, carry, pos⟩ := s
  obtain ⟨at_, r2, -, r4, msp, mem, reads, writes⟩ := h
  cases at_
  simp only at r2 r4 msp mem reads writes
  have past : ¬ (wordAddr S.sbss S.bssWords).toNat < S.ebss.toNat := by
    have bss := words_between placed.sbss placed.ebss placed.bss
    have room := S.ebss.isLt
    rw [bssWords, toNat_wordAddr (by omega)]
    omega
  refine Machine.gets_lower rfl rfl r2 r4 fun f zero => ?_
  rw [if_neg past]
  exact ⟨_, .refl, rfl, msp, mem, reads, writes⟩

theorem InBss.word (placed : S.Placed) {a : Word} (h : S.InBss a) :
    ∃ i < S.bssWords, Memory.wordOf a = wordAddr S.sbss i := by
  obtain ⟨low, high⟩ := h
  have bss := words_between placed.sbss placed.ebss placed.bss
  have aligned := (toNat_and_three S.sbss).symm.trans (congrArg BitVec.toNat placed.sbss)
  have room := S.ebss.isLt
  simp only [BitVec.ofNat_eq_ofNat, BitVec.toNat_ofNat] at aligned
  refine ⟨(a.toNat - S.sbss.toNat) / 4, by rw [bssWords]; omega, ?_⟩
  apply BitVec.eq_of_toNat_eq
  rw [Memory.toNat_wordOf, toNat_wordAddr (by omega)]
  omega

/-- The two blocks of words that are written, one after the other. -/
theorem Placed.initialised (placed : S.Placed) {b d t : Cpu} (msp : t.msp = S.estack)
    (data : d.mem = b.mem.writeWords S.sdata (b.mem.readWords S.sidata S.dataWords))
    (bss : t.mem = d.mem.writeWords S.sbss (List.replicate S.bssWords 0))
    (reads : t.reads = b.reads ++ wordAddrs S.sidata S.dataWords)
    (writes : t.writes = b.writes ++ wordAddrs S.sdata S.dataWords ++ wordAddrs S.sbss S.bssWords) :
    S.Initialised b t := by
  have order := placed.order
  have dataEnd := words_between placed.sdata placed.edata placed.data
  have bssEnd := words_between placed.sbss placed.ebss placed.bss
  have room := S.ebss.isLt
  have below := placed.bss
  have fits : S.dataWords ≤ 2 ^ 30 ∧ S.bssWords ≤ 2 ^ 30 := by
    simp only [dataWords, bssWords]; omega
  have cleared : ∀ a, a ∉ wordAddrs S.sbss S.bssWords → t.mem a = d.mem a := by
    intro a out
    rw [bss, Memory.writeWords_other (by rwa [List.length_replicate])]
  refine ⟨msp, fun i hi => ?_, fun a within => ?_, fun a out out' => ?_, reads, writes⟩
  · have out : wordAddr S.sdata i ∉ wordAddrs S.sbss S.bssWords := by
      rw [mem_wordAddrs]
      rintro ⟨j, hj, eq⟩
      have eq := congrArg BitVec.toNat eq
      rw [dataWords] at hi
      rw [bssWords] at hj
      rw [toNat_wordAddr (by omega), toNat_wordAddr (by omega)] at eq
      omega
    rw [cleared _ out, data]
    have word := Memory.writeWords_word (m := b.mem) (a := S.sdata) (i := i)
      (b.mem.readWords S.sidata S.dataWords) (by rw [Memory.length_readWords]; exact fits.1)
      (by rwa [Memory.length_readWords])
    rw [Memory.readWords_word hi] at word
    exact Option.some.inj word
  · obtain ⟨i, hi, eq⟩ := within.word placed
    have word := Memory.writeWords_word (m := d.mem) (a := S.sbss) (i := i)
      (List.replicate S.bssWords 0) (by rw [List.length_replicate]; exact fits.2)
      (by rwa [List.length_replicate])
    rw [List.getElem?_replicate, if_pos hi, ← bss] at word
    rw [Memory.readByte, eq, Option.some.inj word]
    simp
  · rw [cleared a out', data, Memory.writeWords_other (by rwa [Memory.length_readWords])]

end Sections

/-- From any registers and memory, `Reset_Handler` calls the constructors with the stack pointer set,
`.data` initialised, `.bss` cleared and nothing else written, and then `_rtos_start` finds
`rtos_started` clear. -/
theorem reset_initialises {S : Sections} (systemInit : Cpu → Cpu × Bool) (placed : S.Placed)
    (keeps : ∀ c, (systemInit c).1.msp = c.msp) {c : Cpu} (main : c.spsel = false) (carry : Bool) :
    Machine.Gets (resetHandler S systemInit) ⟨c, carry, 0⟩ fun t =>
      t.pos = (resetHandler S systemInit).length ∧
      S.Initialised (systemInit (S.entry c)).1 t.cpu ∧
      ∀ L : Layout, S.InBss L.rtosStarted → ∀ b : Cpu, b.mem = L.startMemory t.cpu.mem →
        b.msp = L.msp → L.Starts (b.run (rtosStart L)) := by
  have sp : S.estack &&& ~~~3#32 = S.estack := and_not_three placed.estack
  have copy : Machine.Gets (resetHandler S systemInit) ⟨c, carry, 0⟩
      (S.CopyAt (systemInit (S.entry c)).1 0) := by
    refine Machine.gets_instr rfl (Machine.aligned_silent rfl) fun f => ?_
    refine Machine.gets_movSp rfl main sp ?_
    refine Machine.gets_bl rfl fun f => ?_
    refine Machine.gets_instr rfl (Machine.aligned_silent rfl) fun f => ?_
    refine Machine.gets_instr rfl (Machine.aligned_silent rfl) fun f => ?_
    refine Machine.gets_instr rfl (Machine.aligned_silent rfl) fun f => ?_
    refine Machine.gets_instr rfl (Machine.aligned_silent rfl) fun f => ?_
    refine Machine.gets_b rfl ⟨_, .refl, ?_⟩
    exact ⟨rfl, rfl, rfl, rfl, rfl, rfl, rfl, (List.append_nil _).symm, (List.append_nil _).symm⟩
  have copied := Machine.gets_rounds copy fun j more t at_ => Sections.copy_round placed more at_
  refine (copied.trans fun t at_ => Sections.copy_done placed at_).trans ?_
  rintro t ⟨d, fill, msp, data, reads, writes⟩
  have filled : Machine.Gets (resetHandler S systemInit) t (S.FillAt d S.bssWords) :=
    Machine.gets_rounds ⟨t, .refl, fill⟩ fun j more t at_ => Sections.fill_round placed more at_
  refine (filled.trans fun t at_ => Sections.fill_done placed at_).trans ?_
  rintro u ⟨done, msp', bss, reads', writes'⟩
  have initialised : S.Initialised (systemInit (S.entry c)).1 u.cpu :=
    placed.initialised (msp'.trans (msp.trans (keeps _))) data bss (reads'.trans reads)
      (by rw [writes', writes])
  refine ⟨u, .refl, done, initialised, fun L within b mem msp => ?_⟩
  exact ⟨_, b, initialised.bss _ within, mem, msp, rfl⟩

/-- The sections of `RTOS.map`. -/
def mainSections : Sections :=
  { estack := 0x20003000
    sidata := 0x08000DDC
    sdata := 0x20000000
    edata := 0x20000004
    sbss := 0x20000008
    ebss := 0x2000052C }

theorem mainSections_placed : mainSections.Placed := by
  constructor <;> decide

/-- The core at power-on: the RAM holds anything, the flash the initial `SystemCoreClock`. -/
def powerOn : Cpu :=
  { resetCpu mainLayout with mem := fun a => if a = 0x08000DDC then 12000000 else 0xDEADBEEF }

theorem reset_initialises_main :
    Machine.Gets (resetHandler mainSections fun c => (c, false)) ⟨powerOn, false, 0⟩ fun t =>
      t.cpu.msp = 0x20003000 ∧ t.cpu.mem 0x20000000 = 12000000 ∧
      t.cpu.mem.readByte mainLayout.rtosStarted = 0 := by
  have main : powerOn.spsel = false := rfl
  obtain ⟨t, path, -, initialised, -⟩ :=
    reset_initialises (fun c => (c, false)) mainSections_placed (fun _ => rfl) main false
  have started : mainSections.InBss mainLayout.rtosStarted := ⟨by decide, by decide⟩
  exact ⟨t, path, initialised.msp, initialised.data 0 (by decide), initialised.bss _ started⟩

end Rtos
