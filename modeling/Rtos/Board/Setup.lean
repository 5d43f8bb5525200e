import Rtos.Kernel.Types
import Rtos.Lib.BitField
import Rtos.Lib.Run

/-! The set-up code of `main` against the hardware that it sets up. Each access to a register that
the hardware changes too is a step of its own, and between any two steps the flash may put a write
into effect and the oscillator may gain or lose its lock. -/
namespace Rtos
open Lib

/-- The configuration and the output level of the sixteen pins of a port. -/
structure Gpio where
  moder : Word
  otyper : Word
  ospeedr : Word
  pupdr : Word
  odr : Word
  deriving DecidableEq, Repr

/-- The clock gate of a port. A write to the port gets lost unless the gate is open, and it opens in
the bus cycle after the one that enables it. -/
inductive Gate where
  | closed
  | opening
  | open
  deriving DecidableEq, Repr

/-- The registers that the set-up code uses. `acrNext` is a write to FLASH->ACR that is not in effect
yet. -/
structure Chip where
  acr : Word
  acrNext : Option Word
  cr : Word
  cfgr : Word
  systemCoreClock : Word
  iopenr : Word
  gate : Gate
  gpioa : Gpio
  load : Word
  val : Word
  ctrl : Word
  shpr3 : Word
  deriving DecidableEq, Repr

def flashAcrLatencyMsk : Word := 0x7#32
def flashAcrLatency1ws : Word := 0x1#32
def flashAcrPrftenMsk : Word := 0x1#32 <<< 8
def rccCrHsirdyMsk : Word := 0x1#32 <<< 10
def rccCrHsidivMsk : Word := 0x7#32 <<< 11
def rccCfgrSwsMsk : Word := 0x7#32 <<< 3
def rccCfgrSwsHsi : Word := 0#32
def rccIopenrGpioaenMsk : Word := 0x1#32
def ledPin : Nat := 5
def gpioModerOutput : Word := 0x1#32
def sysTickCtrlEnableMsk : Word := 0x1#32
def sysTickCtrlTickintMsk : Word := 0x1#32 <<< 1
def sysTickCtrlClksourceMsk : Word := 0x1#32 <<< 2
def scbShpr3PendsvPriLowest : Word := 0xC0#32 <<< 16
def scbShpr3SystickPriHigh : Word := 0x40#32 <<< 24

namespace Chip
variable (c : Chip)

def waitStates : Nat := (c.acr &&& flashAcrLatencyMsk).toNat

/-- The oscillator runs at 48 MHz, divided by a power of two. -/
def sysclk : Nat := 48000000 / 2 ^ ((c.cr &&& rccCrHsidivMsk) >>> 11).toNat

/-- The core is clocked by the oscillator, and above 24 MHz the flash has a wait state. -/
def Readable : Prop := c.sysclk ≤ 24000000 ∨ 1 ≤ c.waitStates

def writeGpio (g : Gpio) : Chip := if c.gate = .open then { c with gpioa := g } else c

end Chip

/-- Where `main` stands in `SystemClock_Config`, `GPIO_Init` and `SysTick_Init`. -/
inductive SetupPc where
  | readAcr
  | writeAcr (acr : Word)
  | awaitAcr
  | readCr
  | writeCr (cr : Word)
  | awaitReady
  | awaitSource
  | storeClock
  | enablePort
  | delay
  | moder
  | otyper
  | ospeedr
  | pupdr
  | ledOff
  | load
  | val
  | ctrl
  | priorities
  | returned
  deriving DecidableEq, Repr

structure Setup where
  pc : SetupPc
  chip : Chip
  deriving DecidableEq, Repr

inductive SetupAction where
  | cpu
  /-- a write to FLASH->ACR comes into effect -/
  | flash
  /-- HSIRDY goes up or down -/
  | oscillator (ready : Bool)
  deriving DecidableEq, Repr

/-- HSIRDY is not written by software. -/
def writeCr (c : Chip) (cr : Word) : Chip :=
  { c with cr := (cr &&& ~~~rccCrHsirdyMsk) ||| (c.cr &&& rccCrHsirdyMsk) }

namespace Gpio
variable (g : Gpio)

/-- The lower half sets pins, the upper half resets them. -/
def writeBsrr (v : Word) : Gpio := { g with odr := (g.odr &&& ~~~(v >>> 16)) ||| (v &&& 0xFFFF#32) }

def ledMode : Gpio := { g with
  moder := (g.moder &&& ~~~(0x3#32 <<< (ledPin * 2))) ||| (gpioModerOutput <<< (ledPin * 2)) }

def ledType : Gpio := { g with otyper := g.otyper &&& ~~~(0x1#32 <<< ledPin) }

def ledSpeed : Gpio := { g with ospeedr := g.ospeedr &&& ~~~(0x3#32 <<< (ledPin * 2)) }

def ledPull : Gpio := { g with pupdr := g.pupdr &&& ~~~(0x3#32 <<< (ledPin * 2)) }

/-- `GPIO_CLR(LED_PORT, LED_PIN)` -/
def ledClear : Gpio := g.writeBsrr (1#32 <<< (ledPin + 16))

end Gpio

def setupCpu (c : Chip) : SetupPc → SetupPc × Chip
  | .readAcr =>
    (.writeAcr ((c.acr &&& ~~~flashAcrLatencyMsk) ||| flashAcrLatency1ws ||| flashAcrPrftenMsk), c)
  | .writeAcr acr => (.awaitAcr, { c with acrNext := some acr })
  | .awaitAcr =>
    (if c.acr &&& flashAcrLatencyMsk ≠ flashAcrLatency1ws then .awaitAcr else .readCr, c)
  | .readCr => (.writeCr (c.cr &&& ~~~rccCrHsidivMsk), c)
  | .writeCr cr => (.awaitReady, writeCr c cr)
  | .awaitReady => (if c.cr &&& rccCrHsirdyMsk = 0 then .awaitReady else .awaitSource, c)
  | .awaitSource => (if c.cfgr &&& rccCfgrSwsMsk ≠ rccCfgrSwsHsi then .awaitSource else .storeClock, c)
  | .storeClock => (.enablePort, { c with systemCoreClock := 48000000#32 })
  | .enablePort => (.delay, { c with
      iopenr := c.iopenr ||| rccIopenrGpioaenMsk
      gate := if c.gate = .closed then .opening else c.gate })
  | .delay => (.moder, { c with gate := if c.gate = .opening then .open else c.gate })
  | .moder => (.otyper, c.writeGpio c.gpioa.ledMode)
  | .otyper => (.ospeedr, c.writeGpio c.gpioa.ledType)
  | .ospeedr => (.pupdr, c.writeGpio c.gpioa.ledSpeed)
  | .pupdr => (.ledOff, c.writeGpio c.gpioa.ledPull)
  | .ledOff => (.load, c.writeGpio c.gpioa.ledClear)
  | .load => (.val, { c with load := (c.systemCoreClock / 1000#32 - 1#32) &&& 0xFFFFFF#32 })
  | .val => (.ctrl, { c with val := 0 })
  | .ctrl => (.priorities, { c with
      ctrl := sysTickCtrlClksourceMsk ||| sysTickCtrlTickintMsk ||| sysTickCtrlEnableMsk })
  | .priorities => (.returned, { c with
      shpr3 := scbShpr3PendsvPriLowest ||| scbShpr3SystickPriHigh })
  | .returned => (.returned, c)

def setupStep (s : Setup) : SetupAction → Option Setup
  | .cpu =>
    if s.pc = .returned then none
    else some ⟨(setupCpu s.chip s.pc).1, (setupCpu s.chip s.pc).2⟩
  | .flash => s.chip.acrNext.map fun acr =>
    { s with chip := { s.chip with acr := acr, acrNext := none } }
  | .oscillator ready =>
    some { s with chip := { s.chip with
      cr := if ready then s.chip.cr ||| rccCrHsirdyMsk else s.chip.cr &&& ~~~rccCrHsirdyMsk } }

abbrev SetupStep : Setup → SetupAction → Setup → Prop := Steps setupStep fun _ _ _ => True

/-- The value that `SystemClock_Config` writes to FLASH->ACR. -/
def tuned (acr : Word) : Word :=
  (acr &&& ~~~flashAcrLatencyMsk) ||| flashAcrLatency1ws ||| flashAcrPrftenMsk

/-- The bits of RCC->CR that software writes. -/
def soft (cr : Word) : Word := cr &&& ~~~rccCrHsirdyMsk

def Tuned (acr : Word) (c : Chip) : Prop :=
  (c.acr = acr ∧ c.acrNext = some (tuned acr)) ∨ (c.acr = tuned acr ∧ c.acrNext = none)

/-- The wait state is in effect. -/
structure Waits (acr : Word) (c : Chip) : Prop where
  tuned : Tuned acr c
  one : c.acr &&& flashAcrLatencyMsk = flashAcrLatency1ws

/-- What holds of FLASH->ACR and RCC->CR at each point of the code, if `c₀` was there before. -/
def ClockAt (c₀ : Chip) (c : Chip) : SetupPc → Prop
  | .readAcr => (c.acr = c₀.acr ∧ c.acrNext = none) ∧ soft c.cr = soft c₀.cr
  | .writeAcr acr =>
    (c.acr = c₀.acr ∧ c.acrNext = none ∧ acr = tuned c₀.acr) ∧ soft c.cr = soft c₀.cr
  | .awaitAcr => Tuned c₀.acr c ∧ soft c.cr = soft c₀.cr
  | .readCr => Waits c₀.acr c ∧ soft c.cr = soft c₀.cr
  | .writeCr cr =>
    Waits c₀.acr c ∧ soft c.cr = soft c₀.cr ∧ soft cr = soft c₀.cr &&& ~~~rccCrHsidivMsk
  | _ => Waits c₀.acr c ∧ soft c.cr = soft c₀.cr &&& ~~~rccCrHsidivMsk

def PortAt (g : Gpio) (c : Chip) : SetupPc → Prop
  | .delay => c.gate ≠ .closed ∧ c.gpioa = g
  | .moder => c.gate = .open ∧ c.gpioa = g
  | .otyper => c.gate = .open ∧ c.gpioa = g.ledMode
  | .ospeedr => c.gate = .open ∧ c.gpioa = g.ledMode.ledType
  | .pupdr => c.gate = .open ∧ c.gpioa = g.ledMode.ledType.ledSpeed
  | .ledOff => c.gate = .open ∧ c.gpioa = g.ledMode.ledType.ledSpeed.ledPull
  | .load | .val | .ctrl | .priorities | .returned =>
    c.gpioa = g.ledMode.ledType.ledSpeed.ledPull.ledClear
  | _ => c.gpioa = g

def TickAt (c : Chip) : SetupPc → Prop
  | .enablePort | .delay | .moder | .otyper | .ospeedr | .pupdr | .ledOff | .load =>
    c.systemCoreClock = 48000000#32
  | .val | .ctrl => c.systemCoreClock = 48000000#32 ∧ c.load = 47999#32
  | .priorities => c.systemCoreClock = 48000000#32 ∧ c.load = 47999#32 ∧ c.ctrl = 7#32
  | .returned => c.systemCoreClock = 48000000#32 ∧ c.load = 47999#32 ∧ c.ctrl = 7#32 ∧
      c.shpr3 = 0x40C00000#32
  | _ => True

theorem soft_writeCr (c : Chip) (cr : Word) : soft (writeCr c cr).cr = soft cr := by
  have clear : (c.cr &&& rccCrHsirdyMsk) &&& ~~~rccCrHsirdyMsk = 0#32 := by
    rw [BitVec.and_assoc, BitVec.and_not_self]
    exact BitVec.and_zero
  rw [soft, soft, writeCr, BitVec.and_or_distrib_right, clear, BitVec.or_zero, BitVec.and_assoc,
    BitVec.and_self]

theorem tuned_latency (acr : Word) : tuned acr &&& flashAcrLatencyMsk = flashAcrLatency1ws := by
  rw [tuned, BitVec.and_or_distrib_right, field_set (by decide)]; rfl

theorem tuned_other (acr : Word) {n : Word} (latency : flashAcrLatencyMsk &&& n = 0#32)
    (prften : flashAcrPrftenMsk &&& n = 0#32) (low : flashAcrLatency1ws &&& n = 0#32) :
    tuned acr &&& n = acr &&& n := by
  rw [tuned, BitVec.and_or_distrib_right, field_other latency low, prften, BitVec.or_zero]

theorem Tuned.flash {acr next : Word} {c : Chip} (h : Tuned acr c) (pending : c.acrNext = some next) :
    Waits acr { c with acr := next, acrNext := none } := by
  rcases h with ⟨-, written⟩ | ⟨-, none⟩
  · cases pending.symm.trans written
    exact ⟨.inr ⟨rfl, rfl⟩, tuned_latency acr⟩
  · rw [pending] at none; cases none

theorem ClockAt.congr {c₀ c c' : Chip} {pc : SetupPc} (h : ClockAt c₀ c pc) (acr : c'.acr = c.acr)
    (acrNext : c'.acrNext = c.acrNext) (cr : soft c'.cr = soft c.cr) : ClockAt c₀ c' pc := by
  have same : ∀ x, Tuned x c → Tuned x c' := fun x => by rw [Tuned, Tuned, acr, acrNext]; exact id
  have waits : ∀ x, Waits x c → Waits x c' := fun x h =>
    ⟨same x h.tuned, by rw [acr]; exact h.one⟩
  cases pc with
  | readAcr => exact ⟨⟨acr.trans h.1.1, acrNext.trans h.1.2⟩, cr.trans h.2⟩
  | writeAcr => exact ⟨⟨acr.trans h.1.1, acrNext.trans h.1.2.1, h.1.2.2⟩, cr.trans h.2⟩
  | awaitAcr => exact ⟨same _ h.1, cr.trans h.2⟩
  | writeCr => exact ⟨waits _ h.1, cr.trans h.2.1, h.2.2⟩
  | _ => exact ⟨waits _ h.1, cr.trans h.2⟩

section step
variable {c₀ c : Chip} {pc : SetupPc}

theorem ClockAt.flash {next : Word} (h : ClockAt c₀ c pc) (pending : c.acrNext = some next) :
    ClockAt c₀ { c with acr := next, acrNext := none } pc := by
  cases pc with
  | readAcr => exact absurd (pending.symm.trans h.1.2) (by simp)
  | writeAcr => exact absurd (pending.symm.trans h.1.2.1) (by simp)
  | awaitAcr => exact ⟨(h.1.flash pending).tuned, h.2⟩
  | _ => exact ⟨h.1.tuned.flash pending, h.2⟩

theorem setupCpu_awaitAcr (one : c.acr &&& flashAcrLatencyMsk = flashAcrLatency1ws) :
    setupCpu c .awaitAcr = (.readCr, c) := by
  rw [setupCpu, if_neg (not_not.mpr one)]

theorem ClockAt.cpu (h : ClockAt c₀ c pc) :
    ClockAt c₀ (setupCpu c pc).2 (setupCpu c pc).1 := by
  cases pc with
  | readAcr =>
    obtain ⟨⟨acr, none⟩, cr⟩ := h
    exact ⟨⟨acr, none, by rw [tuned, ← acr]⟩, cr⟩
  | writeAcr =>
    obtain ⟨⟨acr, -, rfl⟩, cr⟩ := h
    exact ⟨.inl ⟨acr, rfl⟩, cr⟩
  | awaitAcr =>
    obtain ⟨tuned, cr⟩ := h
    by_cases one : c.acr &&& flashAcrLatencyMsk = flashAcrLatency1ws
    · rw [setupCpu_awaitAcr one]; exact ⟨⟨tuned, one⟩, cr⟩
    · rw [setupCpu, if_pos one]; exact ⟨tuned, cr⟩
  | readCr =>
    obtain ⟨waits, cr⟩ := h
    refine ⟨waits, cr, ?_⟩
    rw [← cr, soft, soft, and_clear_comm]
  | writeCr =>
    obtain ⟨waits, -, local_⟩ := h
    refine ⟨⟨waits.tuned, waits.one⟩, ?_⟩
    show soft (writeCr c _).cr = _
    rw [soft_writeCr]; exact local_
  | awaitReady =>
    simp only [setupCpu]
    split <;> exact h
  | awaitSource =>
    simp only [setupCpu]
    split <;> exact h
  | moder | otyper | ospeedr | pupdr | ledOff =>
    simp only [setupCpu, Chip.writeGpio]
    split
    · exact ⟨⟨h.1.tuned, h.1.one⟩, h.2⟩
    · exact h
  | storeClock | enablePort | delay | load | val | ctrl | priorities =>
    exact ⟨⟨h.1.tuned, h.1.one⟩, h.2⟩
  | returned => exact h

theorem PortAt.cpu {g : Gpio} (h : PortAt g c pc) :
    PortAt g (setupCpu c pc).2 (setupCpu c pc).1 := by
  cases pc with
  | awaitAcr | awaitReady | awaitSource =>
    simp only [setupCpu]
    split <;> exact h
  | enablePort =>
    simp only [setupCpu, PortAt] at h ⊢
    refine ⟨?_, h⟩
    split
    · simp
    · assumption
  | delay =>
    obtain ⟨gate, port⟩ := h
    simp only [setupCpu, PortAt]
    refine ⟨?_, port⟩
    cases at_ : c.gate with
    | closed => exact absurd at_ gate
    | opening | «open» => rfl
  | moder | otyper | ospeedr | pupdr =>
    obtain ⟨gate, port⟩ := h
    simp only [setupCpu, Chip.writeGpio, if_pos gate, PortAt]
    exact ⟨gate, by rw [port]⟩
  | ledOff =>
    obtain ⟨gate, port⟩ := h
    simp only [setupCpu, Chip.writeGpio, if_pos gate, PortAt, port]
  | readAcr | writeAcr | readCr | writeCr | storeClock | load | val | ctrl | priorities | returned =>
    exact h

theorem TickAt.cpu (h : TickAt c pc) : TickAt (setupCpu c pc).2 (setupCpu c pc).1 := by
  cases pc with
  | awaitAcr | awaitReady | awaitSource =>
    simp only [setupCpu]
    split <;> trivial
  | readAcr | writeAcr | readCr | writeCr => trivial
  | storeClock => rfl
  | enablePort | delay => exact h
  | moder | otyper | ospeedr | pupdr | ledOff =>
    simp only [setupCpu, Chip.writeGpio]
    split <;> exact h
  | load =>
    simp only [TickAt, setupCpu] at h ⊢
    refine ⟨h, ?_⟩
    rw [h]; decide
  | val => exact h
  | ctrl => exact ⟨h.1, h.2, rfl⟩
  | priorities => exact ⟨h.1, h.2.1, h.2.2, rfl⟩
  | returned => exact h

theorem setupCpu_cfgr (c : Chip) (pc : SetupPc) : (setupCpu c pc).2.cfgr = c.cfgr := by
  cases pc <;> simp only [setupCpu, Chip.writeGpio, writeCr]
  all_goals split <;> rfl

theorem soft_ready (cr : Word) (ready : Bool) :
    soft (if ready then cr ||| rccCrHsirdyMsk else cr &&& ~~~rccCrHsirdyMsk) = soft cr := by
  cases ready with
  | true =>
    rw [if_pos rfl, soft, soft, BitVec.and_or_distrib_right, BitVec.and_not_self]
    exact BitVec.or_zero
  | false => rw [if_neg Bool.false_ne_true, soft, soft, BitVec.and_assoc, BitVec.and_self]

end step

/-- The registers after reset, or after any run of `main` before it: no write to FLASH->ACR is
pending, the flash keeps up with the core, and the oscillator clocks it. -/
structure Chip.Reset (c : Chip) : Prop where
  idle : c.acrNext = none
  readable : c.Readable
  source : c.cfgr &&& rccCfgrSwsMsk = rccCfgrSwsHsi

structure SetupInv (c₀ : Chip) (s : Setup) : Prop where
  clock : ClockAt c₀ s.chip s.pc
  port : PortAt c₀.gpioa s.chip s.pc
  tick : TickAt s.chip s.pc
  cfgr : s.chip.cfgr = c₀.cfgr

theorem SetupInv.start {c₀ : Chip} (reset : c₀.Reset) : SetupInv c₀ ⟨.readAcr, c₀⟩ :=
  ⟨⟨⟨rfl, reset.idle⟩, rfl⟩, rfl, trivial, rfl⟩

theorem SetupInv.step {c₀ : Chip} {s s' : Setup} {a : SetupAction} (h : SetupInv c₀ s)
    (hstep : setupStep s a = some s') : SetupInv c₀ s' := by
  obtain ⟨clock, port, tick, cfgr⟩ := h
  obtain ⟨pc, c⟩ := s
  cases a with
  | cpu =>
    obtain ⟨-, eq⟩ := Option.ite_none_left_eq_some.mp hstep
    cases eq
    exact ⟨clock.cpu, port.cpu, tick.cpu, (setupCpu_cfgr c pc).trans cfgr⟩
  | flash =>
    obtain ⟨next, pending, rfl⟩ := Option.map_eq_some_iff.mp hstep
    exact ⟨clock.flash pending, by cases pc <;> exact port, by cases pc <;> exact tick, cfgr⟩
  | oscillator ready =>
    cases hstep
    exact ⟨clock.congr rfl rfl (soft_ready c.cr ready), by cases pc <;> exact port,
      by cases pc <;> exact tick, cfgr⟩

theorem hsidiv_soft (cr : Word) : soft cr &&& rccCrHsidivMsk = cr &&& rccCrHsidivMsk :=
  and_clear_other (by decide)

theorem Chip.sysclk_congr {c c' : Chip} (same : soft c'.cr = soft c.cr) : c'.sysclk = c.sysclk := by
  rw [sysclk, sysclk, ← hsidiv_soft, same, hsidiv_soft]

theorem Chip.sysclk_full {c₀ c : Chip} (cr : soft c.cr = soft c₀.cr &&& ~~~rccCrHsidivMsk) :
    c.sysclk = 48000000 := by
  have clear : c.cr &&& rccCrHsidivMsk = 0#32 := by
    rw [← hsidiv_soft, cr]; exact and_clear_self
  rw [sysclk, clear]; decide

theorem Waits.one_state {acr : Word} {c : Chip} (h : Waits acr c) : c.waitStates = 1 := by
  rw [Chip.waitStates, h.one]; decide

theorem Chip.Readable.congr {c₀ c : Chip} (h : c₀.Readable) (acr : c.acr = c₀.acr)
    (cr : soft c.cr = soft c₀.cr) : c.Readable := by
  rw [Chip.Readable, Chip.sysclk_congr cr, Chip.waitStates, acr]
  exact h

/-- The flash always keeps up with the core. -/
theorem SetupInv.readable {c₀ : Chip} {s : Setup} (h : SetupInv c₀ s) (reset : c₀.Reset) :
    s.chip.Readable := by
  obtain ⟨pc, c⟩ := s
  have clock := h.clock
  cases pc with
  | readAcr => exact reset.readable.congr clock.1.1 clock.2
  | writeAcr => exact reset.readable.congr clock.1.1 clock.2
  | awaitAcr =>
    rcases clock.1 with ⟨acr, -⟩ | ⟨acr, -⟩
    · exact reset.readable.congr acr clock.2
    · right
      rw [Chip.waitStates, acr, tuned_latency]; decide
  | readCr => exact .inr clock.1.one_state.ge
  | writeCr => exact .inr clock.1.one_state.ge
  | _ => exact .inr clock.1.one_state.ge

def SetupPc.left : SetupPc → Nat
  | .readAcr => 19
  | .writeAcr _ => 18
  | .awaitAcr => 17
  | .readCr => 16
  | .writeCr _ => 15
  | .awaitReady => 14
  | .awaitSource => 13
  | .storeClock => 12
  | .enablePort => 11
  | .delay => 10
  | .moder => 9
  | .otyper => 8
  | .ospeedr => 7
  | .pupdr => 6
  | .ledOff => 5
  | .load => 4
  | .val => 3
  | .ctrl => 2
  | .priorities => 1
  | .returned => 0

section progress
variable {c₀ c : Chip} {pc : SetupPc}

theorem cpu_step (more : pc ≠ .returned) :
    SetupStep ⟨pc, c⟩ .cpu ⟨(setupCpu c pc).1, (setupCpu c pc).2⟩ :=
  ⟨if_neg more, trivial⟩

/-- With the hardware's help the code comes out of every loop. -/
theorem SetupInv.advance (h : SetupInv c₀ ⟨pc, c⟩) (reset : c₀.Reset) (more : pc ≠ .returned) :
    ∃ t, Reach SetupStep ⟨pc, c⟩ t ∧ t.pc.left < pc.left := by
  have start := Reach.refl SetupStep ⟨pc, c⟩
  cases pc with
  | awaitAcr =>
    rcases h.clock.1 with ⟨-, pending⟩ | ⟨acr, -⟩
    · have flash : SetupStep ⟨.awaitAcr, c⟩ .flash
          ⟨.awaitAcr, { c with acr := tuned c₀.acr, acrNext := none }⟩ :=
        ⟨Option.map_eq_some_iff.mpr ⟨_, pending, rfl⟩, trivial⟩
      refine ⟨_, (start.next flash).next (cpu_step (by simp)), ?_⟩
      rw [setupCpu_awaitAcr (tuned_latency c₀.acr)]; exact Nat.lt_succ_self _
    · have one : c.acr &&& flashAcrLatencyMsk = flashAcrLatency1ws := by
        rw [show c.acr = _ from acr, tuned_latency]
      refine ⟨_, start.next (cpu_step (by simp)), ?_⟩
      rw [setupCpu_awaitAcr one]; exact Nat.lt_succ_self _
  | awaitReady =>
    have ready : SetupStep ⟨.awaitReady, c⟩ (.oscillator true)
        ⟨.awaitReady, { c with cr := c.cr ||| rccCrHsirdyMsk }⟩ := ⟨rfl, trivial⟩
    have up : (c.cr ||| rccCrHsirdyMsk) &&& rccCrHsirdyMsk ≠ 0 := by
      rw [or_mask]; decide
    refine ⟨_, (start.next ready).next (cpu_step (by simp)), ?_⟩
    rw [setupCpu, if_neg up]; exact Nat.lt_succ_self _
  | awaitSource =>
    have source : c.cfgr &&& rccCfgrSwsMsk = rccCfgrSwsHsi := by
      rw [show c.cfgr = _ from h.cfgr, reset.source]
    refine ⟨_, start.next (cpu_step (by simp)), ?_⟩
    rw [setupCpu, if_neg (not_not.mpr source)]; exact Nat.lt_succ_self _
  | returned => exact absurd rfl more
  | _ => exact ⟨_, start.next (cpu_step (by simp)), Nat.lt_succ_self _⟩

end progress

theorem reach_setup {c₀ : Chip} {s : Setup} (reset : c₀.Reset)
    (reach : Reach SetupStep ⟨.readAcr, c₀⟩ s) : SetupInv c₀ s :=
  reach.invariant (SetupInv.start reset) fun _ _ _ h hstep => h.step hstep.1

/-- The registers after a power-on reset: the oscillator divided by four, port A closed. -/
def porChip : Chip where
  acr := 0x00040600#32
  acrNext := none
  cr := 0x00001540#32
  cfgr := 0
  systemCoreClock := 12000000#32
  iopenr := 0
  gate := .closed
  gpioa := ⟨0xEBFFFFFF#32, 0, 0x0C000000#32, 0x24000000#32, 0⟩
  load := 0
  val := 0
  ctrl := 0
  shpr3 := 0

theorem porChip_reset : porChip.Reset := ⟨rfl, .inl (by decide), by decide⟩

theorem reach_exec {c₀ : Chip} {s : Setup} {acts : List SetupAction}
    (h : exec setupStep (fun _ _ _ => true) ⟨.readAcr, c₀⟩ acts = some s) :
    Reach SetupStep ⟨.readAcr, c₀⟩ s :=
  ⟨_, (exec_run h).mono fun _ _ _ hstep => ⟨hstep.1, trivial⟩⟩

/-- Whatever the delays of the hardware, the core never outruns the flash, and `main` is never stuck
before its tasks. -/
theorem flash_keeps_up {c₀ : Chip} {s : Setup} (reset : c₀.Reset)
    (reach : Reach SetupStep ⟨.readAcr, c₀⟩ s) :
    s.chip.Readable ∧ ∃ t, Reach SetupStep s t ∧ t.pc = .returned := by
  refine ⟨(reach_setup reset reach).readable reset, ?_⟩
  induction n : s.pc.left using Nat.strong_induction_on generalizing s with
  | _ n ih =>
    by_cases done : s.pc = .returned
    · exact ⟨s, Reach.refl _ _, done⟩
    · obtain ⟨u, forth, less⟩ := (reach_setup reset reach).advance reset done
      obtain ⟨tr, run⟩ := reach
      obtain ⟨us, onward⟩ := forth
      obtain ⟨t, ⟨vs, rest⟩, returned⟩ := ih _ (n ▸ less) ⟨_, run.append onward⟩ rfl
      exact ⟨t, ⟨_, onward.append rest⟩, returned⟩

/-- At the write that raises the clock, after one poll too early. -/
theorem flash_keeps_up_reset : ∃ s, s.pc = .writeCr 0x540#32 ∧ s.chip.sysclk = 12000000 ∧
    s.chip.Readable ∧ ∃ t, Reach SetupStep s t ∧ t.pc = .returned := by
  have trace : (exec setupStep (fun _ _ _ => true) ⟨.readAcr, porChip⟩
      [.cpu, .cpu, .cpu, .flash, .cpu, .cpu]).any
      fun s => decide (s.pc = .writeCr 0x540#32 ∧ s.chip.sysclk = 12000000) := by decide
  obtain ⟨s, hexec, now⟩ := (Option.any_eq_true _ _).mp trace
  have now := of_decide_eq_true now
  exact ⟨s, now.1, now.2, flash_keeps_up porChip_reset (reach_exec hexec)⟩

structure Gpio.SamePin (g g' : Gpio) (i : Nat) : Prop where
  mode : g.moder &&& (0x3#32 <<< (i * 2)) = g'.moder &&& (0x3#32 <<< (i * 2))
  type : g.otyper &&& (0x1#32 <<< i) = g'.otyper &&& (0x1#32 <<< i)
  speed : g.ospeedr &&& (0x3#32 <<< (i * 2)) = g'.ospeedr &&& (0x3#32 <<< (i * 2))
  pull : g.pupdr &&& (0x3#32 <<< (i * 2)) = g'.pupdr &&& (0x3#32 <<< (i * 2))
  level : g.odr &&& (0x1#32 <<< i) = g'.odr &&& (0x1#32 <<< i)

theorem Gpio.led_samePin (g : Gpio) {i : Nat} (pin : i < 16) (other : i ≠ ledPin) :
    g.ledMode.ledType.ledSpeed.ledPull.ledClear.SamePin g i := by
  have two : (0x3#32 <<< (ledPin * 2)) &&& (0x3#32 <<< (i * 2)) = 0#32 := by
    revert i; decide
  have one : (0x1#32 <<< ledPin) &&& (0x1#32 <<< i) = 0#32 := by
    revert i; decide
  have output : (gpioModerOutput <<< (ledPin * 2)) &&& (0x3#32 <<< (i * 2)) = 0#32 := by
    revert i; decide
  constructor
  · exact field_other two output
  · exact and_clear_other one
  · exact and_clear_other two
  · exact and_clear_other two
  · exact field_other one BitVec.zero_and

theorem Gpio.led_output (g : Gpio) :
    g.ledMode.ledType.ledSpeed.ledPull.ledClear.moder &&& (0x3#32 <<< (ledPin * 2)) =
      gpioModerOutput <<< (ledPin * 2) :=
  field_set (by decide)

theorem Gpio.led_off (g : Gpio) :
    g.ledMode.ledType.ledSpeed.ledPull.ledClear.odr &&& (0x1#32 <<< ledPin) = 0#32 :=
  field_set BitVec.zero_and

/-- The bits of RCC->CR other than the divider and HSIRDY. -/
theorem cr_kept {cr cr₀ : Word} (divided : soft cr = soft cr₀ &&& ~~~rccCrHsidivMsk) :
    cr &&& ~~~(rccCrHsidivMsk ||| rccCrHsirdyMsk) =
      cr₀ &&& ~~~(rccCrHsidivMsk ||| rccCrHsirdyMsk) := by
  have split : ∀ x : Word,
      x &&& ~~~(rccCrHsidivMsk ||| rccCrHsirdyMsk) = soft x &&& ~~~rccCrHsidivMsk := by
    intro x
    rw [BitVec.not_or, ← BitVec.and_assoc, and_clear_comm]; rfl
  rw [split, split, divided, BitVec.and_assoc, BitVec.and_self]

/-- Where `main` has set up the hardware, the core runs at 48 MHz as `SystemCoreClock` says, SysTick
comes every millisecond and goes before PendSV, the LED is an output and off, and nothing else of the
shared registers has changed. -/
theorem setup_done {c₀ : Chip} {s : Setup} (reset : c₀.Reset)
    (reach : Reach SetupStep ⟨.readAcr, c₀⟩ s) (done : s.pc = .returned) :
    (s.chip.sysclk = 48000000 ∧ s.chip.systemCoreClock.toNat = s.chip.sysclk) ∧
    (s.chip.sysclk = 1000 * (s.chip.load.toNat + 1) ∧ s.chip.ctrl = 7#32 ∧
      s.chip.shpr3 >>> 24 < (s.chip.shpr3 >>> 16) &&& 0xFF#32) ∧
    (s.chip.gpioa.moder &&& (0x3#32 <<< (ledPin * 2)) = gpioModerOutput <<< (ledPin * 2) ∧
      s.chip.gpioa.odr &&& (0x1#32 <<< ledPin) = 0#32 ∧
      ∀ i < 16, i ≠ ledPin → s.chip.gpioa.SamePin c₀.gpioa i) ∧
    s.chip.acr &&& ~~~(flashAcrLatencyMsk ||| flashAcrPrftenMsk) =
      c₀.acr &&& ~~~(flashAcrLatencyMsk ||| flashAcrPrftenMsk) ∧
    s.chip.cr &&& ~~~(rccCrHsidivMsk ||| rccCrHsirdyMsk) =
      c₀.cr &&& ~~~(rccCrHsidivMsk ||| rccCrHsirdyMsk) := by
  obtain ⟨⟨waits, divided⟩, port, ⟨clock, load, ctrl, shpr3⟩, -⟩ :
      SetupInv c₀ ⟨.returned, s.chip⟩ := done ▸ reach_setup reset reach
  have port : s.chip.gpioa = c₀.gpioa.ledMode.ledType.ledSpeed.ledPull.ledClear := port
  have full := Chip.sysclk_full divided
  refine ⟨⟨full, ?_⟩, ⟨?_, ctrl, ?_⟩, ⟨?_, ?_, ?_⟩, ?_, cr_kept divided⟩
  · rw [full, clock]; decide
  · rw [full, load]; decide
  · rw [shpr3]; decide
  · rw [port]; exact Gpio.led_output _
  · rw [port]; exact Gpio.led_off _
  · intro i pin other
    rw [port]; exact Gpio.led_samePin _ pin other
  · rcases waits.tuned with ⟨acr, -⟩ | ⟨acr, -⟩
    · rw [acr]
    · rw [acr]
      exact tuned_other _ (by decide) (by decide) (by decide)

/-- The oscillator loses its lock once. -/
theorem setup_done_reset : ∃ s : Setup, Reach SetupStep ⟨.readAcr, porChip⟩ s ∧
    s.chip.sysclk = 48000000 ∧ s.chip.gpioa.SamePin porChip.gpioa 13 := by
  have trace : (exec setupStep (fun _ _ _ => true) ⟨.readAcr, porChip⟩
      ([.cpu, .cpu, .flash, .cpu, .cpu, .cpu, .oscillator false, .cpu, .oscillator true] ++
        List.replicate 14 .cpu)).any fun s => decide (s.pc = .returned) := by decide
  obtain ⟨s, hexec, done⟩ := (Option.any_eq_true _ _).mp trace
  have reach := reach_exec hexec
  obtain ⟨⟨full, -⟩, -, ⟨-, -, pins⟩, -⟩ :=
    setup_done porChip_reset reach (of_decide_eq_true done)
  exact ⟨s, reach, full, pins 13 (by decide) (by decide)⟩

end Rtos
