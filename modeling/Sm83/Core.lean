import Sm83.Log
import Sm83.Operation

/-!
# The core

The state of the processor: its registers, the ticks left for the instruction in flight, whether
it runs, whether interrupts are enabled, and the bytes of the instruction being fetched. The core
owns no memory.

## Main definitions

* `BootProfile`, `Config`: what the registers are at power-on
* `Core`: the state of the processor
* `Core.powerOn`, `Core.reset`: the states at power-on and after a reset
* `Core.wake`: leaving HALT and STOP
* `Core.signal`: the core's own part in an event
* `Core.charge?`: the penalty of a taken branch

## Main results

* `Core.regs_reset`: a reset gives the registers of power-on
* `Core.wake_of_isWaiting`, `Core.wake_of_not_isWaiting`: waking changes the mode of a waiting core
  and nothing else
* `Core.regs_signal`, `Core.config_signal`: an event leaves registers and configuration alone
-/

namespace Sm83

/-- The registers at power-on. -/
inductive BootProfile where
  /-- As the boot ROM hands them to a cartridge. -/
  | dmg
  /-- All zero. -/
  | zeroed
  deriving DecidableEq, Inhabited

def BootProfile.registers : BootProfile → Registers
  | dmg => { af := 0x01B0, bc := 0x0013, de := 0x00D8, hl := 0x014D, sp := 0xFFFE, pc := 0x0100 }
  | zeroed => {}

/-- How a core powers on. -/
structure Config where
  boot : BootProfile := .dmg
  /-- The program counter, where it is not that of the boot profile. -/
  entry : Option UInt16 := none
  deriving DecidableEq, Inhabited

def Config.registers (c : Config) : Registers :=
  { c.boot.registers with pc := c.entry.getD c.boot.registers.pc }

/-- The state of the processor. -/
structure Core where
  regs : Registers
  /-- The ticks left before the next fetch. -/
  budget : Nat := 0
  mode : Mode := .running
  /-- Whether interrupts are enabled. -/
  interrupts : Bool := false
  config : Config := {}
  /-- The bytes fetched for the current instruction. -/
  fetched : FetchRecord := {}
  deriving DecidableEq, Inhabited

namespace Core

def powerOn (config : Config) : Core := { regs := config.registers, config := config }

/-- The core after a reset. The bytes of earlier instructions stay in their slots, where no later
instruction shows them. -/
def reset (c : Core) : Core :=
  { c with
    regs := c.config.registers
    budget := 0
    mode := .running
    interrupts := false
    fetched := c.fetched.restart }

def atBoundary (c : Core) : Bool := c.budget == 0

/-! ## Flags -/

def hasFlags (c : Core) (f : Flags) : Bool := c.regs.flags.contains f

/-- The core with all of the given flags set or cleared. -/
def setFlags (c : Core) (f : Flags) (value : Bool) : Core :=
  { c with regs := c.regs.setFlags (c.regs.flags.assign f value) }

def clearFlags (c : Core) : Core := { c with regs := c.regs.setFlags .empty }

/-! ## Changes of mode -/

/-- Leaves HALT or STOP; a core that does not wait is left alone. -/
def wake (c : Core) : Core × List Message :=
  if c.mode.isWaiting then ({ c with mode := .running }, [.wake c.mode c.regs.pc]) else (c, [])

/-- Enables or disables interrupts; only a change is reported. -/
def setInterrupts (c : Core) (enabled : Bool) : Core × List Message :=
  -- The bus hears of every request; the log only of those that change something.
  ({ c with interrupts := enabled },
    if c.interrupts = enabled then [] else [.interrupts enabled c.regs.pc])

/-- The core's own part in an event, and its report. HALT is one byte long and STOP is two, and
the program counter is already past them. -/
def signal (c : Core) : Event → Core × List Message
  | .interruptsEnabled => c.setInterrupts true
  | .interruptsDisabled => c.setInterrupts false
  | .halted => ({ c with mode := .halted }, [.halt (c.regs.pc - 1)])
  | .stopped => ({ c with mode := .stopped }, [.stop (c.regs.pc - 2)])
  | .lockedUp opcode addr =>
    ({ c with budget := 0, mode := .locked opcode addr }, [.lockUp opcode addr c.regs])

/-! ## Ticks -/

/-- The core with a penalty added to the ticks of the instruction in flight, if they come to no
more than an instruction may cost. -/
def charge? (c : Core) (extra : Nat) : Option Core :=
  if c.budget + extra ≤ maxInstructionTicks then some { c with budget := c.budget + extra }
  else none

/-! ## Fetching -/

/-- The core about to fetch an instruction. -/
def beginFetch (c : Core) : Core := { c with fetched := c.fetched.restart }

/-- The core after fetching a byte at the program counter. -/
def fetch (c : Core) (b : UInt8) : Core :=
  { c with regs := c.regs.jump (c.regs.pc + 1), fetched := c.fetched.push b }

/-! ## Basic facts -/

@[simp] theorem regs_reset (c : Core) : c.reset.regs = (powerOn c.config).regs := rfl

@[simp] theorem config_reset (c : Core) : c.reset.config = c.config := rfl

theorem wake_of_isWaiting {c : Core} (h : c.mode.isWaiting = true) :
    c.wake = ({ c with mode := .running }, [.wake c.mode c.regs.pc]) := by
  simp [wake, h]

theorem wake_of_not_isWaiting {c : Core} (h : c.mode.isWaiting = false) : c.wake = (c, []) := by
  simp [wake, h]

@[simp] theorem config_signal (c : Core) (e : Event) : (c.signal e).1.config = c.config := by
  cases e <;> rfl

@[simp] theorem regs_signal (c : Core) (e : Event) : (c.signal e).1.regs = c.regs := by
  cases e <;> rfl

@[simp] theorem fetched_signal (c : Core) (e : Event) : (c.signal e).1.fetched = c.fetched := by
  cases e <;> rfl

end Core

end Sm83
