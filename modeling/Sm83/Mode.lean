import Sm83.Hex

/-!
# Modes, events and faults

A core runs, waits after HALT or STOP, or is locked up for good by an unassigned opcode. Changes
of mode, and of the interrupt enable, are announced to the bus as events; a step that cannot be
made is a fault.

## Main definitions

* `Mode`: whether the core fetches instructions
* `Event`: what the core announces to the bus
* `Fault`: why a step failed
-/

namespace Sm83

/-- Whether the core fetches instructions. -/
inductive Mode where
  | running
  /-- Waiting after HALT. -/
  | halted
  /-- Waiting after STOP. -/
  | stopped
  /-- Locked up by the unassigned opcode `opcode` at `addr`. -/
  | locked (opcode : UInt8) (addr : UInt16)
  deriving DecidableEq, Inhabited

/-- What the core announces to the bus. -/
inductive Event where
  | interruptsEnabled
  | interruptsDisabled
  | halted
  | stopped
  | lockedUp (opcode : UInt8) (addr : UInt16)
  deriving DecidableEq

/-- Why a step failed. -/
inductive Fault where
  /-- The step fetched an unassigned opcode and has locked the core up. -/
  | invalidOpcode (opcode : UInt8) (addr : UInt16)
  /-- The core was locked up before the step. -/
  | locked (opcode : UInt8) (addr : UInt16)
  deriving DecidableEq

namespace Mode

/-- Whether the core waits to be woken. -/
def isWaiting : Mode → Bool
  | halted | stopped => true
  | running | locked .. => false

/-- Whether the core is locked up. -/
def isLocked : Mode → Bool
  | locked .. => true
  | running | halted | stopped => false

theorem eq_locked_of_isLocked {mode : Mode} (h : mode.isLocked = true) :
    ∃ opcode addr, mode = locked opcode addr := by
  cases mode with
  | locked opcode addr => exact ⟨opcode, addr, rfl⟩
  | running | halted | stopped => cases h

theorem isLocked_of_isWaiting {mode : Mode} (h : mode.isWaiting = true) :
    mode.isLocked = false := by
  cases mode with
  | running | halted | stopped => rfl
  | locked => cases h

/-- A core that neither waits nor is locked up runs. -/
theorem eq_running {mode : Mode} (hw : mode.isWaiting = false) (hl : mode.isLocked = false) :
    mode = running := by
  cases mode with
  | running => rfl
  | halted | stopped => cases hw
  | locked => cases hl

end Mode

/-! ## Texts -/

/-- The fields of a lock-up as text, in braces and in decimal. -/
def lockUpFields (opcode : UInt8) (addr : UInt16) : String :=
  " \x7b opcode: " ++ toString opcode.toNat ++ ", addr: " ++ toString addr.toNat ++ " \x7d"

/-- The name of a mode. -/
def Mode.text : Mode → String
  | running => "Running"
  | halted => "Halted"
  | stopped => "Stopped"
  | locked opcode addr => "Locked" ++ lockUpFields opcode addr

/-- The name of an event. -/
def Event.text : Event → String
  | interruptsEnabled => "InterruptsEnabled"
  | interruptsDisabled => "InterruptsDisabled"
  | halted => "Halted"
  | stopped => "Stopped"
  | lockedUp opcode addr => "LockedUp" ++ lockUpFields opcode addr

/-- The message of a fault. -/
def Fault.message : Fault → String
  | invalidOpcode opcode addr => "invalid opcode 0x" ++ hexByte opcode ++ " at 0x" ++ hexWord addr
  | locked opcode addr =>
    "cpu locked up by opcode 0x" ++ hexByte opcode ++ " at 0x" ++ hexWord addr

end Sm83
