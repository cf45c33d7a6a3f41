import Sm83.Execution
import Sm83.Mode

/-!
# The log

The core reports what it does in messages of four levels. What a message says is kept as data and
becomes text only when it is shown. A bus may comment on the events announced to it; its comments
stand in the same log.

## Main definitions

* `Level`: the levels, from errors to traces
* `Message`: a message of the core, with its `level` and `text`
* `Remark`: a comment of the bus
* `Entry`: a line of the log
* `Verbosity`: which levels are kept
-/

namespace Sm83

/-- The level of a log line. -/
inductive Level where
  | error | info | debug | trace
  deriving DecidableEq

namespace Level

/-- The name of a level. -/
def text : Level → String
  | error => "ERROR"
  | info => "INFO"
  | debug => "DEBUG"
  | trace => "TRACE"

/-- How far a level is from the most severe one. -/
def rank : Level → Nat
  | error => 0
  | info => 1
  | debug => 2
  | trace => 3

end Level

/-- A message of the core. -/
inductive Message where
  /-- An instruction was executed. -/
  | executed (x : Execution)
  /-- HALT at an address. -/
  | halt (addr : UInt16)
  /-- STOP at an address. -/
  | stop (addr : UInt16)
  /-- The interrupt enable changed, with the program counter at `pc`. -/
  | interrupts (enabled : Bool) (pc : UInt16)
  /-- The core was woken from a waiting mode. -/
  | wake (mode : Mode) (pc : UInt16)
  /-- The core locked up, with the registers as they were. -/
  | lockUp (opcode : UInt8) (addr : UInt16) (regs : Registers)
  deriving DecidableEq

namespace Message

/-- The level of a message. -/
def level : Message → Level
  | executed _ => .trace
  | halt _ | stop _ | interrupts .. | wake .. => .debug
  | lockUp .. => .error

/-- The text of a message. -/
def text : Message → String
  | executed x => x.text
  | halt addr => "SM83 HALT at PC=0x" ++ hexWord addr
  | stop addr => "SM83 STOP at PC=0x" ++ hexWord addr
  | interrupts enabled pc =>
    "SM83 interrupts " ++ (if enabled then "enabled" else "disabled") ++ " at PC=0x" ++ hexWord pc
  | wake mode pc => "SM83 wake from " ++ mode.text ++ " at PC=0x" ++ hexWord pc
  | lockUp opcode addr regs =>
    "SM83 locked: invalid opcode 0x" ++ hexByte opcode ++ " at PC=0x" ++ hexWord addr ++
      " (SP=0x" ++ hexWord regs.sp ++ " AF=0x" ++ hexWord regs.af ++ " BC=0x" ++ hexWord regs.bc ++
      " DE=0x" ++ hexWord regs.de ++ " HL=0x" ++ hexWord regs.hl ++ ")"

end Message

/-- A comment of whatever the core is attached to. -/
structure Remark where
  level : Level
  text : String
  deriving DecidableEq

/-- A line of the log. -/
inductive Entry where
  | core (m : Message)
  | host (r : Remark)
  deriving DecidableEq

namespace Entry

/-- The level of a line. -/
def level : Entry → Level
  | core m => m.level
  | host r => r.level

/-- The line as text: its level and what it says. -/
def line : Entry → String
  | core m => m.level.text ++ " " ++ m.text
  | host r => r.level.text ++ " " ++ r.text

/-- The message of the core that the line is, if it is one. -/
def message? : Entry → Option Message
  | core m => some m
  | host _ => none

end Entry

/-- The least severe level that is kept, or none if nothing is. -/
abbrev Verbosity := Option Level

/-- Whether a line is kept. -/
def Verbosity.keeps (v : Verbosity) (e : Entry) : Bool :=
  match v with
  | none => false
  | some l => e.level.rank ≤ l.rank

end Sm83
