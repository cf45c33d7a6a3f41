import Sm83.Decode
import Sm83.Template

/-!
# Instructions

An instruction describes one entry of an opcode table: its display template, what it does, its
encoded length and its cost. All of this can be told from the operation.

## Main definitions

* `Instruction`: the description of a table entry
* `Instruction.ofOperation`: the description of an operation
* `Instruction.render`: the text of an instruction with its immediate bytes
-/

namespace Sm83

/-- The description of one entry of an opcode table. -/
structure Instruction where
  /-- The display template, with placeholders for the immediate bytes. -/
  template : String
  /-- What the instruction does. -/
  operation : Operation
  /-- The encoded length in bytes, the escape byte included. -/
  length : Nat
  /-- The cost in ticks, without the penalty of a taken conditional branch. -/
  ticks : Nat
  deriving DecidableEq

namespace Instruction

/-- The description of an operation. -/
def ofOperation (op : Operation) : Instruction := ⟨op.template, op, op.length, op.ticks⟩

/-- Whether an operation is assigned to the entry. -/
def isValid (i : Instruction) : Bool := i.operation != .invalid

/-- The text of the instruction with the given immediate bytes. -/
def render (i : Instruction) (operands : List UInt8) : String :=
  Template.render i.template operands

end Instruction

end Sm83
