import Sm83.Registers

/-!
# Operands

The small sets from which instructions choose what they act on. Each is numbered by a field of two
or three bits in the opcode; the order of the constructors is the order of those numbers.

## Main definitions

* `block`, `row`, `column`: the fields of an opcode
* `ByteOperand`: a byte register, or the byte in memory at HL
* `WordOperand`, `StackOperand`: a word register for arithmetic, and for the stack
* `Pointer`: where the accumulator is loaded from or stored to
* `Condition`: the condition of a branch
-/

namespace Sm83

/-! ## Fields of an opcode -/

/-- Bits 6 and 7 of an opcode. -/
def block (b : UInt8) : Fin 4 := ⟨b.toNat / 64, by have := b.toNat_lt; omega⟩

/-- Bits 3 to 5 of an opcode. -/
def row (b : UInt8) : Fin 8 := ⟨b.toNat / 8 % 8, by omega⟩

/-- Bits 0 to 2 of an opcode. -/
def column (b : UInt8) : Fin 8 := ⟨b.toNat % 8, by omega⟩

/-! ## Kinds of operands -/

/-- An 8-bit operand: a register, or the byte in memory at the address in HL. -/
inductive ByteOperand where
  | b | c | d | e | h | l | atHL | a
  deriving DecidableEq

/-- A word register in loads and 16-bit arithmetic. -/
inductive WordOperand where
  | bc | de | hl | sp
  deriving DecidableEq

/-- A register pair that can be pushed and popped. -/
inductive StackOperand where
  | bc | de | hl | af
  deriving DecidableEq

/-- The memory cell that the accumulator is loaded from or stored to. -/
inductive Pointer where
  | bc
  | de
  /-- At HL, which is then incremented. -/
  | hlInc
  /-- At HL, which is then decremented. -/
  | hlDec
  /-- In the top page, at an immediate offset. -/
  | highImm
  /-- In the top page, at the offset in C. -/
  | highC
  /-- At an immediate address. -/
  | absolute
  deriving DecidableEq

/-- The condition of a branch. -/
inductive Condition where
  | nz | z | nc | c
  deriving DecidableEq

/-- The eight operations of the accumulator with a byte. -/
inductive Arithmetic where
  | add | adc | sub | sbc | and | xor | or | cp
  deriving DecidableEq

/-- The eight rotations and shifts of a byte. -/
inductive Rotation where
  | rlc | rrc | rl | rr | sla | sra | swap | srl
  deriving DecidableEq

namespace ByteOperand

/-- The operand with a given three-bit number. -/
def ofIndex : Fin 8 → ByteOperand
  | 0 => b
  | 1 => c
  | 2 => d
  | 3 => e
  | 4 => h
  | 5 => l
  | 6 => atHL
  | 7 => a

/-- The operand in the low three bits of a byte. -/
def ofByte (code : UInt8) : ByteOperand := ofIndex (column code)

/-- The byte register that the operand is, if it is one. -/
def register? : ByteOperand → Option ByteRegister
  | b => some .b
  | c => some .c
  | d => some .d
  | e => some .e
  | h => some .h
  | l => some .l
  | atHL => none
  | a => some .a

end ByteOperand

/-- The operand with a given two-bit number. -/
def WordOperand.ofIndex : Fin 4 → WordOperand
  | 0 => bc
  | 1 => de
  | 2 => hl
  | 3 => sp

/-- The word register that the operand is. -/
def WordOperand.register : WordOperand → WordRegister
  | bc => .bc
  | de => .de
  | hl => .hl
  | sp => .sp

/-- The operand with a given two-bit number. -/
def StackOperand.ofIndex : Fin 4 → StackOperand
  | 0 => bc
  | 1 => de
  | 2 => hl
  | 3 => af

/-- The word register that the operand is. -/
def StackOperand.register : StackOperand → WordRegister
  | bc => .bc
  | de => .de
  | hl => .hl
  | af => .af

/-- The pointer held in registers with a given two-bit number. -/
def Pointer.ofIndex : Fin 4 → Pointer
  | 0 => bc
  | 1 => de
  | 2 => hlInc
  | 3 => hlDec

namespace Condition

/-- The condition with a given two-bit number. -/
def ofIndex : Fin 4 → Condition
  | 0 => nz
  | 1 => z
  | 2 => nc
  | 3 => c

/-- Whether the condition holds for the given flags. -/
def holds (cc : Condition) (f : Flags) : Bool :=
  match cc with
  | nz => !f.zero
  | z => f.zero
  | nc => !f.carry
  | c => f.carry

end Condition

/-- The operation with a given three-bit number. -/
def Arithmetic.ofIndex : Fin 8 → Arithmetic
  | 0 => add
  | 1 => adc
  | 2 => sub
  | 3 => sbc
  | 4 => and
  | 5 => xor
  | 6 => or
  | 7 => cp

/-- The rotation with a given three-bit number. -/
def Rotation.ofIndex : Fin 8 → Rotation
  | 0 => rlc
  | 1 => rrc
  | 2 => rl
  | 3 => rr
  | 4 => sla
  | 5 => sra
  | 6 => swap
  | 7 => srl

end Sm83
