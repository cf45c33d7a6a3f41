import Sm83.Operand

/-!
# Operations

What an instruction does, apart from the values of its immediate bytes. An operation fixes the
number of immediate bytes that follow the opcode, the encoded length and the cost in ticks; a
branch that depends on a condition costs more when it is taken.

## Main definitions

* `Operation`: the operations
* `Operation.opcodeBytes`, `Operation.operandBytes`, `Operation.length`: the encoded size
* `Operation.ticks`, `Operation.penalty`: the cost, and what a taken branch adds to it
* `Operation.condition?`, `Operation.taken`: the condition of a branch, and whether it is taken

## Main results

* `Operation.isCost_ticks_add_penalty`: every assigned operation takes some machine cycles of four
  ticks
* `Operation.ticks_add_penalty_le`: no operation costs more than `maxInstructionTicks`
-/

namespace Sm83

/-- The operations of the machine. -/
inductive Operation where
  | nop
  /-- Stops the machine; a padding byte follows the opcode. -/
  | stop
  | halt
  /-- Disables interrupts. -/
  | di
  /-- Enables interrupts. -/
  | ei
  /-- The byte that selects the second opcode table. -/
  | escape
  /-- No operation is assigned to the opcode. -/
  | invalid
  | ld (dst src : ByteOperand)
  | ldImm (dst : ByteOperand)
  /-- Stores the accumulator. -/
  | storeA (target : Pointer)
  /-- Loads the accumulator. -/
  | loadA (source : Pointer)
  | ldImm16 (dst : WordOperand)
  /-- Stores the stack pointer at an immediate address. -/
  | storeSp
  | ldSpHl
  /-- Loads HL with the stack pointer plus an immediate displacement. -/
  | ldHlSp
  | push (src : StackOperand)
  | pop (dst : StackOperand)
  | alu (op : Arithmetic) (src : ByteOperand)
  | aluImm (op : Arithmetic)
  | inc (target : ByteOperand)
  | dec (target : ByteOperand)
  | daa
  | cpl
  | scf
  | ccf
  | inc16 (target : WordOperand)
  | dec16 (target : WordOperand)
  | addHl (src : WordOperand)
  /-- Adds an immediate displacement to the stack pointer. -/
  | addSp
  /-- Rotates the accumulator. -/
  | rotateA (op : Rotation)
  | jr (cc : Option Condition)
  | jp (cc : Option Condition)
  | jpHl
  | call (cc : Option Condition)
  | ret (cc : Option Condition)
  | reti
  /-- Calls one of eight fixed addresses. -/
  | rst (n : Fin 8)
  | rotate (op : Rotation) (target : ByteOperand)
  | bit (i : Fin 8) (src : ByteOperand)
  | res (i : Fin 8) (target : ByteOperand)
  | set (i : Fin 8) (target : ByteOperand)
  deriving DecidableEq

/-- The largest cost of an instruction. -/
def maxInstructionTicks : Nat := 24

/-- What a taken conditional jump costs in addition. -/
def jumpPenalty : Nat := 4

/-- What a taken conditional call or return costs in addition. -/
def callPenalty : Nat := 12

/-- The address called by a restart operation. -/
def restartAddress (n : Fin 8) : UInt8 := 8 * UInt8.ofNat n

namespace Operation

/-- The number of immediate bytes. -/
def operandBytes : Operation → Nat
  | stop | ldImm _ | storeA .highImm | loadA .highImm | ldHlSp | aluImm _ | addSp | jr _ => 1
  | storeA .absolute | loadA .absolute | ldImm16 _ | storeSp | jp _ | call _ => 2
  | _ => 0

/-- Whether the opcode is in the second table. -/
def isExtended : Operation → Bool
  | rotate .. | bit .. | res .. | set .. => true
  | _ => false

/-- The number of bytes before the immediate bytes: the escape byte if there is one, and the
opcode. -/
def opcodeBytes (op : Operation) : Nat := if op.isExtended then 2 else 1

/-- The encoded length in bytes. -/
def length (op : Operation) : Nat := op.opcodeBytes + op.operandBytes

theorem opcodeBytes_pos (op : Operation) : 0 < op.opcodeBytes := by
  unfold opcodeBytes
  split <;> omega

/-- No encoding is longer than three bytes. -/
theorem length_le (op : Operation) : op.length ≤ 3 := by
  cases op with
  | storeA p | loadA p => cases p <;> decide
  | _ => simp [length, opcodeBytes, operandBytes, isExtended]

/-- One cost for registers and another for the byte at HL. -/
def byOperand (r : ByteOperand) (register memory : Nat) : Nat :=
  if r = .atHL then memory else register

/-- The cost in ticks, without the penalty of a taken conditional branch. -/
def ticks : Operation → Nat
  | nop | stop | halt | di | ei | escape => 4
  -- An unassigned opcode is never executed: it locks the core up and leaves no ticks.
  | invalid => 0
  | ld dst src => byOperand dst (byOperand src 4 8) 8
  | ldImm dst => byOperand dst 8 12
  | storeA .absolute | loadA .absolute => 16
  | storeA .highImm | loadA .highImm => 12
  | storeA _ | loadA _ => 8
  | ldImm16 _ => 12
  | storeSp => 20
  | ldSpHl => 8
  | ldHlSp => 12
  | push _ => 16
  | pop _ => 12
  | alu _ src => byOperand src 4 8
  | aluImm _ => 8
  -- An operand in memory is read and written back.
  | inc r | dec r => byOperand r 4 12
  | daa | cpl | scf | ccf => 4
  | inc16 _ | dec16 _ | addHl _ => 8
  | addSp => 16
  | rotateA _ => 4
  | jr none => 12
  | jr (some _) => 8
  | jp none => 16
  | jp (some _) => 12
  | jpHl => 4
  | call none => 24
  | call (some _) => 12
  | ret none => 16
  | ret (some _) => 8
  | reti => 16
  | rst _ => 16
  | rotate _ r | res _ r | set _ r => byOperand r 8 16
  -- A test only reads.
  | bit _ r => byOperand r 8 12

/-- The condition of a conditional branch. -/
def condition? : Operation → Option Condition
  | jr cc | jp cc | call cc | ret cc => cc
  | _ => none

/-- What the operation costs in addition if its condition holds. -/
def takenPenalty : Operation → Nat
  | jr (some _) | jp (some _) => jumpPenalty
  | call (some _) | ret (some _) => callPenalty
  | _ => 0

/-- Whether a branch is taken under the given flags; an unconditional one always is. -/
def taken (op : Operation) (f : Flags) : Bool :=
  match op.condition? with
  | some cc => cc.holds f
  | none => true

/-- What the operation costs in addition under the given flags. -/
def penalty (op : Operation) (f : Flags) : Nat := if op.taken f then op.takenPenalty else 0

/-- A cost that an instruction may have: some machine cycles of four ticks each. -/
def IsCost (n : Nat) : Prop := 0 < n ∧ 4 ∣ n ∧ n ≤ maxInstructionTicks

instance (n : Nat) : Decidable (IsCost n) := inferInstanceAs (Decidable (_ ∧ _))

theorem isCost_byOperand (r : ByteOperand) {m n : Nat} (hm : IsCost m) (hn : IsCost n) :
    IsCost (byOperand r m n) := by
  unfold byOperand
  split <;> assumption

theorem isCost_ticks {op : Operation} (h : op ≠ invalid) : IsCost op.ticks := by
  cases op with
  | invalid => exact absurd rfl h
  | ld dst src =>
    exact isCost_byOperand dst (isCost_byOperand src (by decide) (by decide)) (by decide)
  | ldImm r | inc r | dec r | alu _ r | rotate _ r | bit _ r | res _ r | set _ r =>
    exact isCost_byOperand r (by decide) (by decide)
  | storeA p | loadA p => cases p <;> decide
  | jr cc | jp cc | call cc | ret cc => cases cc <;> simp [IsCost, ticks, maxInstructionTicks]
  | _ => simp [IsCost, ticks, maxInstructionTicks]

theorem isCost_ticks_add_takenPenalty {op : Operation} (h : op ≠ invalid) :
    IsCost (op.ticks + op.takenPenalty) := by
  cases op with
  | jr cc | jp cc | call cc | ret cc =>
    cases cc <;>
      simp [IsCost, ticks, takenPenalty, jumpPenalty, callPenalty, maxInstructionTicks]
  | _ => exact isCost_ticks h

/-- Every assigned operation has a cost, with the penalty included. -/
theorem isCost_ticks_add_penalty {op : Operation} (h : op ≠ invalid) (f : Flags) :
    IsCost (op.ticks + op.penalty f) := by
  unfold penalty
  split
  · exact isCost_ticks_add_takenPenalty h
  · exact isCost_ticks h

/-- No operation costs more than `maxInstructionTicks`, with the penalty included. -/
theorem ticks_add_penalty_le (op : Operation) (f : Flags) :
    op.ticks + op.penalty f ≤ maxInstructionTicks := by
  cases op with
  | invalid =>
    have hp : (invalid : Operation).penalty f = 0 := ite_self 0
    rw [hp]
    decide
  | _ => exact (isCost_ticks_add_penalty (by simp) f).2.2

end Operation

end Sm83
