import Sm83.Operation

/-!
# Decoding opcodes

An opcode is read as three fields: two bits that select a block of the table, three bits that
select a row of the block and three bits that select a column. Two tables exist; the second is
reached through the escape byte and is assigned completely.

## Main definitions

* `decode`: the operation of an opcode in the first table
* `decodeExtended`: the operation of an opcode in the second table
* `escapeByte`: the opcode that selects the second table

## Main results

* `decode_eq_escape_iff`: only the escape byte decodes to the escape
-/

namespace Sm83

/-- The opcode that selects the second table for the byte after it. -/
def escapeByte : UInt8 := 0xCB

/-- The upper two bits of a row: the number of a word operand or of a condition. -/
def rowPair (y : Fin 8) : Fin 4 := ⟨y.val / 2, by omega⟩

/-- The lower two bits of a row. -/
def rowLow (y : Fin 8) : Fin 4 := ⟨y.val % 4, by omega⟩

/-- Chooses by the lowest bit of a row. -/
def byRow (y : Fin 8) (even odd : Operation) : Operation := if y.val % 2 = 0 then even else odd

/-- The first block: loads of immediates, increments, 16-bit arithmetic and relative jumps. -/
def decodeFirstBlock (y z : Fin 8) : Operation :=
  match z with
  | 0 =>
    match y with
    | 0 => .nop
    | 1 => .storeSp
    | 2 => .stop
    | 3 => .jr none
    -- The four conditions fill the upper half of the column.
    | 4 | 5 | 6 | 7 => .jr (some (.ofIndex (rowLow y)))
  | 1 => byRow y (.ldImm16 (.ofIndex (rowPair y))) (.addHl (.ofIndex (rowPair y)))
  | 2 => byRow y (.storeA (.ofIndex (rowPair y))) (.loadA (.ofIndex (rowPair y)))
  | 3 => byRow y (.inc16 (.ofIndex (rowPair y))) (.dec16 (.ofIndex (rowPair y)))
  | 4 => .inc (.ofIndex y)
  | 5 => .dec (.ofIndex y)
  | 6 => .ldImm (.ofIndex y)
  | 7 =>
    match y with
    | 0 => .rotateA .rlc
    | 1 => .rotateA .rrc
    | 2 => .rotateA .rl
    | 3 => .rotateA .rr
    | 4 => .daa
    | 5 => .cpl
    | 6 => .scf
    | 7 => .ccf

/-- The last block: the stack, absolute jumps, accesses to the top page and immediate arithmetic. -/
def decodeLastBlock (y z : Fin 8) : Operation :=
  match z with
  | 0 =>
    match y with
    | 0 | 1 | 2 | 3 => .ret (some (.ofIndex (rowLow y)))
    | 4 => .storeA .highImm
    | 5 => .addSp
    | 6 => .loadA .highImm
    | 7 => .ldHlSp
  | 1 =>
    match y with
    | 0 | 2 | 4 | 6 => .pop (.ofIndex (rowPair y))
    | 1 => .ret none
    | 3 => .reti
    | 5 => .jpHl
    | 7 => .ldSpHl
  | 2 =>
    match y with
    | 0 | 1 | 2 | 3 => .jp (some (.ofIndex (rowLow y)))
    | 4 => .storeA .highC
    | 5 => .storeA .absolute
    | 6 => .loadA .highC
    | 7 => .loadA .absolute
  | 3 =>
    match y with
    | 0 => .jp none
    | 1 => .escape
    | 2 | 3 | 4 | 5 => .invalid
    | 6 => .di
    | 7 => .ei
  | 4 =>
    match y with
    | 0 | 1 | 2 | 3 => .call (some (.ofIndex (rowLow y)))
    | 4 | 5 | 6 | 7 => .invalid
  | 5 =>
    match y with
    | 0 | 2 | 4 | 6 => .push (.ofIndex (rowPair y))
    | 1 => .call none
    | 3 | 5 | 7 => .invalid
  | 6 => .aluImm (.ofIndex y)
  | 7 => .rst y

/-- The operation of an opcode in the first table. -/
def decode (b : UInt8) : Operation :=
  match block b with
  | 0 => decodeFirstBlock (row b) (column b)
  -- A load from the byte at HL to the byte at HL does not exist: its place is taken by HALT.
  | 1 => if row b = 6 ∧ column b = 6 then .halt else .ld (.ofIndex (row b)) (.ofIndex (column b))
  | 2 => .alu (.ofIndex (row b)) (.ofIndex (column b))
  | 3 => decodeLastBlock (row b) (column b)

/-- The operation of an opcode in the second table. -/
def decodeExtended (b : UInt8) : Operation :=
  match block b with
  | 0 => .rotate (.ofIndex (row b)) (.ofIndex (column b))
  | 1 => .bit (row b) (.ofIndex (column b))
  | 2 => .res (row b) (.ofIndex (column b))
  | 3 => .set (row b) (.ofIndex (column b))

theorem isExtended_decodeExtended (b : UInt8) : (decodeExtended b).isExtended = true := by
  unfold decodeExtended
  split <;> rfl

theorem isExtended_decode (b : UInt8) : (decode b).isExtended = false := by
  revert b
  exact forall_byte (by decide +kernel)

@[simp] theorem opcodeBytes_decode (b : UInt8) : (decode b).opcodeBytes = 1 := by
  rw [Operation.opcodeBytes, isExtended_decode]
  rfl

@[simp] theorem opcodeBytes_decodeExtended (b : UInt8) : (decodeExtended b).opcodeBytes = 2 := by
  rw [Operation.opcodeBytes, isExtended_decodeExtended]
  rfl

theorem decode_eq_escape_iff (b : UInt8) : decode b = .escape ↔ b = escapeByte := by
  revert b
  exact forall_byte (by decide +kernel)

end Sm83
