import Sm83.Catalog.Base
import Sm83.Catalog.Extended

/-!
# The catalog

An opcode is looked up in one of two tables, which are written out row by row. Nothing in a row is
computed: that the operation is the one that the fields of the opcode select, and that template,
length and cost are those of the operation, is proved here for all rows. So the core, which learns
from the operation how many immediate bytes to fetch, fetches as many as the row counts.

## Main definitions

* `lookup`, `lookupExtended`: the rows of the two tables

## Main results

* `toList_baseTable`, `toList_extendedTable`: the rows describe the operations that the fields of
  the opcodes select
* `lookup_eq`, `lookupExtended_eq`: the row of an opcode
* `lookup_length`, `lookupExtended_length`: the encoded lengths
-/

namespace Sm83

/-- The row of an opcode that is not escaped. -/
def lookup (b : UInt8) : Instruction := have := b.toNat_lt; baseTable[b.toNat]

/-- The row of an opcode that follows the escape byte. -/
def lookupExtended (b : UInt8) : Instruction := have := b.toNat_lt; extendedTable[b.toNat]

/-! ## The rows and the fields of the opcodes -/

/-- Every row of the first table describes the operation that the fields of its opcode select. -/
theorem toList_baseTable :
    baseTable.toList = (List.range 256).map fun n => .ofOperation (decode (.ofNat n)) := by
  decide +kernel

/-- Every row of the second table describes the operation that the fields of its opcode select. -/
theorem toList_extendedTable :
    extendedTable.toList =
      (List.range 256).map fun n => .ofOperation (decodeExtended (.ofNat n)) := by
  decide +kernel

/-- The row of an opcode in a table whose rows describe the operations of all opcodes in order. -/
theorem getElem_of_toList_eq {table : Vector Instruction 256} {decode : UInt8 → Operation}
    (h : table.toList = (List.range 256).map fun n => .ofOperation (decode (.ofNat n)))
    (b : UInt8) (hb : b.toNat < 256) : table[b.toNat] = .ofOperation (decode b) := by
  have hlength : b.toNat < table.toList.length := by rwa [Vector.length_toList]
  rw [← Vector.getElem_toList hlength, List.getElem_of_eq h, List.getElem_map,
    List.getElem_range, UInt8.ofNat_toNat]

theorem lookup_eq (b : UInt8) : lookup b = .ofOperation (decode b) :=
  getElem_of_toList_eq toList_baseTable b b.toNat_lt

theorem lookupExtended_eq (b : UInt8) : lookupExtended b = .ofOperation (decodeExtended b) :=
  getElem_of_toList_eq toList_extendedTable b b.toNat_lt

/-! ## The columns -/

@[simp] theorem lookup_operation (b : UInt8) : (lookup b).operation = decode b := by
  rw [lookup_eq]; rfl

@[simp] theorem lookupExtended_operation (b : UInt8) :
    (lookupExtended b).operation = decodeExtended b := by
  rw [lookupExtended_eq]; rfl

/-- The length of a row counts the opcode and the immediate bytes of its operation. -/
@[simp] theorem lookup_length (b : UInt8) : (lookup b).length = (decode b).length := by
  rw [lookup_eq]; rfl

theorem lookup_length_pos (b : UInt8) : 0 < (lookup b).length := by
  have := (decode b).opcodeBytes_pos
  rw [lookup_length, Operation.length]
  omega

/-- Every byte behind the escape byte is assigned. -/
@[simp] theorem isValid_lookupExtended (b : UInt8) : (lookupExtended b).isValid = true := by
  rw [Instruction.isValid, lookupExtended_operation]
  unfold decodeExtended
  split <;> rfl

/-- Every instruction behind the escape byte is two bytes long. -/
@[simp] theorem lookupExtended_length (b : UInt8) : (lookupExtended b).length = 2 := by
  rw [lookupExtended_eq]
  show (decodeExtended b).length = 2
  unfold decodeExtended
  split <;> rfl

end Sm83
