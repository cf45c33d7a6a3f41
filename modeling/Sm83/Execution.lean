import Sm83.Instruction

/-!
# Executed instructions

While the core fetches an instruction it records the bytes in three slots. A new instruction
starts at the first slot and does not clear the others, so that the slots past the recorded bytes
hold what longer instructions left there. An instruction that has been executed is described by its
address, its entry in the opcode table and these slots.

## Main definitions

* `FetchRecord`: the slots, and how many of them belong to the current instruction
* `FetchRecord.bytes`: the bytes of the current instruction
* `Execution`: an executed instruction, with its `bytes`, `operands` and `text`

## Main results

* `FetchRecord.bytes_push`: recording a byte appends it
-/

namespace Sm83

/-- The bytes fetched for the current instruction. -/
structure FetchRecord where
  slots : Vector UInt8 3 := .replicate 3 0
  /-- How many slots belong to the current instruction. -/
  count : Nat := 0
  deriving DecidableEq, Inhabited

namespace FetchRecord

/-- The record with one more byte; a byte for which no slot is left is not recorded. -/
def push (r : FetchRecord) (b : UInt8) : FetchRecord :=
  if h : r.count < 3 then { slots := r.slots.set r.count b, count := r.count + 1 } else r

/-- The record at the start of an instruction: no slot belongs to it, and none is cleared. -/
def restart (r : FetchRecord) : FetchRecord := { r with count := 0 }

/-- The bytes of the current instruction. -/
def bytes (r : FetchRecord) : List UInt8 := r.slots.toList.take r.count

def first (r : FetchRecord) : UInt8 := r.slots[0]

@[simp] theorem bytes_restart (r : FetchRecord) : r.restart.bytes = [] := rfl

@[simp] theorem count_restart (r : FetchRecord) : r.restart.count = 0 := rfl

/-- Recording a byte in a free slot appends it to the bytes of the instruction. -/
theorem bytes_push {r : FetchRecord} (b : UInt8) (h : r.count < 3) :
    (r.push b).bytes = r.bytes ++ [b] := by
  rcases r with ⟨slots, count⟩
  simp only at h
  simp only [push, bytes, h, dif_pos, Vector.toList_set]
  rw [List.take_succ_eq_append_getElem (by simp; omega)]
  simp [List.take_set_of_le]

theorem count_push {r : FetchRecord} (b : UInt8) (h : r.count < 3) :
    (r.push b).count = r.count + 1 := by
  simp [push, h]

theorem count_push_le {r : FetchRecord} (b : UInt8) (h : r.count ≤ 3) : (r.push b).count ≤ 3 := by
  unfold push
  split
  · simp only; omega
  · exact h

/-- The first slot keeps the first byte of the instruction. -/
theorem first_push {r : FetchRecord} (b : UInt8) :
    (r.push b).first = if r.count = 0 then b else r.first := by
  rcases r with ⟨slots, count⟩
  unfold push first
  by_cases h : count < 3
  · simp [h, Vector.getElem_set]
  · simp [h, show count ≠ 0 by omega]

end FetchRecord

/-- The record of an executed instruction. -/
structure Execution where
  /-- The address of the first byte. -/
  addr : UInt16
  record : FetchRecord
  instruction : Instruction
  deriving DecidableEq

namespace Execution

/-- All bytes fetched for the instruction, the escape byte included. -/
def bytes (x : Execution) : List UInt8 := x.record.bytes

/-- The immediate bytes; an instruction behind the escape byte has none. -/
def operands (x : Execution) : List UInt8 :=
  match x.bytes with
  -- The second byte behind the escape byte is an opcode, not an operand.
  | [] => []
  | first :: rest => if first = escapeByte then [] else rest

/-- The address and the text of the instruction. -/
def text (x : Execution) : String :=
  hexWord x.addr ++ ": " ++ x.instruction.render x.operands

end Execution

end Sm83
