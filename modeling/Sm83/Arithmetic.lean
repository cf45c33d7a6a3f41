import Sm83.Operand

/-!
# Arithmetic on bytes and words

Each operation is a function from its operands, and the flags where it reads them, to its result
and the flags it leaves. Half-carry is the carry out of the lower nibble of a byte, or out of the
lower twelve bits of a word; a borrow counts as a carry.

## Main definitions

* `addBytes`, `subBytes`: addition and subtraction with carry
* `Arithmetic.apply`: the eight operations of the accumulator
* `increment`, `decrement`, `decimalAdjust`: the remaining operations on a byte
* `addWords`, `addOffset`: the 16-bit additions

## Main results

* `toNat_addBytes`, `toNat_subBytes`: the result modulo 256
-/

namespace Sm83

/-! ## Bytes -/

/-- The sum of two bytes and a carry. -/
def addBytes (a v : UInt8) (carry : Bool) : UInt8 × Flags :=
  -- Sums of nibbles fit in a byte and sums of bytes in a word, so that no carry is lost.
  let full := a.toUInt16 + v.toUInt16 + carry.toUInt16
  let nibble := (a &&& 0x0F) + (v &&& 0x0F) + carry.toUInt8
  let result := lo full
  (result, { zero := result == 0, half := nibble > 0x0F, carry := full > 0xFF })

/-- The difference of two bytes, less a borrow. -/
def subBytes (a v : UInt8) (borrow : Bool) : UInt8 × Flags :=
  let result := a - v - borrow.toUInt8
  (result,
    { zero := result == 0
      subtract := true
      half := (a &&& 0x0F) < (v &&& 0x0F) + borrow.toUInt8
      carry := a.toUInt16 < v.toUInt16 + borrow.toUInt16 })

/-- The accumulator and the flags after an operation of the accumulator `a` with the byte `v`. A
comparison sets the flags of a subtraction and keeps the accumulator. -/
def Arithmetic.apply (op : Arithmetic) (a v : UInt8) (f : Flags) : UInt8 × Flags :=
  match op with
  | add => addBytes a v false
  | adc => addBytes a v f.carry
  | sub => subBytes a v false
  | sbc => subBytes a v f.carry
  | and => (a &&& v, { zero := a &&& v == 0, half := true })
  | xor => (a ^^^ v, { zero := a ^^^ v == 0 })
  | or => (a ||| v, { zero := a ||| v == 0 })
  | cp => (a, (subBytes a v false).2)

/-- A byte plus one; the carry flag is kept. -/
def increment (v : UInt8) (f : Flags) : UInt8 × Flags :=
  let result := v + 1
  (result, { f with zero := result == 0, subtract := false, half := v &&& 0x0F == 0x0F })

/-- A byte minus one; the carry flag is kept. -/
def decrement (v : UInt8) (f : Flags) : UInt8 × Flags :=
  let result := v - 1
  (result, { f with zero := result == 0, subtract := true, half := v &&& 0x0F == 0 })

/-- The accumulator corrected to two decimal digits after an addition or a subtraction of such
digits. After an addition the correction follows the flags and the size of the digits, and the
carry flag is set when the high digit was corrected; after a subtraction it follows the flags
alone, and the carry flag is kept. -/
def decimalAdjust (a : UInt8) (f : Flags) : UInt8 × Flags :=
  -- The test is made on the uncorrected value: the largest with two decimal digits is 0x99.
  let carry := if f.subtract then f.carry else f.carry || 0x99 < a
  let high := if carry then 0x60 else 0
  let result :=
    if f.subtract then
      let a := a - high
      if f.half then a - 0x06 else a
    else
      let a := a + high
      if f.half || 0x09 < a &&& 0x0F then a + 0x06 else a
  (result, { f with zero := result == 0, half := false, carry := carry })

/-! ## Single bits -/

/-- The byte with bit `i` alone set. -/
def bitMask (i : Fin 8) : UInt8 := 1 <<< UInt8.ofNat i

/-- The flags after a test of bit `i` of a byte: zero says that the bit is clear. -/
def testBit (i : Fin 8) (v : UInt8) (f : Flags) : Flags :=
  { f with zero := v &&& bitMask i == 0, subtract := false, half := true }

def clearBit (i : Fin 8) (v : UInt8) : UInt8 := v &&& ~~~bitMask i

def setBit (i : Fin 8) (v : UInt8) : UInt8 := v ||| bitMask i

/-! ## Words -/

/-- The sum of two words; the zero flag is kept. -/
def addWords (x y : UInt16) (f : Flags) : UInt16 × Flags :=
  (x + y,
    { f with
      subtract := false
      half := (x &&& 0x0FFF) + (y &&& 0x0FFF) > 0x0FFF
      carry := x.toUInt32 + y.toUInt32 > 0xFFFF })

/-- A word plus a displacement; the flags are those of adding the displacement, as an unsigned
byte, to the low byte, with the zero flag clear. -/
def addOffset (base : UInt16) (e : UInt8) : UInt16 × Flags :=
  let low := base &&& 0x00FF
  let offset := e.toUInt16
  (base + signExtend e,
    { half := (low &&& 0x0F) + (offset &&& 0x0F) > 0x0F, carry := low + offset > 0xFF })

/-! ## Results modulo 256 -/

theorem toNat_addBytes (a v : UInt8) (carry : Bool) :
    (addBytes a v carry).1.toNat = (a.toNat + v.toNat + carry.toNat) % 256 := by
  have ha := a.toNat_lt
  have hv := v.toNat_lt
  have hc : carry.toUInt16.toNat = carry.toNat := by cases carry <;> rfl
  have := carry.toNat_le
  simp only [addBytes, toNat_lo, UInt16.toNat_add, UInt8.toNat_toUInt16, hc]
  omega

theorem toNat_subBytes (a v : UInt8) (borrow : Bool) :
    (subBytes a v borrow).1.toNat = (512 + a.toNat - v.toNat - borrow.toNat) % 256 := by
  have ha := a.toNat_lt
  have hv := v.toNat_lt
  have hb : borrow.toUInt8.toNat = borrow.toNat := by cases borrow <;> rfl
  have := borrow.toNat_le
  simp only [subBytes, UInt8.toNat_sub, hb]
  omega

end Sm83
