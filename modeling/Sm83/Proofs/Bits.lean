import Mathlib.Data.Nat.Bitwise
import Sm83.Arithmetic
import Sm83.Rotation

/-!
# Bytes as numbers

Flags and rotations are computed with masks and shifts. Read as numbers, half-carry and carry are
comparisons of nibbles and of bytes. A rotated byte is a double or a half, reduced to a byte, with
the free place filled from the byte itself or from the carry flag, and the bit that leaves it is its
top bit or its lowest bit. What is done to a single bit says nothing about the others.

## Main definitions

* `Rotation.exact`, `Rotation.bitOut`: a rotation as arithmetic
* `Rotation.signedHalf`: half of the number that two's complement reads

## Main results

* `flags_addBytes`, `flags_subBytes`: half-carry and carry are comparisons
* `Rotation.toNat_result`, `Rotation.carryOut_eq`: rotations are arithmetic
* `Rotation.apply_sla`, `Rotation.apply_srl`, `Rotation.apply_sra`: a shift is a rotation through
  the carry in which another bit comes in
* `and_bitMask_beq_zero`: a masked byte is zero exactly if the bit is clear
* `testBit_clearBit`, `testBit_setBit`: one bit changes and the others stay
-/

namespace Sm83

/-! ## Carries -/

theorem toNat_lowNibble (v : UInt8) : (v &&& 0x0F).toNat = v.toNat % 16 := by
  rw [UInt8.toNat_and]
  exact Nat.and_two_pow_sub_one_eq_mod _ 4

theorem flags_addBytes (a v : UInt8) (carry : Bool) :
    (addBytes a v carry).2.half = decide (15 < a.toNat % 16 + v.toNat % 16 + carry.toNat) ∧
      (addBytes a v carry).2.carry = decide (255 < a.toNat + v.toNat + carry.toNat) := by
  have ha := a.toNat_lt
  have hv := v.toNat_lt
  have hc := carry.toNat_le
  have hbyte : carry.toUInt8.toNat = carry.toNat := by cases carry <;> rfl
  have hword : carry.toUInt16.toNat = carry.toNat := by cases carry <;> rfl
  constructor
  · have hsum : ((a &&& 0x0F) + (v &&& 0x0F) + carry.toUInt8).toNat =
        a.toNat % 16 + v.toNat % 16 + carry.toNat := by
      simp only [UInt8.toNat_add, toNat_lowNibble, hbyte]
      omega
    simp only [addBytes, gt_iff_lt, UInt8.lt_iff_toNat_lt, hsum]
    rfl
  · have hsum : (a.toUInt16 + v.toUInt16 + carry.toUInt16).toNat =
        a.toNat + v.toNat + carry.toNat := by
      simp only [UInt16.toNat_add, UInt8.toNat_toUInt16, hword]
      omega
    simp only [addBytes, gt_iff_lt, UInt16.lt_iff_toNat_lt, hsum]
    rfl

theorem flags_subBytes (a v : UInt8) (borrow : Bool) :
    (subBytes a v borrow).2.half = decide (a.toNat % 16 < v.toNat % 16 + borrow.toNat) ∧
      (subBytes a v borrow).2.carry = decide (a.toNat < v.toNat + borrow.toNat) := by
  have hv := v.toNat_lt
  have hb := borrow.toNat_le
  have hbyte : borrow.toUInt8.toNat = borrow.toNat := by cases borrow <;> rfl
  have hword : borrow.toUInt16.toNat = borrow.toNat := by cases borrow <;> rfl
  constructor
  · have hsum : ((v &&& 0x0F) + borrow.toUInt8).toNat = v.toNat % 16 + borrow.toNat := by
      simp only [UInt8.toNat_add, toNat_lowNibble, hbyte]
      omega
    simp only [subBytes, UInt8.lt_iff_toNat_lt, hsum, toNat_lowNibble]
  · have hsum : (v.toUInt16 + borrow.toUInt16).toNat = v.toNat + borrow.toNat := by
      simp only [UInt16.toNat_add, UInt8.toNat_toUInt16, hword]
      omega
    simp only [subBytes, UInt16.lt_iff_toNat_lt, hsum, UInt8.toNat_toUInt16]

/-! ## Single bits -/

theorem toNat_bitMask (i : Fin 8) : (bitMask i).toNat = 2 ^ i.val := by
  revert i
  decide

/-- A masked byte is zero exactly if the bit is clear. -/
theorem and_bitMask_beq_zero (v : UInt8) (i : Fin 8) :
    (v &&& bitMask i == 0) = !v.toNat.testBit i := by
  have hnat : (v &&& bitMask i).toNat = (v.toNat.testBit i).toNat * 2 ^ i.val := by
    rw [UInt8.toNat_and, toNat_bitMask, Nat.and_two_pow]
  have hzero : (v &&& bitMask i = 0) ↔ (v.toNat.testBit i).toNat * 2 ^ i.val = 0 := by
    rw [← UInt8.toNat_inj, hnat]
    rfl
  rw [Bool.eq_iff_iff, beq_iff_eq, hzero]
  cases v.toNat.testBit i <;> simp

theorem testBit_bitMask (i : Fin 8) (j : ℕ) : (bitMask i).toNat.testBit j = decide (i.val = j) := by
  rw [toNat_bitMask, Nat.testBit_two_pow]

/-- Clearing a bit leaves the others alone. -/
theorem testBit_clearBit (i : Fin 8) (v : UInt8) (j : ℕ) :
    (clearBit i v).toNat.testBit j = (v.toNat.testBit j && decide (i.val ≠ j)) := by
  by_cases hj : j < 8
  · have hnot : (~~~bitMask i).toNat.testBit j = !(bitMask i).toNat.testBit j := by
      simp only [← UInt8.toNat_toBitVec, BitVec.testBit_toNat, UInt8.toBitVec_not,
        BitVec.getLsbD_not, hj, decide_true, Bool.true_and]
    rw [clearBit, UInt8.toNat_and, Nat.testBit_and, hnot, testBit_bitMask, decide_not]
  · have hlt (w : UInt8) : w.toNat.testBit j = false :=
      Nat.testBit_lt_two_pow (w.toNat_lt.trans_le (Nat.pow_le_pow_right (by decide) (by omega)))
    rw [hlt, hlt, Bool.false_and]

/-- Setting a bit leaves the others alone. -/
theorem testBit_setBit (i : Fin 8) (v : UInt8) (j : ℕ) :
    (setBit i v).toNat.testBit j = (v.toNat.testBit j || decide (i.val = j)) := by
  rw [setBit, UInt8.toNat_or, Nat.testBit_or, testBit_bitMask]

/-! ## Rotations -/

/-- Two bytes that have no bit in common are joined by adding them. -/
theorem toNat_or_of_lt {high low : UInt8} (i m : ℕ) (hhigh : high.toNat = 2 ^ i * m)
    (hlow : low.toNat < 2 ^ i) : (high ||| low).toNat = high.toNat + low.toNat := by
  rw [UInt8.toNat_or, hhigh, Nat.two_pow_add_eq_or_of_lt hlow]

/-- The places that a shift leaves free are the low ones. -/
theorem toNat_shiftLeft_eq (v : UInt8) {k : UInt8} {n : ℕ} (hk : k.toNat = n) (hn : n < 8) :
    (v <<< k).toNat = 2 ^ n * (v.toNat % 2 ^ (8 - n)) := by
  have hsize : 2 ^ 8 = 2 ^ n * 2 ^ (8 - n) := by
    rw [← Nat.pow_add, Nat.add_sub_cancel' hn.le]
  rw [UInt8.toNat_shiftLeft, hk, Nat.mod_eq_of_lt hn, Nat.shiftLeft_eq, Nat.mul_comm, hsize,
    Nat.mul_mod_mul_left]

theorem toNat_shiftRight_eq (v : UInt8) {k : UInt8} {n : ℕ} (hk : k.toNat = n) (hn : n < 8) :
    (v >>> k).toNat = v.toNat / 2 ^ n := by
  rw [UInt8.toNat_shiftRight, hk, Nat.mod_eq_of_lt hn, Nat.shiftRight_eq_div_pow]

namespace Rotation

/-- The byte of which two's complement reads half of what it reads of `v`, rounded down. -/
def signedHalf (v : ℕ) : ℕ := ((v : ℤ).bmod 256 / 2 % 256).toNat

/-- The sign stays and moves down. -/
theorem signedHalf_eq {v : ℕ} (hv : v < 256) : signedHalf v = v / 2 + 128 * (v / 128) := by
  show ((v : ℤ).bmod 256 / 2 % 256).toNat = v / 2 + 128 * (v / 128)
  rw [Int.bmod_def]
  omega

/-- The number that a rotation makes of a number below 256. -/
def exact (op : Rotation) (v : ℕ) (carry : Bool) : ℕ :=
  match op with
  | rlc => 2 * v % 256 + v / 128
  | rrc => v / 2 + 128 * (v % 2)
  | rl => 2 * v % 256 + carry.toNat
  | rr => v / 2 + 128 * carry.toNat
  | sla => 2 * v % 256
  | sra => signedHalf v
  | swap => 16 * (v % 16) + v / 16
  | srl => v / 2

/-- The bit that leaves a number below 256. -/
def bitOut (op : Rotation) (v : ℕ) : Bool :=
  match op with
  | rlc | rl | sla => v.testBit 7
  | rrc | rr | sra | srl => v.testBit 0
  | swap => false

theorem carryOut_eq (op : Rotation) (v : UInt8) : op.carryOut v = op.bitOut v.toNat := by
  have htop : (v &&& 0x80 != 0) = v.toNat.testBit 7 := by
    rw [bne, show (0x80 : UInt8) = bitMask 7 from rfl, and_bitMask_beq_zero, Bool.not_not]
    rfl
  have hlowest : (v &&& 0x01 != 0) = v.toNat.testBit 0 := by
    rw [bne, show (0x01 : UInt8) = bitMask 0 from rfl, and_bitMask_beq_zero, Bool.not_not]
    rfl
  cases op with
  | rlc | rl | sla => exact htop
  | rrc | rr | sra | srl => exact hlowest
  | swap => rfl

theorem toNat_result (op : Rotation) (v : UInt8) (carry : Bool) :
    (op.result v carry).toNat = op.exact v.toNat carry := by
  have hv := v.toNat_lt
  have hc := carry.toNat_le
  have hbyte : carry.toUInt8.toNat = carry.toNat := by cases carry <;> rfl
  have hdouble := toNat_shiftLeft_eq v (k := 1) (n := 1) rfl (by decide)
  have hhalf := toNat_shiftRight_eq v (k := 1) (n := 1) rfl (by decide)
  cases op with
  | rlc =>
    have hlow := toNat_shiftRight_eq v (k := 7) (n := 7) rfl (by decide)
    show (v <<< 1 ||| v >>> 7).toNat = 2 * v.toNat % 256 + v.toNat / 128
    rw [toNat_or_of_lt 1 _ hdouble (by omega)]
    omega
  | rrc =>
    have hhigh := toNat_shiftLeft_eq v (k := 7) (n := 7) rfl (by decide)
    show (v >>> 1 ||| v <<< 7).toNat = v.toNat / 2 + 128 * (v.toNat % 2)
    rw [UInt8.or_comm, toNat_or_of_lt 7 _ hhigh (by omega)]
    omega
  | rl =>
    show (v <<< 1 ||| carry.toUInt8).toNat = 2 * v.toNat % 256 + carry.toNat
    rw [toNat_or_of_lt 1 _ hdouble (by omega)]
    omega
  | rr =>
    have hhigh := toNat_shiftLeft_eq carry.toUInt8 (k := 7) (n := 7) rfl (by decide)
    show (v >>> 1 ||| carry.toUInt8 <<< 7).toNat = v.toNat / 2 + 128 * carry.toNat
    rw [UInt8.or_comm, toNat_or_of_lt 7 _ hhigh (by omega)]
    omega
  | sla =>
    show (v <<< 1).toNat = 2 * v.toNat % 256
    omega
  | sra =>
    have hhigh : (v &&& 0x80).toNat = 2 ^ 7 * (v.toNat / 128) := by
      have hbit : (v.toNat.testBit 7).toNat = v.toNat / 128 := by
        rw [Nat.toNat_testBit]
        omega
      rw [UInt8.toNat_and, show (0x80 : UInt8).toNat = 2 ^ 7 from rfl, Nat.and_two_pow, hbit,
        Nat.mul_comm]
    show (v >>> 1 ||| v &&& 0x80).toNat = signedHalf v.toNat
    rw [UInt8.or_comm, toNat_or_of_lt 7 _ hhigh (by omega), signedHalf_eq hv]
    omega
  | swap =>
    have hhigh := toNat_shiftLeft_eq v (k := 4) (n := 4) rfl (by decide)
    have hlow := toNat_shiftRight_eq v (k := 4) (n := 4) rfl (by decide)
    show (v <<< 4 ||| v >>> 4).toNat = 16 * (v.toNat % 16) + v.toNat / 16
    rw [toNat_or_of_lt 4 _ hhigh (by omega)]
    omega
  | srl =>
    show (v >>> 1).toNat = v.toNat / 2
    omega

/-- Rotations that agree as arithmetic agree in all flags. -/
theorem apply_eq_of_exact {op other : Rotation} {v : UInt8} {carry bit : Bool}
    (hexact : op.exact v.toNat carry = other.exact v.toNat bit)
    (hout : op.bitOut v.toNat = other.bitOut v.toNat) :
    op.apply v carry = other.apply v bit := by
  have hresult : op.result v carry = other.result v bit := by
    rw [← UInt8.toNat_inj, toNat_result, toNat_result, hexact]
  simp only [apply, hresult, carryOut_eq, hout]

/-- A shift to the left takes in a zero. -/
theorem apply_sla (v : UInt8) (carry : Bool) : sla.apply v carry = rl.apply v false :=
  apply_eq_of_exact (by simp only [exact, Bool.toNat_false, Nat.add_zero]) (by simp only [bitOut])

/-- A logical shift to the right takes in a zero. -/
theorem apply_srl (v : UInt8) (carry : Bool) : srl.apply v carry = rr.apply v false :=
  apply_eq_of_exact (by simp only [exact, Bool.toNat_false, Nat.mul_zero, Nat.add_zero])
    (by simp only [bitOut])

/-- An arithmetic shift to the right takes in the sign. -/
theorem apply_sra (v : UInt8) (carry : Bool) :
    sra.apply v carry = rr.apply v (v.toNat.testBit 7) := by
  refine apply_eq_of_exact ?_ (by simp only [bitOut])
  have hv := v.toNat_lt
  simp only [exact, signedHalf_eq hv, Nat.toNat_testBit]
  omega

end Rotation

end Sm83
