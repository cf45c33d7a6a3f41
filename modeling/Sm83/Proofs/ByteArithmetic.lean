import Sm83.Proofs.Bits
import Sm83.Proofs.StraightLine

/-!
# The arithmetic of the accumulator

The eight operations of the accumulator with a byte are described over the integers. The result is
the sum or the difference before it is reduced; a carry or a borrow is a result that leaves the
range of a byte, and for half-carry the same is done with the lower nibbles. Each of the operations
has eight opcodes for the operands in registers and at HL, and one for an immediate byte.

## Main definitions

* `Arithmetic.exact`, `Arithmetic.exactFlags`: an operation over the integers
* `rowArithmetic`: the operations by their number

## Main results

* `Arithmetic.apply_eq_exact`: the operations agree with the integers
* `Machine.arithmetic_law`: what a step does at each of the opcodes
-/

namespace Sm83

attribute [ext] Flags

namespace Arithmetic

/-- The result of an operation of two numbers and the carry flag, which only ADC and SBC take in. -/
def exact (op : Arithmetic) (a v : ℕ) (carry : Bool) : ℤ :=
  match op with
  | add => a + v
  | adc => a + v + carry.toNat
  | sub | cp => a - v
  | sbc => a - v - carry.toNat
  | and => (a &&& v : ℕ)
  | xor => (a ^^^ v : ℕ)
  | or => (a ||| v : ℕ)

/-- The flags that go with the result. Half-carry and carry are read off the same operation with
the lower nibbles and with the bytes. -/
def exactFlags (op : Arithmetic) (a v : ℕ) (carry : Bool) : Flags :=
  let result := op.exact a v carry
  let nibbles := op.exact (a % 16) (v % 16) carry
  match op with
  | add | adc =>
    { zero := result % 256 = 0, subtract := false, half := 16 ≤ nibbles, carry := 256 ≤ result }
  | sub | sbc | cp =>
    { zero := result % 256 = 0, subtract := true, half := nibbles < 0, carry := result < 0 }
  | and => { zero := result = 0, subtract := false, half := true, carry := false }
  | xor | or => { zero := result = 0, subtract := false, half := false, carry := false }

/-- The accumulator and the flags after an operation over the integers. A comparison keeps the
accumulator. -/
def exactResult (op : Arithmetic) (a v : UInt8) (carry : Bool) : UInt8 × Flags :=
  (if op = cp then a else .ofInt (op.exact a.toNat v.toNat carry),
    op.exactFlags a.toNat v.toNat carry)

/-- A byte is zero exactly if 256 divides the number that it is reduced from. -/
theorem beq_zero_of_toNat {b : UInt8} {n : ℤ} (h : (b.toNat : ℤ) = n % 256) :
    (b == 0) = decide (n % 256 = 0) := by
  rw [Bool.eq_iff_iff, beq_iff_eq, decide_eq_true_iff, ← UInt8.toNat_inj, ← h]
  exact Int.natCast_eq_zero.symm

theorem eq_ofInt_of_toNat {b : UInt8} {n : ℤ} (h : (b.toNat : ℤ) = n % 256) : b = .ofInt n := by
  rw [UInt8.ofInt, show (2 : ℤ) ^ 8 = 256 from rfl, ← h, Int.toNat_natCast, UInt8.ofNat_toNat]

/-- Addition over the integers. -/
theorem addBytes_eq (a v : UInt8) (carry : Bool) :
    let result : ℤ := a.toNat + v.toNat + carry.toNat
    let nibbles : ℤ := (a.toNat % 16 : ℕ) + (v.toNat % 16 : ℕ) + carry.toNat
    addBytes a v carry =
      (.ofInt result,
        { zero := result % 256 = 0, subtract := false, half := 16 ≤ nibbles
          carry := 256 ≤ result }) := by
  intro result nibbles
  have hresult : ((addBytes a v carry).1.toNat : ℤ) = result % 256 := by
    rw [toNat_addBytes]
    rfl
  obtain ⟨hhalf, hcarry⟩ := flags_addBytes a v carry
  refine Prod.ext (eq_ofInt_of_toNat hresult) (Flags.ext (beq_zero_of_toNat hresult) rfl ?_ ?_)
  · exact hhalf.trans (decide_eq_decide.2 (by omega))
  · exact hcarry.trans (decide_eq_decide.2 (by omega))

/-- Subtraction over the integers. -/
theorem subBytes_eq (a v : UInt8) (borrow : Bool) :
    let result : ℤ := a.toNat - v.toNat - borrow.toNat
    let nibbles : ℤ := (a.toNat % 16 : ℕ) - (v.toNat % 16 : ℕ) - borrow.toNat
    subBytes a v borrow =
      (.ofInt result,
        { zero := result % 256 = 0, subtract := true, half := nibbles < 0
          carry := result < 0 }) := by
  intro result nibbles
  have hv := v.toNat_lt
  have hb := borrow.toNat_le
  have hresult : ((subBytes a v borrow).1.toNat : ℤ) = result % 256 := by
    rw [toNat_subBytes]
    omega
  obtain ⟨hhalf, hcarry⟩ := flags_subBytes a v borrow
  refine Prod.ext (eq_ofInt_of_toNat hresult) (Flags.ext (beq_zero_of_toNat hresult) rfl ?_ ?_)
  · exact hhalf.trans (decide_eq_decide.2 (by omega))
  · exact hcarry.trans (decide_eq_decide.2 (by omega))

/-- A bitwise operation does not leave the range of a byte. -/
theorem bitwise_eq {b : UInt8} {n : ℕ} (h : b.toNat = n) (half : Bool) :
    ((b, { zero := b == 0, half }) : UInt8 × Flags) =
      (.ofInt n, { zero := (n : ℤ) = 0, subtract := false, half, carry := false }) := by
  have hn : (n : ℤ) % 256 = n := by
    have hlt := b.toNat_lt
    omega
  have hresult : (b.toNat : ℤ) = (n : ℤ) % 256 := by rw [hn, h]
  refine Prod.ext (eq_ofInt_of_toNat hresult) (Flags.ext ?_ rfl rfl rfl)
  exact (beq_zero_of_toNat hresult).trans (by rw [hn])

/-- **The operations agree with the integers.** -/
theorem apply_eq_exact (op : Arithmetic) (a v : UInt8) (f : Flags) :
    op.apply a v f = op.exactResult a v f.carry := by
  cases op with
  | add =>
    rw [apply, addBytes_eq]
    simp only [exactResult, exactFlags, exact, reduceCtorEq, if_false, Bool.toNat_false,
      Int.natCast_zero, Int.add_zero]
    rfl
  | adc => exact addBytes_eq a v f.carry
  | sub =>
    rw [apply, subBytes_eq]
    simp only [exactResult, exactFlags, exact, reduceCtorEq, if_false, Bool.toNat_false,
      Int.natCast_zero, Int.sub_zero]
    rfl
  | sbc => exact subBytes_eq a v f.carry
  | and => exact bitwise_eq (UInt8.toNat_and a v) true
  | xor => exact bitwise_eq (UInt8.toNat_xor a v) false
  | or => exact bitwise_eq (UInt8.toNat_or a v) false
  | cp =>
    rw [apply, subBytes_eq]
    simp only [exactResult, exactFlags, exact, if_true, Bool.toNat_false, Int.natCast_zero,
      Int.sub_zero]
    rfl

end Arithmetic

/-! ## The opcodes -/

/-- The operations in the order of the middle three bits of an opcode. -/
def rowArithmetic (y : Fin 8) : Arithmetic :=
  ![.add, .adc, .sub, .sbc, .and, .xor, .or, .cp] y

theorem Arithmetic.ofIndex_eq (y : Fin 8) : Arithmetic.ofIndex y = rowArithmetic y := by
  revert y
  decide

theorem decode_alu {b : UInt8} {y z : Fin 8} (h : b = .ofNat (0x80 + 8 * y + z)) :
    decode b = .alu (rowArithmetic y) (.ofIndex z) := by
  obtain ⟨hblock, hrow, hcolumn⟩ := fields_of_eq (x := 2) h
  simp only [decode, hblock, hrow, hcolumn, Arithmetic.ofIndex_eq]

theorem decode_aluImm {b : UInt8} {y : Fin 8} (h : b = .ofNat (0xC6 + 8 * y)) :
    decode b = .aluImm (rowArithmetic y) := by
  have hfields : b = .ofNat (64 * (3 : Fin 4).val + 8 * y + (6 : Fin 8)) := by
    rw [h]
    congr 1
    show 198 + 8 * y.val = 192 + 8 * y.val + 6
    omega
  obtain ⟨hblock, hrow, hcolumn⟩ := fields_of_eq hfields
  simp only [decode, decodeLastBlock, hblock, hrow, hcolumn, Arithmetic.ofIndex_eq]

namespace Machine

variable {σ : Type} {bus : Bus σ} {m : Machine σ}

/-- **The arithmetic of the accumulator.** The opcodes of the third quarter of the table, and those
with an immediate byte, carry out the operation of their row on the accumulator and the byte. The
result and the flags are those over the integers; no other register changes, nothing is stored, and
the bus is asked for the byte at HL exactly if that is the operand. -/
theorem arithmetic_law (bus : Bus σ) {m : Machine σ} (hm : m.core.mode = .running)
    (hb : m.core.budget = 0) :
    let r := m.core.regs
    let first := bus.read r.pc m.env
    (∀ y z : Fin 8, first.1 = .ofNat (0x80 + 8 * y + z) →
      let place := columnRegister? z
      let v := r.valueAt place (bus.read r.hl first.2).1
      ∃ x, m.Performs bus x [first.1] (if z = 6 then 8 else 4) (r.loadsAt place) []
        (r.setResult ((rowArithmetic y).exactResult r.a v r.flags.carry))) ∧
    ∀ y : Fin 8, first.1 = .ofNat (0xC6 + 8 * y) →
      let second := bus.read (r.pc + 1) first.2
      ∃ x, m.Performs bus x [first.1, second.1] 8 [] []
        (r.setResult ((rowArithmetic y).exactResult r.a second.1 r.flags.carry)) := by
  intro r first
  refine ⟨fun y z h => ?_, fun y h => ?_⟩
  · intro place v
    obtain ⟨hop, hfetch⟩ := fetch_of_decode (decode_alu h) nofun
    have hplace := register?_ofIndex z
    have hvalue := ByteOperand.value_eq hplace bus r first.2
    refine exists_performs hm hb hop ⟨rfl, rfl, nofun⟩ hfetch (byOperand_ofIndex z 4 8)
      (ByteOperand.loads_eq hplace r) rfl ?_
    rw [← Arithmetic.apply_eq_exact]
    exact congrArg (fun w => r.setResult ((rowArithmetic y).apply r.a w r.flags)) hvalue
  · intro second
    obtain ⟨hop, hfetch⟩ := fetch_of_decode (decode_aluImm h) nofun
    refine exists_performs hm hb hop ⟨rfl, rfl, nofun⟩ hfetch rfl rfl rfl ?_
    have hoperand : lo (m.nextOperand bus) = second.1 := by
      rw [nextOperand, lo_wordOfBytes, nextOperands, hfetch, hop]
      rfl
    rw [← Arithmetic.apply_eq_exact, Operation.effect, hoperand]

/-- ADC with the byte at HL, where the sum is 256, and SBC with an immediate byte, where the
difference is -1. -/
theorem arithmetic_law_adc :
    let bus := Bus.rom [0x8E, 0xDE, 0x01]
    let m : Machine Unit := ⟨{ regs := { af := 0xFE10, hl := 2 } }, ()⟩
    let n : Machine Unit := ⟨{ regs := { af := 0x0110, pc := 1 } }, ()⟩
    m.core.mode = .running ∧ m.core.budget = 0 ∧ n.core.mode = .running ∧ n.core.budget = 0 ∧
      (∃ x, m.Performs bus x [0x8E] 8 [2] [] { af := 0x00B0, hl := 2 }) ∧
      ∃ x, n.Performs bus x [0xDE, 0x01] 8 [] [] { af := 0xFF70, pc := 1 } := by
  intro bus m n
  obtain ⟨hregister, -⟩ := arithmetic_law bus (m := m) rfl rfl
  obtain ⟨-, himmediate⟩ := arithmetic_law bus (m := n) rfl rfl
  refine ⟨rfl, rfl, rfl, rfl, ?_, ?_⟩
  · convert hregister 1 6 (by decide +kernel) using 3 <;> decide +kernel
  · convert himmediate 3 (by decide +kernel) using 3 <;> decide +kernel

end Machine

end Sm83
