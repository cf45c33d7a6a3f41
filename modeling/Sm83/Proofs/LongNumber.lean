import Mathlib.Data.Nat.Digits.Lemmas
import Mathlib.Tactic.LinearCombination
import Sm83.Word

/-!
# Numbers of several bytes

A number that fits in no register is kept in several bytes, the least significant one first, and is
worked on byte by byte. What leads from each byte to the next is one bit, a carry or a borrow. The
bytes of the result and the bit that is left over in the end are exact: nothing is lost between the
bytes, whatever the base in which they count.

## Main definitions

* `littleEndian`: the number that bytes spell
* `ExactResult`: a result, with the carry that goes out, accounts for the operands and the carry
  that comes in

## Main results

* `littleEndian_lt`, `eq_of_littleEndian_eq`: numbers of equally many bytes
* `ExactResult.cons`: one more digit, the least significant one
* `ExactResult.of_add`, `ExactResult.of_subtract`: the result modulo the size of the number, and
  what the carry says
-/

namespace Sm83

/-! ## Bytes -/

/-- The number that bytes spell, the least significant one first. -/
def littleEndian (bytes : List UInt8) : ℕ := Nat.ofDigits 256 (bytes.map UInt8.toNat)

theorem littleEndian_nil : littleEndian [] = 0 := rfl

theorem littleEndian_cons (b : UInt8) (bytes : List UInt8) :
    littleEndian (b :: bytes) = b.toNat + 256 * littleEndian bytes := Nat.ofDigits_cons

theorem littleEndian_concat (bytes : List UInt8) (b : UInt8) :
    littleEndian (bytes ++ [b]) = littleEndian bytes + 256 ^ bytes.length * b.toNat := by
  rw [littleEndian, List.map_append, Nat.ofDigits_append, List.length_map, List.map_singleton,
    Nat.ofDigits_singleton, littleEndian]

theorem littleEndian_lt (bytes : List UInt8) : littleEndian bytes < 256 ^ bytes.length := by
  have hlt := Nat.ofDigits_lt_base_pow_length (b := 256) (l := bytes.map UInt8.toNat) (by decide)
    (List.forall_mem_map.2 fun b _ => b.toNat_lt)
  rwa [List.length_map] at hlt

/-- **The bytes are determined by the number** and by how many they are. -/
theorem eq_of_littleEndian_eq {xs ys : List UInt8} (hlen : xs.length = ys.length)
    (h : littleEndian xs = littleEndian ys) : xs = ys := by
  have hdigits (bytes : List UInt8) : ∀ d ∈ bytes.map UInt8.toNat, d < 256 :=
    List.forall_mem_map.2 fun b _ => b.toNat_lt
  have hmap : xs.map UInt8.toNat = ys.map UInt8.toNat :=
    Nat.ofDigits_inj_of_len_eq (by decide) (by simpa using hlen) (hdigits xs) (hdigits ys) h
  exact List.map_injective_iff.2 (fun _ _ => UInt8.toNat_inj.1) hmap

/-! ## Exact results -/

/-- The result of counting `y` and a carry to `x`, upwards or downwards by the sign: it is below
`size`, and the carry that goes out counts `size`. -/
structure ExactResult (sign : ℤ) (size x y : ℕ) (carry : Bool) (result : ℕ) (out : Bool) :
    Prop where
  lt : result < size
  sum : (result : ℤ) + sign * (size * out.toNat) = x + sign * (y + carry.toNat)

namespace ExactResult

variable {sign : ℤ} {base size x y d xs ys ds : ℕ} {carry next out : Bool}

/-- A number of no digits carries over what comes in. -/
theorem nil (sign : ℤ) (carry : Bool) : ExactResult sign 1 0 0 carry 0 carry where
  lt := Nat.one_pos
  sum := by simp

/-- **One more digit**, the least significant one: what it carries out is what the others take
in. -/
theorem cons (h : ExactResult sign base x y carry d next)
    (hrest : ExactResult sign size xs ys next ds out) :
    ExactResult sign (base * size) (x + base * xs) (y + base * ys) carry (d + base * ds) out where
  lt := calc
    d + base * ds < base + base * ds := Nat.add_lt_add_right h.lt _
    _ = base * (ds + 1) := by ring
    _ ≤ base * size := Nat.mul_le_mul_left base hrest.lt
  sum := by
    push_cast
    linear_combination h.sum + base * hrest.sum

/-- **Addition**: the sum is reduced, and a carry goes out exactly if it does not fit. -/
theorem of_add (h : ExactResult 1 size x y carry d out) :
    d = (x + y + carry.toNat) % size ∧ (out = true ↔ size ≤ x + y + carry.toNat) := by
  have hsum : d + size * out.toNat = x + y + carry.toNat := by
    zify
    linear_combination h.sum
  have hlt := h.lt
  rw [← hsum, Nat.add_mul_mod_self_left, Nat.mod_eq_of_lt hlt]
  cases out with
  | false => simpa using hlt
  | true => simp

/-- **Subtraction**: the difference is reduced, and a borrow goes out exactly if it is negative. -/
theorem of_subtract (h : ExactResult (-1) size x y carry d out) :
    (d : ℤ) = ((x : ℤ) - y - carry.toNat) % size ∧ (out = true ↔ x < y + carry.toNat) := by
  have hsum : (x : ℤ) - y - carry.toNat = d + size * -(out.toNat : ℤ) := by
    linear_combination -h.sum
  have hlt : (d : ℤ) < size := by exact_mod_cast h.lt
  refine ⟨?_, ?_⟩
  · rw [hsum, Int.add_mul_emod_self_left, Int.emod_eq_of_lt (Int.natCast_nonneg d) hlt]
  · cases out with
    | false =>
      simp only [Bool.toNat_false, Nat.cast_zero, neg_zero, mul_zero, add_zero] at hsum
      exact iff_of_false Bool.false_ne_true (by omega)
    | true =>
      simp only [Bool.toNat_true, Nat.cast_one, mul_neg, mul_one] at hsum
      exact iff_of_true rfl (by omega)

end ExactResult

end Sm83
