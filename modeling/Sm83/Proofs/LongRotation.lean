import Mathlib.Data.Nat.ModEq
import Mathlib.Logic.Function.Iterate
import Sm83.Proofs.Bits
import Sm83.Proofs.LongNumber

/-!
# Rotations of long numbers

A number of any length is shifted byte by byte. To the left the least significant byte comes first,
to the right the most significant one, and each byte takes in the bit that the byte before has left
in the carry flag. Together with that flag the bits of the number make a circle. RL and RR move all
bits of the circle by one place, in opposite directions.

## Main definitions

* `Rotation.chain`: bytes rotated one after the other
* `Circle`: a number in bytes and the carry flag
* `Circle.upward`, `Circle.downward`: the number shifted to the left and to the right
* `Circle.Doubles`: one circle is the other moved by one place
* `Circle.Moved`: what is known of a circle after several moves

## Main results

* `Circle.doubles_upward`, `Circle.doubles_downward`: the two directions
* `Circle.Doubles.eq_left`, `Circle.Doubles.eq_right`: each undoes the other
* `Circle.moved_iterate`, `Circle.Moved.eq_of_around`: after as many moves as there are bits, all
  are back in place
* `Circle.upward_sla`, `Circle.downward_srl`, `Circle.downward_sra`: the shifts are rotations
  through the carry
* `Circle.shift_law`: shifts and rotations of any length
-/

namespace Sm83

/-! ## Bytes one after the other -/

namespace Rotation

/-- The bytes that rotations leave, of the first by `first` and of all others by `next`, and the
carry flag in the end. Each takes in the carry flag that the one before has left. -/
def chain (first next : Rotation) : List UInt8 → Bool → List UInt8 × Bool
  | [], carry => ([], carry)
  | v :: rest, carry =>
    let (w, f) := first.apply v carry
    let (ws, carry) := chain next next rest f.carry
    (w :: ws, carry)

theorem length_chain (first next : Rotation) (bytes : List UInt8) (carry : Bool) :
    (first.chain next bytes carry).1.length = bytes.length := by
  induction bytes generalizing first carry with
  | nil => rfl
  | cons v rest ih => exact congrArg Nat.succ (ih next _)

/-- Two operations on the first byte that agree lead to the same bytes. -/
theorem chain_cons_eq {first other : Rotation} {v : UInt8} {carry bit : Bool}
    (h : first.apply v carry = other.apply v bit) (next : Rotation) (rest : List UInt8) :
    first.chain next (v :: rest) carry = other.chain next (v :: rest) bit := by
  simp only [chain, h]

/-- RL doubles a byte and takes in the carry. -/
theorem exact_apply_rl (v : UInt8) (carry : Bool) :
    ExactResult 1 256 v.toNat v.toNat carry (rl.apply v carry).1.toNat
      (rl.apply v carry).2.carry where
  lt := UInt8.toNat_lt _
  sum := by
    have hv := v.toNat_lt
    have hbit : (rl.carryOut v).toNat = v.toNat / 128 := by
      rw [carryOut_eq, bitOut, Nat.toNat_testBit]
      omega
    simp only [apply, toNat_result, exact, hbit]
    omega

/-- RR is the byte of which the double is what was there before. -/
theorem exact_apply_rr (v : UInt8) (carry : Bool) :
    2 * (rr.apply v carry).1.toNat + (rr.apply v carry).2.carry.toNat =
      v.toNat + 256 * carry.toNat := by
  have hbit : (rr.carryOut v).toNat = v.toNat % 2 := by
    rw [carryOut_eq, bitOut, Nat.toNat_testBit]
    omega
  simp only [apply, toNat_result, exact, hbit]
  omega

/-- **RL from the least significant byte upwards** doubles the number. -/
theorem exact_chain_rl (bytes : List UInt8) (carry : Bool) :
    let s := rl.chain rl bytes carry
    ExactResult 1 (256 ^ bytes.length) (littleEndian bytes) (littleEndian bytes) carry
      (littleEndian s.1) s.2 := by
  induction bytes generalizing carry with
  | nil => exact .nil 1 carry
  | cons v rest ih =>
    simp only [chain, littleEndian_cons, List.length_cons, pow_succ']
    exact (exact_apply_rl v carry).cons (ih _)

/-- **RR from the most significant byte downwards** is the number of which the double is what was
there before. -/
theorem exact_chain_rr (bytes : List UInt8) (carry : Bool) :
    let s := rr.chain rr bytes carry
    2 * littleEndian s.1.reverse + s.2.toNat =
      littleEndian bytes.reverse + 256 ^ bytes.length * carry.toNat := by
  induction bytes generalizing carry with
  | nil => simp [chain, littleEndian_nil]
  | cons v rest ih =>
    have hbyte := exact_apply_rr v carry
    have hrest := ih (rr.apply v carry).2.carry
    simp only [chain, List.reverse_cons, littleEndian_concat, List.length_reverse, length_chain,
      List.length_cons, pow_succ]
    zify at hbyte hrest ⊢
    -- What the first byte leaves in the carry counts in the others as much as it counts in itself.
    linear_combination hrest + 256 ^ rest.length * hbyte

end Rotation

/-! ## The circle -/

/-- A number in bytes, the least significant one first, and the carry flag. -/
@[ext]
structure Circle where
  bytes : List UInt8
  carry : Bool
  deriving DecidableEq

namespace Circle

/-- The number that the bytes spell. -/
def value (s : Circle) : ℕ := littleEndian s.bytes

/-- The number of the bits of all bytes and, above them, the carry flag. -/
def number (s : Circle) : ℕ := s.value + 256 ^ s.bytes.length * s.carry.toNat

/-- The number shifted to the left: the least significant byte by `first`, and RL from there
upwards. -/
def upward (first : Rotation) (s : Circle) : Circle :=
  let (bytes, carry) := first.chain .rl s.bytes s.carry
  ⟨bytes, carry⟩

/-- The number shifted to the right: the most significant byte by `first`, and RR from there
downwards. -/
def downward (first : Rotation) (s : Circle) : Circle :=
  let (bytes, carry) := first.chain .rr s.bytes.reverse s.carry
  ⟨bytes.reverse, carry⟩

theorem length_upward (first : Rotation) (s : Circle) :
    (s.upward first).bytes.length = s.bytes.length :=
  Rotation.length_chain _ _ _ _

theorem length_downward (first : Rotation) (s : Circle) :
    (s.downward first).bytes.length = s.bytes.length := by
  simp only [downward, List.length_reverse, Rotation.length_chain]

/-- The circle `t` is `s` with all bits moved up by one place: twice the number, with the carry
taken in at the bottom and let out at the top. -/
structure Doubles (s t : Circle) : Prop where
  length : t.bytes.length = s.bytes.length
  exact : ExactResult 1 (256 ^ s.bytes.length) s.value s.value s.carry t.value t.carry

theorem doubles_upward (s : Circle) : s.Doubles (s.upward .rl) where
  length := s.length_upward .rl
  exact := Rotation.exact_chain_rl s.bytes s.carry

theorem doubles_downward (s : Circle) : (s.downward .rr).Doubles s := by
  have hlen := s.length_downward .rr
  refine ⟨hlen.symm, ?_, ?_⟩
  · rw [hlen]
    exact littleEndian_lt s.bytes
  · have h := Rotation.exact_chain_rr s.bytes.reverse s.carry
    simp only [List.reverse_reverse, List.length_reverse] at h
    rw [hlen]
    simp only [value, downward]
    zify at h
    push_cast
    linear_combination -h

theorem ext_of_value {s t : Circle} (hlen : s.bytes.length = t.bytes.length)
    (hvalue : s.value = t.value) (hcarry : s.carry = t.carry) : s = t :=
  Circle.ext (eq_of_littleEndian_eq hlen hvalue) hcarry

namespace Doubles

variable {s t u : Circle}

theorem sum (h : s.Doubles t) :
    t.value + 256 ^ s.bytes.length * t.carry.toNat = 2 * s.value + s.carry.toNat := by
  have hsum := h.exact.sum
  zify
  push_cast at hsum
  linear_combination hsum

/-- A circle is the move of at most one. -/
theorem eq_left (hs : s.Doubles u) (ht : t.Doubles u) : s = t := by
  have hlen : s.bytes.length = t.bytes.length := hs.length.symm.trans ht.length
  have hsum : 2 * s.value + s.carry.toNat = 2 * t.value + t.carry.toNat := by
    rw [← hs.sum, ← ht.sum, hlen]
  have hs' := s.carry.toNat_le
  have ht' := t.carry.toNat_le
  have hcarry : s.carry.toNat = t.carry.toNat := by omega
  exact ext_of_value hlen (by omega) (Function.LeftInverse.injective Bool.ofNat_toNat hcarry)

/-- A circle is moved to one only. -/
theorem eq_right (ht : s.Doubles t) (hu : s.Doubles u) : t = u := by
  obtain ⟨htvalue, htcarry⟩ := ht.exact.of_add
  obtain ⟨huvalue, hucarry⟩ := hu.exact.of_add
  exact ext_of_value (ht.length.trans hu.length.symm) (htvalue.trans huvalue.symm)
    (Bool.eq_iff_iff.2 (htcarry.trans hucarry.symm))

end Doubles

theorem downward_upward (s : Circle) : (s.upward .rl).downward .rr = s :=
  (doubles_downward _).eq_left (doubles_upward s)

theorem upward_downward (s : Circle) : (s.downward .rr).upward .rl = s :=
  (doubles_upward _).eq_right (doubles_downward s)

/-! ## Once around -/

theorem value_lt (s : Circle) : s.value < 256 ^ s.bytes.length := littleEndian_lt s.bytes

theorem number_lt (s : Circle) : s.number < 2 * 256 ^ s.bytes.length := by
  have hcarry := Nat.mul_le_mul_left (256 ^ s.bytes.length) s.carry.toNat_le
  have hvalue := s.value_lt
  rw [number]
  omega

theorem eq_of_number {s t : Circle} (hlen : s.bytes.length = t.bytes.length)
    (hnum : s.number = t.number) : s = t := by
  have hvalue (u : Circle) : u.value = u.number % 256 ^ u.bytes.length := by
    rw [number, Nat.add_mul_mod_self_left, Nat.mod_eq_of_lt u.value_lt]
  have hcarry (u : Circle) : u.carry.toNat = u.number / 256 ^ u.bytes.length := by
    rw [number, Nat.add_mul_div_left _ _ (by positivity), Nat.div_eq_of_lt u.value_lt, Nat.zero_add]
  refine ext_of_value hlen ?_ (Function.LeftInverse.injective Bool.ofNat_toNat ?_)
  · rw [hvalue s, hvalue t, hlen, hnum]
  · rw [hcarry s, hcarry t, hlen, hnum]

/-- What is known of a circle after `k` moves upwards. Twice the circle is the circle modulo the
number that has all bits set, which stands for the same residue as zero. -/
structure Moved (k : ℕ) (s t : Circle) : Prop where
  length : t.bytes.length = s.bytes.length
  number : t.number ≡ 2 ^ k * s.number [MOD 2 * 256 ^ s.bytes.length - 1]
  zero : t.number = 0 ↔ s.number = 0

namespace Moved

variable {k : ℕ} {s t u : Circle}

theorem refl (s : Circle) : Moved 0 s s where
  length := rfl
  number := by rw [pow_zero, Nat.one_mul]
  zero := Iff.rfl

/-- One more move. -/
theorem step (h : Moved k s t) (hmove : t.Doubles u) : Moved (k + 1) s u := by
  have hsize : 0 < 256 ^ t.bytes.length := by positivity
  have hu : u.number = 2 * t.value + t.carry.toNat := by
    rw [Circle.number, hmove.length, hmove.sum]
  have hwrap : u.number + (2 * 256 ^ t.bytes.length - 1) * t.carry.toNat = 2 * t.number := by
    rw [hu, Circle.number]
    cases t.carry <;> simp only [Bool.toNat_false, Bool.toNat_true] <;> omega
  refine ⟨hmove.length.trans h.length, ?_, ?_⟩
  · have hdouble : u.number ≡ 2 * t.number [MOD 2 * 256 ^ s.bytes.length - 1] := by
      rw [Nat.ModEq, ← hwrap, h.length, Nat.add_mul_mod_self_left]
    rw [pow_succ', Nat.mul_assoc]
    exact hdouble.trans (h.number.mul_left 2)
  · rw [← h.zero, hu, Circle.number]
    cases t.carry <;> simp only [Bool.toNat_false, Bool.toNat_true] <;> omega

/-- After as many moves as there are bits, all are back in place. -/
theorem eq_of_around (h : Moved (8 * s.bytes.length + 1) s t) : t = s := by
  refine eq_of_number h.length ?_
  have hsize : 0 < 256 ^ s.bytes.length := by positivity
  have hs := s.number_lt
  have ht := t.number_lt
  rw [h.length] at ht
  by_cases hzero : s.number = 0
  · rw [hzero, h.zero.2 hzero]
  have hne := mt h.zero.1 hzero
  have hturn : 2 ^ (8 * s.bytes.length + 1) ≡ 1 [MOD 2 * 256 ^ s.bytes.length - 1] := by
    rw [pow_succ', pow_mul, show 2 ^ 8 = 256 from rfl]
    exact ((Nat.modEq_iff_dvd' (by omega)).2 dvd_rfl).symm
  have hback : t.number ≡ s.number [MOD 2 * 256 ^ s.bytes.length - 1] := by
    simpa only [Nat.one_mul] using h.number.trans (hturn.mul_right s.number)
  -- No two numbers from one to the modulus have the same residue.
  have hpred : t.number - 1 = s.number - 1 := by
    refine Nat.ModEq.eq_of_lt_of_lt (m := 2 * 256 ^ s.bytes.length - 1)
      (Nat.ModEq.add_right_cancel' 1 ?_) (by omega) (by omega)
    rwa [Nat.sub_add_cancel (by omega), Nat.sub_add_cancel (by omega)]
  omega

end Moved

theorem moved_iterate (s : Circle) (k : ℕ) : Moved k s ((upward .rl)^[k] s) := by
  induction k with
  | zero => exact .refl s
  | succ k ih =>
    rw [Function.iterate_succ_apply']
    exact ih.step (doubles_upward _)

theorem iterate_upward (s : Circle) : (upward .rl)^[8 * s.bytes.length + 1] s = s :=
  (moved_iterate s _).eq_of_around

theorem iterate_downward (s : Circle) : (downward .rr)^[8 * s.bytes.length + 1] s = s := by
  have hinverse := Function.LeftInverse.iterate downward_upward (8 * s.bytes.length + 1) s
  rwa [iterate_upward] at hinverse

/-! ## The other shifts -/

/-- SLA on the first byte is RL with the carry clear. -/
theorem upward_sla {s : Circle} (hpos : 0 < s.bytes.length) :
    s.upward .sla = upward .rl ⟨s.bytes, false⟩ := by
  obtain ⟨v, rest, hs⟩ := List.exists_cons_of_length_pos hpos
  simp only [upward, hs, Rotation.chain_cons_eq (Rotation.apply_sla v s.carry)]

/-- SRL on the first byte is RR with the carry clear. -/
theorem downward_srl {s : Circle} (hpos : 0 < s.bytes.length) :
    s.downward .srl = downward .rr ⟨s.bytes, false⟩ := by
  obtain ⟨v, rest, hs⟩ := List.exists_cons_of_length_pos (s.bytes.length_reverse.symm ▸ hpos)
  simp only [downward, hs, Rotation.chain_cons_eq (Rotation.apply_srl v s.carry)]

/-- The top bit of a number is the top bit of its last byte. -/
theorem testBit_concat (rest : List UInt8) (v : UInt8) :
    (littleEndian (rest ++ [v])).testBit (8 * rest.length + 7) = v.toNat.testBit 7 := by
  have hlow : littleEndian rest < 2 ^ (8 * rest.length) := by
    rw [pow_mul]
    exact littleEndian_lt rest
  rw [littleEndian_concat, show 256 = 2 ^ 8 from rfl, ← pow_mul, Nat.add_comm,
    Nat.testBit_two_pow_mul_add _ hlow, if_neg (by omega), Nat.add_sub_cancel_left]

/-- SRA on the first byte is RR with the sign in the carry. -/
theorem downward_sra {s : Circle} (hpos : 0 < s.bytes.length) :
    s.downward .sra = downward .rr ⟨s.bytes, s.value.testBit (8 * s.bytes.length - 1)⟩ := by
  obtain ⟨bytes, carry⟩ := s
  obtain rfl | ⟨rest, v, rfl⟩ := List.eq_nil_or_concat' bytes
  · exact absurd hpos (Nat.lt_irrefl 0)
  · have hsign : value ⟨rest ++ [v], carry⟩ = littleEndian (rest ++ [v]) := rfl
    have htop : 8 * (rest ++ [v]).length - 1 = 8 * rest.length + 7 := by
      rw [List.length_append, List.length_singleton]
      omega
    simp only [downward, hsign, htop, testBit_concat, List.reverse_append, List.reverse_singleton,
      List.singleton_append, Rotation.chain_cons_eq (Rotation.apply_sra v carry)]

/-! ## The law -/

/-- The top bit counts half of the range. -/
theorem size_eq_double {n : ℕ} (hpos : 0 < n) : 256 ^ n = 2 * 2 ^ (8 * n - 1) := by
  rw [show 256 = 2 ^ 8 from rfl, ← pow_mul, ← pow_succ', Nat.sub_add_cancel (by omega)]

/-- Two's complement reads a number below zero exactly if it is at least half of the range. -/
theorem bmod_double {x k : ℕ} (hlt : x < 2 * k) :
    (x : ℤ).bmod (2 * k) = if k ≤ x then (x : ℤ) - 2 * k else x := by
  have hcast : (x : ℤ) < (2 * k : ℕ) := by exact_mod_cast hlt
  rw [Int.bmod_def, Int.emod_eq_of_lt (Int.natCast_nonneg _) hcast]
  split <;> split <;> omega

section Law

variable (s : Circle)

/-- The top bit of a number is set exactly if the double does not fit. -/
theorem testBit_top (hpos : 0 < s.bytes.length) :
    s.value.testBit (8 * s.bytes.length - 1) = true ↔ 256 ^ s.bytes.length ≤ 2 * s.value := by
  have hlt := s.value_lt
  rw [size_eq_double hpos] at hlt ⊢
  refine ⟨fun h => Nat.mul_le_mul_left 2 (Nat.ge_two_pow_of_testBit h), fun h => ?_⟩
  have hle := Nat.le_of_mul_le_mul_left h Nat.two_pos
  refine Nat.testBit_of_two_pow_le_and_two_pow_add_one_gt hle ?_
  rwa [pow_succ']

/-- RL: the double, with the carry taken in. -/
theorem value_upward_rl (hpos : 0 < s.bytes.length) :
    (s.upward .rl).value = (2 * s.value + s.carry.toNat) % 256 ^ s.bytes.length ∧
      (s.upward .rl).carry = s.value.testBit (8 * s.bytes.length - 1) := by
  obtain ⟨hvalue, hcarry⟩ := s.doubles_upward.exact.of_add
  refine ⟨by rw [hvalue, Nat.two_mul], Bool.eq_iff_iff.2 ?_⟩
  rw [hcarry, s.testBit_top hpos]
  -- The range is even, so that the bit taken in does not decide whether the double fits.
  have heven := size_eq_double hpos
  have hbit := s.carry.toNat_le
  omega

/-- RR: the half, with the carry taken in at the top. -/
theorem value_downward_rr (hpos : 0 < s.bytes.length) :
    (s.downward .rr).value = (s.value + 256 ^ s.bytes.length * s.carry.toNat) / 2 ∧
      (s.downward .rr).carry.toNat = s.value % 2 := by
  have hsum := s.doubles_downward.sum
  have hbit := (s.downward .rr).carry.toNat_le
  rw [← s.doubles_downward.length] at hsum
  have heven := size_eq_double hpos
  rw [hsum]
  refine ⟨by omega, ?_⟩
  rw [heven, Nat.mul_assoc] at hsum
  omega

/-- SRA: the half of the number that two's complement reads. -/
theorem value_downward_sra (hpos : 0 < s.bytes.length) :
    ((s.downward .sra).value : ℤ).bmod (256 ^ s.bytes.length) =
        (s.value : ℤ).bmod (256 ^ s.bytes.length) / 2 ∧
      (s.downward .sra).carry.toNat = s.value % 2 := by
  have htop := s.testBit_top hpos
  obtain ⟨hvalue, hcarry⟩ :=
    value_downward_rr ⟨s.bytes, s.value.testBit (8 * s.bytes.length - 1)⟩ hpos
  rw [← downward_sra hpos] at hvalue hcarry
  refine ⟨?_, hcarry⟩
  have hlt := s.value_lt
  change (s.downward .sra).value = (s.value + _ * Bool.toNat _) / 2 at hvalue
  rw [size_eq_double hpos] at hlt hvalue htop ⊢
  -- The sign is what comes in at the top, so that it stays the sign.
  by_cases hsign : 2 ^ (8 * s.bytes.length - 1) ≤ s.value
  · rw [htop.2 (by omega), Bool.toNat_true, Nat.mul_one] at hvalue
    rw [bmod_double hlt, bmod_double (by omega), if_pos hsign, if_pos (by omega)]
    omega
  · rw [Bool.eq_false_iff.2 (mt htop.1 (by omega)), Bool.toNat_false, Nat.mul_zero] at hvalue
    rw [bmod_double hlt, bmod_double (by omega), if_neg hsign, if_neg (by omega)]
    omega

/-- **Shifts of long numbers.** A number of at least one byte is shifted to the left from its least
significant byte upwards and to the right from its most significant byte downwards.

* RL is the double with the carry taken in, reduced, and the carry flag becomes the top bit. SLA on
  the first byte is the same without a carry.
* RR is the half with the carry taken in at the top, and the carry flag becomes the lowest bit. SRL
  on the first byte is the same without a carry. SRA is the half of the number that two's complement
  reads.
* RL and RR undo each other, and after as many of either as there are bits, with the carry flag
  counted in, the number and the carry flag are back. -/
theorem shift_law (hpos : 0 < s.bytes.length) :
    let n := s.bytes.length
    let x := s.value
    ((s.upward .rl).bytes.length = n ∧
      (s.upward .rl).value = (2 * x + s.carry.toNat) % 256 ^ n ∧
      (s.upward .rl).carry = x.testBit (8 * n - 1)) ∧
    ((s.upward .sla).bytes.length = n ∧
      (s.upward .sla).value = 2 * x % 256 ^ n ∧
      (s.upward .sla).carry = x.testBit (8 * n - 1)) ∧
    ((s.downward .rr).bytes.length = n ∧
      (s.downward .rr).value = (x + 256 ^ n * s.carry.toNat) / 2 ∧
      (s.downward .rr).carry.toNat = x % 2) ∧
    ((s.downward .srl).bytes.length = n ∧
      (s.downward .srl).value = x / 2 ∧
      (s.downward .srl).carry.toNat = x % 2) ∧
    ((s.downward .sra).bytes.length = n ∧
      ((s.downward .sra).value : ℤ).bmod (256 ^ n) = (x : ℤ).bmod (256 ^ n) / 2 ∧
      (s.downward .sra).carry.toNat = x % 2) ∧
    (s.upward .rl).downward .rr = s ∧ (s.downward .rr).upward .rl = s ∧
    (upward .rl)^[8 * n + 1] s = s ∧ (downward .rr)^[8 * n + 1] s = s := by
  intro n x
  refine ⟨⟨s.length_upward .rl, s.value_upward_rl hpos⟩, ⟨s.length_upward .sla, ?_⟩,
    ⟨s.length_downward .rr, s.value_downward_rr hpos⟩, ⟨s.length_downward .srl, ?_⟩,
    ⟨s.length_downward .sra, s.value_downward_sra hpos⟩, s.downward_upward, s.upward_downward,
    s.iterate_upward, s.iterate_downward⟩
  · rw [upward_sla hpos]
    exact value_upward_rl ⟨s.bytes, false⟩ hpos
  · rw [downward_srl hpos]
    have hhalf := value_downward_rr ⟨s.bytes, false⟩ hpos
    simp only [Bool.toNat_false, Nat.mul_zero, Nat.add_zero] at hhalf
    exact hhalf

/-- 49281, which two's complement reads as -16255, with the carry flag set. -/
theorem shift_law_two :
    let s : Circle := ⟨[0x81, 0xC0], true⟩
    0 < s.bytes.length ∧
      (s.upward .rl).value = 33027 ∧ (s.upward .rl).carry = true ∧
      (s.upward .sla).value = 33026 ∧ (s.upward .sla).carry = true ∧
      (s.downward .rr).value = 57408 ∧ (s.downward .rr).carry = true ∧
      (s.downward .srl).value = 24640 ∧ (s.downward .srl).carry = true ∧
      ((s.downward .sra).value : ℤ).bmod (256 ^ 2) = -8128 ∧ (s.downward .sra).carry = true ∧
      (s.upward .rl).downward .rr = s ∧ (s.downward .rr).upward .rl = s ∧
      (upward .rl)^[17] s = s ∧ (downward .rr)^[17] s = s := by
  intro s
  have hpos : 0 < s.bytes.length := by decide
  have hvalue : s.value = 49281 := by simp [s, value, littleEndian_cons, littleEndian_nil]
  have hlen : s.bytes.length = 2 := rfl
  have hcarry : s.carry.toNat = 1 := rfl
  have htop : Nat.testBit 49281 15 = true := by decide
  have hset {b : Bool} (h : b.toNat = 49281 % 2) : b = true := by
    cases b with
    | false => exact absurd h (by decide)
    | true => rfl
  obtain ⟨⟨-, hrl, crl⟩, ⟨-, hsla, csla⟩, ⟨-, hrr, crr⟩, ⟨-, hsrl, csrl⟩, ⟨-, hsra, csra⟩,
    hcircle⟩ := shift_law s hpos
  rw [hvalue] at hrl crl hsla csla hrr crr hsrl csrl hsra csra
  rw [hlen] at hrl hsla hrr hsra
  rw [hcarry] at hrl hrr
  exact ⟨hpos, hrl.trans (by norm_num), crl.trans htop, hsla.trans (by norm_num), csla.trans htop,
    hrr.trans (by norm_num), hset crr, hsrl, hset csrl, hsra.trans (by decide), hset csra, hcircle⟩

end Law

end Circle

end Sm83
