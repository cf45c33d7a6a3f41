import Mathlib.Data.Nat.Digits.Lemmas
import Mathlib.Tactic.LinearCombination
import Sm83.Proofs.Bits
import Sm83.Proofs.FlagRules
import Sm83.Proofs.LongNumber

/-!
# Decimal arithmetic

Bytes whose nibbles are decimal digits spell a number in the hundreds, the least significant byte
first. Such numbers are added byte by byte: ADD for the first byte and ADC for the others, each
followed by DAA. They are subtracted in the same way by SUB and SBC. What makes this work for any
number of bytes is that after every DAA the carry flag is the carry, or the borrow, of the decimal
digits.

## Main definitions

* `Decimal.IsPacked`, `Decimal.value`: bytes of two decimal digits
* `Decimal.number`, `Decimal.encode`: the number that bytes spell, and the bytes of a number
* `Registers.adjusted`: one byte of a decimal operation
* `Registers.chained`: all bytes, one after the other
* `Decimal.Exact`: the digits and the last carry of such an operation are its exact result

## Main results

* `Decimal.encode_number`: the bytes are determined by the number
* `Decimal.value_addBytes`, `Decimal.value_subBytes`: the carry flag is the carry of the digits
* `Registers.exact_chained`: each byte takes the carry of the byte before
* `Registers.decimal_law`: decimal addition and subtraction of any length
-/

namespace Sm83

/-! ## Packed decimal numbers -/

namespace Decimal

/-- Both nibbles are decimal digits. -/
def IsPacked (b : UInt8) : Prop := b.toNat / 16 ≤ 9 ∧ b.toNat % 16 ≤ 9

instance : DecidablePred IsPacked := fun _ => inferInstanceAs (Decidable (_ ∧ _))

/-- The number that the nibbles of a byte spell. -/
def value (b : UInt8) : Nat := 10 * (b.toNat / 16) + b.toNat % 16

/-- The byte that spells a number below a hundred. -/
def pack (d : Nat) : UInt8 := UInt8.ofNat (16 * (d / 10) + d % 10)

/-- The number that bytes spell, the least significant one first. -/
def number (bytes : List UInt8) : Nat := Nat.ofDigits 100 (bytes.map value)

/-- The `n` bytes of a number that has no more than `2 * n` digits. -/
def encode (n v : Nat) : List UInt8 := (Nat.digitsAppend 100 n v).map pack

theorem value_lt {b : UInt8} (h : IsPacked b) : value b < 100 := by
  obtain ⟨h₁, h₀⟩ := h
  unfold value
  omega

theorem pack_value {b : UInt8} (h : IsPacked b) : pack (value b) = b := by
  obtain ⟨h₁, h₀⟩ := h
  have hb : 16 * (value b / 10) + value b % 10 = b.toNat := by
    unfold value
    omega
  rw [pack, hb, UInt8.ofNat_toNat]

theorem number_cons (b : UInt8) (bytes : List UInt8) :
    number (b :: bytes) = value b + 100 * number bytes := Nat.ofDigits_cons

theorem number_lt {bytes : List UInt8} (h : ∀ b ∈ bytes, IsPacked b) :
    number bytes < 100 ^ bytes.length := by
  have hlt := Nat.ofDigits_lt_base_pow_length (b := 100) (l := bytes.map value) (by decide)
    (List.forall_mem_map.2 fun b hb => value_lt (h b hb))
  rwa [List.length_map] at hlt

/-- **The bytes are determined by the number** and by how many they are. -/
theorem encode_number {bytes : List UInt8} (h : ∀ b ∈ bytes, IsPacked b) :
    encode bytes.length (number bytes) = bytes := by
  have hdigits : Nat.digitsAppend 100 bytes.length (number bytes) = bytes.map value :=
    (Nat.setInvOn_digitsAppend_ofDigits (by decide) bytes.length).1
      ⟨List.length_map _, List.forall_mem_map.2 fun b hb => value_lt (h b hb)⟩
  rw [encode, hdigits, List.map_map]
  exact (List.map_congr_left fun b hb => pack_value (h b hb)).trans bytes.map_id

end Decimal

/-! ## Digits and flags

DAA is read as the addition or the subtraction of six in each digit that is to be corrected. -/

/-- After an addition, a digit is corrected that exceeds nine or has been carried out of. -/
theorem decimalAdjust_of_add (a : UInt8) {f : Flags} (h : f.subtract = false) {high low : Bool}
    (hhigh : (f.carry || decide (153 < a.toNat)) = high)
    (hlow : (f.half || decide (9 < a.toNat % 16)) = low) :
    (decimalAdjust a f).2.carry = high ∧
      (decimalAdjust a f).1.toNat = (a.toNat + (96 * high.toNat + 6 * low.toNat)) % 256 := by
  have hcarry : (f.carry || decide (0x99 < a)) = high := by
    rw [← hhigh]
    simp only [UInt8.lt_iff_toNat_lt]
    rfl
  simp only [decimalAdjust, h, Bool.false_eq_true, if_false, hcarry, true_and]
  set b : UInt8 := a + if high then 0x60 else 0
  have hb : b.toNat = (a.toNat + 96 * high.toNat) % 256 := by
    have hsixty : (if high then 0x60 else 0 : UInt8).toNat = 96 * high.toNat := by
      cases high <;> rfl
    rw [UInt8.toNat_add, hsixty]
  -- The correction of the high digit leaves the low one alone.
  have hhalf : (f.half || decide (0x09 < b &&& 0x0F)) = low := by
    have hmod : (a.toNat + 96 * high.toNat) % 256 % 16 = a.toNat % 16 := by omega
    rw [← hlow]
    simp only [UInt8.lt_iff_toNat_lt, toNat_lowNibble, hb, hmod]
    rfl
  rw [hhalf]
  cases low with
  | false => simpa using hb
  | true =>
    have hsix : (6 : UInt8).toNat = 6 := rfl
    simp only [if_true, UInt8.toNat_add, hb, hsix, Bool.toNat_true]
    omega

/-- After a subtraction, each digit is corrected that has borrowed. -/
theorem decimalAdjust_of_subtract (a : UInt8) {f : Flags} (h : f.subtract = true) :
    (decimalAdjust a f).2.carry = f.carry ∧
      (decimalAdjust a f).1.toNat =
        (512 + a.toNat - 96 * f.carry.toNat - 6 * f.half.toNat) % 256 := by
  have ha := a.toNat_lt
  simp only [decimalAdjust, h, if_true, true_and]
  cases f.carry <;> cases f.half <;> simp [UInt8.toNat_sub] <;> omega

namespace Decimal

/-- **Decimal addition of two bytes**: the carry flag is the carry of the digits. -/
theorem value_addBytes {x y : UInt8} (hx : IsPacked x) (hy : IsPacked y) (carry : Bool) :
    let sum := addBytes x y carry
    let result := decimalAdjust sum.1 sum.2
    IsPacked result.1 ∧
      value result.1 + 100 * result.2.carry.toNat = value x + value y + carry.toNat := by
  intro sum result
  obtain ⟨hx₁, hx₀⟩ := hx
  obtain ⟨hy₁, hy₀⟩ := hy
  have hle := carry.toNat_le
  set n := x.toNat + y.toNat + carry.toNat with hn
  set low := x.toNat % 16 + y.toNat % 16 + carry.toNat with hlow
  have hsum : sum.1.toNat = n % 256 := toNat_addBytes x y carry
  have hhalf : sum.2.half = decide (15 < low) := (flags_addBytes x y carry).1
  have hcarry : sum.2.carry = decide (255 < n) := (flags_addBytes x y carry).2
  -- A digit is corrected exactly if it exceeds nine, whether or not it has been carried out of.
  have hhigh : (sum.2.carry || decide (153 < sum.1.toNat)) = decide (153 < n) := by
    rw [hcarry, hsum, ← Bool.decide_or]
    exact decide_eq_decide.2 (by omega)
  have hdigit : (sum.2.half || decide (9 < sum.1.toNat % 16)) = decide (9 < low) := by
    rw [hhalf, hsum, ← Bool.decide_or]
    exact decide_eq_decide.2 (by omega)
  obtain ⟨hc, hr⟩ : result.2.carry = _ ∧ result.1.toNat = _ :=
    decimalAdjust_of_add sum.1 rfl hhigh hdigit
  rw [hsum, Nat.mod_add_mod] at hr
  unfold IsPacked value
  rw [hr, hc]
  clear hsum hhalf hcarry hhigh hdigit hc hr
  -- Each of the two digits is corrected or not.
  by_cases h₁ : 153 < n <;> by_cases h₀ : 9 < low <;>
    simp only [h₁, h₀, decide_true, decide_false, Bool.toNat_true, Bool.toNat_false] <;> omega

/-- **Decimal subtraction of two bytes**: the carry flag is the borrow of the digits. -/
theorem value_subBytes {x y : UInt8} (hx : IsPacked x) (hy : IsPacked y) (borrow : Bool) :
    let difference := subBytes x y borrow
    let result := decimalAdjust difference.1 difference.2
    IsPacked result.1 ∧
      value result.1 + value y + borrow.toNat = value x + 100 * result.2.carry.toNat := by
  intro difference result
  obtain ⟨hx₁, hx₀⟩ := hx
  obtain ⟨hy₁, hy₀⟩ := hy
  have hle := borrow.toNat_le
  have hdifference : difference.1.toNat = _ := toNat_subBytes x y borrow
  have hhalf : difference.2.half = _ := (flags_subBytes x y borrow).1
  have hcarry : difference.2.carry = _ := (flags_subBytes x y borrow).2
  obtain ⟨hc, hr⟩ : result.2.carry = _ ∧ result.1.toNat = _ :=
    decimalAdjust_of_subtract difference.1 rfl
  rw [hcarry] at hc hr
  rw [hhalf, hdifference] at hr
  unfold IsPacked value
  rw [hr, hc]
  clear hdifference hhalf hcarry hc hr
  by_cases h₁ : x.toNat < y.toNat + borrow.toNat <;>
    by_cases h₀ : x.toNat % 16 < y.toNat % 16 + borrow.toNat <;>
    simp only [h₁, h₀, decide_true, decide_false, Bool.toNat_true, Bool.toNat_false] <;> omega

end Decimal

/-! ## One byte of a number -/

/-- The registers after one byte of a decimal operation: the accumulator is loaded with the one
byte, the operation is carried out with the other, and the result is adjusted. -/
def Registers.adjusted (op : Arithmetic) (x y : UInt8) (r : Registers) : Registers :=
  let loaded := r.setByte .a x
  let computed := ((Operation.aluImm op).effect loaded y.toUInt16 0).regs
  (Operation.daa.effect computed 0 0).regs

theorem Registers.adjusted_eq (op : Arithmetic) (x y : UInt8) (r : Registers) :
    let result := op.apply x y r.flags
    (r.adjusted op x y).a = (decimalAdjust result.1 result.2).1 ∧
      (r.adjusted op x y).flags = (decimalAdjust result.1 result.2).2 := by
  have ha : (r.setByte .a x).a = x := byte_setByte r .a .a x
  have hf : (r.setByte .a x).flags = r.flags := by simp [flags, byte_setByte]
  have hy : lo y.toUInt16 = y := by simp [lo]
  have hresult (r : Registers) (result : UInt8 × Flags) : (r.setResult result).a = result.1 :=
    (a_setFlags _ _).trans (byte_setByte r .a .a result.1)
  simp only [adjusted, Operation.effect, hresult, flags_setResult, ha, hf, hy, and_self]

open Decimal

section Carry

variable {subtract carry : Bool} {x y : UInt8}

/-- The sum of two bytes and a carry, or their difference less a borrow. -/
def Decimal.combine (subtract : Bool) (x y : UInt8) (carry : Bool) : UInt8 × Flags :=
  if subtract then subBytes x y carry else addBytes x y carry

/-- The sign with which the second operand and the carry count. -/
def Decimal.sign (subtract : Bool) : ℤ := if subtract then -1 else 1

/-- Registers that DAA has left after an addition or a subtraction of packed digits. -/
structure Registers.IsAdjusted (subtract : Bool) (r : Registers) : Prop where
  packed : IsPacked r.a
  direction : r.flags.subtract = subtract
  half : r.flags.half = false
  zero : r.flags.zero = true ↔ r.a = 0

/-- **Decimal addition and subtraction of two bytes**, as one equation. -/
theorem Decimal.value_combine (hx : IsPacked x) (hy : IsPacked y) (subtract carry : Bool) :
    let sum := combine subtract x y carry
    let result := decimalAdjust sum.1 sum.2
    IsPacked result.1 ∧
      (value result.1 : ℤ) + sign subtract * (100 * result.2.carry.toNat) =
        value x + sign subtract * (value y + carry.toNat) := by
  cases subtract with
  | false =>
    obtain ⟨hpacked, hvalue⟩ := value_addBytes hx hy carry
    refine ⟨hpacked, ?_⟩
    zify at hvalue
    simp only [combine, sign, Bool.false_eq_true, if_false]
    linear_combination hvalue
  | true =>
    obtain ⟨hpacked, hvalue⟩ := value_subBytes hx hy carry
    refine ⟨hpacked, ?_⟩
    zify at hvalue
    simp only [combine, sign, if_true]
    linear_combination hvalue

/-- **One byte of a decimal operation**: its digits and the carry that it leaves are the exact
result. -/
theorem Registers.isAdjusted_adjusted {op : Arithmetic} {r : Registers}
    (hop : op.apply x y r.flags = combine subtract x y carry) (hx : IsPacked x)
    (hy : IsPacked y) :
    let s := r.adjusted op x y
    s.IsAdjusted subtract ∧
      (value s.a : ℤ) + sign subtract * (100 * s.flags.carry.toNat) =
        value x + sign subtract * (value y + carry.toNat) := by
  intro s
  obtain ⟨ha, hf⟩ := r.adjusted_eq op x y
  rw [hop] at ha hf
  obtain ⟨hpacked, hvalue⟩ := value_combine hx hy subtract carry
  rw [← ha, ← hf] at hvalue
  refine ⟨⟨ha ▸ hpacked, ?_, ?_, ?_⟩, hvalue⟩
  · rw [hf]
    cases subtract <;> rfl
  · rw [hf]
    rfl
  · rw [hf, ha]
    exact beq_iff_eq

/-! ## All bytes of a number -/

/-- The registers after each byte of a decimal operation that is carried out by `first` on the least
significant bytes and by `next` on all others. -/
def Registers.chained (first next : Arithmetic) :
    List (UInt8 × UInt8) → Registers → List Registers
  | [], _ => []
  | (x, y) :: rest, r => r.adjusted first x y :: (r.adjusted first x y).chained next next rest

/-- What a decimal operation on all bytes comes to: a carry comes in, the registers after each byte
are listed, and the last ones hold the carry that goes out. -/
structure Decimal.Exact (subtract : Bool) (pairs : List (UInt8 × UInt8)) (carry : Bool)
    (list : List Registers) (last : Registers) : Prop where
  length : list.length = pairs.length
  adjusted : ∀ r ∈ list, r.IsAdjusted subtract
  sum : (number (list.map Registers.a) : ℤ) +
      sign subtract * (100 ^ pairs.length * last.flags.carry.toNat) =
    number (pairs.map Prod.fst) + sign subtract * (number (pairs.map Prod.snd) + carry.toNat)

variable {first next op : Arithmetic} {pairs : List (UInt8 × UInt8)} {r last : Registers}
  {list : List Registers}

/-- **One more byte**, the least significant one. -/
theorem Registers.exact_cons (hop : op.apply x y r.flags = combine subtract x y carry)
    (hxy : IsPacked x ∧ IsPacked y)
    (h : let s := r.adjusted op x y
      Exact subtract pairs s.flags.carry (s.chained next next pairs)
        ((s.chained next next pairs).getLastD s)) :
    let list := r.chained op next ((x, y) :: pairs)
    Exact subtract ((x, y) :: pairs) carry list (list.getLastD r) := by
  intro list
  obtain ⟨hadjusted, hvalue⟩ := isAdjusted_adjusted hop hxy.1 hxy.2
  have hlast : list.getLastD r =
      ((r.adjusted op x y).chained next next pairs).getLastD (r.adjusted op x y) :=
    List.getLastD_cons
  refine ⟨congrArg Nat.succ h.length, List.forall_mem_cons.2 ⟨hadjusted, h.adjusted⟩, ?_⟩
  have hrest := h.sum
  rw [hlast]
  simp only [list, chained, List.map_cons, number_cons, List.length_cons, pow_succ]
  push_cast
  -- What this byte carries out is what the others take in, and these count a hundredfold.
  linear_combination hvalue + 100 * hrest

/-- **The digits and the last carry together are the exact result**: each byte takes the carry of
the byte before. -/
theorem Registers.exact_chained (hnext : ∀ x y f, next.apply x y f = combine subtract x y f.carry)
    (hpairs : ∀ p ∈ pairs, IsPacked p.1 ∧ IsPacked p.2) (r : Registers) :
    let list := r.chained next next pairs
    Exact subtract pairs r.flags.carry list (list.getLastD r) := by
  induction pairs generalizing r with
  | nil => exact ⟨rfl, nofun, by simp [number, chained]⟩
  | cons p pairs ih =>
    obtain ⟨hp, hrest⟩ := List.forall_mem_cons.1 hpairs
    exact exact_cons (hnext p.1 p.2 r.flags) hp (ih hrest _)

/-- The first step takes no carry, so that none comes in. -/
theorem Registers.exact_chained_first
    (hfirst : ∀ x y f, first.apply x y f = combine subtract x y false)
    (hnext : ∀ x y f, next.apply x y f = combine subtract x y f.carry) (hne : pairs ≠ [])
    (hpairs : ∀ p ∈ pairs, IsPacked p.1 ∧ IsPacked p.2) (r : Registers) :
    let list := r.chained first next pairs
    ∃ last, list.getLast? = some last ∧ Exact subtract pairs false list last := by
  intro list
  cases pairs with
  | nil => exact absurd rfl hne
  | cons p pairs =>
    obtain ⟨hp, hrest⟩ := List.forall_mem_cons.1 hpairs
    have hexact := exact_cons (hfirst p.1 p.2 r.flags) hp (exact_chained hnext hrest _)
    refine ⟨list.getLastD r, ?_, hexact⟩
    rw [List.getLastD_eq_getLast?, show list = _ :: _ from rfl, List.getLast?_cons]
    rfl

/-! ## What the bytes spell -/

/-- The bytes that are collected spell the result, as far as they can hold it. -/
theorem Decimal.Exact.encode_eq (h : Exact subtract pairs carry list last) :
    number (list.map Registers.a) < 100 ^ pairs.length ∧
      list.map Registers.a = encode pairs.length (number (list.map Registers.a)) := by
  have hpacked : ∀ b ∈ list.map Registers.a, IsPacked b :=
    List.forall_mem_map.2 fun r hr => (h.adjusted r hr).packed
  have hlength : (list.map Registers.a).length = pairs.length :=
    (List.length_map _).trans h.length
  rw [← hlength]
  exact ⟨number_lt hpacked, (encode_number hpacked).symm⟩

/-- In the hundreds the digits are an exact result as bytes are in base 256. -/
theorem Decimal.Exact.exactResult (h : Exact subtract pairs carry list last) :
    ExactResult (sign subtract) (100 ^ pairs.length) (number (pairs.map Prod.fst))
      (number (pairs.map Prod.snd)) carry (number (list.map Registers.a)) last.flags.carry where
  lt := h.encode_eq.1
  sum := by exact_mod_cast h.sum

/-- **Addition**, if no carry comes in: the bytes are those of the sum, and a carry goes out exactly
if they cannot hold it. -/
theorem Decimal.Exact.of_add (h : Exact false pairs false list last) :
    let sum := number (pairs.map Prod.fst) + number (pairs.map Prod.snd)
    list.map Registers.a = encode pairs.length (sum % 100 ^ pairs.length) ∧
      (last.flags.carry = true ↔ 100 ^ pairs.length ≤ sum) := by
  intro sum
  obtain ⟨hmod, hcarry⟩ := h.exactResult.of_add
  exact ⟨h.encode_eq.2.trans (congrArg _ hmod), hcarry⟩

/-- **Subtraction**, if no borrow comes in: the bytes are those of the difference, and a borrow goes
out exactly if it is negative. -/
theorem Decimal.Exact.of_subtract (h : Exact true pairs false list last) :
    let x := number (pairs.map Prod.fst)
    let y := number (pairs.map Prod.snd)
    list.map Registers.a = encode pairs.length (((x : ℤ) - y) % 100 ^ pairs.length).toNat ∧
      (last.flags.carry = true ↔ x < y) := by
  intro x y
  obtain ⟨hmod, hcarry⟩ := h.exactResult.of_subtract
  refine ⟨?_, hcarry⟩
  have hnumber : (((x : ℤ) - y) % 100 ^ pairs.length).toNat = number (list.map Registers.a) := by
    simp only [Bool.toNat_false, Nat.cast_zero, sub_zero, Nat.cast_pow, Nat.cast_ofNat] at hmod
    rw [← hmod, Int.toNat_natCast]
  rw [hnumber]
  exact h.encode_eq.2

end Carry

/-! ## The law of decimal arithmetic -/

/-- **The law of decimal arithmetic.** Two packed decimal numbers of equally many bytes are given,
the least significant byte first, and any registers. If each byte of the first is loaded into the
accumulator, the byte of the second is added to it, by ADD at first and by ADC from then on, and
DAA follows, then the bytes that the accumulator has held are those of the sum, as far as they can
hold it, and in the end the carry flag is set exactly if they cannot. With SUB and SBC they are the
bytes of the difference, and in the end the carry flag is set exactly if it is negative. The
subtraction flag tells the two apart, and after every DAA the half-carry flag is clear and the zero
flag says whether the byte is zero. -/
theorem Registers.decimal_law {xs ys : List UInt8} (hpos : 0 < xs.length)
    (hlen : ys.length = xs.length) (hxs : ∀ x ∈ xs, IsPacked x) (hys : ∀ y ∈ ys, IsPacked y)
    (r : Registers) :
    let n := xs.length
    let x := number xs
    let y := number ys
    let sums := r.chained .add .adc (xs.zip ys)
    let differences := r.chained .sub .sbc (xs.zip ys)
    (sums.map Registers.a = encode n ((x + y) % 100 ^ n) ∧
        ∃ last, sums.getLast? = some last ∧ (last.flags.carry = true ↔ 100 ^ n ≤ x + y) ∧
          last.flags.subtract = false) ∧
      (differences.map Registers.a = encode n (((x : ℤ) - y) % 100 ^ n).toNat ∧
        ∃ last, differences.getLast? = some last ∧ (last.flags.carry = true ↔ x < y) ∧
          last.flags.subtract = true) ∧
      ∀ q ∈ sums ++ differences, q.flags.half = false ∧ (q.flags.zero = true ↔ q.a = 0) := by
  intro n x y sums differences
  have hne : xs.zip ys ≠ [] := by
    rw [← List.length_pos_iff, List.length_zip, hlen, Nat.min_self]
    exact hpos
  have hpairs : ∀ p ∈ xs.zip ys, IsPacked p.1 ∧ IsPacked p.2 := fun p hp =>
    ⟨hxs _ (List.of_mem_zip hp).1, hys _ (List.of_mem_zip hp).2⟩
  have hfst : (xs.zip ys).map Prod.fst = xs := List.map_fst_zip hlen.ge
  have hsnd : (xs.zip ys).map Prod.snd = ys := List.map_snd_zip hlen.le
  have hn : (xs.zip ys).length = n := by rw [List.length_zip, hlen, Nat.min_self]
  obtain ⟨s, hs, hsum⟩ : ∃ s, sums.getLast? = some s ∧ Exact false (xs.zip ys) false sums s :=
    exact_chained_first (fun _ _ _ => rfl) (fun _ _ _ => rfl) hne hpairs r
  obtain ⟨d, hd, hdifference⟩ : ∃ d, differences.getLast? = some d ∧
      Exact true (xs.zip ys) false differences d :=
    exact_chained_first (fun _ _ _ => rfl) (fun _ _ _ => rfl) hne hpairs r
  have hadd := hsum.of_add
  have hsubtract := hdifference.of_subtract
  simp only [hfst, hsnd, hn] at hadd hsubtract
  refine ⟨⟨hadd.1, s, hs, hadd.2, ?_⟩, ⟨hsubtract.1, d, hd, hsubtract.2, ?_⟩, ?_⟩
  · exact (hsum.adjusted s (List.mem_of_getLast? hs)).direction
  · exact (hdifference.adjusted d (List.mem_of_getLast? hd)).direction
  · intro q hq
    rcases List.mem_append.1 hq with hq | hq
    · exact ⟨(hsum.adjusted q hq).half, (hsum.adjusted q hq).zero⟩
    · exact ⟨(hdifference.adjusted q hq).half, (hdifference.adjusted q hq).zero⟩

/-- 158 + 9975 = 10133 and 158 - 9975 = 183 - 10000, with all flags set at first. -/
theorem Registers.decimal_law_two :
    let xs : List UInt8 := [0x58, 0x01]
    let ys : List UInt8 := [0x75, 0x99]
    let r : Registers := { af := 0x00F0 }
    let sums := r.chained .add .adc (xs.zip ys)
    let differences := r.chained .sub .sbc (xs.zip ys)
    0 < xs.length ∧ ys.length = xs.length ∧ (∀ x ∈ xs, IsPacked x) ∧ (∀ y ∈ ys, IsPacked y) ∧
      sums.map Registers.a = [0x33, 0x01] ∧ differences.map Registers.a = [0x83, 0x01] ∧
      (∃ last, sums.getLast? = some last ∧ last.flags.carry = true) ∧
      ∃ last, differences.getLast? = some last ∧ last.flags.carry = true := by
  intro xs ys r sums differences
  have hxs : ∀ x ∈ xs, IsPacked x := by simp [xs, IsPacked]
  have hys : ∀ y ∈ ys, IsPacked y := by simp [ys, IsPacked]
  have hx : number xs = 158 := rfl
  have hy : number ys = 9975 := rfl
  obtain ⟨⟨hsums, s, hs, hcarry, -⟩, ⟨hdifferences, d, hd, hborrow, -⟩, -⟩ :=
    decimal_law (by decide) (show ys.length = xs.length from rfl) hxs hys r
  have hlen : xs.length = 2 := rfl
  have hsum : (158 + 9975) % 100 ^ 2 = 133 := by decide
  have hdifference : ((((158 : Nat) : ℤ) - (9975 : Nat)) % 100 ^ 2).toNat = 183 := by decide
  have hsumBytes : encode 2 133 = [0x33, 0x01] :=
    encode_number (show ∀ b ∈ [0x33, 0x01], IsPacked b by simp [IsPacked])
  have hdifferenceBytes : encode 2 183 = [0x83, 0x01] :=
    encode_number (show ∀ b ∈ [0x83, 0x01], IsPacked b by simp [IsPacked])
  rw [hx, hy, hlen, hsum, hsumBytes] at hsums
  rw [hx, hy, hlen, hdifference, hdifferenceBytes] at hdifferences
  rw [hx, hy, hlen] at hcarry
  rw [hx, hy] at hborrow
  exact ⟨by decide, rfl, hxs, hys, hsums, hdifferences, ⟨s, hs, hcarry.2 (by decide)⟩, d, hd,
    hborrow.2 (by decide)⟩

end Sm83
