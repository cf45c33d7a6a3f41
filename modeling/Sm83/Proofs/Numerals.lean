import Sm83.Numeral
import Mathlib.Data.Nat.Digits.Defs

/-!
# Numerals

A numeral is an optional plus sign and then digits, one at least, and its value is that of the
digits in their base. Reading a text gives a value if the text is a numeral of that value and the
value is within the bound, and else the first problem that is met from left to right. A value that
is already too large stays too large, however many digits follow, so it makes no difference that the
bound is tested digit by digit.

## Main definitions

* `Numeral.Continues`: digits take one value to another
* `Numeral.Reads`: what reading digits comes to
* `Numeral.unsigned`: what stands behind the sign of a numeral
* `Numeral.Spells`: a text is a numeral of so much
* `IsDecimal`: a text is a decimal numeral of so much

## Main results

* `Numeral.accumulate_eq_iff`: digits are read up to the first problem
* `Numeral.parse_eq_iff`: what reading a numeral comes to
* `Numeral.parse_eq_ok_iff`: a value is read if the text spells it and it is within the bound
* `parseTicks_eq_ok_iff`: the tick counts that are read
-/

namespace Sm83

namespace Numeral

/-! ## Digits -/

theorem lt_of_digitValue? {base d : Nat} {c : Char} (h : digitValue? base c = some d) :
    d < base := by
  obtain ⟨-, hd⟩ := Option.filter_eq_some_iff.1 h
  exact of_decide_eq_true hd

/-- A plus sign is no digit, whatever the base. -/
theorem digitValue?_plus (base : Nat) : digitValue? base '+' = none := rfl

/-- The digits of base ten are those that texts have. -/
theorem digitValue?_ten (c : Char) :
    digitValue? 10 c = if c.isDigit then some (c.toNat - '0'.toNat) else none := by
  have hdigit : c.isDigit = true ↔ '0' ≤ c ∧ c ≤ '9' := by
    rw [Char.isDigit, Bool.and_eq_true, decide_eq_true_iff, decide_eq_true_iff]
    rfl
  unfold digitValue? alphanumericValue?
  by_cases h : '0' ≤ c ∧ c ≤ '9'
  · have hle : c.toNat ≤ 57 := h.2
    rw [if_pos h, if_pos (hdigit.2 h), Option.filter_some, if_pos (by simpa using by omega)]
    rfl
  · rw [if_neg h, if_neg (mt hdigit.1 h)]
    -- The letters count from ten on.
    split
    · rename_i ha
      have hge : 97 ≤ c.toNat := ha.1
      rw [Option.filter_some, if_neg (by simpa using by omega)]
    · split
      · rename_i ha
        have hge : 65 ≤ c.toNat := ha.1
        rw [Option.filter_some, if_neg (by simpa using by omega)]
      · rfl

/-! ## Digits behind a value -/

/-- Digits take a value to another one, in which they stand behind the first. -/
def Continues (base value : Nat) (text : List Char) (n : Nat) : Prop :=
  ∃ ds : List Nat, text.map (digitValue? base) = ds.map some ∧
    n = value * base ^ ds.length + Nat.ofDigits base ds.reverse

theorem continues_nil_iff {base value n : Nat} : Continues base value [] n ↔ n = value := by
  constructor
  · rintro ⟨ds, hds, rfl⟩
    obtain rfl : ds = [] := List.map_eq_nil_iff.1 hds.symm
    simp
  · rintro rfl
    exact ⟨[], rfl, by simp⟩

theorem not_continues_cons {base value n : Nat} {c : Char} {rest : List Char}
    (hc : digitValue? base c = none) : ¬ Continues base value (c :: rest) n := by
  rintro ⟨_ | ⟨d, ds⟩, hds, -⟩
  · cases hds
  · rw [List.map_cons, hc] at hds
    cases hds

theorem continues_cons_iff {base value n d : Nat} {c : Char} {rest : List Char}
    (hc : digitValue? base c = some d) :
    Continues base value (c :: rest) n ↔ Continues base (value * base + d) rest n := by
  -- What stands before one digit more has one more power of the base as its weight.
  have hvalue (ds : List Nat) :
      value * base ^ (d :: ds).length + Nat.ofDigits base (d :: ds).reverse =
        (value * base + d) * base ^ ds.length + Nat.ofDigits base ds.reverse := by
    rw [List.reverse_cons, Nat.ofDigits_append, Nat.ofDigits_singleton, List.length_reverse,
      List.length_cons]
    ring
  constructor
  · rintro ⟨_ | ⟨d', ds⟩, hds, hn⟩
    · cases hds
    · rw [List.map_cons, List.map_cons, hc, List.cons.injEq, Option.some_inj] at hds
      obtain ⟨rfl, hds⟩ := hds
      exact ⟨ds, hds, hn.trans (hvalue ds)⟩
  · rintro ⟨ds, hds, hn⟩
    exact ⟨d :: ds, by rw [List.map_cons, List.map_cons, hc, hds], hn.trans (hvalue ds).symm⟩

/-- In a base that has digits, a value does not become less. -/
theorem Continues.le {base value n : Nat} {text : List Char} (hbase : 0 < base)
    (h : Continues base value text n) : value ≤ n := by
  obtain ⟨ds, -, rfl⟩ := h
  calc value ≤ value * base ^ ds.length := Nat.le_mul_of_pos_right _ (Nat.pow_pos hbase)
    _ ≤ _ := Nat.le_add_right _ _

/-! ## Reading up to the first problem -/

section Reading

variable {base bound value : Nat} {digits before after : List Char} {c : Char}

/-- One digit more multiplies the value by the base and is added to it. -/
theorem Continues.concat_iff {m n : Nat} (h : Continues base value before m) :
    Continues base value (before ++ [c]) n ↔
      ∃ d, digitValue? base c = some d ∧ n = m * base + d := by
  induction before generalizing value with
  | nil =>
    obtain rfl := continues_nil_iff.1 h
    cases hc : digitValue? base c with
    | none => exact ⟨fun h => absurd h (not_continues_cons hc), nofun⟩
    | some d =>
      rw [List.nil_append, continues_cons_iff hc, continues_nil_iff]
      simp only [Option.some_inj, exists_eq_left']
  | cons b before ih =>
    cases hb : digitValue? base b with
    | none => exact absurd h (not_continues_cons hb)
    | some d =>
      rw [List.cons_append, continues_cons_iff hb]
      exact ih ((continues_cons_iff hb).1 h)

/-- As long as the value is within the bound, reading goes on behind the digits read so far. -/
theorem accumulate_append {m : Nat} (h : Continues base value before m) (hm : m ≤ bound) :
    accumulate base bound value (before ++ after) = accumulate base bound m after := by
  induction before generalizing value with
  | nil =>
    obtain rfl := continues_nil_iff.1 h
    rfl
  | cons b before ih =>
    cases hb : digitValue? base b with
    | none => exact absurd h (not_continues_cons hb)
    | some d =>
      rw [continues_cons_iff hb] at h
      -- The value only grows, so it was within the bound all the way.
      have hle : value * base + d ≤ bound :=
        (h.le (Nat.zero_lt_of_lt (lt_of_digitValue? hb))).trans hm
      rw [List.cons_append, accumulate, hb]
      show (if value * base + d ≤ bound then _ else _) = _
      rw [if_pos hle]
      exact ih h

variable (base bound value digits) in
/-- **What reading digits behind a value comes to**: the value with all of them, or the first
problem. -/
inductive Reads : Except NumeralError Nat → Prop
  | all {n : Nat} (h : Continues base value digits n) (hn : n ≤ bound) : Reads (.ok n)
  | nonDigit {before after : List Char} {c : Char} {n : Nat}
      (hdigits : digits = before ++ c :: after) (h : Continues base value before n) (hn : n ≤ bound)
      (hc : digitValue? base c = none) : Reads (.error .invalidDigit)
  | overflow {before after : List Char} {c : Char} {m n : Nat}
      (hdigits : digits = before ++ c :: after) (h : Continues base value before m) (hm : m ≤ bound)
      (hc : Continues base value (before ++ [c]) n) (hn : bound < n) : Reads (.error .tooLarge)

theorem Reads.cons {d : Nat} {r : Except NumeralError Nat} (hc : digitValue? base c = some d)
    (h : Reads base bound (value * base + d) digits r) :
    Reads base bound value (c :: digits) r := by
  cases h with
  | all h hn => exact .all ((continues_cons_iff hc).2 h) hn
  | nonDigit hdigits h hn hb =>
    exact .nonDigit (congrArg (c :: ·) hdigits) ((continues_cons_iff hc).2 h) hn hb
  | overflow hdigits h hm hb hn =>
    exact .overflow (congrArg (c :: ·) hdigits) ((continues_cons_iff hc).2 h) hm
      ((continues_cons_iff hc).2 hb) hn

theorem reads_accumulate (hv : value ≤ bound) :
    Reads base bound value digits (accumulate base bound value digits) := by
  -- The value read so far is different for each digit, and always within the bound.
  induction digits generalizing value with
  | nil => exact .all (continues_nil_iff.2 rfl) hv
  | cons c digits ih =>
    have hstart : Continues base value [] value := continues_nil_iff.2 rfl
    rw [accumulate]
    cases hc : digitValue? base c with
    | none => exact .nonDigit (List.nil_append _).symm hstart hv hc
    | some d =>
      show Reads _ _ _ _ (if value * base + d ≤ bound then _ else _)
      by_cases hle : value * base + d ≤ bound
      · rw [if_pos hle]
        exact (ih hle).cons hc
      · rw [if_neg hle]
        exact .overflow (List.nil_append _).symm hstart hv (hstart.concat_iff.2 ⟨d, hc, rfl⟩)
          (not_le.1 hle)

/-- **Digits are read** up to the first problem. -/
theorem accumulate_eq_iff {r : Except NumeralError Nat} (hv : value ≤ bound) :
    accumulate base bound value digits = r ↔ Reads base bound value digits r := by
  constructor
  · rintro rfl
    exact reads_accumulate hv
  · intro h
    cases h with
    | all h hn => rw [← List.append_nil digits, accumulate_append h hn, accumulate]
    | nonDigit hdigits h hn hc => rw [hdigits, accumulate_append h hn, accumulate, hc]
    | overflow hdigits h hm hc hn =>
      obtain ⟨d, hd, rfl⟩ := h.concat_iff.1 hc
      rw [hdigits, accumulate_append h hm, accumulate, hd]
      exact if_neg (not_le.2 hn)

theorem reads_ok_iff {n : Nat} :
    Reads base bound value digits (.ok n) ↔ Continues base value digits n ∧ n ≤ bound := by
  constructor
  · intro h
    cases h with
    | all h hn => exact ⟨h, hn⟩
  · exact fun h => .all h.1 h.2

end Reading

/-! ## Numerals -/

/-- What stands behind the sign of a numeral, if it has one. -/
def unsigned : List Char → List Char
  | '+' :: rest => rest
  | text => text

theorem eq_unsigned_or_eq_cons_unsigned (text : List Char) :
    text = unsigned text ∨ text = '+' :: unsigned text := by
  unfold unsigned
  split
  · exact .inr rfl
  · exact .inl rfl

/-- Digits have no sign in front of them. -/
theorem Continues.unsigned_eq {base value n : Nat} {digits : List Char}
    (h : Continues base value digits n) : unsigned digits = digits := by
  unfold unsigned
  split
  · exact absurd h (not_continues_cons (digitValue?_plus base))
  · rfl

/-- A text spells a number in a base: after a plus sign or nothing, at least one digit stands, and
the digits have the number as their value. -/
def Spells (base : Nat) (text : List Char) (n : Nat) : Prop :=
  ∃ digits, (text = digits ∨ text = '+' :: digits) ∧ digits ≠ [] ∧ Continues base 0 digits n

theorem spells_iff {base n : Nat} {text : List Char} :
    Spells base text n ↔ unsigned text ≠ [] ∧ Continues base 0 (unsigned text) n := by
  constructor
  · rintro ⟨digits, rfl | rfl, hne, h⟩
    · rw [h.unsigned_eq]
      exact ⟨hne, h⟩
    · exact ⟨hne, h⟩
  · rintro ⟨hne, h⟩
    exact ⟨unsigned text, eq_unsigned_or_eq_cons_unsigned text, hne, h⟩

/-- **What reading a numeral comes to.** A sign alone is not empty: it is a character that is no
digit. -/
theorem parse_eq_iff {base bound : Nat} {text : List Char} {r : Except NumeralError Nat} :
    parse base bound text = r ↔
      text = [] ∧ r = .error .empty ∨ text = ['+'] ∧ r = .error .invalidDigit ∨
        unsigned text ≠ [] ∧ Reads base bound 0 (unsigned text) r := by
  have hread (digits : List Char) : accumulate base bound 0 digits = r ↔
      Reads base bound 0 digits r := accumulate_eq_iff (Nat.zero_le bound)
  unfold parse
  split
  · simp [unsigned, eq_comm]
  · simp [unsigned, eq_comm]
  · rename_i rest hrest
    have hne : rest ≠ [] := hrest
    simp [unsigned, hne, hread]
  · rename_i hnil hsign hplus
    have hne : text ≠ [] := hnil
    have hlone : text ≠ ['+'] := hsign
    have hunsigned : unsigned text = text := by
      unfold unsigned
      split
      · exact absurd rfl (hplus _)
      · rfl
    simp [hunsigned, hne, hlone, hread]

/-- **A value is read** if the text spells it and it is within the bound. -/
theorem parse_eq_ok_iff {base bound n : Nat} {text : List Char} :
    parse base bound text = .ok n ↔ Spells base text n ∧ n ≤ bound := by
  rw [parse_eq_iff, reads_ok_iff, spells_iff, and_assoc]
  constructor
  · rintro (⟨-, h⟩ | ⟨-, h⟩ | h)
    · cases h
    · cases h
    · exact h
  · exact fun h => .inr (.inr h)

/-! ## Decimal numerals -/

theorem continues_ten_iff {value n : Nat} {digits : List Char} :
    Continues 10 value digits n ↔
      (∀ c ∈ digits, c.isDigit = true) ∧ Nat.ofDigitChars 10 digits value = n := by
  induction digits generalizing value with
  | nil =>
    rw [continues_nil_iff, Nat.ofDigitChars_nil]
    exact ⟨fun h => ⟨List.forall_mem_nil _, h.symm⟩, fun h => h.2.symm⟩
  | cons c rest ih =>
    rw [List.forall_mem_cons, Nat.ofDigitChars_cons, Nat.mul_comm 10 value]
    cases hc : c.isDigit with
    | true => rw [continues_cons_iff (by rw [digitValue?_ten, if_pos hc]), ih, eq_self, true_and]
    | false =>
      have hnone : digitValue? 10 c = none := by rw [digitValue?_ten, hc]; rfl
      exact ⟨fun h => absurd h (not_continues_cons hnone), nofun⟩

end Numeral

/-- A text is a decimal numeral of a number: after a plus sign or nothing, at least one digit
stands. -/
def IsDecimal (text : String) (n : Nat) : Prop :=
  ∃ digits, (text.toList = digits ∨ text.toList = '+' :: digits) ∧ digits ≠ [] ∧
    (∀ c ∈ digits, c.isDigit = true) ∧ Nat.ofDigitChars 10 digits 0 = n

/-- **The tick counts that are read** are the decimal numerals of 64 bits. -/
theorem parseTicks_eq_ok_iff {text : String} {n : Nat} :
    parseTicks text = .ok n ↔ IsDecimal text n ∧ n < 2 ^ 64 := by
  have hbound : n ≤ UInt64.size - 1 ↔ n < 2 ^ 64 := by
    rw [UInt64.size]
    omega
  rw [parseTicks, Numeral.parse_eq_ok_iff, hbound]
  simp only [Numeral.Spells, IsDecimal, Numeral.continues_ten_iff]

end Sm83
