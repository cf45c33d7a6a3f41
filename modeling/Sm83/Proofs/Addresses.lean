import Mathlib.Data.Nat.Digits.Lemmas
import Sm83.Host.Options
import Sm83.Proofs.Numerals

/-!
# Addresses on the command line

An address is a numeral of 16 bits, in base sixteen behind one of two marks and in base ten without
a mark. A text that is no address is reported with the first problem that is met from left to right:
a character that is no digit, or a digit with which the value becomes too large. The value does not
grow by what is no digit, so the two cannot be met at the same character.

## Main definitions

* `addressForm`: the base of an address, and what stands behind its mark
* `Numeral.IsDigit`, `Numeral.HasValue`: digits in either case of their letters, and their value
* `Numeral.MeetsNonDigit`, `Numeral.Exceeds`: the two problems with digits

## Main results

* `Numeral.parse_eq_value_iff`, `Numeral.parse_eq_empty_iff`, `Numeral.parse_eq_invalidDigit_iff`,
  `Numeral.parse_eq_tooLarge_iff`: which texts have a value, and which have each problem
* `Numeral.hasValue_zeros_append`: digits that are written out have the value that was written
* `Options.address_law`: which texts are addresses, and what is wrong with the others
-/

namespace Sm83

namespace Numeral

/-! ## Digits in either case -/

theorem alphanumericValue?_ascii : ∀ n < 128, ∀ d < 16,
    alphanumericValue? (.ofNat n) = some d ↔ (Char.ofNat n).toLower = Nat.digitChar d := by
  decide +kernel

/-- A character has the value of the digit that it is in lower case. -/
theorem alphanumericValue?_eq_some_iff {c : Char} {d : ℕ} (hd : d < 16) :
    alphanumericValue? c = some d ↔ c.toLower = Nat.digitChar d := by
  by_cases hc : c.toNat < 128
  · have hascii := alphanumericValue?_ascii c.toNat hc d hd
    rwa [Char.ofNat_toNat] at hascii
  · -- Behind the ASCII letters, nothing has a value and nothing has a lower case.
    have hnine : ¬ c ≤ '9' := fun h : c.toNat ≤ 57 => by omega
    have hz : ¬ c ≤ 'z' := fun h : c.toNat ≤ 122 => by omega
    have hZ : ¬ c ≤ 'Z' := fun h : c.toNat ≤ 90 => by omega
    have hnone : alphanumericValue? c = none := by
      simp only [alphanumericValue?, hnine, hz, hZ, and_false, if_false]
    have hlower : c.toLower = c := dif_neg fun h => hZ h.2
    have hascii : ∀ e < 16, (Nat.digitChar e).toNat < 128 := by decide
    rw [hnone, hlower]
    refine ⟨nofun, ?_⟩
    rintro rfl
    exact absurd (hascii d hd) hc

/-- Digits of a base, in either case of their letters. -/
def IsDigit (base : ℕ) (c : Char) : Prop := ∃ d < base, c.toLower = Nat.digitChar d

instance (base : ℕ) (c : Char) : Decidable (IsDigit base c) :=
  inferInstanceAs (Decidable (∃ d < base, c.toLower = Nat.digitChar d))

/-- Digits of a base, in either case of their letters, with their value. -/
def HasValue (base : ℕ) (digits : List Char) (n : ℕ) : Prop :=
  ∃ ds : List ℕ, (∀ d ∈ ds, d < base) ∧ digits.map Char.toLower = ds.map Nat.digitChar ∧
    n = Nat.ofDigits base ds.reverse

theorem HasValue.isDigit {base n : ℕ} {digits : List Char} {c : Char}
    (h : HasValue base digits n) (hc : c ∈ digits) : IsDigit base c := by
  obtain ⟨ds, hds, hmap, -⟩ := h
  have hmem : c.toLower ∈ ds.map Nat.digitChar := hmap ▸ List.mem_map_of_mem hc
  obtain ⟨d, hd, heq⟩ := List.mem_map.1 hmem
  exact ⟨d, hds d hd, heq.symm⟩

section Digits

variable {base : ℕ} (hbase : base ≤ 16)
include hbase

theorem digitValue?_eq_some_iff {c : Char} {d : ℕ} :
    digitValue? base c = some d ↔ d < base ∧ c.toLower = Nat.digitChar d := by
  rw [digitValue?, Option.filter_eq_some_iff, decide_eq_true_iff, and_comm]
  exact and_congr_right fun hd => alphanumericValue?_eq_some_iff (hd.trans_le hbase)

theorem digitValue?_eq_none_iff {c : Char} : digitValue? base c = none ↔ ¬ IsDigit base c := by
  simp only [Option.eq_none_iff_forall_ne_some, ne_eq, digitValue?_eq_some_iff hbase, IsDigit,
    not_exists]

theorem map_digitValue?_eq_iff {digits : List Char} {ds : List ℕ} :
    digits.map (digitValue? base) = ds.map some ↔
      (∀ d ∈ ds, d < base) ∧ digits.map Char.toLower = ds.map Nat.digitChar := by
  induction digits generalizing ds with
  | nil =>
    cases ds with
    | nil => simp
    | cons d ds => exact ⟨nofun, nofun⟩
  | cons c digits ih =>
    cases ds with
    | nil => exact ⟨nofun, nofun⟩
    | cons d ds =>
      simp only [List.map_cons, List.cons.injEq, List.forall_mem_cons, ih,
        digitValue?_eq_some_iff hbase]
      exact and_and_and_comm

/-- Digits with nothing read before them have their own value. -/
theorem continues_zero_iff {digits : List Char} {n : ℕ} :
    Continues base 0 digits n ↔ HasValue base digits n := by
  simp only [Continues, HasValue, map_digitValue?_eq_iff hbase, Nat.zero_mul, Nat.zero_add,
    and_assoc]

end Digits

/-! ## The problems with a numeral -/

section Problems

variable {base bound : ℕ} {text digits : List Char}

variable (base bound digits) in
/-- A character that is no digit is met before the value of the digits exceeds the bound. -/
def MeetsNonDigit : Prop :=
  ∃ before c after n, digits = before ++ c :: after ∧ HasValue base before n ∧ n ≤ bound ∧
    ¬ IsDigit base c

variable (base bound digits) in
/-- A digit is met with which the value of the digits exceeds the bound for the first time. -/
def Exceeds : Prop :=
  ∃ before c after m n, digits = before ++ c :: after ∧ HasValue base before m ∧ m ≤ bound ∧
    HasValue base (before ++ [c]) n ∧ bound < n

theorem parse_eq_empty_iff : parse base bound text = .error .empty ↔ text = [] := by
  rw [parse_eq_iff]
  constructor
  · rintro (⟨h, -⟩ | ⟨-, h⟩ | ⟨-, h⟩)
    · exact h
    · cases h
    · cases h
  · exact fun h => .inl ⟨h, rfl⟩

variable (hbase : base ≤ 16)
include hbase

theorem parse_eq_value_iff {n : ℕ} :
    parse base bound text = .ok n ↔
      unsigned text ≠ [] ∧ HasValue base (unsigned text) n ∧ n ≤ bound := by
  rw [parse_eq_ok_iff, spells_iff, continues_zero_iff hbase, and_assoc]

theorem parse_eq_invalidDigit_iff :
    parse base bound text = .error .invalidDigit ↔
      text = ['+'] ∨ MeetsNonDigit base bound (unsigned text) := by
  rw [parse_eq_iff]
  constructor
  · rintro (⟨-, h⟩ | ⟨h, -⟩ | ⟨-, h⟩)
    · cases h
    · exact .inl h
    · cases h with
      | nonDigit hdigits h hn hc =>
        exact .inr ⟨_, _, _, _, hdigits, (continues_zero_iff hbase).1 h, hn,
          (digitValue?_eq_none_iff hbase).1 hc⟩
  · rintro (h | ⟨before, c, after, n, hdigits, h, hn, hc⟩)
    · exact .inr (.inl ⟨h, rfl⟩)
    · have hne : unsigned text ≠ [] := by simp [hdigits]
      exact .inr (.inr ⟨hne, .nonDigit hdigits ((continues_zero_iff hbase).2 h) hn
        ((digitValue?_eq_none_iff hbase).2 hc)⟩)

theorem parse_eq_tooLarge_iff :
    parse base bound text = .error .tooLarge ↔ Exceeds base bound (unsigned text) := by
  rw [parse_eq_iff]
  constructor
  · rintro (⟨-, h⟩ | ⟨-, h⟩ | ⟨-, h⟩)
    · cases h
    · cases h
    · cases h with
      | overflow hdigits h hm hc hn =>
        exact ⟨_, _, _, _, _, hdigits, (continues_zero_iff hbase).1 h, hm,
          (continues_zero_iff hbase).1 hc, hn⟩
  · rintro ⟨before, c, after, m, n, hdigits, h, hm, hc, hn⟩
    have hne : unsigned text ≠ [] := by simp [hdigits]
    exact .inr (.inr ⟨hne, .overflow hdigits ((continues_zero_iff hbase).2 h) hm
      ((continues_zero_iff hbase).2 hc) hn⟩)

end Problems

/-! ## Written digits -/

/-- The digits of a number in a base are digits of it and have it as their value. -/
theorem exists_toDigits {base : ℕ} (hbase : 1 < base) (n : ℕ) :
    ∃ ds : List ℕ, (∀ d ∈ ds, d < base) ∧ Nat.toDigits base n = ds.map Nat.digitChar ∧
      n = Nat.ofDigits base ds.reverse := by
  induction n using Nat.strongRecOn with
  | ind n ih =>
    rcases Nat.lt_or_ge n base with hn | hn
    · exact ⟨[n], List.forall_mem_singleton.2 hn, Nat.toDigits_of_lt_base hn,
        Nat.ofDigits_singleton.symm⟩
    · obtain ⟨ds, hds, hmap, hvalue⟩ :=
        ih (n / base) (Nat.div_lt_self (Nat.zero_lt_of_lt (hbase.trans_le hn)) hbase)
      refine ⟨ds ++ [n % base], ?_, ?_, ?_⟩
      · rw [List.forall_mem_append]
        exact ⟨hds, List.forall_mem_singleton.2 (Nat.mod_lt n (Nat.zero_lt_of_lt hbase))⟩
      · rw [Nat.toDigits_of_base_le hbase hn, hmap, List.map_append, List.map_singleton]
      · rw [List.reverse_append, List.reverse_singleton, List.singleton_append,
          Nat.ofDigits_cons, ← hvalue, Nat.mod_add_div]

/-- The standard digits are in lower case. -/
theorem map_toLower_toDigits {base : ℕ} (hone : 1 < base) (hbase : base ≤ 16) (n : ℕ) :
    (Nat.toDigits base n).map Char.toLower = Nat.toDigits base n := by
  obtain ⟨ds, hds, hmap, -⟩ := exists_toDigits hone n
  have hlower : ∀ d < 16, (Nat.digitChar d).toLower = Nat.digitChar d := by decide
  rw [hmap, List.map_map]
  exact List.map_congr_left fun d hd => hlower d ((hds d hd).trans_le hbase)

/-- **Digits that are written out**, in either case of their letters and with any number of zeros
in front, have the value that was written. -/
theorem hasValue_zeros_append {base n : ℕ} {digits : List Char} (hbase : 1 < base)
    (h : digits.map Char.toLower = Nat.toDigits base n) (zeros : ℕ) :
    HasValue base (List.replicate zeros '0' ++ digits) n := by
  obtain ⟨ds, hds, hmap, hvalue⟩ := exists_toDigits hbase n
  refine ⟨List.replicate zeros 0 ++ ds, ?_, ?_, ?_⟩
  · rw [List.forall_mem_append]
    refine ⟨fun d hd => ?_, hds⟩
    rw [List.eq_of_mem_replicate hd]
    exact Nat.zero_lt_of_lt hbase
  · rw [List.map_append, List.map_append, h, hmap, List.map_replicate, List.map_replicate]
    rfl
  · rw [List.reverse_append, List.reverse_replicate, Nat.ofDigits_append_replicate_zero]
    exact hvalue

end Numeral

/-! ## Addresses -/

/-- The base of an address, and what stands behind its mark. -/
def addressForm (text : List Char) : ℕ × List Char :=
  if ['0', 'x'] <+: text then (16, text.drop 2)
  else if ['$'] <+: text then (16, text.drop 1)
  else (10, text)

theorem base_addressForm (text : List Char) :
    1 < (addressForm text).1 ∧ (addressForm text).1 ≤ 16 := by
  unfold addressForm
  split
  · exact (by decide : 1 < 16 ∧ 16 ≤ 16)
  · split
    · exact (by decide : 1 < 16 ∧ 16 ≤ 16)
    · exact (by decide : 1 < 10 ∧ 10 ≤ 16)

theorem addressForm_hex (rest : List Char) : addressForm ('0' :: 'x' :: rest) = (16, rest) :=
  if_pos (List.prefix_append ['0', 'x'] rest)

theorem addressForm_dollar (rest : List Char) : addressForm ('$' :: rest) = (16, rest) := by
  have hzero : ¬ ['0', 'x'] <+: '$' :: rest := by simp
  rw [addressForm, if_neg hzero]
  exact if_pos (List.prefix_append ['$'] rest)

theorem addressForm_decimal {text : List Char} (hzero : ∀ rest, text ≠ '0' :: 'x' :: rest)
    (hdollar : ∀ rest, text ≠ '$' :: rest) : addressForm text = (10, text) := by
  rw [addressForm, if_neg, if_neg]
  · rintro ⟨rest, rfl⟩
    exact hdollar rest rfl
  · rintro ⟨rest, rfl⟩
    exact hzero rest rfl

/-- No mark begins with digits of base ten only. -/
theorem addressForm_of_hasValue {text : List Char} {n : ℕ} (h : Numeral.HasValue 10 text n) :
    addressForm text = (10, text) := by
  refine addressForm_decimal ?_ ?_
  · rintro rest rfl
    have hx : Numeral.IsDigit 10 'x' := h.isDigit (by simp)
    exact absurd hx (by decide)
  · rintro rest rfl
    have hdollar : Numeral.IsDigit 10 '$' := h.isDigit (by simp)
    exact absurd hdollar (by decide)

theorem parseAddress_eq (text : String) :
    parseAddress text =
      (Numeral.parse (addressForm text.toList).1 65535 (addressForm text.toList).2).map
        UInt16.ofNat := by
  unfold parseAddress
  generalize text.toList = chars
  simp only
  split
  · rw [addressForm_hex]
  · rw [addressForm_dollar]
  · rename_i hzero hdollar
    rw [addressForm_decimal hzero hdollar]

namespace Options

variable {text : String}

theorem readAddress_eq_ok_iff {v : UInt16} :
    readAddress text = .ok v ↔
      Numeral.parse (addressForm text.toList).1 65535 (addressForm text.toList).2 =
        .ok v.toNat := by
  rw [readAddress, parseAddress_eq]
  cases h : Numeral.parse (addressForm text.toList).1 65535 (addressForm text.toList).2 with
  | error cause => exact ⟨nofun, nofun⟩
  | ok n =>
    have hn : n < 65536 := Nat.lt_succ_of_le (Numeral.parse_eq_ok_iff.1 h).2
    simp only [Except.map, Except.mapError, Except.ok.injEq]
    rw [← UInt16.toNat_inj, UInt16.toNat_ofNat_of_lt' hn]

theorem readAddress_eq_error_iff {cause : NumeralError} :
    readAddress text = .error (.badAddress text cause) ↔
      Numeral.parse (addressForm text.toList).1 65535 (addressForm text.toList).2 =
        .error cause := by
  rw [readAddress, parseAddress_eq]
  cases Numeral.parse (addressForm text.toList).1 65535 (addressForm text.toList).2 with
  | ok n => exact ⟨nofun, nofun⟩
  | error cause => simp [Except.map, Except.mapError]

/-- **What is written out is read back**, if the text has the form of its base. -/
theorem readAddress_of_toLower {base zeros : ℕ} {digits : List Char} {v : UInt16}
    (hform : addressForm text.toList = (base, List.replicate zeros '0' ++ digits))
    (h : digits.map Char.toLower = Nat.toDigits base v.toNat) : readAddress text = .ok v := by
  obtain ⟨hone, hsixteen⟩ := base_addressForm text.toList
  rw [hform] at hone hsixteen
  have hvalue := Numeral.hasValue_zeros_append hone h zeros
  have hne : List.replicate zeros '0' ++ digits ≠ [] := by
    intro hnil
    rw [(List.append_eq_nil_iff.1 hnil).2] at h
    exact Nat.toDigits_ne_nil h.symm
  have hunsigned := ((Numeral.continues_zero_iff hsixteen).2 hvalue).unsigned_eq
  rw [readAddress_eq_ok_iff, hform, Numeral.parse_eq_value_iff hsixteen, hunsigned]
  exact ⟨hne, hvalue, Nat.le_of_lt_succ v.toNat_lt⟩

/-- **The law of addresses.** Behind `0x` or a dollar sign an address is a numeral in base sixteen,
and any other text one in base ten: a plus sign or nothing, and then digits, one at least, that have
the address as their value. Nothing at all is reported as empty. For the rest, a character that is
no digit is reported if it is met before a digit with which the value leaves the 16 bits, and that
the value is too large if such a digit is met before; a plus sign alone counts as no digit. So
whatever is written in one of the three forms is read back, with any number of zeros in front and in
either case of the letters. -/
theorem address_law :
    (∀ text : String,
      let base := (addressForm text.toList).1
      let rest := (addressForm text.toList).2
      let digits := Numeral.unsigned rest
      (∀ v, readAddress text = .ok v ↔ digits ≠ [] ∧ Numeral.HasValue base digits v.toNat) ∧
        (readAddress text = .error (.badAddress text .empty) ↔ rest = []) ∧
        (readAddress text = .error (.badAddress text .invalidDigit) ↔
          rest = ['+'] ∨ Numeral.MeetsNonDigit base 65535 digits) ∧
        (readAddress text = .error (.badAddress text .tooLarge) ↔
          Numeral.Exceeds base 65535 digits) ∧
        ((∃ v, readAddress text = .ok v) ∨
          ∃ cause, readAddress text = .error (.badAddress text cause))) ∧
    ∀ (v : UInt16) (zeros : ℕ),
      readAddress (.ofList (.replicate zeros '0' ++ Nat.toDigits 10 v.toNat)) = .ok v ∧
        ∀ digits : List Char, digits.map Char.toLower = Nat.toDigits 16 v.toNat →
          readAddress (.ofList ('0' :: 'x' :: (.replicate zeros '0' ++ digits))) = .ok v ∧
            readAddress (.ofList ('$' :: (.replicate zeros '0' ++ digits))) = .ok v := by
  constructor
  · intro text base rest digits
    have hbase : base ≤ 16 := (base_addressForm text.toList).2
    refine ⟨fun v => ?_, ?_, ?_, ?_, ?_⟩
    · rw [readAddress_eq_ok_iff, Numeral.parse_eq_value_iff hbase]
      have hv : v.toNat ≤ 65535 := Nat.le_of_lt_succ v.toNat_lt
      simp only [hv, and_true, digits, rest, base]
    · rw [readAddress_eq_error_iff, Numeral.parse_eq_empty_iff]
    · rw [readAddress_eq_error_iff, Numeral.parse_eq_invalidDigit_iff hbase]
    · rw [readAddress_eq_error_iff, Numeral.parse_eq_tooLarge_iff hbase]
    · rw [readAddress]
      cases parseAddress text with
      | ok v => exact .inl ⟨v, rfl⟩
      | error cause => exact .inr ⟨cause, rfl⟩
  · intro v zeros
    have hlower := Numeral.map_toLower_toDigits (by decide : 1 < 10) (by decide) v.toNat
    constructor
    · have hvalue := Numeral.hasValue_zeros_append (by decide) hlower zeros
      have hform := addressForm_of_hasValue hvalue
      exact readAddress_of_toLower (by rw [String.toList_ofList, hform]) hlower
    · intro digits hdigits
      constructor
      · exact readAddress_of_toLower (by rw [String.toList_ofList, addressForm_hex]) hdigits
      · exact readAddress_of_toLower (by rw [String.toList_ofList, addressForm_dollar]) hdigits

/-- The last address in mixed case behind two zeros, and two texts with the same character that is
no digit: behind the last address it is reported, and behind one more the value is. -/
theorem address_law_last :
    ['F', 'f', 'F', 'f'].map Char.toLower = Nat.toDigits 16 (0xFFFF : UInt16).toNat ∧
      readAddress "$00FfFf" = .ok 0xFFFF ∧
      readAddress "65535x" = .error (.badAddress "65535x" .invalidDigit) ∧
      readAddress "65536x" = .error (.badAddress "65536x" .tooLarge) := by
  have hdigits : ['F', 'f', 'F', 'f'].map Char.toLower =
      Nat.toDigits 16 (0xFFFF : UInt16).toNat := by decide
  obtain ⟨hread, hwritten⟩ := address_law
  obtain ⟨-, -, hinvalid, -⟩ := hread "65535x"
  obtain ⟨-, -, -, hlarge, -⟩ := hread "65536x"
  have hinvalidForm : addressForm "65535x".toList = (10, ['6', '5', '5', '3', '5', 'x']) := by
    decide
  have hlargeForm : addressForm "65536x".toList = (10, ['6', '5', '5', '3', '6', 'x']) := by
    decide
  rw [hinvalidForm] at hinvalid
  rw [hlargeForm] at hlarge
  refine ⟨hdigits, ((hwritten 0xFFFF 2).2 _ hdigits).2, hinvalid.2 (.inr ?_), hlarge.2 ?_⟩
  · exact ⟨['6', '5', '5', '3', '5'], 'x', [], 65535, rfl,
      ⟨[6, 5, 5, 3, 5], by decide, by decide, by decide⟩, by decide, by decide⟩
  · exact ⟨['6', '5', '5', '3'], '6', ['x'], 6553, 65536, rfl,
      ⟨[6, 5, 5, 3], by decide, by decide, by decide⟩, by decide,
      ⟨[6, 5, 5, 3, 6], by decide, by decide, by decide⟩, by decide⟩

end Options

end Sm83
