/-!
# Numerals

Numbers on the command line: digits of a base, with an optional plus sign in front, up to a bound.
A numeral is read from left to right and the first problem is reported; where one character is no
digit and the value before it is already at the bound, it is the character that is reported.

## Main definitions

* `digitValue?`: the value of a digit in a base
* `Numeral.parse`: the value of a numeral
* `NumeralError`: why a text is not a numeral
-/

namespace Sm83

/-- Why a text is not a numeral within its bound. -/
inductive NumeralError where
  | empty
  | invalidDigit
  | tooLarge
  deriving DecidableEq

/-- The message of an error. -/
def NumeralError.message : NumeralError → String
  | empty => "cannot parse integer from empty string"
  | invalidDigit => "invalid digit found in string"
  | tooLarge => "number too large to fit in target type"

/-- The value of a digit below thirty-six, in either case of its letter. -/
def alphanumericValue? (c : Char) : Option Nat :=
  if '0' ≤ c ∧ c ≤ '9' then some (c.toNat - 48)
  else if 'a' ≤ c ∧ c ≤ 'z' then some (c.toNat - 87)
  else if 'A' ≤ c ∧ c ≤ 'Z' then some (c.toNat - 55)
  else none

/-- The value of a digit in a base. -/
def digitValue? (base : Nat) (c : Char) : Option Nat :=
  (alphanumericValue? c).filter (· < base)

namespace Numeral

/-- The value of digits that follow a value already read. -/
def accumulate (base bound : Nat) : Nat → List Char → Except NumeralError Nat
  | value, [] => .ok value
  | value, c :: rest =>
    match digitValue? base c with
    -- The character is judged before the value, so that it is blamed first.
    | none => .error .invalidDigit
    | some d =>
      if value * base + d ≤ bound then accumulate base bound (value * base + d) rest
      else .error .tooLarge

/-- The value of a numeral: an optional plus sign and at least one digit. -/
def parse (base bound : Nat) : List Char → Except NumeralError Nat
  | [] => .error .empty
  -- A sign alone is not empty: it is a character that is no digit.
  | ['+'] => .error .invalidDigit
  | '+' :: rest => accumulate base bound 0 rest
  | text => accumulate base bound 0 text

end Numeral

/-- The value of an address: hexadecimal behind `0x` or a dollar sign, and decimal otherwise. -/
def parseAddress (text : String) : Except NumeralError UInt16 :=
  let parsed :=
    match text.toList with
    | '0' :: 'x' :: digits => Numeral.parse 16 0xFFFF digits
    | '$' :: digits => Numeral.parse 16 0xFFFF digits
    | digits => Numeral.parse 10 0xFFFF digits
  parsed.map UInt16.ofNat

/-- The value of a tick count: a decimal number of at most 64 bits. -/
def parseTicks (text : String) : Except NumeralError Nat :=
  Numeral.parse 10 (UInt64.size - 1) text.toList

end Sm83
