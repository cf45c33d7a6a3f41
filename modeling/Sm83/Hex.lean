import Sm83.Word

/-!
# Hexadecimal text

Addresses, opcodes and operands are written with upper-case hexadecimal digits at a fixed width:
two digits for a byte, four for a word.

## Main definitions

* `Hex.digit`: one digit
* `Hex.byte`, `Hex.word`: the digits of a byte and of a word
* `hexByte`, `hexWord`: the same as text
* `Hex.digits`, `Hex.text`: the last digits of a number, as many as asked for, and as text

## Main results

* `Hex.isDigit_digit`: every digit written is `0` to `9` or `A` to `F`
* `hexByte_eq_text`, `hexWord_eq_text`: a byte is written in two digits and a word in four
-/

namespace Sm83

namespace Hex

/-- The digit for a value below sixteen. -/
def digit (n : Nat) : Char := Char.ofNat (if n < 10 then 48 + n else 55 + n)

/-- The two digits of a byte, high nibble first. -/
def byte (b : UInt8) : List Char := [digit (b.toNat / 16), digit (b.toNat % 16)]

def word (w : UInt16) : List Char := byte (hi w) ++ byte (lo w)

/-- The characters used as digits. -/
def IsDigit (c : Char) : Prop := c ∈ ['0', '1', '2', '3', '4', '5', '6', '7', '8', '9',
  'A', 'B', 'C', 'D', 'E', 'F']

theorem isDigit_digit {n : Nat} (h : n < 16) : IsDigit (digit n) := by
  have all : ∀ m < 16, digit m ∈ ['0', '1', '2', '3', '4', '5', '6', '7', '8', '9',
    'A', 'B', 'C', 'D', 'E', 'F'] := by decide
  exact all n h

theorem isDigit_of_mem_byte {b : UInt8} {c : Char} (h : c ∈ byte b) : IsDigit c := by
  have := b.toNat_lt
  simp only [byte, List.mem_cons, List.not_mem_nil, or_false] at h
  rcases h with rfl | rfl <;> exact isDigit_digit (by omega)

theorem isDigit_of_mem_word {w : UInt16} {c : Char} (h : c ∈ word w) : IsDigit c :=
  (List.mem_append.1 h).elim isDigit_of_mem_byte isDigit_of_mem_byte

/-- The last `width` hexadecimal digits of a number. -/
def digits : Nat → Nat → List Char
  | 0, _ => []
  | width + 1, n =>
    digits width (n / 16) ++ [['0', '1', '2', '3', '4', '5', '6', '7', '8', '9',
      'A', 'B', 'C', 'D', 'E', 'F'].getD (n % 16) '0']

theorem digits_succ (width n : Nat) :
    digits (width + 1) n = digits width (n / 16) ++ [digit (n % 16)] := by
  have hdigit : ∀ m < 16, ['0', '1', '2', '3', '4', '5', '6', '7', '8', '9',
      'A', 'B', 'C', 'D', 'E', 'F'].getD m '0' = digit m := by decide
  rw [digits, hdigit _ (Nat.mod_lt n (by decide))]

theorem digits_byte (b : UInt8) : digits 2 b.toNat = byte b := by
  have hb := b.toNat_lt
  have hhigh : b.toNat / 16 % 16 = b.toNat / 16 := by omega
  rw [digits_succ, digits_succ, hhigh]
  rfl

theorem digits_word (w : UInt16) : digits 4 w.toNat = word w := by
  have hw := w.toNat_lt
  have hlow : digits 2 (w.toNat / 256) = byte (hi w) := by rw [← digits_byte, toNat_hi]
  have hfirst : w.toNat / 16 / 16 = w.toNat / 256 := by omega
  have hthird : w.toNat / 16 % 16 = w.toNat % 256 / 16 := by omega
  have hfourth : w.toNat % 16 = w.toNat % 256 % 16 := by omega
  rw [digits_succ, digits_succ, hfirst, hlow, hthird, hfourth, word, byte, byte, toNat_lo]
  rfl

/-- The last `width` hexadecimal digits of a number, as text. -/
def text (width n : Nat) : String := String.ofList (digits width n)

end Hex

/-- The two hexadecimal digits of a byte, as text. -/
def hexByte (b : UInt8) : String := String.ofList (Hex.byte b)

/-- The four hexadecimal digits of a word, as text. -/
def hexWord (w : UInt16) : String := String.ofList (Hex.word w)

theorem hexByte_eq_text (b : UInt8) : hexByte b = Hex.text 2 b.toNat :=
  congrArg String.ofList (Hex.digits_byte b).symm

theorem hexWord_eq_text (w : UInt16) : hexWord w = Hex.text 4 w.toNat :=
  congrArg String.ofList (Hex.digits_word w).symm

end Sm83
