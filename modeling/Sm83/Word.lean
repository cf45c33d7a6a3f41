/-!
# Bytes and words

A word of the machine is 16 bits wide and is made of a high and a low byte. In memory and in the
instruction stream the low byte comes first.

## Main definitions

* `hi`, `lo`: the two bytes of a word
* `join`: the word with a given high and low byte
* `wordOfBytes`: the word that a little-endian list of bytes spells
* `withHi`, `withLo`: a word with one of its bytes replaced
* `signExtend`: a byte read as a two's complement displacement
* `addresses`: consecutive addresses

## Main results

* `toNat_join`: a word is `256 * high + low`
* `hi_join`, `lo_join`, `join_hi_lo`: taking a word apart and putting it together are inverse
-/

namespace Sm83

def hi (w : UInt16) : UInt8 := (w >>> 8).toUInt8

def lo (w : UInt16) : UInt8 := w.toUInt8

/-- The word with high byte `h` and low byte `l`. -/
def join (h l : UInt8) : UInt16 := (h.toUInt16 <<< 8) ||| l.toUInt16

/-- The word `w` with its high byte replaced. -/
def withHi (w : UInt16) (h : UInt8) : UInt16 := join h (lo w)

/-- The word `w` with its low byte replaced. -/
def withLo (w : UInt16) (l : UInt8) : UInt16 := join (hi w) l

/-- The word that the first two bytes of a list spell, low byte first; a missing byte is zero. -/
def wordOfBytes : List UInt8 → UInt16
  | [] => 0
  | [l] => join 0 l
  | l :: h :: _ => join h l

/-- A byte read as a two's complement displacement. -/
def signExtend (b : UInt8) : UInt16 := if b < 0x80 then b.toUInt16 else join 0xFF b

/-- So many addresses from `addr` upwards; address zero follows the last one. -/
def addresses (addr : UInt16) : Nat → List UInt16
  | 0 => []
  | n + 1 => addr :: addresses (addr + 1) n

@[simp] theorem length_addresses (addr : UInt16) (n : Nat) : (addresses addr n).length = n := by
  induction n generalizing addr with
  | zero => rfl
  | succ n ih => simp [addresses, ih]

/-- A property of bytes may be checked value by value. -/
theorem forall_byte {p : UInt8 → Prop} (h : ∀ n < 256, p (UInt8.ofNat n)) (b : UInt8) : p b := by
  have hb := h b.toNat b.toNat_lt
  rwa [UInt8.ofNat_toNat] at hb

theorem toNat_hi (w : UInt16) : (hi w).toNat = w.toNat / 256 := by
  have := w.toNat_lt
  simp [hi, Nat.shiftRight_eq_div_pow]
  omega

theorem toNat_lo (w : UInt16) : (lo w).toNat = w.toNat % 256 := by
  simp [lo]

theorem toNat_join (h l : UInt8) : (join h l).toNat = 256 * h.toNat + l.toNat := by
  have hh := h.toNat_lt
  have hl := l.toNat_lt
  have : h.toNat <<< 8 % 65536 = 2 ^ 8 * h.toNat := by
    rw [Nat.shiftLeft_eq]; omega
  simp only [join, UInt16.toNat_or, UInt16.toNat_shiftLeft, UInt8.toNat_toUInt16]
  have e : (8 : UInt16).toNat % 16 = 8 := rfl
  rw [e, this, ← Nat.two_pow_add_eq_or_of_lt hl]

@[simp] theorem hi_join (h l : UInt8) : hi (join h l) = h := by
  have := l.toNat_lt
  apply UInt8.toNat_inj.1
  rw [toNat_hi, toNat_join]
  omega

@[simp] theorem lo_join (h l : UInt8) : lo (join h l) = l := by
  have := l.toNat_lt
  apply UInt8.toNat_inj.1
  rw [toNat_lo, toNat_join]
  omega

@[simp] theorem join_hi_lo (w : UInt16) : join (hi w) (lo w) = w := by
  apply UInt16.toNat_inj.1
  rw [toNat_join, toNat_hi, toNat_lo]
  omega

@[simp] theorem hi_withHi (w : UInt16) (h : UInt8) : hi (withHi w h) = h := hi_join _ _

@[simp] theorem lo_withHi (w : UInt16) (h : UInt8) : lo (withHi w h) = lo w := lo_join _ _

@[simp] theorem hi_withLo (w : UInt16) (l : UInt8) : hi (withLo w l) = hi w := hi_join _ _

@[simp] theorem lo_withLo (w : UInt16) (l : UInt8) : lo (withLo w l) = l := lo_join _ _

@[simp] theorem wordOfBytes_pair (l h : UInt8) (rest : List UInt8) :
    wordOfBytes (l :: h :: rest) = join h l := rfl

@[simp] theorem wordOfBytes_lo_hi (w : UInt16) : wordOfBytes [lo w, hi w] = w := join_hi_lo w

@[simp] theorem lo_wordOfBytes (bytes : List UInt8) : lo (wordOfBytes bytes) = bytes.headD 0 := by
  cases bytes with
  | nil => rfl
  | cons l rest =>
    cases rest with
    | nil => exact lo_join 0 l
    | cons h rest => exact lo_join h l

end Sm83
