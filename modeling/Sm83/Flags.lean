import Sm83.Word

/-!
# Condition flags

The flag register holds four flags in its upper nibble; the lower nibble does not exist and reads
as zero. A value of type `Flags` is both the content of that register and a set of flags, so that
several flags can be tested or assigned at once.

## Main definitions

* `Flags`: the four flags
* `Flags.toByte`, `Flags.ofByte`: the register's byte and back
* `Flags.contains`, `Flags.assign`: testing and assigning a set of flags

## Main results

* `Flags.ofByte_toByte`: the byte determines the flags
* `Flags.toByte_ofByte`: reading a byte as flags drops its lower nibble
-/

namespace Sm83

/-- A set of condition flags. -/
structure Flags where
  /-- The result was zero. -/
  zero : Bool := false
  /-- The last addition or subtraction was a subtraction. -/
  subtract : Bool := false
  /-- Carry or borrow out of bit 3, or out of bit 11 of a word. -/
  half : Bool := false
  /-- Carry or borrow out of the top bit, or the bit shifted out. -/
  carry : Bool := false
  deriving DecidableEq, Repr, Inhabited

namespace Flags

def empty : Flags := {}

def z : Flags := { zero := true }

def n : Flags := { subtract := true }

def h : Flags := { half := true }

def c : Flags := { carry := true }

def union (f g : Flags) : Flags :=
  ⟨f.zero || g.zero, f.subtract || g.subtract, f.half || g.half, f.carry || g.carry⟩

def diff (f g : Flags) : Flags :=
  ⟨f.zero && !g.zero, f.subtract && !g.subtract, f.half && !g.half, f.carry && !g.carry⟩

def contains (f g : Flags) : Bool :=
  (f.zero || !g.zero) && (f.subtract || !g.subtract) && (f.half || !g.half) &&
    (f.carry || !g.carry)

/-- The set `f` with every flag of `g` put in or taken out. -/
def assign (f g : Flags) (value : Bool) : Flags := if value then f.union g else f.diff g

/-- The byte of the flag register: zero, subtract, half-carry and carry from bit 7 downwards. -/
def toByte (f : Flags) : UInt8 :=
  (if f.zero then 0x80 else 0) ||| (if f.subtract then 0x40 else 0) |||
    (if f.half then 0x20 else 0) ||| (if f.carry then 0x10 else 0)

/-- The flags of a byte; the lower nibble is ignored. -/
def ofByte (b : UInt8) : Flags :=
  ⟨b &&& 0x80 != 0, b &&& 0x40 != 0, b &&& 0x20 != 0, b &&& 0x10 != 0⟩

@[simp] theorem ofByte_toByte : ∀ f : Flags, ofByte f.toByte = f := by
  rintro ⟨_ | _, _ | _, _ | _, _ | _⟩ <;> rfl

theorem toByte_ofByte (b : UInt8) : (ofByte b).toByte = b &&& 0xF0 := by
  revert b
  exact forall_byte (by decide +kernel)

@[simp] theorem toByte_and_upper (f : Flags) : f.toByte &&& 0xF0 = f.toByte := by
  rw [← toByte_ofByte, ofByte_toByte]

end Flags

end Sm83
