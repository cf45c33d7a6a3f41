import Sm83.Operand

/-!
# Rotations and shifts

A rotation moves every bit of a byte by one place, in a circle of eight bits or in a circle of
nine through the carry flag; a shift moves a zero, or a copy of the sign, into the free place. The
bit that leaves the byte becomes the carry flag. `SWAP` exchanges the nibbles and clears it.

## Main definitions

* `Rotation.result`, `Rotation.carryOut`: the rotated byte and the bit that left it
* `Rotation.apply`: the two together, as result and flags
-/

namespace Sm83

namespace Rotation

/-- The byte after the rotation, given the carry flag before it. -/
def result (op : Rotation) (v : UInt8) (carry : Bool) : UInt8 :=
  match op with
  | rlc => v <<< 1 ||| v >>> 7
  | rrc => v >>> 1 ||| v <<< 7
  | rl => v <<< 1 ||| carry.toUInt8
  | rr => v >>> 1 ||| carry.toUInt8 <<< 7
  | sla => v <<< 1
  | sra => v >>> 1 ||| v &&& 0x80
  | swap => v <<< 4 ||| v >>> 4
  | srl => v >>> 1

/-- The bit that leaves the byte. -/
def carryOut (op : Rotation) (v : UInt8) : Bool :=
  match op with
  | rlc | rl | sla => v &&& 0x80 != 0
  | rrc | rr | sra | srl => v &&& 0x01 != 0
  | swap => false

/-- The rotated byte and the flags: zero and carry, with subtract and half-carry clear. -/
def apply (op : Rotation) (v : UInt8) (carry : Bool) : UInt8 × Flags :=
  let r := op.result v carry
  (r, { zero := r == 0, carry := op.carryOut v })

end Rotation

end Sm83
