import Sm83.Flags
import Sm83.Word

/-!
# The register file

Six words: the pairs AF, BC, DE and HL, whose halves are registers of their own, the stack
pointer and the program counter. A half and its pair are two views of one word, so a write through
one is seen through the other. The lower nibble of F does not exist: every way to write F drops it.

## Main definitions

* `ByteRegister`, `WordRegister`: the names of the registers
* `Registers`: their contents
* `Registers.byte`, `Registers.setByte`: the byte view
* `Registers.word`, `Registers.setWord`: the word view
* `Registers.flags`, `Registers.setFlags`: F as condition flags

## Main results

* `Registers.byte_setByte`: a byte write is read back by its own register and by no other
* `Registers.flags_setFlags`: the flags read back as written
-/

namespace Sm83

/-- The names of the eight byte registers. -/
inductive ByteRegister where
  | a | f | b | c | d | e | h | l
  deriving DecidableEq

/-- The names of the six word registers. -/
inductive WordRegister where
  | af | bc | de | hl | sp | pc
  deriving DecidableEq

/-- The contents of the register file. -/
structure Registers where
  af : UInt16 := 0
  bc : UInt16 := 0
  de : UInt16 := 0
  hl : UInt16 := 0
  /-- The stack pointer: the address of the word pushed last. -/
  sp : UInt16 := 0
  /-- The program counter: the address of the next byte to fetch. -/
  pc : UInt16 := 0
  deriving DecidableEq, Inhabited

namespace Registers

/-- The content of a byte register. -/
def byte (r : Registers) : ByteRegister → UInt8
  | .a => hi r.af
  | .f => lo r.af
  | .b => hi r.bc
  | .c => lo r.bc
  | .d => hi r.de
  | .e => lo r.de
  | .h => hi r.hl
  | .l => lo r.hl

/-- The register file after a write to a byte register; F keeps its upper nibble only. -/
def setByte (r : Registers) (name : ByteRegister) (v : UInt8) : Registers :=
  match name with
  | .a => { r with af := withHi r.af v }
  | .f => { r with af := withLo r.af (v &&& 0xF0) }
  | .b => { r with bc := withHi r.bc v }
  | .c => { r with bc := withLo r.bc v }
  | .d => { r with de := withHi r.de v }
  | .e => { r with de := withLo r.de v }
  | .h => { r with hl := withHi r.hl v }
  | .l => { r with hl := withLo r.hl v }

/-- The content of a word register. -/
def word (r : Registers) : WordRegister → UInt16
  | .af => r.af
  | .bc => r.bc
  | .de => r.de
  | .hl => r.hl
  | .sp => r.sp
  | .pc => r.pc

/-- The register file after a write to a word register; AF drops the lower nibble of F. -/
def setWord (r : Registers) (name : WordRegister) (v : UInt16) : Registers :=
  match name with
  -- The same nibble is dropped as by a write to F.
  | .af => { r with af := v &&& 0xFFF0 }
  | .bc => { r with bc := v }
  | .de => { r with de := v }
  | .hl => { r with hl := v }
  | .sp => { r with sp := v }
  | .pc => { r with pc := v }

/-- The accumulator. -/
def a (r : Registers) : UInt8 := r.byte .a

/-- The condition flags held in F. -/
def flags (r : Registers) : Flags := .ofByte (r.byte .f)

/-- The register file with F holding exactly the given flags. -/
def setFlags (r : Registers) (f : Flags) : Registers := r.setByte .f f.toByte

/-- The registers after a jump. -/
def jump (r : Registers) (target : UInt16) : Registers := r.setWord .pc target

/-- A byte write is read back by its own register, F without its lower nibble, and leaves every
other byte register alone. -/
theorem byte_setByte (r : Registers) (x y : ByteRegister) (v : UInt8) :
    (r.setByte x v).byte y = if x = y then (if x = .f then v &&& 0xF0 else v) else r.byte y := by
  cases x <;> cases y <;> simp [byte, setByte]

@[simp] theorem sp_setByte (r : Registers) (x : ByteRegister) (v : UInt8) :
    (r.setByte x v).sp = r.sp := by cases x <;> rfl

@[simp] theorem pc_setByte (r : Registers) (x : ByteRegister) (v : UInt8) :
    (r.setByte x v).pc = r.pc := by cases x <;> rfl

theorem word_setWord_self (r : Registers) (x : WordRegister) (v : UInt16) :
    (r.setWord x v).word x = if x = .af then v &&& 0xFFF0 else v := by
  cases x <;> rfl

theorem word_setWord_of_ne (r : Registers) {x y : WordRegister} (v : UInt16) (hxy : x ≠ y) :
    (r.setWord x v).word y = r.word y := by
  cases x <;> cases y <;> simp_all [word, setWord]

@[simp] theorem flags_setFlags (r : Registers) (f : Flags) : (r.setFlags f).flags = f := by
  simp [flags, setFlags, byte_setByte]

@[simp] theorem a_setFlags (r : Registers) (f : Flags) : (r.setFlags f).a = r.a := by
  simp [a, setFlags, byte_setByte]

end Registers

end Sm83
