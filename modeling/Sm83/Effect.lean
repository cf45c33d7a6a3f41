import Sm83.Arithmetic
import Sm83.Operation
import Sm83.Rotation
import Sm83.Mode

/-!
# Effects

What an operation does once its immediate bytes have been fetched. It first reads memory at the
addresses given by `Operation.loads`. From the registers, the immediate bytes and the bytes read,
`Operation.effect` then determines the new registers, the bytes to store and the event to announce.
Both take the immediate bytes, and the bytes read, as the word that they spell.

## Main definitions

* `Effect`: new registers, stores and an event
* `Operation.loads`: the addresses that an operation reads
* `Operation.effect`: the effect of an operation

## Main results

* `Operation.length_loads_le`, `Operation.length_stores_le`: at most two reads and two stores
-/

namespace Sm83

/-- What an operation does to the registers, to memory and to the bus. -/
structure Effect where
  regs : Registers
  /-- The bytes to store, in order. -/
  stores : List (UInt16 × UInt8) := []
  /-- The event to announce. -/
  event : Option Event := none

/-! ## Operands -/

namespace ByteOperand

/-- The address to read for the operand, if it is in memory. -/
def loads (src : ByteOperand) (r : Registers) : List UInt16 :=
  if src = atHL then [r.hl] else []

/-- The value of the operand, given the byte read for it. -/
def value (src : ByteOperand) (r : Registers) (datum : UInt8) : UInt8 :=
  match src.register? with
  | some name => r.byte name
  | none => datum

/-- The effect of writing the operand. -/
def write (dst : ByteOperand) (r : Registers) (v : UInt8) : Effect :=
  match dst.register? with
  | some name => { regs := r.setByte name v }
  | none => { regs := r, stores := [(r.hl, v)] }

end ByteOperand

namespace Pointer

/-- The address of the cell. -/
def address (p : Pointer) (r : Registers) (operand : UInt16) : UInt16 :=
  match p with
  | bc => r.bc
  | de => r.de
  | hlInc | hlDec => r.hl
  | highImm => join 0xFF (lo operand)
  | highC => join 0xFF (r.byte .c)
  | absolute => operand

/-- The registers after the access. -/
def advance (p : Pointer) (r : Registers) : Registers :=
  match p with
  | hlInc => r.setWord .hl (r.hl + 1)
  | hlDec => r.setWord .hl (r.hl - 1)
  | _ => r

end Pointer

namespace Registers

/-- The registers with a result in the accumulator and its flags in F. -/
def setResult (r : Registers) (result : UInt8 × Flags) : Registers :=
  (r.setByte .a result.1).setFlags result.2

/-- The registers with a result in a word register and its flags in F. -/
def setWordResult (r : Registers) (name : WordRegister) (result : UInt16 × Flags) : Registers :=
  (r.setWord name result.1).setFlags result.2

end Registers

/-! ## The stack -/

/-- The addresses of the word on top of the stack, low byte first. -/
def stackTop (r : Registers) : List UInt16 := [r.sp, r.sp + 1]

/-- The effect of pushing a word: the stack grows downwards, and the high byte is stored first. -/
def pushWord (r : Registers) (w : UInt16) : Effect where
  regs := r.setWord .sp (r.sp - 2)
  stores := [(r.sp - 1, hi w), (r.sp - 2, lo w)]

/-- The registers after the word on top of the stack has been taken off. -/
def dropWord (r : Registers) : Registers := r.setWord .sp (r.sp + 2)

/-- The effect of a call: the address of the next instruction is pushed. -/
def callTo (r : Registers) (target : UInt16) : Effect :=
  let e := pushWord r r.pc
  { e with regs := e.regs.jump target }

/-! ## Operations

The registers that `loads` and `effect` are given are those after the fetch, so the program counter
is already at the next instruction: a relative jump counts from there, and a call pushes it. -/

namespace Operation

/-- The addresses that an operation reads, in order, beyond its own bytes. -/
def loads (op : Operation) (r : Registers) (operand : UInt16) : List UInt16 :=
  match op with
  | ld _ src | alu _ src | bit _ src => src.loads r
  | inc target | dec target | rotate _ target | res _ target | set _ target => target.loads r
  | loadA p => [p.address r operand]
  | pop _ | reti => stackTop r
  | ret _ => if op.taken r.flags then stackTop r else []
  | _ => []

/-- The effect of an operation, given the registers after its bytes have been fetched, its
immediate bytes and the bytes read at `loads`. -/
def effect (op : Operation) (r : Registers) (operand datum : UInt16) : Effect :=
  match op with
  | nop | escape | invalid => { regs := r }
  | stop => { regs := r, event := some .stopped }
  | halt => { regs := r, event := some .halted }
  | di => { regs := r, event := some .interruptsDisabled }
  | ei => { regs := r, event := some .interruptsEnabled }
  | ld dst src => dst.write r (src.value r (lo datum))
  | ldImm dst => dst.write r (lo operand)
  | storeA p => { regs := p.advance r, stores := [(p.address r operand, r.a)] }
  | loadA p => { regs := (p.advance r).setByte .a (lo datum) }
  | ldImm16 dst => { regs := r.setWord dst.register operand }
  | storeSp => { regs := r, stores := [(operand, lo r.sp), (operand + 1, hi r.sp)] }
  | ldSpHl => { regs := r.setWord .sp r.hl }
  | ldHlSp => { regs := r.setWordResult .hl (addOffset r.sp (lo operand)) }
  | push src => pushWord r (r.word src.register)
  | pop dst => { regs := (dropWord r).setWord dst.register datum }
  | alu op src => { regs := r.setResult (op.apply r.a (src.value r (lo datum)) r.flags) }
  | aluImm op => { regs := r.setResult (op.apply r.a (lo operand) r.flags) }
  -- The flags are set before the result is written, which keeps F: no operand names it.
  | inc target =>
    let (v, f) := increment (target.value r (lo datum)) r.flags
    target.write (r.setFlags f) v
  | dec target =>
    let (v, f) := decrement (target.value r (lo datum)) r.flags
    target.write (r.setFlags f) v
  | daa => { regs := r.setResult (decimalAdjust r.a r.flags) }
  | cpl => { regs := r.setResult (~~~r.a, { r.flags with subtract := true, half := true }) }
  | scf =>
    { regs := r.setFlags { r.flags with subtract := false, half := false, carry := true } }
  | ccf =>
    { regs := r.setFlags
        { r.flags with subtract := false, half := false, carry := !r.flags.carry } }
  | inc16 target => { regs := r.setWord target.register (r.word target.register + 1) }
  | dec16 target => { regs := r.setWord target.register (r.word target.register - 1) }
  | addHl src => { regs := r.setWordResult .hl (addWords r.hl (r.word src.register) r.flags) }
  | addSp => { regs := r.setWordResult .sp (addOffset r.sp (lo operand)) }
  -- The short forms for the accumulator clear the zero flag, whatever the result.
  | rotateA op =>
    let (v, f) := op.apply r.a r.flags.carry
    { regs := r.setResult (v, { f with zero := false }) }
  | jr _ => { regs := if op.taken r.flags then r.jump (r.pc + signExtend (lo operand)) else r }
  | jp _ => { regs := if op.taken r.flags then r.jump operand else r }
  | jpHl => { regs := r.jump r.hl }
  -- A branch that is not taken changes nothing: its operand has been fetched all the same.
  | call _ => if op.taken r.flags then callTo r operand else { regs := r }
  | ret _ => { regs := if op.taken r.flags then (dropWord r).jump datum else r }
  | reti => { regs := (dropWord r).jump datum, event := some .interruptsEnabled }
  | rst n => callTo r (restartAddress n).toUInt16
  | rotate op target =>
    let (v, f) := op.apply (target.value r (lo datum)) r.flags.carry
    target.write (r.setFlags f) v
  | bit i src => { regs := r.setFlags (testBit i (src.value r (lo datum)) r.flags) }
  | res i target => target.write r (clearBit i (target.value r (lo datum)))
  | set i target => target.write r (setBit i (target.value r (lo datum)))

theorem length_loads_le (op : Operation) (r : Registers) (operand : UInt16) :
    (op.loads r operand).length ≤ 2 := by
  have byte (src : ByteOperand) : (src.loads r).length ≤ 2 := by
    unfold ByteOperand.loads
    split <;> simp
  cases op with
  | ld _ src | alu _ src | bit _ src => exact byte src
  | inc target | dec target | rotate _ target | res _ target | set _ target => exact byte target
  | ret cc =>
    simp only [loads, stackTop]
    split <;> simp
  | _ => simp [loads, stackTop]

theorem length_stores_le (op : Operation) (r : Registers) (operand datum : UInt16) :
    (op.effect r operand datum).stores.length ≤ 2 := by
  have byte (dst : ByteOperand) (r : Registers) (v : UInt8) :
      (dst.write r v).stores.length ≤ 2 := by
    unfold ByteOperand.write
    split <;> simp
  cases op with
  | ld dst _ | ldImm dst => exact byte dst _ _
  | inc target | dec target | rotate _ target | res _ target | set _ target => exact byte target _ _
  | call cc =>
    simp only [effect, callTo, pushWord]
    split <;> simp
  | _ => simp [effect, pushWord, callTo]

end Operation

end Sm83
