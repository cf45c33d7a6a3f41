import Sm83.Proofs.Control
import Sm83.Proofs.Listing

/-!
# What instructions do to the flags

Every operation has a rule for each flag: it keeps the flag, clears it, sets it, or leaves in it
something about its result. Most operations keep all four, and then F as a byte stays as it is. The
rules of an operation do not depend on its operands, and on the flags before it only where a decimal
adjustment follows a subtraction.

## Main definitions

* `FlagChange`: what may happen to a flag
* `FlagRule`: a change for each of the four flags
* `Operation.flagRule`: the rule of an operation

## Main results

* `Operation.byte_f_effect`: an operation that keeps all flags leaves F alone
* `Operation.allows_effect`: every operation obeys its rule
* `Machine.flag_law`: so does every executed instruction
-/

namespace Sm83

/-! ## Rules -/

/-- What may happen to a flag. -/
inductive FlagChange where
  | keep
  | clear
  | set
  | invert
  /-- The flag may be set, but it is not cleared. -/
  | raise
  /-- The flag tells something about the result, or is read from memory. -/
  | free
  deriving DecidableEq

/-- Whether a flag may go from `old` to `new`. -/
def FlagChange.Allows (change : FlagChange) (old new : Bool) : Prop :=
  match change with
  | keep => new = old
  | clear => new = false
  | set => new = true
  | invert => new = !old
  | raise => old = true → new = true
  | free => True

/-- A change for each flag, in the order of the bits of F. -/
structure FlagRule where
  zero : FlagChange
  subtract : FlagChange
  half : FlagChange
  carry : FlagChange
  deriving DecidableEq

namespace FlagRule

/-- All flags are kept. -/
def keepAll : FlagRule := ⟨.keep, .keep, .keep, .keep⟩

/-- Whether the flags may go from `old` to `new`. -/
structure Allows (rule : FlagRule) (old new : Flags) : Prop where
  zero : rule.zero.Allows old.zero new.zero
  subtract : rule.subtract.Allows old.subtract new.subtract
  half : rule.half.Allows old.half new.half
  carry : rule.carry.Allows old.carry new.carry

theorem allows_keepAll (f : Flags) : keepAll.Allows f f := ⟨rfl, rfl, rfl, rfl⟩

end FlagRule

/-! ## The rules of the operations -/

def Arithmetic.flagRule : Arithmetic → FlagRule
  | add | adc => ⟨.free, .clear, .free, .free⟩
  | sub | sbc | cp => ⟨.free, .set, .free, .free⟩
  | and => ⟨.free, .clear, .set, .clear⟩
  | xor | or => ⟨.free, .clear, .clear, .clear⟩

def Rotation.flagRule : Rotation → FlagRule
  | swap => ⟨.free, .clear, .clear, .clear⟩
  | rlc | rrc | rl | rr | sla | sra | srl => ⟨.free, .clear, .clear, .free⟩

/-- The rule of an operation that finds the given flags. -/
def Operation.flagRule (op : Operation) (f : Flags) : FlagRule :=
  match op with
  | alu op _ | aluImm op => op.flagRule
  | inc _ => ⟨.free, .clear, .free, .keep⟩
  | dec _ => ⟨.free, .set, .free, .keep⟩
  -- After a subtraction the carry flag is kept, and it is never cleared.
  | daa => ⟨.free, .keep, .clear, if f.subtract then .keep else .raise⟩
  | cpl => ⟨.keep, .set, .set, .keep⟩
  | scf => ⟨.keep, .clear, .clear, .set⟩
  | ccf => ⟨.keep, .clear, .clear, .invert⟩
  | addHl _ => ⟨.keep, .clear, .free, .free⟩
  | addSp | ldHlSp => ⟨.clear, .clear, .free, .free⟩
  | rotate op _ => op.flagRule
  | rotateA op => { op.flagRule with zero := .clear }
  | bit .. => ⟨.free, .clear, .set, .keep⟩
  | pop .af => ⟨.free, .free, .free, .free⟩
  | ld .. | ldImm _ | storeA _ | loadA _ | ldImm16 _ | storeSp | ldSpHl => .keepAll
  | push _ | pop .bc | pop .de | pop .hl => .keepAll
  | inc16 _ | dec16 _ | res .. | set .. => .keepAll
  | jr _ | jp _ | jpHl | call _ | ret _ | reti | rst _ => .keepAll
  | nop | stop | halt | di | ei | escape | invalid => .keepAll

/-! ## Registers -/

/-- Writes to registers other than F leave F alone. -/
theorem Registers.byte_f_assign {names : List RegisterName}
    (hnames : .byte .f ∉ names ∧ .word .af ∉ names) {a : Assignment} (ha : a.name ∈ names)
    (r : Registers) : (r.assign a).byte .f = r.byte .f := by
  obtain ⟨hf, haf⟩ := hnames
  cases a with
  | byte name v =>
    have hne : name ≠ .f := by
      rintro rfl
      exact hf ha
    rw [assign, byte_setByte, if_neg hne]
  | word name v =>
    cases name with
    | af => exact absurd ha haf
    | bc | de | hl | sp | pc => rfl

theorem Registers.byte_f_setWord_af (r : Registers) (w : UInt16) :
    (r.setWord .af w).byte .f = lo w &&& 0xF0 := UInt16.toUInt8_and _ _

@[simp] theorem Registers.flags_setResult (r : Registers) (result : UInt8 × Flags) :
    (r.setResult result).flags = result.2 := flags_setFlags _ _

@[simp] theorem Registers.flags_setWordResult (r : Registers) (name : WordRegister)
    (result : UInt16 × Flags) : (r.setWordResult name result).flags = result.2 :=
  flags_setFlags _ _

/-- No operand names F. -/
theorem ByteOperand.not_mem_writes (dst : ByteOperand) :
    .byte .f ∉ dst.writes ∧ .word .af ∉ dst.writes := by
  cases dst <;> decide

@[simp] theorem ByteOperand.flags_write (dst : ByteOperand) (r : Registers) (v : UInt8) :
    (dst.write r v).regs.flags = r.flags := by
  have hf : (dst.write r v).regs.byte .f = r.byte .f :=
    dst.regs_write_of_assign (p := fun s => s.byte .f = r.byte .f)
      (fun s a ha hs => (Registers.byte_f_assign dst.not_mem_writes ha s).trans hs) rfl v
  rw [Registers.flags, hf, Registers.flags]

/-! ## Operations -/

theorem Arithmetic.allows_apply (op : Arithmetic) (a v : UInt8) (f : Flags) :
    op.flagRule.Allows f (op.apply a v f).2 := by
  cases op with
  | add | adc | sub | sbc | cp => exact ⟨trivial, rfl, trivial, trivial⟩
  | and | xor | or => exact ⟨trivial, rfl, rfl, rfl⟩

theorem Rotation.allows_apply (op : Rotation) (v : UInt8) (carry : Bool) (f : Flags) :
    op.flagRule.Allows f (op.apply v carry).2 := by
  cases op with
  | swap => exact ⟨trivial, rfl, rfl, rfl⟩
  | rlc | rrc | rl | rr | sla | sra | srl => exact ⟨trivial, rfl, rfl, trivial⟩

theorem allows_decimalAdjust (a : UInt8) (f : Flags) :
    (Operation.daa.flagRule f).Allows f (decimalAdjust a f).2 where
  zero := trivial
  subtract := rfl
  half := rfl
  carry := by
    simp only [Operation.flagRule, decimalAdjust]
    cases f.subtract with
    | true => rfl
    | false => exact fun hc => by simp [hc]

namespace Operation

/-- An operation that keeps all flags does not write F. -/
theorem not_mem_writes_of_keepAll {op : Operation} {f : Flags} (h : op.flagRule f = .keepAll) :
    .byte .f ∉ op.writes ∧ .word .af ∉ op.writes := by
  cases op with
  | ld dst _ | ldImm dst | res _ dst | set _ dst => exact dst.not_mem_writes
  | storeA q | loadA q => cases q <;> decide
  | ldImm16 dst | inc16 dst | dec16 dst => cases dst <;> decide
  | pop dst =>
    cases dst with
    | af => cases h
    | bc | de | hl => decide
  | alu op _ | aluImm op | rotate op _ | rotateA op => cases op <;> cases h
  | inc | dec | daa | cpl | scf | ccf | addHl | addSp | ldHlSp | bit => cases h
  | _ => simp [writes]

/-- **An operation that keeps all flags leaves F alone**, down to its lower nibble. -/
theorem byte_f_effect {op : Operation} {r : Registers} (h : op.flagRule r.flags = .keepAll)
    (operand datum : UInt16) : (op.effect r operand datum).regs.byte .f = r.byte .f := by
  have hnames := not_mem_writes_of_keepAll h
  refine op.regs_effect_of_assign (p := fun s => s.byte .f = r.byte .f) ?_ rfl operand datum
  intro s a ha hs
  rw [Registers.byte_f_assign hnames ha, hs]

/-- **Every operation obeys its rule.** -/
theorem allows_effect (op : Operation) (r : Registers) (operand datum : UInt16) :
    (op.flagRule r.flags).Allows r.flags (op.effect r operand datum).regs.flags := by
  by_cases h : op.flagRule r.flags = .keepAll
  · rw [h, Registers.flags, Registers.flags, byte_f_effect h]
    exact FlagRule.allows_keepAll _
  -- Every other operation but POP AF writes F last, with the flags that it has computed.
  cases op with
  | alu op src | aluImm op =>
    rw [effect, Registers.flags_setResult]
    exact op.allows_apply _ _ _
  | rotate op target =>
    simp only [effect, ByteOperand.flags_write, Registers.flags_setFlags]
    exact op.allows_apply _ _ _
  | rotateA op =>
    simp only [effect, Registers.flags_setResult]
    exact { op.allows_apply r.a r.flags.carry r.flags with zero := rfl }
  | daa =>
    rw [effect, Registers.flags_setResult]
    exact allows_decimalAdjust _ _
  | inc target | dec target =>
    simp only [effect, ByteOperand.flags_write, Registers.flags_setFlags]
    exact ⟨trivial, rfl, trivial, rfl⟩
  | cpl | scf | ccf =>
    simp only [effect, Registers.flags_setResult, Registers.flags_setFlags]
    exact ⟨rfl, rfl, rfl, rfl⟩
  | addHl src =>
    rw [effect, Registers.flags_setWordResult]
    exact ⟨rfl, rfl, trivial, trivial⟩
  | addSp | ldHlSp =>
    rw [effect, Registers.flags_setWordResult]
    exact ⟨rfl, rfl, trivial, trivial⟩
  | bit i src =>
    rw [effect, Registers.flags_setFlags]
    exact ⟨trivial, rfl, rfl, rfl⟩
  | pop dst =>
    cases dst with
    | af => exact ⟨trivial, trivial, trivial, trivial⟩
    | bc | de | hl => exact absurd rfl h
  | _ => exact absurd rfl h

end Operation

/-! ## Machines -/

namespace Machine

variable {σ : Type} (bus : Bus σ) {m : Machine σ}

/-- POP AF reads F, without its lower nibble, from the address in SP. -/
theorem byte_f_nextEffect_of_pop (h : (m.nextInstruction bus).operation = .pop .af) :
    (m.nextEffect bus).regs.byte .f =
      (bus.read m.core.regs.sp (m.ownReads bus (m.nextExecution bus)).2).1 &&& 0xF0 := by
  have hloads : m.nextLoads bus = bus.readAll [m.core.regs.sp, m.core.regs.sp + 1]
      (m.ownReads bus (m.nextExecution bus)).2 := by
    apply nextLoads_of_stackTop
    rw [h]
    rfl
  rw [nextEffect, h, hloads]
  simp only [Operation.effect, StackOperand.register, Registers.byte_f_setWord_af]
  rw [Bus.readAll, lo_wordOfBytes]
  rfl

/-- **The law of flags.** An executed instruction changes the flags as the rule of its operation
allows. If the rule keeps all of them, F stays as it is, and POP AF loads F with the byte that SP
points to, less its lower nibble. -/
theorem flag_law {c : Command} {x : Execution}
    (h : (m.command bus c).result = some (.ok (.executed x))) :
    let before := m.core.regs
    let after := (m.command bus c).machine.core.regs
    let rule := x.instruction.operation.flagRule before.flags
    rule.Allows before.flags after.flags ∧
      (rule = .keepAll → after.byte .f = before.byte .f) ∧
      (x.instruction.operation = .pop .af →
        after.byte .f = (bus.read before.sp (m.ownReads bus x).2).1 &&& 0xF0) := by
  intro before after rule
  obtain ⟨-, -, rfl, hmachine⟩ := executed_of_command bus h
  -- The ticks in flight make no difference to what is fetched and computed.
  let n := m.setBudget 0
  have hafter : after = (n.nextEffect bus).regs := by
    show (m.command bus c).machine.core.regs = _
    rw [hmachine]
    exact n.regs_nextResponse bus
  have hf : (n.fetchedCore bus).regs.byte .f = before.byte .f := by
    rw [regs_fetchedCore]
    rfl
  have hflags : (n.fetchedCore bus).regs.flags = before.flags := congrArg Flags.ofByte hf
  have hallows := (n.nextInstruction bus).operation.allows_effect (n.fetchedCore bus).regs
    (n.nextOperand bus) (wordOfBytes (n.nextLoads bus).1)
  rw [hflags] at hallows
  rw [hafter]
  refine ⟨hallows, ?_, byte_f_nextEffect_of_pop bus⟩
  intro hrule
  rw [← hf]
  exact Operation.byte_f_effect (hflags ▸ hrule) _ _

/-- CCF on the flags of power-on, a load, and POP AF of its own opcode. -/
theorem flag_law_ccf :
    let dmg : Machine Unit := ⟨.powerOn ⟨.dmg, some 0⟩, ()⟩
    let zeroed : Machine Unit := ⟨.powerOn ⟨.zeroed, none⟩, ()⟩
    let ccf := Bus.rom [0x3F]
    let ld := Bus.rom [0x78]
    let pop := Bus.rom [0xF1]
    let x : Execution := ⟨0, ⟨#v[0x3F, 0, 0], 1⟩, lookup 0x3F⟩
    let y : Execution := ⟨0, ⟨#v[0x78, 0, 0], 1⟩, lookup 0x78⟩
    let z : Execution := ⟨0, ⟨#v[0xF1, 0, 0], 1⟩, lookup 0xF1⟩
    (dmg.command ccf .step).result = some (.ok (.executed x)) ∧
      dmg.core.regs.flags = ⟨true, false, true, true⟩ ∧
      (dmg.command ccf .step).machine.core.regs.flags = ⟨true, false, false, false⟩ ∧
      (dmg.command ld .step).result = some (.ok (.executed y)) ∧
      (dmg.command ld .step).machine.core.regs.byte .f = dmg.core.regs.byte .f ∧
      (zeroed.command pop .step).result = some (.ok (.executed z)) ∧
      (zeroed.command pop .step).machine.core.regs.byte .f = 0xF0 := by
  intro dmg zeroed ccf ld pop x y z
  have hx : (dmg.command ccf .step).result = some (.ok (.executed x)) :=
    Reply.execution?_eq_some.1 (by decide +kernel)
  have hy : (dmg.command ld .step).result = some (.ok (.executed y)) :=
    Reply.execution?_eq_some.1 (by decide +kernel)
  have hz : (zeroed.command pop .step).result = some (.ok (.executed z)) :=
    Reply.execution?_eq_some.1 (by decide +kernel)
  have hflags : dmg.core.regs.flags = ⟨true, false, true, true⟩ := by decide
  have hrule : x.instruction.operation.flagRule dmg.core.regs.flags =
      ⟨.keep, .clear, .clear, .invert⟩ := by
    decide +kernel
  have hkeeps : y.instruction.operation.flagRule dmg.core.regs.flags = .keepAll := by
    decide +kernel
  have hpop : z.instruction.operation = .pop .af := by decide +kernel
  obtain ⟨hallows, -, -⟩ := flag_law ccf hx
  rw [hrule, hflags] at hallows
  obtain ⟨hzero, hsubtract, hhalf, hcarry⟩ := hallows
  obtain ⟨-, hld, -⟩ := flag_law ld hy
  obtain ⟨-, -, hf⟩ := flag_law pop hz
  refine ⟨hx, hflags, ?_, hy, hld hkeeps, hz, ?_⟩
  · exact (Flags.mk.injEq ..).mpr ⟨hzero, hsubtract, hhalf, hcarry⟩
  · rw [hf hpop]
    decide +kernel

end Machine

end Sm83
