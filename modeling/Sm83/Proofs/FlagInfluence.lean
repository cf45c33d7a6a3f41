import Sm83.Proofs.FlagRules
import Sm83.Proofs.Journal

/-!
# What the flags influence

Two cores that differ in some flags do the same, as far as an instruction does not read these flags.
Most instructions read none: they keep or overwrite flags, but what they store, where they go and
what they leave in the other registers does not depend on F. Addition and subtraction with carry and
the rotations through the carry read the carry flag, a conditional transfer reads the one flag that
its condition tests, and only decimal adjustment and PUSH AF read subtract and half-carry.

## Main definitions

* `Flags.AgreeOn`: flags that agree on a set of flags
* `Operation.flagReads`: the flags that an operation reads
* `Registers.Agree`, `Core.Agree`, `Machine.Agree`: registers, cores and machines that differ only
  in flags outside a set

## Main results

* `Operation.agree_effect`: an operation keeps registers in agreement that agree on the flags it
  reads, and stores the same bytes
* `Machine.flag_influence`: so does every executed instruction, and it makes the same calls
-/

namespace Sm83

variable {σ : Type}

/-! ## Sets of flags -/

namespace Flags

/-- Flags that agree on the flags in `s`. -/
structure AgreeOn (s f g : Flags) : Prop where
  zero : s.zero = true → f.zero = g.zero
  subtract : s.subtract = true → f.subtract = g.subtract
  half : s.half = true → f.half = g.half
  carry : s.carry = true → f.carry = g.carry

variable {s t f g : Flags}

theorem AgreeOn.refl (s f : Flags) : s.AgreeOn f f :=
  ⟨fun _ => rfl, fun _ => rfl, fun _ => rfl, fun _ => rfl⟩

/-- Flags that agree on a set agree on every part of it. -/
theorem AgreeOn.of_contains (h : s.AgreeOn f g) (hs : s.contains t = true) : t.AgreeOn f g := by
  simp only [contains, Bool.and_eq_true, Bool.or_eq_true, Bool.not_eq_true'] at hs
  obtain ⟨⟨⟨hz, hn⟩, hh⟩, hc⟩ := hs
  exact
    { zero := fun ht => h.zero (hz.resolve_right (by rw [ht]; decide))
      subtract := fun ht => h.subtract (hn.resolve_right (by rw [ht]; decide))
      half := fun ht => h.half (hh.resolve_right (by rw [ht]; decide))
      carry := fun ht => h.carry (hc.resolve_right (by rw [ht]; decide)) }

end Flags

/-! ## What is read -/

/-- The flag that a condition tests. -/
def Condition.flag : Condition → Flags
  | nz | z => .z
  | nc | c => .c

def Arithmetic.flagReads : Arithmetic → Flags
  | adc | sbc => .c
  | add | sub | and | xor | or | cp => .empty

def Rotation.flagReads : Rotation → Flags
  | rl | rr => .c
  | rlc | rrc | sla | sra | swap | srl => .empty

/-- The flags that an operation reads: all others influence, at most, the flags that it leaves. -/
def Operation.flagReads : Operation → Flags
  | alu op _ | aluImm op => op.flagReads
  | rotate op _ | rotateA op => op.flagReads
  | daa => { subtract := true, half := true, carry := true }
  | push .af => { zero := true, subtract := true, half := true, carry := true }
  | jr (some cc) | jp (some cc) | call (some cc) | ret (some cc) => cc.flag
  | _ => .empty

theorem Condition.holds_congr {cc : Condition} {f g : Flags} (h : cc.flag.AgreeOn f g) :
    cc.holds f = cc.holds g := by
  cases cc with
  | nz => exact congrArg not (h.zero rfl)
  | z => exact h.zero rfl
  | nc => exact congrArg not (h.carry rfl)
  | c => exact h.carry rfl

theorem Arithmetic.apply_congr {op : Arithmetic} {f g : Flags} (h : op.flagReads.AgreeOn f g)
    (a v : UInt8) : op.apply a v f = op.apply a v g := by
  cases op with
  | adc => exact congrArg (addBytes a v) (h.carry rfl)
  | sbc => exact congrArg (subBytes a v) (h.carry rfl)
  | add | sub | and | xor | or | cp => rfl

theorem Rotation.apply_congr {op : Rotation} {f g : Flags} (h : op.flagReads.AgreeOn f g)
    (v : UInt8) : op.apply v f.carry = op.apply v g.carry := by
  cases op with
  | rl | rr => rw [h.carry rfl]
  | rlc | rrc | sla | sra | swap | srl => rfl

theorem Operation.taken_congr {op : Operation} {f g : Flags} (h : op.flagReads.AgreeOn f g) :
    op.taken f = op.taken g := by
  cases op with
  | jr cc | jp cc | call cc | ret cc =>
    cases cc with
    | none => rfl
    | some cc => exact cc.holds_congr h
  | _ => rfl

theorem Operation.penalty_congr {op : Operation} {f g : Flags} (h : op.flagReads.AgreeOn f g) :
    op.penalty f = op.penalty g := by
  rw [penalty, penalty, taken_congr h]

/-- Only decimal adjustment and PUSH AF read subtract and half-carry. -/
theorem Operation.contains_flagReads {op : Operation} (hdaa : op ≠ .daa) (hpush : op ≠ .push .af) :
    ({ zero := true, carry := true } : Flags).contains op.flagReads = true := by
  cases op with
  | alu op _ | aluImm op | rotate op _ | rotateA op => cases op <;> rfl
  | daa => exact absurd rfl hdaa
  | push src =>
    cases src with
    | af => exact absurd rfl hpush
    | bc | de | hl => rfl
  | jr cc | jp cc | call cc | ret cc =>
    cases cc with
    | none => rfl
    | some cc => cases cc <;> rfl
  | _ => rfl

/-! ## Registers that agree -/

/-- Registers that differ only in flags outside `s`. -/
structure Registers.Agree (s : Flags) (r q : Registers) : Prop where
  a : r.a = q.a
  bc : r.bc = q.bc
  de : r.de = q.de
  hl : r.hl = q.hl
  sp : r.sp = q.sp
  pc : r.pc = q.pc
  flags : s.AgreeOn r.flags q.flags

theorem Registers.flags_setByte {name : ByteRegister} (hn : name ≠ .f) (r : Registers)
    (v : UInt8) : (r.setByte name v).flags = r.flags := by
  rw [flags, byte_setByte, if_neg hn, flags]

namespace Registers.Agree

variable {s : Flags} {r q : Registers}

theorem byte (h : r.Agree s q) {name : ByteRegister} (hn : name ≠ .f) :
    r.byte name = q.byte name := by
  cases name with
  | a => exact h.a
  | f => exact absurd rfl hn
  | b => exact congrArg hi h.bc
  | c => exact congrArg lo h.bc
  | d => exact congrArg hi h.de
  | e => exact congrArg lo h.de
  | h => exact congrArg hi h.hl
  | l => exact congrArg lo h.hl

theorem word (h : r.Agree s q) {name : WordRegister} (hn : name ≠ .af) :
    r.word name = q.word name := by
  cases name with
  | af => exact absurd rfl hn
  | bc => exact h.bc
  | de => exact h.de
  | hl => exact h.hl
  | sp => exact h.sp
  | pc => exact h.pc

theorem setByte (h : r.Agree s q) {name : ByteRegister} (hn : name ≠ .f) (v : UInt8) :
    (r.setByte name v).Agree s (q.setByte name v) := by
  have hflags : s.AgreeOn (r.setByte name v).flags (q.setByte name v).flags := by
    rw [flags_setByte hn, flags_setByte hn]
    exact h.flags
  cases name with
  | a => exact { h with a := (hi_withHi r.af v).trans (hi_withHi q.af v).symm, flags := hflags }
  | f => exact absurd rfl hn
  | b => exact { h with bc := congrArg (withHi · v) h.bc }
  | c => exact { h with bc := congrArg (withLo · v) h.bc }
  | d => exact { h with de := congrArg (withHi · v) h.de }
  | e => exact { h with de := congrArg (withLo · v) h.de }
  | h => exact { h with hl := congrArg (withHi · v) h.hl }
  | l => exact { h with hl := congrArg (withLo · v) h.hl }

theorem setFlags (h : r.Agree s q) {f g : Flags} (hf : s.AgreeOn f g) :
    (r.setFlags f).Agree s (q.setFlags g) :=
  { h with
    a := by rw [a_setFlags, a_setFlags, h.a]
    flags := by rw [flags_setFlags, flags_setFlags]; exact hf }

/-- A word write, also one to AF, which then overwrites all flags. -/
theorem setWord (h : r.Agree s q) (name : WordRegister) (v : UInt16) :
    (r.setWord name v).Agree s (q.setWord name v) := by
  cases name with
  | af => exact { h with a := rfl, flags := .refl s _ }
  | bc => exact { h with bc := rfl }
  | de => exact { h with de := rfl }
  | hl => exact { h with hl := rfl }
  | sp => exact { h with sp := rfl }
  | pc => exact { h with pc := rfl }

theorem setResult (h : r.Agree s q) {x y : UInt8 × Flags} (hv : x.1 = y.1)
    (hf : s.AgreeOn x.2 y.2) : (r.setResult x).Agree s (q.setResult y) := by
  rw [Registers.setResult, Registers.setResult, hv]
  exact (h.setByte (by decide) y.1).setFlags hf

theorem setWordResult (h : r.Agree s q) (name : WordRegister) {x y : UInt16 × Flags}
    (hv : x.1 = y.1) (hf : s.AgreeOn x.2 y.2) :
    (r.setWordResult name x).Agree s (q.setWordResult name y) := by
  rw [Registers.setWordResult, Registers.setWordResult, hv]
  exact (h.setWord name y.1).setFlags hf

end Registers.Agree

/-! ## Operations -/

/-- Effects whose registers differ only in flags outside `s`. -/
structure Effect.Agree (s : Flags) (e d : Effect) : Prop where
  regs : e.regs.Agree s d.regs
  stores : e.stores = d.stores

theorem ByteOperand.ne_f_of_register? {operand : ByteOperand} {name : ByteRegister}
    (h : operand.register? = some name) : name ≠ .f := by
  rintro rfl
  cases operand <;> cases h

namespace Registers.Agree

variable {s : Flags} {r q : Registers}

theorem value_eq (h : r.Agree s q) (src : ByteOperand) (datum : UInt8) :
    src.value r datum = src.value q datum := by
  unfold ByteOperand.value
  cases hsrc : src.register? with
  | none => rfl
  | some name => exact h.byte (ByteOperand.ne_f_of_register? hsrc)

theorem byteLoads_eq (h : r.Agree s q) (src : ByteOperand) : src.loads r = src.loads q := by
  rw [ByteOperand.loads, ByteOperand.loads, h.hl]

theorem write (h : r.Agree s q) (dst : ByteOperand) (v : UInt8) :
    (dst.write r v).Agree s (dst.write q v) := by
  unfold ByteOperand.write
  cases hdst : dst.register? with
  | none => exact ⟨h, congrArg (fun addr => [(addr, v)]) h.hl⟩
  | some name => exact ⟨h.setByte (ByteOperand.ne_f_of_register? hdst) v, rfl⟩

theorem address_eq (h : r.Agree s q) (p : Pointer) (operand : UInt16) :
    p.address r operand = p.address q operand := by
  cases p with
  | bc => exact h.bc
  | de => exact h.de
  | hlInc | hlDec => exact h.hl
  | highC => exact congrArg (join 0xFF) (h.byte (by decide))
  | highImm | absolute => rfl

theorem advance (h : r.Agree s q) (p : Pointer) : (p.advance r).Agree s (p.advance q) := by
  cases p with
  | hlInc | hlDec =>
    simp only [Pointer.advance, h.hl]
    exact h.setWord .hl _
  | bc | de | highImm | highC | absolute => exact h

theorem jump (h : r.Agree s q) (target : UInt16) : (r.jump target).Agree s (q.jump target) :=
  h.setWord .pc target

theorem dropWord (h : r.Agree s q) : (Sm83.dropWord r).Agree s (Sm83.dropWord q) := by
  rw [Sm83.dropWord, Sm83.dropWord, h.sp]
  exact h.setWord .sp _

theorem stackTop_eq (h : r.Agree s q) : stackTop r = stackTop q := by
  rw [stackTop, stackTop, h.sp]

theorem pushWord (h : r.Agree s q) (w : UInt16) :
    (Sm83.pushWord r w).Agree s (Sm83.pushWord q w) := by
  simp only [Sm83.pushWord, h.sp]
  exact ⟨h.setWord .sp _, rfl⟩

theorem callTo (h : r.Agree s q) (target : UInt16) :
    (Sm83.callTo r target).Agree s (Sm83.callTo q target) := by
  have hpush := h.pushWord q.pc
  simp only [Sm83.callTo, h.pc]
  exact ⟨hpush.regs.jump target, hpush.stores⟩

end Registers.Agree

theorem agreeOn_increment {s f g : Flags} (h : s.AgreeOn f g) (v : UInt8) :
    s.AgreeOn (increment v f).2 (increment v g).2 :=
  { h with zero := fun _ => rfl, subtract := fun _ => rfl, half := fun _ => rfl }

theorem agreeOn_decrement {s f g : Flags} (h : s.AgreeOn f g) (v : UInt8) :
    s.AgreeOn (decrement v f).2 (decrement v g).2 :=
  { h with zero := fun _ => rfl, subtract := fun _ => rfl, half := fun _ => rfl }

/-- A decimal adjustment reads all flags but zero, which it overwrites. -/
theorem decimalAdjust_congr {f g : Flags} (h : Operation.daa.flagReads.AgreeOn f g) (a : UInt8) :
    decimalAdjust a f = decimalAdjust a g := by
  obtain ⟨-, hn, hh, hc⟩ := h
  simp only [decimalAdjust, hn rfl, hh rfl, hc rfl]

namespace Operation

variable {op : Operation} {s : Flags} {r q : Registers}

theorem loads_congr (h : r.Agree s q) (hs : s.contains op.flagReads = true) (operand : UInt16) :
    op.loads r operand = op.loads q operand := by
  cases op with
  | ld _ src | alu _ src | bit _ src => exact h.byteLoads_eq src
  | inc target | dec target | rotate _ target | res _ target | set _ target =>
    exact h.byteLoads_eq target
  | loadA p => exact congrArg (fun addr => [addr]) (h.address_eq p operand)
  | pop _ | reti => exact h.stackTop_eq
  | ret cc =>
    rw [loads, loads, taken_congr (h.flags.of_contains hs), h.stackTop_eq]
  | _ => rfl

/-- **An operation keeps registers in agreement** that agree on the flags it reads, and stores the
same bytes at the same addresses. PUSH AF is left out: it stores F as a byte. -/
theorem agree_effect (h : r.Agree s q) (hs : s.contains op.flagReads = true)
    (hop : op ≠ .push .af) (operand datum : UInt16) :
    (op.effect r operand datum).Agree s (op.effect q operand datum) := by
  have hread := h.flags.of_contains hs
  cases op with
  | nop | escape | invalid | stop | halt | di | ei => exact ⟨h, rfl⟩
  | ld dst src =>
    simp only [effect, h.value_eq src]
    exact h.write dst _
  | ldImm dst => exact h.write dst _
  | storeA p =>
    refine ⟨h.advance p, ?_⟩
    simp only [effect, h.address_eq p, h.a]
  | loadA p =>
    have ha : ByteRegister.a ≠ .f := by decide
    exact ⟨(h.advance p).setByte ha _, rfl⟩
  | ldImm16 dst => exact ⟨h.setWord _ _, rfl⟩
  | storeSp =>
    refine ⟨h, ?_⟩
    simp only [effect, h.sp]
  | ldSpHl =>
    simp only [effect, h.hl]
    exact ⟨h.setWord .sp _, rfl⟩
  | ldHlSp | addSp =>
    simp only [effect, h.sp]
    exact ⟨h.setWordResult _ rfl (.refl s _), rfl⟩
  | push src =>
    have hne : src.register ≠ .af := by
      cases src with
      | af => exact absurd rfl hop
      | bc | de | hl => decide
    simp only [effect, h.word hne]
    exact h.pushWord _
  | pop dst => exact ⟨h.dropWord.setWord _ _, rfl⟩
  | alu op src =>
    simp only [effect, h.a, h.value_eq src, op.apply_congr hread]
    exact ⟨h.setResult rfl (.refl s _), rfl⟩
  | aluImm op =>
    simp only [effect, h.a, op.apply_congr hread]
    exact ⟨h.setResult rfl (.refl s _), rfl⟩
  | inc target =>
    simp only [effect, h.value_eq target]
    exact (h.setFlags (agreeOn_increment h.flags _)).write target _
  | dec target =>
    simp only [effect, h.value_eq target]
    exact (h.setFlags (agreeOn_decrement h.flags _)).write target _
  | daa =>
    simp only [effect, h.a, decimalAdjust_congr hread]
    exact ⟨h.setResult rfl (.refl s _), rfl⟩
  | cpl =>
    simp only [effect, h.a]
    refine ⟨h.setResult rfl ?_, rfl⟩
    exact { h.flags with subtract := fun _ => rfl, half := fun _ => rfl }
  | scf =>
    refine ⟨h.setFlags ?_, rfl⟩
    exact { h.flags with
      subtract := fun _ => rfl, half := fun _ => rfl, carry := fun _ => rfl }
  | ccf =>
    -- The carry flag is inverted: it is read, and yet influences nothing but itself.
    refine ⟨h.setFlags ?_, rfl⟩
    exact { h.flags with
      subtract := fun _ => rfl, half := fun _ => rfl
      carry := fun hc => congrArg not (h.flags.carry hc) }
  | inc16 target | dec16 target =>
    have hne : target.register ≠ .af := by cases target <;> decide
    simp only [effect, h.word hne]
    exact ⟨h.setWord _ _, rfl⟩
  | addHl src =>
    have hne : src.register ≠ .af := by cases src <;> decide
    simp only [effect, h.hl, h.word hne]
    refine ⟨h.setWordResult .hl rfl ?_, rfl⟩
    exact { h.flags with
      subtract := fun _ => rfl, half := fun _ => rfl, carry := fun _ => rfl }
  | rotateA op =>
    simp only [effect, h.a, op.apply_congr hread]
    exact ⟨h.setResult rfl (.refl s _), rfl⟩
  | rotate op target =>
    simp only [effect, h.value_eq target, op.apply_congr hread]
    exact (h.setFlags (.refl s _)).write target _
  | bit i src =>
    simp only [effect, h.value_eq src]
    refine ⟨h.setFlags ?_, rfl⟩
    exact { h.flags with
      zero := fun _ => rfl, subtract := fun _ => rfl, half := fun _ => rfl }
  | res i target | set i target =>
    simp only [effect, h.value_eq target]
    exact h.write target _
  | jr cc =>
    simp only [effect, taken_congr hread, h.pc]
    split
    · exact ⟨h.jump _, rfl⟩
    · exact ⟨h, rfl⟩
  | jp cc =>
    simp only [effect, taken_congr hread]
    split
    · exact ⟨h.jump _, rfl⟩
    · exact ⟨h, rfl⟩
  | jpHl =>
    simp only [effect, h.hl]
    exact ⟨h.jump _, rfl⟩
  | call cc =>
    simp only [effect, taken_congr hread]
    split
    · exact h.callTo _
    · exact ⟨h, rfl⟩
  | ret cc =>
    simp only [effect, taken_congr hread]
    split
    · exact ⟨h.dropWord.jump _, rfl⟩
    · exact ⟨h, rfl⟩
  | reti => exact ⟨h.dropWord.jump _, rfl⟩
  | rst n => exact h.callTo _

end Operation

/-! ## Cores and machines that agree -/

/-- Cores that differ only in flags outside `s`. -/
structure Core.Agree (s : Flags) (c d : Core) : Prop where
  regs : c.regs.Agree s d.regs
  budget : c.budget = d.budget
  mode : c.mode = d.mode
  interrupts : c.interrupts = d.interrupts
  config : c.config = d.config
  fetched : c.fetched = d.fetched

/-- Machines whose cores differ only in flags outside `s`; with `s` empty, they may differ in all
of F, and in nothing else. -/
structure Machine.Agree (s : Flags) (m n : Machine σ) : Prop where
  core : m.core.Agree s n.core
  env : m.env = n.env

namespace Core.Agree

variable {s : Flags} {c d : Core}

theorem fetchAll (h : c.Agree s d) (bytes : List UInt8) :
    (c.fetchAll bytes).Agree s (d.fetchAll bytes) := by
  rw [fetchAll_eq, fetchAll_eq, h.regs.pc, h.fetched]
  exact { h with regs := h.regs.jump _, fetched := rfl }

theorem respond (h : c.Agree s d) (e : Option Event) :
    (c.respond e).1.Agree s (d.respond e).1 := by
  cases e with
  | none => exact h
  | some e =>
    cases e with
    | interruptsEnabled | interruptsDisabled => exact { h with interrupts := rfl }
    | halted | stopped => exact { h with mode := rfl }
    | lockedUp => exact { h with budget := rfl, mode := rfl }

end Core.Agree

namespace Machine.Agree

variable {s : Flags} {m n : Machine σ} (bus : Bus σ)

/-! ### The next instruction

What is fetched depends on the program counter and the bus alone. What the instruction loads, and
its effect, depend on the flags that it reads. -/

theorem nextInstruction_eq (h : m.Agree s n) : m.nextInstruction bus = n.nextInstruction bus := by
  have hpc := h.core.regs.pc
  have henv := h.env
  by_cases he : (bus.read n.core.regs.pc n.env).1 = escapeByte
  · rw [nextInstruction_of_escape bus he, nextInstruction_of_escape bus (by rw [hpc, henv, he]),
      hpc, henv]
  · rw [nextInstruction_of_ne_escape bus he,
      nextInstruction_of_ne_escape bus (by rw [hpc, henv]; exact he), hpc, henv]

theorem nextFetch_eq (h : m.Agree s n) : m.nextFetch bus = n.nextFetch bus := by
  rw [nextFetch, nextFetch, h.nextInstruction_eq, h.core.regs.pc, h.env]

theorem nextOperand_eq (h : m.Agree s n) : m.nextOperand bus = n.nextOperand bus := by
  rw [nextOperand, nextOperand, nextOperands, nextOperands, h.nextInstruction_eq, h.nextFetch_eq]

theorem fetchedCore (h : m.Agree s n) : (m.fetchedCore bus).Agree s (n.fetchedCore bus) := by
  have hbegin : m.core.beginFetch.Agree s n.core.beginFetch :=
    { h.core with fetched := congrArg FetchRecord.restart h.core.fetched }
  rw [Machine.fetchedCore, Machine.fetchedCore, h.nextInstruction_eq, h.nextFetch_eq]
  exact { hbegin.fetchAll _ with budget := rfl }

theorem nextExecution_eq (h : m.Agree s n) : m.nextExecution bus = n.nextExecution bus := by
  rw [nextExecution, nextExecution, h.core.regs.pc, (h.fetchedCore bus).fetched,
    h.nextInstruction_eq]

variable (hs : s.contains (n.nextInstruction bus).operation.flagReads = true)
include hs

theorem nextLoads_eq (h : m.Agree s n) : m.nextLoads bus = n.nextLoads bus := by
  rw [nextLoads, nextLoads, h.nextInstruction_eq, h.nextOperand_eq, h.nextFetch_eq,
    Operation.loads_congr (h.fetchedCore bus).regs hs]

theorem nextTicks_eq (h : m.Agree s n) : m.nextTicks bus = n.nextTicks bus := by
  rw [nextTicks, nextTicks, h.nextInstruction_eq,
    Operation.penalty_congr (h.core.regs.flags.of_contains hs)]

variable (hop : (n.nextInstruction bus).operation ≠ .push .af)
include hop

theorem nextEffect (h : m.Agree s n) : (m.nextEffect bus).Agree s (n.nextEffect bus) := by
  rw [Machine.nextEffect, Machine.nextEffect, h.nextInstruction_eq, h.nextOperand_eq,
    h.nextLoads_eq bus hs]
  exact Operation.agree_effect (h.fetchedCore bus).regs hs hop _ _

theorem nextResponse (h : m.Agree s n) : (m.nextResponse bus).1.Agree s (n.nextResponse bus).1 := by
  rw [Machine.nextResponse, Machine.nextResponse, h.nextInstruction_eq, h.nextTicks_eq bus hs]
  refine Core.Agree.respond ?_ _
  exact { h.fetchedCore bus with regs := (h.nextEffect bus hs hop).regs, budget := rfl }

/-- **An instruction that does not read the flags in which machines differ** leaves them with no
other difference. -/
theorem executed (h : m.Agree s n) :
    (m.executed bus).machine.Agree s (n.executed bus).machine where
  core := h.nextResponse bus hs hop
  env := by
    simp only [Machine.executed, h.nextExecution_eq, h.nextInstruction_eq,
      (h.nextEffect bus hs hop).stores, h.nextLoads_eq bus hs]

theorem nextCalls_eq (h : m.Agree s n) : m.nextCalls bus = n.nextCalls bus := by
  simp only [nextCalls, h.nextInstruction_eq, h.nextFetch_eq, h.nextOperand_eq,
    h.nextLoads_eq bus hs, h.nextExecution_eq, h.core.regs.pc,
    Operation.loads_congr (h.fetchedCore bus).regs hs, (h.nextEffect bus hs hop).stores]

end Machine.Agree

namespace Machine

variable (bus : Bus σ) {m n : Machine σ} {s : Flags}

/-- **The law of flag influence.** Let two machines on one bus differ only in flags outside `s`, and
let a step of the first execute an instruction. Then a step of the second executes the same one. If
the flags that the instruction reads are in `s`, and it is not PUSH AF, both steps make the same
calls, and afterwards the machines again differ only in flags outside `s`. No instruction but
decimal adjustment and PUSH AF reads subtract or half-carry. -/
theorem flag_influence (h : m.Agree s n) {x : Execution}
    (hx : (m.step bus).result = .ok (.executed x)) :
    let op := x.instruction.operation
    (n.step bus).result = .ok (.executed x) ∧
      (op ≠ .push .af → s.contains op.flagReads = true →
        m.calls bus [.step] = n.calls bus [.step] ∧
          (m.step bus).machine.Agree s (n.step bus).machine) ∧
      (op ≠ .daa → op ≠ .push .af →
        ({ zero := true, carry := true } : Flags).contains op.flagReads = true) := by
  intro op
  obtain ⟨hm, hb, hi, rfl, hstep⟩ := executed_of_step bus hx
  -- The other core is about to fetch as well, and finds the same instruction.
  have hm' : n.core.mode = .running := h.core.mode ▸ hm
  have hb' : n.core.budget = 0 := h.core.budget ▸ hb
  have hi' : (n.nextInstruction bus).isValid = true := h.nextInstruction_eq bus ▸ hi
  have hstep' : n.step bus = n.executed bus :=
    (step_of_running bus hm' hb').trans (executeNext_of_isValid bus n hi')
  have hop : op = (n.nextInstruction bus).operation :=
    congrArg Instruction.operation (h.nextInstruction_eq bus)
  refine ⟨?_, fun hpush hs => ⟨?_, ?_⟩, Operation.contains_flagReads⟩
  · rw [hstep', h.nextExecution_eq]
    rfl
  · rw [calls_step_of_isValid bus hm hb hi, calls_step_of_isValid bus hm' hb' hi']
    exact h.nextCalls_eq bus (hop ▸ hs) (hop ▸ hpush)
  · rw [hstep, hstep']
    exact h.executed bus (hop ▸ hs) (hop ▸ hpush)

/-- ADC on cores that agree on the carry flag and on no other flag. -/
theorem flag_influence_adc :
    let bus := Bus.rom [0x8F]
    let m : Machine Unit := ⟨.powerOn ⟨.dmg, some 0⟩, ()⟩
    let n : Machine Unit := m.mapCore fun core =>
      { core with regs := core.regs.setFlags { subtract := true, carry := true } }
    let x : Execution := ⟨0, ⟨#v[0x8F, 0, 0], 1⟩, lookup 0x8F⟩
    m.Agree .c n ∧ m.core.regs.flags = { zero := true, half := true, carry := true } ∧
      (m.step bus).result = .ok (.executed x) ∧
      (n.step bus).result = .ok (.executed x) ∧
      m.calls bus [.step] = n.calls bus [.step] ∧
      (n.step bus).machine.core.regs.a = 3 := by
  intro bus m n x
  have hagree : m.Agree .c n := by
    refine ⟨⟨⟨?_, rfl, rfl, rfl, rfl, rfl, ?_⟩, rfl, rfl, rfl, rfl, rfl⟩, rfl⟩
    · decide
    · exact ⟨nofun, nofun, nofun, fun _ => by decide⟩
  have hx : (m.step bus).result = .ok (.executed x) :=
    StepResult.execution?_eq_some.1 (by decide +kernel)
  have hop : x.instruction.operation = .alu .adc .a := by decide +kernel
  obtain ⟨hresult, hlaw, -⟩ := flag_influence bus hagree hx
  obtain ⟨hcalls, hafter⟩ := hlaw (by rw [hop]; decide) (by rw [hop]; decide)
  refine ⟨hagree, by decide, hx, hresult, hcalls, ?_⟩
  rw [← hafter.core.regs.a]
  decide +kernel

end Machine

end Sm83
