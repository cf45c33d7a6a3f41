import Sm83.Command

/-!
# What operations write

An operation writes the registers that its operands name, F if it sets flags, the stack pointer if
it uses the stack, and the program counter if it transfers control. All other registers stay as
they are, and whatever holds of the registers before an operation holds afterwards if the writes to
those registers preserve it.

## Main definitions

* `RegisterName`: a register of either width
* `Operation.writes`: the registers that an operation may write
* `Operation.isTransfer`: whether an operation may transfer control

## Main results

* `Operation.regs_effect_of_assign`: what the register writes of an operation preserve, the
  operation preserves
* `Operation.pc_effect_of_not_isTransfer`: only transfers write the program counter
-/

namespace Sm83

/-- The name of a register of either width. -/
inductive RegisterName where
  | byte (name : ByteRegister)
  | word (name : WordRegister)
  deriving DecidableEq

def Assignment.name : Assignment → RegisterName
  | byte name _ => .byte name
  | word name _ => .word name

/-- The register that the operand is, if it is one. -/
def ByteOperand.writes (dst : ByteOperand) : List RegisterName := dst.register?.toList.map .byte

/-- The register that an access through the pointer moves. -/
def Pointer.writes : Pointer → List RegisterName
  | hlInc | hlDec => [.word .hl]
  | _ => []

namespace Operation

/-- The registers that an operation may write. -/
def writes : Operation → List RegisterName
  | nop | escape | invalid | stop | halt | di | ei | storeSp => []
  | ld dst _ | ldImm dst | res _ dst | set _ dst => dst.writes
  | inc dst | dec dst | rotate _ dst => .byte .f :: dst.writes
  | storeA p => p.writes
  | loadA p => .byte .a :: p.writes
  | ldImm16 dst | inc16 dst | dec16 dst => [.word dst.register]
  | ldSpHl | push _ => [.word .sp]
  | pop dst => [.word .sp, .word dst.register]
  | alu _ _ | aluImm _ | daa | cpl | rotateA _ => [.byte .a, .byte .f]
  | scf | ccf | bit _ _ => [.byte .f]
  | ldHlSp | addHl _ => [.word .hl, .byte .f]
  | addSp => [.word .sp, .byte .f]
  | jr _ | jp _ | jpHl => [.word .pc]
  | call _ | ret _ | reti | rst _ => [.word .sp, .word .pc]

/-- Whether an operation may transfer control. -/
def isTransfer : Operation → Bool
  | jr _ | jp _ | jpHl | call _ | ret _ | reti | rst _ => true
  | _ => false

end Operation

/-! ## The frame of an operation -/

section Frame

variable {p : Registers → Prop}

theorem ByteOperand.regs_write_of_assign (dst : ByteOperand)
    (hp : ∀ (r : Registers) (a : Assignment), a.name ∈ dst.writes → p r → p (r.assign a))
    {r : Registers} (h : p r) (v : UInt8) : p (dst.write r v).regs := by
  unfold write
  cases hd : dst.register? with
  | none => exact h
  | some name =>
    have hn : (Assignment.byte name v).name ∈ dst.writes := by
      rw [writes, hd]
      exact List.mem_singleton_self _
    exact hp r _ hn h

theorem Pointer.advance_of_assign (q : Pointer)
    (hp : ∀ (r : Registers) (a : Assignment), a.name ∈ q.writes → p r → p (r.assign a))
    {r : Registers} (h : p r) : p (q.advance r) := by
  cases q with
  | hlInc | hlDec => exact hp r (.word .hl _) (List.mem_singleton_self _) h
  | bc | de | highImm | highC | absolute => exact h

/-- **What the register writes of an operation preserve, the operation preserves.** -/
theorem Operation.regs_effect_of_assign (op : Operation)
    (hp : ∀ (r : Registers) (a : Assignment), a.name ∈ op.writes → p r → p (r.assign a))
    {r : Registers} (h : p r) (operand datum : UInt16) : p (op.effect r operand datum).regs := by
  have byte (name : ByteRegister) (hn : .byte name ∈ op.writes) (v : UInt8) {r : Registers}
      (h : p r) : p (r.setByte name v) := hp r (.byte name v) hn h
  have word (name : WordRegister) (hn : .word name ∈ op.writes) (v : UInt16) {r : Registers}
      (h : p r) : p (r.setWord name v) := hp r (.word name v) hn h
  cases op with
  | nop | escape | invalid | stop | halt | di | ei | storeSp => exact h
  | ld dst _ | ldImm dst | res _ dst | set _ dst => exact dst.regs_write_of_assign hp h _
  | inc dst | dec dst | rotate _ dst =>
    exact dst.regs_write_of_assign (fun r a ha => hp r a (List.mem_cons_of_mem _ ha))
      (byte .f List.mem_cons_self _ h) _
  | storeA q => exact q.advance_of_assign hp h
  | loadA q =>
    exact byte .a List.mem_cons_self _
      (q.advance_of_assign (fun r a ha => hp r a (List.mem_cons_of_mem _ ha)) h)
  | ldImm16 dst | inc16 dst | dec16 dst => exact word dst.register List.mem_cons_self _ h
  | ldSpHl | push _ => exact word .sp List.mem_cons_self _ h
  | jpHl => exact word .pc List.mem_cons_self _ h
  | pop dst =>
    exact word dst.register (List.mem_cons_of_mem _ List.mem_cons_self) _
      (word .sp List.mem_cons_self _ h)
  | alu _ _ | aluImm _ | daa | cpl | rotateA _ =>
    exact byte .f (List.mem_cons_of_mem _ List.mem_cons_self) _ (byte .a List.mem_cons_self _ h)
  | scf | ccf | bit _ _ => exact byte .f List.mem_cons_self _ h
  | ldHlSp | addHl _ =>
    exact byte .f (List.mem_cons_of_mem _ List.mem_cons_self) _ (word .hl List.mem_cons_self _ h)
  | addSp =>
    exact byte .f (List.mem_cons_of_mem _ List.mem_cons_self) _ (word .sp List.mem_cons_self _ h)
  | reti | rst _ =>
    exact word .pc (List.mem_cons_of_mem _ List.mem_cons_self) _ (word .sp List.mem_cons_self _ h)
  -- A branch that is not taken writes nothing.
  | jr _ | jp _ =>
    simp only [effect]
    split
    · exact word .pc List.mem_cons_self _ h
    · exact h
  | call _ | ret _ =>
    simp only [effect]
    split
    · exact word .pc (List.mem_cons_of_mem _ List.mem_cons_self) _
        (word .sp List.mem_cons_self _ h)
    · exact h

end Frame

/-! ## The program counter -/

theorem Registers.pc_assign {r : Registers} {a : Assignment} (h : a.name ≠ .word .pc) :
    (r.assign a).pc = r.pc := by
  cases a with
  | byte name v => exact r.pc_setByte name v
  | word name v =>
    cases name with
    | pc => exact absurd rfl h
    | af | bc | de | hl | sp => rfl

namespace Operation

theorem pc_mem_writes_iff (op : Operation) : .word .pc ∈ op.writes ↔ op.isTransfer = true := by
  have byte (dst : ByteOperand) : .word .pc ∉ dst.writes := by
    cases dst <;> decide
  cases op with
  | ld dst _ | ldImm dst | res _ dst | set _ dst | inc dst | dec dst | rotate _ dst =>
    simp [writes, isTransfer, byte]
  | storeA q | loadA q => cases q <;> decide
  | ldImm16 dst | inc16 dst | dec16 dst | pop dst => cases dst <;> decide
  | _ => simp [writes, isTransfer]

theorem pc_effect_of_not_isTransfer {op : Operation} (h : op.isTransfer = false) (r : Registers)
    (operand datum : UInt16) : (op.effect r operand datum).regs.pc = r.pc := by
  refine op.regs_effect_of_assign (p := fun s => s.pc = r.pc) ?_ rfl operand datum
  intro s a ha hs
  rw [Registers.pc_assign, hs]
  intro hpc
  rw [hpc, pc_mem_writes_iff, h] at ha
  cases ha

end Operation

end Sm83
