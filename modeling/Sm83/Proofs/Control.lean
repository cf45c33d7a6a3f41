import Sm83.Proofs.Dispatch
import Sm83.Proofs.Frame

/-!
# Control transfers and costs

Where an executed instruction leaves the program counter, and what it costs. The core moves the
program counter with every byte that it fetches, and a transfer starts from where the fetch has left
it; stated from the outside, every instruction ends at its address plus its length, and a taken
transfer at an address that its bytes, the registers before the step or the stack determine.

## Main definitions

* `Machine.ownReads`: the reads that fetch an executed instruction
* `Machine.pcAfter`: the program counter after an executed instruction
* `Machine.extraTicks`: the ticks that a taken conditional transfer adds

## Main results

* `Operation.pc_effect`: what an operation does to the program counter
* `Operation.effect_of_not_taken`: a branch that is not taken does nothing
* `Machine.control_law`: the program counter and the ticks after every executed instruction
-/

namespace Sm83

/-! ## Restarts -/

/-- The opcode of a restart carries its number in bits 3 to 5. -/
theorem eq_row_of_decode_eq_rst (b : UInt8) : ∀ n, decode b = .rst n → n = row b := by
  revert b
  exact forall_byte (by decide +kernel)

theorem restartAddress_eq (n : Fin 8) :
    (restartAddress n).toUInt16 = UInt16.ofNat (8 * n.val) := by
  revert n
  decide

/-! ## Operations -/

namespace Operation

theorem taken_eq (op : Operation) (f : Flags) : op.taken f = op.condition?.all (·.holds f) := by
  unfold taken
  cases op.condition? <;> rfl

/-- Only transfers charge a penalty. -/
theorem penalty_of_not_isTransfer {op : Operation} (h : op.isTransfer = false) (f : Flags) :
    op.penalty f = 0 := by
  cases op with
  | jr | jp | call | ret => cases h
  | _ => exact ite_self 0

/-- What an operation does to the program counter, which stands behind its bytes before. -/
theorem pc_effect (op : Operation) (r : Registers) (operand datum : UInt16) :
    (op.effect r operand datum).regs.pc =
      match op with
      | jr cc => if cc.all (·.holds r.flags) then r.pc + signExtend (lo operand) else r.pc
      | jp cc | call cc => if cc.all (·.holds r.flags) then operand else r.pc
      | jpHl => r.hl
      | rst n => (restartAddress n).toUInt16
      | ret cc => if cc.all (·.holds r.flags) then datum else r.pc
      | reti => datum
      | _ => r.pc := by
  cases op with
  | jr cc | jp cc | call cc | ret cc =>
    simp only [effect, taken_eq, condition?]
    split <;> rfl
  | jpHl | reti | rst => rfl
  | _ => exact pc_effect_of_not_isTransfer rfl r operand datum

/-- **A branch that is not taken does nothing.** -/
theorem effect_of_not_taken {op : Operation} {r : Registers} (h : op.taken r.flags = false)
    (operand datum : UInt16) :
    op.effect r operand datum = { regs := r } ∧ op.loads r operand = [] ∧ op.event? = none := by
  cases op with
  | jr cc | jp cc | call cc | ret cc => simp [effect, loads, event?, h]
  | _ => cases h

end Operation

/-! ## Machines -/

namespace Machine

variable {σ : Type} (bus : Bus σ) (m : Machine σ)

/-- The reads that fetch an executed instruction: its bytes, and the state of the bus after them. -/
def ownReads (x : Execution) : List UInt8 × σ :=
  bus.readAll (addresses x.addr x.instruction.length) m.env

/-- The program counter after an executed instruction. -/
def pcAfter (x : Execution) : UInt16 :=
  let next := x.addr + UInt16.ofNat x.instruction.length
  let target := wordOfBytes x.operands
  let stacked := wordOfBytes
    (bus.readAll [m.core.regs.sp, m.core.regs.sp + 1] (m.ownReads bus x).2).1
  match x.instruction.operation with
  | .jr cc =>
    if cc.all (·.holds m.core.regs.flags) then x.addr + 2 + signExtend (x.operands.headD 0)
    else next
  | .jp cc | .call cc => if cc.all (·.holds m.core.regs.flags) then target else next
  | .jpHl => m.core.regs.hl
  | .rst _ => UInt16.ofNat (8 * (row (x.bytes.headD 0)).val)
  | .ret cc => if cc.all (·.holds m.core.regs.flags) then stacked else next
  | .reti => stacked
  | _ => next

/-- The ticks that a taken conditional transfer adds. -/
def extraTicks (x : Execution) : Nat :=
  match x.instruction.operation with
  | .jr (some cc) | .jp (some cc) => if cc.holds m.core.regs.flags then 4 else 0
  | .call (some cc) | .ret (some cc) => if cc.holds m.core.regs.flags then 12 else 0
  | _ => 0

theorem length_nextInstruction_of_jr {cc : Option Condition}
    (h : (m.nextInstruction bus).operation = .jr cc) : (m.nextInstruction bus).length = 2 := by
  rw [length_nextInstruction, h]
  rfl

/-- The opcode of a restart is its first byte. -/
theorem eq_row_of_nextInstruction_eq_rst {n : Fin 8}
    (h : (m.nextInstruction bus).operation = .rst n) :
    n = row ((m.nextFetch bus).1.headD 0) := by
  obtain ⟨opcode, operands, -, hi, hb⟩ := nextFetch_of_not_isExtended bus (by rw [h]; rfl)
  rw [hi, lookup_operation] at h
  rw [hb]
  exact eq_row_of_decode_eq_rst opcode n h

theorem nextLoads_of_stackTop
    (h : (m.nextInstruction bus).operation.loads (m.fetchedCore bus).regs (m.nextOperand bus) =
      stackTop (m.fetchedCore bus).regs) :
    m.nextLoads bus =
      bus.readAll [m.core.regs.sp, m.core.regs.sp + 1]
        (m.ownReads bus (m.nextExecution bus)).2 := by
  rw [nextLoads, h, regs_fetchedCore]
  rfl

theorem pc_nextEffect : (m.nextEffect bus).regs.pc = m.pcAfter bus (m.nextExecution bus) := by
  have hpc : (m.fetchedCore bus).regs.pc =
      m.core.regs.pc + UInt16.ofNat (m.nextInstruction bus).length := by
    rw [regs_fetchedCore]
    rfl
  have hi : (m.nextExecution bus).instruction = m.nextInstruction bus := rfl
  have haddr : (m.nextExecution bus).addr = m.core.regs.pc := rfl
  rw [nextEffect, Operation.pc_effect, flags_fetchedCore, hpc]
  simp only [pcAfter, hi, haddr, operands_nextExecution, bytes_nextExecution]
  cases hop : (m.nextInstruction bus).operation with
  | jr cc =>
    simp only [nextOperand, lo_wordOfBytes, length_nextInstruction_of_jr bus m hop]
    rfl
  | jpHl =>
    simp only [regs_fetchedCore]
    rfl
  | rst n =>
    simp only [restartAddress_eq, ← eq_row_of_nextInstruction_eq_rst bus m hop]
  | ret cc =>
    simp only
    split
    · rename_i ht
      rw [nextLoads_of_stackTop]
      rw [hop, Operation.loads, Operation.taken_eq, flags_fetchedCore]
      exact if_pos ht
    · rfl
  | reti =>
    simp only
    rw [nextLoads_of_stackTop]
    rw [hop]
    rfl
  | _ => rfl

theorem nextTicks_eq :
    m.nextTicks bus = (m.nextInstruction bus).ticks + m.extraTicks (m.nextExecution bus) := by
  have hi : (m.nextExecution bus).instruction = m.nextInstruction bus := rfl
  rw [nextTicks, extraTicks, hi]
  cases (m.nextInstruction bus).operation with
  | jr cc | jp cc | call cc | ret cc => cases cc <;> rfl
  | _ => rfl

/-- A branch that is not taken leaves everything to the fetch. -/
theorem executed_of_not_taken
    (h : (m.nextInstruction bus).operation.taken m.core.regs.flags = false) :
    (m.executed bus).machine.core.regs = (m.fetchedCore bus).regs ∧
      (m.executed bus).machine.env =
        bus.executed (m.nextExecution bus) (m.ownReads bus (m.nextExecution bus)).2 := by
  rw [← flags_fetchedCore bus] at h
  have hnone (operand datum : UInt16) := Operation.effect_of_not_taken h operand datum
  obtain ⟨heffect, hloads, hevent⟩ := hnone (m.nextOperand bus) (wordOfBytes (m.nextLoads bus).1)
  refine ⟨?_, ?_⟩
  · rw [executed, regs_nextResponse, nextEffect, heffect]
  · rw [executed, nextEffect, heffect, hevent, nextLoads, hloads]
    rfl

variable {m}

/-- **The law of control.** An executed instruction leaves the program counter at the next
instruction, or, if it is a taken transfer, at its target, and costs its ticks and what a taken
conditional transfer adds. A conditional transfer that is not taken moves the program counter and
changes no other register, and the bus answers the reads of its own bytes and nothing else. -/
theorem control_law {x : Execution} (h : (m.step bus).result = .ok (.executed x)) :
    x.addr = m.core.regs.pc ∧
      (m.step bus).machine.core.regs.pc = m.pcAfter bus x ∧
      (m.step bus).machine.core.budget = x.instruction.ticks + m.extraTicks x ∧
      ∀ cc, x.instruction.operation.condition? = some cc → cc.holds m.core.regs.flags = false →
        (m.step bus).machine.core.regs =
            m.core.regs.jump (x.addr + UInt16.ofNat x.instruction.length) ∧
          (m.step bus).machine.env = bus.executed x (m.ownReads bus x).2 := by
  obtain ⟨-, -, -, rfl, hs⟩ := executed_of_step bus h
  refine ⟨rfl, ?_, ?_, ?_⟩
  · rw [hs, executed, regs_nextResponse, pc_nextEffect]
  · rw [hs, executed, budget_nextResponse, nextTicks_eq]
    rfl
  · intro cc hcc hfails
    have htaken : (m.nextInstruction bus).operation.taken m.core.regs.flags = false := by
      rw [Operation.taken_eq, show (m.nextInstruction bus).operation.condition? = some cc from hcc]
      exact hfails
    obtain ⟨hregs, henv⟩ := executed_of_not_taken bus m htaken
    rw [hs, hregs, henv, regs_fetchedCore]
    exact ⟨rfl, rfl⟩

/-- A relative jump on zero, with the flag clear, and one on its being clear. -/
theorem control_law_jr :
    let m : Machine Unit := ⟨.powerOn ⟨.zeroed, none⟩, ()⟩
    let fails := Bus.rom [0x28, 0xFE]
    let holds := Bus.rom [0x20, 0xFE]
    let x : Execution := ⟨0, ⟨#v[0x28, 0xFE, 0], 2⟩, lookup 0x28⟩
    let y : Execution := ⟨0, ⟨#v[0x20, 0xFE, 0], 2⟩, lookup 0x20⟩
    (m.step fails).result = .ok (.executed x) ∧
      x.instruction.operation.condition? = some .z ∧
      Condition.z.holds m.core.regs.flags = false ∧
      (m.step fails).machine.core.regs = m.core.regs.jump 2 ∧
      (m.step holds).result = .ok (.executed y) ∧
      (m.step holds).machine.core.regs.pc = 0 ∧
      (m.step holds).machine.core.budget = 12 := by
  intro m fails holds x y
  have hx : (m.step fails).result = .ok (.executed x) :=
    StepResult.execution?_eq_some.1 (by decide +kernel)
  have hy : (m.step holds).result = .ok (.executed y) :=
    StepResult.execution?_eq_some.1 (by decide +kernel)
  have hcc : x.instruction.operation.condition? = some .z := by decide +kernel
  have hz : Condition.z.holds m.core.regs.flags = false := by decide
  obtain ⟨-, -, -, hfails⟩ := control_law fails hx
  obtain ⟨-, hpc, hbudget, -⟩ := control_law holds hy
  refine ⟨hx, hcc, hz, ?_, hy, ?_, ?_⟩
  · rw [(hfails .z hcc hz).1]
    decide +kernel
  · rw [hpc]
    decide +kernel
  · rw [hbudget]
    decide +kernel

end Machine

end Sm83
