import Sm83.Memory
import Sm83.Proofs.StraightLine

/-!
# Steps on memory

Memory is the plainest bus: to read it changes nothing, and it hears of no event and of no executed
instruction. What a step leaves there is what the effect of its operation stores, and what the step
reads are cells as they were before. So an instruction that overwrites its own bytes still behaves
as it was fetched.

## Main definitions

* `Machine.StepsTo`: the step executes an instruction and leaves given registers and memory

## Main results

* `Memory.bus_readAll`: the bytes read are those of the cells
* `Machine.env_executed`: an executed instruction leaves in memory what it stores
* `Machine.effect_of_execution?`: what a command that executes an instruction leaves
* `Machine.exists_stepsTo`: a step at an opcode of the first table that transfers no control
-/

namespace Sm83

/-- Immediate bytes stand behind an opcode of one byte: the operations of the second table have
none. -/
theorem Operation.opcodeBytes_of_operandBytes_pos {op : Operation} (h : 0 < op.operandBytes) :
    op.opcodeBytes = 1 := by
  cases op with
  | rotate | bit | res | set => exact absurd h (Nat.lt_irrefl 0)
  | _ => rfl

namespace Memory

variable (memory : Memory)

/-- The bytes read are those of the cells, and the memory stays as it is. -/
theorem bus_readAll (addrs : List UInt16) :
    Memory.bus.readAll addrs memory = (addrs.map memory.get, memory) := by
  induction addrs with
  | nil => rfl
  | cons addr addrs ih =>
    rw [Bus.readAll_cons]
    show (_ :: (Memory.bus.readAll addrs memory).1, (Memory.bus.readAll addrs memory).2) = _
    rw [ih]
    rfl

theorem bus_learn (e : Option Event) : Memory.bus.learn e memory = memory := by
  cases e <;> rfl

theorem slice_succ (addr : UInt16) (n : ℕ) :
    memory.slice addr (n + 1) = memory.get addr :: memory.slice (addr + 1) n := rfl

end Memory

namespace Machine

variable {m : Machine Memory}

/-! ## What is fetched, read and stored -/

theorem nextFetch_memory :
    m.nextFetch Memory.bus =
      (m.env.slice m.core.regs.pc (m.nextInstruction Memory.bus).length, m.env) :=
  Memory.bus_readAll _ _

theorem nextLoads_memory :
    m.nextLoads Memory.bus =
      (((m.nextInstruction Memory.bus).operation.loads (m.fetchedCore Memory.bus).regs
        (m.nextOperand Memory.bus)).map m.env.get, m.env) := by
  rw [nextLoads, nextFetch_memory, Memory.bus_readAll]

/-- **An executed instruction leaves in memory what it stores**, and everything else there as it
was. -/
theorem env_executed :
    (m.executed Memory.bus).machine.env =
      Memory.bus.writeAll (m.nextEffect Memory.bus).stores m.env := by
  show Memory.bus.learn _ (Memory.bus.writeAll _ (m.nextLoads Memory.bus).2) = _
  rw [Memory.bus_learn, nextLoads_memory]

/-- The immediate bytes of an executed instruction are the cells behind its opcode. -/
theorem operands_of_execution? {c : Command} {x : Execution}
    (h : (m.command Memory.bus c).execution? = some x)
    (hpos : 0 < x.instruction.operation.operandBytes) :
    x.operands = m.env.slice (x.addr + 1) x.instruction.operation.operandBytes := by
  obtain ⟨-, rfl⟩ := execution?_command Memory.bus h
  let k := m.setBudget 0
  have hopcode : (k.nextInstruction Memory.bus).operation.opcodeBytes = 1 :=
    Operation.opcodeBytes_of_operandBytes_pos hpos
  rw [operands_nextExecution, nextOperands, nextFetch_memory, length_nextInstruction,
    Operation.length, hopcode, Nat.add_comm, Memory.slice_succ]
  rfl

/-! ## What an effect leaves in memory -/

/-- An operation that is carried out leaves what its effect says, given the cells that it reads. -/
theorem perform_memory (op : Operation) (operand : UInt16) (core : Core) (memory : Memory) :
    let e := op.effect core.regs operand (wordOfBytes ((op.loads core.regs operand).map memory.get))
    let after := (perform Memory.bus op operand ⟨core, memory⟩).1
    after.core.regs = e.regs ∧ after.env = Memory.bus.writeAll e.stores memory := by
  intro e after
  have hafter : after = (perform Memory.bus op operand ⟨core, memory⟩).1 := rfl
  rw [perform_eq, Memory.bus_readAll] at hafter
  rw [hafter]
  exact ⟨Core.regs_respond _ _, Memory.bus_learn _ _⟩

/-- **A command that executes an instruction** leaves what the effect of its operation says, given
the registers with the program counter behind the instruction, the immediate bytes and the cells
that it reads. -/
theorem effect_of_execution? {c : Command} {x : Execution}
    (h : (m.command Memory.bus c).execution? = some x) :
    let op := x.instruction.operation
    let r := m.core.regs.jump (x.addr + UInt16.ofNat x.instruction.length)
    let operand := wordOfBytes x.operands
    let e := op.effect r operand (wordOfBytes ((op.loads r operand).map m.env.get))
    let after := (m.command Memory.bus c).machine
    after.core.regs = e.regs ∧ after.env = Memory.bus.writeAll e.stores m.env := by
  intro op r operand e after
  obtain ⟨-, -, rfl, hmachine⟩ :=
    executed_of_command Memory.bus (Reply.execution?_eq_some.1 h)
  let k := m.setBudget 0
  have hregs : (k.fetchedCore Memory.bus).regs = r := regs_fetchedCore Memory.bus k
  have hoperand : k.nextOperand Memory.bus = operand := by
    rw [nextOperand, ← operands_nextExecution]
  have heffect : k.nextEffect Memory.bus = e := by
    rw [nextEffect, nextLoads_memory, hregs, hoperand]
    rfl
  have hafter : after = (k.executed Memory.bus).machine := hmachine
  rw [hafter, env_executed, heffect]
  refine ⟨?_, rfl⟩
  rw [executed, regs_nextResponse, heffect]

/-! ## Steps that go on to the next instruction -/

variable (m) in
/-- The step executes the instruction `x` of `n` bytes in so many ticks. Its bytes are those that
memory held before the step. It leaves the memory `memory` and the registers `regs`, except that the
program counter stands behind the instruction; nothing else of the core changes but the ticks in
flight and the record of the fetch. -/
structure StepsTo (x : Execution) (n ticks : ℕ) (regs : Registers) (memory : Memory) : Prop where
  result : (m.step Memory.bus).result = .ok (.executed x)
  addr : x.addr = m.core.regs.pc
  bytes : x.bytes = m.env.slice m.core.regs.pc n
  core : (m.step Memory.bus).machine.core =
    { m.core with
      regs := regs.jump (m.core.regs.pc + UInt16.ofNat n)
      budget := ticks
      fetched := x.record }
  memory : (m.step Memory.bus).machine.env = memory

variable (m) in
/-- The word that the immediate bytes of an operation of the first table spell. -/
def immediate (op : Operation) : UInt16 :=
  wordOfBytes (m.env.slice (m.core.regs.pc + 1) op.operandBytes)

/-- **A step at an opcode of the first table that transfers no control** does what the effect of the
operation says, given the immediate bytes and the cells that it reads. -/
theorem exists_stepsTo (hm : m.core.mode = .running) (hb : m.core.budget = 0) {op : Operation}
    (hop : decode (m.env.get m.core.regs.pc) = op) (hline : op.IsStraightLine)
    (hescape : op ≠ .escape) {ticks : ℕ} (hticks : op.ticks = ticks) {e : Effect}
    (he : op.effect m.core.regs (m.immediate op)
      (wordOfBytes ((op.loads m.core.regs (m.immediate op)).map m.env.get)) = e) :
    ∃ x, m.StepsTo x op.length ticks e.regs (Memory.bus.writeAll e.stores m.env) := by
  have hfirst : decode (Memory.bus.read m.core.regs.pc m.env).1 = op := hop
  obtain ⟨hnext, hfetch⟩ := fetch_of_decode hfirst hescape
  rw [Memory.bus_readAll] at hfetch
  -- An opcode of the first table is one byte, so the immediate bytes start behind it.
  have hlength : op.length = op.operandBytes + 1 := by
    rw [Operation.length, ← hop, opcodeBytes_decode, Nat.add_comm]
  have hoperand : m.nextOperand Memory.bus = m.immediate op := by
    rw [nextOperand, nextOperands, hfetch, hnext, ← hop, opcodeBytes_decode, hop, hlength]
    rfl
  obtain ⟨x, hx⟩ := exists_performs hm hb hnext hline hfetch hticks rfl rfl rfl
  refine ⟨x, hx.result, hx.addr, hx.bytes_eq, ?_, ?_⟩
  · rw [hx.core, hoperand, Memory.bus_readAll, he, List.length_map, length_addresses]
  · rw [hx.env]
    simp only [hoperand, Memory.bus_readAll, he]
    rfl

end Machine

end Sm83
