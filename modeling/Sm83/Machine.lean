import Sm83.Bus
import Sm83.Catalog
import Sm83.Core
import Sm83.Effect

/-!
# The machine

A core attached to a bus. The unit of time is the tick: a step counts down the ticks of the
instruction in flight, or, when none are left, fetches the next instruction and executes it at
once. An instruction is executed in phases: its own bytes are fetched, then memory is read, then
the registers change and bytes are stored, and last an event may be announced.

## Main definitions

* `Machine σ`: a core and the state of its bus
* `Machine.fetchInstruction`, `Machine.execute?`: the phases of an instruction
* `Machine.executeNext`: all phases of the next instruction
* `Machine.step`: one tick
* `Machine.stepInstruction`: ticks until an instruction is executed or none can be
* `Step`, `Outcome`: what a step did

## Main results

* `Machine.isSome_executeNext?`: no instruction costs more ticks than there is room for
* `Machine.step_of_locked`, `Machine.step_of_inFlight`, `Machine.step_of_isWaiting`,
  `Machine.step_of_running`: the four things that a step may do
* `Machine.budget_step_of_busy`: a step of an instruction in flight leaves one tick less
-/

namespace Sm83

/-- What a step that does not fail did. -/
inductive Step where
  /-- An instruction is in flight, with so many ticks left. -/
  | busy (remaining : Nat)
  /-- An instruction was fetched and executed. -/
  | executed (x : Execution)
  /-- The core waits in the given mode. -/
  | idle (mode : Mode)
  deriving DecidableEq

/-- What a step reports: what it did, or why it failed. -/
abbrev StepResult := Except Fault Step

/-- The instruction that a step has executed. -/
def StepResult.execution? : StepResult → Option Execution
  | .ok (.executed x) => some x
  | _ => none

theorem StepResult.execution?_eq_some {r : StepResult} {x : Execution} :
    r.execution? = some x ↔ r = .ok (.executed x) := by
  constructor
  · intro h
    unfold execution? at h
    split at h
    · cases h
      rfl
    · cases h
  · rintro rfl
    rfl

/-- A core and the state of the bus it is attached to. -/
structure Machine (σ : Type) where
  core : Core
  env : σ

/-- A step's report, the machine after it and what was logged. -/
structure Outcome (σ : Type) where
  result : StepResult
  machine : Machine σ
  log : List Entry

namespace Machine

variable {σ : Type}

/-! ## Phases of an instruction

The phases are kept apart so that what an instruction does can be read off its operation: fetching
depends on the bytes in the instruction stream, while the loads, the new registers and the stores
are those of `Operation.loads` and `Operation.effect`. -/

/-- Fetches the byte at the program counter. -/
def fetchByte (bus : Bus σ) : Machine σ → UInt8 × Machine σ
  | ⟨core, env⟩ =>
    let (b, env) := bus.read core.regs.pc env
    (b, ⟨core.fetch b, env⟩)

/-- Fetches so many bytes. -/
def fetchBytes (bus : Bus σ) : Nat → Machine σ → List UInt8 × Machine σ
  | 0, m => ([], m)
  | n + 1, m =>
    let (b, m) := m.fetchByte bus
    let (rest, m) := m.fetchBytes bus n
    (b :: rest, m)

/-- Fetches an opcode, and a second one behind the escape byte, and looks the instruction up. -/
def fetchInstruction (bus : Bus σ) : Machine σ → Instruction × Machine σ
  | ⟨core, env⟩ =>
    let (opcode, m) := (Machine.mk core.beginFetch env).fetchByte bus
    -- The byte behind the escape byte is read only here: an unassigned opcode is found without it.
    if opcode = escapeByte then
      let (extended, m) := m.fetchByte bus
      (lookupExtended extended, m)
    else
      (lookup opcode, m)

/-- Lets the core and the bus respond to an event, in this order. -/
def announce (bus : Bus σ) (e : Event) : Machine σ → Machine σ × List Entry
  | ⟨core, env⟩ =>
    let (core, messages) := core.signal e
    (⟨core, bus.notify e env⟩, messages.map .core ++ (bus.remarks e).map .host)

/-- Carries out an operation whose immediate bytes spell `operand`. -/
def perform (bus : Bus σ) (op : Operation) (operand : UInt16) :
    Machine σ → Machine σ × List Entry
  | ⟨core, env⟩ =>
    -- The reads come first: what they return decides the registers and the stores.
    let (data, env) := bus.readAll (op.loads core.regs operand) env
    let effect := op.effect core.regs operand (wordOfBytes data)
    let env := bus.writeAll effect.stores env
    let core := { core with regs := effect.regs }
    match effect.event with
    | some e => announce bus e ⟨core, env⟩
    | none => (⟨core, env⟩, [])

/-- Fetches the immediate bytes of an operation and carries it out, unless it costs more ticks than
there is room for. -/
def execute? (bus : Bus σ) (op : Operation) (m : Machine σ) : Option (Machine σ × List Entry) :=
  let (operands, ⟨core, env⟩) := m.fetchBytes bus op.operandBytes
  -- The condition of a branch is tested on the flags before the operation.
  (core.charge? (op.penalty core.regs.flags)).map fun core =>
    Machine.perform bus op (wordOfBytes operands) ⟨core, env⟩

/-- The machine with the ticks of a new instruction. -/
def setBudget (n : Nat) : Machine σ → Machine σ
  | ⟨core, env⟩ => ⟨{ core with budget := n }, env⟩

/-- Reports an executed instruction to the log and to the bus. -/
def complete (bus : Bus σ) (x : Execution) (log : List Entry) : Machine σ → Outcome σ
  | ⟨core, env⟩ =>
    ⟨.ok (.executed x), ⟨core, bus.executed x env⟩, log ++ [.core (.executed x)]⟩

/-- Locks up by the opcode that has just been fetched at `addr`. -/
def lockUp (bus : Bus σ) (addr : UInt16) (m : Machine σ) : Outcome σ :=
  let opcode := m.core.fetched.first
  let (m, log) := m.announce bus (.lockedUp opcode addr)
  ⟨.error (.invalidOpcode opcode addr), m, log⟩

/-- Fetches the next instruction and executes it, unless it costs more ticks than there is room
for. -/
def executeNext? (bus : Bus σ) (m : Machine σ) : Option (Outcome σ) :=
  let addr := m.core.regs.pc
  let (instruction, m) := m.fetchInstruction bus
  -- The ticks are set before the operation, whose branch penalty is added to them.
  if instruction.isValid then
    ((m.setBudget instruction.ticks).execute? bus instruction.operation).map fun (m, log) =>
      m.complete bus ⟨addr, m.core.fetched, instruction⟩ log
  else
    some (m.lockUp bus addr)

/-- An entry of either table is the description of its operation. -/
theorem fetchInstruction_eq_ofOperation (bus : Bus σ) (m : Machine σ) :
    ∃ op, (m.fetchInstruction bus).1 = .ofOperation op := by
  unfold fetchInstruction
  simp only
  split
  · exact ⟨_, lookupExtended_eq _⟩
  · exact ⟨_, lookup_eq _⟩

@[simp] theorem budget_fetchBytes (bus : Bus σ) (n : Nat) (m : Machine σ) :
    (m.fetchBytes bus n).2.core.budget = m.core.budget := by
  induction n generalizing m with
  | zero => rfl
  | succ n ih => exact ih _

/-- Whatever the next instruction is, its ticks and its penalty fit in the budget. -/
theorem isSome_executeNext? (bus : Bus σ) (m : Machine σ) : (m.executeNext? bus).isSome := by
  obtain ⟨op, hop⟩ := m.fetchInstruction_eq_ofOperation bus
  have hb (m : Machine σ) : ((m.setBudget op.ticks).fetchBytes bus op.operandBytes).2.core.budget =
      op.ticks := budget_fetchBytes bus _ _
  unfold executeNext?
  simp only [hop]
  split
  · simp only [Instruction.ofOperation, execute?, Core.charge?, hb, op.ticks_add_penalty_le]
    rfl
  · rfl

/-- Fetches the next instruction and executes it. -/
def executeNext (bus : Bus σ) (m : Machine σ) : Outcome σ :=
  (m.executeNext? bus).get (m.isSome_executeNext? bus)

theorem executeNext?_eq (bus : Bus σ) (m : Machine σ) :
    m.executeNext? bus = some (m.executeNext bus) := (Option.some_get _).symm

/-! ## Steps

A lock-up wins over everything else, and ticks in flight win over waiting: a core that has executed
HALT is busy until the ticks of HALT are used up, and idle from then on. -/

/-- Advances the machine by one tick. -/
def step (bus : Bus σ) : Machine σ → Outcome σ
  | ⟨core, env⟩ =>
    match core.mode, core.budget with
    | .locked opcode addr, _ => ⟨.error (.locked opcode addr), ⟨core, env⟩, []⟩
    | _, n + 1 => ⟨.ok (.busy n), ⟨{ core with budget := n }, env⟩, []⟩
    | .running, 0 => executeNext bus ⟨core, env⟩
    | mode, 0 => ⟨.ok (.idle mode), ⟨core, env⟩, []⟩

/-- A core that is locked up stays as it is. -/
theorem step_of_locked (bus : Bus σ) {m : Machine σ} {opcode : UInt8} {addr : UInt16}
    (h : m.core.mode = .locked opcode addr) :
    m.step bus = ⟨.error (.locked opcode addr), m, []⟩ := by
  obtain ⟨⟨regs, budget, mode, interrupts, config, fetched⟩, env⟩ := m
  obtain rfl : mode = _ := h
  rfl

/-- A step of an instruction in flight uses up one tick and does nothing else. -/
theorem step_of_inFlight (bus : Bus σ) {m : Machine σ} {n : Nat}
    (h : m.core.mode.isLocked = false) (hn : m.core.budget = n + 1) :
    m.step bus = ⟨.ok (.busy n), ⟨{ m.core with budget := n }, m.env⟩, []⟩ := by
  obtain ⟨⟨regs, budget, mode, interrupts, config, fetched⟩, env⟩ := m
  obtain rfl : budget = _ := hn
  cases mode with
  | running | halted | stopped => rfl
  | locked => cases h

/-- A core that waits, with no ticks left, stays as it is. -/
theorem step_of_isWaiting (bus : Bus σ) {m : Machine σ} (h : m.core.mode.isWaiting = true)
    (hn : m.core.budget = 0) : m.step bus = ⟨.ok (.idle m.core.mode), m, []⟩ := by
  obtain ⟨⟨regs, budget, mode, interrupts, config, fetched⟩, env⟩ := m
  obtain rfl : budget = _ := hn
  cases mode with
  | halted | stopped => rfl
  | running | locked => cases h

/-- A core that runs, with no ticks left, executes the next instruction. -/
theorem step_of_running (bus : Bus σ) {m : Machine σ} (h : m.core.mode = .running)
    (hn : m.core.budget = 0) : m.step bus = m.executeNext bus := by
  obtain ⟨⟨regs, budget, mode, interrupts, config, fetched⟩, env⟩ := m
  obtain rfl : budget = _ := hn
  obtain rfl : mode = _ := h
  rfl

/-- Executing an instruction does not report one in flight. -/
theorem executeNext_result_ne_busy (bus : Bus σ) (m : Machine σ) (n : Nat) :
    (m.executeNext bus).result ≠ .ok (.busy n) := by
  have h := m.executeNext?_eq bus
  unfold executeNext? at h
  simp only at h
  split at h
  · obtain ⟨⟨m', log⟩, -, h⟩ := Option.map_eq_some_iff.1 h
    simp [← h, complete]
  · simp [← Option.some_inj.1 h, lockUp]

/-- A step of an instruction in flight leaves one tick less. -/
theorem budget_step_of_busy {bus : Bus σ} {m : Machine σ} {n : Nat}
    (h : (m.step bus).result = .ok (.busy n)) :
    m.core.budget = n + 1 ∧ (m.step bus).machine.core.budget = n := by
  cases hb : m.core.budget with
  | zero =>
    cases hm : m.core.mode with
    | running => exact absurd (step_of_running bus hm hb ▸ h) (executeNext_result_ne_busy bus m n)
    | halted | stopped =>
      rw [step_of_isWaiting bus (by simp [hm, Mode.isWaiting]) hb] at h
      cases h
    | locked opcode addr =>
      rw [step_of_locked bus hm] at h
      cases h
  | succ k =>
    cases hl : m.core.mode.isLocked with
    | false =>
      rw [step_of_inFlight bus hl hb] at h ⊢
      cases h
      exact ⟨rfl, rfl⟩
    | true =>
      obtain ⟨opcode, addr, hm⟩ := Mode.eq_locked_of_isLocked hl
      rw [step_of_locked bus hm] at h
      cases h

/-- Advances the machine until an instruction has been executed, or until none can be. Every step
of an instruction in flight leaves one tick less, so the budget bounds the recursion. -/
def stepInstruction (bus : Bus σ) (m : Machine σ) : Outcome σ :=
  match _h : m.step bus with
  | ⟨.ok (.busy _), m', log⟩ =>
    let later := m'.stepInstruction bus
    { later with log := log ++ later.log }
  | outcome => outcome
termination_by m.core.budget
decreasing_by
  have hb := budget_step_of_busy (congrArg Outcome.result _h)
  simp only [_h] at hb
  omega

end Machine

end Sm83
