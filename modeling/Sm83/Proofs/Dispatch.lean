import Sm83.Command
import Sm83.Proofs.Fetch

/-!
# What one step does

A step makes one of five moves: it finds the core locked up, counts down, finds the core waiting,
executes an instruction, or locks the core up. Each move is given as an outcome, so that what a
step leaves behind can be read off without looking into the phases of an instruction.

## Main definitions

* `Operation.event?`: the event that an operation announces
* `Machine.nextEffect`, `Machine.nextExecution`: the effect and the record of the next instruction
* `Machine.handled`: the machine after an operation whose opcode has been fetched
* `Machine.executed`, `Machine.lockedUp`: the outcomes of executing it and of failing to
* `Machine.Tick`: the five moves of a step
* `Machine.drained`: the machine when the ticks in flight are used up

## Main results

* `Machine.execute?_eq`: the phases of an operation whose opcode has been fetched
* `Machine.executeNext_of_isValid`, `Machine.executeNext_of_not_isValid`: the phases of an
  instruction put together
* `Machine.tick_step`: a step makes one of the five moves
* `Machine.executed_of_step`, `Machine.executed_of_command`: what a step or a command that executed
  an instruction has found
* `Machine.stepInstruction_eq`: stepping until something happens is one step of the drained machine
-/

namespace Sm83

/-! ## Events -/

/-- The event that an operation announces, if any. -/
def Operation.event? : Operation → Option Event
  | stop => some .stopped
  | halt => some .halted
  | di => some .interruptsDisabled
  | ei | reti => some .interruptsEnabled
  | _ => none

theorem ByteOperand.event_write (dst : ByteOperand) (r : Registers) (v : UInt8) :
    (dst.write r v).event = none := by
  cases dst <;> rfl

theorem Operation.event_effect (op : Operation) (r : Registers) (operand datum : UInt16) :
    (op.effect r operand datum).event = op.event? := by
  cases op with
  | call cc =>
    simp only [effect]
    split <;> rfl
  | ld dst _ | ldImm dst | inc dst | dec dst | rotate _ dst | res _ dst | set _ dst =>
    exact dst.event_write _ _
  | _ => rfl

namespace Core

/-- The core's own part in an event, if there is one. -/
def respond (c : Core) : Option Event → Core × List Message
  | some e => c.signal e
  | none => (c, [])

@[simp] theorem regs_respond (c : Core) (e : Option Event) : (c.respond e).1.regs = c.regs := by
  cases e with
  | none => rfl
  | some e => exact regs_signal c e

@[simp] theorem config_respond (c : Core) (e : Option Event) :
    (c.respond e).1.config = c.config := by
  cases e with
  | none => rfl
  | some e => exact config_signal c e

@[simp] theorem fetched_respond (c : Core) (e : Option Event) :
    (c.respond e).1.fetched = c.fetched := by
  cases e with
  | none => rfl
  | some e => exact fetched_signal c e

theorem budget_respond (c : Core) (op : Operation) :
    (c.respond op.event?).1.budget = c.budget := by
  cases op <;> rfl

theorem isLocked_respond {c : Core} (op : Operation) (h : c.mode = .running) :
    (c.respond op.event?).1.mode.isLocked = false := by
  cases op <;> simp [respond, Operation.event?, signal, setInterrupts, Mode.isLocked, h]

end Core

namespace Bus

variable {σ : Type} (bus : Bus σ)

def learn (e : Option Event) (s : σ) : σ := e.elim s fun e => bus.notify e s

def comments (e : Option Event) : List Remark := e.elim [] bus.remarks

end Bus

/-! ## Outcomes -/

namespace Machine

variable {σ : Type} (bus : Bus σ) (m : Machine σ)

/-- The word that the immediate bytes of the next instruction spell. -/
def nextOperand : UInt16 := wordOfBytes (m.nextOperands bus)

/-- The reads that the next instruction makes beyond its own bytes: what they return, and the
state of the bus after them. -/
def nextLoads : List UInt8 × σ :=
  bus.readAll ((m.nextInstruction bus).operation.loads (m.fetchedCore bus).regs (m.nextOperand bus))
    (m.nextFetch bus).2

def nextEffect : Effect :=
  (m.nextInstruction bus).operation.effect (m.fetchedCore bus).regs (m.nextOperand bus)
    (wordOfBytes (m.nextLoads bus).1)

def nextExecution : Execution :=
  ⟨m.core.regs.pc, (m.fetchedCore bus).fetched, m.nextInstruction bus⟩

/-- The ticks that the next instruction loads, the penalty of a taken branch included. -/
def nextTicks : Nat :=
  (m.nextInstruction bus).ticks + (m.nextInstruction bus).operation.penalty m.core.regs.flags

/-- The core's response to the event of the next instruction. -/
def nextResponse : Core × List Message :=
  ({ m.fetchedCore bus with
      regs := (m.nextEffect bus).regs
      budget := m.nextTicks bus } : Core).respond (m.nextInstruction bus).operation.event?

/-- The outcome of executing the next instruction. -/
def executed : Outcome σ where
  result := .ok (.executed (m.nextExecution bus))
  machine :=
    { core := (m.nextResponse bus).1
      env :=
        bus.executed (m.nextExecution bus)
          (bus.learn (m.nextInstruction bus).operation.event?
            (bus.writeAll (m.nextEffect bus).stores (m.nextLoads bus).2)) }
  log :=
    (m.nextResponse bus).2.map .core ++
      (bus.comments (m.nextInstruction bus).operation.event?).map .host ++
      [.core (.executed (m.nextExecution bus))]

/-- The outcome of finding no instruction: one byte has been fetched, and it locks the core up. -/
def lockedUp : Outcome σ :=
  let opcode := (bus.read m.core.regs.pc m.env).1
  let core := m.core.beginFetch.fetch opcode
  { result := .error (.invalidOpcode opcode m.core.regs.pc)
    machine :=
      { core := { core with budget := 0, mode := .locked opcode m.core.regs.pc }
        env := bus.notify (.lockedUp opcode m.core.regs.pc) (bus.read m.core.regs.pc m.env).2 }
    log :=
      .core (.lockUp opcode m.core.regs.pc core.regs) ::
        (bus.remarks (.lockedUp opcode m.core.regs.pc)).map .host }

theorem flags_fetchedCore : (m.fetchedCore bus).regs.flags = m.core.regs.flags := by
  rw [fetchedCore, Core.fetchAll_eq]
  rfl

theorem regs_fetchedCore :
    (m.fetchedCore bus).regs =
      m.core.regs.jump (m.core.regs.pc + UInt16.ofNat (m.nextInstruction bus).length) := by
  rw [fetchedCore, Core.fetchAll_eq, length_nextFetch]
  rfl

/-- Fetching changes the program counter, the ticks and the record, and nothing else of the core. -/
theorem fetchedCore_eq :
    m.fetchedCore bus =
      { m.core with
        regs := m.core.regs.jump (m.core.regs.pc + UInt16.ofNat (m.nextInstruction bus).length)
        budget := (m.nextInstruction bus).ticks
        fetched := (m.fetchedCore bus).fetched } := by
  rw [fetchedCore, Core.fetchAll_eq, length_nextFetch]
  rfl

theorem bytes_nextExecution : (m.nextExecution bus).bytes = (m.nextFetch bus).1 := by
  have hlen : (m.nextFetch bus).1.length ≤ 3 := by
    rw [length_nextFetch, length_nextInstruction]
    exact Operation.length_le _
  show (m.fetchedCore bus).fetched.bytes = _
  rw [fetchedCore, Core.fetchAll_eq]
  exact FetchRecord.bytes_foldl_push (r := m.core.fetched.restart) (by simpa using hlen)

theorem operands_nextExecution : (m.nextExecution bus).operands = m.nextOperands bus := by
  rw [Execution.operands, bytes_nextExecution]
  rcases m.nextFetch_cases bus with ⟨opcode, -, hb, ho⟩ | ⟨opcode, operands, hne, -, -, hb, ho⟩
  · rw [hb, ho]
    rfl
  · rw [hb, ho]
    exact if_neg hne

theorem isCost_nextTicks (h : (m.nextInstruction bus).isValid = true) :
    Operation.IsCost (m.nextTicks bus) := by
  rw [nextTicks, ticks_nextInstruction]
  exact Operation.isCost_ticks_add_penalty (by simpa [Instruction.isValid] using h) _

/-! ### The core after an executed instruction -/

@[simp] theorem regs_nextResponse : (m.nextResponse bus).1.regs = (m.nextEffect bus).regs :=
  Core.regs_respond _ _

@[simp] theorem budget_nextResponse : (m.nextResponse bus).1.budget = m.nextTicks bus :=
  Core.budget_respond _ _

@[simp] theorem fetched_nextResponse :
    (m.nextResponse bus).1.fetched = (m.fetchedCore bus).fetched := Core.fetched_respond _ _

@[simp] theorem config_nextResponse : (m.nextResponse bus).1.config = m.core.config := by
  rw [nextResponse, Core.config_respond]
  show (m.fetchedCore bus).config = _
  rw [fetchedCore, Core.fetchAll_eq]
  rfl

theorem isLocked_nextResponse (h : m.core.mode = .running) :
    (m.nextResponse bus).1.mode.isLocked = false := by
  apply Core.isLocked_respond
  show (m.fetchedCore bus).mode = _
  rw [fetchedCore, Core.fetchAll_eq]
  exact h

/-! ### The phases put together -/

/-- Carrying out an operation: its event is the last thing to happen. -/
theorem perform_eq (op : Operation) (operand : UInt16) (core : Core) (env : σ) :
    perform bus op operand ⟨core, env⟩ =
      let loads := bus.readAll (op.loads core.regs operand) env
      let effect := op.effect core.regs operand (wordOfBytes loads.1)
      let response := ({ core with regs := effect.regs } : Core).respond op.event?
      (⟨response.1, bus.learn op.event? (bus.writeAll effect.stores loads.2)⟩,
        response.2.map .core ++ (bus.comments op.event?).map .host) := by
  unfold perform
  simp only [Operation.event_effect]
  cases op.event? <;> rfl

/-- The machine after an operation whose opcode has been fetched: its immediate bytes are fetched,
and it is carried out. -/
def handled (op : Operation) (m : Machine σ) : Machine σ :=
  let (operands, m) := m.fetchBytes bus op.operandBytes
  (perform bus op (wordOfBytes operands) m).1

/-- An operation whose opcode has been fetched is carried out if there is room for its penalty. -/
theorem execute?_eq (op : Operation) :
    m.execute? bus op =
      let fetched := m.fetchBytes bus op.operandBytes
      let total := m.core.budget + op.penalty m.core.regs.flags
      if total ≤ maxInstructionTicks then
        some (perform bus op (wordOfBytes fetched.1) (fetched.2.setBudget total))
      else none := by
  simp only [execute?, Core.charge?, budget_fetchBytes, flags_fetchBytes]
  split <;> rfl

theorem execute?_fetchInstruction :
    ((m.fetchInstruction bus).2.setBudget (m.nextInstruction bus).ticks).execute? bus
        (m.nextInstruction bus).operation =
      some (perform bus (m.nextInstruction bus).operation (m.nextOperand bus)
        ⟨{ m.fetchedCore bus with budget := m.nextTicks bus }, (m.nextFetch bus).2⟩) := by
  have hroom : (m.nextInstruction bus).ticks +
      (m.nextInstruction bus).operation.penalty m.core.regs.flags ≤ maxInstructionTicks := by
    rw [ticks_nextInstruction]
    exact Operation.ticks_add_penalty_le _ _
  have hbudget : (m.fetchedCore bus).budget = (m.nextInstruction bus).ticks := rfl
  simp only [execute?, fetchBytes_fetchInstruction, Core.charge?, flags_fetchedCore, hbudget,
    if_pos hroom]
  rfl

/-- An instruction that is assigned is executed. -/
theorem executeNext_of_isValid (h : (m.nextInstruction bus).isValid = true) :
    m.executeNext bus = m.executed bus := by
  apply Option.some_inj.1
  rw [← executeNext?_eq]
  show (if (m.nextInstruction bus).isValid then _ else _) = _
  rw [if_pos h]
  show Option.map _ (((m.fetchInstruction bus).2.setBudget (m.nextInstruction bus).ticks).execute?
    bus (m.nextInstruction bus).operation) = _
  rw [execute?_fetchInstruction, perform_eq]
  simp only [Option.map_some, complete, Core.fetched_respond]
  rfl

/-- An unassigned opcode locks the core up. -/
theorem executeNext_of_not_isValid (h : (m.nextInstruction bus).isValid = false) :
    m.executeNext bus = m.lockedUp bus := by
  have hne : (bus.read m.core.regs.pc m.env).1 ≠ escapeByte := by
    intro he
    rw [nextInstruction_of_escape bus he, isValid_lookupExtended] at h
    cases h
  have hfetch : (m.fetchInstruction bus).2 =
      ⟨m.core.beginFetch.fetch (bus.read m.core.regs.pc m.env).1,
        (bus.read m.core.regs.pc m.env).2⟩ := by
    show (if (bus.read m.core.regs.pc m.env).1 = escapeByte then _ else _ : _ × _).2 = _
    rw [if_neg hne]
    rfl
  apply Option.some_inj.1
  rw [← executeNext?_eq]
  show (if (m.nextInstruction bus).isValid then _ else
    some ((m.fetchInstruction bus).2.lockUp bus m.core.regs.pc)) = _
  rw [if_neg (by rw [h]; decide), hfetch]
  -- The record holds one byte, so the first of it is the opcode.
  have hfirst : (m.core.beginFetch.fetch (bus.read m.core.regs.pc m.env).1).fetched.first =
      (bus.read m.core.regs.pc m.env).1 := FetchRecord.first_push _
  simp only [lockUp, announce, hfirst]
  rfl

/-! ## The five moves -/

/-- **The moves of a step.** -/
inductive Tick : Outcome σ → Prop
  | locked {opcode : UInt8} {addr : UInt16} (hm : m.core.mode = .locked opcode addr) :
      Tick ⟨.error (.locked opcode addr), m, []⟩
  | busy {n : Nat} (hm : m.core.mode.isLocked = false) (hb : m.core.budget = n + 1) :
      Tick ⟨.ok (.busy n), ⟨{ m.core with budget := n }, m.env⟩, []⟩
  | idle (hm : m.core.mode.isWaiting = true) (hb : m.core.budget = 0) :
      Tick ⟨.ok (.idle m.core.mode), m, []⟩
  | executed (hm : m.core.mode = .running) (hb : m.core.budget = 0)
      (hi : (m.nextInstruction bus).isValid = true) : Tick (m.executed bus)
  | lockedUp (hm : m.core.mode = .running) (hb : m.core.budget = 0)
      (hi : (m.nextInstruction bus).isValid = false) : Tick (m.lockedUp bus)

theorem tick_step : m.Tick bus (m.step bus) := by
  cases hb : m.core.budget with
  | succ n =>
    cases hl : m.core.mode.isLocked with
    | false =>
      rw [step_of_inFlight bus hl hb]
      exact .busy hl hb
    | true =>
      obtain ⟨opcode, addr, hm⟩ := Mode.eq_locked_of_isLocked hl
      rw [step_of_locked bus hm]
      exact .locked hm
  | zero =>
    cases hm : m.core.mode with
    | locked opcode addr =>
      rw [step_of_locked bus hm]
      exact .locked hm
    | halted | stopped =>
      have hw : m.core.mode.isWaiting = true := by rw [hm]; rfl
      rw [step_of_isWaiting bus hw hb]
      exact .idle hw hb
    | running =>
      rw [step_of_running bus hm hb]
      cases hi : (m.nextInstruction bus).isValid with
      | true =>
        rw [executeNext_of_isValid bus m hi]
        exact .executed hm hb hi
      | false =>
        rw [executeNext_of_not_isValid bus m hi]
        exact .lockedUp hm hb hi

/-- **What a step that executed an instruction has found and done.** -/
theorem executed_of_step {m : Machine σ} {x : Execution}
    (h : (m.step bus).result = .ok (.executed x)) :
    m.core.mode = .running ∧ m.core.budget = 0 ∧ (m.nextInstruction bus).isValid = true ∧
      x = m.nextExecution bus ∧ m.step bus = m.executed bus := by
  have ht := m.tick_step bus
  generalize m.step bus = o at h ht ⊢
  cases ht with
  | executed hm hb hi => exact ⟨hm, hb, hi, by cases h; rfl, rfl⟩
  | locked | busy | idle | lockedUp => cases h

/-! ## Until something happens -/

theorem stepInstruction_of_ne_busy {m : Machine σ}
    (h : ∀ n, (m.step bus).result ≠ .ok (.busy n)) : m.stepInstruction bus = m.step bus := by
  rw [stepInstruction]
  split
  · rename_i n m' log ho
    exact absurd (congrArg Outcome.result ho) (h n)
  · rfl

theorem stepInstruction_of_busy {m : Machine σ} {n : Nat}
    (hm : m.core.mode.isLocked = false) (hb : m.core.budget = n + 1) :
    m.stepInstruction bus = stepInstruction bus ⟨{ m.core with budget := n }, m.env⟩ := by
  rw [stepInstruction]
  split
  · rename_i ho
    rw [step_of_inFlight bus hm hb] at ho
    cases ho
    rfl
  · rename_i hne
    exact absurd (step_of_inFlight bus hm hb) (hne _ _ _)

theorem setBudget_of_budget_eq {m : Machine σ} {n : Nat} (h : m.core.budget = n) :
    m.setBudget n = m := by
  subst h
  rfl

/-- The machine when the ticks in flight are used up; a core that is locked up counts none
down. -/
def drained : Machine σ := if m.core.mode.isLocked then m else m.setBudget 0

theorem drained_of_isLocked {m : Machine σ} (h : m.core.mode.isLocked = true) :
    m.drained = m := if_pos h

theorem drained_of_not_isLocked {m : Machine σ} (h : m.core.mode.isLocked = false) :
    m.drained = m.setBudget 0 := if_neg (by rw [h]; decide)

@[simp] theorem mode_drained : m.drained.core.mode = m.core.mode := by
  unfold drained
  split <;> rfl

/-- **Stepping until something happens** is one step once the ticks in flight are used up. -/
theorem stepInstruction_eq : m.stepInstruction bus = m.drained.step bus := by
  cases hl : m.core.mode.isLocked with
  | true =>
    obtain ⟨opcode, addr, hm⟩ := Mode.eq_locked_of_isLocked hl
    rw [drained_of_isLocked hl, stepInstruction_of_ne_busy bus]
    intro n
    rw [step_of_locked bus hm]
    nofun
  | false =>
    rw [drained_of_not_isLocked hl]
    induction hb : m.core.budget generalizing m with
    | zero =>
      rw [setBudget_of_budget_eq hb, stepInstruction_of_ne_busy bus]
      intro n hn
      have := (budget_step_of_busy hn).1
      omega
    | succ n ih =>
      rw [stepInstruction_of_busy bus hl hb]
      exact ih ⟨{ m.core with budget := n }, m.env⟩ hl rfl

/-- **What a command that executed an instruction has found and done.** Ticks that were in flight
before make no difference. -/
theorem executed_of_command {m : Machine σ} {c : Command} {x : Execution}
    (h : (m.command bus c).result = some (.ok (.executed x))) :
    m.core.mode = .running ∧ ((m.setBudget 0).nextInstruction bus).isValid = true ∧
      x = (m.setBudget 0).nextExecution bus ∧
      (m.command bus c).machine = ((m.setBudget 0).executed bus).machine := by
  cases c with
  | step =>
    obtain ⟨hm, hb, hi, hx, hs⟩ := executed_of_step bus (Option.some_inj.1 h)
    rw [setBudget_of_budget_eq hb]
    exact ⟨hm, hi, hx, congrArg Outcome.machine hs⟩
  | stepInstruction =>
    have hr : (m.stepInstruction bus).result = .ok (.executed x) := Option.some_inj.1 h
    rw [stepInstruction_eq] at hr
    obtain ⟨hm, -, hi, hx, hs⟩ := executed_of_step bus hr
    have hmode : m.core.mode = .running := (mode_drained m).symm.trans hm
    have hd : m.drained = m.setBudget 0 := drained_of_not_isLocked (by rw [hmode]; rfl)
    have hmachine : (m.command bus .stepInstruction).machine = (m.drained.step bus).machine :=
      congrArg Outcome.machine (m.stepInstruction_eq bus)
    rw [hmachine, ← hd]
    exact ⟨hmode, hi, hx, congrArg Outcome.machine hs⟩
  | wake | reset | assign | setFlags | clearFlags => cases h

end Machine

end Sm83
