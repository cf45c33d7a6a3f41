import Sm83.Proofs.Control
import Sm83.Proofs.Journal

/-!
# Transfers of control

Four transfers come with and without a condition. The two forms are entries of their own in the
opcode table, with costs of their own: the unconditional form carries its full cost, and the
conditional one is charged a penalty when it is carried out and its condition holds. Carried out,
they do the same, down to the calls that they make to the bus; only the ticks are counted in
different places. A restart and a return that enables interrupts are, in the same sense, a call to a
fixed address and a return with an event after it.

## Main definitions

* `Transfer`: the transfers that come with and without a condition
* `Machine.handlerCalls`: the calls that carrying out an operation makes to its bus
* `Machine.Enters`: what a step does that calls a subroutine

## Main results

* `Machine.perform_of_holds`: a conditional transfer whose condition holds is the unconditional one
* `Machine.perform_rst`, `Machine.perform_reti`: restarts are calls, and the return that enables
  interrupts is a return and an event
* `Machine.transfer_law`: the same of the handlers and of steps
-/

namespace Sm83

/-! ## The two forms of a transfer -/

/-- The transfers that come with and without a condition. -/
inductive Transfer where
  | jr | jp | call | ret
  deriving DecidableEq

namespace Transfer

/-- The operation of a transfer under a condition, if there is one. -/
def operation : Transfer → Option Condition → Operation
  | jr => .jr
  | jp => .jp
  | call => .call
  | ret => .ret

/-- The ticks that the conditional form, when taken, costs more than the unconditional one. -/
def surcharge : Transfer → Nat
  | ret => 4
  | jr | jp | call => 0

variable (t : Transfer) (cc : Condition)

theorem operandBytes_operation :
    (t.operation (some cc)).operandBytes = (t.operation none).operandBytes := by
  cases t <;> rfl

theorem event?_operation (condition : Option Condition) :
    (t.operation condition).event? = none := by
  cases t <;> rfl

theorem penalty_none (f : Flags) : (t.operation none).penalty f = 0 := by
  cases t <;> rfl

/-- Table costs and penalties together. -/
theorem ticks_add_takenPenalty :
    (t.operation (some cc)).ticks + (t.operation (some cc)).takenPenalty =
      (t.operation none).ticks + t.surcharge := by
  cases t <;> rfl

section Holds

variable {cc} {f : Flags} (h : cc.holds f = true)

include h

theorem taken_of_holds : (t.operation (some cc)).taken f = true := by
  cases t <;> exact h

theorem penalty_of_holds :
    (t.operation (some cc)).penalty f = (t.operation (some cc)).takenPenalty := by
  rw [Operation.penalty, if_pos (t.taken_of_holds h)]

end Holds

section Taken

variable {cc} {r : Registers} (h : cc.holds r.flags = true)

include h

theorem loads_of_holds (operand : UInt16) :
    (t.operation (some cc)).loads r operand = (t.operation none).loads r operand := by
  cases t with
  | jr | jp | call => rfl
  | ret => exact if_pos h

theorem effect_of_holds (operand datum : UInt16) :
    (t.operation (some cc)).effect r operand datum =
      (t.operation none).effect r operand datum := by
  have htaken := t.taken_of_holds h
  cases t with
  | jr | jp | ret => exact congrArg (fun regs => ({ regs } : Effect)) (if_pos htaken)
  | call => exact if_pos htaken

end Taken

end Transfer

/-! ## Carrying them out -/

namespace Machine

variable {σ : Type} (bus : Bus σ) (m : Machine σ)

/-- The calls that carrying out an operation makes to its bus, once its opcode has been fetched. -/
def handlerCalls (op : Operation) : Option (List BusCall) :=
  (m.recorded.execute? bus.recording op).map fun p => p.1.env.calls.toList

section Holds

variable {m} {cc : Condition} (h : cc.holds m.core.regs.flags = true) (t : Transfer)

include h

/-- **A conditional transfer whose condition holds** is carried out as the unconditional one. -/
theorem perform_of_holds (operand : UInt16) :
    perform bus (t.operation (some cc)) operand m = perform bus (t.operation none) operand m := by
  rw [perform_eq, perform_eq, t.event?_operation, t.event?_operation]
  simp only [t.loads_of_holds h, t.effect_of_holds h]

theorem handled_of_holds :
    m.handled bus (t.operation (some cc)) = m.handled bus (t.operation none) := by
  have hfetched : cc.holds (m.fetchBytes bus (t.operation none).operandBytes).2.core.regs.flags =
      true := by
    rw [flags_fetchBytes]
    exact h
  simp only [handled, t.operandBytes_operation, perform_of_holds bus hfetched]

end Holds

/-- The ticks make no difference to what an operation without an event does. -/
theorem execute?_setBudget {op : Operation} (h : op.event? = none) (budget : Nat) :
    (m.setBudget budget).execute? bus op =
      let total := budget + op.penalty m.core.regs.flags
      if total ≤ maxInstructionTicks then some ((m.handled bus op).setBudget total, [])
      else none := by
  have hperform (operand : UInt16) (total : Nat) (k : Machine σ) :
      perform bus op operand (k.setBudget total) =
        ((perform bus op operand k).1.setBudget total, []) := by
    rw [perform_eq, perform_eq, h]
    rfl
  rw [execute?_eq, fetchBytes_setBudget]
  let fetched := m.fetchBytes bus op.operandBytes
  exact if_congr Iff.rfl (congrArg some (hperform (wordOfBytes fetched.1) _ fetched.2)) rfl

theorem handlerCalls_setBudget {op : Operation} (h : op.event? = none) (budget : Nat) :
    (m.setBudget budget).handlerCalls bus op =
      if budget + op.penalty m.core.regs.flags ≤ maxInstructionTicks then
        some (m.recorded.handled bus.recording op).env.calls.toList
      else none := by
  have hexecute := m.recorded.execute?_setBudget bus.recording h budget
  rw [handlerCalls]
  show Option.map _ ((m.recorded.setBudget budget).execute? bus.recording op) = _
  rw [hexecute, apply_ite (Option.map _)]
  rfl

/-! ## Restarts and returns from interrupts -/

/-- **A restart is a call** to its address. -/
theorem perform_rst (n : Fin 8) (operand : UInt16) :
    perform bus (.rst n) operand m = perform bus (.call none) (restartAddress n).toUInt16 m := by
  rw [perform_eq, perform_eq]
  rfl

/-- **The return that enables interrupts** is a return, and then the event. -/
theorem perform_reti (operand : UInt16) :
    perform bus .reti operand m =
      (perform bus (.ret none) operand m).1.announce bus .interruptsEnabled := by
  rw [perform_eq, perform_eq]
  rfl

/-- What the event does to the core and to the bus. -/
theorem announce_interruptsEnabled :
    (m.announce bus .interruptsEnabled).1 =
      ⟨{ m.core with interrupts := true }, bus.notify .interruptsEnabled m.env⟩ := rfl

theorem execute?_reti :
    m.execute? bus .reti =
      (m.execute? bus (.ret none)).map fun p => p.1.announce bus .interruptsEnabled := by
  rw [execute?_eq, execute?_eq]
  simp only [perform_reti]
  rw [apply_ite (Option.map _)]
  rfl

theorem handlerCalls_reti :
    m.handlerCalls bus .reti =
      (m.handlerCalls bus (.ret none)).map (· ++ [.event .interruptsEnabled]) := by
  rw [handlerCalls, execute?_reti, handlerCalls, Option.map_map, Option.map_map]
  congr 1
  funext p
  exact Array.toList_push

/-! ## Steps -/

/-- The step that executes `x` calls a subroutine at `target`, to return to `back`: it stores the
address `back`, the high byte first, and nothing else. -/
structure Enters (x : Execution) (back target : UInt16) : Prop where
  core : (m.step bus).machine.core =
    { m.core with
      regs := { m.core.regs with sp := m.core.regs.sp - 2, pc := target }
      budget := x.instruction.ticks + m.extraTicks x
      fetched := x.record }
  env : (m.step bus).machine.env =
    bus.executed x
      (bus.writeAll [(m.core.regs.sp - 1, hi back), (m.core.regs.sp - 2, lo back)]
        (m.ownReads bus x).2)

section Executed

variable {bus m} {x : Execution} (h : (m.step bus).result = .ok (.executed x))

include h

/-- A step has called a subroutine if its operation has the effect of a call. -/
theorem enters_of_effect {target : UInt16}
    (hevent : x.instruction.operation.event? = none)
    (hloads : ∀ r : Registers, r.flags = m.core.regs.flags →
      x.instruction.operation.loads r (wordOfBytes x.operands) = [])
    (heffect : ∀ (r : Registers) (datum : UInt16), r.flags = m.core.regs.flags →
      x.instruction.operation.effect r (wordOfBytes x.operands) datum = callTo r target) :
    m.Enters bus x (x.addr + UInt16.ofNat x.instruction.length) target := by
  obtain ⟨-, -, -, rfl, hs⟩ := executed_of_step bus h
  have hflags := m.flags_fetchedCore bus
  have hnone : (m.nextInstruction bus).operation.event? = none := hevent
  rw [operands_nextExecution] at hloads heffect
  have hnextLoads : m.nextLoads bus = ([], (m.nextFetch bus).2) := by
    rw [nextLoads]
    exact congrArg (bus.readAll · _) (hloads _ hflags)
  have hnextEffect : m.nextEffect bus = callTo (m.fetchedCore bus).regs target :=
    heffect _ _ hflags
  constructor
  · rw [hs, executed, nextResponse, nextTicks_eq, hnextEffect, hnone, fetchedCore_eq]
    rfl
  · rw [hs, executed, hnextEffect, hnextLoads, hnone, regs_fetchedCore]
    rfl

theorem budget_step_of_executed :
    (m.step bus).machine.core.budget =
      x.instruction.operation.ticks + x.instruction.operation.penalty m.core.regs.flags := by
  obtain ⟨-, -, -, rfl, hs⟩ := executed_of_step bus h
  rw [hs, executed, budget_nextResponse, nextTicks, ticks_nextInstruction]
  rfl

theorem length_of_executed : x.instruction.length = x.instruction.operation.length := by
  obtain ⟨-, -, -, rfl, -⟩ := executed_of_step bus h
  exact m.length_nextInstruction bus

theorem enters_of_call {cc : Option Condition} (hop : x.instruction.operation = .call cc)
    (hcc : cc.all (·.holds m.core.regs.flags) = true) :
    m.Enters bus x (x.addr + 3) (wordOfBytes x.operands) := by
  have htaken {r : Registers} (hr : r.flags = m.core.regs.flags) :
      (Operation.call cc).taken r.flags = true := by
    rw [Operation.taken_eq, hr]
    exact hcc
  have hlength : x.instruction.length = 3 := by
    rw [length_of_executed h, hop]
    rfl
  rw [← show x.addr + UInt16.ofNat x.instruction.length = x.addr + 3 by rw [hlength]; rfl]
  apply enters_of_effect h
  · rw [hop]
    rfl
  · intro r _
    rw [hop]
    rfl
  · intro r datum hr
    rw [hop]
    exact if_pos (htaken hr)

theorem enters_of_rst {n : Fin 8} (hop : x.instruction.operation = .rst n) :
    m.Enters bus x (x.addr + 1) (UInt16.ofNat (8 * n)) := by
  have hlength : x.instruction.length = 1 := by
    rw [length_of_executed h, hop]
    rfl
  rw [← show x.addr + UInt16.ofNat x.instruction.length = x.addr + 1 by rw [hlength]; rfl,
    ← restartAddress_eq]
  apply enters_of_effect h
  · rw [hop]
    rfl
  · intro r _
    rw [hop]
    rfl
  · intro r datum _
    rw [hop]
    rfl

/-- The ticks that a taken conditional transfer loads, compared with those of the unconditional form
wherever that is executed. -/
theorem budget_of_holds {t : Transfer} {cc : Condition}
    (hop : x.instruction.operation = t.operation (some cc))
    (hcc : cc.holds m.core.regs.flags = true) {τ : Type} {other : Bus τ} {n : Machine τ}
    {y : Execution}
    (hy : (n.step other).result = .ok (.executed y))
    (hnone : y.instruction.operation = t.operation none) :
    (m.step bus).machine.core.budget = (n.step other).machine.core.budget + t.surcharge := by
  rw [budget_step_of_executed h, budget_step_of_executed hy, hop, hnone, t.penalty_of_holds hcc,
    t.penalty_none, t.ticks_add_takenPenalty]
  rfl

end Executed

/-! ## The law of transfers -/

/-- **The law of transfers.** In a state in which its condition holds, the handler of a conditional
transfer leaves the machine that the handler of the unconditional form leaves, with the penalty
added to the ticks, and makes the same calls to the bus; it fails only if there is no room for the
penalty. A restart is carried out as a call to its address, and RETI is carried out as RET, after
which the core enables interrupts and the bus learns of that. As to steps, a taken conditional
transfer loads as many ticks as the unconditional form does anywhere, RET four more; calls and
restarts push the address of the next instruction, which for a restart is the next address. -/
theorem transfer_law (bus : Bus σ) (m : Machine σ) :
    (∀ (t : Transfer) (cc : Condition), cc.holds m.core.regs.flags = true → ∀ budget,
      let k := m.setBudget budget
      let done := m.handled bus (t.operation none)
      let total := budget + (t.operation (some cc)).takenPenalty
      k.execute? bus (t.operation (some cc)) =
          (if total ≤ maxInstructionTicks then some (done.setBudget total, []) else none) ∧
        (budget ≤ maxInstructionTicks →
          k.execute? bus (t.operation none) = some (done.setBudget budget, [])) ∧
        (total ≤ maxInstructionTicks →
          ∃ calls, k.handlerCalls bus (t.operation (some cc)) = some calls ∧
            k.handlerCalls bus (t.operation none) = some calls)) ∧
    (∀ (n : Fin 8) (operand : UInt16),
      perform bus (.rst n) operand m = perform bus (.call none) (UInt16.ofNat (8 * n)) m) ∧
    (m.execute? bus .reti =
        ((m.execute? bus (.ret none)).map fun p => p.1.announce bus .interruptsEnabled) ∧
      m.handlerCalls bus .reti =
        (m.handlerCalls bus (.ret none)).map (· ++ [.event .interruptsEnabled]) ∧
      (m.announce bus .interruptsEnabled).1 =
        ⟨{ m.core with interrupts := true }, bus.notify .interruptsEnabled m.env⟩) ∧
    ∀ x, (m.step bus).result = .ok (.executed x) →
      x.addr = m.core.regs.pc ∧
      (∀ (t : Transfer) (cc : Condition), x.instruction.operation = t.operation (some cc) →
        cc.holds m.core.regs.flags = true →
        ∀ {τ : Type} (other : Bus τ) (n : Machine τ) (y : Execution),
          (n.step other).result = .ok (.executed y) →
          y.instruction.operation = t.operation none →
          (m.step bus).machine.core.budget =
            (n.step other).machine.core.budget + t.surcharge) ∧
      (∀ cc, x.instruction.operation = .call cc → cc.all (·.holds m.core.regs.flags) = true →
        m.Enters bus x (x.addr + 3) (wordOfBytes x.operands)) ∧
      ∀ n, x.instruction.operation = .rst n →
        m.Enters bus x (x.addr + 1) (UInt16.ofNat (8 * n)) := by
  refine ⟨?_, ?_, ⟨m.execute?_reti bus, m.handlerCalls_reti bus,
    m.announce_interruptsEnabled bus⟩, ?_⟩
  · intro t cc h budget k done total
    have hpenalty := t.penalty_of_holds h
    refine ⟨?_, ?_, ?_⟩
    · rw [execute?_setBudget bus m (t.event?_operation _), handled_of_holds bus h, hpenalty]
    · intro hbudget
      rw [execute?_setBudget bus m (t.event?_operation _), t.penalty_none, Nat.add_zero]
      exact if_pos hbudget
    · intro htotal
      -- What the two handlers leave on the recording bus is the same, its journal included.
      have hsame := handled_of_holds bus.recording (m := m.recorded) h t
      have hroom : budget + 0 ≤ maxInstructionTicks :=
        Nat.le_trans (Nat.le_add_right (budget + 0) _) htotal
      refine ⟨(m.recorded.handled bus.recording (t.operation none)).env.calls.toList, ?_, ?_⟩
      · rw [handlerCalls_setBudget bus m (t.event?_operation _), hpenalty, if_pos htotal, hsame]
      · rw [handlerCalls_setBudget bus m (t.event?_operation _), t.penalty_none, if_pos hroom]
  · intro n operand
    rw [perform_rst, restartAddress_eq]
  · intro x h
    refine ⟨(control_law bus h).1, ?_, fun cc hop hcc => enters_of_call h hop hcc,
      fun n hop => enters_of_rst h hop⟩
    intro t cc hop hcc τ other n y hy hnone
    exact budget_of_holds h hop hcc hy hnone

/-- A return on zero and a plain one, and a restart. -/
theorem transfer_law_ret :
    let bus := Bus.rom [0xC8]
    let other := Bus.rom [0xC9]
    let restart := Bus.rom [0xEF]
    let m : Machine Unit := ⟨{ regs := { af := 0x0080 } }, ()⟩
    let x : Execution := ⟨0, ⟨#v[0xC8, 0, 0], 1⟩, lookup 0xC8⟩
    let y : Execution := ⟨0, ⟨#v[0xC9, 0, 0], 1⟩, lookup 0xC9⟩
    let z : Execution := ⟨0, ⟨#v[0xEF, 0, 0], 1⟩, lookup 0xEF⟩
    Condition.z.holds m.core.regs.flags = true ∧
      (m.setBudget 8).execute? bus (.ret (some .z)) =
        some ((m.handled bus (.ret none)).setBudget 20, []) ∧
      (∃ calls, (m.setBudget 8).handlerCalls bus (.ret (some .z)) = some calls ∧
        (m.setBudget 8).handlerCalls bus (.ret none) = some calls) ∧
      (m.step bus).result = .ok (.executed x) ∧ (m.step other).result = .ok (.executed y) ∧
      (m.step bus).machine.core.budget = (m.step other).machine.core.budget + 4 ∧
      (m.step restart).result = .ok (.executed z) ∧ m.Enters restart z 1 0x28 := by
  intro bus other restart m x y z
  have hz : Condition.z.holds m.core.regs.flags = true := by decide
  have hx : (m.step bus).result = .ok (.executed x) :=
    StepResult.execution?_eq_some.1 (by decide +kernel)
  have hy : (m.step other).result = .ok (.executed y) :=
    StepResult.execution?_eq_some.1 (by decide +kernel)
  have hrestart : (m.step restart).result = .ok (.executed z) :=
    StepResult.execution?_eq_some.1 (by decide +kernel)
  obtain ⟨hhandlers, -, -, hsteps⟩ := transfer_law bus m
  obtain ⟨-, -, -, hrestarts⟩ := transfer_law restart m
  obtain ⟨hexecute, -, hcalls⟩ := hhandlers .ret .z hz 8
  obtain ⟨-, hbudget, -, -⟩ := hsteps x hx
  obtain ⟨-, -, -, henters⟩ := hrestarts z hrestart
  have hxop : x.instruction.operation = .ret (some .z) := lookup_operation 0xC8
  have hyop : y.instruction.operation = .ret none := lookup_operation 0xC9
  have hzop : z.instruction.operation = .rst 5 := lookup_operation 0xEF
  exact ⟨hz, hexecute, hcalls (by decide), hx, hy,
    hbudget .ret .z hxop hz other m y hy hyop, hrestart, henters 5 hzop⟩

end Machine

end Sm83
