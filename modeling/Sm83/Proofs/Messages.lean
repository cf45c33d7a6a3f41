import Sm83.Proofs.Events
import Sm83.Proofs.Frame
import Sm83.Proofs.LockUp
import Sm83.Proofs.Ticks

/-!
# What the log tells

The messages of the core are an account of its run. Each executed instruction is traced, in order,
and HALT and STOP are announced just before their trace. A change of the interrupt enable is
reported, and a request that changes nothing is not. A lock-up is reported once, with the registers
that the core had, and a wake is reported if it has left a waiting mode. Lines that the bus adds to
the log are left aside.

## Main definitions

* `Reply.messages`, `Machine.messages`: the messages of the core for a command and for a run
* `Execution.announcement`, `StepResult.account`: what the core says of an instruction and of a step
* `Message.WaitsTraced`: announced waits are followed by the trace of their instruction
* `Reply.lines`: the messages for a command as they are written to the log
* `Execution.announcementLines`, `Execution.traceLine`, `Core.wakeLines`,
  `Registers.lockUpLine`: the lines that belong there
* `Machine.IsAccounted`: what the messages for one command say, and what they read like

## Main results

* `Machine.messages_step`: the messages of a step, from its report and the cores around it
* `Machine.isAccounted`: the messages for every command but a reset are as they should be
* `Machine.filterMap_execution?_messages`, `Machine.waitsTraced_messages`,
  `Machine.isChain_interrupts`, `Machine.errors_messages`: what the messages of a run keep to
* `Machine.log_law`: the log is a faithful account of the run
-/

namespace Sm83

variable {σ : Type}

/-! ## Messages -/

namespace Message

/-- The executed instruction that is traced. -/
def execution? : Message → Option Execution
  | executed x => some x
  | halt _ | stop _ | interrupts .. | wake .. | lockUp .. => none

/-- The interrupt enable that is reported. -/
def interrupts? : Message → Option Bool
  | interrupts enabled _ => some enabled
  | executed _ | halt _ | stop _ | wake .. | lockUp .. => none

/-- The operation that makes the core wait, and its address, if they are announced. -/
def wait? : Message → Option (Operation × UInt16)
  | halt addr => some (.halt, addr)
  | stop addr => some (.stop, addr)
  | executed _ | interrupts .. | wake .. | lockUp .. => none

/-- The messages of the most severe level. -/
def errors (log : List Message) : List Message := log.filter (·.level = .error)

/-- Traces are the messages about executed instructions, and read like them. -/
theorem map_text_filter_trace (log : List Message) :
    (log.filter (·.level = .trace)).map text = (log.filterMap execution?).map Execution.text := by
  induction log with
  | nil => rfl
  | cons message log ih =>
    cases message with
    | executed x => exact congrArg (x.text :: ·) ih
    | halt | stop | interrupts | wake | lockUp => exact ih

/-- Each announced wait is followed by the trace of its instruction, whose address it names. -/
def WaitsTraced (log : List Message) : Prop :=
  ∀ i op addr, log[i]?.bind wait? = some (op, addr) →
    ∃ x, log[i + 1]? = some (executed x) ∧ x.instruction.operation = op ∧ x.addr = addr

theorem waitsTraced_of_wait?_eq_none {log : List Message}
    (h : ∀ message ∈ log, wait? message = none) :
    WaitsTraced log := by
  intro i op addr hi
  obtain ⟨message, hmem, hwait⟩ := Option.bind_eq_some_iff.1 hi
  rw [h message (List.mem_of_getElem? hmem)] at hwait
  cases hwait

theorem waitsTraced_nil : WaitsTraced [] :=
  waitsTraced_of_wait?_eq_none fun _ h => absurd h List.not_mem_nil

theorem waitsTraced_singleton {message : Message} (h : message.wait? = none) :
    WaitsTraced [message] :=
  waitsTraced_of_wait?_eq_none fun _ hmem => List.mem_singleton.1 hmem ▸ h

theorem WaitsTraced.append {xs ys : List Message} (hxs : WaitsTraced xs) (hys : WaitsTraced ys) :
    WaitsTraced (xs ++ ys) := by
  intro i op addr hi
  by_cases hlt : i < xs.length
  · -- The trace belongs to the same part: it is not the first message of the second one.
    rw [List.getElem?_append_left hlt] at hi
    obtain ⟨x, hx, hop, haddr⟩ := hxs i op addr hi
    obtain ⟨hlt', -⟩ := List.getElem?_eq_some_iff.1 hx
    exact ⟨x, (List.getElem?_append_left hlt').trans hx, hop, haddr⟩
  · have hle : xs.length ≤ i := Nat.le_of_not_lt hlt
    rw [List.getElem?_append_right hle] at hi
    obtain ⟨x, hx, hop, haddr⟩ := hys _ op addr hi
    refine ⟨x, ?_, hop, haddr⟩
    rw [List.getElem?_append_right (by omega), Nat.succ_sub hle]
    exact hx

end Message

/-- The messages of the core for a command. -/
def Reply.messages (reply : Reply σ) : List Message := reply.log.filterMap Entry.message?

/-! ## The account of a step -/

/-- What the core announces, if anything, before it traces an executed instruction, given the core
before and after it. -/
def Execution.announcement (x : Execution) (before after : Core) : List Message :=
  match x.instruction.operation.event? with
  | some .halted => [.halt x.addr]
  | some .stopped => [.stop x.addr]
  -- A request that changes nothing is passed over.
  | some .interruptsEnabled | some .interruptsDisabled =>
    if before.interrupts = after.interrupts then []
    else [.interrupts after.interrupts after.regs.pc]
  | some (.lockedUp ..) | none => []

/-- What the core says of a step, given the core before and after it. -/
def StepResult.account (before after : Core) : StepResult → List Message
  | .ok (.executed x) => x.announcement before after ++ [.executed x]
  | .error (.invalidOpcode opcode addr) => [.lockUp opcode addr after.regs]
  | .ok (.busy _) | .ok (.idle _) | .error (.locked ..) => []

theorem Operation.event?_eq_halted {op : Operation} : op.event? = some .halted ↔ op = .halt := by
  cases op <;> simp [event?]

theorem Operation.event?_eq_stopped {op : Operation} : op.event? = some .stopped ↔ op = .stop := by
  cases op <;> simp [event?]

theorem Operation.event?_ne_lockedUp (op : Operation) (opcode : UInt8) (addr : UInt16) :
    op.event? ≠ some (.lockedUp opcode addr) := by
  cases op <;> simp [event?]

theorem Operation.mem_requests_iff {op : Operation} :
    op ∈ [.ei, .di, .reti] ↔
      op.event? = some .interruptsEnabled ∨ op.event? = some .interruptsDisabled := by
  cases op <;> simp [event?]

theorem Core.interrupts_respond {op : Operation} (h : op ∉ [.ei, .di, .reti]) (c : Core) :
    (c.respond op.event?).1.interrupts = c.interrupts := by
  cases op with
  | ei | di | reti => exact absurd (by decide) h
  | _ => rfl

/-- The core's answer to the event of an operation that it has carried out, with the program counter
behind the bytes of the operation. -/
theorem Core.messages_respond (c : Core) {x : Execution}
    (hpc : x.instruction.operation = .halt ∨ x.instruction.operation = .stop →
      c.regs.pc = x.addr + UInt16.ofNat x.instruction.operation.length) :
    (c.respond x.instruction.operation.event?).2 =
      x.announcement c (c.respond x.instruction.operation.event?).1 := by
  unfold Execution.announcement
  cases hevent : x.instruction.operation.event? with
  | none => rfl
  | some e =>
    cases e with
    | interruptsEnabled | interruptsDisabled => rfl
    | halted =>
      have hop := Operation.event?_eq_halted.1 hevent
      have haddr : c.regs.pc - 1 = x.addr := by
        rw [hpc (.inl hop), hop]
        exact UInt16.add_sub_cancel x.addr 1
      exact congrArg (fun addr => [Message.halt addr]) haddr
    | stopped =>
      have hop := Operation.event?_eq_stopped.1 hevent
      have haddr : c.regs.pc - 2 = x.addr := by
        rw [hpc (.inr hop), hop]
        exact UInt16.add_sub_cancel x.addr 2
      exact congrArg (fun addr => [Message.stop addr]) haddr
    | lockedUp opcode addr => exact absurd hevent (Operation.event?_ne_lockedUp _ opcode addr)

/-! ### What every account keeps to -/

section

variable {x : Execution} (before after : Core)

theorem Execution.announcement_of_request (h : x.instruction.operation ∈ [.ei, .di, .reti]) :
    x.announcement before after =
      if before.interrupts = after.interrupts then []
      else [.interrupts after.interrupts after.regs.pc] := by
  unfold announcement
  rcases Operation.mem_requests_iff.1 h with hevent | hevent <;> rw [hevent]

/-- Any other announcement is that of a wait, at the address of its instruction. -/
theorem Execution.announcement_of_not_request (h : x.instruction.operation ∉ [.ei, .di, .reti]) :
    (∃ message, x.announcement before after = [message] ∧
        message.wait? = some (x.instruction.operation, x.addr)) ∨
      x.announcement before after = [] := by
  rw [Operation.mem_requests_iff, not_or] at h
  unfold announcement
  cases hevent : x.instruction.operation.event? with
  | none => exact .inr rfl
  | some e =>
    cases e with
    | halted =>
      rw [Operation.event?_eq_halted.1 hevent]
      exact .inl ⟨_, rfl, rfl⟩
    | stopped =>
      rw [Operation.event?_eq_stopped.1 hevent]
      exact .inl ⟨_, rfl, rfl⟩
    | interruptsEnabled => exact absurd hevent h.1
    | interruptsDisabled => exact absurd hevent h.2
    | lockedUp opcode addr => exact .inr rfl

/-- What is announced is a wait or a change of the interrupt enable. -/
theorem Execution.mem_announcement {message : Message}
    (h : message ∈ x.announcement before after) :
    message.wait? = some (x.instruction.operation, x.addr) ∨
      message = .interrupts after.interrupts after.regs.pc := by
  by_cases hop : x.instruction.operation ∈ [.ei, .di, .reti]
  · rw [announcement_of_request before after hop] at h
    split at h
    · cases h
    · exact .inr (List.mem_singleton.1 h)
  · rcases announcement_of_not_request before after hop with ⟨wait, heq, hwait⟩ | hnil
    · rw [heq, List.mem_singleton] at h
      exact .inl (h ▸ hwait)
    · rw [hnil] at h
      cases h

theorem Message.execution?_of_wait? {message : Message} {w : Operation × UInt16}
    (h : message.wait? = some w) :
    message.execution? = none ∧ message.interrupts? = none ∧ message.level ≠ .error := by
  cases message with
  | halt | stop => exact ⟨rfl, rfl, nofun⟩
  | executed | interrupts | wake | lockUp => cases h

/-- The traces in an account are those of the executed instruction. -/
theorem StepResult.filterMap_execution?_account (r : StepResult) :
    (r.account before after).filterMap Message.execution? = r.execution?.toList := by
  cases r with
  | error f => cases f <;> rfl
  | ok s =>
    cases s with
    | busy | idle => rfl
    | executed x =>
      have hnone : (x.announcement before after).filterMap Message.execution? = [] := by
        refine List.filterMap_eq_nil_iff.2 fun message hmem => ?_
        rcases Execution.mem_announcement before after hmem with hwait | rfl
        · exact (Message.execution?_of_wait? hwait).1
        · rfl
      rw [account, List.filterMap_append, hnone]
      rfl

/-- The only severe message is that of a lock-up. -/
theorem StepResult.errors_account (r : StepResult) :
    Message.errors (r.account before after) =
      match r with
      | .error (.invalidOpcode opcode addr) => [.lockUp opcode addr after.regs]
      | _ => [] := by
  cases r with
  | error f => cases f <;> rfl
  | ok s =>
    cases s with
    | busy | idle => rfl
    | executed x =>
      refine List.filter_eq_nil_iff.2 fun message hmem => ?_
      rw [decide_eq_true_iff]
      rcases List.mem_append.1 hmem with hmem | hmem
      · rcases Execution.mem_announcement before after hmem with hwait | rfl
        · exact (Message.execution?_of_wait? hwait).2.2
        · nofun
      · rw [List.mem_singleton.1 hmem]
        nofun

/-- Where the interrupt enable stays as it is, no change of it is reported. -/
theorem StepResult.filterMap_interrupts?_account (h : before.interrupts = after.interrupts)
    (r : StepResult) : (r.account before after).filterMap Message.interrupts? = [] := by
  cases r with
  | error f => cases f <;> rfl
  | ok s =>
    cases s with
    | busy | idle => rfl
    | executed x =>
      have hnone : (x.announcement before after).filterMap Message.interrupts? = [] := by
        by_cases hop : x.instruction.operation ∈ [.ei, .di, .reti]
        · rw [Execution.announcement_of_request before after hop, if_pos h]
          rfl
        · rcases Execution.announcement_of_not_request before after hop with
            ⟨message, heq, hwait⟩ | hnil
          · rw [heq, List.filterMap_cons_none (Message.execution?_of_wait? hwait).2.1]
            rfl
          · rw [hnil]
            rfl
      rw [account, List.filterMap_append, hnone]
      rfl

/-- An announced wait is followed by its trace. -/
theorem Execution.waitsTraced_announcement :
    Message.WaitsTraced (x.announcement before after ++ [.executed x]) := by
  have htrace : Message.WaitsTraced [.executed x] := Message.waitsTraced_singleton rfl
  by_cases hop : x.instruction.operation ∈ [.ei, .di, .reti]
  · refine Message.WaitsTraced.append ?_ htrace
    rw [announcement_of_request before after hop]
    split
    · exact Message.waitsTraced_nil
    · exact Message.waitsTraced_singleton rfl
  · rcases announcement_of_not_request before after hop with ⟨message, heq, hwait⟩ | hnil
    · -- The announcement is the first of two messages, and the trace is the second.
      rw [heq]
      intro i op addr hi
      match i with
      | 0 =>
        obtain ⟨rfl, rfl⟩ := Prod.mk.inj (Option.some_inj.1 (hwait.symm.trans hi))
        exact ⟨x, rfl, rfl, rfl⟩
      | 1 => cases hi
      | i + 2 => cases hi
    · rw [hnil]
      exact htrace

theorem StepResult.waitsTraced_account (r : StepResult) :
    Message.WaitsTraced (r.account before after) := by
  cases r with
  | error f =>
    cases f with
    | invalidOpcode opcode addr => exact Message.waitsTraced_singleton rfl
    | locked => exact Message.waitsTraced_nil
  | ok s =>
    cases s with
    | busy | idle => exact Message.waitsTraced_nil
    | executed x => exact Execution.waitsTraced_announcement before after

end

/-! ## The lines of the log

What the log is to read like is written out here, with every number in hexadecimal digits. -/

/-- A message is written to the log with its level and its text. -/
def Message.line (message : Message) : Level × String := (message.level, message.text)

/-- The messages of the core for a command as they are written to the log. -/
def Reply.lines (reply : Reply σ) : List (Level × String) :=
  reply.messages.map Message.line

/-- The line that traces an executed instruction: its address and what it reads like. -/
def Execution.traceLine (x : Execution) : Level × String :=
  (.trace, Hex.text 4 x.addr.toNat ++ ": " ++ x.instruction.render x.operands)

/-- The lines that announce an executed instruction, given the core before and after it. -/
def Execution.announcementLines (x : Execution) (before after : Core) : List (Level × String) :=
  match x.instruction.operation with
  | .halt => [(.debug, "SM83 HALT at PC=0x" ++ Hex.text 4 x.addr.toNat)]
  | .stop => [(.debug, "SM83 STOP at PC=0x" ++ Hex.text 4 x.addr.toNat)]
  | .ei | .di | .reti =>
    if before.interrupts = after.interrupts then []
    else [(.debug, "SM83 interrupts " ++ (if after.interrupts then "enabled" else "disabled") ++
      " at PC=0x" ++ Hex.text 4 after.regs.pc.toNat)]
  | _ => []

/-- The line about a lock-up by an opcode at an address, with the registers that the core had. -/
def Registers.lockUpLine (opcode : UInt8) (addr : UInt16) (r : Registers) : Level × String :=
  (.error, "SM83 locked: invalid opcode 0x" ++ Hex.text 2 opcode.toNat ++ " at PC=0x" ++
    Hex.text 4 addr.toNat ++ " (SP=0x" ++ Hex.text 4 r.sp.toNat ++ " AF=0x" ++
    Hex.text 4 r.af.toNat ++ " BC=0x" ++ Hex.text 4 r.bc.toNat ++ " DE=0x" ++
    Hex.text 4 r.de.toNat ++ " HL=0x" ++ Hex.text 4 r.hl.toNat ++ ")")

/-- The line about a wake from a waiting mode, if there is one. -/
def Core.wakeLines (c : Core) : List (Level × String) :=
  match c.mode with
  | .halted => [(.debug, "SM83 wake from Halted at PC=0x" ++ Hex.text 4 c.regs.pc.toNat)]
  | .stopped => [(.debug, "SM83 wake from Stopped at PC=0x" ++ Hex.text 4 c.regs.pc.toNat)]
  | .running | .locked .. => []

/-- What announces an instruction is written as it should be. -/
theorem Execution.map_line_announcement (x : Execution) (before after : Core) :
    (x.announcement before after).map Message.line = x.announcementLines before after := by
  unfold announcement announcementLines
  cases x.instruction.operation with
  | halt | stop => simp only [← hexWord_eq_text]; rfl
  | ei | di | reti =>
    simp only [← hexWord_eq_text]
    show List.map _ (if before.interrupts = after.interrupts then _ else _) = _
    split <;> rfl
  | _ => rfl

/-- An executed instruction is traced by its text. -/
theorem Execution.line_executed (x : Execution) :
    (Message.executed x).line = x.traceLine := by
  rw [traceLine, ← hexWord_eq_text]
  rfl

theorem Registers.line_lockUp (opcode : UInt8) (addr : UInt16) (r : Registers) :
    (Message.lockUp opcode addr r).line = r.lockUpLine opcode addr := by
  simp only [lockUpLine, ← hexWord_eq_text, ← hexByte_eq_text]
  rfl

namespace Machine

variable (bus : Bus σ) {m : Machine σ}

theorem interrupts_fetchedCore (m : Machine σ) :
    (m.fetchedCore bus).interrupts = m.core.interrupts := by
  rw [fetchedCore, Core.fetchAll_eq]
  rfl

theorem messages_nextResponse (m : Machine σ) :
    (m.nextResponse bus).2 =
      (m.nextExecution bus).announcement m.core (m.nextResponse bus).1 := by
  let ready : Core :=
    { m.fetchedCore bus with regs := (m.nextEffect bus).regs, budget := m.nextTicks bus }
  have hpc : (m.nextInstruction bus).operation = .halt ∨ (m.nextInstruction bus).operation = .stop →
      ready.regs.pc =
        m.core.regs.pc + UInt16.ofNat (m.nextInstruction bus).operation.length := by
    intro hop
    have hkeep : (m.nextInstruction bus).operation.isTransfer = false := by
      rcases hop with hop | hop <;> rw [hop] <;> rfl
    show (m.nextEffect bus).regs.pc = _
    rw [nextEffect, Operation.pc_effect_of_not_isTransfer hkeep, regs_fetchedCore,
      length_nextInstruction]
    rfl
  have hmessages := ready.messages_respond (x := m.nextExecution bus) hpc
  -- Only the interrupt enable of the core before matters, and the fetch leaves it alone.
  have hinterrupts : ready.interrupts = m.core.interrupts := interrupts_fetchedCore bus m
  simp only [Execution.announcement, hinterrupts] at hmessages
  exact hmessages

theorem filterMap_message?_core (messages : List Message) :
    (messages.map Entry.core).filterMap Entry.message? = messages := by
  rw [List.filterMap_map]
  exact List.filterMap_some

theorem filterMap_message?_host (remarks : List Remark) :
    (remarks.map Entry.host).filterMap Entry.message? = [] := by
  rw [List.filterMap_map, List.filterMap_eq_nil_iff]
  exact fun _ _ => rfl

/-- **What the core says of a step.** -/
theorem messages_step (m : Machine σ) :
    (m.command bus .step).messages =
      (m.step bus).result.account m.core (m.step bus).machine.core := by
  show (m.step bus).log.filterMap Entry.message? = _
  have ht := m.tick_step bus
  generalize m.step bus = o at ht ⊢
  cases ht with
  | locked | busy | idle => rfl
  | executed =>
    simp only [executed, List.filterMap_append, filterMap_message?_core, filterMap_message?_host,
      List.append_nil, messages_nextResponse]
    rfl
  | lockedUp =>
    simp only [lockedUp, List.filterMap_cons, Entry.message?, filterMap_message?_host]
    rfl

/-- **What the core says of a command that reports a step**, whatever ticks were in flight. -/
theorem messages_of_result {c : Command} {r : StepResult}
    (h : (m.command bus c).result = some r) :
    (m.command bus c).messages = r.account m.core (m.command bus c).machine.core := by
  obtain ⟨b, hc, -⟩ := exists_command_eq_step bus h
  rw [hc] at h ⊢
  rw [messages_step, Option.some_inj.1 h]
  cases r with
  | error f => cases f <;> rfl
  | ok s => cases s <;> rfl

theorem messages_wake (m : Machine σ) :
    (m.command bus .wake).messages =
      if m.core.mode.isWaiting then [.wake m.core.mode m.core.regs.pc] else [] := by
  show (m.core.wake.2.map Entry.core).filterMap Entry.message? = _
  rw [filterMap_message?_core, Core.wake, apply_ite Prod.snd]

/-- A command that reports no step is silent, or reports a wake. -/
theorem messages_of_result_none {c : Command} (h : (m.command bus c).result = none) :
    (m.command bus c).messages = [] ∨
      (m.command bus c).messages = [.wake m.core.mode m.core.regs.pc] := by
  cases c with
  | wake =>
    rw [messages_wake]
    cases m.core.mode.isWaiting with
    | true => exact .inr rfl
    | false => exact .inl rfl
  | reset | assign | setFlags | clearFlags => exact .inl rfl
  | step | stepInstruction => cases h

/-! ## The interrupt enable -/

theorem interrupts_nextResponse (h : (m.nextInstruction bus).operation ∉ [.ei, .di, .reti]) :
    (m.nextResponse bus).1.interrupts = m.core.interrupts :=
  (Core.interrupts_respond h _).trans (interrupts_fetchedCore bus m)

/-- Only an executed request changes the interrupt enable. -/
theorem mem_requests_of_interrupts_step_ne
    (h : m.core.interrupts ≠ (m.step bus).machine.core.interrupts) :
    ∃ x, (m.step bus).result = .ok (.executed x) ∧
      x.instruction.operation ∈ [.ei, .di, .reti] := by
  have ht := m.tick_step bus
  generalize m.step bus = o at h ht ⊢
  cases ht with
  | locked | busy | idle | lockedUp => exact absurd rfl h
  | executed =>
    refine ⟨_, rfl, ?_⟩
    by_contra hop
    exact h (interrupts_nextResponse bus hop).symm

theorem mem_requests_of_interrupts_ne {c : Command} (hc : c ≠ .reset)
    (h : m.core.interrupts ≠ (m.command bus c).machine.core.interrupts) :
    ∃ x, (m.command bus c).result = some (.ok (.executed x)) ∧
      x.instruction.operation ∈ [.ei, .di, .reti] := by
  cases hr : (m.command bus c).result with
  | some r =>
    obtain ⟨b, heq, -⟩ := exists_command_eq_step bus hr
    rw [heq] at h hr
    obtain ⟨x, hx, hop⟩ := mem_requests_of_interrupts_step_ne bus (m := m.setBudget b) h
    exact ⟨x, hr.symm.trans (congrArg some hx), hop⟩
  | none =>
    cases c with
    | wake =>
      refine absurd ?_ h
      show _ = m.core.wake.1.interrupts
      unfold Core.wake
      split <;> rfl
    | assign | setFlags | clearFlags => exact absurd rfl h
    | reset => exact absurd rfl hc
    | step | stepInstruction => cases hr

/-- **A change of the interrupt enable is reported**, and nothing else is reported as one. -/
theorem filterMap_interrupts?_command {c : Command} (hc : c ≠ .reset) :
    (m.command bus c).messages.filterMap Message.interrupts? =
      if m.core.interrupts = (m.command bus c).machine.core.interrupts then []
      else [(m.command bus c).machine.core.interrupts] := by
  by_cases hsame : m.core.interrupts = (m.command bus c).machine.core.interrupts
  · rw [if_pos hsame]
    cases hr : (m.command bus c).result with
    | some r => rw [messages_of_result bus hr, StepResult.filterMap_interrupts?_account _ _ hsame]
    | none =>
      rcases messages_of_result_none bus hr with h | h <;> rw [h] <;> rfl
  · obtain ⟨x, hx, hop⟩ := mem_requests_of_interrupts_ne bus hc hsame
    rw [messages_of_result bus hx, StepResult.account,
      Execution.announcement_of_request _ _ hop, if_neg hsame, if_neg hsame]
    rfl

/-! ## Commands -/

/-- **What the messages for a command say**, and the lines in which they say it. -/
structure IsAccounted (c : Command) (m : Machine σ) : Prop where
  /-- An executed instruction is traced, behind what it announces. -/
  executed : ∀ x : Execution, (m.command bus c).result = some (.ok (.executed x)) →
    (m.command bus c).messages =
      x.announcement m.core (m.command bus c).machine.core ++ [Message.executed x]
  /-- HALT and STOP are written with the address of the instruction, a change of the interrupt
  enable with what it is now and the program counter, and the trace with the address and the text of
  the instruction. -/
  executed_lines : ∀ x : Execution, (m.command bus c).result = some (.ok (.executed x)) →
    (m.command bus c).lines =
      x.announcementLines m.core (m.command bus c).machine.core ++ [x.traceLine]
  /-- A change of the interrupt enable is reported, and nothing else is reported as one. -/
  interrupts : (m.command bus c).messages.filterMap Message.interrupts? =
    if m.core.interrupts = (m.command bus c).machine.core.interrupts then []
    else [(m.command bus c).machine.core.interrupts]
  /-- Only EI, DI and RETI make such a change. -/
  requested : m.core.interrupts ≠ (m.command bus c).machine.core.interrupts →
    ∃ x, (m.command bus c).result = some (.ok (.executed x)) ∧
      x.instruction.operation ∈ [.ei, .di, .reti]
  /-- Each of them makes its event, whether it changes anything or not. -/
  heard : ∀ x : Execution, (m.command bus c).result = some (.ok (.executed x)) →
    x.instruction.operation ∈ [.ei, .di, .reti] →
      (m.calls bus [c]).filterMap BusCall.event? =
        [if x.instruction.operation = .di then .interruptsDisabled else .interruptsEnabled]
  /-- A lock-up is reported once, with the registers before it. -/
  lockedUp : ∀ opcode addr,
    (m.command bus c).result = some (.error (.invalidOpcode opcode addr)) →
      addr = m.core.regs.pc ∧ (m.command bus c).lines = [m.core.regs.lockUpLine opcode addr]
  /-- Attempts to step a core that is locked up go unreported. -/
  locked : ∀ opcode addr, (m.command bus c).result = some (.error (.locked opcode addr)) →
    (m.command bus c).messages = []
  /-- A wake is reported if the core has waited. -/
  woken : c = .wake → (m.command bus c).messages =
    if m.core.mode.isWaiting then [.wake m.core.mode m.core.regs.pc] else []
  /-- It is written with the name of the mode that was left. -/
  woken_lines : c = .wake → (m.command bus c).lines = m.core.wakeLines

/-- A lock-up leaves all registers but the program counter alone. -/
theorem step_of_invalidOpcode {opcode : UInt8} {addr : UInt16}
    (h : (m.step bus).result = .error (.invalidOpcode opcode addr)) :
    addr = m.core.regs.pc ∧ (m.step bus).machine.core.mode = .locked opcode addr ∧
      (m.step bus).machine.core.regs = m.core.regs.jump (m.core.regs.pc + 1) := by
  have ht := m.tick_step bus
  generalize m.step bus = o at h ht ⊢
  cases ht with
  | lockedUp =>
    cases h
    exact ⟨rfl, rfl, rfl⟩
  | locked | busy | idle | executed => cases h

theorem command_of_invalidOpcode {c : Command} {opcode : UInt8} {addr : UInt16}
    (h : (m.command bus c).result = some (.error (.invalidOpcode opcode addr))) :
    addr = m.core.regs.pc ∧ (m.command bus c).machine.core.mode = .locked opcode addr ∧
      (m.command bus c).machine.core.regs = m.core.regs.jump (m.core.regs.pc + 1) := by
  obtain ⟨b, hresult, hmachine, -⟩ := exists_step_of_command bus h
  rw [hmachine]
  exact step_of_invalidOpcode bus hresult

/-- **The messages for a command are as they should be.** -/
theorem isAccounted {c : Command} (hc : c ≠ .reset) : m.IsAccounted bus c where
  executed x hx := messages_of_result bus hx
  executed_lines x hx := by
    rw [Reply.lines, messages_of_result bus hx, StepResult.account, List.map_append,
      Execution.map_line_announcement, List.map_singleton, Execution.line_executed]
  interrupts := filterMap_interrupts?_command bus hc
  requested := mem_requests_of_interrupts_ne bus hc
  heard x hx hop := by
    rw [← heard, heard_of_executed bus hx]
    simp only [List.mem_cons, List.not_mem_nil, or_false] at hop
    rcases hop with hop | hop | hop <;> rw [hop] <;> rfl
  lockedUp opcode addr h := by
    obtain ⟨haddr, -, hregs⟩ := command_of_invalidOpcode bus h
    refine ⟨haddr, ?_⟩
    rw [Reply.lines, messages_of_result bus h, StepResult.account, List.map_singleton,
      Registers.line_lockUp, hregs]
    -- The line does not show the program counter, which is already behind the opcode.
    rfl
  locked opcode addr h := messages_of_result bus h
  woken h := h ▸ messages_wake bus m
  woken_lines h := by
    rw [h, Reply.lines, messages_wake, Core.wakeLines]
    cases m.core.mode with
    | halted | stopped => rw [← hexWord_eq_text]; rfl
    | running | locked => rfl

/-! ## Runs -/

/-- The messages of the core during a run. -/
def messages (cs : List Command) (m : Machine σ) : List Message :=
  (m.commands bus cs).1.flatMap Reply.messages

theorem messages_cons (c : Command) (cs : List Command) (m : Machine σ) :
    m.messages bus (c :: cs) =
      (m.command bus c).messages ++ (m.command bus c).machine.messages bus cs := rfl

/-- **The traces are those of the executed instructions**, in order. -/
theorem filterMap_execution?_messages (cs : List Command) (m : Machine σ) :
    (m.messages bus cs).filterMap Message.execution? = m.executions bus cs := by
  have hcommand (reply : Reply σ) (hreply : reply ∈ (m.commands bus cs).1) :
      reply.messages.filterMap Message.execution? = reply.execution?.toList := by
    obtain ⟨k, hk⟩ := List.mem_iff_getElem?.1 hreply
    rw [getElem?_commands] at hk
    obtain ⟨c, -, rfl⟩ := Option.map_eq_some_iff.1 hk
    rw [Reply.execution?]
    cases hr : ((m.commands bus (cs.take k)).2.command bus c).result with
    | some r =>
      rw [messages_of_result bus hr, StepResult.filterMap_execution?_account]
      rfl
    | none =>
      rcases messages_of_result_none bus hr with h | h <;> rw [h] <;> rfl
  rw [messages, List.filterMap_flatMap, executions, List.filterMap_eq_flatMap_toList]
  exact List.flatMap_congr hcommand

/-- **Every announced wait is followed by its trace.** -/
theorem waitsTraced_messages (cs : List Command) (m : Machine σ) :
    Message.WaitsTraced (m.messages bus cs) := by
  induction cs generalizing m with
  | nil => exact Message.waitsTraced_nil
  | cons c cs ih =>
    refine Message.WaitsTraced.append ?_ (ih _)
    cases hr : (m.command bus c).result with
    | some r =>
      rw [messages_of_result bus hr]
      exact r.waitsTraced_account _ _
    | none =>
      rcases messages_of_result_none bus hr with h | h
      · rw [h]
        exact Message.waitsTraced_nil
      · rw [h]
        exact Message.waitsTraced_singleton rfl

/-- **Reported changes of the interrupt enable alternate**, from the one that there was before. -/
theorem isChain_interrupts {cs : List Command} (hcs : ∀ c ∈ cs, c ≠ .reset) (m : Machine σ) :
    (m.core.interrupts :: (m.messages bus cs).filterMap Message.interrupts?).IsChain (· ≠ ·) := by
  induction cs generalizing m with
  | nil => exact .singleton _
  | cons c cs ih =>
    obtain ⟨hc, hrest⟩ := List.forall_mem_cons.1 hcs
    have htail := ih hrest (m.command bus c).machine
    rw [messages_cons, List.filterMap_append, filterMap_interrupts?_command bus hc]
    split
    · rename_i hsame
      rw [List.nil_append, hsame]
      exact htail
    · rename_i hne
      exact List.isChain_cons_cons.2 ⟨hne, htail⟩

/-! ### Severe messages -/

/-- A command locks the core up and says so, or it does neither. -/
theorem errors_command {c : Command} (hc : c ≠ .reset) (hl : m.core.mode.isLocked = false) :
    (∃ opcode addr regs, (m.command bus c).machine.core.mode = .locked opcode addr ∧
        Message.errors (m.command bus c).messages = [.lockUp opcode addr regs]) ∨
      (m.command bus c).machine.core.mode.isLocked = false ∧
        Message.errors (m.command bus c).messages = [] := by
  cases hr : (m.command bus c).result with
  | some r =>
    rw [messages_of_result bus hr, StepResult.errors_account]
    by_cases hlock : ∃ opcode addr, r = .error (.invalidOpcode opcode addr)
    · obtain ⟨opcode, addr, rfl⟩ := hlock
      exact .inl ⟨opcode, addr, _, (command_of_invalidOpcode bus hr).2.1, rfl⟩
    · rw [not_exists] at hlock
      obtain ⟨b, hresult, hmachine, -⟩ := exists_step_of_command bus hr
      refine .inr ⟨?_, ?_⟩
      · rw [hmachine]
        refine isLocked_step bus (m := m.setBudget b) hl fun opcode addr h => ?_
        exact hlock opcode ⟨addr, hresult.symm.trans h⟩
      · split
        · exact absurd ⟨_, rfl⟩ (hlock _)
        · rfl
  | none =>
    right
    refine ⟨?_, ?_⟩
    · cases c with
      | wake => exact isLocked_wake hl
      | assign | setFlags | clearFlags => exact hl
      | reset => exact absurd rfl hc
      | step | stepInstruction => cases hr
    · rcases messages_of_result_none bus hr with h | h <;> rw [h] <;> rfl

theorem messages_of_locked {opcode : UInt8} {addr : UInt16} {cs : List Command}
    (h : m.core.mode = .locked opcode addr) (hcs : ∀ c ∈ cs, c ≠ .reset) :
    m.messages bus cs = [] := by
  induction cs generalizing m with
  | nil => rfl
  | cons c cs ih =>
    obtain ⟨hc, hrest⟩ := List.forall_mem_cons.1 hcs
    rw [messages_cons, command_of_locked bus h hc]
    exact ih h hrest

/-- **There is one severe message for a lock-up**, and none without. -/
theorem errors_messages {cs : List Command} (hcs : ∀ c ∈ cs, c ≠ .reset)
    (hl : m.core.mode.isLocked = false) :
    (∃ opcode addr regs, (m.commands bus cs).2.core.mode = .locked opcode addr ∧
        Message.errors (m.messages bus cs) = [.lockUp opcode addr regs]) ∨
      (m.commands bus cs).2.core.mode.isLocked = false ∧
        Message.errors (m.messages bus cs) = [] := by
  induction cs generalizing m with
  | nil => exact .inr ⟨hl, rfl⟩
  | cons c cs ih =>
    obtain ⟨hc, hrest⟩ := List.forall_mem_cons.1 hcs
    have happend : Message.errors (m.messages bus (c :: cs)) =
        Message.errors (m.command bus c).messages ++
          Message.errors ((m.command bus c).machine.messages bus cs) := List.filter_append ..
    have hlast : (m.commands bus (c :: cs)).2 = ((m.command bus c).machine.commands bus cs).2 := rfl
    rw [happend, hlast]
    rcases errors_command bus hc hl with ⟨opcode, addr, regs, hmode, herrors⟩ | ⟨hmode, herrors⟩
    · -- Once the core is locked up it stays so, and nothing more is said.
      refine .inl ⟨opcode, addr, regs, ?_, ?_⟩
      · rw [commands_of_locked bus hmode hrest]
        exact hmode
      · rw [herrors, messages_of_locked bus hmode hrest]
        rfl
    · rw [herrors, List.nil_append]
      exact ih hrest hmode

/-! ## The law of the log -/

/-- **The log is a faithful account of the run.** From power-on, whatever the bus, and whatever is
done to the core but a reset, the traces are the texts of the executed instructions that the bus
learns of, in order; every announced HALT or STOP is followed by its trace, and names its address;
the reported changes of the interrupt enable alternate, beginning with "enabled"; and there is one
error if the core has locked up, and none otherwise. What is said of the single commands, and the
lines that are written for them, are given by `IsAccounted`. -/
theorem log_law {config : Config} (hm : m.core = .powerOn config) {cs : List Command}
    (hcs : ∀ c ∈ cs, c ≠ .reset) :
    let log := m.messages bus cs
    let last := (m.commands bus cs).2.core
    (log.filter (·.level = .trace)).map Message.text =
        ((m.calls bus cs).filterMap BusCall.execution?).map Execution.text ∧
      Message.WaitsTraced log ∧
      (false :: log.filterMap Message.interrupts?).IsChain (· ≠ ·) ∧
      ((∃ opcode addr regs, last.mode = .locked opcode addr ∧
          Message.errors log = [.lockUp opcode addr regs]) ∨
        last.mode.isLocked = false ∧ Message.errors log = []) ∧
      ∀ (n : Machine σ) (c : Command), c ≠ .reset → n.IsAccounted bus c := by
  intro log last
  have hl : m.core.mode.isLocked = false := by rw [hm]; rfl
  have hi : m.core.interrupts = false := by rw [hm]; rfl
  refine ⟨?_, waitsTraced_messages bus cs m, hi ▸ isChain_interrupts bus hcs m,
    errors_messages bus hcs hl, fun n c hc => isAccounted bus hc⟩
  rw [Message.map_text_filter_trace, filterMap_execution?_messages, filterMap_execution?_calls]

/-- EI twice, HALT, a wake, and an unassigned opcode. -/
theorem log_law_halt :
    let bus := Bus.rom [0xFB, 0xFB, 0x76, 0xD3]
    let m : Machine Unit := ⟨.powerOn ⟨.zeroed, none⟩, ()⟩
    let cs := List.replicate 11 Command.step ++ .wake :: List.replicate 6 .step
    let log := m.messages bus cs
    let before (k : Nat) := (m.commands bus (cs.take k)).2
    (∀ c ∈ cs, c ≠ .reset) ∧
      log.filterMap Message.interrupts? = [true] ∧
      log[3]?.bind Message.wait? = some (.halt, 2) ∧
      (∃ x, log[4]? = some (.executed x) ∧ x.instruction.operation = .halt ∧ x.addr = 2) ∧
      (∃ regs, Message.errors log = [.lockUp 0xD3 3 regs]) ∧
      ((before 0).command bus .step).lines =
        [(.debug, "SM83 interrupts enabled at PC=0x0001"), (.trace, "0000: EI")] ∧
      ((before 10).command bus .step).lines =
        [(.debug, "SM83 HALT at PC=0x0002"), (.trace, "0002: HALT")] ∧
      ((before 11).command bus .wake).messages = [.wake .halted 3] ∧
      ((before 11).command bus .wake).lines = [(.debug, "SM83 wake from Halted at PC=0x0003")] ∧
      ((before 16).command bus .step).lines =
        [(.error, "SM83 locked: invalid opcode 0xD3 at PC=0x0003 " ++
          "(SP=0x0000 AF=0x0000 BC=0x0000 DE=0x0000 HL=0x0000)")] := by
  intro bus m cs log before
  have hcs : ∀ c ∈ cs, c ≠ .reset := by decide
  let enable : Execution := ⟨0, ⟨#v[0xFB, 0x00, 0x00], 1⟩, lookup 0xFB⟩
  let halt : Execution := ⟨2, ⟨#v[0x76, 0x00, 0x00], 1⟩, lookup 0x76⟩
  -- The run is evaluated once, for all that is read off it.
  obtain ⟨hinterrupts, hwait, hmode, hwaiting, hpc⟩ :
      log.filterMap Message.interrupts? = [true] ∧
        log[3]?.bind Message.wait? = some (.halt, 2) ∧
        (m.commands bus cs).2.core.mode = .locked 0xD3 3 ∧
        (before 11).core.mode = .halted ∧ (before 11).core.regs.pc = 3 := by
    decide +kernel
  have henable : ((before 0).command bus .step).result = some (.ok (.executed enable)) :=
    Reply.execution?_eq_some.1 (by decide +kernel)
  have hhalt : ((before 10).command bus .step).result = some (.ok (.executed halt)) :=
    Reply.execution?_eq_some.1 (by decide +kernel)
  have hlock : ((before 16).command bus .step).result = some (.error (.invalidOpcode 0xD3 3)) := by
    decide +kernel
  obtain ⟨-, htraced, -, herrors, haccounted⟩ := log_law bus (m := m) rfl hcs
  have hstep (k : Nat) := haccounted (before k) .step (by decide)
  have hwake := haccounted (before 11) .wake (by decide)
  refine ⟨hcs, hinterrupts, hwait, htraced 3 .halt 2 hwait, ?_, ?_, ?_, ?_, ?_, ?_⟩
  · rcases herrors with ⟨opcode, addr, regs, hlast, herrors⟩ | ⟨hlast, -⟩
    · obtain ⟨rfl, rfl⟩ := Mode.locked.inj (hlast.symm.trans hmode)
      exact ⟨regs, herrors⟩
    · rw [hmode] at hlast
      cases hlast
  · exact ((hstep 0).executed_lines enable henable).trans (by decide +kernel)
  · exact ((hstep 10).executed_lines halt hhalt).trans (by decide +kernel)
  · rw [hwake.woken rfl, hwaiting, hpc]
    rfl
  · rw [hwake.woken_lines rfl, Core.wakeLines, hwaiting, hpc]
    decide +kernel
  · rw [((hstep 16).lockedUp 0xD3 3 hlock).2]
    decide +kernel

end Machine

end Sm83
