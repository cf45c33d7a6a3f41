import Sm83.Disassembly
import Sm83.Proofs.Dispatch

/-!
# Executed instructions and the disassembler

The core fetches an instruction piece by piece and learns how many immediate bytes there are from
the operation, while the disassembler cuts a list of bytes by the lengths of the opcode tables.
They agree: the bytes of every executed instruction disassemble to that instruction, and the bytes
of a whole run are cut into the instructions of the run. Nothing is assumed of the bus, so the
bytes may have changed in memory by the time the run is over.

## Main definitions

* `Execution.IsListed`: the bytes of an executed instruction disassemble to it
* `Machine.executions`: the instructions that a list of commands executes

## Main results

* `disassemble_append`: the bytes behind an instruction make no difference
* `listing_flatMap`: the bytes of listed instructions are cut into these
* `Machine.isListed_nextExecution`: what the core executes is listed
* `Machine.listing_executions`: every run is the run that the disassembler describes
-/

namespace Sm83

/-! ## Cutting a list of bytes -/

/-- The bytes behind an instruction make no difference to it. -/
theorem disassemble_append {bytes : List UInt8} {i : Instruction} {text : String}
    (h : disassemble bytes = some (i, text)) (rest : List UInt8) :
    disassemble (bytes ++ rest) = some (i, text) := by
  cases bytes with
  | nil => cases h
  | cons opcode tail =>
    rw [List.cons_append]
    by_cases he : opcode = escapeByte
    · rw [disassemble, if_pos he] at h ⊢
      cases tail with
      | nil => cases h
      | cons extended tail => exact h
    · rw [disassemble, if_neg he] at h ⊢
      simp only [Option.ite_none_right_eq_some] at h ⊢
      obtain ⟨hn, hi⟩ := h
      refine ⟨?_, ?_⟩
      · rw [List.length_append]
        omega
      · rw [List.take_append_of_le_length hn]
        exact hi

theorem listing_append {bytes : List UInt8} {i : Instruction} {text : String}
    (h : disassemble bytes = some (i, text)) (hlen : bytes.length = i.length)
    (rest : List UInt8) :
    listing (bytes ++ rest) = ((i, text) :: (listing rest).1, (listing rest).2) := by
  rw [listing]
  split
  · rename_i hnone
    rw [disassemble_append h] at hnone
    cases hnone
  · rename_i hsome
    rw [disassemble_append h] at hsome
    cases hsome
    rw [← hlen, List.drop_left]

/-- The bytes of an executed instruction are as many as the table says, and disassemble to it. -/
structure Execution.IsListed (x : Execution) : Prop where
  length_bytes : x.bytes.length = x.instruction.length
  disassemble_bytes :
    disassemble x.bytes = some (x.instruction, x.instruction.render x.operands)

/-- **The bytes of listed instructions are cut into these instructions**, and nothing is left
over. -/
theorem listing_flatMap {xs : List Execution} (h : ∀ x ∈ xs, x.IsListed) :
    listing (xs.flatMap Execution.bytes) =
      (xs.map fun x => (x.instruction, x.instruction.render x.operands), []) := by
  induction xs with
  | nil =>
    rw [List.flatMap_nil, listing]
    rfl
  | cons x xs ih =>
    obtain ⟨hx, hxs⟩ := List.forall_mem_cons.1 h
    rw [List.flatMap_cons, listing_append hx.disassemble_bytes hx.length_bytes, ih hxs]
    rfl

/-! ## What the core executes -/

/-- The instruction that a command has executed. -/
def Reply.execution? {σ : Type} (reply : Reply σ) : Option Execution :=
  reply.result.bind StepResult.execution?

theorem Reply.execution?_eq_some {σ : Type} {reply : Reply σ} {x : Execution} :
    reply.execution? = some x ↔ reply.result = some (.ok (.executed x)) := by
  rw [execution?, Option.bind_eq_some_iff]
  constructor
  · rintro ⟨r, hr, hx⟩
    rw [hr, StepResult.execution?_eq_some.1 hx]
  · intro h
    exact ⟨_, h, rfl⟩

namespace Machine

variable {σ : Type} (bus : Bus σ)

/-- The escape byte is no instruction of its own: another opcode has been looked up instead. -/
theorem operation_nextInstruction_ne_escape (m : Machine σ) :
    (m.nextInstruction bus).operation ≠ .escape := by
  intro he
  obtain ⟨opcode, operands, hne, hi, -⟩ := nextFetch_of_not_isExtended bus (by rw [he]; rfl)
  rw [hi, lookup_operation] at he
  exact hne ((decode_eq_escape_iff opcode).1 he)

theorem disassemble_nextFetch (m : Machine σ) :
    disassemble (m.nextFetch bus).1 =
      some (m.nextInstruction bus, (m.nextInstruction bus).render (m.nextOperands bus)) := by
  rcases m.nextFetch_cases bus with
    ⟨opcode, hi, hb, ho⟩ | ⟨opcode, operands, hne, hi, hlen, hb, ho⟩
  · rw [hb, hi, ho, disassemble, if_pos rfl]
    rfl
  · have hn : (lookup opcode).length - 1 = operands.length := by
      rw [lookup_length, Operation.length, opcodeBytes_decode, hlen, Nat.add_sub_cancel_left]
    rw [hb, hi, ho, disassemble, if_neg hne]
    simp only [hn, Nat.le_refl, if_pos, List.take_length]

/-- **What the core executes is listed.** -/
theorem isListed_nextExecution (m : Machine σ) : (m.nextExecution bus).IsListed where
  length_bytes := by
    rw [bytes_nextExecution, length_nextFetch]
    rfl
  disassemble_bytes := by
    rw [bytes_nextExecution, operands_nextExecution]
    exact m.disassemble_nextFetch bus

/-! ## Runs -/

/-- The instructions that a list of commands executes, in order. -/
def executions (cs : List Command) (m : Machine σ) : List Execution :=
  (m.commands bus cs).1.filterMap Reply.execution?

theorem getElem?_commands (cs : List Command) (k : Nat) (m : Machine σ) :
    (m.commands bus cs).1[k]? =
      cs[k]?.map fun c => (m.commands bus (cs.take k)).2.command bus c := by
  induction cs generalizing k m with
  | nil => rfl
  | cons c cs ih =>
    cases k with
    | zero => rfl
    | succ k => exact ih k _

/-- An executed instruction is the one found at the program counter, whatever ticks are left of the
instruction before it. -/
theorem execution?_command {c : Command} {m : Machine σ} {x : Execution}
    (h : (m.command bus c).execution? = some x) :
    ((m.setBudget 0).nextInstruction bus).isValid = true ∧
      x = (m.setBudget 0).nextExecution bus := by
  obtain ⟨-, hi, hx, -⟩ := executed_of_command bus (Reply.execution?_eq_some.1 h)
  exact ⟨hi, hx⟩

theorem isListed_of_mem_executions {cs : List Command} {m : Machine σ} {x : Execution}
    (h : x ∈ m.executions bus cs) : x.IsListed := by
  obtain ⟨reply, hr, hx⟩ := List.mem_filterMap.1 h
  obtain ⟨k, hk⟩ := List.mem_iff_getElem?.1 hr
  rw [getElem?_commands] at hk
  obtain ⟨c, -, rfl⟩ := Option.map_eq_some_iff.1 hk
  obtain ⟨-, rfl⟩ := execution?_command bus hx
  exact isListed_nextExecution bus _

/-- **Every run is the run that the disassembler describes.** An executed instruction consists of
the bytes that the bus returns at its address when the command begins, as many as its table entry
says; it is neither the escape nor unassigned, and its text is its address and the text of the
disassembler. The bytes of all executed instructions in a row are cut into these instructions, and
nothing is left over. -/
theorem listing_executions (cs : List Command) (m : Machine σ) :
    (∀ k x, (m.commands bus cs).1[k]?.bind Reply.execution? = some x →
        let before := (m.commands bus (cs.take k)).2
        x.addr = before.core.regs.pc ∧
          x.bytes = (bus.readAll (addresses x.addr x.instruction.length) before.env).1 ∧
          x.bytes.length = x.instruction.length ∧
          x.instruction.operation ≠ .escape ∧ x.instruction.operation ≠ .invalid ∧
          ∃ text, disassemble x.bytes = some (x.instruction, text) ∧
            x.text = .ofList (Hex.digits 4 x.addr.toNat) ++ ": " ++ text) ∧
      listing ((m.executions bus cs).flatMap Execution.bytes) =
        ((m.executions bus cs).map fun x => (x.instruction, x.instruction.render x.operands),
          []) := by
  refine ⟨?_, listing_flatMap fun x hx => isListed_of_mem_executions bus hx⟩
  intro k x hx before
  obtain ⟨reply, hr, hx⟩ := Option.bind_eq_some_iff.1 hx
  rw [getElem?_commands] at hr
  obtain ⟨c, -, rfl⟩ := Option.map_eq_some_iff.1 hr
  obtain ⟨hi, rfl⟩ := execution?_command bus hx
  have hlisted := (before.setBudget 0).isListed_nextExecution bus
  refine ⟨rfl, (before.setBudget 0).bytes_nextExecution bus, hlisted.length_bytes,
    (before.setBudget 0).operation_nextInstruction_ne_escape bus, bne_iff_ne.1 hi, _,
    hlisted.disassemble_bytes, ?_⟩
  show hexWord _ ++ ": " ++ _ = _
  rw [hexWord_eq_text]
  rfl

/-- The second instruction of a run, with a slot that still holds a byte of the first one. -/
theorem listing_executions_second :
    let bus := Bus.rom [0x01, 0x34, 0x12, 0xF0, 0x44]
    let m : Machine Unit := ⟨.powerOn ⟨.zeroed, none⟩, ()⟩
    let cs := List.replicate 14 Command.step
    let x : Execution := ⟨3, ⟨#v[0xF0, 0x44, 0x12], 2⟩, lookup 0xF0⟩
    (m.commands bus cs).1[13]?.bind Reply.execution? = some x ∧
      x.addr = (m.commands bus (cs.take 13)).2.core.regs.pc ∧
      disassemble x.bytes = some (x.instruction, "LDH A, [0x44]") ∧
      x.text = "0003: LDH A, [0x44]" := by
  intro bus m cs x
  have hx : (m.commands bus cs).1[13]?.bind Reply.execution? = some x := by decide +kernel
  obtain ⟨haddr, -, -, -, -, text, hdisassemble, htext⟩ := (listing_executions bus cs m).1 13 x hx
  have hlisted : disassemble x.bytes = some (x.instruction, "LDH A, [0x44]") := by decide +kernel
  obtain ⟨-, rfl⟩ := Prod.mk.inj (Option.some_inj.1 (hdisassemble.symm.trans hlisted))
  exact ⟨hx, haddr, hdisassemble, htext.trans (by decide +kernel)⟩

end Machine

end Sm83
