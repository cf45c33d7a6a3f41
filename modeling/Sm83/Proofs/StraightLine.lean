import Mathlib.Data.Fin.VecNotation
import Sm83.Proofs.Control
import Sm83.Proofs.Journal

/-!
# Straight-line instructions

An instruction that neither transfers control nor announces an event goes on to the next one. Its
operation does not depend on the program counter, so the step can be described without the fetch
before it: the operation is applied to the registers as they are before the step, and the program
counter is moved behind the bytes of the instruction.

## Main definitions

* `Operation.IsStraightLine`: the operations that go on to the next instruction
* `Machine.Performs`: what a step that executes such an instruction does
* `columnRegister?`, `Registers.valueAt`, `Registers.setAt`: byte operands by their number

## Main results

* `Operation.loads_jump`, `Operation.effect_jump`: only transfers depend on the program counter
* `Machine.exists_performs`: a step in terms of the registers before it
* `Machine.fetch_of_decode`, `Machine.fetch_of_escape`: the operation from the first bytes
-/

namespace Sm83

/-! ## The program counter is left alone -/

namespace Registers

variable (r : Registers) (target : UInt16)

theorem flags_jump : (r.jump target).flags = r.flags := rfl

theorem setFlags_jump (f : Flags) : (r.jump target).setFlags f = (r.setFlags f).jump target := rfl

end Registers

/-- The effect with the program counter moved afterwards. -/
def Effect.jump (e : Effect) (target : UInt16) : Effect := { e with regs := e.regs.jump target }

namespace ByteOperand

theorem value_jump (src : ByteOperand) (r : Registers) (target : UInt16) (datum : UInt8) :
    src.value (r.jump target) datum = src.value r datum := by
  cases src <;> rfl

theorem write_jump (dst : ByteOperand) (r : Registers) (target : UInt16) (v : UInt8) :
    dst.write (r.jump target) v = (dst.write r v).jump target := by
  cases dst <;> rfl

end ByteOperand

namespace Operation

/-- The operation goes on to the next instruction: it neither transfers control nor announces an
event. -/
structure IsStraightLine (op : Operation) : Prop where
  transfer : op.isTransfer = false
  event : op.event? = none
  valid : op ≠ .invalid

variable {op : Operation} (h : op.isTransfer = false)

include h

theorem loads_jump (r : Registers) (target operand : UInt16) :
    op.loads (r.jump target) operand = op.loads r operand := by
  cases op with
  | loadA p => cases p <;> rfl
  | ret | reti => cases h
  | _ => rfl

/-- **Only transfers depend on the program counter**: what another operation does may be done before
the program counter is moved. -/
theorem effect_jump (r : Registers) (target operand datum : UInt16) :
    op.effect (r.jump target) operand datum = (op.effect r operand datum).jump target := by
  cases op with
  | jr | jp | jpHl | call | ret | reti | rst => cases h
  | ld dst src =>
    simp only [effect, ByteOperand.value_jump, ByteOperand.write_jump]
  | ldImm dst | inc dst | dec dst | rotate _ dst | res _ dst | set _ dst =>
    simp only [effect, ByteOperand.value_jump, Registers.flags_jump, Registers.setFlags_jump,
      ByteOperand.write_jump]
  | alu _ src | bit _ src =>
    simp only [effect, ByteOperand.value_jump]
    rfl
  | ldImm16 dst | pop dst | inc16 dst | dec16 dst | addHl dst | push dst => cases dst <;> rfl
  | storeA p | loadA p => cases p <;> rfl
  | _ => rfl

end Operation

/-! ## Steps -/

namespace Machine

variable {σ : Type} (bus : Bus σ)

/-- A step executes the instruction `x` with the given bytes in so many ticks. It reads the bytes of
the instruction and then at `loads`, stores `stores` and leaves the registers `regs`, except that
the program counter stands behind the instruction. Of the core it changes nothing but the registers,
the ticks in flight and the record of the fetch. -/
structure Performs (m : Machine σ) (x : Execution) (bytes : List UInt8) (ticks : ℕ)
    (loads : List UInt16) (stores : List (UInt16 × UInt8)) (regs : Registers) : Prop where
  result : (m.step bus).result = .ok (.executed x)
  addr : x.addr = m.core.regs.pc
  bytes_eq : x.bytes = bytes
  core : (m.step bus).machine.core =
    { m.core with
      regs := regs.jump (m.core.regs.pc + UInt16.ofNat bytes.length)
      budget := ticks
      fetched := x.record }
  env : (m.step bus).machine.env =
    let fetch := bus.readAll (addresses m.core.regs.pc bytes.length) m.env
    bus.executed x (bus.writeAll stores (bus.readAll loads fetch.2).2)
  calls : m.calls bus [.step] =
    let fetch := bus.readAll (addresses m.core.regs.pc bytes.length) m.env
    BusCall.reads (addresses m.core.regs.pc bytes.length) bytes ++
      BusCall.reads loads (bus.readAll loads fetch.2).1 ++
      BusCall.writes stores ++ [.executed x]
  log : (m.step bus).log = [.core (.executed x)]

variable {bus} {m : Machine σ}

section NotTransfer

variable (h : (m.nextInstruction bus).operation.isTransfer = false)

include h

theorem nextLoads_of_not_isTransfer :
    m.nextLoads bus =
      bus.readAll ((m.nextInstruction bus).operation.loads m.core.regs (m.nextOperand bus))
        (m.nextFetch bus).2 := by
  rw [nextLoads, regs_fetchedCore, Operation.loads_jump h]

theorem nextEffect_of_not_isTransfer :
    m.nextEffect bus =
      ((m.nextInstruction bus).operation.effect m.core.regs (m.nextOperand bus)
        (wordOfBytes (m.nextLoads bus).1)).jump
          (m.core.regs.pc + UInt16.ofNat (m.nextFetch bus).1.length) := by
  rw [nextEffect, regs_fetchedCore, Operation.effect_jump h, length_nextFetch]

theorem nextTicks_of_not_isTransfer :
    m.nextTicks bus = (m.nextInstruction bus).operation.ticks := by
  rw [nextTicks, Operation.penalty_of_not_isTransfer h, ticks_nextInstruction, Nat.add_zero]

end NotTransfer

/-- **A step in terms of the registers before it.** The operation is found by the fetch; what it
reads, stores and leaves in the registers may be computed without it. -/
theorem exists_performs (hm : m.core.mode = .running) (hb : m.core.budget = 0) {op : Operation}
    (hop : (m.nextInstruction bus).operation = op) (hline : op.IsStraightLine) {bytes : List UInt8}
    {env : σ} (hfetch : m.nextFetch bus = (bytes, env)) {ticks : ℕ} (hticks : op.ticks = ticks)
    {loads : List UInt16} (hloads : op.loads m.core.regs (m.nextOperand bus) = loads)
    {stores : List (UInt16 × UInt8)} {regs : Registers}
    (hstores : (op.effect m.core.regs (m.nextOperand bus)
      (wordOfBytes (bus.readAll loads env).1)).stores = stores)
    (hregs : (op.effect m.core.regs (m.nextOperand bus)
      (wordOfBytes (bus.readAll loads env).1)).regs = regs) :
    ∃ x, m.Performs bus x bytes ticks loads stores regs := by
  have htransfer : (m.nextInstruction bus).operation.isTransfer = false := hop ▸ hline.transfer
  have hlen : (m.nextInstruction bus).length = bytes.length := by
    rw [← length_nextFetch, hfetch]
  have hreads : bus.readAll (addresses m.core.regs.pc bytes.length) m.env = (bytes, env) := by
    rw [← hlen, ← hfetch, nextFetch]
  have hnextLoads : m.nextLoads bus = bus.readAll loads env := by
    rw [nextLoads_of_not_isTransfer htransfer, hop, hloads, hfetch]
  have hnextEffect := nextEffect_of_not_isTransfer htransfer
  rw [hop, hnextLoads, hfetch] at hnextEffect
  have hnextStores : (m.nextEffect bus).stores = stores := by
    rw [hnextEffect, ← hstores]
    rfl
  -- No event follows, so that the core is left as the effect and the fetch leave it.
  have hresponse : m.nextResponse bus =
      ({ m.core with
          regs := regs.jump (m.core.regs.pc + UInt16.ofNat bytes.length)
          budget := ticks
          fetched := (m.fetchedCore bus).fetched }, []) := by
    rw [nextResponse, nextTicks_of_not_isTransfer htransfer, hop, hline.event, hnextEffect, hticks,
      ← hregs, fetchedCore_eq]
    rfl
  have hvalid : (m.nextInstruction bus).isValid = true := by
    rw [Instruction.isValid, hop, bne_iff_ne]
    exact hline.valid
  have hstep : m.step bus = m.executed bus := by
    rw [step_of_running bus hm hb, executeNext_of_isValid bus m hvalid]
  refine ⟨m.nextExecution bus, ?_, rfl, ?_, ?_, ?_, ?_, ?_⟩
  · rw [hstep]
    rfl
  · rw [bytes_nextExecution, hfetch]
  · rw [hstep, executed, hresponse]
    rfl
  · rw [hstep, executed, hnextLoads, hnextStores, hop, hline.event, hreads]
    rfl
  · rw [calls_step_of_isValid bus hm hb hvalid, nextCalls]
    simp only [hlen, hreads, hfetch, hnextLoads, hnextStores, hop, hline.event, regs_fetchedCore,
      Operation.loads_jump hline.transfer, hloads]
    rw [Option.toList_none, List.map_nil, List.append_nil]
  · rw [hstep, executed, hresponse, hop, hline.event]
    rfl

/-! ### Fetching -/

/-- The operation and the bytes of an instruction of the first table. -/
theorem fetch_of_decode {op : Operation} (h : decode (bus.read m.core.regs.pc m.env).1 = op)
    (hne : op ≠ .escape) :
    (m.nextInstruction bus).operation = op ∧
      m.nextFetch bus = bus.readAll (addresses m.core.regs.pc op.length) m.env := by
  have hfirst : (bus.read m.core.regs.pc m.env).1 ≠ escapeByte := by
    rw [Ne, ← decode_eq_escape_iff, h]
    exact hne
  have hi := nextInstruction_of_ne_escape bus hfirst
  refine ⟨by rw [hi, lookup_operation, h], ?_⟩
  rw [nextFetch, hi, lookup_length, h]

/-- The operation and the bytes of an instruction of the second table. -/
theorem fetch_of_escape (h : (bus.read m.core.regs.pc m.env).1 = escapeByte) :
    let second := bus.read (m.core.regs.pc + 1) (bus.read m.core.regs.pc m.env).2
    (m.nextInstruction bus).operation = decodeExtended second.1 ∧
      m.nextFetch bus = ([escapeByte, second.1], second.2) := by
  have hi := nextInstruction_of_escape bus h
  refine ⟨by rw [hi, lookupExtended_operation], ?_⟩
  rw [nextFetch, hi, lookupExtended_length, ← h]
  rfl

end Machine

/-! ## Operands by their number -/

/-- The fields of an opcode that is given by them. -/
theorem fields_of_eq {b : UInt8} {x : Fin 4} {y z : Fin 8} (h : b = .ofNat (64 * x + 8 * y + z)) :
    block b = x ∧ row b = y ∧ column b = z := by
  have hlt : 64 * x.val + 8 * y + z < UInt8.size := by
    show _ < 256
    omega
  have hb : b.toNat = 64 * x + 8 * y + z := by
    rw [h, UInt8.toNat_ofNat_of_lt' hlt]
  refine ⟨Fin.ext ?_, Fin.ext ?_, Fin.ext ?_⟩
  · show b.toNat / 64 = x
    omega
  · show b.toNat / 8 % 8 = y
    omega
  · show b.toNat % 8 = z
    omega

/-- The registers in the order of the last three bits of an opcode. The place of the missing one is
that of the byte in memory at HL. -/
def columnRegister? (z : Fin 8) : Option ByteRegister :=
  ![some .b, some .c, some .d, some .e, some .h, some .l, none, some .a] z

theorem register?_ofIndex (z : Fin 8) : (ByteOperand.ofIndex z).register? = columnRegister? z := by
  revert z
  decide

theorem columnRegister?_eq_none_iff (z : Fin 8) : columnRegister? z = none ↔ z = 6 := by
  revert z
  decide

theorem ofIndex_eq_atHL_iff (z : Fin 8) : ByteOperand.ofIndex z = .atHL ↔ z = 6 := by
  revert z
  decide

theorem byOperand_ofIndex (z : Fin 8) (register memory : ℕ) :
    Operation.byOperand (.ofIndex z) register memory = if z = 6 then memory else register :=
  if_congr (ofIndex_eq_atHL_iff z) rfl rfl

/-- The word registers in the order of their two-bit number. -/
def pairRegister (p : Fin 4) : WordRegister := ![.bc, .de, .hl, .sp] p

theorem WordOperand.register_ofIndex (p : Fin 4) :
    (WordOperand.ofIndex p).register = pairRegister p := by
  revert p
  decide

namespace Registers

variable (r : Registers) (place : Option ByteRegister)

/-- The byte in a register, or else the byte read at HL. -/
def valueAt (datum : UInt8) : UInt8 := place.elim datum r.byte

/-- The addresses to read for a byte. -/
def loadsAt : List UInt16 := place.elim [r.hl] fun _ => []

/-- The registers with a byte written. -/
def setAt (v : UInt8) : Registers := place.elim r fun name => r.setByte name v

/-- The stores that write a byte. -/
def storesAt (v : UInt8) : List (UInt16 × UInt8) := place.elim [(r.hl, v)] fun _ => []

end Registers

namespace ByteOperand

variable {src : ByteOperand} {place : Option ByteRegister} (h : src.register? = place)

include h

theorem loads_eq (r : Registers) : src.loads r = r.loadsAt place := by
  subst h
  cases src <;> rfl

/-- What is read for an operand in memory is the byte at HL. -/
theorem value_eq {σ : Type} (bus : Bus σ) (r : Registers) (env : σ) :
    src.value r (lo (wordOfBytes (bus.readAll (r.loadsAt place) env).1)) =
      r.valueAt place (bus.read r.hl env).1 := by
  subst h
  rw [lo_wordOfBytes]
  cases src <;> rfl

theorem regs_write (r : Registers) (v : UInt8) : (src.write r v).regs = r.setAt place v := by
  subst h
  cases src <;> rfl

theorem stores_write (r : Registers) (v : UInt8) :
    (src.write r v).stores = r.storesAt place v := by
  subst h
  cases src <;> rfl

end ByteOperand

end Sm83
