import Sm83.Proofs.Journal

/-!
# Bus traffic

What an executed instruction asks of its bus, and in which order: its own bytes first, then at most
two bytes of data, then at most two stores, then an event, and the report of the instruction last.
A device that answers reads and takes writes sees nothing else of the core, so a read or a write
out of place, or one too many, would be seen by the device.

How many bytes are read and stored is fixed by the operation and the flags. The cost of an
instruction follows from these numbers: each access has a machine cycle of four ticks to itself, and
the cycles in which the bus rests are few.

## Main definitions

* `Operation.loadCount`, `Operation.storeCount`: how many bytes an operation reads and stores
* `Operation.isUpdate`: whether an operation reads a byte in memory and stores it back
* `Operation.internalCycles`: the machine cycles in which an operation leaves the bus alone
* `BusCall.isAccess`: whether a call reads or stores a byte

## Main results

* `Operation.length_loads`, `Operation.length_stores`: the counts are those of the accesses
* `Operation.isUpdate_iff`: only updates both read and store
* `Operation.ticks_add_penalty_eq`: the cost of an operation, cycle by cycle
* `Machine.journal_law`: the calls of one step
* `Machine.cost_law`: the cost of an executed instruction against the accesses that it makes
-/

namespace Sm83

/-! ## How many bytes are accessed -/

namespace ByteOperand

theorem length_loads (src : ByteOperand) (r : Registers) :
    (src.loads r).length = Operation.byOperand src 0 1 := by
  unfold loads Operation.byOperand
  split <;> rfl

theorem length_stores_write (dst : ByteOperand) (r : Registers) (v : UInt8) :
    (dst.write r v).stores.length = Operation.byOperand dst 0 1 := by
  cases dst <;> rfl

end ByteOperand

namespace Operation

/-- How many bytes an operation reads beyond its own, under the given flags. -/
def loadCount (op : Operation) (f : Flags) : Nat :=
  match op with
  | ld _ src | alu _ src | bit _ src => byOperand src 0 1
  | inc target | dec target | rotate _ target | res _ target | set _ target => byOperand target 0 1
  | loadA _ => 1
  | pop _ | reti => 2
  | ret _ => if op.taken f then 2 else 0
  | _ => 0

/-- How many bytes an operation stores, under the given flags. -/
def storeCount (op : Operation) (f : Flags) : Nat :=
  match op with
  | ld dst _ | ldImm dst => byOperand dst 0 1
  | inc target | dec target | rotate _ target | res _ target | set _ target => byOperand target 0 1
  | storeA _ => 1
  | storeSp | push _ | rst _ => 2
  | call _ => if op.taken f then 2 else 0
  | _ => 0

theorem length_loads (op : Operation) (r : Registers) (operand : UInt16) :
    (op.loads r operand).length = op.loadCount r.flags := by
  cases op with
  | ld _ src | alu _ src | bit _ src => exact src.length_loads r
  | inc target | dec target | rotate _ target | res _ target | set _ target =>
    exact target.length_loads r
  | ret cc =>
    simp only [loads, loadCount]
    split <;> rfl
  | _ => rfl

theorem length_stores (op : Operation) (r : Registers) (operand datum : UInt16) :
    (op.effect r operand datum).stores.length = op.storeCount r.flags := by
  cases op with
  | ld dst _ | ldImm dst => exact dst.length_stores_write _ _
  | inc target | dec target | rotate _ target | res _ target | set _ target =>
    exact target.length_stores_write _ _
  | call cc =>
    simp only [effect, storeCount]
    split <;> rfl
  | _ => rfl

/-! ## Updates in memory -/

theorem byOperand_pos_iff (r : ByteOperand) : 0 < byOperand r 0 1 ↔ r = .atHL := by
  unfold byOperand
  split <;> simp [*]

/-- Whether an operation reads the byte at HL and stores it back. -/
def isUpdate : Operation → Bool
  | inc .atHL | dec .atHL | rotate _ .atHL | res _ .atHL | set _ .atHL => true
  | _ => false

/-- **Only updates both read and store.** A copy from the byte at HL to itself would do so too, but
no opcode means it. -/
theorem isUpdate_iff {op : Operation} (h : op ≠ .ld .atHL .atHL) (f : Flags) :
    op.isUpdate = true ↔ 0 < op.loadCount f ∧ 0 < op.storeCount f := by
  cases op with
  | ld dst src =>
    have hcopy : src = .atHL → dst ≠ .atHL := by
      rintro rfl rfl
      exact h rfl
    simpa [isUpdate, loadCount, storeCount, byOperand_pos_iff] using hcopy
  | inc target | dec target | rotate _ target | res _ target | set _ target =>
    cases target <;> simp [isUpdate, loadCount, storeCount, byOperand]
  | _ => simp [isUpdate, loadCount, storeCount]

/-- An update reads the byte at HL and stores a byte at the same address. -/
theorem accesses_of_isUpdate {op : Operation} (h : op.isUpdate = true) (r : Registers)
    (operand datum : UInt16) :
    op.loads r operand = [r.hl] ∧ ∃ v, (op.effect r operand datum).stores = [(r.hl, v)] := by
  cases op with
  | inc target | dec target | rotate _ target | res _ target | set _ target =>
    cases target with
    | atHL => exact ⟨rfl, _, rfl⟩
    | b | c | d | e | h | l | a => cases h
  | _ => cases h

/-! ## Machine cycles -/

/-- The machine cycles in which an operation leaves the bus alone, under the given flags: it moves a
word inside the core, or decides on a branch and takes it. -/
def internalCycles (op : Operation) (f : Flags) : Nat :=
  match op with
  | ldSpHl | ldHlSp | push _ | inc16 _ | dec16 _ | addHl _ | reti | rst _ => 1
  | addSp => 2
  | jr _ | jp _ | call _ => if op.taken f then 1 else 0
  | ret none => 1
  -- The condition of a return costs a cycle by itself, whether it holds or not.
  | ret (some _) => if op.taken f then 2 else 1
  | _ => 0

theorem internalCycles_le (op : Operation) (f : Flags) : op.internalCycles f ≤ 2 := by
  cases op with
  | jr cc | jp cc | call cc =>
    simp only [internalCycles]
    split <;> decide
  | ret cc =>
    cases cc with
    | none => exact Nat.le_succ 1
    | some cc =>
      simp only [internalCycles]
      split <;> decide
  | _ => simp [internalCycles]

/-- **The cost of an operation, cycle by cycle**: four ticks for each byte of its own, for each byte
that it reads or stores, and for each cycle without an access. STOP pays for its opcode only. -/
theorem ticks_add_penalty_eq {op : Operation} (hs : op ≠ .stop) (hi : op ≠ .invalid)
    (hc : op ≠ .ld .atHL .atHL) (f : Flags) :
    op.ticks + op.penalty f =
      4 * (op.length + op.loadCount f + op.storeCount f + op.internalCycles f) := by
  cases op with
  | stop => exact absurd rfl hs
  | invalid => exact absurd rfl hi
  | ld dst src =>
    have hcopy : src = .atHL → dst ≠ .atHL := by
      rintro rfl rfl
      exact hc rfl
    show byOperand dst (byOperand src 4 8) 8 =
      4 * (1 + byOperand src 0 1 + byOperand dst 0 1 + 0)
    by_cases hsrc : src = .atHL
    · simp [byOperand, hsrc, hcopy hsrc]
    · by_cases hdst : dst = .atHL <;> simp [byOperand, hsrc, hdst]
  | ldImm r | alu _ r | bit _ r | inc r | dec r | rotate _ r | res _ r | set _ r =>
    cases r <;> rfl
  | storeA p | loadA p => cases p <;> rfl
  | jr cc | jp cc | call cc | ret cc =>
    cases cc with
    | none => rfl
    | some cc =>
      -- Whether the branch is taken decides on the penalty and on the accesses to the stack alike.
      simp only [penalty, loadCount, storeCount, internalCycles]
      split <;> rfl
  | _ => rfl

end Operation

/-- HALT stands where a copy from the byte at HL to itself would be. -/
theorem decode_ne_copy (b : UInt8) : decode b ≠ .ld .atHL .atHL := by
  revert b
  exact forall_byte (by decide +kernel)

/-! ## Counting accesses -/

namespace BusCall

/-- Whether a call reads or stores a byte. -/
def isAccess : BusCall → Bool
  | read .. | write .. => true
  | event _ | executed _ => false

theorem countP_isAccess_reads {addrs : List UInt16} {bytes : List UInt8}
    (h : bytes.length = addrs.length) : (reads addrs bytes).countP isAccess = addrs.length := by
  have hall : ∀ call ∈ reads addrs bytes, call.isAccess = true := by
    intro call hcall
    obtain ⟨p, -, rfl⟩ := List.mem_map.1 hcall
    rfl
  rw [List.countP_eq_length.2 hall, reads, List.length_map, List.length_zip, h, Nat.min_self]

theorem countP_isAccess_writes (stores : List (UInt16 × UInt8)) :
    (writes stores).countP isAccess = stores.length := by
  have hall : ∀ call ∈ writes stores, call.isAccess = true := by
    intro call hcall
    obtain ⟨p, -, rfl⟩ := List.mem_map.1 hcall
    rfl
  rw [List.countP_eq_length.2 hall, writes, List.length_map]

theorem countP_isAccess_events (e : Option Event) :
    (e.toList.map event).countP isAccess = 0 := by
  cases e <;> rfl

end BusCall

namespace Machine

variable {σ : Type} (bus : Bus σ) {m : Machine σ}

theorem operation_nextInstruction_ne_copy (m : Machine σ) :
    (m.nextInstruction bus).operation ≠ .ld .atHL .atHL := by
  intro hcopy
  obtain ⟨opcode, operands, -, hi, -⟩ := nextFetch_of_not_isExtended bus (by rw [hcopy]; rfl)
  rw [hi, lookup_operation] at hcopy
  exact decode_ne_copy opcode hcopy

theorem hl_fetchedCore (m : Machine σ) : (m.fetchedCore bus).regs.hl = m.core.regs.hl := by
  rw [regs_fetchedCore]
  rfl

/-- The addresses of the data that the next instruction reads. -/
def nextLoadAddresses (m : Machine σ) : List UInt16 :=
  (m.nextInstruction bus).operation.loads (m.fetchedCore bus).regs (m.nextOperand bus)

theorem length_nextLoadAddresses (m : Machine σ) :
    (m.nextLoadAddresses bus).length =
      (m.nextInstruction bus).operation.loadCount m.core.regs.flags := by
  rw [nextLoadAddresses, Operation.length_loads, flags_fetchedCore]

theorem length_nextLoads (m : Machine σ) :
    (m.nextLoads bus).1.length = (m.nextLoadAddresses bus).length := Bus.length_readAll _ _ _

theorem length_nextStores (m : Machine σ) :
    (m.nextEffect bus).stores.length =
      (m.nextInstruction bus).operation.storeCount m.core.regs.flags := by
  rw [nextEffect, Operation.length_stores, flags_fetchedCore]

theorem isUpdate_nextInstruction_iff (m : Machine σ) :
    (m.nextInstruction bus).operation.isUpdate = true ↔
      m.nextLoadAddresses bus ≠ [] ∧ (m.nextEffect bus).stores ≠ [] := by
  rw [Operation.isUpdate_iff (m.operation_nextInstruction_ne_copy bus) m.core.regs.flags,
    ← length_nextLoadAddresses, ← length_nextStores, List.length_pos_iff, List.length_pos_iff]

/-- The accesses of an update: one read and one store, at the address that HL holds before. -/
theorem accesses_nextInstruction_of_isUpdate {m : Machine σ}
    (h : (m.nextInstruction bus).operation.isUpdate = true) :
    m.nextLoadAddresses bus = [m.core.regs.hl] ∧
      ∃ v, (m.nextEffect bus).stores = [(m.core.regs.hl, v)] := by
  rw [← hl_fetchedCore bus m]
  exact Operation.accesses_of_isUpdate h _ _ _

/-- The accesses of the next instruction, counted. -/
theorem countP_isAccess_nextCalls (m : Machine σ) :
    (m.nextCalls bus).countP BusCall.isAccess =
      (m.nextInstruction bus).length +
        (m.nextInstruction bus).operation.loadCount m.core.regs.flags +
        (m.nextInstruction bus).operation.storeCount m.core.regs.flags := by
  have hlen : (m.nextFetch bus).1.length =
      (addresses m.core.regs.pc (m.nextInstruction bus).length).length := by
    rw [length_nextFetch, length_addresses]
  have hown := BusCall.countP_isAccess_reads hlen
  have hdata := BusCall.countP_isAccess_reads (m.length_nextLoads bus)
  rw [length_addresses] at hown
  rw [length_nextLoadAddresses, nextLoadAddresses] at hdata
  simp only [nextCalls, List.countP_append, hown, hdata, BusCall.countP_isAccess_writes,
    length_nextStores, BusCall.countP_isAccess_events]
  rfl

/-! ## The laws of one step -/

/-- **The calls of one step.** An executed instruction reads its own bytes first, as many as its
table entry says and from its address upwards, then at most two bytes of data, then stores at most
two, then announces its event if it has one, and reports itself last. Only an update both reads data
and stores, and it does so at the address in HL. An unassigned opcode is read and announced. A step
that does not fetch leaves the bus alone. -/
theorem journal_law (m : Machine σ) (c : Command) :
    (∀ x, (m.command bus c).result = some (.ok (.executed x)) →
      ∃ (addrs : List UInt16) (data : List UInt8) (stores : List (UInt16 × UInt8)),
        m.calls bus [c] =
          BusCall.reads (addresses x.addr x.instruction.length) x.bytes ++
            BusCall.reads addrs data ++ BusCall.writes stores ++
            x.instruction.operation.event?.toList.map .event ++ [.executed x] ∧
        x.addr = m.core.regs.pc ∧ x.bytes.length = x.instruction.length ∧
        data.length = addrs.length ∧ addrs.length ≤ 2 ∧ stores.length ≤ 2 ∧
        (addrs ≠ [] ∧ stores ≠ [] ↔ x.instruction.operation.isUpdate = true) ∧
        (x.instruction.operation.isUpdate = true →
          addrs = [m.core.regs.hl] ∧ ∃ v, stores = [(m.core.regs.hl, v)])) ∧
      (∀ opcode addr, (m.command bus c).result = some (.error (.invalidOpcode opcode addr)) →
        addr = m.core.regs.pc ∧
          m.calls bus [c] = [.read addr opcode, .event (.lockedUp opcode addr)]) ∧
      ∀ r : StepResult, (m.command bus c).result = some r → r.hasFetched = false →
        m.calls bus [c] = [] := by
  refine ⟨?_, ?_, ?_⟩
  · intro x h
    obtain ⟨-, -, rfl, -⟩ := executed_of_command bus h
    -- The ticks in flight make no difference to what is fetched, read and stored.
    let n := m.setBudget 0
    refine ⟨n.nextLoadAddresses bus, (n.nextLoads bus).1, (n.nextEffect bus).stores, ?_, rfl, ?_,
      n.length_nextLoads bus, Operation.length_loads_le _ _ _, Operation.length_stores_le _ _ _ _,
      (n.isUpdate_nextInstruction_iff bus).symm, accesses_nextInstruction_of_isUpdate bus⟩
    · rw [calls_of_executed bus h, bytes_nextExecution]
      rfl
    · rw [bytes_nextExecution, length_nextFetch]
      rfl
  · intro opcode addr h
    obtain ⟨b, hresult, -, hcalls⟩ := exists_step_of_command bus h
    have ht := (m.setBudget b).tick_step bus
    generalize (m.setBudget b).step bus = o at hresult ht
    cases ht with
    | lockedUp hm hb hi =>
      cases hresult
      rw [hcalls, calls_step_of_not_isValid bus hm hb hi]
      exact ⟨rfl, rfl⟩
    | locked | busy | idle | executed => cases hresult
  · intro r h hr
    obtain ⟨b, hresult, -, hcalls⟩ := exists_step_of_command bus h
    rw [hcalls]
    exact calls_step_of_hasFetched_eq_false bus (by rw [hresult, hr])

/-- An increment of the byte at HL, and the step after it. -/
theorem journal_law_inc :
    let bus := Bus.rom [0x34]
    let m : Machine Unit := ⟨.powerOn ⟨.zeroed, none⟩, ()⟩
    let x : Execution := ⟨0, ⟨#v[0x34, 0, 0], 1⟩, lookup 0x34⟩
    (m.command bus .step).result = some (.ok (.executed x)) ∧
      x.instruction.operation.isUpdate = true ∧
      (∃ data v, m.calls bus [.step] =
        [.read 0 0x34] ++ BusCall.reads [0] data ++ BusCall.writes [(0, v)] ++ [.executed x]) ∧
      (m.command bus .step).machine.calls bus [.step] = [] := by
  intro bus m x
  have hx : (m.command bus .step).result = some (.ok (.executed x)) :=
    Reply.execution?_eq_some.1 (by decide +kernel)
  have hupdate : x.instruction.operation.isUpdate = true := by decide +kernel
  have hbusy : ((m.command bus .step).machine.step bus).result = .ok (.busy 11) := by
    rw [step_of_inFlight bus (n := 11) (by decide +kernel) (by decide +kernel)]
  obtain ⟨addrs, data, stores, hcalls, -, -, -, -, -, -, hsame⟩ := (journal_law bus m .step).1 x hx
  obtain ⟨rfl, v, rfl⟩ := hsame hupdate
  refine ⟨hx, hupdate, ⟨data, v, ?_⟩, ?_⟩
  · rw [hcalls]
    have hown : BusCall.reads (addresses x.addr x.instruction.length) x.bytes = [.read 0 0x34] := by
      decide +kernel
    have hevent : x.instruction.operation.event? = none := by decide +kernel
    have hhl : m.core.regs.hl = 0 := rfl
    rw [hown, hevent, hhl, Option.toList_none, List.map_nil, List.append_nil]
  · exact (journal_law bus (m.command bus .step).machine .step).2.2 _ (congrArg some hbusy) rfl

/-- The cost of an executed instruction: four ticks for each access and for each internal cycle. -/
theorem budget_of_executed {c : Command} {x : Execution}
    (h : (m.command bus c).result = some (.ok (.executed x)))
    (hx : x.instruction.operation ≠ .stop) :
    (m.command bus c).machine.core.budget =
      4 * ((m.calls bus [c]).countP BusCall.isAccess +
        x.instruction.operation.internalCycles m.core.regs.flags) := by
  have hcalls := calls_of_executed bus h
  obtain ⟨-, hi, rfl, hmachine⟩ := executed_of_command bus h
  have hinvalid : ((m.setBudget 0).nextInstruction bus).operation ≠ .invalid := bne_iff_ne.1 hi
  have hcycles := Operation.ticks_add_penalty_eq hx hinvalid
    (operation_nextInstruction_ne_copy bus _) m.core.regs.flags
  rw [hmachine, hcalls, countP_isAccess_nextCalls, length_nextInstruction, executed,
    budget_nextResponse, nextTicks, ticks_nextInstruction]
  exact hcycles

/-- **Cost and accesses agree.** The ticks that an executed instruction other than STOP loads come
in machine cycles of four: one for each byte that it reads or stores, its own bytes included, and at
most two in which it leaves the bus alone. -/
theorem cost_law {c : Command} {x : Execution}
    (h : (m.command bus c).result = some (.ok (.executed x)))
    (hx : x.instruction.operation ≠ .stop) :
    let accesses := (m.calls bus [c]).countP BusCall.isAccess
    let loaded := (m.command bus c).machine.core.budget
    4 ∣ loaded ∧ 4 * accesses ≤ loaded ∧ loaded ≤ 4 * (accesses + 2) := by
  intro accesses loaded
  have hloaded : loaded = 4 * (accesses +
      x.instruction.operation.internalCycles m.core.regs.flags) := budget_of_executed bus h hx
  have hinternal := x.instruction.operation.internalCycles_le m.core.regs.flags
  refine ⟨⟨_, hloaded⟩, ?_, ?_⟩ <;> omega

/-- A return on a condition that holds: of the five machine cycles that it loads, one fetches, two
read the stack and two leave the bus alone. -/
theorem cost_law_ret :
    let bus := Bus.rom [0xC0]
    let m : Machine Unit := ⟨.powerOn ⟨.zeroed, none⟩, ()⟩
    let x : Execution := ⟨0, ⟨#v[0xC0, 0, 0], 1⟩, lookup 0xC0⟩
    let accesses := (m.calls bus [.step]).countP BusCall.isAccess
    let loaded := (m.command bus .step).machine.core.budget
    (m.command bus .step).result = some (.ok (.executed x)) ∧
      x.instruction.operation ≠ .stop ∧ accesses = 3 ∧ loaded = 20 ∧
      4 ∣ loaded ∧ 4 * accesses ≤ loaded ∧ loaded ≤ 4 * (accesses + 2) := by
  intro bus m x accesses loaded
  have hx : (m.command bus .step).result = some (.ok (.executed x)) :=
    Reply.execution?_eq_some.1 (by decide +kernel)
  have hop : x.instruction.operation ≠ .stop := by decide +kernel
  exact ⟨hx, hop, by decide +kernel, by decide +kernel, cost_law bus hx hop⟩

end Machine

end Sm83
