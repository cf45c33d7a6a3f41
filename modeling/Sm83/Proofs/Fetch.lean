import Sm83.Disassembly
import Sm83.Machine

/-!
# Fetching an instruction

The core reads an instruction in pieces: the opcode, the byte behind the escape byte, and as many
immediate bytes as the operation takes. Put together, the pieces are the bytes at consecutive
addresses, as many as the length of the table entry says.

## Main definitions

* `Core.fetchAll`: the core after several fetches
* `Machine.nextInstruction`, `Machine.nextFetch`: the instruction at the program counter, and the
  reads that fetch it

## Main results

* `Machine.fetchBytes_eq`: fetching reads consecutive addresses
* `Machine.fetchInstruction_eq`: the opcode bytes are the first of the instruction
* `Machine.fetchBytes_fetchInstruction`: opcode and immediate bytes are one sequence of reads
-/

namespace Sm83

/-! ## Reads in a row -/

theorem addresses_add (addr : UInt16) (m n : Nat) :
    addresses addr (m + n) = addresses addr m ++ addresses (addr + UInt16.ofNat m) n := by
  induction m generalizing addr with
  | zero => simp [addresses]
  | succ m ih =>
    rw [Nat.add_right_comm, addresses, addresses, ih, List.cons_append, UInt16.add_assoc,
      UInt16.add_comm 1, UInt16.ofNat_add]
    rfl

namespace Bus

variable {σ : Type} (bus : Bus σ)

@[simp] theorem readAll_nil (s : σ) : bus.readAll [] s = ([], s) := rfl

theorem readAll_cons (addr : UInt16) (rest : List UInt16) (s : σ) :
    bus.readAll (addr :: rest) s =
      ((bus.read addr s).1 :: (bus.readAll rest (bus.read addr s).2).1,
        (bus.readAll rest (bus.read addr s).2).2) := rfl

theorem readAll_append (xs ys : List UInt16) (s : σ) :
    bus.readAll (xs ++ ys) s =
      ((bus.readAll xs s).1 ++ (bus.readAll ys (bus.readAll xs s).2).1,
        (bus.readAll ys (bus.readAll xs s).2).2) := by
  induction xs generalizing s with
  | nil => rfl
  | cons x xs ih => rw [List.cons_append, readAll_cons, ih, readAll_cons, List.cons_append]

@[simp] theorem length_readAll (xs : List UInt16) (s : σ) :
    (bus.readAll xs s).1.length = xs.length := by
  induction xs generalizing s with
  | nil => rfl
  | cons x xs ih => rw [readAll_cons, List.length_cons, ih, List.length_cons]

end Bus

/-! ## Bytes in a row -/

namespace FetchRecord

/-- While slots are free, the bytes of the record are those fetched. -/
theorem bytes_foldl_push {r : FetchRecord} {bytes : List UInt8} (h : r.count + bytes.length ≤ 3) :
    (bytes.foldl push r).bytes = r.bytes ++ bytes := by
  induction bytes generalizing r with
  | nil => simp
  | cons b bytes ih =>
    rw [List.length_cons] at h
    have hr : r.count < 3 := by omega
    rw [List.foldl_cons, ih (by rw [count_push b hr]; omega), bytes_push b hr, List.append_assoc,
      List.singleton_append]

theorem count_foldl_push_le {r : FetchRecord} (bytes : List UInt8) (h : r.count ≤ 3) :
    (bytes.foldl push r).count ≤ 3 := by
  induction bytes generalizing r with
  | nil => exact h
  | cons b bytes ih => exact ih (count_push_le b h)

end FetchRecord

namespace Core

/-- The core after fetching bytes at the program counter. -/
def fetchAll (c : Core) (bytes : List UInt8) : Core := bytes.foldl fetch c

@[simp] theorem fetchAll_nil (c : Core) : c.fetchAll [] = c := rfl

@[simp] theorem fetchAll_cons (c : Core) (b : UInt8) (bytes : List UInt8) :
    c.fetchAll (b :: bytes) = (c.fetch b).fetchAll bytes := rfl

theorem fetchAll_append (c : Core) (xs ys : List UInt8) :
    c.fetchAll (xs ++ ys) = (c.fetchAll xs).fetchAll ys := List.foldl_append

/-- Fetching moves the program counter and records the bytes; the rest of the core stays as it
is. -/
theorem fetchAll_eq (c : Core) (bytes : List UInt8) :
    c.fetchAll bytes =
      { c with
        regs := c.regs.jump (c.regs.pc + UInt16.ofNat bytes.length)
        fetched := bytes.foldl FetchRecord.push c.fetched } := by
  induction bytes generalizing c with
  | nil => simp [Registers.jump, Registers.setWord]
  | cons b bytes ih =>
    have hpc (x : UInt16) :
        x + 1 + UInt16.ofNat bytes.length = x + UInt16.ofNat (bytes.length + 1) := by
      rw [UInt16.add_assoc, UInt16.add_comm 1, UInt16.ofNat_add]
      rfl
    rw [fetchAll_cons, ih]
    simp [fetch, Registers.jump, Registers.setWord, hpc]

@[simp] theorem pc_fetchAll (c : Core) (bytes : List UInt8) :
    (c.fetchAll bytes).regs.pc = c.regs.pc + UInt16.ofNat bytes.length := by
  rw [fetchAll_eq]
  rfl

/-- It does not matter whether the ticks are set before or after bytes are fetched. -/
theorem fetchAll_budget (c : Core) (n : Nat) (bytes : List UInt8) :
    ({ c with budget := n } : Core).fetchAll bytes = { c.fetchAll bytes with budget := n } := by
  rw [fetchAll_eq, fetchAll_eq]

end Core

/-! ## The pieces of an instruction -/

namespace Machine

variable {σ : Type} (bus : Bus σ)

theorem fetchBytes_eq (n : Nat) (m : Machine σ) :
    m.fetchBytes bus n =
      let reads := bus.readAll (addresses m.core.regs.pc n) m.env
      (reads.1, ⟨m.core.fetchAll reads.1, reads.2⟩) := by
  induction n generalizing m with
  | zero => rfl
  | succ n ih =>
    simp only [fetchBytes, ih]
    rfl

theorem flags_fetchBytes (n : Nat) (m : Machine σ) :
    (m.fetchBytes bus n).2.core.regs.flags = m.core.regs.flags := by
  rw [fetchBytes_eq]
  simp only [Core.fetchAll_eq]
  rfl

/-- It does not matter whether the ticks are set before or after bytes are fetched. -/
theorem fetchBytes_setBudget (n budget : Nat) (m : Machine σ) :
    (m.setBudget budget).fetchBytes bus n =
      ((m.fetchBytes bus n).1, (m.fetchBytes bus n).2.setBudget budget) := by
  rw [fetchBytes_eq, fetchBytes_eq]
  simp only [setBudget, Core.fetchAll_budget]

/-- The table entry of the instruction at the program counter. -/
def nextInstruction (m : Machine σ) : Instruction := (m.fetchInstruction bus).1

theorem nextInstruction_of_escape {m : Machine σ}
    (h : (bus.read m.core.regs.pc m.env).1 = escapeByte) :
    m.nextInstruction bus =
      lookupExtended (bus.read (m.core.regs.pc + 1) (bus.read m.core.regs.pc m.env).2).1 := by
  show (if (bus.read m.core.regs.pc m.env).1 = escapeByte then _ else _ : _ × _).1 = _
  rw [if_pos h]
  rfl

theorem nextInstruction_of_ne_escape {m : Machine σ}
    (h : (bus.read m.core.regs.pc m.env).1 ≠ escapeByte) :
    m.nextInstruction bus = lookup (bus.read m.core.regs.pc m.env).1 := by
  show (if (bus.read m.core.regs.pc m.env).1 = escapeByte then _ else _ : _ × _).1 = _
  rw [if_neg h]
  rfl

/-- The reads that fetch the instruction at the program counter: its bytes, and the state of the
bus after them. -/
def nextFetch (m : Machine σ) : List UInt8 × σ :=
  bus.readAll (addresses m.core.regs.pc (m.nextInstruction bus).length) m.env

theorem fetchInstruction_eq (m : Machine σ) :
    m.fetchInstruction bus =
      let i := m.nextInstruction bus
      let reads := bus.readAll (addresses m.core.regs.pc i.operation.opcodeBytes) m.env
      (i, ⟨m.core.beginFetch.fetchAll reads.1, reads.2⟩) := by
  refine Prod.ext rfl ?_
  by_cases h : (bus.read m.core.regs.pc m.env).1 = escapeByte
  · have hn : (m.nextInstruction bus).operation.opcodeBytes = 2 := by
      rw [nextInstruction_of_escape bus h, lookupExtended_operation, opcodeBytes_decodeExtended]
    simp only [hn]
    show (if (bus.read m.core.regs.pc m.env).1 = escapeByte then _ else _ : _ × _).2 = _
    rw [if_pos h]
    rfl
  · have hn : (m.nextInstruction bus).operation.opcodeBytes = 1 := by
      rw [nextInstruction_of_ne_escape bus h, lookup_operation, opcodeBytes_decode]
    simp only [hn]
    show (if (bus.read m.core.regs.pc m.env).1 = escapeByte then _ else _ : _ × _).2 = _
    rw [if_neg h]
    rfl

theorem nextInstruction_eq_ofOperation (m : Machine σ) :
    m.nextInstruction bus = .ofOperation (m.nextInstruction bus).operation := by
  obtain ⟨op, hop⟩ := m.fetchInstruction_eq_ofOperation bus
  rw [nextInstruction, hop]
  rfl

theorem length_nextInstruction (m : Machine σ) :
    (m.nextInstruction bus).length = (m.nextInstruction bus).operation.length := by
  rw [nextInstruction_eq_ofOperation]
  rfl

theorem ticks_nextInstruction (m : Machine σ) :
    (m.nextInstruction bus).ticks = (m.nextInstruction bus).operation.ticks := by
  rw [nextInstruction_eq_ofOperation]
  rfl

@[simp] theorem length_nextFetch (m : Machine σ) :
    (m.nextFetch bus).1.length = (m.nextInstruction bus).length := by
  rw [nextFetch, Bus.length_readAll, length_addresses]

/-- The core with the next instruction fetched and its ticks set. -/
def fetchedCore (m : Machine σ) : Core :=
  { m.core.beginFetch.fetchAll (m.nextFetch bus).1 with budget := (m.nextInstruction bus).ticks }

/-- The immediate bytes of the instruction at the program counter. -/
def nextOperands (m : Machine σ) : List UInt8 :=
  (m.nextFetch bus).1.drop (m.nextInstruction bus).operation.opcodeBytes

/-- The opcode and the immediate bytes are one sequence of reads, although the ticks are set
between them. -/
theorem fetchBytes_fetchInstruction (m : Machine σ) :
    ((m.fetchInstruction bus).2.setBudget (m.nextInstruction bus).ticks).fetchBytes bus
        (m.nextInstruction bus).operation.operandBytes =
      (m.nextOperands bus, ⟨m.fetchedCore bus, (m.nextFetch bus).2⟩) := by
  obtain ⟨⟨xs, s⟩, hx⟩ : ∃ p, bus.readAll
      (addresses m.core.regs.pc (m.nextInstruction bus).operation.opcodeBytes) m.env = p := ⟨_, rfl⟩
  have hlen : xs.length = (m.nextInstruction bus).operation.opcodeBytes := by
    rw [← length_addresses m.core.regs.pc (m.nextInstruction bus).operation.opcodeBytes,
      ← bus.length_readAll _ m.env, hx]
  have hpc : (m.core.beginFetch.fetchAll xs).regs.pc =
      m.core.regs.pc + UInt16.ofNat (m.nextInstruction bus).operation.opcodeBytes := by
    rw [Core.pc_fetchAll, hlen]
    rfl
  obtain ⟨⟨ys, s'⟩, hy⟩ : ∃ p, bus.readAll (addresses (m.core.beginFetch.fetchAll xs).regs.pc
      (m.nextInstruction bus).operation.operandBytes) s = p := ⟨_, rfl⟩
  have hfetch : m.nextFetch bus = (xs ++ ys, s') := by
    rw [nextFetch, length_nextInstruction, Operation.length, addresses_add, Bus.readAll_append, hx,
      ← hpc, hy]
  have hfirst : (m.fetchInstruction bus).2 = ⟨m.core.beginFetch.fetchAll xs, s⟩ := by
    simp only [fetchInstruction_eq, hx]
  rw [hfirst, fetchBytes_eq]
  simp only [setBudget, hy, nextOperands, fetchedCore, hfetch, ← hlen, List.drop_left,
    Core.fetchAll_budget, Core.fetchAll_append]

/-- **The bytes of an instruction**: the escape byte and one opcode, or an opcode other than the
escape byte and the immediate bytes of its operation. -/
theorem nextFetch_cases (m : Machine σ) :
    (∃ opcode, m.nextInstruction bus = lookupExtended opcode ∧
      (m.nextFetch bus).1 = [escapeByte, opcode] ∧ m.nextOperands bus = []) ∨
    ∃ opcode operands, opcode ≠ escapeByte ∧ m.nextInstruction bus = lookup opcode ∧
      operands.length = (decode opcode).operandBytes ∧
      (m.nextFetch bus).1 = opcode :: operands ∧ m.nextOperands bus = operands := by
  by_cases h : (bus.read m.core.regs.pc m.env).1 = escapeByte
  · left
    have hi := nextInstruction_of_escape bus h
    refine ⟨_, hi, ?_, ?_⟩
    · simp [nextFetch, hi, addresses, Bus.readAll_cons, h]
    · simp [nextOperands, nextFetch, hi, addresses, Bus.readAll_cons]
  · right
    have hi := nextInstruction_of_ne_escape bus h
    have hlen : (lookup (bus.read m.core.regs.pc m.env).1).length =
        (decode (bus.read m.core.regs.pc m.env).1).operandBytes + 1 := by
      rw [lookup_length, Operation.length, opcodeBytes_decode, Nat.add_comm]
    refine ⟨_, (m.nextFetch bus).1.tail, h, hi, ?_, ?_, ?_⟩
    · rw [List.length_tail, length_nextFetch, hi, hlen, Nat.add_sub_cancel]
    · rw [nextFetch, hi, hlen, addresses, Bus.readAll_cons]
      rfl
    · rw [nextOperands, hi, lookup_operation, opcodeBytes_decode, List.drop_one]

/-- An operation of the first table is found without the escape byte. -/
theorem nextFetch_of_not_isExtended {m : Machine σ}
    (h : (m.nextInstruction bus).operation.isExtended = false) :
    ∃ opcode operands, opcode ≠ escapeByte ∧ m.nextInstruction bus = lookup opcode ∧
      (m.nextFetch bus).1 = opcode :: operands := by
  rcases m.nextFetch_cases bus with ⟨opcode, hi, -⟩ | ⟨opcode, operands, hne, hi, -, hb, -⟩
  · rw [hi, lookupExtended_operation, isExtended_decodeExtended] at h
    cases h
  · exact ⟨opcode, operands, hne, hi, hb⟩

end Machine

end Sm83
