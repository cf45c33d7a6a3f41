import Sm83.Proofs.MemoryStep

/-!
# Loads

What the load opcodes move, and between which places. A place may be used twice by one instruction:
HL is an address while H or L is loaded or stored, the address register of an access is moved by the
access, and a store may hit the bytes of the instruction itself. In all these cases the instruction
works with what was there before it.

## Main definitions

* `Pointer.opcodes`, `Pointer.cell`: the cells that the accumulator is stored to and loaded from

## Main results

* `Machine.exists_stepsTo_ld`, `Machine.exists_stepsTo_ldImm`: a byte is copied to a register or to
  the byte at HL
* `Machine.exists_stepsTo_store`, `Machine.exists_stepsTo_load`: the accumulator and memory
* `Machine.load_law`: what a step does at each of the load opcodes
-/

namespace Sm83

/-! ## Opcodes -/

theorem decode_ld {b : UInt8} {y z : Fin 8} (h : b = .ofNat (0x40 + 8 * y + z)) (hb : b ≠ 0x76) :
    decode b = .ld (.ofIndex y) (.ofIndex z) := by
  obtain ⟨hblock, hrow, hcolumn⟩ := fields_of_eq (x := 1) h
  have hhalt : ¬(y = 6 ∧ z = 6) := by
    rintro ⟨rfl, rfl⟩
    exact hb h
  simp only [decode, hblock, hrow, hcolumn, if_neg hhalt]

theorem decode_ldImm {b : UInt8} {y : Fin 8} (h : b = .ofNat (0x06 + 8 * y)) :
    decode b = .ldImm (.ofIndex y) := by
  subst h
  revert y
  decide

theorem decode_ldImm16 {b : UInt8} {p : Fin 4} (h : b = .ofNat (0x01 + 16 * p)) :
    decode b = .ldImm16 (.ofIndex p) := by
  subst h
  revert p
  decide

/-! ## The cells of the accumulator

Seven pairs of opcodes store the accumulator to a cell and load it from there. The members of a pair
have the same length and cost, and take the address in the same way. -/

/-- How the accumulator is stored to a cell or loaded from it. -/
structure AccumulatorCell where
  length : ℕ
  ticks : ℕ
  address : UInt16
  /-- The registers once the address has been taken. -/
  regs : Registers

namespace Pointer

/-- The opcodes that store the accumulator and load it. -/
def opcodes : Pointer → UInt8 × UInt8
  | bc => (0x02, 0x0A)
  | de => (0x12, 0x1A)
  | hlInc => (0x22, 0x2A)
  | hlDec => (0x32, 0x3A)
  | highImm => (0xE0, 0xF0)
  | highC => (0xE2, 0xF2)
  | absolute => (0xEA, 0xFA)

/-- The cell at the pointer, given the registers and the immediate byte or word. -/
def cell (p : Pointer) (r : Registers) (byte : UInt8) (word : UInt16) : AccumulatorCell :=
  match p with
  | bc => ⟨1, 8, r.bc, r⟩
  | de => ⟨1, 8, r.de, r⟩
  | hlInc => ⟨1, 8, r.hl, { r with hl := r.hl + 1 }⟩
  | hlDec => ⟨1, 8, r.hl, { r with hl := r.hl - 1 }⟩
  | highImm => ⟨2, 12, 0xFF00 + byte.toUInt16, r⟩
  | highC => ⟨1, 8, 0xFF00 + (r.byte .c).toUInt16, r⟩
  | absolute => ⟨3, 16, word, r⟩

theorem decode_opcodes (p : Pointer) :
    decode p.opcodes.1 = .storeA p ∧ decode p.opcodes.2 = .loadA p := by
  cases p <;> decide

variable (p : Pointer) (r : Registers) (byte : UInt8) (word : UInt16)

theorem length_cell :
    (Operation.storeA p).length = (p.cell r byte word).length ∧
      (Operation.loadA p).length = (p.cell r byte word).length := by
  cases p <;> exact ⟨rfl, rfl⟩

theorem ticks_cell :
    (Operation.storeA p).ticks = (p.cell r byte word).ticks ∧
      (Operation.loadA p).ticks = (p.cell r byte word).ticks := by
  cases p <;> exact ⟨rfl, rfl⟩

theorem regs_cell : p.advance r = (p.cell r byte word).regs := by
  cases p <;> rfl

end Pointer

theorem join_top (b : UInt8) : join 0xFF b = 0xFF00 + b.toUInt16 := by
  have hb := b.toNat_lt
  apply UInt16.toNat_inj.1
  rw [toNat_join, UInt16.toNat_add, UInt8.toNat_toUInt16]
  show 256 * 255 + b.toNat = (65280 + b.toNat) % 65536
  omega

/-! ## Steps -/

namespace Memory

/-- A byte that is stored goes to memory only if its place is the one at HL. -/
theorem writeAll_storesAt (memory : Memory) (r : Registers) (y : Fin 8) (v : UInt8) :
    Memory.bus.writeAll (r.storesAt (columnRegister? y) v) memory =
      if y = 6 then memory.set r.hl v else memory := by
  by_cases hy : y = 6
  · rw [if_pos hy, (columnRegister?_eq_none_iff y).2 hy]
    rfl
  · rw [if_neg hy]
    obtain ⟨name, hname⟩ := Option.ne_none_iff_exists'.1 (mt (columnRegister?_eq_none_iff y).1 hy)
    rw [hname]
    rfl

end Memory

namespace Machine

variable {m : Machine Memory}

variable (m) in
/-- The immediate byte of an instruction that has one. -/
def immediateByte : UInt8 := m.env.get (m.core.regs.pc + 1)

variable (m) in
/-- The immediate word of an instruction that has one. -/
def immediateWord : UInt16 := join (m.env.get (m.core.regs.pc + 2)) m.immediateByte

theorem immediate_of_two {op : Operation} (h : op.operandBytes = 2) :
    m.immediate op = m.immediateWord := by
  have hnext : m.core.regs.pc + 2 = m.core.regs.pc + 1 + 1 := (UInt16.add_assoc _ 1 1).symm
  rw [immediate, h, immediateWord, hnext]
  rfl

theorem lo_immediate_of_one {op : Operation} (h : op.operandBytes = 1) :
    lo (m.immediate op) = m.immediateByte := by
  rw [immediate, h, lo_wordOfBytes]
  rfl

/-- The address of an access is that of the cell. -/
theorem address_immediate {p : Pointer} {op : Operation} (h : op = .storeA p ∨ op = .loadA p) :
    p.address m.core.regs (m.immediate op) =
      (p.cell m.core.regs m.immediateByte m.immediateWord).address := by
  cases p with
  | bc | de | hlInc | hlDec => rfl
  | highC => exact join_top _
  | highImm =>
    have hone : op.operandBytes = 1 := by
      rcases h with rfl | rfl <;> rfl
    rw [Pointer.address, lo_immediate_of_one hone, join_top]
    rfl
  | absolute =>
    have htwo : op.operandBytes = 2 := by
      rcases h with rfl | rfl <;> rfl
    exact immediate_of_two htwo

section Steps

variable (hm : m.core.mode = .running) (hb : m.core.budget = 0)

include hm hb

/-- A byte is copied to another place. What is copied, and the address of a byte in memory, are
those before the step, so H and L may take part in a copy from or to the byte at HL. -/
theorem exists_stepsTo_ld (y z : Fin 8)
    (h : m.env.get m.core.regs.pc = .ofNat (0x40 + 8 * y + z))
    (hhalt : m.env.get m.core.regs.pc ≠ 0x76) :
    let v := m.core.regs.valueAt (columnRegister? z) (m.env.get m.core.regs.hl)
    ∃ x, m.StepsTo x 1 (if y = 6 ∨ z = 6 then 8 else 4)
      (m.core.regs.setAt (columnRegister? y) v)
      (if y = 6 then m.env.set m.core.regs.hl v else m.env) := by
  intro v
  have hticks : (Operation.ld (.ofIndex y) (.ofIndex z)).ticks =
      if y = 6 ∨ z = 6 then 8 else 4 := by
    show Operation.byOperand _ (Operation.byOperand _ 4 8) 8 = _
    rw [byOperand_ofIndex, byOperand_ofIndex, ite_or]
  obtain ⟨x, hx⟩ := exists_stepsTo hm hb (decode_ld h hhalt) ⟨rfl, rfl, nofun⟩ nofun hticks rfl
  have hvalue := ByteOperand.value_eq (register?_ofIndex z) Memory.bus m.core.regs m.env
  rw [← ByteOperand.loads_eq (register?_ofIndex z), Memory.bus_readAll] at hvalue
  simp only [Operation.effect, Operation.loads, hvalue,
    ByteOperand.regs_write (register?_ofIndex y), ByteOperand.stores_write (register?_ofIndex y),
    Memory.writeAll_storesAt] at hx
  exact ⟨x, hx⟩

/-- The immediate byte is copied to a place. -/
theorem exists_stepsTo_ldImm (y : Fin 8) (h : m.env.get m.core.regs.pc = .ofNat (0x06 + 8 * y)) :
    ∃ x, m.StepsTo x 2 (if y = 6 then 12 else 8)
      (m.core.regs.setAt (columnRegister? y) m.immediateByte)
      (if y = 6 then m.env.set m.core.regs.hl m.immediateByte else m.env) := by
  obtain ⟨x, hx⟩ := exists_stepsTo hm hb (decode_ldImm h) ⟨rfl, rfl, nofun⟩ nofun
    (byOperand_ofIndex y 8 12) rfl
  have hbyte : lo (m.immediate (.ldImm (.ofIndex y))) = m.immediateByte :=
    lo_immediate_of_one rfl
  simp only [Operation.effect, hbyte, ByteOperand.regs_write (register?_ofIndex y),
    ByteOperand.stores_write (register?_ofIndex y), Memory.writeAll_storesAt] at hx
  exact ⟨x, hx⟩

theorem exists_stepsTo_ldImm16 (p : Fin 4)
    (h : m.env.get m.core.regs.pc = .ofNat (0x01 + 16 * p)) :
    ∃ x, m.StepsTo x 3 12 (m.core.regs.setWord (pairRegister p) m.immediateWord) m.env := by
  obtain ⟨x, hx⟩ := exists_stepsTo hm hb (decode_ldImm16 h) ⟨rfl, rfl, nofun⟩ nofun rfl rfl
  have hword : m.immediate (.ldImm16 (.ofIndex p)) = m.immediateWord := immediate_of_two rfl
  simp only [Operation.effect, hword, WordOperand.register_ofIndex] at hx
  exact ⟨x, hx⟩

/-- The accumulator is stored as it was before the address was taken. -/
theorem exists_stepsTo_store (p : Pointer) (h : m.env.get m.core.regs.pc = p.opcodes.1) :
    let cell := p.cell m.core.regs m.immediateByte m.immediateWord
    ∃ x, m.StepsTo x cell.length cell.ticks cell.regs (m.env.set cell.address m.core.regs.a) := by
  intro cell
  have hop : decode (m.env.get m.core.regs.pc) = .storeA p := h ▸ p.decode_opcodes.1
  obtain ⟨x, hx⟩ := exists_stepsTo hm hb hop ⟨rfl, rfl, nofun⟩ nofun
    (p.ticks_cell m.core.regs m.immediateByte m.immediateWord).1 rfl
  rw [(p.length_cell m.core.regs m.immediateByte m.immediateWord).1] at hx
  simp only [Operation.effect, address_immediate (.inl rfl),
    p.regs_cell m.core.regs m.immediateByte m.immediateWord] at hx
  exact ⟨x, hx⟩

/-- The accumulator is loaded from the address as it was before the access moved it. -/
theorem exists_stepsTo_load (p : Pointer) (h : m.env.get m.core.regs.pc = p.opcodes.2) :
    let cell := p.cell m.core.regs m.immediateByte m.immediateWord
    ∃ x, m.StepsTo x cell.length cell.ticks (cell.regs.setByte .a (m.env.get cell.address))
      m.env := by
  intro cell
  have hop : decode (m.env.get m.core.regs.pc) = .loadA p := h ▸ p.decode_opcodes.2
  obtain ⟨x, hx⟩ := exists_stepsTo hm hb hop ⟨rfl, rfl, nofun⟩ nofun
    (p.ticks_cell m.core.regs m.immediateByte m.immediateWord).2 rfl
  rw [(p.length_cell m.core.regs m.immediateByte m.immediateWord).2] at hx
  simp only [Operation.effect, Operation.loads, address_immediate (.inr rfl), List.map_cons,
    List.map_nil, lo_wordOfBytes, List.headD_cons,
    p.regs_cell m.core.regs m.immediateByte m.immediateWord] at hx
  exact ⟨x, hx⟩

/-- The low byte of the stack pointer comes first in memory. -/
theorem exists_stepsTo_storeSp (h : m.env.get m.core.regs.pc = 0x08) :
    ∃ x, m.StepsTo x 3 20 m.core.regs
      ((m.env.set m.immediateWord (lo m.core.regs.sp)).set (m.immediateWord + 1)
        (hi m.core.regs.sp)) := by
  have hop : decode (m.env.get m.core.regs.pc) = .storeSp := by
    rw [h]
    decide
  obtain ⟨x, hx⟩ := exists_stepsTo hm hb hop ⟨rfl, rfl, nofun⟩ nofun rfl rfl
  have hword : m.immediate .storeSp = m.immediateWord := immediate_of_two rfl
  simp only [Operation.effect, hword] at hx
  exact ⟨x, hx⟩

theorem exists_stepsTo_ldSpHl (h : m.env.get m.core.regs.pc = 0xF9) :
    ∃ x, m.StepsTo x 1 8 { m.core.regs with sp := m.core.regs.hl } m.env := by
  have hop : decode (m.env.get m.core.regs.pc) = .ldSpHl := by
    rw [h]
    decide
  exact exists_stepsTo hm hb hop ⟨rfl, rfl, nofun⟩ nofun rfl rfl

end Steps

/-- **Loads.** Each of the load opcodes moves one value, and the step changes no other register, no
flag and no other cell.

* The byte opcodes copy a register, the byte at HL or an immediate byte to a register or to the byte
  at HL.
* A word register takes an immediate word, or SP takes HL.
* The accumulator is stored to a cell or loaded from it, and an access at HL may move HL.
* The two bytes of SP are stored, the low one first.

Every value and every address is taken from the registers and the memory before the step. -/
theorem load_law {m : Machine Memory} (hm : m.core.mode = .running) (hb : m.core.budget = 0) :
    let r := m.core.regs
    let opcode := m.env.get r.pc
    let byte := m.env.get (r.pc + 1)
    let word := join (m.env.get (r.pc + 2)) byte
    (∀ y z : Fin 8, opcode = .ofNat (0x40 + 8 * y + z) → opcode ≠ 0x76 →
      let v := r.valueAt (columnRegister? z) (m.env.get r.hl)
      ∃ x, m.StepsTo x 1 (if y = 6 ∨ z = 6 then 8 else 4) (r.setAt (columnRegister? y) v)
        (if y = 6 then m.env.set r.hl v else m.env)) ∧
    (∀ y : Fin 8, opcode = .ofNat (0x06 + 8 * y) →
      ∃ x, m.StepsTo x 2 (if y = 6 then 12 else 8) (r.setAt (columnRegister? y) byte)
        (if y = 6 then m.env.set r.hl byte else m.env)) ∧
    (∀ p : Fin 4, opcode = .ofNat (0x01 + 16 * p) →
      ∃ x, m.StepsTo x 3 12 (r.setWord (pairRegister p) word) m.env) ∧
    (∀ p : Pointer,
      let cell := p.cell r byte word
      (opcode = p.opcodes.1 →
        ∃ x, m.StepsTo x cell.length cell.ticks cell.regs (m.env.set cell.address r.a)) ∧
      (opcode = p.opcodes.2 →
        ∃ x, m.StepsTo x cell.length cell.ticks (cell.regs.setByte .a (m.env.get cell.address))
          m.env)) ∧
    (opcode = 0x08 →
      ∃ x, m.StepsTo x 3 20 r ((m.env.set word (lo r.sp)).set (word + 1) (hi r.sp))) ∧
    (opcode = 0xF9 → ∃ x, m.StepsTo x 1 8 { r with sp := r.hl } m.env) :=
  ⟨exists_stepsTo_ld hm hb, exists_stepsTo_ldImm hm hb, exists_stepsTo_ldImm16 hm hb,
    fun p => ⟨exists_stepsTo_store hm hb p, exists_stepsTo_load hm hb p⟩,
    exists_stepsTo_storeSp hm hb, exists_stepsTo_ldSpHl hm hb⟩

/-- A load of H from the byte at HL, and a store of the accumulator to the second byte of the
storing instruction. -/
theorem load_law_alias :
    let m : Machine Memory := ⟨{ regs := {} }, Memory.zero.set 0 0x66⟩
    let n : Machine Memory :=
      ⟨{ regs := { af := 0x5500 } }, (Memory.zero.set 0 0xEA).set 1 0x01⟩
    m.core.mode = .running ∧ m.core.budget = 0 ∧ n.core.mode = .running ∧ n.core.budget = 0 ∧
      m.env.get 0 = .ofNat (0x40 + 8 * 4 + 6) ∧ m.env.get 0 ≠ 0x76 ∧
      n.env.get 0 = Pointer.absolute.opcodes.1 ∧
      (∃ x, m.StepsTo x 1 8 { hl := 0x6600 } m.env) ∧
      ∃ x, n.StepsTo x 3 16 { af := 0x5500 } (n.env.set 1 0x55) := by
  intro m n
  have hm : m.env.get 0 = 0x66 := Memory.get_set_self _ _ _
  have hn : n.env.get 0 = 0xEA := by
    rw [Memory.get_set, if_neg (by decide), Memory.get_set_self]
  have ha : n.core.regs.a = 0x55 := by decide
  have hword : n.immediateWord = 1 := by decide +kernel
  obtain ⟨hcopy, -⟩ := load_law (m := m) rfl rfl
  obtain ⟨-, -, -, haccumulator, -⟩ := load_law (m := n) rfl rfl
  obtain ⟨x, hx⟩ := hcopy 4 6 hm (by rw [hm]; decide)
  obtain ⟨y, hy⟩ := (haccumulator .absolute).1 hn
  refine ⟨rfl, rfl, rfl, rfl, hm, by rw [hm]; decide, hn, ⟨x, ?_⟩, ⟨y, ?_⟩⟩
  · convert hx using 1
    · rfl
    · decide +kernel
    · exact (if_neg (show ¬(4 : Fin 8) = 6 by decide)).symm
  · rw [← hword, ← ha]
    exact hy

end Machine

end Sm83
