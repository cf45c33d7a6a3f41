import Sm83.Proofs.Bits
import Sm83.Proofs.StraightLine

/-!
# Rotations and single bits by opcode

Behind the escape byte, the upper two bits of the opcode choose between rotations, tests, clearing
and setting of a bit, the middle three bits the rotation or the bit, and the lower three bits the
byte. A rotated byte is given by arithmetic, a byte with a bit changed by all of its bits. Four
opcodes of the first table rotate the accumulator in the same way and leave other flags.

## Main definitions

* `rowRotation`: the rotations by their number

## Main results

* `decodeExtended_eq`: the second table by the fields of the opcode
* `Machine.exists_performs_escape`: a step that executes an opcode of the second table
* `Machine.exists_performs_update`: such a step, where the byte is read and written back
* `Machine.bitField_law`: what a step does at each of these opcodes
-/

namespace Sm83

/-- The rotations in the order of the middle three bits of an opcode. -/
def rowRotation (y : Fin 8) : Rotation :=
  ![.rlc, .rrc, .rl, .rr, .sla, .sra, .swap, .srl] y

theorem Rotation.ofIndex_eq (y : Fin 8) : Rotation.ofIndex y = rowRotation y := by
  revert y
  decide

theorem decodeExtended_eq (x : Fin 4) (y z : Fin 8) :
    decodeExtended (.ofNat (64 * x + 8 * y + z)) =
      ![.rotate (rowRotation y) (.ofIndex z), .bit y (.ofIndex z), .res y (.ofIndex z),
        .set y (.ofIndex z)] x := by
  obtain ⟨hblock, hrow, hcolumn⟩ := fields_of_eq (x := x) (y := y) (z := z) rfl
  simp only [decodeExtended, hblock, hrow, hcolumn, Rotation.ofIndex_eq]
  match x with
  | 0 | 1 | 2 | 3 => rfl

theorem decode_rotateA {b : UInt8} {y : Fin 4} (h : b = .ofNat (0x07 + 8 * y)) :
    decode b = .rotateA (![.rlc, .rrc, .rl, .rr] y) := by
  subst h
  revert y
  decide

/-- A rotation as arithmetic, with the flags that it leaves. -/
theorem Rotation.apply_eq_exact (op : Rotation) (v : UInt8) (carry : Bool) :
    (op.apply v carry).1.toNat = op.exact v.toNat carry ∧
      (op.apply v carry).2 =
        { zero := (op.apply v carry).1 == 0, subtract := false, half := false
          carry := op.bitOut v.toNat } := by
  refine ⟨op.toNat_result v carry, ?_⟩
  rw [← carryOut_eq]
  rfl

namespace Machine

variable {σ : Type} {bus : Bus σ} {m : Machine σ}

variable (bus m) in
/-- The opcode behind the escape byte. -/
def extendedOpcode : UInt8 × σ :=
  bus.read (m.core.regs.pc + 1) (bus.read m.core.regs.pc m.env).2

variable (bus m) in
/-- The byte that the lower three bits of an opcode behind the escape byte name. -/
def extendedByte (z : Fin 8) : UInt8 :=
  m.core.regs.valueAt (columnRegister? z) (bus.read m.core.regs.hl (m.extendedOpcode bus).2).1

section Extended

variable (hm : m.core.mode = .running) (hb : m.core.budget = 0)
  (hfirst : (bus.read m.core.regs.pc m.env).1 = 0xCB) (y z : Fin 8)

include hm hb hfirst

/-- A step that executes an opcode of the second table. The operation reads the byte that it acts
on and no other. -/
theorem exists_performs_escape {op : Operation}
    (hop : decodeExtended (m.extendedOpcode bus).1 = op) (hline : op.IsStraightLine) {ticks : ℕ}
    (hticks : op.ticks = ticks)
    (hloads : ∀ operand, op.loads m.core.regs operand = (ByteOperand.ofIndex z).loads m.core.regs)
    {stores : List (UInt16 × UInt8)} {regs : Registers}
    (heffect : ∀ operand datum,
      (ByteOperand.ofIndex z).value m.core.regs (lo datum) = m.extendedByte bus z →
        (op.effect m.core.regs operand datum).stores = stores ∧
          (op.effect m.core.regs operand datum).regs = regs) :
    ∃ x, m.Performs bus x [0xCB, (m.extendedOpcode bus).1] ticks
      (m.core.regs.loadsAt (columnRegister? z)) stores regs := by
  obtain ⟨hnext, hfetch⟩ := fetch_of_escape hfirst
  have hplace := register?_ofIndex z
  have hvalue := ByteOperand.value_eq hplace bus m.core.regs (m.extendedOpcode bus).2
  obtain ⟨hstores, hregs⟩ := heffect (m.nextOperand bus) _ hvalue
  exact exists_performs hm hb (hnext.trans hop) hline hfetch hticks
    ((hloads _).trans (ByteOperand.loads_eq hplace m.core.regs)) hstores hregs

/-- A byte that is changed is read and written back. The flags are those of `s`, which has been
reached before the byte is written. -/
theorem exists_performs_update {op : Operation}
    (hop : decodeExtended (m.extendedOpcode bus).1 = op) (hline : op.IsStraightLine)
    (hticks : op.ticks = Operation.byOperand (.ofIndex z) 8 16)
    (hloads : ∀ operand, op.loads m.core.regs operand = (ByteOperand.ofIndex z).loads m.core.regs)
    {s : Registers} {w : UInt8} (hs : s.hl = m.core.regs.hl)
    (heffect : ∀ operand datum,
      (ByteOperand.ofIndex z).value m.core.regs (lo datum) = m.extendedByte bus z →
        op.effect m.core.regs operand datum = (ByteOperand.ofIndex z).write s w) :
    ∃ x, m.Performs bus x [0xCB, (m.extendedOpcode bus).1] (if z = 6 then 16 else 8)
      (m.core.regs.loadsAt (columnRegister? z)) (m.core.regs.storesAt (columnRegister? z) w)
      (s.setAt (columnRegister? z) w) := by
  rw [byOperand_ofIndex] at hticks
  refine exists_performs_escape hm hb hfirst z hop hline hticks hloads ?_
  intro operand datum hvalue
  have hplace := register?_ofIndex z
  rw [heffect operand datum hvalue, ByteOperand.stores_write hplace, ByteOperand.regs_write hplace]
  exact ⟨by rw [Registers.storesAt, hs, Registers.storesAt], rfl⟩

theorem exists_performs_rotate (h : (m.extendedOpcode bus).1 = .ofNat (0x00 + 8 * y + z)) :
    ∃ w x, w.toNat = (rowRotation y).exact (m.extendedByte bus z).toNat m.core.regs.flags.carry ∧
      m.Performs bus x [0xCB, (m.extendedOpcode bus).1] (if z = 6 then 16 else 8)
        (m.core.regs.loadsAt (columnRegister? z)) (m.core.regs.storesAt (columnRegister? z) w)
        ((m.core.regs.setFlags
          { zero := w == 0, subtract := false, half := false
            carry := (rowRotation y).bitOut (m.extendedByte bus z).toNat }).setAt
          (columnRegister? z) w) := by
  obtain ⟨hresult, hflags⟩ :=
    (rowRotation y).apply_eq_exact (m.extendedByte bus z) m.core.regs.flags.carry
  have hop : decodeExtended (m.extendedOpcode bus).1 = .rotate (rowRotation y) (.ofIndex z) :=
    h ▸ decodeExtended_eq 0 y z
  let rotated := (rowRotation y).apply (m.extendedByte bus z) m.core.regs.flags.carry
  obtain ⟨x, hx⟩ := exists_performs_update hm hb hfirst z hop ⟨rfl, rfl, nofun⟩ rfl (fun _ => rfl)
    (s := m.core.regs.setFlags rotated.2) (w := rotated.1) rfl fun operand datum hvalue => by
      rw [Operation.effect, hvalue]
  rw [hflags] at hx
  exact ⟨rotated.1, x, hresult, hx⟩

theorem exists_performs_bit (h : (m.extendedOpcode bus).1 = .ofNat (0x40 + 8 * y + z)) :
    ∃ x, m.Performs bus x [0xCB, (m.extendedOpcode bus).1] (if z = 6 then 12 else 8)
      (m.core.regs.loadsAt (columnRegister? z)) []
      (m.core.regs.setFlags
        { zero := !(m.extendedByte bus z).toNat.testBit y, subtract := false, half := true
          carry := m.core.regs.flags.carry }) := by
  have hop : decodeExtended (m.extendedOpcode bus).1 = .bit y (.ofIndex z) :=
    h ▸ decodeExtended_eq 1 y z
  -- A test is the one operation of the second table that does not write the byte back.
  refine exists_performs_escape hm hb hfirst z hop ⟨rfl, rfl, nofun⟩ (byOperand_ofIndex z 8 12)
    (fun _ => rfl) fun operand datum hvalue => ⟨rfl, ?_⟩
  simp only [Operation.effect, hvalue, testBit, and_bitMask_beq_zero]

theorem exists_performs_res (h : (m.extendedOpcode bus).1 = .ofNat (0x80 + 8 * y + z)) :
    ∃ w x, (∀ j, w.toNat.testBit j =
        ((m.extendedByte bus z).toNat.testBit j && decide (y.val ≠ j))) ∧
      m.Performs bus x [0xCB, (m.extendedOpcode bus).1] (if z = 6 then 16 else 8)
        (m.core.regs.loadsAt (columnRegister? z)) (m.core.regs.storesAt (columnRegister? z) w)
        (m.core.regs.setAt (columnRegister? z) w) := by
  have hop : decodeExtended (m.extendedOpcode bus).1 = .res y (.ofIndex z) :=
    h ▸ decodeExtended_eq 2 y z
  obtain ⟨x, hx⟩ := exists_performs_update hm hb hfirst z hop ⟨rfl, rfl, nofun⟩ rfl (fun _ => rfl)
    rfl fun operand datum hvalue => by rw [Operation.effect, hvalue]
  exact ⟨_, x, testBit_clearBit y _, hx⟩

theorem exists_performs_set (h : (m.extendedOpcode bus).1 = .ofNat (0xC0 + 8 * y + z)) :
    ∃ w x, (∀ j, w.toNat.testBit j =
        ((m.extendedByte bus z).toNat.testBit j || decide (y.val = j))) ∧
      m.Performs bus x [0xCB, (m.extendedOpcode bus).1] (if z = 6 then 16 else 8)
        (m.core.regs.loadsAt (columnRegister? z)) (m.core.regs.storesAt (columnRegister? z) w)
        (m.core.regs.setAt (columnRegister? z) w) := by
  have hop : decodeExtended (m.extendedOpcode bus).1 = .set y (.ofIndex z) :=
    h ▸ decodeExtended_eq 3 y z
  obtain ⟨x, hx⟩ := exists_performs_update hm hb hfirst z hop ⟨rfl, rfl, nofun⟩ rfl (fun _ => rfl)
    rfl fun operand datum hvalue => by rw [Operation.effect, hvalue]
  exact ⟨_, x, testBit_setBit y _, hx⟩

end Extended

/-- The short forms for the accumulator clear the zero flag. -/
theorem exists_performs_rotateA (hm : m.core.mode = .running) (hb : m.core.budget = 0) (y : Fin 4)
    (h : (bus.read m.core.regs.pc m.env).1 = .ofNat (0x07 + 8 * y)) :
    let op := ![Rotation.rlc, .rrc, .rl, .rr] y
    ∃ w x, w.toNat = op.exact m.core.regs.a.toNat m.core.regs.flags.carry ∧
      m.Performs bus x [(bus.read m.core.regs.pc m.env).1] 4 [] []
        ((m.core.regs.setByte .a w).setFlags
          { zero := false, subtract := false, half := false
            carry := op.bitOut m.core.regs.a.toNat }) := by
  intro op
  obtain ⟨hresult, hflags⟩ := op.apply_eq_exact m.core.regs.a m.core.regs.flags.carry
  obtain ⟨hop, hfetch⟩ := fetch_of_decode (decode_rotateA h) nofun
  obtain ⟨x, hx⟩ := exists_performs hm hb hop ⟨rfl, rfl, nofun⟩ hfetch rfl rfl rfl
    (by simp only [Operation.effect, op, hflags]; rfl)
  exact ⟨_, x, hresult, hx⟩

/-- **Rotations and single bits.** Behind the escape byte the fields of the opcode choose what is
done to which byte.

* A rotation replaces the byte by its arithmetic result, and the bit that leaves it becomes the
  carry flag.
* A test leaves in the zero flag whether the bit is clear, and writes nothing else.
* A bit that is cleared or set changes no other bit and no flag.

A byte at HL is read once and, except by a test, written once. The four rotations of the accumulator
in the first table have the same result and carry flag as those behind the escape byte. -/
theorem bitField_law (bus : Bus σ) {m : Machine σ} (hm : m.core.mode = .running)
    (hb : m.core.budget = 0) :
    let r := m.core.regs
    let first := bus.read r.pc m.env
    let second := bus.read (r.pc + 1) first.2
    (first.1 = 0xCB → ∀ y z : Fin 8,
      let place := columnRegister? z
      let v := r.valueAt place (bus.read r.hl second.2).1
      (second.1 = .ofNat (0x00 + 8 * y + z) →
        ∃ w x, w.toNat = (rowRotation y).exact v.toNat r.flags.carry ∧
          m.Performs bus x [0xCB, second.1] (if z = 6 then 16 else 8) (r.loadsAt place)
            (r.storesAt place w)
            ((r.setFlags
              { zero := w == 0, subtract := false, half := false
                carry := (rowRotation y).bitOut v.toNat }).setAt place w)) ∧
      (second.1 = .ofNat (0x40 + 8 * y + z) →
        ∃ x, m.Performs bus x [0xCB, second.1] (if z = 6 then 12 else 8) (r.loadsAt place) []
          (r.setFlags
            { zero := !v.toNat.testBit y, subtract := false, half := true
              carry := r.flags.carry })) ∧
      (second.1 = .ofNat (0x80 + 8 * y + z) →
        ∃ w x, (∀ j, w.toNat.testBit j = (v.toNat.testBit j && decide (y.val ≠ j))) ∧
          m.Performs bus x [0xCB, second.1] (if z = 6 then 16 else 8) (r.loadsAt place)
            (r.storesAt place w) (r.setAt place w)) ∧
      (second.1 = .ofNat (0xC0 + 8 * y + z) →
        ∃ w x, (∀ j, w.toNat.testBit j = (v.toNat.testBit j || decide (y.val = j))) ∧
          m.Performs bus x [0xCB, second.1] (if z = 6 then 16 else 8) (r.loadsAt place)
            (r.storesAt place w) (r.setAt place w))) ∧
    ∀ y : Fin 4, first.1 = .ofNat (0x07 + 8 * y) →
      let op := ![Rotation.rlc, .rrc, .rl, .rr] y
      ∃ w x, w.toNat = op.exact r.a.toNat r.flags.carry ∧
        m.Performs bus x [first.1] 4 [] []
          ((r.setByte .a w).setFlags
            { zero := false, subtract := false, half := false
              carry := op.bitOut r.a.toNat }) :=
  ⟨fun hfirst y z =>
    ⟨exists_performs_rotate hm hb hfirst y z, exists_performs_bit hm hb hfirst y z,
      exists_performs_res hm hb hfirst y z, exists_performs_set hm hb hfirst y z⟩,
    exists_performs_rotateA hm hb⟩

/-- RL of the byte at HL, which is written back, a test of the top bit of C, and RLCA. -/
theorem bitField_law_rl :
    let bus := Bus.rom [0xCB, 0x16, 0xCB, 0x79, 0x07]
    let m : Machine Unit := ⟨{ regs := { af := 0x0010 } }, ()⟩
    let n : Machine Unit := ⟨{ regs := { bc := 0x0080, pc := 2 } }, ()⟩
    let k : Machine Unit := ⟨{ regs := { af := 0x8000, pc := 4 } }, ()⟩
    m.core.mode = .running ∧ m.core.budget = 0 ∧ n.core.mode = .running ∧ n.core.budget = 0 ∧
      k.core.mode = .running ∧ k.core.budget = 0 ∧
      (∃ x, m.Performs bus x [0xCB, 0x16] 16 [0] [(0, 0x97)] { af := 0x0010 }) ∧
      (∃ x, n.Performs bus x [0xCB, 0x79] 8 [] [] { af := 0x0020, bc := 0x0080, pc := 2 }) ∧
      ∃ x, k.Performs bus x [0x07] 4 [] [] { af := 0x0110, pc := 4 } := by
  intro bus m n k
  obtain ⟨hm, -⟩ := bitField_law bus (m := m) rfl rfl
  obtain ⟨hn, -⟩ := bitField_law bus (m := n) rfl rfl
  obtain ⟨-, hk⟩ := bitField_law bus (m := k) rfl rfl
  refine ⟨rfl, rfl, rfl, rfl, rfl, rfl, ?_, ?_, ?_⟩
  · obtain ⟨w, x, hw, hx⟩ := (hm (by decide +kernel) 2 6).1 (by decide +kernel)
    obtain rfl : w = 0x97 := UInt8.toNat_inj.1 (hw.trans (by decide +kernel))
    refine ⟨x, ?_⟩
    convert hx using 1 <;> decide +kernel
  · convert (hn (by decide +kernel) 7 1).2.1 (by decide +kernel) using 3 <;> decide +kernel
  · obtain ⟨w, x, hw, hx⟩ := hk 0 (by decide +kernel)
    obtain rfl : w = 0x01 := UInt8.toNat_inj.1 (hw.trans (by decide +kernel))
    refine ⟨x, ?_⟩
    convert hx using 1 <;> decide +kernel

end Machine

end Sm83
