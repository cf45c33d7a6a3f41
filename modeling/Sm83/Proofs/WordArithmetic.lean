import Sm83.Proofs.LongArithmetic
import Sm83.Proofs.StraightLine

/-!
# Addition of words

Words are added at once, and their flags are computed by formulas of their own. The sum and these
flags are the ones that a program gets which adds the low bytes by ADD and then the high bytes by
ADC. A displacement is a byte read with its sign: to the low byte it is added as it is, and to the
high byte it adds the bytes of its sign. Its flags are those of the low bytes.

## Main definitions

* `lowSum`, `highSum`: two words added byte by byte
* `Machine.addedToHl`, `Machine.addedToSp`: the registers after an addition byte by byte

## Main results

* `exact_highSum`: no carry is lost between the bytes
* `addWords_eq`, `addOffset_eq`: the formulas for words agree with the addition of bytes
* `Machine.wordSum_law`: what the additions of words do, in any state and at their opcodes
-/

namespace Sm83

/-! ## Byte by byte -/

/-- The low byte of a sum, by ADD, with the flags. -/
def lowSum (x y : UInt16) : UInt8 × Flags := addBytes (lo x) (lo y) false

/-- The high byte of a sum, by ADC, with the flags. -/
def highSum (x y : UInt16) : UInt8 × Flags := addBytes (hi x) (hi y) (lowSum x y).2.carry

theorem toNat_eq_bytes (w : UInt16) : w.toNat = (lo w).toNat + 256 * (hi w).toNat := by
  rw [toNat_lo, toNat_hi, Nat.mod_add_div]

/-- **No carry is lost between the bytes.** The carry flag of the high bytes counts 65536. -/
theorem exact_highSum (x y : UInt16) :
    ExactResult 1 65536 x.toNat y.toNat false (join (highSum x y).1 (lowSum x y).1).toNat
      (highSum x y).2.carry := by
  have hbytes := (exact_addBytes (lo x) (lo y) false).cons
    (exact_addBytes (hi x) (hi y) (lowSum x y).2.carry)
  rwa [← toNat_eq_bytes, ← toNat_eq_bytes, Nat.add_comm, ← toNat_join] at hbytes

theorem add_eq_join (x y : UInt16) : x + y = join (highSum x y).1 (lowSum x y).1 := by
  apply UInt16.toNat_inj.1
  rw [(exact_highSum x y).of_add.1, Bool.toNat_false, Nat.add_zero, UInt16.toNat_add]

theorem carry_highSum (x y : UInt16) :
    (highSum x y).2.carry = decide (65535 < x.toNat + y.toNat) := by
  rw [Bool.eq_iff_iff, (exact_highSum x y).of_add.2, decide_eq_true_iff]
  exact Iff.rfl

/-- The half-carry of the high bytes is the carry out of the lower twelve bits. -/
theorem half_highSum (x y : UInt16) :
    (highSum x y).2.half = decide (4095 < x.toNat % 4096 + y.toNat % 4096) := by
  obtain ⟨-, hcarry⟩ := flags_addBytes (lo x) (lo y) false
  obtain ⟨hhalf, -⟩ := flags_addBytes (hi x) (hi y) (lowSum x y).2.carry
  rw [highSum, hhalf, lowSum, hcarry, toNat_hi, toNat_hi, toNat_lo, toNat_lo, Bool.toNat_false]
  apply decide_eq_decide.2
  -- The carry that comes in is told apart, since it is the one thing that is not linear.
  by_cases h : 255 < x.toNat % 256 + y.toNat % 256 + 0
  · rw [decide_eq_true h, Bool.toNat_true]
    omega
  · rw [decide_eq_false h, Bool.toNat_false]
    omega

/-! ## Words -/

theorem toNat_low12 (w : UInt16) : (w &&& 0x0FFF).toNat = w.toNat % 4096 := by
  rw [UInt16.toNat_and]
  exact Nat.and_two_pow_sub_one_eq_mod _ 12

theorem toNat_lowByte (w : UInt16) : (w &&& 0x00FF).toNat = (lo w).toNat := by
  rw [UInt16.toNat_and, toNat_lo]
  exact Nat.and_two_pow_sub_one_eq_mod _ 8

theorem toNat_wordNibble (w : UInt16) : (w &&& 0x0F).toNat = w.toNat % 16 := by
  rw [UInt16.toNat_and]
  exact Nat.and_two_pow_sub_one_eq_mod _ 4

/-- **The sum of two words** is the one that ADD and ADC make, and its flags are those of ADC. -/
theorem addWords_eq (x y : UInt16) (f : Flags) :
    addWords x y f =
      (join (highSum x y).1 (lowSum x y).1,
        { zero := f.zero, subtract := false, half := (highSum x y).2.half
          carry := (highSum x y).2.carry }) := by
  have hx := x.toNat_lt
  have hy := y.toNat_lt
  have hhalf : decide ((x &&& 0x0FFF) + (y &&& 0x0FFF) > 0x0FFF) = (highSum x y).2.half := by
    rw [half_highSum]
    apply decide_eq_decide.2
    rw [gt_iff_lt, UInt16.lt_iff_toNat_lt, UInt16.toNat_add, toNat_low12, toNat_low12]
    show 4095 < _ ↔ _
    omega
  have hcarry : decide (x.toUInt32 + y.toUInt32 > 0xFFFF) = (highSum x y).2.carry := by
    rw [carry_highSum]
    apply decide_eq_decide.2
    rw [gt_iff_lt, UInt32.lt_iff_toNat_lt, UInt32.toNat_add, UInt16.toNat_toUInt32,
      UInt16.toNat_toUInt32]
    show 65535 < _ ↔ _
    omega
  rw [addWords, add_eq_join, hhalf, hcarry]

/-! ## Displacements -/

theorem lo_signExtend (e : UInt8) : lo (signExtend e) = e := by
  unfold signExtend
  split
  · simp [lo]
  · exact lo_join _ _

theorem hi_signExtend (e : UInt8) : hi (signExtend e) = if e < 0x80 then 0x00 else 0xFF := by
  unfold signExtend
  split
  · have he := e.toNat_lt
    apply UInt8.toNat_inj.1
    rw [toNat_hi, UInt8.toNat_toUInt16]
    exact Nat.div_eq_of_lt he
  · exact hi_join _ _

/-- **A displaced word** is the one that ADD and ADC make, and its flags are those of ADD. -/
theorem addOffset_eq (base : UInt16) (e : UInt8) :
    addOffset base e =
      (join (highSum base (signExtend e)).1 (lowSum base (signExtend e)).1,
        { zero := false, subtract := false, half := (lowSum base (signExtend e)).2.half
          carry := (lowSum base (signExtend e)).2.carry }) := by
  have hbase := (lo base).toNat_lt
  have he := e.toNat_lt
  obtain ⟨hhalf, hcarry⟩ := flags_addBytes (lo base) e false
  have hhalf' : decide ((base &&& 0x00FF &&& 0x0F) + (e.toUInt16 &&& 0x0F) > 0x0F) =
      (addBytes (lo base) e false).2.half := by
    rw [hhalf]
    apply decide_eq_decide.2
    rw [gt_iff_lt, UInt16.lt_iff_toNat_lt, UInt16.toNat_add, toNat_wordNibble, toNat_wordNibble,
      toNat_lowByte, UInt8.toNat_toUInt16, Bool.toNat_false]
    show 15 < _ ↔ _
    omega
  have hcarry' : decide ((base &&& 0x00FF) + e.toUInt16 > 0xFF) =
      (addBytes (lo base) e false).2.carry := by
    rw [hcarry]
    apply decide_eq_decide.2
    rw [gt_iff_lt, UInt16.lt_iff_toNat_lt, UInt16.toNat_add, toNat_lowByte, UInt8.toNat_toUInt16,
      Bool.toNat_false]
    show 255 < _ ↔ _
    omega
  rw [addOffset, add_eq_join]
  simp only [hhalf', hcarry', lowSum, lo_signExtend]

theorem lt_sign_iff (e : UInt8) : e < 0x80 ↔ e.toNat < 128 := UInt8.lt_iff_toNat_lt

theorem toNat_signExtend (e : UInt8) :
    (signExtend e).toNat = if e.toNat < 128 then e.toNat else 65280 + e.toNat := by
  unfold signExtend
  by_cases h : e.toNat < 128
  · rw [if_pos h, if_pos ((lt_sign_iff e).2 h), UInt8.toNat_toUInt16]
  · rw [if_neg h, if_neg (mt (lt_sign_iff e).1 h), toNat_join]
    rfl

/-- A displaced word as a number: the displacement is read with its sign. -/
theorem toNat_add_signExtend (base : UInt16) (e : UInt8) :
    ((base + signExtend e).toNat : ℤ) = (base.toNat + e.toInt8.toInt) % 65536 := by
  have he := e.toNat_lt
  have hsigned : e.toInt8.toInt = (e.toNat : ℤ).bmod 256 := BitVec.toInt_eq_toNat_bmod e.toBitVec
  rw [UInt16.toNat_add, toNat_signExtend, hsigned, Int.bmod_def]
  by_cases h : e.toNat < 128
  · rw [if_pos h]
    omega
  · rw [if_neg h]
    omega

/-! ## Operations -/

theorem decode_addHl {b : UInt8} {p : Fin 4} (h : b = .ofNat (0x09 + 16 * p)) :
    decode b = .addHl (.ofIndex p) := by
  subst h
  revert p
  decide

namespace Machine

variable {σ : Type} (bus : Bus σ) (m : Machine σ)

/-- The registers after the word `y` has been added to HL byte by byte, by ADD and by ADC. The zero
flag is kept. -/
def addedToHl (y : UInt16) : Registers :=
  let low := m.combined bus .add (lo m.core.regs.hl) (lo y)
  let high := low.combined bus .adc (hi m.core.regs.hl) (hi y)
  { m.core.regs with hl := join high.accumulator low.accumulator }.setFlags
    { zero := m.core.regs.flags.zero, subtract := false, half := high.core.regs.flags.half
      carry := high.core.regs.flags.carry }

/-- The registers after SP and the displacement `e` have been added byte by byte, by ADD and by ADC,
and the sum put into a register. The flags are those of the low bytes. -/
def addedToSp (dst : WordRegister) (e : UInt8) : Registers :=
  let low := m.combined bus .add (lo m.core.regs.sp) e
  let high := low.combined bus .adc (hi m.core.regs.sp) (if e < 0x80 then 0x00 else 0xFF)
  (m.core.regs.setWord dst (join high.accumulator low.accumulator)).setFlags
    { zero := false, subtract := false, half := low.core.regs.flags.half
      carry := low.core.regs.flags.carry }

theorem combined_low (x y : UInt16) :
    (m.combined bus .add (lo x) (lo y)).accumulator = (lowSum x y).1 ∧
      (m.combined bus .add (lo x) (lo y)).core.regs.flags = (lowSum x y).2 :=
  ⟨(m.combined_eq bus .add (lo x) (lo y)).1, m.flags_combined bus .add (lo x) (lo y)⟩

/-- ADC takes in the carry flag that ADD has left. -/
theorem combined_high (x y : UInt16) :
    let low := m.combined bus .add (lo x) (lo y)
    (low.combined bus .adc (hi x) (hi y)).accumulator = (highSum x y).1 ∧
      (low.combined bus .adc (hi x) (hi y)).core.regs.flags = (highSum x y).2 := by
  intro low
  have hflags := (low.flags_combined bus .adc (hi x) (hi y))
  have haccumulator := (low.combined_eq bus .adc (hi x) (hi y)).1
  rw [(m.combined_low bus x y).2] at hflags haccumulator
  exact ⟨haccumulator, hflags⟩

theorem setWordResult_addWords (y : UInt16) :
    m.core.regs.setWordResult .hl (addWords m.core.regs.hl y m.core.regs.flags) =
      m.addedToHl bus y := by
  obtain ⟨hlow, -⟩ := m.combined_low bus m.core.regs.hl y
  obtain ⟨hhigh, hflags⟩ := m.combined_high bus m.core.regs.hl y
  simp only [addedToHl, hlow, hhigh, hflags, addWords_eq]
  rfl

theorem setWordResult_addOffset (dst : WordRegister) (e : UInt8) :
    m.core.regs.setWordResult dst (addOffset m.core.regs.sp e) = m.addedToSp bus dst e := by
  obtain ⟨hlow, hflags⟩ := m.combined_low bus m.core.regs.sp (signExtend e)
  obtain ⟨hhigh, -⟩ := m.combined_high bus m.core.regs.sp (signExtend e)
  rw [lo_signExtend] at hlow hflags hhigh
  rw [hi_signExtend] at hhigh
  simp only [addedToSp, hlow, hhigh, hflags, addOffset_eq]
  rfl

/-- Carrying out an operation that reads nothing, stores nothing and announces nothing changes the
registers. -/
theorem perform_of_regs {op : Operation} {operand : UInt16} {regs : Registers}
    (hloads : op.loads m.core.regs operand = []) (hevent : op.event? = none)
    (heffect : op.effect m.core.regs operand 0 = { regs }) :
    perform bus op operand m = (⟨{ m.core with regs }, m.env⟩, []) := by
  have hword : op.effect m.core.regs operand (wordOfBytes []) = { regs } := heffect
  rw [perform_eq, hloads, hevent, Bus.readAll_nil]
  simp only [hword]
  rfl

theorem perform_addHl (src : WordOperand) (operand : UInt16) :
    perform bus (.addHl src) operand m =
      (⟨{ m.core with regs := m.addedToHl bus (m.core.regs.word src.register) }, m.env⟩, []) := by
  refine perform_of_regs bus m rfl rfl ?_
  rw [Operation.effect, setWordResult_addWords]

theorem perform_addSp (e : UInt8) :
    perform bus .addSp (wordOfBytes [e]) m =
      (⟨{ m.core with regs := m.addedToSp bus .sp e }, m.env⟩, []) := by
  refine perform_of_regs bus m rfl rfl ?_
  rw [Operation.effect, lo_wordOfBytes, List.headD_cons, setWordResult_addOffset]

theorem perform_ldHlSp (e : UInt8) :
    perform bus .ldHlSp (wordOfBytes [e]) m =
      (⟨{ m.core with regs := m.addedToSp bus .hl e }, m.env⟩, []) := by
  refine perform_of_regs bus m rfl rfl ?_
  rw [Operation.effect, lo_wordOfBytes, List.headD_cons, setWordResult_addOffset]

theorem hl_addedToHl (y : UInt16) : (m.addedToHl bus y).hl = m.core.regs.hl + y := by
  rw [← setWordResult_addWords]
  rfl

theorem sp_addedToSp (e : UInt8) :
    (m.addedToSp bus .sp e).sp = m.core.regs.sp + signExtend e := by
  rw [← setWordResult_addOffset]
  rfl

theorem hl_addedToSp (e : UInt8) :
    (m.addedToSp bus .hl e).hl = m.core.regs.sp + signExtend e := by
  rw [← setWordResult_addOffset]
  rfl

/-! ## Opcodes -/

section Steps

variable {bus m} (hm : m.core.mode = .running) (hb : m.core.budget = 0)

include hm hb

theorem exists_performs_addHl (p : Fin 4)
    (h : (bus.read m.core.regs.pc m.env).1 = .ofNat (0x09 + 16 * p)) :
    ∃ x, m.Performs bus x [(bus.read m.core.regs.pc m.env).1] 8 [] []
      (m.addedToHl bus (m.core.regs.word (pairRegister p))) := by
  obtain ⟨hnext, hfetch⟩ := fetch_of_decode (decode_addHl h) nofun
  refine exists_performs hm hb hnext ⟨rfl, rfl, nofun⟩ hfetch rfl rfl rfl ?_
  rw [Operation.effect, setWordResult_addWords, WordOperand.register_ofIndex]

/-- An addition to SP, with the sum put into the register `dst`. -/
theorem exists_performs_addOffset {op : Operation} {dst : WordRegister} {ticks : ℕ}
    (hop : decode (bus.read m.core.regs.pc m.env).1 = op) (hline : op.IsStraightLine)
    (hlength : op.length = 2) (hticks : op.ticks = ticks) (hescape : op ≠ .escape)
    (hloads : ∀ operand, op.loads m.core.regs operand = [])
    (heffect : ∀ operand datum, op.effect m.core.regs operand datum =
      { regs := m.core.regs.setWordResult dst (addOffset m.core.regs.sp (lo operand)) }) :
    let first := bus.read m.core.regs.pc m.env
    let second := bus.read (m.core.regs.pc + 1) first.2
    ∃ x, m.Performs bus x [first.1, second.1] ticks [] [] (m.addedToSp bus dst second.1) := by
  intro first second
  obtain ⟨hnext, hfetch⟩ := fetch_of_decode hop hescape
  rw [hlength] at hfetch
  have hopcode : op.opcodeBytes = 1 := hop ▸ opcodeBytes_decode first.1
  have hoperand : lo (m.nextOperand bus) = second.1 := by
    rw [nextOperand, lo_wordOfBytes, nextOperands, hfetch, hnext, hopcode]
    rfl
  refine exists_performs hm hb hnext hline hfetch hticks (hloads _) ?_ ?_
  · rw [heffect]
  · rw [heffect, hoperand, setWordResult_addOffset]

end Steps

/-- **Addition of words.** In every state, ADD to HL leaves the sum and the flags that ADD and ADC
give byte by byte, and keeps the zero flag. A displacement added to SP, whether the sum goes to SP
or to HL, leaves the word that ADD and ADC give byte by byte and the flags of ADD, and clears the
zero flag. Both sums are reduced modulo 65536, and the displacement counts with its sign. The other
word registers keep what they hold. So it is at the opcodes of these operations. -/
theorem wordSum_law (bus : Bus σ) (m : Machine σ) :
    let r := m.core.regs
    let leaves (regs : Registers) : Machine σ × List Entry := (⟨{ m.core with regs }, m.env⟩, [])
    (∀ (src : WordOperand) (operand : UInt16),
      let y := r.word src.register
      perform bus (.addHl src) operand m = leaves (m.addedToHl bus y) ∧
        (m.addedToHl bus y).hl.toNat = (r.hl.toNat + y.toNat) % 65536) ∧
    (∀ e : UInt8,
      perform bus .addSp (wordOfBytes [e]) m = leaves (m.addedToSp bus .sp e) ∧
        perform bus .ldHlSp (wordOfBytes [e]) m = leaves (m.addedToSp bus .hl e) ∧
        ((m.addedToSp bus .sp e).sp.toNat : ℤ) = (r.sp.toNat + e.toInt8.toInt) % 65536 ∧
        (m.addedToSp bus .hl e).hl = (m.addedToSp bus .sp e).sp ∧
        (m.addedToSp bus .sp e).hl = r.hl ∧ (m.addedToSp bus .hl e).sp = r.sp) ∧
    (m.core.mode = .running → m.core.budget = 0 →
      let first := bus.read r.pc m.env
      let second := bus.read (r.pc + 1) first.2
      (∀ p : Fin 4, first.1 = .ofNat (0x09 + 16 * p) →
        ∃ x, m.Performs bus x [first.1] 8 [] [] (m.addedToHl bus (r.word (pairRegister p)))) ∧
      (first.1 = 0xE8 →
        ∃ x, m.Performs bus x [first.1, second.1] 16 [] [] (m.addedToSp bus .sp second.1)) ∧
      (first.1 = 0xF8 →
        ∃ x, m.Performs bus x [first.1, second.1] 12 [] [] (m.addedToSp bus .hl second.1))) := by
  intro r leaves
  refine ⟨fun src operand => ⟨m.perform_addHl bus src operand, ?_⟩, fun e => ?_, fun hm hb => ?_⟩
  · rw [hl_addedToHl, UInt16.toNat_add]
  · refine ⟨m.perform_addSp bus e, m.perform_ldHlSp bus e, ?_, ?_, rfl, rfl⟩
    · rw [sp_addedToSp, toNat_add_signExtend]
    · rw [hl_addedToSp, sp_addedToSp]
  · intro first second
    refine ⟨exists_performs_addHl hm hb, fun h => ?_, fun h => ?_⟩
    · have hop : decode first.1 = .addSp := by
        rw [h]
        decide
      exact exists_performs_addOffset hm hb hop ⟨rfl, rfl, nofun⟩ rfl rfl nofun (fun _ => rfl)
        fun _ _ => rfl
    · have hop : decode first.1 = .ldHlSp := by
        rw [h]
        decide
      exact exists_performs_addOffset hm hb hop ⟨rfl, rfl, nofun⟩ rfl rfl nofun (fun _ => rfl)
        fun _ _ => rfl

/-- HL doubled with a carry out of each byte, and SP decremented by a negative displacement, which
carries out of its low byte. -/
theorem wordSum_law_negative :
    let bus := Bus.rom [0x29, 0xE8, 0xFF]
    let m : Machine Unit := ⟨{ regs := { af := 0x00C0, hl := 0x88FF } }, ()⟩
    let n : Machine Unit := ⟨{ regs := { af := 0x00F0, sp := 0x0102, pc := 1 } }, ()⟩
    m.core.mode = .running ∧ m.core.budget = 0 ∧ n.core.mode = .running ∧ n.core.budget = 0 ∧
      (∃ x, m.Performs bus x [0x29] 8 [] [] { af := 0x00B0, hl := 0x11FE }) ∧
      ∃ x, n.Performs bus x [0xE8, 0xFF] 16 [] [] { af := 0x0030, sp := 0x0101, pc := 1 } := by
  intro bus m n
  obtain ⟨-, -, hm⟩ := wordSum_law bus m
  obtain ⟨-, -, hn⟩ := wordSum_law bus n
  refine ⟨rfl, rfl, rfl, rfl, ?_, ?_⟩
  · convert (hm rfl rfl).1 2 (by decide +kernel) using 3 <;> decide +kernel
  · convert (hn rfl rfl).2.1 (by decide +kernel) using 3 <;> decide +kernel

end Machine

end Sm83
