import Sm83.Proofs.Bits
import Sm83.Proofs.FlagRules
import Sm83.Proofs.LongNumber

/-!
# Arithmetic on long numbers

Numbers of any length are added byte by byte: ADD for the least significant byte and ADC for the
others. They are subtracted in the same way by SUB and SBC. The carry flag leads from each byte to
the next, so whatever a program does between two bytes must keep it. Loads do, and so do increments
and decrements of either width: they fetch the next bytes and count the loop.

## Main definitions

* `Machine.handledAll`: operations carried out in a row, their immediate bytes included
* `Operation.isMoveOrCount`: the operations between two bytes
* `Stage`, `Machine.combinedAll`: a long operation, with what is done between the bytes

## Main results

* `exact_addBytes`, `exact_subBytes`: the carry flag is the carry of the bytes
* `Machine.carry_handledAll`: loads and counts keep the carry flag
* `Machine.exact_combinedAll`: each byte takes the carry of the byte before
* `Machine.long_law`: addition and subtraction of any length
-/

namespace Sm83

/-! ## One byte -/

/-- The carry flag of a sum is the carry of the bytes. -/
theorem exact_addBytes (x y : UInt8) (carry : Bool) :
    ExactResult 1 256 x.toNat y.toNat carry (addBytes x y carry).1.toNat
      (addBytes x y carry).2.carry where
  lt := UInt8.toNat_lt _
  sum := by
    have hx := x.toNat_lt
    have hy := y.toNat_lt
    have hc := carry.toNat_le
    rw [toNat_addBytes, (flags_addBytes x y carry).2]
    by_cases hout : 255 < x.toNat + y.toNat + carry.toNat
    · rw [decide_eq_true hout, Bool.toNat_true]
      omega
    · rw [decide_eq_false hout, Bool.toNat_false]
      omega

/-- The carry flag of a difference is the borrow of the bytes. -/
theorem exact_subBytes (x y : UInt8) (borrow : Bool) :
    ExactResult (-1) 256 x.toNat y.toNat borrow (subBytes x y borrow).1.toNat
      (subBytes x y borrow).2.carry where
  lt := UInt8.toNat_lt _
  sum := by
    have hx := x.toNat_lt
    have hy := y.toNat_lt
    have hb := borrow.toNat_le
    rw [toNat_subBytes, (flags_subBytes x y borrow).2]
    by_cases hout : x.toNat < y.toNat + borrow.toNat
    · rw [decide_eq_true hout, Bool.toNat_true]
      omega
    · rw [decide_eq_false hout, Bool.toNat_false]
      omega

/-! ## Operations that keep the carry flag -/

/-- Whether an operation is a load that computes nothing, an increment or a decrement. -/
def Operation.isMoveOrCount : Operation → Bool
  | ld .. | ldImm _ | storeA _ | loadA _ | ldImm16 _ | storeSp | ldSpHl => true
  | inc _ | dec _ | inc16 _ | dec16 _ => true
  | _ => false

theorem Operation.carry_flagRule {op : Operation} (h : op.isMoveOrCount = true) (f : Flags) :
    (op.flagRule f).carry = .keep := by
  cases op with
  | ld | ldImm | storeA | loadA | ldImm16 | storeSp | ldSpHl | inc | dec | inc16 | dec16 => rfl
  | _ => cases h

namespace Machine

variable {σ : Type} (bus : Bus σ)

/-- Carrying out an operation sets the registers; the event comes after that. -/
theorem regs_perform (op : Operation) (operand : UInt16) (m : Machine σ) :
    (perform bus op operand m).1.core.regs =
      (op.effect m.core.regs operand
        (wordOfBytes (bus.readAll (op.loads m.core.regs operand) m.env).1)).regs := by
  rw [perform_eq]
  exact Core.regs_respond _ _

theorem carry_handled {op : Operation} (h : op.isMoveOrCount = true) (m : Machine σ) :
    (m.handled bus op).core.regs.flags.carry = m.core.regs.flags.carry := by
  have hallows (r : Registers) (operand datum : UInt16) :
      (op.effect r operand datum).regs.flags.carry = r.flags.carry := by
    have hcarry := (op.allows_effect r operand datum).carry
    rwa [Operation.carry_flagRule h] at hcarry
  rw [handled, regs_perform, hallows, flags_fetchBytes]

/-- The machine after operations in a row. -/
def handledAll (ops : List Operation) (m : Machine σ) : Machine σ :=
  ops.foldl (fun m op => m.handled bus op) m

/-- **Loads and counts keep the carry flag**, however many there are. -/
theorem carry_handledAll {ops : List Operation} (h : ∀ op ∈ ops, op.isMoveOrCount = true)
    (m : Machine σ) : (m.handledAll bus ops).core.regs.flags.carry = m.core.regs.flags.carry := by
  induction ops generalizing m with
  | nil => rfl
  | cons op ops ih =>
    obtain ⟨hop, hops⟩ := List.forall_mem_cons.1 h
    exact (ih hops (m.handled bus op)).trans (carry_handled bus hop m)

end Machine

/-! ## All bytes of a number -/

/-- One byte of a long operation: the two operands, and what is done before the next byte. -/
structure Stage where
  x : UInt8
  y : UInt8
  between : List Operation

/-- An operation of the accumulator is exact in the direction of the sign, if `carry` is what it
takes in from the flags. -/
def Arithmetic.IsExact (op : Arithmetic) (sign : ℤ) (carry : Flags → Bool) : Prop :=
  ∀ x y f, ExactResult sign 256 x.toNat y.toNat (carry f) (op.apply x y f).1.toNat
    (op.apply x y f).2.carry

namespace Arithmetic

theorem isExact_add : add.IsExact 1 fun _ => false := fun x y _ => exact_addBytes x y false

theorem isExact_adc : adc.IsExact 1 Flags.carry := fun x y f => exact_addBytes x y f.carry

theorem isExact_sub : sub.IsExact (-1) fun _ => false := fun x y _ => exact_subBytes x y false

theorem isExact_sbc : sbc.IsExact (-1) Flags.carry := fun x y f => exact_subBytes x y f.carry

end Arithmetic

namespace Machine

variable {σ : Type} (bus : Bus σ)

def carry (m : Machine σ) : Bool := m.core.regs.flags.carry

def accumulator (m : Machine σ) : UInt8 := m.core.regs.a

/-- The machine after one byte: the accumulator is loaded with `x`, and the operation is carried out
with `y`. -/
def combined (op : Arithmetic) (x y : UInt8) (m : Machine σ) : Machine σ :=
  (perform bus (.aluImm op) y.toUInt16 (m.command bus (.assign (.byte .a x))).machine).1

/-- The machines after each byte of a long operation that is carried out by `first` on the least
significant bytes and by `next` on all others. -/
def combinedAll (first next : Arithmetic) : List Stage → Machine σ → List (Machine σ)
  | [], _ => []
  | s :: rest, m =>
    let done := m.combined bus first s.x s.y
    done :: (done.handledAll bus s.between).combinedAll next next rest

theorem regs_combined (op : Arithmetic) (x y : UInt8) (m : Machine σ) :
    (m.combined bus op x y).core.regs =
      (m.core.regs.setByte .a x).setResult (op.apply x y m.core.regs.flags) := by
  let loaded := m.core.regs.setByte .a x
  have ha : loaded.a = x := Registers.byte_setByte m.core.regs .a .a x
  have hf : loaded.flags = m.core.regs.flags := by
    simp [loaded, Registers.flags, Registers.byte_setByte]
  have hy : lo y.toUInt16 = y := by simp [lo]
  rw [combined, regs_perform]
  show loaded.setResult (op.apply loaded.a (lo y.toUInt16) loaded.flags) = _
  rw [ha, hf, hy]

theorem flags_combined (op : Arithmetic) (x y : UInt8) (m : Machine σ) :
    (m.combined bus op x y).core.regs.flags = (op.apply x y m.core.regs.flags).2 := by
  rw [regs_combined, Registers.flags_setResult]

theorem combined_eq (op : Arithmetic) (x y : UInt8) (m : Machine σ) :
    let result := op.apply x y m.core.regs.flags
    (m.combined bus op x y).accumulator = result.1 ∧
      (m.combined bus op x y).carry = result.2.carry := by
  intro result
  refine ⟨?_, congrArg Flags.carry (m.flags_combined bus op x y)⟩
  rw [accumulator, regs_combined]
  exact (Registers.a_setFlags _ _).trans (Registers.byte_setByte _ .a .a result.1)

section Carry

variable {sign : ℤ} {first next : Arithmetic} {stages : List Stage} {taken : Flags → Bool}

theorem length_combinedAll (first next : Arithmetic) (stages : List Stage) (m : Machine σ) :
    (m.combinedAll bus first next stages).length = stages.length := by
  induction stages generalizing m first with
  | nil => rfl
  | cons s rest ih => exact congrArg Nat.succ (ih next _)

/-- What a long operation comes to, if `incoming` is the carry that its first byte takes in. -/
def Combines (bus : Bus σ) (sign : ℤ) (first next : Arithmetic) (stages : List Stage)
    (m : Machine σ) (incoming : Bool) : Prop :=
  let done := m.combinedAll bus first next stages
  ExactResult sign (256 ^ stages.length) (littleEndian (stages.map Stage.x))
    (littleEndian (stages.map Stage.y)) incoming (littleEndian (done.map accumulator))
    ((done.map carry).getLastD m.carry)

variable {bus} {m : Machine σ}

/-- **One more byte**, the least significant one. What follows it before the next byte keeps its
carry. -/
theorem combines_cons {s : Stage} (hfirst : first.IsExact sign taken)
    (hbetween : ∀ op ∈ s.between, op.isMoveOrCount = true)
    (hrest : let n := (m.combined bus first s.x s.y).handledAll bus s.between
      n.Combines bus sign next next stages n.carry) :
    m.Combines bus sign first next (s :: stages) (taken m.core.regs.flags) := by
  obtain ⟨ha, hc⟩ := m.combined_eq bus first s.x s.y
  have hbyte := hfirst s.x s.y m.core.regs.flags
  rw [← ha, ← hc] at hbyte
  have hkept : ((m.combined bus first s.x s.y).handledAll bus s.between).carry =
      (m.combined bus first s.x s.y).carry := carry_handledAll bus hbetween _
  simp only [Combines, hkept] at hrest
  simp only [Combines, combinedAll, List.map_cons, littleEndian_cons, List.getLastD_cons,
    List.length_cons, pow_succ']
  exact hbyte.cons hrest

/-- **Each byte takes the carry of the byte before**, across all that is done in between. -/
theorem combines_of_isExact (hnext : next.IsExact sign Flags.carry)
    (hbetween : ∀ s ∈ stages, ∀ op ∈ s.between, op.isMoveOrCount = true) (m : Machine σ) :
    m.Combines bus sign next next stages m.carry := by
  induction stages generalizing m with
  | nil => exact .nil sign m.carry
  | cons s rest ih =>
    obtain ⟨hs, hrest⟩ := List.forall_mem_cons.1 hbetween
    exact combines_cons hnext hs (ih hrest _)

variable (bus) in
/-- The first operation takes no carry, so that none comes in. -/
theorem exact_combinedAll (hfirst : first.IsExact sign fun _ => false)
    (hnext : next.IsExact sign Flags.carry) (hpos : 0 < stages.length)
    (hbetween : ∀ s ∈ stages, ∀ op ∈ s.between, op.isMoveOrCount = true) (m : Machine σ) :
    let done := m.combinedAll bus first next stages
    ∃ last, done.getLast? = some last ∧
      ExactResult sign (256 ^ stages.length) (littleEndian (stages.map Stage.x))
        (littleEndian (stages.map Stage.y)) false (littleEndian (done.map accumulator))
        last.carry := by
  intro done
  cases stages with
  | nil => cases hpos
  | cons s rest =>
    obtain ⟨hs, hrest⟩ := List.forall_mem_cons.1 hbetween
    have hall : m.Combines bus sign first next (s :: rest) false :=
      combines_cons hfirst hs (combines_of_isExact hnext hrest _)
    obtain ⟨last, hlast⟩ : ∃ last, done.getLast? = some last := ⟨_, List.getLast?_cons⟩
    have hcarry : (done.map carry).getLastD m.carry = last.carry := by
      rw [List.getLastD_eq_getLast?, List.getLast?_map, hlast]
      rfl
    rw [Combines, hcarry] at hall
    exact ⟨last, hlast, hall⟩

end Carry

/-! ## The law of long arithmetic -/

/-- **The law of long arithmetic.** Two numbers of equally many bytes are given, the least
significant byte first, any machine, and loads and counts that are carried out between the bytes. If
each byte of the first is loaded into the accumulator and the byte of the second is added to it, by
ADD at first and by ADC from then on, then the bytes that the accumulator has held spell the sum, as
far as they can hold it, and in the end the carry flag is set exactly if they cannot. With SUB and
SBC they spell the difference, and in the end the carry flag is set exactly if it is negative. -/
theorem long_law {stages : List Stage} (hpos : 0 < stages.length)
    (hbetween : ∀ s ∈ stages, ∀ op ∈ s.between, op.isMoveOrCount = true) (m : Machine σ) :
    let n := stages.length
    let x := littleEndian (stages.map Stage.x)
    let y := littleEndian (stages.map Stage.y)
    let sums := m.combinedAll bus .add .adc stages
    let differences := m.combinedAll bus .sub .sbc stages
    (sums.length = n ∧ littleEndian (sums.map accumulator) = (x + y) % 256 ^ n ∧
        ∃ last, sums.getLast? = some last ∧ (last.carry = true ↔ 256 ^ n ≤ x + y)) ∧
      differences.length = n ∧
        (littleEndian (differences.map accumulator) : ℤ) = ((x : ℤ) - y) % 256 ^ n ∧
        ∃ last, differences.getLast? = some last ∧ (last.carry = true ↔ x < y) := by
  intro n x y sums differences
  obtain ⟨s, hs, hsum⟩ :=
    exact_combinedAll bus Arithmetic.isExact_add Arithmetic.isExact_adc hpos hbetween m
  obtain ⟨d, hd, hdifference⟩ :=
    exact_combinedAll bus Arithmetic.isExact_sub Arithmetic.isExact_sbc hpos hbetween m
  have hadd := hsum.of_add
  have hsubtract := hdifference.of_subtract
  simp only [Bool.toNat_false, Nat.cast_zero, Nat.add_zero, sub_zero] at hadd hsubtract
  refine ⟨⟨m.length_combinedAll bus _ _ _, hadd.1, s, hs, hadd.2⟩,
    m.length_combinedAll bus _ _ _, ?_, d, hd, hsubtract.2⟩
  exact_mod_cast hsubtract.1

/-- 511 + 65026 = 65537 and 511 - 65026 = 1021 - 65536, with all flags set at first, and with the
accumulator, a pointer and a counter changed between the two bytes. -/
theorem long_law_two :
    let bus := Bus.rom []
    let m : Machine Unit := ⟨{ regs := { af := 0x00F0 } }, ()⟩
    let between : List Operation := [.inc .a, .loadA .hlInc, .dec16 .bc, .storeSp]
    let stages : List Stage := [⟨0xFF, 0x02, between⟩, ⟨0x01, 0xFE, []⟩]
    let sums := m.combinedAll bus .add .adc stages
    let differences := m.combinedAll bus .sub .sbc stages
    0 < stages.length ∧ (∀ s ∈ stages, ∀ op ∈ s.between, op.isMoveOrCount = true) ∧
      littleEndian (sums.map accumulator) = 1 ∧
      (∃ last, sums.getLast? = some last ∧ last.carry = true) ∧
      littleEndian (differences.map accumulator) = 1021 ∧
      ∃ last, differences.getLast? = some last ∧ last.carry = true := by
  intro bus m between stages sums differences
  have hpos : 0 < stages.length := by decide
  have hbetween : ∀ s ∈ stages, ∀ op ∈ s.between, op.isMoveOrCount = true := by
    simp [stages, between, Operation.isMoveOrCount]
  have hx : littleEndian (stages.map Stage.x) = 511 := by
    simp [stages, littleEndian_cons, littleEndian_nil]
  have hy : littleEndian (stages.map Stage.y) = 65026 := by
    simp [stages, littleEndian_cons, littleEndian_nil]
  have hn : stages.length = 2 := rfl
  have hmod : (((511 : ℕ) : ℤ) - (65026 : ℕ)) % 256 ^ 2 = (1021 : ℕ) := by decide
  obtain ⟨⟨-, hsums, s, hs, hcarry⟩, -, hdifferences, d, hd, hborrow⟩ :=
    long_law bus hpos hbetween m
  rw [hx, hy, hn] at hsums hdifferences hcarry
  rw [hmod] at hdifferences
  rw [hx, hy] at hborrow
  exact ⟨hpos, hbetween, hsums, ⟨s, hs, hcarry.2 (by decide)⟩, Int.ofNat_inj.1 hdifferences, d, hd,
    hborrow.2 (by decide)⟩

end Machine

end Sm83
