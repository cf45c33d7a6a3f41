import Sm83.Memory
import Sm83.Proofs.LongArithmetic
import Sm83.Proofs.StraightLine

/-!
# Counting

A byte is counted up and down by operations of their own. They find the half-carry in the lower
nibble alone, while ADD and SUB find it in a sum and in a borrow; both are the same if one is added
or subtracted. The carry flag is what the two differ in: a count keeps it.

## Main definitions

* `Count`: counting up and counting down, with the addition or subtraction of one
* `Machine.counted`: the registers after a count, by means of the accumulator
* `Machine.Keeps`: what counts of one operand leave as it was

## Main results

* `Count.apply_eq`: a count is an addition or subtraction of one that keeps the carry flag
* `Machine.perform_count`: a count of any operand in any state
* `Machine.keeps_handledAll_count`: any counts of one operand in a row
* `Machine.count_law`: counts and the accumulator, and counts that cancel
-/

namespace Sm83

/-! ## One more and one less -/

theorem beq_eq_decide_toNat (x y : UInt8) : (x == y) = decide (x.toNat = y.toNat) := by
  rw [Bool.beq_eq_decide_eq]
  exact decide_eq_decide.2 UInt8.toNat_inj.symm

theorem increment_eq (v : UInt8) (f : Flags) :
    increment v f = ((addBytes v 1 false).1, { (addBytes v 1 false).2 with carry := f.carry }) := by
  have hv := v.toNat_lt
  have hresult : v + 1 = (addBytes v 1 false).1 := by
    rw [← UInt8.toNat_inj, toNat_addBytes, UInt8.toNat_add]
    rfl
  -- The lower nibble overflows exactly if all of its bits are set.
  have hhalf : (v &&& 0x0F == 0x0F) = (addBytes v 1 false).2.half := by
    rw [(flags_addBytes v 1 false).1, beq_eq_decide_toNat, toNat_lowNibble]
    apply decide_eq_decide.2
    show v.toNat % 16 = 15 ↔ 15 < v.toNat % 16 + 1 + 0
    omega
  simp only [increment, hresult, hhalf]
  rfl

theorem decrement_eq (v : UInt8) (f : Flags) :
    decrement v f = ((subBytes v 1 false).1, { (subBytes v 1 false).2 with carry := f.carry }) := by
  have hv := v.toNat_lt
  have hresult : v - 1 = (subBytes v 1 false).1 := by
    rw [← UInt8.toNat_inj, toNat_subBytes, UInt8.toNat_sub]
    show (256 - 1 + v.toNat) % 256 = (512 + v.toNat - 1 - 0) % 256
    omega
  -- The lower nibble has to borrow exactly if none of its bits is set.
  have hhalf : (v &&& 0x0F == 0) = (subBytes v 1 false).2.half := by
    rw [(flags_subBytes v 1 false).1, beq_eq_decide_toNat, toNat_lowNibble]
    apply decide_eq_decide.2
    show v.toNat % 16 = 0 ↔ v.toNat % 16 < 1 + 0
    omega
  simp only [decrement, hresult, hhalf]
  rfl

/-- Counting up and counting down. -/
inductive Count where
  | up | down
  deriving DecidableEq

namespace Count

def operation : Count → ByteOperand → Operation
  | up, target => .inc target
  | down, target => .dec target

/-- The operation of the accumulator that counts if its operand is one. -/
def arithmetic : Count → Arithmetic
  | up => .add
  | down => .sub

/-- The last three bits of the opcodes that count. -/
def column : Count → Nat
  | up => 4
  | down => 5

/-- The byte after a count. -/
def next : Count → UInt8 → UInt8
  | up, v => v + 1
  | down, v => v - 1

/-- The byte and the flags after a count. -/
def apply : Count → UInt8 → Flags → UInt8 × Flags
  | up => increment
  | down => decrement

theorem fst_apply (c : Count) (v : UInt8) (f : Flags) : (c.apply v f).1 = c.next v := by
  cases c <;> rfl

/-- **A count is an addition or a subtraction of one** that keeps the carry flag. -/
theorem apply_eq (c : Count) (v : UInt8) (f : Flags) :
    c.apply v f =
      ((c.arithmetic.apply v 1 f).1,
        { (c.arithmetic.apply v 1 f).2 with carry := f.carry }) := by
  cases c with
  | up => exact increment_eq v f
  | down => exact decrement_eq v f

theorem loads_operation (c : Count) (target : ByteOperand) (r : Registers) (operand : UInt16) :
    (c.operation target).loads r operand = r.loadsAt target.register? := by
  rw [← ByteOperand.loads_eq rfl]
  cases c <;> rfl

theorem effect_operation (c : Count) (target : ByteOperand) (r : Registers)
    (operand datum : UInt16) :
    (c.operation target).effect r operand datum =
      let result := c.apply (target.value r (lo datum)) r.flags
      target.write (r.setFlags result.2) result.1 := by
  cases c <;> rfl

theorem operandBytes_operation (c : Count) (target : ByteOperand) :
    (c.operation target).operandBytes = 0 := by
  cases c <;> rfl

theorem decode_eq {b : UInt8} {c : Count} {y : Fin 8} (h : b = .ofNat (8 * y + c.column)) :
    decode b = c.operation (.ofIndex y) := by
  subst h
  revert y
  cases c <;> decide

theorem ticks_operation (c : Count) (y : Fin 8) :
    (c.operation (.ofIndex y)).ticks = if y = 6 then 12 else 4 := by
  rw [← byOperand_ofIndex]
  cases c <;> rfl

theorem isStraightLine (c : Count) (target : ByteOperand) :
    (c.operation target).IsStraightLine := by
  cases c <;> exact ⟨rfl, rfl, nofun⟩

/-- As many counts up as down, one after the other, lead back. -/
theorem foldl_next_replicate (n : ℕ) (v : UInt8) :
    (List.replicate n up ++ List.replicate n down).foldl (fun v c => c.next v) v = v := by
  induction n generalizing v with
  | zero => rfl
  | succ n ih =>
    -- The first count and the last one enclose the others, which lead back to what lies between.
    rw [List.replicate_succ, List.replicate_succ', List.cons_append, ← List.append_assoc,
      List.foldl_cons, List.foldl_concat, ih]
    exact UInt8.add_sub_cancel v 1

end Count

/-! ## Counts in the machine -/

namespace Machine

variable {σ : Type} (bus : Bus σ) (m : Machine σ)

/-- The value of a byte operand. -/
def operandByte (target : ByteOperand) : UInt8 :=
  m.core.regs.valueAt target.register? (bus.read m.core.regs.hl m.env).1

/-- The registers after a byte has been counted: what the accumulator leaves when one has been
added to the byte or subtracted from it, put into the operand. The carry flag is kept. -/
def counted (c : Count) (target : ByteOperand) (v : UInt8) : Registers :=
  let sum := m.combined bus c.arithmetic v 1
  (m.core.regs.setFlags
    { sum.core.regs.flags with carry := m.core.regs.flags.carry }).setAt target.register?
      sum.accumulator

theorem apply_count (c : Count) (v : UInt8) :
    c.apply v m.core.regs.flags =
      ((m.combined bus c.arithmetic v 1).accumulator,
        { (m.combined bus c.arithmetic v 1).core.regs.flags with
          carry := m.core.regs.flags.carry }) := by
  rw [Count.apply_eq, flags_combined, (m.combined_eq bus _ _ _).1]

theorem accumulator_count (c : Count) (v : UInt8) :
    (m.combined bus c.arithmetic v 1).accumulator = c.next v := by
  rw [← Count.fst_apply c v m.core.regs.flags, m.apply_count bus]

/-- The effect of a count; `env` is the state of the bus in which the operand is read. -/
theorem effect_count (c : Count) (target : ByteOperand) (operand : UInt16) (env : σ) :
    let r := m.core.regs
    let v := r.valueAt target.register? (bus.read r.hl env).1
    let effect := (c.operation target).effect r operand
      (wordOfBytes (bus.readAll (r.loadsAt target.register?) env).1)
    effect.regs = m.counted bus c target v ∧
      effect.stores =
        r.storesAt target.register? (m.combined bus c.arithmetic v 1).accumulator := by
  intro r v effect
  have heffect : effect = target.write
      (r.setFlags { (m.combined bus c.arithmetic v 1).core.regs.flags with carry := r.flags.carry })
      (m.combined bus c.arithmetic v 1).accumulator := by
    rw [show effect = _ from c.effect_operation target r operand _, ByteOperand.value_eq rfl,
      m.apply_count bus]
  rw [heffect, ByteOperand.regs_write rfl, ByteOperand.stores_write rfl]
  refine ⟨rfl, ?_⟩
  -- Writing the flags does not move HL.
  cases target.register? <;> rfl

/-- **A count of any operand in any state.** -/
theorem perform_count (c : Count) (target : ByteOperand) (operand : UInt16) :
    let v := m.operandByte bus target
    perform bus (c.operation target) operand m =
      (⟨{ m.core with regs := m.counted bus c target v },
        bus.writeAll (m.core.regs.storesAt target.register? (c.next v))
          (bus.readAll (m.core.regs.loadsAt target.register?) m.env).2⟩, []) := by
  intro v
  obtain ⟨hregs, hstores⟩ := m.effect_count bus c target operand m.env
  rw [perform_eq, Count.loads_operation, (c.isStraightLine target).event]
  simp only [hregs, hstores, accumulator_count]
  rfl

theorem handled_count (c : Count) (target : ByteOperand) :
    let v := m.operandByte bus target
    m.handled bus (c.operation target) =
      ⟨{ m.core with regs := m.counted bus c target v },
        bus.writeAll (m.core.regs.storesAt target.register? (c.next v))
          (bus.readAll (m.core.regs.loadsAt target.register?) m.env).2⟩ := by
  intro v
  rw [handled, Count.operandBytes_operation]
  exact congrArg Prod.fst (m.perform_count bus c target _)

/-- **The calls of a count**: an operand in memory is read and then written, and no other operand
takes any. -/
theorem calls_count (c : Count) (target : ByteOperand) :
    let v := m.operandByte bus target
    (m.recorded.handled bus.recording (c.operation target)).env.calls.toList =
      target.register?.elim [.read m.core.regs.hl v, .write m.core.regs.hl (c.next v)]
        fun _ => [] := by
  intro v
  rw [handled_count]
  cases htarget : target.register? with
  | some name => rfl
  | none =>
    have hv : v = (bus.read m.core.regs.hl m.env).1 := by
      simp only [v, operandByte, htarget]
      rfl
    show [BusCall.read m.core.regs.hl (bus.read m.core.regs.hl m.env).1, .write _ (c.next v)] = _
    rw [← hv]
    rfl

section Counted

variable (c : Count) (target : ByteOperand) (v : UInt8)

theorem flags_counted :
    (m.counted bus c target v).flags =
      { (m.combined bus c.arithmetic v 1).core.regs.flags with
        carry := m.core.regs.flags.carry } := by
  unfold counted
  cases target <;> simp [ByteOperand.register?, Registers.setAt, Registers.flags,
    Registers.byte_setByte, Registers.setFlags]

theorem byte_counted {name : ByteRegister} (hname : name ≠ .f) :
    (m.counted bus c target v).byte name =
      if target.register? = some name then c.next v else m.core.regs.byte name := by
  have hflags (f : Flags) : (m.core.regs.setFlags f).byte name = m.core.regs.byte name := by
    rw [Registers.setFlags, Registers.byte_setByte, if_neg hname.symm]
  unfold counted
  cases htarget : target.register? with
  | none =>
    rw [if_neg (Option.some_ne_none name).symm]
    exact hflags _
  | some x =>
    show (Registers.setByte _ x _).byte name = _
    rw [Registers.byte_setByte, accumulator_count, hflags]
    by_cases hx : x = name
    · rw [if_pos hx, if_neg (hx ▸ hname), if_pos (congrArg some hx)]
    · rw [if_neg hx, if_neg (mt Option.some_inj.1 hx)]

theorem sp_counted : (m.counted bus c target v).sp = m.core.regs.sp := by
  cases target <;> rfl

theorem pc_counted : (m.counted bus c target v).pc = m.core.regs.pc := by
  cases target <;> rfl

end Counted

/-! ## Counts in memory -/

/-- What counts of one operand leave as it was: the core but for its registers, the carry flag, all
other registers, and all memory but the byte at HL if that is the operand. -/
structure Keeps (target : ByteOperand) (m m' : Machine Memory) : Prop where
  core : m'.core = { m.core with regs := m'.core.regs }
  carry : m'.carry = m.carry
  byte : ∀ name, name ≠ .f → target.register? ≠ some name →
    m'.core.regs.byte name = m.core.regs.byte name
  sp : m'.core.regs.sp = m.core.regs.sp
  pc : m'.core.regs.pc = m.core.regs.pc
  get : ∀ addr, (target = .atHL → addr ≠ m.core.regs.hl) → m'.env.get addr = m.env.get addr

namespace Keeps

variable {target : ByteOperand} {k l n : Machine Memory}

theorem refl (target : ByteOperand) (k : Machine Memory) : Keeps target k k where
  core := rfl
  carry := rfl
  byte _ _ _ := rfl
  sp := rfl
  pc := rfl
  get _ _ := rfl

/-- An operand in memory stays where it is. -/
theorem hl (h : Keeps target k l) (htarget : target = .atHL) :
    l.core.regs.hl = k.core.regs.hl := by
  have hhigh := h.byte .h nofun (by rw [htarget]; nofun)
  have hlow := h.byte .l nofun (by rw [htarget]; nofun)
  rw [← join_hi_lo l.core.regs.hl, ← join_hi_lo k.core.regs.hl]
  exact congrArg₂ join hhigh hlow

theorem trans (h : Keeps target k l) (h' : Keeps target l n) : Keeps target k n where
  core := by rw [h'.core, h.core]
  carry := h'.carry.trans h.carry
  byte name hf hname := (h'.byte name hf hname).trans (h.byte name hf hname)
  sp := h'.sp.trans h.sp
  pc := h'.pc.trans h.pc
  get addr haddr :=
    (h'.get addr fun htarget => h.hl htarget ▸ haddr htarget).trans (h.get addr haddr)

end Keeps

/-- **One count** counts its operand and keeps everything else. -/
theorem keeps_handled_count (k : Machine Memory) (c : Count) (target : ByteOperand) :
    Keeps target k (k.handled Memory.bus (c.operation target)) ∧
      (k.handled Memory.bus (c.operation target)).operandByte Memory.bus target =
        c.next (k.operandByte Memory.bus target) := by
  rw [handled_count]
  generalize k.operandByte Memory.bus target = v
  constructor
  · exact
      { core := rfl
        carry := by
          show (k.counted Memory.bus c target v).flags.carry = k.core.regs.flags.carry
          rw [flags_counted]
        byte := fun name hf hname =>
          (k.byte_counted Memory.bus c target v hf).trans (if_neg hname)
        sp := k.sp_counted Memory.bus c target v
        pc := k.pc_counted Memory.bus c target v
        get := by
          intro addr haddr
          cases target with
          | atHL =>
            show (k.env.set k.core.regs.hl (c.next v)).get addr = _
            rw [Memory.get_set, if_neg (haddr rfl).symm]
          | b | c | d | e | h | l | a => rfl }
  · cases htarget : target.register? with
    | some name =>
      have hf : name ≠ .f := by
        rintro rfl
        cases target <;> cases htarget
      have hbyte := k.byte_counted Memory.bus c target v hf
      rw [if_pos htarget] at hbyte
      rw [operandByte, htarget]
      exact hbyte
    | none =>
      -- The operand is looked for where it was, since only the flags have been written.
      have hhl : (k.counted Memory.bus c target v).hl = k.core.regs.hl := by
        simp only [counted, htarget]
        rfl
      rw [operandByte, htarget]
      show (k.env.set k.core.regs.hl (c.next v)).get (k.counted Memory.bus c target v).hl = _
      rw [hhl, Memory.get_set_self]

/-- **Any counts of one operand in a row** count it, one after the other, and keep everything
else. -/
theorem keeps_handledAll_count (k : Machine Memory) (cs : List Count) (target : ByteOperand) :
    let done := k.handledAll Memory.bus (cs.map (·.operation target))
    Keeps target k done ∧ done.operandByte Memory.bus target =
      cs.foldl (fun v c => c.next v) (k.operandByte Memory.bus target) := by
  induction cs generalizing k with
  | nil => exact ⟨.refl target k, rfl⟩
  | cons c cs ih =>
    obtain ⟨hfirst, hvalue⟩ := k.keeps_handled_count c target
    obtain ⟨hrest, hvalues⟩ := ih (k.handled Memory.bus (c.operation target))
    refine ⟨hfirst.trans hrest, hvalues.trans ?_⟩
    rw [hvalue]
    rfl

/-- **As many counts up as down** lead back to where they have begun, and the carry flag is the
same all the way. -/
theorem keeps_counts_up_down (k : Machine Memory) (target : ByteOperand) (n : ℕ) :
    let ops := List.replicate n (.inc target) ++ List.replicate n (.dec target)
    let done := k.handledAll Memory.bus ops
    done.operandByte Memory.bus target = k.operandByte Memory.bus target ∧ Keeps target k done ∧
      ∀ i, (k.handledAll Memory.bus (ops.take i)).carry = k.carry := by
  intro ops done
  have hops : ops =
      (List.replicate n Count.up ++ List.replicate n Count.down).map (·.operation target) := by
    rw [List.map_append, List.map_replicate, List.map_replicate]
    rfl
  obtain ⟨hkeeps, hvalue⟩ := k.keeps_handledAll_count
    (List.replicate n Count.up ++ List.replicate n Count.down) target
  rw [← hops, Count.foldl_next_replicate] at hvalue
  rw [← hops] at hkeeps
  refine ⟨hvalue, hkeeps, ?_⟩
  intro i
  rw [hops, ← List.map_take]
  exact (k.keeps_handledAll_count _ target).1.carry

/-! ## The law of counting -/

/-- **The opcodes of counts.** The operand is in the middle three bits. -/
theorem exists_performs_count {bus : Bus σ} {m : Machine σ} (hm : m.core.mode = .running)
    (hb : m.core.budget = 0) {c : Count} {y : Fin 8}
    (h : (bus.read m.core.regs.pc m.env).1 = .ofNat (8 * y + c.column)) :
    let r := m.core.regs
    let place := columnRegister? y
    let first := bus.read r.pc m.env
    let v := r.valueAt place (bus.read r.hl first.2).1
    ∃ x, m.Performs bus x [first.1] (if y = 6 then 12 else 4) (r.loadsAt place)
      (r.storesAt place (c.next v)) (m.counted bus c (.ofIndex y) v) := by
  intro r place first v
  obtain ⟨hop, hfetch⟩ := fetch_of_decode (Count.decode_eq h) (by cases c <;> nofun)
  have hlength : (c.operation (.ofIndex y)).length = 1 := by cases c <;> rfl
  rw [hlength] at hfetch
  have hplace := register?_ofIndex y
  obtain ⟨hregs, hstores⟩ := m.effect_count bus c (.ofIndex y) (m.nextOperand bus) first.2
  rw [hplace, accumulator_count] at hstores
  rw [hplace] at hregs
  refine exists_performs hm hb hop (c.isStraightLine _) hfetch (c.ticks_operation y) ?_
    hstores hregs
  rw [Count.loads_operation, hplace]

/-- **The law of counting.** In every state, on every bus and for every operand, a count leaves in
the operand what ADD or SUB with the operand one leaves in an accumulator that holds the byte, and
the zero, subtract and half-carry flags are set as there. The carry flag, the other registers, SP
and the program counter stay as they are. A byte in memory is read once and then written once, at
the same address, and the bus is not asked for any other operand. So it is at the opcodes of counts.
In memory, as many counts up as down, however many, lead back to the byte that was there first, and
no count on the way changes the carry flag. -/
theorem count_law (bus : Bus σ) (m : Machine σ) :
    let r := m.core.regs
    (∀ (c : Count) (target : ByteOperand),
      let v := m.operandByte bus target
      let sum := m.combined bus c.arithmetic v 1
      let w := sum.accumulator
      let done := m.handled bus (c.operation target)
      (∀ operand, perform bus (c.operation target) operand m = (done, [])) ∧
        done.core = { m.core with regs := done.core.regs } ∧
        done.core.regs.flags = { sum.core.regs.flags with carry := r.flags.carry } ∧
        (∀ name, name ≠ .f → done.core.regs.byte name =
          if target.register? = some name then w else r.byte name) ∧
        done.core.regs.sp = r.sp ∧ done.core.regs.pc = r.pc ∧
        done.env = (if target = .atHL then bus.write r.hl w (bus.read r.hl m.env).2 else m.env) ∧
        (m.recorded.handled bus.recording (c.operation target)).env.calls.toList =
          if target = .atHL then [.read r.hl v, .write r.hl w] else []) ∧
    (∀ (c : Count) (y : Fin 8), m.core.mode = .running → m.core.budget = 0 →
      let first := bus.read r.pc m.env
      first.1 = .ofNat (8 * y + c.column) →
      let place := columnRegister? y
      let v := r.valueAt place (bus.read r.hl first.2).1
      let w := (m.combined bus c.arithmetic v 1).accumulator
      ∃ x, m.Performs bus x [first.1] (if y = 6 then 12 else 4) (r.loadsAt place)
        (r.storesAt place w) (m.counted bus c (.ofIndex y) v)) ∧
    ∀ (k : Machine Memory) (target : ByteOperand) (n : ℕ),
      let ops := List.replicate n (.inc target) ++ List.replicate n (.dec target)
      let done := k.handledAll Memory.bus ops
      done.operandByte Memory.bus target = k.operandByte Memory.bus target ∧
        Keeps target k done ∧ ∀ i, (k.handledAll Memory.bus (ops.take i)).carry = k.carry := by
  intro r
  refine ⟨?_, ?_, fun k target n => k.keeps_counts_up_down target n⟩
  · intro c target v sum w done
    have hw : w = c.next v := m.accumulator_count bus c v
    have hdone := m.handled_count bus c target
    have hcalls := m.calls_count bus c target
    refine ⟨?_, ?_, ?_, ?_, ?_, ?_, ?_, ?_⟩
    · intro operand
      rw [perform_count, ← hdone]
    · simp only [done, hdone]
    · simp only [done, hdone]
      exact m.flags_counted bus c target v
    · intro name hname
      simp only [done, hdone, hw]
      exact m.byte_counted bus c target v hname
    · simp only [done, hdone]
      exact m.sp_counted bus c target v
    · simp only [done, hdone]
      exact m.pc_counted bus c target v
    · simp only [done, hdone, hw]
      cases target <;> rfl
    · rw [hcalls, hw]
      cases target <;> rfl
  · intro c y hm hb first h place v w
    have hw : w = c.next v := m.accumulator_count bus c v
    rw [hw]
    exact exists_performs_count hm hb h

/-- The byte at HL is counted up, and the lower nibble overflows; the carry flag is set before and
after. -/
theorem count_law_atHL :
    let bus := Bus.rom [0x34, 0x0F]
    let m : Machine Unit := ⟨{ regs := { af := 0x0010, hl := 1 } }, ()⟩
    m.core.mode = .running ∧ m.core.budget = 0 ∧
      ∃ x, m.Performs bus x [0x34] 12 [1] [(1, 0x10)] { af := 0x0030, hl := 1 } := by
  intro bus m
  obtain ⟨-, hopcode, -⟩ := count_law bus m
  refine ⟨rfl, rfl, ?_⟩
  convert hopcode .up 6 rfl rfl (by decide +kernel) using 3 <;> decide +kernel

end Machine

end Sm83
