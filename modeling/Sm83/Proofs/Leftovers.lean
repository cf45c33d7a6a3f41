import Sm83.Proofs.Listing
import Sm83.Proofs.Reachable
import Sm83.Proofs.Reset

/-!
# What longer instructions leave behind

An executed instruction is recorded with all three slots of the fetch record, and an instruction
overwrites no more slots than it has bytes. The slots behind its bytes hold what was recorded there
last, by whichever longer instruction it was. Nothing that an executed instruction shows is made of
these slots, but they are part of it as a value: two executed instructions that show the same may be
different values, and whether they are depends on the instructions before them.

## Main definitions

* `Machine.slotBytes`: the bytes that a run records in a slot

## Main results

* `FetchRecord.slots_foldl_push`: fetching overwrites the slots from the first free one on
* `Machine.slots_command`, `Machine.slots_commands`: a slot behind the first holds the last byte
  recorded in it
* `Machine.executed_eq_iff`: when executed instructions are the same value
* `Machine.leftover_law`: what an executed instruction keeps of the instructions before it
* `Machine.exists_nop_ne`: two executed instructions that show the same and are not equal
-/

namespace Sm83

/-! ## Slots -/

namespace FetchRecord

theorem slots_push (r : FetchRecord) (b : UInt8) (i : Fin 3) :
    (r.push b).slots[i] = if i.val = r.count then b else r.slots[i] := by
  unfold push
  by_cases h : r.count < 3
  · rw [dif_pos h]
    simp only [Fin.getElem_fin, Vector.getElem_set]
    by_cases hi : i.val = r.count
    · rw [if_pos hi.symm, if_pos hi]
    · rw [if_neg (Ne.symm hi), if_neg hi]
  · -- No slot is free, so the byte belongs in none.
    rw [dif_neg h, if_neg]
    have := i.isLt
    omega

/-- **Fetching overwrites the slots from the first free one on**, one for each byte, and leaves the
others alone. -/
theorem slots_foldl_push {r : FetchRecord} {bytes : List UInt8} (h : r.count + bytes.length ≤ 3)
    (i : Fin 3) :
    (bytes.foldl push r).slots[i] =
      if i.val < r.count then r.slots[i] else bytes[i.val - r.count]?.getD r.slots[i] := by
  induction bytes generalizing r with
  | nil => rw [List.getElem?_nil, Option.getD_none, ite_self]; rfl
  | cons b bytes ih =>
    rw [List.length_cons] at h
    have hr : r.count < 3 := by omega
    rw [List.foldl_cons, ih (by rw [count_push b hr]; omega), count_push b hr, slots_push]
    -- The first byte goes into the slot at the count; the slots before it are no longer free.
    rcases Nat.lt_trichotomy i.val r.count with hlt | heq | hgt
    · rw [if_pos (Nat.lt_succ_of_lt hlt), if_neg (Nat.ne_of_lt hlt), if_pos hlt]
    · have hcons : (b :: bytes)[i.val - r.count]? = some b := by
        rw [heq, Nat.sub_self, List.getElem?_cons_zero]
      rw [if_pos (by omega), if_pos heq, if_neg (by omega), hcons, Option.getD_some]
    · have hcons : (b :: bytes)[i.val - r.count]? = bytes[i.val - (r.count + 1)]? := by
        rw [List.getElem?_cons, if_neg (by omega), Nat.sub_sub]
      rw [if_neg (by omega), if_neg (Nat.ne_of_gt hgt), if_neg (by omega), hcons]

theorem length_bytes {r : FetchRecord} (h : r.count ≤ 3) : r.bytes.length = r.count := by
  rw [bytes, List.length_take, Vector.length_toList, Nat.min_eq_left h]

theorem getElem?_bytes {r : FetchRecord} {i : Fin 3} (h : i.val < r.count) :
    r.bytes[i.val]? = some r.slots[i] := by
  rw [bytes, List.getElem?_take, if_pos h, Vector.getElem?_toList]
  exact Vector.getElem?_eq_getElem i.isLt

/-- Records are equal if they hold the same bytes and agree in the slots behind these. -/
theorem ext_bytes {r s : FetchRecord} (hr : r.count ≤ 3) (hs : s.count ≤ 3)
    (hbytes : r.bytes = s.bytes)
    (hslots : ∀ i : Fin 3, r.bytes.length ≤ i.val → r.slots[i] = s.slots[i]) : r = s := by
  have hcount : r.count = s.count := by rw [← length_bytes hr, ← length_bytes hs, hbytes]
  have hall (i : Fin 3) : r.slots[i] = s.slots[i] := by
    by_cases hi : i.val < r.count
    · apply Option.some_inj.1
      rw [← getElem?_bytes hi, ← getElem?_bytes (hcount ▸ hi), hbytes]
    · exact hslots i (by rw [length_bytes hr]; omega)
  obtain ⟨slots, count⟩ := r
  obtain ⟨slots', count'⟩ := s
  obtain rfl : count = count' := hcount
  obtain rfl : slots = slots' := Vector.ext fun i hi => hall ⟨i, hi⟩
  rfl

end FetchRecord

namespace Machine

variable {σ τ : Type} (bus : Bus σ) (m : Machine σ)

/-! ## The next instruction -/

theorem record_nextExecution :
    (m.nextExecution bus).record =
      (m.nextFetch bus).1.foldl FetchRecord.push m.core.fetched.restart := by
  show (m.fetchedCore bus).fetched = _
  rw [fetchedCore, Core.fetchAll_eq]
  rfl

theorem count_record_nextExecution : (m.nextExecution bus).record.count ≤ 3 := by
  rw [record_nextExecution]
  exact FetchRecord.count_foldl_push_le _ (Nat.zero_le 3)

/-- **The slots of an executed instruction** are its bytes, and what the core had in the others. -/
theorem slots_nextExecution (i : Fin 3) :
    (m.nextExecution bus).record.slots[i] =
      (m.nextExecution bus).bytes[i.val]?.getD m.core.fetched.slots[i] := by
  have hfit : m.core.fetched.restart.count + (m.nextFetch bus).1.length ≤ 3 := by
    rw [FetchRecord.count_restart, Nat.zero_add, length_nextFetch, length_nextInstruction]
    exact Operation.length_le _
  rw [record_nextExecution, FetchRecord.slots_foldl_push hfit, bytes_nextExecution]
  exact if_neg (Nat.not_lt_zero _)

/-! ## Runs -/

theorem slots_step {i : Fin 3} (hi : i ≠ 0) :
    (m.step bus).machine.core.fetched.slots[i] =
      ((m.step bus).result.execution?.bind (·.bytes[i.val]?)).getD m.core.fetched.slots[i] := by
  have ht := m.tick_step bus
  generalize m.step bus = o at ht ⊢
  cases ht with
  | locked | busy | idle => rfl
  | executed =>
    show (m.nextResponse bus).1.fetched.slots[i] = _
    rw [fetched_nextResponse]
    exact m.slots_nextExecution bus i
  | lockedUp =>
    -- The unassigned opcode has been recorded in the first slot.
    have hval : i.val ≠ 0 := fun h => hi (Fin.ext h)
    exact (FetchRecord.slots_push _ _ i).trans (if_neg hval)

theorem slots_command (c : Command) {i : Fin 3} (hi : i ≠ 0) :
    (m.command bus c).machine.core.fetched.slots[i] =
      ((m.command bus c).execution?.bind (·.bytes[i.val]?)).getD m.core.fetched.slots[i] := by
  cases c with
  | step => exact m.slots_step bus hi
  | stepInstruction =>
    have hdrained : m.drained.core.fetched = m.core.fetched := by
      unfold drained
      split <;> rfl
    show (m.stepInstruction bus).machine.core.fetched.slots[i] =
      ((m.stepInstruction bus).result.execution?.bind _).getD _
    rw [m.stepInstruction_eq bus, m.drained.slots_step bus hi, hdrained]
  | wake =>
    show m.core.wake.1.fetched.slots[i] = _
    unfold Core.wake
    split <;> rfl
  | reset | assign | setFlags | clearFlags => rfl

/-- The bytes that the instructions of a run record in a slot, in order. -/
def slotBytes (cs : List Command) (i : Fin 3) : List UInt8 :=
  (m.executions bus cs).filterMap (·.bytes[i.val]?)

theorem slotBytes_cons (c : Command) (cs : List Command) (i : Fin 3) :
    m.slotBytes bus (c :: cs) i =
      ((m.command bus c).execution?.bind (·.bytes[i.val]?)).toList ++
        (m.command bus c).machine.slotBytes bus cs i := by
  show List.filterMap _ (List.filterMap Reply.execution? (m.command bus c :: _)) = _
  rw [List.filterMap_cons]
  cases (m.command bus c).execution? with
  | none => rfl
  | some x =>
    rw [List.filterMap_cons, Option.bind_some]
    cases x.bytes[i.val]? with
    | none => rfl
    | some b => rfl

/-- **A slot behind the first holds the last byte recorded in it.** -/
theorem slots_commands (cs : List Command) {i : Fin 3} (hi : i ≠ 0) :
    (m.commands bus cs).2.core.fetched.slots[i] =
      (m.slotBytes bus cs i).getLastD m.core.fetched.slots[i] := by
  induction cs generalizing m with
  | nil => rfl
  | cons c cs ih =>
    show ((m.command bus c).machine.commands bus cs).2.core.fetched.slots[i] = _
    rw [ih, m.slots_command bus c hi, slotBytes_cons]
    cases (m.command bus c).execution?.bind (·.bytes[i.val]?) with
    | none => rfl
    | some b => rw [Option.toList_some, List.singleton_append, List.getLastD_cons]; rfl

/-! ## Equal values -/

theorem count_of_executed {bus : Bus σ} {m : Machine σ} {x : Execution}
    (hx : (m.step bus).result = .ok (.executed x)) : x.record.count ≤ 3 := by
  obtain ⟨-, -, -, rfl, -⟩ := executed_of_step bus hx
  exact m.count_record_nextExecution bus

/-- Behind the bytes of an executed instruction the slots are those of the core before it. -/
theorem slots_of_executed {bus : Bus σ} {m : Machine σ} {x : Execution}
    (hx : (m.step bus).result = .ok (.executed x)) {i : Fin 3} (hi : x.bytes.length ≤ i.val) :
    x.record.slots[i] = m.core.fetched.slots[i] := by
  obtain ⟨-, -, -, rfl, -⟩ := executed_of_step bus hx
  rw [slots_nextExecution, List.getElem?_eq_none hi, Option.getD_none]

/-- **When executed instructions are the same value**: if they show the same and the cores agreed in
the slots that they leave alone. -/
theorem executed_eq_iff {bus : Bus σ} {other : Bus τ} {m : Machine σ} {n : Machine τ}
    {x y : Execution} (hx : (m.step bus).result = .ok (.executed x))
    (hy : (n.step other).result = .ok (.executed y)) :
    x = y ↔ x.addr = y.addr ∧ x.bytes = y.bytes ∧ x.instruction = y.instruction ∧
      ∀ i : Fin 3, x.bytes.length ≤ i.val →
        m.core.fetched.slots[i] = n.core.fetched.slots[i] := by
  constructor
  · intro hxy
    refine ⟨by rw [hxy], by rw [hxy], by rw [hxy], fun i hi => ?_⟩
    rw [← slots_of_executed hx hi, ← slots_of_executed hy (hxy ▸ hi), hxy]
  · rintro ⟨haddr, hbytes, hinstruction, hslots⟩
    have hrecord : x.record = y.record := by
      refine FetchRecord.ext_bytes (count_of_executed hx) (count_of_executed hy) hbytes
        fun i hi => ?_
      have hi' : y.bytes.length ≤ i.val := hbytes ▸ hi
      rw [slots_of_executed hx hi, slots_of_executed hy hi', hslots i hi]
    exact Execution.Rel.eq ⟨haddr, hrecord, hinstruction⟩

/-- **What an executed instruction keeps of the instructions before it.** Two steps of any cores, on
any buses, have each executed an instruction. If these show the same address, bytes and table entry,
then nothing else that they show differs; but they are the same value exactly if the cores also
agreed in the slots behind the bytes. No slot is behind three bytes. A slot behind the first that
a run from power-on leaves holds the last byte recorded in it by an instruction of that run, and is
zero if there is none. -/
theorem leftover_law (bus : Bus σ) (other : Bus τ) {m : Machine σ} {n : Machine τ}
    {x y : Execution} (hx : (m.step bus).result = .ok (.executed x))
    (hy : (n.step other).result = .ok (.executed y)) :
    (x.addr = y.addr → x.bytes = y.bytes → x.instruction = y.instruction →
        x.view = y.view ∧
          (x = y ↔ ∀ i : Fin 3, x.bytes.length ≤ i.val →
            m.core.fetched.slots[i] = n.core.fetched.slots[i]) ∧
          (x.bytes.length = 3 → x = y)) ∧
      ∀ {ρ : Type} (b : Bus ρ) (config : Config) (env : ρ) (cs : List Command) (i : Fin 3), i ≠ 0 →
        let start : Machine ρ := ⟨.powerOn config, env⟩
        (start.commands b cs).2.core.fetched.slots[i] =
          (start.slotBytes b cs i).getLastD 0 := by
  constructor
  · intro haddr hbytes hinstruction
    have hiff : x = y ↔ ∀ i : Fin 3, x.bytes.length ≤ i.val →
        m.core.fetched.slots[i] = n.core.fetched.slots[i] := by
      rw [executed_eq_iff hx hy]
      exact ⟨fun h => h.2.2.2, fun h => ⟨haddr, hbytes, hinstruction, h⟩⟩
    refine ⟨Execution.view_eq_of_bytes haddr hbytes hinstruction, hiff, fun hthree => ?_⟩
    exact hiff.2 fun i hi => absurd i.isLt (by omega)
  · intro ρ b config env cs i hi start
    have hzero : start.core.fetched.slots[i] = 0 := Vector.getElem_replicate i.isLt
    rw [start.slots_commands b cs hi, hzero]

/-- A jump of three bytes is the same value whatever has been executed before it. -/
theorem leftover_law_jp :
    let config : Config := ⟨.zeroed, some 3⟩
    let bus := Bus.rom [0x01, 0x34, 0x12, 0xC3, 0x00, 0x00]
    let cs : List Command := [.stepInstruction, .stepInstruction, .reset]
    let m : Machine Unit := ⟨.powerOn config, ()⟩
    let n := (m.commands bus cs).2
    let x : Execution := ⟨3, ⟨#v[0xC3, 0x00, 0x00], 3⟩, lookup 0xC3⟩
    let y : Execution := ⟨3, ⟨#v[0xC3, 0x00, 0x00], 3⟩, lookup 0xC3⟩
    (m.step bus).result = .ok (.executed x) ∧ (n.step bus).result = .ok (.executed y) ∧
      n.core.fetched.slots[2] = 0x12 ∧ x = y := by
  intro config bus cs m n x y
  have hx : (m.step bus).result = .ok (.executed x) :=
    StepResult.execution?_eq_some.1 (by decide +kernel)
  have hy : (n.step bus).result = .ok (.executed y) :=
    StepResult.execution?_eq_some.1 (by decide +kernel)
  obtain ⟨hsame, hslots⟩ := leftover_law bus bus hx hy
  obtain ⟨-, -, hthree⟩ := hsame rfl rfl rfl
  refine ⟨hx, hy, ?_, hthree rfl⟩
  exact (hslots bus config () cs 2 (by decide)).trans (by decide +kernel)

/-- **Two executed instructions that show the same and are not equal.** A program that begins with a
one-byte instruction has executed one of three bytes and is started again by a reset: the first
instruction it executes shows what it showed at power-on, and is not the same value. -/
theorem exists_nop_ne :
    let config : Config := ⟨.zeroed, none⟩
    let bus := Bus.rom [0x00, 0x01, 0x34, 0x12]
    let m : Machine Unit := ⟨.powerOn config, ()⟩
    let n := (m.commands bus [.stepInstruction, .stepInstruction, .reset]).2
    let x : Execution := ⟨0, ⟨#v[0x00, 0x00, 0x00], 1⟩, lookup 0x00⟩
    let y : Execution := ⟨0, ⟨#v[0x00, 0x34, 0x12], 1⟩, lookup 0x00⟩
    m.core.Reachable config ∧ n.core.Reachable config ∧
      (m.step bus).result = .ok (.executed x) ∧ (n.step bus).result = .ok (.executed y) ∧
      x.addr = y.addr ∧ x.bytes = y.bytes ∧ x.instruction = y.instruction ∧
      x ≠ y ∧ (m.step bus).result ≠ (n.step bus).result := by
  intro config bus m n x y
  have hm : m.core.Reachable config := .powerOn
  have hn : n.core.Reachable config := hm.commands bus _ ()
  have hx : (m.step bus).result = .ok (.executed x) :=
    StepResult.execution?_eq_some.1 (by decide +kernel)
  have hy : (n.step bus).result = .ok (.executed y) :=
    StepResult.execution?_eq_some.1 (by decide +kernel)
  have hne : x ≠ y := by decide +kernel
  refine ⟨hm, hn, hx, hy, rfl, rfl, rfl, hne, ?_⟩
  rw [hx, hy]
  intro h
  exact hne (Option.some_inj.1 (congrArg StepResult.execution? h))

end Machine

end Sm83
