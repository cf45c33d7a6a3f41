import Sm83.Proofs.Listing
import Sm83.Proofs.MemoryStep

/-!
# The stack

Calls, restarts and pushes put a word on the stack, returns and pops take one off. SP moves by two
each time, and wraps around with all other addresses. As long as no more words are taken off than
were put on, and as long as they fit into memory, the stack is a list of words: what is taken off is
the word that was put on last. Nothing is assumed of the program, which may be anywhere in memory
and may even be overwritten by its stack.

## Main definitions

* `StackMove`, `Machine.stackMove?`: what a command does to the stack
* `Machine.StackRun`: a run in which only stack moves write memory and SP, with its deepest stack
* `Machine.HoldsStack`: the words of a stack lie in memory below its base, and SP is at the last one
* `cellsBelow`: the addresses just below another

## Main results

* `Machine.HoldsStack.step`: one command keeps the words of the stack in memory
* `Machine.StackRun.holdsStack`: a run does
* `Machine.StackRun.onto`: the words that lie deeper make no difference to a run
* `Machine.stack_law`: the stack is last in, first out, and calls return
-/

namespace Sm83

/-! ## Addresses and cells -/

theorem mem_addresses {a addr : UInt16} {n : Nat} :
    a ∈ addresses addr n ↔ ∃ i < n, a = addr + UInt16.ofNat i := by
  induction n generalizing addr with
  | zero => simp [addresses]
  | succ n ih =>
    have hstep (i : Nat) : addr + UInt16.ofNat (i + 1) = addr + 1 + UInt16.ofNat i := by
      rw [UInt16.add_assoc, UInt16.add_comm 1, UInt16.ofNat_add]
      rfl
    rw [addresses, List.mem_cons, ih]
    constructor
    · rintro (rfl | ⟨i, hi, rfl⟩)
      · exact ⟨0, by omega, (UInt16.add_zero a).symm⟩
      · exact ⟨i + 1, by omega, (hstep i).symm⟩
    · rintro ⟨i, hi, rfl⟩
      cases i with
      | zero => exact .inl (UInt16.add_zero addr)
      | succ i => exact .inr ⟨i, by omega, hstep i⟩

theorem sub_ofNat_add (base : UInt16) (n k : Nat) :
    base - UInt16.ofNat n - UInt16.ofNat k = base - UInt16.ofNat (n + k) := by
  rw [UInt16.ofNat_add]
  grind

/-- The `n` addresses just below `base`. -/
def cellsBelow (base : UInt16) (n : Nat) : List UInt16 :=
  (List.range n).map fun k => base - UInt16.ofNat (k + 1)

theorem mem_cellsBelow {a base : UInt16} {n : Nat} :
    a ∈ cellsBelow base n ↔ ∃ k < n, a = base - UInt16.ofNat (k + 1) := by
  simp [cellsBelow, eq_comm]

theorem cellsBelow_subset {base : UInt16} {m n : Nat} (h : m ≤ n) :
    cellsBelow base m ⊆ cellsBelow base n := by
  intro a ha
  obtain ⟨k, hk, rfl⟩ := mem_cellsBelow.1 ha
  exact mem_cellsBelow.2 ⟨k, by omega, rfl⟩

/-- The cells above an address and those below it meet only if there are too many of them. -/
theorem notMem_addresses {base : UInt16} {k n : Nat} (h : k + 1 + n ≤ 65536) :
    base - UInt16.ofNat (k + 1) ∉ addresses base n := by
  intro hmem
  obtain ⟨i, hi, heq⟩ := mem_addresses.1 hmem
  have hnat := congrArg UInt16.toNat heq
  have hbase := base.toNat_lt
  rw [UInt16.toNat_sub, UInt16.toNat_add, UInt16.toNat_ofNat', UInt16.toNat_ofNat'] at hnat
  omega

namespace Memory

variable {memory : Memory}

theorem slice_set_of_notMem {addr a : UInt16} {n : Nat} (h : a ∉ addresses addr n) (v : UInt8) :
    (memory.set a v).slice addr n = memory.slice addr n := by
  refine List.map_congr_left fun b hb => ?_
  rw [get_set, if_neg]
  rintro rfl
  exact h hb

/-! ## Words in memory -/

/-- The words lie in memory from an address upwards, each with its low byte first. -/
def Stacked (memory : Memory) (sp : UInt16) (s : List UInt16) : Prop :=
  memory.slice sp (2 * s.length) = s.flatMap fun w => [lo w, hi w]

theorem stacked_nil (memory : Memory) (sp : UInt16) : memory.Stacked sp [] := rfl

theorem stacked_cons {sp w : UInt16} {s : List UInt16} :
    memory.Stacked sp (w :: s) ↔
      memory.get sp = lo w ∧ memory.get (sp + 1) = hi w ∧ memory.Stacked (sp + 2) s := by
  have htwo : sp + 1 + 1 = sp + 2 := UInt16.add_assoc sp 1 1
  rw [Stacked, List.length_cons, Nat.mul_succ, slice_succ, slice_succ, htwo, List.flatMap_cons]
  simp only [List.cons_append, List.nil_append, List.cons.injEq]
  rfl

/-- The word on top is read back. -/
theorem Stacked.top {sp w : UInt16} {s : List UInt16} (h : memory.Stacked sp (w :: s)) :
    wordOfBytes [memory.get sp, memory.get (sp + 1)] = w := by
  obtain ⟨hlow, hhigh, -⟩ := stacked_cons.1 h
  rw [hlow, hhigh, wordOfBytes_lo_hi]

/-- **One more word** does not touch those that are there, as long as all of them fit. -/
theorem Stacked.push {sp : UInt16} {s : List UInt16} (h : memory.Stacked sp s)
    (hroom : s.length < 32768) (w : UInt16) :
    ((memory.set (sp - 1) (hi w)).set (sp - 2) (lo w)).Stacked (sp - 2) (w :: s) := by
  have hhigh : sp - 1 ∉ addresses sp (2 * s.length) := notMem_addresses (k := 0) (by omega)
  have hlow : sp - 2 ∉ addresses sp (2 * s.length) := notMem_addresses (k := 1) (by omega)
  have hone : sp - 2 + 1 = sp - 1 := by grind
  have hne : sp - 2 ≠ sp - 1 := by grind
  refine stacked_cons.2 ⟨get_set_self _ _ _, ?_, ?_⟩
  · rw [hone, get_set, if_neg hne, get_set_self]
  · rw [UInt16.sub_add_cancel, Stacked, slice_set_of_notMem hlow, slice_set_of_notMem hhigh]
    exact h

end Memory

/-! ## Moves -/

/-- A move of the stack: a word is put on top, or the word on top is taken off into a register. -/
inductive StackMove where
  | push (w : UInt16)
  | pop (dst : WordRegister)
  deriving DecidableEq

namespace Operation

/-- The move of an operation, given the registers with the program counter behind its bytes. -/
def stackMove? (op : Operation) (r : Registers) : Option StackMove :=
  match op with
  | push src => some (.push (r.word src.register))
  | pop dst => some (.pop dst.register)
  | call _ => if op.taken r.flags then some (.push r.pc) else none
  | ret _ => if op.taken r.flags then some (.pop .pc) else none
  | rst _ => some (.push r.pc)
  | reti => some (.pop .pc)
  | _ => none

/-- Whether an operation may call a subroutine. -/
def isCall : Operation → Bool
  | call _ | rst _ => true
  | _ => false

variable {op : Operation} {r : Registers}

/-- What a push stores, and where it leaves SP. -/
theorem effect_of_push {w : UInt16} (h : op.stackMove? r = some (.push w))
    (operand datum : UInt16) :
    (op.effect r operand datum).stores = [(r.sp - 1, hi w), (r.sp - 2, lo w)] ∧
      (op.effect r operand datum).regs.sp = r.sp - 2 := by
  cases op with
  | push | rst =>
    cases h
    exact ⟨rfl, rfl⟩
  | call cc =>
    obtain ⟨htaken, hw⟩ := Option.ite_none_right_eq_some.1 h
    cases hw
    have heffect : (call cc).effect r operand datum = callTo r operand := if_pos htaken
    rw [heffect]
    exact ⟨rfl, rfl⟩
  | ret cc =>
    obtain ⟨-, hw⟩ := Option.ite_none_right_eq_some.1 h
    cases hw
  | _ => cases h

/-- What a pop reads, and what it leaves in its register and in SP. -/
theorem effect_of_pop {dst : WordRegister} (h : op.stackMove? r = some (.pop dst))
    (operand datum : UInt16) :
    op.loads r operand = stackTop r ∧ (op.effect r operand datum).stores = [] ∧
      (op.effect r operand datum).regs.sp = r.sp + 2 ∧
      (op.effect r operand datum).regs.word dst =
        if dst = .af then datum &&& 0xFFF0 else datum := by
  cases op with
  | pop dst =>
    cases h
    cases dst <;> exact ⟨rfl, rfl, rfl, rfl⟩
  | reti =>
    cases h
    exact ⟨rfl, rfl, rfl, rfl⟩
  | ret cc =>
    obtain ⟨htaken, hdst⟩ := Option.ite_none_right_eq_some.1 h
    cases hdst
    have heffect : (ret cc).effect r operand datum = { regs := (dropWord r).jump datum } :=
      congrArg (fun regs => ({ regs } : Effect)) (if_pos htaken)
    rw [heffect]
    exact ⟨if_pos htaken, rfl, rfl, rfl⟩
  | call cc =>
    obtain ⟨-, hdst⟩ := Option.ite_none_right_eq_some.1 h
    cases hdst
  | _ => cases h

/-- A call puts the address of the next instruction on the stack. -/
theorem eq_pc_of_isCall {w : UInt16} (hcall : op.isCall = true)
    (h : op.stackMove? r = some (.push w)) : w = r.pc := by
  cases op with
  | rst =>
    cases h
    rfl
  | call cc =>
    obtain ⟨-, hw⟩ := Option.ite_none_right_eq_some.1 h
    cases hw
    rfl
  | _ => cases hcall

end Operation

namespace Machine

variable {m : Machine Memory} {c : Command}

variable (m c) in
/-- The move of the stack that a command makes, if it executes an instruction that makes one. -/
def stackMove? : Option StackMove :=
  (m.command Memory.bus c).execution?.bind fun x =>
    x.instruction.operation.stackMove?
      (m.core.regs.jump (x.addr + UInt16.ofNat x.instruction.length))

/-- A command that makes a move carries out an operation that makes it, and does what the effect of
that operation says. -/
theorem exists_effect_of_stackMove? {move : StackMove} (h : m.stackMove? c = some move) :
    ∃ (op : Operation) (r : Registers) (operand : UInt16),
      op.stackMove? r = some move ∧ r.sp = m.core.regs.sp ∧
        let e := op.effect r operand (wordOfBytes ((op.loads r operand).map m.env.get))
        (m.command Memory.bus c).machine.core.regs = e.regs ∧
          (m.command Memory.bus c).machine.env = Memory.bus.writeAll e.stores m.env := by
  obtain ⟨x, hx, hmove⟩ := Option.bind_eq_some_iff.1 h
  exact ⟨x.instruction.operation, _, wordOfBytes x.operands, hmove, rfl, effect_of_execution? hx⟩

/-- A command that pushes stores the word below SP. -/
theorem machine_of_push {w : UInt16} (h : m.stackMove? c = some (.push w)) :
    let after := (m.command Memory.bus c).machine
    after.core.regs.sp = m.core.regs.sp - 2 ∧
      after.env =
        (m.env.set (m.core.regs.sp - 1) (hi w)).set (m.core.regs.sp - 2) (lo w) := by
  intro after
  obtain ⟨op, r, operand, hmove, hsp, hregs, henv⟩ := exists_effect_of_stackMove? h
  obtain ⟨hstores, hbelow⟩ := Operation.effect_of_push hmove operand
    (wordOfBytes ((op.loads r operand).map m.env.get))
  constructor
  · rw [hregs, hbelow, hsp]
  · rw [henv, hstores, hsp]
    rfl

/-- A command that pops reads the word at SP and leaves memory alone. -/
theorem machine_of_pop {dst : WordRegister} (h : m.stackMove? c = some (.pop dst)) :
    let after := (m.command Memory.bus c).machine
    let top := wordOfBytes [m.env.get m.core.regs.sp, m.env.get (m.core.regs.sp + 1)]
    after.core.regs.sp = m.core.regs.sp + 2 ∧ after.env = m.env ∧
      after.core.regs.word dst = if dst = .af then top &&& 0xFFF0 else top := by
  intro after top
  obtain ⟨op, r, operand, hmove, hsp, hregs, henv⟩ := exists_effect_of_stackMove? h
  obtain ⟨hloads, hstores, habove, hword⟩ := Operation.effect_of_pop hmove operand
    (wordOfBytes ((op.loads r operand).map m.env.get))
  have htop : wordOfBytes ((op.loads r operand).map m.env.get) = top := by
    rw [hloads, stackTop, hsp]
    rfl
  refine ⟨?_, ?_, ?_⟩
  · rw [hregs, habove, hsp]
  · rw [henv, hstores]
    rfl
  · rw [hregs, hword, htop]

/-! ## Runs -/

variable (m c) in
/-- What a command does to a stack of words. A command that makes no move has to leave SP and memory
as they are. -/
inductive StackStep : List UInt16 → List UInt16 → Prop
  | push {w : UInt16} {s : List UInt16} (h : m.stackMove? c = some (.push w))
      (hroom : s.length < 32768) : StackStep s (w :: s)
  | pop {dst : WordRegister} {w : UInt16} {s : List UInt16}
      (h : m.stackMove? c = some (.pop dst)) : StackStep (w :: s) s
  | other {s : List UInt16} (h : m.stackMove? c = none)
      (hsp : (m.command Memory.bus c).machine.core.regs.sp = m.core.regs.sp)
      (henv : (m.command Memory.bus c).machine.env = m.env) : StackStep s s

/-- A run from one stack to another, with the greatest depth on the way. -/
inductive StackRun : Machine Memory → List UInt16 → List Command → List UInt16 → Nat → Prop
  | nil (m : Machine Memory) (s : List UInt16) : StackRun m s [] s s.length
  | cons {m : Machine Memory} {c : Command} {cs : List Command} {s t u : List UInt16} {d : Nat}
      (hstep : m.StackStep c s t) (hrest : StackRun (m.command Memory.bus c).machine t cs u d) :
      StackRun m s (c :: cs) u (max s.length d)

/-- The words of a stack with the given base lie in memory, and SP is at the last one. -/
structure HoldsStack (m : Machine Memory) (base : UInt16) (s : List UInt16) : Prop where
  sp : m.core.regs.sp = base - UInt16.ofNat (2 * s.length)
  words : m.env.Stacked m.core.regs.sp s

theorem holdsStack_nil (m : Machine Memory) : m.HoldsStack m.core.regs.sp [] where
  sp := (UInt16.sub_zero _).symm
  words := m.env.stacked_nil _

section Hold

variable {base w : UInt16} {s t : List UInt16}

/-- A push keeps the words of the stack in memory, and changes two cells below them. -/
theorem HoldsStack.push (h : m.HoldsStack base s) (hroom : s.length < 32768)
    (hmove : m.stackMove? c = some (.push w)) :
    let after := (m.command Memory.bus c).machine
    after.HoldsStack base (w :: s) ∧
      ∀ a ∉ cellsBelow base (2 * s.length + 2), after.env.get a = m.env.get a := by
  intro after
  obtain ⟨hsp, henv⟩ := machine_of_push hmove
  have hlow : m.core.regs.sp - 2 = base - UInt16.ofNat (2 * s.length + 2) := by
    rw [h.sp]
    exact sub_ofNat_add base _ 2
  have hhigh : m.core.regs.sp - 1 = base - UInt16.ofNat (2 * s.length + 1) := by
    rw [h.sp]
    exact sub_ofNat_add base _ 1
  refine ⟨⟨?_, ?_⟩, ?_⟩
  · rw [hsp, hlow]
    rfl
  · rw [hsp, henv]
    exact h.words.push hroom w
  · intro a ha
    rw [henv, Memory.get_set, if_neg, Memory.get_set, if_neg]
    · rintro rfl
      exact ha (mem_cellsBelow.2 ⟨2 * s.length, by omega, hhigh⟩)
    · rintro rfl
      exact ha (mem_cellsBelow.2 ⟨2 * s.length + 1, by omega, hlow⟩)

/-- A pop keeps the other words of the stack in memory, and changes no cell. -/
theorem HoldsStack.pop (h : m.HoldsStack base (w :: s)) {dst : WordRegister}
    (hmove : m.stackMove? c = some (.pop dst)) :
    let after := (m.command Memory.bus c).machine
    after.HoldsStack base s ∧ after.env = m.env ∧
      after.core.regs.word dst = if dst = .af then w &&& 0xFFF0 else w := by
  intro after
  obtain ⟨hsp, henv, hword⟩ := machine_of_pop hmove
  obtain ⟨-, -, hwords⟩ := Memory.stacked_cons.1 h.words
  have hdeep : m.core.regs.sp = base - UInt16.ofNat (2 * s.length) - 2 := by
    rw [h.sp]
    exact (sub_ofNat_add base _ 2).symm
  refine ⟨⟨?_, ?_⟩, henv, ?_⟩
  · rw [hsp, hdeep, UInt16.sub_add_cancel]
  · rw [hsp, henv]
    exact hwords
  · rwa [h.words.top] at hword

/-- **One command** keeps the words of the stack in memory, and changes no cells but those that its
words lie in. -/
theorem HoldsStack.step (h : m.HoldsStack base s) (hstep : m.StackStep c s t) :
    let after := (m.command Memory.bus c).machine
    after.HoldsStack base t ∧
      ∀ a ∉ cellsBelow base (2 * t.length), after.env.get a = m.env.get a := by
  intro after
  cases hstep with
  | push hmove hroom => exact h.push hroom hmove
  | pop hmove =>
    obtain ⟨hafter, henv, -⟩ := h.pop hmove
    exact ⟨hafter, fun a _ => congrArg (Memory.get · a) henv⟩
  | other _ hsp henv =>
    refine ⟨⟨hsp.trans h.sp, ?_⟩, fun a _ => congrArg (Memory.get · a) henv⟩
    rw [hsp, henv]
    exact h.words

end Hold

section Run

variable {cs : List Command} {s t : List UInt16} {d : Nat}

theorem StackRun.length_le (h : m.StackRun s cs t d) : s.length ≤ d := by
  cases h with
  | nil => exact Nat.le_refl _
  | cons => exact Nat.le_max_left _ _

/-- **A run** keeps the words of the stack in memory, and changes no cells but those just below the
base that the greatest depth reaches. -/
theorem StackRun.holdsStack (hrun : m.StackRun s cs t d) {base : UInt16}
    (h : m.HoldsStack base s) :
    let after := (m.commands Memory.bus cs).2
    after.HoldsStack base t ∧ ∀ a ∉ cellsBelow base (2 * d), after.env.get a = m.env.get a := by
  induction hrun with
  | nil => exact ⟨h, fun _ _ => rfl⟩
  | @cons m c cs s t u d hstep hrest ih =>
    obtain ⟨hafter, hcells⟩ := h.step hstep
    obtain ⟨hlast, hlater⟩ := ih hafter
    refine ⟨hlast, fun a ha => ?_⟩
    have ht : t.length ≤ max s.length d := Nat.le_trans hrest.length_le (Nat.le_max_right _ _)
    have hd : d ≤ max s.length d := Nat.le_max_right _ _
    exact (hlater a fun hmem => ha (cellsBelow_subset (Nat.mul_le_mul_left 2 hd) hmem)).trans
      (hcells a fun hmem => ha (cellsBelow_subset (Nat.mul_le_mul_left 2 ht) hmem))

/-- What a run does up to any point is a run. -/
theorem StackRun.exists_take (h : m.StackRun s cs t d) (k : Nat) :
    ∃ u e, e ≤ d ∧ m.StackRun s (cs.take k) u e := by
  induction h generalizing k with
  | nil m s =>
    rw [List.take_nil]
    exact ⟨s, s.length, Nat.le_refl _, .nil m s⟩
  | @cons m c cs s t u d hstep _ ih =>
    cases k with
    | zero => exact ⟨s, s.length, Nat.le_max_left _ _, .nil m s⟩
    | succ k =>
      obtain ⟨v, e, he, hpart⟩ := ih k
      have hmax : max s.length e ≤ max s.length d :=
        Nat.max_le.2 ⟨Nat.le_max_left _ _, Nat.le_trans he (Nat.le_max_right _ _)⟩
      exact ⟨v, max s.length e, hmax, .cons hstep hpart⟩

/-- **Words that lie deeper** make no difference to a run, as long as there is room for them. -/
theorem StackRun.onto (hrun : m.StackRun s cs t d) (rest : List UInt16)
    (hroom : d + rest.length ≤ 32768) :
    m.StackRun (s ++ rest) cs (t ++ rest) (d + rest.length) := by
  induction hrun with
  | nil m s =>
    rw [← List.length_append]
    exact .nil m _
  | @cons m c cs s t u d hstep hrest ih =>
    have hd : d + rest.length ≤ 32768 :=
      Nat.le_trans (Nat.add_le_add_right (Nat.le_max_right _ _) _) hroom
    have ht := hrest.length_le
    rw [← Nat.add_max_add_right, ← List.length_append]
    refine .cons ?_ (ih hd)
    cases hstep with
    | push hmove _ =>
      -- The stack after the push is one of those that the greatest depth is taken over.
      refine .push hmove ?_
      rw [List.length_append]
      rw [List.length_cons] at ht
      omega
    | pop hmove => exact .pop hmove
    | other hmove hsp henv => exact .other hmove hsp henv

/-! ## The law of the stack -/

/-- **A call returns**, if what is in between is a run from an empty stack to an empty one. -/
theorem returns_of_stackRun {x : Execution} {w : UInt16}
    (hx : (m.command Memory.bus c).execution? = some x)
    (hcall : x.instruction.operation.isCall = true) (hpush : m.stackMove? c = some (.push w))
    (hrun : (m.command Memory.bus c).machine.StackRun [] cs [] d) (hd : d < 32768) {ret : Command}
    (hret : ((m.command Memory.bus c).machine.commands Memory.bus cs).2.stackMove? ret =
      some (.pop .pc)) :
    let after := (((m.command Memory.bus c).machine.commands Memory.bus cs).2.command
      Memory.bus ret).machine
    after.core.regs.pc = x.addr + UInt16.ofNat x.instruction.length ∧
      after.core.regs.sp = m.core.regs.sp := by
  intro after
  -- The address pushed by the call lies under whatever is pushed until the return.
  have hwhole : m.StackRun [] (c :: cs) [w] (max 0 (d + 1)) :=
    .cons (.push hpush (by decide)) (hrun.onto [w] hd)
  obtain ⟨hinside, -⟩ := hwhole.holdsStack m.holdsStack_nil
  obtain ⟨houtside, -, hpc⟩ := hinside.pop hret
  have hw : w = x.addr + UInt16.ofNat x.instruction.length := by
    obtain ⟨y, hy, hmove⟩ := Option.bind_eq_some_iff.1 hpush
    obtain rfl : x = y := Option.some_inj.1 (hx.symm.trans hy)
    exact Operation.eq_pc_of_isCall hcall hmove
  constructor
  · rw [← hw]
    exact hpc
  · exact houtside.sp.trans (UInt16.sub_zero _)

/-- **The law of the stack.** In a run that starts with an empty stack, takes no more words off than
it puts on, and never holds more than 32768, SP is two below where it was for each word that the
stack holds, and no cells have changed but those just below its first place that the greatest depth
reaches. What is taken off next is the word put on last: it goes into its register, AF without the
lower nibble, and for a return into the program counter. All this is so at any point of the run. And
a call returns to the instruction behind it, with SP as it was, however many words have been put on
and taken off in between. -/
theorem stack_law (h : m.StackRun [] cs s d) :
    let n := (m.commands Memory.bus cs).2
    let base := m.core.regs.sp
    (∀ k, ∃ t e, e ≤ d ∧ m.StackRun [] (cs.take k) t e) ∧
      n.core.regs.sp = base - UInt16.ofNat (2 * s.length) ∧
      (∀ a ∉ cellsBelow base (2 * d), n.env.get a = m.env.get a) ∧
      (∀ c dst w rest, s = w :: rest → n.stackMove? c = some (.pop dst) →
        (n.command Memory.bus c).machine.core.regs.word dst =
          if dst = .af then w &&& 0xFFF0 else w) ∧
      ∀ call x w, (n.command Memory.bus call).execution? = some x →
        x.instruction.operation.isCall = true → n.stackMove? call = some (.push w) →
        let entered := (n.command Memory.bus call).machine
        ∀ inner depth, entered.StackRun [] inner [] depth → depth < 32768 →
          let inside := (entered.commands Memory.bus inner).2
          ∀ ret, inside.stackMove? ret = some (.pop .pc) →
            let after := (inside.command Memory.bus ret).machine
            after.core.regs.pc = x.addr + UInt16.ofNat x.instruction.length ∧
              after.core.regs.sp = n.core.regs.sp := by
  intro n base
  obtain ⟨hheld, hcells⟩ := h.holdsStack m.holdsStack_nil
  refine ⟨h.exists_take, hheld.sp, hcells, ?_, ?_⟩
  · rintro c dst w rest rfl hmove
    exact (hheld.pop hmove).2.2
  · intro call x w hx hcall hpush entered inner depth hrun hdepth inside ret hret
    exact returns_of_stackRun hx hcall hpush hrun hdepth hret

/-- A subroutine that puts BC on the stack and takes it off into AF, with the first word of the
stack on both sides of address zero. -/
theorem stack_law_nested :
    let m : Machine Memory :=
      ⟨{ regs := { bc := 0x123F, sp := 0x0001, pc := 0x0100 } },
        (Memory.zero.load 0x0100 [0xCD, 0x00, 0x02]).load 0x0200 [0xC5, 0xF1, 0xC9]⟩
    let x : Execution := ⟨0x0100, ⟨#v[0xCD, 0x00, 0x02], 3⟩, lookup 0xCD⟩
    let entered := (m.command Memory.bus .step).machine
    let pushed := (entered.command Memory.bus .stepInstruction).machine
    let popped := (pushed.command Memory.bus .stepInstruction).machine
    let after := (popped.command Memory.bus .stepInstruction).machine
    m.StackRun [] [.step, .stepInstruction] [0x123F, 0x0103] 2 ∧
      pushed.stackMove? .stepInstruction = some (.pop .af) ∧ popped.core.regs.af = 0x1230 ∧
      (m.command Memory.bus .step).execution? = some x ∧
      x.instruction.operation.isCall = true ∧ m.stackMove? .step = some (.push 0x0103) ∧
      entered.StackRun [] [.stepInstruction, .stepInstruction] [] 1 ∧
      popped.stackMove? .stepInstruction = some (.pop .pc) ∧ after.core.regs.pc = 0x0103 ∧
      after.core.regs.sp = 0x0001 := by
  intro m x entered pushed popped after
  have hx : (m.command Memory.bus .step).execution? = some x := by decide +kernel
  have hop : x.instruction.operation = .call none := lookup_operation 0xCD
  have hlength : x.instruction.length = 3 := lookup_length 0xCD
  have hcall : m.stackMove? .step = some (.push 0x0103) := by
    rw [stackMove?, hx, Option.bind_some, hop, hlength]
    rfl
  have hpush : entered.stackMove? .stepInstruction = some (.push 0x123F) := by decide +kernel
  have hpop : pushed.stackMove? .stepInstruction = some (.pop .af) := by decide +kernel
  have hret : popped.stackMove? .stepInstruction = some (.pop .pc) := by decide +kernel
  have hisCall : x.instruction.operation.isCall = true := by
    rw [hop]
    rfl
  have hdeep : m.StackRun [] [.step, .stepInstruction] [0x123F, 0x0103] 2 :=
    .cons (.push hcall (by decide)) (.cons (.push hpush (by decide)) (.nil _ _))
  have hinner : entered.StackRun [] [.stepInstruction, .stepInstruction] [] 1 :=
    .cons (.push hpush (by decide)) (.cons (.pop hpop) (.nil _ _))
  obtain ⟨-, -, -, hword, -⟩ := stack_law hdeep
  obtain ⟨-, -, -, -, hreturn⟩ := stack_law (.nil m [])
  obtain ⟨hpc, hsp⟩ := hreturn .step x 0x0103 hx hisCall hcall _ 1 hinner (by omega) _ hret
  rw [hlength] at hpc
  exact ⟨hdeep, hpop, hword _ .af _ _ rfl hpop, hx, hisCall, hcall, hinner, hret, hpc, hsp⟩

end Run

end Machine

end Sm83
