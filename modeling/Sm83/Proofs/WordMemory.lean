import Sm83.Proofs.Stack

/-!
# Words in memory

A word goes to memory in two ways and comes back in two, each with code of its own. The store of SP
writes the low byte first; a push counts SP down and writes the high byte first. A pop reads both
bytes and then moves SP by two; an immediate word is fetched byte by byte, and the program counter
moves with each. All of them have the low byte at an address and the high byte at the next one,
which is zero behind the last, so that each reads what each has stored.

## Main definitions

* `Memory.word`, `Memory.setWord`: the word at an address, and memory with a word stored there
* `Memory.StoresWord`: what both ways to store a word leave
* `Memory.ReadsWord`: what both ways to read a word give

## Main results

* `Memory.word_setWord`, `Memory.setWord_word`: storing and reading are inverse
* `Memory.storesWord_setWord`, `Memory.readsWord_word`: both ways to store, and both ways to read
* `Memory.wordAccess_law`: the four ways agree
-/

namespace Sm83

/-! ## Cells and words -/

/-- No address is its own successor, not even the last one. -/
theorem ne_add_one (p : UInt16) : p ≠ p + 1 := by grind

namespace Memory

theorem set_comm (memory : Memory) {x y : UInt16} (h : x ≠ y) (v w : UInt8) :
    (memory.set x v).set y w = (memory.set y w).set x v :=
  congrArg Memory.mk (Vector.set_comm v w (mt UInt16.toNat_inj.1 h))

theorem set_get_self (memory : Memory) (x : UInt16) : memory.set x (memory.get x) = memory :=
  congrArg Memory.mk (Vector.set_getElem_self x.toNat_lt)

section Words

variable (memory : Memory) (p v : UInt16)

/-- The word at an address: its low byte is there, and its high byte at the next address. -/
def word : UInt16 := wordOfBytes [memory.get p, memory.get (p + 1)]

/-- Memory with a word stored at an address, low byte first. -/
def setWord : Memory := (memory.set p (lo v)).set (p + 1) (hi v)

theorem get_setWord (a : UInt16) :
    (memory.setWord p v).get a =
      if a = p then lo v else if a = p + 1 then hi v else memory.get a := by
  rw [setWord, get_set, get_set]
  by_cases hlow : a = p
  · subst hlow
    rw [if_neg (ne_add_one a).symm, if_pos rfl, if_pos rfl]
  · rw [if_neg hlow, if_neg (Ne.symm hlow)]
    simp only [eq_comm]

/-- The word that has been stored is read back. -/
@[simp] theorem word_setWord : (memory.setWord p v).word p = v := by
  have hhigh : p + 1 ≠ p := (ne_add_one p).symm
  rw [word, get_setWord, get_setWord, if_pos rfl, if_neg hhigh, if_pos rfl, wordOfBytes_lo_hi]

/-- The word that has been read may be stored again. -/
@[simp] theorem setWord_word : memory.setWord p (memory.word p) = memory := by
  rw [setWord, word, wordOfBytes_pair, lo_join, hi_join, set_get_self, set_get_self]

/-- A push writes the high byte before the low one, below SP, and comes to the same. -/
theorem set_below {sp : UInt16} (h : sp = p + 2) :
    (memory.set (sp - 1) (hi v)).set (sp - 2) (lo v) = memory.setWord p v := by
  have hhigh : sp - 1 = p + 1 := by grind
  have hlow : sp - 2 = p := by grind
  rw [hhigh, hlow, setWord, set_comm memory (ne_add_one p)]

/-! ## Two ways to store -/

/-- **Both ways to store** the word `v` at `p` lead from one memory to the other: the store of SP,
when SP is the word, and any operation that pushes the word, when SP is two above the address. The
operations are given by themselves and as whole instructions, which lie in the same memory. -/
structure StoresWord (stored : Memory) : Prop where
  /-- The store of SP leaves the core as it is. -/
  storeSp : ∀ core : Core, core.regs.sp = v →
    (Machine.perform Memory.bus .storeSp p ⟨core, memory⟩).1 = ⟨core, stored⟩
  push : ∀ (core : Core) (op : Operation) (operand : UInt16),
    op.stackMove? core.regs = some (.push v) → core.regs.sp = p + 2 →
      let after := (Machine.perform Memory.bus op operand ⟨core, memory⟩).1
      after.core.regs.sp = p ∧ after.env = stored
  storeSp_command : ∀ (core : Core) (c : Command) (x : Execution),
    ((Machine.mk core memory).command Memory.bus c).execution? = some x →
      x.instruction.operation = .storeSp → wordOfBytes x.operands = p → core.regs.sp = v →
        let after := ((Machine.mk core memory).command Memory.bus c).machine
        after.core.regs.sp = v ∧ after.env = stored
  push_command : ∀ (core : Core) (c : Command),
    (Machine.mk core memory).stackMove? c = some (.push v) → core.regs.sp = p + 2 →
      let after := ((Machine.mk core memory).command Memory.bus c).machine
      after.core.regs.sp = p ∧ after.env = stored

/-- **Both ways to store agree**, and leave the low byte at the address and the high byte behind
it. -/
theorem storesWord_setWord : memory.StoresWord p v (memory.setWord p v) where
  storeSp := by
    rintro core rfl
    rfl
  push core op operand hmove hsp := by
    obtain ⟨hregs, henv⟩ := Machine.perform_memory op operand core memory
    obtain ⟨hstores, hbelow⟩ := Operation.effect_of_push hmove operand
      (wordOfBytes ((op.loads core.regs operand).map memory.get))
    constructor
    · rw [hregs, hbelow, hsp, UInt16.add_sub_cancel]
    · rw [henv, hstores]
      exact set_below memory p v hsp
  storeSp_command := by
    rintro core c x hx hop rfl rfl
    obtain ⟨hregs, henv⟩ := Machine.effect_of_execution? hx
    rw [hop] at hregs henv
    refine ⟨?_, henv⟩
    rw [hregs]
    rfl
  push_command core c hmove hsp := by
    obtain ⟨hbelow, henv⟩ := Machine.machine_of_push hmove
    constructor
    · rw [hbelow]
      exact hsp ▸ UInt16.add_sub_cancel p 2
    · rw [henv]
      exact set_below memory p v hsp

/-! ## Two ways to read -/

/-- **Both ways to read** give the word `v` at `p` and leave memory as it is: any operation that
pops, when SP is the address, and the fetch of two bytes, when the program counter is. A pop leaves
SP two above the address and a fetch the program counter. What is popped goes into a register, AF
without its lower nibble; as immediate bytes, the word is the operand of the instruction that begins
one below it. -/
structure ReadsWord : Prop where
  pop : ∀ (core : Core) (op : Operation) (operand : UInt16) (dst : WordRegister),
    op.stackMove? core.regs = some (.pop dst) → core.regs.sp = p →
      let after := (Machine.perform Memory.bus op operand ⟨core, memory⟩).1
      wordOfBytes (Memory.bus.readAll (op.loads core.regs operand) memory).1 = v ∧
        after.core.regs.sp = p + 2 ∧ after.env = memory ∧
        after.core.regs.word dst = if dst = .af then v &&& 0xFFF0 else v
  fetch : ∀ core : Core, core.regs.pc = p →
    let fetched := Machine.fetchBytes Memory.bus 2 ⟨core, memory⟩
    wordOfBytes fetched.1 = v ∧ fetched.2.core.regs.pc = p + 2 ∧ fetched.2.env = memory
  pop_command : ∀ (core : Core) (c : Command) (dst : WordRegister),
    (Machine.mk core memory).stackMove? c = some (.pop dst) → core.regs.sp = p →
      let after := ((Machine.mk core memory).command Memory.bus c).machine
      after.core.regs.sp = p + 2 ∧ after.env = memory ∧
        after.core.regs.word dst = if dst = .af then v &&& 0xFFF0 else v
  fetch_command : ∀ (core : Core) (c : Command) (x : Execution),
    ((Machine.mk core memory).command Memory.bus c).execution? = some x →
      x.instruction.operation.operandBytes = 2 → x.addr + 1 = p → wordOfBytes x.operands = v

/-- **Both ways to read agree**, and give the word at the address. -/
theorem readsWord_word : memory.ReadsWord p (memory.word p) where
  pop core op operand dst hmove hsp := by
    subst hsp
    obtain ⟨hregs, henv⟩ := Machine.perform_memory op operand core memory
    obtain ⟨hloads, hstores, habove, hword⟩ := Operation.effect_of_pop hmove operand
      (wordOfBytes ((op.loads core.regs operand).map memory.get))
    have htop : wordOfBytes ((op.loads core.regs operand).map memory.get) =
        memory.word core.regs.sp := by
      rw [hloads]
      rfl
    refine ⟨?_, ?_, ?_, ?_⟩
    · rw [Memory.bus_readAll]
      exact htop
    · rw [hregs, habove]
    · rw [henv, hstores]
      rfl
    · rw [hregs, hword, htop]
  fetch core hpc := by
    subst hpc
    rw [Machine.fetchBytes_eq, Memory.bus_readAll]
    exact ⟨rfl, Core.pc_fetchAll _ _, rfl⟩
  pop_command core c dst hmove hsp := by
    subst hsp
    exact Machine.machine_of_pop hmove
  fetch_command core c x hx htwo haddr := by
    subst haddr
    -- The opcode is one byte, so the immediate bytes are the next two cells.
    rw [Machine.operands_of_execution? hx (by omega), htwo]
    rfl

end Words

/-! ## The law of words in memory -/

/-- **The law of words in memory.** To store a word changes the cell at its address, which takes the
low byte, and the next cell, which takes the high byte; both ways to store come to this, and both
ways to read then give the word. The word that they find in any memory may be stored again in either
way, and nothing changes. All this is so at the last address as well, where the next is zero. -/
theorem wordAccess_law (memory : Memory) (p v : UInt16) :
    let stored := memory.setWord p v
    let found := memory.word p
    (∀ a, stored.get a = if a = p then lo v else if a = p + 1 then hi v else memory.get a) ∧
      memory.StoresWord p v stored ∧ stored.ReadsWord p v ∧
      memory.ReadsWord p found ∧ memory.StoresWord p found memory := by
  intro stored found
  have hread := stored.readsWord_word p
  have hwrite := memory.storesWord_setWord p found
  rw [word_setWord] at hread
  rw [setWord_word] at hwrite
  exact ⟨memory.get_setWord p v, memory.storesWord_setWord p v, hread, memory.readsWord_word p,
    hwrite⟩

/-- A word with its low byte in the last cell and its high byte in the first one. An instruction
stores SP there, another pushes BC there; POP DE and a fetch read the word. -/
theorem wordAccess_law_wrap :
    let memory := zero.load 0x0100 [0x08, 0xFF, 0xFF, 0xC5]
    let stored := memory.setWord 0xFFFF 0x1234
    let saving : Core := { regs := { sp := 0x1234, pc := 0x0100 } }
    let pushing : Core := { regs := { bc := 0x1234, sp := 0x0001, pc := 0x0103 } }
    let popping : Core := { regs := { sp := 0xFFFF } }
    let fetching : Core := { regs := { pc := 0xFFFF } }
    let popped := (Machine.perform Memory.bus (.pop .de) 0 ⟨popping, stored⟩).1
    let fetched := Machine.fetchBytes Memory.bus 2 ⟨fetching, stored⟩
    stored.get 0xFFFF = 0x34 ∧ stored.get 0x0000 = 0x12 ∧
      ((Machine.mk saving memory).command Memory.bus .step).machine.env = stored ∧
      ((Machine.mk pushing memory).command Memory.bus .step).machine.env = stored ∧
      popped.core.regs.de = 0x1234 ∧ popped.core.regs.sp = 0x0001 ∧
      wordOfBytes fetched.1 = 0x1234 ∧ fetched.2.core.regs.pc = 0x0001 := by
  intro memory stored saving pushing popping fetching popped fetched
  let x : Execution := ⟨0x0100, ⟨#v[0x08, 0xFF, 0xFF], 3⟩, lookup 0x08⟩
  have hx : ((Machine.mk saving memory).command Memory.bus .step).execution? = some x := by
    decide +kernel
  have hop : x.instruction.operation = .storeSp := lookup_operation 0x08
  have hmove : (Machine.mk pushing memory).stackMove? .step = some (.push 0x1234) := by
    decide +kernel
  obtain ⟨hcells, hstores, hreads, -⟩ := wordAccess_law memory 0xFFFF 0x1234
  obtain ⟨-, hsave⟩ := hstores.storeSp_command saving .step x hx hop (by decide) rfl
  obtain ⟨-, hpush⟩ := hstores.push_command pushing .step hmove rfl
  obtain ⟨-, hsp, -, hde⟩ := hreads.pop popping (.pop .de) 0 .de rfl rfl
  obtain ⟨hword, hpc, -⟩ := hreads.fetch fetching rfl
  exact ⟨hcells 0xFFFF, hcells 0x0000, hsave, hpush, hde, hsp, hword, hpc⟩

end Memory

end Sm83
