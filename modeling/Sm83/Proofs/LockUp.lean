import Sm83.Proofs.Journal

/-!
# Locking up

An unassigned opcode locks the core up. The step that fetches it reads one byte, tells the bus of
the lock-up and changes nothing but the program counter, the mode and the fetch record. From then
on the core leaves its bus alone and every attempt to step it fails in the same way, whatever is
written to its registers, until it is reset.

## Main definitions

* `Command.isStep`: whether a command asks for a step
* `Machine.lockedCore`: the core that an opcode has locked up

## Main results

* `Machine.isValid_nextInstruction`: the opcode decides whether an instruction is assigned
* `Machine.step_of_unassigned`: the step that locks the core up
* `Machine.command_of_locked`, `Machine.commands_of_locked`: what commands do to a core that is
  locked up
* `Machine.lockUp_law`: when a step locks the core up, what it does and what follows
-/

namespace Sm83

variable {σ : Type}

/-- Whether a command asks for a step. -/
def Command.isStep : Command → Bool
  | step | stepInstruction => true
  | wake | reset | assign _ | setFlags .. | clearFlags => false

theorem Instruction.isValid_eq_false {i : Instruction} :
    i.isValid = false ↔ i.operation = .invalid := bne_eq_false_iff_eq

namespace Machine

variable (bus : Bus σ) {m : Machine σ}

/-! ## The step that locks up -/

/-- Every byte behind the escape byte is assigned, so the byte at the program counter decides. -/
theorem isValid_nextInstruction (m : Machine σ) :
    (m.nextInstruction bus).isValid = (lookup (bus.read m.core.regs.pc m.env).1).isValid := by
  by_cases he : (bus.read m.core.regs.pc m.env).1 = escapeByte
  · rw [nextInstruction_of_escape bus he, isValid_lookupExtended, he, Instruction.isValid,
      lookup_operation]
    rfl
  · rw [nextInstruction_of_ne_escape bus he]

/-- The core that has been locked up by the opcode at its program counter. -/
def lockedCore (m : Machine σ) : Core :=
  let opcode := (bus.read m.core.regs.pc m.env).1
  { m.core with
    regs := m.core.regs.jump (m.core.regs.pc + 1)
    mode := .locked opcode m.core.regs.pc
    fetched := m.core.fetched.restart.push opcode }

/-- **An unassigned opcode locks the core up.** -/
theorem step_of_unassigned (hm : m.core.mode = .running) (hb : m.core.budget = 0)
    (hi : (m.nextInstruction bus).isValid = false) :
    let pc := m.core.regs.pc
    let opcode := (bus.read pc m.env).1
    (m.step bus).result = .error (.invalidOpcode opcode pc) ∧
      (m.step bus).machine =
        ⟨m.lockedCore bus, bus.notify (.lockedUp opcode pc) (bus.read pc m.env).2⟩ := by
  have hs : m.step bus = m.lockedUp bus :=
    (step_of_running bus hm hb).trans (executeNext_of_not_isValid bus m hi)
  rw [hs]
  refine ⟨rfl, ?_⟩
  simp only [lockedUp, lockedCore, Core.beginFetch, Core.fetch, hb]

/-- A step reports an unassigned opcode only if it has found one. -/
theorem invalidOpcode_iff (hm : m.core.mode = .running) (hb : m.core.budget = 0) :
    (∃ opcode addr, (m.step bus).result = .error (.invalidOpcode opcode addr)) ↔
      (m.nextInstruction bus).isValid = false := by
  constructor
  · rintro ⟨opcode, addr, h⟩
    have ht := m.tick_step bus
    generalize m.step bus = o at h ht
    cases ht with
    | lockedUp _ _ hi => exact hi
    | locked | busy | idle | executed => cases h
  · intro hi
    exact ⟨_, _, (step_of_unassigned bus hm hb hi).1⟩

/-- A step that finds no unassigned opcode does not lock the core up. -/
theorem isLocked_step (hl : m.core.mode.isLocked = false)
    (h : ∀ opcode addr, (m.step bus).result ≠ .error (.invalidOpcode opcode addr)) :
    (m.step bus).machine.core.mode.isLocked = false := by
  have ht := m.tick_step bus
  generalize m.step bus = o at h ht ⊢
  cases ht with
  | locked | busy | idle => exact hl
  | executed hm => exact m.isLocked_nextResponse bus hm
  | lockedUp => exact absurd rfl (h _ _)

/-! ## Afterwards -/

/-- **A core that is locked up** takes writes to its registers; nothing but a reset does anything
else to it. -/
theorem command_of_locked {opcode : UInt8} {addr : UInt16} {c : Command}
    (h : m.core.mode = .locked opcode addr) (hc : c ≠ .reset) :
    m.command bus c =
      ⟨if c.isStep then some (.error (.locked opcode addr)) else none,
        ⟨{ m.core with regs := c.write m.core.regs }, m.env⟩, []⟩ := by
  have hstep := step_of_locked bus h
  cases c with
  | step =>
    rw [command_step, hstep]
    rfl
  | stepInstruction =>
    have hl : m.core.mode.isLocked = true := by rw [h]; rfl
    simp only [command, stepInstruction_eq, drained_of_isLocked hl, hstep]
    rfl
  | wake =>
    have hw : m.core.mode.isWaiting = false := by rw [h]; rfl
    simp only [command, Machine.wake, Core.wake_of_not_isWaiting hw]
    rfl
  | reset => exact absurd rfl hc
  | assign | setFlags | clearFlags => rfl

theorem commands_of_locked {opcode : UInt8} {addr : UInt16} {cs : List Command}
    (h : m.core.mode = .locked opcode addr) (hcs : ∀ c ∈ cs, c ≠ .reset) :
    (m.commands bus cs).2 =
      ⟨{ m.core with regs := cs.foldl (fun r c => c.write r) m.core.regs }, m.env⟩ := by
  induction cs generalizing m with
  | nil => rfl
  | cons c cs ih =>
    obtain ⟨hc, hrest⟩ := List.forall_mem_cons.1 hcs
    show ((m.command bus c).machine.commands bus cs).2 = _
    rw [command_of_locked bus h hc]
    exact ih h hrest

theorem calls_of_locked {opcode : UInt8} {addr : UInt16} {cs : List Command}
    (h : m.core.mode = .locked opcode addr) (hcs : ∀ c ∈ cs, c ≠ .reset) :
    m.calls bus cs = [] := by
  rw [calls, commands_of_locked bus.recording (m := m.recorded) h hcs]
  rfl

/-- Only a reset unlocks the core. -/
theorem mode_command_of_locked {opcode : UInt8} {addr : UInt16}
    (h : m.core.mode = .locked opcode addr) (c : Command) :
    (m.command bus c).machine.core.mode = .locked opcode addr ↔ c ≠ .reset := by
  constructor
  · rintro hc rfl
    cases hc
  · intro hc
    rw [command_of_locked bus h hc]
    exact h

/-- **The law of locking up.** A step of a core that is about to fetch fails exactly if the byte at
the program counter is an unassigned opcode. It then reports this opcode and its address, has read
one byte and told the bus of the lock-up, and has changed the program counter, the mode and the
fetch record only. Afterwards, on any bus, every step of every kind fails, changes nothing and
leaves the bus alone, registers can still be written, and only a reset unlocks the core. -/
theorem lockUp_law (m : Machine σ) (hm : m.core.mode = .running) (hb : m.core.budget = 0) :
    let pc := m.core.regs.pc
    let opcode := (bus.read pc m.env).1
    let locked := m.lockedCore bus
    ((∃ o a, (m.step bus).result = .error (.invalidOpcode o a)) ↔
        (lookup opcode).operation = .invalid) ∧
      ((lookup opcode).operation = .invalid →
        (m.step bus).result = .error (.invalidOpcode opcode pc) ∧
        (m.step bus).machine =
            ⟨locked, bus.notify (.lockedUp opcode pc) (bus.read pc m.env).2⟩ ∧
        m.calls bus [.step] = [.read pc opcode, .event (.lockedUp opcode pc)] ∧
        ∀ {τ : Type} (other : Bus τ) (env : τ) (cs : List Command), (∀ c ∈ cs, c ≠ .reset) →
          let start : Machine τ := ⟨locked, env⟩
          (start.commands other cs).2 =
              ⟨{ locked with regs := cs.foldl (fun r c => c.write r) locked.regs }, env⟩ ∧
            start.calls other cs = [] ∧
            (∀ (k : Nat) (c : Command), cs[k]? = some c → c = .step ∨ c = .stepInstruction →
              (start.commands other cs).1[k]? =
                some ⟨some (.error (.locked opcode pc)),
                  (start.commands other (cs.take k)).2, []⟩) ∧
            ∀ c, ((start.commands other cs).2.command other c).machine.core.mode =
              .locked opcode pc ↔ c ≠ .reset) := by
  intro pc opcode locked
  have hvalid : (m.nextInstruction bus).isValid = false ↔ (lookup opcode).operation = .invalid := by
    rw [isValid_nextInstruction, Instruction.isValid_eq_false]
  refine ⟨(invalidOpcode_iff bus hm hb).trans hvalid, fun hi => ?_⟩
  obtain ⟨hresult, hmachine⟩ := step_of_unassigned bus hm hb (hvalid.2 hi)
  refine ⟨hresult, hmachine, calls_step_of_not_isValid bus hm hb (hvalid.2 hi), ?_⟩
  intro τ other env cs hcs start
  have hlater {ds : List Command} (hds : ∀ c ∈ ds, c ≠ .reset) :
      (start.commands other ds).2.core.mode = .locked opcode pc := by
    rw [commands_of_locked other (m := start) rfl hds]
    rfl
  refine ⟨commands_of_locked other rfl hcs, calls_of_locked other rfl hcs, ?_,
    mode_command_of_locked other (hlater hcs)⟩
  intro k c hk hc
  have hprefix : ∀ c ∈ cs.take k, c ≠ .reset := fun c h => hcs c (List.mem_of_mem_take h)
  rw [getElem?_commands, hk, Option.map_some,
    command_of_locked other (hlater hprefix) (hcs c (List.mem_of_getElem? hk))]
  rcases hc with rfl | rfl <;> rfl

/-- A lock-up, and a step after the core has been woken and sent elsewhere. -/
theorem lockUp_law_pc :
    let bus := Bus.rom [0xD3]
    let m : Machine Unit := ⟨.powerOn ⟨.zeroed, none⟩, ()⟩
    let cs : List Command := [.wake, .assign (.word .pc 0x0100), .stepInstruction]
    m.core.mode = .running ∧ m.core.budget = 0 ∧ (lookup 0xD3).operation = .invalid ∧
      (m.step bus).result = .error (.invalidOpcode 0xD3 0) ∧
      m.calls bus [.step] = [.read 0 0xD3, .event (.lockedUp 0xD3 0)] ∧
      ((m.step bus).machine.commands bus cs).2.core.regs.pc = 0x0100 ∧
      ((m.step bus).machine.commands bus cs).1[2]?.map Reply.result =
        some (some (.error (.locked 0xD3 0))) := by
  intro bus m cs
  have hi : (lookup 0xD3).operation = .invalid := (lookup_operation 0xD3).trans (by decide)
  have hcs : ∀ c ∈ cs, c ≠ .reset := by decide
  obtain ⟨-, hlaw⟩ := lockUp_law bus m rfl rfl
  obtain ⟨hresult, hmachine, hcalls, hlater⟩ := hlaw hi
  obtain ⟨hlast, -, hreplies, -⟩ := hlater bus () cs hcs
  refine ⟨rfl, rfl, hi, hresult, hcalls, ?_, ?_⟩
  · rw [hmachine, hlast]
    rfl
  · rw [hmachine, hreplies 2 .stepInstruction rfl (.inr rfl)]
    rfl

end Machine

end Sm83
