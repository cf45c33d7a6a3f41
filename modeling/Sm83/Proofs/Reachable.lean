import Sm83.Proofs.Dispatch
import Sm83.Proofs.Frame

/-!
# Reachable cores

A core is reachable if some history of commands leads to it from power-on. A core borrows its bus
for one command only, so every command of the history may be given a bus of its own, in any state:
the histories of one bus are among these.

## Main definitions

* `Registers.UpperFlags`: the lower nibble of F is clear
* `Core.Sound`: what holds of a core between commands
* `Core.Reachable`: the cores that a host can bring about

## Main results

* `Core.Sound.step`: what one step preserves
* `Core.Reachable.sound`: every reachable core is sound
* `Core.Reachable.bounds`: the bounds on reachable cores, and on the ticks that a step loads
-/

namespace Sm83

/-! ## The lower nibble of F -/

namespace Registers

/-- The lower nibble of F, which does not exist, reads as zero. -/
def UpperFlags (r : Registers) : Prop := r.byte .f &&& 0x0F = 0

/-- Every way to write a register drops the lower nibble of F. -/
theorem UpperFlags.assign {r : Registers} (h : r.UpperFlags) (a : Assignment) :
    (r.assign a).UpperFlags := by
  have hbyte (v : UInt8) : v &&& 0xF0 &&& 0x0F = 0 := by
    rw [UInt8.and_assoc]
    exact UInt8.and_zero
  cases a with
  | byte name v =>
    unfold UpperFlags
    rw [Registers.assign, byte_setByte]
    cases name with
    | f => exact hbyte v
    | a | b | c | d | e | h | l => exact h
  | word name v =>
    cases name with
    | af =>
      show (v &&& 0xFFF0).toUInt8 &&& 0x0F = 0
      rw [UInt16.toUInt8_and]
      exact hbyte _
    | bc | de | hl | sp | pc => exact h

theorem upperFlags_of_config (config : Config) : config.registers.UpperFlags := by
  show config.boot.registers.byte .f &&& 0x0F = 0
  cases config.boot <;> decide

end Registers

/-! ## Soundness of a core -/

namespace Core

/-- What holds of a core between commands. -/
structure Sound (config : Config) (c : Core) : Prop where
  upperFlags : c.regs.UpperFlags
  budget_le : c.budget ≤ maxInstructionTicks
  fetched_le : c.fetched.count ≤ 3
  budget_of_isLocked : c.mode.isLocked = true → c.budget = 0
  config_eq : c.config = config

theorem sound_powerOn (config : Config) : (powerOn config).Sound config where
  upperFlags := Registers.upperFlags_of_config config
  budget_le := Nat.zero_le _
  fetched_le := Nat.zero_le _
  budget_of_isLocked := fun _ => rfl
  config_eq := rfl

namespace Sound

variable {config : Config} {c : Core}

theorem reset (h : c.Sound config) : c.reset.Sound config where
  upperFlags := Registers.upperFlags_of_config c.config
  budget_le := Nat.zero_le _
  fetched_le := Nat.zero_le _
  budget_of_isLocked := fun _ => rfl
  config_eq := h.config_eq

theorem assign (h : c.Sound config) (a : Assignment) :
    ({ c with regs := c.regs.assign a } : Core).Sound config :=
  { h with upperFlags := h.upperFlags.assign a }

theorem wake (h : c.Sound config) : c.wake.1.Sound config := by
  cases hw : c.mode.isWaiting with
  | true =>
    rw [wake_of_isWaiting hw]
    exact { h with budget_of_isLocked := nofun }
  | false =>
    rw [wake_of_not_isWaiting hw]
    exact h

/-- **One step keeps a core sound.** -/
theorem step {σ : Type} (bus : Bus σ) {m : Machine σ} (h : m.core.Sound config) :
    (m.step bus).machine.core.Sound config := by
  have ht := m.tick_step bus
  generalize m.step bus = o at ht ⊢
  cases ht with
  | locked | idle => exact h
  | @busy n hm hb =>
    have hn : n ≤ maxInstructionTicks := by
      have := h.budget_le
      omega
    exact { h with budget_le := hn, budget_of_isLocked := fun hl => absurd hl (by rw [hm]; decide) }
  | executed hm hb hi =>
    have hregs : (m.fetchedCore bus).regs.UpperFlags := by
      rw [m.regs_fetchedCore bus]
      exact h.upperFlags.assign (.word .pc _)
    exact
      { upperFlags := by
          rw [Machine.executed, m.regs_nextResponse bus]
          exact Operation.regs_effect_of_assign _ (fun _ a _ hr => hr.assign a) hregs _ _
        budget_le := by
          rw [Machine.executed, m.budget_nextResponse bus]
          exact (m.isCost_nextTicks bus hi).2.2
        fetched_le := by
          rw [Machine.executed, m.fetched_nextResponse bus, Machine.fetchedCore, fetchAll_eq]
          exact FetchRecord.count_foldl_push_le _ (Nat.zero_le 3)
        budget_of_isLocked := fun hl =>
          absurd hl (by rw [Machine.executed, m.isLocked_nextResponse bus hm]; decide)
        config_eq := (m.config_nextResponse bus).trans h.config_eq }
  | lockedUp hm hb hi =>
    exact
      { upperFlags := h.upperFlags.assign (.word .pc _)
        budget_le := Nat.zero_le _
        fetched_le := FetchRecord.count_push_le _ (Nat.zero_le 3)
        budget_of_isLocked := fun _ => rfl
        config_eq := h.config_eq }

/-- **One command keeps a core sound.** -/
theorem command {σ : Type} (bus : Bus σ) {m : Machine σ} (h : m.core.Sound config) (c : Command) :
    (m.command bus c).machine.core.Sound config := by
  cases c with
  | step => exact h.step bus
  | stepInstruction =>
    show (m.stepInstruction bus).machine.core.Sound config
    rw [m.stepInstruction_eq bus]
    apply step
    unfold Machine.drained
    split
    · exact h
    · exact { h with budget_le := Nat.zero_le _, budget_of_isLocked := fun _ => rfl }
  | wake => exact h.wake
  | reset => exact h.reset
  | assign a => exact h.assign a
  | setFlags f value => exact h.assign (.byte .f _)
  | clearFlags => exact h.assign (.byte .f _)

end Sound

/-! ## Histories -/

/-- The cores that a host can bring about from power-on. -/
inductive Reachable (config : Config) : Core → Prop
  | powerOn : Reachable config (.powerOn config)
  | command {σ : Type} (bus : Bus σ) (env : σ) (c : Command) {core : Core}
      (h : Reachable config core) :
      Reachable config (Machine.command bus c ⟨core, env⟩).machine.core

namespace Reachable

variable {config : Config} {core : Core}

theorem sound (h : core.Reachable config) : core.Sound config := by
  induction h with
  | powerOn => exact sound_powerOn config
  | command bus env c _ ih => exact ih.command (m := ⟨_, env⟩) bus c

/-- The histories of one bus lead to reachable cores. -/
theorem commands {σ : Type} (bus : Bus σ) (cs : List Command) (env : σ)
    (h : core.Reachable config) :
    (Machine.commands bus cs ⟨core, env⟩).2.core.Reachable config := by
  induction cs generalizing core env with
  | nil => exact h
  | cons c cs ih => exact ih _ (.command bus env c h)

/-- **Bounds on reachable cores.** Between commands the lower nibble of F is clear, the ticks left
and the bytes recorded are bounded, a core that is locked up has no ticks left, and the
configuration is that of power-on. From there on no instruction overflows its budget, and one that
is executed leaves some machine cycles of four ticks. -/
theorem bounds (h : core.Reachable config) :
    core.regs.byte .f &&& 0x0F = 0 ∧ core.budget ≤ maxInstructionTicks ∧
      core.fetched.count ≤ 3 ∧ (core.mode.isLocked = true → core.budget = 0) ∧
      core.config = config ∧
      ∀ {σ : Type} (bus : Bus σ) (env : σ),
        (Machine.executeNext? bus ⟨core, env⟩).isSome ∧
        ∀ c x, (Machine.command bus c ⟨core, env⟩).result = some (.ok (.executed x)) →
          Operation.IsCost (Machine.command bus c ⟨core, env⟩).machine.core.budget := by
  have hs := h.sound
  refine ⟨hs.upperFlags, hs.budget_le, hs.fetched_le, hs.budget_of_isLocked, hs.config_eq, ?_⟩
  intro σ bus env
  refine ⟨Machine.isSome_executeNext? bus _, ?_⟩
  intro c x hx
  obtain ⟨-, hi, -, hm⟩ := Machine.executed_of_command bus hx
  rw [hm, Machine.executed, Machine.budget_nextResponse]
  exact Machine.isCost_nextTicks bus _ hi

/-- A call loads as many ticks as an instruction may cost. -/
theorem bounds_of_call :
    let config : Config := ⟨.zeroed, none⟩
    let bus := Bus.rom [0xCD, 0x34, 0x12]
    let x : Execution := ⟨0, ⟨#v[0xCD, 0x34, 0x12], 3⟩, lookup 0xCD⟩
    (Core.powerOn config).Reachable config ∧
      (Machine.command bus .step ⟨.powerOn config, ()⟩).result = some (.ok (.executed x)) ∧
      Operation.IsCost (Machine.command bus .step ⟨.powerOn config, ()⟩).machine.core.budget := by
  intro config bus x
  have hx : (Machine.command bus .step ⟨.powerOn config, ()⟩).result =
      some (.ok (.executed x)) := by
    rw [Machine.command_step]
    exact congrArg some (StepResult.execution?_eq_some.1 (by decide +kernel))
  have hp : (Core.powerOn config).Reachable config := .powerOn
  obtain ⟨-, -, -, -, -, hb⟩ := hp.bounds
  exact ⟨hp, hx, (hb bus ()).2 .step x hx⟩

end Reachable

end Core

end Sm83
