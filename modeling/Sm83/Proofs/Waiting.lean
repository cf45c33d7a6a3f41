import Mathlib.Data.List.Induction
import Sm83.Proofs.Journal
import Sm83.Proofs.Ticks

/-!
# Waiting and waking

HALT and STOP make the core wait. The ticks in flight are counted down while it waits and it is
idle from then on, and neither touches the bus or a register; waking changes the mode only. So it
makes no difference to the program how long the core has waited or when it was woken: the next
instruction is fetched as soon as the core is awake and no ticks are left, behind HALT or STOP.

## Main definitions

* `Operation.waitMode?`: the mode that HALT and STOP make the core wait in
* `Core.RestsFor`: a core whose next steps do not fetch
* `Core.restReport`: what these steps report
* `Machine.WaitsFor`: what so many steps of a waiting core and a wake after them do

## Main results

* `Machine.commands_of_restsFor`: steps that do not fetch only count down
* `Machine.commands_of_isWaiting`: what commands do to a core that waits
* `Machine.waitsFor_of_isWaiting`: a core may wait for any number of steps
* `Machine.waits_of_executed`, `Machine.exists_executed_of_isWaiting`: HALT and STOP make the core
  wait, and nothing else does
* `Machine.wait_law`: how a core comes to wait, waits and is woken
-/

namespace Sm83

variable {σ : Type}

namespace Operation

/-- The mode that an operation makes the core wait in. -/
def waitMode? : Operation → Option Mode
  | halt => some .halted
  | stop => some .stopped
  | _ => none

theorem isWaiting_of_waitMode? {op : Operation} {mode : Mode} (h : op.waitMode? = some mode) :
    mode.isWaiting = true := by
  cases op with
  | halt | stop =>
    cases h
    rfl
  | _ => cases h

/-- An operation that makes the core wait leaves the registers alone. -/
theorem regs_effect_of_waitMode? {op : Operation} {mode : Mode} (h : op.waitMode? = some mode)
    (r : Registers) (operand datum : UInt16) : (op.effect r operand datum).regs = r := by
  unfold waitMode? at h
  split at h
  · rfl
  · rfl
  · cases h

end Operation

namespace Core

theorem mode_respond (c : Core) (op : Operation) :
    (c.respond op.event?).1.mode = op.waitMode?.getD c.mode := by
  cases op <;> rfl

/-- The next `k` steps of the core do not fetch: it waits, or that many ticks are in flight, as they
may be when it has just been woken. -/
def RestsFor (c : Core) (k : Nat) : Prop :=
  c.mode.isWaiting = true ∨ c.mode.isLocked = false ∧ k ≤ c.budget

/-- What a core that rests reports in its `i`-th step from now. -/
def restReport (c : Core) (i : Nat) : Step :=
  if i < c.budget then .busy (c.budget - (i + 1)) else .idle c.mode

theorem RestsFor.not_isLocked {c : Core} {k : Nat} (h : c.RestsFor k) :
    c.mode.isLocked = false := by
  rcases h with hw | ⟨hl, -⟩
  · exact Mode.isLocked_of_isWaiting hw
  · exact hl

end Core

namespace Machine

variable (bus : Bus σ) {m : Machine σ}

/-! ## Steps that do not fetch -/

theorem step_of_restsFor {k : Nat} (h : m.core.RestsFor (k + 1)) :
    m.step bus =
      ⟨.ok (m.core.restReport 0), ⟨{ m.core with budget := m.core.budget - 1 }, m.env⟩, []⟩ := by
  by_cases hb : m.core.budget = 0
  · have hsame : m.setBudget (m.core.budget - 1) = m := setBudget_of_budget_eq (by omega)
    rcases h with hw | ⟨-, hk⟩
    · rw [step_of_isWaiting bus hw hb, Core.restReport, if_neg (by omega)]
      exact congrArg (Outcome.mk _ · []) hsame.symm
    · omega
  · obtain ⟨b, hb⟩ := Nat.exists_eq_succ_of_ne_zero hb
    rw [step_of_inFlight bus h.not_isLocked hb, Core.restReport, if_pos (by omega), hb]
    rfl

/-- **Steps that do not fetch** count down the ticks in flight and do nothing else. -/
theorem commands_of_restsFor {k : Nat} (h : m.core.RestsFor k) :
    m.results bus (.replicate k .step) =
        (List.range k).map (fun i => .ok (m.core.restReport i)) ∧
      (m.commands bus (.replicate k .step)).2 =
        ⟨{ m.core with budget := m.core.budget - k }, m.env⟩ := by
  induction k generalizing m with
  | zero => exact ⟨rfl, rfl⟩
  | succ k ih =>
    -- Nothing is subtracted where no ticks are left, so `n` is the next machine in either case.
    let n : Machine σ := ⟨{ m.core with budget := m.core.budget - 1 }, m.env⟩
    have hstep : m.step bus = ⟨.ok (m.core.restReport 0), n, []⟩ := step_of_restsFor bus h
    have hn : n.core.RestsFor k := h.imp_right fun hk => ⟨hk.1, Nat.le_sub_one_of_lt hk.2⟩
    obtain ⟨hresults, hlast⟩ := ih hn
    have hreport (i : Nat) : n.core.restReport i = m.core.restReport (i + 1) := by
      have hiff : i < m.core.budget - 1 ↔ i + 1 < m.core.budget := by omega
      have hleft : m.core.budget - 1 - (i + 1) = m.core.budget - (i + 1 + 1) := by omega
      simp only [Core.restReport, n, hiff, hleft]
    refine ⟨?_, ?_⟩
    · show (m.step bus).result :: (m.step bus).machine.results bus (.replicate k .step) = _
      rw [hstep, hresults, List.range_succ_eq_map, List.map_cons, List.map_map]
      simp only [hreport]
      rfl
    · show ((m.step bus).machine.commands bus (.replicate k .step)).2 = _
      rw [hstep, hlast]
      simp only [n, Nat.sub_sub, Nat.add_comm 1 k]

theorem calls_of_restsFor {k : Nat} (h : m.core.RestsFor k) :
    m.calls bus (.replicate k .step) = [] := by
  rw [calls, (commands_of_restsFor bus.recording (m := m.recorded) h).2]
  rfl

/-- A waiting core takes writes to its registers; a step takes ticks from it at most. -/
theorem command_of_isWaiting {c : Command} (hw : m.core.mode.isWaiting = true)
    (hc : c ≠ .reset ∧ c ≠ .wake) :
    ∃ b ≤ m.core.budget, (m.command bus c).machine =
      ⟨{ m.core with regs := c.write m.core.regs, budget := b }, m.env⟩ := by
  cases c with
  | step =>
    refine ⟨m.core.budget - 1, Nat.sub_le _ _, ?_⟩
    rw [command_step, step_of_restsFor bus (k := 0) (.inl hw)]
    rfl
  | stepInstruction =>
    have hl : m.core.mode.isLocked = false := Core.RestsFor.not_isLocked (k := 0) (.inl hw)
    refine ⟨0, Nat.zero_le _, ?_⟩
    simp only [command, stepInstruction_eq, drained_of_not_isLocked hl]
    rw [step_of_isWaiting bus (m := m.setBudget 0) hw rfl]
    rfl
  | assign | setFlags | clearFlags => exact ⟨_, Nat.le_refl _, rfl⟩
  | wake => exact absurd rfl hc.2
  | reset => exact absurd rfl hc.1

theorem commands_of_isWaiting {cs : List Command} (hw : m.core.mode.isWaiting = true)
    (hcs : ∀ c ∈ cs, c ≠ .reset ∧ c ≠ .wake) :
    ∃ b ≤ m.core.budget, (m.commands bus cs).2 =
      ⟨{ m.core with
          regs := cs.foldl (fun r c => c.write r) m.core.regs
          budget := b }, m.env⟩ := by
  induction cs generalizing m with
  | nil => exact ⟨_, Nat.le_refl _, rfl⟩
  | cons c cs ih =>
    obtain ⟨hc, hrest⟩ := List.forall_mem_cons.1 hcs
    obtain ⟨b, hb, hone⟩ := command_of_isWaiting bus hw hc
    obtain ⟨d, hd, hlast⟩ := ih (m := (m.command bus c).machine) (by rw [hone]; exact hw) hrest
    rw [hone] at hd hlast
    refine ⟨d, Nat.le_trans hd hb, ?_⟩
    show ((m.command bus c).machine.commands bus cs).2 = _
    rw [hone]
    exact hlast

theorem calls_of_isWaiting {cs : List Command} (hw : m.core.mode.isWaiting = true)
    (hcs : ∀ c ∈ cs, c ≠ .reset ∧ c ≠ .wake) : m.calls bus cs = [] := by
  obtain ⟨b, -, hlast⟩ := commands_of_isWaiting bus.recording (m := m.recorded) hw hcs
  rw [calls, hlast]
  rfl

/-! ## Waking -/

theorem wake_of_isWaiting (hw : m.core.mode.isWaiting = true) :
    m.wake.1 = ⟨{ m.core with mode := .running }, m.env⟩ := by
  simp only [wake, Core.wake_of_isWaiting hw]

theorem wake_of_not_isWaiting (hw : m.core.mode.isWaiting = false) : m.wake = (m, []) := by
  simp only [wake, Core.wake_of_not_isWaiting hw]
  rfl

theorem not_isWaiting_wake (m : Machine σ) : m.wake.1.core.mode.isWaiting = false := by
  cases hw : m.core.mode.isWaiting with
  | true =>
    rw [wake_of_isWaiting hw]
    rfl
  | false =>
    rw [wake_of_not_isWaiting hw]
    exact hw

/-- **What `k` steps of a waiting machine do, and a wake after them.** -/
structure WaitsFor (m : Machine σ) (k : Nat) : Prop where
  /-- The steps are busy while ticks are in flight, and idle afterwards. -/
  results : m.results bus (.replicate k .step) =
    (List.range k).map fun i =>
      .ok (if i < m.core.budget then .busy (m.core.budget - (i + 1)) else .idle m.core.mode)
  /-- They change nothing but the ticks in flight. -/
  last : (m.commands bus (.replicate k .step)).2 =
    ⟨{ m.core with budget := m.core.budget - k }, m.env⟩
  calls : m.calls bus (.replicate k .step) = []
  /-- The core may as well be woken first, and then step while ticks are in flight. -/
  wake : (m.commands bus (.replicate k .step)).2.wake.1.core =
    (m.wake.1.commands bus (.replicate (min k m.core.budget) .step)).2.core
  /-- The woken core is busy while ticks are still in flight. -/
  drains :
    let woken := (m.commands bus (.replicate k .step)).2.wake.1
    woken.results bus (.replicate (m.core.budget - k) .step) =
        (List.range (m.core.budget - k)).map (fun i => .ok (.busy (m.core.budget - k - (i + 1)))) ∧
      woken.calls bus (.replicate (m.core.budget - k) .step) = []
  /-- Then the registers are as they were, and the next step fetches. -/
  fetches :
    let woken := (m.commands bus (.replicate k .step)).2.wake.1
    let ready := (woken.commands bus (.replicate (m.core.budget - k) .step)).2
    ready = ⟨{ m.core with budget := 0, mode := .running }, m.env⟩ ∧
      (ready.calls bus [.step]).head? =
        some (.read m.core.regs.pc (bus.read m.core.regs.pc m.env).1)

/-- **A core may wait for any number of steps.** -/
theorem waitsFor_of_isWaiting (hw : m.core.mode.isWaiting = true) (k : Nat) : m.WaitsFor bus k := by
  have hrest : m.core.RestsFor k := .inl hw
  have hlast := (commands_of_restsFor bus hrest).2
  -- The woken core no longer waits; it rests for as long as ticks are in flight.
  let n : Machine σ := ⟨{ m.core with budget := m.core.budget - k, mode := .running }, m.env⟩
  have hwoken : (m.commands bus (.replicate k .step)).2.wake.1 = n := by
    rw [hlast]
    exact wake_of_isWaiting hw
  have hdrain : n.core.RestsFor (m.core.budget - k) := .inr ⟨rfl, Nat.le_refl _⟩
  obtain ⟨hbusy, hready⟩ := commands_of_restsFor bus hdrain
  have hzero : n.core.budget - (m.core.budget - k) = 0 := Nat.sub_self _
  refine ⟨(commands_of_restsFor bus hrest).1, hlast, calls_of_restsFor bus hrest, ?_, ?_, ?_⟩
  · have hmin : m.wake.1.core.RestsFor (min k m.core.budget) := by
      rw [wake_of_isWaiting hw]
      exact .inr ⟨rfl, Nat.min_le_right _ _⟩
    have hleft : m.core.budget - min k m.core.budget = m.core.budget - k := by omega
    rw [hwoken, (commands_of_restsFor bus hmin).2, wake_of_isWaiting hw]
    simp only [hleft, n]
  · intro woken
    simp only [woken, hwoken]
    refine ⟨?_, calls_of_restsFor bus hdrain⟩
    rw [hbusy]
    refine List.map_congr_left fun i hi => ?_
    rw [Core.restReport, if_pos (List.mem_range.1 hi)]
  · intro woken ready
    have hr : ready = ⟨{ m.core with budget := 0, mode := .running }, m.env⟩ := by
      simp only [ready, woken, hwoken, hready, hzero, n]
    refine ⟨hr, ?_⟩
    rw [hr]
    exact head?_calls_step_of_running bus rfl rfl

/-! ## HALT and STOP -/

theorem mode_nextResponse :
    (m.nextResponse bus).1.mode =
      (m.nextInstruction bus).operation.waitMode?.getD m.core.mode := by
  have hmode : (m.fetchedCore bus).mode = m.core.mode := by
    rw [fetchedCore, Core.fetchAll_eq]
    rfl
  rw [← hmode]
  exact Core.mode_respond _ _

/-- **HALT and STOP make the core wait**, with the program counter behind them. -/
theorem waits_of_executed {c : Command} {x : Execution} {mode : Mode}
    (hx : (m.command bus c).result = some (.ok (.executed x)))
    (h : x.instruction.operation.waitMode? = some mode) :
    let after := (m.command bus c).machine
    after.core.mode = mode ∧
      after.core.regs = m.core.regs.jump (x.addr + UInt16.ofNat x.instruction.length) ∧
      ∀ k, after.WaitsFor bus k := by
  intro after
  obtain ⟨-, -, rfl, hafter⟩ := executed_of_command bus hx
  have hmode : after.core.mode = mode := by
    simp only [after, hafter]
    show ((m.setBudget 0).nextResponse bus).1.mode = _
    rw [mode_nextResponse]
    exact congrArg (Option.getD · m.core.mode) h
  refine ⟨hmode, ?_, waitsFor_of_isWaiting bus ?_⟩
  · simp only [after, hafter]
    refine Eq.trans ?_ ((m.setBudget 0).regs_fetchedCore bus)
    show ((m.setBudget 0).nextResponse bus).1.regs = _
    rw [regs_nextResponse, nextEffect]
    exact Operation.regs_effect_of_waitMode? h _ _ _
  · rw [hmode]
    exact Operation.isWaiting_of_waitMode? h

/-- Nothing else makes a core wait. -/
theorem waitMode?_of_step (hm : m.core.mode.isWaiting = false)
    (h : (m.step bus).machine.core.mode.isWaiting = true) :
    ∃ x, (m.step bus).result = .ok (.executed x) ∧
      x.instruction.operation.waitMode? = some (m.step bus).machine.core.mode := by
  have ht := m.tick_step bus
  generalize m.step bus = o at h ht ⊢
  cases ht with
  | executed =>
    refine ⟨_, rfl, ?_⟩
    show (m.nextInstruction bus).operation.waitMode? = some (m.nextResponse bus).1.mode
    have hw : (m.nextResponse bus).1.mode.isWaiting = true := h
    rw [mode_nextResponse] at hw ⊢
    cases hop : (m.nextInstruction bus).operation.waitMode? with
    | some mode => rfl
    | none =>
      rw [hop, Option.getD_none, hm] at hw
      cases hw
  | locked | busy | idle => exact absurd (hm.symm.trans h) Bool.false_ne_true
  | lockedUp => cases h

theorem waitMode?_of_command {c : Command} (hm : m.core.mode.isWaiting = false)
    (h : (m.command bus c).machine.core.mode.isWaiting = true) :
    ∃ x, (m.command bus c).result = some (.ok (.executed x)) ∧
      x.instruction.operation.waitMode? = some (m.command bus c).machine.core.mode := by
  cases c with
  | step =>
    obtain ⟨x, hx, hmode⟩ := waitMode?_of_step bus hm h
    exact ⟨x, congrArg some hx, hmode⟩
  | stepInstruction =>
    simp only [command, stepInstruction_eq] at h ⊢
    obtain ⟨x, hx, hmode⟩ := waitMode?_of_step bus (by rw [mode_drained, hm]) h
    exact ⟨x, congrArg some hx, hmode⟩
  | wake =>
    have hsame : (m.command bus .wake).machine = m := congrArg Prod.fst (wake_of_not_isWaiting hm)
    rw [hsame, hm] at h
    cases h
  | reset => cases h
  | assign | setFlags | clearFlags => exact absurd (hm.symm.trans h) Bool.false_ne_true

/-- **A core that waits has executed HALT or STOP**, and has neither been reset nor woken since. -/
theorem exists_executed_of_isWaiting {cs : List Command} (hm : m.core.mode.isWaiting = false)
    (h : (m.commands bus cs).2.core.mode.isWaiting = true) :
    ∃ before c later x, cs = before ++ c :: later ∧
      ((m.commands bus before).2.command bus c).result = some (.ok (.executed x)) ∧
      x.instruction.operation.waitMode? = some (m.commands bus cs).2.core.mode ∧
      ∀ d ∈ later, d ≠ .reset ∧ d ≠ .wake := by
  induction cs using List.reverseRecOn with
  | nil => exact absurd (hm.symm.trans h) Bool.false_ne_true
  | append_singleton cs c ih =>
    let n := (m.commands bus cs).2
    have hlast : (m.commands bus (cs ++ [c])).2 = (n.command bus c).machine := by
      rw [commands_append]
      rfl
    rw [hlast] at h ⊢
    -- Either the core has waited before the last command already, or this command is the one.
    cases hn : n.core.mode.isWaiting with
    | true =>
      have hc : c ≠ .reset ∧ c ≠ .wake := by
        refine ⟨?_, ?_⟩
        · rintro rfl
          cases h
        · rintro rfl
          exact absurd (n.not_isWaiting_wake.symm.trans h) Bool.false_ne_true
      obtain ⟨b, -, hone⟩ := command_of_isWaiting bus hn hc
      obtain ⟨before, d, later, x, rfl, hx, hmode, hlater⟩ := ih hn
      refine ⟨before, d, later ++ [c], x, by simp, hx, ?_, ?_⟩
      · rw [hone]
        exact hmode
      · exact List.forall_mem_append.2 ⟨hlater, List.forall_mem_singleton.2 hc⟩
    | false =>
      obtain ⟨x, hx, hmode⟩ := waitMode?_of_command bus hn h
      exact ⟨cs, c, [], x, rfl, hx, hmode, nofun⟩

/-- A step reports an idle core only if the core waits. -/
theorem isWaiting_of_step_idle {mode : Mode} (h : (m.step bus).result = .ok (.idle mode)) :
    mode = m.core.mode ∧ m.core.mode.isWaiting = true := by
  have ht := m.tick_step bus
  generalize m.step bus = o at h ht
  cases ht with
  | idle hw =>
    cases h
    exact ⟨rfl, hw⟩
  | locked | busy | executed | lockedUp => cases h

/-- **The law of waiting.** A waiting core may step any number of times: it is busy while ticks
are in flight and idle afterwards, touches neither its registers nor the bus, and when it is woken
it fetches as soon as no ticks are left, just as if it had been woken at once. So it does when
registers have been written meanwhile, with these registers. A core that waits has executed HALT or
STOP, which leave the program counter behind them and the other registers alone. Waking twice is
waking once, a core that does not wait is not changed by it, and only a core that waits is reported
as idle. -/
theorem wait_law (m : Machine σ) :
    (m.core.mode.isWaiting = true → ∀ k, m.WaitsFor bus k) ∧
      (m.core.mode.isWaiting = true → ∀ cs, (∀ c ∈ cs, c ≠ .reset ∧ c ≠ .wake) →
        let later := (m.commands bus cs).2
        (∃ b ≤ m.core.budget, later =
            ⟨{ m.core with
                regs := cs.foldl (fun r c => c.write r) m.core.regs
                budget := b }, m.env⟩) ∧
          m.calls bus cs = [] ∧ ∀ k, later.WaitsFor bus k) ∧
      (m.core.mode.isWaiting = false → ∀ cs,
        (m.commands bus cs).2.core.mode.isWaiting = true →
        ∃ before c later x, cs = before ++ c :: later ∧
          ((m.commands bus before).2.command bus c).result = some (.ok (.executed x)) ∧
          x.instruction.operation.waitMode? = some (m.commands bus cs).2.core.mode ∧
          ∀ d ∈ later, d ≠ .reset ∧ d ≠ .wake) ∧
      (∀ c x, (m.command bus c).result = some (.ok (.executed x)) →
        let after := (m.command bus c).machine
        x.addr = m.core.regs.pc ∧
          (x.instruction.operation = .halt →
            after.core.mode = .halted ∧ after.core.regs = m.core.regs.jump (x.addr + 1) ∧
              ∀ k, after.WaitsFor bus k) ∧
          (x.instruction.operation = .stop →
            after.core.mode = .stopped ∧ after.core.regs = m.core.regs.jump (x.addr + 2) ∧
              ∀ k, after.WaitsFor bus k)) ∧
      m.wake.1.wake = (m.wake.1, []) ∧
      (m.core.mode.isWaiting = false → m.wake = (m, [])) ∧
      ∀ c mode, (m.command bus c).result = some (.ok (.idle mode)) →
        mode = m.core.mode ∧ mode.isWaiting = true := by
  refine ⟨waitsFor_of_isWaiting bus, ?_, fun hm cs h => exists_executed_of_isWaiting bus hm h, ?_,
    wake_of_not_isWaiting (not_isWaiting_wake m), wake_of_not_isWaiting, ?_⟩
  · intro hw cs hcs later
    obtain ⟨b, hb, hlast⟩ := commands_of_isWaiting bus hw hcs
    refine ⟨⟨b, hb, hlast⟩, calls_of_isWaiting bus hw hcs, waitsFor_of_isWaiting bus ?_⟩
    simp only [later, hlast]
    exact hw
  · intro c x hx after
    have hwaits (mode : Mode) (h : x.instruction.operation.waitMode? = some mode) :=
      waits_of_executed bus hx h
    obtain ⟨-, -, rfl, -⟩ := executed_of_command bus hx
    have hlen := length_nextInstruction bus (m.setBudget 0)
    refine ⟨rfl, ?_, ?_⟩
    · intro (hop : ((m.setBudget 0).nextInstruction bus).operation = .halt)
      rw [hop] at hlen
      have hafter := hwaits .halted (congrArg Operation.waitMode? hop)
      simp only [nextExecution, hlen] at hafter
      exact hafter
    · intro (hop : ((m.setBudget 0).nextInstruction bus).operation = .stop)
      rw [hop] at hlen
      have hafter := hwaits .stopped (congrArg Operation.waitMode? hop)
      simp only [nextExecution, hlen] at hafter
      exact hafter
  · intro c mode h
    cases c with
    | step =>
      obtain ⟨rfl, hw⟩ := isWaiting_of_step_idle bus (Option.some_inj.1 h)
      exact ⟨rfl, hw⟩
    | stepInstruction =>
      have hd : (m.drained.step bus).result = .ok (.idle mode) := by
        rw [← stepInstruction_eq]
        exact Option.some_inj.1 h
      obtain ⟨rfl, hw⟩ := isWaiting_of_step_idle bus hd
      rw [mode_drained] at hw ⊢
      exact ⟨rfl, hw⟩
    | wake | reset | assign | setFlags | clearFlags => cases h

/-- A core that idles after HALT, and one that is woken while ticks are in flight, with a write to
a register before that. -/
theorem wait_law_halt :
    let bus := Bus.rom [0x76, 0x3C]
    let m : Machine Unit := ⟨.powerOn ⟨.zeroed, none⟩, ()⟩
    let cs : List Command := [.step, .assign (.byte .a 7)]
    (m.command bus .step).result =
        some (.ok (.executed ⟨0, ⟨#v[0x76, 0, 0], 1⟩, lookup 0x76⟩)) ∧
      (lookup 0x76).operation = .halt ∧
      (m.command bus .step).machine.core.mode.isWaiting = true ∧
      (m.command bus .step).machine.core.regs = m.core.regs.jump 1 ∧
      ((m.command bus .step).machine.commands bus (.replicate 10 .step)).2 =
        ⟨{ (m.command bus .step).machine.core with budget := 0 },
          (m.command bus .step).machine.env⟩ ∧
      (∀ c ∈ cs, c ≠ .reset ∧ c ≠ .wake) ∧
      ((m.command bus .step).machine.commands bus cs).2.core.budget = 3 ∧
      ((m.command bus .step).machine.commands bus cs).2.wake.1.results bus (.replicate 3 .step) =
        [.ok (.busy 2), .ok (.busy 1), .ok (.busy 0)] := by
  intro bus m cs
  have hx : (m.command bus .step).result =
        some (.ok (.executed ⟨0, ⟨#v[0x76, 0, 0], 1⟩, lookup 0x76⟩)) :=
    Reply.execution?_eq_some.1 (by decide +kernel)
  have hop : (lookup 0x76).operation = .halt := (lookup_operation 0x76).trans (by decide)
  have hcs : ∀ c ∈ cs, c ≠ .reset ∧ c ≠ .wake := by decide
  obtain ⟨hafter, hlater⟩ : (m.command bus .step).machine.core.budget = 4 ∧
      ((m.command bus .step).machine.commands bus cs).2.core.budget = 3 := by decide +kernel
  obtain ⟨-, -, -, hwaits, -⟩ := wait_law bus m
  obtain ⟨-, hhalt, -⟩ := hwaits .step _ hx
  obtain ⟨hmode, hregs, -⟩ := hhalt hop
  have hw : (m.command bus .step).machine.core.mode.isWaiting = true := by
    simp only [hmode]
    rfl
  have hnext : (0 : UInt16) + 1 = 1 := by decide
  rw [hnext] at hregs
  obtain ⟨hrest, hwritten, -⟩ := wait_law bus (m.command bus .step).machine
  obtain ⟨-, -, hawake⟩ := hwritten hw cs hcs
  have hdrains := (hawake 0).drains.1
  rw [hlater] at hdrains
  have hidle := (hrest hw 10).last
  rw [hafter, Nat.sub_eq_zero_of_le (by decide)] at hidle
  exact ⟨hx, hop, hw, hregs, hidle, hcs, hlater, hdrains⟩

end Machine

end Sm83
