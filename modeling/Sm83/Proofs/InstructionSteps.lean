import Sm83.Proofs.Journal
import Sm83.Proofs.Reachable

/-!
# Stepping until something happens

A host that is not interested in single ticks steps the machine until a step is not busy. That is a
loop without a bound of its own: it ends because every busy step leaves one tick less. A busy step
does nothing else, so all that the loop does is done by its last step, and that is the step of the
machine with no ticks left. A host may therefore advance a machine in either way, or in both ways in
turn, and sees the same but for the busy steps.

## Main definitions

* `Machine.StepLoop`: the loop, with the number of its steps
* `Machine.loopSteps`: how many steps it makes
* `Reply.isBusy`: the replies that a host steps over
* `settled`: the replies that are left
* `Machine.unrolled`: commands in which every loop is written out as steps

## Main results

* `Machine.busy_induction`: every machine is some busy steps before one that is not busy
* `Machine.stepLoop_iff`: the loop ends after exactly so many steps, whatever the machine
* `Machine.commands_loopSteps`: its steps are busy but for the last one, which is the whole loop
* `Machine.settled_commands_step`: what steps do, the loops do
* `Machine.settled_commands_unrolled`: what commands with loops do, steps do
* `Machine.stepInstruction_law`: the loop is one step once no ticks are left
-/

namespace Sm83

variable {σ : Type}

/-- Whether the reply is that of a step that only counted down. -/
def Reply.isBusy (reply : Reply σ) : Bool :=
  match reply.result with
  | some (.ok (.busy _)) => true
  | _ => false

/-- The replies that are left when those of busy steps are stepped over. -/
def settled (replies : List (Reply σ)) : List (Reply σ) := replies.filter fun r => !r.isBusy

theorem settled_cons_of_isBusy {reply : Reply σ} (h : reply.isBusy = true)
    (replies : List (Reply σ)) : settled (reply :: replies) = settled replies := by
  simp only [settled, List.filter_cons, h, Bool.not_true, Bool.false_eq_true, if_false]

theorem settled_cons_of_not_isBusy {reply : Reply σ} (h : reply.isBusy = false)
    (replies : List (Reply σ)) : settled (reply :: replies) = reply :: settled replies := by
  simp only [settled, List.filter_cons, h, Bool.not_false, if_true]

theorem settled_append_of_isBusy {waits : List (Reply σ)}
    (h : ∀ reply ∈ waits, reply.isBusy = true) (replies : List (Reply σ)) :
    settled (waits ++ replies) = settled replies := by
  induction waits with
  | nil => rfl
  | cons reply waits ih =>
    obtain ⟨hreply, hwaits⟩ := List.forall_mem_cons.1 h
    rw [List.cons_append, settled_cons_of_isBusy hreply, ih hwaits]

namespace Machine

variable (bus : Bus σ)

/-! ## The loop -/

/-- The loop of steps from a machine. A busy step is followed by another one, and the first step
that is not busy ends the loop, whose outcome is that of this step with all that was logged. -/
inductive StepLoop : Machine σ → Nat → Outcome σ → Prop
  | last {m : Machine σ} (h : ∀ left, (m.step bus).result ≠ .ok (.busy left)) :
      StepLoop m 1 (m.step bus)
  | busy {m : Machine σ} {left n : Nat} {o : Outcome σ}
      (h : (m.step bus).result = .ok (.busy left)) (rest : StepLoop (m.step bus).machine n o) :
      StepLoop m (n + 1) { o with log := (m.step bus).log ++ o.log }

/-- The steps of the loop: one for each tick in flight and one more. A core that is locked up counts
no ticks down. -/
def loopSteps (m : Machine σ) : Nat := if m.core.mode.isLocked then 1 else m.core.budget + 1

variable {m : Machine σ}

/-- A machine is busy if ticks are in flight and the core is not locked up. -/
theorem exists_busy_iff :
    (∃ left, (m.step bus).result = .ok (.busy left)) ↔
      m.core.mode.isLocked = false ∧ m.core.budget ≠ 0 := by
  constructor
  · rintro ⟨left, h⟩
    have ht := m.tick_step bus
    generalize m.step bus = o at h ht
    cases ht with
    | busy hl hb => exact ⟨hl, by rw [hb]; exact Nat.succ_ne_zero _⟩
    | locked | idle | executed | lockedUp => cases h
  · rintro ⟨hl, hb⟩
    obtain ⟨left, hb⟩ := Nat.exists_eq_succ_of_ne_zero hb
    exact ⟨left, by rw [step_of_inFlight bus hl hb]⟩

theorem loopSteps_of_ne_busy (h : ∀ left, (m.step bus).result ≠ .ok (.busy left)) :
    m.loopSteps = 1 := by
  unfold loopSteps
  split
  · rfl
  · rename_i hl
    by_contra hb
    obtain ⟨left, hbusy⟩ :=
      (exists_busy_iff bus).2 ⟨Bool.eq_false_iff.2 hl, fun hz => hb (by rw [hz])⟩
    exact h left hbusy

/-- A busy step makes the loop one step shorter, and takes nothing else away from it. -/
theorem loop_of_busy {left : Nat} (h : (m.step bus).result = .ok (.busy left)) :
    (m.step bus).log = [] ∧ m.loopSteps = (m.step bus).machine.loopSteps + 1 ∧
      m.stepInstruction bus = (m.step bus).machine.stepInstruction bus := by
  obtain ⟨hl, -⟩ := (exists_busy_iff bus).1 ⟨left, h⟩
  obtain ⟨hb, -⟩ := budget_step_of_busy h
  rw [step_of_inFlight bus hl hb, stepInstruction_of_busy bus hl hb]
  refine ⟨rfl, ?_, rfl⟩
  simp [loopSteps, hl, hb]

/-- What holds of every machine that is not busy, and of every busy one if it holds of the machine
after its step, holds of all. -/
@[elab_as_elim]
theorem busy_induction {motive : Machine σ → Prop}
    (last : ∀ m : Machine σ, (∀ left, (m.step bus).result ≠ .ok (.busy left)) → motive m)
    (busy : ∀ m : Machine σ, (∃ left, (m.step bus).result = .ok (.busy left)) →
      motive (m.step bus).machine → motive m) (m : Machine σ) : motive m := by
  -- The ticks in flight are what becomes less.
  induction hb : m.core.budget using Nat.strongRecOn generalizing m with
  | ind n ih =>
    by_cases h : ∃ left, (m.step bus).result = .ok (.busy left)
    · obtain ⟨left, hleft⟩ := h
      obtain ⟨hbefore, hafter⟩ := budget_step_of_busy hleft
      exact busy m ⟨left, hleft⟩ (ih left (by omega) _ hafter)
    · exact last m (not_exists.1 h)

theorem stepLoop_stepInstruction (m : Machine σ) :
    m.StepLoop bus m.loopSteps (m.stepInstruction bus) := by
  induction m using busy_induction bus with
  | last m h =>
    rw [loopSteps_of_ne_busy bus h, stepInstruction_of_ne_busy bus h]
    exact .last h
  | busy m h ih =>
    obtain ⟨left, h⟩ := h
    obtain ⟨hlog, hsteps, hsame⟩ := loop_of_busy bus h
    have hloop := StepLoop.busy h ih
    rw [hlog] at hloop
    rw [hsteps, hsame]
    exact hloop

/-- **The loop ends after exactly so many steps**, and there is nothing else that it can do. -/
theorem stepLoop_iff {n : Nat} {o : Outcome σ} :
    m.StepLoop bus n o ↔ n = m.loopSteps ∧ o = m.stepInstruction bus := by
  constructor
  · intro h
    induction h with
    | last h => exact ⟨(loopSteps_of_ne_busy bus h).symm, (stepInstruction_of_ne_busy bus h).symm⟩
    | busy h _ ih =>
      obtain ⟨hlog, hsteps, hsame⟩ := loop_of_busy bus h
      obtain ⟨rfl, rfl⟩ := ih
      refine ⟨hsteps.symm, ?_⟩
      rw [hlog, hsame]
      rfl
  · rintro ⟨rfl, rfl⟩
    exact m.stepLoop_stepInstruction bus

/-! ## The steps of the loop -/

theorem commands_singleton (c : Command) (m : Machine σ) :
    m.commands bus [c] = ([m.command bus c], (m.command bus c).machine) := rfl

theorem commands_step_cons (n : Nat) :
    m.commands bus (.replicate (n + 1) .step) =
      (m.command bus .step :: ((m.step bus).machine.commands bus (.replicate n .step)).1,
        ((m.step bus).machine.commands bus (.replicate n .step)).2) := rfl

/-- A loop that has nothing to count down is a step. -/
theorem command_stepInstruction_of_ne_busy
    (h : ∀ left, (m.step bus).result ≠ .ok (.busy left)) :
    m.command bus .stepInstruction = m.command bus .step := by
  simp only [command, stepInstruction_of_ne_busy bus h]

theorem command_stepInstruction_of_busy {left : Nat}
    (h : (m.step bus).result = .ok (.busy left)) :
    m.command bus .stepInstruction = (m.step bus).machine.command bus .stepInstruction := by
  simp only [command, (loop_of_busy bus h).2.2]

theorem isBusy_command_step_iff :
    (m.command bus .step).isBusy = true ↔ ∃ left, (m.step bus).result = .ok (.busy left) := by
  show (match some (m.step bus).result with | some (.ok (.busy _)) => true | _ => false) = true ↔ _
  rcases (m.step bus).result with _ | (_ | _ | _) <;> simp

/-- **The steps of the loop** are busy but for the last one, and the reply to that one is the reply
to the whole loop. -/
theorem commands_loopSteps (m : Machine σ) :
    ∃ waits : List (Reply σ), (∀ reply ∈ waits, reply.isBusy = true) ∧
      m.commands bus (.replicate m.loopSteps .step) =
        (waits ++ [m.command bus .stepInstruction],
          (m.command bus .stepInstruction).machine) := by
  -- Each busy step of the loop is one more reply to be stepped over.
  induction m using busy_induction bus with
  | last m h =>
    refine ⟨[], List.forall_mem_nil _, ?_⟩
    rw [loopSteps_of_ne_busy bus h, command_stepInstruction_of_ne_busy bus h, List.replicate_one,
      commands_singleton, List.nil_append]
  | busy m h ih =>
    have hbusy := (isBusy_command_step_iff bus).2 h
    obtain ⟨left, h⟩ := h
    obtain ⟨-, hsteps, -⟩ := loop_of_busy bus h
    obtain ⟨waits, hwaits, hrest⟩ := ih
    refine ⟨_ :: waits, List.forall_mem_cons.2 ⟨hbusy, hwaits⟩, ?_⟩
    rw [hsteps, commands_step_cons, hrest, command_stepInstruction_of_busy bus h, List.cons_append]

theorem calls_loopSteps (m : Machine σ) :
    m.calls bus (.replicate m.loopSteps .step) = m.calls bus [.stepInstruction] := by
  obtain ⟨waits, -, hall⟩ := m.recorded.commands_loopSteps bus.recording
  exact congrArg (fun p : List _ × Machine _ => p.2.env.calls.toList) hall

/-! ## Runs

Replies to busy steps are stepped over. What is left of a run in steps is a run in loops; and a run
in which loops and any other commands take turns is what is left of a run in which the loops are
written out. -/

/-- No loop ends in a busy step. -/
theorem isBusy_command_stepInstruction (m : Machine σ) :
    (m.command bus .stepInstruction).isBusy = false := by
  -- The drained machine has no ticks in flight, or its core is locked up.
  have hdrained : m.command bus .stepInstruction = m.drained.command bus .step := by
    simp only [command, stepInstruction_eq]
  rw [hdrained, Bool.eq_false_iff, Ne, isBusy_command_step_iff, exists_busy_iff, mode_drained]
  rintro ⟨hl, hb⟩
  rw [drained_of_not_isLocked hl] at hb
  exact hb rfl

/-- **What steps do, the loops do**: without the busy steps, any number of steps has the replies of
loops, as many as there are replies left. -/
theorem settled_commands_step (k : Nat) (m : Machine σ) :
    let left := settled (m.commands bus (.replicate k .step)).1
    left = (m.commands bus (.replicate left.length .stepInstruction)).1 := by
  induction k generalizing m with
  | zero => rfl
  | succ k ih =>
    have hrest := ih (m.step bus).machine
    simp only [commands_step_cons] at hrest ⊢
    by_cases h : ∃ left, (m.step bus).result = .ok (.busy left)
    · rw [settled_cons_of_isBusy ((isBusy_command_step_iff bus).2 h)]
      refine hrest.trans ?_
      -- The first loop, if there is one, goes on from where the busy step has left the machine.
      obtain ⟨left, h⟩ := h
      generalize List.length _ = n
      cases n with
      | zero => rfl
      | succ n =>
        rw [List.replicate_succ, commands, commands, command_stepInstruction_of_busy bus h]
    · have hlast : ∀ left, (m.step bus).result ≠ .ok (.busy left) := not_exists.1 h
      have hkept : (m.command bus .step).isBusy = false := by
        rw [Bool.eq_false_iff, Ne, isBusy_command_step_iff]
        exact h
      rw [settled_cons_of_not_isBusy hkept, List.length_cons, List.replicate_succ, commands,
        command_stepInstruction_of_ne_busy bus hlast]
      exact congrArg (_ :: ·) hrest

/-- The commands with every loop written out as steps. -/
def unrolled : List Command → Machine σ → List Command
  | [], _ => []
  | c :: cs, m =>
    (if c = .stepInstruction then .replicate m.loopSteps .step else [c]) ++
      unrolled cs (m.command bus c).machine

theorem stepInstruction_notMem_unrolled (cs : List Command) (m : Machine σ) :
    .stepInstruction ∉ m.unrolled bus cs := by
  induction cs generalizing m with
  | nil => exact List.not_mem_nil
  | cons c cs ih =>
    rw [unrolled, List.mem_append, not_or]
    refine ⟨?_, ih _⟩
    split
    · rw [List.mem_replicate]
      rintro ⟨-, h⟩
      cases h
    · rename_i hc
      rw [List.mem_singleton]
      exact fun h => hc h.symm

/-- **What commands with loops do, steps do**, up to replies to busy steps. -/
theorem settled_commands_unrolled (cs : List Command) (m : Machine σ) :
    settled (m.commands bus (m.unrolled bus cs)).1 = settled (m.commands bus cs).1 ∧
      (m.commands bus (m.unrolled bus cs)).2 = (m.commands bus cs).2 ∧
      m.calls bus (m.unrolled bus cs) = m.calls bus cs := by
  induction cs generalizing m with
  | nil => exact ⟨rfl, rfl, rfl⟩
  | cons c cs ih =>
    obtain ⟨hreplies, hlast, hcalls⟩ := ih (m.command bus c).machine
    rw [unrolled, commands_append, calls_append, calls_cons, commands]
    by_cases hc : c = .stepInstruction
    · subst hc
      obtain ⟨waits, hwaits, hall⟩ := m.commands_loopSteps bus
      have hkept := m.isBusy_command_stepInstruction bus
      simp only [if_true, hall, calls_loopSteps, hcalls]
      refine ⟨?_, hlast, trivial⟩
      rw [List.append_assoc, settled_append_of_isBusy hwaits, List.singleton_append,
        settled_cons_of_not_isBusy hkept, settled_cons_of_not_isBusy hkept, hreplies]
    · rw [if_neg hc, commands_singleton]
      refine ⟨?_, hlast, congrArg (_ ++ ·) hcalls⟩
      cases hb : (m.command bus c).isBusy with
      | true => exact (settled_cons_of_isBusy hb _).trans (hreplies.trans
          (settled_cons_of_isBusy hb _).symm)
      | false =>
        rw [List.singleton_append, settled_cons_of_not_isBusy hb, settled_cons_of_not_isBusy hb,
          hreplies]

/-! ## The law of the loop -/

/-- **The law of the loop.** From a reachable core the loop of steps ends after one step more than
there are ticks in flight, or after the first step if the core is locked up. It does not end in a
busy step: it does what one step does once no ticks are left, with the same report, the same machine
and log after it, and the same calls to the bus. So a run in steps is, but for the busy ones, a run
in loops, reply by reply, with the machines at the ends of instructions; and any commands in which
loops are mixed with steps and other commands are, but for the busy steps, the commands in which
every loop is written out. -/
theorem stepInstruction_law {config : Config} (hm : m.core.Reachable config) :
    (∀ n o, m.StepLoop bus n o ↔
      n = (if m.core.mode.isLocked then 1 else m.core.budget + 1) ∧ o = m.stepInstruction bus) ∧
    (∀ left, (m.stepInstruction bus).result ≠ .ok (.busy left)) ∧
    m.stepInstruction bus = (m.setBudget 0).step bus ∧
    m.calls bus [.stepInstruction] = (m.setBudget 0).calls bus [.step] ∧
    (∀ k,
      let left := settled (m.commands bus (.replicate k .step)).1
      left = (m.commands bus (.replicate left.length .stepInstruction)).1) ∧
    ∀ cs,
      let written := m.unrolled bus cs
      .stepInstruction ∉ written ∧
        settled (m.commands bus written).1 = settled (m.commands bus cs).1 ∧
        (m.commands bus written).2 = (m.commands bus cs).2 ∧
        m.calls bus written = m.calls bus cs := by
  have hdrained : m.drained = m.setBudget 0 := by
    cases hl : m.core.mode.isLocked with
    | true =>
      -- A reachable core that is locked up has no ticks left, so that there is nothing to drain.
      have hb := hm.sound.budget_of_isLocked hl
      rw [drained_of_isLocked hl, setBudget_of_budget_eq hb]
    | false => exact drained_of_not_isLocked hl
  refine ⟨fun n o => stepLoop_iff bus, ?_, ?_, ?_, fun k => m.settled_commands_step bus k, ?_⟩
  · intro left h
    have hbusy := m.isBusy_command_stepInstruction bus
    simp [Reply.isBusy, command, h] at hbusy
  · rw [stepInstruction_eq, hdrained]
  · rw [calls_stepInstruction, hdrained]
  · intro cs written
    exact ⟨m.stepInstruction_notMem_unrolled bus cs, m.settled_commands_unrolled bus cs⟩

/-- With the ticks of a call in flight, the loop makes one step for each of them and one for the
instruction that is called. -/
theorem stepInstruction_law_of_call :
    let config : Config := ⟨.zeroed, none⟩
    let bus := Bus.rom [0xCD, 0x34, 0x12]
    let m := (command bus .step ⟨.powerOn config, ()⟩).machine
    m.core.Reachable config ∧ m.StepLoop bus 25 (m.stepInstruction bus) := by
  intro config bus m
  have hm : m.core.Reachable config := .command bus () .step .powerOn
  have hsteps : 25 = if m.core.mode.isLocked then 1 else m.core.budget + 1 := by decide +kernel
  obtain ⟨hloop, -⟩ := stepInstruction_law bus hm
  exact ⟨hm, (hloop 25 _).2 ⟨hsteps, rfl⟩⟩

end Machine

end Sm83
