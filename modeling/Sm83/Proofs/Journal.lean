import Sm83.Proofs.Listing
import Sm83.Proofs.Simulation

/-!
# The journal of a run

A bus that also keeps a journal of the calls made to it is in step with the bus itself, so the
journal of a run lists the calls that the run makes, whatever the bus. The journal of one step can
be read off its move, and a run has the journals of its commands in a row.

## Main definitions

* `Machine.recorded`: a machine on the recording bus, with an empty journal
* `Machine.calls`: the calls that a list of commands makes to its bus
* `Machine.nextCalls`: the calls that executing the next instruction makes
* `StepResult.hasFetched`: whether a step has fetched

## Main results

* `Machine.commands_recorded`: a run on the recording bus is the run with its journal
* `Machine.calls_append`: a run has the journals of its parts in a row
* `Machine.calls_step_of_isValid`, `Machine.calls_step_of_not_isValid`,
  `Machine.calls_step_of_not_fetching`: the journal of a step
* `Machine.exists_command_eq_step`: a command that reports a step is one step
* `Machine.calls_of_executed`: a command that executed an instruction makes the calls of that
  instruction
* `Machine.filterMap_execution?_calls`: the bus learns of the executed instructions, in order
-/

namespace Sm83

variable {σ : Type}

namespace BusCall

/-- Reads that return the given bytes. -/
def reads (addrs : List UInt16) (bytes : List UInt8) : List BusCall :=
  (addrs.zip bytes).map fun p => read p.1 p.2

def writes (stores : List (UInt16 × UInt8)) : List BusCall := stores.map fun p => write p.1 p.2

/-- The executed instruction that the bus learns of. -/
def execution? : BusCall → Option Execution
  | executed x => some x
  | read .. | write .. | event _ => none

/-- The event that the bus learns of. -/
def event? : BusCall → Option Event
  | event e => some e
  | read .. | write .. | executed _ => none

theorem filterMap_reads {β : Type} {f : BusCall → Option β} (hf : ∀ addr v, f (.read addr v) = none)
    (addrs : List UInt16) (bytes : List UInt8) : (reads addrs bytes).filterMap f = [] := by
  refine List.filterMap_eq_nil_iff.2 fun call hcall => ?_
  obtain ⟨p, -, rfl⟩ := List.mem_map.1 hcall
  exact hf p.1 p.2

theorem filterMap_writes {β : Type} {f : BusCall → Option β}
    (hf : ∀ addr v, f (.write addr v) = none) (stores : List (UInt16 × UInt8)) :
    (writes stores).filterMap f = [] := by
  refine List.filterMap_eq_nil_iff.2 fun call hcall => ?_
  obtain ⟨p, -, rfl⟩ := List.mem_map.1 hcall
  exact hf p.1 p.2

end BusCall

/-- Whether a step has fetched: it has executed an instruction or found none. -/
def StepResult.hasFetched : StepResult → Bool
  | .ok (.executed _) | .error (.invalidOpcode ..) => true
  | .ok (.busy _) | .ok (.idle _) | .error (.locked ..) => false

/-! ## The recording bus -/

namespace Bus

variable (bus : Bus σ)

/-- The recording bus is in step with the bus. -/
theorem sim_recording : bus.Sim (· = ·) bus.recording fun s r => r.inner = s where
  value h _ := by rw [← h]; rfl
  read h _ := by rw [← h]; rfl
  write h _ _ := by rw [← h]; rfl
  notify h _ := by rw [← h]; rfl
  executed h _ _ hx := by rw [← h, ← hx.eq]; rfl

/-- What a journal already holds makes no difference. -/
theorem sim_recording_append (before : Array BusCall) :
    bus.recording.Sim (· = ·) bus.recording
      fun r q => r.inner = q.inner ∧ r.calls = before ++ q.calls where
  value h _ := by simp only [recording, h.1]
  read h _ := by simp only [recording, h.1, h.2, Array.append_push, and_self]
  write h _ _ := by simp only [recording, h.1, h.2, Array.append_push, and_self]
  notify h _ := by simp only [recording, h.1, h.2, Array.append_push, and_self]
  executed h _ _ hx := by
    rw [← hx.eq]
    simp only [recording, h.1, h.2, Array.append_push, and_self]

theorem toList_calls_readAll (addrs : List UInt16) (r : Recorded σ) :
    (bus.recording.readAll addrs r).2.calls.toList =
      r.calls.toList ++ BusCall.reads addrs (bus.recording.readAll addrs r).1 := by
  induction addrs generalizing r with
  | nil => simp [BusCall.reads]
  | cons addr addrs ih =>
    rw [readAll_cons, ih]
    simp [recording, BusCall.reads]

theorem toList_calls_writeAll (stores : List (UInt16 × UInt8)) (r : Recorded σ) :
    (bus.recording.writeAll stores r).calls.toList =
      r.calls.toList ++ BusCall.writes stores := by
  induction stores generalizing r with
  | nil => simp [writeAll, BusCall.writes]
  | cons store stores ih =>
    rw [writeAll, ih]
    simp [recording, BusCall.writes]

theorem toList_calls_learn (e : Option Event) (r : Recorded σ) :
    (bus.recording.learn e r).calls.toList = r.calls.toList ++ e.toList.map .event := by
  cases e <;> simp [learn, recording]

end Bus

namespace Machine

variable (bus : Bus σ)

/-- The machine on the recording bus, with an empty journal. -/
def recorded (m : Machine σ) : Machine (Recorded σ) := ⟨m.core, { inner := m.env }⟩

/-- The calls that a list of commands makes to its bus, in order. -/
def calls (cs : List Command) (m : Machine σ) : List BusCall :=
  (m.recorded.commands bus.recording cs).2.env.calls.toList

theorem rel_recorded (m : Machine σ) : m.Rel (· = ·) (fun s r => r.inner = s) m.recorded where
  core := .refl _
  env := rfl

/-- **A run on the recording bus is the run with its journal.** -/
theorem commands_recorded (cs : List Command) (m : Machine σ) :
    (m.recorded.commands bus.recording cs).2 =
      ⟨(m.commands bus cs).2.core, (m.commands bus cs).2.env, (m.calls bus cs).toArray⟩ := by
  have h := (m.rel_recorded.commands .eq bus.sim_recording cs).2
  rw [h.core.eq, ← h.env]
  rfl

/-- **A run has the journals of its parts in a row.** -/
theorem calls_append (xs ys : List Command) (m : Machine σ) :
    m.calls bus (xs ++ ys) = m.calls bus xs ++ (m.commands bus xs).2.calls bus ys := by
  let n := (m.commands bus xs).2
  -- The first part leaves its journal behind, in front of what the second part adds.
  have h : (m.recorded.commands bus.recording xs).2.Rel (· = ·)
      (fun r q => r.inner = q.inner ∧ r.calls = (m.calls bus xs).toArray ++ q.calls)
      n.recorded := by
    rw [commands_recorded]
    exact ⟨.refl _, rfl, by simp [recorded]⟩
  have hlast := (h.commands .eq (bus.sim_recording_append _) ys).2.env.2
  rw [calls, commands_append, hlast]
  simp [calls, n]

theorem calls_cons (c : Command) (cs : List Command) (m : Machine σ) :
    m.calls bus (c :: cs) = m.calls bus [c] ++ (m.command bus c).machine.calls bus cs :=
  m.calls_append bus [c] cs

/-! ## The journal of a step -/

/-- The calls that executing the next instruction makes: its own bytes are read, then its data,
then bytes are stored, then the bus learns of an event, and last of the instruction itself. -/
def nextCalls (m : Machine σ) : List BusCall :=
  let i := m.nextInstruction bus
  BusCall.reads (addresses m.core.regs.pc i.length) (m.nextFetch bus).1 ++
    BusCall.reads (i.operation.loads (m.fetchedCore bus).regs (m.nextOperand bus))
      (m.nextLoads bus).1 ++
    BusCall.writes (m.nextEffect bus).stores ++ i.operation.event?.toList.map .event ++
    [.executed (m.nextExecution bus)]

theorem toList_calls_executed (n : Machine (Recorded σ)) :
    (n.executed bus.recording).machine.env.calls.toList =
      n.env.calls.toList ++ n.nextCalls bus.recording := by
  have hexecuted (x : Execution) (r : Recorded σ) :
      (bus.recording.executed x r).calls.toList = r.calls.toList ++ [.executed x] := by
    simp [Bus.recording]
  rw [executed, hexecuted, Bus.toList_calls_learn, Bus.toList_calls_writeAll, nextLoads,
    Bus.toList_calls_readAll, nextFetch, Bus.toList_calls_readAll]
  simp only [nextCalls, nextLoads, nextFetch, List.append_assoc]

/-- Machines in step on equal cores make the same calls. -/
theorem Rel.nextCalls_eq {τ : Type} {R : σ → τ → Prop} {b₁ : Bus σ} {b₂ : Bus τ} {m : Machine σ}
    {n : Machine τ} (hb : b₁.Agree b₂ R) (h : m.Rel (· = ·) R n) :
    m.nextCalls b₁ = n.nextCalls b₂ := by
  simp only [nextCalls, h.core.regs, h.nextInstruction_eq hb, (h.nextFetch hb).1,
    h.regs_fetchedCore_eq hb, h.nextOperand_eq hb, (h.nextLoads hb).1, h.nextEffect_eq hb,
    (h.nextExecution .eq hb).eq]

variable {m : Machine σ}

theorem calls_step_of_isValid (hm : m.core.mode = .running) (hb : m.core.budget = 0)
    (hi : (m.nextInstruction bus).isValid = true) : m.calls bus [.step] = m.nextCalls bus := by
  have h := m.rel_recorded
  have hagree := bus.sim_recording.toAgree
  have hstep : m.recorded.step bus.recording = m.recorded.executed bus.recording :=
    (step_of_running _ (m := m.recorded) hm hb).trans
      (executeNext_of_isValid _ _ (h.nextInstruction_eq hagree ▸ hi))
  show (m.recorded.step bus.recording).machine.env.calls.toList = _
  rw [hstep, toList_calls_executed, h.nextCalls_eq hagree]
  rfl

theorem calls_step_of_not_isValid (hm : m.core.mode = .running) (hb : m.core.budget = 0)
    (hi : (m.nextInstruction bus).isValid = false) :
    m.calls bus [.step] =
      let opcode := (bus.read m.core.regs.pc m.env).1
      [.read m.core.regs.pc opcode, .event (.lockedUp opcode m.core.regs.pc)] := by
  have hagree := bus.sim_recording.toAgree
  have hstep : m.recorded.step bus.recording = m.recorded.lockedUp bus.recording :=
    (step_of_running _ (m := m.recorded) hm hb).trans
      (executeNext_of_not_isValid _ _ (m.rel_recorded.nextInstruction_eq hagree ▸ hi))
  show (m.recorded.step bus.recording).machine.env.calls.toList = _
  rw [hstep]
  rfl

/-- A step that does not fetch makes no calls. -/
theorem calls_step_of_not_fetching (h : m.core.mode ≠ .running ∨ m.core.budget ≠ 0) :
    m.calls bus [.step] = [] := by
  show (m.recorded.step bus.recording).machine.env.calls.toList = _
  have ht := m.recorded.tick_step bus.recording
  generalize m.recorded.step bus.recording = o at ht ⊢
  cases ht with
  | locked | busy | idle => rfl
  | executed hm hb _ | lockedUp hm hb _ => exact absurd h (not_or.2 ⟨not_not.2 hm, not_not.2 hb⟩)

/-- A step fetches exactly if the core runs and no ticks are in flight. -/
theorem hasFetched_step_iff :
    (m.step bus).result.hasFetched = true ↔ m.core.mode = .running ∧ m.core.budget = 0 := by
  have ht := m.tick_step bus
  generalize m.step bus = o at ht ⊢
  cases ht with
  | executed hm hb _ | lockedUp hm hb _ => exact iff_of_true rfl ⟨hm, hb⟩
  | locked hm =>
    refine iff_of_false Bool.false_ne_true ?_
    rintro ⟨hr, -⟩
    rw [hm] at hr
    cases hr
  | busy _ hb =>
    refine iff_of_false Bool.false_ne_true ?_
    rintro ⟨-, hz⟩
    rw [hb] at hz
    cases hz
  | idle hm _ =>
    refine iff_of_false Bool.false_ne_true ?_
    rintro ⟨hr, -⟩
    rw [hr] at hm
    cases hm

theorem calls_step_of_hasFetched_eq_false (h : (m.step bus).result.hasFetched = false) :
    m.calls bus [.step] = [] := by
  apply calls_step_of_not_fetching
  rw [← not_and_or, ← hasFetched_step_iff bus, h]
  exact Bool.false_ne_true

/-- A step that fetches reads at the program counter first. -/
theorem head?_calls_step_of_running (hm : m.core.mode = .running) (hb : m.core.budget = 0) :
    (m.calls bus [.step]).head? =
      some (.read m.core.regs.pc (bus.read m.core.regs.pc m.env).1) := by
  cases hi : (m.nextInstruction bus).isValid with
  | true =>
    obtain ⟨n, hn⟩ : ∃ n, (m.nextInstruction bus).length = n + 1 := by
      have := (m.nextInstruction bus).operation.opcodeBytes_pos
      refine Nat.exists_eq_succ_of_ne_zero ?_
      rw [length_nextInstruction, Operation.length]
      omega
    rw [calls_step_of_isValid bus hm hb hi]
    simp only [nextCalls, nextFetch, hn]
    rfl
  | false =>
    rw [calls_step_of_not_isValid bus hm hb hi]
    rfl

/-- Stepping until something happens makes the calls of one step of the drained machine. -/
theorem calls_stepInstruction (m : Machine σ) :
    m.calls bus [.stepInstruction] = m.drained.calls bus [.step] := by
  have hd : m.recorded.drained = m.drained.recorded :=
    (apply_ite recorded (m.core.mode.isLocked = true) m (m.setBudget 0)).symm
  show (m.recorded.stepInstruction bus.recording).machine.env.calls.toList = _
  rw [stepInstruction_eq, hd]
  rfl

/-- **A command that reports a step is one step.** Only the ticks in flight may differ from those of
the machine: stepping until something happens has used them up before. -/
theorem exists_command_eq_step {c : Command} {r : StepResult}
    (h : (m.command bus c).result = some r) :
    ∃ b, m.command bus c = (m.setBudget b).command bus .step ∧
      m.calls bus [c] = (m.setBudget b).calls bus [.step] := by
  cases c with
  | step =>
    refine ⟨m.core.budget, ?_⟩
    rw [setBudget_of_budget_eq rfl]
    exact ⟨rfl, rfl⟩
  | stepInstruction =>
    obtain ⟨b, hb⟩ : ∃ b, m.drained = m.setBudget b := by
      cases hl : m.core.mode.isLocked with
      | true => exact ⟨m.core.budget, drained_of_isLocked hl⟩
      | false => exact ⟨0, drained_of_not_isLocked hl⟩
    refine ⟨b, ?_, ?_⟩
    · simp only [command, stepInstruction_eq, hb]
    · rw [calls_stepInstruction, hb]
  | wake | reset | assign | setFlags | clearFlags => cases h

/-- A command that reports a step leaves the machine of that step and makes its calls. -/
theorem exists_step_of_command {c : Command} {r : StepResult}
    (h : (m.command bus c).result = some r) :
    ∃ b, ((m.setBudget b).step bus).result = r ∧
      (m.command bus c).machine = ((m.setBudget b).step bus).machine ∧
      m.calls bus [c] = (m.setBudget b).calls bus [.step] := by
  obtain ⟨b, hc, hcalls⟩ := exists_command_eq_step bus h
  rw [hc] at h
  exact ⟨b, Option.some_inj.1 h, congrArg Reply.machine hc, hcalls⟩

/-- A command that executed an instruction has made the calls of that instruction and no other,
whatever ticks were in flight before. -/
theorem calls_of_executed {c : Command} {x : Execution}
    (h : (m.command bus c).result = some (.ok (.executed x))) :
    m.calls bus [c] = (m.setBudget 0).nextCalls bus := by
  obtain ⟨b, hresult, -, hcalls⟩ := exists_step_of_command bus h
  obtain ⟨hm, hb, hi, -, -⟩ := executed_of_step bus hresult
  obtain rfl : b = 0 := hb
  rw [hcalls, calls_step_of_isValid bus hm rfl hi]

/-! ## The instructions in a journal -/

theorem filterMap_execution?_nextCalls (m : Machine σ) :
    (m.nextCalls bus).filterMap BusCall.execution? = [m.nextExecution bus] := by
  have hreads := BusCall.filterMap_reads (f := BusCall.execution?) fun _ _ => rfl
  have hwrites := BusCall.filterMap_writes (f := BusCall.execution?) fun _ _ => rfl
  have hevents (e : Option Event) :
      (e.toList.map BusCall.event).filterMap BusCall.execution? = [] := by
    cases e <;> rfl
  simp only [nextCalls, List.filterMap_append, hreads, hwrites, hevents, List.nil_append]
  rfl

theorem filterMap_execution?_calls_step (m : Machine σ) :
    (m.calls bus [.step]).filterMap BusCall.execution? =
      (m.step bus).result.execution?.toList := by
  have ht := m.tick_step bus
  generalize ho : m.step bus = o at ht ⊢
  cases ht with
  | locked | busy | idle =>
    rw [calls_step_of_hasFetched_eq_false bus (by rw [ho]; rfl)]
    rfl
  | executed hm hb hi =>
    rw [calls_step_of_isValid bus hm hb hi, filterMap_execution?_nextCalls]
    rfl
  | lockedUp hm hb hi =>
    rw [calls_step_of_not_isValid bus hm hb hi]
    rfl

/-- **The bus learns of the executed instructions**, of each as it is reported, and in order. -/
theorem filterMap_execution?_calls (cs : List Command) (m : Machine σ) :
    (m.calls bus cs).filterMap BusCall.execution? = m.executions bus cs := by
  induction cs generalizing m with
  | nil => rfl
  | cons c cs ih =>
    have hhead : (m.calls bus [c]).filterMap BusCall.execution? =
        (m.command bus c).execution?.toList := by
      cases c with
      | step => exact m.filterMap_execution?_calls_step bus
      | stepInstruction =>
        rw [calls_stepInstruction, filterMap_execution?_calls_step, ← stepInstruction_eq]
        rfl
      | wake | reset | assign | setFlags | clearFlags => rfl
    have hcons : m.executions bus (c :: cs) =
        (m.command bus c).execution?.toList ++ (m.command bus c).machine.executions bus cs := by
      show List.filterMap _ (_ :: _) = _
      rw [List.filterMap_cons]
      cases (m.command bus c).execution? <;> rfl
    rw [calls_cons, List.filterMap_append, hhead, ih, hcons]

end Machine

end Sm83
