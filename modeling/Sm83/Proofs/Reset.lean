import Sm83.Proofs.Journal
import Sm83.Proofs.Reachable

/-!
# What a reset forgets

A reset does not clear the slots of the fetch record, so a core that has been reset need not be the
core at power-on. The slots that belong to no instruction are private to the record: an executed
instruction shows its address, its table entry, its bytes and what is made of these. As far as this
can be seen, the core that has been reset is the core at power-on, now and ever after. But executed
instructions can be compared with each other, and two are equal only if their slots are: a bus that
compares what it is shown can tell the two cores apart.

## Main definitions

* `Execution.View`, `Execution.view`: what can be seen of an executed instruction
* `Core.view`, `Reply.view`, `BusCall.view`: what can be seen of a core, a reply and a call
* `Bus.viewing`: a bus that learns what can be seen of an executed instruction
* `Bus.comparing`: a bus that compares the instructions it is shown with a given one
* `FetchRecord.SameBytes`: records of the same bytes

## Main results

* `FetchRecord.SameBytes.isCongruence`: fetching keeps records of the same bytes alike
* `Machine.observations_reset`: a core that has been reset cannot be told from one at power-on by
  what its instructions show
* `Machine.executions_comparing_ne`: it can by a bus that compares them
-/

namespace Sm83

variable {σ : Type}

/-! ## What can be seen -/

/-- What can be seen of an executed instruction. -/
structure Execution.View where
  addr : UInt16
  bytes : List UInt8
  operands : List UInt8
  instruction : Instruction
  text : String

def Execution.view (x : Execution) : View := ⟨x.addr, x.bytes, x.operands, x.instruction, x.text⟩

/-- What can be seen of the report of a step: all of it, but of an executed instruction no more than
its view. -/
def StepResult.view : StepResult → StepResult ⊕ Execution.View
  | .ok (.executed x) => .inr x.view
  | r => .inl r

/-- What can be seen of a core: everything but the bytes fetched. -/
def Core.view (c : Core) : Core := { c with fetched := {} }

/-- What can be seen of a reply: the report, the core and the bus after it, and the lines of the log
with their levels. -/
structure Reply.View (σ : Type) where
  result : Option (StepResult ⊕ Execution.View)
  core : Core
  env : σ
  log : List (Level × String)

def Reply.view (r : Reply σ) : View σ where
  result := r.result.map StepResult.view
  core := r.machine.core.view
  env := r.machine.env
  log := r.log.map fun e => (e.level, e.line)

/-- What can be seen of a call to the bus. -/
def BusCall.view : BusCall → BusCall ⊕ Execution.View
  | executed x => .inr x.view
  | c => .inl c

/-- The same state of a bus, and journals in which the same calls can be seen. -/
def Recorded.LooksLike (r q : Recorded σ) : Prop :=
  r.inner = q.inner ∧ r.calls.toList.map BusCall.view = q.calls.toList.map BusCall.view

/-- The bus that learns what can be seen of an executed instruction. A bus that is handed the record
with all its slots can compare it with another one, and so find there what the core has fetched
before the reset. -/
def Bus.viewing (bus : Bus σ) (look : Execution.View → σ → σ) : Bus σ :=
  { bus with executed := fun x => look x.view }

/-! ## Records of the same bytes -/

/-- Records of the same bytes; the slots that belong to no instruction may differ. -/
structure FetchRecord.SameBytes (r s : FetchRecord) : Prop where
  count : r.count = s.count
  bytes : r.bytes = s.bytes

/-- Fetching starts at the first slot and overwrites a slot before it counts it, so it never brings
to light what a slot has held before. -/
theorem FetchRecord.SameBytes.isCongruence : IsCongruence SameBytes where
  restart _ := ⟨rfl, rfl⟩
  push {r s} h b := by
    by_cases hr : r.count < 3
    · have hs : s.count < 3 := h.count ▸ hr
      refine ⟨?_, ?_⟩
      · rw [count_push b hr, count_push b hs, h.count]
      · rw [bytes_push b hr, bytes_push b hs, h.bytes]
    · -- No slot is left in either record, so the byte is recorded in neither.
      have hs : ¬s.count < 3 := h.count ▸ hr
      rw [push, push, dif_neg hr, dif_neg hs]
      exact h

/-! ## What machines in step show -/

section

open FetchRecord (SameBytes)

/-- What an executed instruction shows is made of its address, its bytes and its table entry. -/
theorem Execution.view_eq_of_bytes {x y : Execution} (haddr : x.addr = y.addr)
    (hbytes : x.bytes = y.bytes) (hinstruction : x.instruction = y.instruction) :
    x.view = y.view := by
  have hoperands : x.operands = y.operands := by rw [operands, operands, hbytes]
  simp only [view, text, haddr, hbytes, hinstruction, hoperands]

theorem Execution.Rel.view_eq {x y : Execution} (h : x.Rel SameBytes y) : x.view = y.view :=
  view_eq_of_bytes h.addr h.record.bytes h.instruction

theorem StepResult.Rel.view_eq {r q : StepResult} (h : r.Rel SameBytes q) : r.view = q.view := by
  cases h with
  | executed hx => exact congrArg Sum.inr hx.view_eq
  | busy | idle | error => rfl

theorem Entry.Rel.line_eq {d e : Entry} (h : d.Rel SameBytes e) :
    (d.level, d.line) = (e.level, e.line) := by
  cases h with
  | same => rfl
  | @executed x y hx =>
    have htext : x.text = y.text := congrArg Execution.View.text hx.view_eq
    exact congrArg (fun t => (Level.trace, Level.trace.text ++ " " ++ t)) htext

theorem Core.Rel.view_eq {c d : Core} (h : c.Rel SameBytes d) : c.view = d.view := by
  simp only [view, h.regs, h.budget, h.mode, h.interrupts, h.config]

theorem Reply.Rel.view_eq {alike : Prop} {r q : Reply σ} (h : r.Rel SameBytes (· = ·) alike q)
    (ha : alike) : r.view = q.view := by
  have hresult : r.result.map StepResult.view = q.result.map StepResult.view :=
    h.map_result StepResult.Rel.view_eq
  have hlog : (r.log.map fun e => (e.level, e.line)) = q.log.map fun e => (e.level, e.line) :=
    map_eq_map_of_forall₂ ((h.log ha).imp fun _ _ he => he.line_eq)
  simp only [view, hresult, h.machine.core.view_eq, h.machine.env, hlog]

end

/-- Journals in which the same calls can be seen, after one more call. -/
theorem Recorded.LooksLike.push {r q : Recorded σ} (h : r.LooksLike q) {s t : σ} {c d : BusCall}
    (hs : s = t) (hc : c.view = d.view) :
    LooksLike ⟨s, r.calls.push c⟩ ⟨t, q.calls.push d⟩ := by
  refine ⟨hs, ?_⟩
  simp only [Array.toList_push, List.map_append, List.map_singleton, h.2, hc]

namespace Bus

variable (bus : Bus σ) (look : Execution.View → σ → σ)

/-- A bus that learns only what can be seen of an instruction is in step with itself. -/
theorem sim_viewing :
    (bus.viewing look).Sim FetchRecord.SameBytes (bus.viewing look) (· = ·) where
  value h _ := by rw [h]
  read h _ := by rw [h]
  write h _ _ := by rw [h]
  notify h _ := by rw [h]
  executed h _ _ hx := by simp only [viewing, hx.view_eq, h]

/-- Its journals show the same calls. -/
theorem sim_recording_viewing :
    (bus.viewing look).recording.Sim FetchRecord.SameBytes (bus.viewing look).recording
      Recorded.LooksLike where
  value h _ := by simp only [recording, h.1]
  read h _ := h.push (by rw [h.1]) (by rw [h.1])
  write h _ _ := h.push (by rw [h.1]) rfl
  notify h _ := h.push (by rw [h.1]) rfl
  executed h _ _ hx :=
    h.push (by simp only [viewing, hx.view_eq, h.1]) (congrArg Sum.inr hx.view_eq)

end Bus

/-! ## Reset and power-on -/

/-- The core after a reset differs from the core at power-on in slots that belong to no
instruction. -/
theorem Core.rel_reset (c : Core) : c.reset.Rel FetchRecord.SameBytes (powerOn c.config) where
  regs := rfl
  budget := rfl
  mode := rfl
  interrupts := rfl
  config := rfl
  fetched := ⟨rfl, rfl⟩

/-- The core after a reset is the core at power-on exactly if every slot is zero. -/
theorem Core.reset_eq_powerOn_iff (c : Core) :
    c.reset = powerOn c.config ↔ c.fetched.slots = .replicate 3 0 := by
  constructor
  · exact fun h => congrArg (fun d => d.fetched.slots) h
  · intro h
    have hfetched : c.fetched.restart = {} := by rw [FetchRecord.restart, h]
    rw [reset, hfetched]
    rfl

/-- **A reset forgets everything that can be seen.** Whatever state a core was in, after a reset it
cannot be told from a core that has just been powered on with the same configuration by any bus that
learns what can be seen of the executed instructions: the same commands get the same replies, make
the same calls and log the same lines. The two cores are the same value exactly if every slot of the
fetch record is zero, so that no bus at all can then tell them apart. -/
theorem Machine.observations_reset (bus : Bus σ) (look : Execution.View → σ → σ) (c : Core)
    (env : σ) (cs : List Command) :
    let used : Machine σ := ⟨c.reset, env⟩
    let fresh : Machine σ := ⟨.powerOn c.config, env⟩
    used.core.view = fresh.core.view ∧
      (used.commands (bus.viewing look) cs).1.map Reply.view =
        (fresh.commands (bus.viewing look) cs).1.map Reply.view ∧
      (used.calls (bus.viewing look) cs).map BusCall.view =
        (fresh.calls (bus.viewing look) cs).map BusCall.view ∧
      (used = fresh ↔ c.fetched.slots = .replicate 3 0) := by
  intro used fresh
  have hS := FetchRecord.SameBytes.isCongruence
  have h : used.Rel FetchRecord.SameBytes (· = ·) fresh := ⟨c.rel_reset, rfl⟩
  have hrecorded : used.recorded.Rel FetchRecord.SameBytes Recorded.LooksLike fresh.recorded :=
    ⟨c.rel_reset, rfl, rfl⟩
  refine ⟨c.rel_reset.view_eq, ?_, ?_, ?_⟩
  · obtain ⟨hreplies, -⟩ := h.commands hS (bus.sim_viewing look) cs
    exact map_eq_map_of_forall₂ (hreplies.imp fun _ _ hr => hr.view_eq rfl)
  · exact (hrecorded.commands hS (bus.sim_recording_viewing look) cs).2.env.2
  · rw [← c.reset_eq_powerOn_iff, Machine.mk.injEq, eq_self, and_true]

/-! ## A bus that can tell -/

/-- The bus that compares each executed instruction with a given one, slots and all, and reads as
NOPs while the last was the same and as HALTs when it was not. -/
def Bus.comparing (x : Execution) : Bus Bool where
  read _ same := (if same then 0x00 else 0x76, same)
  write _ _ same := same
  executed y _ := decide (y = x)

/-- **A bus that compares instructions can tell** a core that has been reset from one at power-on. A
program has loaded BC with an immediate word, whose bytes stay in their slots. After the reset the
core executes a NOP at address zero that is not the NOP that a core at power-on executes there, and
where the one goes on with another NOP, the other finds a HALT. -/
theorem Machine.executions_comparing_ne :
    let config : Config := ⟨.zeroed, none⟩
    let rom := Bus.rom [0x01, 0x34, 0x12]
    let core := ((Machine.mk (.powerOn config) ()).commands rom [.stepInstruction]).2.core
    let bus := Bus.comparing ⟨0, ⟨#v[0x00, 0x00, 0x00], 1⟩, lookup 0x00⟩
    let used : Machine Bool := ⟨core.reset, true⟩
    let fresh : Machine Bool := ⟨.powerOn core.config, true⟩
    let cs : List Command := [.stepInstruction, .stepInstruction]
    core.Reachable config ∧
      (used.executions bus cs).map Execution.bytes = [[0x00], [0x76]] ∧
      (fresh.executions bus cs).map Execution.bytes = [[0x00], [0x00]] ∧
      (used.commands bus cs).1.map Reply.view ≠ (fresh.commands bus cs).1.map Reply.view := by
  intro config rom core bus used fresh cs
  have hreachable : core.Reachable config :=
    Core.Reachable.commands rom [.stepInstruction] () .powerOn
  refine ⟨hreachable, by decide +kernel, by decide +kernel, fun h => ?_⟩
  -- The one core waits in the end, and the other does not.
  have hmodes := congrArg (List.map fun reply => reply.core.mode) h
  rw [List.map_map, List.map_map] at hmodes
  exact absurd hmodes (by decide +kernel)

end Sm83
