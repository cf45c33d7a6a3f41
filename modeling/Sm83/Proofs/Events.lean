import Mathlib.Data.List.DropRight
import Sm83.Proofs.Journal

/-!
# What the events tell

A controller that hears the events of a core, and that knows when it has woken the core, can tell
whether the core takes interrupts, whether it runs or waits, and whether it is locked up, without
asking. The core changes its mode and its interrupt enable in response to events only, and waking
is the one change of mode that makes no event.

## Main definitions

* `Incident`: an event, or a wake
* `Incident.interruptRequests`, `Incident.waits`: the part of a history that decides
* `Machine.history`: the events and the wakes of a run, in order
* `Core.Follows`: the core is as a history tells

## Main results

* `Core.Follows.signal`, `Core.Follows.wake`: an event and a wake keep the core as its history tells
* `Machine.follows_command`, `Machine.follows_commands`: so do a command and a run
* `Machine.event_law`: what the events of a run tell, and which instructions make them
-/

namespace Sm83

variable {σ : Type}

/-! ## Histories -/

namespace Event

/-- Whether the event is about the interrupt enable. -/
def isInterruptRequest : Event → Bool
  | interruptsEnabled | interruptsDisabled => true
  | halted | stopped | lockedUp .. => false

/-- Whether the event makes the core wait. -/
def isWait : Event → Bool
  | halted | stopped => true
  | interruptsEnabled | interruptsDisabled | lockedUp .. => false

end Event

/-- What a controller knows of: an event that it hears, or that it wakes the core. -/
inductive Incident where
  | event (e : Event)
  /-- The core may not have waited: a wake counts all the same. -/
  | wake
  deriving DecidableEq

namespace Incident

def event? : Incident → Option Event
  | event e => some e
  | wake => none

/-- The events of a history. -/
def events (past : List Incident) : List Event := past.filterMap event?

/-- The events of a history after the last wake, or all of them if there was none. -/
def sinceWake (past : List Incident) : List Event := events (past.rtakeWhile (· != wake))

/-- The events that have enabled or disabled interrupts. -/
def interruptRequests (past : List Incident) : List Event :=
  (events past).filter Event.isInterruptRequest

/-- The events that have made the core wait after the last wake. -/
def waits (past : List Incident) : List Event := (sinceWake past).filter Event.isWait

variable (past : List Incident)

theorem events_append (later : List Incident) :
    events (past ++ later) = events past ++ events later := List.filterMap_append

theorem events_map_event (es : List Event) : events (es.map event) = es := by
  rw [events, List.filterMap_map]
  exact List.filterMap_some

@[simp] theorem events_concat_event (e : Event) : events (past ++ [event e]) = events past ++ [e] :=
  events_append past _

@[simp] theorem events_concat_wake : events (past ++ [wake]) = events past := by
  rw [events_append]
  exact List.append_nil _

@[simp] theorem sinceWake_concat_event (e : Event) :
    sinceWake (past ++ [event e]) = sinceWake past ++ [e] := by
  rw [sinceWake, List.rtakeWhile_concat_pos _ _ _ rfl, events_concat_event]
  rfl

@[simp] theorem sinceWake_concat_wake : sinceWake (past ++ [wake]) = [] := by
  rw [sinceWake, List.rtakeWhile_concat_neg _ _ _ (by decide)]
  rfl

@[simp] theorem interruptRequests_concat_wake :
    interruptRequests (past ++ [wake]) = interruptRequests past := by
  rw [interruptRequests, events_concat_wake, interruptRequests]

@[simp] theorem waits_concat_wake : waits (past ++ [wake]) = [] := by
  rw [waits, sinceWake_concat_wake, List.filter_nil]

@[simp] theorem interruptRequests_concat_event (e : Event) :
    interruptRequests (past ++ [event e]) =
      interruptRequests past ++ [e].filter Event.isInterruptRequest := by
  rw [interruptRequests, events_concat_event, List.filter_append, interruptRequests]

@[simp] theorem waits_concat_event (e : Event) :
    waits (past ++ [event e]) = waits past ++ [e].filter Event.isWait := by
  rw [waits, sinceWake_concat_event, List.filter_append, waits]

end Incident

open Incident

/-! ## Cores -/

namespace Core

/-- **The core is as its history tells.** -/
structure Follows (c : Core) (past : List Incident) : Prop where
  interrupts : c.interrupts = true ↔ (interruptRequests past).getLast? = some .interruptsEnabled
  locked : ∀ opcode addr, c.mode = .locked opcode addr ↔ .lockedUp opcode addr ∈ events past
  halted : c.mode.isLocked = false → (c.mode = .halted ↔ (waits past).getLast? = some .halted)
  stopped : c.mode.isLocked = false → (c.mode = .stopped ↔ (waits past).getLast? = some .stopped)
  running : c.mode.isLocked = false → (c.mode = .running ↔ waits past = [])

theorem follows_nil {c : Core} (hm : c.mode = .running) (hi : c.interrupts = false) :
    c.Follows [] where
  interrupts := by simp [hi, interruptRequests, events]
  locked := by simp [hm, events]
  halted := by simp [hm, waits, sinceWake, events]
  stopped := by simp [hm, waits, sinceWake, events]
  running := by simp [hm, waits, sinceWake, events]

namespace Follows

variable {c : Core} {past : List Incident}

/-- Only the mode and the interrupt enable matter. -/
theorem congr {d : Core} (h : c.Follows past) (hm : d.mode = c.mode)
    (hi : d.interrupts = c.interrupts) : d.Follows past := by
  obtain ⟨interrupts, locked, halted, stopped, running⟩ := h
  rw [← hi] at interrupts
  rw [← hm] at locked halted stopped running
  exact ⟨interrupts, locked, halted, stopped, running⟩

theorem lockedUp_not_mem_events (h : c.Follows past) (hl : c.mode.isLocked = false)
    (opcode : UInt8) (addr : UInt16) : .lockedUp opcode addr ∉ events past := by
  intro hmem
  rw [(h.locked opcode addr).2 hmem] at hl
  cases hl

/-- **An event keeps the core as its history tells.** -/
theorem signal (h : c.Follows past) (hl : c.mode.isLocked = false) (e : Event) :
    (c.signal e).1.Follows (past ++ [.event e]) := by
  have hnew := h.lockedUp_not_mem_events hl
  cases e with
  | interruptsEnabled | interruptsDisabled =>
    exact
      { interrupts := by simp [Core.signal, setInterrupts, Event.isInterruptRequest]
        locked := by simpa [Core.signal, setInterrupts] using h.locked
        halted := by simpa [Core.signal, setInterrupts, Event.isWait] using h.halted
        stopped := by simpa [Core.signal, setInterrupts, Event.isWait] using h.stopped
        running := by simpa [Core.signal, setInterrupts, Event.isWait] using h.running }
  | halted | stopped =>
    exact
      { interrupts := by simpa [Core.signal, Event.isInterruptRequest] using h.interrupts
        locked := by simpa [Core.signal] using hnew
        halted := by simp [Core.signal, Event.isWait]
        stopped := by simp [Core.signal, Event.isWait]
        running := by simp [Core.signal, Event.isWait] }
  | lockedUp opcode addr =>
    have hlocked : (c.signal (.lockedUp opcode addr)).1.mode.isLocked ≠ false := Bool.noConfusion
    exact
      { interrupts := by simpa [Core.signal, Event.isInterruptRequest] using h.interrupts
        locked := by simp [Core.signal, hnew, eq_comm]
        halted := fun hl => absurd hl hlocked
        stopped := fun hl => absurd hl hlocked
        running := fun hl => absurd hl hlocked }

theorem respond (h : c.Follows past) (hl : c.mode.isLocked = false) (e : Option Event) :
    (c.respond e).1.Follows (past ++ e.toList.map .event) := by
  cases e with
  | none =>
    rw [Option.toList_none, List.map_nil, List.append_nil]
    exact h
  | some e => exact h.signal hl e

/-- **A wake keeps the core as its history tells**, whether it waited or not. -/
theorem wake (h : c.Follows past) : c.wake.1.Follows (past ++ [.wake]) := by
  cases hw : c.mode.isWaiting with
  | true =>
    -- The core waited, so it was not locked up, and no lock-up is in its history.
    have hnew := h.lockedUp_not_mem_events (Mode.isLocked_of_isWaiting hw)
    rw [wake_of_isWaiting hw]
    exact
      { interrupts := by simpa using h.interrupts
        locked := by simpa using hnew
        halted := by simp
        stopped := by simp
        running := by simp }
  | false =>
    rw [wake_of_not_isWaiting hw]
    have hrunning := Mode.eq_running hw
    exact
      { interrupts := by simpa using h.interrupts
        locked := by simpa using h.locked
        halted := fun hl => by simp [hrunning hl]
        stopped := fun hl => by simp [hrunning hl]
        running := fun hl => by simp [hrunning hl] }

end Follows

end Core

/-! ## Machines -/

namespace Machine

variable (bus : Bus σ)

/-- The events that the bus hears of while a command is carried out. -/
def heard (c : Command) (m : Machine σ) : List Event :=
  (m.calls bus [c]).filterMap BusCall.event?

/-- What a command adds to the history: itself if it is a wake, and the events that it makes. -/
def incidents (c : Command) (m : Machine σ) : List Incident :=
  (if c = .wake then [.wake] else []) ++ (m.heard bus c).map .event

/-- The events and the wakes of a run, in order. -/
def history : List Command → Machine σ → List Incident
  | [], _ => []
  | c :: rest, m => m.incidents bus c ++ (m.command bus c).machine.history rest

theorem events_incidents (c : Command) (m : Machine σ) :
    events (m.incidents bus c) = m.heard bus c := by
  rw [incidents, events_append, events_map_event]
  split <;> rfl

/-- The events of the history of a run are those in its journal. -/
theorem events_history (cs : List Command) (m : Machine σ) :
    events (m.history bus cs) = (m.calls bus cs).filterMap BusCall.event? := by
  induction cs generalizing m with
  | nil => rfl
  | cons c cs ih =>
    rw [history, events_append, events_incidents, ih, calls_cons, List.filterMap_append, heard]

/-! ### Steps -/

theorem filterMap_event?_nextCalls (m : Machine σ) :
    (m.nextCalls bus).filterMap BusCall.event? =
      (m.nextInstruction bus).operation.event?.toList := by
  have hreads := BusCall.filterMap_reads (f := BusCall.event?) fun _ _ => rfl
  have hwrites := BusCall.filterMap_writes (f := BusCall.event?) fun _ _ => rfl
  have hevents (e : Option Event) :
      (e.toList.map BusCall.event).filterMap BusCall.event? = e.toList := by
    cases e <;> rfl
  simp only [nextCalls, List.filterMap_append, hreads, hwrites, hevents, List.nil_append]
  exact List.append_nil _

/-- **An executed instruction makes the event of its operation and no other.** -/
theorem heard_of_executed {m : Machine σ} {c : Command} {x : Execution}
    (h : (m.command bus c).result = some (.ok (.executed x))) :
    m.heard bus c = x.instruction.operation.event?.toList := by
  obtain ⟨-, -, rfl, -⟩ := executed_of_command bus h
  rw [heard, calls_of_executed bus h]
  exact filterMap_event?_nextCalls bus (m.setBudget 0)

/-- **One step keeps the core as its history tells.** -/
theorem follows_step {m : Machine σ} {past : List Incident} (h : m.core.Follows past) :
    (m.step bus).machine.core.Follows (past ++ (m.heard bus .step).map .event) := by
  have ht := m.tick_step bus
  generalize ho : m.step bus = o at ht ⊢
  cases ht with
  | locked | busy | idle =>
    rw [heard, calls_step_of_hasFetched_eq_false bus (by rw [ho]; rfl)]
    simp only [List.filterMap_nil, List.map_nil, List.append_nil]
    exact h.congr rfl rfl
  | executed hm hb hi =>
    rw [heard, calls_step_of_isValid bus hm hb hi, filterMap_event?_nextCalls]
    -- The fetch moves the program counter and leaves the mode and the interrupt enable alone.
    obtain ⟨hmode, hinterrupts⟩ : (m.fetchedCore bus).mode = m.core.mode ∧
        (m.fetchedCore bus).interrupts = m.core.interrupts := by
      rw [fetchedCore, Core.fetchAll_eq]
      exact ⟨rfl, rfl⟩
    have hready : ({ m.fetchedCore bus with
        regs := (m.nextEffect bus).regs, budget := m.nextTicks bus } : Core).Follows past :=
      h.congr hmode hinterrupts
    refine hready.respond ?_ _
    show (m.fetchedCore bus).mode.isLocked = false
    rw [hmode, hm]
    rfl
  | lockedUp hm hb hi =>
    rw [heard, calls_step_of_not_isValid bus hm hb hi]
    have hl : m.core.mode.isLocked = false := by rw [hm]; rfl
    exact (h.signal hl (.lockedUp _ _)).congr rfl rfl

/-- **One command keeps the core as its history tells**, unless it is a reset. -/
theorem follows_command {m : Machine σ} {past : List Incident} (h : m.core.Follows past)
    {c : Command} (hc : c ≠ .reset) :
    (m.command bus c).machine.core.Follows (past ++ m.incidents bus c) := by
  -- A command that reports something is a step, and makes the events of that step.
  cases hr : (m.command bus c).result with
  | some r =>
    have hwake : c ≠ .wake := by
      rintro rfl
      cases hr
    obtain ⟨b, -, hmachine, hcalls⟩ := exists_step_of_command bus hr
    have hb : (m.setBudget b).core.Follows past := h.congr rfl rfl
    rw [incidents, if_neg hwake, List.nil_append, heard, hcalls, hmachine]
    exact follows_step bus hb
  | none =>
    cases c with
    | wake => exact h.wake
    | assign | setFlags | clearFlags =>
      show Core.Follows _ (past ++ [])
      rw [List.append_nil]
      exact h.congr rfl rfl
    | reset => exact absurd rfl hc
    | step | stepInstruction => cases hr

/-- **A run keeps the core as its history tells.** -/
theorem follows_commands {cs : List Command} (hcs : ∀ c ∈ cs, c ≠ .reset) {m : Machine σ}
    {past : List Incident} (h : m.core.Follows past) :
    (m.commands bus cs).2.core.Follows (past ++ m.history bus cs) := by
  induction cs generalizing m past with
  | nil =>
    rw [history, List.append_nil]
    exact h
  | cons c cs ih =>
    obtain ⟨hc, hrest⟩ := List.forall_mem_cons.1 hcs
    rw [history, ← List.append_assoc]
    exact ih hrest (follows_command bus h hc)

/-- **The law of events.** From power-on or a reset on, whatever the bus, and whatever is done to
the core but another reset, the events that the bus hears tell the truth about the core. Interrupts
are enabled exactly if the last event about them says so; the core is locked up exactly if an event
has told of this lock-up; and otherwise it waits as the last event after the last wake says, or runs
if there was none. An executed instruction makes the one event of its operation, whether it changes
anything or not, or none. -/
theorem event_law {m : Machine σ}
    (hm : (∃ config, m.core = .powerOn config) ∨ ∃ core : Core, m.core = core.reset)
    {cs : List Command} (hcs : ∀ c ∈ cs, c ≠ .reset) :
    events (m.history bus cs) = (m.calls bus cs).filterMap BusCall.event? ∧
      (m.commands bus cs).2.core.Follows (m.history bus cs) ∧
      ∀ (n : Machine σ) (c : Command) (x : Execution),
        (n.command bus c).result = some (.ok (.executed x)) →
        (n.calls bus [c]).filterMap BusCall.event? = x.instruction.operation.event?.toList := by
  refine ⟨events_history bus cs m, ?_, fun n c x => heard_of_executed bus⟩
  have hstart : m.core.Follows [] := by
    rcases hm with ⟨config, hc⟩ | ⟨core, hc⟩ <;> rw [hc] <;> exact Core.follows_nil rfl rfl
  exact follows_commands bus hcs hstart

/-- EI, a wake that finds the core running, and HALT behind it. -/
theorem event_law_halt :
    let bus := Bus.rom [0xFB, 0x76]
    let m : Machine Unit := ⟨.powerOn ⟨.zeroed, none⟩, ()⟩
    let cs : List Command := [.step, .wake, .step, .step, .step, .step, .step]
    let core := (m.commands bus cs).2.core
    let x : Execution := ⟨0, ⟨#v[0xFB, 0, 0], 1⟩, lookup 0xFB⟩
    (∀ c ∈ cs, c ≠ .reset) ∧
      m.history bus cs = [.event .interruptsEnabled, .wake, .event .halted] ∧
      core.interrupts = true ∧ core.mode = .halted ∧
      (∀ opcode addr, core.mode ≠ .locked opcode addr) ∧
      (m.command bus .step).result = some (.ok (.executed x)) ∧
      (m.calls bus [.step]).filterMap BusCall.event? = [.interruptsEnabled] := by
  intro bus m cs core x
  have hcs : ∀ c ∈ cs, c ≠ .reset := by decide
  have hpast : m.history bus cs = [.event .interruptsEnabled, .wake, .event .halted] := by
    decide +kernel
  have hx : (m.command bus .step).result = some (.ok (.executed x)) :=
    Reply.execution?_eq_some.1 (by decide +kernel)
  obtain ⟨-, hfollows, hmakes⟩ := event_law bus (m := m) (.inl ⟨_, rfl⟩) hcs
  rw [hpast] at hfollows
  have hunlocked : ∀ opcode addr, core.mode ≠ .locked opcode addr := by
    intro opcode addr hl
    have hmem := (hfollows.locked opcode addr).1 hl
    simp [events, Incident.event?] at hmem
  have hl : core.mode.isLocked = false := by
    cases hmode : core.mode with
    | running | halted | stopped => rfl
    | locked opcode addr => exact absurd hmode (hunlocked opcode addr)
  refine ⟨hcs, hpast, ?_, ?_, hunlocked, hx, ?_⟩
  · exact hfollows.interrupts.2 (by decide)
  · exact (hfollows.halted hl).2 (by decide)
  · rw [hmakes m .step x hx]
    decide +kernel

end Machine

end Sm83
