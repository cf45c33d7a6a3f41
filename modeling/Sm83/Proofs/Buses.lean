import Sm83.Host.Basic
import Sm83.Proofs.Journal
import Sm83.Proofs.Ticks

/-!
# One machine on different buses

All that a core learns from its bus is what it reads. So it does the same on any two buses that
answer its reads alike, whatever else they keep and whatever they do on hearing of events and of
executed instructions. Memory by itself, two functions that read and write a memory, and the host
are such buses; the host counts on the side what the core executes, and keeps what it announces.

## Main definitions

* `Memory.Accessed`: functions that read and write the memory that a state holds
* `Reply.point`: a reply as it is told apart by results, cores and memories
* `Host.Follows`: a host that has counted and kept what a journal holds

## Main results

* `Machine.Rel.commands_eq`: machines on buses that agree get the same results
* `Machine.points_eq`: so they do on any bus that holds a memory
* `Machine.host_law`: what the host has counted and kept after a run
* `Machine.bus_law`: a core sees its bus through the values it reads only
-/

namespace Sm83

variable {σ τ : Type}

/-! ## Buses that agree -/

theorem Reply.Rel.result_eq {R : σ → τ → Prop} {alike : Prop} {r : Reply σ} {q : Reply τ}
    (h : r.Rel (· = ·) R alike q) : r.result = q.result := by
  have hmap : r.result.map id = q.result.map id := h.map_result fun h => h.eq
  simpa only [Option.map_id_fun, id] using hmap

/-- **Machines on buses that agree get the same results**, and their cores stay equal. -/
theorem Machine.Rel.commands_eq {b₁ : Bus σ} {b₂ : Bus τ} {R : σ → τ → Prop} {m : Machine σ}
    {n : Machine τ} (hb : b₁.Sim (· = ·) b₂ R) (h : m.Rel (· = ·) R n) (cs : List Command) :
    List.Forall₂
        (fun r q => r.result = q.result ∧ r.machine.core = q.machine.core ∧
          R r.machine.env q.machine.env)
        (m.commands b₁ cs).1 (n.commands b₂ cs).1 ∧
      (m.commands b₁ cs).2.core = (n.commands b₂ cs).2.core ∧
      R (m.commands b₁ cs).2.env (n.commands b₂ cs).2.env := by
  obtain ⟨hreplies, hlast⟩ := h.commands .eq hb cs
  refine ⟨hreplies.imp fun _ _ hr => ?_, hlast.core.eq, hlast.env⟩
  exact ⟨hr.result_eq, hr.machine.core.eq, hr.machine.env⟩

/-! ## Buses that hold a memory -/

/-- Functions that read and write the memory that a state holds. -/
structure Memory.Accessed (held : σ → Memory) (read : UInt16 → σ → UInt8 × σ)
    (write : UInt16 → UInt8 → σ → σ) : Prop where
  value (addr : UInt16) (s : σ) : (read addr s).1 = (held s).get addr
  read (addr : UInt16) (s : σ) : held (read addr s).2 = held s
  write (addr : UInt16) (v : UInt8) (s : σ) : held (write addr v s) = (held s).set addr v

/-- A reply as it is told apart by its result, the core and the memory. -/
def Reply.point (held : σ → Memory) (r : Reply σ) : Option StepResult × Core × Memory :=
  (r.result, r.machine.core, held r.machine.env)

theorem Memory.Accessed.sim {held : σ → Memory} {read : UInt16 → σ → UInt8 × σ}
    {write : UInt16 → UInt8 → σ → σ} (h : Memory.Accessed held read write) :
    Memory.bus.Sim (· = ·) (.ofFunctions read write) fun memory s => held s = memory where
  value hs addr := hs ▸ (h.value addr _).symm
  read hs addr := (h.read addr _).trans hs
  write hs addr v := hs ▸ h.write addr v _
  notify hs _ := hs
  executed hs _ _ _ := hs

theorem Host.sim : Memory.bus.Sim (· = ·) Host.bus fun memory host => host.memory = memory where
  value h _ := by rw [← h]; rfl
  read h _ := h
  write h _ _ := by rw [← h]; rfl
  notify h _ := h
  executed h _ _ _ := h

/-- **On any bus that holds a memory** the core does what it does on the memory itself. -/
theorem Machine.points_eq {bus : Bus σ} {held : σ → Memory}
    (hb : Memory.bus.Sim (· = ·) bus fun memory s => held s = memory) (core : Core) (s : σ)
    (cs : List Command) :
    (Machine.commands bus cs ⟨core, s⟩).1.map (Reply.point held) =
        (Machine.commands Memory.bus cs ⟨core, held s⟩).1.map (Reply.point id) ∧
      held (Machine.commands bus cs ⟨core, s⟩).2.env =
        (Machine.commands Memory.bus cs ⟨core, held s⟩).2.env := by
  have h : Machine.Rel (· = ·) (fun memory s => held s = memory) ⟨core, held s⟩ ⟨core, s⟩ :=
    ⟨.refl core, rfl⟩
  obtain ⟨hreplies, -, hlast⟩ := h.commands_eq hb cs
  refine ⟨?_, hlast⟩
  refine map_eq_map_of_forall₂ (hreplies.flip.imp fun r q ⟨hresult, hcore, hheld⟩ => ?_)
  rw [Reply.point, Reply.point, hresult, hcore, hheld]
  rfl

/-! ## The host -/

/-- The host has counted and kept what the journal holds, from where it started. -/
structure Host.Follows (start : Host) (r : Recorded Memory) (h : Host) : Prop where
  memory : h.memory = r.inner
  instructions :
    h.instructions = start.instructions + (r.calls.toList.filterMap BusCall.execution?).length
  events : h.events.toList = start.events.toList ++ r.calls.toList.filterMap BusCall.event?

theorem filterMap_toList_push {α β : Type} (f : α → Option β) (xs : Array α) (x : α) :
    (xs.push x).toList.filterMap f = xs.toList.filterMap f ++ (f x).toList := by
  rw [Array.toList_push, List.filterMap_append, List.filterMap_cons]
  cases f x <;> rfl

/-- A host follows one more call by counting it if it is an executed instruction, and by keeping its
event if it has one. -/
theorem Host.Follows.push {start h g : Host} {r : Recorded Memory} (hf : start.Follows r h)
    {c : BusCall} {memory : Memory} (hm : g.memory = memory)
    (hi : g.instructions = h.instructions + c.execution?.toList.length)
    (he : g.events.toList = h.events.toList ++ c.event?.toList) :
    start.Follows ⟨memory, r.calls.push c⟩ g where
  memory := hm
  instructions := by
    rw [hi, hf.instructions, filterMap_toList_push, List.length_append, Nat.add_assoc]
  events := by
    rw [he, hf.events, filterMap_toList_push, List.append_assoc]

/-- The host is in step with memory that keeps a journal. -/
theorem Host.sim_recording (start : Host) :
    Memory.bus.recording.Sim (· = ·) Host.bus start.Follows where
  value h _ := by simp only [Host.bus, h.memory]; rfl
  read h _ := h.push h.memory rfl (List.append_nil _).symm
  write h addr v := h.push (congrArg (Memory.set · addr v) h.memory) rfl (List.append_nil _).symm
  notify h _ := h.push h.memory rfl Array.toList_push
  executed h _ _ hx := hx.eq ▸ h.push h.memory rfl (List.append_nil _).symm

theorem Reply.isSome_execution? (r : Reply σ) : r.execution?.isSome = r.isExecuted := by
  obtain ⟨result, machine, log⟩ := r
  rcases result with _ | _ | (_ | _ | _) <;> rfl

/-- **What the host has counted and kept** after a run. -/
theorem Machine.host_law (core : Core) (host : Host) (cs : List Command) :
    let after := (Machine.commands Host.bus cs ⟨core, host⟩).2.env
    let flat : Machine Memory := ⟨core, host.memory⟩
    after.instructions =
        host.instructions + (flat.commands Memory.bus cs).1.countP Reply.isExecuted ∧
      after.events.toList =
        host.events.toList ++ (flat.calls Memory.bus cs).filterMap BusCall.event? := by
  intro after flat
  have h : flat.recorded.Rel (· = ·) host.Follows ⟨core, host⟩ :=
    ⟨.refl core, ⟨rfl, rfl, (List.append_nil _).symm⟩⟩
  have hlast := (h.commands .eq host.sim_recording cs).2.env
  -- The journal holds one entry for each executed instruction, and so do the replies.
  have hcount : (flat.executions Memory.bus cs).length =
      (flat.commands Memory.bus cs).1.countP Reply.isExecuted := by
    rw [executions, List.length_filterMap_eq_countP]
    simp only [Reply.isSome_execution?]
  refine ⟨?_, hlast.events⟩
  rw [← hcount, ← filterMap_execution?_calls]
  exact hlast.instructions

/-! ## The law of buses -/

/-- **A core sees its bus only through the values it reads.** On two buses that agree on these along
a relation that every call keeps, any commands get the same results, the cores are equal after each
of them, and the buses end up related. So the core does the same on memory, on functions that read
and write a memory, and on the host, which counts the executed instructions and keeps the events
announced, in order. -/
theorem Machine.bus_law (core : Core) (cs : List Command) :
    (∀ {σ τ : Type} {b₁ : Bus σ} {b₂ : Bus τ} {R : σ → τ → Prop}, b₁.Agree b₂ R →
      (∀ {s t}, R s t → ∀ x, R (b₁.executed x s) (b₂.executed x t)) →
      ∀ {s t}, R s t →
        let first := Machine.commands b₁ cs ⟨core, s⟩
        let second := Machine.commands b₂ cs ⟨core, t⟩
        List.Forall₂
            (fun r q => r.result = q.result ∧ r.machine.core = q.machine.core ∧
              R r.machine.env q.machine.env)
            first.1 second.1 ∧
          first.2.core = second.2.core ∧ R first.2.env second.2.env) ∧
    ∀ memory : Memory,
      let flat : Machine Memory := ⟨core, memory⟩
      let alone := flat.commands Memory.bus cs
      (∀ {σ : Type} {held : σ → Memory} {read : UInt16 → σ → UInt8 × σ}
          {write : UInt16 → UInt8 → σ → σ}, Memory.Accessed held read write →
        ∀ s, held s = memory →
          let run := Machine.commands (.ofFunctions read write) cs ⟨core, s⟩
          run.1.map (Reply.point held) = alone.1.map (Reply.point id) ∧
            held run.2.env = alone.2.env) ∧
      ∀ host : Host, host.memory = memory →
        let run := Machine.commands Host.bus cs ⟨core, host⟩
        run.1.map (Reply.point Host.memory) = alone.1.map (Reply.point id) ∧
          run.2.env.memory = alone.2.env ∧
          run.2.env.instructions = host.instructions + alone.1.countP Reply.isExecuted ∧
          run.2.env.events.toList =
            host.events.toList ++ (flat.calls Memory.bus cs).filterMap BusCall.event? := by
  refine ⟨?_, ?_⟩
  · intro σ τ b₁ b₂ R hb hexecuted s t h first second
    have hsim : b₁.Sim (· = ·) b₂ R :=
      { hb with executed := fun h x y hx => hx.eq ▸ hexecuted h x }
    have hstart : Machine.Rel (· = ·) R ⟨core, s⟩ ⟨core, t⟩ := ⟨.refl core, h⟩
    exact hstart.commands_eq hsim cs
  · intro memory flat alone
    refine ⟨?_, ?_⟩
    · rintro σ held read write haccessed s rfl run
      exact points_eq haccessed.sim core s cs
    · rintro host rfl run
      obtain ⟨hpoints, hmemory⟩ := points_eq Host.sim core host cs
      exact ⟨hpoints, hmemory, host_law core host cs⟩

/-- One instruction from an empty memory, on a bus that keeps a journal, on functions that also
count the accesses to the memory they hold, and on the host. -/
theorem Machine.bus_law_nop :
    let core : Core := .powerOn ⟨.zeroed, none⟩
    let cs : List Command := [.stepInstruction]
    let alone := Machine.commands Memory.bus cs ⟨core, .zero⟩
    let read (addr : UInt16) (s : Memory × Nat) := (s.1.get addr, (s.1, s.2 + 1))
    let write (addr : UInt16) (v : UInt8) (s : Memory × Nat) := (s.1.set addr v, s.2 + 1)
    Memory.bus.Agree Memory.bus.recording (fun s r => r.inner = s) ∧
      alone.2.core =
        (Machine.commands Memory.bus.recording cs ⟨core, { inner := .zero }⟩).2.core ∧
      Memory.Accessed Prod.fst read write ∧
      (Machine.commands (.ofFunctions read write) cs ⟨core, (.zero, 0)⟩).2.env.1 = alone.2.env ∧
      (Machine.commands Host.bus cs ⟨core, {}⟩).2.env.memory = alone.2.env ∧
      (Machine.commands Host.bus cs ⟨core, {}⟩).2.env.instructions = 1 := by
  intro core cs alone read write
  have hagree : Memory.bus.Agree Memory.bus.recording (fun s r => r.inner = s) :=
    (Bus.sim_recording _).toAgree
  have haccessed : Memory.Accessed Prod.fst read write :=
    ⟨fun _ _ => rfl, fun _ _ => rfl, fun _ _ _ => rfl⟩
  have hcount : alone.1.countP Reply.isExecuted = 1 := by decide +kernel
  obtain ⟨hgeneral, hmemory⟩ := bus_law core cs
  obtain ⟨-, hcore, -⟩ :=
    hgeneral hagree (fun h _ => h ▸ rfl) (s := .zero) (t := { inner := .zero }) rfl
  obtain ⟨hfunctions, hhost⟩ := hmemory .zero
  obtain ⟨-, hheld⟩ := hfunctions haccessed (.zero, 0) rfl
  obtain ⟨-, hlast, hinstructions, -⟩ := hhost {} rfl
  refine ⟨hagree, hcore, haccessed, hheld, hlast, ?_⟩
  rw [hinstructions]
  exact (Nat.zero_add _).trans hcount

end Sm83
