import Sm83.Memory

/-!
# The host

The host attaches the core to memory, counts the instructions that are executed and keeps the
events that are announced, commenting on each in the log.

## Main definitions

* `Host`: the host's side of the bus
* `Host.bus`: the bus that the host provides
-/

namespace Sm83

/-- The host's side of the bus. -/
structure Host where
  memory : Memory := .zero
  /-- The number of instructions executed. -/
  instructions : Nat := 0
  /-- The events announced, in order. -/
  events : Array Event := #[]

/-- The comment of the host on an event. -/
def Host.remark (e : Event) : Remark := ⟨.info, "cpu event: " ++ e.text⟩

/-- The bus that the host provides. -/
def Host.bus : Bus Host where
  read addr h := (h.memory.get addr, h)
  write addr value h := { h with memory := h.memory.set addr value }
  notify e h := { h with events := h.events.push e }
  remarks e := [Host.remark e]
  executed _ h := { h with instructions := h.instructions + 1 }

end Sm83
