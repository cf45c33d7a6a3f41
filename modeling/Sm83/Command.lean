import Sm83.Machine

/-!
# Commands

Everything that can be done to a machine from outside: stepping it, waking and resetting the core,
and writing its registers and flags. A finite list of commands is a history of the machine.

## Main definitions

* `Assignment`: a write to one register
* `Command`: what can be done to a machine
* `Command.write`: what a command writes to the registers by itself
* `Machine.command`, `Machine.commands`: the machine after one command and after a list of them
* `Reply`: what a command reports

## Main results

* `Machine.commands_append`: a list of commands may be run in parts
-/

namespace Sm83

/-- A write to one register. -/
inductive Assignment where
  | byte (name : ByteRegister) (v : UInt8)
  | word (name : WordRegister) (v : UInt16)
  deriving DecidableEq

def Registers.assign (r : Registers) : Assignment → Registers
  | .byte name v => r.setByte name v
  | .word name v => r.setWord name v

/-- What can be done to a machine from outside. -/
inductive Command where
  | step
  | stepInstruction
  | wake
  | reset
  | assign (a : Assignment)
  | setFlags (f : Flags) (value : Bool)
  | clearFlags
  deriving DecidableEq

/-- What a command writes to the registers by itself, whatever the state of the core. -/
def Command.write : Command → Registers → Registers
  | assign a, r => r.assign a
  | setFlags f value, r => r.setFlags (r.flags.assign f value)
  | clearFlags, r => r.setFlags .empty
  | step, r | stepInstruction, r | wake, r | reset, r => r

/-- What a command reports, the machine after it and what was logged. -/
structure Reply (σ : Type) where
  /-- The report of a step; other commands report nothing. -/
  result : Option StepResult
  machine : Machine σ
  log : List Entry

namespace Machine

variable {σ : Type}

def mapCore (f : Core → Core) : Machine σ → Machine σ
  | ⟨core, env⟩ => ⟨f core, env⟩

/-- Leaves HALT or STOP. -/
def wake : Machine σ → Machine σ × List Entry
  | ⟨core, env⟩ =>
    let (core, messages) := core.wake
    (⟨core, env⟩, messages.map .core)

/-- Carries out a command. -/
def command (bus : Bus σ) (c : Command) (m : Machine σ) : Reply σ :=
  match c with
  | .step =>
    let o := m.step bus
    ⟨some o.result, o.machine, o.log⟩
  | .stepInstruction =>
    let o := m.stepInstruction bus
    ⟨some o.result, o.machine, o.log⟩
  | .wake =>
    let (m, log) := m.wake
    ⟨none, m, log⟩
  | .reset => ⟨none, m.mapCore .reset, []⟩
  | .assign a => ⟨none, m.mapCore fun core => { core with regs := core.regs.assign a }, []⟩
  | .setFlags f value => ⟨none, m.mapCore fun core => core.setFlags f value, []⟩
  | .clearFlags => ⟨none, m.mapCore .clearFlags, []⟩

theorem command_step (bus : Bus σ) (m : Machine σ) :
    m.command bus .step = ⟨some (m.step bus).result, (m.step bus).machine, (m.step bus).log⟩ := rfl

/-- Carries out commands in order: their replies, and the machine at the end. -/
def commands (bus : Bus σ) : List Command → Machine σ → List (Reply σ) × Machine σ
  | [], m => ([], m)
  | c :: rest, m =>
    let reply := m.command bus c
    let (replies, m) := reply.machine.commands bus rest
    (reply :: replies, m)

theorem commands_append (bus : Bus σ) (xs ys : List Command) (m : Machine σ) :
    m.commands bus (xs ++ ys) =
      ((m.commands bus xs).1 ++ ((m.commands bus xs).2.commands bus ys).1,
        ((m.commands bus xs).2.commands bus ys).2) := by
  induction xs generalizing m with
  | nil => rfl
  | cons c xs ih => simp [commands, ih]

end Machine

end Sm83
