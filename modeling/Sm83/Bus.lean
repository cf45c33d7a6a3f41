import Sm83.Log

/-!
# The bus

The core reaches memory and devices through a bus. A bus is given by what it does to a state of its
own: it answers reads, takes writes, and may listen to the events of the core and to the
instructions that have been executed. Reading may change the state of a bus, so the order of the
accesses matters and every access passes the state on.

## Main definitions

* `Bus σ`: a bus with states `σ`
* `Bus.ofFunctions`, `Bus.rom`: a bus that only reads and writes, and one that only reads
* `Bus.readAll`, `Bus.writeAll`, `Bus.load`: several accesses in a row
* `Bus.recording`: a bus that also keeps a journal of every call
-/

namespace Sm83

/-- A bus with states in `σ`. -/
structure Bus (σ : Type) where
  /-- The byte at an address. -/
  read : UInt16 → σ → UInt8 × σ
  /-- Stores a byte at an address. -/
  write : UInt16 → UInt8 → σ → σ
  /-- Learns of an event. -/
  notify : Event → σ → σ := fun _ s => s
  /-- Comments on an event in the log. -/
  remarks : Event → List Remark := fun _ => []
  /-- Learns of an executed instruction. -/
  executed : Execution → σ → σ := fun _ s => s

/-- A call that the core makes to its bus. -/
inductive BusCall where
  | read (addr : UInt16) (value : UInt8)
  | write (addr : UInt16) (value : UInt8)
  | event (e : Event)
  | executed (x : Execution)
  deriving DecidableEq

/-- A bus state together with the calls made so far, in order. -/
structure Recorded (σ : Type) where
  inner : σ
  calls : Array BusCall := #[]

namespace Bus

variable {σ : Type}

/-- The bus that reads and writes by the given functions and listens to nothing. -/
def ofFunctions (read : UInt16 → σ → UInt8 × σ) (write : UInt16 → UInt8 → σ → σ) : Bus σ :=
  { read, write }

/-- A bus without states, on which bytes are found from address zero upwards and zeros behind them;
nothing can be stored. -/
def rom (bytes : List UInt8) : Bus Unit :=
  ofFunctions (fun addr s => (bytes.getD addr.toNat 0, s)) fun _ _ s => s

/-- The bytes at a list of addresses, read in order. -/
def readAll (bus : Bus σ) : List UInt16 → σ → List UInt8 × σ
  | [], s => ([], s)
  | addr :: rest, s =>
    let (value, s) := bus.read addr s
    let (values, s) := bus.readAll rest s
    (value :: values, s)

/-- Stores bytes at addresses, in order. -/
def writeAll (bus : Bus σ) : List (UInt16 × UInt8) → σ → σ
  | [], s => s
  | (addr, value) :: rest, s => bus.writeAll rest (bus.write addr value s)

/-- Stores data at consecutive addresses from `addr` upwards. -/
def load (bus : Bus σ) (addr : UInt16) (data : List UInt8) : σ → σ :=
  bus.writeAll ((addresses addr data.length).zip data)

/-- The bus with a journal of every call made to it. -/
def recording (bus : Bus σ) : Bus (Recorded σ) where
  read addr s :=
    let (value, inner) := bus.read addr s.inner
    (value, ⟨inner, s.calls.push (.read addr value)⟩)
  write addr value s := ⟨bus.write addr value s.inner, s.calls.push (.write addr value)⟩
  notify e s := ⟨bus.notify e s.inner, s.calls.push (.event e)⟩
  remarks := bus.remarks
  executed x s := ⟨bus.executed x s.inner, s.calls.push (.executed x)⟩

end Bus

end Sm83
