import Sm83.Bus

/-!
# Memory

One byte of memory for each of the 65536 addresses. Data is copied to memory from an address
upwards and goes on at address zero after the last one.

## Main definitions

* `Memory`: the contents, with `get`, `set` and `load`
* `Memory.bus`: memory as a bus

## Main results

* `Memory.get_set`: a write changes the cell at its own address only
* `Memory.load_append`: data may be copied in parts
-/

namespace Sm83

/-- The contents of all addresses. -/
structure Memory where
  cells : Vector UInt8 65536
  deriving DecidableEq

namespace Memory

/-- Memory in which every byte is zero. -/
def zero : Memory := ⟨.replicate 65536 0⟩

instance : Inhabited Memory := ⟨zero⟩

/-- The byte at an address. -/
def get (m : Memory) (addr : UInt16) : UInt8 := have := addr.toNat_lt; m.cells[addr.toNat]

/-- Memory with the byte at one address replaced. -/
def set (m : Memory) (addr : UInt16) (value : UInt8) : Memory :=
  ⟨m.cells.set addr.toNat value addr.toNat_lt⟩

/-- Memory with data copied to it from an address upwards. -/
def load (m : Memory) (addr : UInt16) : List UInt8 → Memory
  | [] => m
  | b :: rest => (m.set addr b).load (addr + 1) rest

/-- The bytes at `n` addresses from `addr` upwards. -/
def slice (m : Memory) (addr : UInt16) (n : Nat) : List UInt8 := (addresses addr n).map m.get

/-- A write changes the cell at its own address only. -/
theorem get_set (m : Memory) (x y : UInt16) (v : UInt8) :
    (m.set x v).get y = if x = y then v else m.get y := by
  simp only [get, set, Vector.getElem_set, UInt16.toNat_inj]

@[simp] theorem get_set_self (m : Memory) (x : UInt16) (v : UInt8) : (m.set x v).get x = v := by
  simp [get_set]

@[simp] theorem get_zero (x : UInt16) : zero.get x = 0 := by
  simp [get, zero]

theorem load_append (m : Memory) (addr : UInt16) (xs ys : List UInt8) :
    m.load addr (xs ++ ys) = (m.load addr xs).load (addr + UInt16.ofNat xs.length) ys := by
  induction xs generalizing m addr with
  | nil => simp [load]
  | cons x xs ih =>
    rw [List.cons_append, load, ih, load]
    congr 1
    simp [UInt16.add_assoc, UInt16.add_comm 1]

/-- Memory as a bus that only reads and writes. -/
def bus : Bus Memory := .ofFunctions (fun addr m => (m.get addr, m)) fun addr value m =>
  m.set addr value

end Memory

end Sm83
