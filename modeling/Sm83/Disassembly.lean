import Sm83.Catalog

/-!
# Disassembly

The instruction at the start of a list of bytes, and its text, without a machine to run it. A list
that ends in the middle of an instruction has none.

## Main definitions

* `disassemble`: the first instruction of a list of bytes, with its text
* `listing`: all instructions of a list of bytes, and the incomplete tail

## Main results

* `length_of_disassemble`: an instruction that is found lies within the list
-/

namespace Sm83

/-- The first instruction of a list of bytes, with its text. -/
def disassemble : List UInt8 → Option (Instruction × String)
  | [] => none
  | opcode :: rest =>
    if opcode = escapeByte then
      rest.head?.map fun extended => (lookupExtended extended, (lookupExtended extended).render [])
    else
      let i := lookup opcode
      let n := i.length - 1
      if n ≤ rest.length then some (i, i.render (rest.take n)) else none

/-- An instruction that is found is not empty and lies within the list. -/
theorem length_of_disassemble {bytes : List UInt8} {i : Instruction} {text : String}
    (h : disassemble bytes = some (i, text)) : 0 < i.length ∧ i.length ≤ bytes.length := by
  cases bytes with
  | nil => simp [disassemble] at h
  | cons opcode rest =>
    rw [disassemble] at h
    split at h
    · cases rest with
      | nil => cases h
      | cons extended rest =>
        simp only [List.head?_cons, Option.map_some, Option.some.injEq, Prod.mk.injEq] at h
        obtain ⟨rfl, -⟩ := h
        simp
    · simp only [Option.ite_none_right_eq_some, Option.some.injEq, Prod.mk.injEq] at h
      obtain ⟨hn, rfl, -⟩ := h
      have := lookup_length_pos opcode
      simp only [List.length_cons]
      omega

/-- The instructions of a list of bytes from its start, each with its text, and the tail in which
no instruction is complete. -/
def listing (bytes : List UInt8) : List (Instruction × String) × List UInt8 :=
  match _h : disassemble bytes with
  | none => ([], bytes)
  | some (i, text) =>
    let later := listing (bytes.drop i.length)
    ((i, text) :: later.1, later.2)
termination_by bytes.length
decreasing_by
  have := length_of_disassemble _h
  simp only [List.length_drop]
  omega

end Sm83
