import Mathlib.Logic.ExistsUnique
import Sm83.Proofs.Listing

/-!
# Instructions as a prefix code

The bytes of an instruction say where it ends: what follows them makes no difference, and with one
byte less there is no instruction. So any list of bytes can be cut from its start in one way only,
into complete instructions and a tail in which none is complete, and a list that is cut without a
tail may be followed by any other.

## Main definitions

* `Sweeps`: instructions are taken off the start of a list until there is none
* `IsCut`: a list of bytes is cut into complete instructions and a tail

## Main results

* `disassemble_eq_none_iff`: the lists that begin with no instruction
* `disassemble_take`, `disassemble_take_of_lt`: an instruction needs its own bytes, all of them and
  no others
* `sweeps_iff`: taking off instructions comes to an end, and to one end only
* `existsUnique_isCut`: every list is cut in one way
* `prefix_law`: the prefix code and its cuts
-/

namespace Sm83

/-! ## The bytes of one instruction -/

/-- Behind the escape byte, one more byte is the instruction. -/
theorem disassemble_escape (extended : UInt8) (rest : List UInt8) :
    disassemble (escapeByte :: extended :: rest) =
      some (lookupExtended extended, (lookupExtended extended).render []) := by
  rw [disassemble, if_pos rfl]
  rfl

/-- Behind any other opcode stand as many immediate bytes as the table says. -/
theorem disassemble_opcode {opcode : UInt8} (hne : opcode ≠ escapeByte) {operands : List UInt8}
    (hlength : (lookup opcode).length = operands.length + 1) (rest : List UInt8) :
    disassemble (opcode :: (operands ++ rest)) =
      some (lookup opcode, (lookup opcode).render operands) := by
  rw [disassemble, if_neg hne]
  simp only [hlength, Nat.add_sub_cancel, List.length_append, Nat.le_add_right, if_true,
    List.take_left]

/-- **The lists that begin with no instruction** end before the first one does. -/
theorem disassemble_eq_none_iff {bytes : List UInt8} :
    disassemble bytes = none ↔ bytes = [] ∨ bytes = [escapeByte] ∨
      ∃ opcode rest, bytes = opcode :: rest ∧ opcode ≠ escapeByte ∧
        bytes.length < (lookup opcode).length := by
  cases bytes with
  | nil => exact ⟨fun _ => .inl rfl, fun _ => rfl⟩
  | cons opcode rest =>
    rw [disassemble]
    by_cases he : opcode = escapeByte
    · subst he
      rw [if_pos rfl]
      cases rest with
      | nil => exact ⟨fun _ => .inr (.inl rfl), fun _ => rfl⟩
      | cons extended rest =>
        constructor
        · intro h
          cases h
        · rintro (h | h | ⟨opcode, tail, h, hne, -⟩)
          · cases h
          · cases h
          · cases h
            exact absurd rfl hne
    · have hpos := lookup_length_pos opcode
      rw [if_neg he]
      show (if (lookup opcode).length - 1 ≤ rest.length then _ else none) = none ↔ _
      constructor
      · intro h
        refine .inr (.inr ⟨opcode, rest, rfl, he, ?_⟩)
        rw [List.length_cons]
        have hshort : ¬ (lookup opcode).length - 1 ≤ rest.length := by
          intro hle
          rw [if_pos hle] at h
          cases h
        omega
      · rintro (h | h | ⟨opcode', tail, h, -, hlt⟩)
        · cases h
        · cases h
          exact absurd rfl he
        · cases h
          rw [List.length_cons] at hlt
          exact if_neg (by omega)

variable {bytes : List UInt8} {i : Instruction} {text : String}

/-- **The lists that begin with an instruction**: its own bytes stand first, and any others
follow. -/
theorem disassemble_cases (h : disassemble bytes = some (i, text)) :
    (∃ extended rest, bytes = escapeByte :: extended :: rest ∧ i = lookupExtended extended) ∨
      ∃ opcode operands rest, bytes = opcode :: (operands ++ rest) ∧ opcode ≠ escapeByte ∧
        i = lookup opcode ∧ i.length = operands.length + 1 := by
  cases bytes with
  | nil => cases h
  | cons opcode rest =>
    rw [disassemble] at h
    by_cases he : opcode = escapeByte
    · rw [if_pos he] at h
      cases rest with
      | nil => cases h
      | cons extended rest =>
        simp only [List.head?_cons, Option.map_some, Option.some.injEq, Prod.mk.injEq] at h
        exact .inl ⟨extended, rest, by rw [he], h.1.symm⟩
    · rw [if_neg he] at h
      simp only [Option.ite_none_right_eq_some, Option.some.injEq, Prod.mk.injEq] at h
      obtain ⟨hn, rfl, -⟩ := h
      have hpos := lookup_length_pos opcode
      refine .inr ⟨opcode, rest.take ((lookup opcode).length - 1),
        rest.drop ((lookup opcode).length - 1), ?_, he, rfl, ?_⟩
      · rw [List.take_append_drop]
      · rw [List.length_take]
        omega

/-- The escape byte is no instruction of its own. -/
theorem operation_ne_escape_of_disassemble (h : disassemble bytes = some (i, text)) :
    i.operation ≠ .escape := by
  rcases disassemble_cases h with ⟨extended, rest, rfl, hi⟩ | ⟨opcode, _, rest, rfl, hne, hi, -⟩
  · rw [hi, lookupExtended_operation]
    intro hop
    have hextended := isExtended_decodeExtended extended
    rw [hop] at hextended
    cases hextended
  · rw [hi, lookup_operation, Ne, decode_eq_escape_iff]
    exact hne

/-- **An instruction needs no bytes but its own.** -/
theorem disassemble_take (h : disassemble bytes = some (i, text)) :
    disassemble (bytes.take i.length) = some (i, text) := by
  rcases disassemble_cases h with ⟨extended, rest, rfl, hi⟩ |
    ⟨opcode, operands, rest, rfl, hne, hi, hlength⟩
  · have hlength : i.length = 2 := by rw [hi, lookupExtended_length]
    rw [disassemble_escape] at h
    rw [hlength, List.take_succ_cons, List.take_succ_cons, List.take_zero, disassemble_escape]
    exact h
  · have hlookup : (lookup opcode).length = operands.length + 1 := by rw [← hi, hlength]
    have hbare := disassemble_opcode hne hlookup []
    rw [List.append_nil] at hbare
    rw [disassemble_opcode hne hlookup] at h
    rw [hlength, List.take_succ_cons, List.take_left, hbare]
    exact h

theorem length_take_of_disassemble (h : disassemble bytes = some (i, text)) :
    (bytes.take i.length).length = i.length := by
  rw [List.length_take, Nat.min_eq_left (length_of_disassemble h).2]

/-- **An instruction needs all of its bytes.** -/
theorem disassemble_take_of_lt (h : disassemble bytes = some (i, text)) {n : Nat}
    (hn : n < i.length) : disassemble (bytes.take n) = none := by
  rw [Option.eq_none_iff_forall_ne_some]
  rintro ⟨j, other⟩ hj
  -- The bytes that follow make no difference, so that this would be the same instruction.
  have hsame := disassemble_append hj (bytes.drop n)
  rw [List.take_append_drop, h] at hsame
  obtain ⟨rfl, -⟩ := Prod.mk.inj (Option.some_inj.1 hsame)
  have hlength := (length_of_disassemble hj).2
  rw [List.length_take] at hlength
  omega

/-- The tail in which no instruction is complete is short. -/
theorem length_le_of_disassemble_eq_none (h : disassemble bytes = none) : bytes.length ≤ 2 := by
  rcases disassemble_eq_none_iff.1 h with rfl | rfl | ⟨opcode, rest, rfl, -, hlt⟩
  · exact Nat.zero_le 2
  · exact Nat.le_succ 1
  · have hle := (decode opcode).length_le
    rw [lookup_length] at hlt
    omega

/-! ## Taking off instructions -/

/-- Instructions are taken off the start of a list, as many bytes at a time as the instruction is
long, until there is none. -/
inductive Sweeps : List UInt8 → List (Instruction × String) → List UInt8 → Prop
  | stop {bytes : List UInt8} (h : disassemble bytes = none) : Sweeps bytes [] bytes
  | next {bytes tail : List UInt8} {i : Instruction} {text : String}
      {found : List (Instruction × String)} (h : disassemble bytes = some (i, text))
      (rest : Sweeps (bytes.drop i.length) found tail) : Sweeps bytes ((i, text) :: found) tail

theorem listing_of_eq_none (h : disassemble bytes = none) : listing bytes = ([], bytes) := by
  rw [listing]
  split
  · rfl
  · rename_i hsome
    rw [h] at hsome
    cases hsome

theorem listing_of_eq_some (h : disassemble bytes = some (i, text)) :
    listing bytes =
      ((i, text) :: (listing (bytes.drop i.length)).1, (listing (bytes.drop i.length)).2) := by
  have hlisting := listing_append (disassemble_take h) (length_take_of_disassemble h)
    (bytes.drop i.length)
  rwa [List.take_append_drop] at hlisting

/-- Every instruction that is taken off makes the list shorter, so that there is an end. -/
theorem sweeps_listing (bytes : List UInt8) : Sweeps bytes (listing bytes).1 (listing bytes).2 := by
  induction hn : bytes.length using Nat.strongRecOn generalizing bytes with
  | ind n ih =>
    cases h : disassemble bytes with
    | none =>
      rw [listing_of_eq_none h]
      exact .stop h
    | some found =>
      obtain ⟨i, text⟩ := found
      obtain ⟨hpos, hle⟩ := length_of_disassemble h
      rw [listing_of_eq_some h]
      refine .next h (ih _ ?_ _ rfl)
      rw [List.length_drop]
      omega

/-- **Taking off instructions comes to an end**, and to one end only. -/
theorem sweeps_iff {found : List (Instruction × String)} {tail : List UInt8} :
    Sweeps bytes found tail ↔ listing bytes = (found, tail) := by
  constructor
  · intro h
    induction h with
    | stop h => exact listing_of_eq_none h
    | next h _ ih => rw [listing_of_eq_some h, ih]
  · intro h
    have hsweeps := sweeps_listing bytes
    rwa [h] at hsweeps

/-! ## Cuts -/

/-- The bytes are those of one instruction. -/
def IsWhole (bytes : List UInt8) : Prop :=
  ∃ i text, disassemble bytes = some (i, text) ∧ bytes.length = i.length

/-- A list of bytes is cut into complete instructions and a tail that begins with none. -/
structure IsCut (bytes : List UInt8) (chunks : List (List UInt8)) (tail : List UInt8) : Prop where
  flatten : chunks.flatten ++ tail = bytes
  whole : ∀ chunk ∈ chunks, IsWhole chunk
  tail : disassemble tail = none

namespace IsCut

variable {chunk : List UInt8} {chunks more : List (List UInt8)} {rest tail last : List UInt8}

theorem nil (h : disassemble tail = none) : IsCut tail [] tail where
  flatten := rfl
  whole := List.forall_mem_nil _
  tail := h

theorem cons (hchunk : IsWhole chunk) (h : IsCut rest chunks tail) :
    IsCut (chunk ++ rest) (chunk :: chunks) tail where
  flatten := by rw [List.flatten_cons, List.append_assoc, h.flatten]
  whole := List.forall_mem_cons.2 ⟨hchunk, h.whole⟩
  tail := h.tail

/-- The first of the instructions that a list is cut into, and the cut of what follows it. -/
theorem of_cons (h : IsCut bytes (chunk :: chunks) tail) :
    ∃ rest, bytes = chunk ++ rest ∧ IsWhole chunk ∧ IsCut rest chunks tail := by
  obtain ⟨hchunk, hchunks⟩ := List.forall_mem_cons.1 h.whole
  refine ⟨chunks.flatten ++ tail, ?_, hchunk, rfl, hchunks, h.tail⟩
  rw [← h.flatten, List.flatten_cons, List.append_assoc]

/-- **Cuts may be put together**, if the first has no tail. -/
theorem append (h : IsCut bytes chunks []) (h' : IsCut rest more tail) :
    IsCut (bytes ++ rest) (chunks ++ more) tail where
  flatten := by
    have hbytes := h.flatten
    rw [List.append_nil] at hbytes
    rw [List.flatten_append, List.append_assoc, h'.flatten, hbytes]
  whole chunk hchunk := (List.mem_append.1 hchunk).elim (h.whole chunk) (h'.whole chunk)
  tail := h'.tail

/-- **A cut is the listing** with the bytes in the place of the instructions. -/
theorem listing_eq (h : IsCut bytes chunks tail) :
    listing bytes = (chunks.filterMap disassemble, tail) := by
  induction chunks generalizing bytes with
  | nil =>
    obtain rfl : tail = bytes := h.flatten
    exact listing_of_eq_none h.tail
  | cons chunk chunks ih =>
    obtain ⟨rest, rfl, ⟨i, text, hsome, hlength⟩, hrest⟩ := h.of_cons
    rw [listing_append hsome hlength, ih hrest, List.filterMap_cons_some hsome]

theorem length_tail_le (h : IsCut bytes chunks tail) : tail.length ≤ 2 :=
  length_le_of_disassemble_eq_none h.tail

/-- **There is one cut only**: the first instruction says where it ends. -/
theorem unique (h : IsCut bytes chunks tail) (h' : IsCut bytes more last) :
    chunks = more ∧ tail = last := by
  induction chunks generalizing bytes more with
  | nil =>
    obtain rfl : tail = bytes := h.flatten
    cases more with
    | nil => exact ⟨rfl, h'.flatten.symm⟩
    | cons chunk more =>
      obtain ⟨rest, rfl, ⟨i, text, hsome, -⟩, -⟩ := h'.of_cons
      exact absurd ((disassemble_append hsome rest).symm.trans h.tail) nofun
  | cons chunk chunks ih =>
    obtain ⟨rest, rfl, ⟨i, text, hsome, hlength⟩, hrest⟩ := h.of_cons
    cases more with
    | nil =>
      -- Without chunks the whole list would be the tail, but it begins with an instruction.
      have hnone : disassemble (chunk ++ rest) = none := h'.flatten ▸ h'.tail
      exact absurd ((disassemble_append hsome rest).symm.trans hnone) nofun
    | cons chunk' more =>
      obtain ⟨rest', hsplit, ⟨j, text', hsome', hlength'⟩, hrest'⟩ := h'.of_cons
      -- Both are the instruction that the whole list begins with, and so equally long.
      have hsame := disassemble_append hsome rest
      rw [hsplit, disassemble_append hsome' rest'] at hsame
      obtain ⟨rfl, -⟩ := Prod.mk.inj (Option.some_inj.1 hsame)
      obtain ⟨rfl, rfl⟩ := List.append_inj hsplit (hlength.trans hlength'.symm)
      obtain ⟨rfl, rfl⟩ := ih hrest hrest'
      exact ⟨rfl, rfl⟩

end IsCut

theorem Sweeps.exists_isCut {found : List (Instruction × String)} {tail : List UInt8}
    (h : Sweeps bytes found tail) : ∃ chunks, IsCut bytes chunks tail := by
  induction h with
  | stop h => exact ⟨[], .nil h⟩
  | @next bytes _ i text _ h _ ih =>
    -- The chunk that the sweep leaves behind is put in front of the cut of what it goes on with.
    obtain ⟨chunks, hcut⟩ := ih
    have hall := hcut.cons ⟨i, text, disassemble_take h, length_take_of_disassemble h⟩
    rw [List.take_append_drop] at hall
    exact ⟨_, hall⟩

/-- **Every list is cut in one way.** -/
theorem existsUnique_isCut (bytes : List UInt8) :
    ∃! cut : List (List UInt8) × List UInt8, IsCut bytes cut.1 cut.2 := by
  obtain ⟨chunks, hcut⟩ := (sweeps_listing bytes).exists_isCut
  refine ⟨(chunks, _), hcut, ?_⟩
  rintro ⟨more, last⟩ h
  obtain ⟨rfl, rfl⟩ := h.unique hcut
  rfl

/-! ## The law of the prefix code -/

/-- **The law of the prefix code.** A list begins with no instruction exactly if it is empty, ends
behind the escape byte, or ends before the immediate bytes of its first opcode do. An instruction is
found within the list; it is not the escape; its own bytes are enough for it whatever follows them,
and no shorter start of them is. To take instructions off comes to an end, and leaves at most two
bytes. There is one way to cut a list into complete instructions and a tail, and it is the listing;
a list that is cut without a tail may be followed by any other. -/
theorem prefix_law (bytes : List UInt8) :
    (disassemble bytes = none ↔ bytes = [] ∨ bytes = [escapeByte] ∨
      ∃ opcode rest, bytes = opcode :: rest ∧ opcode ≠ escapeByte ∧
        bytes.length < (lookup opcode).length) ∧
    (∀ i text, disassemble bytes = some (i, text) →
      1 ≤ i.length ∧ i.length ≤ bytes.length ∧
        i.operation ≠ .escape ∧ i ≠ lookup escapeByte ∧
        (∀ rest, disassemble (bytes.take i.length ++ rest) = some (i, text)) ∧
        ∀ n < i.length, disassemble (bytes.take n) = none) ∧
    (∀ found tail, Sweeps bytes found tail ↔ listing bytes = (found, tail)) ∧
    (∃! cut : List (List UInt8) × List UInt8, IsCut bytes cut.1 cut.2) ∧
    (∀ chunks tail, IsCut bytes chunks tail →
      tail.length ≤ 2 ∧ listing bytes = (chunks.filterMap disassemble, tail)) ∧
    ∀ chunks, IsCut bytes chunks [] → ∀ rest,
      (∀ more tail, IsCut rest more tail → IsCut (bytes ++ rest) (chunks ++ more) tail) ∧
        listing (bytes ++ rest) = ((listing bytes).1 ++ (listing rest).1, (listing rest).2) := by
  refine ⟨disassemble_eq_none_iff, ?_, fun _ _ => sweeps_iff, existsUnique_isCut bytes, ?_, ?_⟩
  · intro i text h
    obtain ⟨hpos, hle⟩ := length_of_disassemble h
    have hescape := operation_ne_escape_of_disassemble h
    refine ⟨hpos, hle, hescape, ?_, fun rest => disassemble_append (disassemble_take h) rest,
      fun n hn => disassemble_take_of_lt h hn⟩
    intro hi
    rw [hi, lookup_operation, Ne, decode_eq_escape_iff] at hescape
    exact hescape rfl
  · intro chunks tail h
    exact ⟨h.length_tail_le, h.listing_eq⟩
  · intro chunks h rest
    refine ⟨fun more tail h' => h.append h', ?_⟩
    obtain ⟨more, hmore⟩ := (sweeps_listing rest).exists_isCut
    rw [(h.append hmore).listing_eq, h.listing_eq, List.filterMap_append, hmore.listing_eq]

/-- A load of an immediate byte, in front of a return. -/
theorem prefix_law_load :
    let bytes : List UInt8 := [0x06, 0x05]
    let i := lookup 0x06
    let text := i.render [0x05]
    disassemble bytes = some (i, text) ∧ disassemble (bytes.take 1) = none ∧
      disassemble (bytes.take i.length ++ [0xC9]) = some (i, text) ∧
      listing (bytes ++ [0xC9]) =
        ((listing bytes).1 ++ (listing [0xC9]).1, (listing [0xC9]).2) := by
  intro bytes i text
  have hne : (0x06 : UInt8) ≠ escapeByte := by decide
  have hlength : (lookup 0x06).length = ([0x05] : List UInt8).length + 1 := by
    rw [lookup_length]
    decide
  have hsome : disassemble bytes = some (i, text) := by
    have hload := disassemble_opcode hne hlength []
    rw [List.append_nil] at hload
    exact hload
  have hcut : IsCut bytes [bytes] [] :=
    { flatten := rfl
      whole := List.forall_mem_singleton.2 ⟨i, text, hsome, hlength.symm⟩
      tail := rfl }
  obtain ⟨-, hcode, -, -, -, happend⟩ := prefix_law bytes
  obtain ⟨-, -, -, -, hrest, hshort⟩ := hcode i text hsome
  refine ⟨hsome, hshort 1 ?_, hrest [0xC9], (happend [bytes] hcut [0xC9]).2⟩
  rw [hlength]
  exact Nat.one_lt_two

end Sm83
