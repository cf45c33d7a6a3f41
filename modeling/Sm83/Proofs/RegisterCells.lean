import Sm83.Proofs.Reachable

/-!
# Registers as independent cells

A pair and its two halves are views of one word, and a flag is a bit of F, so a write through any
view is a masked write to a shared word. Yet the register file behaves as if it were made of cells
that share nothing: the seven bytes other than F, the four flags and two words. A write puts its
part into each cell that it names and touches no other, and every view is put together from cells.

## Main definitions

* `Flag`, `Cell`: the condition flags by name, and the cells
* `Command.written`: what a command puts into a cell
* `Cells`, `Cells.write`: the contents of independent cells, and the cells after a command
* `Registers.cells`, `Registers.Shows`: the cells of a register file, and views that are put
  together from cells

## Main results

* `Registers.cells_write`: a write to the shared words is a write to the cells
* `Registers.shows_cells`: the views of a register file are put together from its cells
* `Cells.foldl_write`: a cell holds what was written to it last
* `Machine.cells_law`: after any writes, every view shows independent cells
-/

namespace Sm83

/-! ## Cells -/

/-- The condition flags by name. -/
inductive Flag where
  | zero | subtract | half | carry
  deriving DecidableEq

namespace Flag

/-- What a flag that is set counts in F. -/
def weight : Flag → Nat
  | zero => 128
  | subtract => 64
  | half => 32
  | carry => 16

/-- The bit of a byte that stands where F has the flag. -/
def bitOf (g : Flag) (v : Nat) : Nat := v / g.weight % 2

end Flag

/-- Whether a flag is in the set. -/
def Flags.holds (f : Flags) : Flag → Bool
  | .zero => f.zero
  | .subtract => f.subtract
  | .half => f.half
  | .carry => f.carry

/-- The parts of the register file that share nothing. F is made of flags. -/
inductive Cell where
  | byte (name : ByteRegister) (h : name ≠ .f)
  | flag (g : Flag)
  | sp
  | pc
  deriving DecidableEq

namespace ByteRegister

/-- The pair that the register is half of. -/
def pair : ByteRegister → WordRegister
  | a | f => .af
  | b | c => .bc
  | d | e => .de
  | h | l => .hl

/-- The half of a word that stands where its pair has the register. -/
def halfOf (x : ByteRegister) (w : Nat) : Nat :=
  match x with
  | a | b | d | h => w / 256
  | f | c | e | l => w % 256

end ByteRegister

/-- The two halves of a pair. -/
def WordRegister.halves? : WordRegister → Option (ByteRegister × ByteRegister)
  | af => some (.a, .f)
  | bc => some (.b, .c)
  | de => some (.d, .e)
  | hl => some (.h, .l)
  | sp | pc => none

/-- The byte that a write puts into a byte register, directly or as a half of its pair. -/
def Assignment.byteFor (x : ByteRegister) : Assignment → Option Nat
  | byte name v => if name = x then some v.toNat else none
  | word name v => if name = x.pair then some (x.halfOf v.toNat) else none

/-- The word that a write puts into a word register that is no pair. -/
def Assignment.wordFor (x : WordRegister) : Assignment → Option Nat
  | byte _ _ => none
  | word name v => if name = x then some v.toNat else none

namespace Command

/-- Whether a command is a write to registers or flags. -/
def isWrite : Command → Bool
  | assign _ | setFlags .. | clearFlags => true
  | step | stepInstruction | wake | reset => false

/-- What a command puts into a cell, if it writes the cell at all. -/
def written (x : Cell) : Command → Option Nat
  | assign a =>
    match x with
    | .byte name _ => a.byteFor name
    -- The lower nibble of a byte written to F is in no flag, and is lost.
    | .flag g => (a.byteFor .f).map g.bitOf
    | .sp => a.wordFor .sp
    | .pc => a.wordFor .pc
  | setFlags f value =>
    match x with
    | .flag g => if f.holds g then some value.toNat else none
    | _ => none
  | clearFlags =>
    match x with
    | .flag _ => some 0
    | _ => none
  | step | stepInstruction | wake | reset => none

end Command

/-- The contents of cells that share nothing. -/
def Cells := Cell → Nat

namespace Cells

/-- Every cell takes what a command puts into it, or keeps what it has. -/
def write (s : Cells) (c : Command) : Cells := fun x => (c.written x).getD (s x)

/-- The byte view: F has the flags in its upper nibble and nothing in its lower one. -/
def byte (s : Cells) (name : ByteRegister) : Nat :=
  if h : name = .f then
    128 * s (.flag .zero) + 64 * s (.flag .subtract) + 32 * s (.flag .half) + 16 * s (.flag .carry)
  else s (.byte name h)

/-- The word view: a pair has its first half in front. -/
def word (s : Cells) : WordRegister → Nat
  | .af => 256 * s.byte .a + s.byte .f
  | .bc => 256 * s.byte .b + s.byte .c
  | .de => 256 * s.byte .d + s.byte .e
  | .hl => 256 * s.byte .h + s.byte .l
  | .sp => s .sp
  | .pc => s .pc

/-- **A cell holds what was written to it last**, whatever else was written before or since. -/
theorem foldl_write (cs : List Command) (s : Cells) (x : Cell) :
    cs.foldl write s x = (cs.filterMap (Command.written x)).getLastD (s x) := by
  induction cs generalizing s with
  | nil => rfl
  | cons c cs ih =>
    rw [List.foldl_cons, ih, List.filterMap_cons]
    cases h : c.written x with
    | none => rw [write, h]; rfl
    | some v =>
      rw [write, h, List.getLastD_cons]
      rfl

end Cells

/-! ## Masks -/

/-- A byte whose lower nibble is clear is its upper nibble. -/
theorem and_upper_of_and_lower (v : UInt8) : v &&& 0x0F = 0 → v &&& 0xF0 = v := by
  revert v
  exact forall_byte (by decide +kernel)

/-- Dropping the lower nibble of a word leaves its upper half alone. -/
theorem hi_and_upper (w : UInt16) : hi (w &&& 0xFFF0) = hi w := by
  rw [hi, UInt16.shiftRight_and, UInt16.toUInt8_and]
  exact UInt8.and_neg_one

namespace Flags

theorem toNat_holds_ofByte (v : UInt8) (g : Flag) :
    ((ofByte v).holds g).toNat = g.bitOf v.toNat := by
  revert v
  cases g <;> exact forall_byte (by decide +kernel)

theorem holds_assign (f s : Flags) (value : Bool) (g : Flag) :
    (f.assign s value).holds g = if s.holds g then value else f.holds g := by
  have hunion : (f.union s).holds g = (f.holds g || s.holds g) := by cases g <;> rfl
  have hdiff : (f.diff s).holds g = (f.holds g && !s.holds g) := by cases g <;> rfl
  cases value with
  | true =>
    rw [assign, if_pos rfl, hunion]
    cases s.holds g with
    | true => exact Bool.or_true _
    | false => exact Bool.or_false _
  | false =>
    rw [assign, if_neg Bool.false_ne_true, hdiff]
    cases s.holds g with
    | true => exact Bool.and_false _
    | false => exact Bool.and_true _

theorem contains_iff (f s : Flags) :
    f.contains s = true ↔ ∀ g, s.holds g = true → f.holds g = true := by
  have himp (x y : Bool) : (x || !y) = true ↔ (y = true → x = true) := by
    cases x <;> cases y <;> decide
  simp only [contains, Bool.and_eq_true, himp]
  constructor
  · rintro ⟨⟨⟨hz, hn⟩, hh⟩, hc⟩ g
    cases g with
    | zero => exact hz
    | subtract => exact hn
    | half => exact hh
    | carry => exact hc
  · intro h
    exact ⟨⟨⟨h .zero, h .subtract⟩, h .half⟩, h .carry⟩

/-- Four flags make a byte without a lower nibble. -/
theorem toNat_toByte (f : Flags) :
    f.toByte.toNat = 128 * (f.holds .zero).toNat + 64 * (f.holds .subtract).toNat +
      32 * (f.holds .half).toNat + 16 * (f.holds .carry).toNat := by
  rcases f with ⟨_ | _, _ | _, _ | _, _ | _⟩ <;> rfl

end Flags

/-! ## The register file -/

namespace Registers

/-- The cells of a register file. -/
def cells (r : Registers) : Cells
  | .byte name _ => (r.byte name).toNat
  | .flag g => (r.flags.holds g).toNat
  | .sp => r.sp.toNat
  | .pc => r.pc.toNat

/-- Every view of the register file is put together from the cells. -/
structure Shows (r : Registers) (s : Cells) : Prop where
  byte : ∀ name, (r.byte name).toNat = s.byte name
  word : ∀ name, (r.word name).toNat = s.word name
  flags : r.flags.toByte.toNat = s.byte .f
  contains : ∀ f : Flags, r.flags.contains f = true ↔ ∀ g, f.holds g = true → s (.flag g) = 1

/-! ### The cells after a write -/

/-- A byte register is its half of the pair. -/
theorem toNat_byte (r : Registers) (x : ByteRegister) :
    (r.byte x).toNat = x.halfOf (r.word x.pair).toNat := by
  cases x with
  | a | b | d | h => exact toNat_hi _
  | f | c | e | l => exact toNat_lo _

/-- A pair is `256 * high + low`. -/
theorem toNat_word_eq_halves (r : Registers) {pair : WordRegister} {high low : ByteRegister}
    (h : pair.halves? = some (high, low)) :
    (r.word pair).toNat = 256 * (r.byte high).toNat + (r.byte low).toNat := by
  have hword (w : UInt16) : w.toNat = 256 * (hi w).toNat + (lo w).toNat := by
    rw [← toNat_join, join_hi_lo]
  cases pair with
  | af | bc | de | hl =>
    cases h
    exact hword _
  | sp | pc => cases h

theorem toNat_byte_assign (r : Registers) (a : Assignment) {x : ByteRegister} (hx : x ≠ .f) :
    ((r.assign a).byte x).toNat = (a.byteFor x).getD (r.byte x).toNat := by
  cases a with
  | byte name v =>
    rw [assign, byte_setByte, Assignment.byteFor]
    by_cases hname : name = x
    · have hne : name ≠ .f := fun h => hx (hname.symm.trans h)
      rw [if_pos hname, if_neg hne, if_pos hname, Option.getD_some]
    · rw [if_neg hname, if_neg hname, Option.getD_none]
  | word name v =>
    rw [assign, Assignment.byteFor, toNat_byte]
    by_cases hname : name = x.pair
    · subst hname
      rw [if_pos rfl, Option.getD_some]
      cases x with
      | f => exact absurd rfl hx
      -- The nibble that is dropped lies in the other half.
      | a => exact (toNat_hi _).symm.trans ((congrArg _ (hi_and_upper v)).trans (toNat_hi v))
      | b | c | d | e | h | l => rfl
    · rw [if_neg hname, Option.getD_none, word_setWord_of_ne r v hname, toNat_byte]

theorem toNat_word_assign (r : Registers) (a : Assignment) {x : WordRegister}
    (hx : x = .sp ∨ x = .pc) :
    ((r.assign a).word x).toNat = (a.wordFor x).getD (r.word x).toNat := by
  cases a with
  | byte name v =>
    obtain rfl | rfl := hx
    · exact congrArg UInt16.toNat (r.sp_setByte name v)
    · exact congrArg UInt16.toNat (r.pc_setByte name v)
  | word name v =>
    rw [assign, Assignment.wordFor]
    by_cases hname : name = x
    · subst hname
      have hne : name ≠ .af := by
        rintro rfl
        revert hx
        decide
      rw [word_setWord_self, if_neg hne, if_pos rfl, Option.getD_some]
    · rw [word_setWord_of_ne r v hname, if_neg hname, Option.getD_none]

theorem flags_assign (r : Registers) (a : Assignment) (g : Flag) :
    ((r.assign a).flags.holds g).toNat =
      ((a.byteFor .f).map g.bitOf).getD (r.flags.holds g).toNat := by
  -- Every way to write F drops the lower nibble, which holds no flag.
  have hdrop (v : UInt8) : Flags.ofByte (v &&& 0xF0) = .ofByte v := by
    rw [← Flags.toByte_ofByte, Flags.ofByte_toByte]
  cases a with
  | byte name v =>
    rw [assign, flags, byte_setByte, Assignment.byteFor]
    by_cases hname : name = .f
    · subst hname
      rw [if_pos rfl, if_pos rfl, if_pos rfl, hdrop]
      exact Flags.toNat_holds_ofByte v g
    · rw [if_neg hname, if_neg hname]
      rfl
  | word name v =>
    cases name with
    | af =>
      have hflags : (r.setWord .af v).flags = .ofByte (lo v) :=
        (congrArg Flags.ofByte (UInt16.toUInt8_and v 0xFFF0)).trans (hdrop _)
      rw [assign, hflags, Flags.toNat_holds_ofByte, toNat_lo]
      rfl
    | bc | de | hl | sp | pc => rfl

theorem cells_setFlags (r : Registers) (f : Flags) (x : Cell) :
    (r.setFlags f).cells x =
      match x with
      | .flag g => (f.holds g).toNat
      | x => r.cells x := by
  cases x with
  | byte name h => rw [cells, setFlags, byte_setByte, if_neg (Ne.symm h)]; rfl
  | flag g => rw [cells, flags_setFlags]
  | sp => rw [cells, setFlags, sp_setByte]; rfl
  | pc => rw [cells, setFlags, pc_setByte]; rfl

/-- **A write to the shared words is a write to the cells**: every cell takes its part of what is
written, and the cells that are not named keep what they have. -/
theorem cells_write (r : Registers) (c : Command) : (c.write r).cells = r.cells.write c := by
  funext x
  cases c with
  | step | stepInstruction | wake | reset => rfl
  | assign a =>
    cases x with
    | byte name h => exact r.toNat_byte_assign a h
    | flag g => exact r.flags_assign a g
    | sp => exact r.toNat_word_assign a (.inl rfl)
    | pc => exact r.toNat_word_assign a (.inr rfl)
  | setFlags f value =>
    rw [Command.write, cells_setFlags]
    cases x with
    | flag g =>
      show ((r.flags.assign f value).holds g).toNat = _
      rw [Flags.holds_assign, Cells.write, Command.written]
      cases f.holds g <;> rfl
    | byte | sp | pc => rfl
  | clearFlags =>
    rw [Command.write, cells_setFlags]
    cases x with
    | flag g => cases g <;> rfl
    | byte | sp | pc => rfl

/-- A cell that a command does not write keeps what it has. -/
theorem cells_write_of_eq_none (r : Registers) {c : Command} {x : Cell} (h : c.written x = none) :
    (c.write r).cells x = r.cells x := by
  rw [cells_write, Cells.write, h, Option.getD_none]

theorem cells_default : cells {} = fun _ => 0 := by
  funext x
  cases x with
  | byte name h => cases name <;> rfl
  | flag g => cases g <;> rfl
  | sp | pc => rfl

/-- **The views of a register file are put together from its cells.** -/
theorem shows_cells {r : Registers} (h : r.UpperFlags) : r.Shows r.cells := by
  have hf : r.flags.toByte = r.byte .f := (Flags.toByte_ofByte _).trans (and_upper_of_and_lower _ h)
  have hflags : r.flags.toByte.toNat = r.cells.byte .f := r.flags.toNat_toByte
  have hbyte (name : ByteRegister) : (r.byte name).toNat = r.cells.byte name := by
    by_cases hname : name = .f
    · rw [hname, ← hflags, hf]
    · rw [Cells.byte, dif_neg hname, cells]
  refine ⟨hbyte, fun name => ?_, hflags, fun f => ?_⟩
  · cases name with
    | sp | pc => rfl
    | af | bc | de | hl =>
      rw [Cells.word, ← hbyte, ← hbyte]
      exact toNat_word_eq_halves r rfl
  · rw [Flags.contains_iff]
    exact forall₂_congr fun g _ => Bool.toNat_eq_one.symm

/-! ### Any number of writes -/

theorem UpperFlags.write {r : Registers} (h : r.UpperFlags) (c : Command) :
    (c.write r).UpperFlags := by
  cases c with
  | assign a => exact h.assign a
  | setFlags f value => exact h.assign (.byte .f _)
  | clearFlags => exact h.assign (.byte .f _)
  | step | stepInstruction | wake | reset => exact h

theorem UpperFlags.foldl_write {r : Registers} (h : r.UpperFlags) (cs : List Command) :
    (cs.foldl (fun r c => c.write r) r).UpperFlags := by
  induction cs generalizing r with
  | nil => exact h
  | cons c cs ih => exact ih (h.write c)

/-- **Any number of writes to the shared words are as many writes to the cells.** -/
theorem cells_foldl_write (cs : List Command) (r : Registers) :
    (cs.foldl (fun r c => c.write r) r).cells = cs.foldl Cells.write r.cells := by
  induction cs generalizing r with
  | nil => rfl
  | cons c cs ih => rw [List.foldl_cons, List.foldl_cons, ih, cells_write]

end Registers

/-! ## The machine -/

namespace Machine

variable {σ : Type} {m : Machine σ}

theorem command_of_isWrite (bus : Bus σ) (m : Machine σ) {c : Command} (hc : c.isWrite = true) :
    (m.command bus c).machine = ⟨{ m.core with regs := c.write m.core.regs }, m.env⟩ := by
  cases c with
  | assign | setFlags | clearFlags => rfl
  | step | stepInstruction | wake | reset => cases hc

/-- Writes do nothing but write. -/
theorem commands_of_isWrite (bus : Bus σ) (m : Machine σ) {cs : List Command}
    (hcs : ∀ c ∈ cs, c.isWrite = true) :
    (m.commands bus cs).2 =
      ⟨{ m.core with regs := cs.foldl (fun r c => c.write r) m.core.regs }, m.env⟩ := by
  induction cs generalizing m with
  | nil => rfl
  | cons c cs ih =>
    obtain ⟨hc, hrest⟩ := List.forall_mem_cons.1 hcs
    show ((m.command bus c).machine.commands bus cs).2 = _
    rw [command_of_isWrite bus m hc]
    exact ih _ hrest

/-- **The law of the register file.** A machine whose registers are all zero is given any number of
writes to registers and flags. They do nothing but write, and afterwards the views of all
registers, of F and of every set of flags show independent cells, each of which holds what was
written to it last. A pair shows its two halves, and one more write leaves every cell alone that it
does not name. -/
theorem cells_law (bus : Bus σ) (hm : m.core.regs = {}) {cs : List Command}
    (hcs : ∀ c ∈ cs, c.isWrite = true) :
    let s : Cells := cs.foldl Cells.write fun _ => 0
    ∃ r, (m.commands bus cs).2 = ⟨{ m.core with regs := r }, m.env⟩ ∧
      r.cells = s ∧ r.Shows s ∧
      (∀ x, s x = (cs.filterMap (Command.written x)).getLastD 0) ∧
      (∀ pair high low, pair.halves? = some (high, low) →
        (r.word pair).toNat = 256 * (r.byte high).toNat + (r.byte low).toNat) ∧
      ∀ c : Command, c.isWrite = true →
        ∃ q, (m.commands bus (cs ++ [c])).2 = ⟨{ m.core with regs := q }, m.env⟩ ∧
          ∀ x, c.written x = none → q.cells x = r.cells x := by
  intro s
  have hrun {ds : List Command} (hds : ∀ d ∈ ds, d.isWrite = true) :
      (m.commands bus ds).2 =
        ⟨{ m.core with regs := ds.foldl (fun r c => c.write r) {} }, m.env⟩ := by
    rw [commands_of_isWrite bus m hds, hm]
  have hupper : Registers.UpperFlags {} := rfl
  have hcells := Registers.cells_foldl_write cs {}
  rw [Registers.cells_default] at hcells
  have hshows := Registers.shows_cells (hupper.foldl_write cs)
  rw [hcells] at hshows
  refine ⟨_, hrun hcs, hcells, hshows, Cells.foldl_write cs _,
    fun _ _ _ => Registers.toNat_word_eq_halves _, fun c hc => ?_⟩
  have hall : ∀ d ∈ cs ++ [c], d.isWrite = true :=
    List.forall_mem_append.2 ⟨hcs, List.forall_mem_singleton.2 hc⟩
  refine ⟨_, hrun hall, fun x hx => ?_⟩
  rw [List.foldl_append]
  exact Registers.cells_write_of_eq_none _ hx

/-- Writes to AF through the pair, a flag and a half, in this order. -/
theorem cells_law_af :
    let m : Machine Unit := ⟨{ regs := {} }, ()⟩
    let cs : List Command :=
      [.assign (.word .af 0x12FF), .setFlags .z false, .assign (.byte .a 0x99)]
    m.core.regs = {} ∧ (∀ c ∈ cs, c.isWrite = true) ∧
      ((m.commands (Bus.rom []) cs).2.core.regs.word .af).toNat = 0x9970 := by
  intro m cs
  have hcs : ∀ c ∈ cs, c.isWrite = true := by decide
  obtain ⟨r, hr, -, hshows, -⟩ := cells_law (Bus.rom []) (m := m) rfl hcs
  refine ⟨rfl, hcs, ?_⟩
  rw [hr, hshows.word]
  decide

end Machine

end Sm83
