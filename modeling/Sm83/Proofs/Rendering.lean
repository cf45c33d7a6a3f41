import Sm83.Catalog

/-!
# Filling in templates

The words of a template are filled in first and the bytes afterwards, so the second pass goes over
text that the first has inserted. It finds nothing there: the inserted text consists of hexadecimal
digits, so it holds no percent sign and no X, and every placeholder begins with the one and ends
with the other less than four characters later. So the two passes are one scan, which cuts the
template into placeholders and characters that stand for themselves and replaces each placeholder
by its digits.

## Main definitions

* `Template.Piece`, `Template.pieces`: what a scan from left to right finds in a template
* `Template.Clean`: every percent sign of a text begins a placeholder

## Main results

* `Template.pieces_fillWord`: filling in the words makes no placeholder and breaks none
* `Template.fillByte_fillWord`: the two passes are one scan
* `Operation.clean_template`: the templates of all operations are clean
* `Template.render_law`: a template is filled in by one scan, and no percent sign is left in the
  text of an instruction
-/

namespace Sm83

/-! ## Digits -/

namespace Hex

/-- Neither end of a placeholder is a digit. -/
theorem IsDigit.ne {c : Char} (h : IsDigit c) : c ≠ '%' ∧ c ≠ 'X' := by
  constructor
  · rintro rfl
    revert h
    unfold IsDigit
    decide
  · rintro rfl
    revert h
    unfold IsDigit
    decide

end Hex

namespace Template

/-! ## The pieces of a template -/

/-- What a scan finds in a template: the placeholder of a word or of a byte, or a character that
stands for itself. -/
inductive Piece where
  | word
  | byte
  | char (c : Char)
  deriving DecidableEq

namespace Piece

/-- The piece as it stands in the template. -/
def spelling : Piece → List Char
  | word => ['%', '0', '4', 'X']
  | byte => ['%', '0', '2', 'X']
  | char c => [c]

/-- The text that takes its place: four digits for the word whose low byte comes first, two for the
byte. A missing byte is zero. -/
def text (operands : List UInt8) : Piece → List Char
  | word => Hex.digits 4 ((operands.getD 0 0).toNat + 256 * (operands.getD 1 0).toNat)
  | byte => Hex.digits 2 (operands.getD 0 0).toNat
  | char c => [c]

end Piece

/-- The pieces of a template, in one scan from left to right. -/
def pieces : List Char → List Piece
  | '%' :: '0' :: '4' :: 'X' :: rest => .word :: pieces rest
  | '%' :: '0' :: '2' :: 'X' :: rest => .byte :: pieces rest
  | c :: rest => .char c :: pieces rest
  | [] => []

/-- The pieces spell the template. -/
theorem spelling_pieces (t : List Char) : (pieces t).flatMap Piece.spelling = t := by
  induction t using pieces.induct with
  | case1 rest ih => rw [pieces, List.flatMap_cons, ih]; rfl
  | case2 rest ih => rw [pieces, List.flatMap_cons, ih]; rfl
  | case3 c rest hw hb ih => rw [pieces.eq_3 c rest hw hb, List.flatMap_cons, ih]; rfl
  | case4 => rfl

/-- A character other than the percent sign stands for itself, whatever follows. -/
theorem pieces_cons_of_ne {c : Char} (hc : c ≠ '%') (rest : List Char) :
    pieces (c :: rest) = .char c :: pieces rest :=
  pieces.eq_3 c rest (fun _ h _ => hc h) fun _ h _ => hc h

theorem pieces_append_of_notMem {xs : List Char} (h : '%' ∉ xs) (ys : List Char) :
    pieces (xs ++ ys) = xs.map .char ++ pieces ys := by
  induction xs with
  | nil => rfl
  | cons c xs ih =>
    rw [List.mem_cons, not_or] at h
    rw [List.cons_append, pieces_cons_of_ne (Ne.symm h.1), ih h.2]
    rfl

/-! ## The two passes

The first pass replaces the placeholders of words and leaves those of bytes as they are. -/

/-- What the first pass leaves in the place of a piece. -/
def Piece.afterWords (w : UInt16) : Piece → List Piece
  | word => (Hex.word w).map .char
  | byte => [byte]
  | char c => [char c]

/-- **No placeholder ends in inserted text.** A text that ends with an X and is short enough for the
end of a placeholder stands at the start of a template if it does after the first pass. -/
theorem prefix_of_prefix_fillWord {w : UInt16} {t p : List Char} (hp : p.length ≤ 3)
    (h : p ++ ['X'] <+: fillWord w t) : p ++ ['X'] <+: t := by
  induction t using fillWord.induct generalizing p with
  | case1 rest ih =>
    -- The first four characters are digits, and the X would be one of them.
    have hlength : (p ++ ['X']).length ≤ (Hex.word w).length := by
      rw [List.length_append, List.length_singleton]
      exact Nat.succ_le_succ hp
    rw [fillWord] at h
    have hdigits := List.prefix_of_prefix_length_le h (List.prefix_append _ _) hlength
    have hX : 'X' ∈ Hex.word w :=
      hdigits.subset (List.mem_append_right p (List.mem_singleton_self _))
    exact absurd rfl (Hex.isDigit_of_mem_word hX).ne.2
  | case2 c rest hc ih =>
    rw [fillWord.eq_2 w c rest hc] at h
    cases p with
    | nil =>
      obtain ⟨rfl, -⟩ := List.cons_prefix_cons.1 h
      exact List.cons_prefix_cons.2 ⟨rfl, List.nil_prefix⟩
    | cons a p =>
      rw [List.cons_append] at h ⊢
      obtain ⟨rfl, hrest⟩ := List.cons_prefix_cons.1 h
      exact List.cons_prefix_cons.2 ⟨rfl, ih (Nat.le_of_succ_le hp) hrest⟩
  | case3 => exact h

/-- So a character that begins no placeholder of the template begins none after the first pass. -/
theorem pieces_cons_fillWord (w : UInt16) {c : Char} {rest : List Char}
    (hw : ∀ s, c = '%' → rest = '0' :: '4' :: 'X' :: s → False)
    (hb : ∀ s, c = '%' → rest = '0' :: '2' :: 'X' :: s → False) :
    pieces (c :: fillWord w rest) = .char c :: pieces (fillWord w rest) := by
  have find {d : Char} {s : List Char} (h : fillWord w rest = '0' :: d :: 'X' :: s) :
      ∃ s, rest = '0' :: d :: 'X' :: s := by
    have hprefix : ['0', d] ++ ['X'] <+: fillWord w rest := ⟨s, h.symm⟩
    obtain ⟨s, hs⟩ := prefix_of_prefix_fillWord (p := ['0', d]) (Nat.le_succ 2) hprefix
    exact ⟨s, hs.symm⟩
  refine pieces.eq_3 c _ (fun s hc h => ?_) fun s hc h => ?_
  · obtain ⟨s, hs⟩ := find h
    exact hw s hc hs
  · obtain ⟨s, hs⟩ := find h
    exact hb s hc hs

theorem notMem_of_isDigit {xs : List Char} (h : ∀ c ∈ xs, Hex.IsDigit c) : '%' ∉ xs :=
  fun hmem => (h _ hmem).ne.1 rfl

/-- **Filling in the words makes no placeholder and breaks none.** What a scan finds after the first
pass are the pieces of the template, with the digits of the word as characters that stand for
themselves. -/
theorem pieces_fillWord (w : UInt16) (t : List Char) :
    pieces (fillWord w t) = (pieces t).flatMap (Piece.afterWords w) := by
  induction t using pieces.induct with
  | case1 rest ih =>
    rw [fillWord, pieces_append_of_notMem (notMem_of_isDigit fun _ => Hex.isDigit_of_mem_word), ih,
      pieces, List.flatMap_cons]
    rfl
  | case2 rest ih =>
    have hpass : fillWord w ('%' :: '0' :: '2' :: 'X' :: rest) =
        '%' :: '0' :: '2' :: 'X' :: fillWord w rest := by simp [fillWord]
    rw [hpass, pieces, ih, pieces, List.flatMap_cons]
    rfl
  | case3 c rest hw hb ih =>
    rw [fillWord.eq_2 w c rest hw, pieces_cons_fillWord w hw hb, ih, pieces.eq_3 c rest hw hb,
      List.flatMap_cons]
    rfl
  | case4 => rfl

/-- What the second pass leaves in the place of a piece. -/
def Piece.afterBytes (b : UInt8) : Piece → List Char
  | word => spelling word
  | byte => Hex.byte b
  | char c => [c]

theorem fillByte_eq (b : UInt8) (t : List Char) :
    fillByte b t = (pieces t).flatMap (Piece.afterBytes b) := by
  induction t using pieces.induct with
  | case1 rest ih =>
    have hpass : fillByte b ('%' :: '0' :: '4' :: 'X' :: rest) =
        '%' :: '0' :: '4' :: 'X' :: fillByte b rest := by simp [fillByte]
    rw [hpass, ih, pieces, List.flatMap_cons]
    rfl
  | case2 rest ih => rw [fillByte, ih, pieces, List.flatMap_cons]; rfl
  | case3 c rest hw hb ih => rw [fillByte.eq_2 b c rest hb, ih, pieces.eq_3 c rest hw hb]; rfl
  | case4 => rfl

theorem headD_eq_getD (operands : List UInt8) : operands.headD 0 = operands.getD 0 0 := by
  cases operands <;> rfl

theorem toNat_wordOfBytes (operands : List UInt8) :
    (wordOfBytes operands).toNat =
      (operands.getD 0 0).toNat + 256 * (operands.getD 1 0).toNat := by
  have hjoin : wordOfBytes operands = join (operands.getD 1 0) (operands.getD 0 0) := by
    rcases operands with _ | ⟨low, _ | ⟨high, rest⟩⟩ <;> rfl
  rw [hjoin, toNat_join, Nat.add_comm]

/-- **The two passes are one scan.** -/
theorem fillByte_fillWord (operands : List UInt8) (t : List Char) :
    fillByte (operands.headD 0) (fillWord (wordOfBytes operands) t) =
      (pieces t).flatMap (Piece.text operands) := by
  rw [fillByte_eq, pieces_fillWord, List.flatMap_assoc]
  refine congrArg (List.flatMap · (pieces t)) (funext fun p => ?_)
  cases p with
  | word =>
    -- The second pass copies the digits of the word, which are no placeholders.
    rw [Piece.text, ← toNat_wordOfBytes, Hex.digits_word]
    simp only [Piece.afterWords, List.flatMap_map, Piece.afterBytes, List.flatMap_singleton']
  | byte =>
    rw [Piece.text, ← headD_eq_getD, Hex.digits_byte]
    exact List.append_nil _
  | char c => rfl

/-! ## Percent signs -/

/-- Every percent sign of a text begins a placeholder. -/
def Clean (text : String) : Prop := .char '%' ∉ pieces text.toList

instance (text : String) : Decidable (Clean text) := inferInstanceAs (Decidable (_ ∉ _))

/-- Where every percent sign has its placeholder, none is completed by what follows. -/
theorem pieces_append {xs : List Char} (h : .char '%' ∉ pieces xs) (ys : List Char) :
    pieces (xs ++ ys) = pieces xs ++ pieces ys := by
  induction xs using pieces.induct with
  | case1 rest ih =>
    rw [pieces, List.mem_cons, not_or] at h
    simp only [List.cons_append, pieces, ih h.2]
  | case2 rest ih =>
    rw [pieces, List.mem_cons, not_or] at h
    simp only [List.cons_append, pieces, ih h.2]
  | case3 c rest hw hb ih =>
    rw [pieces.eq_3 c rest hw hb, List.mem_cons, not_or] at h
    have hc : c ≠ '%' := fun hc => h.1 (by rw [hc])
    rw [List.cons_append, pieces_cons_of_ne hc, ih h.2, pieces_cons_of_ne hc, List.cons_append]
  | case4 => rfl

theorem Clean.append {x y : String} (hx : Clean x) (hy : Clean y) : Clean (x ++ y) := by
  rw [Clean, String.toList_append, pieces_append hx, List.mem_append, not_or]
  exact ⟨hx, hy⟩

/-- **No percent sign is left** of a template in which each has its placeholder. -/
theorem Clean.notMem_render {template : String} (h : Clean template) (operands : List UInt8) :
    '%' ∉ (render template operands).toList := by
  rw [render, String.toList_ofList, fillByte_fillWord, List.mem_flatMap]
  rintro ⟨p, hp, hmem⟩
  cases p with
  | word =>
    rw [Piece.text, ← toNat_wordOfBytes, Hex.digits_word] at hmem
    exact (Hex.isDigit_of_mem_word hmem).ne.1 rfl
  | byte =>
    rw [Piece.text, Hex.digits_byte] at hmem
    exact (Hex.isDigit_of_mem_byte hmem).ne.1 rfl
  | char c =>
    obtain rfl := List.mem_singleton.1 hmem
    exact h hp

end Template

/-! ## The templates of the tables -/

namespace Operation

open Template (Clean)

theorem clean_branchTemplate {mnemonic : String} (hm : Clean mnemonic) (cc : Option Condition)
    {target : Option String} (ht : ∀ t ∈ target, Clean t) :
    Clean (branchTemplate mnemonic cc target) := by
  have condition (cc : Condition) : Clean cc.text := by cases cc <;> decide
  have hspace : Clean " " := by decide
  have hcomma : Clean ", " := by decide
  cases cc with
  | none =>
    cases target with
    | none => exact hm
    | some t => exact (hm.append hspace).append (ht t rfl)
  | some cc =>
    have hcondition := (hm.append hspace).append (condition cc)
    cases target with
    | none => exact hcondition
    | some t => exact (hcondition.append hcomma).append (ht t rfl)

/-- **The templates of all operations are clean.** They are put together from clean texts. -/
theorem clean_template (op : Operation) : Clean op.template := by
  have byte (r : ByteOperand) : Clean r.text := by cases r <;> decide
  have word (r : WordOperand) : Clean r.text := by cases r <;> decide
  have stack (r : StackOperand) : Clean r.text := by cases r <;> decide
  have pointer (p : Pointer) : Clean p.text := by cases p <;> decide
  have access (p : Pointer) : Clean p.mnemonic := by cases p <;> decide
  have arithmetic (op : Arithmetic) : Clean op.mnemonic := by cases op <;> decide
  have rotation (op : Rotation) : Clean op.mnemonic := by cases op <;> decide
  have index (i : Fin 8) : Clean (toString i.val) := by
    revert i
    decide
  have restart (n : Fin 8) : Clean (hexByte (restartAddress n)) := by
    revert n
    decide
  have hcomma : Clean ", " := by decide
  have hspace : Clean " " := by decide
  have hA : Clean " A, " := by decide
  -- A single bit of a byte operand is named by its number.
  have bit {mnemonic : String} (hm : Clean mnemonic) (i : Fin 8) (r : ByteOperand) :
      Clean (mnemonic ++ toString i.val ++ ", " ++ r.text) :=
    ((hm.append (index i)).append hcomma).append (byte r)
  cases op with
  | nop | stop | halt | di | ei | escape | invalid => decide
  | storeSp | ldSpHl | ldHlSp | daa | cpl | scf | ccf | addSp | jpHl | reti => decide
  | ld dst src =>
    exact ((Clean.append (by decide) (byte dst)).append hcomma).append (byte src)
  | ldImm dst => exact (Clean.append (by decide) (byte dst)).append (by decide)
  | storeA p => exact (((access p).append hspace).append (pointer p)).append (by decide)
  | loadA p => exact ((access p).append hA).append (pointer p)
  | ldImm16 dst => exact (Clean.append (by decide) (word dst)).append (by decide)
  | push src | pop src => exact Clean.append (by decide) (stack src)
  | alu op src =>
    have named : Clean (op.mnemonic ++ " A, " ++ src.text) :=
      ((arithmetic op).append hA).append (byte src)
    cases op with
    | sub => exact Clean.append (by decide) (byte src)
    | add | adc | sbc | and | xor | or | cp => exact named
  | aluImm op => exact (arithmetic op).append (by decide)
  | inc r | dec r => exact Clean.append (by decide) (byte r)
  | inc16 r | dec16 r | addHl r => exact Clean.append (by decide) (word r)
  | rotateA op => exact (rotation op).append (by decide)
  | jr cc | jp cc | call cc =>
    refine clean_branchTemplate (by decide) cc ?_
    intro t ht
    obtain rfl := Option.mem_some_iff.1 ht
    decide
  | ret cc => exact clean_branchTemplate (by decide) cc nofun
  | rst n => exact Clean.append (by decide) (restart n)
  | rotate op r => exact ((rotation op).append hspace).append (byte r)
  | bit i r | res i r | set i r => exact bit (by decide) i r

end Operation

/-- No percent sign is left in the text of an instruction. -/
theorem Instruction.notMem_render (op : Operation) (operands : List UInt8) :
    '%' ∉ ((ofOperation op).render operands).toList := op.clean_template.notMem_render operands

/-! ## The law of rendering -/

/-- **The law of rendering.** Any template is filled in by one scan from left to right, which finds
the placeholders in it and replaces each by the digits of the word or of the byte; what a
scan finds after the words have been filled in are the pieces of the template, with the digits as
characters that stand for themselves. Bytes after the second do not count. Of the templates of the
two tables, no percent sign is left. -/
theorem Template.render_law :
    (∀ (template : String) (operands : List UInt8),
      render template operands =
          String.ofList ((pieces template.toList).flatMap (Piece.text operands)) ∧
        (pieces template.toList).flatMap Piece.spelling = template.toList ∧
        pieces (fillWord (wordOfBytes operands) template.toList) =
          (pieces template.toList).flatMap (Piece.afterWords (wordOfBytes operands)) ∧
        render template operands = render template (operands.take 2)) ∧
    ∀ (opcode : UInt8) (operands : List UInt8),
      '%' ∉ ((lookup opcode).render operands).toList ∧
        '%' ∉ ((lookupExtended opcode).render operands).toList := by
  refine ⟨fun template operands => ⟨?_, spelling_pieces _, pieces_fillWord _ _, ?_⟩, ?_⟩
  · rw [render, fillByte_fillWord]
  · rcases operands with _ | ⟨low, _ | ⟨high, rest⟩⟩ <;> rfl
  · intro opcode operands
    rw [lookup_eq, lookupExtended_eq]
    exact ⟨Instruction.notMem_render _ _, Instruction.notMem_render _ _⟩

/-- Placeholders across which digits are inserted: neither is there in the template, and neither
comes about. -/
example : Template.render "%%04X02X %02%04X" [0x02, 0x00] = "%000202X %020002" := by decide

end Sm83
