import Sm83.Hex
import Sm83.Operation

/-!
# The text of an instruction

An instruction is displayed by a template in which `%04X` stands for the word that the first two
immediate bytes spell and `%02X` for the first immediate byte; a missing byte is zero. All words
are filled in first, then all bytes.

## Main definitions

* `Operation.template`: the template of an operation
* `Template.render`: a template with its placeholders filled in
-/

namespace Sm83

/-! ## Names of operands -/

/-- The name of an operand. -/
def ByteOperand.text : ByteOperand → String
  | b => "B"
  | c => "C"
  | d => "D"
  | e => "E"
  | h => "H"
  | l => "L"
  | atHL => "[HL]"
  | a => "A"

/-- The name of an operand. -/
def WordOperand.text : WordOperand → String
  | bc => "BC"
  | de => "DE"
  | hl => "HL"
  | sp => "SP"

/-- The name of an operand. -/
def StackOperand.text : StackOperand → String
  | bc => "BC"
  | de => "DE"
  | hl => "HL"
  | af => "AF"

/-- The template of a memory operand. -/
def Pointer.text : Pointer → String
  | bc => "[BC]"
  | de => "[DE]"
  | hlInc => "[HL+]"
  | hlDec => "[HL-]"
  | highImm => "[0x%02X]"
  | highC => "[C]"
  | absolute => "[0x%04X]"

/-- The mnemonic of a load or store of the accumulator: the top page has its own. -/
def Pointer.mnemonic : Pointer → String
  | highImm | highC => "LDH"
  | _ => "LD"

/-- The name of a condition. -/
def Condition.text : Condition → String
  | nz => "NZ"
  | z => "Z"
  | nc => "NC"
  | c => "C"

/-- The mnemonic of an operation of the accumulator. -/
def Arithmetic.mnemonic : Arithmetic → String
  | add => "ADD"
  | adc => "ADC"
  | sub => "SUB"
  | sbc => "SBC"
  | and => "AND"
  | xor => "XOR"
  | or => "OR"
  | cp => "CP"

/-- The mnemonic of a rotation. -/
def Rotation.mnemonic : Rotation → String
  | rlc => "RLC"
  | rrc => "RRC"
  | rl => "RL"
  | rr => "RR"
  | sla => "SLA"
  | sra => "SRA"
  | swap => "SWAP"
  | srl => "SRL"

/-! ## Templates -/

namespace Operation

/-- The mnemonic of a branch, with its condition and its target if it has any. -/
def branchTemplate (mnemonic : String) (cc : Option Condition) (target : Option String) : String :=
  match cc, target with
  | none, none => mnemonic
  | none, some t => mnemonic ++ " " ++ t
  | some cc, none => mnemonic ++ " " ++ cc.text
  | some cc, some t => mnemonic ++ " " ++ cc.text ++ ", " ++ t

/-- The template of an operation. A subtraction of a byte operand does not name the accumulator;
every other operation of the accumulator does. -/
def template : Operation → String
  | nop => "NOP"
  | stop => "STOP"
  | halt => "HALT"
  | di => "DI"
  | ei => "EI"
  | escape => "PREFIX CB"
  | invalid => "INVALID"
  | ld dst src => "LD " ++ dst.text ++ ", " ++ src.text
  | ldImm dst => "LD " ++ dst.text ++ ", 0x%02X"
  | storeA p => p.mnemonic ++ " " ++ p.text ++ ", A"
  | loadA p => p.mnemonic ++ " A, " ++ p.text
  | ldImm16 dst => "LD " ++ dst.text ++ ", 0x%04X"
  | storeSp => "LD [0x%04X], SP"
  | ldSpHl => "LD SP, HL"
  | ldHlSp => "LD HL, SP+0x%02X"
  | push src => "PUSH " ++ src.text
  | pop dst => "POP " ++ dst.text
  -- The immediate subtraction is written out in full, unlike this one.
  | alu .sub src => "SUB " ++ src.text
  | alu op src => op.mnemonic ++ " A, " ++ src.text
  | aluImm op => op.mnemonic ++ " A, 0x%02X"
  | inc r => "INC " ++ r.text
  | dec r => "DEC " ++ r.text
  | daa => "DAA"
  | cpl => "CPL"
  | scf => "SCF"
  | ccf => "CCF"
  | inc16 r => "INC " ++ r.text
  | dec16 r => "DEC " ++ r.text
  | addHl src => "ADD HL, " ++ src.text
  | addSp => "ADD SP, 0x%02X"
  | rotateA op => op.mnemonic ++ "A"
  | jr cc => branchTemplate "JR" cc (some "0x%02X")
  | jp cc => branchTemplate "JP" cc (some "0x%04X")
  | jpHl => "JP HL"
  | call cc => branchTemplate "CALL" cc (some "0x%04X")
  | ret cc => branchTemplate "RET" cc none
  | reti => "RETI"
  | rst n => "RST 0x" ++ hexByte (restartAddress n)
  | rotate op r => op.mnemonic ++ " " ++ r.text
  | bit i r => "BIT " ++ toString i.val ++ ", " ++ r.text
  | res i r => "RES " ++ toString i.val ++ ", " ++ r.text
  | set i r => "SET " ++ toString i.val ++ ", " ++ r.text

end Operation

/-! ## Filling in the immediate bytes -/

namespace Template

/-- The text with every `%04X` replaced by the digits of a word. -/
def fillWord (w : UInt16) : List Char → List Char
  | '%' :: '0' :: '4' :: 'X' :: rest => Hex.word w ++ fillWord w rest
  | c :: rest => c :: fillWord w rest
  | [] => []

/-- The text with every `%02X` replaced by the digits of a byte. -/
def fillByte (b : UInt8) : List Char → List Char
  | '%' :: '0' :: '2' :: 'X' :: rest => Hex.byte b ++ fillByte b rest
  | c :: rest => c :: fillByte b rest
  | [] => []

/-- A template with its placeholders filled in from the immediate bytes. -/
def render (template : String) (operands : List UInt8) : String :=
  String.ofList
    (fillByte (operands.headD 0) (fillWord (wordOfBytes operands) template.toList))

end Template

end Sm83
