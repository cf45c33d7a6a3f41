import Sm83.Instruction

/-!
# The table of the opcodes that need no escape byte

One row per opcode, sixteen to a block: the display template, the operation, the encoded length and
the cost in ticks. A restart is given by its address. An unassigned opcode has no cost, and the row
of the escape byte is superseded by the one that it selects in the other table.

## Main definitions

* `baseTable`: the rows
-/

namespace Sm83

set_option maxRecDepth 1000 in
/-- The table of the opcodes that need no escape byte. -/
def baseTable : Vector Instruction 256 := #v[
  -- 0x00
  ⟨"NOP", .nop, 1, 4⟩,
  ⟨"LD BC, 0x%04X", .ldImm16 .bc, 3, 12⟩,
  ⟨"LD [BC], A", .storeA .bc, 1, 8⟩,
  ⟨"INC BC", .inc16 .bc, 1, 8⟩,
  ⟨"INC B", .inc .b, 1, 4⟩,
  ⟨"DEC B", .dec .b, 1, 4⟩,
  ⟨"LD B, 0x%02X", .ldImm .b, 2, 8⟩,
  ⟨"RLCA", .rotateA .rlc, 1, 4⟩,
  ⟨"LD [0x%04X], SP", .storeSp, 3, 20⟩,
  ⟨"ADD HL, BC", .addHl .bc, 1, 8⟩,
  ⟨"LD A, [BC]", .loadA .bc, 1, 8⟩,
  ⟨"DEC BC", .dec16 .bc, 1, 8⟩,
  ⟨"INC C", .inc .c, 1, 4⟩,
  ⟨"DEC C", .dec .c, 1, 4⟩,
  ⟨"LD C, 0x%02X", .ldImm .c, 2, 8⟩,
  ⟨"RRCA", .rotateA .rrc, 1, 4⟩,
  -- 0x10
  ⟨"STOP", .stop, 2, 4⟩,
  ⟨"LD DE, 0x%04X", .ldImm16 .de, 3, 12⟩,
  ⟨"LD [DE], A", .storeA .de, 1, 8⟩,
  ⟨"INC DE", .inc16 .de, 1, 8⟩,
  ⟨"INC D", .inc .d, 1, 4⟩,
  ⟨"DEC D", .dec .d, 1, 4⟩,
  ⟨"LD D, 0x%02X", .ldImm .d, 2, 8⟩,
  ⟨"RLA", .rotateA .rl, 1, 4⟩,
  ⟨"JR 0x%02X", .jr none, 2, 12⟩,
  ⟨"ADD HL, DE", .addHl .de, 1, 8⟩,
  ⟨"LD A, [DE]", .loadA .de, 1, 8⟩,
  ⟨"DEC DE", .dec16 .de, 1, 8⟩,
  ⟨"INC E", .inc .e, 1, 4⟩,
  ⟨"DEC E", .dec .e, 1, 4⟩,
  ⟨"LD E, 0x%02X", .ldImm .e, 2, 8⟩,
  ⟨"RRA", .rotateA .rr, 1, 4⟩,
  -- 0x20
  ⟨"JR NZ, 0x%02X", .jr (some .nz), 2, 8⟩,
  ⟨"LD HL, 0x%04X", .ldImm16 .hl, 3, 12⟩,
  ⟨"LD [HL+], A", .storeA .hlInc, 1, 8⟩,
  ⟨"INC HL", .inc16 .hl, 1, 8⟩,
  ⟨"INC H", .inc .h, 1, 4⟩,
  ⟨"DEC H", .dec .h, 1, 4⟩,
  ⟨"LD H, 0x%02X", .ldImm .h, 2, 8⟩,
  ⟨"DAA", .daa, 1, 4⟩,
  ⟨"JR Z, 0x%02X", .jr (some .z), 2, 8⟩,
  ⟨"ADD HL, HL", .addHl .hl, 1, 8⟩,
  ⟨"LD A, [HL+]", .loadA .hlInc, 1, 8⟩,
  ⟨"DEC HL", .dec16 .hl, 1, 8⟩,
  ⟨"INC L", .inc .l, 1, 4⟩,
  ⟨"DEC L", .dec .l, 1, 4⟩,
  ⟨"LD L, 0x%02X", .ldImm .l, 2, 8⟩,
  ⟨"CPL", .cpl, 1, 4⟩,
  -- 0x30
  ⟨"JR NC, 0x%02X", .jr (some .nc), 2, 8⟩,
  ⟨"LD SP, 0x%04X", .ldImm16 .sp, 3, 12⟩,
  ⟨"LD [HL-], A", .storeA .hlDec, 1, 8⟩,
  ⟨"INC SP", .inc16 .sp, 1, 8⟩,
  ⟨"INC [HL]", .inc .atHL, 1, 12⟩,
  ⟨"DEC [HL]", .dec .atHL, 1, 12⟩,
  ⟨"LD [HL], 0x%02X", .ldImm .atHL, 2, 12⟩,
  ⟨"SCF", .scf, 1, 4⟩,
  ⟨"JR C, 0x%02X", .jr (some .c), 2, 8⟩,
  ⟨"ADD HL, SP", .addHl .sp, 1, 8⟩,
  ⟨"LD A, [HL-]", .loadA .hlDec, 1, 8⟩,
  ⟨"DEC SP", .dec16 .sp, 1, 8⟩,
  ⟨"INC A", .inc .a, 1, 4⟩,
  ⟨"DEC A", .dec .a, 1, 4⟩,
  ⟨"LD A, 0x%02X", .ldImm .a, 2, 8⟩,
  ⟨"CCF", .ccf, 1, 4⟩,
  -- 0x40
  ⟨"LD B, B", .ld .b .b, 1, 4⟩,
  ⟨"LD B, C", .ld .b .c, 1, 4⟩,
  ⟨"LD B, D", .ld .b .d, 1, 4⟩,
  ⟨"LD B, E", .ld .b .e, 1, 4⟩,
  ⟨"LD B, H", .ld .b .h, 1, 4⟩,
  ⟨"LD B, L", .ld .b .l, 1, 4⟩,
  ⟨"LD B, [HL]", .ld .b .atHL, 1, 8⟩,
  ⟨"LD B, A", .ld .b .a, 1, 4⟩,
  ⟨"LD C, B", .ld .c .b, 1, 4⟩,
  ⟨"LD C, C", .ld .c .c, 1, 4⟩,
  ⟨"LD C, D", .ld .c .d, 1, 4⟩,
  ⟨"LD C, E", .ld .c .e, 1, 4⟩,
  ⟨"LD C, H", .ld .c .h, 1, 4⟩,
  ⟨"LD C, L", .ld .c .l, 1, 4⟩,
  ⟨"LD C, [HL]", .ld .c .atHL, 1, 8⟩,
  ⟨"LD C, A", .ld .c .a, 1, 4⟩,
  -- 0x50
  ⟨"LD D, B", .ld .d .b, 1, 4⟩,
  ⟨"LD D, C", .ld .d .c, 1, 4⟩,
  ⟨"LD D, D", .ld .d .d, 1, 4⟩,
  ⟨"LD D, E", .ld .d .e, 1, 4⟩,
  ⟨"LD D, H", .ld .d .h, 1, 4⟩,
  ⟨"LD D, L", .ld .d .l, 1, 4⟩,
  ⟨"LD D, [HL]", .ld .d .atHL, 1, 8⟩,
  ⟨"LD D, A", .ld .d .a, 1, 4⟩,
  ⟨"LD E, B", .ld .e .b, 1, 4⟩,
  ⟨"LD E, C", .ld .e .c, 1, 4⟩,
  ⟨"LD E, D", .ld .e .d, 1, 4⟩,
  ⟨"LD E, E", .ld .e .e, 1, 4⟩,
  ⟨"LD E, H", .ld .e .h, 1, 4⟩,
  ⟨"LD E, L", .ld .e .l, 1, 4⟩,
  ⟨"LD E, [HL]", .ld .e .atHL, 1, 8⟩,
  ⟨"LD E, A", .ld .e .a, 1, 4⟩,
  -- 0x60
  ⟨"LD H, B", .ld .h .b, 1, 4⟩,
  ⟨"LD H, C", .ld .h .c, 1, 4⟩,
  ⟨"LD H, D", .ld .h .d, 1, 4⟩,
  ⟨"LD H, E", .ld .h .e, 1, 4⟩,
  ⟨"LD H, H", .ld .h .h, 1, 4⟩,
  ⟨"LD H, L", .ld .h .l, 1, 4⟩,
  ⟨"LD H, [HL]", .ld .h .atHL, 1, 8⟩,
  ⟨"LD H, A", .ld .h .a, 1, 4⟩,
  ⟨"LD L, B", .ld .l .b, 1, 4⟩,
  ⟨"LD L, C", .ld .l .c, 1, 4⟩,
  ⟨"LD L, D", .ld .l .d, 1, 4⟩,
  ⟨"LD L, E", .ld .l .e, 1, 4⟩,
  ⟨"LD L, H", .ld .l .h, 1, 4⟩,
  ⟨"LD L, L", .ld .l .l, 1, 4⟩,
  ⟨"LD L, [HL]", .ld .l .atHL, 1, 8⟩,
  ⟨"LD L, A", .ld .l .a, 1, 4⟩,
  -- 0x70
  ⟨"LD [HL], B", .ld .atHL .b, 1, 8⟩,
  ⟨"LD [HL], C", .ld .atHL .c, 1, 8⟩,
  ⟨"LD [HL], D", .ld .atHL .d, 1, 8⟩,
  ⟨"LD [HL], E", .ld .atHL .e, 1, 8⟩,
  ⟨"LD [HL], H", .ld .atHL .h, 1, 8⟩,
  ⟨"LD [HL], L", .ld .atHL .l, 1, 8⟩,
  ⟨"HALT", .halt, 1, 4⟩,
  ⟨"LD [HL], A", .ld .atHL .a, 1, 8⟩,
  ⟨"LD A, B", .ld .a .b, 1, 4⟩,
  ⟨"LD A, C", .ld .a .c, 1, 4⟩,
  ⟨"LD A, D", .ld .a .d, 1, 4⟩,
  ⟨"LD A, E", .ld .a .e, 1, 4⟩,
  ⟨"LD A, H", .ld .a .h, 1, 4⟩,
  ⟨"LD A, L", .ld .a .l, 1, 4⟩,
  ⟨"LD A, [HL]", .ld .a .atHL, 1, 8⟩,
  ⟨"LD A, A", .ld .a .a, 1, 4⟩,
  -- 0x80
  ⟨"ADD A, B", .alu .add .b, 1, 4⟩,
  ⟨"ADD A, C", .alu .add .c, 1, 4⟩,
  ⟨"ADD A, D", .alu .add .d, 1, 4⟩,
  ⟨"ADD A, E", .alu .add .e, 1, 4⟩,
  ⟨"ADD A, H", .alu .add .h, 1, 4⟩,
  ⟨"ADD A, L", .alu .add .l, 1, 4⟩,
  ⟨"ADD A, [HL]", .alu .add .atHL, 1, 8⟩,
  ⟨"ADD A, A", .alu .add .a, 1, 4⟩,
  ⟨"ADC A, B", .alu .adc .b, 1, 4⟩,
  ⟨"ADC A, C", .alu .adc .c, 1, 4⟩,
  ⟨"ADC A, D", .alu .adc .d, 1, 4⟩,
  ⟨"ADC A, E", .alu .adc .e, 1, 4⟩,
  ⟨"ADC A, H", .alu .adc .h, 1, 4⟩,
  ⟨"ADC A, L", .alu .adc .l, 1, 4⟩,
  ⟨"ADC A, [HL]", .alu .adc .atHL, 1, 8⟩,
  ⟨"ADC A, A", .alu .adc .a, 1, 4⟩,
  -- 0x90
  ⟨"SUB B", .alu .sub .b, 1, 4⟩,
  ⟨"SUB C", .alu .sub .c, 1, 4⟩,
  ⟨"SUB D", .alu .sub .d, 1, 4⟩,
  ⟨"SUB E", .alu .sub .e, 1, 4⟩,
  ⟨"SUB H", .alu .sub .h, 1, 4⟩,
  ⟨"SUB L", .alu .sub .l, 1, 4⟩,
  ⟨"SUB [HL]", .alu .sub .atHL, 1, 8⟩,
  ⟨"SUB A", .alu .sub .a, 1, 4⟩,
  ⟨"SBC A, B", .alu .sbc .b, 1, 4⟩,
  ⟨"SBC A, C", .alu .sbc .c, 1, 4⟩,
  ⟨"SBC A, D", .alu .sbc .d, 1, 4⟩,
  ⟨"SBC A, E", .alu .sbc .e, 1, 4⟩,
  ⟨"SBC A, H", .alu .sbc .h, 1, 4⟩,
  ⟨"SBC A, L", .alu .sbc .l, 1, 4⟩,
  ⟨"SBC A, [HL]", .alu .sbc .atHL, 1, 8⟩,
  ⟨"SBC A, A", .alu .sbc .a, 1, 4⟩,
  -- 0xA0
  ⟨"AND A, B", .alu .and .b, 1, 4⟩,
  ⟨"AND A, C", .alu .and .c, 1, 4⟩,
  ⟨"AND A, D", .alu .and .d, 1, 4⟩,
  ⟨"AND A, E", .alu .and .e, 1, 4⟩,
  ⟨"AND A, H", .alu .and .h, 1, 4⟩,
  ⟨"AND A, L", .alu .and .l, 1, 4⟩,
  ⟨"AND A, [HL]", .alu .and .atHL, 1, 8⟩,
  ⟨"AND A, A", .alu .and .a, 1, 4⟩,
  ⟨"XOR A, B", .alu .xor .b, 1, 4⟩,
  ⟨"XOR A, C", .alu .xor .c, 1, 4⟩,
  ⟨"XOR A, D", .alu .xor .d, 1, 4⟩,
  ⟨"XOR A, E", .alu .xor .e, 1, 4⟩,
  ⟨"XOR A, H", .alu .xor .h, 1, 4⟩,
  ⟨"XOR A, L", .alu .xor .l, 1, 4⟩,
  ⟨"XOR A, [HL]", .alu .xor .atHL, 1, 8⟩,
  ⟨"XOR A, A", .alu .xor .a, 1, 4⟩,
  -- 0xB0
  ⟨"OR A, B", .alu .or .b, 1, 4⟩,
  ⟨"OR A, C", .alu .or .c, 1, 4⟩,
  ⟨"OR A, D", .alu .or .d, 1, 4⟩,
  ⟨"OR A, E", .alu .or .e, 1, 4⟩,
  ⟨"OR A, H", .alu .or .h, 1, 4⟩,
  ⟨"OR A, L", .alu .or .l, 1, 4⟩,
  ⟨"OR A, [HL]", .alu .or .atHL, 1, 8⟩,
  ⟨"OR A, A", .alu .or .a, 1, 4⟩,
  ⟨"CP A, B", .alu .cp .b, 1, 4⟩,
  ⟨"CP A, C", .alu .cp .c, 1, 4⟩,
  ⟨"CP A, D", .alu .cp .d, 1, 4⟩,
  ⟨"CP A, E", .alu .cp .e, 1, 4⟩,
  ⟨"CP A, H", .alu .cp .h, 1, 4⟩,
  ⟨"CP A, L", .alu .cp .l, 1, 4⟩,
  ⟨"CP A, [HL]", .alu .cp .atHL, 1, 8⟩,
  ⟨"CP A, A", .alu .cp .a, 1, 4⟩,
  -- 0xC0
  ⟨"RET NZ", .ret (some .nz), 1, 8⟩,
  ⟨"POP BC", .pop .bc, 1, 12⟩,
  ⟨"JP NZ, 0x%04X", .jp (some .nz), 3, 12⟩,
  ⟨"JP 0x%04X", .jp none, 3, 16⟩,
  ⟨"CALL NZ, 0x%04X", .call (some .nz), 3, 12⟩,
  ⟨"PUSH BC", .push .bc, 1, 16⟩,
  ⟨"ADD A, 0x%02X", .aluImm .add, 2, 8⟩,
  ⟨"RST 0x00", .rst (row 0x00), 1, 16⟩,
  ⟨"RET Z", .ret (some .z), 1, 8⟩,
  ⟨"RET", .ret none, 1, 16⟩,
  ⟨"JP Z, 0x%04X", .jp (some .z), 3, 12⟩,
  ⟨"PREFIX CB", .escape, 1, 4⟩,
  ⟨"CALL Z, 0x%04X", .call (some .z), 3, 12⟩,
  ⟨"CALL 0x%04X", .call none, 3, 24⟩,
  ⟨"ADC A, 0x%02X", .aluImm .adc, 2, 8⟩,
  ⟨"RST 0x08", .rst (row 0x08), 1, 16⟩,
  -- 0xD0
  ⟨"RET NC", .ret (some .nc), 1, 8⟩,
  ⟨"POP DE", .pop .de, 1, 12⟩,
  ⟨"JP NC, 0x%04X", .jp (some .nc), 3, 12⟩,
  ⟨"INVALID", .invalid, 1, 0⟩,
  ⟨"CALL NC, 0x%04X", .call (some .nc), 3, 12⟩,
  ⟨"PUSH DE", .push .de, 1, 16⟩,
  ⟨"SUB A, 0x%02X", .aluImm .sub, 2, 8⟩,
  ⟨"RST 0x10", .rst (row 0x10), 1, 16⟩,
  ⟨"RET C", .ret (some .c), 1, 8⟩,
  ⟨"RETI", .reti, 1, 16⟩,
  ⟨"JP C, 0x%04X", .jp (some .c), 3, 12⟩,
  ⟨"INVALID", .invalid, 1, 0⟩,
  ⟨"CALL C, 0x%04X", .call (some .c), 3, 12⟩,
  ⟨"INVALID", .invalid, 1, 0⟩,
  ⟨"SBC A, 0x%02X", .aluImm .sbc, 2, 8⟩,
  ⟨"RST 0x18", .rst (row 0x18), 1, 16⟩,
  -- 0xE0
  ⟨"LDH [0x%02X], A", .storeA .highImm, 2, 12⟩,
  ⟨"POP HL", .pop .hl, 1, 12⟩,
  ⟨"LDH [C], A", .storeA .highC, 1, 8⟩,
  ⟨"INVALID", .invalid, 1, 0⟩,
  ⟨"INVALID", .invalid, 1, 0⟩,
  ⟨"PUSH HL", .push .hl, 1, 16⟩,
  ⟨"AND A, 0x%02X", .aluImm .and, 2, 8⟩,
  ⟨"RST 0x20", .rst (row 0x20), 1, 16⟩,
  ⟨"ADD SP, 0x%02X", .addSp, 2, 16⟩,
  ⟨"JP HL", .jpHl, 1, 4⟩,
  ⟨"LD [0x%04X], A", .storeA .absolute, 3, 16⟩,
  ⟨"INVALID", .invalid, 1, 0⟩,
  ⟨"INVALID", .invalid, 1, 0⟩,
  ⟨"INVALID", .invalid, 1, 0⟩,
  ⟨"XOR A, 0x%02X", .aluImm .xor, 2, 8⟩,
  ⟨"RST 0x28", .rst (row 0x28), 1, 16⟩,
  -- 0xF0
  ⟨"LDH A, [0x%02X]", .loadA .highImm, 2, 12⟩,
  ⟨"POP AF", .pop .af, 1, 12⟩,
  ⟨"LDH A, [C]", .loadA .highC, 1, 8⟩,
  ⟨"DI", .di, 1, 4⟩,
  ⟨"INVALID", .invalid, 1, 0⟩,
  ⟨"PUSH AF", .push .af, 1, 16⟩,
  ⟨"OR A, 0x%02X", .aluImm .or, 2, 8⟩,
  ⟨"RST 0x30", .rst (row 0x30), 1, 16⟩,
  ⟨"LD HL, SP+0x%02X", .ldHlSp, 2, 12⟩,
  ⟨"LD SP, HL", .ldSpHl, 1, 8⟩,
  ⟨"LD A, [0x%04X]", .loadA .absolute, 3, 16⟩,
  ⟨"EI", .ei, 1, 4⟩,
  ⟨"INVALID", .invalid, 1, 0⟩,
  ⟨"INVALID", .invalid, 1, 0⟩,
  ⟨"CP A, 0x%02X", .aluImm .cp, 2, 8⟩,
  ⟨"RST 0x38", .rst (row 0x38), 1, 16⟩]

end Sm83
