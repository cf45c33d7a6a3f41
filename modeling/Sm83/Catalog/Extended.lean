import Sm83.Instruction

/-!
# The table of the opcodes that follow the escape byte

One row per opcode, sixteen to a block. Lengths and costs include the escape byte, and every opcode
is assigned.

## Main definitions

* `extendedTable`: the rows, with bits given by `bitNumber`
-/

namespace Sm83

/-- The bit with a number, of which the last three bits count. -/
def bitNumber (n : UInt8) : Fin 8 := column n

set_option maxRecDepth 1000 in
/-- The table of the opcodes that follow the escape byte. -/
def extendedTable : Vector Instruction 256 := #v[
  -- 0x00
  ⟨"RLC B", .rotate .rlc .b, 2, 8⟩,
  ⟨"RLC C", .rotate .rlc .c, 2, 8⟩,
  ⟨"RLC D", .rotate .rlc .d, 2, 8⟩,
  ⟨"RLC E", .rotate .rlc .e, 2, 8⟩,
  ⟨"RLC H", .rotate .rlc .h, 2, 8⟩,
  ⟨"RLC L", .rotate .rlc .l, 2, 8⟩,
  ⟨"RLC [HL]", .rotate .rlc .atHL, 2, 16⟩,
  ⟨"RLC A", .rotate .rlc .a, 2, 8⟩,
  ⟨"RRC B", .rotate .rrc .b, 2, 8⟩,
  ⟨"RRC C", .rotate .rrc .c, 2, 8⟩,
  ⟨"RRC D", .rotate .rrc .d, 2, 8⟩,
  ⟨"RRC E", .rotate .rrc .e, 2, 8⟩,
  ⟨"RRC H", .rotate .rrc .h, 2, 8⟩,
  ⟨"RRC L", .rotate .rrc .l, 2, 8⟩,
  ⟨"RRC [HL]", .rotate .rrc .atHL, 2, 16⟩,
  ⟨"RRC A", .rotate .rrc .a, 2, 8⟩,
  -- 0x10
  ⟨"RL B", .rotate .rl .b, 2, 8⟩,
  ⟨"RL C", .rotate .rl .c, 2, 8⟩,
  ⟨"RL D", .rotate .rl .d, 2, 8⟩,
  ⟨"RL E", .rotate .rl .e, 2, 8⟩,
  ⟨"RL H", .rotate .rl .h, 2, 8⟩,
  ⟨"RL L", .rotate .rl .l, 2, 8⟩,
  ⟨"RL [HL]", .rotate .rl .atHL, 2, 16⟩,
  ⟨"RL A", .rotate .rl .a, 2, 8⟩,
  ⟨"RR B", .rotate .rr .b, 2, 8⟩,
  ⟨"RR C", .rotate .rr .c, 2, 8⟩,
  ⟨"RR D", .rotate .rr .d, 2, 8⟩,
  ⟨"RR E", .rotate .rr .e, 2, 8⟩,
  ⟨"RR H", .rotate .rr .h, 2, 8⟩,
  ⟨"RR L", .rotate .rr .l, 2, 8⟩,
  ⟨"RR [HL]", .rotate .rr .atHL, 2, 16⟩,
  ⟨"RR A", .rotate .rr .a, 2, 8⟩,
  -- 0x20
  ⟨"SLA B", .rotate .sla .b, 2, 8⟩,
  ⟨"SLA C", .rotate .sla .c, 2, 8⟩,
  ⟨"SLA D", .rotate .sla .d, 2, 8⟩,
  ⟨"SLA E", .rotate .sla .e, 2, 8⟩,
  ⟨"SLA H", .rotate .sla .h, 2, 8⟩,
  ⟨"SLA L", .rotate .sla .l, 2, 8⟩,
  ⟨"SLA [HL]", .rotate .sla .atHL, 2, 16⟩,
  ⟨"SLA A", .rotate .sla .a, 2, 8⟩,
  ⟨"SRA B", .rotate .sra .b, 2, 8⟩,
  ⟨"SRA C", .rotate .sra .c, 2, 8⟩,
  ⟨"SRA D", .rotate .sra .d, 2, 8⟩,
  ⟨"SRA E", .rotate .sra .e, 2, 8⟩,
  ⟨"SRA H", .rotate .sra .h, 2, 8⟩,
  ⟨"SRA L", .rotate .sra .l, 2, 8⟩,
  ⟨"SRA [HL]", .rotate .sra .atHL, 2, 16⟩,
  ⟨"SRA A", .rotate .sra .a, 2, 8⟩,
  -- 0x30
  ⟨"SWAP B", .rotate .swap .b, 2, 8⟩,
  ⟨"SWAP C", .rotate .swap .c, 2, 8⟩,
  ⟨"SWAP D", .rotate .swap .d, 2, 8⟩,
  ⟨"SWAP E", .rotate .swap .e, 2, 8⟩,
  ⟨"SWAP H", .rotate .swap .h, 2, 8⟩,
  ⟨"SWAP L", .rotate .swap .l, 2, 8⟩,
  ⟨"SWAP [HL]", .rotate .swap .atHL, 2, 16⟩,
  ⟨"SWAP A", .rotate .swap .a, 2, 8⟩,
  ⟨"SRL B", .rotate .srl .b, 2, 8⟩,
  ⟨"SRL C", .rotate .srl .c, 2, 8⟩,
  ⟨"SRL D", .rotate .srl .d, 2, 8⟩,
  ⟨"SRL E", .rotate .srl .e, 2, 8⟩,
  ⟨"SRL H", .rotate .srl .h, 2, 8⟩,
  ⟨"SRL L", .rotate .srl .l, 2, 8⟩,
  ⟨"SRL [HL]", .rotate .srl .atHL, 2, 16⟩,
  ⟨"SRL A", .rotate .srl .a, 2, 8⟩,
  -- 0x40
  ⟨"BIT 0, B", .bit (bitNumber 0) .b, 2, 8⟩,
  ⟨"BIT 0, C", .bit (bitNumber 0) .c, 2, 8⟩,
  ⟨"BIT 0, D", .bit (bitNumber 0) .d, 2, 8⟩,
  ⟨"BIT 0, E", .bit (bitNumber 0) .e, 2, 8⟩,
  ⟨"BIT 0, H", .bit (bitNumber 0) .h, 2, 8⟩,
  ⟨"BIT 0, L", .bit (bitNumber 0) .l, 2, 8⟩,
  ⟨"BIT 0, [HL]", .bit (bitNumber 0) .atHL, 2, 12⟩,
  ⟨"BIT 0, A", .bit (bitNumber 0) .a, 2, 8⟩,
  ⟨"BIT 1, B", .bit (bitNumber 1) .b, 2, 8⟩,
  ⟨"BIT 1, C", .bit (bitNumber 1) .c, 2, 8⟩,
  ⟨"BIT 1, D", .bit (bitNumber 1) .d, 2, 8⟩,
  ⟨"BIT 1, E", .bit (bitNumber 1) .e, 2, 8⟩,
  ⟨"BIT 1, H", .bit (bitNumber 1) .h, 2, 8⟩,
  ⟨"BIT 1, L", .bit (bitNumber 1) .l, 2, 8⟩,
  ⟨"BIT 1, [HL]", .bit (bitNumber 1) .atHL, 2, 12⟩,
  ⟨"BIT 1, A", .bit (bitNumber 1) .a, 2, 8⟩,
  -- 0x50
  ⟨"BIT 2, B", .bit (bitNumber 2) .b, 2, 8⟩,
  ⟨"BIT 2, C", .bit (bitNumber 2) .c, 2, 8⟩,
  ⟨"BIT 2, D", .bit (bitNumber 2) .d, 2, 8⟩,
  ⟨"BIT 2, E", .bit (bitNumber 2) .e, 2, 8⟩,
  ⟨"BIT 2, H", .bit (bitNumber 2) .h, 2, 8⟩,
  ⟨"BIT 2, L", .bit (bitNumber 2) .l, 2, 8⟩,
  ⟨"BIT 2, [HL]", .bit (bitNumber 2) .atHL, 2, 12⟩,
  ⟨"BIT 2, A", .bit (bitNumber 2) .a, 2, 8⟩,
  ⟨"BIT 3, B", .bit (bitNumber 3) .b, 2, 8⟩,
  ⟨"BIT 3, C", .bit (bitNumber 3) .c, 2, 8⟩,
  ⟨"BIT 3, D", .bit (bitNumber 3) .d, 2, 8⟩,
  ⟨"BIT 3, E", .bit (bitNumber 3) .e, 2, 8⟩,
  ⟨"BIT 3, H", .bit (bitNumber 3) .h, 2, 8⟩,
  ⟨"BIT 3, L", .bit (bitNumber 3) .l, 2, 8⟩,
  ⟨"BIT 3, [HL]", .bit (bitNumber 3) .atHL, 2, 12⟩,
  ⟨"BIT 3, A", .bit (bitNumber 3) .a, 2, 8⟩,
  -- 0x60
  ⟨"BIT 4, B", .bit (bitNumber 4) .b, 2, 8⟩,
  ⟨"BIT 4, C", .bit (bitNumber 4) .c, 2, 8⟩,
  ⟨"BIT 4, D", .bit (bitNumber 4) .d, 2, 8⟩,
  ⟨"BIT 4, E", .bit (bitNumber 4) .e, 2, 8⟩,
  ⟨"BIT 4, H", .bit (bitNumber 4) .h, 2, 8⟩,
  ⟨"BIT 4, L", .bit (bitNumber 4) .l, 2, 8⟩,
  ⟨"BIT 4, [HL]", .bit (bitNumber 4) .atHL, 2, 12⟩,
  ⟨"BIT 4, A", .bit (bitNumber 4) .a, 2, 8⟩,
  ⟨"BIT 5, B", .bit (bitNumber 5) .b, 2, 8⟩,
  ⟨"BIT 5, C", .bit (bitNumber 5) .c, 2, 8⟩,
  ⟨"BIT 5, D", .bit (bitNumber 5) .d, 2, 8⟩,
  ⟨"BIT 5, E", .bit (bitNumber 5) .e, 2, 8⟩,
  ⟨"BIT 5, H", .bit (bitNumber 5) .h, 2, 8⟩,
  ⟨"BIT 5, L", .bit (bitNumber 5) .l, 2, 8⟩,
  ⟨"BIT 5, [HL]", .bit (bitNumber 5) .atHL, 2, 12⟩,
  ⟨"BIT 5, A", .bit (bitNumber 5) .a, 2, 8⟩,
  -- 0x70
  ⟨"BIT 6, B", .bit (bitNumber 6) .b, 2, 8⟩,
  ⟨"BIT 6, C", .bit (bitNumber 6) .c, 2, 8⟩,
  ⟨"BIT 6, D", .bit (bitNumber 6) .d, 2, 8⟩,
  ⟨"BIT 6, E", .bit (bitNumber 6) .e, 2, 8⟩,
  ⟨"BIT 6, H", .bit (bitNumber 6) .h, 2, 8⟩,
  ⟨"BIT 6, L", .bit (bitNumber 6) .l, 2, 8⟩,
  ⟨"BIT 6, [HL]", .bit (bitNumber 6) .atHL, 2, 12⟩,
  ⟨"BIT 6, A", .bit (bitNumber 6) .a, 2, 8⟩,
  ⟨"BIT 7, B", .bit (bitNumber 7) .b, 2, 8⟩,
  ⟨"BIT 7, C", .bit (bitNumber 7) .c, 2, 8⟩,
  ⟨"BIT 7, D", .bit (bitNumber 7) .d, 2, 8⟩,
  ⟨"BIT 7, E", .bit (bitNumber 7) .e, 2, 8⟩,
  ⟨"BIT 7, H", .bit (bitNumber 7) .h, 2, 8⟩,
  ⟨"BIT 7, L", .bit (bitNumber 7) .l, 2, 8⟩,
  ⟨"BIT 7, [HL]", .bit (bitNumber 7) .atHL, 2, 12⟩,
  ⟨"BIT 7, A", .bit (bitNumber 7) .a, 2, 8⟩,
  -- 0x80
  ⟨"RES 0, B", .res (bitNumber 0) .b, 2, 8⟩,
  ⟨"RES 0, C", .res (bitNumber 0) .c, 2, 8⟩,
  ⟨"RES 0, D", .res (bitNumber 0) .d, 2, 8⟩,
  ⟨"RES 0, E", .res (bitNumber 0) .e, 2, 8⟩,
  ⟨"RES 0, H", .res (bitNumber 0) .h, 2, 8⟩,
  ⟨"RES 0, L", .res (bitNumber 0) .l, 2, 8⟩,
  ⟨"RES 0, [HL]", .res (bitNumber 0) .atHL, 2, 16⟩,
  ⟨"RES 0, A", .res (bitNumber 0) .a, 2, 8⟩,
  ⟨"RES 1, B", .res (bitNumber 1) .b, 2, 8⟩,
  ⟨"RES 1, C", .res (bitNumber 1) .c, 2, 8⟩,
  ⟨"RES 1, D", .res (bitNumber 1) .d, 2, 8⟩,
  ⟨"RES 1, E", .res (bitNumber 1) .e, 2, 8⟩,
  ⟨"RES 1, H", .res (bitNumber 1) .h, 2, 8⟩,
  ⟨"RES 1, L", .res (bitNumber 1) .l, 2, 8⟩,
  ⟨"RES 1, [HL]", .res (bitNumber 1) .atHL, 2, 16⟩,
  ⟨"RES 1, A", .res (bitNumber 1) .a, 2, 8⟩,
  -- 0x90
  ⟨"RES 2, B", .res (bitNumber 2) .b, 2, 8⟩,
  ⟨"RES 2, C", .res (bitNumber 2) .c, 2, 8⟩,
  ⟨"RES 2, D", .res (bitNumber 2) .d, 2, 8⟩,
  ⟨"RES 2, E", .res (bitNumber 2) .e, 2, 8⟩,
  ⟨"RES 2, H", .res (bitNumber 2) .h, 2, 8⟩,
  ⟨"RES 2, L", .res (bitNumber 2) .l, 2, 8⟩,
  ⟨"RES 2, [HL]", .res (bitNumber 2) .atHL, 2, 16⟩,
  ⟨"RES 2, A", .res (bitNumber 2) .a, 2, 8⟩,
  ⟨"RES 3, B", .res (bitNumber 3) .b, 2, 8⟩,
  ⟨"RES 3, C", .res (bitNumber 3) .c, 2, 8⟩,
  ⟨"RES 3, D", .res (bitNumber 3) .d, 2, 8⟩,
  ⟨"RES 3, E", .res (bitNumber 3) .e, 2, 8⟩,
  ⟨"RES 3, H", .res (bitNumber 3) .h, 2, 8⟩,
  ⟨"RES 3, L", .res (bitNumber 3) .l, 2, 8⟩,
  ⟨"RES 3, [HL]", .res (bitNumber 3) .atHL, 2, 16⟩,
  ⟨"RES 3, A", .res (bitNumber 3) .a, 2, 8⟩,
  -- 0xA0
  ⟨"RES 4, B", .res (bitNumber 4) .b, 2, 8⟩,
  ⟨"RES 4, C", .res (bitNumber 4) .c, 2, 8⟩,
  ⟨"RES 4, D", .res (bitNumber 4) .d, 2, 8⟩,
  ⟨"RES 4, E", .res (bitNumber 4) .e, 2, 8⟩,
  ⟨"RES 4, H", .res (bitNumber 4) .h, 2, 8⟩,
  ⟨"RES 4, L", .res (bitNumber 4) .l, 2, 8⟩,
  ⟨"RES 4, [HL]", .res (bitNumber 4) .atHL, 2, 16⟩,
  ⟨"RES 4, A", .res (bitNumber 4) .a, 2, 8⟩,
  ⟨"RES 5, B", .res (bitNumber 5) .b, 2, 8⟩,
  ⟨"RES 5, C", .res (bitNumber 5) .c, 2, 8⟩,
  ⟨"RES 5, D", .res (bitNumber 5) .d, 2, 8⟩,
  ⟨"RES 5, E", .res (bitNumber 5) .e, 2, 8⟩,
  ⟨"RES 5, H", .res (bitNumber 5) .h, 2, 8⟩,
  ⟨"RES 5, L", .res (bitNumber 5) .l, 2, 8⟩,
  ⟨"RES 5, [HL]", .res (bitNumber 5) .atHL, 2, 16⟩,
  ⟨"RES 5, A", .res (bitNumber 5) .a, 2, 8⟩,
  -- 0xB0
  ⟨"RES 6, B", .res (bitNumber 6) .b, 2, 8⟩,
  ⟨"RES 6, C", .res (bitNumber 6) .c, 2, 8⟩,
  ⟨"RES 6, D", .res (bitNumber 6) .d, 2, 8⟩,
  ⟨"RES 6, E", .res (bitNumber 6) .e, 2, 8⟩,
  ⟨"RES 6, H", .res (bitNumber 6) .h, 2, 8⟩,
  ⟨"RES 6, L", .res (bitNumber 6) .l, 2, 8⟩,
  ⟨"RES 6, [HL]", .res (bitNumber 6) .atHL, 2, 16⟩,
  ⟨"RES 6, A", .res (bitNumber 6) .a, 2, 8⟩,
  ⟨"RES 7, B", .res (bitNumber 7) .b, 2, 8⟩,
  ⟨"RES 7, C", .res (bitNumber 7) .c, 2, 8⟩,
  ⟨"RES 7, D", .res (bitNumber 7) .d, 2, 8⟩,
  ⟨"RES 7, E", .res (bitNumber 7) .e, 2, 8⟩,
  ⟨"RES 7, H", .res (bitNumber 7) .h, 2, 8⟩,
  ⟨"RES 7, L", .res (bitNumber 7) .l, 2, 8⟩,
  ⟨"RES 7, [HL]", .res (bitNumber 7) .atHL, 2, 16⟩,
  ⟨"RES 7, A", .res (bitNumber 7) .a, 2, 8⟩,
  -- 0xC0
  ⟨"SET 0, B", .set (bitNumber 0) .b, 2, 8⟩,
  ⟨"SET 0, C", .set (bitNumber 0) .c, 2, 8⟩,
  ⟨"SET 0, D", .set (bitNumber 0) .d, 2, 8⟩,
  ⟨"SET 0, E", .set (bitNumber 0) .e, 2, 8⟩,
  ⟨"SET 0, H", .set (bitNumber 0) .h, 2, 8⟩,
  ⟨"SET 0, L", .set (bitNumber 0) .l, 2, 8⟩,
  ⟨"SET 0, [HL]", .set (bitNumber 0) .atHL, 2, 16⟩,
  ⟨"SET 0, A", .set (bitNumber 0) .a, 2, 8⟩,
  ⟨"SET 1, B", .set (bitNumber 1) .b, 2, 8⟩,
  ⟨"SET 1, C", .set (bitNumber 1) .c, 2, 8⟩,
  ⟨"SET 1, D", .set (bitNumber 1) .d, 2, 8⟩,
  ⟨"SET 1, E", .set (bitNumber 1) .e, 2, 8⟩,
  ⟨"SET 1, H", .set (bitNumber 1) .h, 2, 8⟩,
  ⟨"SET 1, L", .set (bitNumber 1) .l, 2, 8⟩,
  ⟨"SET 1, [HL]", .set (bitNumber 1) .atHL, 2, 16⟩,
  ⟨"SET 1, A", .set (bitNumber 1) .a, 2, 8⟩,
  -- 0xD0
  ⟨"SET 2, B", .set (bitNumber 2) .b, 2, 8⟩,
  ⟨"SET 2, C", .set (bitNumber 2) .c, 2, 8⟩,
  ⟨"SET 2, D", .set (bitNumber 2) .d, 2, 8⟩,
  ⟨"SET 2, E", .set (bitNumber 2) .e, 2, 8⟩,
  ⟨"SET 2, H", .set (bitNumber 2) .h, 2, 8⟩,
  ⟨"SET 2, L", .set (bitNumber 2) .l, 2, 8⟩,
  ⟨"SET 2, [HL]", .set (bitNumber 2) .atHL, 2, 16⟩,
  ⟨"SET 2, A", .set (bitNumber 2) .a, 2, 8⟩,
  ⟨"SET 3, B", .set (bitNumber 3) .b, 2, 8⟩,
  ⟨"SET 3, C", .set (bitNumber 3) .c, 2, 8⟩,
  ⟨"SET 3, D", .set (bitNumber 3) .d, 2, 8⟩,
  ⟨"SET 3, E", .set (bitNumber 3) .e, 2, 8⟩,
  ⟨"SET 3, H", .set (bitNumber 3) .h, 2, 8⟩,
  ⟨"SET 3, L", .set (bitNumber 3) .l, 2, 8⟩,
  ⟨"SET 3, [HL]", .set (bitNumber 3) .atHL, 2, 16⟩,
  ⟨"SET 3, A", .set (bitNumber 3) .a, 2, 8⟩,
  -- 0xE0
  ⟨"SET 4, B", .set (bitNumber 4) .b, 2, 8⟩,
  ⟨"SET 4, C", .set (bitNumber 4) .c, 2, 8⟩,
  ⟨"SET 4, D", .set (bitNumber 4) .d, 2, 8⟩,
  ⟨"SET 4, E", .set (bitNumber 4) .e, 2, 8⟩,
  ⟨"SET 4, H", .set (bitNumber 4) .h, 2, 8⟩,
  ⟨"SET 4, L", .set (bitNumber 4) .l, 2, 8⟩,
  ⟨"SET 4, [HL]", .set (bitNumber 4) .atHL, 2, 16⟩,
  ⟨"SET 4, A", .set (bitNumber 4) .a, 2, 8⟩,
  ⟨"SET 5, B", .set (bitNumber 5) .b, 2, 8⟩,
  ⟨"SET 5, C", .set (bitNumber 5) .c, 2, 8⟩,
  ⟨"SET 5, D", .set (bitNumber 5) .d, 2, 8⟩,
  ⟨"SET 5, E", .set (bitNumber 5) .e, 2, 8⟩,
  ⟨"SET 5, H", .set (bitNumber 5) .h, 2, 8⟩,
  ⟨"SET 5, L", .set (bitNumber 5) .l, 2, 8⟩,
  ⟨"SET 5, [HL]", .set (bitNumber 5) .atHL, 2, 16⟩,
  ⟨"SET 5, A", .set (bitNumber 5) .a, 2, 8⟩,
  -- 0xF0
  ⟨"SET 6, B", .set (bitNumber 6) .b, 2, 8⟩,
  ⟨"SET 6, C", .set (bitNumber 6) .c, 2, 8⟩,
  ⟨"SET 6, D", .set (bitNumber 6) .d, 2, 8⟩,
  ⟨"SET 6, E", .set (bitNumber 6) .e, 2, 8⟩,
  ⟨"SET 6, H", .set (bitNumber 6) .h, 2, 8⟩,
  ⟨"SET 6, L", .set (bitNumber 6) .l, 2, 8⟩,
  ⟨"SET 6, [HL]", .set (bitNumber 6) .atHL, 2, 16⟩,
  ⟨"SET 6, A", .set (bitNumber 6) .a, 2, 8⟩,
  ⟨"SET 7, B", .set (bitNumber 7) .b, 2, 8⟩,
  ⟨"SET 7, C", .set (bitNumber 7) .c, 2, 8⟩,
  ⟨"SET 7, D", .set (bitNumber 7) .d, 2, 8⟩,
  ⟨"SET 7, E", .set (bitNumber 7) .e, 2, 8⟩,
  ⟨"SET 7, H", .set (bitNumber 7) .h, 2, 8⟩,
  ⟨"SET 7, L", .set (bitNumber 7) .l, 2, 8⟩,
  ⟨"SET 7, [HL]", .set (bitNumber 7) .atHL, 2, 16⟩,
  ⟨"SET 7, A", .set (bitNumber 7) .a, 2, 8⟩]

end Sm83
