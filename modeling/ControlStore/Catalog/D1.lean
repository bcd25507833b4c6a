/-!
D1, a 16-bit processor with a 40-bit control word. The instruction ROM is addressed by flags, opcode
and step with five bytes to an address, least significant byte first. A conditional jump steps over
its operand unless the test holds. The interrupt ROM drives the entry sequence of an interrupt and
is addressed by the step alone.
-/

namespace ControlStore.Catalog

def d1Source : String := "@ HLT:0 NF:1 OE_X:2 LD_X:3 OE_B:4 LD_B:5 ALU_F0:6 ALU_F1:7 ALU_F2:8 ALU_F3:9
@ OE_ALU_IC:10 OE_ALU:11 LD_ALU_IC:12 ALU_CIN0:13 ALU_CIN1:14 LD_ALU_IF:15
@ LD_ALU_F:16 ALU_I_MAN:17 OE_A:18 LD_A:19 OE_T:20 LD_TL:21 LD_TH:22
@ LD_PC:23 OE_PC:24 INC_PC:25 LD_OFR:26 CLR_OFR:27 INC_SP:28 DEC_SP:29
@ LD_SP:30 OE_MAR:31 MA_ADD1:32 LD_MAR:33 M_G0:34 M_G1:35 MR:36 MW:37
@ M_HL:38 LD_I:39

$ MA_FFFF = M_G1 M_G0
$ MA_PC =
$ MA_SP = M_G0
$ MA_MAR = M_G1

$ ALU_F_ZERO =
$ ALU_F_ADD = ALU_F0
$ ALU_F_SUB = ALU_F1
$ ALU_F_MUL = ALU_F0 ALU_F1
$ ALU_F_DIV = ALU_F2
$ ALU_F_MOD = ALU_F2 ALU_F0
$ ALU_F_AND = ALU_F2 ALU_F1
$ ALU_F_OR = ALU_F2 ALU_F1 ALU_F0
$ ALU_F_XOR = ALU_F3
$ ALU_F_NOT_A = ALU_F3 ALU_F0
$ ALU_F_SHL_A = ALU_F3 ALU_F1
$ ALU_F_SHR_A = ALU_F3 ALU_F1 ALU_F0
$ ALU_F_FFFD = ALU_F3 ALU_F2
$ ALU_F_FFFE = ALU_F3 ALU_F2 ALU_F0
$ ALU_F_0001 = ALU_F3 ALU_F2 ALU_F1

$ Q0 = MA_FFFF MR LD_PC
$ NEWFETCH = NF CLR_OFR
$ FETCH = MA_PC MR LD_I INC_PC

% HEAD = Q0 | FETCH
% IMM = MR MA_PC LD_TL INC_PC | M_HL MR MA_PC LD_TH INC_PC
% OFF = MR MA_PC LD_TL INC_PC | MR MA_PC LD_TH INC_PC | OE_T LD_OFR
% READ = MR MA_MAR LD_TL | MR MA_MAR MA_ADD1 LD_TH M_HL
% READ_SP = MA_SP MR LD_TL | MA_SP MR MA_ADD1 LD_TH M_HL
% JUMP = %HEAD | %IMM | OE_T LD_PC | NEWFETCH
% SKIP = %HEAD | INC_PC | INC_PC | NEWFETCH

! name d1
! layout flags:4 opcode:8 step:4
! flags E:0 Z:1 N:2 C:3
! lanes 5
! output microcode.bin

* %HEAD | NEWFETCH | .. | NF

> h00
= %HEAD | NEWFETCH | .. | NF                                                 # NOP
= %HEAD | %IMM | OE_T LD_A | NEWFETCH | .. | NF                              # LDA #imm
= %HEAD | %IMM | OE_T LD_MAR | %READ | OE_T LD_A | NEWFETCH                  # LDA addr
= %HEAD | %IMM | OE_T LD_OFR | %READ_SP | OE_T LD_A | NEWFETCH               # LDA sp, #off
= %HEAD | %IMM | OE_T LD_MAR | %OFF | %READ | OE_T LD_A | NEWFETCH           # LDA addr, #off
= %HEAD | %IMM | OE_T LD_MAR | MW MA_MAR OE_A | MW MA_MAR MA_ADD1 OE_A M_HL | NEWFETCH          # STA addr
= %HEAD | %IMM | OE_T LD_OFR | MW MA_SP OE_A | MW MA_SP MA_ADD1 OE_A M_HL | NEWFETCH            # STA sp, #off
= %HEAD | %IMM | OE_T LD_MAR | %OFF | MW MA_MAR OE_A | MW MA_MAR MA_ADD1 OE_A M_HL | NEWFETCH   # STA addr, #off

= %HEAD | %IMM | OE_T LD_B | NEWFETCH | .. | NF                              # LDB #imm
= %HEAD | %IMM | OE_T LD_MAR | %READ | OE_T LD_B | NEWFETCH                  # LDB addr
= %HEAD | %IMM | OE_T LD_OFR | %READ_SP | OE_T LD_B | NEWFETCH               # LDB sp, #off
= %HEAD | %IMM | OE_T LD_MAR | %OFF | %READ | OE_T LD_B | NEWFETCH           # LDB addr, #off
= %HEAD | %IMM | OE_T LD_MAR | MW MA_MAR OE_B | MW MA_MAR MA_ADD1 OE_B M_HL | NEWFETCH          # STB addr
= %HEAD | %IMM | OE_T LD_OFR | MW MA_SP OE_B | MW MA_SP MA_ADD1 OE_B M_HL | NEWFETCH            # STB sp, #off
= %HEAD | %IMM | OE_T LD_MAR | %OFF | MW MA_MAR OE_B | MW MA_MAR MA_ADD1 OE_B M_HL | NEWFETCH   # STB addr, #off

= %HEAD | %IMM | OE_T LD_X | NEWFETCH | .. | NF                              # LDX #imm
= %HEAD | %IMM | OE_T LD_MAR | %READ | OE_T LD_X | NEWFETCH                  # LDX addr
= %HEAD | %IMM | OE_T LD_OFR | %READ_SP | OE_T LD_X | NEWFETCH               # LDX sp, #off
= %HEAD | %IMM | OE_T LD_MAR | %OFF | %READ | OE_T LD_X | NEWFETCH           # LDX addr, #off
= %HEAD | %IMM | OE_T LD_MAR | MW MA_MAR OE_X | MW MA_MAR MA_ADD1 OE_X M_HL | NEWFETCH          # STX addr
= %HEAD | %IMM | OE_T LD_OFR | MW MA_SP OE_X | MW MA_SP MA_ADD1 OE_X M_HL | NEWFETCH            # STX sp, #off
= %HEAD | %IMM | OE_T LD_MAR | %OFF | MW MA_MAR OE_X | MW MA_MAR MA_ADD1 OE_X M_HL | NEWFETCH   # STX addr, #off

= %HEAD | %IMM | OE_T LD_SP | NEWFETCH | .. | NF                             # LDSP #imm

> h30
= %HEAD | OE_A LD_B | NEWFETCH | .. | NF                                     # MOV A, B
= %HEAD | OE_A LD_X | NEWFETCH | .. | NF                                     # MOV A, X
= %HEAD | OE_B LD_A | NEWFETCH | .. | NF                                     # MOV B, A
= %HEAD | OE_B LD_X | NEWFETCH | .. | NF                                     # MOV B, X
= %HEAD | OE_X LD_A | NEWFETCH | .. | NF                                     # MOV X, A
= %HEAD | OE_X LD_B | NEWFETCH | .. | NF                                     # MOV X, B

> h40
= %HEAD | ALU_F_ADD LD_ALU_F OE_ALU LD_A | NEWFETCH | .. | NF                # ADD A
= %HEAD | ALU_F_ADD LD_ALU_F OE_ALU LD_B | NEWFETCH | .. | NF                # ADD B
= %HEAD | ALU_F_ADD LD_ALU_F OE_ALU LD_X | NEWFETCH | .. | NF                # ADD X
= %HEAD | %IMM | OE_T LD_MAR | ALU_F_ADD LD_ALU_F OE_ALU LD_TL LD_TH | MW MA_MAR OE_T | MW MA_MAR MA_ADD1 OE_T M_HL | NEWFETCH   # ADD addr
= %HEAD | ALU_F_SUB LD_ALU_F OE_ALU LD_A | NEWFETCH | .. | NF                # SUB A
= %HEAD | ALU_F_SUB LD_ALU_F OE_ALU LD_B | NEWFETCH | .. | NF                # SUB B
= %HEAD | ALU_F_SUB LD_ALU_F OE_ALU LD_X | NEWFETCH | .. | NF                # SUB X
= %HEAD | %IMM | OE_T LD_MAR | ALU_F_SUB LD_ALU_F OE_ALU LD_TL LD_TH | MW MA_MAR OE_T | MW MA_MAR MA_ADD1 OE_T M_HL | NEWFETCH   # SUB addr
= %HEAD | ALU_F_MUL LD_ALU_F OE_ALU LD_A | NEWFETCH | .. | NF                # MUL A
= %HEAD | ALU_F_MUL LD_ALU_F OE_ALU LD_B | NEWFETCH | .. | NF                # MUL B
= %HEAD | ALU_F_MUL LD_ALU_F OE_ALU LD_X | NEWFETCH | .. | NF                # MUL X
= %HEAD | %IMM | OE_T LD_MAR | ALU_F_MUL LD_ALU_F OE_ALU LD_TL LD_TH | MW MA_MAR OE_T | MW MA_MAR MA_ADD1 OE_T M_HL | NEWFETCH   # MUL addr
= %HEAD | ALU_F_DIV LD_ALU_F OE_ALU LD_A | NEWFETCH | .. | NF                # DIV A
= %HEAD | ALU_F_DIV LD_ALU_F OE_ALU LD_B | NEWFETCH | .. | NF                # DIV B
= %HEAD | ALU_F_DIV LD_ALU_F OE_ALU LD_X | NEWFETCH | .. | NF                # DIV X
= %HEAD | %IMM | OE_T LD_MAR | ALU_F_DIV LD_ALU_F OE_ALU LD_TL LD_TH | MW MA_MAR OE_T | MW MA_MAR MA_ADD1 OE_T M_HL | NEWFETCH   # DIV addr
= %HEAD | ALU_F_MOD LD_ALU_F OE_ALU LD_A | NEWFETCH | .. | NF                # MOD A
= %HEAD | ALU_F_MOD LD_ALU_F OE_ALU LD_B | NEWFETCH | .. | NF                # MOD B
= %HEAD | ALU_F_MOD LD_ALU_F OE_ALU LD_X | NEWFETCH | .. | NF                # MOD X
= %HEAD | %IMM | OE_T LD_MAR | ALU_F_MOD LD_ALU_F OE_ALU LD_TL LD_TH | MW MA_MAR OE_T | MW MA_MAR MA_ADD1 OE_T M_HL | NEWFETCH   # MOD addr
= %HEAD | ALU_F_AND LD_ALU_F OE_ALU LD_A | NEWFETCH | .. | NF                # AND A
= %HEAD | ALU_F_AND LD_ALU_F OE_ALU LD_B | NEWFETCH | .. | NF                # AND B
= %HEAD | ALU_F_AND LD_ALU_F OE_ALU LD_X | NEWFETCH | .. | NF                # AND X
= %HEAD | %IMM | OE_T LD_MAR | ALU_F_AND LD_ALU_F OE_ALU LD_TL LD_TH | MW MA_MAR OE_T | MW MA_MAR MA_ADD1 OE_T M_HL | NEWFETCH   # AND addr
= %HEAD | ALU_F_OR LD_ALU_F OE_ALU LD_A | NEWFETCH | .. | NF                 # OR A
= %HEAD | ALU_F_OR LD_ALU_F OE_ALU LD_B | NEWFETCH | .. | NF                 # OR B
= %HEAD | ALU_F_OR LD_ALU_F OE_ALU LD_X | NEWFETCH | .. | NF                 # OR X
= %HEAD | %IMM | OE_T LD_MAR | ALU_F_OR LD_ALU_F OE_ALU LD_TL LD_TH | MW MA_MAR OE_T | MW MA_MAR MA_ADD1 OE_T M_HL | NEWFETCH    # OR addr
= %HEAD | ALU_F_XOR LD_ALU_F OE_ALU LD_A | NEWFETCH | .. | NF                # XOR A
= %HEAD | ALU_F_XOR LD_ALU_F OE_ALU LD_B | NEWFETCH | .. | NF                # XOR B
= %HEAD | ALU_F_XOR LD_ALU_F OE_ALU LD_X | NEWFETCH | .. | NF                # XOR X
= %HEAD | %IMM | OE_T LD_MAR | ALU_F_XOR LD_ALU_F OE_ALU LD_TL LD_TH | MW MA_MAR OE_T | MW MA_MAR MA_ADD1 OE_T M_HL | NEWFETCH   # XOR addr
= %HEAD | ALU_F_NOT_A LD_ALU_F OE_ALU LD_A | NEWFETCH | .. | NF              # NOT A
= %HEAD | ALU_F_SHL_A LD_ALU_F OE_ALU LD_A | NEWFETCH | .. | NF              # LSH A
= %HEAD | ALU_F_SHR_A LD_ALU_F OE_ALU LD_A | NEWFETCH | .. | NF              # RSH A

> h70
= %HEAD | DEC_SP | MW OE_A MA_SP M_HL | DEC_SP | MW OE_A MA_SP | NEWFETCH     # PUSH A
= %HEAD | DEC_SP | MW OE_B MA_SP M_HL | DEC_SP | MW OE_B MA_SP | NEWFETCH     # PUSH B
= %HEAD | DEC_SP | MW OE_X MA_SP M_HL | DEC_SP | MW OE_X MA_SP | NEWFETCH     # PUSH X
= %HEAD | DEC_SP | MW OE_PC MA_SP M_HL | DEC_SP | MW OE_PC MA_SP | NEWFETCH   # PUSH PC
= %HEAD | MR LD_TL MA_PC INC_PC | MR LD_TH MA_PC INC_PC | OE_T LD_MAR | %READ | DEC_SP | MW MA_SP M_HL OE_T DEC_SP | MW MA_SP OE_T | NEWFETCH   # PUSH addr
= %HEAD | MA_SP MR LD_TL INC_SP | MA_SP MR LD_TH INC_SP M_HL | OE_T LD_A | NEWFETCH    # POP A
= %HEAD | MA_SP MR LD_TL INC_SP | MA_SP MR LD_TH INC_SP M_HL | OE_T LD_B | NEWFETCH    # POP B
= %HEAD | MA_SP MR LD_TL INC_SP | MA_SP MR LD_TH INC_SP M_HL | OE_T LD_X | NEWFETCH    # POP X
= %HEAD | MA_SP MR LD_TL INC_SP | MA_SP MR LD_TH INC_SP M_HL | OE_T LD_PC | NEWFETCH   # POP PC
= %HEAD | %IMM | OE_T LD_MAR | MR MA_SP LD_TL INC_SP | MR MA_SP LD_TH INC_SP M_HL | MW MA_MAR OE_T | MW MA_MAR MA_ADD1 OE_T M_HL | NEWFETCH   # POP addr

> h90
= %JUMP                                                                      # JMP addr
= %SKIP
= %SKIP
= %SKIP
= %SKIP
= %SKIP
= %SKIP
> h91
? Z=1 : %JUMP                                                                # JZS addr
? Z=0 : %JUMP                                                                # JZC addr
? C=1 : %JUMP                                                                # JCS addr
? C=0 : %JUMP                                                                # JCC addr
? N=1 : %JUMP                                                                # JNS addr
? N=0 : %JUMP                                                                # JNC addr

> hA1
= %HEAD | %IMM | OE_T LD_ALU_F LD_ALU_IC LD_ALU_IF ALU_I_MAN | NEWFETCH | .. | NF    # SINT #imm
= %HEAD | INC_SP | INC_SP | MR MA_SP LD_TL INC_SP | M_HL MR MA_SP LD_TH INC_SP | OE_T LD_PC | NEWFETCH | .. | NF   # RINT

> hF0
= %HEAD | HLT | NEWFETCH | .. | NF                                           # HALT

! name d1-interrupt
! layout flags:0 opcode:0 step:4
! lanes 5
! output interrupt.bin

% SAVE_PC = DEC_SP CLR_OFR | OE_PC MA_SP MW M_HL DEC_SP | OE_PC MA_SP MW DEC_SP
% VECTOR = ALU_F_FFFD OE_ALU LD_MAR | MR LD_TL MA_MAR | ALU_F_FFFE OE_ALU LD_MAR | MR LD_TH M_HL MA_MAR | OE_T LD_PC
% ERROR = OE_ALU OE_ALU_IC MA_SP MW M_HL DEC_SP | OE_ALU OE_ALU_IC MA_SP MW | LD_ALU_F ALU_I_MAN

= - | %SAVE_PC | %VECTOR | %ERROR | NEWFETCH | NEWFETCH | NEWFETCH | NEWFETCH
"

end ControlStore.Catalog
