/-!
D2, an 8-bit processor with a 64-bit control word. An address holds the interrupt mode, five flags,
the opcode and the step, and opcodes are numbered in the order of their definitions. In interrupt
mode every opcode runs the entry sequence of an interrupt.
-/

namespace ControlStore.Catalog

def d2Source : String := "@ FSEL_H:0 FSEL_SL0:1 FSEL_SL1:2 FSEL_SL2:3 FSEL_SL3:4 FSEL_SL4:5 FSEL_SL5:6
@ FSEL_SL6:7 FSEL_SL7:8 FSEL_SL8:9 FSEL_SL9:10 ALU_CIN_SL0:11 ALU_CIN_SL1:12
@ ALU_F0:13 ALU_F1:14 ALU_F2:15 ALU_F3:16 FREG_WE:17 FREG_OE:18 RREG_WE:19
@ RREG_OE:20 TREG_CLR:21 TREG_WE:22 TREG_OE:23 TREG_INC:24 TREG_DEC:25
@ AREG_WE:26 AREG_OE:27 AREG_INC:28 AREG_DEC:29 RST_IMODE:30 NEW_FETCH:31
@ IREG_OE:32 IREG_WE:33 IDX_SL0:34 IDX_SL1:35 XREG_WE:36 XREG_OE:37
@ XREG_INC:38 XREG_DEC:39 YREG_WE:40 YREG_OE:41 YREG_INC:42 YREG_DEC:43
@ PC_HIGH:44 PC_WE:45 PC_OE:46 PC_INC:47 PC_DEC:48 SP_HIGH:49 SP_WE:50
@ SP_OE:51 SP_INC:52 SP_DEC:53 MW:54 MR:55 MAS_0:56 MAS_1:57 MAR_HIGH:58
@ MAR_WE:59 MAR_OE:60 MAR_INC:61 MAR_DEC:62 BRK:63

$ ALU_F_00 =
$ ALU_F_FF = ALU_F0
$ ALU_F_FE = ALU_F1
$ ALU_F_FC = ALU_F1 ALU_F0
$ ALU_F_ADD = ALU_F2
$ ALU_F_SUB = ALU_F2 ALU_F0
$ ALU_F_AND = ALU_F2 ALU_F1
$ ALU_F_OR = ALU_F2 ALU_F1 ALU_F0
$ ALU_F_XOR = ALU_F3
$ ALU_F_LSH = ALU_F3 ALU_F0
$ ALU_F_RSH = ALU_F3 ALU_F1

$ ALU_CIN_0 =
$ ALU_CIN_1 = ALU_CIN_SL0
$ ALU_CIN_C = ALU_CIN_SL1
$ ALU_CIN_CB = ALU_CIN_SL1 ALU_CIN_SL0

$ FSL_Z_ALU =
$ FSL_Z_REG = FSEL_SL8
$ FSL_Z_BUS = FSEL_SL9
$ FSL_Z_SET = FSEL_SL9 FSEL_SL8 FSEL_H
$ FSL_Z_CLR = FSEL_SL9 FSEL_SL8
$ FSL_C_ALU =
$ FSL_C_REG = FSEL_SL6
$ FSL_C_BUS = FSEL_SL7
$ FSL_C_SET = FSEL_SL7 FSEL_SL6 FSEL_H
$ FSL_C_CLR = FSEL_SL7 FSEL_SL6
$ FSL_N_ALU =
$ FSL_N_REG = FSEL_SL4
$ FSL_N_BUS = FSEL_SL5
$ FSL_N_SET = FSEL_SL5 FSEL_SL4 FSEL_H
$ FSL_N_CLR = FSEL_SL5 FSEL_SL4
$ FSL_V_ALU =
$ FSL_V_REG = FSEL_SL2
$ FSL_V_BUS = FSEL_SL3
$ FSL_V_SET = FSEL_SL3 FSEL_SL2 FSEL_H
$ FSL_V_CLR = FSEL_SL3 FSEL_SL2
$ FSL_I_ALU =
$ FSL_I_REG = FSEL_SL0
$ FSL_I_BUS = FSEL_SL1
$ FSL_I_SET = FSEL_SL1 FSEL_SL0 FSEL_H
$ FSL_I_CLR = FSEL_SL1 FSEL_SL0
$ FSL_ALL_BUS = FSL_Z_BUS FSL_C_BUS FSL_N_BUS FSL_V_BUS FSL_I_BUS

$ IDX_0 =
$ IDX_T = IDX_SL0
$ IDX_Y = IDX_SL1
$ IDX_X = IDX_SL1 IDX_SL0

$ MAM_MAR =
$ MAM_PC = MAS_0
$ MAM_SP = MAS_1
$ MAM_MAR_PLUS_IDX = MAS_1 MAS_0

$ LD_A = AREG_WE
$ OE_A = AREG_OE
$ INC_A = AREG_INC
$ DEC_A = AREG_DEC
$ LD_X = XREG_WE
$ OE_X = XREG_OE
$ INC_X = XREG_INC
$ DEC_X = XREG_DEC
$ LD_Y = YREG_WE
$ OE_Y = YREG_OE
$ INC_Y = YREG_INC
$ DEC_Y = YREG_DEC
$ LD_T = TREG_WE
$ OE_T = TREG_OE
$ INC_T = TREG_INC
$ DEC_T = TREG_DEC
$ CLR_T = TREG_CLR TREG_WE
$ LD_SPL = SP_WE
$ LD_SPH = SP_WE SP_HIGH
$ OE_SPL = SP_OE
$ OE_SPH = SP_OE SP_HIGH
$ INC_SP = SP_INC
$ DEC_SP = SP_DEC
$ LD_PCL = PC_WE
$ LD_PCH = PC_WE PC_HIGH
$ OE_PCL = PC_OE
$ OE_PCH = PC_OE PC_HIGH
$ INC_PC = PC_INC
$ DEC_PC = PC_DEC
$ LD_MARL = MAR_WE
$ LD_MARH = MAR_WE MAR_HIGH
$ OE_MARL = MAR_OE
$ OE_MARH = MAR_OE MAR_HIGH
$ INC_MAR = MAR_INC
$ DEC_MAR = MAR_DEC
$ LD_I = IREG_WE
$ OE_I = IREG_OE
$ LD_R = RREG_WE
$ OE_R = RREG_OE
$ LD_F = FREG_WE
$ OE_F = FREG_OE

$ ALU_FLAGS = LD_F FSL_Z_ALU FSL_C_ALU FSL_N_ALU FSL_I_REG

$ Q0 = ALU_F_FF LD_R
$ Q1 = OE_R LD_MARH
$ Q2 = OE_R LD_MARL
$ Q3 = MAM_MAR MR LD_PCH MAR_DEC
$ Q4 = MAM_MAR MR LD_PCL MAR_DEC
$ FETCH = MR MAM_PC LD_I PC_INC CLR_T
$ NF = NEW_FETCH MAM_PC

% HEAD = Q0 | Q1 | Q2 | Q3 | Q4 | FETCH
% ABS = %HEAD | MAM_PC MR LD_MARL PC_INC | MAM_PC MR LD_MARH PC_INC
% IND = %ABS | MAM_MAR MR LD_T MAR_INC | MAM_MAR MR LD_MARH | OE_T LD_MARL
% IRQ_STATES = Q0 | Q1 | Q2 | Q3 | Q4 | CLR_T | FSL_Z_REG FSL_C_REG FSL_N_REG FSL_V_REG FSL_I_CLR LD_F SP_DEC | MAM_SP ALU_F_FF LD_R OE_PCH MW SP_DEC | MAM_SP MW OE_PCL | MAM_SP OE_R LD_MARH ALU_F_FC LD_R | MAM_PC OE_R LD_MARL | MAM_MAR MR LD_PCL MAR_INC | MAM_MAR MR LD_PCH | NF RST_IMODE

! name d2
! layout flags:6 opcode:8 step:4
! flags I:0 V:1 N:2 C:3 Z:4 IRQ:5
! lanes 8
! pad NF
! output microcode.bin

* %HEAD
^ IRQ=1 : %IRQ_STATES

> h00
= %HEAD                                                              # nop

= %HEAD | MAM_PC MR LD_A PC_INC                                      # lda #imm
= %ABS | MAM_MAR MR LD_A                                             # lda abs
= %ABS | MAM_MAR_PLUS_IDX IDX_X MR LD_A                              # lda abs,x
= %ABS | MAM_MAR_PLUS_IDX IDX_Y MR LD_A                              # lda abs,y
= %IND | MAM_MAR MR LD_A                                             # lda (abs)
= %IND | MAM_MAR_PLUS_IDX IDX_X MR LD_A                              # lda (abs),x
= %IND | MAM_MAR_PLUS_IDX IDX_Y MR LD_A                              # lda (abs),y
= %ABS | MAM_MAR OE_A MW                                             # sta abs
= %ABS | MAM_MAR_PLUS_IDX IDX_X OE_A MW                              # sta abs,x
= %ABS | MAM_MAR_PLUS_IDX IDX_Y OE_A MW                              # sta abs,y
= %IND | MAM_MAR MW OE_A                                             # sta (abs)
= %IND | MAM_MAR_PLUS_IDX IDX_X MW OE_A                              # sta (abs),x
= %IND | MAM_MAR_PLUS_IDX IDX_Y MW OE_A                              # sta (abs),y

= %HEAD | MAM_PC MR LD_X PC_INC                                      # ldx #imm
= %ABS | MAM_MAR MR LD_X                                             # ldx abs
= %ABS | MAM_MAR_PLUS_IDX IDX_X MR LD_X                              # ldx abs,x
= %ABS | MAM_MAR_PLUS_IDX IDX_Y MR LD_X                              # ldx abs,y
= %IND | MAM_MAR MR LD_X                                             # ldx (abs)
= %IND | MAM_MAR_PLUS_IDX IDX_X MR LD_X                              # ldx (abs),x
= %IND | MAM_MAR_PLUS_IDX IDX_Y MR LD_X                              # ldx (abs),y
= %ABS | MAM_MAR OE_X MW                                             # stx abs
= %ABS | MAM_MAR_PLUS_IDX IDX_X OE_X MW                              # stx abs,x
= %ABS | MAM_MAR_PLUS_IDX IDX_Y OE_X MW                              # stx abs,y
= %IND | MAM_MAR MW OE_X                                             # stx (abs)
= %IND | MAM_MAR_PLUS_IDX IDX_X MW OE_X                              # stx (abs),x
= %IND | MAM_MAR_PLUS_IDX IDX_Y MW OE_X                              # stx (abs),y

= %HEAD | MAM_PC MR LD_Y PC_INC                                      # ldy #imm
= %ABS | MAM_MAR MR LD_Y                                             # ldy abs
= %ABS | MAM_MAR_PLUS_IDX IDX_X MR LD_Y                              # ldy abs,x
= %ABS | MAM_MAR_PLUS_IDX IDX_Y MR LD_Y                              # ldy abs,y
= %IND | MAM_MAR MR LD_Y                                             # ldy (abs)
= %IND | MAM_MAR_PLUS_IDX IDX_X MR LD_Y                              # ldy (abs),x
= %IND | MAM_MAR_PLUS_IDX IDX_Y MR LD_Y                              # ldy (abs),y
= %ABS | MAM_MAR OE_Y MW                                             # sty abs
= %ABS | MAM_MAR_PLUS_IDX IDX_X OE_Y MW                              # sty abs,x
= %ABS | MAM_MAR_PLUS_IDX IDX_Y OE_Y MW                              # sty abs,y
= %IND | MAM_MAR MW OE_Y                                             # sty (abs)
= %IND | MAM_MAR_PLUS_IDX IDX_X MW OE_Y                              # sty (abs),x
= %IND | MAM_MAR_PLUS_IDX IDX_Y MW OE_Y                              # sty (abs),y

= %HEAD | OE_A LD_X                                                  # tax
= %HEAD | OE_A LD_Y                                                  # tay
= %HEAD | OE_X LD_A                                                  # txa
= %HEAD | OE_Y LD_A                                                  # tya

= %HEAD | INC_A                                                      # ina
= %HEAD | INC_X                                                      # inx
= %HEAD | INC_Y                                                      # iny
= %ABS | INC_T | MAM_MAR MR ALU_CIN_0 ALU_F_ADD LD_R ALU_FLAGS | OE_R MW MAM_MAR                                          # inc abs
= %ABS | INC_T | MAM_MAR_PLUS_IDX IDX_X MR ALU_CIN_0 ALU_F_ADD LD_R ALU_FLAGS | OE_R MW MAM_MAR_PLUS_IDX IDX_X            # inc abs,x
= %ABS | INC_T | MAM_MAR_PLUS_IDX IDX_Y MR ALU_CIN_0 ALU_F_ADD LD_R ALU_FLAGS | OE_R MW MAM_MAR_PLUS_IDX IDX_Y            # inc abs,y
= %IND | INC_T | MAM_MAR MR ALU_CIN_0 ALU_F_ADD LD_R ALU_FLAGS | OE_R MW MAM_MAR                                          # inc (abs)
= %IND | INC_T | MAM_MAR_PLUS_IDX IDX_X MR ALU_CIN_0 ALU_F_ADD LD_R ALU_FLAGS | OE_R MW MAM_MAR_PLUS_IDX IDX_X            # inc (abs),x
= %IND | INC_T | MAM_MAR_PLUS_IDX IDX_Y MR ALU_CIN_0 ALU_F_ADD LD_R ALU_FLAGS | OE_R MW MAM_MAR_PLUS_IDX IDX_Y            # inc (abs),y

= %HEAD | DEC_A                                                      # dea
= %HEAD | DEC_X                                                      # dex
= %HEAD | DEC_Y                                                      # dey
= %ABS | INC_T | MAM_MAR MR ALU_CIN_0 ALU_F_SUB LD_R ALU_FLAGS | OE_R MW MAM_MAR                                          # dec abs
= %ABS | INC_T | MAM_MAR_PLUS_IDX IDX_X MR ALU_CIN_0 ALU_F_SUB LD_R ALU_FLAGS | OE_R MW MAM_MAR_PLUS_IDX IDX_X            # dec abs,x
= %ABS | INC_T | MAM_MAR_PLUS_IDX IDX_Y MR ALU_CIN_0 ALU_F_SUB LD_R ALU_FLAGS | OE_R MW MAM_MAR_PLUS_IDX IDX_Y            # dec abs,y
= %IND | INC_T | MAM_MAR MR ALU_CIN_0 ALU_F_SUB LD_R ALU_FLAGS | OE_R MW MAM_MAR                                          # dec (abs)
= %IND | INC_T | MAM_MAR_PLUS_IDX IDX_X MR ALU_CIN_0 ALU_F_SUB LD_R ALU_FLAGS | OE_R MW MAM_MAR_PLUS_IDX IDX_X            # dec (abs),x
= %IND | INC_T | MAM_MAR_PLUS_IDX IDX_Y MR ALU_CIN_0 ALU_F_SUB LD_R ALU_FLAGS | OE_R MW MAM_MAR_PLUS_IDX IDX_Y            # dec (abs),y

= %HEAD | MAM_PC MR LD_T INC_PC | MAM_PC | MAM_PC OE_A ALU_F_ADD ALU_CIN_C LD_R ALU_FLAGS FSL_V_ALU | MAM_PC OE_R LD_A    # adc #imm
= %ABS | MAM_PC | MAM_MAR MR ALU_CIN_C ALU_F_ADD LD_R ALU_FLAGS | MAM_PC OE_R LD_A                                        # adc abs
= %ABS | MAM_PC | MAM_MAR_PLUS_IDX IDX_X MR ALU_CIN_C ALU_F_ADD LD_R ALU_FLAGS | MAM_PC OE_R LD_A                         # adc abs,x
= %ABS | MAM_PC | MAM_MAR_PLUS_IDX IDX_Y MR ALU_CIN_C ALU_F_ADD LD_R ALU_FLAGS | MAM_PC OE_R LD_A                         # adc abs,y
= %IND | MAM_PC | MAM_MAR MR ALU_CIN_C ALU_F_ADD LD_R ALU_FLAGS | MAM_PC OE_R LD_A                                        # adc (abs)
= %IND | MAM_PC | MAM_MAR_PLUS_IDX IDX_X MR ALU_CIN_C ALU_F_ADD LD_R ALU_FLAGS | MAM_PC OE_R LD_A                         # adc (abs),x
= %IND | MAM_PC | MAM_MAR_PLUS_IDX IDX_Y MR ALU_CIN_C ALU_F_ADD LD_R ALU_FLAGS | MAM_PC OE_R LD_A                         # adc (abs),y

= %HEAD | MAM_PC MR LD_T INC_PC | MAM_PC | MAM_PC OE_A ALU_F_SUB ALU_CIN_C LD_R ALU_FLAGS FSL_V_ALU | MAM_PC OE_R LD_A    # sbc #imm
= %ABS | MAM_PC | MAM_MAR MR ALU_CIN_C ALU_F_SUB LD_R ALU_FLAGS | MAM_PC OE_R LD_A                                        # sbc abs
= %ABS | MAM_PC | MAM_MAR_PLUS_IDX IDX_X MR ALU_CIN_C ALU_F_SUB LD_R ALU_FLAGS | MAM_PC OE_R LD_A                         # sbc abs,x
= %ABS | MAM_PC | MAM_MAR_PLUS_IDX IDX_Y MR ALU_CIN_C ALU_F_SUB LD_R ALU_FLAGS | MAM_PC OE_R LD_A                         # sbc abs,y
= %IND | MAM_PC | MAM_MAR MR ALU_CIN_C ALU_F_SUB LD_R ALU_FLAGS | MAM_PC OE_R LD_A                                        # sbc (abs)
= %IND | MAM_PC | MAM_MAR_PLUS_IDX IDX_X MR ALU_CIN_C ALU_F_SUB LD_R ALU_FLAGS | MAM_PC OE_R LD_A                         # sbc (abs),x
= %IND | MAM_PC | MAM_MAR_PLUS_IDX IDX_Y MR ALU_CIN_C ALU_F_SUB LD_R ALU_FLAGS | MAM_PC OE_R LD_A                         # sbc (abs),y

= %HEAD | MAM_PC MR LD_T INC_PC | MAM_PC | MAM_PC OE_A ALU_F_AND ALU_CIN_0 LD_R ALU_FLAGS FSL_V_ALU | MAM_PC OE_R LD_A    # and #imm
= %ABS | MAM_PC | MAM_MAR MR ALU_CIN_0 ALU_F_AND LD_R ALU_FLAGS | MAM_PC OE_R LD_A                                        # and abs
= %ABS | MAM_PC | MAM_MAR_PLUS_IDX IDX_X MR ALU_CIN_0 ALU_F_AND LD_R ALU_FLAGS | MAM_PC OE_R LD_A                         # and abs,x
= %ABS | MAM_PC | MAM_MAR_PLUS_IDX IDX_Y MR ALU_CIN_0 ALU_F_AND LD_R ALU_FLAGS | MAM_PC OE_R LD_A                         # and abs,y
= %IND | MAM_PC | MAM_MAR MR ALU_CIN_0 ALU_F_AND LD_R ALU_FLAGS | MAM_PC OE_R LD_A                                        # and (abs)
= %IND | MAM_PC | MAM_MAR_PLUS_IDX IDX_X MR ALU_CIN_0 ALU_F_AND LD_R ALU_FLAGS | MAM_PC OE_R LD_A                         # and (abs),x
= %IND | MAM_PC | MAM_MAR_PLUS_IDX IDX_Y MR ALU_CIN_0 ALU_F_AND LD_R ALU_FLAGS | MAM_PC OE_R LD_A                         # and (abs),y

= %HEAD | MAM_PC MR LD_T INC_PC | MAM_PC | MAM_PC OE_A ALU_F_OR ALU_CIN_0 LD_R ALU_FLAGS FSL_V_ALU | MAM_PC OE_R LD_A     # ora #imm
= %ABS | MAM_PC | MAM_MAR MR ALU_CIN_0 ALU_F_OR LD_R ALU_FLAGS | MAM_PC OE_R LD_A                                         # ora abs
= %ABS | MAM_PC | MAM_MAR_PLUS_IDX IDX_X MR ALU_CIN_0 ALU_F_OR LD_R ALU_FLAGS | MAM_PC OE_R LD_A                          # ora abs,x
= %ABS | MAM_PC | MAM_MAR_PLUS_IDX IDX_Y MR ALU_CIN_0 ALU_F_OR LD_R ALU_FLAGS | MAM_PC OE_R LD_A                          # ora abs,y
= %IND | MAM_PC | MAM_MAR MR ALU_CIN_0 ALU_F_OR LD_R ALU_FLAGS | MAM_PC OE_R LD_A                                         # ora (abs)
= %IND | MAM_PC | MAM_MAR_PLUS_IDX IDX_X MR ALU_CIN_0 ALU_F_OR LD_R ALU_FLAGS | MAM_PC OE_R LD_A                          # ora (abs),x
= %IND | MAM_PC | MAM_MAR_PLUS_IDX IDX_Y MR ALU_CIN_0 ALU_F_OR LD_R ALU_FLAGS | MAM_PC OE_R LD_A                          # ora (abs),y

= %HEAD | MAM_PC MR LD_T INC_PC | MAM_PC | MAM_PC OE_A ALU_F_XOR ALU_CIN_0 LD_R ALU_FLAGS FSL_V_ALU | MAM_PC OE_R LD_A    # eor #imm
= %ABS | MAM_PC | MAM_MAR MR ALU_CIN_0 ALU_F_XOR LD_R ALU_FLAGS | MAM_PC OE_R LD_A                                        # eor abs
= %ABS | MAM_PC | MAM_MAR_PLUS_IDX IDX_X MR ALU_CIN_0 ALU_F_XOR LD_R ALU_FLAGS | MAM_PC OE_R LD_A                         # eor abs,x
= %ABS | MAM_PC | MAM_MAR_PLUS_IDX IDX_Y MR ALU_CIN_0 ALU_F_XOR LD_R ALU_FLAGS | MAM_PC OE_R LD_A                         # eor abs,y
= %IND | MAM_PC | MAM_MAR MR ALU_CIN_0 ALU_F_XOR LD_R ALU_FLAGS | MAM_PC OE_R LD_A                                        # eor (abs)
= %IND | MAM_PC | MAM_MAR_PLUS_IDX IDX_X MR ALU_CIN_0 ALU_F_XOR LD_R ALU_FLAGS | MAM_PC OE_R LD_A                         # eor (abs),x
= %IND | MAM_PC | MAM_MAR_PLUS_IDX IDX_Y MR ALU_CIN_0 ALU_F_XOR LD_R ALU_FLAGS | MAM_PC OE_R LD_A                         # eor (abs),y

= %HEAD | MAM_PC | OE_A ALU_F_LSH ALU_CIN_C LD_R ALU_FLAGS | OE_R LD_A                  # rol
= %HEAD | MAM_PC | OE_A ALU_F_RSH ALU_CIN_C LD_R ALU_FLAGS | OE_R LD_A                  # ror

= %HEAD | DEC_SP | MAM_SP OE_A MW                                    # pha
= %HEAD | MAM_SP MR LD_A | INC_SP                                    # pla
= %HEAD | DEC_SP | MAM_SP OE_X MW                                    # phx
= %HEAD | MAM_SP MR LD_X | INC_SP                                    # plx
= %HEAD | DEC_SP | MAM_SP OE_Y MW                                    # phy
= %HEAD | MAM_SP MR LD_Y | INC_SP                                    # ply
= %HEAD | DEC_SP | MAM_SP OE_F MW                                    # php
= %HEAD | MAM_SP MR LD_F FSL_ALL_BUS INC_SP                          # plp

= %ABS | MAM_PC OE_MARL LD_PCL | MAM_PC OE_MARH LD_PCH               # jmp abs
= %HEAD | MAM_PC MR LD_MARL INC_PC | MAM_PC MR LD_MARH INC_PC DEC_SP | OE_PCH MAM_SP MW DEC_SP | OE_PCL MAM_SP MW | OE_MARL LD_PCL | OE_MARH LD_PCH   # jsr abs
= %HEAD | MAM_SP MR LD_PCL INC_SP | MAM_SP MR LD_PCH INC_SP          # rts

? Z=1 : %ABS | MAM_PC OE_MARL LD_PCL | MAM_PC OE_MARH LD_PCH : %ABS  # jeq abs
? Z=0 : %ABS | MAM_PC OE_MARL LD_PCL | MAM_PC OE_MARH LD_PCH : %ABS  # jne abs
? C=1 : %ABS | MAM_PC OE_MARL LD_PCL | MAM_PC OE_MARH LD_PCH : %ABS  # jcs abs
? C=0 : %ABS | MAM_PC OE_MARL LD_PCL | MAM_PC OE_MARH LD_PCH : %ABS  # jcc abs
? N=1 : %ABS | MAM_PC OE_MARL LD_PCL | MAM_PC OE_MARH LD_PCH : %ABS  # jns abs
? N=0 : %ABS | MAM_PC OE_MARL LD_PCL | MAM_PC OE_MARH LD_PCH : %ABS  # jnc abs
? V=1 : %ABS | MAM_PC OE_MARL LD_PCL | MAM_PC OE_MARH LD_PCH : %ABS  # jvs abs
? V=0 : %ABS | MAM_PC OE_MARL LD_PCL | MAM_PC OE_MARH LD_PCH : %ABS  # jvc abs

= %HEAD | MAM_PC MR LD_T INC_PC | MAM_PC OE_A ALU_F_SUB ALU_CIN_0 ALU_FLAGS FSL_V_ALU     # cmp #imm
= %ABS | MAM_MAR MR LD_T | MAM_PC OE_A ALU_F_SUB ALU_CIN_0 ALU_FLAGS FSL_V_ALU             # cmp abs
= %ABS | MAM_MAR_PLUS_IDX IDX_X MR LD_T | MAM_PC OE_A ALU_F_SUB ALU_CIN_0 ALU_FLAGS FSL_V_ALU   # cmp abs,x
= %ABS | MAM_MAR_PLUS_IDX IDX_Y MR LD_T | MAM_PC OE_A ALU_F_SUB ALU_CIN_0 ALU_FLAGS FSL_V_ALU   # cmp abs,y
= %IND | MAM_MAR MR LD_T | OE_A ALU_CIN_0 ALU_F_SUB LD_R ALU_FLAGS                              # cmp (abs)
= %IND | MAM_MAR_PLUS_IDX IDX_X MR LD_T | OE_A ALU_CIN_0 ALU_F_SUB LD_R ALU_FLAGS               # cmp (abs),x
= %IND | MAM_MAR_PLUS_IDX IDX_Y MR LD_T | OE_A ALU_CIN_0 ALU_F_SUB LD_R ALU_FLAGS               # cmp (abs),y

= %HEAD | MAM_PC MR LD_T INC_PC | MAM_PC OE_A ALU_F_AND ALU_CIN_0 LD_F FSL_Z_ALU FSL_N_ALU FSL_V_ALU FSL_I_REG               # bit #imm
= %ABS | MAM_MAR MR LD_T | MAM_PC OE_A ALU_F_AND ALU_CIN_0 LD_F FSL_Z_ALU FSL_N_ALU FSL_V_ALU FSL_I_REG                       # bit abs
= %ABS | MAM_MAR_PLUS_IDX IDX_X MR LD_T | MAM_PC OE_A ALU_F_AND ALU_CIN_0 LD_F FSL_Z_ALU FSL_N_ALU FSL_V_ALU FSL_I_REG        # bit abs,x
= %ABS | MAM_MAR_PLUS_IDX IDX_Y MR LD_T | MAM_PC OE_A ALU_F_AND ALU_CIN_0 LD_F FSL_Z_ALU FSL_N_ALU FSL_V_ALU FSL_I_REG        # bit abs,y
= %IND | MAM_MAR MR LD_T | MAM_PC OE_A ALU_F_AND ALU_CIN_0 LD_F FSL_Z_ALU FSL_N_ALU FSL_V_ALU FSL_I_REG                       # bit (abs)
= %IND | MAM_MAR_PLUS_IDX IDX_X MR LD_T | MAM_PC OE_A ALU_F_AND ALU_CIN_0 LD_F FSL_Z_ALU FSL_N_ALU FSL_V_ALU FSL_I_REG        # bit (abs),x
= %IND | MAM_MAR_PLUS_IDX IDX_Y MR LD_T | MAM_PC OE_A ALU_F_AND ALU_CIN_0 LD_F FSL_Z_ALU FSL_N_ALU FSL_V_ALU FSL_I_REG        # bit (abs),y

= %HEAD | MAM_PC LD_F FSL_Z_CLR FSL_C_REG FSL_N_REG FSL_V_REG FSL_I_REG      # clz
= %HEAD | MAM_PC LD_F FSL_Z_SET FSL_C_REG FSL_N_REG FSL_V_REG FSL_I_REG      # sez
= %HEAD | MAM_PC LD_F FSL_Z_REG FSL_C_CLR FSL_N_REG FSL_V_REG FSL_I_REG      # clc
= %HEAD | MAM_PC LD_F FSL_Z_REG FSL_C_SET FSL_N_REG FSL_V_REG FSL_I_REG      # sec
= %HEAD | MAM_PC LD_F FSL_Z_REG FSL_C_REG FSL_N_CLR FSL_V_REG FSL_I_REG      # cln
= %HEAD | MAM_PC LD_F FSL_Z_REG FSL_C_REG FSL_N_SET FSL_V_REG FSL_I_REG      # sen
= %HEAD | MAM_PC LD_F FSL_Z_REG FSL_C_REG FSL_N_REG FSL_V_CLR FSL_I_REG      # clv
= %HEAD | MAM_PC LD_F FSL_Z_REG FSL_C_REG FSL_N_REG FSL_V_SET FSL_I_REG      # sev
= %HEAD | MAM_PC LD_F FSL_Z_REG FSL_C_REG FSL_N_REG FSL_V_REG FSL_I_CLR      # cli
= %HEAD | MAM_PC LD_F FSL_Z_REG FSL_C_REG FSL_N_REG FSL_V_REG FSL_I_SET      # sei

= %HEAD | FSL_Z_REG FSL_C_REG FSL_N_REG FSL_V_REG FSL_I_SET LD_F | MAM_SP MR LD_PCL SP_INC | MAM_SP MR LD_PCH SP_INC   # rti
= %HEAD | OE_X LD_SPH | OE_Y LD_SPL                                  # lsp
= %HEAD | BRK NF                                                     # brk
= %HEAD | MAM_PC OE_X LD_MARH | MAM_PC OE_Y LD_MARL | MAM_MAR MR LD_A   # lda (x,y)
"

end ControlStore.Catalog
