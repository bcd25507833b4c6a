/-!
FLISP, an 8-bit educational processor: a 48-bit control word in six 8-bit ROMs, the file for bits 0
to 7 first.
-/

namespace ControlStore.Catalog

def flispSource : String := "@ NF:5 G0:6 G1:7 G2:8 G3:9 G4:10 G5:11 G6:12 G7:13 G8:14 G9:15 G10:16
@ G11:17 G12:18 G13:19 G14:20 F0:21 F1:22 F2:23 F3:24 MW:25 MR:26 LD_TA:27
@ DEC_SP:28 INC_SP:29 OE_SP:30 LD_SP:31 INC_PC:32 OE_PC:33 LD_PC:34 OE_Y:35
@ LD_Y:36 OE_X:37 LD_X:38 OE_CC:39 LD_CC:40 OE_R:41 LD_R:42 CLR_T:43 LD_T:44
@ OE_A:45 LD_I:46 LD_A:47

$ C_ALU =
$ C_BUS = G2
$ C_ZERO = G3
$ C_REG = G3 G2
$ V_ALU =
$ V_BUS = G4
$ V_ZERO = G5
$ V_REG = G5 G4
$ Z_ALU =
$ Z_BUS = G6
$ Z_ZERO = G7
$ Z_REG = G7 G6
$ N_ALU =
$ N_BUS = G8
$ N_ZERO = G9
$ N_REG = G9 G8
$ I_REG = G11 G10
$ I_BUS = G10
$ I_ONE = G11

$ ALU_CIN_ZERO =
$ ALU_CIN_ONE = G0
$ ALU_CIN_REG = G1
$ ALU_CIN_NEGREG = G1 G0

$ MA_PC =
$ MA_SP_T = G12
$ MA_Y_T = G13
$ MA_X_T = G13 G12
$ MA_TA = G14

$ ALU_F_ZERO =
$ ALU_F_FD = F0
$ ALU_F_FE = F1
$ ALU_F_FF = F1 F0
$ ALU_F_E = F2
$ ALU_F_D1K_PLUS_CIN = F2 F0
$ ALU_F_D_OR_E = F2 F1
$ ALU_F_D_AND_E = F2 F1 F0
$ ALU_F_D_XOR_E = F3
$ ALU_F_D_PLUS_CIN = F3 F0
$ ALU_F_D_PLUS_FF = F3 F1
$ ALU_F_D_PLUS_E_CIN = F3 F1 F0
$ ALU_F_D_PLUS_E1K_CIN = F3 F2
$ ALU_F_D_LS_CIN = F3 F2 F0
$ ALU_F_D_RS_CIN = F3 F2 F1
$ ALU_F_D_RS_D7 = F3 F2 F1 F0

$ Q0 = F1 F0 LD_R
$ Q1 = OE_R LD_TA
$ Q2 = MR G14 LD_PC
$ FETCH = MR LD_I INC_PC CLR_T

% HEAD = Q0 | Q1 | Q2 | FETCH

! name flisp
! layout flags:4 opcode:8 step:4
! flags C:0 V:1 Z:2 N:3
! lane-layout split
! output ucode_\x7blo\x7d_\x7bhi\x7d.bin

* %HEAD | .. | NF

> h00
= %HEAD | NF | .. | NF                                                      # NOP
= %HEAD | MR LD_T INC_PC | OE_CC ALU_F_D_AND_E LD_CC NF | .. | NF           # ANDCC #
= %HEAD | MR LD_T INC_PC | OE_CC ALU_F_D_OR_E LD_CC NF | .. | NF            # ORCC #

> h05
= %HEAD | LD_R | OE_R LD_A NF                                               # CLRA
= %HEAD | OE_A LD_R ALU_F_D1K_PLUS_CIN ALU_CIN_ONE N_ALU Z_ALU V_ALU C_ALU | OE_R LD_A NF   # NEGA
= %HEAD | OE_A ALU_F_D_PLUS_CIN LD_R ALU_CIN_ONE | OE_R LD_A NF | .. | NF   # INCA
= %HEAD | OE_A ALU_F_D_PLUS_FF LD_R ALU_CIN_ZERO | OE_R LD_A NF | .. | NF   # DECA
= %HEAD | OE_A ALU_F_D_PLUS_E1K_CIN ALU_CIN_ONE LD_R LD_CC NF | .. | NF     # TSTA
= %HEAD | OE_A ALU_F_D1K_PLUS_CIN ALU_CIN_ZERO LD_R N_ALU Z_ALU V_ZERO C_REG LD_CC | OE_R LD_A NF | .. | NF   # COMA
= %HEAD | OE_A ALU_F_D_LS_CIN ALU_CIN_ZERO N_ALU Z_ALU V_ALU C_ALU LD_R LD_CC | OE_R LD_A NF | .. | NF       # LSLA
= %HEAD | OE_A ALU_F_D_RS_CIN ALU_CIN_ZERO N_ALU Z_ALU V_ALU C_ALU LD_R LD_CC | OE_R LD_A NF | .. | NF       # LSRA
= %HEAD | OE_A ALU_F_D_LS_CIN ALU_CIN_REG N_ALU Z_ALU V_ALU C_ALU LD_R LD_CC | OE_R LD_A NF | .. | NF        # ROLA
= %HEAD | OE_A ALU_F_D_RS_CIN ALU_CIN_REG N_ALU Z_ALU V_ALU C_ALU LD_R LD_CC | OE_R LD_A NF | .. | NF        # RORA
= %HEAD | OE_A ALU_F_D_RS_D7 N_ALU Z_ALU V_ZERO C_ALU LD_R LD_CC | OE_R LD_A NF | .. | NF                    # ASRA

= %HEAD | DEC_SP | OE_A MW MA_SP_T NF | .. | NF                             # PSHA
= %HEAD | DEC_SP | OE_X MW MA_SP_T NF | .. | NF                             # PSHX
= %HEAD | DEC_SP | OE_Y MW MA_SP_T NF | .. | NF                             # PSHY
= %HEAD | DEC_SP | OE_CC MW MA_SP_T NF | .. | NF                            # PSHC
= %HEAD | MA_SP_T MR LD_A | INC_SP NF | .. | NF                             # PULA
= %HEAD | MA_SP_T MR LD_X | INC_SP NF | .. | NF                             # PULX
= %HEAD | MA_SP_T MR LD_Y | INC_SP NF | .. | NF                             # PULY
= %HEAD | MA_SP_T MR LD_CC N_BUS C_BUS I_BUS V_BUS Z_BUS | INC_SP NF | .. | NF   # PULC

= %HEAD | OE_A LD_CC N_BUS V_BUS Z_BUS C_BUS I_BUS NF | .. | NF             # TFR A,CC
= %HEAD | OE_CC LD_A NF | .. | NF                                           # TFR CC,A
= %HEAD | OE_X LD_Y NF | .. | NF                                            # TFR X,Y
= %HEAD | OE_Y LD_X NF | .. | NF                                            # TFR Y,X
= %HEAD | OE_X LD_SP NF | .. | NF                                           # TFR X,SP
= %HEAD | OE_SP LD_X NF | .. | NF                                           # TFR SP,X
= %HEAD | OE_Y LD_SP NF | .. | NF                                           # TFR Y,SP
= %HEAD | OE_SP LD_Y NF | .. | NF                                           # TFR SP,Y

= %HEAD | DEC_SP | MR MA_PC LD_T | OE_PC ALU_F_D_PLUS_E_CIN ALU_CIN_ZERO LD_R CLR_T INC_PC | OE_PC MW MA_SP_T | OE_R LD_PC NF | .. | NF   # BSR rel
= %HEAD | MR MA_PC LD_T | LD_R ALU_F_D_PLUS_E_CIN ALU_CIN_ZERO OE_PC CLR_T | OE_R LD_PC NF | .. | NF                                   # BRA rel

> h43
= %HEAD | MR MA_SP_T LD_PC INC_SP NF | .. | NF                              # RTS

> h92
= %HEAD | MR LD_SP INC_PC NF | .. | NF                                      # LDSP #

> hF0
= %HEAD | MR LD_A INC_PC NF | .. | NF                                       # LDA #
"

end ControlStore.Catalog
