/-!
The 8-bit breadboard computer: two 8-bit EEPROMs programmed from one image. Address bit 7 selects
the chip, and the high byte of the control word comes first.
-/

namespace ControlStore.Catalog

def eightBitSource : String := "@ FI:0 J:1 CO:2 CE:3 OI:4 BI:5 SU:6 EO:7
@ AO:8 AI:9 II:10 IO:11 RO:12 RI:13 MI:14 HLT:15

% FETCH = MI CO | RO II CE

! name beneater-8bit
! layout flags:2 lane:1 opcode:4 step:3
! flags C:0 Z:1
! lane-layout banked
! byte-order high-first
! output microcode.bin

> b0000
= %FETCH                                     # NOP
= %FETCH | MI IO | RO AI                     # LDA addr
= %FETCH | MI IO | RO BI | EO AI FI          # ADD addr
= %FETCH | MI IO | RO BI | EO SU AI FI       # SUB addr
= %FETCH | MI IO | AO RI                     # STA addr
= %FETCH | IO AI                             # LDI data
= %FETCH | IO J                              # JMP addr
? C=1 : %FETCH | IO J : %FETCH               # JC addr
? Z=1 : %FETCH | IO J : %FETCH               # JZ addr

> b1110
= %FETCH | AO OI                             # OUT
= %FETCH | HLT                               # HLT
"

end ControlStore.Catalog
