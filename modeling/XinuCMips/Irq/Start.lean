import XinuCMips.Lib.Mips

/-!
# The interrupt handler of `start.S`

The code at exception vector 0x200: `save` pushes a record with the whole
context on the stack, `dispatch` jumps into `handlers_tbl`, an entry calls the
handler of a device with interrupts disabled, and `_restore` and `dismiss` pop
the record. The offsets are those of `interrupt.h`.
-/

namespace Xinu.Irq

open Mips

-- interrupt.h
def IRQREC_AT : BitVec 16 := 20
def IRQREC_V0 : BitVec 16 := 24
def IRQREC_V1 : BitVec 16 := 28
def IRQREC_A0 : BitVec 16 := 32
def IRQREC_A1 : BitVec 16 := 36
def IRQREC_A2 : BitVec 16 := 40
def IRQREC_A3 : BitVec 16 := 44
def IRQREC_T0 : BitVec 16 := 48
def IRQREC_T1 : BitVec 16 := 52
def IRQREC_T2 : BitVec 16 := 56
def IRQREC_T3 : BitVec 16 := 60
def IRQREC_T4 : BitVec 16 := 64
def IRQREC_T5 : BitVec 16 := 68
def IRQREC_T6 : BitVec 16 := 72
def IRQREC_T7 : BitVec 16 := 76
def IRQREC_S0 : BitVec 16 := 80
def IRQREC_S1 : BitVec 16 := 84
def IRQREC_S2 : BitVec 16 := 88
def IRQREC_S3 : BitVec 16 := 92
def IRQREC_S4 : BitVec 16 := 96
def IRQREC_S5 : BitVec 16 := 100
def IRQREC_S6 : BitVec 16 := 104
def IRQREC_S7 : BitVec 16 := 108
def IRQREC_T8 : BitVec 16 := 112
def IRQREC_T9 : BitVec 16 := 116
def IRQREC_K0 : BitVec 16 := 120
def IRQREC_K1 : BitVec 16 := 124
def IRQREC_S8 : BitVec 16 := 128
def IRQREC_SP : BitVec 16 := 132
def IRQREC_S9 : BitVec 16 := 136
def IRQREC_RA : BitVec 16 := 140
def IRQREC_LO : BitVec 16 := 144
def IRQREC_HI : BitVec 16 := 148
def IRQREC_CAUSE : BitVec 16 := 152
def IRQREC_STATUS : BitVec 16 := 156
def IRQREC_EPC : BitVec 16 := 164
def IRQREC_SIZE : BitVec 16 := 168

def STATUS_IE : BitVec 16 := 0x0001
def STATUS_EXL : BitVec 16 := 0x0002

def x_EXCEPTION_0200 : Word := 0x00000400
/-- keep bits 15..8 -> IM = IP -/
def M_CauseIM : BitVec 16 := 0xff00
/-- user mode, enable irq7..4, irq1, irq0 -/
def M_StatusIEn : BitVec 16 := 0xf311

/-- `li` of a small constant. -/
def li (rt : Reg) (imm : BitVec 16) : Instr := .addiu rt .zero imm

/-- `%hi` and `%lo` of an address. -/
def hiHalf (a : Word) : BitVec 16 := ((a + 0x8000) >>> 16).setWidth 16
def loHalf (a : Word) : BitVec 16 := a.setWidth 16

/-- `save`, up to the reading of CAUSE and STATUS. -/
def saveRegs : List Instr :=
  [.addiu .sp .sp (-IRQREC_SIZE),
   .mfc0 .k1 .EPC,
   .sw .AT IRQREC_AT .sp,
   .sw .k1 IRQREC_EPC .sp,
   .sw .v0 IRQREC_V0 .sp,
   .sw .v1 IRQREC_V1 .sp,
   .sw .a0 IRQREC_A0 .sp,
   .sw .a1 IRQREC_A1 .sp,
   .sw .a2 IRQREC_A2 .sp,
   .sw .a3 IRQREC_A3 .sp,
   .sw .t0 IRQREC_T0 .sp,
   .sw .t1 IRQREC_T1 .sp,
   .sw .t2 IRQREC_T2 .sp,
   .sw .t3 IRQREC_T3 .sp,
   .sw .t4 IRQREC_T4 .sp,
   .sw .t5 IRQREC_T5 .sp,
   .sw .t6 IRQREC_T6 .sp,
   .sw .t7 IRQREC_T7 .sp,
   .sw .s0 IRQREC_S0 .sp,
   .sw .s1 IRQREC_S1 .sp,
   .sw .s2 IRQREC_S2 .sp,
   .sw .s3 IRQREC_S3 .sp,
   .sw .s4 IRQREC_S4 .sp,
   .sw .s5 IRQREC_S5 .sp,
   .sw .s6 IRQREC_S6 .sp,
   .sw .s7 IRQREC_S7 .sp,
   .sw .t8 IRQREC_T8 .sp,
   .sw .t9 IRQREC_T9 .sp,
   .sw .k0 IRQREC_K0 .sp,
   .sw .k1 IRQREC_K1 .sp,
   .sw .gp IRQREC_S8 .sp,
   .sw .sp IRQREC_SP .sp,
   .sw .fp IRQREC_S9 .sp,
   .sw .ra IRQREC_RA .sp,
   .mfhi .t0,
   .mflo .t1,
   .sw .t0 IRQREC_HI .sp,
   .sw .t1 IRQREC_LO .sp]

/-- The rest of `save`. -/
def saveCause : List Instr :=
  [.mfc0 .k0 .CAUSE,
   .mfc0 .k1 .STATUS,
   .sw .k0 IRQREC_CAUSE .sp,
   .sw .k1 IRQREC_STATUS .sp]

def save : List Instr := saveRegs ++ saveCause

/-- `handlers_tbl` follows `save` and `dispatch`, which end in `jr` and a delay
slot. -/
def handlers_tbl : Word := x_EXCEPTION_0200 + BitVec.ofNat 32 (4 * (save.length + 9))

/-- `dispatch`, up to its `jr k1`. -/
def dispatch : List Instr :=
  [.andi .k0 .k0 M_CauseIM,
   .and .k0 .k0 .k1,
   .srl .k0 .k0 9,
   .lui .k1 (hiHalf handlers_tbl),
   .ori .k1 .k1 (loHalf handlers_tbl),
   .add .k1 .k1 .k0,
   .nop]

end Xinu.Irq
