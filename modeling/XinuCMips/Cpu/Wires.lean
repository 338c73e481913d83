import Mathlib.Data.BitVec

/-!
# The wires and control tables of the cMIPS core

The enumerations of `packageWires.vhd` and `packageExcp.vhd` and the three
control tables of `core.vhd`. A `std_logic` is a `Bool` (`true` is '1'), and the
polarity is the source's: `aVal`, `wmem` and `wreg` are active low. A select
signal whose eight or four codes each have a name in the source's comments is an
inductive type with one constructor a code.
-/

namespace Xinu.Cpu

/-- A `reg32`. -/
abbrev Word := BitVec 32

/-- A `reg5`, which names a register. -/
abbrev Reg := BitVec 5

/-- `t_alu_fun`. -/
inductive AluFun where
  | opNOP
  | opSLL | opSLLV | opSRL | opSRA | opSRLV | opSRAV
  | opMOVZ | opMOVN
  | opMFHI | opMTHI | opMFLO | opMTLO
  | opMULT | opMULTU | opDIV | opDIVU | opMUL
  | opADD | opADDU | opSUB | opSUBU
  | opAND | opOR | opXOR | opNOR
  | opSLT | opSLTU | opLUI
  | opSPC | opSWAP | opEXT | opINS | opSEB | opSEH
  | trGEQ | trGEU | trLTH | trLTU | trEQU | trNEQ | trNOP
  deriving DecidableEq, Repr

/-- `instr_type`. -/
inductive InstrType where
  | iALU | ADD | ADDU | SUB | SUBU | iAND | iOR | iXOR | iNOR
  | RIMM | BLTZ | BGEZ | BLTZAL | BGEZAL
  | J | JAL | BEQ | BNE | BLEZ | BGTZ
  | ADDI | ADDIU | ANDI | ORI | XORI | LUI
  | COP0 | SPEC3
  | SLT | SLTU | SLTI | SLTIU
  | LB | LH | LWL | LW | LBU | LHU | LWR
  | SB | SH | SW | LL | SC
  | iSLL | iSRL | iSRA | SLLV | SRLV | SRAV
  | JR | JALR
  | MOVZ | MOVN
  | MFHI | MTHI | MFLO | MTLO | MULT | MULTU | DIV | DIVU
  | BREAK | SYSCALL | NOP | TEQ | TNE | TEQI | TNEI
  | TLT | TLTU | TLTI | TLTIU | TGE | TGEU | TGEI | TGEIU
  | SPEC2 | NIL
  deriving DecidableEq, Repr

/-- `t_comparison`: what a branch or a trap compares. -/
inductive Comparison where
  | cNOP | cEQU | cNEQ | cLTZ | cLEZ | cGTZ | cGEZ | cOTH
  | tGEQ | tGEU | tLTH | tLTU | tEQU | tNEQ
  deriving DecidableEq, Repr

/-- `exception_type`, without the TLB exceptions, which `core.vhd` never raises
(`tlb_exception` is tied to FALSE). -/
inductive ExceptionType where
  | exNOP
  | exMTC0 | exMFC0
  | exERET
  | exEI | exDI
  | exBREAK | exTRAP | exSYSCALL
  | exRESV_INSTR | exWAIT
  | IFaddressError | MMaddressErrorLD | MMaddressErrorST
  | exOvfl
  | exLL | exSC
  | exEHB
  | exTLBP | exTLBR | exTLBWI | exTLBWR
  | exDERET
  | exIBE | exDBE
  | exNMI | exInterr
  deriving DecidableEq, Repr

/-- `muxC`: what the instruction writes to its destination register. No row of
the tables has the remaining code, "010". -/
inductive MuxC where
  /-- "000", from memory -/
  | mem
  /-- "001", from the ALU -/
  | ula
  /-- "011", PC+8 -/
  | pc8
  /-- "100", HI -/
  | hi
  /-- "101", LO -/
  | lo
  /-- "110", from the COP0 registers -/
  | cop0
  /-- "111", from LLbit -/
  | llbit
  deriving DecidableEq, Repr

/-- `c_sel`: where the number of the destination register comes from. -/
inductive CSel where
  | rd | rt | r31
  deriving DecidableEq, Repr

/-- `PCsel`: the source of the next PC. -/
inductive PCsel where
  | pc4 | branch | jump | jr
  deriving DecidableEq, Repr

/-- `t_control_type`, a row of the control table. The `fun` column is not read. -/
structure ControlType where
  aVal : Bool
  wmem : Bool
  i : InstrType
  wreg : Bool
  selB : Bool
  oper : AluFun
  muxC : MuxC
  cSel : CSel
  extS : Bool
  pcSel : PCsel
  brT : Comparison
  excp : BitVec 2
  deriving DecidableEq, Repr

/-- `t_function_type`, a row of the function table. The `sync` column is not read. -/
structure FunctionType where
  i : InstrType
  wreg : Bool
  selB : Bool
  oper : AluFun
  muxC : MuxC
  trap : Bool
  move : Bool
  pcSel : PCsel
  excp : BitVec 2
  deriving DecidableEq, Repr

/-- `t_rimm_type`, a row of the register-immediate table. -/
structure RimmType where
  i : InstrType
  wreg : Bool
  selB : Bool
  brT : Comparison
  muxC : MuxC
  cSel : CSel
  trap : Bool
  pcSel : PCsel
  excp : BitVec 2
  deriving DecidableEq, Repr

section Tables

open InstrType AluFun Comparison

-- The columns of a table are '1' and '0'.
private abbrev sl1 : Bool := true
private abbrev sl0 : Bool := false

/-- `ctrl_table`, by opcode. -/
def ctrlTable (opcode : BitVec 6) : ControlType :=
  match opcode.toNat with
  | 0  => ⟨sl1, sl1, iALU,  sl1, sl0, opNOP,  .ula,   .rd,  sl0, .pc4,    cNOP, 0b00#2⟩
  | 1  => ⟨sl1, sl1, RIMM,  sl1, sl0, opNOP,  .ula,   .rd,  sl1, .pc4,    cOTH, 0b00#2⟩
  | 2  => ⟨sl1, sl1, J,     sl1, sl0, opNOP,  .ula,   .rd,  sl0, .jump,   cNOP, 0b00#2⟩
  | 3  => ⟨sl1, sl1, JAL,   sl0, sl0, opNOP,  .pc8,   .r31, sl0, .jump,   cNOP, 0b00#2⟩
  | 4  => ⟨sl1, sl1, BEQ,   sl1, sl0, opNOP,  .ula,   .rd,  sl1, .branch, cEQU, 0b00#2⟩
  | 5  => ⟨sl1, sl1, BNE,   sl1, sl0, opNOP,  .ula,   .rd,  sl1, .branch, cNEQ, 0b00#2⟩
  | 6  => ⟨sl1, sl1, BLEZ,  sl1, sl0, opNOP,  .ula,   .rd,  sl1, .branch, cLEZ, 0b00#2⟩
  | 7  => ⟨sl1, sl1, BGTZ,  sl1, sl0, opNOP,  .ula,   .rd,  sl1, .branch, cGTZ, 0b00#2⟩
  | 8  => ⟨sl1, sl1, ADDI,  sl0, sl1, opADD,  .ula,   .rt,  sl1, .pc4,    cNOP, 0b10#2⟩
  | 9  => ⟨sl1, sl1, ADDIU, sl0, sl1, opADD,  .ula,   .rt,  sl1, .pc4,    cNOP, 0b00#2⟩
  | 10 => ⟨sl1, sl1, SLTI,  sl0, sl1, opSLT,  .ula,   .rt,  sl1, .pc4,    cNOP, 0b10#2⟩
  | 11 => ⟨sl1, sl1, SLTIU, sl0, sl1, opSLTU, .ula,   .rt,  sl1, .pc4,    cNOP, 0b00#2⟩
  | 12 => ⟨sl1, sl1, ANDI,  sl0, sl1, opAND,  .ula,   .rt,  sl0, .pc4,    cNOP, 0b00#2⟩
  | 13 => ⟨sl1, sl1, ORI,   sl0, sl1, opOR,   .ula,   .rt,  sl0, .pc4,    cNOP, 0b00#2⟩
  | 14 => ⟨sl1, sl1, XORI,  sl0, sl1, opXOR,  .ula,   .rt,  sl0, .pc4,    cNOP, 0b00#2⟩
  | 15 => ⟨sl1, sl1, LUI,   sl0, sl1, opLUI,  .ula,   .rt,  sl0, .pc4,    cNOP, 0b00#2⟩
  | 16 => ⟨sl1, sl1, COP0,  sl1, sl0, opNOP,  .cop0,  .rt,  sl0, .pc4,    cNOP, 0b00#2⟩
  | 28 => ⟨sl1, sl1, SPEC2, sl0, sl0, opSPC,  .ula,   .rd,  sl0, .pc4,    cNOP, 0b00#2⟩
  | 31 => ⟨sl1, sl1, SPEC3, sl0, sl0, opSPC,  .ula,   .rd,  sl0, .pc4,    cNOP, 0b00#2⟩
  | 32 => ⟨sl0, sl1, LB,    sl0, sl1, opADD,  .mem,   .rt,  sl1, .pc4,    cNOP, 0b11#2⟩
  | 33 => ⟨sl0, sl1, LH,    sl0, sl1, opADD,  .mem,   .rt,  sl1, .pc4,    cNOP, 0b11#2⟩
  | 34 => ⟨sl0, sl1, LWL,   sl0, sl1, opADD,  .mem,   .rt,  sl1, .pc4,    cNOP, 0b11#2⟩
  | 35 => ⟨sl0, sl1, LW,    sl0, sl1, opADD,  .mem,   .rt,  sl1, .pc4,    cNOP, 0b11#2⟩
  | 36 => ⟨sl0, sl1, LBU,   sl0, sl1, opADD,  .mem,   .rt,  sl1, .pc4,    cNOP, 0b11#2⟩
  | 37 => ⟨sl0, sl1, LHU,   sl0, sl1, opADD,  .mem,   .rt,  sl1, .pc4,    cNOP, 0b11#2⟩
  | 38 => ⟨sl0, sl1, LWR,   sl0, sl1, opADD,  .mem,   .rt,  sl1, .pc4,    cNOP, 0b11#2⟩
  | 40 => ⟨sl0, sl0, SB,    sl1, sl1, opADD,  .ula,   .rd,  sl1, .pc4,    cNOP, 0b11#2⟩
  | 41 => ⟨sl0, sl0, SH,    sl1, sl1, opADD,  .ula,   .rd,  sl1, .pc4,    cNOP, 0b11#2⟩
  | 43 => ⟨sl0, sl0, SW,    sl1, sl1, opADD,  .ula,   .rd,  sl1, .pc4,    cNOP, 0b11#2⟩
  | 48 => ⟨sl0, sl1, LL,    sl0, sl1, opADD,  .mem,   .rt,  sl1, .pc4,    cNOP, 0b11#2⟩
  | 56 => ⟨sl0, sl0, SC,    sl0, sl1, opADD,  .llbit, .rt,  sl1, .pc4,    cNOP, 0b11#2⟩
  | 63 => ⟨sl1, sl1, NOP,   sl1, sl0, opNOP,  .mem,   .rd,  sl0, .pc4,    cNOP, 0b00#2⟩
  | _  => ⟨sl1, sl1, NIL,   sl1, sl0, opNOP,  .ula,   .rd,  sl0, .pc4,    cNOP, 0b00#2⟩

/-- `func_table`, by the function field of an instruction with opcode 0. -/
def funcTable (func : BitVec 6) : FunctionType :=
  match func.toNat with
  | 0  => ⟨iSLL,    sl0, sl0, opSLL,   .ula, sl0, sl0, .pc4, 0b00#2⟩
  | 2  => ⟨iSRL,    sl0, sl0, opSRL,   .ula, sl0, sl0, .pc4, 0b00#2⟩
  | 3  => ⟨iSRA,    sl0, sl0, opSRA,   .ula, sl0, sl0, .pc4, 0b00#2⟩
  | 4  => ⟨SLLV,    sl0, sl0, opSLLV,  .ula, sl0, sl0, .pc4, 0b00#2⟩
  | 6  => ⟨SRLV,    sl0, sl0, opSRLV,  .ula, sl0, sl0, .pc4, 0b00#2⟩
  | 7  => ⟨SRAV,    sl0, sl0, opSRAV,  .ula, sl0, sl0, .pc4, 0b00#2⟩
  | 8  => ⟨JR,      sl1, sl0, opNOP,   .ula, sl0, sl0, .jr,  0b00#2⟩
  | 9  => ⟨JALR,    sl0, sl0, opNOP,   .pc8, sl0, sl0, .jr,  0b00#2⟩
  | 10 => ⟨MOVZ,    sl0, sl0, opMOVZ,  .ula, sl0, sl1, .pc4, 0b00#2⟩
  | 11 => ⟨MOVN,    sl0, sl0, opMOVN,  .ula, sl0, sl1, .pc4, 0b00#2⟩
  | 12 => ⟨SYSCALL, sl1, sl0, trNOP,   .ula, sl1, sl0, .pc4, 0b00#2⟩
  | 13 => ⟨BREAK,   sl1, sl0, trNOP,   .ula, sl1, sl0, .pc4, 0b00#2⟩
  | 16 => ⟨MFHI,    sl0, sl0, opMFHI,  .hi,  sl0, sl0, .pc4, 0b00#2⟩
  | 17 => ⟨MTHI,    sl1, sl0, opMTHI,  .ula, sl0, sl0, .pc4, 0b00#2⟩
  | 18 => ⟨MFLO,    sl0, sl0, opMFLO,  .lo,  sl0, sl0, .pc4, 0b00#2⟩
  | 19 => ⟨MTLO,    sl1, sl0, opMTLO,  .ula, sl0, sl0, .pc4, 0b00#2⟩
  | 24 => ⟨MULT,    sl1, sl0, opMULT,  .ula, sl0, sl0, .pc4, 0b00#2⟩
  | 25 => ⟨MULTU,   sl1, sl0, opMULTU, .ula, sl0, sl0, .pc4, 0b00#2⟩
  | 26 => ⟨DIV,     sl1, sl0, opDIV,   .ula, sl0, sl0, .pc4, 0b00#2⟩
  | 27 => ⟨DIVU,    sl1, sl0, opDIVU,  .ula, sl0, sl0, .pc4, 0b00#2⟩
  | 32 => ⟨ADD,     sl0, sl0, opADD,   .ula, sl0, sl0, .pc4, 0b10#2⟩
  | 33 => ⟨ADDU,    sl0, sl0, opADDU,  .ula, sl0, sl0, .pc4, 0b00#2⟩
  | 34 => ⟨SUB,     sl0, sl0, opSUB,   .ula, sl0, sl0, .pc4, 0b10#2⟩
  | 35 => ⟨SUBU,    sl0, sl0, opSUBU,  .ula, sl0, sl0, .pc4, 0b00#2⟩
  | 36 => ⟨iAND,    sl0, sl0, opAND,   .ula, sl0, sl0, .pc4, 0b00#2⟩
  | 37 => ⟨iOR,     sl0, sl0, opOR,    .ula, sl0, sl0, .pc4, 0b00#2⟩
  | 38 => ⟨iXOR,    sl0, sl0, opXOR,   .ula, sl0, sl0, .pc4, 0b00#2⟩
  | 39 => ⟨iNOR,    sl0, sl0, opNOR,   .ula, sl0, sl0, .pc4, 0b00#2⟩
  | 42 => ⟨SLT,     sl0, sl0, opSLT,   .ula, sl0, sl0, .pc4, 0b10#2⟩
  | 43 => ⟨SLTU,    sl0, sl0, opSLTU,  .ula, sl0, sl0, .pc4, 0b00#2⟩
  | 48 => ⟨TGE,     sl1, sl0, trGEQ,   .ula, sl1, sl0, .pc4, 0b10#2⟩
  | 49 => ⟨TGEU,    sl1, sl0, trGEU,   .ula, sl1, sl0, .pc4, 0b10#2⟩
  | 50 => ⟨TLT,     sl1, sl0, trLTH,   .ula, sl1, sl0, .pc4, 0b10#2⟩
  | 51 => ⟨TLTU,    sl1, sl0, trLTU,   .ula, sl1, sl0, .pc4, 0b10#2⟩
  | 52 => ⟨TEQ,     sl1, sl0, trEQU,   .ula, sl1, sl0, .pc4, 0b10#2⟩
  | 54 => ⟨TNE,     sl1, sl0, trNEQ,   .ula, sl1, sl0, .pc4, 0b10#2⟩
  | 63 => ⟨NOP,     sl1, sl0, opNOP,   .ula, sl0, sl0, .pc4, 0b00#2⟩
  | _  => ⟨NIL,     sl1, sl0, opNOP,   .ula, sl0, sl0, .pc4, 0b00#2⟩

/-- `rimm_table`, by the rt field of an instruction with opcode 1. -/
def rimmTable (rt : Reg) : RimmType :=
  match rt.toNat with
  | 0  => ⟨BLTZ,   sl1, sl0, cLTZ, .ula, .rd,  sl0, .branch, 0b00#2⟩
  | 1  => ⟨BGEZ,   sl1, sl0, cGEZ, .ula, .rd,  sl0, .branch, 0b00#2⟩
  | 8  => ⟨TGEI,   sl1, sl1, tGEQ, .ula, .rd,  sl1, .pc4,    0b10#2⟩
  | 9  => ⟨TGEIU,  sl1, sl1, tGEU, .ula, .rd,  sl1, .pc4,    0b10#2⟩
  | 10 => ⟨TLTI,   sl1, sl1, tLTH, .ula, .rd,  sl1, .pc4,    0b10#2⟩
  | 11 => ⟨TLTIU,  sl1, sl1, tLTU, .ula, .rd,  sl1, .pc4,    0b10#2⟩
  | 12 => ⟨TEQI,   sl1, sl1, tEQU, .ula, .rd,  sl1, .pc4,    0b10#2⟩
  | 14 => ⟨TNEI,   sl1, sl1, tNEQ, .ula, .rd,  sl1, .pc4,    0b10#2⟩
  | 16 => ⟨BLTZAL, sl0, sl0, cLTZ, .pc8, .r31, sl0, .branch, 0b00#2⟩
  | 17 => ⟨BGEZAL, sl0, sl0, cGEZ, .pc8, .r31, sl0, .branch, 0b00#2⟩
  | 31 => ⟨NOP,    sl1, sl0, cNOP, .ula, .rd,  sl0, .pc4,    0b00#2⟩
  | _  => ⟨NIL,    sl1, sl0, cNOP, .ula, .rd,  sl0, .pc4,    0b00#2⟩

end Tables

end Xinu.Cpu
