import XinuCMips.Cpu.Alu

/-!
# Instruction decoding

What `core.vhd` derives from the word in `RF_instruction` alone: the rows of the
three tables, the processes `RF_DECODE_FUNCT` and `RF_DECODE_MEM_REF`, the branch
and trap comparisons, and the merging of unaligned loads. The opcode is an
argument of its own, because the core decodes an annulled instruction with the
opcode of `NULL_INSTRUCTION`.
-/

namespace Xinu.Cpu

/-- `opcode` of `NULL_INSTRUCTION`. -/
def nullOpcode : BitVec 6 := 63

def fieldOpcode (w : Word) : BitVec 6 := w.extractLsb' 26 6
def fieldRs (w : Word) : Reg := w.extractLsb' 21 5
def fieldRt (w : Word) : Reg := w.extractLsb' 16 5
def fieldRd (w : Word) : Reg := w.extractLsb' 11 5
def fieldShamt (w : Word) : Reg := w.extractLsb' 6 5
def fieldFunc (w : Word) : BitVec 6 := w.extractLsb' 0 6

/-- `funct_word`. -/
def functWord (op : BitVec 6) (w : Word) : FunctionType :=
  if op = 0 then funcTable (fieldFunc w) else funcTable 63

/-- `rimm_word`. -/
def rimmWord (op : BitVec 6) (w : Word) : RimmType :=
  if op = 1 then rimmTable (fieldRt w) else rimmTable 31

/-- The signals that process `RF_DECODE_FUNCT` computes before it looks for a
bubble. -/
structure FunctSignals where
  wreg : Bool
  selB : Bool
  oper : AluFun
  muxC : MuxC
  cSel : CSel
  pcSel : PCsel
  trapInstr : InstrType
  exception : ExceptionType
  cop0Reg : Reg
  cop0Sel : BitVec 3
  deriving DecidableEq, Repr

/-- The exception of an instruction that the function table marks as a trap. -/
def trapException (i : InstrType) (w : Word) : ExceptionType :=
  match i with
  | .SYSCALL => .exSYSCALL
  | .BREAK => .exBREAK
  | .iSLL => if w = 0xc0#32 then .exEHB else .exNOP
  | _ => .exNOP

/-- The exception and `i_wreg` of an instruction with the COP0 opcode. -/
def cop0Decode (w : Word) : ExceptionType × Bool :=
  match (fieldRs w).toNat with
  | 0b00100 => (.exMTC0, true)
  | 0b00000 => (.exMFC0, false)
  | 0b10000 =>
      match (fieldFunc w).toNat with
      | 0b000001 => (.exTLBR, true)
      | 0b000010 => (.exTLBWI, true)
      | 0b000110 => (.exTLBWR, true)
      | 0b001000 => (.exTLBP, true)
      | 0b011000 => (.exERET, true)
      | 0b011111 => (.exDERET, true)
      | 0b100000 => (.exWAIT, true)
      | _ => (.exRESV_INSTR, true)
  | 0b01011 =>
      match (fieldFunc w).toNat with
      | 0b100000 => (.exEI, false)
      | 0b000000 => (.exDI, false)
      | _ => (.exRESV_INSTR, true)
  | _ => (.exRESV_INSTR, true)

/-- The ALU operation, `i_csel` and the exception of an instruction with the
special3 opcode. -/
def special3Decode (w : Word) : AluFun × CSel × ExceptionType :=
  match (fieldFunc w).toNat with
  | 0b100000 =>
      match (fieldShamt w).toNat with
      | 0b00010 => (.opSWAP, .rd, .exNOP)
      | 0b10000 => (.opSEB, .rd, .exNOP)
      | 0b11000 => (.opSEH, .rd, .exNOP)
      | _ => (.opNOP, .rd, .exNOP)
  | 0b000000 => (.opEXT, .rt, .exNOP)
  | 0b000100 => (.opINS, .rt, .exNOP)
  | _ => (.opNOP, .rd, .exRESV_INSTR)

/-- Process `RF_DECODE_FUNCT`, up to the test for a bubble. -/
def decodeFunct (op : BitVec 6) (w : Word) : FunctSignals :=
  let ctrl := ctrlTable op
  let funct := functWord op w
  let rimm := rimmWord op w
  match op.toNat with
  | 0b000000 =>
      { wreg := funct.wreg, selB := funct.selB, oper := funct.oper, muxC := funct.muxC,
        cSel := ctrl.cSel, pcSel := funct.pcSel, trapInstr := funct.i,
        exception := if funct.trap then trapException funct.i w else .exNOP,
        cop0Reg := 0, cop0Sel := 0 }
  | 0b000001 =>
      { wreg := rimm.wreg, selB := rimm.selB, oper := .opNOP, muxC := rimm.muxC,
        cSel := rimm.cSel, pcSel := rimm.pcSel, trapInstr := rimm.i,
        exception := .exNOP, cop0Reg := 0, cop0Sel := 0 }
  | 0b010000 =>
      { wreg := (cop0Decode w).2, selB := false, oper := .opNOP, muxC := ctrl.muxC,
        cSel := ctrl.cSel, pcSel := ctrl.pcSel, trapInstr := .NOP,
        exception := (cop0Decode w).1,
        cop0Reg := fieldRd w, cop0Sel := (fieldFunc w).extractLsb' 0 3 }
  | 0b011100 =>
      { wreg := ctrl.wreg, selB := ctrl.selB,
        oper := if fieldFunc w = 0b000010#6 then .opMUL else .opNOP,
        muxC := ctrl.muxC, cSel := ctrl.cSel, pcSel := ctrl.pcSel, trapInstr := .NOP,
        exception := if fieldFunc w = 0b000010#6 then .exNOP else .exRESV_INSTR,
        cop0Reg := 0, cop0Sel := 0 }
  | 0b011111 =>
      { wreg := ctrl.wreg, selB := ctrl.selB, oper := (special3Decode w).1,
        muxC := ctrl.muxC, cSel := (special3Decode w).2.1, pcSel := ctrl.pcSel,
        trapInstr := .NOP, exception := (special3Decode w).2.2,
        cop0Reg := 0, cop0Sel := 0 }
  | n =>
      -- LL and SC pass through the exception pipeline, they are no exceptions
      { wreg := ctrl.wreg, selB := ctrl.selB, oper := ctrl.oper, muxC := ctrl.muxC,
        cSel := ctrl.cSel, pcSel := ctrl.pcSel, trapInstr := .NOP,
        exception := if n = 0b110000 then .exLL else if n = 0b111000 then .exSC else .exNOP,
        cop0Reg := 0, cop0Sel := 0 }

/-- `i_type` of process `RF_DECODE_MEM_REF`: bit 3 set for LWL and LWR, bit 2 for
a signed load, and the size in bits 1 and 0. -/
def memType : InstrType → BitVec 4
  | .LB => 0b0101
  | .LH => 0b0110
  | .LW | .LL => 0b0011
  | .LBU => 0b0001
  | .LHU => 0b0010
  | .SB => 0b0001
  | .SH => 0b0010
  | .SW | .SC => 0b0011
  | .LWL => 0b1011
  | .LWR => 0b1111
  | _ => 0b0000

/-- `is_load` of process `RF_SW_STALL`. LL is not in its list. -/
def isLoadInstr : InstrType → Bool
  | .LB | .LH | .LWL | .LW | .LBU | .LHU | .LWR => true
  | _ => false

/-- `is_store` of process `RF_SW_STALL`. -/
def isStoreInstr : InstrType → Bool
  | .SB | .SH | .SW => true
  | _ => false

/-- All that the register-fetch stage decodes from one instruction word. -/
structure Decoded where
  aRs : Reg
  aRt : Reg
  aRd : Reg
  shamt : Reg
  displ32 : Word
  ctrl : ControlType
  funct : FunctionType
  rimm : RimmType
  isBranch : Bool
  isTrap : Bool
  isDelayslot : Bool
  move : Bool
  sig : FunctSignals
  aC : Reg
  canTrap : BitVec 2
  memT : BitVec 4
  isLoad : Bool
  isStore : Bool
  deriving DecidableEq, Repr

/-- The register-fetch stage's decoding of the word `w` under the opcode `op`. -/
def decode (op : BitVec 6) (w : Word) : Decoded :=
  let ctrl := ctrlTable op
  let funct := functWord op w
  let rimm := rimmWord op w
  let sig := decodeFunct op w
  { aRs := fieldRs w, aRt := fieldRt w, aRd := fieldRd w, shamt := fieldShamt w,
    displ32 :=
      if w.getLsbD 15 && ctrl.extS then 0xFFFF#16 ++ w.extractLsb' 0 16
      else 0#16 ++ w.extractLsb' 0 16,
    ctrl := ctrl, funct := funct, rimm := rimm,
    isBranch := ctrl.brT != .cNOP || (rimm.brT != .cNOP && !rimm.trap),
    isTrap := funct.trap || rimm.trap,
    -- set for the branch, not for the instruction in its delay slot
    isDelayslot := ctrl.pcSel != .pc4 || funct.pcSel != .pc4 || rimm.pcSel != .pc4,
    move := if op = 0 then funct.move else false,
    sig := sig,
    aC := match sig.cSel with
      | .rd => fieldRd w
      | .rt => fieldRt w
      | .r31 => 31,
    canTrap := ctrl.excp ||| funct.excp ||| rimm.excp,
    memT := memType ctrl.i,
    isLoad := isLoadInstr ctrl.i,
    isStore := isStoreInstr ctrl.i }

/-- `br_opr` of process `RF_BR_tgt_select`, as the address that it selects: the
branch target, the instruction after the delay slot, or PC+4. -/
def brTarget (d : Decoded) (pcIncd eqA eqB : Word) : Word :=
  let notTaken := pcIncd + 4
  let taken := pcIncd + (d.displ32.extractLsb' 0 30 ++ 0#2)
  let brEqual := eqA == eqB
  let brNegative := eqA.getLsbD 31
  let brEqZero := eqA == 0
  match d.ctrl.brT with
  | .cNOP => pcIncd
  | .cEQU => if brEqual then taken else notTaken
  | .cNEQ => if !brEqual then taken else notTaken
  | .cLEZ => if brNegative || brEqZero then taken else notTaken
  | .cGTZ => if !(brNegative || brEqZero) then taken else notTaken
  | .cOTH =>
      match d.rimm.brT with
      | .cLTZ => if brNegative then taken else notTaken
      | .cGEZ => if !brNegative then taken else notTaken
      | _ => pcIncd
  | _ => pcIncd

/-- `j_target`. -/
def jTarget (w pcIncd : Word) : Word :=
  pcIncd.extractLsb' 28 4 ++ w.extractLsb' 0 26 ++ 0#2

/-- `tr_signed`. -/
def trSigned (d : Decoded) : Bool :=
  !((d.funct.trap && (d.funct.oper == .trGEU || d.funct.oper == .trLTU)) ||
    (d.rimm.trap && (d.rimm.brT == .tGEU || d.rimm.brT == .tLTU)))

/-- Process `RF_EVALUATE_TRAPS` with the comparator `U_COMP_TRAP`. -/
def trapTaken (d : Decoded) (a b : Word) : Bool :=
  match d.sig.trapInstr with
  | .TEQ | .TEQI => a == b
  | .TNE | .TNEI => !(a == b)
  | .TLT | .TLTI | .TLTU | .TLTIU => subtr32Lt (trSigned d) a b
  | .TGE | .TGEI | .TGEU | .TGEIU => !subtr32Lt (trSigned d) a b
  | _ => false

/-- `i_byte_sel` of process `MM_MEM_CTRL_INTERFACE`. -/
def byteSel (memT : BitVec 4) (addr : Word) : BitVec 4 :=
  match (memT.extractLsb' 0 2).toNat with
  | 0b11 => 0b1111
  | 0b10 => if addr.getLsbD 1 then 0b1100 else 0b0011
  | 0b01 =>
      match (addr.extractLsb' 0 2).toNat with
      | 0b00 => 0b0001
      | 0b01 => 0b0010
      | 0b10 => 0b0100
      | _ => 0b1000
  | _ => 0b0000

/-- `bytes_read` of process `MM_MEM_DATA_INTERFACE`. -/
def bytesRead (undef : Word) (memT : BitVec 4) (addr raw : Word) : Word :=
  match (memT.extractLsb' 0 2).toNat with
  | 0b11 => raw
  | 0b10 =>
      let half := if addr.getLsbD 1 then raw.extractLsb' 16 16 else raw.extractLsb' 0 16
      if memT.getLsbD 2 && half.getLsbD 15 then 0xFFFF#16 ++ half else 0#16 ++ half
  | 0b01 =>
      let byte := match (addr.extractLsb' 0 2).toNat with
        | 0b00 => raw.extractLsb' 0 8
        | 0b01 => raw.extractLsb' 8 8
        | 0b10 => raw.extractLsb' 16 8
        | _ => raw.extractLsb' 24 8
      if memT.getLsbD 2 && byte.getLsbD 7 then 0xFFFFFF#24 ++ byte else 0#24 ++ byte
  | _ => undef

/-- Process `mergeLOAD`: `memT` is the upper half of the memory type. -/
def mergeLOAD (memT addr2 : BitVec 2) (mem reg : Word) : Word :=
  match memT.toNat with
  | 0b10 =>
      match addr2.toNat with
      | 0b00 => mem.extractLsb' 0 8 ++ reg.extractLsb' 0 24
      | 0b01 => mem.extractLsb' 0 16 ++ reg.extractLsb' 0 16
      | 0b10 => mem.extractLsb' 0 24 ++ reg.extractLsb' 0 8
      | _ => mem
  | 0b11 =>
      match addr2.toNat with
      | 0b01 => reg.extractLsb' 24 8 ++ mem.extractLsb' 8 24
      | 0b10 => reg.extractLsb' 16 16 ++ mem.extractLsb' 16 16
      | 0b11 => reg.extractLsb' 8 24 ++ mem.extractLsb' 24 8
      | _ => mem
  | _ => mem

/-- What a store leaves in a word of the data memory (`accessRAM` of `ram.vhd`). -/
def writeLanes (old : Word) (byteSel : BitVec 4) (data : Word) : Word :=
  match byteSel.toNat with
  | 0b1111 => data
  | 0b1100 => data.extractLsb' 0 16 ++ old.extractLsb' 0 16
  | 0b0011 => old.extractLsb' 16 16 ++ data.extractLsb' 0 16
  | 0b0001 => old.extractLsb' 8 24 ++ data.extractLsb' 0 8
  | 0b0010 => old.extractLsb' 16 16 ++ data.extractLsb' 0 8 ++ old.extractLsb' 0 8
  | 0b0100 => old.extractLsb' 24 8 ++ data.extractLsb' 0 8 ++ old.extractLsb' 0 16
  | 0b1000 => data.extractLsb' 0 8 ++ old.extractLsb' 0 24
  | _ => old

end Xinu.Cpu
