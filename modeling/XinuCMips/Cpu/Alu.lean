import XinuCMips.Cpu.Wires

/-!
# The ALU

`alu` of `units.vhd`, the adders of `altera.vhd` and `subtr32` of `aux.vhd`, as
functions of their inputs. The barrel shifters are the shifts of `BitVec`, and
`undef` stands for a word of 'X's.
-/

namespace Xinu.Cpu

/-- `overflow` of `mf_alt_add_sub`: the 33-bit sum or difference does not fit in
32 bits. -/
def overflow (addition : Bool) (a b : Word) : Bool :=
  let extA := a.signExtend 33
  let extB := b.signExtend 33
  let extC := if addition then extA + extB else extA + (~~~extB + 1)
  extC.getLsbD 32 != extC.getLsbD 31

/-- `result` of `mf_alt_add_sub` and of `mf_alt_add_sub_u`. -/
def summDiff (addition : Bool) (a b : Word) : Word :=
  if addition then a + b else a + (~~~b + 1)

/-- `mask_off_bits`: ones up to bit `b`. -/
def maskOffBits (b : Reg) : Word := BitVec.ofNat 32 (2 ^ (b.toNat + 1) - 1)

/-- A one-bit flag in a register. -/
def flagWord (b : Bool) : Word := (BitVec.ofBool b).zeroExtend 32

/-- `C`, the result of process `U_alu`. -/
def aluC (undef : Word) (fn : AluFun) (a b : Word) (postn shamt : Reg) (hi lo : Word) : Word :=
  let mask := maskOffBits (if fn = .opINS then postn - shamt else postn)
  match fn with
  | .opSLL => b <<< shamt.toNat
  | .opSLLV => b <<< (a.extractLsb' 0 5).toNat
  | .opSRL => b >>> shamt.toNat
  | .opSRA => b.sshiftRight shamt.toNat
  | .opSRLV => b >>> (a.extractLsb' 0 5).toNat
  | .opSRAV => b.sshiftRight (a.extractLsb' 0 5).toNat
  -- the result of a move that is not made is zero
  | .opMOVZ => if b = 0 then a else 0
  | .opMOVN => if b ≠ 0 then a else 0
  | .opMFHI => hi
  | .opMFLO => lo
  | .opADD | .opADDU => summDiff true a b
  | .opSUB | .opSUBU => summDiff false a b
  | .opAND => a &&& b
  | .opOR => a ||| b
  | .opXOR => a ^^^ b
  | .opNOR => ~~~(a ||| b)
  | .opSLT =>
      if overflow false a b then flagWord !((summDiff false a b).getLsbD 31)
      else flagWord ((summDiff false a b).getLsbD 31)
  | .opSLTU => flagWord ((summDiff false a b).getLsbD 31)
  | .opLUI => (b.extractLsb' 0 16) ++ 0#16
  | .opSWAP =>
      b.extractLsb' 16 8 ++ b.extractLsb' 24 8 ++ b.extractLsb' 0 8 ++ b.extractLsb' 8 8
  | .opEXT => (a >>> shamt.toNat) &&& mask
  | .opINS => (b &&& ~~~(mask <<< shamt.toNat)) ||| ((a &&& mask) <<< shamt.toNat)
  | .opSEB => (b.extractLsb' 0 8).signExtend 32
  | .opSEH => (b.extractLsb' 0 16).signExtend 32
  | .opMUL => (a.signExtend 64 * b.signExtend 64).extractLsb' 0 32
  | _ => undef

/-- `move_ok`: the conditional move is made. -/
def aluMoveOk (fn : AluFun) (b : Word) : Bool :=
  match fn with
  | .opMOVZ => b == 0
  | .opMOVN => b != 0
  | _ => false

/-- `ovfl`. -/
def aluOvfl (fn : AluFun) (a b : Word) : Bool :=
  match fn with
  | .opADD => overflow true a b
  | .opSUB => overflow false a b
  | _ => false

/-- `wr_hi`, without the enable that comes from outside of the ALU. -/
def writesHI : AluFun → Bool
  | .opMULT | .opMULTU | .opDIV | .opDIVU | .opMTHI => true
  | _ => false

/-- `wr_lo`, without the enable that comes from outside of the ALU. -/
def writesLO : AluFun → Bool
  | .opMULT | .opMULTU | .opDIV | .opDIVU | .opMTLO => true
  | _ => false

/-- `inp_HI`. The two products are signed and the two divisions unsigned; a
division by zero leaves zero. -/
def inpHI (undef : Word) (fn : AluFun) (a b : Word) : Word :=
  match fn with
  | .opMULT | .opMULTU => (a.signExtend 64 * b.signExtend 64).extractLsb' 32 32
  | .opDIV | .opDIVU => if b = 0 then 0 else a % b
  | .opMTHI => a
  | _ => undef

/-- `inp_LO`. -/
def inpLO (undef : Word) (fn : AluFun) (a b : Word) : Word :=
  match fn with
  | .opMULT | .opMULTU => (a.signExtend 64 * b.signExtend 64).extractLsb' 0 32
  | .opDIV | .opDIVU => if b = 0 then 0 else a / b
  | .opMTLO => a
  | _ => undef

/-- `lt` of `subtr32`: the first operand is less than the second, as signed
numbers when `sgnd` is set. -/
def subtr32Lt (sgnd : Bool) (a b : Word) : Bool :=
  let extA := if sgnd then a.signExtend 33 else a.zeroExtend 33
  let extB := if sgnd then b.signExtend 33 else b.zeroExtend 33
  let extC := extA + ~~~extB + 1
  if extC.getLsbD 32 != extC.getLsbD 31 then !(extC.getLsbD 31) else extC.getLsbD 31

end Xinu.Cpu
