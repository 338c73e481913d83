import XinuCMips.Cpu.Core

/-!
# One instruction at a time

The machine that the pipeline has to look like: each step executes one whole
instruction before the next one begins. It decodes with the core's tables and
computes with the core's ALU, and has no stages, no forwarding and no stalls.
Coprocessor 0 is outside of it: what MFC0, EI and DI read is an argument.
-/

namespace Xinu.Cpu

/-- The state between two instructions. `instr` is the next instruction, fetched
from `pc`, and `npc` is the address of the one after it, which a branch or jump
has already chosen when `instr` is in its delay slot. -/
structure Seq where
  instr : Word
  pc : Word
  npc : Word
  regs : Reg → Word
  hi : Word
  lo : Word
  mem : BitVec 30 → Word
  llBit : Bool
  llAddr : Word

namespace Seq

variable (chip : Chip) (s : Seq)

/-- The value of a register; register 0 is always zero. -/
def reg (r : Reg) : Word := if r = 0 then 0 else s.regs r

/-- The next instruction, decoded. -/
def dec : Decoded := decode (fieldOpcode s.instr) s.instr

/-- The operands in rs and rt. -/
def opA : Word := s.reg s.dec.aRs
def opB : Word := s.reg s.dec.aRt

/-- The second operand of the ALU. -/
def inB : Word := if !s.dec.sig.selB then s.opB else s.dec.displ32

/-- The address of a load or store. -/
def addr : Word := s.opA + s.dec.displ32

def isSC : Bool := s.dec.sig.exception == .exSC

/-- SC finds the link that LL left. -/
def scOk : Bool := s.llBit && s.addr == s.llAddr

/-- The result of the ALU. -/
def aluResult : Word :=
  aluC chip.undef s.dec.sig.oper s.opA s.inB s.dec.aRd s.dec.shamt s.hi s.lo

/-- The instruction writes to memory. -/
def storing : Bool := !s.dec.ctrl.wmem && !s.dec.ctrl.aVal && !(s.isSC && !s.scOk)

/-- The word that a load brings, merged into rt when it is LWL or LWR. -/
def loaded : Word :=
  mergeLOAD (s.dec.memT.extractLsb' 2 2) (s.addr.extractLsb' 0 2)
    (bytesRead chip.undef s.dec.memT s.addr
      (if s.dec.ctrl.wmem && !s.dec.ctrl.aVal then s.mem (s.addr.extractLsb' 2 30)
       else chip.undef))
    s.opB

/-- The value for the destination register, where `answer` is what coprocessor 0
answers. -/
def value (answer : Word) : Word :=
  match s.dec.sig.muxC with
  | .mem => s.loaded chip
  | .ula => s.aluResult chip
  | .pc8 => s.pc + 8
  | .hi => s.hi
  | .lo => s.lo
  | .cop0 => answer
  | .llbit => flagWord s.scOk

/-- The instruction names the register `r` as its destination. -/
def names (r : Reg) : Bool := !s.dec.sig.wreg && s.dec.aC != 0 && s.dec.aC == r

/-- The instruction is a conditional move that is not made. -/
def unmoved : Bool := s.dec.move && !aluMoveOk s.dec.sig.oper s.inB

/-- The data memory after the instruction. -/
def memAfter : BitVec 30 → Word :=
  if s.storing then
    Function.update s.mem (s.addr.extractLsb' 2 30)
      (writeLanes (s.mem (s.addr.extractLsb' 2 30)) (byteSel s.dec.memT s.addr) s.opB)
  else s.mem

/-- The address of the instruction after the next one. A branch that is not taken
goes on after its delay slot. -/
def nextPC : Word :=
  match s.dec.sig.pcSel with
  | .pc4 => s.npc + 4
  | .branch => brTarget s.dec (s.pc + 4) s.opA s.opB
  | .jump => jTarget s.instr (s.pc + 4)
  | .jr => s.opA

/-- The instruction is LL. -/
def isLL : Bool := s.dec.sig.exception == .exLL

/-- Executes one instruction. -/
def exec (answer : Word) : Seq :=
  { instr := chip.rom (s.npc.extractLsb' 2 30),
    pc := s.npc,
    npc := s.nextPC,
    regs := fun r => if s.names r && !s.unmoved then s.value chip answer else s.regs r,
    hi := if writesHI s.dec.sig.oper then inpHI chip.undef s.dec.sig.oper s.opA s.inB else s.hi,
    lo := if writesLO s.dec.sig.oper then inpLO chip.undef s.dec.sig.oper s.opA s.inB else s.lo,
    mem := s.memAfter,
    llBit := if s.isLL then true else s.llBit,
    llAddr := if s.isLL then s.addr else s.llAddr }

/-- The state before instruction `k`. -/
def after (answers : Nat → Word) : Nat → Seq
  | 0 => s
  | k + 1 => (after answers k).exec chip (answers k)

/-- A register that the instruction does not write keeps its value. -/
theorem reg_exec_of_not {r : Reg} (answer : Word) (h : (s.names r && !s.unmoved) = false) :
    (s.exec chip answer).reg r = s.reg r := by
  simp only [reg, exec, h, Bool.false_eq_true, if_false]

/-- The destination register holds the instruction's value. -/
theorem reg_exec {r : Reg} (answer : Word) (h : s.names r = true) (hm : s.unmoved = false) :
    (s.exec chip answer).reg r = s.value chip answer := by
  have hr : r ≠ 0 := by
    rintro rfl
    simp only [names, Bool.and_eq_true, bne_iff_ne, beq_iff_eq] at h
    exact h.1.2 h.2
  simp only [reg, exec, h, hm, if_neg hr, Bool.not_false, Bool.and_self, if_true]

end Seq

end Xinu.Cpu
