import XinuCMips.Cpu.Decode

/-!
# The five-stage core

`core.vhd`, with the pipeline registers of `pipestages.vhd` and `exception.vhd`,
the register bank of `units.vhd` and the two memories around it. `Core` is what
the registers hold during a cycle, each signal of the source is a function of it
and of the cycle's inputs, and `step` is the rising edge of `clk`.

The TLB is not modelled: with `tlb_exception` tied to FALSE it only fills
registers that MFC0 reads, and what MFC0 reads from a register that is not
modelled is an input.
-/

namespace Xinu.Cpu

-- x_EXCEPTION_nnnn and x_INST_BASE_ADDR of packageMemory
def xInstBaseAddr : Word := 0x00000000
def xException0180 : Word := 0x00000280
def xException0200 : Word := 0x00000400
def xExceptionBFC0 : Word := 0x00000680

-- bits of STATUS
def statusBEV : Nat := 22
def statusTS : Nat := 21
def statusSR : Nat := 20
def statusNMI : Nat := 19
def statusUM : Nat := 3
def statusERL : Nat := 2
def statusEXL : Nat := 1
def statusIE : Nat := 0

-- numbers of the COP0 registers
def cop0regBadVAddr : Reg := 8
def cop0regCOUNT : Reg := 9
def cop0regCOMPARE : Reg := 11
def cop0regSTATUS : Reg := 12
def cop0regCAUSE : Reg := 13
def cop0regEPC : Reg := 14
def cop0regCONFIG : Reg := 16
def cop0regLLAddr : Reg := 17

-- exception codes
def cop0codeInt : BitVec 5 := 0
def cop0codeAdEL : BitVec 5 := 4
def cop0codeAdES : BitVec 5 := 5
def cop0codeIBE : BitVec 5 := 6
def cop0codeDBE : BitVec 5 := 7
def cop0codeSys : BitVec 5 := 8
def cop0codeBp : BitVec 5 := 9
def cop0codeOv : BitVec 5 := 12
def cop0codeTr : BitVec 5 := 13
def cop0codeNULL : BitVec 5 := 31

/-- A word with one bit replaced. -/
def setBit (w : Word) (n : Nat) (b : Bool) : Word :=
  if b then w ||| BitVec.twoPow 32 n else w &&& ~~~BitVec.twoPow 32 n

/-- What surrounds the core and does not change: the program, and the word that
an 'X' stands for. -/
structure Chip where
  rom : BitVec 30 → Word
  undef : Word

/-- The inputs of one cycle. The wait and bus error lines are active low, the
interrupt lines active high; `cop0` is what MFC0 reads from the registers of
the MMU and from the constant ones. -/
structure Inputs where
  iWait : Bool
  dWait : Bool
  irq : BitVec 6
  nmi : Bool
  iBusErr : Bool
  dBusErr : Bool
  cop0 : Reg → Word

/-- `reg_IF_RF` and `reg_excp_IF_RF`. -/
structure RegIFRF where
  pcIncd : Word
  instr : Word
  pcAbort : Bool
  pc : Word
  deriving DecidableEq

/-- `reg_RF_EX` and `reg_excp_RF_EX`. -/
structure RegRFEX where
  selB : Bool
  oper : AluFun
  aRs : Reg
  aRt : Reg
  aC : Reg
  /-- `EX_wreg_pre` -/
  wreg : Bool
  muxC : MuxC
  move : Bool
  postn : Reg
  shamt : Reg
  aVal : Bool
  wrmem : Bool
  memT : BitVec 4
  isLoad : Bool
  regA : Word
  regB : Word
  displ32 : Word
  pcP8 : Word
  cop0Reg : Reg
  cop0Sel : BitVec 3
  canTrap : BitVec 2
  exception : ExceptionType
  isDelayslot : Bool
  pcAbort : Bool
  pc : Word
  trapped : Bool
  deriving DecidableEq

/-- `reg_EX_MM` and `reg_excp_EX_MM`. -/
structure RegEXMM where
  aRt : Reg
  aC : Reg
  wreg : Bool
  muxC : MuxC
  aVal : Bool
  wrmem : Bool
  memT : BitVec 4
  isLoad : Bool
  regB : Word
  result : Word
  addr : Word
  hi : Word
  lo : Word
  aluMoveOk : Bool
  move : Bool
  pcP8 : Word
  cop0Reg : Reg
  cop0Sel : BitVec 3
  pc : Word
  vAddr : Word
  addrError : Bool
  isDelayslot : Bool
  trapped : Bool
  llScAbort : Bool
  intReq : BitVec 6
  isSC : Bool
  isMFC0 : Bool
  /-- `is_exception` -/
  exception : ExceptionType
  deriving DecidableEq

/-- `reg_MM_WB` and `reg_excp_MM_WB`. -/
structure RegMMWB where
  aC : Reg
  wreg : Bool
  muxC : MuxC
  result : Word
  hi : Word
  lo : Word
  rdData : Word
  bData : Word
  addr2 : BitVec 2
  /-- `WB_mem_t` -/
  memT : BitVec 2
  pcP8 : Word
  pc : Word
  llBit : Bool
  isDelayslot : Bool
  cop0Val : Word
  deriving DecidableEq

/-- CAUSE, without the bits that are always zero. -/
structure Cause where
  bd : Bool
  ti : Bool
  dc : Bool
  iv : Bool
  wp : Bool
  hwIrq : BitVec 6
  swIrq : BitVec 2
  excCode : BitVec 5
  deriving DecidableEq

/-- CAUSE as MFC0 reads it. -/
def Cause.word (c : Cause) : Word :=
  BitVec.ofBool c.bd ++ BitVec.ofBool c.ti ++ 0#2 ++ BitVec.ofBool c.dc ++ 0#3 ++
    BitVec.ofBool c.iv ++ BitVec.ofBool c.wp ++ 0#6 ++ c.hwIrq ++ c.swIrq ++ 0#1 ++
    c.excCode ++ 0#2

/-- The registers of the core and the data memory during one cycle. -/
structure Core where
  pc : Word
  rf : RegIFRF
  ex : RegRFEX
  mm : RegEXMM
  wb : RegMMWB
  /-- `reg_file_A` and `reg_file_B`, which hold the same words -/
  regFile : Reg → Word
  hi : Word
  lo : Word
  /-- the flip-flop `U_NULLIFY_TWICE` -/
  annul2 : Bool
  /-- the flip-flop `U_NULLIFY_THRICE` -/
  nullifyMMInt : Bool
  dlyI1 : Bool
  dlyI2 : Bool
  status : Word
  cause : Cause
  epc : Word
  count : Word
  compare : Word
  countEqCompare : Bool
  countEnable : Bool
  badVAddr : Word
  llAddr : Word
  llScBit : Bool
  /-- the data memory, by word address -/
  mem : BitVec 30 → Word

namespace Core

variable (chip : Chip) (i : Inputs) (c : Core)

-- ---------------------------------------------------------------------------
-- Bus control
-- ---------------------------------------------------------------------------

def romStall : Bool := !i.iWait

def ramStall : Bool := !c.mm.aVal && !i.dWait

def memStall : Bool := ramStall i c || romStall i

-- ---------------------------------------------------------------------------
-- WB
-- ---------------------------------------------------------------------------

/-- `WB_C`, the word that WB writes to the register bank. -/
def wbC : Word :=
  match c.wb.muxC with
  | .mem => mergeLOAD c.wb.memT c.wb.addr2 c.wb.rdData c.wb.bData
  | .ula => c.wb.result
  | .pc8 => c.wb.pcP8
  | .hi => c.wb.hi
  | .lo => c.wb.lo
  | .cop0 => c.wb.cop0Val
  | .llbit => flagWord c.wb.llBit

/-- WB writes the register `r`. -/
def wbWrites (r : Reg) : Bool := !c.wb.wreg && c.wb.aC != 0 && c.wb.aC == r

/-- MEM holds an instruction that names `r` as its destination. -/
def mmWrites (r : Reg) : Bool := !c.mm.wreg && c.mm.aC != 0 && c.mm.aC == r

/-- `regs_A` or `regs_B`: the register bank with the forwarding from WB to RF. -/
def readReg (r : Reg) : Word :=
  if c.wb.aC == r && !c.wb.wreg && r != 0 then c.wbC
  else if r != 0 then c.regFile r
  else 0

-- ---------------------------------------------------------------------------
-- MEM: exception decoding
-- ---------------------------------------------------------------------------

/-- The outputs of process `COP0_DECODE_EXCEPTION_AND_UPDATE_STATUS`. -/
structure ExcpSignals where
  newStatus : Word
  /-- `update` -/
  update : Bool
  updateReg : Reg
  /-- `i_epc_update`, active low -/
  epcUpdate : Bool
  epcSource : Word
  exceptionStall : Bool
  nullify : Bool
  exceptionTaken : Bool
  interruptTaken : Bool
  excCode : BitVec 5
  isDelayslot : Bool
  nullifyMMPre : Bool

/-- `cop0_inp`, the value that MTC0 moves to COP0. -/
def cop0Inp : Word := if c.wbWrites c.mm.aRt then c.wbC else c.mm.regB

/-- `newSTATUS` before `is_exception` is looked at. -/
def keptStatus (status : Word) : Word :=
  setBit (setBit (setBit (setBit (setBit (setBit status statusBEV false) 31 false) 30 false)
    29 false) 28 true) 27 false

/-- `newSTATUS` of an exception that enters kernel mode at exception level. -/
def enterEXL (status : Word) : Word :=
  setBit (setBit status statusEXL true) statusUM false

/-- The outputs when `is_exception` asks for nothing. -/
def quietSignals : ExcpSignals :=
  { newStatus := keptStatus c.status, update := false, updateReg := 0, epcUpdate := true,
    epcSource := c.pc, exceptionStall := false, nullify := false, exceptionTaken := false,
    interruptTaken := false, excCode := cop0codeNULL, isDelayslot := false,
    nullifyMMPre := false }

/-- MM_PC or WB_PC: with `inSlot` the branch in WB is re-executed. -/
def faultSignals (status : Word) (code : BitVec 5) (inSlot : Bool) : ExcpSignals :=
  { quietSignals c with
    newStatus := status, update := true, updateReg := cop0regSTATUS, epcUpdate := false,
    epcSource := if inSlot then c.wb.pc else c.mm.pc, nullify := true,
    exceptionTaken := true, excCode := code,
    isDelayslot := if inSlot then c.wb.isDelayslot else c.mm.isDelayslot }

/-- Process `COP0_DECODE_EXCEPTION_AND_UPDATE_STATUS`. -/
def excpSignals : ExcpSignals :=
  let q := quietSignals c
  let kept := keptStatus c.status
  match c.mm.exception with
  | .exMTC0 =>
      if c.mm.cop0Reg = cop0regSTATUS then
        { q with newStatus := c.cop0Inp, update := true, updateReg := c.mm.cop0Reg }
      -- COUNT, COMPARE, CAUSE and the registers of the MMU
      else if c.mm.cop0Reg ∈ [cop0regCOUNT, cop0regCOMPARE, cop0regCAUSE,
          2, 3, 10, 0, 4, 6] then
        { q with update := true, updateReg := c.mm.cop0Reg }
      else if c.mm.cop0Reg = cop0regEPC then
        { q with epcUpdate := false, epcSource := c.mm.regB, updateReg := c.mm.cop0Reg }
      else { q with updateReg := c.mm.cop0Reg }
  | .exEI =>
      { q with newStatus := setBit kept statusIE true, update := true,
               updateReg := cop0regSTATUS }
  | .exDI =>
      { q with newStatus := setBit kept statusIE false, update := true,
               updateReg := cop0regSTATUS }
  | .exERET =>
      { q with newStatus := setBit kept statusEXL false, update := true,
               updateReg := cop0regSTATUS, nullify := true }
  -- these three look at the branch bit of the faulting instruction itself
  | .exSYSCALL => faultSignals c (enterEXL kept) cop0codeSys c.mm.isDelayslot
  | .exBREAK => faultSignals c (enterEXL kept) cop0codeBp c.mm.isDelayslot
  | .exTRAP => faultSignals c (enterEXL kept) cop0codeTr c.mm.isDelayslot
  | .exLL => { q with update := true, updateReg := cop0regLLAddr }
  | .exOvfl => faultSignals c (setBit kept statusEXL true) cop0codeOv c.wb.isDelayslot
  | .IFaddressError => faultSignals c (setBit kept statusEXL true) cop0codeAdEL false
  | .MMaddressErrorST =>
      faultSignals c (setBit kept statusEXL true) cop0codeAdES c.wb.isDelayslot
  | .MMaddressErrorLD =>
      faultSignals c (setBit kept statusEXL true) cop0codeAdEL c.wb.isDelayslot
  | .exEHB => { q with exceptionStall := true }
  | .exIBE =>
      { q with newStatus := setBit kept statusEXL true, excCode := cop0codeIBE, update := true,
               updateReg := cop0regSTATUS, nullify := true, exceptionTaken := true }
  | .exDBE =>
      { q with newStatus := setBit kept statusEXL true, excCode := cop0codeDBE, update := true,
               updateReg := cop0regSTATUS, nullify := true, exceptionTaken := true }
  | .exInterr =>
      if !romStall i && !ramStall i c then
        { q with
          newStatus := enterEXL kept, interruptTaken := true, excCode := cop0codeInt,
          update := true, updateReg := cop0regSTATUS, epcUpdate := false, nullify := true,
          epcSource := if c.mm.isDelayslot then c.mm.pc else c.ex.pc,
          isDelayslot := if c.mm.isDelayslot then c.mm.isDelayslot else c.ex.isDelayslot,
          nullifyMMPre := c.mm.isDelayslot }
      else q
  | .exNMI =>
      { q with
        newStatus := setBit (setBit (setBit (setBit (setBit kept statusBEV true) statusTS false)
          statusSR false) statusNMI true) statusERL true,
        exceptionTaken := true, update := true, updateReg := cop0regSTATUS,
        epcUpdate := false, nullify := true,
        epcSource := if c.mm.isDelayslot then c.mm.pc else c.ex.pc,
        isDelayslot := if c.mm.isDelayslot then c.mm.isDelayslot else c.ex.isDelayslot,
        nullifyMMPre := c.mm.isDelayslot }
  | _ => q

/-- `nullify`. -/
def nullify : Bool := (c.excpSignals i).nullify

/-- `interrupt_taken`. -/
def interruptTaken : Bool := (c.excpSignals i).interruptTaken

/-- `excp_PCsel` and the addresses that it selects; `none` is PCsel_EXC_none. -/
def excpPC : Option Word :=
  match c.mm.exception with
  | .exERET => some c.epc
  | .exSYSCALL | .exBREAK | .exRESV_INSTR | .exOvfl | .IFaddressError
  | .MMaddressErrorLD | .MMaddressErrorST | .exIBE | .exDBE => some xException0180
  | .exTRAP => if c.mm.trapped then some xException0180 else none
  | .exNMI => some xExceptionBFC0
  | .exInterr => if c.cause.iv then some xException0200 else some xException0180
  | _ => none

/-- `MM_cop0_val`, the output of process `COP0_READ`. -/
def mmCop0Val : Word :=
  match c.mm.exception with
  | .exMFC0 =>
      if c.mm.cop0Reg = cop0regCOUNT then c.count
      else if c.mm.cop0Reg = cop0regCOMPARE then c.compare
      else if c.mm.cop0Reg = cop0regSTATUS then c.status
      else if c.mm.cop0Reg = cop0regCAUSE then c.cause.word
      else if c.mm.cop0Reg = cop0regEPC then c.epc
      else if c.mm.cop0Reg = cop0regBadVAddr then c.badVAddr
      -- Index, Random, EntryLo0, EntryLo1, Context, PageMask, Wired, EntryHi, CONFIG
      else if c.mm.cop0Reg ∈ [0, 1, 2, 3, 4, 5, 6, 10, cop0regCONFIG] then i.cop0 c.mm.cop0Reg
      else c.status
  | _ => c.status

-- ---------------------------------------------------------------------------
-- MEM
-- ---------------------------------------------------------------------------

/-- `data_out`, with the forwarding of process `MM_FORWARDING_MEM`. -/
def dataOut : Word :=
  if !c.mm.wrmem && !c.mm.aVal then
    if c.wbWrites c.mm.aRt then c.wbC else c.mm.regB
  else chip.undef

/-- `MM_B_data`, with the forwarding of process `MM_FWD_LWLR`. -/
def mmBData : Word :=
  if !c.mm.wreg && !c.mm.aVal && c.wbWrites c.mm.aRt then c.wbC else c.mm.regB

/-- The word address on the data bus. -/
def dWordAddr : BitVec 30 := c.mm.addr.extractLsb' 2 30

/-- `rd_data`. -/
def rdData : Word :=
  bytesRead chip.undef c.mm.memT c.mm.addr
    (if c.mm.wrmem && !c.mm.aVal then c.mem c.dWordAddr else chip.undef)

/-- The data memory after the cycle's write, if MEM holds a store. -/
def memWritten : BitVec 30 → Word :=
  if !c.mm.wrmem && !c.mm.aVal then
    Function.update c.mem c.dWordAddr
      (writeLanes (c.mem c.dWordAddr) (byteSel c.mm.memT c.mm.addr) (c.dataOut chip))
  else c.mem

/-- `MM_wreg_cond`. -/
def mmWregCond : Bool :=
  if c.ramStall i || c.mm.addrError || (c.mm.move && !c.mm.aluMoveOk) || c.nullifyMMInt then true
  else c.mm.wreg

/-- `MM_llbit`. -/
def mmLLbit : Bool := c.llScBit && !c.mm.llScAbort

-- ---------------------------------------------------------------------------
-- EX
-- ---------------------------------------------------------------------------

/-- One operand of process `EX_FORWARDING_ALU`. -/
def fwdALU (r : Reg) (latched : Word) : Word :=
  if c.mmWrites r then
    if c.mm.isMFC0 then c.mmCop0Val i
    else if c.mm.isSC then flagWord !c.mm.llScAbort
    else c.mm.result
  else if c.wbWrites r then c.wbC
  else latched

/-- `alu_inp_A`. -/
def aluInpA : Word := c.fwdALU i c.ex.aRs c.ex.regA

/-- `alu_fwd_B`. -/
def aluFwdB : Word := c.fwdALU i c.ex.aRt c.ex.regB

/-- `alu_inp_B`. -/
def aluInpB : Word := if !c.ex.selB then c.aluFwdB i else c.ex.displ32

/-- `result`. -/
def result : Word :=
  aluC chip.undef c.ex.oper (c.aluInpA i) (c.aluInpB i) c.ex.postn c.ex.shamt c.hi c.lo

/-- `v_addr`. -/
def vAddr : Word := c.aluInpA i + c.ex.displ32

/-- `addrError` of process `U_EX_ADDR_ERR_EXCP`. -/
def addrError : Bool :=
  match (c.ex.memT.extractLsb' 0 2).toNat with
  | 0b11 => !c.ex.memT.getLsbD 3 && !c.ex.aVal && (c.vAddr i).extractLsb' 0 2 != 0
  | 0b10 => !c.ex.aVal && (c.vAddr i).getLsbD 0
  | _ => false

/-- `mem_excp_type`, when `addrError` is set. -/
def memExcpType : ExceptionType :=
  if c.ex.wrmem then .MMaddressErrorLD else .MMaddressErrorST

/-- `is_SC`. -/
def isSC : Bool := c.ex.exception == .exSC

/-- `LL_SC_abort`. -/
def llScAbort : Bool :=
  if c.ex.exception == .exSC then c.vAddr i != c.llAddr || !c.llScBit else false

/-- `EX_wreg`. -/
def exWreg : Bool := c.ex.wreg || (c.nullify i && !c.mm.isDelayslot)

/-- `EX_wrmem_cond`; `nullify_fetch` is FALSE without the TLB. -/
def exWrmemCond : Bool :=
  c.ex.wrmem || c.addrError i || c.llScAbort i || (c.nullify i && c.mm.isDelayslot) || c.nullify i

/-- `EX_aVal_cond`. -/
def exAValCond : Bool :=
  c.ex.aVal || c.addrError i || c.llScAbort i || (c.nullify i && c.mm.isDelayslot) || c.nullify i

/-- EX holds an instruction that names `r` as its destination. -/
def exWrites (r : Reg) : Bool := !c.exWreg i && c.ex.aC != 0 && c.ex.aC == r

/-- `int_req`. -/
def intReq : BitVec 6 := i.irq ||| (if c.countEqCompare then 0b100000 else 0)

/-- `dly_i0`. -/
def dlyI0 : Bool := c.ex.exception != .exNOP

/-- `is_interr`. -/
def isInterr : Bool :=
  (c.intReq i != 0 || c.cause.swIrq != 0) && !c.status.getLsbD statusEXL &&
    !c.status.getLsbD statusERL && c.status.getLsbD statusIE &&
    !(c.dlyI0 || c.dlyI1 || c.dlyI2) && !c.interruptTaken i

/-- `is_ovfl`. -/
def isOvfl : Bool :=
  c.ex.canTrap == 0b10 && aluOvfl c.ex.oper (c.aluInpA i) (c.aluInpB i)

/-- `EX_is_exception`. -/
def exIsException : ExceptionType :=
  if !i.iBusErr || !i.dBusErr then (if !i.dBusErr then .exDBE else .exIBE)
  else if c.addrError i then c.memExcpType
  else if c.ex.pcAbort then .IFaddressError
  else if c.ex.trapped then .exTRAP
  else if c.isOvfl i then .exOvfl
  else if i.nmi && !c.status.getLsbD statusERL then .exNMI
  else if c.isInterr i then .exInterr
  else c.ex.exception

-- ---------------------------------------------------------------------------
-- RF
-- ---------------------------------------------------------------------------

/-- `annul_1`. -/
def annul1 : Bool := c.nullify i || c.mm.addrError

/-- `annul_twice`. -/
def annulTwice : Bool := c.annul1 i || c.annul2

/-- `opcode`. -/
def opcode : BitVec 6 := if c.annulTwice i then nullOpcode else fieldOpcode c.rf.instr

/-- The decoded instruction in RF. -/
def dec : Decoded := decode (c.opcode i) c.rf.instr

/-- `jr_stall`. -/
def jrStall : Bool :=
  let rs := (c.dec i).aRs
  if (c.dec i).funct.pcSel == .jr && c.ex.aC != rs && !c.exWreg i && c.mmWrites rs then true
  else if (c.dec i).funct.pcSel == .jr && c.exWrites i rs then true
  else (c.dec i).funct.pcSel == .jr && c.mm.isLoad && c.mmWrites rs

/-- `lw_stall`. -/
def lwStall : Bool :=
  c.ex.isLoad && (c.exWrites i (c.dec i).aRs || c.exWrites i (c.dec i).aRt)

/-- `sw_stall`. -/
def swStall : Bool := (c.dec i).isStore && c.ex.isLoad && c.exWrites i (c.dec i).aRs

/-- One operand of process `RF_FORWARDING_BRANCH`, with its stall. -/
def fwdBranch (r : Reg) : Word × Bool :=
  if (c.dec i).isBranch && c.exWrites i r then
    if c.isSC then (flagWord !c.llScAbort i, false) else (c.readReg r, true)
  else if c.mmWrites r then
    if !c.mm.aVal && (c.dec i).isBranch then (c.readReg r, true)
    else if c.mm.isMFC0 then (c.mmCop0Val i, false)
    else if c.mm.isSC then (0, false)
    else (c.mm.result, false)
  else (c.readReg r, false)

/-- `eq_fwd_A`. -/
def eqFwdA : Word := (c.fwdBranch i (c.dec i).aRs).1

/-- `eq_fwd_B`. -/
def eqFwdB : Word := (c.fwdBranch i (c.dec i).aRt).1

/-- `br_stall`. -/
def brStall : Bool :=
  (c.fwdBranch i (c.dec i).aRs).2 || (c.fwdBranch i (c.dec i).aRt).2

/-- One operand of process `RF_FORWARDING_TRAPS`, with its stall. -/
def fwdTrap (r : Reg) : Word × Bool :=
  if (c.dec i).isTrap && c.exWrites i r then (c.readReg r, true)
  else if c.mmWrites r then
    if !c.mm.aVal then (c.readReg r, (c.dec i).isTrap) else (c.mm.result, false)
  else (c.readReg r, false)

/-- `tr_fwd_A`. -/
def trFwdA : Word := (c.fwdTrap i (c.dec i).aRs).1

/-- The trap compares with the immediate operand. -/
def trapImmediate : Bool := (c.dec i).isTrap && (c.dec i).rimm.selB

/-- `tr_fwd_B`. -/
def trFwdB : Word :=
  if c.trapImmediate i then (c.dec i).displ32 else (c.fwdTrap i (c.dec i).aRt).1

/-- `tr_stall`. -/
def trStall : Bool :=
  (c.fwdTrap i (c.dec i).aRs).2 || (!c.trapImmediate i && (c.fwdTrap i (c.dec i).aRt).2)

/-- `exception_stall`. -/
def exceptionStall : Bool := (c.excpSignals i).exceptionStall

/-- The hazards that hold an instruction in RF. -/
def hazard : Bool :=
  c.jrStall i || c.brStall i || c.swStall i || c.lwStall i || c.trStall i || c.exceptionStall i

/-- `pipe_stall`. -/
def pipeStall : Bool := c.memStall i || c.hazard i

-- ---------------------------------------------------------------------------
-- IF
-- ---------------------------------------------------------------------------

/-- `PC_abort`. -/
def pcAbort : Bool := c.pc.extractLsb' 0 2 != 0

/-- `PC_aligned`. -/
def pcAligned : Word := c.pc.extractLsb' 2 30 ++ 0#2

/-- `PCincd`. -/
def pcIncd : Word := c.pcAligned + 4

/-- `instr_fetched`: the opcode is that of the null instruction after an
unaligned fetch or under an address error in MEM. -/
def instrFetched : Word :=
  let instr := chip.rom (c.pc.extractLsb' 2 30)
  if c.pcAbort || c.mm.addrError then nullOpcode ++ instr.extractLsb' 0 26 else instr

/-- `PCinp`. -/
def pcInp : Word :=
  match c.excpPC with
  | some pc => pc
  | none =>
      match (c.dec i).sig.pcSel with
      | .pc4 => c.pcIncd
      | .branch => brTarget (c.dec i) c.rf.pcIncd (c.eqFwdA i) (c.eqFwdB i)
      | .jump => jTarget c.rf.instr c.rf.pcIncd
      | .jr => c.eqFwdA i

-- ---------------------------------------------------------------------------
-- The rising edge of clk
-- ---------------------------------------------------------------------------

/-- What IF sends to RF. -/
def toRF : RegIFRF :=
  { pcIncd := c.pcIncd, instr := c.instrFetched chip, pcAbort := c.pcAbort, pc := c.pc }

/-- What RF sends to EX: under a stall, a bubble. -/
def toEX : RegRFEX :=
  let d := c.dec i
  let bubble := c.pipeStall i
  { selB := d.sig.selB, oper := d.sig.oper, aRs := d.aRs, aRt := d.aRt, aC := d.aC,
    wreg := bubble || d.sig.wreg,
    muxC := d.sig.muxC, move := d.move, postn := d.aRd, shamt := d.shamt,
    aVal := bubble || d.ctrl.aVal,
    wrmem := bubble || d.ctrl.wmem,
    memT := d.memT, isLoad := d.isLoad, regA := c.readReg d.aRs, regB := c.readReg d.aRt,
    displ32 := d.displ32, pcP8 := c.rf.pcIncd + 4, cop0Reg := d.sig.cop0Reg,
    cop0Sel := d.sig.cop0Sel, canTrap := d.canTrap,
    exception := if bubble then .exNOP else d.sig.exception,
    isDelayslot := d.isDelayslot, pcAbort := c.rf.pcAbort, pc := c.rf.pc,
    trapped := trapTaken d (c.trFwdA i) (c.trFwdB i) }

/-- What EX sends to MEM. -/
def toMM : RegEXMM :=
  { aRt := c.ex.aRt, aC := c.ex.aC, wreg := c.exWreg i, muxC := c.ex.muxC,
    aVal := c.exAValCond i, wrmem := c.exWrmemCond i, memT := c.ex.memT, isLoad := c.ex.isLoad,
    regB := c.aluFwdB i, result := c.result chip i, addr := c.vAddr i, hi := c.hi, lo := c.lo,
    aluMoveOk := aluMoveOk c.ex.oper (c.aluInpB i), move := c.ex.move, pcP8 := c.ex.pcP8,
    cop0Reg := c.ex.cop0Reg, cop0Sel := c.ex.cop0Sel, pc := c.ex.pc, vAddr := c.vAddr i,
    addrError := c.addrError i, isDelayslot := c.ex.isDelayslot, trapped := c.ex.trapped,
    llScAbort := c.llScAbort i, intReq := c.intReq i, isSC := c.isSC,
    isMFC0 := c.ex.exception == .exMFC0, exception := c.exIsException i }

/-- What MEM sends to WB. -/
def toWB : RegMMWB :=
  { aC := c.mm.aC, wreg := c.mmWregCond i, muxC := c.mm.muxC, result := c.mm.result,
    hi := c.mm.hi, lo := c.mm.lo, rdData := c.rdData chip, bData := c.mmBData,
    addr2 := c.mm.addr.extractLsb' 0 2, memT := c.mm.memT.extractLsb' 2 2, pcP8 := c.mm.pcP8,
    pc := c.mm.pc, llBit := c.mmLLbit, isDelayslot := c.mm.isDelayslot,
    cop0Val := c.mmCop0Val i }

/-- The register bank after the cycle's write. -/
def regFileWritten : Reg → Word :=
  if !c.wb.wreg && c.wb.aC != 0 then Function.update c.regFile c.wb.aC c.wbC else c.regFile

/-- HI after the cycle: `wr_hilo` is `annul_twice`. -/
def hiWritten : Word :=
  if writesHI c.ex.oper && !c.annulTwice i then
    inpHI chip.undef c.ex.oper (c.aluInpA i) (c.aluInpB i)
  else c.hi

/-- LO after the cycle. -/
def loWritten : Word :=
  if writesLO c.ex.oper && !c.annulTwice i then
    inpLO chip.undef c.ex.oper (c.aluInpA i) (c.aluInpB i)
  else c.lo

/-- Process `COP0_COMPUTE_CAUSE`; `tlb_excp_taken` is '0' without the TLB. -/
def nextCause : Cause :=
  let s := c.excpSignals i
  let inp := c.cop0Inp
  let written := s.update && s.updateReg == cop0regCAUSE
  { bd := if c.status.getLsbD statusEXL then c.cause.bd else s.isDelayslot,
    ti := c.countEqCompare,
    dc := if written then inp.getLsbD 27 else c.cause.dc,
    iv := if written then inp.getLsbD 23 else c.cause.iv,
    wp := if written then inp.getLsbD 22 else c.cause.wp,
    hwIrq := c.mm.intReq,
    swIrq := if written then inp.extractLsb' 8 2 else c.cause.swIrq,
    excCode :=
      if s.interruptTaken || s.exceptionTaken then s.excCode
      else if c.mm.exception = .exMFC0 ∧ c.mm.cop0Reg = cop0regCAUSE then cop0codeNULL
      else c.cause.excCode }

/-- `epc_update`, active low. -/
def epcUpdate : Bool :=
  let s := c.excpSignals i
  if c.mm.exception == .exMTC0 && c.mm.cop0Reg == cop0regEPC then s.epcUpdate
  else s.epcUpdate || c.status.getLsbD statusEXL

/-- `BadVAddr_inp`, when it is written. -/
def badVAddrInp : Option Word :=
  match c.mm.exception with
  | .IFaddressError => some (if (c.dec i).isDelayslot then c.ex.pc else c.rf.pc)
  | .MMaddressErrorLD | .MMaddressErrorST => some c.mm.vAddr
  | _ => none

/-- Process `COP0_LLbit`. -/
def nextLLbit : Bool :=
  match c.mm.exception with
  | .exERET => false
  | .exLL => true
  | _ => c.llScBit

/-- `COP0_COUNT`. -/
def nextCount : Word :=
  let s := c.excpSignals i
  if s.update && s.updateReg == cop0regCOUNT then c.cop0Inp
  else if !c.countEnable then c.count + 1
  else c.count

/-- One rising edge of `clk`. -/
def step : Core :=
  let s := c.excpSignals i
  let compareUpdate := s.update && s.updateReg == cop0regCOMPARE
  { pc := if c.pipeStall i then c.pc else c.pcInp i,
    rf := if c.pipeStall i then c.rf else c.toRF chip,
    ex := if c.memStall i then c.ex else c.toEX i,
    mm := if c.memStall i then c.mm else c.toMM chip i,
    wb := if c.memStall i then c.wb else c.toWB chip i,
    regFile := c.regFileWritten,
    hi := c.hiWritten chip i,
    lo := c.loWritten chip i,
    annul2 := c.annul1 i,
    nullifyMMInt := s.nullifyMMPre,
    dlyI1 := c.dlyI0,
    dlyI2 := c.dlyI1,
    status :=
      if s.update && s.updateReg == cop0regSTATUS && !c.memStall i then s.newStatus else c.status,
    cause := c.nextCause i,
    epc := if c.epcUpdate i then c.epc else s.epcSource,
    count := c.nextCount i,
    compare := if compareUpdate then c.cop0Inp else c.compare,
    countEqCompare := if compareUpdate then false else c.countEqCompare || c.count == c.compare,
    countEnable := c.cause.dc,
    badVAddr := (c.badVAddrInp i).getD c.badVAddr,
    llAddr := if s.update && s.updateReg == cop0regLLAddr then c.mm.vAddr else c.llAddr,
    llScBit := c.nextLLbit,
    mem := c.memWritten chip }

/-- The core after `rst`, with any words in the register bank, HI, LO and the data
memory. A register of the pipeline that `rst` does not set holds the first value of
its type. -/
def reset (regFile : Reg → Word) (hi lo : Word) (mem : BitVec 30 → Word) : Core :=
  { pc := xInstBaseAddr,
    rf := { pcIncd := 0, instr := 0, pcAbort := false, pc := 0 },
    ex :=
      { selB := false, oper := .opNOP, aRs := 0, aRt := 0, aC := 0, wreg := true, muxC := .mem,
        move := false, postn := 0, shamt := 0, aVal := true, wrmem := true, memT := 0,
        isLoad := false, regA := 0, regB := 0, displ32 := 0, pcP8 := 0, cop0Reg := 0,
        cop0Sel := 0, canTrap := 0, exception := .exNOP, isDelayslot := false,
        pcAbort := false, pc := 0, trapped := false },
    mm :=
      { aRt := 0, aC := 0, wreg := true, muxC := .mem, aVal := true, wrmem := true, memT := 0,
        isLoad := false, regB := 0, result := 0, addr := 0, hi := 0, lo := 0,
        aluMoveOk := false, move := false, pcP8 := 0, cop0Reg := 0, cop0Sel := 0, pc := 0,
        vAddr := 0, addrError := false, isDelayslot := false, trapped := false,
        llScAbort := false, intReq := 0, isSC := false, isMFC0 := false,
        exception := .exNOP },
    wb :=
      { aC := 0, wreg := true, muxC := .mem, result := 0, hi := 0, lo := 0, rdData := 0,
        bData := 0, addr2 := 0, memT := 0, pcP8 := 0, pc := 0, llBit := false,
        isDelayslot := false, cop0Val := 0 },
    regFile := regFile, hi := hi, lo := lo, annul2 := false, nullifyMMInt := false,
    dlyI1 := false, dlyI2 := false,
    -- RESET_STATUS and RESET_CAUSE
    status := 0x10000002,
    cause :=
      { bd := false, ti := false, dc := true, iv := true, wp := false, hwIrq := 0, swIrq := 0,
        excCode := cop0codeNULL },
    epc := 0, count := 1, compare := 0, countEqCompare := false, countEnable := true,
    badVAddr := 0, llAddr := 0, llScBit := false, mem := mem }

end Core

/-- The core after `n` cycles with the inputs `ins`. -/
def run (chip : Chip) (ins : Nat → Inputs) (c : Core) : Nat → Core
  | 0 => c
  | n + 1 => (run chip ins c n).step chip (ins n)

end Xinu.Cpu
