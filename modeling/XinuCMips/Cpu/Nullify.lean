import XinuCMips.Cpu.Shape

/-!
# Exceptions and the instructions behind them

When MEM holds an instruction with an exception, or ERET, the three younger ones in
EX, RF and IF are nullified: the first by its write enables, the other two by
`annul_twice`. What EX sends on as `EX_is_exception` is not masked, and the flip-flop
that annuls the instruction from IF is not held by wait states.
-/

namespace Xinu.Cpu

/-- An exception code that makes MEM do nothing, for an instruction that names the
COP0 register `reg`: reading CAUSE clears its exception code. -/
def idleException (reg : Reg) : ExceptionType → Bool
  | .exNOP | .exSC | .exWAIT | .exDERET => true
  | .exMFC0 => reg != cop0regCAUSE
  | _ => false

namespace Core

variable {chip : Chip} {i i' : Inputs} {c : Core}

/-- The registers of COP0 that instructions change, but for BD. -/
structure Cop0 where
  status : Word
  excCode : BitVec 5
  swIrq : BitVec 2
  dc : Bool
  iv : Bool
  wp : Bool
  epc : Word
  compare : Word
  badVAddr : Word
  llAddr : Word
  llScBit : Bool

def cop0 (c : Core) : Cop0 :=
  { status := c.status, excCode := c.cause.excCode, swIrq := c.cause.swIrq, dc := c.cause.dc,
    iv := c.cause.iv, wp := c.cause.wp, epc := c.epc, compare := c.compare,
    badVAddr := c.badVAddr, llAddr := c.llAddr, llScBit := c.llScBit }

/-- The core at the first instruction from `target`, with an empty pipeline. -/
structure RestartedAt (chip : Chip) (target : Word) (c : Core) : Prop where
  fresh : c.Fresh
  quiet : c.ex.canTrap = 0 ∧ c.ex.trapped = false ∧ c.ex.pcAbort = false
  fetched : c.rf.pc = target ∧ c.rf.pcIncd = target.extractLsb' 2 30 ++ 0#2 + 4
  aligned : target.extractLsb' 0 2 = 0 →
    c.rf.instr = chip.rom (target.extractLsb' 2 30) ∧ c.rf.pcAbort = false
  next : c.pc = c.rf.pcIncd

/-- `c'` has the registers, HI, LO and the data memory that the instructions older
than the one in MEM of `c` leave. -/
structure OlderState (c c' : Core) : Prop where
  regs : ∀ r, c'.regFile r = c.patched r (c.regFile r)
  hi : c'.hi = c.hi
  lo : c'.lo = c.lo
  mem : c'.mem = c.mem

-- ---------------------------------------------------------------------------
-- The cycle of the exception
-- ---------------------------------------------------------------------------

/-- An instruction that is annulled in RF has no hazards, when nothing in EX writes. -/
theorem hazard_null (hd : Null (c.dec i)) (hw : c.exWreg i = true)
    (hs : c.exceptionStall i = false) : c.hazard i = false := by
  have hx : ∀ r, c.exWrites i r = false := fun r => by rw [exWrites, hw]; rfl
  have hbr : ∀ r, (c.fwdBranch i r).2 = false := by
    intro r
    rw [fwdBranch, hd.branch, Bool.false_and, Bool.and_false, if_neg (by decide)]
    cases c.mmWrites r <;> cases c.mm.isMFC0 <;> cases c.mm.isSC <;> rfl
  have htr : ∀ r, (c.fwdTrap i r).2 = false := by
    intro r
    rw [fwdTrap, hd.trap, Bool.false_and, if_neg (by decide)]
    cases c.mmWrites r <;> cases c.mm.aVal <;> rfl
  have hjr : c.jrStall i = false := by
    unfold jrStall
    rw [hd.jump]
    rfl
  rw [hazard, hjr, brStall, hbr, hbr, swStall, hd.store, lwStall, hx, hx, trStall, htr, htr, hs]
  simp

theorem nullify_faulting (h : faulting c.mm.exception = true) :
    c.nullify i = true ∧ c.exceptionStall i = false ∧
      (c.excpSignals i).nullifyMMPre = false := by
  unfold nullify exceptionStall excpSignals
  cases hx : c.mm.exception <;> rw [hx] at h <;> first | exact ⟨rfl, rfl, rfl⟩ | cases h

/-- An exception that is taken has a vector, and ERET goes to EPC. -/
theorem excpPC_faulting (hs : MmShaped c.mm) (h : faulting c.mm.exception = true) :
    ∃ target, c.excpPC = some target := by
  unfold excpPC
  cases hx : c.mm.exception <;> rw [hx] at h <;>
    first | exact ⟨_, rfl⟩ | (rw [hs.trap hx]; exact ⟨_, rfl⟩) | cases h

/-- The registers of COP0 as the exception in MEM leaves them. -/
def taken (i : Inputs) (c : Core) : Cop0 :=
  let s := c.excpSignals i
  { c.cop0 with
    status := s.newStatus,
    excCode := if s.exceptionTaken then s.excCode else c.cause.excCode,
    epc := if s.epcUpdate || c.status.getLsbD statusEXL then c.epc else s.epcSource,
    badVAddr := (c.badVAddrInp i).getD c.badVAddr,
    llScBit := c.nextLLbit }

/-- Only the exception in MEM changes COP0. -/
theorem cop0_faulting (h : faulting c.mm.exception = true) (hm : c.memStall i = false) :
    (c.step chip i).cop0 = c.taken i := by
  have hsig : (c.excpSignals i).update = true ∧
      (c.excpSignals i).updateReg = cop0regSTATUS ∧ (c.excpSignals i).interruptTaken = false ∧
      (c.mm.exception == .exMTC0) = false ∧ c.mm.exception ≠ .exMFC0 := by
    unfold excpSignals
    cases hx : c.mm.exception <;> rw [hx] at h <;>
      first | exact ⟨rfl, rfl, rfl, rfl, by decide⟩ | cases h
  obtain ⟨hup, hreg, hint, hmt, hmf⟩ := hsig
  have hcode : (c.nextCause i).excCode =
      if (c.excpSignals i).exceptionTaken then (c.excpSignals i).excCode
        else c.cause.excCode := by
    show (if _ then _ else if _ then _ else _) = _
    rw [hint, Bool.false_or]
    by_cases ht : (c.excpSignals i).exceptionTaken = true
    · rw [if_pos ht, if_pos ht]
    · rw [if_neg ht, if_neg ht, if_neg (fun hc => hmf hc.1)]
  have hcause : (c.nextCause i).swIrq = c.cause.swIrq ∧ (c.nextCause i).dc = c.cause.dc ∧
      (c.nextCause i).iv = c.cause.iv ∧ (c.nextCause i).wp = c.cause.wp := by
    simp only [nextCause, hup, hreg]
    exact ⟨rfl, rfl, rfl, rfl⟩
  have hepc : c.epcUpdate i =
      ((c.excpSignals i).epcUpdate || c.status.getLsbD statusEXL) := by
    rw [epcUpdate, hmt]
    rfl
  unfold cop0 taken
  rw [Cop0.mk.injEq]
  refine ⟨?_, hcode, hcause.1, hcause.2.1, hcause.2.2.1, hcause.2.2.2, ?_, ?_, rfl, ?_, rfl⟩
  · show (if _ then _ else _) = _
    rw [hup, hreg, hm]
    rfl
  · show (if c.epcUpdate i then _ else _) = _
    rw [hepc]
  · show (if _ then _ else _) = _
    rw [hup, hreg]
    rfl
  · show (if _ then _ else _) = _
    rw [hup, hreg]
    rfl

/-- What the core keeps for the cycle after an exception in MEM. -/
structure Nullified (chip : Chip) (i : Inputs) (c : Core) (target : Word) : Prop where
  pc : (c.step chip i).pc = target
  rf : (c.step chip i).rf = c.toRF chip
  ex : (c.step chip i).ex = c.toEX i
  mm : (c.step chip i).mm = c.toMM chip i
  wb : (c.step chip i).wb = c.toWB chip i
  dec : Null (c.dec i)
  exWreg : c.exWreg i = true
  exBus : c.exAValCond i = true ∧ c.exWrmemCond i = true
  annul2 : (c.step chip i).annul2 = true
  noKill : (c.step chip i).nullifyMMInt = false
  hi : (c.step chip i).hi = c.hi
  lo : (c.step chip i).lo = c.lo
  mem : (c.step chip i).mem = c.mem

/-- An exception in MEM stops the three younger instructions in the cycle in which the
memories do not hold it. -/
theorem nullified (hs : MmShaped c.mm) (hf : faulting c.mm.exception = true)
    (hm : c.memStall i = false) {target : Word} (ht : c.excpPC = some target) :
    Nullified chip i c target := by
  obtain ⟨hnull, hstall, hpre⟩ := nullify_faulting (i := i) hf
  have hannul : c.annul1 i = true := by rw [annul1, hnull, Bool.true_or]
  have htwice : c.annulTwice i = true := by rw [annulTwice, hannul, Bool.true_or]
  have hdec := dec_null htwice
  have hwreg : c.exWreg i = true := by
    rw [Core.exWreg, hnull, hs.flow hf, Bool.not_false, Bool.and_true, Bool.or_true]
  have hpipe : c.pipeStall i = false := by
    rw [pipeStall, hm, hazard_null hdec hwreg hstall]
    rfl
  have hgo : ¬c.pipeStall i = true := by rw [hpipe]; decide
  have hgo' : ¬c.memStall i = true := by rw [hm]; decide
  exact
    { pc := (if_neg hgo).trans (by rw [pcInp, ht]), rf := if_neg hgo, ex := if_neg hgo',
      mm := if_neg hgo', wb := if_neg hgo', dec := hdec, exWreg := hwreg,
      exBus := by
        rw [exAValCond, exWrmemCond, hnull]
        simp,
      annul2 := hannul, noKill := hpre,
      hi := by
        show c.hiWritten chip i = c.hi
        rw [hiWritten, htwice, Bool.not_true, Bool.and_false]
        rfl,
      lo := by
        show c.loWritten chip i = c.lo
        rw [loWritten, htwice, Bool.not_true, Bool.and_false]
        rfl,
      mem := by
        show c.memWritten chip = c.mem
        rw [memWritten, (hs.bus hf).2]
        rfl }

-- ---------------------------------------------------------------------------
-- The cycle after it
-- ---------------------------------------------------------------------------

/-- No bus error, no NMI and no interrupt reaches EX. -/
structure LinesQuiet (i : Inputs) (c : Core) : Prop where
  iBus : i.iBusErr = true
  dBus : i.dBusErr = true
  nmi : (i.nmi && !c.status.getLsbD statusERL) = false
  irq : c.isInterr i = false

/-- EX and MEM hold nothing that has an effect, and RF is annulled. -/
structure Emptied (c : Core) : Prop where
  annul2 : c.annul2 = true
  rf : c.rf.pcAbort = false
  ex : ExIdle c.ex
  exOper : c.ex.oper = .opNOP
  exQuiet : c.ex.canTrap = 0 ∧ c.ex.trapped = false ∧ c.ex.pcAbort = false
  mmWreg : c.mm.wreg = true
  mmBus : c.mm.aVal = true ∧ c.mm.wrmem = true
  noError : c.mm.addrError = false
  idle : idleException c.mm.cop0Reg c.mm.exception = true

/-- An idle exception leaves the signals of COP0 quiet. -/
theorem excpSignals_idle {reg : Reg} (h : idleException reg c.mm.exception = true) :
    c.excpSignals i = c.quietSignals ∧ c.excpPC = none ∧ c.badVAddrInp i = none ∧
      c.nextLLbit = c.llScBit := by
  unfold excpSignals excpPC badVAddrInp nextLLbit
  cases hx : c.mm.exception <;> rw [hx] at h <;> first | exact ⟨rfl, rfl, rfl, rfl⟩ | cases h

/-- EX sends no exception on when it holds none. -/
theorem exIsException_quiet (hl : LinesQuiet i c) (hoff : c.ex.aVal = true)
    (hq : c.ex.canTrap = 0 ∧ c.ex.trapped = false ∧ c.ex.pcAbort = false) :
    c.exIsException i = c.ex.exception := by
  have hovfl : c.isOvfl i = false := by rw [isOvfl, hq.1]; rfl
  rw [exIsException, hl.iBus, hl.dBus, addrError_of_off hoff, hq.2.2, hq.2.1, hovfl, hl.nmi, hl.irq]
  rfl

/-- COP0 keeps its registers under an idle exception. -/
theorem cop0_idle (h : idleException c.mm.cop0Reg c.mm.exception = true) :
    (c.step chip i).cop0 = c.cop0 := by
  obtain ⟨hsig, -, hbad, hll⟩ := excpSignals_idle (i := i) h
  have hepc : c.epcUpdate i = true := by
    have hne : (c.mm.exception == .exMTC0) = false := by
      cases hx : c.mm.exception <;> rw [hx] at h <;> first | rfl | cases h
    rw [epcUpdate, hsig, hne]
    rfl
  have hcode : ¬(c.mm.exception = .exMFC0 ∧ c.mm.cop0Reg = cop0regCAUSE) := by
    rintro ⟨hx, hr⟩
    rw [hx, hr] at h
    cases h
  have hexc : (c.nextCause i).excCode = c.cause.excCode := by
    rw [nextCause, hsig]
    exact if_neg hcode
  unfold cop0
  rw [Cop0.mk.injEq]
  refine ⟨?_, hexc, ?_, ?_, ?_, ?_, ?_, ?_, ?_, ?_, hll⟩
  · show (if _ then _ else _) = _
    rw [hsig]
    rfl
  · show (c.nextCause i).swIrq = _
    rw [nextCause, hsig]
    rfl
  · show (c.nextCause i).dc = _
    rw [nextCause, hsig]
    rfl
  · show (c.nextCause i).iv = _
    rw [nextCause, hsig]
    rfl
  · show (c.nextCause i).wp = _
    rw [nextCause, hsig]
    rfl
  · exact if_pos hepc
  · show (if _ then _ else _) = _
    rw [hsig]
    rfl
  · show (c.badVAddrInp i).getD c.badVAddr = _
    rw [hbad]
    rfl
  · show (if _ then _ else _) = _
    rw [hsig]
    rfl

/-- When the instruction memory is ready in the next cycle, the core restarts where
its PC points. -/
theorem Emptied.drains (h : Emptied c) (hl : LinesQuiet i c) (hrom : romStall i = false) :
    RestartedAt chip c.pc (c.step chip i) ∧ OlderState c (c.step chip i) ∧
      (c.step chip i).cop0 = c.cop0 ∧
      (c.step chip i).cause.bd = (c.status.getLsbD statusEXL && c.cause.bd) := by
  obtain ⟨hsig, hpc, -, -⟩ := excpSignals_idle (i := i) h.idle
  have hm : c.memStall i = false := by
    rw [memStall, ramStall, h.mmBus.1, hrom]
    rfl
  have hnull : c.nullify i = false := by rw [nullify, hsig]; rfl
  have hannul : c.annul1 i = false := by rw [annul1, hnull, h.noError]; rfl
  have htwice : c.annulTwice i = true := by rw [annulTwice, h.annul2, Bool.or_true]
  have hdec := dec_null htwice
  have hwreg : c.exWreg i = true := by rw [exWreg, h.ex.wreg, Bool.true_or]
  have hstall : c.exceptionStall i = false := by rw [exceptionStall, hsig]; rfl
  have hpipe : c.pipeStall i = false := by
    rw [pipeStall, hm, hazard_null hdec hwreg hstall]
    rfl
  have hgo : ¬c.pipeStall i = true := by rw [hpipe]; decide
  have hgo' : ¬c.memStall i = true := by rw [hm]; decide
  have hex : (c.step chip i).ex = c.toEX i := if_neg hgo'
  have hmm : (c.step chip i).mm = c.toMM chip i := if_neg hgo'
  have hwb : (c.step chip i).wb = c.toWB chip i := if_neg hgo'
  have hrf : (c.step chip i).rf = c.toRF chip := if_neg hgo
  have hexc : c.exIsException i = .exNOP :=
    (exIsException_quiet hl h.ex.aVal h.exQuiet).trans h.ex.exception
  have hnext : c.pcInp i = c.pcIncd := by rw [pcInp, hpc, hdec.pcSel]
  refine ⟨⟨⟨?_, ?_, ?_, ?_, ?_, ?_, hannul, ?_⟩, ?_, ?_, fun ha => ?_, ?_⟩, ⟨?_, ?_, ?_, ?_⟩,
    cop0_idle h.idle, ?_⟩
  · -- EX gets the null instruction
    rw [hex]
    exact ⟨by simp [toEX, hdec.wreg], by simp [toEX, hdec.aVal], by simp [toEX, hdec.wmem],
      by simp [toEX, hdec.exception]⟩
  · rw [hex]
    show writesHI (c.dec i).sig.oper = false
    rw [hdec.oper]
    rfl
  · rw [hex]
    show writesLO (c.dec i).sig.oper = false
    rw [hdec.oper]
    rfl
  · -- and MEM what EX held, which is nothing
    rw [hmm]
    exact ⟨hwreg, by simp [toMM, exAValCond, h.ex.aVal], by simp [toMM, exWrmemCond, h.ex.wrmem],
      hexc⟩
  · rw [hmm]
    exact addrError_of_off h.ex.aVal
  · rw [hwb]
    show c.mmWregCond i = true
    rw [mmWregCond, h.mmWreg, ite_self]
  · show (c.excpSignals i).nullifyMMPre = false
    rw [hsig]
    rfl
  · rw [hex]
    exact ⟨hdec.canTrap, trapTaken_of_not hdec.compares _ _, h.rf⟩
  · rw [hrf]
    exact ⟨rfl, rfl⟩
  · have hlow : c.pcAbort = false := by rw [pcAbort, ha]; rfl
    rw [hrf]
    refine ⟨?_, hlow⟩
    show c.instrFetched chip = _
    rw [instrFetched, hlow, h.noError]
    rfl
  · rw [hrf]
    exact (if_neg hgo).trans hnext
  · intro r
    exact Follows.regFileWritten_eq c r
  · show c.hiWritten chip i = c.hi
    rw [hiWritten, htwice, Bool.not_true, Bool.and_false]
    rfl
  · show c.loWritten chip i = c.lo
    rw [loWritten, htwice, Bool.not_true, Bool.and_false]
    rfl
  · show c.memWritten chip = c.mem
    rw [memWritten, h.mmBus.2]
    rfl
  · show (c.nextCause i).bd = _
    rw [nextCause, hsig]
    cases c.status.getLsbD statusEXL <;> rfl

-- ---------------------------------------------------------------------------
-- Both cycles
-- ---------------------------------------------------------------------------

/-- What the younger instructions would have to be masked for: the one in EX has an
exception or an effect on COP0 of its own, the ones in RF and IF were fetched from an
unaligned address, and a sum that overflows writes its own register. -/
structure Spared (i : Inputs) (c : Core) : Prop where
  ex : idleException c.ex.cop0Reg (c.exIsException i) = true
  rf : c.rf.pcAbort = false
  pc : c.pcAbort = false
  own : c.mm.exception = .exOvfl → c.mm.wreg = true ∨ c.mm.aC = 0

/-- With an idle exception in EX there is no address error. -/
theorem addrError_of_idle {reg : Reg} (h : idleException reg (c.exIsException i) = true) :
    c.addrError i = false := by
  by_contra ha
  rw [Bool.not_eq_false] at ha
  rw [exIsException, ha] at h
  unfold memExcpType at h
  repeat' split at h
  all_goals first | cases h | contradiction

theorem Nullified.emptied {target : Word} (h : Nullified chip i c target) (hs : Spared i c) :
    Emptied (c.step chip i) where
  annul2 := h.annul2
  rf := by
    rw [h.rf]
    exact hs.pc
  ex := by
    rw [h.ex]
    exact ⟨by simp [toEX, h.dec.wreg], by simp [toEX, h.dec.aVal], by simp [toEX, h.dec.wmem],
      by simp [toEX, h.dec.exception]⟩
  exOper := by
    rw [h.ex]
    exact h.dec.oper
  exQuiet := by
    rw [h.ex]
    exact ⟨h.dec.canTrap, trapTaken_of_not h.dec.compares _ _, hs.rf⟩
  mmWreg := by
    rw [h.mm]
    exact h.exWreg
  mmBus := by
    rw [h.mm]
    exact h.exBus
  noError := by
    rw [h.mm]
    exact addrError_of_idle hs.ex
  idle := by
    rw [h.mm]
    exact hs.ex

/-- The instruction with the exception writes no register. -/
theorem Nullified.patched_eq {target : Word} (h : Nullified chip i c target)
    (hs : MmShaped c.mm) (hf : faulting c.mm.exception = true) (hsp : Spared i c) (r : Reg)
    (v : Word) : (c.step chip i).patched r v = v := by
  have hdead : (c.step chip i).wb.wreg = true ∨ (c.step chip i).wb.aC = 0 := by
    rw [h.wb]
    have hwreg : c.mm.wreg = true ∨ c.mm.addrError = true → c.mmWregCond i = true := by
      unfold mmWregCond
      rintro (hw | ha)
      · rw [hw, ite_self]
      · rw [ha]
        simp
    by_cases ho : c.mm.exception = .exOvfl
    · exact (hsp.own ho).imp (fun hw => hwreg (Or.inl hw)) id
    · exact Or.inl (hwreg (hs.kept hf ho))
  have hno : (c.step chip i).wbWrites r = false := by
    rw [wbWrites]
    rcases hdead with hd | hd <;> rw [hd]
    · rfl
    · simp
  rw [patched, hno]
  rfl

/-- Two cycles after an exception in MEM that spares nothing the core restarts at the
vector, with the state that the older instructions leave. -/
theorem restarts (hs : MmShaped c.mm) (hf : faulting c.mm.exception = true)
    (hm : c.memStall i = false) (hsp : Spared i c) (hrom : romStall i' = false)
    (hl : LinesQuiet i' (c.step chip i)) :
    ∃ target, c.excpPC = some target ∧
      RestartedAt chip target ((c.step chip i).step chip i') ∧
      OlderState c ((c.step chip i).step chip i') ∧
      ((c.step chip i).step chip i').cop0 = (c.step chip i).cop0 ∧
      ((c.step chip i).step chip i').cause.bd =
        ((c.step chip i).status.getLsbD statusEXL && (c.step chip i).cause.bd) := by
  obtain ⟨target, ht⟩ := excpPC_faulting hs hf
  have hn : Nullified chip i c target := nullified hs hf hm ht
  obtain ⟨hr, ho, hc, hb⟩ := @Emptied.drains chip _ _ (hn.emptied hsp) hl hrom
  rw [hn.pc] at hr
  refine ⟨target, ht, hr, ⟨fun r => ?_, ho.hi.trans hn.hi, ho.lo.trans hn.lo,
    ho.mem.trans hn.mem⟩, hc, hb⟩
  rw [ho.regs, hn.patched_eq hs hf hsp]
  exact Follows.regFileWritten_eq c r

/-- While the memories hold the exception in MEM, the younger instructions change
nothing. -/
theorem held_faulting (hs : MmShaped c.mm) (hf : faulting c.mm.exception = true)
    (hm : c.memStall i = true) :
    OlderState c (c.step chip i) ∧ (c.step chip i).mm = c.mm ∧
      (c.step chip i).status = c.status := by
  obtain ⟨hnull, -, -⟩ := nullify_faulting (i := i) hf
  have htwice : c.annulTwice i = true := by rw [annulTwice, annul1, hnull, Bool.true_or, Bool.true_or]
  refine ⟨⟨fun r => Follows.regFileWritten_eq c r, ?_, ?_, ?_⟩, if_pos hm, ?_⟩
  · show c.hiWritten chip i = c.hi
    rw [hiWritten, htwice, Bool.not_true, Bool.and_false]
    rfl
  · show c.loWritten chip i = c.lo
    rw [loWritten, htwice, Bool.not_true, Bool.and_false]
    rfl
  · show c.memWritten chip = c.mem
    rw [memWritten, (hs.bus hf).2]
    rfl
  · show (if _ then _ else _) = _
    rw [hm, Bool.not_true, Bool.and_false]
    rfl

end Core

-- ---------------------------------------------------------------------------
-- Main result
-- ---------------------------------------------------------------------------

/-- The instructions behind the exception in MEM in cycle `n` change nothing and take
no exception: while the memories hold the pipeline they wait, and two cycles later the
core restarts at the vector, or at EPC for ERET, with the state of the older
instructions and with COP0 as the exception leaves it. -/
structure NullifiesYounger (chip : Chip) (ins : Nat → Inputs) (c : Core) (n : Nat) : Prop where
  held : holds chip ins c n = true →
    (run chip ins c n).OlderState (run chip ins c (n + 1)) ∧
      (run chip ins c (n + 1)).mm = (run chip ins c n).mm ∧
      (run chip ins c (n + 1)).status = (run chip ins c n).status
  restart : holds chip ins c n = false → ∃ target, (run chip ins c n).excpPC = some target ∧
    Core.RestartedAt chip target (run chip ins c (n + 2)) ∧
    (run chip ins c n).OlderState (run chip ins c (n + 2)) ∧
    (run chip ins c (n + 2)).cop0 = (run chip ins c n).taken (ins n) ∧
    (run chip ins c (n + 2)).cause.bd =
      ((run chip ins c (n + 1)).status.getLsbD statusEXL && (run chip ins c (n + 1)).cause.bd)

section Runs

variable {chip : Chip} {ins : Nat → Inputs} {c : Core}

end Runs

/-- A system call, with a sum behind it. -/
def callThenSum : Chip where
  undef := 0
  rom a := match a.toNat with
    | 0 => 0x0000000c  -- syscall
    | 1 => 0x00211021  -- addu $2, $1, $1
    | _ => 0

/-- A system call, with a write to STATUS behind it. -/
def callThenStatus : Chip where
  undef := 0
  rom a := match a.toNat with
    | 0 => 0x0000000c  -- syscall
    | 1 => 0x40816000  -- mtc0 $1, $12
    | _ => 0

end Xinu.Cpu
