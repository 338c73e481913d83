import XinuCMips.Cpu.Follows

/-!
# One cycle keeps the invariant

A calm cycle without slips takes a core that follows the sequential machine to
one that follows it, with the counters one cycle on.
-/

namespace Xinu.Cpu.Follows

open InOrder

variable {chip : Chip} {i : Inputs} {c : Core} {s : Nat → Seq} {f : Flight}
  {answers : Nat → Word}

-- ---------------------------------------------------------------------------
-- The register bank
-- ---------------------------------------------------------------------------

/-- The register bank after the write is the one that WB's result corrects. -/
theorem regFileWritten_eq (c : Core) (r : Reg) :
    c.regFileWritten r = c.patched r (c.regFile r) := by
  unfold Core.regFileWritten Core.patched Core.wbWrites
  by_cases hw : (!c.wb.wreg && c.wb.aC != 0) = true
  · rw [if_pos hw, hw, Bool.true_and, Function.update_apply]
    by_cases hr : c.wb.aC = r
    · rw [if_pos hr.symm, if_pos (beq_iff_eq.mpr hr)]
    · rw [if_neg (fun he => hr he.symm), if_neg (fun he => hr (beq_iff_eq.mp he))]
  · rw [if_neg hw, eq_false_of_ne_true hw, Bool.false_and]
    rfl

theorem memStall_false (hm : c.memStall i = false) :
    c.ramStall i = false ∧ Core.romStall i = false := by
  simpa [Core.memStall] using hm

/-- `MM_wreg_cond` kills a move that is not made. -/
theorem mmWregCond_eq (h : Follows chip s f c) (hm : c.memStall i = false) :
    c.mmWregCond i = (c.mm.wreg || (c.mm.move && !c.mm.aluMoveOk)) := by
  rw [Core.mmWregCond, (memStall_false hm).1, h.noError, h.noKill]
  cases hmv : (c.mm.move && !c.mm.aluMoveOk) with
  | true => simp
  | false => simp

/-- The data memory before the write of the instruction in MEM. -/
theorem mem_of_load (h : Follows chip s f c) (hl : f.ex = f.mm + 1)
    (hs : ∀ k, s (k + 1) = (s k).exec chip (answers k))
    (hw : (s f.mm).dec.ctrl.wmem = true) : c.mem = (s f.mm).mem := by
  have hm := h.mmLive hl
  have hstore : c.memWritten chip = c.mem := by
    rw [Core.memWritten, hm.wrmem, hw]
    rfl
  have hseq : (s f.ex).mem = (s f.mm).mem := by
    rw [hl, hs]
    show (s f.mm).memAfter = _
    rw [Seq.memAfter, Seq.storing, hw]
    rfl
  rw [← hstore, h.mem, hseq]

/-- What LWL and LWR merge into. -/
theorem mmBData_eq (h : Follows chip s f c) (hl : f.ex = f.mm + 1)
    (hd : (s f.mm).datum = true) (hw : (s f.mm).dec.sig.wreg = false)
    (hsc : (s f.mm).isSC = false) : c.mmBData = (s f.mm).opB := by
  have hm := h.mmLive hl
  have hbus : (s f.mm).dec.ctrl.aVal = false := by
    simp only [Seq.datum, Bool.and_eq_true, Bool.not_eq_true'] at hd
    exact hd.1
  rw [← h.mmB hl hd, Core.mmBData, Core.patched, hm.wreg, hw, hm.aVal, hbus, hsc]
  rfl

theorem wb_step (hm : c.memStall i = false) : (c.step chip i).wb = c.toWB chip i := by
  show (if _ then _ else _) = _
  rw [hm]
  rfl

theorem wbC_moved (hm : c.memStall i = false) :
    (c.step chip i).wbC =
      match c.mm.muxC with
      | .mem => mergeLOAD (c.mm.memT.extractLsb' 2 2) (c.mm.addr.extractLsb' 0 2) (c.rdData chip)
          c.mmBData
      | .ula => c.mm.result
      | .pc8 => c.mm.pcP8
      | .hi => c.mm.hi
      | .lo => c.mm.lo
      | .cop0 => c.mmCop0Val i
      | .llbit => flagWord c.mmLLbit := by
  rw [Core.wbC, wb_step hm]
  rfl

theorem wbWrites_step (h : Follows chip s f c) (hm : c.memStall i = false)
    (hl : f.ex = f.mm + 1) (r : Reg) :
    (c.step chip i).wbWrites r = ((s f.mm).names r && !(s f.mm).unmoved) := by
  have hmm := h.mmLive hl
  have hun : (c.mm.move && !c.mm.aluMoveOk) = (s f.mm).unmoved := by
    rw [Seq.unmoved, hmm.move]
    cases hmv : (s f.mm).dec.move with
    | false => rfl
    | true => rw [hmm.moveOk hmv]
  rw [Core.wbWrites, wb_step hm]
  show (!c.mmWregCond i && c.mm.aC != 0 && c.mm.aC == r) = _
  rw [h.mmWregCond_eq hm, hun, hmm.wreg, hmm.aC, Seq.names]
  cases (s f.mm).dec.sig.wreg <;> cases (s f.mm).unmoved <;> simp

theorem wbWrites_step_idle (h : Follows chip s f c) (hm : c.memStall i = false)
    (hidle : f.ex = f.mm) (r : Reg) : (c.step chip i).wbWrites r = false := by
  rw [Core.wbWrites, wb_step hm]
  show (!c.mmWregCond i && c.mm.aC != 0 && c.mm.aC == r) = _
  rw [h.mmWregCond_eq hm, (h.mmIdle hidle).wreg]
  rfl

/-- RF decodes the instruction of the sequential machine. -/
theorem dec_eq (h : Follows chip s f c) : c.dec i = (s f.rf).dec := by
  have hop : c.opcode i = fieldOpcode (s f.rf).instr := by
    rw [Core.opcode, Core.annulTwice, Core.annul1, Core.nullify_quiet h.quiet, h.noError,
      h.noAnnul, h.instr]
    rfl
  rw [Core.dec, hop, h.instr]
  rfl

/-- An aligned PC is fetched from as it is. -/
theorem pcAligned_eq (hpc : c.pcAbort = false) : c.pcAligned = c.pc := by
  have hlow : c.pc.extractLsb' 0 2 = 0 := by simpa [Core.pcAbort] using hpc
  show c.pc.extractLsb' 2 30 ++ (0 : BitVec 2) = c.pc
  rw [← hlow, BitVec.extractLsb'_append_extractLsb'_eq_extractLsb' (by rfl)]
  exact BitVec.extractLsb'_eq_self

theorem pcIncd_eq (h : Follows chip s f c) (hpc : c.pcAbort = false) :
    c.pcIncd = (s f.rf).npc + 4 := by
  rw [Core.pcIncd, pcAligned_eq hpc, h.npc]

section Moving

variable (hs : ∀ k, s (k + 1) = (s k).exec chip (answers k))
include hs

/-- WB gets the value of the instruction that leaves MEM. -/
theorem wbC_step (h : Follows chip s f c) (hm : c.memStall i = false) (hl : f.ex = f.mm + 1)
    (hans : answers f.mm = c.mmCop0Val i) (hw : (s f.mm).dec.sig.wreg = false) :
    (c.step chip i).wbC = (s f.mm).value chip (answers f.mm) := by
  have hmm := h.mmLive hl
  rw [wbC_moved hm, hmm.muxC, Seq.value]
  cases hx : (s f.mm).dec.sig.muxC with
  | mem =>
    have hbus := (s f.mm).bus_of_mem hw hx
    have hsc := (s f.mm).not_isSC_of_mem hx
    have haddr := hmm.addr hbus.1
    show mergeLOAD _ _ _ _ = (s f.mm).loaded chip
    rw [Seq.loaded, Core.rdData, Core.dWordAddr, hmm.memT, haddr, hmm.wrmem, hmm.aVal, hsc,
      hbus.1, hbus.2, h.mem_of_load hl hs hbus.2]
    refine mergeLOAD_congr fun h3 => h.mmBData_eq hl ?_ hw hsc
    rw [Seq.datum, hbus.1, hbus.2, h3]
    rfl
  | ula => exact hmm.result
  | pc8 => exact hmm.pcP8
  | hi => exact hmm.hi ((s f.mm).sound.hi hx)
  | lo => exact hmm.lo ((s f.mm).sound.lo hx)
  | cop0 => exact hans.symm
  | llbit =>
    have hsc := (s f.mm).isSC_iff_llbit.mpr hx
    have hlink := h.link.resolve_right (fun hr => by
      rw [hmm.exception, (s f.mm).isSC_iff.mp hsc] at hr
      cases hr.1)
    show flagWord c.mmLLbit = flagWord (s f.mm).scOk
    rw [Core.mmLLbit, hlink.1, hmm.llScAbort hsc, Seq.scOk]
    simp

/-- WB's result corrects a register that the instruction in MEM has written. -/
theorem patched_written (h : Follows chip s f c) (hm : c.memStall i = false)
    (hl : f.ex = f.mm + 1) (hans : answers f.mm = c.mmCop0Val i) {r : Reg} {v : Word}
    (hn : (s f.mm).names r = true) (hmv : (s f.mm).unmoved = false) :
    (c.step chip i).patched r v = (s f.ex).reg r := by
  have hwreg : (s f.mm).dec.sig.wreg = false := by
    have hn' := hn
    simp only [Seq.names, Bool.and_eq_true, Bool.not_eq_true'] at hn'
    exact hn'.1.1
  have hw : (c.step chip i).wbWrites r = true := by
    rw [h.wbWrites_step hm hl, hn, hmv]
    rfl
  rw [Core.patched, if_pos hw, h.wbC_step hs hm hl hans hwreg, hl, hs]
  exact (Seq.reg_exec chip _ _ hn hmv).symm

/-- A register that is right for the instruction in MEM is right for the one
behind it, once WB's result corrects it. -/
theorem patched_step (h : Follows chip s f c) (hm : c.memStall i = false)
    (hans : f.ex = f.mm + 1 → answers f.mm = c.mmCop0Val i) {r : Reg} {v : Word}
    (hv : v = (s f.mm).reg r) : (c.step chip i).patched r v = (s f.ex).reg r := by
  rcases h.ordered.mm with hidle | hl
  · rw [Core.patched, h.wbWrites_step_idle hm hidle, hidle]
    exact hv
  · by_cases hw : ((s f.mm).names r && !(s f.mm).unmoved) = true
    · have hwn : (s f.mm).names r = true ∧ (s f.mm).unmoved = false := by simpa using hw
      exact h.patched_written hs hm hl (hans hl) hwn.1 hwn.2
    · rw [Core.patched, h.wbWrites_step hm hl, if_neg hw, hl, hs,
        Seq.reg_exec_of_not chip _ _ (by simpa using hw)]
      exact hv

-- ---------------------------------------------------------------------------
-- The operands in RF
-- ---------------------------------------------------------------------------

/-- RF takes the operands of a branch or jump from the right places. -/
structure RfSound (i : Inputs) (c : Core) : Prop where
  moves : c.hazard i = false
  slips : c.rfSlips i = false

/-- What the instruction in MEM leaves reaches RF, unless EX writes the register
again. -/
theorem behind_both (h : Follows chip s f c) {r : Reg} (hx : c.exWrites i r = false)
    (hw : c.mmWrites r = false) : c.readReg r = (s f.rf).reg r := by
  rw [h.readReg_eq, h.reg_behind_ex hs hx, h.reg_behind_mm hs hw]

/-- A successful SC is on the bus, and a failed one leaves zero. -/
theorem failed_sc (h : Follows chip s f c) {r : Reg} (hw : c.mmWrites r = true)
    (hx : c.exWrites i r = false) (hans : f.ex = f.mm + 1 → answers f.mm = c.mmCop0Val i)
    (hu : c.unforwarded = false) (hmem : c.mm.muxC ≠ .mem)
    (hsc : c.mm.isSC = true → c.mm.llScAbort = true) :
    (if c.mm.isMFC0 then c.mmCop0Val i else if c.mm.isSC then 0 else c.mm.result) =
      (s f.rf).reg r := by
  rw [h.reg_behind_ex hs hx, ← h.forwarded hs hw hans hu hmem]
  cases h1 : c.mm.isMFC0 with
  | true => rfl
  | false =>
    cases h2 : c.mm.isSC with
    | false => rfl
    | true =>
      rw [hsc h2]
      rfl

/-- The success flag of the SC in EX. -/
theorem scFlag_eq (h : Follows chip s f c) (hans : f.ex = f.mm + 1 → answers f.mm = c.mmCop0Val i)
    (hx : f.rf = f.ex + 1 → ExSound c) {r : Reg} (hxw : c.exWrites i r = true)
    (hsc : c.isSC = true) : flagWord (!c.llScAbort i) = (s f.rf).reg r := by
  have hl := h.ex_live_of_writes hxw
  have hsc' : (s f.ex).isSC = true := by
    rw [Seq.isSC_iff, ← (h.exLive hl).exception]
    simpa [Core.isSC] using hsc
  have hnames : (s f.ex).names r = true := by rw [← h.exWrites_live hl, hxw]
  rw [hl, hs, Seq.reg_exec chip _ _ hnames ((s f.ex).unmoved_of_isSC hsc'), Seq.value,
    (s f.ex).isSC_iff_llbit.mp hsc', h.llScAbort_eq hs hl hans (hx hl) hsc', Bool.not_not]

omit hs in
/-- An instruction in MEM that is off the bus and writes a register is no load,
and no SC that succeeds. -/
theorem off_bus (h : Follows chip s f c) {r : Reg} (hw : c.mmWrites r = true)
    (hbus : c.mm.aVal = true) : c.mm.muxC ≠ .mem ∧ (c.mm.isSC = true → c.mm.llScAbort = true) := by
  have hm := h.mmLive (h.mm_live_of_writes hw)
  have hav : ((s f.mm).dec.ctrl.aVal || ((s f.mm).isSC && !(s f.mm).scOk)) = true :=
    hm.aVal.symm.trans hbus
  constructor
  · intro hx
    have hwreg : (s f.mm).dec.sig.wreg = false := by
      rw [← hm.wreg]
      simp only [Core.mmWrites, Bool.and_eq_true, Bool.not_eq_true'] at hw
      exact hw.1.1
    have hx' : (s f.mm).dec.sig.muxC = .mem := hm.muxC.symm.trans hx
    rw [((s f.mm).bus_of_mem hwreg hx').1, (s f.mm).not_isSC_of_mem hx'] at hav
    cases hav
  · intro hsc
    rw [hm.isSC] at hsc
    rw [(s f.mm).bus_of_isSC hsc, hsc, Bool.false_or, Bool.true_and] at hav
    rw [hm.llScAbort hsc]
    exact hav

/-- A branch that is not stalled compares the registers of the sequential machine. -/
theorem fwdBranch_eq (h : Follows chip s f c) (hb : (s f.rf).dec.isBranch = true)
    (hans : f.ex = f.mm + 1 → answers f.mm = c.mmCop0Val i)
    (hx : f.rf = f.ex + 1 → ExSound c) {r : Reg} (hstall : (c.fwdBranch i r).2 = false)
    (hslip : c.branchSlip i r = false) : (c.fwdBranch i r).1 = (s f.rf).reg r := by
  unfold Core.fwdBranch at hstall ⊢
  rw [h.dec_eq, hb] at hstall ⊢
  simp only [Bool.true_and, Bool.and_true] at hstall ⊢
  by_cases hxw : c.exWrites i r = true
  · rw [if_pos hxw] at hstall ⊢
    by_cases hsc : c.isSC = true
    · rw [if_pos hsc]
      exact h.scFlag_eq hs hans hx hxw hsc
    · rw [if_neg hsc] at hstall
      cases hstall
  · rw [if_neg hxw] at hstall ⊢
    have hxw' : c.exWrites i r = false := by simpa using hxw
    by_cases hw : c.mmWrites r = true
    · rw [if_pos hw] at hstall ⊢
      have hu : c.unforwarded = false := by
        simpa only [Core.branchSlip, hxw', hw, Bool.not_false, Bool.true_and] using hslip
      by_cases hbus : c.mm.aVal = true
      · have hoff := h.off_bus hw hbus
        rw [hbus, ← h.failed_sc hs hw hxw' hans hu hoff.1 hoff.2]
        cases c.mm.isMFC0 <;> cases c.mm.isSC <;> rfl
      · -- an instruction on the bus would have stalled
        rw [eq_false_of_ne_true hbus] at hstall
        cases hstall
    · rw [if_neg hw]
      exact h.behind_both hs hxw' (by simpa using hw)

omit hs in
/-- A jump through a register that is not stalled finds no writer of the register in
EX, and no load in MEM. -/
theorem jump_unstalled (h : Follows chip s f c) (hj : (s f.rf).dec.sig.pcSel = .jr)
    (hz : c.hazard i = false) : c.exWrites i (s f.rf).dec.aRs = false ∧
      (c.mmWrites (s f.rf).dec.aRs = true → c.mm.isLoad = false) := by
  have hdec : c.dec i = (s f.rf).dec := h.dec_eq
  have hjr : (s f.rf).dec.funct.pcSel = .jr := ((s f.rf).sound.jr hj).1
  have hstall : c.jrStall i = false := by
    simp only [Core.hazard, Bool.or_eq_false_iff] at hz
    exact hz.1.1.1.1.1
  simp only [Core.jrStall, hdec, hjr, beq_self_eq_true, Bool.true_and] at hstall
  split at hstall
  · cases hstall
  · split at hstall
    · cases hstall
    · rename_i _ hx
      refine ⟨by simpa using hx, fun hw => ?_⟩
      rw [hw, Bool.and_true] at hstall
      exact hstall

/-- A jump through a register that is not stalled goes where the sequential
machine goes. -/
theorem fwdJump_eq (h : Follows chip s f c) (hj : (s f.rf).dec.sig.pcSel = .jr)
    (hans : f.ex = f.mm + 1 → answers f.mm = c.mmCop0Val i) (hr : RfSound i c) :
    c.eqFwdA i = (s f.rf).opA := by
  have hdec : c.dec i = (s f.rf).dec := h.dec_eq
  have hb : (s f.rf).dec.isBranch = false := ((s f.rf).sound.jr hj).2
  obtain ⟨hxw, hload⟩ := h.jump_unstalled hj hr.moves
  have hslip := hr.slips
  simp only [Core.rfSlips, hdec, hj, beq_self_eq_true, Bool.true_and, Bool.or_eq_false_iff]
    at hslip
  rw [Core.eqFwdA, hdec, Core.fwdBranch, hdec, hb]
  simp only [Bool.false_and, Bool.false_eq_true, if_false, Bool.and_false]
  by_cases hw : c.mmWrites (s f.rf).dec.aRs = true
  · rw [if_pos hw]
    have hs' := hslip.2
    rw [hw, Bool.true_and] at hs'
    simp only [Bool.or_eq_false_iff] at hs'
    have hmem : c.mm.muxC ≠ .mem := by
      intro hx
      have hll := hs'.1.2
      rw [Core.linkedLoad, hx, hload hw] at hll
      cases hll
    refine Eq.trans ?_ (h.failed_sc hs hw hxw hans hs'.1.1 hmem fun hsc => ?_)
    · cases c.mm.isMFC0 <;> cases c.mm.isSC <;> rfl
    · have habort := hs'.2
      rw [hsc] at habort
      simpa using habort
  · rw [if_neg hw]
    exact h.behind_both hs hxw (by simpa using hw)

/-- A branch that is not stalled has the right comparands. -/
theorem eqFwd_eq (h : Follows chip s f c) (hb : (s f.rf).dec.sig.pcSel = .branch)
    (hans : f.ex = f.mm + 1 → answers f.mm = c.mmCop0Val i)
    (hx : f.rf = f.ex + 1 → ExSound c) (hr : RfSound i c) :
    c.eqFwdA i = (s f.rf).opA ∧ ((s f.rf).dec.readsRt = true → c.eqFwdB i = (s f.rf).opB) := by
  have hdec : c.dec i = (s f.rf).dec := h.dec_eq
  have hstall : c.brStall i = false := by
    have := hr.moves
    simp only [Core.hazard, Bool.or_eq_false_iff] at this
    exact this.1.1.1.1.2
  simp only [Core.brStall, Bool.or_eq_false_iff, hdec] at hstall
  have hslip := hr.slips
  simp only [Core.rfSlips, hdec, hb, beq_self_eq_true, Bool.true_and, Bool.or_eq_false_iff]
    at hslip
  have hbr : (s f.rf).dec.isBranch = true := (s f.rf).sound.branch hb
  refine ⟨?_, fun hrt => ?_⟩
  · rw [Core.eqFwdA, hdec]
    exact h.fwdBranch_eq hs hbr hans hx hstall.1 hslip.1.1
  · have hslipB := hslip.1.2
    rw [hrt, Bool.true_and] at hslipB
    rw [Core.eqFwdB, hdec]
    exact h.fwdBranch_eq hs hbr hans hx hstall.2 hslipB

/-- The next PC is that of the sequential machine. -/
theorem pcInp_eq (h : Follows chip s f c) (hpc : c.pcAbort = false)
    (hans : f.ex = f.mm + 1 → answers f.mm = c.mmCop0Val i)
    (hx : f.rf = f.ex + 1 → ExSound c) (hr : RfSound i c) : c.pcInp i = (s f.rf).nextPC := by
  have hdec : c.dec i = (s f.rf).dec := h.dec_eq
  rw [Core.pcInp, Core.excpPC_quiet h.quiet, Seq.nextPC, hdec, h.pcIncd]
  cases hsel : (s f.rf).dec.sig.pcSel with
  | pc4 => exact h.pcIncd_eq hpc
  | branch =>
    have hfwd := h.eqFwd_eq hs hsel hans hx hr
    exact brTarget_congr hfwd.1 hfwd.2
  | jump =>
    show jTarget c.rf.instr _ = _
    rw [h.instr]
  | jr => exact h.fwdJump_eq hs hsel hans hr

-- ---------------------------------------------------------------------------
-- The latches
-- ---------------------------------------------------------------------------

omit hs in
/-- RF sends its instruction to EX. -/
theorem toEX_holds (h : Follows chip s f c) (hm : c.memStall i = false)
    (hz : c.hazard i = false) : ExHolds (s f.rf) (c.toEX i) := by
  have hstall : c.pipeStall i = false := by rw [Core.pipeStall, hm, hz]; rfl
  have hp : c.rf.pcIncd + 4 = (s f.rf).pc + 8 := by rw [h.pcIncd, BitVec.add_assoc]; rfl
  constructor <;>
    simp only [Core.toEX, h.dec_eq, hstall, Bool.false_or, Bool.false_eq_true, if_false, hp]

omit hs in
/-- Under a hazard RF sends a bubble. -/
theorem toEX_idle (hz : c.hazard i = true) : ExIdle (c.toEX i) := by
  have hstall : c.pipeStall i = true := by rw [Core.pipeStall, hz, Bool.or_true]
  constructor <;> simp only [Core.toEX, hstall, Bool.true_or, if_true]

/-- EX sends its instruction to MEM. -/
theorem toMM_holds (h : Follows chip s f c) (hc : Core.Calm i c) (hl : f.rf = f.ex + 1)
    (hans : f.ex = f.mm + 1 → answers f.mm = c.mmCop0Val i) (hx : ExSound c) :
    MmHolds chip (s f.ex) (c.toMM chip i) := by
  have he := h.exLive hl
  have hcalm := hc.ex
  have hnull : c.nullify i = false := Core.nullify_quiet h.quiet
  have hsc : c.isSC = (s f.ex).isSC := by rw [Core.isSC, he.exception]; rfl
  -- the bus is given up by an SC that fails
  have habort : c.llScAbort i = ((s f.ex).isSC && !(s f.ex).scOk) := by
    cases hs' : (s f.ex).isSC with
    | true => exact h.llScAbort_eq hs hl hans hx hs'
    | false =>
      rw [Core.isSC, hs'] at hsc
      rw [Core.llScAbort, hsc]
      rfl
  exact
    { aRt := he.aRt, aC := he.aC, wreg := h.exWreg.trans he.wreg, muxC := he.muxC,
      memT := he.memT, isLoad := he.isLoad, move := he.move, pcP8 := he.pcP8,
      exception := hcalm.1.trans he.exception,
      aVal := by
        show c.exAValCond i = _
        rw [Core.exAValCond, hcalm.2.1, hnull, habort, he.aVal]
        simp,
      wrmem := by
        show c.exWrmemCond i = _
        rw [Core.exWrmemCond, hcalm.2.1, hnull, habort, he.wrmem]
        simp,
      isSC := hsc,
      isMFC0 := by
        show (c.ex.exception == .exMFC0) = _
        rw [he.exception],
      llScAbort := h.llScAbort_eq hs hl hans hx,
      moveOk := fun hmv => by
        have hmove := (s f.ex).sound.move hmv
        show aluMoveOk c.ex.oper (c.aluInpB i) = _
        rw [he.oper]
        exact aluMoveOk_congr fun hr => h.aluInpB_eq hs hl hans hx hr,
      result := h.result_eq hs hl hans hx,
      hi := fun ho => h.hi.resolve_left (by rw [he.oper, ho]; decide),
      lo := fun ho => h.lo.resolve_left (by rw [he.oper, ho]; decide),
      addr := h.vAddr_eq hs hl hans hx,
      vAddr := h.vAddr_eq hs hl hans hx }

omit hs in
/-- A bubble goes on to MEM. -/
theorem toMM_idle (h : Follows chip s f c) (hc : Core.Calm i c) (hidle : f.rf = f.ex) :
    MmIdle (c.toMM chip i) := by
  have he := h.exIdle hidle
  exact
    { wreg := h.exWreg.trans he.wreg,
      aVal := by
        show c.exAValCond i = true
        rw [Core.exAValCond, he.aVal]
        rfl,
      wrmem := by
        show c.exWrmemCond i = true
        rw [Core.exWrmemCond, he.wrmem]
        rfl,
      exception := hc.ex.1.trans he.exception }

/-- The datum for the bus, that EX may leave for MEM to take from WB. -/
theorem datum_step (h : Follows chip s f c) (hm : c.memStall i = false) (hl : f.rf = f.ex + 1)
    (hans : f.ex = f.mm + 1 → answers f.mm = c.mmCop0Val i) (hx : ExSound c)
    (hd : (s f.ex).datum = true) :
    (c.step chip i).patched (s f.ex).dec.aRt (c.aluFwdB i) = (s f.ex).opB := by
  have he := h.exLive hl
  by_cases hw : c.mmWrites c.ex.aRt = true
  · -- the instruction in MEM writes the datum, and WB has it in the next cycle
    have hlm := h.mm_live_of_writes hw
    have hmm := h.mmLive hlm
    have hmoved : (s f.mm).unmoved = false := by
      have hslip := hx.slips
      simp only [Core.exSlips, hw, he.aVal, he.wrmem, he.memT, Bool.or_eq_false_iff] at hslip
      have hd' : (!(s f.ex).dec.ctrl.aVal &&
          (!(s f.ex).dec.ctrl.wmem || (s f.ex).dec.memT.getLsbD 3)) = true := hd
      rw [Bool.and_true, hd', Bool.true_and, hmm.move] at hslip
      rw [Seq.unmoved]
      cases hmv : (s f.mm).dec.move with
      | false => rfl
      | true =>
        rw [← hmm.moveOk hmv]
        simpa only [hmv, Bool.true_and] using hslip.2
    have hnames : (s f.mm).names (s f.ex).dec.aRt = true := by
      rw [← h.mmWrites_live hlm, ← he.aRt, hw]
    exact h.patched_written hs hm hlm (hans hlm) hnames hmoved
  · have hw' : c.mmWrites c.ex.aRt = false := by simpa using hw
    have hv : c.aluFwdB i = (s f.mm).reg (s f.ex).dec.aRt := by
      rw [Core.aluFwdB, Core.fwdALU, if_neg hw, ← he.aRt]
      exact h.exB hl
    exact h.patched_step hs hm hans hv

-- ---------------------------------------------------------------------------
-- HI, LO, the link and the data memory
-- ---------------------------------------------------------------------------

omit hs in
theorem annulTwice_eq (h : Follows chip s f c) : c.annulTwice i = false := by
  rw [Core.annulTwice, Core.annul1, Core.nullify_quiet h.quiet, h.noError, h.noAnnul]
  rfl

/-- HI or LO behind the instruction that leaves EX; a bubble writes early what the
instruction behind it writes again. -/
theorem hilo_step (h : Follows chip s f c)
    (hans : f.ex = f.mm + 1 → answers f.mm = c.mmCop0Val i)
    (hx : f.rf = f.ex + 1 → ExSound c) {writes : AluFun → Bool}
    {inp : AluFun → Word → Word → Word} {held : Seq → Word} {v : Word}
    (hinp : ∀ {fn a a' b b'}, (readsA fn = true → a = a') → (readsB fn = true → b = b') →
      inp fn a b = inp fn a' b')
    (hexec : ∀ (s : Seq) (answer : Word), held (s.exec chip answer) =
      if writes s.dec.sig.oper then inp s.dec.sig.oper s.opA s.inB else held s)
    (hbubble : f.rf = f.ex → writes c.ex.oper = true → writes (s f.rf).dec.sig.oper = true)
    (hv : writes c.ex.oper = true ∨ v = held (s f.ex)) :
    writes (s f.rf).dec.sig.oper = true ∨
      (if writes c.ex.oper && !c.annulTwice i then inp c.ex.oper (c.aluInpA i) (c.aluInpB i)
        else v) = held (s f.rf) := by
  rw [h.annulTwice_eq, Bool.not_false, Bool.and_true]
  rcases h.ordered.ex with hidle | hl
  · by_cases hw : writes c.ex.oper = true
    · exact Or.inl (hbubble hidle hw)
    · rw [if_neg hw, hidle]
      exact Or.inr (hv.resolve_left hw)
  · have he := h.exLive hl
    refine Or.inr ?_
    rw [hl, hs, hexec, he.oper]
    by_cases hw : writes (s f.ex).dec.sig.oper = true
    · rw [if_pos hw, if_pos hw]
      exact hinp (h.aluInpA_eq hs hl hans (hx hl)) (h.aluInpB_eq hs hl hans (hx hl))
    · rw [if_neg hw, if_neg hw]
      exact hv.resolve_left (by rw [he.oper]; exact hw)

/-- The link behind the instruction that leaves MEM. -/
theorem link_step (h : Follows chip s f c) :
    c.nextLLbit = (s f.ex).llBit ∧ (c.step chip i).llAddr = (s f.ex).llAddr := by
  have haddr : (c.step chip i).llAddr =
      if c.mm.exception == .exLL then c.mm.vAddr else c.llAddr := by
    show (if _ then _ else _) = _
    rw [Core.llUpdate_quiet h.quiet]
  rw [haddr, Core.nextLLbit_quiet h.quiet]
  by_cases hll : c.mm.exception = .exLL
  · rcases h.ordered.mm with hidle | hl
    · rw [(h.mmIdle hidle).exception] at hll
      cases hll
    · have hm := h.mmLive hl
      have hll' : (s f.mm).dec.sig.exception = .exLL := hm.exception.symm.trans hll
      have hisLL : (s f.mm).isLL = true := by rw [Seq.isLL, hll']; rfl
      rw [hll, hl, hs, hm.vAddr ((s f.mm).sound.ll hll').2]
      simp only [Seq.exec, hisLL, beq_self_eq_true, Bool.true_or, if_true, and_self]
  · have hkept := h.link.resolve_right (fun hr => hll hr.1)
    rw [beq_eq_false_iff_ne.mpr hll, Bool.false_or, if_neg (by decide)]
    rcases h.ordered.mm with hidle | hl
    · rw [hidle]
      exact hkept
    · have hisLL : (s f.mm).isLL = false := by
        rw [Seq.isLL, ← (h.mmLive hl).exception]
        simpa using hll
      rw [hl, hs]
      simpa only [Seq.exec, hisLL, Bool.false_eq_true, if_false] using hkept

omit hs in
/-- The memory after the store of the instruction in MEM. -/
theorem memWritten_live {x : Seq} (hm : MmHolds chip x c.mm) (hmem : c.mem = x.mem)
    (hd : x.datum = true → c.patched c.mm.aRt c.mm.regB = x.opB) :
    c.memWritten chip = x.memAfter := by
  have hst : (!c.mm.wrmem && !c.mm.aVal) = x.storing := by
    rw [hm.wrmem, hm.aVal, Seq.storing]
    cases x.dec.ctrl.wmem <;> cases x.dec.ctrl.aVal <;> cases (x.isSC && !x.scOk) <;> rfl
  rw [Core.memWritten, Seq.memAfter, hst]
  by_cases hx : x.storing = true
  · have hx' := hx
    simp only [Seq.storing, Bool.and_eq_true, Bool.not_eq_true'] at hx'
    have hdata : c.dataOut chip = x.opB := by
      rw [Core.dataOut, hst, if_pos hx, ← hd (by rw [Seq.datum, hx'.1.1, hx'.1.2]; rfl)]
      rfl
    rw [if_pos hx, if_pos hx, Core.dWordAddr, hm.addr hx'.1.2, hm.memT, hdata, hmem]
  · rw [if_neg hx, if_neg hx, hmem]

omit hs in
theorem memWritten_idle (hm : MmIdle c.mm) : c.memWritten chip = c.mem := by
  rw [Core.memWritten, hm.wrmem]
  rfl

end Moving

-- ---------------------------------------------------------------------------
-- The step lemma
-- ---------------------------------------------------------------------------

theorem exSound_of (hm : c.memStall i = false) (hslip : ¬Core.Slips f i c) :
    f.rf = f.ex + 1 → ExSound c := by
  intro hl
  constructor
  · by_contra hs
    exact hslip ⟨hm, Or.inl ⟨hl, Or.inl (by simpa using hs)⟩⟩
  · by_contra hs
    exact hslip ⟨hm, Or.inl ⟨hl, Or.inr (by simpa using hs)⟩⟩

theorem rfSound_of (hm : c.memStall i = false) (hz : c.hazard i = false)
    (hslip : ¬Core.Slips f i c) : RfSound i c := by
  refine ⟨hz, ?_⟩
  by_contra hs
  exact hslip ⟨hm, Or.inr ⟨hz, by simpa using hs⟩⟩

/-- A stalled cycle holds the registers of the stages. -/
theorem step_held (hm : c.memStall i = true) :
    (c.step chip i).pc = c.pc ∧ (c.step chip i).rf = c.rf ∧ (c.step chip i).ex = c.ex ∧
      (c.step chip i).mm = c.mm ∧ (c.step chip i).wb = c.wb := by
  have hpipe : c.pipeStall i = true := by rw [Core.pipeStall, hm, Bool.true_or]
  exact ⟨if_pos hpipe, if_pos hpipe, if_pos hm, if_pos hm, if_pos hm⟩

theorem patched_of_wb {c c' : Core} (hwb : c'.wb = c.wb) (r : Reg) (v : Word) :
    c'.patched r v = c.patched r v := by
  rw [Core.patched, Core.patched, Core.wbWrites, Core.wbWrites, Core.wbC, Core.wbC, hwb]

/-- What is patched once is patched. -/
theorem patched_twice (c : Core) (r : Reg) (v : Word) :
    c.patched r (c.patched r v) = c.patched r v := by
  unfold Core.patched
  split <;> rfl

/-- A store that the data memory holds up is made again with the same datum. -/
theorem memWritten_held (hm : c.memStall i = true) :
    (c.step chip i).memWritten chip = c.memWritten chip := by
  obtain ⟨_, _, _, hmm, hwb⟩ := @step_held chip _ _ hm
  have hdata : (c.step chip i).dataOut chip = c.dataOut chip := by
    rw [Core.dataOut, Core.dataOut, Core.wbWrites, Core.wbWrites, Core.wbC, Core.wbC, hmm, hwb]
  have hmem : (c.step chip i).mem = c.memWritten chip := rfl
  rw [Core.memWritten, Core.dWordAddr, hdata, hmem, hmm]
  by_cases hs : (!c.mm.wrmem && !c.mm.aVal) = true
  · rw [if_pos hs, Core.memWritten, if_pos hs, Core.dWordAddr, Function.update_self,
      writeLanes_twice, Function.update_idem]
  · rw [if_neg hs]

/-- A cycle of the memories' wait states changes nothing that the sequential
machine sees: the registers of the stages are held, and what is written is written
again. -/
theorem held (h : Follows chip s f c) (hm : c.memStall i = true) :
    Follows chip s f (c.step chip i) := by
  obtain ⟨hpc, hrf, hex, hmm, hwb⟩ := @step_held chip _ _ hm
  have hpatch := patched_of_wb hwb
  have hmmW : ∀ r, (c.step chip i).mmWrites r = c.mmWrites r := by
    intro r
    rw [Core.mmWrites, Core.mmWrites, hmm]
  exact
    { ordered := h.ordered, instr := by rw [hrf, h.instr], pcIncd := by rw [hrf, h.pcIncd],
      npc := by rw [hpc, h.npc], quiet := by rw [hmm]; exact h.quiet,
      noError := by rw [hmm, h.noError],
      noAnnul := by
        show (c.nullify i || c.mm.addrError) = false
        rw [Core.nullify_quiet h.quiet, h.noError]
        rfl,
      noKill := Core.nullifyMMPre_quiet h.quiet,
      exLive := by rw [hex]; exact h.exLive,
      exIdle := by rw [hex]; exact h.exIdle,
      exBubble := by rw [hex]; exact h.exBubble,
      exA := by rw [hex, hpatch]; exact h.exA,
      exB := by rw [hex, hpatch]; exact h.exB,
      mmLive := by rw [hmm]; exact h.mmLive,
      mmIdle := by rw [hmm]; exact h.mmIdle,
      mmB := by rw [hmm, hpatch]; exact h.mmB,
      loads := by
        rw [hmm, hex, hmmW, hmmW]
        exact h.loads,
      regs := fun r hr => by
        rw [hpatch]
        show c.patched r (c.regFileWritten r) = _
        rw [regFileWritten_eq, patched_twice]
        exact h.regs r hr,
      mem := (memWritten_held hm).trans h.mem,
      hi := by
        rw [hex]
        show _ ∨ c.hiWritten chip i = _
        rw [Core.hiWritten, h.annulTwice_eq]
        by_cases hw : writesHI c.ex.oper = true
        · exact Or.inl hw
        · rw [eq_false_of_ne_true hw]
          exact Or.inr (h.hi.resolve_left hw),
      lo := by
        rw [hex]
        show _ ∨ c.loWritten chip i = _
        rw [Core.loWritten, h.annulTwice_eq]
        by_cases hw : writesLO c.ex.oper = true
        · exact Or.inl hw
        · rw [eq_false_of_ne_true hw]
          exact Or.inr (h.lo.resolve_left hw),
      link := by
        rw [hmm]
        show (c.nextLLbit = _ ∧ (if _ then _ else _) = _) ∨
          (_ ∧ c.nextLLbit = true ∧ (if _ then _ else _) = _)
        rw [Core.llUpdate_quiet h.quiet, Core.nextLLbit_quiet h.quiet]
        by_cases hll : c.mm.exception = .exLL
        · rw [hll]
          exact Or.inr ⟨rfl, rfl, rfl⟩
        · rw [beq_eq_false_iff_ne.mpr hll]
          exact Or.inl (h.link.resolve_right fun hr => hll hr.1) }

/-- A cycle without wait states: each instruction moves on, and RF sends a bubble
when a hazard holds it. -/
theorem moves (h : Follows chip s f c) (hs : ∀ k, s (k + 1) = (s k).exec chip (answers k))
    (hc : Core.Calm i c) (hm : c.memStall i = false) (hslip : ¬Core.Slips f i c)
    (hans : f.ex = f.mm + 1 → answers f.mm = c.mmCop0Val i) :
    Follows chip s (f.step false (c.hazard i)) (c.step chip i) := by
  have hx := exSound_of hm hslip
  have hex : (c.step chip i).ex = c.toEX i := if_neg (by rw [hm]; decide)
  have hmm : (c.step chip i).mm = c.toMM chip i := if_neg (by rw [hm]; decide)
  have hwb := @wb_step chip _ _ hm
  have hdec : c.dec i = (s f.rf).dec := h.dec_eq
  have hmmW : ∀ r, (c.step chip i).mmWrites r = c.exWrites i r := by
    intro r
    rw [Core.mmWrites, hmm]
    rfl
  have hmem : (c.step chip i).mem = (s f.ex).mem := h.mem
  have hpipe : c.pipeStall i = c.hazard i := by rw [Core.pipeStall, hm, Bool.false_or]
  have hstall : (c.step chip i).rf = if c.hazard i then c.rf else c.toRF chip := by
    rw [← hpipe]
    rfl
  have hpcs : (c.step chip i).pc = if c.hazard i then c.pc else c.pcInp i := by
    rw [← hpipe]
    rfl
  have hord := h.ordered.step false (c.hazard i)
  -- the instruction that RF holds next
  have hnext : c.hazard i = false → (c.toRF chip).instr = (s (f.rf + 1)).instr ∧
      (c.toRF chip).pcIncd = (s (f.rf + 1)).pc + 4 ∧ c.pcInp i = (s (f.rf + 1)).npc := by
    intro hz
    have hr := rfSound_of hm hz hslip
    refine ⟨?_, ?_, ?_⟩
    · show c.instrFetched chip = _
      rw [Core.instrFetched, hc.2, h.noError, hs, h.npc]
      rfl
    · rw [hs]
      exact h.pcIncd_eq hc.2
    · rw [hs]
      exact h.pcInp_eq hs hc.2 hans hx hr
  -- EX holds an instruction next exactly when RF moves on
  have hlive : (f.step false (c.hazard i)).rf = (f.step false (c.hazard i)).ex + 1 →
      c.hazard i = false := by
    intro hl
    by_contra hz
    rw [Bool.not_eq_false] at hz
    rw [hz] at hl
    exact absurd hl (Nat.ne_of_lt (Nat.lt_succ_self f.rf))
  have hidle : (f.step false (c.hazard i)).rf = (f.step false (c.hazard i)).ex →
      c.hazard i = true := by
    intro hl
    by_contra hz
    rw [Bool.not_eq_true] at hz
    rw [hz] at hl
    exact absurd hl (Nat.succ_ne_self f.rf)
  exact
    { ordered := hord,
      instr := by
        rw [hstall]
        cases hz : c.hazard i with
        | true => exact h.instr
        | false => exact (hnext hz).1,
      pcIncd := by
        rw [hstall]
        cases hz : c.hazard i with
        | true => exact h.pcIncd
        | false => exact (hnext hz).2.1,
      npc := by
        rw [hpcs]
        cases hz : c.hazard i with
        | true => exact h.npc
        | false => exact (hnext hz).2.2,
      quiet := by rw [hmm]; exact hc.1,
      noError := by rw [hmm]; exact hc.ex.2.1,
      noAnnul := by
        show (c.nullify i || c.mm.addrError) = false
        rw [Core.nullify_quiet h.quiet, h.noError]
        rfl,
      noKill := Core.nullifyMMPre_quiet h.quiet,
      exLive := fun hl => by
        rw [hex]
        exact h.toEX_holds hm (hlive hl),
      exIdle := fun hl => by
        rw [hex]
        exact toEX_idle (hidle hl),
      exBubble := fun hl => by
        rw [hex, hidle hl]
        show (writesHI (c.dec i).sig.oper = true → _) ∧ (writesLO (c.dec i).sig.oper = true → _)
        rw [hdec]
        exact ⟨id, id⟩,
      exA := fun _ => by
        rw [hex]
        exact h.patched_step hs hm hans (h.readReg_eq _),
      exB := fun _ => by
        rw [hex]
        exact h.patched_step hs hm hans (h.readReg_eq _),
      mmLive := fun hl => by
        rw [hmm]
        exact h.toMM_holds hs hc hl hans (hx hl),
      mmIdle := fun hl => by
        rw [hmm]
        exact h.toMM_idle hc hl,
      mmB := fun hl hd => by
        rw [hmm]
        show (c.step chip i).patched c.ex.aRt (c.aluFwdB i) = _
        rw [(h.exLive hl).aRt]
        exact h.datum_step hs hm hl hans (hx hl) hd,
      loads := fun hl hload => by
        -- a load in EX would have held its reader in RF
        have hz := hlive hl
        simp only [Core.hazard, Bool.or_eq_false_iff] at hz
        have hlw := hz.1.1.2
        rw [hmm] at hload
        rw [hex, hmmW, hmmW]
        rw [Core.lwStall, show c.ex.isLoad = true from hload, Bool.true_and,
          Bool.or_eq_false_iff] at hlw
        exact hlw,
      regs := fun r hr => by
        have := h.patched_step hs hm hans
          (show c.regFileWritten r = (s f.mm).reg r by
            rw [regFileWritten_eq, h.regs r hr, Seq.reg, if_neg hr])
        rw [Seq.reg, if_neg hr] at this
        exact this,
      mem := by
        show _ = (s f.rf).mem
        rcases h.ordered.ex with hi | hl
        · rw [memWritten_idle (by rw [hmm]; exact h.toMM_idle hc hi), hmem, hi]
        · have hd : (s f.ex).datum = true →
              (c.step chip i).patched (c.step chip i).mm.aRt (c.step chip i).mm.regB =
                (s f.ex).opB := by
            intro hd
            rw [hmm]
            show (c.step chip i).patched c.ex.aRt (c.aluFwdB i) = _
            rw [(h.exLive hl).aRt]
            exact h.datum_step hs hm hl hans (hx hl) hd
          rw [memWritten_live (by rw [hmm]; exact h.toMM_holds hs hc hl hans (hx hl)) hmem hd, hl,
            hs]
          rfl,
      hi := by
        rw [hex]
        show writesHI (c.dec i).sig.oper = true ∨ c.hiWritten chip i = (s f.rf).hi
        rw [hdec]
        exact h.hilo_step hs hans hx inpHI_congr (fun _ _ => rfl)
          (fun hi => (h.exBubble hi).1) h.hi,
      lo := by
        rw [hex]
        show writesLO (c.dec i).sig.oper = true ∨ c.loWritten chip i = (s f.rf).lo
        rw [hdec]
        exact h.hilo_step hs hans hx inpLO_congr (fun _ _ => rfl)
          (fun hi => (h.exBubble hi).2) h.lo,
      link := Or.inl (h.link_step hs) }

end Xinu.Cpu.Follows
