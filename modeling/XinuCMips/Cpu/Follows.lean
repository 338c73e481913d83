import XinuCMips.Cpu.Hazards
import XinuCMips.Lib.InOrder

/-!
# The pipeline follows the sequential machine

The invariant that relates the core to the run of the sequential machine: the
counters say which instruction each stage holds, the latches of a stage hold
what the decoder and the sequential state give for that instruction, and the
register bank, the data memory, HI, LO and the link are those of the sequential
state that the stage which writes them has reached.
-/

namespace Xinu.Cpu

open InOrder

/-- A register latched earlier as `v`, as WB's result corrects it. -/
def Core.patched (c : Core) (r : Reg) (v : Word) : Word := if c.wbWrites r then c.wbC else v

/-- RF has sent the next instruction of `s` to EX. -/
structure ExHolds (s : Seq) (x : RegRFEX) : Prop where
  selB : x.selB = s.dec.sig.selB
  oper : x.oper = s.dec.sig.oper
  aRs : x.aRs = s.dec.aRs
  aRt : x.aRt = s.dec.aRt
  aC : x.aC = s.dec.aC
  wreg : x.wreg = s.dec.sig.wreg
  muxC : x.muxC = s.dec.sig.muxC
  move : x.move = s.dec.move
  postn : x.postn = s.dec.aRd
  shamt : x.shamt = s.dec.shamt
  aVal : x.aVal = s.dec.ctrl.aVal
  wrmem : x.wrmem = s.dec.ctrl.wmem
  memT : x.memT = s.dec.memT
  isLoad : x.isLoad = s.dec.isLoad
  displ32 : x.displ32 = s.dec.displ32
  pcP8 : x.pcP8 = s.pc + 8
  exception : x.exception = s.dec.sig.exception

/-- RF has sent a bubble to EX. -/
structure ExIdle (x : RegRFEX) : Prop where
  wreg : x.wreg = true
  aVal : x.aVal = true
  wrmem : x.wrmem = true
  exception : x.exception = .exNOP

/-- EX has executed the next instruction of `s`. -/
structure MmHolds (chip : Chip) (s : Seq) (x : RegEXMM) : Prop where
  aRt : x.aRt = s.dec.aRt
  aC : x.aC = s.dec.aC
  wreg : x.wreg = s.dec.sig.wreg
  muxC : x.muxC = s.dec.sig.muxC
  memT : x.memT = s.dec.memT
  isLoad : x.isLoad = s.dec.isLoad
  move : x.move = s.dec.move
  pcP8 : x.pcP8 = s.pc + 8
  exception : x.exception = s.dec.sig.exception
  aVal : x.aVal = (s.dec.ctrl.aVal || (s.isSC && !s.scOk))
  wrmem : x.wrmem = (s.dec.ctrl.wmem || (s.isSC && !s.scOk))
  isSC : x.isSC = s.isSC
  isMFC0 : x.isMFC0 = (s.dec.sig.exception == .exMFC0)
  llScAbort : s.isSC = true → x.llScAbort = !s.scOk
  moveOk : s.dec.move = true → x.aluMoveOk = aluMoveOk s.dec.sig.oper s.inB
  result : x.result = s.aluResult chip
  hi : s.dec.sig.oper = .opMFHI → x.hi = s.hi
  lo : s.dec.sig.oper = .opMFLO → x.lo = s.lo
  addr : s.dec.ctrl.aVal = false → x.addr = s.addr
  vAddr : s.dec.ctrl.aVal = false → x.vAddr = s.addr

/-- MEM holds a bubble. -/
structure MmIdle (x : RegEXMM) : Prop where
  wreg : x.wreg = true
  aVal : x.aVal = true
  wrmem : x.wrmem = true
  exception : x.exception = .exNOP

/-- The operand in rt is for the data bus: a datum to store, or the register that
LWL and LWR merge into. -/
def Seq.datum (s : Seq) : Bool :=
  !s.dec.ctrl.aVal && (!s.dec.ctrl.wmem || s.dec.memT.getLsbD 3)

/-- The core follows the sequential run `s` with the counters `f`. -/
structure Follows (chip : Chip) (s : Nat → Seq) (f : Flight) (c : Core) : Prop where
  ordered : f.Ordered
  instr : c.rf.instr = (s f.rf).instr
  pcIncd : c.rf.pcIncd = (s f.rf).pc + 4
  npc : c.pc = (s f.rf).npc
  quiet : quietException c.mm.exception = true
  noError : c.mm.addrError = false
  noAnnul : c.annul2 = false
  noKill : c.nullifyMMInt = false
  exLive : f.rf = f.ex + 1 → ExHolds (s f.ex) c.ex
  exIdle : f.rf = f.ex → ExIdle c.ex
  /-- a bubble keeps the ALU operation of the instruction held in RF -/
  exBubble : f.rf = f.ex →
    (writesHI c.ex.oper = true → writesHI (s f.rf).dec.sig.oper = true) ∧
    (writesLO c.ex.oper = true → writesLO (s f.rf).dec.sig.oper = true)
  exA : f.rf = f.ex + 1 → c.patched c.ex.aRs c.ex.regA = (s f.mm).reg c.ex.aRs
  exB : f.rf = f.ex + 1 → c.patched c.ex.aRt c.ex.regB = (s f.mm).reg c.ex.aRt
  mmLive : f.ex = f.mm + 1 → MmHolds chip (s f.mm) c.mm
  mmIdle : f.ex = f.mm → MmIdle c.mm
  mmB : f.ex = f.mm + 1 → (s f.mm).datum = true → c.patched c.mm.aRt c.mm.regB = (s f.mm).opB
  /-- no load in MEM feeds the instruction in EX -/
  loads : f.rf = f.ex + 1 → c.mm.isLoad = true →
    c.mmWrites c.ex.aRs = false ∧ c.mmWrites c.ex.aRt = false
  regs : ∀ r, r ≠ 0 → c.patched r (c.regFile r) = (s f.mm).regs r
  mem : c.memWritten chip = (s f.ex).mem
  hi : writesHI c.ex.oper = true ∨ c.hi = (s f.ex).hi
  lo : writesLO c.ex.oper = true ∨ c.lo = (s f.ex).lo
  link : (c.llScBit = (s f.mm).llBit ∧ c.llAddr = (s f.mm).llAddr) ∨
    (c.mm.exception = .exLL ∧ c.llScBit = true ∧ c.llAddr = c.mm.vAddr)

namespace Follows

variable {chip : Chip} {i : Inputs} {c : Core} {s : Nat → Seq} {f : Flight}
  {answers : Nat → Word}

-- ---------------------------------------------------------------------------
-- What the stages write
-- ---------------------------------------------------------------------------

theorem mmWrites_live (h : Follows chip s f c) (hl : f.ex = f.mm + 1) (r : Reg) :
    c.mmWrites r = (s f.mm).names r := by
  have hm := h.mmLive hl
  rw [Core.mmWrites, Seq.names, hm.wreg, hm.aC]

theorem mmWrites_idle (h : Follows chip s f c) (hi : f.ex = f.mm) (r : Reg) :
    c.mmWrites r = false := by
  rw [Core.mmWrites, (h.mmIdle hi).wreg]
  rfl

theorem mm_live_of_writes (h : Follows chip s f c) {r : Reg} (hw : c.mmWrites r = true) :
    f.ex = f.mm + 1 := by
  rcases h.ordered.mm with hi | hl
  · rw [h.mmWrites_idle hi] at hw
    cases hw
  · exact hl

theorem exWreg (h : Follows chip s f c) : c.exWreg i = c.ex.wreg := by
  rw [Core.exWreg, Core.nullify_quiet h.quiet, Bool.false_and, Bool.or_false]

theorem exWrites_live (h : Follows chip s f c) (hl : f.rf = f.ex + 1) (r : Reg) :
    c.exWrites i r = (s f.ex).names r := by
  have hx := h.exLive hl
  rw [Core.exWrites, Seq.names, h.exWreg, hx.wreg, hx.aC]

theorem exWrites_idle (h : Follows chip s f c) (hi : f.rf = f.ex) (r : Reg) :
    c.exWrites i r = false := by
  rw [Core.exWrites, h.exWreg, (h.exIdle hi).wreg]
  rfl

theorem ex_live_of_writes (h : Follows chip s f c) {r : Reg} (hw : c.exWrites i r = true) :
    f.rf = f.ex + 1 := by
  rcases h.ordered.ex with hi | hl
  · rw [h.exWrites_idle hi] at hw
    cases hw
  · exact hl

-- ---------------------------------------------------------------------------
-- Registers
-- ---------------------------------------------------------------------------

/-- The register bank with WB's result is that of the instruction in MEM. -/
theorem readReg_eq (h : Follows chip s f c) (r : Reg) : c.readReg r = (s f.mm).reg r := by
  unfold Core.readReg Seq.reg
  by_cases hr : r = 0
  · subst hr
    rw [if_pos rfl]
    simp only [bne_self_eq_false, Bool.and_false, Bool.false_eq_true, if_false]
  · have hp := h.regs r hr
    have hr' : (r != 0) = true := bne_iff_ne.mpr hr
    rw [if_neg hr, ← hp, Core.patched, Core.wbWrites, hr', if_pos rfl, Bool.and_true]
    by_cases hw : c.wb.aC = r
    · subst hw
      rw [hr', Bool.and_true, Bool.and_comm]
    · rw [beq_eq_false_iff_ne.mpr hw, Bool.and_false, Bool.false_and]

section Moving

variable (hs : ∀ k, s (k + 1) = (s k).exec chip (answers k))
include hs

/-- A register that MEM does not name is the same behind it. -/
theorem reg_behind_mm (h : Follows chip s f c) {r : Reg} (hw : c.mmWrites r = false) :
    (s f.ex).reg r = (s f.mm).reg r := by
  rcases h.ordered.mm with hi | hl
  · rw [hi]
  · rw [h.mmWrites_live hl] at hw
    rw [hl, hs]
    exact Seq.reg_exec_of_not chip _ _ (by rw [hw, Bool.false_and])

/-- A register that EX does not name is the same behind it. -/
theorem reg_behind_ex (h : Follows chip s f c) {r : Reg} (hw : c.exWrites i r = false) :
    (s f.rf).reg r = (s f.ex).reg r := by
  rcases h.ordered.ex with hi | hl
  · rw [hi]
  · rw [h.exWrites_live hl] at hw
    rw [hl, hs]
    exact Seq.reg_exec_of_not chip _ _ (by rw [hw, Bool.false_and])

/-- The forwarding from MEM brings what the instruction in MEM leaves, unless it
is a load or one of the kinds whose value is elsewhere. -/
theorem forwarded (h : Follows chip s f c) {r : Reg} (hw : c.mmWrites r = true)
    (hans : f.ex = f.mm + 1 → answers f.mm = c.mmCop0Val i)
    (hu : c.unforwarded = false) (hmem : c.mm.muxC ≠ .mem) :
    (if c.mm.isMFC0 then c.mmCop0Val i
      else if c.mm.isSC then flagWord !c.mm.llScAbort else c.mm.result) = (s f.ex).reg r := by
  have hl := h.mm_live_of_writes hw
  have hm := h.mmLive hl
  have hnames : (s f.mm).names r = true := by rw [← h.mmWrites_live hl, hw]
  -- the move, if it is one, is made
  have hmoved : (s f.mm).unmoved = false := by
    simp only [Core.unforwarded, hm.move, Bool.or_eq_false_iff] at hu
    cases hmv : (s f.mm).dec.move with
    | false => simp [Seq.unmoved, hmv]
    | true =>
      have := hu.1.1
      rw [hmv, hm.moveOk hmv] at this
      rw [Seq.unmoved, hmv]
      exact this
  rw [hl, hs, Seq.reg_exec chip _ _ hnames hmoved]
  have hmux := hm.muxC
  have hmfc := hm.isMFC0
  have hsc := hm.isSC
  have hplain : (s f.mm).dec.sig.muxC ≠ .cop0 → (s f.mm).dec.sig.muxC ≠ .llbit →
      (if c.mm.isMFC0 then c.mmCop0Val i
        else if c.mm.isSC then flagWord !c.mm.llScAbort else c.mm.result) = c.mm.result := by
    intro hc hll
    have h1 : c.mm.isMFC0 = false := by
      rw [hmfc, beq_eq_false_iff_ne]
      exact fun he => hc ((s f.mm).sound.mfc0 he)
    have h2 : c.mm.isSC = false := by
      rw [hsc, ← Bool.not_eq_true, Seq.isSC_iff_llbit]
      exact hll
    rw [h1, h2]
    rfl
  simp only [Core.unforwarded, hmux, Bool.or_eq_false_iff] at hu
  rw [Seq.value]
  -- by the source of the value
  cases hx : (s f.mm).dec.sig.muxC with
  | mem => exact absurd (hmux.trans hx) hmem
  | ula => exact (hplain (by rw [hx]; decide) (by rw [hx]; decide)).trans hm.result
  | pc8 =>
    rw [hx] at hu
    exact absurd hu.1.2 (by decide)
  | hi =>
    have ho : (s f.mm).dec.sig.oper = .opMFHI := (s f.mm).sound.hi hx
    rw [hplain (by rw [hx]; decide) (by rw [hx]; decide), hm.result, Seq.aluResult, ho]
    rfl
  | lo =>
    have ho : (s f.mm).dec.sig.oper = .opMFLO := (s f.mm).sound.lo hx
    rw [hplain (by rw [hx]; decide) (by rw [hx]; decide), hm.result, Seq.aluResult, ho]
    rfl
  | cop0 =>
    rw [hx] at hu
    have h1 : c.mm.isMFC0 = true := by simpa using hu.2
    rw [if_pos h1]
    exact (hans hl).symm
  | llbit =>
    have hs : (s f.mm).isSC = true := (s f.mm).isSC_iff_llbit.mpr hx
    have h1 : c.mm.isMFC0 = false := by rw [hmfc, (s f.mm).isSC_iff.mp hs]; rfl
    have h2 : c.mm.isSC = true := hsc.trans hs
    rw [h1, h2, hm.llScAbort hs, Bool.not_not]
    rfl

-- ---------------------------------------------------------------------------
-- The operands in EX
-- ---------------------------------------------------------------------------

/-- The forwarding muxes of the ALU bring the register of the sequential machine. -/
theorem fwdALU_eq (h : Follows chip s f c)
    (hans : f.ex = f.mm + 1 → answers f.mm = c.mmCop0Val i) {r : Reg} {v : Word}
    (hv : c.patched r v = (s f.mm).reg r) (hslip : c.aluSlip r = false)
    (hload : c.mm.isLoad = true → c.mmWrites r = false) :
    c.fwdALU i r v = (s f.ex).reg r := by
  unfold Core.fwdALU
  by_cases hw : c.mmWrites r = true
  · rw [if_pos hw]
    simp only [Core.aluSlip, hw, Bool.true_and, Bool.or_eq_false_iff, Core.linkedLoad] at hslip
    refine h.forwarded hs hw hans hslip.1 fun hx => ?_
    -- a load would have held the instruction in RF
    have hl : c.mm.isLoad = true := by simpa [hx] using hslip.2
    rw [hload hl] at hw
    cases hw
  · rw [if_neg hw]
    exact hv.trans (h.reg_behind_mm hs (by simpa using hw)).symm

/-- EX takes its operands from the right places in this cycle. -/
structure ExSound (c : Core) : Prop where
  slips : c.exSlips = false
  link : c.scSlips = false

theorem aluInpA_eq (h : Follows chip s f c) (hl : f.rf = f.ex + 1)
    (hans : f.ex = f.mm + 1 → answers f.mm = c.mmCop0Val i) (hx : ExSound c)
    (hreads : readsA (s f.ex).dec.sig.oper = true) : c.aluInpA i = (s f.ex).opA := by
  have he := h.exLive hl
  have hslip : c.aluSlip c.ex.aRs = false := by
    have := hx.slips
    simp only [Core.exSlips, he.oper, hreads, Bool.true_and, Bool.or_eq_false_iff] at this
    exact this.1.1
  have := h.fwdALU_eq hs hans (h.exA hl) hslip (fun hload => (h.loads hl hload).1)
  rw [Core.aluInpA, this, he.aRs]
  rfl

theorem aluFwdB_eq (h : Follows chip s f c) (hl : f.rf = f.ex + 1)
    (hans : f.ex = f.mm + 1 → answers f.mm = c.mmCop0Val i) (hx : ExSound c)
    (hreads : readsB (s f.ex).dec.sig.oper = true) (hsel : (s f.ex).dec.sig.selB = false) :
    c.aluFwdB i = (s f.ex).opB := by
  have he := h.exLive hl
  have hslip : c.aluSlip c.ex.aRt = false := by
    have := hx.slips
    simp only [Core.exSlips, he.oper, he.selB, hreads, hsel, Bool.not_false, Bool.true_and,
      Bool.or_eq_false_iff] at this
    exact this.1.2
  have := h.fwdALU_eq hs hans (h.exB hl) hslip (fun hload => (h.loads hl hload).2)
  rw [Core.aluFwdB, this, he.aRt]
  rfl

theorem aluInpB_eq (h : Follows chip s f c) (hl : f.rf = f.ex + 1)
    (hans : f.ex = f.mm + 1 → answers f.mm = c.mmCop0Val i) (hx : ExSound c)
    (hreads : readsB (s f.ex).dec.sig.oper = true) : c.aluInpB i = (s f.ex).inB := by
  have he := h.exLive hl
  rw [Core.aluInpB, Seq.inB, he.selB, he.displ32]
  cases hsel : (s f.ex).dec.sig.selB with
  | true => rfl
  | false => exact h.aluFwdB_eq hs hl hans hx hreads hsel

theorem vAddr_eq (h : Follows chip s f c) (hl : f.rf = f.ex + 1)
    (hans : f.ex = f.mm + 1 → answers f.mm = c.mmCop0Val i) (hx : ExSound c)
    (hbus : (s f.ex).dec.ctrl.aVal = false) : c.vAddr i = (s f.ex).addr := by
  have hoper : (s f.ex).dec.sig.oper = .opADD := ((s f.ex).sound.bus hbus).2.1
  rw [Core.vAddr, h.aluInpA_eq hs hl hans hx (by rw [hoper]; rfl), (h.exLive hl).displ32]
  rfl

/-- The ALU computes the result of the sequential machine. -/
theorem result_eq (h : Follows chip s f c) (hl : f.rf = f.ex + 1)
    (hans : f.ex = f.mm + 1 → answers f.mm = c.mmCop0Val i) (hx : ExSound c) :
    c.result chip i = (s f.ex).aluResult chip := by
  have he := h.exLive hl
  rw [Core.result, Seq.aluResult, ← he.oper, ← he.postn, ← he.shamt]
  refine aluC_congr _ _ (fun hr => ?_) (fun hr => ?_) (fun ho => ?_) (fun ho => ?_)
  · exact h.aluInpA_eq hs hl hans hx (he.oper ▸ hr)
  · exact h.aluInpB_eq hs hl hans hx (he.oper ▸ hr)
  · exact h.hi.resolve_left (by rw [ho]; decide)
  · exact h.lo.resolve_left (by rw [ho]; decide)

/-- SC sees the link of the sequential machine. -/
theorem llScAbort_eq (h : Follows chip s f c) (hl : f.rf = f.ex + 1)
    (hans : f.ex = f.mm + 1 → answers f.mm = c.mmCop0Val i) (hx : ExSound c)
    (hsc : (s f.ex).isSC = true) : c.llScAbort i = !(s f.ex).scOk := by
  have he := h.exLive hl
  have hx' : c.ex.exception = .exSC := he.exception.trans ((s f.ex).isSC_iff.mp hsc)
  have haddr := h.vAddr_eq hs hl hans hx ((s f.ex).bus_of_isSC hsc)
  -- the link that the core holds is the one that the instruction in MEM leaves
  have hlink : c.llScBit = (s f.ex).llBit ∧ c.llAddr = (s f.ex).llAddr := by
    by_cases hll : c.mm.exception = .exLL
    · have hseen : c.llScBit = true ∧ c.llAddr = c.mm.vAddr := by
        have := hx.link
        simpa [Core.scSlips, Core.isSC, hx', hll] using this
      rcases h.ordered.mm with hidle | hlive
      · rw [(h.mmIdle hidle).exception] at hll
        cases hll
      · have hm := h.mmLive hlive
        have hll' : (s f.mm).dec.sig.exception = .exLL := hm.exception.symm.trans hll
        have hv := hm.vAddr ((s f.mm).sound.ll hll').2
        rw [hlive, hs, hseen.1, hseen.2, hv]
        simp [Seq.exec, Seq.isLL, hll']
    · have hkept := h.link.resolve_right (fun hr => hll hr.1)
      rcases h.ordered.mm with hidle | hlive
      · rw [hidle]
        exact hkept
      · have hll' : (s f.mm).isLL = false := by
          rw [Seq.isLL, ← (h.mmLive hlive).exception, beq_eq_false_iff_ne]
          exact hll
        rw [hlive, hs]
        simpa [Seq.exec, hll'] using hkept
  rw [Core.llScAbort, hx', haddr, hlink.1, hlink.2, Seq.scOk]
  simp [bne, Bool.or_comm]

end Moving

end Follows

end Xinu.Cpu
