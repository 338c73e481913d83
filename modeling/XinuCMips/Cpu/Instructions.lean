import XinuCMips.Cpu.Sequential

/-!
# Single instructions

What one step of the machine leaves in the destination register of an instruction
whose result is the ALU's, and in HI and LO. An instruction is named by its
opcode and its function field; its row in the tables says the rest.
-/

namespace Xinu.Cpu

namespace Seq

variable (chip : Chip) (s : Seq)

/-- The instruction is the one of `func_table` under the function field `n`. -/
def Special (n : BitVec 6) : Prop := fieldOpcode s.instr = 0 ∧ fieldFunc s.instr = n

/-- The instruction has the special3 opcode and the function field `n`. -/
def Special3 (n : BitVec 6) : Prop := fieldOpcode s.instr = 31 ∧ fieldFunc s.instr = n

/-- The immediate operand. -/
def imm : BitVec 16 := s.instr.extractLsb' 0 16

/-- The step leaves `v` in the register `r`, unless that is register 0. -/
def Delivers (r : Reg) (v : Word) : Prop := r ≠ 0 → ∀ answer, (s.exec chip answer).reg r = v

/-- A state in which the instruction `w` finds `a` in register 1 and `b` in the
other registers. -/
def operands (w a b : Word) : Seq :=
  { instr := w, pc := 0, npc := 4, regs := fun r => if r = 1 then a else b,
    hi := 0, lo := 0, mem := fun _ => 0, llBit := false, llAddr := 0 }

theorem operands_opA {w : Word} (h : fieldRs w = 1) (a b : Word) :
    (operands w a b).opA = a := by
  have hrs : (operands w a b).dec.aRs = 1 := h
  rw [opA, reg, hrs, if_neg (by decide)]
  rfl

theorem operands_opB {w : Word} (h : fieldRt w = 2) (a b : Word) :
    (operands w a b).opB = b := by
  have hrt : (operands w a b).dec.aRt = 2 := h
  rw [opB, reg, hrt, if_neg (by decide)]
  rfl

variable {s}

/-- An instruction with the ALU's result and no condition delivers that result. -/
theorem delivers_ula {r : Reg} (hw : s.dec.sig.wreg = false) (hr : s.dec.aC = r)
    (hm : s.dec.sig.muxC = .ula) (hv : s.dec.move = false) :
    s.Delivers chip r (s.aluResult chip) := by
  intro h0 answer
  have hn : s.names r = true := by
    simp only [names, hw, hr, Bool.not_false, Bool.true_and, beq_self_eq_true, Bool.and_true,
      bne_iff_ne]
    exact h0
  have hu : s.unmoved = false := by simp only [unmoved, hv, Bool.false_and]
  rw [reg_exec chip s answer hn hu]
  simp only [value, hm]

/-- The operation, the second operand and the destination of an instruction of
`func_table` are those of its row. -/
theorem Special.decoded {n : BitVec 6} (h : s.Special n) :
    s.dec.sig.wreg = (funcTable n).wreg ∧ s.dec.sig.selB = (funcTable n).selB ∧
      s.dec.sig.oper = (funcTable n).oper ∧ s.dec.sig.muxC = (funcTable n).muxC ∧
      s.dec.aC = fieldRd s.instr ∧ s.dec.move = (funcTable n).move := by
  have hsig : s.dec.sig = decodeFunct 0 s.instr := by simp only [dec, decode, h.1]
  have hfun : functWord 0 s.instr = funcTable n := by simp only [functWord, h.2, if_true]
  refine ⟨?_, ?_, ?_, ?_, ?_, ?_⟩
  · rw [hsig]; simp only [decodeFunct, hfun]; rfl
  · rw [hsig]; simp only [decodeFunct, hfun]; rfl
  · rw [hsig]; simp only [decodeFunct, hfun]; rfl
  · rw [hsig]; simp only [decodeFunct, hfun]; rfl
  · simp only [dec, decode, h.1]; rfl
  · simp only [dec, decode, h.1, hfun, if_true]

/-- An instruction of `func_table` with two register operands delivers what the
ALU makes of them. -/
theorem Special.delivers {n : BitVec 6} (h : s.Special n) (hw : (funcTable n).wreg = false)
    (hb : (funcTable n).selB = false) (hm : (funcTable n).muxC = .ula)
    (hv : (funcTable n).move = false) :
    s.Delivers chip (fieldRd s.instr)
      (aluC chip.undef (funcTable n).oper s.opA s.opB (fieldRd s.instr) (fieldShamt s.instr)
        s.hi s.lo) := by
  obtain ⟨hwreg, hsel, hoper, hmux, hdest, hmove⟩ := h.decoded
  have hd := delivers_ula chip (hwreg.trans hw) hdest (hmux.trans hm) (hmove.trans hv)
  have hin : s.inB = s.opB := by simp only [inB, hsel, hb, Bool.not_false, if_true]
  rw [aluResult, hoper, hin] at hd
  exact hd

/-- What an instruction of `func_table` with two register operands leaves in HI
and LO. -/
theorem Special.hilo {n : BitVec 6} (h : s.Special n) (hb : (funcTable n).selB = false)
    (hhi : writesHI (funcTable n).oper = true) (hlo : writesLO (funcTable n).oper = true)
    (answer : Word) :
    (s.exec chip answer).hi = inpHI chip.undef (funcTable n).oper s.opA s.opB ∧
      (s.exec chip answer).lo = inpLO chip.undef (funcTable n).oper s.opA s.opB := by
  obtain ⟨-, hsel, hoper, -, -, -⟩ := h.decoded
  have hin : s.inB = s.opB := by simp only [inB, hsel, hb, Bool.not_false, if_true]
  constructor
  · simp only [exec, hoper, hhi, hin, if_true]
  · simp only [exec, hoper, hlo, hin, if_true]

/-- The immediate, sign-extended, is the displacement of an instruction whose row
extends signs. -/
theorem displ32_eq (h : s.dec.ctrl.extS = true) : s.dec.displ32 = s.imm.signExtend 32 := by
  have hc : (ctrlTable (fieldOpcode s.instr)).extS = true := h
  simp only [dec, decode, imm, hc, Bool.and_true]
  have hmsb : (s.instr.extractLsb' 0 16).msb = s.instr.getLsbD 15 := by
    simp [BitVec.msb_eq_getLsbD_last]
  rw [BitVec.signExtend_eq_append_of_le (by omega), hmsb]
  cases s.instr.getLsbD 15 <;> rfl

/-- SLTI and SLTIU deliver the comparison of rs with the immediate. -/
theorem delivers_slti {op : BitVec 6} (hop : op = 10 ∨ op = 11) (h : fieldOpcode s.instr = op) :
    s.Delivers chip (fieldRt s.instr)
      (aluC chip.undef (ctrlTable op).oper s.opA (s.imm.signExtend 32) (fieldRd s.instr)
        (fieldShamt s.instr) s.hi s.lo) := by
  have hd : s.dec = decode op s.instr := by rw [dec, h]
  have hdispl : s.dec.displ32 = s.imm.signExtend 32 := by
    apply displ32_eq
    rw [hd]
    obtain rfl | rfl := hop <;> rfl
  have hu : s.Delivers chip (fieldRt s.instr) (s.aluResult chip) := by
    apply delivers_ula chip <;> rw [hd] <;> obtain rfl | rfl := hop <;> rfl
  have hin : s.inB = s.imm.signExtend 32 := by
    rw [← hdispl, inB, hd]
    obtain rfl | rfl := hop <;> rfl
  have hoper : s.dec.sig.oper = (ctrlTable op).oper := by
    rw [hd]
    obtain rfl | rfl := hop <;> rfl
  rw [aluResult, hoper, hin] at hu
  rwa [hd] at hu

/-- EXT and INS deliver what the ALU makes of rs and rt, with the rd and shamt
fields as the positions. -/
theorem Special3.delivers {n : BitVec 6} (h : s.Special3 n) (hn : n = 0 ∨ n = 4) :
    s.Delivers chip (fieldRt s.instr)
      (aluC chip.undef (if n = 0 then .opEXT else .opINS) s.opA s.opB (fieldRd s.instr)
        (fieldShamt s.instr) s.hi s.lo) := by
  have hd : s.dec = decode 31 s.instr := by rw [dec, h.1]
  have hsp : special3Decode s.instr = (if n = 0 then .opEXT else .opINS, .rt, .exNOP) := by
    simp only [special3Decode, h.2]
    obtain rfl | rfl := hn <;> rfl
  have hsig : s.dec.sig = decodeFunct 31 s.instr := by rw [hd]; rfl
  have hdest : s.dec.aC = fieldRt s.instr := by
    rw [hd]
    simp only [decode, decodeFunct, hsp]
    rfl
  have hu : s.Delivers chip (fieldRt s.instr) (s.aluResult chip) := by
    apply delivers_ula chip _ hdest <;> rw [hd] <;> rfl
  have hin : s.inB = s.opB := by rw [inB, hd]; rfl
  have hoper : s.dec.sig.oper = if n = 0 then .opEXT else .opINS := by
    rw [hsig]
    simp only [decodeFunct, hsp]
    rfl
  rw [aluResult, hoper, hin] at hu
  rwa [hd] at hu

end Seq

end Xinu.Cpu
