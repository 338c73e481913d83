import XinuCMips.Cpu.Instructions

/-!
# Comparisons

Three circuits compare two words. SLT takes the sign of the difference and
corrects it when the subtraction overflows; the comparator of the traps takes the
sign of a 33-bit difference, whose operands are extended according to `sgnd`; SLTU
takes bit 31 of the 32-bit difference and corrects nothing. The first two are
right for all operands (`slt_exact`, `comparator_exact`). SLTU is right for
operands that are at most half of the range apart (`sltu_exact_iff`).
-/

namespace Xinu.Cpu

/-- The two ways of subtracting give the difference. -/
theorem add_not_add_one {w : Nat} (x y : BitVec w) : x + (~~~y + 1) = x - y := by
  have h : ~~~y + 1 = -y := (BitVec.neg_eq_not_add y).symm
  rw [h, BitVec.sub_eq_add_neg]

/-- Where two signed numbers have a difference within the range of the words, the
sign of the difference compares them. -/
theorem lt_of_difference {x y : BitVec 33} (hlo : -2 ^ 32 ≤ x.toInt - y.toInt)
    (hhi : x.toInt - y.toInt < 2 ^ 32) :
    (x - y).getLsbD 32 = decide (x.toInt < y.toInt) := by
  have hsub : (x - y).toInt = x.toInt - y.toInt := by
    rw [BitVec.toInt_sub]
    exact Int.bmod_eq_of_le (by omega) (by omega)
  have hmsb : (x - y).getLsbD 32 = (x - y).msb := by rw [BitVec.msb_eq_getLsbD_last]
  rw [hmsb, BitVec.msb_eq_toInt, hsub]
  simp only [decide_eq_decide]
  omega

/-- Whichever of its two top bits differs, the sign that is corrected on overflow
is the top one. -/
theorem corrected_eq (x : BitVec 33) :
    (if x.getLsbD 32 != x.getLsbD 31 then !(x.getLsbD 31) else x.getLsbD 31) = x.getLsbD 32 := by
  cases x.getLsbD 32 <;> cases x.getLsbD 31 <;> rfl

theorem toInt_signExtend_33 (a : Word) : (a.signExtend 33).toInt = a.toInt :=
  BitVec.toInt_signExtend_of_le (by omega)

theorem toInt_zeroExtend_33 (a : Word) : (a.zeroExtend 33).toInt = a.toNat := by
  have h : a.toNat < 2 ^ 32 := a.isLt
  rw [BitVec.toInt_eq_toNat_of_lt] <;> simp <;> omega

theorem setWidth_signExtend_33 (a : Word) : (a.signExtend 33).setWidth 32 = a := by
  ext i hi
  rw [BitVec.getElem_setWidth, BitVec.getLsbD_signExtend]
  simp [show i < 33 by omega, hi]

/-- The comparator of the traps is right, in both readings. -/
theorem comparator_exact (a b : Word) :
    subtr32Lt true a b = decide (a.toInt < b.toInt) ∧
      subtr32Lt false a b = decide (a.toNat < b.toNat) := by
  have ha : a.toNat < 2 ^ 32 := a.isLt
  have hb : b.toNat < 2 ^ 32 := b.isLt
  have ha' := a.le_toInt
  have hb' := b.le_toInt
  have ha'' := a.toInt_lt
  have hb'' := b.toInt_lt
  constructor
  · simp only [subtr32Lt, if_true, BitVec.add_assoc, add_not_add_one, corrected_eq]
    rw [lt_of_difference, toInt_signExtend_33, toInt_signExtend_33]
    all_goals rw [toInt_signExtend_33, toInt_signExtend_33]; omega
  · simp only [subtr32Lt, Bool.false_eq_true, if_false, BitVec.add_assoc, add_not_add_one,
      corrected_eq]
    rw [lt_of_difference, toInt_zeroExtend_33, toInt_zeroExtend_33]
    · simp only [Int.ofNat_lt]
    all_goals rw [toInt_zeroExtend_33, toInt_zeroExtend_33]; omega

/-- SLT is right. -/
theorem slt_exact (undef a b hi lo : Word) (postn shamt : Reg) :
    aluC undef .opSLT a b postn shamt hi lo = flagWord (decide (a.toInt < b.toInt)) := by
  have hbit : (a - b).getLsbD 31 = (a.signExtend 33 - b.signExtend 33).getLsbD 31 := by
    have htrunc : a - b = (a.signExtend 33 - b.signExtend 33).setWidth 32 := by
      rw [BitVec.sub_eq_add_neg, BitVec.sub_eq_add_neg, BitVec.setWidth_add _ _ (by omega),
        BitVec.setWidth_neg_of_le (by omega), setWidth_signExtend_33, setWidth_signExtend_33]
    rw [htrunc, BitVec.getLsbD_setWidth]
    rfl
  have ha := a.le_toInt
  have hb := b.le_toInt
  have ha' := a.toInt_lt
  have hb' := b.toInt_lt
  simp only [aluC, overflow, summDiff, Bool.false_eq_true, if_false, add_not_add_one, hbit]
  rw [← apply_ite flagWord, corrected_eq, lt_of_difference, toInt_signExtend_33,
    toInt_signExtend_33]
  all_goals rw [toInt_signExtend_33, toInt_signExtend_33]; omega

/-- SLTU takes the upper half of the differences for the negative ones, so it is
right when the operands are at most half of the range apart. -/
theorem sltu_exact_iff (undef a b hi lo : Word) (postn shamt : Reg) :
    aluC undef .opSLTU a b postn shamt hi lo = flagWord (decide (a.toNat < b.toNat)) ↔
      a.toNat < b.toNat + 2 ^ 31 ∧ b.toNat ≤ a.toNat + 2 ^ 31 := by
  have ha : a.toNat < 2 ^ 32 := a.isLt
  have hb : b.toNat < 2 ^ 32 := b.isLt
  have hbit : (a - b).getLsbD 31 = decide (2 ^ 31 ≤ (a - b).toNat) := by
    have hmsb : (a - b).getLsbD 31 = (a - b).msb := by rw [BitVec.msb_eq_getLsbD_last]
    rw [hmsb, BitVec.msb_eq_decide]
  have hflag : ∀ p q : Bool, flagWord p = flagWord q ↔ p = q := by decide
  simp only [aluC, summDiff, Bool.false_eq_true, if_false, add_not_add_one, hflag, hbit,
    BitVec.toNat_sub, decide_eq_decide]
  omega

/-- Which traps compare as signed, by the function field. -/
theorem trapTaken_special {w : Word} (h0 : fieldOpcode w = 0) (a b : Word) :
    (fieldFunc w = 48 → trapTaken (decode (fieldOpcode w) w) a b = !subtr32Lt true a b) ∧
      (fieldFunc w = 49 → trapTaken (decode (fieldOpcode w) w) a b = !subtr32Lt false a b) ∧
      (fieldFunc w = 50 → trapTaken (decode (fieldOpcode w) w) a b = subtr32Lt true a b) ∧
      (fieldFunc w = 51 → trapTaken (decode (fieldOpcode w) w) a b = subtr32Lt false a b) := by
  refine ⟨fun hf => ?_, fun hf => ?_, fun hf => ?_, fun hf => ?_⟩ <;>
  · simp only [trapTaken, trSigned, decode, decodeFunct, functWord, h0, hf, if_true]
    rfl

/-- All comparisons of the words `a` and `b` say what they should: SLT and SLTI,
SLTU and SLTIU, and the traps on less than and on greater or equal, with the
operands signed or unsigned. -/
structure Compared (chip : Chip) (a b : Word) : Prop where
  slt : ∀ s : Seq, s.Special 42 → s.opA = a → s.opB = b →
    s.Delivers chip (fieldRd s.instr) (if a.toInt < b.toInt then 1 else 0)
  slti : ∀ s : Seq, fieldOpcode s.instr = 10 → s.opA = a → s.imm.signExtend 32 = b →
    s.Delivers chip (fieldRt s.instr) (if a.toInt < b.toInt then 1 else 0)
  sltu : ∀ s : Seq, s.Special 43 → s.opA = a → s.opB = b →
    s.Delivers chip (fieldRd s.instr) (if a.toNat < b.toNat then 1 else 0)
  sltiu : ∀ s : Seq, fieldOpcode s.instr = 11 → s.opA = a → s.imm.signExtend 32 = b →
    s.Delivers chip (fieldRt s.instr) (if a.toNat < b.toNat then 1 else 0)
  tlt : ∀ s : Seq, s.Special 50 → s.opA = a → s.opB = b →
    (trapTaken s.dec s.opA s.opB = true ↔ a.toInt < b.toInt)
  tge : ∀ s : Seq, s.Special 48 → s.opA = a → s.opB = b →
    (trapTaken s.dec s.opA s.opB = true ↔ b.toInt ≤ a.toInt)
  tltu : ∀ s : Seq, s.Special 51 → s.opA = a → s.opB = b →
    (trapTaken s.dec s.opA s.opB = true ↔ a.toNat < b.toNat)
  tgeu : ∀ s : Seq, s.Special 49 → s.opA = a → s.opB = b →
    (trapTaken s.dec s.opA s.opB = true ↔ b.toNat ≤ a.toNat)

theorem flagWord_decide (p : Prop) [Decidable p] : flagWord (decide p) = if p then 1 else 0 := by
  by_cases h : p <;> simp [h, flagWord]

/-- SLTU delivers the comparison of operands at most half of the range apart. -/
theorem compared_of_near (chip : Chip) {a b : Word} (hab : a.toNat < b.toNat + 2 ^ 31)
    (hba : b.toNat ≤ a.toNat + 2 ^ 31) : Compared chip a b := by
  obtain ⟨hs, hu⟩ := comparator_exact a b
  constructor
  · rintro s h rfl rfl
    have hd := h.delivers chip rfl rfl rfl rfl
    rwa [show (funcTable 42).oper = .opSLT from rfl, slt_exact, flagWord_decide] at hd
  · rintro s h rfl rfl
    have hd := Seq.delivers_slti chip (.inl rfl) h
    rwa [show (ctrlTable 10).oper = .opSLT from rfl, slt_exact, flagWord_decide] at hd
  · rintro s h rfl rfl
    have hd := h.delivers chip rfl rfl rfl rfl
    rwa [show (funcTable 43).oper = .opSLTU from rfl, (sltu_exact_iff ..).2 ⟨hab, hba⟩,
      flagWord_decide] at hd
  · rintro s h rfl rfl
    have hd := Seq.delivers_slti chip (.inr rfl) h
    rwa [show (ctrlTable 11).oper = .opSLTU from rfl, (sltu_exact_iff ..).2 ⟨hab, hba⟩,
      flagWord_decide] at hd
  · rintro s h rfl rfl
    rw [Seq.dec, (trapTaken_special h.1 _ _).2.2.1 h.2, hs, decide_eq_true_iff]
  · rintro s h rfl rfl
    rw [Seq.dec, (trapTaken_special h.1 _ _).1 h.2, hs, Bool.not_eq_true', decide_eq_false_iff_not,
      Int.not_lt]
  · rintro s h rfl rfl
    rw [Seq.dec, (trapTaken_special h.1 _ _).2.2.2 h.2, hu, decide_eq_true_iff]
  · rintro s h rfl rfl
    rw [Seq.dec, (trapTaken_special h.1 _ _).2.1 h.2, hu, Bool.not_eq_true', decide_eq_false_iff_not,
      Nat.not_lt]

/-- Every comparison is right exactly for the operands that are at most half of the
range of the unsigned words apart: farther operands are the wrong way round for
SLTU, and the trap comparator then disagrees with it. -/
theorem compared_iff_near (chip : Chip) (a b : Word) :
    Compared chip a b ↔ a.toNat < b.toNat + 2 ^ 31 ∧ b.toNat ≤ a.toNat + 2 ^ 31 := by
  constructor
  · intro h
    -- sltu $3, $1, $2
    have hs : (Seq.operands 0x0022182B a b).Special 43 :=
      ⟨show fieldOpcode 0x0022182B = 0 by decide, show fieldFunc 0x0022182B = 43 by decide⟩
    have hA : (Seq.operands 0x0022182B a b).opA = a := Seq.operands_opA (by decide) a b
    have hB : (Seq.operands 0x0022182B a b).opB = b := Seq.operands_opB (by decide) a b
    have hrd : fieldRd (Seq.operands 0x0022182B a b).instr ≠ 0 :=
      show fieldRd 0x0022182B ≠ 0 by decide
    have hd := h.sltu _ hs hA hB hrd 0
    rw [hs.delivers chip rfl rfl rfl rfl hrd 0, hA, hB,
      show (funcTable 43).oper = .opSLTU from rfl, ← flagWord_decide] at hd
    exact (sltu_exact_iff ..).1 hd
  · exact fun h => compared_of_near chip h.1 h.2

/-- SLTU says that the greatest word is less than zero. -/
theorem not_compared : ¬ ∀ (chip : Chip) (a b : Word), Compared chip a b := by
  intro h
  have hnear := h { rom := fun _ => 0, undef := 0 } 0xFFFFFFFF 0
  have hs : (Seq.operands 0x0022182B 0xFFFFFFFF 0).Special 43 := ⟨by decide, by decide⟩
  have hd := hnear.sltu _ hs (by decide) (by decide) (by decide) 0
  rw [hs.delivers _ rfl rfl rfl rfl (by decide) 0] at hd
  exact absurd hd (by decide)

end Xinu.Cpu
