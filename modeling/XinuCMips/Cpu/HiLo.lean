import Mathlib.Tactic.Ring
import XinuCMips.Cpu.Instructions

/-!
# Multiplication and division

One multiplier and one divider serve both signs: the products are signed and the
divisions unsigned. So MULT and DIVU are right for all operands, MULTU and DIV
where the two readings of the operands give the same words (`followed_iff`).
-/

namespace Xinu.Cpu

/-- The instructions that leave a double word in HI and LO. -/
inductive HiLoOp
  | mult | multu | div | divu
  deriving DecidableEq, Repr

/-- Their function fields. -/
def HiLoOp.func : HiLoOp → BitVec 6
  | .mult => 24
  | .multu => 25
  | .div => 26
  | .divu => 27

/-- What MIPS32 asks of HI and LO for the operands `a` and `b`. A division by zero is
not defined. The quotient of the smallest number by -1 has no word, and stands for
its residue. -/
def HiLoOp.Right (a b hi lo : Word) : HiLoOp → Prop
  | .mult => hi.toInt * 2 ^ 32 + lo.toNat = a.toInt * b.toInt
  | .multu => hi.toNat * 2 ^ 32 + lo.toNat = a.toNat * b.toNat
  | .div => b ≠ 0 → (lo = BitVec.ofInt 32 (a.toInt.tdiv b.toInt) ∧
      hi = BitVec.ofInt 32 (a.toInt.tmod b.toInt)) ∧ a = b * lo + hi
  | .divu => b ≠ 0 → (lo.toNat = a.toNat / b.toNat ∧ hi.toNat = a.toNat % b.toNat) ∧
      a = b * lo + hi

/-- The operands for which the sign of the operation makes no difference to the
circuit that it shares. -/
def HiLoOp.SignFree (a b : Word) : HiLoOp → Prop
  | .multu => (a.toNat < 2 ^ 31 ∧ b.toNat < 2 ^ 31) ∨ a = 0 ∨ b = 0 ∨
      (a.toNat = 2 ^ 31 ∧ b.toNat = 2 ^ 31)
  | .div => b = 0 ∨ b = 1 ∨ a = b ∨
      (a.toNat < 2 ^ 31 ∧ (b.toNat < 2 ^ 31 ∨ a.toNat + b.toNat < 2 ^ 32))
  | _ => True

/-- A double word as its two words, read without sign and with it. -/
theorem words_toNat (p : BitVec 64) :
    (p.extractLsb' 32 32).toNat * 2 ^ 32 + (p.extractLsb' 0 32).toNat = p.toNat := by
  have hp : p.toNat < 2 ^ 64 := p.isLt
  rw [BitVec.extractLsb'_toNat, BitVec.extractLsb'_toNat]
  omega

theorem words_toInt (p : BitVec 64) :
    (p.extractLsb' 32 32).toInt * 2 ^ 32 + (p.extractLsb' 0 32).toNat = p.toInt := by
  have hp : p.toNat < 2 ^ 64 := p.isLt
  have hw := words_toNat p
  rw [BitVec.toInt_eq_toNat_cond, BitVec.toInt_eq_toNat_cond]
  split <;> split <;> omega

/-- The double word of the multiplier is the product of the signed operands. -/
theorem product_toInt (a b : Word) :
    (a.signExtend 64 * b.signExtend 64).toInt = a.toInt * b.toInt := by
  have hle := BitVec.toInt_mul_toInt_le (x := a) (y := b)
  have hge := BitVec.le_toInt_mul_toInt (x := a) (y := b)
  rw [BitVec.toInt_mul, BitVec.toInt_signExtend_of_le (by omega),
    BitVec.toInt_signExtend_of_le (by omega)]
  exact Int.bmod_eq_of_le (by omega) (by omega)

/-- A word as a signed number, by its sign. -/
theorem signed_cases (a : Word) :
    (a.toNat < 2 ^ 31 ∧ a.toInt = a.toNat) ∨ (2 ^ 31 ≤ a.toNat ∧ a.toInt = a.toNat - 2 ^ 32) := by
  rw [BitVec.toInt_eq_toNat_cond]
  split <;> omega

/-- The unsigned product is the signed one exactly when the signs make no
difference. -/
theorem product_toNat_iff (a b : Word) :
    (a.signExtend 64 * b.signExtend 64).toNat = a.toNat * b.toNat ↔
      (a.toNat < 2 ^ 31 ∧ b.toNat < 2 ^ 31) ∨ a = 0 ∨ b = 0 ∨
        (a.toNat = 2 ^ 31 ∧ b.toNat = 2 ^ 31) := by
  have ha : a.toNat < 2 ^ 32 := a.isLt
  have hb : b.toNat < 2 ^ 32 := b.isLt
  have hp := product_toInt a b
  have hlt := (a.signExtend 64 * b.signExtend 64).isLt
  have hm : a.toNat * b.toNat < 2 ^ 32 * 2 ^ 32 := Nat.mul_lt_mul'' ha hb
  rw [BitVec.toInt_eq_toNat_cond] at hp
  have h0a : a = 0 ↔ a.toNat = 0 := by rw [← BitVec.toNat_inj]; rfl
  have h0b : b = 0 ↔ b.toNat = 0 := by rw [← BitVec.toNat_inj]; rfl
  rw [h0a, h0b]
  -- a negative operand takes 2 ^ 32 times the other one off the product
  have hmul : ((a.toNat * b.toNat : Nat) : Int) = a.toNat * b.toNat := Int.natCast_mul _ _
  obtain ⟨hsa, hta⟩ | ⟨hsa, hta⟩ := signed_cases a <;>
    obtain ⟨hsb, htb⟩ | ⟨hsb, htb⟩ := signed_cases b <;> rw [hta, htb] at hp
  · rw [← hmul] at hp
    generalize a.toNat * b.toNat = m at *
    split at hp <;> omega
  · have hexp : (a.toNat : Int) * (b.toNat - 2 ^ 32) =
        (a.toNat * b.toNat : Nat) - 2 ^ 32 * a.toNat := by rw [hmul]; ring
    rw [hexp] at hp
    generalize a.toNat * b.toNat = m at *
    split at hp <;> omega
  · have hexp : ((a.toNat : Int) - 2 ^ 32) * b.toNat =
        (a.toNat * b.toNat : Nat) - 2 ^ 32 * b.toNat := by rw [hmul]; ring
    rw [hexp] at hp
    generalize a.toNat * b.toNat = m at *
    split at hp <;> omega
  · have hexp : ((a.toNat : Int) - 2 ^ 32) * (b.toNat - 2 ^ 32) =
        (a.toNat * b.toNat : Nat) - 2 ^ 32 * (a.toNat + b.toNat) + 2 ^ 64 := by rw [hmul]; ring
    rw [hexp] at hp
    generalize a.toNat * b.toNat = m at *
    split at hp <;> omega

/-- A word is the residue of a number. -/
theorem eq_ofInt_iff (x : Word) (z : Int) :
    x = BitVec.ofInt 32 z ↔ (x.toNat : Int) = z % 2 ^ 32 := by
  have hx : x.toNat < 2 ^ 32 := x.isLt
  rw [← BitVec.toNat_inj, BitVec.toNat_ofInt]
  omega

/-- The unsigned quotient and remainder are the signed ones exactly when the signs
make no difference. -/
theorem divided_iff {a b : Word} (h0 : b ≠ 0) :
    (a / b = BitVec.ofInt 32 (a.toInt.tdiv b.toInt) ∧
        a % b = BitVec.ofInt 32 (a.toInt.tmod b.toInt)) ↔
      b = 1 ∨ a = b ∨ (a.toNat < 2 ^ 31 ∧ (b.toNat < 2 ^ 31 ∨ a.toNat + b.toNat < 2 ^ 32)) := by
  have ha : a.toNat < 2 ^ 32 := a.isLt
  have hb : b.toNat < 2 ^ 32 := b.isLt
  have hb0 : b.toNat ≠ 0 := fun h => h0 (BitVec.eq_of_toNat_eq h)
  have hb1 : b = 1 ↔ b.toNat = 1 := by rw [← BitVec.toNat_inj]; rfl
  rw [eq_ofInt_iff, eq_ofInt_iff, hb1, ← BitVec.toNat_inj, BitVec.toNat_udiv, BitVec.toNat_umod]
  obtain ⟨hsa, hta⟩ | ⟨hsa, hta⟩ := signed_cases a <;>
    obtain ⟨hsb, htb⟩ | ⟨hsb, htb⟩ := signed_cases b
  · rw [hta, htb, ← Int.ofNat_tdiv, ← Int.ofNat_tmod]
    have hq := Nat.div_le_self a.toNat b.toNat
    have hr := Nat.mod_le a.toNat b.toNat
    generalize a.toNat / b.toNat = q, a.toNat % b.toNat = r at *
    omega
  · obtain ⟨c, hc⟩ : ∃ c : Nat, b.toNat + c = 2 ^ 32 := ⟨2 ^ 32 - b.toNat, by omega⟩
    have hneg : b.toInt = -(c : Int) := by omega
    rw [hta, hneg, Int.tdiv_neg, Int.tmod_neg, ← Int.ofNat_tdiv, ← Int.ofNat_tmod,
      Nat.div_eq_of_lt (by omega), Nat.mod_eq_of_lt (by omega)]
    have hq := Nat.div_le_self a.toNat c
    have hz : a.toNat / c = 0 ↔ a.toNat < c := Nat.div_eq_zero_iff_lt (by omega)
    have hr : a.toNat < c → a.toNat % c = a.toNat := Nat.mod_eq_of_lt
    generalize a.toNat / c = q, a.toNat % c = r at *
    omega
  · obtain ⟨d, hd⟩ : ∃ d : Nat, a.toNat + d = 2 ^ 32 := ⟨2 ^ 32 - a.toNat, by omega⟩
    have hneg : a.toInt = -(d : Int) := by omega
    rw [hneg, htb, Int.neg_tdiv, Int.neg_tmod, ← Int.ofNat_tdiv, ← Int.ofNat_tmod]
    by_cases h1 : b.toNat = 1
    · rw [h1]
      omega
    · have hq : a.toNat / b.toNat ≤ a.toNat / 2 := Nat.div_le_div_left (by omega) (by omega)
      have hpos : 0 < a.toNat / b.toNat := Nat.div_pos (by omega) (by omega)
      have hd2 := Nat.div_le_self d b.toNat
      generalize d / b.toNat = p, d % b.toNat = r, a.toNat / b.toNat = q at *
      omega
  · obtain ⟨c, hc⟩ : ∃ c : Nat, b.toNat + c = 2 ^ 32 := ⟨2 ^ 32 - b.toNat, by omega⟩
    obtain ⟨d, hd⟩ : ∃ d : Nat, a.toNat + d = 2 ^ 32 := ⟨2 ^ 32 - a.toNat, by omega⟩
    have hnega : a.toInt = -(d : Int) := by omega
    have hnegb : b.toInt = -(c : Int) := by omega
    rw [hnega, hnegb, Int.tdiv_neg, Int.tmod_neg, Int.neg_tdiv, Int.neg_tmod, ← Int.ofNat_tdiv,
      ← Int.ofNat_tmod, Int.neg_neg]
    obtain hlt | heq | hgt := Nat.lt_trichotomy a.toNat b.toNat
    · have hq : a.toNat / b.toNat = 0 := Nat.div_eq_of_lt hlt
      have hpos : 0 < d / c := Nat.div_pos (by omega) (by omega)
      have hd2 := Nat.div_le_self d c
      generalize d / c = p, d % c = r at *
      omega
    · have hdc : d = c := by omega
      rw [heq, hdc, Nat.div_self (by omega), Nat.div_self (by omega), Nat.mod_self, Nat.mod_self]
      omega
    · have hq : a.toNat / b.toNat = 1 := Nat.div_eq_of_lt_le (by omega) (by omega)
      have hz : d / c = 0 := Nat.div_eq_of_lt (by omega)
      omega

/-- The divider's quotient and remainder make up the dividend. -/
theorem dividend_eq (a b : Word) : a = b * (a / b) + a % b := by
  have ha : a.toNat < 2 ^ 32 := a.isLt
  apply BitVec.eq_of_toNat_eq
  rw [BitVec.toNat_add, BitVec.toNat_mul, BitVec.toNat_udiv, BitVec.toNat_umod, Nat.mod_add_mod,
    Nat.div_add_mod, Nat.mod_eq_of_lt ha]

/-- A division leaves the divider's remainder in HI and its quotient in LO. -/
theorem divider_eq (undef a : Word) {b : Word} (h0 : b ≠ 0) :
    (inpLO undef .opDIV a b = a / b ∧ inpHI undef .opDIV a b = a % b) ∧
      (inpLO undef .opDIVU a b = a / b ∧ inpHI undef .opDIVU a b = a % b) := by
  simp only [inpLO, inpHI, h0, if_false, and_self]

/-- After MULT, MULTU, DIV or DIVU, HI and LO hold what MIPS32 asks for exactly when
the sign of the operation makes no difference to its operands. -/
theorem hilo_right_iff (chip : Chip) {s : Seq} {op : HiLoOp} (h : s.Special op.func)
    (answer : Word) :
    op.Right s.opA s.opB (s.exec chip answer).hi (s.exec chip answer).lo ↔
      op.SignFree s.opA s.opB := by
  cases op with
  | mult =>
    obtain ⟨hhi, hlo⟩ := h.hilo chip rfl rfl rfl answer
    rw [hhi, hlo]
    exact iff_of_true ((words_toInt _).trans (product_toInt _ _)) trivial
  | multu =>
    obtain ⟨hhi, hlo⟩ := h.hilo chip rfl rfl rfl answer
    rw [hhi, hlo]
    show ((s.opA.signExtend 64 * s.opB.signExtend 64).extractLsb' 32 32).toNat * 2 ^ 32 +
      ((s.opA.signExtend 64 * s.opB.signExtend 64).extractLsb' 0 32).toNat = _ ↔ _
    rw [words_toNat, product_toNat_iff]
    rfl
  | div =>
    obtain ⟨hhi, hlo⟩ := h.hilo chip rfl rfl rfl answer
    rw [hhi, hlo]
    simp only [HiLoOp.Right, HiLoOp.SignFree]
    by_cases h0 : s.opB = 0
    · exact iff_of_true (fun hne => absurd h0 hne) (.inl h0)
    · obtain ⟨⟨hq, hr⟩, -⟩ := divider_eq chip.undef s.opA h0
      rw [show (funcTable HiLoOp.div.func).oper = .opDIV from rfl, hq, hr, divided_iff h0]
      simp only [ne_eq, h0, not_false_eq_true, true_implies, false_or, ← dividend_eq, and_true]
  | divu =>
    obtain ⟨hhi, hlo⟩ := h.hilo chip rfl rfl rfl answer
    rw [hhi, hlo]
    refine iff_of_true (fun h0 => ?_) trivial
    obtain ⟨-, hq, hr⟩ := divider_eq chip.undef s.opA h0
    rw [show (funcTable HiLoOp.divu.func).oper = .opDIVU from rfl, hq, hr]
    exact ⟨⟨BitVec.toNat_udiv, BitVec.toNat_umod⟩, dividend_eq _ _⟩

/-- A division of seven by two: both signs agree. -/
theorem hilo_right_seven : HiLoOp.div.Right 7 2
    ((Seq.operands 0x0022001A 7 2).exec { rom := fun _ => 0, undef := 0 } 0).hi
    ((Seq.operands 0x0022001A 7 2).exec { rom := fun _ => 0, undef := 0 } 0).lo :=
  (hilo_right_iff _ (s := Seq.operands 0x0022001A 7 2) ⟨by decide, by decide⟩ 0).2
    (.inr (.inr (.inr ⟨by decide, .inl (by decide)⟩)))

/-- DIV divides -7 by 2 as if it were unsigned. -/
theorem hilo_not_right : ¬ ∀ (chip : Chip) (s : Seq) (op : HiLoOp), s.Special op.func →
    ∀ answer, op.Right s.opA s.opB (s.exec chip answer).hi (s.exec chip answer).lo := by
  intro h
  have hd := h { rom := fun _ => 0, undef := 0 } (Seq.operands 0x0022001A (-7) 2) .div
    ⟨by decide, by decide⟩ 0 (by decide)
  exact absurd hd.1.1 (by decide)

end Xinu.Cpu
