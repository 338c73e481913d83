import XinuCMips.Fpu.Multiplier
import XinuCMips.Lib.Floats

/-!
# What the multiplier delivers

Operands and products as the numbers they denote, against what the stages make of them.

* `product_comm`, `product_nan`, `product_inf`, `product_zero`
                         — the special operands;
* `product_near`         — the product of two normal numbers, rounded;
* `not_near_of_large`, `not_near_of_small`
                         — and where it is not;
* `mult_right_iff`       — **the multiplier is right for exactly the operands that are
  handled.**

What is not handled: a NaN against an infinity or a zero, an infinity against a
denormalized number, and two normal numbers whose exponents add up to 255 or more, or to
127.
-/

namespace Xinu.Fpu

open Floats

variable {a b : Word} {p : BitVec 48}

/-- A word as a floating-point pattern. -/
def float (x : Word) : Pattern 8 23 := ⟨signOf x, expOf x, mantOf x⟩

/-- The exact product of two finite operands. -/
def exact (a b : Word) : ℚ := (float a).value * (float b).value

/-- **What is asked of the pattern delivered** for two operands. -/
structure Right (s : Schedule) (a b : Word) : Prop where
  ready : (s.ends a b).stg3.pronto = true
  comm : s.delivers a b = s.delivers b a
  nan : (float (s.delivers a b)).IsNaN ↔
    (float a).IsNaN ∨ (float b).IsNaN ∨ (float a).IsInf ∧ (float b).IsZero ∨
      (float a).IsZero ∧ (float b).IsInf
  inf : (float a).IsInf ∧ ¬ (float b).IsNaN ∧ ¬ (float b).IsZero ∨
      (float b).IsInf ∧ ¬ (float a).IsNaN ∧ ¬ (float a).IsZero →
    (float (s.delivers a b)).IsInf ∧ signOf (s.delivers a b) = (signOf a ^^ signOf b)
  zero : (float a).IsZero ∧ (float b).IsFinite ∨ (float b).IsZero ∧ (float a).IsFinite →
    (float (s.delivers a b)).IsZero
  near : (float a).IsNormal → (float b).IsNormal → InNormalRange 8 23 (exact a b) →
    (float (s.delivers a b)).Near (exact a b)

/-- The operands for which it is. -/
structure Handled (a b : Word) : Prop where
  nan : ¬ ((float a).IsNaN ∧ ((float b).IsInf ∨ (float b).IsZero)) ∧
    ¬ ((float b).IsNaN ∧ ((float a).IsInf ∨ (float a).IsZero))
  inf : ¬ ((float a).IsInf ∧ (float b).IsDenormal) ∧ ¬ ((float b).IsInf ∧ (float a).IsDenormal)
  exp : (float a).IsNormal → (float b).IsNormal → InNormalRange 8 23 (exact a b) →
    127 < (expOf a).toNat + (expOf b).toNat ∧ (expOf a).toNat + (expOf b).toNat < 255

-- ---------------------------------------------------------------------------
-- Special operands
-- ---------------------------------------------------------------------------

theorem fpType_isZero : fpType a = .isZero ↔ (float a).IsZero := by
  unfold fpType Pattern.IsZero float
  by_cases h : expOf a = 0 ∧ mantOf a = 0
  · rw [if_pos h]
    exact ⟨fun _ => h, fun _ => rfl⟩
  · rw [if_neg h]
    refine ⟨fun h' => ?_, fun h' => absurd h' h⟩
    split at h'
    · nomatch h'
    · split at h' <;> nomatch h'

theorem fpType_isInf : fpType a = .isInf ↔ (float a).IsInf := by
  unfold fpType Pattern.IsInf float
  by_cases h : expOf a = BitVec.allOnes 8 ∧ mantOf a = 0
  · rw [if_neg (by rw [h.1]; exact nofun), if_pos h]
    exact ⟨fun _ => h, fun _ => rfl⟩
  · rw [if_neg h]
    refine ⟨fun h' => ?_, fun h' => absurd h' h⟩
    split at h'
    · nomatch h'
    · split at h' <;> nomatch h'

theorem fpType_isNaN : fpType a = .isNaN ↔ (float a).IsNaN := by
  unfold fpType Pattern.IsNaN float
  by_cases h : expOf a = BitVec.allOnes 8 ∧ mantOf a ≠ 0
  · rw [if_neg fun h' => h.2 h'.2, if_neg fun h' => h.2 h'.2, if_pos h]
    exact ⟨fun _ => h, fun _ => rfl⟩
  · rw [if_neg h]
    refine ⟨fun h' => ?_, fun h' => absurd h' h⟩
    split at h'
    · nomatch h'
    · split at h' <;> nomatch h'

/-- A denormalized number is one of the numbers without an exponent. -/
theorem isDenormal_iff : (float a).IsDenormal ↔ fpType a = .isGood ∧ expOf a = 0 := by
  constructor
  · rintro ⟨he, hm⟩
    have he : expOf a = 0 := he
    refine ⟨?_, he⟩
    unfold fpType
    rw [if_neg fun h => hm h.2, if_neg fun h => hm h.2, if_neg]
    rw [he]
    exact nofun
  · rintro ⟨hgood, he⟩
    refine ⟨he, fun hm => ?_⟩
    rw [fpType_isZero.mpr ⟨he, hm⟩] at hgood
    nomatch hgood

theorem isNormal_iff : (float a).IsNormal ↔ fpType a = .isGood ∧ expOf a ≠ 0 := by
  constructor
  · rintro ⟨he, hne⟩
    have hne : expOf a ≠ BitVec.allOnes 8 := hne
    refine ⟨?_, he⟩
    unfold fpType
    rw [if_neg fun h => he h.1, if_neg fun h => hne h.1, if_neg fun h => hne h.1]
  · rintro ⟨hgood, he⟩
    refine ⟨he, fun hne => ?_⟩
    by_cases hm : mantOf a = 0
    · rw [fpType_isInf.mpr ⟨hne, hm⟩] at hgood
      nomatch hgood
    · rw [fpType_isNaN.mpr ⟨hne, hm⟩] at hgood
      nomatch hgood

theorem isFinite_iff : (float a).IsFinite ↔ fpType a = .isGood ∨ fpType a = .isZero := by
  constructor
  · intro hfin
    have hinf : fpType a ≠ .isInf := fun h => hfin (fpType_isInf.mp h).1
    have hnan : fpType a ≠ .isNaN := fun h => hfin (fpType_isNaN.mp h).1
    cases h : fpType a with
    | isGood => exact Or.inl rfl
    | isZero => exact Or.inr rfl
    | isInf => exact absurd h hinf
    | isNaN => exact absurd h hnan
  · rintro (h | h)
    · intro hne
      by_cases hm : mantOf a = 0
      · rw [fpType_isInf.mpr ⟨hne, hm⟩] at h
        nomatch h
      · rw [fpType_isNaN.mpr ⟨hne, hm⟩] at h
        nomatch h
    · intro hne
      have he : expOf a = 0 := (fpType_isZero.mp h).1
      have hne : expOf a = BitVec.allOnes 8 := hne
      rw [he] at hne
      nomatch hne

/-- The three fields of a word. -/
theorem float_append (s : Bool) (e : BitVec 8) (f : BitVec 23) :
    float (BitVec.ofBool s ++ e ++ f) = ⟨s, e, f⟩ := by
  have hsign : signOf (BitVec.ofBool s ++ e ++ f) = s := by
    unfold signOf
    rw [BitVec.getLsbD_append, BitVec.getLsbD_append]
    simp
  have hexp : expOf (BitVec.ofBool s ++ e ++ f) = e := by
    unfold expOf
    rw [BitVec.extractLsb'_append_eq_of_le (Nat.le_refl 23)]
    exact BitVec.extractLsb'_append_eq_right
  have hmant : mantOf (BitVec.ofBool s ++ e ++ f) = f := by
    exact BitVec.extractLsb'_append_eq_right
  unfold float
  rw [hsign, hexp, hmant]

/-- The stages of the multiplier for two operands. -/
def stages (a b : Word) : Stg2 := Stg2.next (Stg1.next true a b)

/-- `exp_stg3` and `mant` for two operands. -/
def expOut (a b : Word) : BitVec 8 :=
  expStg3 (stages a b).exp (stages a b).deloc (stages a b).signR

def mantOut (a b : Word) : BitVec 23 :=
  mant (stages a b).exp (stages a b).deloc (stages a b).signR

theorem float_product :
    float (product a b) =
      ⟨checkSig (fpType a) (fpType b) (signOf a) (signOf b),
        (check (fpType a) (fpType b) (expOut a b) (mantOut a b)).1,
        (check (fpType a) (fpType b) (expOut a b) (mantOut a b)).2⟩ :=
  float_append _ _ _

/-- With an exponent of ones the fraction is zero. -/
theorem mant_of_ones {e : BitVec 8} {d : BitVec 5} (h : expStg3 e d p = BitVec.allOnes 8) :
    mant e d p = 0 := by
  unfold mant fracNormed
  rw [if_pos h]
  rfl

theorem mantOut_of_ones (h : expOut a b = BitVec.allOnes 8) : mantOut a b = 0 := mant_of_ones h

/-- The numbers of the stages are those of the operands in either order. -/
theorem out_comm : expOut a b = expOut b a ∧ mantOut a b = mantOut b a := by
  have hexp : expAB a b = expAB b a := BitVec.add_comm _ _
  have hfrac : fracP (frac24 a) (frac24 b) = fracP (frac24 b) (frac24 a) := BitVec.mul_comm _ _
  unfold expOut mantOut stages Stg2.next Stg1.next
  rw [hexp, hfrac]
  exact ⟨rfl, rfl⟩

-- ---------------------------------------------------------------------------
-- The product of the fractions
-- ---------------------------------------------------------------------------

theorem frac24_normal (h : expOf a ≠ 0) : (frac24 a).toNat = 2 ^ 23 + (mantOf a).toNat := by
  unfold frac24 denorm
  rw [beq_eq_false_iff_ne.mpr h, BitVec.toNat_append]
  show 1 <<< 23 ||| (mantOf a).toNat = _
  rw [Nat.shiftLeft_eq, one_mul]
  simpa using (Nat.two_pow_add_eq_or_of_lt (mantOf a).isLt 1).symm

theorem frac24_zero (h : expOf a = 0) : (frac24 a).toNat = (mantOf a).toNat := by
  unfold frac24 denorm
  rw [beq_iff_eq.mpr h, BitVec.toNat_append]
  show 0 <<< 23 ||| (mantOf a).toNat = _
  rw [Nat.zero_shiftLeft, Nat.zero_or]

theorem fracP_toNat (x y : BitVec 24) : (fracP x y).toNat = x.toNat * y.toNat := by
  have hlt : x.toNat * y.toNat < 2 ^ 48 :=
    calc x.toNat * y.toNat < 2 ^ 24 * 2 ^ 24 := Nat.mul_lt_mul'' x.isLt y.isLt
      _ = 2 ^ 48 := rfl
  unfold fracP
  rw [BitVec.toNat_mul, BitVec.toNat_setWidth_of_le (by decide),
    BitVec.toNat_setWidth_of_le (by decide), Nat.mod_eq_of_lt hlt]

/-- The top bits of a product. -/
theorem bit47 : p.getLsbD 47 = decide (2 ^ 47 ≤ p.toNat) := by
  have hlt := p.isLt
  rw [BitVec.getLsbD, Nat.testBit_eq_decide_div_mod_eq]
  refine decide_eq_decide.mpr ?_
  omega

theorem bit46 (h : p.toNat < 2 ^ 47) : p.getLsbD 46 = decide (2 ^ 46 ≤ p.toNat) := by
  rw [BitVec.getLsbD, Nat.testBit_eq_decide_div_mod_eq]
  refine decide_eq_decide.mpr ?_
  omega

theorem fracRounded_low (h : p.toNat < 2 ^ 47) :
    (fracRounded p).toNat = p.toNat / 2 ^ 22 + 1 := by
  unfold fracRounded
  rw [bit47, if_pos (decide_eq_false (by omega)), BitVec.toNat_add,
    BitVec.toNat_setWidth_of_le (by decide), BitVec.extractLsb'_toNat, Nat.shiftRight_eq_div_pow]
  show (p.toNat / 2 ^ 22 % 2 ^ 25 + 1) % 2 ^ 26 = _
  omega

theorem fracRounded_high (h : 2 ^ 47 ≤ p.toNat) :
    (fracRounded p).toNat = p.toNat / 2 ^ 23 + 1 := by
  have hlt := p.isLt
  unfold fracRounded
  rw [bit47, if_neg (by rw [decide_eq_true h]; exact nofun), BitVec.toNat_add,
    BitVec.toNat_setWidth_of_le (by decide), BitVec.extractLsb'_toNat, Nat.shiftRight_eq_div_pow]
  show (p.toNat / 2 ^ 23 % 2 ^ 25 + 1) % 2 ^ 26 = _
  omega

/-- The bit that a carry out of the rounding sets. -/
theorem bit25 (x : BitVec 26) : x.getLsbD 25 = decide (2 ^ 25 ≤ x.toNat) := by
  have hlt := x.isLt
  rw [BitVec.getLsbD, Nat.testBit_eq_decide_div_mod_eq]
  refine decide_eq_decide.mpr ?_
  omega

-- ---------------------------------------------------------------------------
-- Normalisation
-- ---------------------------------------------------------------------------

section

variable {e : BitVec 8} {d : BitVec 5}

theorem grows_iff : grows p = true ↔ 2 ^ 47 ≤ p.toNat ∨ 2 ^ 25 ≤ (fracRounded p).toNat := by
  unfold grows
  rw [bit47, bit25, Bool.or_eq_true, decide_eq_true_iff, decide_eq_true_iff]

theorem expStg3_small (h : p.toNat < 2 ^ 46) : expStg3 e d p = 0 := by
  have h47 : p.toNat < 2 ^ 47 := by omega
  unfold expStg3
  rw [bit47, bit46 h47]
  exact if_pos ⟨decide_eq_false (by omega), decide_eq_false (by omega)⟩

theorem expStg3_large (h : 2 ^ 46 ≤ p.toNat) :
    expStg3 e d p = if grows p ∧ d = 0 then e + 1 else e := by
  unfold expStg3
  refine if_neg ?_
  rintro ⟨hbit47, hbit46⟩
  rw [bit47, decide_eq_false_iff_not] at hbit47
  rw [bit46 (by omega), decide_eq_false_iff_not] at hbit46
  exact hbit46 h

/-- The fraction without a carry, and with one. -/
theorem mant_toNat (hones : expStg3 e d p ≠ BitVec.allOnes 8) (hd : deloc4 d p = 0)
    (hc : (fracRounded p).toNat < 2 ^ 25) :
    (mant e d p).toNat = (fracRounded p).toNat / 2 % 2 ^ 23 := by
  unfold mant fracNormed
  rw [if_neg hones, bit25, if_neg (by rw [decide_eq_false (by omega)]; exact nofun), hd,
    BitVec.extractLsb'_toNat, BitVec.toNat_ushiftRight, BitVec.extractLsb'_toNat,
    Nat.shiftRight_zero]
  show ((fracRounded p).toNat >>> 1 % 2 ^ 24) >>> 0 % 2 ^ 23 = _
  rw [Nat.shiftRight_zero, Nat.shiftRight_eq_div_pow]
  omega

theorem mant_carry (hones : expStg3 e d p ≠ BitVec.allOnes 8) (hd : deloc4 d p = 0)
    (hc : (fracRounded p).toNat = 2 ^ 25) : mant e d p = 0 := by
  refine BitVec.eq_of_toNat_eq ?_
  unfold mant fracNormed
  rw [if_neg hones, bit25, if_pos (decide_eq_true hc.ge), hd,
    BitVec.extractLsb'_toNat, BitVec.toNat_ushiftRight, BitVec.extractLsb'_toNat, hc]
  rfl

theorem deloc4_zero : deloc4 0 p = 0 := by
  unfold deloc4
  exact if_neg fun h => absurd h.2 (by decide)

/-- **A product below 2** keeps its exponent unless the rounding carries. -/
theorem normalises_low (hlow : 2 ^ 46 ≤ p.toNat) (hhigh : p.toNat < 2 ^ 47) (he : e.toNat < 254) :
    (e.toNat ≤ (expStg3 e 0 p).toNat ∧ (expStg3 e 0 p).toNat ≤ e.toNat + 1) ∧
      (2 ^ 23 + (mant e 0 p).toNat) * 2 ^ (expStg3 e 0 p).toNat =
        roundHalfUp p.toNat 22 * 2 ^ e.toNat := by
  have hround := fracRounded_low hhigh
  have hsucc : (e + 1).toNat = e.toNat + 1 := by
    rw [BitVec.toNat_add]
    show (e.toNat + 1) % 256 = _
    omega
  by_cases hc : 2 ^ 25 ≤ (fracRounded p).toNat
  · -- the rounding carries
    have hexp : expStg3 e 0 p = e + 1 := by
      rw [expStg3_large hlow, if_pos ⟨grows_iff.mpr (Or.inr hc), rfl⟩]
    have hones : expStg3 e 0 p ≠ BitVec.allOnes 8 := by
      intro h
      rw [hexp] at h
      have h := congrArg BitVec.toNat h
      rw [hsucc] at h
      have h : e.toNat + 1 = 255 := h
      omega
    have hr : roundHalfUp p.toNat 22 = 2 ^ 24 := by
      unfold roundHalfUp
      omega
    rw [mant_carry hones deloc4_zero (by omega), hexp, hsucc, hr]
    refine ⟨⟨Nat.le_succ _, Nat.le_refl _⟩, ?_⟩
    rw [pow_succ]
    show 2 ^ 23 * (2 ^ e.toNat * 2) = _
    ring
  · have hexp : expStg3 e 0 p = e := by
      rw [expStg3_large hlow, if_neg]
      rintro ⟨hgrows, -⟩
      rcases grows_iff.mp hgrows with h | h <;> omega
    have hones : expStg3 e 0 p ≠ BitVec.allOnes 8 := by
      intro h
      rw [hexp] at h
      have h : e.toNat = 255 := congrArg BitVec.toNat h
      omega
    have hm := mant_toNat hones deloc4_zero (by omega)
    have hr : 2 ^ 23 + (mant e 0 p).toNat = roundHalfUp p.toNat 22 := by
      unfold roundHalfUp
      omega
    rw [hr, hexp]
    exact ⟨⟨Nat.le_refl _, Nat.le_succ _⟩, rfl⟩

/-- **A product of 2 or more** has the next exponent. -/
theorem normalises_high (hlow : 2 ^ 47 ≤ p.toNat) (hhigh : p.toNat < 2 ^ 48 - 2 ^ 23)
    (he : e.toNat < 254) :
    (expStg3 e 0 p).toNat = e.toNat + 1 ∧
      2 ^ 23 + (mant e 0 p).toNat = roundHalfUp p.toNat 23 := by
  have hround := fracRounded_high hlow
  have hexp : expStg3 e 0 p = e + 1 := by
    rw [expStg3_large (by omega), if_pos ⟨grows_iff.mpr (Or.inl hlow), rfl⟩]
  have hsucc : (expStg3 e 0 p).toNat = e.toNat + 1 := by
    rw [hexp, BitVec.toNat_add]
    show (e.toNat + 1) % 256 = _
    omega
  have hones : expStg3 e 0 p ≠ BitVec.allOnes 8 := by
    intro h
    have h : (expStg3 e 0 p).toNat = 255 := congrArg BitVec.toNat h
    omega
  have hm := mant_toNat hones deloc4_zero (by omega)
  refine ⟨hsucc, ?_⟩
  unfold roundHalfUp
  omega

end

-- ---------------------------------------------------------------------------
-- Two normal numbers
-- ---------------------------------------------------------------------------

/-- The sum of the biased exponents. -/
def expSum (a b : Word) : Nat := (expOf a).toNat + (expOf b).toNat

theorem exp9_normal (h : expOf a ≠ 0) : (exp9 a).toNat = (expOf a).toNat := by
  unfold exp9 denorm
  rw [beq_eq_false_iff_ne.mpr h, Bool.not_false, if_pos rfl,
    BitVec.toNat_setWidth_of_le (by decide)]

theorem expAB_normal (ha : expOf a ≠ 0) (hb : expOf b ≠ 0) : (expAB a b).toNat = expSum a b := by
  have hlta := (expOf a).isLt
  have hltb := (expOf b).isLt
  unfold expAB expSum
  rw [BitVec.toNat_add, exp9_normal ha, exp9_normal hb]
  omega

section

variable {x : BitVec 9}

theorem expP_large (h : 255 ≤ x.toNat) : (expP x).extractLsb' 0 8 = BitVec.allOnes 8 := by
  have hge : x ≥ 0b011111111#9 := h
  unfold expP
  rw [if_pos hge]
  rfl

theorem expP_small (h : x.toNat ≤ 127) : (expP x).extractLsb' 0 8 = 0 := by
  have hge : ¬ x ≥ 0b011111111#9 := Nat.not_le_of_lt (Nat.lt_of_le_of_lt h (by decide))
  have hle : x ≤ 0b001111111#9 := h
  unfold expP
  rw [if_neg hge, if_pos hle]
  rfl

theorem expP_middle (hlow : 127 < x.toNat) (hhigh : x.toNat < 255) :
    ((expP x).extractLsb' 0 8).toNat = x.toNat - 127 := by
  have hge : ¬ x ≥ 0b011111111#9 := Nat.not_le_of_lt hhigh
  have hle : ¬ x ≤ 0b001111111#9 := Nat.not_le_of_lt hlow
  unfold expP
  rw [if_neg hge, if_neg hle, BitVec.extractLsb'_toNat, BitVec.toNat_add, Nat.shiftRight_zero]
  show (x.toNat + 385) % 512 % 256 = _
  omega

theorem deloc2_zero (h : 127 < x.toNat) : deloc2 (desloc x) = 0 := by
  have hgt : x > 0b001111111#9 := h
  unfold desloc
  rw [if_pos hgt]
  rfl

end

theorem signR_normal (ha : expOf a ≠ 0) (hb : expOf b ≠ 0) :
    (stages a b).signR.toNat = (2 ^ 23 + (mantOf a).toNat) * (2 ^ 23 + (mantOf b).toNat) := by
  show (fracP (frac24 a) (frac24 b)).toNat = _
  rw [fracP_toNat, frac24_normal ha, frac24_normal hb]

theorem signR_bounds (ha : expOf a ≠ 0) (hb : expOf b ≠ 0) :
    2 ^ 46 ≤ (stages a b).signR.toNat ∧ (stages a b).signR.toNat < 2 ^ 48 - 2 ^ 23 := by
  have hlta := (mantOf a).isLt
  have hltb := (mantOf b).isLt
  rw [signR_normal ha hb]
  refine ⟨?_, ?_⟩
  · calc 2 ^ 46 = 2 ^ 23 * 2 ^ 23 := rfl
      _ ≤ _ := Nat.mul_le_mul (Nat.le_add_right _ _) (Nat.le_add_right _ _)
  · calc (2 ^ 23 + (mantOf a).toNat) * (2 ^ 23 + (mantOf b).toNat)
        ≤ (2 ^ 24 - 1) * (2 ^ 24 - 1) := Nat.mul_le_mul (by omega) (by omega)
      _ < 2 ^ 48 - 2 ^ 23 := by decide

theorem place_normal {x : Pattern 8 23} (h : x.exp ≠ 0) : x.place = (x.exp.toNat : Int) - 150 := by
  have hpos : 1 ≤ x.exp.toNat := by
    refine Nat.one_le_iff_ne_zero.mpr fun h0 => h ?_
    exact BitVec.eq_of_toNat_eq h0
  unfold Pattern.place
  rw [Nat.max_eq_right hpos]
  rfl

theorem magnitude_zero {x : Pattern 8 23} (h : x.exp = 0) :
    x.magnitude = x.frac.toNat * 2 ^ 24 * 2 ^ (-173 : Int) := by
  have hsig : x.significand = x.frac.toNat := if_pos h
  have hplace : x.place = -149 := by
    unfold Pattern.place
    rw [h]
    rfl
  unfold Pattern.magnitude
  rw [hsig, hplace, mul_assoc]
  norm_num

theorem significand_normal {x : Pattern 8 23} (h : x.exp ≠ 0) :
    x.significand = 2 ^ 23 + x.frac.toNat := if_neg h

/-- **The exact product** in terms of what the stages have. -/
theorem abs_exact (ha : expOf a ≠ 0) (hb : expOf b ≠ 0) :
    |exact a b| = ((stages a b).signR.toNat : ℚ) * 2 ^ ((expSum a b : Int) - 300) := by
  have hea : (float a).exp ≠ 0 := ha
  have heb : (float b).exp ≠ 0 := hb
  have hplace : (float a).place + (float b).place = (expSum a b : Int) - 300 := by
    rw [place_normal hea, place_normal heb]
    unfold expSum float
    push_cast
    ring
  unfold exact
  rw [Pattern.abs_mul_value, hplace, significand_normal hea, significand_normal heb,
    signR_normal ha hb]
  rfl

theorem exact_sign (ha : expOf a ≠ 0) (hb : expOf b ≠ 0) :
    (signOf a ^^ signOf b) = true ↔ exact a b < 0 := by
  have hsig : ∀ x : Word, expOf x ≠ 0 → (float x).significand ≠ 0 := by
    intro x hx
    rw [significand_normal (x := float x) hx]
    exact Nat.ne_of_gt (Nat.add_pos_left (Nat.two_pow_pos 23) _)
  exact Pattern.mul_value_neg (hsig a ha) (hsig b hb)

/-- A product of numbers has the sign of the numbers, and what the stages made of them. -/
theorem float_good (ha : fpType a = .isGood) (hb : fpType b = .isGood) :
    float (product a b) =
      ⟨signOf a ^^ signOf b, expOut a b, mantOut a b⟩ := by
  rw [float_product, ha, hb]
  rfl

/-- **What the stages deliver** is near what they rounded. -/
theorem near_of_stages {q : ℚ} {neg : Bool} {E : BitVec 8} {M : BitVec 23} {m s : Nat} {k : Int}
    (hsign : neg = true ↔ q < 0) (hq : |q| = m * 2 ^ k) (hlow : 2 ^ (24 + s) ≤ m)
    (hhigh : m < 2 ^ (24 + s + 1))
    (hmag : ((2 ^ 23 + M.toNat : Nat) : ℚ) * 2 ^ ((E.toNat : Int) - 150) =
      roundHalfUp m s * 2 ^ (k + s + 1))
    (hpos : 0 < E.toNat) (hlt : E.toNat < 255) : (⟨neg, E, M⟩ : Pattern 8 23).Near q := by
  have hzero : E ≠ 0 := fun h => Nat.ne_of_gt hpos (congrArg BitVec.toNat h)
  have hones : E ≠ BitVec.allOnes 8 := fun h => Nat.ne_of_lt hlt (congrArg BitVec.toNat h)
  refine Pattern.near_of_magnitude (x := ⟨neg, E, M⟩) hones hsign hq hlow hhigh ?_
  unfold Pattern.magnitude
  rw [significand_normal (x := ⟨neg, E, M⟩) hzero, place_normal (x := ⟨neg, E, M⟩) hzero]
  exact hmag

/-- **The product of two normal numbers** is rounded to within one unit, when the exponents
are in the middle. -/
theorem product_near (ha : (float a).IsNormal) (hb : (float b).IsNormal)
    (hlow : 127 < expSum a b) (hhigh : expSum a b < 255) :
    (float (product a b)).Near (exact a b) := by
  obtain ⟨hga, hea⟩ := isNormal_iff.mp ha
  obtain ⟨hgb, heb⟩ := isNormal_iff.mp hb
  have hsum := expAB_normal hea heb
  have he : (stages a b).exp.toNat = expSum a b - 127 := by
    rw [← hsum]
    exact expP_middle (by omega) (by omega)
  have hd : (stages a b).deloc = 0 := deloc2_zero (by omega)
  obtain ⟨h46, h48⟩ := signR_bounds hea heb
  have hexact := abs_exact hea heb
  have hsign := exact_sign hea heb
  rw [float_good hga hgb, expOut, mantOut, hd]
  generalize (stages a b).signR = p at h46 h48 hexact
  generalize (stages a b).exp = e at he
  by_cases h47 : 2 ^ 47 ≤ p.toNat
  · obtain ⟨hexp, hfrac⟩ := normalises_high h47 h48 (e := e) (by omega)
    refine near_of_stages (k := (expSum a b : Int) - 300) (s := 23) hsign hexact h47 (by omega) ?_
      (by omega) (by omega)
    have hplace : ((e.toNat + 1 : Nat) : Int) - 150 =
        (expSum a b : Int) - 300 + (23 : Nat) + 1 := by omega
    rw [hfrac, hexp, hplace]
  · obtain ⟨⟨hle, hge⟩, hsig⟩ := normalises_low h46 (not_le.mp h47) (e := e) (by omega)
    refine near_of_stages (k := (expSum a b : Int) - 300) (s := 22) hsign hexact h46
      (not_le.mp h47) ?_ (by omega) (by omega)
    have hplace : (expSum a b : Int) - 300 + (22 : Nat) + 1 = (e.toNat : Int) - 150 := by omega
    have hsig : ((2 ^ 23 + (mant e 0 p).toNat : Nat) : ℚ) * 2 ^ (expStg3 e 0 p).toNat =
        roundHalfUp p.toNat 22 * 2 ^ e.toNat := by exact_mod_cast hsig
    rw [hplace, zpow_sub₀ two_ne_zero, zpow_sub₀ two_ne_zero, zpow_natCast, zpow_natCast,
      ← mul_div_assoc, hsig, mul_div_assoc]

/-- **Exponents that add up to 255 or more** come out as ones or as zeros. -/
theorem exp_of_large {e : BitVec 8} (he : e = BitVec.allOnes 8) (h46 : 2 ^ 46 ≤ p.toNat) :
    expStg3 e 0 p = BitVec.allOnes 8 ∨ expStg3 e 0 p = 0 := by
  rw [expStg3_large h46, he]
  split
  · exact Or.inr rfl
  · exact Or.inl rfl

theorem not_near_of_large (ha : (float a).IsNormal) (hb : (float b).IsNormal)
    (hlarge : 255 ≤ expSum a b) : ¬ (float (product a b)).Near (exact a b) := by
  obtain ⟨hga, hea⟩ := isNormal_iff.mp ha
  obtain ⟨hgb, heb⟩ := isNormal_iff.mp hb
  have hsum := expAB_normal hea heb
  have hd : (stages a b).deloc = 0 := deloc2_zero (by omega)
  have he : (stages a b).exp = BitVec.allOnes 8 := expP_large (by omega)
  obtain ⟨h46, -⟩ := signR_bounds hea heb
  have hexact := abs_exact hea heb
  rw [float_good hga hgb, expOut, mantOut, hd]
  rcases exp_of_large he h46 with hones | hzero
  · exact fun hnear => hnear.finite hones
  · refine Pattern.not_near_of_tiny (by decide) hzero ?_
    have h46 : (2 : ℚ) ^ 46 ≤ (stages a b).signR.toNat := by exact_mod_cast h46
    calc (2 : ℚ) * minNormal 8 = 2 ^ (-125 : Int) := by
          unfold minNormal bias
          norm_num
      _ ≤ 2 ^ (46 + ((expSum a b : Int) - 300)) :=
          zpow_le_zpow_right₀ one_le_two (by omega)
      _ = 2 ^ 46 * 2 ^ ((expSum a b : Int) - 300) := by
          rw [zpow_add₀ two_ne_zero]
          rfl
      _ ≤ (stages a b).signR.toNat * 2 ^ ((expSum a b : Int) - 300) :=
          mul_le_mul_of_nonneg_right h46 (two_zpow_pos _).le
      _ = |exact a b| := hexact.symm

/-- A normal product of exponents that add up to 127 at most. -/
theorem small_exponents (hea : expOf a ≠ 0) (heb : expOf b ≠ 0) (hsmall : expSum a b ≤ 127)
    (hrange : InNormalRange 8 23 (exact a b)) :
    expSum a b = 127 ∧ 2 ^ 47 ≤ (stages a b).signR.toNat := by
  have hmin : (2 : ℚ) ^ (-126 : Int) ≤ |exact a b| := by
    have hmin := hrange.1
    unfold minNormal bias at hmin
    norm_num at hmin ⊢
    exact hmin
  have hexact := abs_exact hea heb
  obtain ⟨-, h48⟩ := signR_bounds hea heb
  have hlt : ∀ n : Nat, (stages a b).signR.toNat < 2 ^ n →
      (2 : ℚ) ^ (-126 : Int) < 2 ^ ((n : Int) + ((expSum a b : Int) - 300)) := by
    intro n hn
    have hn : ((stages a b).signR.toNat : ℚ) < 2 ^ n := by exact_mod_cast hn
    calc (2 : ℚ) ^ (-126 : Int) ≤ |exact a b| := hmin
      _ = (stages a b).signR.toNat * 2 ^ ((expSum a b : Int) - 300) := hexact
      _ < 2 ^ n * 2 ^ ((expSum a b : Int) - 300) :=
          mul_lt_mul_of_pos_right hn (two_zpow_pos _)
      _ = 2 ^ ((n : Int) + ((expSum a b : Int) - 300)) := by
          rw [zpow_add₀ two_ne_zero, zpow_natCast]
  have hsum : expSum a b = 127 := by
    have h := (zpow_lt_zpow_iff_right₀ one_lt_two).mp (hlt 48 (by omega))
    omega
  refine ⟨hsum, ?_⟩
  by_contra hno
  have h := (zpow_lt_zpow_iff_right₀ one_lt_two).mp (hlt 47 (not_le.mp hno))
  omega

theorem not_near_of_small (ha : (float a).IsNormal) (hb : (float b).IsNormal)
    (hsmall : expSum a b ≤ 127) (hrange : InNormalRange 8 23 (exact a b)) :
    ¬ (float (product a b)).Near (exact a b) := by
  obtain ⟨hga, hea⟩ := isNormal_iff.mp ha
  obtain ⟨hgb, heb⟩ := isNormal_iff.mp hb
  obtain ⟨hsum, h47⟩ := small_exponents hea heb hsmall hrange
  obtain ⟨h46, h48⟩ := signR_bounds hea heb
  have hexact := abs_exact hea heb
  have hx : expAB a b = 127 := BitVec.eq_of_toNat_eq ((expAB_normal hea heb).trans hsum)
  have hd : (stages a b).deloc = 1 := by
    show deloc2 (desloc (expAB a b)) = 1
    rw [hx]
    rfl
  have he : (stages a b).exp = 0 := by
    show (expP (expAB a b)).extractLsb' 0 8 = 0
    rw [hx]
    rfl
  have hexp : expStg3 0 1 (stages a b).signR = 0 := by
    rw [expStg3_large h46]
    exact if_neg fun h => absurd h.2 (by decide)
  have hd4 : deloc4 1 (stages a b).signR = 0 := by
    unfold deloc4
    rw [if_pos ⟨grows_iff.mpr (Or.inl h47), by decide⟩]
    rfl
  have hround := fracRounded_high h47
  have hones : expStg3 0 1 (stages a b).signR ≠ BitVec.allOnes 8 := by
    rw [hexp]
    decide
  have hm := mant_toNat hones hd4 (by omega)
  rw [float_good hga hgb, expOut, mantOut, hd, he]
  intro hnear
  have hle := hnear.le
  have hulp : ulp 23 (exact a b) = 2 ^ 24 * 2 ^ (-173 : Int) := by
    rw [ulp_scaled hexact h47 (by omega), hsum]
    norm_num
  have hmag := magnitude_zero (x := ⟨signOf a ^^ signOf b, expStg3 0 1 (stages a b).signR,
    mant 0 1 (stages a b).signR⟩) hexp
  have hplace : ((127 : Nat) : Int) - 300 = -173 := rfl
  rw [hexact, hmag, hulp, hsum, hplace, ← add_mul] at hle
  have hle : ((stages a b).signR.toNat : ℚ) ≤
      (mant 0 1 (stages a b).signR).toNat * 2 ^ 24 + 2 ^ 24 :=
    le_of_mul_le_mul_right hle (two_zpow_pos (-173))
  have hle : (stages a b).signR.toNat ≤ (mant 0 1 (stages a b).signR).toNat * 2 ^ 24 + 2 ^ 24 := by
    exact_mod_cast hle
  omega

-- ---------------------------------------------------------------------------
-- An infinity as the second operand
-- ---------------------------------------------------------------------------

/-- The exponent of an infinity takes the sum over the top. -/
theorem stages_inf (hb : expOf b = BitVec.allOnes 8) :
    (stages a b).exp = BitVec.allOnes 8 ∧ (stages a b).deloc = 0 := by
  have hexp9 : (exp9 b).toNat = 255 := by
    unfold exp9 denorm
    rw [hb]
    rfl
  have hpos : 1 ≤ (exp9 a).toNat ∧ (exp9 a).toNat ≤ 255 := by
    by_cases h : expOf a = 0
    · unfold exp9 denorm
      rw [h]
      decide
    · have hlt := (expOf a).isLt
      have hne : (expOf a).toNat ≠ 0 := fun h0 => h (BitVec.eq_of_toNat_eq h0)
      rw [exp9_normal h]
      omega
  have hsum : (expAB a b).toNat = (exp9 a).toNat + 255 := by
    unfold expAB
    rw [BitVec.toNat_add, hexp9]
    omega
  exact ⟨expP_large (by omega), deloc2_zero (by omega)⟩

theorem signR_inf (hb : expOf b = BitVec.allOnes 8) (hm : mantOf b = 0) :
    (stages a b).signR.toNat = (frac24 a).toNat * 2 ^ 23 := by
  show (fracP (frac24 a) (frac24 b)).toNat = _
  rw [fracP_toNat, frac24_normal (a := b) (by rw [hb]; decide), hm]
  rfl

/-- **A normal number times an infinity** keeps the exponent of ones. -/
theorem exp_normal_inf (ha : expOf a ≠ 0) (hb : fpType b = .isInf) :
    expOut a b = BitVec.allOnes 8 := by
  obtain ⟨he, hm⟩ := fpType_isInf.mp hb
  obtain ⟨hexp, hd⟩ := @stages_inf a b he
  have hsig := @signR_inf a b he hm
  have hlt := (mantOf a).isLt
  rw [frac24_normal ha] at hsig
  rw [expOut, hexp, hd, expStg3_large (by omega), if_neg]
  rintro ⟨hgrows, -⟩
  have hround := fracRounded_low (p := (stages a b).signR) (by omega)
  rcases grows_iff.mp hgrows with h | h <;> omega

/-- **A denormalized number times an infinity** has none. -/
theorem exp_denormal_inf (ha : expOf a = 0) (hb : fpType b = .isInf) :
    expOut a b = 0 := by
  obtain ⟨he, hm⟩ := fpType_isInf.mp hb
  have hsig := @signR_inf a b he hm
  have hlt := (mantOf a).isLt
  rw [frac24_zero ha] at hsig
  exact expStg3_small (by omega)

-- ---------------------------------------------------------------------------
-- The selector
-- ---------------------------------------------------------------------------

section

variable {s t : FpType} {e : BitVec 8} {m : BitVec 23}

/-- The selector makes a NaN for a NaN, except a second one that it does not look at. -/
theorem check_isNaN (hones : e = BitVec.allOnes 8 → m = 0) :
    ((check s t e m).1 = BitVec.allOnes 8 ∧ (check s t e m).2 ≠ 0) ↔
      s = .isNaN ∨ s = .isGood ∧ t = .isNaN ∨ s = .isInf ∧ t = .isZero ∨
        s = .isZero ∧ t = .isInf := by
  have hgood : ¬ (e = BitVec.allOnes 8 ∧ m ≠ 0) := fun h => h.2 (hones h.1)
  cases s <;> cases t <;> simp [check] <;> exact fun h => hones h

theorem check_comm (hnan : ¬ (s = .isNaN ∧ (t = .isInf ∨ t = .isZero)))
    (hnan' : ¬ (t = .isNaN ∧ (s = .isInf ∨ s = .isZero)))
    (hinf : s = .isInf ∧ t = .isGood ∨ t = .isInf ∧ s = .isGood → e = BitVec.allOnes 8 ∧ m = 0) :
    check s t e m = check t s e m := by
  cases s <;> cases t <;> simp_all [check]

theorem checkSig_comm {x y : Bool} : checkSig s t x y = checkSig t s y x := by
  cases s <;> cases t <;> simp [checkSig, Bool.xor_comm]

end

-- ---------------------------------------------------------------------------
-- Right and handled
-- ---------------------------------------------------------------------------

/-- An infinity and a number that is not denormalized. -/
theorem out_inf (ha : fpType a = .isGood) (hb : fpType b = .isInf)
    (hden : ¬ (float a).IsDenormal) : expOut a b = BitVec.allOnes 8 ∧ mantOut a b = 0 := by
  have hexp : expOut a b = BitVec.allOnes 8 :=
    exp_normal_inf (fun h => hden (isDenormal_iff.mpr ⟨ha, h⟩)) hb
  exact ⟨hexp, mantOut_of_ones hexp⟩

theorem product_comm (h : Handled a b) : product a b = product b a := by
  obtain ⟨hexp, hmant⟩ := @out_comm b a
  have hcheck : check (fpType a) (fpType b) (expOut a b) (mantOut a b) =
      check (fpType b) (fpType a) (expOut a b) (mantOut a b) := by
    refine check_comm ?_ ?_ ?_
    · rw [fpType_isNaN, fpType_isInf, fpType_isZero]
      exact h.nan.1
    · rw [fpType_isNaN, fpType_isInf, fpType_isZero]
      exact h.nan.2
    · rintro (⟨ha, hb⟩ | ⟨hb, ha⟩)
      · rw [← hexp, ← hmant]
        exact out_inf hb ha fun hden => h.inf.1 ⟨fpType_isInf.mp ha, hden⟩
      · exact out_inf ha hb fun hden => h.inf.2 ⟨fpType_isInf.mp hb, hden⟩
  show BitVec.ofBool (checkSig _ _ _ _) ++ (check _ _ (expOut a b) (mantOut a b)).1 ++
    (check _ _ (expOut a b) (mantOut a b)).2 = BitVec.ofBool (checkSig _ _ _ _) ++
    (check _ _ (expOut b a) (mantOut b a)).1 ++ (check _ _ (expOut b a) (mantOut b a)).2
  rw [hexp, hmant]
  exact congrArg₂ (fun sig (p : BitVec 8 × BitVec 23) => BitVec.ofBool sig ++ p.1 ++ p.2)
    checkSig_comm hcheck

theorem product_isNaN :
    (float (product a b)).IsNaN ↔
      fpType a = .isNaN ∨ fpType a = .isGood ∧ fpType b = .isNaN ∨
        fpType a = .isInf ∧ fpType b = .isZero ∨ fpType a = .isZero ∧ fpType b = .isInf := by
  rw [float_product]
  exact check_isNaN mantOut_of_ones

theorem product_nan (h : Handled a b) :
    (float (product a b)).IsNaN ↔
      (float a).IsNaN ∨ (float b).IsNaN ∨ (float a).IsInf ∧ (float b).IsZero ∨
        (float a).IsZero ∧ (float b).IsInf := by
  have hnan := h.nan.2
  rw [← fpType_isNaN, ← fpType_isInf, ← fpType_isZero] at hnan
  rw [product_isNaN, ← fpType_isNaN, ← fpType_isNaN, ← fpType_isInf, ← fpType_isZero,
    ← fpType_isZero, ← fpType_isInf]
  cases hb : fpType b with
  | isNaN =>
    cases ha : fpType a with
    | isInf => exact absurd ⟨hb, Or.inl ha⟩ hnan
    | isZero => exact absurd ⟨hb, Or.inr ha⟩ hnan
    | isNaN => simp
    | isGood => simp
  | isInf => simp
  | isZero => simp
  | isGood => simp

theorem product_inf (h : Handled a b)
    (hinf : (float a).IsInf ∧ ¬ (float b).IsNaN ∧ ¬ (float b).IsZero ∨
      (float b).IsInf ∧ ¬ (float a).IsNaN ∧ ¬ (float a).IsZero) :
    (float (product a b)).IsInf ∧ signOf (product a b) = (signOf a ^^ signOf b) := by
  have hsign : signOf (product a b) = checkSig (fpType a) (fpType b) (signOf a) (signOf b) :=
    congrArg Pattern.neg float_product
  rw [hsign, float_product]
  rw [← fpType_isNaN, ← fpType_isNaN, ← fpType_isInf, ← fpType_isInf, ← fpType_isZero,
    ← fpType_isZero] at hinf
  rcases hinf with ⟨ha, hnan, hzero⟩ | ⟨hb, hnan, hzero⟩
  · rw [ha]
    cases hb : fpType b with
    | isNaN => exact absurd hb hnan
    | isZero => exact absurd hb hzero
    | isInf => exact ⟨⟨rfl, rfl⟩, rfl⟩
    | isGood => exact ⟨⟨rfl, rfl⟩, rfl⟩
  · rw [hb]
    cases ha : fpType a with
    | isNaN => exact absurd ha hnan
    | isZero => exact absurd ha hzero
    | isInf => exact ⟨⟨rfl, rfl⟩, rfl⟩
    | isGood =>
      exact ⟨out_inf ha hb fun hden => h.inf.2 ⟨fpType_isInf.mp hb, hden⟩, rfl⟩

theorem product_zero (hzero : (float a).IsZero ∧ (float b).IsFinite ∨
    (float b).IsZero ∧ (float a).IsFinite) : (float (product a b)).IsZero := by
  rw [float_product]
  rw [← fpType_isZero, ← fpType_isZero, isFinite_iff, isFinite_iff] at hzero
  rcases hzero with ⟨ha, hb | hb⟩ | ⟨hb, ha | ha⟩ <;> rw [ha, hb] <;> exact ⟨rfl, rfl⟩

/-- **The multiplier is right for exactly the operands that are handled**, whatever else goes
on in the periods of the multiplication. -/
theorem mult_right_iff (s : Schedule) (a b : Word) : Right s a b ↔ Handled a b := by
  have hdelivers : ∀ x y, s.delivers x y = product x y :=
    fun x y => congrArg Stg3.prod (s.ends_stg3 x y)
  constructor
  · intro h
    have hcomm := h.comm
    have hnan := h.nan
    have hinf := h.inf
    have hnear := h.near
    simp only [hdelivers] at hcomm hnan hinf hnear
    refine ⟨⟨?_, ?_⟩, ⟨?_, ?_⟩, ?_⟩
    · -- a NaN as the first operand is one in the other order too
      rintro ⟨ha, hb⟩
      rw [hcomm, product_isNaN] at hnan
      have hall := hnan.mpr (Or.inl ha)
      rw [← fpType_isNaN] at ha
      rw [← fpType_isInf, ← fpType_isZero] at hb
      rcases hb with hb | hb <;> rw [ha, hb] at hall <;> simp at hall
    · rintro ⟨hb, ha⟩
      have hall := product_isNaN.mp (hnan.mpr (Or.inr (Or.inl hb)))
      rw [← fpType_isNaN] at hb
      rw [← fpType_isInf, ← fpType_isZero] at ha
      rcases ha with ha | ha <;> rw [ha, hb] at hall <;> simp at hall
    · rintro ⟨ha, hb⟩
      have hne : ¬ (float b).IsNaN ∧ ¬ (float b).IsZero :=
        ⟨fun hn => hb.2 (absurd (hn.1.symm.trans hb.1) (by decide)), fun hz => hb.2 hz.2⟩
      obtain ⟨hgood, hzero⟩ := isDenormal_iff.mp hb
      have hone := (hinf (Or.inl ⟨ha, hne⟩)).1.1
      rw [hcomm, float_product, hgood, fpType_isInf.mpr ha] at hone
      have hone : expOut b a = BitVec.allOnes 8 := hone
      rw [exp_denormal_inf hzero (fpType_isInf.mpr ha)] at hone
      nomatch hone
    · rintro ⟨hb, ha⟩
      have hne : ¬ (float a).IsNaN ∧ ¬ (float a).IsZero :=
        ⟨fun hn => ha.2 (absurd (hn.1.symm.trans ha.1) (by decide)), fun hz => ha.2 hz.2⟩
      obtain ⟨hgood, hzero⟩ := isDenormal_iff.mp ha
      have hone := (hinf (Or.inr ⟨hb, hne⟩)).1.1
      rw [float_product, hgood, fpType_isInf.mpr hb] at hone
      have hone : expOut a b = BitVec.allOnes 8 := hone
      rw [exp_denormal_inf hzero (fpType_isInf.mpr hb)] at hone
      nomatch hone
    · intro ha hb hrange
      refine ⟨?_, ?_⟩
      · by_contra hno
        exact not_near_of_small ha hb (not_lt.mp hno) hrange (hnear ha hb hrange)
      · by_contra hno
        exact not_near_of_large ha hb (not_lt.mp hno) (hnear ha hb hrange)
  · intro h
    have hready := congrArg Stg3.pronto (s.ends_stg3 a b)
    refine ⟨hready, ?_, ?_, ?_, ?_, ?_⟩
    all_goals simp only [hdelivers]
    · exact product_comm h
    · exact product_nan h
    · exact product_inf h
    · exact product_zero
    · intro ha hb hrange
      obtain ⟨hlow, hhigh⟩ := h.exp ha hb hrange
      exact product_near ha hb hlow hhigh

/-- A multiplication right after a reset. -/
def afterReset : Schedule where
  start := .reset
  idle := ⟨rfl, rfl, rfl, rfl⟩
  selcA := false
  waits := []
  selcB := false
  after := (⟨0, false, false, false⟩, ⟨0, false, false, true⟩, ⟨0, false, false, true⟩)

/-- Twice two is delivered as an infinity. -/
theorem not_right : ¬ ∀ (s : Schedule) (a b : Word), Right s a b := by
  intro h
  have habs : |exact 0x40000000 0x40000000| = 4 := by
    have hsig : (stages 0x40000000 0x40000000).signR.toNat = 2 ^ 46 := by decide
    have hsum : expSum 0x40000000 0x40000000 = 256 := by decide
    rw [abs_exact (by decide) (by decide), hsig, hsum]
    norm_num
  have hrange : InNormalRange 8 23 (exact 0x40000000 0x40000000) := by
    unfold InNormalRange minNormal maxNormal bias
    rw [habs]
    norm_num
  have hnear := (h afterReset 0x40000000 0x40000000).near (by decide) (by decide) hrange
  exact absurd hnear.finite (by decide +kernel)

end Xinu.Fpu
