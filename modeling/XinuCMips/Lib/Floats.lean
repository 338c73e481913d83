import Mathlib.Data.Int.Log
import Mathlib.Data.Rat.Floor
import Mathlib.Tactic.Ring
import Mathlib.Tactic.Linarith
import Mathlib.Tactic.NormNum

/-!
# Binary floating point

Patterns with `e` bits of exponent and `f` of fraction, the rationals they denote, and how
far a rounded significand is from the exact one.

* `Floats.ulp_scaled`        — the unit in the last place of a scaled integer;
* `Floats.round_within_ulp`  — rounding half up stays within one unit;
* `Floats.Pattern.near_of_magnitude`, `Floats.Pattern.not_near_of_tiny`
                             — when a pattern is within one unit of a number.
-/

namespace Floats

variable {e f : Nat}

/-- A sign, an exponent and a fraction. -/
structure Pattern (e f : Nat) where
  neg : Bool
  exp : BitVec e
  frac : BitVec f
  deriving DecidableEq

def bias (e : Nat) : Nat := 2 ^ (e - 1) - 1

/-- The unit in the last place of a number with `f` bits of fraction. -/
def ulp (f : Nat) (q : ℚ) : ℚ := 2 ^ (Int.log 2 |q| - f)

/-- The least and the greatest normal number. -/
def minNormal (e : Nat) : ℚ := 2 ^ (1 - (bias e : Int))

def maxNormal (e f : Nat) : ℚ := (2 ^ (f + 1) - 1) * 2 ^ (2 ^ e - 2 - (bias e + f : Int))

def InNormalRange (e f : Nat) (q : ℚ) : Prop := minNormal e ≤ |q| ∧ |q| ≤ maxNormal e f

/-- `m` without its last `s + 1` bits, rounded half up. -/
def roundHalfUp (m s : Nat) : Nat := (m / 2 ^ s + 1) / 2

-- ---------------------------------------------------------------------------
-- Units and rounding
-- ---------------------------------------------------------------------------

variable {q : ℚ} {m n s : Nat} {k : Int}

theorem two_zpow_pos (k : Int) : (0 : ℚ) < 2 ^ k := zpow_pos (by norm_num) k

theorem ulp_eq {k : Int} (hlow : 2 ^ k ≤ |q|) (hhigh : |q| < 2 ^ (k + 1)) :
    ulp f q = 2 ^ (k - f) := by
  have hq : 0 < |q| := lt_of_lt_of_le (two_zpow_pos k) hlow
  have hle : k ≤ Int.log 2 |q| :=
    (Int.zpow_le_iff_le_log one_lt_two hq).mp (by exact_mod_cast hlow)
  have hlt : Int.log 2 |q| < k + 1 :=
    (Int.lt_zpow_iff_log_lt one_lt_two hq).mp (by exact_mod_cast hhigh)
  obtain hlog : Int.log 2 |q| = k := by omega
  unfold ulp
  rw [hlog]

/-- **The unit of a scaled integer** with `n + 1` bits. -/
theorem ulp_scaled (hq : |q| = m * 2 ^ k) (hlow : 2 ^ n ≤ m) (hhigh : m < 2 ^ (n + 1)) :
    ulp f q = 2 ^ (n + k - f) := by
  have hlow : (2 : ℚ) ^ n ≤ m := by exact_mod_cast hlow
  have hhigh : (m : ℚ) < 2 ^ (n + 1) := by exact_mod_cast hhigh
  refine ulp_eq ?_ ?_
  · rw [hq, zpow_add₀ two_ne_zero, zpow_natCast]
    exact mul_le_mul_of_nonneg_right hlow (two_zpow_pos k).le
  · have hsucc : (n : Int) + 1 = ((n + 1 : Nat) : Int) := rfl
    rw [hq, add_right_comm, zpow_add₀ two_ne_zero, hsucc, zpow_natCast]
    exact mul_lt_mul_of_pos_right hhigh (two_zpow_pos k)

/-- A unit is small against its number. -/
theorem ulp_le (hq : q ≠ 0) : ulp f q ≤ |q| / 2 ^ f := by
  have hlog := Int.zpow_log_le_self (R := ℚ) (b := 2) one_lt_two (abs_pos.mpr hq)
  unfold ulp
  rw [zpow_sub₀ two_ne_zero, zpow_natCast]
  exact div_le_div_of_nonneg_right (by exact_mod_cast hlog) (by positivity)

/-- Half of a unit, in whole numbers. -/
theorem roundHalfUp_bounds (m s : Nat) :
    roundHalfUp m s * 2 ^ (s + 1) ≤ m + 2 ^ s ∧ m ≤ roundHalfUp m s * 2 ^ (s + 1) + 2 ^ s := by
  unfold roundHalfUp
  have hdiv := Nat.div_add_mod m (2 ^ s)
  have hmod := Nat.mod_lt m (Nat.two_pow_pos s)
  obtain ⟨r, hr⟩ : ∃ r, (m / 2 ^ s + 1) / 2 = r := ⟨_, rfl⟩
  have hcases : m / 2 ^ s = 2 * r ∨ m / 2 ^ s + 1 = 2 * r := by omega
  have hscale : r * 2 ^ (s + 1) = 2 * r * 2 ^ s := by ring
  rw [hr, hscale]
  rcases hcases with h | h
  · rw [h, mul_comm] at hdiv
    omega
  · rw [← h, add_mul, one_mul, mul_comm]
    omega

/-- **Rounding half up** stays within one unit. -/
theorem round_within_ulp (hq : |q| = m * 2 ^ k) (hlow : 2 ^ (f + 1 + s) ≤ m)
    (hhigh : m < 2 ^ (f + 1 + s + 1)) :
    |(roundHalfUp m s : ℚ) * 2 ^ (k + s + 1) - (|q|)| ≤ ulp f q := by
  obtain ⟨hle, hge⟩ := roundHalfUp_bounds m s
  have hle : (roundHalfUp m s : ℚ) * 2 ^ (s + 1) ≤ m + 2 ^ s := by exact_mod_cast hle
  have hge : (m : ℚ) ≤ roundHalfUp m s * 2 ^ (s + 1) + 2 ^ s := by exact_mod_cast hge
  have hhalf : |(roundHalfUp m s : ℚ) * 2 ^ (s + 1) - m| ≤ 2 ^ s :=
    abs_sub_le_iff.mpr ⟨by linarith, by linarith⟩
  have hsplit : (2 : ℚ) ^ (k + s + 1) = 2 ^ (s + 1) * 2 ^ k := by
    have hsucc : (s : Int) + 1 = ((s + 1 : Nat) : Int) := rfl
    rw [add_assoc, zpow_add₀ two_ne_zero, mul_comm, hsucc, zpow_natCast]
  have hunit : ulp f q = 2 * (2 ^ s * 2 ^ k) := by
    rw [ulp_scaled hq hlow hhigh, ← zpow_natCast, ← zpow_add₀ two_ne_zero,
      ← zpow_one_add₀ two_ne_zero]
    congr 1
    push_cast
    ring
  calc |(roundHalfUp m s : ℚ) * 2 ^ (k + s + 1) - (|q|)|
      = |((roundHalfUp m s : ℚ) * 2 ^ (s + 1) - m) * 2 ^ k| := by
        rw [hq, hsplit]
        congr 1
        ring
    _ = |(roundHalfUp m s : ℚ) * 2 ^ (s + 1) - m| * 2 ^ k := by
        rw [abs_mul, abs_of_pos (two_zpow_pos k)]
    _ ≤ 2 ^ s * 2 ^ k := mul_le_mul_of_nonneg_right hhalf (two_zpow_pos k).le
    _ ≤ ulp f q := by
        have hpos : (0 : ℚ) < 2 ^ s * 2 ^ k := mul_pos (by positivity) (two_zpow_pos k)
        rw [hunit]
        linarith

-- ---------------------------------------------------------------------------
-- Patterns
-- ---------------------------------------------------------------------------

namespace Pattern

section

variable (x : Pattern e f)

def IsNaN : Prop := x.exp = BitVec.allOnes e ∧ x.frac ≠ 0

def IsInf : Prop := x.exp = BitVec.allOnes e ∧ x.frac = 0

def IsFinite : Prop := x.exp ≠ BitVec.allOnes e

def IsZero : Prop := x.exp = 0 ∧ x.frac = 0

def IsDenormal : Prop := x.exp = 0 ∧ x.frac ≠ 0

def IsNormal : Prop := x.exp ≠ 0 ∧ x.exp ≠ BitVec.allOnes e

instance : Decidable x.IsNaN := inferInstanceAs (Decidable (_ ∧ _))
instance : Decidable x.IsInf := inferInstanceAs (Decidable (_ ∧ _))
instance : Decidable x.IsFinite := inferInstanceAs (Decidable (_ ≠ _))
instance : Decidable x.IsZero := inferInstanceAs (Decidable (_ ∧ _))
instance : Decidable x.IsDenormal := inferInstanceAs (Decidable (_ ∧ _))
instance : Decidable x.IsNormal := inferInstanceAs (Decidable (_ ∧ _))

/-- The fraction with its hidden bit. -/
def significand : Nat := if x.exp = 0 then x.frac.toNat else 2 ^ f + x.frac.toNat

/-- The exponent of the last place. -/
def place : Int := (max 1 x.exp.toNat : Nat) - (bias e + f : Int)

def magnitude : ℚ := x.significand * 2 ^ x.place

/-- The rational that a finite pattern denotes. -/
def value : ℚ := if x.neg then -x.magnitude else x.magnitude

/-- **Within one unit in the last place** of a number, and of its sign. -/
structure Near (q : ℚ) : Prop where
  finite : x.IsFinite
  close : |x.value - q| ≤ ulp f q
  sign : x.neg = true ↔ q < 0

end

variable {x y : Pattern e f}

theorem magnitude_nonneg : 0 ≤ x.magnitude :=
  mul_nonneg (Nat.cast_nonneg _) (zpow_nonneg (by norm_num) _)

theorem abs_value : |x.value| = x.magnitude := by
  unfold value
  split
  · rw [abs_neg, abs_of_nonneg magnitude_nonneg]
  · rw [abs_of_nonneg magnitude_nonneg]

/-- A pattern of the right sign is as far off as its magnitude is. -/
theorem abs_value_sub (hsign : x.neg = true ↔ q < 0) :
    |x.value - q| = |x.magnitude - (|q|)| := by
  unfold value
  by_cases hneg : x.neg = true
  · rw [if_pos hneg, abs_of_neg (hsign.mp hneg), abs_sub_comm]
    congr 1
    ring
  · rw [if_neg hneg, abs_of_nonneg (not_lt.mp (hneg ∘ hsign.mpr))]

/-- **The product** of two finite patterns. -/
theorem abs_mul_value : |x.value * y.value| =
    ((x.significand * y.significand : Nat) : ℚ) * 2 ^ (x.place + y.place) := by
  rw [abs_mul, abs_value, abs_value, zpow_add₀ (by norm_num)]
  unfold magnitude
  push_cast
  ring

theorem magnitude_pos (h : x.significand ≠ 0) : 0 < x.magnitude :=
  mul_pos (Nat.cast_pos.mpr (Nat.pos_of_ne_zero h)) (zpow_pos (by norm_num) _)

theorem mul_value_neg (hx : x.significand ≠ 0) (hy : y.significand ≠ 0) :
    (x.neg ^^ y.neg) = true ↔ x.value * y.value < 0 := by
  have hx := magnitude_pos hx
  have hy := magnitude_pos hy
  unfold value
  cases x.neg <;> cases y.neg
  · simpa using (mul_pos hx hy).le
  · simpa using mul_pos hx hy
  · simpa using mul_pos hx hy
  · simpa using (mul_pos hx hy).le

/-- **A rounded significand** is near what it was rounded from. -/
theorem near_of_magnitude (hfin : x.IsFinite) (hsign : x.neg = true ↔ q < 0)
    (hq : |q| = m * 2 ^ k) (hlow : 2 ^ (f + 1 + s) ≤ m) (hhigh : m < 2 ^ (f + 1 + s + 1))
    (hmag : x.magnitude = roundHalfUp m s * 2 ^ (k + s + 1)) : x.Near q := by
  refine ⟨hfin, ?_, hsign⟩
  rw [abs_value_sub hsign, hmag]
  exact round_within_ulp hq hlow hhigh

theorem Near.le (h : x.Near q) : |q| ≤ x.magnitude + ulp f q := by
  have hclose := h.close
  rw [abs_value_sub h.sign] at hclose
  linarith [(abs_sub_le_iff.mp hclose).2]

/-- Without its hidden bit a number is less than any normal one. -/
theorem magnitude_lt_minNormal (h : x.exp = 0) : x.magnitude < minNormal e := by
  have hsig : (x.significand : ℚ) < 2 ^ f := by
    unfold significand
    rw [if_pos h]
    exact_mod_cast x.frac.isLt
  have hplace : x.place = 1 - bias e - f := by
    unfold place
    rw [h, BitVec.ofNat_eq_ofNat, BitVec.toNat_zero]
    push_cast
    omega
  have hmin : minNormal e = 2 ^ f * 2 ^ (1 - (bias e : Int) - f) := by
    unfold minNormal
    rw [zpow_sub₀ two_ne_zero _ (f : Int), zpow_natCast]
    field_simp
  unfold magnitude
  rw [hplace, hmin]
  exact mul_lt_mul_of_pos_right hsig (two_zpow_pos _)

/-- **A number that lost its hidden bit** is not near a normal one of twice the least. -/
theorem not_near_of_tiny (hf : 1 ≤ f) (h : x.exp = 0) (hq : 2 * minNormal e ≤ |q|) :
    ¬ x.Near q := by
  intro hnear
  have hmin : 0 < minNormal e := two_zpow_pos _
  have hq0 : q ≠ 0 := by
    rintro rfl
    rw [abs_zero] at hq
    linarith
  have htwo : (2 : ℚ) ≤ 2 ^ f := by
    calc (2 : ℚ) = 2 ^ 1 := (pow_one 2).symm
      _ ≤ 2 ^ f := pow_le_pow_right₀ one_le_two hf
  have hulp : ulp f q ≤ |q| / 2 :=
    (ulp_le hq0).trans (div_le_div_of_nonneg_left (abs_nonneg q) two_pos htwo)
  linarith [hnear.le, magnitude_lt_minNormal h]

end Pattern

end Floats
