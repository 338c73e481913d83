import Mathlib.Data.Nat.Digits.Lemmas

/-!
# Numerals

A conversion to text works out a fixed number of digits, least significant first, and
drops the zeros in front.

* `Numerals.residues_eq`    — the digits worked out are those of the number, and zeros;
* `Numerals.strip_residues` — without the zeros in front they are its numeral;
* `Numerals.value_numeral`  — a numeral has the value of its number;
* `Numerals.IsNumeral.eq_numeral` — no other numeral has it.
-/

namespace Numerals

/-- The first `k` digits of `n`, least significant first. -/
def residues (b : Nat) : Nat → Nat → List Nat
  | 0, _ => []
  | k + 1, n => n % b :: residues b k (n / b)

/-- The numeral of `n`, most significant digit first. -/
def numeral (b n : Nat) : List Nat := if n = 0 then [0] else (Nat.digits b n).reverse

/-- A list of digits, least significant first, without the zeros in front; one digit stays. -/
def strip (l : List Nat) : List Nat :=
  match l.reverse.dropWhile (· == 0) with
  | [] => l.take 1
  | m => m

/-- The value of digits, most significant first, after `acc`. -/
def value (b acc : Nat) (l : List Nat) : Nat := l.foldl (fun v d => v * b + d) acc

attribute [local simp] residues

variable {b k n : Nat}

theorem residues_zero (b k : Nat) : residues b k 0 = List.replicate k 0 := by
  induction k with
  | zero => rfl
  | succ k ih => rw [residues, Nat.zero_mod, Nat.zero_div, ih, List.replicate_succ]

/-- Enough digits are the digits of the number, and zeros. -/
theorem residues_eq (hb : 1 < b) (h : n < b ^ k) :
    residues b k n = Nat.digits b n ++ List.replicate (k - (Nat.digits b n).length) 0 := by
  induction k generalizing n with
  | zero =>
    have hn : n = 0 := by simpa using h
    subst hn
    rw [Nat.digits_zero]
    rfl
  | succ k ih =>
    by_cases hn : n = 0
    · subst hn
      rw [residues_zero, Nat.digits_zero]
      rfl
    · have hq : n / b < b ^ k := by
        rw [Nat.div_lt_iff_lt_mul (by omega), ← Nat.pow_succ]
        exact h
      rw [residues, Nat.digits_def' hb (Nat.pos_of_ne_zero hn), ih hq, List.length_cons,
        List.cons_append, Nat.add_sub_add_right]

theorem getElem_residues {i : Nat} (hi : i < k) :
    (residues b k n)[i]? = some (n / b ^ i % b) := by
  induction k generalizing n i with
  | zero => omega
  | succ k ih =>
    cases i with
    | zero => rw [residues, List.getElem?_cons_zero, Nat.pow_zero, Nat.div_one]
    | succ i =>
      rw [residues, List.getElem?_cons_succ, ih (by omega), Nat.div_div_eq_div_mul, ← Nat.pow_succ']

theorem length_residues : (residues b k n).length = k := by
  induction k generalizing n with
  | zero => rfl
  | succ k ih => rw [residues, List.length_cons, ih]

theorem residues_lt (hb : 0 < b) : ∀ d ∈ residues b k n, d < b := by
  induction k generalizing n with
  | zero => exact nofun
  | succ k ih =>
    intro d hd
    rcases List.mem_cons.mp hd with rfl | hd
    · exact Nat.mod_lt _ hb
    · exact ih d hd

/-- One digit more, the most significant one. -/
theorem residues_succ (b k n : Nat) : residues b (k + 1) n = residues b k n ++ [n / b ^ k % b] := by
  induction k generalizing n with
  | zero => rw [residues, residues, residues, Nat.pow_zero, Nat.div_one, List.nil_append]
  | succ k ih =>
    rw [residues, ih, residues, Nat.div_div_eq_div_mul, ← Nat.pow_succ', List.cons_append]

/-- The first `k` digits are those of the number up to a multiple of `b ^ k`. -/
theorem residues_add_mul (hb : 0 < b) (k n j : Nat) :
    residues b k (n + j * b ^ k) = residues b k n := by
  induction k generalizing n with
  | zero => rfl
  | succ k ih =>
    have hpow : j * b ^ (k + 1) = j * b ^ k * b := by rw [Nat.pow_succ, Nat.mul_assoc]
    rw [residues, residues, hpow, Nat.add_mul_mod_self_right, Nat.add_mul_div_right _ _ hb, ih]

theorem dropWhile_zeros (j : Nat) (l : List Nat) :
    (List.replicate j 0 ++ l).dropWhile (· == 0) = l.dropWhile (· == 0) := by
  induction j with
  | zero => rfl
  | succ j ih => rw [List.replicate_succ, List.cons_append, List.dropWhile_cons_of_pos (by rfl), ih]

/-- Without the zeros in front the digits worked out are the numeral. -/
theorem strip_residues (hb : 1 < b) (hk : 0 < k) (h : n < b ^ k) :
    strip (residues b k n) = numeral b n := by
  by_cases hn : n = 0
  · subst hn
    obtain ⟨k, rfl⟩ : ∃ j, k = j + 1 := ⟨k - 1, by omega⟩
    have hdrop := dropWhile_zeros (k + 1) []
    rw [List.append_nil] at hdrop
    rw [residues_zero, strip, List.reverse_replicate, hdrop]
    rfl
  · -- the digit in front is not zero
    have hne : Nat.digits b n ≠ [] := Nat.digits_ne_nil_iff_ne_zero.mpr hn
    have hlast := Nat.getLast_digit_ne_zero b hn
    obtain ⟨l, d, hl⟩ : ∃ l d, Nat.digits b n = l ++ [d] :=
      ⟨_, _, (List.dropLast_append_getLast hne).symm⟩
    have hd : d ≠ 0 := by
      rw [List.getLast_congr _ (by simp) hl, List.getLast_append_singleton] at hlast
      exact hlast
    rw [residues_eq hb h, strip, List.reverse_append, List.reverse_replicate, dropWhile_zeros, numeral,
      if_neg hn, hl, List.reverse_append, List.reverse_singleton, List.singleton_append,
      List.dropWhile_cons_of_neg (by simpa using hd)]

theorem numeral_ne_nil (b n : Nat) : numeral b n ≠ [] := by
  unfold numeral
  split
  · exact nofun
  · rename_i hn
    exact fun h => Nat.digits_ne_nil_iff_ne_zero.mpr hn (List.reverse_eq_nil_iff.mp h)

/-- The numeral of a number but zero starts with another digit than zero. -/
theorem numeral_head (hn : n ≠ 0) : ∃ d l, numeral b n = d :: l ∧ d ≠ 0 := by
  have hne : Nat.digits b n ≠ [] := Nat.digits_ne_nil_iff_ne_zero.mpr hn
  refine ⟨(Nat.digits b n).getLast hne, (Nat.digits b n).dropLast.reverse, ?_,
    Nat.getLast_digit_ne_zero b hn⟩
  rw [numeral, if_neg hn]
  conv_lhs => rw [← List.dropLast_append_getLast hne]
  rw [List.reverse_append, List.reverse_singleton, List.singleton_append]

/-- The numeral of a number of `k + 1` digits starts with the digit at `b ^ k`. -/
theorem numeral_eq_cons (hb : 1 < b) (hle : b ^ k ≤ n) (hlt : n < b ^ (k + 1)) :
    numeral b n = n / b ^ k :: (residues b k n).reverse := by
  have hn : n ≠ 0 := Nat.pos_iff_ne_zero.mp (Nat.lt_of_lt_of_le (Nat.pow_pos (by omega)) hle)
  have hlen : (Nat.digits b n).length = k + 1 :=
    Nat.le_antisymm ((Nat.digits_length_le_iff hb n).mpr hlt) ((Nat.lt_digits_length_iff hb n).mpr hle)
  have htop : n / b ^ k % b = n / b ^ k := by
    refine Nat.mod_eq_of_lt ((Nat.div_lt_iff_lt_mul (Nat.pow_pos (by omega))).mpr ?_)
    rwa [Nat.mul_comm, ← Nat.pow_succ]
  have hres := residues_eq hb hlt
  rw [hlen, Nat.sub_self, List.replicate_zero, List.append_nil] at hres
  rw [numeral, if_neg hn, ← hres, residues_succ, List.reverse_append, htop]
  rfl

theorem numeral_lt (hb : 1 < b) : ∀ d ∈ numeral b n, d < b := by
  intro d hd
  unfold numeral at hd
  split at hd
  · rw [List.mem_singleton.mp hd]
    omega
  · exact Nat.digits_lt_base hb (List.mem_reverse.mp hd)

theorem numeral_length_le (hb : 1 < b) (hk : 0 < k) (h : n < b ^ k) : (numeral b n).length ≤ k := by
  rw [← strip_residues hb hk h, strip]
  split
  · rw [List.length_take]
    omega
  · calc _ ≤ (residues b k n).reverse.length := (List.dropWhile_suffix _).length_le
      _ = k := by rw [List.length_reverse, length_residues]

/-- A numeral of at most `k` digits is one of a number below `b ^ k`. -/
theorem lt_of_numeral_length (hb : 1 < b) (h : (numeral b n).length ≤ k) : n < b ^ k := by
  by_cases hn : n = 0
  · rw [hn]
    exact Nat.pow_pos (by omega)
  · rw [numeral, if_neg hn, List.length_reverse] at h
    exact (Nat.digits_length_le_iff hb n).mp h

theorem value_append (acc : Nat) (l m : List Nat) :
    value b acc (l ++ m) = value b (value b acc l) m := List.foldl_append

theorem le_value (hb : 1 < b) (acc : Nat) (l : List Nat) : acc ≤ value b acc l := by
  induction l generalizing acc with
  | nil => exact Nat.le_refl acc
  | cons d l ih =>
    calc acc ≤ acc * b + d := Nat.le_add_right_of_le (Nat.le_mul_of_pos_right acc (by omega))
      _ ≤ value b (acc * b + d) l := ih _

/-- A digit more makes the value greater. -/
theorem lt_value {acc : Nat} {l : List Nat} (hb : 1 < b) (hacc : 0 < acc) (hl : l ≠ []) :
    acc < value b acc l := by
  cases l with
  | nil => exact absurd rfl hl
  | cons d l =>
    calc acc < acc * b := lt_mul_of_one_lt_right hacc hb
      _ ≤ acc * b + d := Nat.le_add_right _ _
      _ ≤ value b (acc * b + d) l := le_value hb _ l

theorem value_reverse (b : Nat) (l : List Nat) : value b 0 l.reverse = Nat.ofDigits b l := by
  induction l with
  | nil => rfl
  | cons d l ih =>
    rw [List.reverse_cons, value_append, ih, Nat.ofDigits_cons, value, List.foldl_cons,
      List.foldl_nil, Nat.mul_comm, Nat.add_comm]

/-- A numeral has the value of its number. -/
theorem value_numeral (b n : Nat) : value b 0 (numeral b n) = n := by
  unfold numeral
  split
  · rename_i hn
    rw [hn, value, List.foldl_cons, List.foldl_nil, Nat.zero_mul]
  · rw [value_reverse, Nat.ofDigits_digits]

/-- Digits that make a numeral: the first of them is zero only when it is alone. -/
structure IsNumeral (b : Nat) (l : List Nat) : Prop where
  ne_nil : l ≠ []
  lt : ∀ d ∈ l, d < b
  head : l.head? = some 0 → l = [0]

theorem isNumeral_numeral (hb : 1 < b) (n : Nat) : IsNumeral b (numeral b n) := by
  refine ⟨numeral_ne_nil b n, numeral_lt hb, fun h => ?_⟩
  by_cases hn : n = 0
  · rw [numeral, if_pos hn]
  · obtain ⟨d, l, hl, hd⟩ := numeral_head (b := b) hn
    rw [hl] at h
    exact absurd (Option.some.inj h) hd

/-- A number has one numeral. -/
theorem IsNumeral.eq_numeral {l : List Nat} (hb : 1 < b) (h : IsNumeral b l) :
    l = numeral b (value b 0 l) := by
  obtain ⟨d, t, rfl⟩ : ∃ d t, l = d :: t := by
    cases l with
    | nil => exact absurd rfl h.ne_nil
    | cons d t => exact ⟨d, t, rfl⟩
  by_cases hd : d = 0
  · have hl := h.head (by rw [hd]; rfl)
    have h0 : value b 0 [0] = 0 := Nat.zero_mul b
    rw [hl, numeral, if_pos h0]
  · have hdigits : Nat.digits b (Nat.ofDigits b (d :: t).reverse) = (d :: t).reverse := by
      refine Nat.digits_ofDigits b hb _ (fun x hx => h.lt x (List.mem_reverse.mp hx)) fun hne => ?_
      simpa using hd
    have hvalue : value b 0 (d :: t) = Nat.ofDigits b (d :: t).reverse := by
      rw [← value_reverse, List.reverse_reverse]
    have hpos : value b 0 (d :: t) ≠ 0 := by
      intro h0
      rw [← hvalue, h0, Nat.digits_zero] at hdigits
      exact absurd (congrArg List.length hdigits) (by simp)
    rw [numeral, if_neg hpos, hvalue, hdigits, List.reverse_reverse]

end Numerals
