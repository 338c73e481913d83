import XinuCMips.Libxc.RoundTrip

/-!
# `atoi` and `atol`

Both skip blanks and tabs, take a sign and add up digits; an `int` and a `long` have 32
bits, and so they are one function.

* `atoi_numeral`   — blanks, a sign and a numeral;
* `atoi_undoes_iff` — **what `%d` writes is read back**, but for the least number.
-/

namespace Xinu.Libxc

/-- The `switch`: blanks are skipped, and the sign, if there is one. -/
def signOf : List Byte → Bool × List Byte
  | [] => (false, [])
  | c :: p =>
    if c = ch ' ' ∨ c = ch '\t' then signOf p
    else if c = ch '-' then (true, p)
    else if c = ch '+' then (false, p)
    else (false, c :: p)

/-- `atoi`: the sign and the loop over the digits. -/
def atoi (p : List Byte) : Long :=
  let r := signOf p
  let n := (number 0 r.2).1
  if r.1 then -n else n

/-- `atol`, on a machine whose `long` is an `int`. -/
def atol (p : List Byte) : Long := atoi p

variable {blanks p rest : List Byte} {c : Byte} {v : Long} {m : Nat}

/-- What `atoi` skips. -/
def isSpace (c : Byte) : Prop := c = ch ' ' ∨ c = ch '\t'

theorem signOf_spaces (h : ∀ c ∈ blanks, isSpace c) : signOf (blanks ++ p) = signOf p := by
  induction blanks with
  | nil => rfl
  | cons c blanks ih =>
    rw [List.forall_mem_cons] at h
    rw [List.cons_append, signOf]
    exact (if_pos h.1).trans (ih h.2)

/-- A numeral has no sign in front. -/
theorem signOf_numeral (m : Nat) :
    signOf (numeral 10 m ++ rest) = (false, numeral 10 m ++ rest) := by
  have hplain : ∀ d < 10, ¬isSpace (digitCh d) ∧ digitCh d ≠ ch '-' ∧ digitCh d ≠ ch '+' := by
    unfold isSpace
    decide
  obtain ⟨d, l, hdl⟩ := List.exists_cons_of_ne_nil (Numerals.numeral_ne_nil 10 m)
  have hd : d < 10 := Numerals.numeral_lt (by decide) d (by rw [hdl]; exact List.mem_cons_self)
  obtain ⟨hspace, hminus, hplus⟩ := hplain d hd
  rw [numeral, hdl, List.map_cons, List.cons_append, signOf]
  exact (if_neg hspace).trans ((if_neg hminus).trans (if_neg hplus))

/-- The loop over the digits of a numeral. -/
theorem number_numeral (m : Nat) (p : List Byte) :
    (number 0 (numeral 10 m ++ 0 :: p)).1 = BitVec.ofNat 32 m := by
  have hzero : (0 : Long) = BitVec.ofNat 32 0 := rfl
  rw [numeral, hzero, number_digits (Numerals.numeral_lt (by decide)) (by decide),
    Numerals.value_numeral]

/-- **Blanks, a sign and a numeral.** -/
theorem atoi_numeral (h : ∀ c ∈ blanks, isSpace c) (negative : Bool) (m : Nat) :
    atoi (blanks ++ ((if negative then [ch '-'] else []) ++ (numeral 10 m ++ [0]))) =
      if negative then -BitVec.ofNat 32 m else BitVec.ofNat 32 m := by
  have hnumber := number_numeral m []
  unfold atoi
  rw [signOf_spaces h]
  cases negative with
  | false =>
    have hsign : signOf (numeral 10 m ++ [0]) = (false, numeral 10 m ++ [0]) := signOf_numeral m
    rw [if_neg Bool.false_ne_true, List.nil_append, hsign]
    exact (if_neg Bool.false_ne_true).trans (hnumber.trans (if_neg Bool.false_ne_true).symm)
  | true =>
    have hsign : signOf ([ch '-'] ++ (numeral 10 m ++ [0])) = (true, numeral 10 m ++ [0]) := by
      rw [List.singleton_append, signOf]
      rw [if_neg (by decide), if_pos rfl]
    rw [if_pos rfl, hsign]
    exact (if_pos rfl).trans ((congrArg Neg.neg hnumber).trans (if_pos rfl).symm)

/-- The least number. -/
def least : Long := BitVec.intMin 32

/-- Every other number has an absolute value. -/
theorem printed_abs (hv : v ≠ least) : printed .d v = numeral 10 v.toInt.natAbs := by
  have hint := BitVec.toInt_eq_toNat_cond v
  have hlt := v.isLt
  have hne : v.toNat ≠ 2 ^ 31 := fun h => hv (BitVec.eq_of_toNat_eq h)
  have hzero : (0 : Long).toInt = 0 := rfl
  have hslt : v.slt 0 = decide (v.toInt < 0) := by rw [BitVec.slt_eq_decide, hzero]
  unfold printed
  by_cases hneg : v.toInt < 0
  · have hnat : (-v).toNat = v.toInt.natAbs := by
      rw [BitVec.toNat_neg]
      split at hint <;> omega
    rw [hslt, decide_eq_true hneg]
    dsimp only
    rw [if_pos rfl, Fdoprnt.prtl10_eq (by rw [hnat]; split at hint <;> omega), hnat]
  · have hnat : v.toNat = v.toInt.natAbs := by split at hint <;> omega
    rw [hslt, decide_eq_false hneg]
    dsimp only
    rw [if_neg Bool.false_ne_true, Fdoprnt.prtl10_eq (by split at hint <;> omega), hnat]

/-- **`atoi` undoes `%d`**: for every number, every width of the directive and every blanks and
tabs in front, what `_fdoprnt` writes is read back exactly if the number is not the least
one. -/
theorem atoi_undoes_iff (string : List Byte) (w : Nat) (v : Long) (blanks : List Byte)
    (hblanks : ∀ c ∈ blanks, isSpace c) :
    ∃ text, fdoprnt string (directive w .d) [.int v] = some text ∧
      (atoi (blanks ++ text ++ [0]) = v ↔ v ≠ least) := by
  obtain ⟨k, hprint⟩ := fdoprnt_directive string w .d v
  refine ⟨_, hprint, ?_⟩
  have hspaces : ∀ c ∈ blanks ++ List.replicate k (ch ' '), isSpace c := by
    intro c hc
    rcases List.mem_append.mp hc with hc | hc
    · exact hblanks c hc
    · exact .inl (List.eq_of_mem_replicate hc)
  rw [← List.append_assoc blanks, List.append_assoc _ _ [0], List.append_assoc _ _ [0]]
  by_cases hv : v = least
  · -- its digits are not digits
    obtain rfl := hv
    refine iff_of_false ?_ fun h => h rfl
    unfold atoi
    rw [signOf_spaces hspaces]
    decide +kernel
  · refine iff_of_true ?_ hv
    rw [printed_abs hv, atoi_numeral hspaces]
    have hminus : minus .d v = decide (v.toInt < 0) := BitVec.slt_eq_decide
    rw [hminus]
    have hofInt := BitVec.ofInt_toInt (x := v)
    by_cases hneg : v.toInt < 0
    · rw [decide_eq_true hneg, if_pos rfl, ← BitVec.ofInt_natCast, ← BitVec.ofInt_neg,
        Int.ofNat_natAbs_of_nonpos hneg.le, Int.neg_neg, hofInt]
    · rw [decide_eq_false hneg, if_neg Bool.false_ne_true, ← BitVec.ofInt_natCast,
        Int.natAbs_of_nonneg (not_lt.mp hneg), hofInt]

/-- `-70` with a width of six, behind a tab. -/
theorem atoi_undoes_seventy : ∃ text, fdoprnt [] (directive 6 .d) [.int (-70)] = some text ∧
    (atoi ([ch '\t'] ++ text ++ [0]) = -70 ↔ (-70 : Long) ≠ least) :=
  atoi_undoes_iff [] 6 (-70) [ch '\t'] fun _ hc => .inr (List.mem_singleton.mp hc)

end Xinu.Libxc
