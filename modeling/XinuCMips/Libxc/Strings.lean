import XinuCMips.Lib.CChars

/-!
# String functions of `libxc`

A string is a pointer that walks along characters, as `CChars` has it.

* `strncmp_eq_zero` — two strings agree as far as is asked for;
* `strstr_eq_some`  — **the first occurrence is found**, but none of the empty string.
-/

namespace Xinu.Libxc

open CChars

/-- `strncmp`; characters are signed. -/
def strncmp (s1 s2 : List UInt8) : Nat → Int
  | 0 => 0
  | n + 1 =>
    if (getChar s1).1 = (getChar s2).1 then
      if (getChar s1).1 = NULLCH then 0 else strncmp (getChar s1).2 (getChar s2).2 n
    else (getChar s1).1.toInt8.toInt - (getChar s2).1.toInt8.toInt

/-- The inner loop of `strstr`: what is left of `ct` where the strings part. -/
def strstrLoop (cq cr : List UInt8) : List UInt8 :=
  match cq, cr with
  | [], cr => cr
  | _ :: _, [] => []
  | a :: cq, b :: cr => if a ≠ b then b :: cr else strstrLoop cq cr

/-- `strstr`: how far behind `cs` the string is found. -/
def strstr (cs ct : List UInt8) : Option Nat :=
  match cs with
  | [] => none
  | c :: cs =>
    if c = (getChar ct).1 ∧ strstrLoop (c :: cs) ct = [] then some 0
    else (strstr cs ct).map (· + 1)

variable {s1 s2 cs ct : List UInt8} {n i : Nat}

theorem toInt8_sub_ne_zero {a b : UInt8} (h : a ≠ b) : a.toInt8.toInt - b.toInt8.toInt ≠ 0 := by
  intro hzero
  have hsame : a.toInt8 = b.toInt8 := Int8.toInt_inj.mp (sub_eq_zero.mp hzero)
  exact h (congrArg Int8.toUInt8 hsame)

/-- **Strings agree** in their first `n` characters. -/
theorem strncmp_eq_zero (h1 : NULLCH ∉ s1) (h2 : NULLCH ∉ s2) (hn : n ≤ s1.length) :
    strncmp s1 s2 n = 0 ↔ s1.take n <+: s2 := by
  induction n generalizing s1 s2 with
  | zero => simp [strncmp]
  | succ n ih =>
    cases s1 with
    | nil => exact absurd hn (by simp)
    | cons a s1 =>
      obtain ⟨ha, h1⟩ := not_or.mp fun hor => h1 (List.mem_cons.mpr hor)
      unfold strncmp
      cases s2 with
      | nil =>
        rw [getChar_cons, getChar_nil, if_neg (Ne.symm ha), List.take_succ_cons]
        exact iff_of_false (toInt8_sub_ne_zero (Ne.symm ha)) (by simp)
      | cons b s2 =>
        obtain ⟨-, h2⟩ := not_or.mp fun hor => h2 (List.mem_cons.mpr hor)
        rw [getChar_cons, getChar_cons, List.take_succ_cons, List.cons_prefix_cons]
        dsimp only
        by_cases hab : a = b
        · rw [if_pos hab, if_neg (Ne.symm ha), ih h1 h2 (Nat.le_of_succ_le_succ hn),
            and_iff_right hab]
        · rw [if_neg hab]
          exact iff_of_false (toInt8_sub_ne_zero hab) fun h => hab h.1

/-- The inner loop comes to the end of `ct` where it stands in front. -/
theorem strstrLoop_eq_nil : strstrLoop cs ct = [] ↔ ct <+: cs := by
  induction cs generalizing ct with
  | nil =>
    unfold strstrLoop
    exact List.prefix_nil.symm
  | cons c cs ih =>
    unfold strstrLoop
    cases ct with
    | nil => exact iff_of_true rfl List.nil_prefix
    | cons d ct =>
      rw [List.cons_prefix_cons]
      dsimp only
      by_cases hcd : c = d
      · rw [if_neg (not_not.mpr hcd), ih, and_iff_right hcd.symm]
      · rw [if_pos hcd]
        exact iff_of_false (List.cons_ne_nil _ _) fun h => hcd h.1.symm

/-- **`strstr` finds the first occurrence**, and for the empty string nothing. -/
theorem strstr_eq_some (hcs : NULLCH ∉ cs) : strstr cs ct = some i ↔
    ct ≠ [] ∧ ct <+: cs.drop i ∧ ∀ j < i, ¬ct <+: cs.drop j := by
  induction cs generalizing i with
  | nil =>
    unfold strstr
    rw [List.drop_nil, List.prefix_nil]
    exact iff_of_false nofun fun h => h.1 h.2.1
  | cons c cs ih =>
    obtain ⟨hc, hcs⟩ := not_or.mp fun hor => hcs (List.mem_cons.mpr hor)
    unfold strstr
    have hfirst : (c = (getChar ct).1 ∧ strstrLoop (c :: cs) ct = []) ↔
        ct ≠ [] ∧ ct <+: c :: cs := by
      rw [strstrLoop_eq_nil]
      cases ct with
      | nil => exact iff_of_false (fun h => hc h.1.symm) fun h => h.1 rfl
      | cons d ct =>
        rw [getChar_cons, List.cons_prefix_cons]
        exact ⟨fun h => ⟨List.cons_ne_nil _ _, h.2⟩, fun h => ⟨h.2.1.symm, h.2⟩⟩
    by_cases hhere : c = (getChar ct).1 ∧ strstrLoop (c :: cs) ct = []
    · rw [if_pos hhere]
      obtain ⟨hne, hpre⟩ := hfirst.mp hhere
      constructor
      · intro hi
        obtain rfl := Option.some.inj hi
        exact ⟨hne, hpre, nofun⟩
      · rintro ⟨-, -, hbefore⟩
        cases i with
        | zero => rfl
        | succ i => exact absurd hpre (hbefore 0 (Nat.succ_pos i))
    · rw [if_neg hhere]
      have hnot := mt hfirst.mpr hhere
      cases i with
      | zero =>
        refine iff_of_false ?_ fun h => hnot ⟨h.1, h.2.1⟩
        intro h
        obtain ⟨j, -, hj⟩ := Option.map_eq_some_iff.mp h
        exact absurd hj (Nat.succ_ne_zero j)
      | succ i =>
        have hmap : (strstr cs ct).map (· + 1) = some (i + 1) ↔ strstr cs ct = some i := by
          cases strstr cs ct <;> simp
        rw [hmap, ih hcs, List.drop_succ_cons]
        refine and_congr_right fun hne => and_congr_right fun _ =>
          ⟨fun h j hj => ?_, fun h j hj => ?_⟩
        · cases j with
          | zero => exact fun hpre => hnot ⟨hne, hpre⟩
          | succ j => exact h j (Nat.lt_of_succ_lt_succ hj)
        · exact h (j + 1) (Nat.succ_lt_succ hj)

/-- `ab` in `aab`. -/
theorem strstr_eq_some_ab : strstr [97, 97, 98] [97, 98] = some 1 :=
  (strstr_eq_some (by decide)).mpr (by decide)

end Xinu.Libxc
