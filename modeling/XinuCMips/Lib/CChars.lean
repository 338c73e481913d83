import Mathlib.Data.List.Basic
import Mathlib.Data.UInt

/-!
# Strings of C

A string is the list of its characters without the null character that ends it. A
pointer that walks along a string is the list of the characters that are still in front
of it; `getChar` reads one and moves it.

* `copyChars_all` — as many characters as the string has, with its null character;
* `compare_of_append`, `compare_ne_nil` — pointers that walk as long as two strings
  agree.
-/

namespace CChars

def NULLCH : UInt8 := 0

abbrev CString := { str : List UInt8 // NULLCH ∉ str }

/-- `*str++`. -/
def getChar : List UInt8 → UInt8 × List UInt8
  | [] => (NULLCH, [])
  | ch :: str => (ch, str)

@[simp] theorem getChar_nil : getChar [] = (NULLCH, []) := rfl

@[simp] theorem getChar_cons (ch : UInt8) (str : List UInt8) : getChar (ch :: str) = (ch, str) := rfl

variable {str pre : List UInt8} {ch : UInt8} {n : Nat}

/-- `n` times `*to++ = *from++`: what is written. -/
def copyChars : Nat → List UInt8 → List UInt8
  | 0, _ => []
  | n + 1, str => (getChar str).1 :: copyChars n (getChar str).2

/-- The characters alone. -/
theorem copyChars_chars (str : List UInt8) : copyChars str.length str = str := by
  induction str with
  | nil => rfl
  | cons ch str ih => exact congrArg (ch :: ·) ih

/-- **The characters and the null character.** -/
theorem copyChars_all (str : List UInt8) : copyChars (str.length + 1) str = str ++ [NULLCH] := by
  induction str with
  | nil => rfl
  | cons ch str ih => exact congrArg (ch :: ·) ih

/-- A prefix is compared with a string: what is left of both, and how many characters
agree. -/
def compare : List UInt8 → List UInt8 → Nat → List UInt8 × List UInt8 × Nat
  | [], str, n => ([], str, n)
  | ch :: pre, str, n =>
    if ch = (getChar str).1 then compare pre (getChar str).2 (n + 1) else (ch :: pre, str, n)

/-- **The comparison ends at the end of the prefix** when it is one. -/
theorem compare_of_append (n : Nat) (pre str : List UInt8) :
    compare pre (pre ++ str) n = ([], str, n + pre.length) := by
  induction pre generalizing n with
  | nil => rfl
  | cons ch pre ih =>
    rw [List.cons_append, compare, getChar_cons, if_pos rfl, ih, List.length_cons, Nat.add_assoc,
      Nat.add_comm 1]

theorem compare_ne_nil (hpre : NULLCH ∉ pre) (h : ¬pre <+: str) (n : Nat) :
    (compare pre str n).1 ≠ [] := by
  induction pre generalizing str n with
  | nil => exact absurd List.nil_prefix h
  | cons ch pre ih =>
    obtain ⟨h0, hpre⟩ := not_or.mp fun hor => hpre (List.mem_cons.mpr hor)
    rw [compare]
    by_cases hch : ch = (getChar str).1
    · rw [if_pos hch]
      cases str with
      | nil => exact absurd hch.symm h0
      | cons c str =>
        obtain rfl : ch = c := hch
        refine ih hpre (fun hp => h ?_) _
        rwa [List.cons_prefix_cons, and_iff_right rfl]
    · rw [if_neg hch]
      exact List.cons_ne_nil ch pre

/-- The length with the null character, of a string that is not too long. -/
def lengthLoop : Nat → Nat → List UInt8 → Option Nat
  | 0, _, _ => none
  | left + 1, i, str =>
    if (getChar str).1 = NULLCH then some (i + 1) else lengthLoop left (i + 1) (getChar str).2

/-- **The length is found** when it does not exceed the limit. -/
theorem lengthLoop_eq (hstr : NULLCH ∉ str) (left i : Nat) : lengthLoop left i str =
    if str.length + 1 ≤ left then some (i + str.length + 1) else none := by
  induction left generalizing i str with
  | zero => exact (if_neg (Nat.not_succ_le_zero _)).symm
  | succ left ih =>
    rw [lengthLoop]
    cases str with
    | nil =>
      rw [getChar_nil, if_pos rfl, List.length_nil, if_pos (Nat.succ_le_succ (Nat.zero_le left)),
        Nat.add_zero]
    | cons ch str =>
      obtain ⟨h0, hstr⟩ := not_or.mp fun hor => hstr (List.mem_cons.mpr hor)
      rw [getChar_cons, if_neg (Ne.symm h0), ih hstr, List.length_cons]
      by_cases hle : str.length + 1 ≤ left
      · rw [if_pos hle, if_pos (Nat.succ_le_succ hle)]
        congr 1
        omega
      · rw [if_neg hle, if_neg (by omega)]

end CChars
