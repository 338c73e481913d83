import XinuCMips.Libxc.Fields
import XinuCMips.Libxc.Scan
import Mathlib.Data.List.TakeWhile

/-!
# Character classes of a format

What `_getccl` is for, and when it does it. A class follows `%[`: a circumflex if
the characters are those to leave out, the characters, and a closing bracket; a format
that ends first ends the class with it. The loop of `_getccl` looks for a bracket only,
since its test for the NUL comes after `c++`, and it drops the top bit of a character
when it compares it but not when it indexes `_sctab`.

* `getcclLoop_eq_some` — what the loop gives, and when;
* `parses_iff` — `_getccl` stays in the format and marks the class exactly when the
  class is closed and has no character of 128 or more.
-/

namespace Xinu.Libxc

/-- A format from some place on, without the NUL that ends it. -/
abbrev Format := { s : List Byte // (0 : Byte) ∉ s }

-- ---------------------------------------------------------------------------
-- What a class means
-- ---------------------------------------------------------------------------

/-- The class without its circumflex, and what follows it. -/
def classBody (s : List Byte) : List Byte := (accept (ch '^') s).2

/-- The characters between the brackets. -/
def classChars (s : List Byte) : List Byte := (classBody s).takeWhile (· ≠ ch ']')

/-- The format after the class. -/
def classRest (s : List Byte) : List Byte := ((classBody s).dropWhile (· ≠ ch ']')).tail

/-- A character at which `_instr` stops: one outside the class, or one in it after a
circumflex. -/
def StopsAt (s : List Byte) (c : Byte) : Prop :=
  if (accept (ch '^') s).1 then c ∈ classChars s else c ∉ classChars s

/-- What `_getccl` has to do with the class at `s`, whatever the table is before and
whatever memory holds behind the NUL of the format. -/
def Parses (s : Format) : Prop :=
  ∀ tab beyond, ∃ tab',
    getccl tab (s.1 ++ 0 :: beyond) = some (tab', classRest s.1 ++ 0 :: beyond) ∧
    ∀ c, c.toNat < 128 →
      (tab' c &&& STP ≠ 0 ↔ StopsAt s.1 c) ∧ tab' c &&& ~~~STP = tab c &&& ~~~STP

/-- A class that is closed, with characters of `_sctab` only. A bracket with its top bit
set closes one too; it is the last character of the format then. -/
def Closed (s : List Byte) : Prop :=
  ∃ u x w, classBody s = u ++ x :: w ∧ (∀ c ∈ u, c.toNat < 128 ∧ c ≠ ch ']') ∧
    (x = ch ']' ∨ x = 0xDD#8 ∧ w = [])

-- ---------------------------------------------------------------------------
-- The loop
-- ---------------------------------------------------------------------------

variable {t : Bool} {tab tab' : Byte → Byte} {s u w : List Byte} {c x : Byte}

/-- The table with the characters of `u` marked. -/
def marked (t : Bool) (u : List Byte) (tab : Byte → Byte) (c : Byte) : Byte :=
  if c ∈ u then (if t then tab c ||| STP else tab c &&& ~~~STP) else tab c

/-- Below 128 the comparison is with the character itself. -/
theorem and_7F (h : c.toNat < 128) : c &&& 0x7F#8 = c := by
  refine BitVec.eq_of_toNat_eq ?_
  rw [BitVec.toNat_and, show (0x7F#8).toNat = 2 ^ 7 - 1 from rfl, Nat.and_two_pow_sub_one_eq_mod,
    Nat.mod_eq_of_lt h]

/-- What closes a class: a bracket, with or without its top bit. -/
theorem and_7F_eq_bracket : x &&& 0x7F#8 = ch ']' ↔ x = ch ']' ∨ x = 0xDD#8 := by
  revert x
  decide

/-- Marking a character twice is marking it once. -/
theorem marked_update (t : Bool) (tab : Byte → Byte) (c : Byte) (u : List Byte) :
    marked t u (Function.update tab c (if t then tab c ||| STP else tab c &&& ~~~STP)) =
      marked t (c :: u) tab := by
  funext d
  unfold marked
  by_cases hd : d = c
  · -- the character of this turn
    subst hd
    rw [Function.update_self, if_pos List.mem_cons_self]
    cases t <;> by_cases hu : d ∈ u <;> simp [hu, BitVec.or_assoc, BitVec.and_assoc]
  · rw [Function.update_of_ne hd]
    simp [hd]

/-- **What the loop gives**: it ends at the first bracket, top bit or not, if no
character before it is outside the table. -/
theorem getcclLoop_eq_some {l left : List Byte} :
    getcclLoop t tab l = some (tab', left) ↔
      ∃ u x, l = u ++ x :: left ∧ (∀ c ∈ u, c.toNat < 128 ∧ c ≠ ch ']') ∧
        (x = ch ']' ∨ x = 0xDD#8) ∧ tab' = marked t u tab := by
  induction l generalizing tab with
  | nil => simp [getcclLoop]
  | cons c s ih =>
    rw [getcclLoop]
    by_cases hc : c &&& 0x7F#8 = ch ']'
    · -- the class ends here
      rw [if_pos hc]
      constructor
      · intro h
        obtain ⟨rfl, rfl⟩ := Prod.mk.inj (Option.some.inj h)
        exact ⟨[], c, rfl, fun d hd => absurd hd List.not_mem_nil, and_7F_eq_bracket.mp hc, rfl⟩
      · rintro ⟨u, x, hl, hu, -, rfl⟩
        cases u with
        | nil =>
          obtain ⟨rfl, rfl⟩ := List.cons.inj hl
          rfl
        | cons d u =>
          obtain ⟨rfl, -⟩ := List.cons.inj hl
          obtain ⟨hlt, hne⟩ := hu c List.mem_cons_self
          exact absurd ((and_7F hlt).symm.trans hc) hne
    · rw [if_neg hc]
      by_cases hlt : c.toNat < 128
      · -- one more character of the class
        rw [if_pos hlt, ih]
        constructor
        · rintro ⟨u, x, rfl, hu, hx, rfl⟩
          refine ⟨c :: u, x, rfl, ?_, hx, marked_update t tab c u⟩
          intro d hd
          rcases List.mem_cons.mp hd with rfl | hd
          · exact ⟨hlt, fun h => hc (by rw [and_7F hlt, h])⟩
          · exact hu d hd
        · rintro ⟨u, x, hl, hu, hx, rfl⟩
          cases u with
          | nil =>
            obtain ⟨rfl, -⟩ := List.cons.inj hl
            exact absurd (and_7F_eq_bracket.mpr hx) hc
          | cons d u =>
            obtain ⟨rfl, rfl⟩ := List.cons.inj hl
            exact ⟨u, x, rfl, fun d hd => hu d (List.mem_cons_of_mem _ hd), hx,
              (marked_update t tab c u).symm⟩
      · -- outside the table
        rw [if_neg hlt]
        refine iff_of_false (fun h => nomatch h) ?_
        rintro ⟨u, x, hl, hu, hx, -⟩
        cases u with
        | nil =>
          obtain ⟨rfl, -⟩ := List.cons.inj hl
          exact hc (and_7F_eq_bracket.mpr hx)
        | cons d u =>
          obtain ⟨rfl, -⟩ := List.cons.inj hl
          exact hlt (hu c List.mem_cons_self).1

-- ---------------------------------------------------------------------------
-- _getccl
-- ---------------------------------------------------------------------------

/-- The NUL is no circumflex. -/
theorem accept_append (s beyond : List Byte) :
    accept (ch '^') (s ++ 0 :: beyond) =
      ((accept (ch '^') s).1, classBody s ++ 0 :: beyond) := by
  unfold classBody
  cases s with
  | nil => exact accept_ne (by decide)
  | cons c s =>
    rw [List.cons_append, accept, accept]
    split
    · rfl
    · rfl

theorem getccl_append (tab : Byte → Byte) (s beyond : List Byte) :
    getccl tab (s ++ 0 :: beyond) =
      getcclLoop (accept (ch '^') s).1
        (fun c => if (accept (ch '^') s).1 then tab c &&& ~~~STP else tab c ||| STP)
        (classBody s ++ 0 :: beyond) := by
  rw [getccl, accept_append]

/-- The characters before the bracket, and those after it. -/
theorem parts_of_body (hu : ∀ c ∈ u, c ≠ ch ']') (h : classBody s = u ++ ch ']' :: w) :
    classChars s = u ∧ classRest s = w := by
  unfold classChars classRest
  rw [h, List.takeWhile_append_of_pos (by simpa using hu),
    List.dropWhile_append_of_pos (by simpa using hu), List.takeWhile_cons_of_neg (by simp),
    List.dropWhile_cons_of_neg (by simp)]
  exact ⟨List.append_nil u, rfl⟩

/-- A mark set, and a mark cleared; the other bits stay. -/
theorem set_mark (b : Byte) :
    (b ||| STP) &&& STP ≠ 0#8 ∧ (b ||| STP) &&& ~~~STP = b &&& ~~~STP := by
  revert b
  decide

theorem clear_mark (b : Byte) :
    (b &&& ~~~STP) &&& STP = 0#8 ∧ (b &&& ~~~STP) &&& ~~~STP = b &&& ~~~STP := by
  revert b
  decide

/-- **The table that the loop leaves** has marks where the input has to stop. -/
theorem marked_stops (t : Bool) (u : List Byte) (tab : Byte → Byte) (c : Byte) :
    (marked t u (fun c => if t then tab c &&& ~~~STP else tab c ||| STP) c &&& STP ≠ 0 ↔
      if t then c ∈ u else c ∉ u) ∧
    marked t u (fun c => if t then tab c &&& ~~~STP else tab c ||| STP) c &&& ~~~STP =
      tab c &&& ~~~STP := by
  obtain ⟨hset, hkeep⟩ := set_mark (tab c)
  obtain ⟨hclear, hkeep'⟩ := clear_mark (tab c)
  unfold marked
  cases t with
  | false =>
    by_cases hc : c ∈ u
    · simp [hc, clear_mark, set_mark]
    · simp [hc, hset, hkeep]
  | true =>
    by_cases hc : c ∈ u
    · simp [hc, clear_mark, set_mark]
    · simp [hc, hclear, hkeep']

/-- A closed class is parsed. -/
theorem Closed.parses {s : Format} (h : Closed s.1) : Parses s := by
  obtain ⟨u, x, w, hbody, hu, hx⟩ := h
  intro tab beyond
  -- up to the bracket, and for the table, it is the class that is meant
  have hparts : classRest s.1 = w ∧ ∀ c : Byte, c.toNat < 128 → (c ∈ classChars s.1 ↔ c ∈ u) := by
    rcases hx with rfl | ⟨rfl, rfl⟩
    · obtain ⟨hchars, hrest⟩ := parts_of_body (fun c hc => (hu c hc).2) hbody
      exact ⟨hrest, fun c _ => by rw [hchars]⟩
    · have hall : ∀ c ∈ classBody s.1, decide (c ≠ ch ']') = true := by
        intro c hc
        rw [hbody] at hc
        rcases List.mem_append.mp hc with hc | hc
        · exact decide_eq_true (hu c hc).2
        · obtain rfl := List.mem_singleton.mp hc
          rfl
      refine ⟨?_, fun c hlt => ?_⟩
      · unfold classRest
        rw [List.dropWhile_eq_nil_iff.mpr hall]
        rfl
      · unfold classChars
        rw [List.takeWhile_eq_self_iff.mpr hall, hbody, List.mem_append, List.mem_singleton]
        refine or_iff_left fun h => ?_
        rw [h] at hlt
        exact absurd hlt (by decide)
  refine ⟨marked (accept (ch '^') s.1).1 u fun c =>
    if (accept (ch '^') s.1).1 then tab c &&& ~~~STP else tab c ||| STP, ?_, fun c hlt => ?_⟩
  · rw [getccl_append, hparts.1]
    refine getcclLoop_eq_some.mpr ⟨u, x, ?_, hu, ?_, rfl⟩
    · rw [hbody, List.append_assoc]
      rfl
    · rcases hx with rfl | ⟨rfl, -⟩
      · exact Or.inl rfl
      · exact Or.inr rfl
  · have hmark := marked_stops (accept (ch '^') s.1).1 u tab c
    refine ⟨hmark.1.trans ?_, hmark.2⟩
    unfold StopsAt
    rw [hparts.2 c hlt]

/-- A class that is parsed is closed. -/
theorem Parses.closed {s : Format} (h : Parses s) : Closed s.1 := by
  -- nothing need be behind the NUL
  obtain ⟨tab', hget, -⟩ := h sctab []
  rw [getccl_append] at hget
  obtain ⟨u, x, hl, hu, hx, -⟩ := getcclLoop_eq_some.mp hget
  have hbody : classBody s.1 = u ++ x :: classRest s.1 := by
    have happ : classBody s.1 ++ [0] = u ++ x :: classRest s.1 ++ [0] := by
      rw [hl, List.append_assoc]
      rfl
    exact List.append_cancel_right happ
  refine ⟨u, x, classRest s.1, hbody, hu, hx.imp_right fun hx => ⟨hx, ?_⟩⟩
  -- behind a bracket with its top bit the class would go on
  subst hx
  have hdrop : classRest s.1 = ((classRest s.1).dropWhile (· ≠ ch ']')).tail := by
    conv_lhs => unfold classRest
    rw [hbody, List.dropWhile_append_of_pos (by simpa using fun c hc => (hu c hc).2),
      List.dropWhile_cons_of_pos (by decide)]
  have hlen := congrArg List.length hdrop
  have hle := (List.dropWhile_suffix (l := classRest s.1) (· ≠ ch ']')).length_le
  rw [List.length_tail] at hlen
  refine List.length_eq_zero_iff.mp ?_
  omega

/-- **`_getccl` parses the classes that are closed**, with characters of `_sctab` only:
it reads nothing behind the NUL, marks the class and returns where the format goes on. -/
theorem parses_iff (s : Format) : Parses s ↔ Closed s.1 :=
  ⟨Parses.closed, Closed.parses⟩

/-- A class that is not closed is read past the end of the format: `%[a`. -/
theorem not_parses : ¬∀ s : Format, Parses s := by
  intro hall
  obtain ⟨tab', hget, -⟩ := hall ⟨[ch 'a'], by decide⟩ sctab []
  have hnone : getccl sctab ([ch 'a'] ++ [0]) = none := by decide
  cases hnone.symm.trans hget

end Xinu.Libxc
