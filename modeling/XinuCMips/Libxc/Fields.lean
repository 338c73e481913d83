import XinuCMips.Libxc.Print

/-!
# Fields

What both loops do with the parts of a directive.

* `number_digits` — the digits of a width are read as their value;
* `field_eq`      — a converted text is set into a field as `arrange` says, after `fmax` cut it.
-/

namespace Xinu.Libxc

variable {f c : Byte} {t rest text : List Byte} {sign left : Bool} {fill : Byte} {w fmin fmax : Int}

theorem digitCh_isDigit : ∀ d < 10, isDigit (digitCh d) = true := by decide

theorem accept_self (c : Byte) (t : List Byte) : accept c (c :: t) = (true, t) := if_pos rfl

theorem accept_ne (h : f ≠ c) : accept c (f :: t) = (false, f :: t) := if_neg h

/-- The loop over the digits of a width reads a numeral. -/
theorem number_digits {l : List Nat} {m : Nat} (hl : ∀ d ∈ l, d < 10) (hf : isDigit f = false) :
    number (BitVec.ofNat 32 m) (l.map digitCh ++ f :: rest) =
      (BitVec.ofNat 32 (Numerals.value 10 m l), f :: rest) := by
  have hdigit : ∀ d < 10, (digitCh d).setWidth 32 - (ch '0').setWidth 32 = BitVec.ofNat 32 d := by
    decide
  induction l generalizing m with
  | nil =>
    rw [List.map_nil, List.nil_append, number, if_neg (by rw [hf]; exact Bool.false_ne_true)]
    rfl
  | cons d l ih =>
    have hd := hl d List.mem_cons_self
    have hnext : BitVec.ofNat 32 m * 10 + (digitCh d).setWidth 32 - (ch '0').setWidth 32 =
        BitVec.ofNat 32 (m * 10 + d) := by
      rw [BitVec.sub_eq_add_neg, BitVec.add_assoc, ← BitVec.sub_eq_add_neg, hdigit d hd,
        BitVec.ofNat_add, BitVec.ofNat_mul]
      rfl
    rw [List.map_cons, List.cons_append, number, if_pos (digitCh_isDigit d hd), hnext,
      ih fun x hx => hl x (List.mem_cons_of_mem d hx)]
    rfl

-- ---------------------------------------------------------------------------
-- The layout of a field
-- ---------------------------------------------------------------------------

/-- The layout of a field: padded to the width on the requested side, zeros after the sign
and blanks before it. -/
def arrange (left : Bool) (fill : Byte) (sign : Bool) (width : Int) (text : List Byte) :
    List Byte :=
  let pad := List.replicate (width - text.length - (if sign then 1 else 0)).toNat fill
  let minus := if sign then [ch '-'] else []
  if left then minus ++ (text ++ pad)
  else if fill = ch '0' then minus ++ (pad ++ text)
  else pad ++ (minus ++ text)

/-- The text that `fmax` leaves; zero cuts nothing. -/
def cut (fmax : Int) (text : List Byte) : List Byte :=
  if fmax ≠ 0 ∧ text.length > fmax then text.take fmax.toNat else text

theorem inRange_nonneg (n : Int) : 0 ≤ inRange n ∧ inRange n ≤ 80 := by
  unfold inRange maxstr
  split <;> omega

theorem cut_length (h : 0 ≤ fmax) (text : List Byte) :
    ((cut fmax text).length : Int) =
      if fmax ≠ 0 ∧ text.length > fmax then fmax else (text.length : Int) := by
  unfold cut
  by_cases hcut : fmax ≠ 0 ∧ text.length > fmax
  · rw [if_pos hcut, if_pos hcut, List.length_take]
    omega
  · rw [if_neg hcut, if_neg hcut]

/-- What is written for a directive, once its argument is converted. -/
theorem field_eq (left : Bool) (fmin : Int) {d : Conversion}
    (hfill : d.fill = ch '0' ∨ d.fill = ch ' ') :
    field left fmin d =
      d.written ++ arrange left d.fill d.sign (inRange fmin) (cut (inRange d.fmax) d.str) := by
  have hmax := (inRange_nonneg d.fmax).1
  have hmin := (inRange_nonneg fmin).1
  have hlen := cut_length hmax d.str
  have htake : d.str.take ((cut (inRange d.fmax) d.str).length : Int).toNat =
      cut (inRange d.fmax) d.str := by
    unfold cut
    split
    · rw [Int.toNat_natCast, List.take_eq_take_iff, List.length_take]
      omega
    · rw [Int.toNat_natCast, List.take_length]
  -- with no field at all there is nothing to fill either
  have hleading : ∀ length : Int, 0 ≤ length →
      (if inRange d.fmax ≠ 0 ∨ inRange fmin ≠ 0 then
        (if inRange fmin ≠ 0 then inRange fmin - length else 0) - (if d.sign then 1 else 0)
      else 0).toNat = (inRange fmin - length - (if d.sign then 1 else 0)).toNat := by
    intro length hlength
    have hsign : (0 : Int) ≤ if d.sign then 1 else 0 := by split <;> decide
    split
    · split <;> omega
    · omega
  simp only [field, ← hlen, hleading _ (Int.natCast_nonneg _), htake]
  have hblank : ¬ ch ' ' = ch '0' := by decide
  have hzero : ¬ ch '0' = ch ' ' := by decide
  unfold arrange
  rcases hfill with h | h <;> cases left <;> cases d.sign <;>
    simp only [h, hblank, hzero, and_true, and_false, if_true, if_false, Bool.false_eq_true,
      List.nil_append, List.append_nil, List.append_assoc]

theorem arrange_length (left : Bool) (fill : Byte) (sign : Bool) (width : Int)
    (text : List Byte) : ((arrange left fill sign width text).length : Int) =
      max width (text.length + if sign then 1 else 0) := by
  unfold arrange
  by_cases hzero : fill = ch '0' <;> cases left <;> cases sign <;>
  · simp only [hzero, if_true, if_false, Bool.false_eq_true, List.length_append,
      List.length_replicate, List.length_nil, List.length_singleton]
    omega

/-- Only the number of padding characters of the width matters. -/
theorem arrange_congr {v w : Int}
    (h : (v - text.length - (if sign then 1 else 0)).toNat =
      (w - text.length - (if sign then 1 else 0)).toNat) :
    arrange left fill sign v text = arrange left fill sign w text := by
  unfold arrange
  rw [h]

/-- Texts of one length that look alike in their fields are the same. -/
theorem arrange_inj {v w : Int} {u : List Byte} (hlen : u.length = text.length)
    (h : arrange left fill sign v u = arrange left fill sign w text) : u = text := by
  have hsize := congrArg (fun l : List Byte => (l.length : Int)) h
  simp only [arrange_length] at hsize
  have hpad : (v - u.length - (if sign then 1 else 0)).toNat =
      (w - text.length - (if sign then 1 else 0)).toNat := by
    generalize (if sign then (1 : Int) else 0) = s at hsize ⊢
    omega
  unfold arrange at h
  rw [hpad] at h
  simp only at h
  split at h
  · exact (List.append_inj_left (List.append_cancel_left h) hlen)
  · split at h
    · exact List.append_cancel_left (List.append_cancel_left h)
    · exact List.append_cancel_left (List.append_cancel_left h)

/-- A text that is a shorter piece of itself after characters `c` has no other character. -/
theorem all_eq_of_shift {j n : Nat} {t : List Byte} (hj : 0 < j) (hn : t.length = j + n)
    (h : List.replicate j c ++ t.take n = t) : ∀ x ∈ t, x = c := by
  have hget : ∀ i (hi : i < t.length), t[i]? = some c := by
    intro i
    induction i using Nat.strong_induction_on with
    | _ i ih =>
      intro hi
      by_cases hij : i < j
      · rw [← h, List.getElem?_append_left (by rw [List.length_replicate]; exact hij),
          List.getElem?_replicate, if_pos hij]
      · have hshift : t[i]? = t[i - j]? := by
          conv_lhs => rw [← h]
          rw [List.getElem?_append_right (by rw [List.length_replicate]; omega),
            List.length_replicate, List.getElem?_take, if_pos (by omega)]
        rw [hshift]
        exact ih (i - j) (by omega) (by omega)
  intro x hx
  obtain ⟨i, hi, hxi⟩ := List.mem_iff_getElem.mp hx
  have hi' := hget i hi
  rw [List.getElem?_eq_getElem hi, hxi] at hi'
  exact Option.some.inj hi'

/-- What the padding of a text that was cut puts back. -/
def Restored (left : Bool) (fill : Byte) (sign : Bool) (text : List Byte) (n : Nat) : Prop :=
  if left then ∀ c ∈ text.drop n, c = fill
  else (∀ c ∈ text, c = fill) ∧ (sign = true → fill = ch '0')

theorem replicate_iff {l : List Byte} {j : Nat} (hl : l.length = j) :
    List.replicate j c = l ↔ ∀ x ∈ l, x = c := by
  rw [eq_comm, List.eq_replicate_iff]
  exact ⟨fun h => h.2, fun h => ⟨hl, h⟩⟩

/-- A text cut to `n` characters looks like the whole text if the field is wide enough and
the padding puts back what is missing. -/
theorem arrange_take {n : Nat} (hn : n < text.length)
    (hw : (text.length : Int) + (if sign then 1 else 0) ≤ w)
    (hfill : fill = ch '0' ∨ fill = ch ' ') :
    arrange left fill sign w (text.take n) = arrange left fill sign w text ↔
      Restored left fill sign text n := by
  obtain ⟨j, hj⟩ : ∃ j, text.length = j + n := ⟨text.length - n, by omega⟩
  obtain ⟨k, hk⟩ : ∃ k : Nat, (w - text.length - (if sign then 1 else 0)).toNat = k := ⟨_, rfl⟩
  have hlen : (text.take n).length = n := by
    rw [List.length_take]
    omega
  have hpad : (w - (text.take n).length - (if sign then 1 else 0)).toNat = k + j := by
    rw [hlen, ← hk]
    omega
  -- the padding that is more than that of the whole text
  have hright : List.replicate (k + j) fill ++ text.take n = List.replicate k fill ++ text ↔
      ∀ x ∈ text, x = fill := by
    rw [List.replicate_add, List.append_assoc, List.append_cancel_left_eq]
    constructor
    · exact all_eq_of_shift (by omega) hj
    · intro hall
      have htext : text = List.replicate (j + n) fill := ((replicate_iff hj).mpr hall).symm
      rw [htext, List.take_replicate, Nat.min_eq_left (by omega), List.replicate_append_replicate]
  unfold arrange Restored
  rw [hpad, hk]
  simp only
  cases left with
  | true =>
    have hdrop : (text.drop n).length = j := by
      rw [List.length_drop]
      omega
    rw [if_pos rfl, if_pos rfl, if_pos rfl, List.append_cancel_left_eq, Nat.add_comm,
      List.replicate_add, ← List.append_assoc, List.append_cancel_right_eq]
    conv_lhs => rhs; rw [← List.take_append_drop n text]
    rw [List.append_cancel_left_eq, replicate_iff hdrop]
  | false =>
    rw [if_neg Bool.false_ne_true, if_neg Bool.false_ne_true, if_neg Bool.false_ne_true]
    rcases hfill with rfl | rfl
    · rw [if_pos rfl, if_pos rfl, List.append_cancel_left_eq, hright]
      exact ⟨fun h => ⟨h, fun _ => rfl⟩, fun h => h.1⟩
    · have hblank : ¬ ch ' ' = ch '0' := by decide
      rw [if_neg hblank, if_neg hblank]
      cases sign with
      | false =>
        exact hright.trans ⟨fun h => ⟨h, nofun⟩, fun h => h.1⟩
      | true =>
        -- a blank stands where the sign should be
        constructor
        · intro h
          rw [List.replicate_add, List.append_assoc, List.append_cancel_left_eq] at h
          obtain ⟨i, rfl⟩ : ∃ i, j = i + 1 := ⟨j - 1, by omega⟩
          exact absurd (List.cons.inj h).1 (by decide)
        · exact fun h => absurd (h.2 rfl) (by decide)

end Xinu.Libxc
