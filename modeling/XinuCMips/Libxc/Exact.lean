import XinuCMips.Libxc.Printf

/-!
# The digits of both copies

What `_doprnt` and `_fdoprnt` store in `string` and write of it for a number.

* `stored_fits_iff` — a conversion stays inside `string` but for long binary numbers;
* `exact_iff`       — the digits written are the numeral of the argument, but for the least
  number in `_fdoprnt`, and where an old `fmax` cuts a `%d` of `_doprnt`.
-/

namespace Xinu.Libxc

/-- The two copies. -/
inductive Formatter
  | doprnt | fdoprnt
  deriving DecidableEq, Repr

namespace Formatter

def copy : Formatter → Copy
  | .doprnt => Doprnt.copy
  | .fdoprnt => Fdoprnt.copy

/-- `fmax` before the `switch`: `_fdoprnt` reads it from the directive, `_doprnt` finds
what is there. -/
def fmaxOf (d : Directive) (fmax : Int) : Formatter → Int
  | .doprnt => fmax
  | .fdoprnt => d.prec.elim 0 Bound.value

/-- A conversion of a copy, in a `string` of `size` characters. -/
def converted (p : Formatter) (size : Nat) (d : Directive) (fmax : Int) (string : List Byte) :
    Option Conversion :=
  { p.copy with size := size }.converted d (p.fmaxOf d fmax) string

end Formatter

-- ---------------------------------------------------------------------------
-- The array string
-- ---------------------------------------------------------------------------

/-- What a conversion stores in `string`, with the NUL: `%c` sets two characters, `%s` none,
and a number its digits. -/
def Copy.stored (y : Copy) : Conv → List Byte
  | .c w => [w.setWidth 8, 0]
  | .s _ => []
  | v => y.printed v ++ [0]

/-- No text of a copy is longer than the reference text. -/
theorem Formatter.printed_length (p : Formatter) (v : Conv) :
    (p.copy.printed v).length ≤ v.text.length := by
  cases p with
  | doprnt => exact Doprnt.printed_length v
  | fdoprnt => exact Fdoprnt.printed_length v

/-- **A conversion stays inside `string` exactly when it is not `%b` of a number with as many
binary digits as `string` has characters.** -/
theorem stored_fits_iff (p : Formatter) (d : Directive) :
    (p.copy.stored d.conv).length ≤ p.copy.size ↔
      ∀ w, d.conv = .b w → w.toNat < 2 ^ (p.copy.size - 1) := by
  have hsize : 20 ≤ p.copy.size := by cases p <;> decide
  by_cases hb : ∃ w, d.conv = .b w
  · obtain ⟨w, hv⟩ := hb
    have hlen : (p.copy.stored d.conv).length = (Numerals.numeral 2 w.toNat).length + 1 := by
      rw [hv]
      show (prtl2 w ++ [0]).length = _
      rw [prtl2_eq, numeral, List.length_append, List.length_map]
      rfl
    rw [hlen]
    constructor
    · intro h w' hv'
      obtain rfl : w = w' := by
        rw [hv] at hv'
        exact Conv.b.inj hv'
      exact Numerals.lt_of_numeral_length (by decide) (by omega)
    · intro h
      have hle := Numerals.numeral_length_le (b := 2) (by decide) (by omega) (h w hv)
      omega
  · refine iff_of_true ?_ fun w hv => absurd ⟨w, hv⟩ hb
    have hlen := p.printed_length d.conv
    have hnumber := @Conv.number_length d.conv
    cases hv : d.conv with
    | c w => exact Nat.le_trans (show 2 ≤ 20 by decide) hsize
    | s str => exact Nat.zero_le _
    | b w => exact absurd ⟨w, hv⟩ hb
    | _ =>
      rw [hv] at hlen hnumber
      have hle := hnumber (fun _ hw => by cases hw) (fun _ hw => by cases hw) fun _ hw => by cases hw
      rw [Copy.stored, List.length_append, List.length_singleton]
      · omega
      all_goals exact fun _ hw => by cases hw

/-- `%b` of a number with 32 binary digits stores 33 characters. -/
theorem stored_not_fits :
    ¬ ∀ (p : Formatter) (d : Directive), (p.copy.stored d.conv).length ≤ p.copy.size := by
  intro h
  have hlen := h .doprnt ⟨false, false, .digits [], none, .b 0xFFFFFFFF, by decide⟩
  exact absurd hlen (by decide +kernel)

-- ---------------------------------------------------------------------------
-- Digits
-- ---------------------------------------------------------------------------

namespace Conv

/-- The number that an integer conversion has to show. -/
def value : Conv → Option Int
  | .d w => some w.toInt
  | .b w | .o w | .u w | .X w | .x w => some w.toNat
  | .c _ | .s _ => none

def base : Conv → Nat
  | .b _ => 2
  | .o _ => 8
  | .X _ | .x _ => 16
  | _ => 10

def digit : Conv → Nat → Byte
  | .X _ => digitCH
  | _ => digitCh

/-- The number that the reference text shows, without its sign. -/
def magnitude : Conv → Nat
  | .d w => w.toInt.natAbs
  | .b w | .o w | .u w | .X w | .x w => w.toNat
  | .c _ | .s _ => 0

theorem one_lt_base (v : Conv) : 1 < v.base ∧ v.base ≤ 16 := by
  cases v <;> simp [base]

/-- The reference text of a number is its numeral. -/
theorem text_eq {v : Conv} (h : v.value ≠ none) :
    v.text = (Numerals.numeral v.base v.magnitude).map v.digit := by
  cases v with
  | c w => exact absurd rfl h
  | s str => exact absurd rfl h
  | _ => rfl

/-- The sign and the magnitude are the value. -/
theorem value_eq {v : Conv} (h : v.value ≠ none) :
    v.value = some (if v.negative then -(v.magnitude : Int) else v.magnitude) := by
  cases v with
  | c w => exact absurd rfl h
  | s str => exact absurd rfl h
  | d w =>
    have hw := w.isLt
    simp only [value, negative, magnitude, slt_zero, decide_eq_true_eq, Option.some.injEq,
      BitVec.toInt_eq_toNat_cond]
    split <;> split <;> omega
  | _ => rfl

end Conv

/-- What is shown of a conversion, the sign and the characters that `fmax` leaves, is its
number: the digits are a numeral, without a zero in front, and have the value. -/
def Shows (v : Conv) (r : Conversion) : Prop :=
  ∃ l, Numerals.IsNumeral v.base l ∧ cut (inRange r.fmax) r.str = l.map v.digit ∧
    v.value = some (if r.sign then -(Numerals.value v.base 0 l : Int) else Numerals.value v.base 0 l)

/-- With a `string` that is large enough, a copy writes the sign, the padding and the exact
digits of a conversion. -/
def Formatter.Exact (p : Formatter) (d : Directive) (fmax : Int) : Prop :=
  ∀ size string, 32 < size → ∃ r, p.converted size d fmax string = some r ∧ Shows d.conv r ∧
    field d.left d.fmin r = arrange d.left d.fill r.sign (inRange d.fmin)
      (cut (inRange r.fmax) r.str)

/-- Where the digits go wrong: `_fdoprnt` negates the least number, and `_doprnt` cuts a
`%d` to an `fmax` that an earlier directive or nobody has set. -/
def Formatter.Clear (d : Directive) (fmax : Int) : Formatter → Prop
  | .doprnt => ∀ w, d.conv = .d w → inRange fmax = 0 ∨ w.toInt.natAbs < 10 ^ (inRange fmax).toNat
  | .fdoprnt => ∀ w, d.conv = .d w → w ≠ intMin

/-- Only the numeral of the magnitude shows a number. -/
theorem shows_iff {v : Conv} {r : Conversion} (hv : v.value ≠ none) (hsign : r.sign = v.negative) :
    Shows v r ↔ cut (inRange r.fmax) r.str = v.text := by
  have hb := v.one_lt_base.1
  rw [Conv.text_eq hv]
  constructor
  · rintro ⟨l, hl, hcut, hvalue⟩
    rw [Conv.value_eq hv, hsign] at hvalue
    have hmag : v.magnitude = Numerals.value v.base 0 l := by
      have h := Option.some.inj hvalue
      split at h <;> omega
    rw [hcut, hmag, ← hl.eq_numeral hb]
  · intro hcut
    refine ⟨_, Numerals.isNumeral_numeral hb _, hcut, ?_⟩
    rw [Numerals.value_numeral, hsign, Conv.value_eq hv]

/-- The text of a number goes into a `string` of 33 characters. -/
theorem Conv.text_length_le {v : Conv} (hv : v.value ≠ none) : v.text.length ≤ 32 := by
  by_cases hb : ∃ w, v = .b w
  · obtain ⟨w, rfl⟩ := hb
    rw [text, numeral, List.length_map]
    exact Numerals.numeral_length_le (by decide) (by decide) w.isLt
  · have hle := number_length (fun w hw => hb ⟨w, hw⟩) (fun w hw => hv (by rw [hw]; rfl))
      fun str hw => hv (by rw [hw]; rfl)
    omega

/-- A copy is exact when what `fmax` leaves of its text is the reference text. -/
theorem exact_iff_cut {d : Directive} (hv : d.conv.value ≠ none) (p : Formatter) (fmax : Int) :
    p.Exact d fmax ↔
      cut (inRange (d.conv.leftover (p.fmaxOf d fmax))) (p.copy.printed d.conv) = d.conv.text := by
  have hr : ∀ size string, 32 < size → ∃ r, p.converted size d fmax string = some r := by
    intro size string hsize
    refine Copy.converted_some _ d _ string fun _ => ?_
    have hle := p.printed_length d.conv
    have hle' := Conv.text_length_le hv
    show (p.copy.printed d.conv).length < size
    omega
  have hshows : ∀ {size string r}, p.converted size d fmax string = some r → (Shows d.conv r ↔
      cut (inRange (d.conv.leftover (p.fmaxOf d fmax))) (p.copy.printed d.conv) = d.conv.text) := by
    intro size string r h
    obtain ⟨-, hstr, hsign, -, hmax⟩ := Conv.converted_eq h
    rw [shows_iff hv hsign, hmax, hstr]
    rfl
  constructor
  · intro h
    obtain ⟨r, hconv, hexact, -⟩ := h 33 [] (by decide)
    exact (hshows hconv).mp hexact
  · intro hcut size string hsize
    obtain ⟨r, hconv⟩ := hr size string hsize
    refine ⟨r, hconv, (hshows hconv).mpr hcut, ?_⟩
    obtain ⟨hwritten, -, -, hfill, -⟩ := Conv.converted_eq hconv
    have hfill' : r.fill = d.fill := by
      rw [hfill, Directive.flag, Directive.fill]
      cases d.zero <;> cases d.conv.numeric <;> rfl
    rw [field_eq _ _ (by rw [hfill']; exact d.fill_eq), hwritten, hfill', List.nil_append]

/-- What `fmax` leaves of a text is the text when it is not longer. -/
theorem cut_eq_iff {n : Int} (h0 : 0 ≤ n) (text : List Byte) :
    cut n text = text ↔ n = 0 ∨ (text.length : Int) ≤ n := by
  constructor
  · intro h
    have hlen := cut_length h0 text
    rw [h] at hlen
    split at hlen <;> omega
  · intro h
    exact if_neg (by omega)

/-- **Without a precision, a copy writes exactly the number of a directive unless it is the
least number under `%d` of `_fdoprnt`, or `_doprnt` cuts a `%d`.** -/
theorem exact_iff {d : Directive} (hp : d.prec = none) (hv : d.conv.value ≠ none) (p : Formatter)
    (fmax : Int) : p.Exact d fmax ↔ p.Clear d fmax := by
  rw [exact_iff_cut hv]
  have hcut0 : ∀ t, cut (inRange 0) t = t := fun t => if_neg fun h => h.1 rfl
  have hc : ∀ w, d.conv = .c w → w.setWidth 8 ≠ (0 : Byte) := fun w hw =>
    absurd (by rw [hw]; rfl) hv
  have hzero : Formatter.fdoprnt.fmaxOf d fmax = 0 := by
    rw [Formatter.fmaxOf, hp]
    rfl
  by_cases hd : ∃ w, d.conv = .d w
  · obtain ⟨w, hw⟩ := hd
    cases p with
    | doprnt =>
      have hprinted : Formatter.doprnt.copy.printed d.conv = d.conv.text := Doprnt.printed_text hc
      obtain ⟨n, hn⟩ : ∃ n : Nat, inRange fmax = n :=
        ⟨_, (Int.toNat_of_nonneg (inRange_nonneg fmax).1).symm⟩
      have hlen : d.conv.text.length = (Numerals.numeral 10 w.toInt.natAbs).length := by
        rw [hw, Conv.text, numeral, List.length_map]
      have hleft : d.conv.leftover (Formatter.doprnt.fmaxOf d fmax) = fmax := by
        rw [hw]
        rfl
      have hclear : Formatter.doprnt.Clear d fmax ↔ n = 0 ∨ w.toInt.natAbs < 10 ^ n := by
        simp only [Formatter.Clear, hw, hn, Conv.d.injEq, forall_eq', Int.natCast_eq_zero,
          Int.toNat_natCast]
      rw [hleft, hprinted, hn, cut_eq_iff (Int.natCast_nonneg n), hclear, hlen]
      constructor
      · rintro (h | h)
        · exact .inl (by omega)
        · exact .inr (Numerals.lt_of_numeral_length (by decide) (by omega))
      · rintro (h | h)
        · exact .inl (by omega)
        · by_cases h0 : n = 0
          · exact .inl (by omega)
          · have hle := Numerals.numeral_length_le (b := 10) (by decide) (by omega) h
            exact .inr (by omega)
    | fdoprnt =>
      have hleft : d.conv.leftover (Formatter.fdoprnt.fmaxOf d fmax) = 0 := by
        rw [hzero, hw]
        rfl
      rw [hleft, hcut0]
      show _ ↔ ∀ w, d.conv = .d w → w ≠ intMin
      constructor
      · rintro h w' hw' rfl
        rw [hw'] at h
        exact Fdoprnt.decimal_intMin.2 h
      · intro h
        exact Fdoprnt.printed_text hc h
  · have hleft : ∀ n, d.conv.leftover n = 0 := by
      intro n
      cases hw : d.conv with
      | d w => exact absurd ⟨w, hw⟩ hd
      | s str => exact absurd (by rw [hw]; rfl) hv
      | _ => rfl
    have hnot : ∀ w, d.conv ≠ .d w := fun w hw => hd ⟨w, hw⟩
    rw [hleft, hcut0]
    cases p with
    | doprnt => exact iff_of_true (Doprnt.printed_text hc) fun w hw => absurd hw (hnot w)
    | fdoprnt =>
      exact iff_of_true (Fdoprnt.printed_text hc fun w hw => absurd hw (hnot w)) fun w hw =>
        absurd hw (hnot w)

/-- `%u` of the greatest number. -/
theorem exact_greatest : Formatter.fdoprnt.Exact
    ⟨false, false, .digits [], none, .u 0xFFFFFFFF, by decide⟩ 0 :=
  (exact_iff rfl (by decide) .fdoprnt 0).mpr nofun

/-- `_fdoprnt` does not write the least number. -/
theorem not_exact : ¬ ∀ (d : Directive), d.prec = none → d.conv.value ≠ none →
    ∀ (p : Formatter) (fmax : Int), p.Exact d fmax := by
  intro h
  have hv : (Conv.d intMin).value ≠ none := Option.some_ne_none _
  have hexact := h ⟨false, false, .digits [], none, .d intMin, by decide⟩ rfl hv .fdoprnt 0
  exact Fdoprnt.decimal_intMin.2 ((exact_iff_cut hv .fdoprnt 0).mp hexact)

end Xinu.Libxc
