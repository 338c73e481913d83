import XinuCMips.Libxc.Formats

/-!
# Both copies against the reference formatter

* `Doprnt.loop_eq`, `Fdoprnt.loop_eq` — on a format without a precision both loops are one
  function of the pieces, with their own `switch` and their own `fmax` from one directive
  to the next;
* `Directive.sound_iff` — when both copies write the reference text of a directive;
* `printf_reference`    — when they write the reference text of a format.
-/

namespace Xinu.Libxc

variable {fmax : Int} {string rest : List Byte} {ap : List Arg} {k : Nat}

-- ---------------------------------------------------------------------------
-- Reading a directive
-- ---------------------------------------------------------------------------

namespace Directive

/-- `fmin` as both loops read it. -/
def fmin (d : Directive) : Int :=
  match d.width with
  | .digits _ => (BitVec.ofInt 32 d.width.value).toInt
  | .star w => w.toInt

/-- `fill` before the `switch`. -/
def flag (d : Directive) : Byte := if d.zero then ch '0' else ch ' '

theorem conv_char (v : Conv) : isDigit v.char = false ∧ v.char ≠ ch '%' ∧ v.char ≠ ch '-' ∧
    v.char ≠ ch '0' ∧ v.char ≠ ch '*' ∧ v.char ≠ ch '.' := by
  cases v <;> simp only [Conv.char] <;> decide

/-- What stands after the flags. -/
theorem width_head (d : Directive) (rest : List Byte) :
    ∃ c t, d.width.text ++ d.conv.char :: rest = c :: t ∧ c ≠ ch '%' ∧ c ≠ ch '-' ∧
      (d.zero = false → c ≠ ch '0') := by
  obtain ⟨-, hpercent, hminus, hzero, -, -⟩ := conv_char d.conv
  have hflagged := d.flagged
  cases hw : d.width with
  | star w => exact ⟨ch '*', d.conv.char :: rest, rfl, by decide, by decide, fun _ => by decide⟩
  | digits l =>
    rw [hw] at hflagged
    cases l with
    | nil => exact ⟨d.conv.char, rest, rfl, hpercent, hminus, fun _ => hzero⟩
    | cons x l =>
      have hall : ∀ x : Fin 10, digitCh x ≠ ch '%' ∧ digitCh x ≠ ch '-' := by decide
      exact ⟨digitCh x, _, rfl, (hall x).1, (hall x).2, fun h0 hx => hflagged h0 (congrArg some hx)⟩

theorem accept_flag {c : Byte} {b : Bool} {t : List Byte} (h : b = false → t.head? ≠ some c) :
    accept c ((if b then [c] else []) ++ t) = (b, t) := by
  cases b with
  | true => exact accept_self c t
  | false =>
    cases t with
    | nil => rfl
    | cons x t => exact accept_ne fun hx => h rfl (congrArg some hx)

/-- The digits of a width are read as its value, or the argument of a star. -/
theorem widthSpec_eq (d : Directive) (rest : List Byte) (ap : List Arg) :
    widthSpec (d.width.text ++ d.conv.char :: rest) (d.width.args ++ ap) =
      some (d.fmin, d.conv.char :: rest, ap) := by
  obtain ⟨hdigit, -, -, -, hstar, -⟩ := conv_char d.conv
  unfold fmin
  cases d.width with
  | star w => rfl
  | digits l =>
    have haccept : accept (ch '*') ((Bound.digits l).text ++ d.conv.char :: rest) =
        (false, (Bound.digits l).text ++ d.conv.char :: rest) := by
      cases l with
      | nil => exact accept_ne hstar
      | cons x l =>
        have hall : ∀ x : Fin 10, digitCh x ≠ ch '*' := by decide
        exact accept_ne (hall x)
    have hlt : ∀ x ∈ l.map (·.val), x < 10 := by
      intro x hx
      obtain ⟨y, -, rfl⟩ := List.mem_map.mp hx
      exact y.isLt
    have hnumber := @number_digits _ rest _ 0 hlt hdigit
    rw [widthSpec, haccept]
    simp only [Bound.text, show (0 : Long) = BitVec.ofNat 32 0 from rfl, hnumber]
    rfl

/-- A directive without a precision, after its '%'. -/
theorem text_eq {d : Directive} (hp : d.prec = none) (rest : List Byte) :
    d.text ++ rest = (if d.left then [ch '-'] else []) ++ ((if d.zero then [ch '0'] else []) ++
      (d.width.text ++ d.conv.char :: rest)) := by
  rw [text, hp]
  simp only [Option.elim_none, List.nil_append, List.append_assoc, List.singleton_append]

theorem args_eq {d : Directive} (hp : d.prec = none) (ap : List Arg) :
    d.args ++ ap = d.width.args ++ (d.conv.arg :: ap) := by
  rw [args, hp]
  simp only [Option.elim_none, List.nil_append, List.append_assoc, List.singleton_append]

/-- A directive is not the second '%' of an escape. -/
theorem accept_percent (d : Directive) (rest : List Byte) :
    accept (ch '%') ((if d.left then [ch '-'] else []) ++ ((if d.zero then [ch '0'] else []) ++
        (d.width.text ++ d.conv.char :: rest))) =
      (false, (if d.left then [ch '-'] else []) ++ ((if d.zero then [ch '0'] else []) ++
        (d.width.text ++ d.conv.char :: rest))) := by
  obtain ⟨c, t, ht, hpercent, -, -⟩ := d.width_head rest
  rw [ht]
  cases d.left with
  | true => exact accept_ne (by decide)
  | false =>
    cases d.zero with
    | true => exact accept_ne (by decide)
    | false => exact accept_ne hpercent

theorem accept_left (d : Directive) (rest : List Byte) :
    accept (ch '-') ((if d.left then [ch '-'] else []) ++ ((if d.zero then [ch '0'] else []) ++
        (d.width.text ++ d.conv.char :: rest))) =
      (d.left, (if d.zero then [ch '0'] else []) ++ (d.width.text ++ d.conv.char :: rest)) := by
  obtain ⟨c, t, ht, -, hminus, -⟩ := d.width_head rest
  refine accept_flag fun _ h => ?_
  rw [ht] at h
  cases hz : d.zero with
  | true =>
    rw [hz] at h
    exact absurd (Option.some.inj h) (by decide)
  | false =>
    rw [hz] at h
    exact hminus (Option.some.inj h)

theorem accept_zero (d : Directive) (rest : List Byte) :
    accept (ch '0') ((if d.zero then [ch '0'] else []) ++ (d.width.text ++ d.conv.char :: rest)) =
      (d.zero, d.width.text ++ d.conv.char :: rest) := by
  obtain ⟨c, t, ht, -, -, hzero⟩ := d.width_head rest
  refine accept_flag fun h0 h => ?_
  rw [ht] at h
  exact hzero h0 (Option.some.inj h)

end Directive

-- ---------------------------------------------------------------------------
-- The loops on pieces
-- ---------------------------------------------------------------------------

/-- One of the two copies: its `string`, its `_prtl10`, its `%d`, and what `fmax` is before
the `switch` after a directive. -/
structure Copy where
  size : Nat
  prtl10 : Long → List Byte
  decimal : Long → List Byte
  carry : Int → Int

def Doprnt.copy : Copy where
  size := 32
  prtl10 := prtl10
  decimal := prtl10
  carry := inRange

def Fdoprnt.copy : Copy where
  size := 20
  prtl10 := prtl10
  decimal := decimal
  carry := fun _ => 0

/-- What a copy makes of a conversion. -/
def Copy.converted (y : Copy) (d : Directive) (fmax : Int) (string : List Byte) :
    Option Conversion :=
  d.conv.converted y.size y.prtl10 y.decimal d.flag fmax string

/-- What a copy writes for the pieces of a format. -/
def Copy.emits (y : Copy) : Int → List Byte → List Piece → Option (List Byte)
  | _, _, [] => some []
  | fmax, string, .lit c _ :: ps => (y.emits fmax string ps).map (c :: ·)
  | fmax, string, .percent :: ps => (y.emits fmax string ps).map (ch '%' :: ·)
  | fmax, string, .dir d :: ps =>
      (y.converted d fmax string).bind fun r =>
        (y.emits (y.carry r.fmax) r.string ps).map (field d.left d.fmin r ++ ·)

/-- No directive has a precision. -/
def NoPrecision : List Piece → Prop
  | [] => True
  | .lit _ _ :: ps | .percent :: ps => NoPrecision ps
  | .dir d :: ps => d.prec = none ∧ NoPrecision ps

/-- One round of the loop of `_doprnt` on a directive. -/
theorem Doprnt.loop_directive {d : Directive} (hp : d.prec = none) :
    Doprnt.loop (k + 1) (ch '%' :: (d.text ++ rest)) (d.args ++ ap) fmax string =
      (copy.converted d fmax string).bind fun r =>
        (Doprnt.loop k rest ap (inRange r.fmax) r.string).map (field d.left d.fmin r ++ ·) := by
  rw [d.text_eq hp, d.args_eq hp, Doprnt.loop, if_neg fun h => h rfl]
  simp only [d.accept_percent, d.accept_left, d.accept_zero, d.widthSpec_eq, Option.bind_some,
    Doprnt.convert, Conv.convert_eq]
  exact Option.bind_map

/-- One round of the loop of `_fdoprnt` on a directive. -/
theorem Fdoprnt.loop_directive {d : Directive} (hp : d.prec = none) :
    Fdoprnt.loop (k + 1) (ch '%' :: (d.text ++ rest)) (d.args ++ ap) string =
      (copy.converted d 0 string).bind fun r =>
        (Fdoprnt.loop k rest ap r.string).map (field d.left d.fmin r ++ ·) := by
  obtain ⟨-, -, -, -, -, hdot⟩ := Directive.conv_char d.conv
  rw [d.text_eq hp, d.args_eq hp, Fdoprnt.loop, if_neg fun h => h rfl]
  simp only [d.accept_percent, d.accept_left, d.accept_zero, d.widthSpec_eq, Option.bind_some,
    accept_ne hdot, Fdoprnt.convert, Conv.convert_eq]
  exact Option.bind_map

/-- The loop of `_doprnt` on a format without a precision. -/
theorem Doprnt.loop_eq {ps : List Piece} (hp : NoPrecision ps) (hk : ps.length < k) :
    Doprnt.loop k (render ps) (arguments ps) fmax string = copy.emits fmax string ps := by
  induction ps generalizing k fmax string with
  | nil =>
    obtain ⟨k, rfl⟩ : ∃ j, k = j + 1 := ⟨k - 1, by omega⟩
    rfl
  | cons p ps ih =>
    obtain ⟨k, rfl⟩ : ∃ j, k = j + 1 := ⟨k - 1, by omega⟩
    have hk' : ps.length < k := by
      rw [List.length_cons] at hk
      omega
    cases p with
    | lit c plain => rw [render, arguments, Doprnt.loop, if_pos plain.2, ih hp hk', Copy.emits]
    | percent =>
      rw [render, arguments, Doprnt.loop, if_neg fun h => h rfl, accept_self]
      simp only [ih hp hk', Copy.emits]
    | dir d =>
      rw [render, arguments, Doprnt.loop_directive hp.1, Copy.emits]
      exact congrArg _ (funext fun r => by rw [ih hp.2 hk']; rfl)

/-- The loop of `_fdoprnt` on a format without a precision. -/
theorem Fdoprnt.loop_eq {ps : List Piece} (hp : NoPrecision ps) (hk : ps.length < k) :
    Fdoprnt.loop k (render ps) (arguments ps) string = copy.emits 0 string ps := by
  induction ps generalizing k string with
  | nil =>
    obtain ⟨k, rfl⟩ : ∃ j, k = j + 1 := ⟨k - 1, by omega⟩
    rfl
  | cons p ps ih =>
    obtain ⟨k, rfl⟩ : ∃ j, k = j + 1 := ⟨k - 1, by omega⟩
    have hk' : ps.length < k := by
      rw [List.length_cons] at hk
      omega
    cases p with
    | lit c plain => rw [render, arguments, Fdoprnt.loop, if_pos plain.2, ih hp hk', Copy.emits]
    | percent =>
      rw [render, arguments, Fdoprnt.loop, if_neg fun h => h rfl, accept_self]
      simp only [ih hp hk', Copy.emits]
    | dir d =>
      rw [render, arguments, Fdoprnt.loop_directive hp.1, Copy.emits]
      exact congrArg _ (funext fun r => by rw [ih hp.2 hk']; rfl)

-- ---------------------------------------------------------------------------
-- One directive
-- ---------------------------------------------------------------------------

namespace Conv

/-- An argument that both copies convert to its text: one of at most 19 binary digits for
`%b`, and neither a NUL character nor the least number. -/
def Fits : Conv → Prop
  | .b w => w.toNat < 2 ^ 19
  | .c w => w.setWidth 8 ≠ (0 : Byte)
  | .d w => w ≠ intMin
  | _ => True

theorem Fits.nul {v : Conv} (h : v.Fits) : ∀ w, v = .c w → w.setWidth 8 ≠ (0 : Byte) := by
  rintro w rfl
  exact h

theorem Fits.least {v : Conv} (h : v.Fits) : ∀ w, v = .d w → w ≠ intMin := by
  rintro w rfl
  exact h

/-- The text of a number but a binary one has at most eleven characters. -/
theorem number_length {v : Conv} (hb : ∀ w, v ≠ .b w) (hc : ∀ w, v ≠ .c w)
    (hs : ∀ str, v ≠ .s str) : v.text.length ≤ 11 := by
  have hnum : ∀ {b k n : Nat}, 1 < b → 0 < k → k ≤ 11 → n < b ^ k →
      (Numerals.numeral b n).length ≤ 11 := fun hb hk hk11 hn =>
    Nat.le_trans (Numerals.numeral_length_le hb hk hn) hk11
  cases v with
  | b w => exact absurd rfl (hb w)
  | c w => exact absurd rfl (hc w)
  | s str => exact absurd rfl (hs str)
  | d w =>
    have hw := w.isLt
    have habs : w.toInt.natAbs < 10 ^ 10 := by
      rw [BitVec.toInt_eq_toNat_cond]
      split <;> omega
    rw [text, numeral, List.length_map]
    exact hnum (k := 10) (by decide) (by decide) (by decide) habs
  | o w =>
    rw [text, numeral, List.length_map]
    exact hnum (k := 11) (by decide) (by decide) (by decide) (Nat.lt_trans w.isLt (by decide))
  | u w =>
    rw [text, numeral, List.length_map]
    exact hnum (k := 10) (by decide) (by decide) (by decide) (Nat.lt_trans w.isLt (by decide))
  | X w =>
    rw [text, numeralUpper, List.length_map]
    exact hnum (k := 8) (by decide) (by decide) (by decide) w.isLt
  | x w =>
    rw [text, numeral, List.length_map]
    exact hnum (k := 8) (by decide) (by decide) (by decide) w.isLt

/-- A text other than a string has fewer than 20 characters. -/
theorem text_length {v : Conv} (h : v.Fits) (hs : ∀ str, v ≠ .s str) : v.text.length < 20 := by
  by_cases hb : ∃ w, v = .b w
  · obtain ⟨w, rfl⟩ := hb
    have hle := Numerals.numeral_length_le (b := 2) (k := 19) (by decide) (by decide) h
    rw [text, numeral, List.length_map]
    omega
  · by_cases hc : ∃ w, v = .c w
    · obtain ⟨w, rfl⟩ := hc
      exact (by decide : 1 < 20)
    · have hle := number_length (fun w hw => hb ⟨w, hw⟩) (fun w hw => hc ⟨w, hw⟩) hs
      omega

end Conv

/-- The text that a copy makes of a conversion. -/
def Copy.printed (y : Copy) (v : Conv) : List Byte := v.printed y.prtl10 y.decimal

theorem Doprnt.printed_text {v : Conv} (hc : ∀ w, v = .c w → w.setWidth 8 ≠ (0 : Byte)) :
    copy.printed v = v.text :=
  Conv.printed_text (fun _ h => prtl10_nonneg h) (fun w _ => prtl10_eq w) hc

theorem Fdoprnt.printed_text {v : Conv} (hc : ∀ w, v = .c w → w.setWidth 8 ≠ (0 : Byte))
    (hd : ∀ w, v = .d w → w ≠ intMin) : copy.printed v = v.text :=
  Conv.printed_text (fun _ h => prtl10_eq h) (fun w h => decimal_eq (hd w h)) hc

theorem Copy.printed_nul (y : Copy) {w : Long} (h : w.setWidth 8 = (0 : Byte)) :
    y.printed (.c w) = [] := if_pos h

/-- No text is longer than the reference text. -/
theorem Doprnt.printed_length (v : Conv) : (copy.printed v).length ≤ v.text.length := by
  by_cases hc : ∃ w, v = .c w ∧ w.setWidth 8 = (0 : Byte)
  · obtain ⟨w, rfl, hw⟩ := hc
    rw [copy.printed_nul hw]
    exact Nat.zero_le _
  · rw [printed_text fun w hv hw => hc ⟨w, hv, hw⟩]

/-- No text is longer than the reference text. -/
theorem Fdoprnt.printed_length (v : Conv) : (copy.printed v).length ≤ v.text.length := by
  by_cases hc : ∃ w, v = .c w ∧ w.setWidth 8 = (0 : Byte)
  · obtain ⟨w, rfl, hw⟩ := hc
    rw [copy.printed_nul hw]
    exact Nat.zero_le _
  · by_cases hd : v = .d intMin
    · rw [hd]
      exact Nat.le_of_eq decimal_intMin.1
    · rw [printed_text (fun w hv hw => hc ⟨w, hv, hw⟩) fun w hv hw => hd (by rw [hv, hw])]

/-- A copy converts a text that goes into its `string`. -/
theorem Copy.converted_some (y : Copy) (d : Directive) (fmax : Int) (string : List Byte)
    (h : (∀ str, d.conv ≠ .s str) → (y.printed d.conv).length < y.size) :
    ∃ r, y.converted d fmax string = some r := by
  unfold converted
  unfold printed at h
  cases hv : d.conv with
  | s str => exact ⟨_, rfl⟩
  | _ =>
    rw [hv] at h
    exact ⟨_, if_pos (h nofun)⟩

/-- A text that does not go into `string` is not converted. -/
theorem Copy.length_of_converted {y : Copy} {d : Directive} {r : Conversion}
    (h : y.converted d fmax string = some r) (hs : ∀ str, d.conv ≠ .s str) :
    (y.printed d.conv).length < y.size := by
  unfold converted at h
  unfold printed
  cases hv : d.conv with
  | s str => exact absurd hv (hs str)
  | _ =>
    rw [hv] at h
    exact (Option.ite_none_right_eq_some.mp h).1

namespace Directive

/-- One character for the sign of a negative number. -/
def sign (d : Directive) : Int := if d.conv.negative then 1 else 0

/-- When both copies write the reference text of a directive, with `n` for `fmax` in
`_doprnt`: there is no precision, the argument fits, the width is at most 80 or needs no
padding, and `n` cuts nothing off that the padding does not put back. -/
def Sound (d : Directive) (n : Int) : Prop :=
  d.prec = none ∧ d.conv.Fits ∧
    (d.width.value ≤ 80 ∨ d.width.value ≤ d.conv.text.length + d.sign) ∧
    (n = 0 ∨ d.conv.text.length ≤ n ∨
      d.conv.text.length + d.sign ≤ d.width.value ∧ d.width.value ≤ 80 ∧
        Restored d.left d.fill d.conv.negative d.conv.text n.toNat)

theorem fill_eq (d : Directive) : d.fill = ch '0' ∨ d.fill = ch ' ' := by
  unfold fill
  split
  · exact .inl rfl
  · exact .inr rfl

/-- The width as the loops use it: up to 80 it is the width. -/
theorem inRange_fmin (d : Directive) :
    0 ≤ inRange d.fmin ∧ inRange d.fmin ≤ 80 ∧
      (d.width.value ≤ 80 → inRange d.fmin = max d.width.value 0) := by
  refine ⟨(inRange_nonneg _).1, (inRange_nonneg _).2, fun hle => ?_⟩
  have hread : d.fmin = d.width.value := by
    unfold fmin
    cases hw : d.width with
    | star w => rfl
    | digits l =>
      rw [hw] at hle
      obtain ⟨n, hn⟩ : ∃ n : Nat, (Bound.digits l).value = n := ⟨_, rfl⟩
      rw [hn] at hle ⊢
      simp only [BitVec.ofInt_natCast, BitVec.toInt_eq_toNat_cond, BitVec.toNat_ofNat]
      rw [Nat.mod_eq_of_lt (by omega), if_pos (by omega)]
  rw [hread]
  unfold inRange maxstr
  split <;> omega

/-- What a copy writes for a directive. -/
theorem field_converted {y : Copy} {d : Directive} {r : Conversion}
    (h : y.converted d fmax string = some r) :
    field d.left d.fmin r = arrange d.left d.fill d.conv.negative (inRange d.fmin)
      (cut (inRange (d.conv.leftover fmax)) (y.printed d.conv)) := by
  obtain ⟨hwritten, hstr, hsign, hfill, hmax⟩ := Conv.converted_eq h
  have hfill' : r.fill = d.fill := by
    rw [hfill, flag, fill]
    cases d.zero <;> cases d.conv.numeric <;> rfl
  rw [field_eq _ _ (by rw [hfill']; exact d.fill_eq), hwritten, hstr, hsign, hfill', hmax]
  rfl

/-- A directive never gives more characters than the reference has. -/
theorem field_length {y : Copy} {d : Directive} {r : Conversion} (hp : d.prec = none)
    (hy : (y.printed d.conv).length ≤ d.conv.text.length)
    (h : y.converted d fmax string = some r) :
    (field d.left d.fmin r).length ≤ d.reference.length := by
  obtain ⟨h0, h80, hle⟩ := d.inRange_fmin
  have hcut : ((cut (inRange (d.conv.leftover fmax)) (y.printed d.conv)).length : Int) ≤
      (y.printed d.conv).length := by
    rw [cut_length (inRange_nonneg _).1]
    split <;> omega
  have hlen := arrange_length d.left d.fill d.conv.negative (inRange d.fmin)
    (cut (inRange (d.conv.leftover fmax)) (y.printed d.conv))
  have href := arrange_length d.left d.fill d.conv.negative d.width.value d.conv.text
  have htrunc : d.truncated = d.conv.text := by rw [truncated, hp]
  rw [field_converted h, reference, htrunc]
  generalize (if d.conv.negative then (1 : Int) else 0) = s at hlen href
  omega

/-- The whole text stands in the field as the reference has it if the width is at most 80
or needs no padding. -/
theorem arrange_fmin (d : Directive) :
    arrange d.left d.fill d.conv.negative (inRange d.fmin) d.conv.text =
        arrange d.left d.fill d.conv.negative d.width.value d.conv.text ↔
      d.width.value ≤ 80 ∨ d.width.value ≤ d.conv.text.length + d.sign := by
  obtain ⟨h0, h80, hle⟩ := d.inRange_fmin
  have hsign : 0 ≤ d.sign := by
    unfold sign
    split <;> decide
  constructor
  · intro h
    have hlen := arrange_length d.left d.fill d.conv.negative (inRange d.fmin) d.conv.text
    have href := arrange_length d.left d.fill d.conv.negative d.width.value d.conv.text
    rw [h, href] at hlen
    unfold sign at hsign ⊢
    generalize (if d.conv.negative then (1 : Int) else 0) = s at hlen hsign ⊢
    omega
  · intro h
    refine arrange_congr ?_
    unfold sign at hsign h
    generalize (if d.conv.negative then (1 : Int) else 0) = s at h hsign ⊢
    omega

/-- A text that was cut stands in the field as the reference has it if the padding puts
back what is missing. -/
theorem arrange_cut {d : Directive} {n : Nat} (hn : n < d.conv.text.length) (hn80 : n ≤ 80) :
    arrange d.left d.fill d.conv.negative (inRange d.fmin) (d.conv.text.take n) =
        arrange d.left d.fill d.conv.negative d.width.value d.conv.text ↔
      d.conv.text.length + d.sign ≤ d.width.value ∧ d.width.value ≤ 80 ∧
        Restored d.left d.fill d.conv.negative d.conv.text n := by
  obtain ⟨h0, h80, hle⟩ := d.inRange_fmin
  have hlen := arrange_length d.left d.fill d.conv.negative (inRange d.fmin) (d.conv.text.take n)
  have href := arrange_length d.left d.fill d.conv.negative d.width.value d.conv.text
  rw [List.length_take, Nat.min_eq_left (Nat.le_of_lt hn)] at hlen
  have hsign : 0 ≤ d.sign ∧ d.sign ≤ 1 := by
    unfold sign
    split <;> decide
  -- a field that is wide enough is read as it is
  have hwide : ∀ w : Int, d.width.value = w → d.conv.text.length + d.sign ≤ w → w ≤ 80 →
      inRange d.fmin = w := by
    intro w hw hfit hw80
    rw [hle (by omega)]
    omega
  constructor
  · intro h
    rw [h, href] at hlen
    have hbounds : d.conv.text.length + d.sign ≤ d.width.value ∧ d.width.value ≤ 80 := by
      unfold sign at hsign ⊢
      generalize (if d.conv.negative then (1 : Int) else 0) = s at hlen hsign ⊢
      omega
    rw [hwide _ rfl hbounds.1 hbounds.2] at h
    exact ⟨hbounds.1, hbounds.2, (arrange_take hn hbounds.1 d.fill_eq).mp h⟩
  · rintro ⟨hfit, hw80, hrestored⟩
    rw [hwide _ rfl hfit hw80]
    exact (arrange_take hn hfit d.fill_eq).mpr hrestored

/-- The reference field of a NUL character holds it; blanks do not. -/
theorem arrange_nul (left : Bool) (v w : Int) :
    arrange left (ch ' ') false v [] ≠ arrange left (ch ' ') false w [0] := by
  intro h
  have hblank : ¬ ch ' ' = ch '0' := by decide
  have hmem : (0 : Byte) ∈ arrange left (ch ' ') false w [0] := by
    cases left <;>
      simp only [arrange, hblank, if_true, if_false, Bool.false_eq_true, List.mem_append,
        List.mem_singleton, true_or, or_true]
  rw [← h] at hmem
  have hrep : ∀ k, (0 : Byte) ∉ List.replicate k (ch ' ') := fun k hk =>
    absurd (List.eq_of_mem_replicate hk) (by decide)
  cases left <;>
  · simp only [arrange, hblank, if_true, if_false, Bool.false_eq_true, List.nil_append,
      List.append_nil] at hmem
    exact hrep _ hmem

/-- **Both copies write the reference text of a directive exactly when it is sound.** -/
theorem sound_iff {d : Directive} (hp : d.prec = none) (fmax : Int) (string string' : List Byte) :
    (∃ r r', Doprnt.copy.converted d fmax string = some r ∧
        Fdoprnt.copy.converted d 0 string' = some r' ∧
        field d.left d.fmin r = d.reference ∧ field d.left d.fmin r' = d.reference) ↔
      d.Sound (inRange (d.conv.leftover fmax)) := by
  have htrunc : d.truncated = d.conv.text := by rw [truncated, hp]
  have hzero : inRange (d.conv.leftover 0) = 0 := by
    have h0 : inRange 0 = 0 := by decide
    cases d.conv <;> exact h0
  have hcut0 : ∀ t, cut 0 t = t := fun t => if_neg fun h => h.1 rfl
  obtain ⟨hn0, hn80⟩ := inRange_nonneg (d.conv.leftover fmax)
  obtain ⟨n, hn⟩ : ∃ n : Nat, inRange (d.conv.leftover fmax) = n := ⟨_, (Int.toNat_of_nonneg hn0).symm⟩
  -- with the reference text on both sides, the two equations are about the field
  have hfields : ∀ {r r' : Conversion}, Doprnt.copy.converted d fmax string = some r →
      Fdoprnt.copy.converted d 0 string' = some r' → d.conv.Fits →
      ((field d.left d.fmin r = d.reference ∧ field d.left d.fmin r' = d.reference) ↔
        d.Sound (inRange (d.conv.leftover fmax))) := by
    intro r r' hr hr' hfits
    rw [field_converted hr, field_converted hr', Doprnt.printed_text hfits.nul,
      Fdoprnt.printed_text hfits.nul hfits.least, hzero, hcut0, reference, htrunc, arrange_fmin, hn, cut]
    unfold Sound
    by_cases hcut : (n : Int) ≠ 0 ∧ (d.conv.text.length : Int) > n
    · rw [if_pos hcut, Int.toNat_natCast, arrange_cut (by omega) (by omega)]
      constructor
      · rintro ⟨hrestored, hwidth⟩
        exact ⟨hp, hfits, hwidth, .inr (.inr hrestored)⟩
      · rintro ⟨-, -, hwidth, h | h | hrestored⟩
        · exact absurd h hcut.1
        · omega
        · exact ⟨hrestored, hwidth⟩
    · rw [if_neg hcut, arrange_fmin]
      constructor
      · rintro ⟨hwidth, -⟩
        exact ⟨hp, hfits, hwidth, by omega⟩
      · rintro ⟨-, -, hwidth, -⟩
        exact ⟨hwidth, hwidth⟩
  constructor
  · rintro ⟨r, r', hr, hr', hfield, hfield'⟩
    have hsize := Copy.length_of_converted hr'
    have hwrite := field_converted hr'
    rw [hfield', hzero, hcut0, reference, htrunc] at hwrite
    refine (hfields hr hr' ?_).mp ⟨hfield, hfield'⟩
    cases hv : d.conv with
    | b w =>
      rw [hv] at hsize
      have hlen : (prtl2 w).length < 20 := hsize nofun
      rw [prtl2_eq, numeral, List.length_map] at hlen
      exact Numerals.lt_of_numeral_length (by decide) (by omega)
    | c w =>
      intro hnul
      have hfill : d.fill = ch ' ' := by
        rw [fill, hv]
        exact if_neg fun h => Bool.false_ne_true h.2
      rw [hfill, hv, Copy.printed_nul _ hnul, Conv.text, hnul] at hwrite
      exact arrange_nul _ _ _ hwrite.symm
    | d w =>
      intro hmin
      rw [hv, hmin] at hwrite
      exact Fdoprnt.decimal_intMin.2 (arrange_inj Fdoprnt.decimal_intMin.1 hwrite.symm)
    | _ => trivial
  · intro hsound
    have hfits := hsound.2.1
    obtain ⟨r, hr⟩ := Doprnt.copy.converted_some d fmax string fun hs => by
      rw [Doprnt.printed_text hfits.nul]
      exact Nat.lt_trans (Conv.text_length hfits hs) (by decide)
    obtain ⟨r', hr'⟩ := Fdoprnt.copy.converted_some d 0 string' fun hs => by
      rw [Fdoprnt.printed_text hfits.nul hfits.least]
      exact Conv.text_length hfits hs
    obtain ⟨hfield, hfield'⟩ := (hfields hr hr' hfits).mpr hsound
    exact ⟨r, r', hr, hr', hfield, hfield'⟩

end Directive

-- ---------------------------------------------------------------------------
-- A whole format
-- ---------------------------------------------------------------------------

/-- When both copies write the reference text of a format, with `fmax` as `_doprnt` finds it
before a directive: every directive is sound with the `fmax` that the one before has left,
which is zero but after `%d` and `%s`. -/
def Sound : Int → List Piece → Prop
  | _, [] => True
  | fmax, .lit _ _ :: ps | fmax, .percent :: ps => Sound fmax ps
  | fmax, .dir d :: ps =>
      d.Sound (inRange (d.conv.leftover fmax)) ∧ Sound (inRange (d.conv.leftover fmax)) ps

theorem Sound.noPrecision {ps : List Piece} (h : Sound fmax ps) : NoPrecision ps := by
  induction ps generalizing fmax with
  | nil => trivial
  | cons p ps ih =>
    cases p with
    | lit c plain => exact @ih fmax h
    | percent => exact @ih fmax h
    | dir d => exact ⟨h.1.1, ih h.2⟩

/-- A copy never gives more characters than the reference has. -/
theorem Copy.emits_length {y : Copy} (hy : ∀ v, (y.printed v).length ≤ v.text.length)
    {ps : List Piece} {out : List Byte} (hp : NoPrecision ps)
    (h : y.emits fmax string ps = some out) : out.length ≤ (reference ps).length := by
  induction ps generalizing fmax string out with
  | nil =>
    cases h
    exact Nat.le_refl _
  | cons p ps ih =>
    cases p with
    | lit c plain =>
      obtain ⟨rest, hrest, rfl⟩ := Option.map_eq_some_iff.mp h
      exact Nat.succ_le_succ (ih hp hrest)
    | percent =>
      obtain ⟨rest, hrest, rfl⟩ := Option.map_eq_some_iff.mp h
      exact Nat.succ_le_succ (ih hp hrest)
    | dir d =>
      obtain ⟨r, hr, h⟩ := Option.bind_eq_some_iff.mp h
      obtain ⟨rest, hrest, rfl⟩ := Option.map_eq_some_iff.mp h
      rw [reference, List.length_append, List.length_append]
      exact Nat.add_le_add (Directive.field_length hp.1 (hy d.conv) hr) (ih hp.2 hrest)

/-- A copy that writes the reference text of a format writes that of its first directive
and that of the rest. -/
theorem Copy.emits_directive {y : Copy} (hy : ∀ v, (y.printed v).length ≤ v.text.length)
    {d : Directive} {ps : List Piece} (hp : NoPrecision (.dir d :: ps)) :
    y.emits fmax string (.dir d :: ps) = some (reference (.dir d :: ps)) ↔
      ∃ r, y.converted d fmax string = some r ∧ field d.left d.fmin r = d.reference ∧
        y.emits (y.carry r.fmax) r.string ps = some (reference ps) := by
  constructor
  · intro h
    obtain ⟨r, hr, h⟩ := Option.bind_eq_some_iff.mp h
    obtain ⟨rest, hrest, heq⟩ := Option.map_eq_some_iff.mp h
    -- neither part is longer than its reference, so none is shorter
    have hfield := Directive.field_length hp.1 (hy d.conv) hr
    have hlen := Copy.emits_length hy hp.2 hrest
    have htotal := congrArg List.length heq
    rw [reference, List.length_append, List.length_append] at htotal
    obtain ⟨hfst, hsnd⟩ := List.append_inj heq (by omega)
    exact ⟨r, hr, hfst, by rw [hrest, hsnd]⟩
  · rintro ⟨r, hr, hfield, hrest⟩
    rw [emits, hr, Option.bind_some, hrest, Option.map_some, hfield, reference]

/-- On a format without a precision both copies write the reference text exactly when it is
sound. -/
theorem emits_iff {ps : List Piece} (hp : NoPrecision ps) (fmax : Int)
    (string string' : List Byte) :
    (Doprnt.copy.emits fmax string ps = some (reference ps) ∧
        Fdoprnt.copy.emits 0 string' ps = some (reference ps)) ↔ Sound fmax ps := by
  have hcons : ∀ (c : Byte) (o : Option (List Byte)) (l : List Byte),
      o.map (c :: ·) = some (c :: l) ↔ o = some l := by
    intro c o l
    cases o with
    | none => exact ⟨nofun, nofun⟩
    | some t => simp
  induction ps generalizing fmax string string' with
  | nil => exact ⟨fun _ => trivial, fun _ => ⟨rfl, rfl⟩⟩
  | cons p ps ih =>
    cases p with
    | lit c plain =>
      rw [Copy.emits, Copy.emits, reference, hcons, hcons]
      exact ih hp fmax string string'
    | percent =>
      rw [Copy.emits, Copy.emits, reference, hcons, hcons]
      exact ih hp fmax string string'
    | dir d =>
      rw [Copy.emits_directive Doprnt.printed_length hp, Copy.emits_directive Fdoprnt.printed_length hp]
      constructor
      · rintro ⟨⟨r, hr, hfield, hrest⟩, ⟨r', hr', hfield', hrest'⟩⟩
        obtain ⟨-, -, -, -, hmax⟩ := Conv.converted_eq hr
        have hrest := (ih hp.2 _ _ _).mp ⟨hrest, hrest'⟩
        rw [hmax] at hrest
        exact ⟨(Directive.sound_iff hp.1 fmax string string').mp ⟨r, r', hr, hr', hfield, hfield'⟩, hrest⟩
      · rintro ⟨hdir, hsound⟩
        obtain ⟨r, r', hr, hr', hfield, hfield'⟩ :=
          (Directive.sound_iff hp.1 fmax string string').mpr hdir
        obtain ⟨-, -, -, -, hmax⟩ := Conv.converted_eq hr
        rw [← hmax] at hsound
        obtain ⟨hrest, hrest'⟩ := (ih hp.2 _ r.string r'.string).mpr hsound
        exact ⟨⟨r, hr, hfield, hrest⟩, ⟨r', hr', hfield', hrest'⟩⟩

theorem length_render (ps : List Piece) : ps.length ≤ (render ps).length := by
  induction ps with
  | nil => exact Nat.le_refl 0
  | cons p ps ih =>
    cases p with
    | lit c plain => exact Nat.succ_le_succ ih
    | percent => exact Nat.le_succ_of_le (Nat.succ_le_succ ih)
    | dir d =>
      rw [render, List.length_cons, List.length_cons, List.length_append]
      omega

/-- What is to hold of a format: both copies write the reference text. -/
def Agrees (fmax : Int) (string string' : List Byte) (ps : List Piece) : Prop :=
  doprnt fmax string (render ps) (arguments ps) = some (reference ps) ∧
    fdoprnt string' (render ps) (arguments ps) = some (reference ps)

/-- **Both copies write the reference text of a sound format, whatever `fmax` and `string` hold
at first, and of no other format that has no precision.** -/
theorem printf_reference (fmax : Int) (string string' : List Byte) (ps : List Piece) :
    (Sound fmax ps → Agrees fmax string string' ps) ∧
      (NoPrecision ps → Agrees fmax string string' ps → Sound fmax ps) := by
  have hiff : NoPrecision ps → (Agrees fmax string string' ps ↔ Sound fmax ps) := by
    intro hp
    have hlen := Nat.lt_succ_of_le (length_render ps)
    rw [Agrees, doprnt, fdoprnt, Doprnt.loop_eq hp hlen, Fdoprnt.loop_eq hp hlen]
    exact emits_iff hp fmax string string'
  exact ⟨fun h => (hiff h.noPrecision).mpr h, fun hp h => (hiff hp).mp h⟩

/-- `%-6d|%s` of -42 and "ab", with nothing left in `fmax`. -/
theorem printf_reference_fields :
    Agrees 0 [] []
      [.dir { left := true, zero := false, width := .digits [6], prec := none, conv := .d (-42),
              flagged := fun _ => by decide },
       .lit (ch '|') (by decide),
       .dir { left := false, zero := false, width := .digits [], prec := none,
              conv := .s (some ("ab".toList.map ch)), flagged := fun _ => nofun }] := by
  refine (printf_reference 0 [] [] _).1 ⟨⟨rfl, ?_, .inl (by decide), .inl (by decide)⟩,
    ⟨rfl, trivial, .inl (by decide), .inl (by decide)⟩, trivial⟩
  exact (by decide : (-42 : Long) ≠ intMin)

/-- The copies differ on `%d` of the least number, and `_doprnt` cuts a first string to
what happens to be in `fmax`. -/
theorem not_printf_reference :
    doprnt 0 [] [ch '%', ch 'd'] [.int intMin] = some ("-2147483648".toList.map ch) ∧
      fdoprnt [] [ch '%', ch 'd'] [.int intMin] = some ("-./,),(-*,(".toList.map ch) ∧
      doprnt 3 [] [ch '%', ch 's'] [.str (some ("abcdef".toList.map ch))] =
        some ("abc".toList.map ch) := by
  decide +kernel

end Xinu.Libxc
