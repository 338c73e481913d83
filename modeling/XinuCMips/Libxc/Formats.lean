import XinuCMips.Libxc.Fields

/-!
# Formats

A format as the pieces it is built from, each directive with its arguments, and the
reference formatter on the pieces.

* `convert_eq`     — what the `switch` makes of a conversion with its argument;
* `addFirst_eq`    — the detour of `%u` over a positive number gives the unsigned numeral;
* `printed_text`   — the text of a conversion is the reference text, but for two arguments.
-/

namespace Xinu.Libxc

/-- A conversion with its argument. -/
inductive Conv
  | b (w : Long)
  | c (w : Long)
  | d (w : Long)
  | o (w : Long)
  | s (str : Option (List Byte))
  | u (w : Long)
  | X (w : Long)
  | x (w : Long)

namespace Conv

def char : Conv → Byte
  | .b _ => ch 'b'
  | .c _ => ch 'c'
  | .d _ => ch 'd'
  | .o _ => ch 'o'
  | .s _ => ch 's'
  | .u _ => ch 'u'
  | .X _ => ch 'X'
  | .x _ => ch 'x'

def arg : Conv → Arg
  | .s str => .str str
  | .b w | .c w | .d w | .o w | .u w | .X w | .x w => .int w

/-- The converted argument, without its sign. -/
def text : Conv → List Byte
  | .b w => numeral 2 w.toNat
  | .c w => [w.setWidth 8]
  | .d w => numeral 10 w.toInt.natAbs
  | .o w => numeral 8 w.toNat
  | .s str => str.getD ("(null)".toList.map ch)
  | .u w => numeral 10 w.toNat
  | .X w => numeralUpper 16 w.toNat
  | .x w => numeral 16 w.toNat

def negative : Conv → Bool
  | .d w => w.slt 0
  | _ => false

/-- Zeros fill numbers only. -/
def numeric : Conv → Bool
  | .c _ | .s _ => false
  | _ => true

end Conv

/-- A width or a precision: digits, none of them when it is not given, or a star. -/
inductive Bound
  | digits (l : List (Fin 10))
  | star (w : Long)

namespace Bound

def text : Bound → List Byte
  | .digits l => (l.map (·.val)).map digitCh
  | .star _ => [ch '*']

def args : Bound → List Arg
  | .digits _ => []
  | .star w => [.int w]

def value : Bound → Int
  | .digits l => Numerals.value 10 0 (l.map (·.val))
  | .star w => w.toInt

end Bound

/-- A directive with its arguments. A zero before the width is the flag. -/
structure Directive where
  left : Bool
  zero : Bool
  width : Bound
  prec : Option Bound
  conv : Conv
  flagged : zero = false → width.text.head? ≠ some (ch '0')

inductive Piece
  | lit (c : Byte) (plain : c ≠ 0 ∧ c ≠ ch '%')
  | percent
  | dir (d : Directive)

namespace Directive

/-- A directive after its '%'. -/
def text (d : Directive) : List Byte :=
  (if d.left then [ch '-'] else []) ++ ((if d.zero then [ch '0'] else []) ++
    (d.width.text ++ ((d.prec.elim [] fun p => ch '.' :: p.text) ++ [d.conv.char])))

def args (d : Directive) : List Arg :=
  d.width.args ++ (d.prec.elim [] Bound.args ++ [d.conv.arg])

def fill (d : Directive) : Byte := if d.zero ∧ d.conv.numeric then ch '0' else ch ' '

/-- The converted argument, cut to the precision when there is one. -/
def truncated (d : Directive) : List Byte :=
  match d.prec with
  | none => d.conv.text
  | some p => if p.value < 0 then d.conv.text else d.conv.text.take p.value.toNat

/-- The reference formatter on a directive. -/
def reference (d : Directive) : List Byte :=
  arrange d.left d.fill d.conv.negative d.width.value d.truncated

end Directive

/-- The format. -/
def render : List Piece → List Byte
  | [] => []
  | .lit c _ :: ps => c :: render ps
  | .percent :: ps => ch '%' :: ch '%' :: render ps
  | .dir d :: ps => ch '%' :: (d.text ++ render ps)

/-- The arguments of a format. -/
def arguments : List Piece → List Arg
  | [] => []
  | .lit _ _ :: ps => arguments ps
  | .percent :: ps => arguments ps
  | .dir d :: ps => d.args ++ arguments ps

/-- The reference formatter. -/
def reference : List Piece → List Byte
  | [] => []
  | .lit c _ :: ps => c :: reference ps
  | .percent :: ps => ch '%' :: reference ps
  | .dir d :: ps => d.reference ++ reference ps

-- ---------------------------------------------------------------------------
-- The switch
-- ---------------------------------------------------------------------------

namespace Conv

variable {size : Nat} {prtl10 decimal : Long → List Byte} {w : Long}

/-- The text that the `switch` makes. -/
def printed (prtl10 decimal : Long → List Byte) : Conv → List Byte
  | .b w => prtl2 w
  | .c w => if w.setWidth 8 = (0 : Byte) then [] else [w.setWidth 8]
  | .d w => decimal w
  | .o w => prtl8 w
  | .s str => str.getD ("(null)".toList.map ch)
  | .u w => addFirst (digit1 3 w 0).2 (prtl10 (digit1 3 w 0).1)
  | .X w => prtX16 w
  | .x w => prtl16 w

/-- `fmax` after the `switch`: only `%d` and `%s` leave it. -/
def leftover (fmax : Int) : Conv → Int
  | .d _ | .s _ => fmax
  | _ => 0

/-- What the `switch` makes of a conversion. -/
def converted (size : Nat) (prtl10 decimal : Long → List Byte) (fill : Byte) (fmax : Int)
    (string : List Byte) (v : Conv) : Option Conversion :=
  match v with
  | .s _ =>
      some { written := [], str := v.printed prtl10 decimal, string := string, sign := false,
             fill := ch ' ', fmax := fmax }
  | v =>
      store size (v.printed prtl10 decimal) (if v.numeric then fill else ch ' ') (v.leftover fmax)
        v.negative

theorem convert_eq (fill : Byte) (fmax : Int) (string : List Byte) (ap : List Arg) (v : Conv) :
    Libxc.convert size prtl10 decimal v.char fill fmax string (v.arg :: ap) =
      (v.converted size prtl10 decimal fill fmax string).map fun r => (r, ap) := by
  cases v <;> rfl

/-- What a conversion that gives a result is. -/
theorem converted_eq {fill : Byte} {fmax : Int} {string : List Byte} {v : Conv} {r : Conversion}
    (h : v.converted size prtl10 decimal fill fmax string = some r) :
    r.written = [] ∧ r.str = v.printed prtl10 decimal ∧ r.sign = v.negative ∧
      r.fill = (if v.numeric then fill else ch ' ') ∧ r.fmax = v.leftover fmax := by
  cases v with
  | s str =>
    cases h
    exact ⟨rfl, rfl, rfl, rfl, rfl⟩
  | _ =>
    simp only [converted, store, Option.ite_none_right_eq_some] at h
    obtain ⟨-, h⟩ := h
    cases h
    exact ⟨rfl, rfl, rfl, rfl, rfl⟩

end Conv

-- ---------------------------------------------------------------------------
-- The texts of the conversions
-- ---------------------------------------------------------------------------

def intMin : Long := 0x80000000

theorem slt_zero (w : Long) : w.slt 0 = decide (2 ^ 31 ≤ w.toNat) := by
  have hw := w.isLt
  have hzero : (0 : Long).toInt = 0 := rfl
  rw [BitVec.slt_eq_decide, hzero, BitVec.toInt_eq_toNat_cond]
  split
  · rw [decide_eq_decide]
    omega
  · rw [decide_eq_decide]
    omega

/-- The loop of `%u` leaves a number that is not negative, of ten digits if it took
anything away. -/
theorem digit1_eq (w : Long) :
    ∃ j ≤ 3, (digit1 3 w 0).2 = BitVec.ofNat 8 j ∧
      (digit1 3 w 0).1.toNat + j * 10 ^ 9 = w.toNat ∧ (digit1 3 w 0).1.toNat < 2 ^ 31 ∧
      (j = 0 ∨ 10 ^ 9 ≤ (digit1 3 w 0).1.toNat) := by
  have hw := w.isLt
  have hsub : ∀ x : Long, 2 ^ 31 ≤ x.toNat → (x - 1000000000).toNat = x.toNat - 10 ^ 9 := by
    intro x hx
    have hlt := x.isLt
    rw [BitVec.toNat_sub, show (1000000000 : Long).toNat = 10 ^ 9 from rfl]
    omega
  simp only [digit1, slt_zero, decide_eq_true_eq]
  by_cases h1 : 2 ^ 31 ≤ w.toNat
  · have hs1 := hsub w h1
    rw [if_pos h1]
    by_cases h2 : 2 ^ 31 ≤ (w - 1000000000).toNat
    · have hs2 := hsub _ h2
      rw [if_pos h2]
      by_cases h3 : 2 ^ 31 ≤ (w - 1000000000 - 1000000000).toNat
      · have hs3 := hsub _ h3
        rw [if_pos h3]
        refine ⟨3, by decide, rfl, ?_⟩
        dsimp only
        omega
      · rw [if_neg h3]
        refine ⟨2, by decide, rfl, ?_⟩
        dsimp only
        omega
    · rw [if_neg h2]
      refine ⟨1, by decide, rfl, ?_⟩
      dsimp only
      omega
  · rw [if_neg h1]
    refine ⟨0, by decide, rfl, ?_⟩
    dsimp only
    omega

/-- The first digit makes up for what the loop took away. -/
theorem addFirst_eq {prtl10 : Long → List Byte}
    (hprtl10 : ∀ w : Long, w.toNat < 2 ^ 31 → prtl10 w = numeral 10 w.toNat) (w : Long) :
    addFirst (digit1 3 w 0).2 (prtl10 (digit1 3 w 0).1) = numeral 10 w.toNat := by
  have hw := w.isLt
  obtain ⟨j, hj, hcount, hsum, hlt, hbig⟩ := digit1_eq w
  rw [hcount, hprtl10 _ hlt, numeral, numeral]
  rcases hbig with rfl | hbig
  · rw [Nat.zero_mul, Nat.add_zero] at hsum
    rw [hsum]
    cases (Numerals.numeral 10 w.toNat).map digitCh with
    | nil => rfl
    | cons c t => exact congrArg (· :: t) (BitVec.add_zero c)
  · have hdigits : ∀ d < 10, ∀ j < 10, d + j < 10 →
        digitCh d + BitVec.ofNat 8 j = digitCh (d + j) := by decide
    have htop : (digit1 3 w 0).1.toNat / 10 ^ 9 + j = w.toNat / 10 ^ 9 := by omega
    rw [Numerals.numeral_eq_cons (k := 9) (by decide) hbig (by omega),
      Numerals.numeral_eq_cons (k := 9) (n := w.toNat) (by decide) (by omega) (by omega), ← hsum,
      Numerals.residues_add_mul (by decide), hsum, ← htop, List.map_cons, List.map_cons, addFirst,
      hdigits _ (by omega) j (by omega) (by omega)]

/-- What `%d` of `_fdoprnt` makes of its argument. -/
def Fdoprnt.decimal (larg : Long) : List Byte := prtl10 (if larg.slt 0 then -larg else larg)

theorem Doprnt.prtl10_nonneg {w : Long} (h : w.toNat < 2 ^ 31) :
    Doprnt.prtl10 w = numeral 10 w.toNat := by
  rw [Doprnt.prtl10_eq, BitVec.toInt_eq_toNat_cond, if_pos (by omega), Int.natAbs_natCast]

theorem Fdoprnt.decimal_eq {w : Long} (h : w ≠ intMin) :
    Fdoprnt.decimal w = numeral 10 w.toInt.natAbs := by
  have hw := w.isLt
  have hne : w.toNat ≠ 2 ^ 31 := fun h0 => h (BitVec.eq_of_toNat_eq h0)
  rw [Fdoprnt.decimal, slt_zero, BitVec.toInt_eq_toNat_cond]
  by_cases hneg : 2 ^ 31 ≤ w.toNat
  · have hlt : (-w).toNat = 2 ^ 32 - w.toNat := by
      rw [BitVec.toNat_neg]
      omega
    rw [if_pos (decide_eq_true hneg), Fdoprnt.prtl10_eq (by omega), hlt, if_neg (by omega)]
    exact congrArg (numeral 10) (by omega)
  · rw [if_neg (by simpa using hneg), Fdoprnt.prtl10_eq (by omega), if_pos (by omega),
      Int.natAbs_natCast]

/-- The least number is written with other characters than digits. -/
theorem Fdoprnt.decimal_intMin :
    (Fdoprnt.decimal intMin).length = (numeral 10 intMin.toInt.natAbs).length ∧
      Fdoprnt.decimal intMin ≠ numeral 10 intMin.toInt.natAbs := by
  have hnum : numeral 10 intMin.toInt.natAbs = "2147483648".toList.map ch := by
    have : intMin.toInt.natAbs = 2147483648 := by decide
    rw [this, numeral, Numerals.numeral]
    simp [digitCh, lowerDigits]
  rw [hnum]
  decide +kernel

namespace Conv

variable {prtl10 decimal : Long → List Byte}

/-- The text is the reference text, but for a NUL character, and where `decimal` fails. -/
theorem printed_text (hprtl10 : ∀ w : Long, w.toNat < 2 ^ 31 → prtl10 w = numeral 10 w.toNat)
    {v : Conv} (hd : ∀ w, v = .d w → decimal w = numeral 10 w.toInt.natAbs)
    (hc : ∀ w, v = .c w → w.setWidth 8 ≠ (0 : Byte)) : v.printed prtl10 decimal = v.text := by
  cases v with
  | b w => exact prtl2_eq w
  | c w => exact if_neg (hc w rfl)
  | d w => exact hd w rfl
  | o w => exact prtl8_eq w
  | s str => rfl
  | u w => exact addFirst_eq hprtl10 w
  | X w => exact prtX16_eq w
  | x w => exact prtl16_eq w

end Conv

end Xinu.Libxc
