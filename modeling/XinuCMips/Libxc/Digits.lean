import XinuCMips.Lib.Numerals

/-!
# The digits of a number

`_prtl2`, `_prtl8`, `_prtl10`, `_prtl16` and `_prtX16` of `doprnt.c` and `fdoprnt.c`.
A `long` has 32 bits. The two files differ in `_prtl10` only.

* `prtl8_eq`, `prtl16_eq`, `prtX16_eq`, `prtl2_eq` — the numeral of the unsigned number;
* `Fdoprnt.prtl10_eq` — the numeral of a number that is not negative;
* `Doprnt.prtl10_eq`  — the numeral of any number, without its sign.
-/

namespace Xinu.Libxc

abbrev Byte := BitVec 8
abbrev Long := BitVec 32

/-- A character constant. -/
abbrev ch (c : Char) : Byte := BitVec.ofNat 8 c.toNat

/-- `temp[1]`, `temp[2]` and on, of a loop that takes a digit and goes to the next. -/
def temps (digit : Long → Byte) (next : Long → Long) : Nat → Long → List Byte
  | 0, _ => []
  | k + 1, num => digit num :: temps digit next k (next num)

/-- The string copied from `temp`: the zeros in front are skipped, but for one digit. -/
def strip (temp : List Byte) : List Byte :=
  match temp.reverse.dropWhile (· == ch '0') with
  | [] => temp.take 1
  | str => str

/-- `num % 10 + '0'`. -/
def digit10 (num : Long) : Byte := (num.srem 10).setWidth 8 + ch '0'

/-- `_prtl10` of `fdoprnt.c`. -/
def Fdoprnt.prtl10 (num : Long) : List Byte := strip (temps digit10 (·.sdiv 10) 10 num)

/-- `_prtl10` of `doprnt.c`. -/
def Doprnt.prtl10 (num : Long) : List Byte :=
  let first := (if num.slt 0 then -(num.srem 10) else num.srem 10).setWidth 8 + ch '0'
  let num := if num.slt 0 then num.sdiv (-10) else num.sdiv 10
  strip (first :: temps digit10 (·.sdiv 10) 9 num)

/-- `_prtl8`. -/
def prtl8 (num : Long) : List Byte :=
  let temp := temps (fun num => (num &&& 7).setWidth 8 + ch '0') (·.sshiftRight 3) 11 num
  -- temp[11] &= '3'
  strip (temp.take 10 ++ (temp.drop 10).map (· &&& ch '3'))

/-- `_prtl16` and `_prtX16`, with their table of digits. -/
def prtHex (table : List Char) (num : Long) : List Byte :=
  strip (temps (fun num => ch (table.getD (num &&& 0x0F).toNat '0')) (·.sshiftRight 4) 8 num)

def lowerDigits : List Char :=
  ['0', '1', '2', '3', '4', '5', '6', '7', '8', '9', 'a', 'b', 'c', 'd', 'e', 'f']

def upperDigits : List Char :=
  ['0', '1', '2', '3', '4', '5', '6', '7', '8', '9', 'A', 'B', 'C', 'D', 'E', 'F']

/-- `_prtl16`. -/
def prtl16 (num : Long) : List Byte := prtHex lowerDigits num

/-- `_prtX16`. -/
def prtX16 (num : Long) : List Byte := prtHex upperDigits num

/-- `_prtl2`. -/
def prtl2 (num : Long) : List Byte :=
  strip (temps (fun num => if num.srem 2 == 0 then ch '0' else ch '1') (·.sshiftRight 1) 32 num)

-- ---------------------------------------------------------------------------
-- Numerals
-- ---------------------------------------------------------------------------

/-- The character of a digit, in the table of `_prtl16`. -/
def digitCh (d : Nat) : Byte := ch (lowerDigits.getD d '0')

/-- The character of a digit, in the table of `_prtX16`. -/
def digitCH (d : Nat) : Byte := ch (upperDigits.getD d '0')

/-- The reference text of a number. -/
def numeral (b n : Nat) : List Byte := (Numerals.numeral b n).map digitCh

/-- The reference text of a number, with capital letters. -/
def numeralUpper (b n : Nat) : List Byte := (Numerals.numeral b n).map digitCH

variable {num : Long} {b k n : Nat}

theorem strip_map {f : Nat → Byte} {l : List Nat} (hf : ∀ d ∈ l, f d = ch '0' ↔ d = 0) :
    strip (l.map f) = (Numerals.strip l).map f := by
  have hdrop : ∀ m : List Nat, (∀ d ∈ m, f d = ch '0' ↔ d = 0) →
      (m.map f).dropWhile (· == ch '0') = (m.dropWhile (· == 0)).map f := by
    intro m hm
    induction m with
    | nil => rfl
    | cons d m ih =>
      have hd := hm d List.mem_cons_self
      by_cases h0 : d = 0
      · rw [List.map_cons, List.dropWhile_cons_of_pos (by simpa using hd.mpr h0),
          List.dropWhile_cons_of_pos (by simpa using h0),
          ih fun x hx => hm x (List.mem_cons_of_mem d hx)]
      · rw [List.map_cons, List.dropWhile_cons_of_neg (by simpa using fun h => h0 (hd.mp h)),
          List.dropWhile_cons_of_neg (by simpa using h0), List.map_cons]
  unfold strip Numerals.strip
  rw [← List.map_reverse, hdrop _ fun d hd => hf d (List.mem_reverse.mp hd)]
  cases l.reverse.dropWhile (· == 0) with
  | nil => exact (List.map_take).symm
  | cons d m => rfl

theorem digitCh_zero : ∀ d < 16, digitCh d = ch '0' ↔ d = 0 := by decide

theorem digitCH_zero : ∀ d < 16, digitCH d = ch '0' ↔ d = 0 := by decide

/-- The digits worked out one by one are the text of the number. -/
theorem strip_residues {f : Nat → Byte} (hf : ∀ d < 16, f d = ch '0' ↔ d = 0) (hb : 1 < b)
    (hb16 : b ≤ 16) (hk : 0 < k) (hn : n < b ^ k) :
    strip ((Numerals.residues b k n).map f) = (Numerals.numeral b n).map f := by
  rw [strip_map fun d hd => hf d (Nat.lt_of_lt_of_le (Numerals.residues_lt (by omega) d hd) hb16),
    Numerals.strip_residues hb hk hn]

theorem getElem_temps {digit : Long → Byte} {next : Long → Long} {i : Nat} (hi : i < k) :
    (temps digit next k num)[i]? = some (digit (next^[i] num)) := by
  induction k generalizing num i with
  | zero => omega
  | succ k ih =>
    cases i with
    | zero => rfl
    | succ i => rw [temps, List.getElem?_cons_succ, ih (by omega), Function.iterate_succ_apply]

theorem length_temps {digit : Long → Byte} {next : Long → Long} :
    (temps digit next k num).length = k := by
  induction k generalizing num with
  | zero => rfl
  | succ k ih => rw [temps, List.length_cons, ih]

/-- A list of digits is worked out from a number when each digit is. -/
theorem eq_residues_map {l : List Byte} {f : Nat → Byte} (hlen : l.length = k)
    (h : ∀ i < k, l[i]? = some (f (n / b ^ i % b))) : l = (Numerals.residues b k n).map f := by
  refine List.ext_getElem? fun i => ?_
  by_cases hi : i < k
  · rw [h i hi, List.getElem?_map, Numerals.getElem_residues hi]
    rfl
  · rw [List.getElem?_eq_none (by omega), List.getElem?_eq_none]
    rw [List.length_map, Numerals.length_residues]
    omega

-- ---------------------------------------------------------------------------
-- Powers of two
-- ---------------------------------------------------------------------------

/-- `i` shifts by `s` are one. -/
theorem iterate_sshiftRight (s i : Nat) (num : Long) :
    (fun x : Long => x.sshiftRight s)^[i] num = num.sshiftRight (s * i) := by
  induction i with
  | zero => rw [Nat.mul_zero, Function.iterate_zero_apply, BitVec.sshiftRight_zero]
  | succ i ih => rw [Function.iterate_succ_apply', ih, Nat.mul_succ, BitVec.sshiftRight_add]

/-- The lower bits of a shifted number are bits of the number. -/
theorem sshiftRight_low {s j : Nat} (hs : s + j ≤ 32) :
    (num.sshiftRight s).toNat % 2 ^ j = num.toNat / 2 ^ s % 2 ^ j := by
  have hbits : (num.sshiftRight s).extractLsb' 0 j = num.extractLsb' s j := by
    refine BitVec.eq_of_getLsbD_eq fun i hi => ?_
    rw [BitVec.getLsbD_extractLsb', BitVec.getLsbD_extractLsb', BitVec.getLsbD_sshiftRight,
      decide_eq_true hi, Nat.zero_add, if_pos (by omega), decide_eq_false (by omega)]
    rfl
  have h := congrArg BitVec.toNat hbits
  rwa [BitVec.extractLsb'_toNat, BitVec.extractLsb'_toNat, Nat.shiftRight_zero,
    Nat.shiftRight_eq_div_pow] at h

/-- A digit taken with a mask after `i` shifts is a digit of the number. -/
theorem masked_digit {w i : Nat} {mask : Long} (hmask : mask.toNat = 2 ^ w - 1)
    (hi : w * i + w ≤ 32) :
    ((fun x : Long => x.sshiftRight w)^[i] num &&& mask).toNat = num.toNat / (2 ^ w) ^ i % 2 ^ w := by
  rw [iterate_sshiftRight, BitVec.toNat_and, hmask, Nat.and_two_pow_sub_one_eq_mod,
    sshiftRight_low hi, Nat.pow_mul]

/-- `_prtl16` and `_prtX16` write the hexadecimal numeral of the unsigned number. -/
theorem prtHex_eq (table : List Char)
    (htable : ∀ d < 16, ch (table.getD d '0') = ch '0' ↔ d = 0) (num : Long) :
    prtHex table num = (Numerals.numeral 16 num.toNat).map fun d => ch (table.getD d '0') := by
  rw [prtHex, ← strip_residues (k := 8) htable (by decide) (by decide) (by decide) num.isLt]
  refine congrArg strip (eq_residues_map length_temps fun i hi => ?_)
  rw [getElem_temps hi, masked_digit (w := 4) rfl (by omega)]
  rfl

theorem prtl16_eq (num : Long) : prtl16 num = numeral 16 num.toNat :=
  prtHex_eq lowerDigits digitCh_zero num

theorem prtX16_eq (num : Long) : prtX16 num = numeralUpper 16 num.toNat :=
  prtHex_eq upperDigits digitCH_zero num

/-- `_prtl8` writes the octal numeral of the unsigned number. -/
theorem prtl8_eq (num : Long) : prtl8 num = numeral 8 num.toNat := by
  have hnum := num.isLt
  have hsmall : ∀ d < 8, BitVec.ofNat 8 d + ch '0' = digitCh d := by decide
  have hlast : ∀ d < 8, (BitVec.ofNat 8 d + ch '0') &&& ch '3' = digitCh (d % 4) := by decide
  have hwidth : ∀ x : Long, (x.setWidth 8 : Byte) = BitVec.ofNat 8 x.toNat := fun x =>
    BitVec.eq_of_toNat_eq (by rw [BitVec.toNat_setWidth, BitVec.toNat_ofNat])
  rw [prtl8, numeral, ← strip_residues (k := 11) digitCh_zero (by decide) (by decide) (by decide)
    (Nat.lt_trans hnum (by decide))]
  refine congrArg strip (eq_residues_map ?_ fun i hi => ?_)
  · rw [List.length_append, List.length_take, List.length_map, List.length_drop, length_temps]
    rfl
  · by_cases hi10 : i < 10
    · rw [List.getElem?_append_left (by rw [List.length_take, length_temps]; omega),
        List.getElem?_take, if_pos hi10, getElem_temps hi, hwidth,
        masked_digit (w := 3) rfl (by omega)]
      exact congrArg some (hsmall _ (Nat.mod_lt _ (by decide)))
    · -- two bits and two copies of the sign are left
      have hi' : i = 10 := by omega
      subst hi'
      have hlow : ((fun x : Long => x.sshiftRight 3)^[10] num &&& 7).toNat % 4 =
          num.toNat / 8 ^ 10 % 8 := by
        have hmod := @sshiftRight_low num 30 2 (by decide)
        rw [iterate_sshiftRight, show 3 * 10 = 30 from rfl, BitVec.toNat_and,
          show (7 : Long).toNat = 2 ^ 3 - 1 from rfl, Nat.and_two_pow_sub_one_eq_mod, show (8 : Nat) ^ 10 = 2 ^ 30 from rfl]
        omega
      have hlt : ((fun x : Long => x.sshiftRight 3)^[10] num &&& 7).toNat < 8 := by
        rw [BitVec.toNat_and, show (7 : Long).toNat = 2 ^ 3 - 1 from rfl,
          Nat.and_two_pow_sub_one_eq_mod]
        exact Nat.mod_lt _ (by decide)
      rw [List.getElem?_append_right (by rw [List.length_take, length_temps]; decide),
        List.length_take, length_temps, List.getElem?_map, List.getElem?_drop,
        getElem_temps (by decide), Option.map_some, hwidth]
      rw [show 10 + (10 - min 10 11) = 10 from rfl, hlast _ hlt, hlow]

/-- `_prtl2` writes the binary numeral of the unsigned number. -/
theorem prtl2_eq (num : Long) : prtl2 num = numeral 2 num.toNat := by
  have heven : ∀ x : Long, (if x.srem 2 == 0 then ch '0' else ch '1') = digitCh (x.toNat % 2) := by
    intro x
    have hx := x.isLt
    have hrem : x.srem 2 = 0 ↔ x.toNat % 2 = 0 := by
      rw [BitVec.toNat_eq, BitVec.toNat_srem, show (2 : Long).msb = false from rfl]
      cases x.msb with
      | false => rfl
      | true =>
        simp [BitVec.toNat_neg, BitVec.toNat_umod]
        omega
    rcases Nat.mod_two_eq_zero_or_one x.toNat with h | h
    · rw [if_pos (by simpa using hrem.mpr h), h]
      rfl
    · rw [if_neg (by simpa using fun h0 => by rw [hrem.mp h0] at h; cases h), h]
      rfl
  rw [prtl2, numeral, ← strip_residues (k := 32) digitCh_zero (by decide) (by decide) (by decide)
    num.isLt]
  refine congrArg strip (eq_residues_map length_temps fun i hi => ?_)
  have hmod := @sshiftRight_low num i 1 (by omega)
  rw [Nat.pow_one] at hmod
  rw [getElem_temps hi, heven, iterate_sshiftRight, Nat.one_mul, hmod]

-- ---------------------------------------------------------------------------
-- Decimal
-- ---------------------------------------------------------------------------

theorem ten_msb : (10 : Long).msb = false := rfl

/-- One digit of a number that is not negative. -/
theorem digit10_eq (h : num.toNat < 2 ^ 31) : digit10 num = digitCh (num.toNat % 10) := by
  have hmsb : num.msb = false := BitVec.msb_eq_false_iff_two_mul_lt.mpr (by omega)
  have hrem : (num.srem 10).toNat = num.toNat % 10 := by
    rw [BitVec.toNat_srem, hmsb, ten_msb]
    rfl
  have hall : ∀ d < 10, BitVec.ofNat 8 d + ch '0' = digitCh d := by decide
  have hwidth : ((num.srem 10).setWidth 8 : Byte) = BitVec.ofNat 8 (num.toNat % 10) :=
    BitVec.eq_of_toNat_eq (by rw [BitVec.toNat_setWidth, BitVec.toNat_ofNat, hrem])
  rw [digit10, hwidth]
  exact hall _ (Nat.mod_lt _ (by decide))

theorem sdiv10_eq (h : num.toNat < 2 ^ 31) : (num.sdiv 10).toNat = num.toNat / 10 := by
  have hmsb : num.msb = false := BitVec.msb_eq_false_iff_two_mul_lt.mpr (by omega)
  rw [BitVec.toNat_sdiv, hmsb, ten_msb]
  rfl

theorem temps10_eq (h : num.toNat < 2 ^ 31) :
    temps digit10 (·.sdiv 10) k num = (Numerals.residues 10 k num.toNat).map digitCh := by
  induction k generalizing num with
  | zero => rfl
  | succ k ih =>
    have hdiv := sdiv10_eq h
    rw [temps, Numerals.residues, List.map_cons, digit10_eq h, ih (by omega), hdiv]

/-- `_prtl10` of `fdoprnt.c` writes the decimal numeral of a number that is not negative. -/
theorem Fdoprnt.prtl10_eq (h : num.toNat < 2 ^ 31) : Fdoprnt.prtl10 num = numeral 10 num.toNat := by
  rw [Fdoprnt.prtl10, temps10_eq h, numeral]
  exact strip_residues digitCh_zero (by decide) (by decide) (by decide)
    (Nat.lt_trans h (by decide))

/-- `_prtl10` of `doprnt.c` writes the decimal numeral of the number without its sign. -/
theorem Doprnt.prtl10_eq (num : Long) : Doprnt.prtl10 num = numeral 10 num.toInt.natAbs := by
  have hnum := num.isLt
  have key : ∀ n, n < 2 ^ 32 → ∀ first : Byte, ∀ rest : Long, first = digitCh (n % 10) →
      rest.toNat = n / 10 → strip (first :: temps digit10 (·.sdiv 10) 9 rest) = numeral 10 n := by
    intro n hn first rest hfirst hrest
    rw [temps10_eq (by omega), hrest, hfirst, ← List.map_cons (f := digitCh), numeral,
      ← strip_residues (k := 10) digitCh_zero (by decide) (by decide) (by decide)
        (Nat.lt_trans hn (by decide))]
    rfl
  have hall : ∀ d < 10, BitVec.ofNat 8 d + ch '0' = digitCh d := by decide
  unfold Doprnt.prtl10
  cases hmsb : num.msb with
  | false =>
    have hlt : num.toNat < 2 ^ 31 := by
      have := BitVec.msb_eq_false_iff_two_mul_lt.mp hmsb
      omega
    have hslt : num.slt 0 = false := by
      rw [BitVec.slt_eq_decide, BitVec.toInt_eq_toNat_of_msb hmsb]
      simp
    rw [hslt, BitVec.toInt_eq_toNat_of_msb hmsb, Int.natAbs_natCast]
    exact key _ hnum _ _ (digit10_eq hlt) (sdiv10_eq hlt)
  | true =>
    have hge : 2 ^ 31 ≤ num.toNat := by
      by_contra hlt
      rw [BitVec.msb_eq_false_iff_two_mul_lt.mpr (by omega)] at hmsb
      cases hmsb
    have habs : num.toInt.natAbs = 2 ^ 32 - num.toNat := by
      rw [BitVec.toInt_eq_msb_cond, if_pos hmsb]
      omega
    have hslt : num.slt 0 = true := by
      rw [BitVec.slt_eq_decide, BitVec.toInt_eq_msb_cond, if_pos hmsb, decide_eq_true_iff]
      show ((num.toNat : Int) - (2 ^ 32 : Nat)) < 0
      omega
    have hneg : (-num).toNat = 2 ^ 32 - num.toNat := by
      rw [BitVec.toNat_neg]
      omega
    have hrem : -(num.srem 10) = -num % 10 := by
      rw [BitVec.srem_eq, hmsb, ten_msb, BitVec.neg_neg]
    have hdiv : num.sdiv (-10) = (-num).udiv 10 := by
      rw [BitVec.sdiv_eq, hmsb, show (-10 : Long).msb = true from rfl]
      rfl
    rw [hslt, habs]
    refine key _ (by omega) _ _ ?_ ?_
    · have hwidth : ((-(num.srem 10)).setWidth 8 : Byte) =
          BitVec.ofNat 8 ((2 ^ 32 - num.toNat) % 10) := by
        refine BitVec.eq_of_toNat_eq ?_
        rw [hrem, BitVec.toNat_setWidth, BitVec.toNat_ofNat, BitVec.toNat_umod, hneg]
        rfl
      rw [if_pos rfl, hwidth]
      exact hall _ (Nat.mod_lt _ (by decide))
    · rw [if_pos rfl, hdiv]
      show ((-num) / 10 : Long).toNat = _
      rw [BitVec.toNat_udiv, hneg]
      rfl

end Xinu.Libxc
