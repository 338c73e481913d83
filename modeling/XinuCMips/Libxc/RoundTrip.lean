import XinuCMips.Libxc.Fields
import XinuCMips.Libxc.Scan

/-!
# Scanning what was printed

A text that `_fdoprnt` writes for an integer, read back by `sscanf` with the same
conversion. `_innum` takes the letters of a number only, and only in base 16.

* `innum_other` — in another base `_innum` stores nothing or zero;
* `digits_hex`  — in base 16 it takes the digits from ten up to fifteen, as long as they last;
* `scanned_back` — when the number comes back.
-/

namespace Xinu.Libxc

/-- The conversions of integers that both functions know. -/
inductive Radix
  | d | o | x
  deriving DecidableEq

def Radix.conv : Radix → Byte
  | .d => ch 'd'
  | .o => ch 'o'
  | .x => ch 'x'

/-- The text of a width in a directive. -/
def widthText (w : Nat) : List Byte := if w = 0 then [] else numeral 10 w

/-- A directive, with a width or without one. -/
def directive (w : Nat) (r : Radix) : List Byte := ch '%' :: (widthText w ++ [r.conv])

variable {string str rest before text : List Byte} {f c : Byte} {w n np : Nat} {v lcval : Long}
  {r : Radix}

-- ---------------------------------------------------------------------------
-- Directives
-- ---------------------------------------------------------------------------

/-- A width starts with a digit that is not zero. -/
theorem widthText_head (w : Nat) (f : Byte) (rest : List Byte) :
    ∃ g t, widthText w ++ f :: rest = g :: t ∧ (g = f ∨ isDigit g ∧ g ≠ ch '0') := by
  unfold widthText
  by_cases hw : w = 0
  · rw [if_pos hw]
    exact ⟨f, rest, rfl, .inl rfl⟩
  · obtain ⟨d, l, hl, hd⟩ := Numerals.numeral_head (b := 10) hw
    have hlt : d < 10 := Numerals.numeral_lt (by decide) d (by rw [hl]; exact List.mem_cons_self)
    rw [if_neg hw, numeral, hl]
    refine ⟨digitCh d, l.map digitCh ++ f :: rest, rfl, .inr ⟨digitCh_isDigit d hlt, fun h0 => ?_⟩⟩
    exact hd ((digitCh_zero d (by omega)).mp h0)

theorem number_widthText (hf : isDigit f = false) :
    number 0 (widthText w ++ f :: rest) = (BitVec.ofNat 32 w, f :: rest) := by
  unfold widthText
  by_cases hw : w = 0
  · rw [if_pos hw, List.nil_append, number, if_neg (by rw [hf]; exact Bool.false_ne_true), hw]
    rfl
  · rw [if_neg hw, numeral, show (0 : Long) = BitVec.ofNat 32 0 from rfl,
      number_digits (Numerals.numeral_lt (by decide)) hf, Numerals.value_numeral]

theorem Radix.conv_ne (r : Radix) : isDigit r.conv = false ∧ r.conv ≠ ch '%' ∧ r.conv ≠ ch '-' ∧
    r.conv ≠ ch '0' ∧ r.conv ≠ ch '*' ∧ r.conv ≠ ch '.' := by
  cases r <;> decide

/-- What stands before the digits of a width is not there. -/
theorem accept_widthText (hc : isDigit c = false ∨ c = ch '0') (hr : r.conv ≠ c) :
    accept c (widthText w ++ r.conv :: rest) = (false, widthText w ++ r.conv :: rest) := by
  obtain ⟨g, t, hg, hgf⟩ := widthText_head w r.conv rest
  rw [hg]
  refine accept_ne fun h => ?_
  rcases hgf with rfl | ⟨hdigit, hzero⟩
  · exact hr h
  · rcases hc with hc | hc
    · rw [h, hc] at hdigit
      cases hdigit
    · exact hzero (h.trans hc)

-- ---------------------------------------------------------------------------
-- Printing
-- ---------------------------------------------------------------------------

/-- The digits that `_fdoprnt` writes. -/
def printed (r : Radix) (v : Long) : List Byte :=
  match r with
  | .d => Fdoprnt.prtl10 (if v.slt 0 then -v else v)
  | .o => prtl8 v
  | .x => prtl16 v

/-- The sign that `_fdoprnt` writes. -/
def minus (r : Radix) (v : Long) : Bool := r == .d && v.slt 0

theorem strip_length_le (temp : List Byte) : (strip temp).length ≤ temp.length := by
  unfold strip
  split
  · rw [List.length_take]
    omega
  · calc _ ≤ temp.reverse.length := (List.dropWhile_suffix _).length_le
      _ = temp.length := List.length_reverse

theorem printed_length (r : Radix) (v : Long) : (printed r v).length < 20 := by
  cases r with
  | d => exact Nat.lt_of_le_of_lt (strip_length_le _) (by rw [length_temps]; decide)
  | o =>
    refine Nat.lt_of_le_of_lt (strip_length_le _) ?_
    rw [List.length_append, List.length_take, List.length_map, List.length_drop, length_temps]
    decide
  | x => exact Nat.lt_of_le_of_lt (strip_length_le _) (by rw [length_temps]; decide)

/-- Without a flag the field is blanks, the sign and the text. -/
theorem field_blank {fmin : Int} {d : Conversion} (hw : d.written = []) (hfill : d.fill = ch ' ')
    (hmax : d.fmax = 0) :
    ∃ k, field false fmin d =
      List.replicate k (ch ' ') ++ ((if d.sign then [ch '-'] else []) ++ d.str) := by
  have hcut : cut (inRange d.fmax) d.str = d.str := by
    rw [hmax]
    exact if_neg fun h => h.1 (by decide)
  rw [field_eq false fmin (.inr hfill), hw, hfill, hcut, arrange, if_neg Bool.false_ne_true,
    if_neg (by decide)]
  exact ⟨_, rfl⟩

/-- `_fdoprnt` writes blanks, the sign and the digits. -/
theorem fdoprnt_directive (string : List Byte) (w : Nat) (r : Radix) (v : Long) :
    ∃ k, fdoprnt string (directive w r) [.int v] =
      some (List.replicate k (ch ' ') ++
        ((if minus r v then [ch '-'] else []) ++ printed r v)) := by
  obtain ⟨hdigit, hpercent, hminus, hzero, hstar, hdot⟩ := r.conv_ne
  have hstore : ∀ fill fmax sign, store 20 (printed r v) fill fmax sign =
      some { written := [], str := printed r v, string := printed r v, sign := sign, fill := fill,
             fmax := fmax } := fun fill fmax sign => if_pos (printed_length r v)
  have hconvert : Fdoprnt.convert r.conv (ch ' ') 0 string [.int v] =
      some ({ written := [], str := printed r v, string := printed r v, sign := minus r v,
              fill := ch ' ', fmax := 0 }, []) := by
    cases r <;> exact congrArg (Option.map _) (hstore _ _ _)
  have hwidth : widthSpec (widthText w ++ [r.conv]) [.int v] =
      some ((BitVec.ofNat 32 w).toInt, [r.conv], [.int v]) := by
    rw [widthSpec, accept_widthText (.inl rfl) hstar]
    simp only [number_widthText hdigit]
  have hfuel : ∃ k, (directive w r).length = k + 1 := ⟨_, List.length_cons⟩
  obtain ⟨k, hk⟩ := hfuel
  obtain ⟨blanks, hfield⟩ := @field_blank (BitVec.ofNat 32 w).toInt
    { written := [], str := printed r v, string := printed r v, sign := minus r v,
      fill := ch ' ', fmax := 0 } rfl rfl rfl
  refine ⟨blanks, ?_⟩
  rw [fdoprnt, hk, directive, Fdoprnt.loop, if_neg (by exact fun h => h rfl)]
  simp only [accept_widthText (.inl rfl) hpercent, accept_widthText (.inl rfl) hminus,
    accept_widthText (.inr rfl) hzero, hwidth, Option.bind_some, accept_ne hdot, hconvert,
    Fdoprnt.loop, Option.map_some, List.append_nil, hfield, if_false, Bool.false_eq_true]

-- ---------------------------------------------------------------------------
-- Scanning
-- ---------------------------------------------------------------------------

/-- The length that `_innum` is called with. -/
def scanLen (w : Nat) : Nat := if w = 0 then 30000 else w

theorem Radix.conv_scan (r : Radix) : isUpper r.conv = false ∧ r.conv ≠ ch 'l' ∧ r.conv ≠ ch 'h' ∧
    r.conv ≠ ch '[' ∧ r.conv ≠ ch 'c' ∧ r.conv ≠ ch 's' ∧ r.conv ≠ 0 := by
  cases r <;> decide

/-- One directive is one call of `_innum`. -/
theorem sscanf_directive (str : List Byte) (hw : w < 2 ^ 31) (r : Radix) :
    sscanf str (directive w r ++ [0]) 1 =
      (innum true r.conv (scanLen w) .regular { before := [], rest := str }).map fun res =>
        (if res.fileended then (if res.ret then 1 else -1) else (if res.ret then 1 else 0),
          res.item.toList.map fun item => (0, item)) := by
  obtain ⟨hdigit, hpercent, -, -, hstar, -⟩ := r.conv_ne
  obtain ⟨hupper, hl, hh, hclass, hc, hs, h0⟩ := r.conv_scan
  have hlen : (if BitVec.ofNat 32 w = 0 then 30000 else (BitVec.ofNat 32 w).toInt) =
      (scanLen w : Int) := by
    have hw32 : (BitVec.ofNat 32 w).toNat = w := by
      rw [BitVec.toNat_ofNat]
      omega
    unfold scanLen
    by_cases hw0 : w = 0
    · rw [if_pos hw0, if_pos (by rw [hw0]; rfl)]
      rfl
    · rw [if_neg hw0, if_neg fun h => hw0 (by rw [← hw32, h]; rfl), BitVec.toInt_eq_toNat_cond, hw32,
        if_pos (by omega)]
  have hfmt : directive w r ++ [0] = ch '%' :: (widthText w ++ r.conv :: [0]) := by
    rw [directive, List.cons_append, List.append_assoc]
    rfl
  have hfuel : ∃ k, (widthText w ++ r.conv :: [0]).length = k + 1 := by
    refine ⟨(widthText w).length + 1, ?_⟩
    rw [List.length_append]
    rfl
  obtain ⟨k, hk⟩ := hfuel
  have hother : ¬ (r.conv = ch 'c' ∨ r.conv = ch 's' ∨ r.conv = ch '[') := by
    rintro (h | h | h)
    exacts [hc h, hs h, hclass h]
  rw [hfmt, sscanf, List.length_cons, hk, doscan, if_neg (by decide), if_pos rfl]
  simp only [accept_widthText (.inl rfl) hpercent, Scan.directive,
    accept_widthText (.inl rfl) hstar, number_widthText hdigit, hlen, sizeSpec, if_neg hl, if_neg hh,
    if_neg hclass, Option.bind_some, hupper, Bool.false_eq_true, if_false, if_neg h0, Scan.convert,
    if_neg hother, Bool.not_false]
  cases innum true r.conv (scanLen w) .regular { before := [], rest := str } with
  | none => rfl
  | some res =>
    obtain ⟨ret, item, fileended, text⟩ := res
    cases fileended <;> cases ret <;> rfl

/-- The number comes back when `_innum` stores it. -/
theorem sscanf_matches (str : List Byte) (hw : w < 2 ^ 31) (r : Radix) (v : Long) :
    sscanf str (directive w r ++ [0]) 1 = some (1, [(0, .int v)]) ↔
      ∃ res, innum true r.conv (scanLen w) .regular { before := [], rest := str } = some res ∧
        res.ret = true ∧ res.item = some (.int v) := by
  rw [sscanf_directive str hw]
  constructor
  · intro h
    obtain ⟨res, hres, hgive⟩ := Option.map_eq_some_iff.mp h
    obtain ⟨hret, hitem⟩ := Prod.mk.inj hgive
    refine ⟨res, hres, ?_, ?_⟩
    · cases hr : res.ret with
      | true => rfl
      | false =>
        cases hend : res.fileended <;> rw [hr, hend] at hret <;> exact absurd hret (by decide)
    · cases hi : res.item with
      | none =>
        rw [hi] at hitem
        cases hitem
      | some item =>
        rw [hi] at hitem
        cases hitem
        rfl
  · rintro ⟨res, hres, hret, hitem⟩
    rw [hres, Option.map_some, hret, hitem]
    cases res.fileended <;> rfl

theorem skipBlanks_blanks {l : List Byte} (hl : ∀ c ∈ l, isBlank c = true) :
    skipBlanks before (l ++ rest) = skipBlanks (l.reverse ++ before) rest := by
  induction l generalizing before with
  | nil => rfl
  | cons c l ih =>
    rw [List.cons_append, skipBlanks, if_pos (hl c List.mem_cons_self),
      ih fun x hx => hl x (List.mem_cons_of_mem c hx), List.reverse_cons, List.append_assoc]
    rfl

theorem skipBlanks_cons (hc : isBlank c = false) :
    skipBlanks before (c :: rest) = (c, { before := c :: before, rest := rest }) := by
  rw [skipBlanks, if_neg (by rw [hc]; exact Bool.false_ne_true)]

/-- No digit is one of the letters. -/
theorem isNumeric_other (base : Nat) (c : Byte) (hbase : base ≠ 16) : isNumeric base c = false := by
  have hletter : (isDigit c && (isLower c || isCapital c)) = false := by
    have hall : ∀ n < 256, (isDigit (BitVec.ofNat 8 n) &&
        (isLower (BitVec.ofNat 8 n) || isCapital (BitVec.ofNat 8 n))) = false := by decide +kernel
    have hc := hall c.toNat c.isLt
    rwa [BitVec.ofNat_toNat, BitVec.setWidth_eq] at hc
  have hne : (base == 16) = false := by simpa using hbase
  rw [isNumeric, hne, Bool.or_false, hletter]

/-- A character that is no digit for `_innum` ends the loop. -/
theorem digits_stop {base : Nat} {len : Int} (h : isNumeric base c = false) :
    digits base before c len np lcval rest =
      { np := np, lcval := lcval, c := c, text := { before := before, rest := rest } } := by
  cases rest with
  | nil => exact if_neg fun hn => by rw [h] at hn; exact Bool.false_ne_true hn.2
  | cons c' rest => exact if_neg fun hn => by rw [h] at hn; exact Bool.false_ne_true hn.2

theorem isNumeric_hex : ∀ d < 16, isNumeric 16 (digitCh d) = decide (10 ≤ d) := by decide

/-- A letter is worth its digit. -/
theorem nextDigit_hex {d m : Nat} (hd : d < 16) (h10 : 10 ≤ d) :
    nextDigit 16 (BitVec.ofNat 32 m) (digitCh d) = BitVec.ofNat 32 (m * 16 + d) := by
  have hshift : BitVec.ofNat 32 m <<< 4 = BitVec.ofNat 32 (m * 16) := by
    refine BitVec.eq_of_toNat_eq ?_
    rw [BitVec.toNat_shiftLeft, Nat.shiftLeft_eq, BitVec.toNat_ofNat, BitVec.toNat_ofNat]
    omega
  have hletter : ∀ d < 16, 10 ≤ d → isDigit (digitCh d) = false ∧ isLower (digitCh d) = true ∧
      (digitCh d - (ch 'a' - 10)).signExtend 32 = BitVec.ofNat 32 d := by decide
  obtain ⟨hdigit, hlower, hworth⟩ := hletter d hd h10
  rw [nextDigit]
  simp only [hdigit, hlower, hshift, if_true, if_false, Bool.false_eq_true, hworth,
    show ¬ (16 = 8) by decide, show ¬ (16 = 10) by decide]
  exact (BitVec.ofNat_add (m * 16) d).symm

/-- The loop stops at a digit below ten, or after `n` characters. -/
theorem hex_stops {d : Nat} (hd : d < 16)
    (h : ¬ ((n : Int) - 1 ≥ 0 ∧ isNumeric 16 (digitCh d) = true)) : n = 0 ∨ d < 10 := by
  by_contra hno
  refine h ⟨by omega, ?_⟩
  rw [isNumeric_hex d hd]
  exact decide_eq_true (by omega)

/-- In base 16 the loop takes the digits from ten up to fifteen, as long as they last and
`len` allows. -/
theorem digits_hex {d m : Nat} {l : List Nat} (hd : ∀ x ∈ d :: l, x < 16) (hb : before ≠ []) :
    ∃ pre post before', d :: l = pre ++ post ∧ (∀ x ∈ pre, 10 ≤ x) ∧ pre.length ≤ n ∧
      (post = [] ∨ pre.length = n ∨ ∃ x ∈ post, x < 10) ∧ before' ≠ [] ∧
      digits 16 before (digitCh d) n np (BitVec.ofNat 32 m) (l.map digitCh) =
        { np := np + pre.length, lcval := BitVec.ofNat 32 (Numerals.value 16 m pre),
          c := (post.head?.map digitCh).getD eof,
          text := { before := before', rest := post.tail.map digitCh } } := by
  have htakes : ∀ {d n : Nat}, d < 16 → (n : Int) - 1 ≥ 0 ∧ isNumeric 16 (digitCh d) = true →
      10 ≤ d ∧ 0 < n := by
    intro d n hd h
    rw [isNumeric_hex d hd] at h
    exact ⟨of_decide_eq_true h.2, by omega⟩
  induction l generalizing before np d m n with
  | nil =>
    have hd16 := hd d List.mem_cons_self
    by_cases htake : (n : Int) - 1 ≥ 0 ∧ isNumeric 16 (digitCh d) = true
    · obtain ⟨h10, hn⟩ := htakes hd16 htake
      refine ⟨[d], [], before, rfl, by simpa using h10, hn, .inl rfl, hb, ?_⟩
      rw [List.map_nil, digits, if_pos htake, nextDigit_hex hd16 h10]
      rfl
    · have hstop : 0 = n ∨ ∃ x ∈ [d], x < 10 :=
        (hex_stops hd16 htake).imp Eq.symm fun h => ⟨d, List.mem_cons_self, h⟩
      refine ⟨[], [d], before, rfl, nofun, Nat.zero_le n, .inr hstop, hb, ?_⟩
      rw [List.map_nil, digits, if_neg htake]
      rfl
  | cons d' l ih =>
    have hd16 := hd d List.mem_cons_self
    by_cases htake : (n : Int) - 1 ≥ 0 ∧ isNumeric 16 (digitCh d) = true
    · obtain ⟨h10, hn⟩ := htakes hd16 htake
      obtain ⟨pre, post, before', hpre, hletters, hlen, hpost, hb', hrest⟩ :=
        @ih (digitCh d' :: before) (n - 1) (np + 1) d' (m * 16 + d)
          (fun x hx => hd x (List.mem_cons_of_mem d hx)) (List.cons_ne_nil _ _)
      have hcast : ((n - 1 : Nat) : Int) = n - 1 := by omega
      have hlen' : (d :: pre).length ≤ n := by
        rw [List.length_cons]
        omega
      refine ⟨d :: pre, post, before', by rw [hpre]; rfl, ?_, hlen', ?_, hb', ?_⟩
      · intro x hx
        rcases List.mem_cons.mp hx with rfl | hx
        · exact h10
        · exact hletters x hx
      · refine hpost.imp_right (Or.imp_left fun h => ?_)
        rw [List.length_cons]
        omega
      · rw [List.map_cons, digits, if_pos htake, nextDigit_hex hd16 h10, ← hcast, hrest,
          List.length_cons, Nat.add_right_comm, ← Nat.add_assoc]
        rfl
    · have hstop : 0 = n ∨ ∃ x ∈ d :: d' :: l, x < 10 :=
        (hex_stops hd16 htake).imp Eq.symm fun h => ⟨d, List.mem_cons_self, h⟩
      refine ⟨[], d :: d' :: l, before, rfl, nofun, Nat.zero_le n, .inr hstop, hb, ?_⟩
      rw [List.map_cons, digits, if_neg htake]
      rfl

-- ---------------------------------------------------------------------------
-- _innum on a printed text
-- ---------------------------------------------------------------------------

/-- The base of `_innum`. -/
def Radix.base : Radix → Nat
  | .d => 10
  | .o => 8
  | .x => 16

/-- What `_innum` gives after its loop over the digits. -/
def afterDigits (res : Digits) : Option Scanned :=
  if res.np + (if res.np != 0 then 1 else 0) > 64 then none
  else (unget res.c res.text).map fun text =>
    { ret := res.np != 0, item := if res.np != 0 then some (.int res.lcval) else none,
      fileended := res.c == eof, text := text }

theorem Radix.base_eq (r : Radix) :
    (if r.conv = ch 'o' then 8 else if r.conv = ch 'x' then 16 else 10) = r.base := by
  cases r <;> rfl

/-- A text without a sign goes to the loop from its first character on. -/
theorem innum_unsigned {l : List Byte} (hl : ∀ c ∈ l, isBlank c = true) (hblank : isBlank c = false)
    (hminus : c ≠ ch '-') (hplus : c ≠ ch '+') :
    innum true r.conv n .regular { before := [], rest := l ++ c :: rest } =
      afterDigits (digits r.base (c :: (l.reverse ++ [])) c n 0 0 rest) := by
  have hm : (c == ch '-') = false := by simpa using hminus
  have hp : (c == ch '+') = false := by simpa using hplus
  simp only [innum, skipBlanks_blanks hl, skipBlanks_cons hblank, hm, hp, Bool.or_false,
    Bool.false_eq_true, if_false, Bool.true_and, Radix.base_eq]
  rfl

/-- In another base than 16 nothing is stored for a text without a sign. -/
theorem innum_other {l : List Byte} {res : Scanned} (hl : ∀ c ∈ l, isBlank c = true)
    (hblank : isBlank c = false) (hminus : c ≠ ch '-') (hplus : c ≠ ch '+') (hr : r ≠ .x)
    (h : innum true r.conv n .regular { before := [], rest := l ++ c :: rest } = some res) :
    res.item = none := by
  have hbase : r.base ≠ 16 := by
    cases r with
    | x => exact absurd rfl hr
    | _ => decide
  rw [innum_unsigned hl hblank hminus hplus, digits_stop (isNumeric_other _ c hbase)] at h
  obtain ⟨_, _, rfl⟩ := Option.map_eq_some_iff.mp h
  rfl

/-- In another base than 16 zero is stored for a text with the sign. -/
theorem innum_negative {l : List Byte} {res : Scanned} (hl : ∀ c ∈ l, isBlank c = true)
    (hr : r ≠ .x)
    (h : innum true r.conv n .regular { before := [], rest := l ++ ch '-' :: rest } = some res) :
    res.item = some (.int 0) := by
  have hbase : r.base ≠ 16 := by
    cases r with
    | x => exact absurd rfl hr
    | _ => decide
  have hsign : (ch '-' == ch '-') = true := by decide
  simp only [innum, skipBlanks_blanks hl, skipBlanks_cons (show isBlank (ch '-') = false by decide),
    hsign, Bool.true_or, if_true, Radix.base_eq, digits_stop (isNumeric_other _ _ hbase)] at h
  obtain ⟨_, _, rfl⟩ := Option.map_eq_some_iff.mp h
  rfl

/-- Without a sign the text is the numeral of the unsigned number. -/
theorem printed_eq (h : minus r v = false) : printed r v = numeral r.base v.toNat := by
  cases r with
  | o => exact prtl8_eq v
  | x => exact prtl16_eq v
  | d =>
    have hslt : v.slt 0 = false := h
    have hlt : v.toNat < 2 ^ 31 := by
      rw [BitVec.slt_eq_decide, decide_eq_false_iff_not, BitVec.toInt_eq_toNat_cond] at hslt
      have hv := v.isLt
      have hzero : (0 : Long).toInt = 0 := rfl
      split at hslt <;> omega
    rw [printed, hslt]
    exact Fdoprnt.prtl10_eq hlt

/-- A numeral starts with a digit. -/
theorem numeral_head (b m : Nat) (hb : 1 < b) (hb16 : b ≤ 16) :
    ∃ d l, Numerals.numeral b m = d :: l ∧ (∀ x ∈ d :: l, x < 16) ∧
      isBlank (digitCh d) = false ∧ digitCh d ≠ ch '-' ∧ digitCh d ≠ ch '+' := by
  have hchar : ∀ d < 16, isBlank (digitCh d) = false ∧ digitCh d ≠ ch '-' ∧ digitCh d ≠ ch '+' := by
    decide
  obtain ⟨d, l, hdl⟩ := List.exists_cons_of_ne_nil (Numerals.numeral_ne_nil b m)
  have hlt : ∀ x ∈ d :: l, x < 16 := fun x hx =>
    Nat.lt_of_lt_of_le (Numerals.numeral_lt hb x (hdl ▸ hx)) hb16
  exact ⟨d, l, hdl, hlt, hchar d (hlt d List.mem_cons_self)⟩

/-- A hexadecimal numeral comes back if all its digits are letters and `len` holds it. -/
theorem innum_hex {l : List Byte} (hl : ∀ c ∈ l, isBlank c = true) (v : Long) :
    (∃ res, innum true (ch 'x') n .regular
        { before := [], rest := l ++ numeral 16 v.toNat } = some res ∧
        res.ret = true ∧ res.item = some (.int v)) ↔
      (∀ d ∈ Numerals.numeral 16 v.toNat, 10 ≤ d) ∧ (Numerals.numeral 16 v.toNat).length ≤ n := by
  have hv := v.isLt
  have hlen8 : (Numerals.numeral 16 v.toNat).length ≤ 8 :=
    Numerals.numeral_length_le (by decide) (by decide) hv
  have hvalue := Numerals.value_numeral 16 v.toNat
  obtain ⟨d, t, hdt, hlt, hblank, hminus, hplus⟩ := numeral_head 16 v.toNat (by decide) (by decide)
  rw [hdt] at hlen8 hvalue ⊢
  rw [numeral, hdt, List.map_cons, show ch 'x' = Radix.conv .x from rfl,
    innum_unsigned hl hblank hminus hplus]
  obtain ⟨pre, post, before', hpre, hletters, hlen, hpost, hb', hdigits⟩ :=
    @digits_hex (digitCh d :: (l.reverse ++ [])) n 0 d 0 t hlt (List.cons_ne_nil _ _)
  have hprelen : pre.length ≤ 8 := by
    rw [hpre, List.length_append] at hlen8
    omega
  rw [show Radix.base .x = 16 from rfl, show (0 : Long) = BitVec.ofNat 32 0 from rfl, hdigits]
  have hgive : afterDigits
      { np := 0 + pre.length, lcval := BitVec.ofNat 32 (Numerals.value 16 0 pre),
        c := (post.head?.map digitCh).getD eof,
        text := { before := before', rest := post.tail.map digitCh } } =
      (unget ((post.head?.map digitCh).getD eof)
          { before := before', rest := post.tail.map digitCh }).map fun text =>
        { ret := pre.length != 0,
          item := if pre.length != 0 then
            some (.int (BitVec.ofNat 32 (Numerals.value 16 0 pre))) else none,
          fileended := (post.head?.map digitCh).getD eof == eof, text := text } := by
    have hroom : 0 + pre.length + (if 0 + pre.length != 0 then 1 else 0) ≤ 64 := by
      split <;> omega
    rw [afterDigits, if_neg (Nat.not_lt.mpr hroom), Nat.zero_add]
  rw [hgive]
  constructor
  · rintro ⟨res, hres, hret, hitem⟩
    obtain ⟨_, -, rfl⟩ := Option.map_eq_some_iff.mp hres
    have hne : (pre.length != 0) = true := hret
    simp only [hne, if_true, Option.some.injEq, Item.int.injEq] at hitem
    rw [hpre, Numerals.value_append] at hvalue
    have hle := Numerals.le_value (b := 16) (by decide) (Numerals.value 16 0 pre) post
    have hpreval : Numerals.value 16 0 pre = v.toNat := by
      rw [← hitem, BitVec.toNat_ofNat, Nat.mod_eq_of_lt (by omega)]
    -- a shorter text has another value
    have hpost0 : post = [] := by
      by_contra hpostne
      have hpos : 0 < Numerals.value 16 0 pre := by
        cases pre with
        | nil => cases hne
        | cons x p =>
          have hx := hletters x List.mem_cons_self
          have hxle := Numerals.le_value (b := 16) (by decide) (0 * 16 + x) p
          exact Nat.lt_of_lt_of_le (by omega) hxle
      have hlt := Numerals.lt_value (b := 16) (by decide) hpos hpostne
      omega
    rw [hpre, hpost0, List.append_nil]
    exact ⟨hletters, hlen⟩
  · rintro ⟨hall, hfit⟩
    have hpost0 : post = [] := by
      rcases hpost with h | h | ⟨x, hx, hx10⟩
      · exact h
      · rw [hpre, List.length_append] at hfit
        exact List.length_eq_zero_iff.mp (by omega)
      · have := hall x (by rw [hpre]; exact List.mem_append_right pre hx)
        omega
    rw [hpost0, List.append_nil] at hpre
    have hne : (pre.length != 0) = true := by
      rw [← hpre]
      rfl
    rw [hpost0, hne, ← hpre, hvalue, BitVec.ofNat_toNat, BitVec.setWidth_eq]
    exact ⟨_, rfl, rfl, rfl⟩

/-- When the number comes back: the conversion is `%x`, all the digits are letters, and the
width of the scan holds them. -/
def ReadBack (r : Radix) (w : Nat) (v : Long) : Prop :=
  r = .x ∧ (∀ d ∈ Numerals.numeral 16 v.toNat, 10 ≤ d) ∧
    (w = 0 ∨ (Numerals.numeral 16 v.toNat).length ≤ w)

/-- **What `_fdoprnt` writes for an integer, with a width or without, is read back by `sscanf`
with the same conversion, after blanks, with a width or without, exactly for the `%x` of
a number whose digits are all letters, none cut off by the width of the scan.** -/
theorem scanned_back (string : List Byte) (pw sw : Nat) (hsw : sw < 2 ^ 31) (r : Radix) (v : Long)
    (blanks : List Byte) (hblanks : ∀ c ∈ blanks, isBlank c = true) :
    ∃ text, fdoprnt string (directive pw r) [.int v] = some text ∧
      (sscanf (blanks ++ text) (directive sw r ++ [0]) 1 = some (1, [(0, .int v)]) ↔
        ReadBack r sw v) := by
  obtain ⟨k, hprint⟩ := fdoprnt_directive string pw r v
  refine ⟨_, hprint, ?_⟩
  have hl : ∀ c ∈ blanks ++ List.replicate k (ch ' '), isBlank c = true := by
    intro c hc
    rcases List.mem_append.mp hc with hc | hc
    · exact hblanks c hc
    · rw [List.eq_of_mem_replicate hc]
      decide
  rw [sscanf_matches _ hsw, ← List.append_assoc]
  cases hm : minus r v with
  | true =>
    have hr : r ≠ .x := by
      rintro rfl
      cases hm
    have hv : v ≠ 0 := by
      rintro rfl
      cases r <;> cases hm
    rw [if_pos rfl]
    constructor
    · rintro ⟨res, hres, -, hitem⟩
      rw [innum_negative hl hr hres] at hitem
      exact absurd (Item.int.inj (Option.some.inj hitem)).symm hv
    · exact fun h => absurd h.1 hr
  | false =>
    rw [if_neg Bool.false_ne_true, List.nil_append, printed_eq hm]
    by_cases hr : r = .x
    · subst hr
      have hlen8 : (Numerals.numeral 16 v.toNat).length ≤ 8 :=
        Numerals.numeral_length_le (by decide) (by decide) v.isLt
      have hfit : (Numerals.numeral 16 v.toNat).length ≤ scanLen sw ↔
          sw = 0 ∨ (Numerals.numeral 16 v.toNat).length ≤ sw := by
        unfold scanLen
        split <;> omega
      rw [show Radix.base .x = 16 from rfl, show Radix.conv .x = ch 'x' from rfl,
        innum_hex hl v, hfit]
      exact ⟨fun h => ⟨rfl, h⟩, fun h => h.2⟩
    · constructor
      · rintro ⟨res, hres, -, hitem⟩
        obtain ⟨d, t, hdt, -, hblank, hminus, hplus⟩ :=
          numeral_head r.base v.toNat (by cases r <;> decide) (by cases r <;> decide)
        rw [numeral, hdt, List.map_cons] at hres
        rw [innum_other hl hblank hminus hplus hr hres] at hitem
        cases hitem
      · exact fun h => absurd h.1 hr

/-- A number of three letters comes back with a width on both sides. -/
theorem scanned_back_letters :
    ∃ text, fdoprnt [] (directive 6 .x) [.int 0xabc] = some text ∧
      sscanf ([ch ' '] ++ text) (directive 3 .x ++ [0]) 1 = some (1, [(0, .int 0xabc)]) := by
  have hback : ReadBack .x 3 0xabc := by
    have hnum : Numerals.numeral 16 (0xabc : Long).toNat = [10, 11, 12] := by
      simp [Numerals.numeral]
    rw [ReadBack, hnum]
    decide
  obtain ⟨text, hprint, hscan⟩ :=
    scanned_back [] 6 3 (by decide) .x 0xabc [ch ' '] (by decide)
  exact ⟨text, hprint, hscan.mpr hback⟩

/-- Ten does not come back in decimal: no digit is taken. -/
theorem not_scanned_back :
    fdoprnt [] (directive 0 .d) [.int 10] = some [ch '1', ch '0'] ∧
      sscanf [ch '1', ch '0'] (directive 0 .d ++ [0]) 1 = some (0, []) ∧
      (0, []) ≠ ((1, [(0, .int 10)]) : Matched) := by
  decide +kernel

end Xinu.Libxc
