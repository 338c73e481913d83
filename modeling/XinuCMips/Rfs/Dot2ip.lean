import XinuCMips.Lib.CChars

/-!
# `dot2ip`: dotted decimal to an address

The inner loop reads one number of at most three digits and the character behind it,
the outer loop at most four numbers. It ends at the null character, after whichever
number that stands.

* `dot2ip_iff`   — what is accepted: one to four numbers;
* `dot2ip_quads_iff` — when only four numbers are.
-/

namespace Xinu.Rfs

open CChars

def DOT : UInt8 := 46

-- ---------------------------------------------------------------------------
-- The function
-- ---------------------------------------------------------------------------

/-- The loop over the characters of a segment, with so many left: the value, the last
character and the rest of the string, or `none` for `return SYSERR`. -/
def segLoop : Nat → Nat → UInt8 → List UInt8 → Option (Nat × UInt8 × List UInt8)
  | 0, val, ch, dotted => some (val, ch, dotted)
  | left + 1, val, _, dotted =>
    let nch := 3 - left
    let (ch, dotted) := getChar dotted
    if ch = NULLCH ∨ ch = DOT then
      if nch = 0 then none else some (val, ch, dotted)
    else if nch ≥ 3 ∨ ch < 48 ∨ ch > 57 then none
    else segLoop left (10 * val + (ch.toNat - 48)) ch dotted

/-- `(ipaddr << 8) | val`. -/
def shiftIn (ipaddr : UInt32) (val : Nat) : UInt32 := (ipaddr <<< 8) ||| UInt32.ofNat val

/-- The loop over the segments, with so many left. -/
def dot2ipLoop : Nat → UInt32 → List UInt8 → Option UInt32
  | 0, _, _ => none
  | left + 1, ipaddr, dotted =>
    match segLoop 4 0 NULLCH dotted with
    | none => none
    | some (val, ch, dotted) =>
      if val > 255 then none
      else if ch = NULLCH then some (shiftIn ipaddr val)
      else dot2ipLoop left (shiftIn ipaddr val) dotted

/-- `dot2ip`: what it stores in `*result` when it returns `OK`, or `none` for
`SYSERR`. -/
def dot2ip (dotted : List UInt8) : Option UInt32 := dot2ipLoop 4 0 dotted

-- ---------------------------------------------------------------------------
-- Dotted numbers
-- ---------------------------------------------------------------------------

def IsDigit (ch : UInt8) : Prop := 48 ≤ ch ∧ ch ≤ 57

instance (ch : UInt8) : Decidable (IsDigit ch) := inferInstanceAs (Decidable (_ ∧ _))

/-- The number that follows `val` and the digits. -/
def valueFrom (val : Nat) (digits : List UInt8) : Nat :=
  digits.foldl (fun v ch => 10 * v + (ch.toNat - 48)) val

/-- One to three digits that make a number up to 255. -/
structure Number (digits : List UInt8) : Prop where
  some : digits ≠ []
  short : digits.length ≤ 3
  decimal : ∀ ch ∈ digits, IsDigit ch
  small : valueFrom 0 digits ≤ 255

/-- The numbers with single dots between them. -/
def dotted (numbers : List (List UInt8)) : List UInt8 := List.intercalate [DOT] numbers

/-- The number of which these are the digits to the base 256. -/
def address (numbers : List (List UInt8)) : Nat :=
  numbers.foldl (fun v digits => 256 * v + valueFrom 0 digits) 0

/-- The string is `n` numbers separated by single dots, with the value `ip`. -/
def Dotted (n : Nat) (str : List UInt8) (ip : UInt32) : Prop :=
  ∃ numbers, numbers.length = n ∧ (∀ digits ∈ numbers, Number digits) ∧ str = dotted numbers ∧
    ip = UInt32.ofNat (address numbers)

-- ---------------------------------------------------------------------------
-- One segment
-- ---------------------------------------------------------------------------

variable {str rest digits : List UInt8} {ch c : UInt8} {val v left : Nat}

/-- The segment ends with the string or at a dot. -/
def Ends (digits str : List UInt8) (ch : UInt8) (rest : List UInt8) : Prop :=
  (str = digits ∧ ch = NULLCH ∧ rest = []) ∨ (str = digits ++ DOT :: rest ∧ ch = DOT)

theorem digit_iff (ch : UInt8) : ¬(ch < 48 ∨ ch > 57) ↔ IsDigit ch := by
  rw [not_or, UInt8.not_lt, UInt8.not_lt]
  rfl

theorem IsDigit.ne (h : IsDigit ch) : ch ≠ NULLCH ∧ ch ≠ DOT := by
  constructor
  · rintro rfl
    exact absurd h (by decide)
  · rintro rfl
    exact absurd h (by decide)

theorem ends_nil : Ends digits [] ch rest ↔ digits = [] ∧ ch = NULLCH ∧ rest = [] := by
  unfold Ends
  constructor
  · rintro (⟨hd, hch, hrest⟩ | ⟨hd, -⟩)
    · exact ⟨hd.symm, hch, hrest⟩
    · exact absurd hd.symm (by simp)
  · rintro ⟨rfl, hch, hrest⟩
    exact .inl ⟨rfl, hch, hrest⟩

theorem ends_dot (hdigits : ∀ ch ∈ digits, IsDigit ch) :
    Ends digits (DOT :: str) ch rest ↔ digits = [] ∧ ch = DOT ∧ rest = str := by
  unfold Ends
  cases digits with
  | nil => simp [eq_comm, and_comm]
  | cons d digits =>
    have hd := (hdigits d List.mem_cons_self).ne.2
    simp [hd.symm]

theorem ends_cons (h0 : c ≠ NULLCH) (hdot : c ≠ DOT) : Ends digits (c :: str) ch rest ↔
    ∃ ds, digits = c :: ds ∧ Ends ds str ch rest := by
  unfold Ends
  cases digits with
  | nil => simp [hdot]
  | cons d digits =>
    constructor
    · rintro (⟨hd, hch, hrest⟩ | ⟨hd, hch⟩)
      · obtain ⟨rfl, rfl⟩ := List.cons.inj hd
        exact ⟨_, rfl, .inl ⟨rfl, hch, hrest⟩⟩
      · obtain ⟨rfl, rfl⟩ := List.cons.inj hd
        exact ⟨_, rfl, .inr ⟨rfl, hch⟩⟩
    · rintro ⟨ds, hd, ⟨rfl, hch, hrest⟩ | ⟨rfl, hch⟩⟩
      · exact .inl ⟨hd.symm, hch, hrest⟩
      · obtain ⟨rfl, rfl⟩ := List.cons.inj hd
        exact .inr ⟨rfl, hch⟩

theorem segLoop_nil : segLoop (left + 1) val c [] =
    if 3 - left = 0 then none else some (val, NULLCH, []) := by
  rw [segLoop]
  exact if_pos (.inl rfl)

theorem segLoop_dot : segLoop (left + 1) val c (DOT :: str) =
    if 3 - left = 0 then none else some (val, DOT, str) := by
  rw [segLoop]
  exact if_pos (.inr rfl)

theorem segLoop_char {d : UInt8} (h0 : d ≠ NULLCH) (hdot : d ≠ DOT) (hleft : left ≤ 3) :
    segLoop (left + 1) val c (d :: str) =
      if 0 < left ∧ IsDigit d then segLoop left (10 * val + (d.toNat - 48)) d str else none := by
  rw [segLoop]
  dsimp only [getChar]
  rw [if_neg (not_or.mpr ⟨h0, hdot⟩)]
  by_cases hgo : 0 < left ∧ IsDigit d
  · have hnot : ¬(3 - left ≥ 3 ∨ d < 48 ∨ d > 57) := by
      rw [not_or, digit_iff]
      exact ⟨by omega, hgo.2⟩
    rw [if_neg hnot, if_pos hgo]
  · have hstop : 3 - left ≥ 3 ∨ d < 48 ∨ d > 57 := by
      by_contra hno
      rw [not_or, digit_iff] at hno
      exact hgo ⟨by omega, hno.2⟩
    rw [if_pos hstop, if_neg hgo]

/-- What the loop over a segment is to read. -/
def Reads (left val : Nat) (str : List UInt8) (v : Nat) (ch : UInt8) (rest : List UInt8) : Prop :=
  ∃ digits, digits.length ≤ left ∧ (left = 3 → digits ≠ []) ∧ (∀ ch ∈ digits, IsDigit ch) ∧
    v = valueFrom val digits ∧ Ends digits str ch rest

/-- Where the segment ends, there is no digit. -/
theorem reads_end {ch' : UInt8} {rest' : List UInt8} (hleft : left ≤ 3)
    (hends : ∀ digits, (∀ ch ∈ digits, IsDigit ch) →
      (Ends digits str ch rest ↔ digits = [] ∧ ch = ch' ∧ rest = rest')) :
    (if 3 - left = 0 then none else some (val, ch', rest')) = some (v, ch, rest) ↔
      Reads left val str v ch rest := by
  by_cases hfirst : left = 3
  · rw [if_pos (by omega)]
    refine iff_of_false nofun ?_
    rintro ⟨digits, -, hne, hdec, -, he⟩
    exact hne hfirst ((hends digits hdec).mp he).1
  · rw [if_neg (by omega)]
    constructor
    · intro h
      obtain ⟨rfl, rfl, rfl⟩ : val = v ∧ ch' = ch ∧ rest' = rest := by simpa using h
      exact ⟨[], Nat.zero_le _, fun h3 => absurd h3 hfirst, nofun, rfl,
        (hends [] nofun).mpr ⟨rfl, rfl, rfl⟩⟩
    · rintro ⟨digits, -, -, hdec, rfl, he⟩
      obtain ⟨rfl, rfl, rfl⟩ := (hends digits hdec).mp he
      rfl

/-- **What the loop over a segment reads**: digits, no more than are left. -/
theorem segLoop_iff (hstr : NULLCH ∉ str) (hleft : left ≤ 3) :
    segLoop (left + 1) val c str = some (v, ch, rest) ↔ Reads left val str v ch rest := by
  induction str generalizing left val c with
  | nil =>
    rw [segLoop_nil]
    exact reads_end hleft fun _ _ => ends_nil
  | cons d str ih =>
    obtain ⟨h0, hstr⟩ := not_or.mp fun hor => hstr (List.mem_cons.mpr hor)
    by_cases hdot : d = DOT
    · subst hdot
      rw [segLoop_dot]
      exact reads_end hleft fun _ hdec => ends_dot hdec
    · rw [segLoop_char (Ne.symm h0) hdot hleft]
      by_cases hgo : 0 < left ∧ IsDigit d
      · obtain ⟨hpos, hd⟩ := hgo
        obtain ⟨l, rfl⟩ := Nat.exists_eq_add_of_lt hpos
        rw [if_pos ⟨hpos, hd⟩, Nat.zero_add, ih hstr (by omega)]
        constructor
        · rintro ⟨ds, hlen, -, hdec, rfl, he⟩
          refine ⟨d :: ds, ?_, fun _ => List.cons_ne_nil _ _, ?_, rfl,
            (ends_cons (Ne.symm h0) hdot).mpr ⟨ds, rfl, he⟩⟩
          · rw [List.length_cons]
            omega
          · exact List.forall_mem_cons.mpr ⟨hd, hdec⟩
        · rintro ⟨digits, hlen, -, hdec, rfl, he⟩
          obtain ⟨ds, rfl, hends⟩ := (ends_cons (Ne.symm h0) hdot).mp he
          rw [List.length_cons] at hlen
          exact ⟨ds, by omega, by omega, (List.forall_mem_cons.mp hdec).2, rfl, hends⟩
      · rw [if_neg hgo]
        refine iff_of_false nofun ?_
        rintro ⟨digits, hlen, -, hdec, -, he⟩
        obtain ⟨ds, rfl, -⟩ := (ends_cons (Ne.symm h0) hdot).mp he
        exact hgo ⟨Nat.lt_of_lt_of_le (Nat.succ_pos _) hlen, (List.forall_mem_cons.mp hdec).1⟩

-- ---------------------------------------------------------------------------
-- The segments
-- ---------------------------------------------------------------------------

/-- The address after the numbers. -/
def addressFrom (ipaddr : UInt32) (numbers : List (List UInt8)) : UInt32 :=
  numbers.foldl (fun ip digits => shiftIn ip (valueFrom 0 digits)) ipaddr

/-- A number and the character behind it. -/
theorem segLoop_number (hstr : NULLCH ∉ str) :
    (segLoop 4 0 NULLCH str = some (v, ch, rest) ∧ v ≤ 255) ↔
      ∃ digits, Number digits ∧ v = valueFrom 0 digits ∧ Ends digits str ch rest := by
  rw [segLoop_iff hstr (le_refl 3)]
  constructor
  · rintro ⟨⟨digits, hlen, hne, hdec, rfl, he⟩, hv⟩
    exact ⟨digits, ⟨hne rfl, hlen, hdec, hv⟩, rfl, he⟩
  · rintro ⟨digits, hnum, rfl, he⟩
    exact ⟨⟨digits, hnum.short, fun _ => hnum.some, hnum.decimal, rfl, he⟩, hnum.small⟩

theorem dotted_cons (digits : List UInt8) (numbers : List (List UInt8)) (h : numbers ≠ []) :
    dotted (digits :: numbers) = digits ++ DOT :: dotted numbers := by
  unfold dotted
  rw [List.intercalate_cons_of_ne_nil h]
  simp

theorem dotted_singleton (digits : List UInt8) : dotted [digits] = digits := by
  simp [dotted, List.intercalate]

/-- One turn of the loop over the segments. -/
theorem dot2ipLoop_succ {n : Nat} {ipaddr ip : UInt32} (hstr : NULLCH ∉ str) :
    dot2ipLoop (n + 1) ipaddr str = some ip ↔ ∃ digits, Number digits ∧
      ((str = digits ∧ shiftIn ipaddr (valueFrom 0 digits) = ip) ∨
        ∃ rest, str = digits ++ DOT :: rest ∧
          dot2ipLoop n (shiftIn ipaddr (valueFrom 0 digits)) rest = some ip) := by
  rw [dot2ipLoop]
  constructor
  · intro h
    rcases hs : segLoop 4 0 NULLCH str with _ | ⟨v, ch, rest⟩
    · rw [hs] at h
      cases h
    · rw [hs] at h
      dsimp only at h
      by_cases hv : v > 255
      · rw [if_pos hv] at h
        cases h
      · rw [if_neg hv] at h
        obtain ⟨digits, hnum, rfl, he⟩ := (segLoop_number hstr).mp ⟨hs, not_lt.mp hv⟩
        refine ⟨digits, hnum, ?_⟩
        rcases he with ⟨hd, rfl, -⟩ | ⟨hd, rfl⟩
        · rw [if_pos rfl] at h
          exact .inl ⟨hd, Option.some.inj h⟩
        · rw [if_neg (by decide)] at h
          exact .inr ⟨rest, hd, h⟩
  · rintro ⟨digits, hnum, ⟨hd, rfl⟩ | ⟨rest, hd, hrest⟩⟩
    · obtain ⟨hs, hv⟩ := (segLoop_number hstr).mpr ⟨digits, hnum, rfl, .inl ⟨hd, rfl, rfl⟩⟩
      rw [hs]
      dsimp only
      rw [if_neg (not_lt.mpr hv), if_pos rfl]
    · obtain ⟨hs, hv⟩ := (segLoop_number hstr).mpr ⟨digits, hnum, rfl, .inr ⟨hd, rfl⟩⟩
      rw [hs]
      dsimp only
      rw [if_neg (not_lt.mpr hv), if_neg (by decide)]
      exact hrest

/-- **The loop over the segments**: up to as many numbers as are left. -/
theorem dot2ipLoop_iff {n : Nat} {ipaddr ip : UInt32} (hstr : NULLCH ∉ str) :
    dot2ipLoop n ipaddr str = some ip ↔ ∃ numbers, numbers ≠ [] ∧ numbers.length ≤ n ∧
      (∀ digits ∈ numbers, Number digits) ∧ str = dotted numbers ∧
      ip = addressFrom ipaddr numbers := by
  induction n generalizing ipaddr str with
  | zero =>
    refine iff_of_false nofun ?_
    rintro ⟨numbers, hne, hlen, -⟩
    exact hne (List.length_eq_zero_iff.mp (Nat.le_zero.mp hlen))
  | succ n ih =>
    rw [dot2ipLoop_succ hstr]
    constructor
    · rintro ⟨digits, hnum, ⟨rfl, rfl⟩ | ⟨rest, rfl, hrest⟩⟩
      · exact ⟨[str], List.cons_ne_nil _ _, Nat.succ_pos _, by simpa using hnum,
          (dotted_singleton _).symm, rfl⟩
      · have hno : NULLCH ∉ rest := fun hmem => hstr (by simp [hmem])
        obtain ⟨numbers, hne, hlen, hall, rfl, rfl⟩ := (ih hno).mp hrest
        exact ⟨digits :: numbers, List.cons_ne_nil _ _, Nat.succ_le_succ hlen,
          List.forall_mem_cons.mpr ⟨hnum, hall⟩, (dotted_cons _ _ hne).symm, rfl⟩
    · rintro ⟨numbers, hne, hlen, hall, rfl, rfl⟩
      obtain ⟨digits, numbers, rfl⟩ := List.exists_cons_of_ne_nil hne
      obtain ⟨hnum, hall⟩ := List.forall_mem_cons.mp hall
      refine ⟨digits, hnum, ?_⟩
      by_cases hlast : numbers = []
      · subst hlast
        exact .inl ⟨dotted_singleton _, rfl⟩
      · rw [dotted_cons _ _ hlast] at hstr ⊢
        have hno : NULLCH ∉ dotted numbers := fun hmem => hstr (by simp [hmem])
        exact .inr ⟨_, rfl, (ih hno).mpr ⟨numbers, hlast, Nat.le_of_succ_le_succ hlen, hall, rfl, rfl⟩⟩

-- ---------------------------------------------------------------------------
-- The address
-- ---------------------------------------------------------------------------

/-- The shifted address has room for the number. -/
theorem shiftIn_eq (ipaddr : UInt32) {val : Nat} (hval : val ≤ 255) :
    shiftIn ipaddr val = UInt32.ofNat (256 * ipaddr.toNat + val) := by
  have hip := ipaddr.toNat_lt
  have hshift : (ipaddr <<< 8).toNat = (ipaddr.toNat % 2 ^ 24) <<< 8 := by
    rw [UInt32.toNat_shiftLeft, Nat.shiftLeft_eq, Nat.shiftLeft_eq]
    change ipaddr.toNat * 2 ^ 8 % 2 ^ 32 = _
    omega
  rw [← UInt32.toNat_inj]
  unfold shiftIn
  rw [UInt32.toNat_or, hshift, UInt32.toNat_ofNat', UInt32.toNat_ofNat',
    Nat.mod_eq_of_lt (show val < 2 ^ 32 by omega),
    ← Nat.shiftLeft_add_eq_or_of_lt (show val < 2 ^ 8 by omega), Nat.shiftLeft_eq]
  omega

theorem addressFrom_eq (numbers : List (List UInt8)) (h : ∀ digits ∈ numbers, Number digits)
    (a : Nat) : addressFrom (UInt32.ofNat a) numbers =
      UInt32.ofNat (numbers.foldl (fun v digits => 256 * v + valueFrom 0 digits) a) := by
  induction numbers generalizing a with
  | nil => rfl
  | cons digits numbers ih =>
    obtain ⟨hnum, hall⟩ := List.forall_mem_cons.mp h
    have hstep : shiftIn (UInt32.ofNat a) (valueFrom 0 digits) =
        UInt32.ofNat (256 * a + valueFrom 0 digits) := by
      rw [shiftIn_eq _ hnum.small, ← UInt32.toNat_inj, UInt32.toNat_ofNat', UInt32.toNat_ofNat',
        UInt32.toNat_ofNat']
      omega
    rw [addressFrom, List.foldl_cons, hstep]
    exact ih hall _

/-- **What is accepted**: one to four numbers. -/
theorem dot2ip_iff {ip : UInt32} (hstr : NULLCH ∉ str) :
    dot2ip str = some ip ↔ ∃ n, 1 ≤ n ∧ n ≤ 4 ∧ Dotted n str ip := by
  unfold dot2ip
  rw [dot2ipLoop_iff hstr]
  constructor
  · rintro ⟨numbers, hne, hlen, hall, hd, rfl⟩
    exact ⟨numbers.length, List.length_pos_iff.mpr hne, hlen, numbers, rfl, hall, hd,
      addressFrom_eq numbers hall 0⟩
  · rintro ⟨n, hpos, hle, numbers, rfl, hall, hd, rfl⟩
    exact ⟨numbers, List.length_pos_iff.mp hpos, hle, hall, hd, (addressFrom_eq numbers hall 0).symm⟩

/-- The dots are counted. -/
theorem dotted_count (numbers : List (List UInt8)) (h : ∀ digits ∈ numbers, Number digits)
    (hne : numbers ≠ []) : (dotted numbers).count DOT + 1 = numbers.length := by
  induction numbers with
  | nil => exact absurd rfl hne
  | cons digits numbers ih =>
    obtain ⟨hnum, hall⟩ := List.forall_mem_cons.mp h
    have hno : digits.count DOT = 0 := List.count_eq_zero.mpr fun hmem =>
      (hnum.decimal DOT hmem).ne.2 rfl
    by_cases hlast : numbers = []
    · subst hlast
      rw [dotted_singleton, hno, List.length_singleton]
    · rw [dotted_cons _ _ hlast, List.count_append, hno, List.count_cons_self, Nat.zero_add,
        ih hall hlast, List.length_cons]

theorem Dotted.count {n : Nat} {ip : UInt32} (h : Dotted n str ip) (hn : 1 ≤ n) :
    str.count DOT + 1 = n := by
  obtain ⟨numbers, rfl, hall, rfl, -⟩ := h
  exact dotted_count numbers hall (List.length_pos_iff.mp hn)

/-- Four numbers and their address are accepted, and nothing else. -/
def Quads (str : List UInt8) : Prop := ∀ ip, dot2ip str = some ip ↔ Dotted 4 str ip

/-- The string is fewer than four numbers. -/
def Short (str : List UInt8) : Prop := ∃ n, 1 ≤ n ∧ n ≤ 3 ∧ ∃ ip, Dotted n str ip

/-- **For every string**, `dot2ip` accepts what it should exactly when the string is not
one, two or three numbers. -/
theorem dot2ip_quads_iff (str : CString) : Quads str.1 ↔ ¬Short str.1 := by
  constructor
  · rintro hquads ⟨n, hpos, hle, ip, hd⟩
    have hfour := (hquads ip).mp ((dot2ip_iff str.2).mpr ⟨n, hpos, by omega, hd⟩)
    have hcount := hd.count hpos
    have hthree := hfour.count (by decide)
    omega
  · intro hshort ip
    rw [dot2ip_iff str.2]
    constructor
    · rintro ⟨n, hpos, hle, hd⟩
      by_cases hn : n = 4
      · exact hn ▸ hd
      · exact absurd ⟨n, hpos, by omega, ip, hd⟩ hshort
    · exact fun hd => ⟨4, by decide, by decide, hd⟩

/-- The string "7". -/
theorem dot2ip_not_quads : ¬∀ str : CString, Quads str.1 := by
  intro hall
  have hone := (hall ⟨[55], by decide⟩ 7).mp (by decide)
  have hcount := hone.count (by decide)
  revert hcount
  decide

end Xinu.Rfs
