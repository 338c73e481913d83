import Mathlib.Algebra.Ring.Divisibility.Basic
import Mathlib.Data.BitVec
import Mathlib.Tactic.NormNum
import Mathlib.Tactic.Set

/-!
# Copying and filling memory

`my_memcpy` and `my_memset` go by words where they can, and the `memcpy` and `memset` of
`libxc` go by characters. A word or a halfword that is not aligned is an address error.

* `chars_move`   — characters one by one or several at a time, if the copy does not overlap
  what it has still to read;
* `copies_eq`    — **the copy by words is the copy by characters, or an address error**, and
  which of the two;
* `my_memset_eq` — what filling by words leaves, or an address error;
* `my_memset_eq_some_iff` — **filling by words is filling by characters**, and when: the word
  that is stored has the upper bytes of `val` in it.

Both align by `p % 4` characters, which is short of the boundary by two if `p` is odd.
-/

namespace Xinu.Libxc.Copying

abbrev Byte := BitVec 8

abbrev Address := BitVec 32

abbrev Memory := Address → Byte

def Memory.put (m : Memory) (a : Address) (b : Byte) : Memory :=
  fun x => if x = a then b else m x

-- ---------------------------------------------------------------------------
-- Loads and stores
-- ---------------------------------------------------------------------------

def Memory.bytes (m : Memory) (a : Address) : ℕ → List Byte
  | 0 => []
  | k + 1 => m a :: m.bytes (a + 1) k

def Memory.fill (m : Memory) (a : Address) : List Byte → Memory
  | [] => m
  | b :: bs => (m.put a b).fill (a + 1) bs

/-- A load of `k` bytes. -/
def Memory.load (m : Memory) (k : ℕ) (a : Address) : Option (List Byte) :=
  if a.toNat % k = 0 then some (m.bytes a k) else none

def Memory.store (m : Memory) (a : Address) (bs : List Byte) : Option Memory :=
  if a.toNat % bs.length = 0 then some (m.fill a bs) else none

-- ---------------------------------------------------------------------------
-- Copying
-- ---------------------------------------------------------------------------

structure Copy where
  mem : Memory
  dst : Address
  src : Address

/-- `*dst = *src; dst++; src++;` -/
def Copy.char (c : Copy) : Copy :=
  { mem := c.mem.put c.dst (c.mem c.src), dst := c.dst + 1, src := c.src + 1 }

/-- The loop that copies what is left. -/
def chars : ℕ → Copy → Copy
  | 0, c => c
  | n + 1, c => chars n c.char

/-- The first loop: `cnt` characters, but no more than `n`. -/
def headLoop : ℕ → ℕ → Copy → ℕ × Copy
  | cnt + 1, n + 1, c => headLoop cnt n c.char
  | _, n, c => (n, c)

/-- `*((T *)(dst+off)) = *((T *)(src+off))` for a type of `k` bytes. -/
def Copy.move (k off : ℕ) (c : Copy) : Option Copy := do
  let bs ← c.mem.load k (c.src + BitVec.ofNat 32 off)
  let mem ← c.mem.store (c.dst + BitVec.ofNat 32 off) bs
  return { c with mem }

/-- What `my_memcpy` does where `dst` is odd. -/
def charShortChar (c : Copy) : Option Copy :=
  c.move 1 0 >>= (·.move 2 1) >>= (·.move 1 3)

/-- What the `memcpy` of `cMIPSio.c` does there. -/
def fourChars (c : Copy) : Option Copy :=
  c.move 1 0 >>= (·.move 1 1) >>= (·.move 1 2) >>= (·.move 1 3)

def Copy.four (odd : Copy → Option Copy) (c : Copy) : Option Copy :=
  if c.dst.toInt.tmod 4 = 0 then c.move 4 0
  else if c.dst.toInt.tmod 2 = 0 then c.move 2 0 >>= (·.move 2 2)
  else odd c

def fours (odd : Copy → Option Copy) : ℕ → Copy → Option (ℕ × Copy)
  | n + 4, c => do
    let c' ← c.four odd
    fours odd n { c' with dst := c.dst + 4, src := c.src + 4 }
  | n, c => some (n, c)

/-- The value of `p % 4`, of which the loops use what is positive. -/
def cntOf (p : Address) : ℕ :=
  (p.toInt.tmod 4).toNat

/-- `my_memcpy`, and `memcpy` of `cMIPSio.c`: what they do where `dst` is odd is `odd`. A
count below one copies nothing. -/
def copyWith (odd : Copy → Option Copy) (m : Memory) (dst src : Address) (n : ℤ) :
    Option (Memory × Address) := do
  let (n, c) := headLoop (cntOf src) n.toNat ⟨m, dst, src⟩
  let (n, c) ← fours odd n c
  return ((chars n c).mem, dst)

def my_memcpy := copyWith charShortChar

def cMIPSio_memcpy := copyWith fourChars

/-- `memcpy` of `libxc`. -/
def memcpy (m : Memory) (s ct : Address) (n : ℤ) : Memory × Address :=
  ((chars n.toNat ⟨m, s, ct⟩).mem, s)

-- ---------------------------------------------------------------------------
-- Filling
-- ---------------------------------------------------------------------------

/-- `for (i = 0; i < n; i++) *cp++ = b;` -/
def fills (b : Byte) : ℕ → Memory → Address → Memory
  | 0, m, _ => m
  | n + 1, m, a => fills b n (m.put a b) (a + 1)

def fillHead (b : Byte) : ℕ → ℕ → Memory → Address → ℕ × Memory × Address
  | cnt + 1, len + 1, m, a => fillHead b cnt len (m.put a b) (a + 1)
  | _, len, m, a => (len, m, a)

/-- The bytes of a word in memory, the low one first. -/
def bytesOf (w : BitVec 32) : List Byte :=
  [w.setWidth 8, (w >>> 8).setWidth 8, (w >>> 16).setWidth 8, (w >>> 24).setWidth 8]

def fillWords (w : BitVec 32) : ℕ → Memory → Address → Option (ℕ × Memory × Address)
  | len + 4, m, a => do
    let m ← m.store a (bytesOf w)
    fillWords w len m (a + 4)
  | len, m, a => some (len, m, a)

/-- `val | (val<<8) | (val<<16) | (val<<24)` -/
def wordOf (val : BitVec 32) : BitVec 32 :=
  val ||| val <<< 8 ||| val <<< 16 ||| val <<< 24

def my_memset (m : Memory) (dst : Address) (val : BitVec 32) (len : ℤ) :
    Option (Memory × Address) := do
  let b := val.setWidth 8
  let (len, m, a) := fillHead b (cntOf dst) len.toNat m dst
  let (len, m, a) ← fillWords (wordOf val) len m a
  return (fills b len m a, dst)

/-- `memset` of `libxc`. -/
def memset (m : Memory) (s : Address) (c : BitVec 32) (n : ℤ) : Memory × Address :=
  (fills (c.setWidth 8) n.toNat m s, s)

variable {m : Memory} {a d s dst src : Address} {b : Byte} {c c' : Copy} {k n cnt len : ℕ}
  {odd : Copy → Option Copy}

-- ---------------------------------------------------------------------------
-- Character by character
-- ---------------------------------------------------------------------------

theorem next_add : a + 1 + BitVec.ofNat 32 n = a + BitVec.ofNat 32 (n + 1) := by
  rw [BitVec.add_assoc, Nat.add_comm n, BitVec.ofNat_add]
  rfl

theorem chars_add (n : ℕ) : chars (k + n) c = chars n (chars k c) := by
  induction k generalizing c with
  | zero => rw [Nat.zero_add, chars]
  | succ k ih => rw [Nat.succ_add, chars, chars, ih]

theorem chars_dst : (chars n c).dst = c.dst + BitVec.ofNat 32 n := by
  induction n generalizing c with
  | zero => exact (BitVec.add_zero _).symm
  | succ n ih =>
    rw [chars, ih, Copy.char, next_add]

theorem chars_src : (chars n c).src = c.src + BitVec.ofNat 32 n := by
  induction n generalizing c with
  | zero => exact (BitVec.add_zero _).symm
  | succ n ih =>
    rw [chars, ih, Copy.char, next_add]

theorem headLoop_eq : headLoop cnt n c = (n - cnt, chars (min cnt n) c) := by
  induction cnt generalizing n c with
  | zero =>
    rw [Nat.zero_min, headLoop, Nat.sub_zero, chars]
    exact nofun
  | succ cnt ih =>
    cases n with
    | zero =>
      rw [Nat.min_zero, headLoop, Nat.zero_sub, chars]
      exact nofun
    | succ n => rw [headLoop, ih, Nat.add_min_add_right, chars, Nat.add_sub_add_right]

-- ---------------------------------------------------------------------------
-- Several characters at a time
-- ---------------------------------------------------------------------------

/-- What is written at `d` is not read again among the next `k` bytes at `s`. -/
def Apart (k : ℕ) (d s : Address) : Prop :=
  ∀ i < k, 0 < i → d ≠ s + BitVec.ofNat 32 i

theorem Apart.mono (h : Apart k d s) (hn : n ≤ k) : Apart n d s :=
  fun i hlt => h i (Nat.lt_of_lt_of_le hlt hn)

theorem Apart.add (h : Apart k d s) (a : Address) : Apart k (d + a) (s + a) := by
  intro i hlt hi hsame
  rw [BitVec.add_assoc, BitVec.add_comm a, ← BitVec.add_assoc] at hsame
  exact h i hlt hi ((BitVec.add_left_inj a).mp hsame)

theorem bytes_put (h : ∀ i < k, d ≠ a + BitVec.ofNat 32 i) :
    (m.put d b).bytes a k = m.bytes a k := by
  induction k generalizing a with
  | zero => rfl
  | succ k ih =>
    have hhere : a ≠ d := by
      intro hsame
      exact h 0 k.succ_pos (by rw [hsame, BitVec.add_zero])
    have hnext : ∀ i < k, d ≠ a + 1 + BitVec.ofNat 32 i := by
      intro i hi hsame
      exact h (i + 1) (Nat.succ_lt_succ hi) (hsame.trans next_add)
    rw [Memory.bytes, Memory.bytes, ih hnext, Memory.put, if_neg hhere]

theorem length_bytes : (m.bytes a k).length = k := by
  induction k generalizing a with
  | zero => rfl
  | succ k ih => rw [Memory.bytes, List.length_cons, ih]

/-- **Characters one by one or several at a time.** -/
theorem chars_move (h : Apart k c.dst c.src) :
    c.mem.fill c.dst (c.mem.bytes c.src k) = (chars k c).mem := by
  induction k generalizing c with
  | zero => rfl
  | succ k ih =>
    have hread : (c.mem.put c.dst (c.mem c.src)).bytes (c.src + 1) k =
        c.mem.bytes (c.src + 1) k := by
      apply bytes_put
      intro i hi hsame
      exact h (i + 1) (Nat.succ_lt_succ hi) i.succ_pos (hsame.trans next_add)
    have hrest := ih (c := c.char) ((h.mono k.le_succ).add 1)
    rw [chars, ← hrest, Copy.char, hread, Memory.bytes, Memory.fill]

theorem chars_at :
    ⟨(chars n c).mem, c.dst + BitVec.ofNat 32 n, c.src + BitVec.ofNat 32 n⟩ = chars n c := by
  rw [← chars_dst, ← chars_src]

/-- **A move behind what has been moved** is an address error or as many characters. -/
theorem move_next (off : ℕ) (h : Apart k c.dst c.src) :
    ({ c with mem := (chars off c).mem } : Copy).move k off =
      if (c.src + BitVec.ofNat 32 off).toNat % k = 0 ∧
          (c.dst + BitVec.ofNat 32 off).toNat % k = 0 then
        some { c with mem := (chars (off + k) c).mem }
      else none := by
  have hmove := chars_move (k := k) (c := chars off c)
  rw [chars_dst, chars_src, ← chars_add] at hmove
  have hmove := hmove (h.add _)
  by_cases hs : (c.src + BitVec.ofNat 32 off).toNat % k = 0
  · rw [Copy.move, Memory.load, if_pos hs, Option.bind_eq_bind, Option.bind_some, Memory.store,
      length_bytes]
    by_cases hd : (c.dst + BitVec.ofNat 32 off).toNat % k = 0
    · rw [if_pos hd, if_pos ⟨hs, hd⟩, ← hmove]
      rfl
    · rw [if_neg hd, if_neg fun hand => hd hand.2]
      rfl
  · rw [if_neg fun hand => hs hand.1, Copy.move, Memory.load, if_neg hs]
    rfl

theorem move_char (off : ℕ) : ({ c with mem := (chars off c).mem } : Copy).move 1 off =
    some { c with mem := (chars (off + 1) c).mem } := by
  have h : Apart 1 c.dst c.src := fun i hlt hi => absurd hlt (Nat.not_lt.mpr hi)
  rw [move_next off h, if_pos ⟨Nat.mod_one _, Nat.mod_one _⟩]

-- ---------------------------------------------------------------------------
-- Four characters
-- ---------------------------------------------------------------------------

/-- Four characters from `s` to `d` are moved without an address error: a word from a word,
halfwords from an even address, and what is odd as `okOdd` has it. -/
def Agrees (okOdd : Address → Prop) (d s : Address) : Prop :=
  if d.toNat % 4 = 0 then s.toNat % 4 = 0
  else if d.toNat % 2 = 0 then s.toNat % 2 = 0
  else okOdd s

instance {okOdd : Address → Prop} [DecidablePred okOdd] : Decidable (Agrees okOdd d s) := by
  unfold Agrees
  infer_instance

/-- A way to move four characters to an odd address, from where it can. -/
structure MovesOdd (odd : Copy → Option Copy) (okOdd : Address → Prop) [DecidablePred okOdd] :
    Prop where
  moves (c : Copy) (h : Apart 4 c.dst c.src) (hd : c.dst.toNat % 2 = 1) :
    odd c = if okOdd c.src then some { c with mem := (chars 4 c).mem } else none
  next (s : Address) : okOdd (s + 4) ↔ okOdd s

theorem tmod_eq_zero (k : ℕ) (hk : k ∣ 2 ^ 32) (a : Address) :
    a.toInt.tmod k = 0 ↔ a.toNat % k = 0 := by
  rw [← Int.dvd_iff_tmod_eq_zero, ← Nat.dvd_iff_mod_eq_zero, BitVec.toInt_eq_toNat_bmod]
  have hpow : (k : ℤ) ∣ (2 ^ 32 : ℕ) := Int.natCast_dvd_natCast.mpr hk
  rw [dvd_iff_dvd_of_dvd_sub (hpow.trans Int.dvd_bmod_sub_self)]
  exact Int.natCast_dvd_natCast

theorem charShortChar_eq : MovesOdd charShortChar (·.toNat % 2 = 1) := by
  refine ⟨fun c h hd => ?_, fun s => by bv_omega⟩
  have hfirst : c.move 1 0 = some { c with mem := (chars 1 c).mem } := move_char 0
  have hdst : (c.dst + BitVec.ofNat 32 1).toNat % 2 = 0 := by bv_omega
  have hsrc : (c.src + BitVec.ofNat 32 1).toNat % 2 = 0 ↔ c.src.toNat % 2 = 1 := by bv_omega
  have hmiddle := move_next (k := 2) 1 (h.mono (by decide))
  simp only [hsrc, hdst, and_true] at hmiddle
  rw [charShortChar, hfirst, Option.bind_eq_bind, Option.bind_some, hmiddle]
  by_cases hok : c.src.toNat % 2 = 1
  · rw [if_pos hok, if_pos hok, Option.bind_some, move_char 3]
  · rw [if_neg hok, if_neg hok]
    rfl

theorem fourChars_eq : MovesOdd fourChars fun _ => True := by
  refine ⟨fun c _ _ => ?_, fun _ => Iff.rfl⟩
  have hfirst : c.move 1 0 = some { c with mem := (chars 1 c).mem } := move_char 0
  rw [fourChars, hfirst, Option.bind_eq_bind, Option.bind_some, move_char 1, Option.bind_some,
    move_char 2, Option.bind_some, move_char 3]
  rfl

variable {okOdd : Address → Prop} [DecidablePred okOdd]

/-- **Four at a time** are four characters, or an address error. -/
theorem four_eq (hodd : MovesOdd odd okOdd) (h : Apart 4 c.dst c.src) :
    c.four odd =
      if Agrees okOdd c.dst c.src then some { c with mem := (chars 4 c).mem } else none := by
  have hword : c.dst.toInt.tmod 4 = 0 ↔ c.dst.toNat % 4 = 0 := tmod_eq_zero 4 (by decide) _
  have hhalf : c.dst.toInt.tmod 2 = 0 ↔ c.dst.toNat % 2 = 0 := tmod_eq_zero 2 (by decide) _
  unfold Copy.four Agrees
  simp only [hword, hhalf]
  by_cases h4 : c.dst.toNat % 4 = 0
  · rw [if_pos h4]
    have hmove := move_next 0 h
    simp only [BitVec.add_zero, h4, and_true] at hmove
    simp only [if_pos h4]
    exact hmove
  by_cases h2 : c.dst.toNat % 2 = 0
  · rw [if_neg h4, if_pos h2]
    have hfirst := move_next (k := 2) 0 (h.mono (by decide))
    have hsecond := move_next (k := 2) 2 (h.mono (by decide))
    have hdst : (c.dst + BitVec.ofNat 32 2).toNat % 2 = 0 := by bv_omega
    have hsrc : (c.src + BitVec.ofNat 32 2).toNat % 2 = 0 ↔ c.src.toNat % 2 = 0 := by bv_omega
    simp only [BitVec.add_zero, h2, and_true] at hfirst
    simp only [hsrc, hdst, and_true] at hsecond
    simp only [if_neg h4, if_pos h2, show c.move 2 0 = _ from hfirst]
    by_cases hs : c.src.toNat % 2 = 0
    · rw [if_pos hs, if_pos hs, Option.bind_eq_bind, Option.bind_some, hsecond, if_pos hs]
    · rw [if_neg hs, if_neg hs]
      rfl
  · rw [if_neg h4, if_neg h2, hodd.moves c h (Nat.mod_two_ne_zero.mp h2)]
    simp only [if_neg h4, if_neg h2]

-- ---------------------------------------------------------------------------
-- The whole copy
-- ---------------------------------------------------------------------------

theorem agrees_next (hodd : MovesOdd odd okOdd) :
    Agrees okOdd (d + 4) (s + 4) ↔ Agrees okOdd d s := by
  have hword (a : Address) : (a + 4).toNat % 4 = a.toNat % 4 := by bv_omega
  have hhalf (a : Address) : (a + 4).toNat % 2 = a.toNat % 2 := by bv_omega
  unfold Agrees
  rw [hword, hword, hhalf, hhalf, hodd.next]

/-- **The loop over fours**: whether it goes through is known at its start. -/
theorem fours_eq (hodd : MovesOdd odd okOdd) (h : Apart 4 c.dst c.src) :
    fours odd n c =
      if n < 4 ∨ Agrees okOdd c.dst c.src then some (n % 4, chars (n - n % 4) c) else none := by
  induction n using Nat.strongRecOn generalizing c with
  | ind n ih =>
    obtain hlt | ⟨k, rfl⟩ : n < 4 ∨ ∃ k, n = k + 4 := by
      by_cases hlt : n < 4
      · exact Or.inl hlt
      · exact Or.inr ⟨n - 4, by omega⟩
    · rw [if_pos (Or.inl hlt), Nat.mod_eq_of_lt hlt, Nat.sub_self, chars, fours]
      rintro k rfl
      omega
    have hnext : (⟨(chars 4 c).mem, c.dst + 4, c.src + 4⟩ : Copy) = chars 4 c := chars_at
    have hcount : k + 4 - (k + 4) % 4 = 4 + (k - k % 4) := by omega
    rw [fours, four_eq hodd h]
    by_cases hok : Agrees okOdd c.dst c.src
    · have hrest := ih k (by omega) (c := chars 4 c) (by rw [← hnext]; exact h.add 4)
      have hgoes : Agrees okOdd (chars 4 c).dst (chars 4 c).src := by
        rw [← hnext]
        exact (agrees_next hodd).mpr hok
      rw [if_pos hok, if_pos (Or.inr hok), Option.bind_eq_bind, Option.bind_some, hnext, hrest,
        if_pos (Or.inr hgoes), hcount, chars_add, Nat.add_mod_right]
    · rw [if_neg hok, if_neg (not_or.mpr ⟨by omega, hok⟩)]
      rfl

/-- The copy by fours is the copy by characters, or an address error: the characters that go
first bring both pointers on, and only the loop over fours can fail. -/
theorem copyWith_eq (hodd : MovesOdd odd okOdd) (h : Apart 4 dst src) (n : ℤ) :
    copyWith odd m dst src n =
      if n < cntOf src + 4 ∨ Agrees okOdd (dst + BitVec.ofNat 32 (cntOf src))
          (src + BitVec.ofNat 32 (cntOf src)) then
        some (memcpy m dst src n)
      else none := by
  unfold copyWith
  generalize cntOf src = cnt
  have hall : chars ((n.toNat - cnt) % 4) (chars (n.toNat - cnt - (n.toNat - cnt) % 4)
      (chars (min cnt n.toNat) ⟨m, dst, src⟩)) = chars n.toNat ⟨m, dst, src⟩ := by
    rw [← chars_add, ← chars_add]
    congr 1
    omega
  have hapart : Apart 4 (chars (min cnt n.toNat) ⟨m, dst, src⟩).dst
      (chars (min cnt n.toNat) ⟨m, dst, src⟩).src := by
    rw [chars_dst, chars_src]
    exact h.add _
  rw [headLoop_eq]
  dsimp only
  rw [fours_eq hodd hapart]
  by_cases hshort : n < cnt + 4
  · rw [if_pos (Or.inl hshort), if_pos (Or.inl (by omega)), Option.bind_eq_bind, Option.bind_some,
      hall]
    rfl
  have hmin : min cnt n.toNat = cnt := by omega
  rw [hmin] at hall ⊢
  rw [chars_dst, chars_src]
  by_cases hok : Agrees okOdd (dst + BitVec.ofNat 32 cnt) (src + BitVec.ofNat 32 cnt)
  · rw [if_pos (Or.inr hok), if_pos (Or.inr hok), Option.bind_eq_bind, Option.bind_some, hall]
    rfl
  · rw [if_neg (not_or.mpr ⟨hshort, hok⟩), if_neg (not_or.mpr ⟨by omega, hok⟩)]
    rfl

/-- **A copy by words is the copy by characters or an address error**, if `dst` is not one,
two or three behind `src`. -/
theorem copies_eq (h : Apart 4 dst src) (n : ℤ) :
    (my_memcpy m dst src n =
      if n < cntOf src + 4 ∨ Agrees (·.toNat % 2 = 1) (dst + BitVec.ofNat 32 (cntOf src))
          (src + BitVec.ofNat 32 (cntOf src)) then
        some (memcpy m dst src n)
      else none) ∧
    cMIPSio_memcpy m dst src n =
      if n < cntOf src + 4 ∨ Agrees (fun _ => True) (dst + BitVec.ofNat 32 (cntOf src))
          (src + BitVec.ofNat 32 (cntOf src)) then
        some (memcpy m dst src n)
      else none :=
  ⟨copyWith_eq charShortChar_eq h n, copyWith_eq fourChars_eq h n⟩

/-- Seven characters from an odd address: the one that goes first leaves a halfword, and the
word at `dst` that the other six start with is an address error. -/
theorem copies_eq_odd : my_memcpy (fun _ => 0) 0x1003#32 0x2001#32 7 = none :=
  (copies_eq (by unfold Apart; decide) 7).1.trans (if_neg (by decide))

theorem cntOf_eq (hlow : src.toNat < 2 ^ 31) : cntOf src = src.toNat % 4 := by
  rw [cntOf, BitVec.toInt_eq_toNat_of_lt (by omega)]
  rfl

/-- Below `2 ^ 31` the characters that go first always make `src` even, and a word can be
read there only if it was even before. -/
theorem even_of_low (hlow : src.toNat < 2 ^ 31) :
    (src + BitVec.ofNat 32 (cntOf src)).toNat % 2 = 0 ∧
    ((src + BitVec.ofNat 32 (cntOf src)).toNat % 4 = 0 ↔ src.toNat % 2 = 0) := by
  rw [cntOf_eq hlow]
  bv_omega

/-- An odd `dst` at the fours is always an address error in `my_memcpy`, and none in the
`memcpy` of `cMIPSio.c`. -/
theorem agrees_of_low (hlow : src.toNat < 2 ^ 31) {d : Address} :
    (Agrees (·.toNat % 2 = 1) d (src + BitVec.ofNat 32 (cntOf src)) ↔
      d.toNat % 4 = 2 ∨ d.toNat % 4 = 0 ∧ src.toNat % 2 = 0) ∧
    (Agrees (fun _ => True) d (src + BitVec.ofNat 32 (cntOf src)) ↔
      (d.toNat % 4 = 0 → src.toNat % 2 = 0)) := by
  obtain ⟨heven, hword⟩ := even_of_low hlow
  unfold Agrees
  simp only [hword, heven]
  by_cases h4 : d.toNat % 4 = 0
  · simp only [if_pos h4]
    omega
  by_cases h2 : d.toNat % 2 = 0
  · simp only [if_neg h4, if_pos h2, true_iff]
    omega
  · simp only [if_neg h4, if_neg h2, zero_ne_one, false_iff, true_iff]
    omega

-- ---------------------------------------------------------------------------
-- Filling
-- ---------------------------------------------------------------------------

/-- Byte `j` of a value. -/
def byteAt (w : BitVec 32) (j : ℕ) : Byte :=
  (w >>> (8 * j)).setWidth 8

/-- What `n` characters leave in memory. -/
theorem fills_apply (hn : n < 2 ^ 32) (x : Address) :
    fills b n m a x = if (x - a).toNat < n then b else m x := by
  induction n generalizing m a with
  | zero => rw [if_neg (Nat.not_lt_zero _)]; rfl
  | succ n ih =>
    rw [fills, ih (by omega), Memory.put]
    split_ifs <;> first | rfl | (exfalso; bv_omega)

theorem fillHead_eq : fillHead b cnt len m a =
    (len - cnt, fills b (min cnt len) m a, a + BitVec.ofNat 32 (min cnt len)) := by
  induction cnt generalizing len m a with
  | zero =>
    rw [Nat.zero_min, fillHead, Nat.sub_zero, BitVec.add_zero, fills]
    exact nofun
  | succ cnt ih =>
    cases len with
    | zero =>
      rw [Nat.min_zero, fillHead, Nat.zero_sub, BitVec.add_zero, fills]
      exact nofun
    | succ len =>
      rw [fillHead, ih, Nat.add_min_add_right, next_add, Nat.add_sub_add_right, fills]

/-- What stores of consecutive bytes leave in memory. -/
theorem fill_apply (f : ℕ → Byte) (hk : k ≤ 2 ^ 32) (x : Address) :
    m.fill a ((List.range' n k).map f) x =
      if (x - a).toNat < k then f (n + (x - a).toNat) else m x := by
  induction k generalizing m a n with
  | zero => rw [if_neg (Nat.not_lt_zero _)]; rfl
  | succ k ih =>
    rw [List.range'_succ, List.map_cons, Memory.fill, ih (by omega), Memory.put]
    by_cases hx : x = a
    · subst hx
      rw [if_neg (by bv_omega), if_pos rfl, BitVec.sub_self, if_pos (by simp)]
      rfl
    · have hback : (x - a).toNat = (x - (a + 1)).toNat + 1 := by bv_omega
      rw [if_neg hx, hback, Nat.add_right_comm n 1, Nat.add_assoc n]
      simp only [Nat.add_lt_add_iff_right]

theorem store_word (w : BitVec 32) : m.store a (bytesOf w) =
    if a.toNat % 4 = 0 then some (m.fill a ((List.range' 0 4).map (byteAt w))) else none :=
  rfl

/-- **Words**: an address error, or every fourth byte is the same. -/
theorem fillWords_eq (w : BitVec 32) (hlen : len < 2 ^ 32) : ∃ mem : Memory,
    (∀ x, mem x = if (x - a).toNat < len - len % 4 then byteAt w ((x - a).toNat % 4) else m x) ∧
    fillWords w len m a =
      if len < 4 ∨ a.toNat % 4 = 0 then
        some (len % 4, mem, a + BitVec.ofNat 32 (len - len % 4))
      else none := by
  induction len using Nat.strongRecOn generalizing m a with
  | ind len ih =>
    obtain hlt | ⟨k, rfl⟩ : len < 4 ∨ ∃ k, len = k + 4 := by
      by_cases hlt : len < 4
      · exact Or.inl hlt
      · exact Or.inr ⟨len - 4, by omega⟩
    · refine ⟨m, fun x => (if_neg (by omega)).symm, ?_⟩
      rw [if_pos (Or.inl hlt), Nat.mod_eq_of_lt hlt, Nat.sub_self, BitVec.add_zero, fillWords]
      rintro k rfl
      omega
    obtain ⟨mem, hmem, hrest⟩ := @ih k (by omega)
      (m.fill a ((List.range' 0 4).map (byteAt w))) (a + 4) (by omega)
    refine ⟨mem, fun x => ?_, ?_⟩
    · rw [hmem, fill_apply _ (by norm_num)]
      by_cases hfirst : (x - a).toNat < 4
      · rw [if_neg (by bv_omega), if_pos hfirst, if_pos (by omega), Nat.mod_eq_of_lt hfirst,
          Nat.zero_add]
      · have hback : (x - a).toNat = (x - (a + 4)).toNat + 4 := by bv_omega
        have hwithin : (x - (a + 4)).toNat + 4 < k + 4 - (k + 4) % 4 ↔
            (x - (a + 4)).toNat < k - k % 4 := by omega
        rw [if_neg hfirst, hback, Nat.add_mod_right (x - (a + 4)).toNat]
        simp only [hwithin]
    · rw [fillWords, store_word]
      by_cases ha : a.toNat % 4 = 0
      · have hnext : (a + 4).toNat % 4 = 0 := by bv_omega
        have hcount : k + 4 - (k + 4) % 4 = 4 + (k - k % 4) := by omega
        rw [if_pos ha, if_pos (Or.inr ha), Option.bind_eq_bind, Option.bind_some, hrest,
          if_pos (Or.inr hnext), hcount, Nat.add_mod_right, BitVec.ofNat_add, ← BitVec.add_assoc]
        rfl
      · rw [if_neg ha, if_neg (by omega)]
        rfl

variable {val : BitVec 32}

/-- Byte `j` of the word has the bits of the bytes up to `j` of `val`. -/
theorem byteAt_wordOf : byteAt (wordOf val) 0 = byteAt val 0 ∧
    byteAt (wordOf val) 1 = byteAt val 1 ||| byteAt val 0 ∧
    byteAt (wordOf val) 2 = byteAt val 2 ||| (byteAt val 1 ||| byteAt val 0) ∧
    byteAt (wordOf val) 3 =
      byteAt val 3 ||| (byteAt val 2 ||| (byteAt val 1 ||| byteAt val 0)) := by
  unfold byteAt wordOf
  refine ⟨?_, ?_, ?_, ?_⟩ <;> ext i hi <;> simp <;> grind

theorem word_all_same : (∀ j < 4, byteAt (wordOf val) j = byteAt val 0) ↔
    ∀ j < 4, byteAt val j ||| byteAt val 0 = byteAt val 0 := by
  obtain ⟨h0, h1, h2, h3⟩ := @byteAt_wordOf val
  constructor
  · intro h
    have h1 := h1.symm.trans (h 1 (by decide))
    have h2 := h2.symm.trans (h 2 (by decide))
    have h3 := h3.symm.trans (h 3 (by decide))
    rw [h1] at h2 h3
    rw [h2] at h3
    intro j hj
    match j with
    | 0 => exact BitVec.or_self
    | 1 => exact h1
    | 2 => exact h2
    | 3 => exact h3
  · intro h
    rw [h 1 (by decide)] at h1 h2 h3
    rw [h 2 (by decide)] at h2 h3
    rw [h 3 (by decide)] at h3
    intro j hj
    match j with
    | 0 => exact h0
    | 1 => exact h1
    | 2 => exact h2
    | 3 => exact h3

-- ---------------------------------------------------------------------------
-- The whole filling
-- ---------------------------------------------------------------------------

/-- What `my_memset` leaves at place `i` of the `len` that it fills: the characters that go
first and last have their byte, and the words their own. -/
def filledAt (val : BitVec 32) (cnt len i : ℕ) : Byte :=
  if i < cnt ∨ len - (len - cnt) % 4 ≤ i then byteAt val 0 else byteAt (wordOf val) ((i - cnt) % 4)

theorem sub_add_eq (x : Address) (h : n ≤ (x - a).toNat) :
    (x - (a + BitVec.ofNat 32 n)).toNat = (x - a).toNat - n := by
  bv_omega

theorem sub_add_lt (x : Address) (h : n + k ≤ 2 ^ 32) :
    (x - (a + BitVec.ofNat 32 n)).toNat < k ↔ n ≤ (x - a).toNat ∧ (x - a).toNat < n + k := by
  bv_omega

/-- **What filling does**: an address error if there is a word to store and the characters
that go first leave a boundary of words out, and else what `filledAt` has. -/
theorem my_memset_eq (hlen : len < 2 ^ 31) : ∃ mem : Memory,
    (∀ x, mem x =
      if (x - dst).toNat < len then filledAt val (cntOf dst) len (x - dst).toNat else m x) ∧
    my_memset m dst val len =
      if len < cntOf dst + 4 ∨ (dst + BitVec.ofNat 32 (cntOf dst)).toNat % 4 = 0 then
        some (mem, dst)
      else none := by
  unfold my_memset filledAt
  generalize cntOf dst = cnt
  have hbyte : val.setWidth 8 = byteAt val 0 := rfl
  dsimp only
  rw [hbyte, Int.toNat_natCast, fillHead_eq]
  obtain ⟨mem, hmem, hwords⟩ := fillWords_eq (m := fills (byteAt val 0) (min cnt len) m dst)
    (a := dst + BitVec.ofNat 32 (min cnt len)) (wordOf val) (show len - cnt < 2 ^ 32 by omega)
  refine ⟨fills (byteAt val 0) ((len - cnt) % 4) mem (dst + BitVec.ofNat 32 (min cnt len) +
    BitVec.ofNat 32 (len - cnt - (len - cnt) % 4)), fun x => ?_, ?_⟩
  · rw [fills_apply (by omega), hmem, fills_apply (by omega), BitVec.add_assoc, ← BitVec.ofNat_add]
    simp only [sub_add_lt x (show min cnt len + (len - cnt - (len - cnt) % 4) +
      (len - cnt) % 4 ≤ 2 ^ 32 by omega), sub_add_lt x (show min cnt len +
      (len - cnt - (len - cnt) % 4) ≤ 2 ^ 32 by omega)]
    by_cases hin : (x - dst).toNat < len
    · rw [if_pos hin]
      by_cases hlast : len - (len - cnt) % 4 ≤ (x - dst).toNat
      · rw [if_pos (Or.inr hlast)]
        split_ifs <;> first | rfl | omega
      by_cases hfirst : (x - dst).toNat < cnt
      · rw [if_pos (Or.inl hfirst)]
        split_ifs <;> first | rfl | omega
      · have hplace := sub_add_eq x (show min cnt len ≤ (x - dst).toNat by omega)
        rw [if_neg (not_or.mpr ⟨hfirst, hlast⟩), if_neg (by omega), if_pos (by omega), hplace,
          Nat.min_eq_left (by omega)]
    · rw [if_neg hin, if_neg (by omega), if_neg (by omega), if_neg (by omega)]
  · rw [hwords]
    by_cases hshort : len < cnt + 4
    · rw [if_pos (Or.inl (by omega)), if_pos (Or.inl hshort)]
      rfl
    have hmin : min cnt len = cnt := by omega
    rw [hmin]
    by_cases hok : (dst + BitVec.ofNat 32 cnt).toNat % 4 = 0
    · rw [if_pos (Or.inr hok), if_pos (Or.inr hok)]
      rfl
    · rw [if_neg (by omega), if_neg (by omega)]
      rfl

/-- Every place has the character exactly if the bytes of the word all have, or no word is
stored. -/
theorem filledAt_all : (∀ i < len, filledAt val cnt len i = byteAt val 0) ↔
    len < cnt + 4 ∨ ∀ j < 4, byteAt (wordOf val) j = byteAt val 0 := by
  by_cases hshort : len < cnt + 4
  · refine iff_of_true (fun i hi => ?_) (Or.inl hshort)
    exact if_pos (by omega)
  rw [or_iff_right hshort]
  constructor
  · intro h j hj
    have hplace := h (cnt + j) (by omega)
    rwa [filledAt, if_neg (by omega), Nat.add_sub_cancel_left, Nat.mod_eq_of_lt hj] at hplace
  · intro h i _
    unfold filledAt
    split_ifs
    · rfl
    · exact h _ (Nat.mod_lt _ (by decide))

/-- **Filling by words is filling by characters** exactly if no word is stored, or the words
are aligned and the upper bytes of `val` add no bit to its low one. -/
theorem my_memset_eq_some_iff (n : ℤ) (hn : n < 2 ^ 31) :
    my_memset m dst val n = some (memset m dst val n) ↔
      n < cntOf dst + 4 ∨ (dst + BitVec.ofNat 32 (cntOf dst)).toNat % 4 = 0 ∧
        ∀ j < 4, byteAt val j ||| byteAt val 0 = byteAt val 0 := by
  obtain ⟨mem, hmem, hset⟩ := @my_memset_eq m dst n.toNat val (by omega)
  have hshort : n < cntOf dst + 4 ↔ n.toNat < cntOf dst + 4 := by omega
  rw [show my_memset m dst val n = my_memset m dst val n.toNat from rfl, hset, hshort,
    ← word_all_same]
  by_cases hok : n.toNat < cntOf dst + 4 ∨ (dst + BitVec.ofNat 32 (cntOf dst)).toNat % 4 = 0
  · have hplain (x : Address) : (memset m dst val n).1 x =
        if (x - dst).toNat < n.toNat then byteAt val 0 else m x := fills_apply (by omega) x
    have hsame : mem = (memset m dst val n).1 ↔
        ∀ i < n.toNat, filledAt val (cntOf dst) n.toNat i = byteAt val 0 := by
      constructor
      · intro h i hi
        have hx : (dst + BitVec.ofNat 32 i - dst).toNat = i := by bv_omega
        have hplace := (hmem _).symm.trans ((congrFun h (dst + BitVec.ofNat 32 i)).trans (hplain _))
        rwa [hx, if_pos hi, if_pos hi] at hplace
      · intro h
        funext x
        rw [hmem, hplain]
        split_ifs with hi
        · exact h _ hi
        · rfl
    have hpair : (mem, dst) = memset m dst val n ↔ mem = (memset m dst val n).1 :=
      Prod.ext_iff.trans (and_iff_left rfl)
    rw [if_pos hok, Option.some_inj, hpair, hsame, filledAt_all]
    tauto
  · rw [if_neg hok]
    exact iff_of_false nofun fun h => hok (h.imp_right And.left)

/-- A `char` of 128 or more that has become an `int`: the words get its sign. -/
theorem my_memset_eq_some_iff_signed :
    my_memset (fun _ => 0) 0x1000#32 0xFFFFFF80#32 4 ≠
      some (memset (fun _ => 0) 0x1000#32 0xFFFFFF80#32 4) :=
  fun h => absurd ((my_memset_eq_some_iff 4 (by decide)).mp h) (by decide)

end Xinu.Libxc.Copying
