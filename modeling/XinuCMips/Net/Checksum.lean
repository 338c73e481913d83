import Mathlib.Data.UInt
import XinuCMips.Lib.OnesComplement

/-!
# Internet checksums: `ipcksum` and `icmp_cksum`

Both routines add 16-bit words, as the little-endian processor loads them, in a
32-bit sum, and then add its upper half to it once. A carry out of that addition is
lost. `icmp_cksum` takes the last byte of an odd message for the upper byte of a word,
and extends its sign.

The checksum that is wanted is that of the bytes as they stand in the packet: pairs of
bytes, the first one the upper byte, an odd byte with a zero behind it.

* `finish_toNat`     — what the last addition makes of the 32-bit sum;
* `cksum_right_iff`  — when the two routines compute the checksum.
-/

namespace Xinu.Net

open OnesComplement

-- ---------------------------------------------------------------------------
-- The routines
-- ---------------------------------------------------------------------------

/-- `*(uint16 *)p`, little-endian. -/
def word (a b : UInt8) : Nat := a.toNat + 256 * b.toNat

/-- `cksum += (uint32) *sptr++`, so often; what the pointer has not passed is left. -/
def sumLoop : Nat → List UInt8 → UInt32 → UInt32 × List UInt8
  | n + 1, a :: b :: rest, cksum => sumLoop n rest (cksum + UInt32.ofNat (word a b))
  | _, rest, cksum => (cksum, rest)

/-- `cksum += (cksum >> 16); cksum = 0xffff & ~cksum`. -/
def finish (cksum : UInt32) : UInt32 := (0xffff : UInt32) &&& ~~~(cksum + (cksum >>> 16))

/-- `ipcksum`, of the bytes from `net_ipvh` on. -/
def ipcksum (pkt : List UInt8) : UInt16 :=
  let cksum := finish (sumLoop 10 pkt 0).1
  let cksum := if cksum = 0xffff then 0 else cksum
  (0xffff &&& cksum).toUInt16

/-- `(uint32) (*((char *)sptr) << 8)`, with `char` signed. -/
def lastByte (ch : UInt8) : UInt32 := UInt32.ofInt (ch.toInt8.toInt * 256)

/-- `icmp_cksum`, of a buffer of `buflen` bytes. -/
def icmp_cksum (buf : List UInt8) : UInt16 :=
  let buflen := buf.length
  let r := sumLoop (buflen / 2) buf 0
  let cksum :=
    match r.2 with
    | [] => r.1
    | ch :: _ => r.1 + lastByte ch
  (0xffff &&& finish cksum).toUInt16

-- ---------------------------------------------------------------------------
-- What is wanted
-- ---------------------------------------------------------------------------

/-- The 16-bit words in network order, the last byte padded with zero. -/
def netWords : List UInt8 → List Nat
  | [] => []
  | [a] => [256 * a.toNat]
  | a :: b :: rest => (256 * a.toNat + b.toNat) :: netWords rest

/-- The words as they are loaded, the last byte padded with zero. -/
def words : List UInt8 → List Nat
  | [] => []
  | [a] => [a.toNat]
  | a :: b :: rest => word a b :: words rest

/-- A stored `uint16`, as it reads in network order. -/
def stored (v : UInt16) : Nat := swap v.toNat

/-- `v` is stored in the word `k` of the packet. -/
def putWord (k : Nat) (v : UInt16) (pkt : List UInt8) : List UInt8 :=
  (pkt.set (2 * k) (UInt8.ofNat (v.toNat % 256))).set (2 * k + 1) (UInt8.ofNat (v.toNat / 256))

/-- The value computed by `cksum` is the checksum, and where the field for it (the word
`k`) was zero, the packet with the value in this field sums to 65535 and is accepted. -/
structure Right (cksum : List UInt8 → UInt16) (k : Nat) (pkt : List UInt8) : Prop where
  value : stored (cksum pkt) = checksum (netWords pkt)
  accepted : (netWords pkt)[k]? = some 0 →
    sum (netWords (putWord k (cksum pkt) pkt)) = 0xFFFF ∧ cksum (putWord k (cksum pkt) pkt) = 0

/-- The field `net_ipcksum` of a header. -/
def ipField : Nat := 5

/-- The field `net_iccksum` of a message. -/
def icField : Nat := 1

-- ---------------------------------------------------------------------------
-- Words
-- ---------------------------------------------------------------------------

theorem word_lt (a b : UInt8) : word a b < 0x10000 := by
  have ha := a.toNat_lt
  have hb := b.toNat_lt
  unfold word
  omega

theorem words_lt (bytes : List UInt8) : ∀ w ∈ words bytes, w < 0x10000 := by
  induction bytes using words.induct with
  | case1 => simp [words]
  | case2 a =>
    have ha := a.toNat_lt
    simp [words]
    omega
  | case3 a b rest ih =>
    rw [words, List.forall_mem_cons]
    exact ⟨word_lt a b, ih⟩

/-- Network order is the other byte order. -/
theorem netWords_eq (bytes : List UInt8) : netWords bytes = (words bytes).map swap := by
  induction bytes using words.induct with
  | case1 => rfl
  | case2 a =>
    have ha := a.toNat_lt
    simp only [netWords, words, List.map_cons, List.map_nil, swap]
    congr 1
    omega
  | case3 a b rest ih =>
    have ha := a.toNat_lt
    have hb := b.toNat_lt
    rw [netWords, words, List.map_cons, ih]
    congr 1
    unfold swap word
    omega

theorem netWords_getElem? (bytes : List UInt8) (k : Nat) :
    (netWords bytes)[k]? = some 0 ↔ (words bytes)[k]? = some 0 := by
  rw [netWords_eq, List.getElem?_map]
  cases (words bytes)[k]? with
  | none => simp
  | some w =>
    simp only [Option.map_some, Option.some.injEq]
    unfold swap
    omega

/-- A word that is stored. -/
theorem words_putWord (k : Nat) (v : UInt16) (pkt : List UInt8) (hk : 2 * k + 1 < pkt.length) :
    words (putWord k v pkt) = (words pkt).set k v.toNat := by
  induction pkt using words.induct generalizing k with
  | case1 => exact absurd hk (Nat.not_lt_zero _)
  | case2 a =>
    rw [List.length_singleton] at hk
    omega
  | case3 a b rest ih =>
    cases k with
    | zero =>
      have hv := v.toNat_lt
      simp only [putWord, Nat.mul_zero, Nat.zero_add, List.set_cons_zero, List.set_cons_succ, words,
        word, List.cons.injEq, and_true]
      rw [UInt8.toNat_ofNat', UInt8.toNat_ofNat']
      omega
    | succ k =>
      rw [List.length_cons, List.length_cons] at hk
      have hput : putWord (k + 1) v (a :: b :: rest) = a :: b :: putWord k v rest := rfl
      rw [hput, words, words, List.set_cons_succ, ih k (by omega)]

theorem putWord_length (k : Nat) (v : UInt16) (pkt : List UInt8) :
    (putWord k v pkt).length = pkt.length := by
  unfold putWord
  rw [List.length_set, List.length_set]

-- ---------------------------------------------------------------------------
-- The sums
-- ---------------------------------------------------------------------------

/-- **The last addition**: the halves of the sum are added, a carry is lost. -/
theorem finish_toNat (c : UInt32) :
    (finish c).toNat = 0xFFFF - (c.toNat % 0x10000 + c.toNat / 0x10000) % 0x10000 := by
  have hc := c.toNat_lt
  have hshift : (c >>> 16).toNat = c.toNat / 0x10000 := by
    rw [UInt32.toNat_shiftRight]
    exact Nat.shiftRight_eq_div_pow _ _
  have hmask : ∀ x : UInt32, (0xffff &&& x).toNat = x.toNat % 0x10000 := by
    intro x
    rw [UInt32.toNat_and, Nat.and_comm]
    exact Nat.and_two_pow_sub_one_eq_mod _ 16
  unfold finish
  rw [hmask, UInt32.toNat_not, UInt32.toNat_add, hshift]
  unfold UInt32.size
  omega

theorem mask_toUInt16 (c : UInt32) : ((0xffff &&& finish c).toUInt16).toNat = (finish c).toNat := by
  have hc := finish_toNat c
  have hmask : (0xffff &&& finish c).toNat = (finish c).toNat % 0x10000 := by
    rw [UInt32.toNat_and, Nat.and_comm]
    exact Nat.and_two_pow_sub_one_eq_mod _ 16
  rw [UInt32.toNat_toUInt16, hmask]
  omega

/-- The loop adds the words that it passes. -/
theorem sumLoop_eq (n : Nat) (bytes : List UInt8) (c : UInt32) (hn : 2 * n ≤ bytes.length) :
    (sumLoop n bytes c).1.toNat = (c.toNat + (words (bytes.take (2 * n))).sum) % 2 ^ 32 ∧
      (sumLoop n bytes c).2 = bytes.drop (2 * n) := by
  induction n generalizing bytes c with
  | zero =>
    have hc := c.toNat_lt
    rw [sumLoop]
    · simp only [Nat.mul_zero, List.take_zero, words, List.sum_nil, List.drop_zero, and_true]
      omega
    · nofun
  | succ n ih =>
    match bytes, hn with
    | a :: b :: rest, hn =>
      rw [List.length_cons, List.length_cons] at hn
      have htwo : 2 * (n + 1) = 2 * n + 1 + 1 := by omega
      obtain ⟨hsum, hrest⟩ := ih rest (c + UInt32.ofNat (word a b)) (by omega)
      rw [sumLoop, hsum, hrest, htwo, List.take_succ_cons, List.take_succ_cons, words,
        List.sum_cons, UInt32.toNat_add, UInt32.toNat_ofNat']
      have hword := word_lt a b
      refine ⟨?_, rfl⟩
      omega

theorem words_sum_lt (n : Nat) (bytes : List UInt8) (hn : bytes.length ≤ 2 * n) :
    (words bytes).sum ≤ n * 0xFFFF := by
  induction bytes using words.induct generalizing n with
  | case1 => exact Nat.zero_le _
  | case2 a =>
    have ha := a.toNat_lt
    rw [List.length_singleton] at hn
    simp only [words, List.sum_cons, List.sum_nil]
    omega
  | case3 a b rest ih =>
    rw [List.length_cons, List.length_cons] at hn
    have hrest := ih (n - 1) (by omega)
    have hword := word_lt a b
    rw [words, List.sum_cons]
    omega

/-- The last byte of an odd message, or zero. -/
def oddByte (msg : List UInt8) : Nat := ((msg.drop (2 * (msg.length / 2))).head?.map UInt8.toNat).getD 0

theorem oddByte_lt (msg : List UInt8) : oddByte msg < 256 := by
  unfold oddByte
  cases (msg.drop (2 * (msg.length / 2))).head? with
  | none => exact Nat.zero_lt_succ 255
  | some a => exact a.toNat_lt

/-- The words that `icmp_cksum` finds whole, and the odd byte. -/
theorem words_sum (msg : List UInt8) :
    (words msg).sum = (words (msg.take (2 * (msg.length / 2)))).sum + oddByte msg := by
  induction msg using words.induct with
  | case1 => rfl
  | case2 a => simp [words, oddByte]
  | case3 a b rest ih =>
    have htwo : 2 * ((a :: b :: rest).length / 2) = 2 * (rest.length / 2) + 1 + 1 := by
      rw [List.length_cons, List.length_cons]
      omega
    have hodd : oddByte (a :: b :: rest) = oddByte rest := by
      unfold oddByte
      rw [htwo]
      rfl
    rw [hodd, htwo, List.take_succ_cons, List.take_succ_cons, words, words, List.sum_cons,
      List.sum_cons, ih, Nat.add_assoc]

theorem lastByte_toNat (ch : UInt8) :
    (lastByte ch).toNat = 256 * ch.toNat + if ch.toNat < 128 then 0 else 0xFFFF0000 := by
  have hall : ∀ n < 256, (lastByte (UInt8.ofNat n)).toNat =
      256 * n + if n < 128 then 0 else 0xFFFF0000 := by decide +kernel
  have hch := hall ch.toNat ch.toNat_lt
  rwa [UInt8.ofNat_toNat] at hch

-- ---------------------------------------------------------------------------
-- When the value is right
-- ---------------------------------------------------------------------------

/-- The two halves of a sum add without a carry. -/
def OneFold (u : Nat) : Prop := u % 0x10000 + u / 0x10000 < 0x10000

/-- The sum of `icmp_cksum` before it is cut to 32 bits: the odd byte counts 256 times,
and from 128 on with its sign. -/
def plainSum (msg : List UInt8) : Nat :=
  (words msg).sum + 255 * oddByte msg + if oddByte msg < 128 then 0 else 0xFFFF0000

/-- The carries that are lost: those out of 32 bits, and that of the last addition. -/
def lost (v : Nat) : Nat := v / 2 ^ 32 + (v % 2 ^ 32 % 0x10000 + v % 2 ^ 32 / 0x10000) / 0x10000

/-- Nothing is lost and there is no odd byte to misplace, or the one makes up for the
other, which takes more than 65536 words. -/
structure Fits (msg : List UInt8) : Prop where
  lost : lost (plainSum msg) = 255 * oddByte msg
  left : (words msg).sum ≠ 0 →
    (plainSum msg % 2 ^ 32 % 0x10000 + plainSum msg % 2 ^ 32 / 0x10000) % 0x10000 ≠ 0

/-- The right value is stored in the field of the message. -/
def filled (msg : List UInt8) : List UInt8 :=
  putWord icField (UInt16.ofNat (checksum (words msg))) msg

/-- In a message of at most 65536 words, `Fits` says what it is meant to. -/
theorem fits_iff_of_short {msg : List UInt8} (h : msg.length ≤ 2 ^ 17) :
    Fits msg ↔ oddByte msg = 0 ∧ OneFold (words msg).sum := by
  have hsum := words_sum_lt (2 ^ 16) msg (by omega)
  have hodd := oddByte_lt msg
  have hplain : plainSum msg = (words msg).sum + 255 * oddByte msg +
      if oddByte msg < 128 then 0 else 0xFFFF0000 := rfl
  constructor
  · intro hfits
    have hlost := hfits.lost
    unfold Net.lost at hlost
    unfold OneFold
    rw [hplain] at hlost
    split at hlost <;> omega
  · rintro ⟨hzero, hfold⟩
    unfold OneFold at hfold
    rw [hzero, if_pos (by decide), Nat.mul_zero, Nat.add_zero] at hplain
    have hmod : (words msg).sum % 2 ^ 32 = (words msg).sum := Nat.mod_eq_of_lt (by omega)
    constructor
    · unfold Net.lost
      rw [hplain, hmod, hzero]
      omega
    · rw [hplain, hmod]
      omega

/-- The stored value is right when the number is. -/
theorem stored_eq_iff (v : UInt16) (pkt : List UInt8) :
    stored v = checksum (netWords pkt) ↔ v.toNat = checksum (words pkt) := by
  have hv := v.toNat_lt
  have hc : checksum (words pkt) < 0x10000 := by
    unfold checksum
    omega
  rw [netWords_eq, checksum_swap (words_lt pkt), stored]
  constructor
  · intro h
    rw [← swap_swap hv, h, swap_swap hc]
  · exact congrArg swap

/-- The checksum is stored for a zero word. -/
theorem sum_putWord {k : Nat} {v : UInt16} {pkt : List UInt8} (hk : 2 * k + 1 < pkt.length)
    (hzero : (netWords pkt)[k]? = some 0) (hv : v.toNat = checksum (words pkt)) :
    sum (words (putWord k v pkt)) = 0xFFFF ∧ sum (netWords (putWord k v pkt)) = 0xFFFF := by
  have hsum : sum (words (putWord k v pkt)) = 0xFFFF := by
    rw [words_putWord k v pkt hk, hv]
    exact sum_set (words_lt pkt) ((netWords_getElem? pkt k).mp hzero)
  refine ⟨hsum, ?_⟩
  rw [netWords_eq, sum_map_swap (words_lt _), hsum]
  rfl

theorem ipcksum_toNat {hdr : List UInt8} (h : hdr.length = 20) :
    let u := (words hdr).sum
    (ipcksum hdr).toNat = if (u % 0x10000 + u / 0x10000) % 0x10000 = 0 then 0 else
      0xFFFF - (u % 0x10000 + u / 0x10000) % 0x10000 := by
  intro u
  have hu : u ≤ 10 * 0xFFFF := words_sum_lt 10 hdr (by omega)
  obtain ⟨hloop, -⟩ := sumLoop_eq 10 hdr 0 (by omega)
  have htake : hdr.take (2 * 10) = hdr := List.take_of_length_le (by omega)
  have hsum : (sumLoop 10 hdr 0).1.toNat = u := by
    rw [hloop, htake, UInt32.toNat_zero]
    omega
  have hfin := finish_toNat (sumLoop 10 hdr 0).1
  rw [hsum] at hfin
  have hmax : finish (sumLoop 10 hdr 0).1 = 0xffff ↔ (u % 0x10000 + u / 0x10000) % 0x10000 = 0 := by
    rw [← UInt32.toNat_inj, hfin]
    change _ = 65535 ↔ _
    omega
  unfold ipcksum
  dsimp only
  by_cases hz : (u % 0x10000 + u / 0x10000) % 0x10000 = 0
  · rw [if_pos (hmax.mpr hz), if_pos hz]
    rfl
  · rw [if_neg (mt hmax.mp hz), if_neg hz, mask_toUInt16, hfin]

/-- **`ipcksum` is right** where one fold is enough. -/
theorem ipcksum_eq_iff {hdr : List UInt8} (h : hdr.length = 20) :
    (ipcksum hdr).toNat = checksum (words hdr) ↔ OneFold (words hdr).sum ∧ (words hdr).sum ≠ 0 := by
  have hu := words_sum_lt 10 hdr (by omega)
  rw [ipcksum_toNat h, checksum, sum_eq (words_lt hdr), ← fold_halves]
  generalize (words hdr).sum = u at *
  have hhalf : u % 0x10000 + u / 0x10000 = 0 ↔ u = 0 := by omega
  have hless : u % 0x10000 + u / 0x10000 < 0x10000 + 10 := by omega
  unfold OneFold fold
  rw [Ne, ← hhalf]
  generalize u % 0x10000 + u / 0x10000 = f at *
  split <;> split <;> omega

theorem icmp_cksum_toNat (msg : List UInt8) : (icmp_cksum msg).toNat =
    0xFFFF - (plainSum msg % 2 ^ 32 % 0x10000 + plainSum msg % 2 ^ 32 / 0x10000) % 0x10000 := by
  obtain ⟨hloop, hrest⟩ := sumLoop_eq (msg.length / 2) msg 0 (by omega)
  have hwords := words_sum msg
  unfold icmp_cksum
  dsimp only
  rw [mask_toUInt16, finish_toNat]
  rw [UInt32.toNat_zero, Nat.zero_add] at hloop
  cases hr : (sumLoop (msg.length / 2) msg 0).2 with
  | nil =>
    have hodd : oddByte msg = 0 := by
      unfold oddByte
      rw [← hrest, hr]
      rfl
    dsimp only
    rw [hloop, plainSum, hwords, hodd]
    simp only [Nat.mul_zero, Nat.add_zero, if_pos (Nat.zero_lt_succ 127)]
  | cons ch rest =>
    have hodd : oddByte msg = ch.toNat := by
      unfold oddByte
      rw [← hrest, hr]
      rfl
    have hlast := lastByte_toNat ch
    dsimp only
    rw [UInt32.toNat_add, hloop, hlast, plainSum, hwords, hodd]
    split <;> omega

/-- **`icmp_cksum` is right** where nothing is lost. -/
theorem icmp_cksum_eq_iff {msg : List UInt8} (h : msg.length < 2 ^ 31) :
    (icmp_cksum msg).toNat = checksum (words msg) ↔ Fits msg := by
  have hsum := words_sum_lt (2 ^ 30) msg (by omega)
  have hodd := oddByte_lt msg
  have hplain : plainSum msg = (words msg).sum + 255 * oddByte msg +
      if oddByte msg < 128 then 0 else 0xFFFF0000 := rfl
  have hfits : Fits msg ↔ lost (plainSum msg) = 255 * oddByte msg ∧ ((words msg).sum ≠ 0 →
      (plainSum msg % 2 ^ 32 % 0x10000 + plainSum msg % 2 ^ 32 / 0x10000) % 0x10000 ≠ 0) :=
    ⟨fun hf => ⟨hf.lost, hf.left⟩, fun hf => ⟨hf.1, hf.2⟩⟩
  rw [icmp_cksum_toNat, hfits, checksum, sum_eq (words_lt msg)]
  generalize (words msg).sum = u at *
  generalize oddByte msg = b at *
  generalize plainSum msg = v at *
  unfold lost fold
  by_cases hu : u = 0
  · subst hu
    rw [if_pos rfl]
    split at hplain <;> omega
  · rw [if_neg hu]
    split at hplain <;> omega

-- ---------------------------------------------------------------------------
-- Headers and messages
-- ---------------------------------------------------------------------------

/-- The 20 bytes of an IP header. -/
def IpHeader := { hdr : List UInt8 // hdr.length = 20 }

/-- An ICMP message: its header of 8 bytes, and as many data as an `int32` counts. -/
def IcmpMessage := { msg : List UInt8 // 8 ≤ msg.length ∧ msg.length < 2 ^ 31 }

/-- A right value is accepted. -/
theorem right_of_accepts {cksum : List UInt8 → UInt16} {k : Nat} {pkt : List UInt8}
    (hk : 2 * k + 1 < pkt.length) (hv : (cksum pkt).toNat = checksum (words pkt))
    (hacc : (netWords pkt)[k]? = some 0 → (cksum (putWord k (cksum pkt) pkt)).toNat =
      checksum (words (putWord k (cksum pkt) pkt))) : Right cksum k pkt := by
  refine ⟨(stored_eq_iff _ _).mpr hv, fun hzero => ?_⟩
  obtain ⟨hwords, hnet⟩ := sum_putWord hk hzero hv
  refine ⟨hnet, UInt16.toNat_inj.mp ?_⟩
  rw [hacc hzero, checksum, hwords]
  rfl

theorem words_sum_eq_zero (bytes : List UInt8) : (words bytes).sum = 0 ↔ ∀ a ∈ bytes, a = 0 := by
  have hzero : ∀ a : UInt8, a.toNat = 0 ↔ a = 0 := fun a => by
    rw [← UInt8.toNat_inj]
    rfl
  induction bytes using words.induct with
  | case1 => simp [words]
  | case2 a => simp [words, hzero]
  | case3 a b rest ih =>
    have hword : word a b = 0 ↔ a = 0 ∧ b = 0 := by
      rw [← hzero a, ← hzero b, word]
      omega
    rw [words, List.sum_cons, List.forall_mem_cons, List.forall_mem_cons, Nat.add_eq_zero_iff,
      hword, and_assoc]
    exact and_congr_right fun _ => and_congr_right fun _ => ih

theorem ipcksum_right_iff (hdr : IpHeader) : Right ipcksum ipField hdr.1 ↔
    OneFold (words hdr.1).sum ∧ ∃ a ∈ hdr.1, a ≠ 0 := by
  have hlen := hdr.2
  have hex : (∃ a ∈ hdr.1, a ≠ 0) ↔ (words hdr.1).sum ≠ 0 := by
    rw [Ne, words_sum_eq_zero]
    simp only [ne_eq, not_forall, exists_prop]
  rw [hex, ← ipcksum_eq_iff hlen]
  refine ⟨fun h => (stored_eq_iff _ _).mp h.value, fun hv => ?_⟩
  refine right_of_accepts (by rw [hlen]; decide) hv fun hzero => ?_
  obtain ⟨hfold, hne⟩ := (ipcksum_eq_iff hlen).mp hv
  have hk : 2 * ipField + 1 < hdr.1.length := by rw [hlen]; decide
  have hput : (putWord ipField (ipcksum hdr.1) hdr.1).length = 20 := by rw [putWord_length, hlen]
  rw [ipcksum_eq_iff hput, words_putWord _ _ _ hk,
    sum_set_zero ((netWords_getElem? _ _).mp hzero), hv, checksum, sum_eq (words_lt hdr.1)]
  -- the value fills the sum up: its halves add up to 65535
  unfold OneFold at *
  rw [← fold_halves, fold_of_le (by omega)]
  omega

theorem icmp_cksum_right_iff (msg : IcmpMessage) : Right icmp_cksum icField msg.1 ↔
    Fits msg.1 ∧ ((netWords msg.1)[icField]? = some 0 → Fits (filled msg.1)) := by
  obtain ⟨hlen, hbig⟩ := msg.2
  have hk : 2 * icField + 1 < msg.1.length := lt_of_lt_of_le (by decide) hlen
  have hfilled (hv : (icmp_cksum msg.1).toNat = checksum (words msg.1)) :
      filled msg.1 = putWord icField (icmp_cksum msg.1) msg.1 := by
    unfold filled
    rw [← hv, UInt16.ofNat_toNat]
  have hput : (putWord icField (icmp_cksum msg.1) msg.1).length < 2 ^ 31 := by
    rwa [putWord_length]
  constructor
  · intro h
    have hv := (stored_eq_iff _ _).mp h.value
    refine ⟨(icmp_cksum_eq_iff hbig).mp hv, fun hzero => ?_⟩
    rw [hfilled hv, ← icmp_cksum_eq_iff hput, (h.accepted hzero).2, checksum,
      (sum_putWord hk hzero hv).1]
    rfl
  · rintro ⟨hfits, hrest⟩
    have hv := (icmp_cksum_eq_iff hbig).mpr hfits
    refine right_of_accepts hk hv fun hzero => ?_
    rw [icmp_cksum_eq_iff hput, ← hfilled hv]
    exact hrest hzero

/-- **When the checksums are right**: for every header with a byte other than zero whose
sum takes one fold, and for every message whose sum loses no carry and that has no odd
byte but zero. -/
theorem cksum_right_iff (hdr : IpHeader) (msg : IcmpMessage) :
    (Right ipcksum ipField hdr.1 ↔ OneFold (words hdr.1).sum ∧ ∃ a ∈ hdr.1, a ≠ 0) ∧
    (Right icmp_cksum icField msg.1 ↔
      Fits msg.1 ∧ ((netWords msg.1)[icField]? = some 0 → Fits (filled msg.1))) :=
  ⟨ipcksum_right_iff hdr, icmp_cksum_right_iff msg⟩

/-- A header whose halves add up to 65536, and a message of nine bytes. -/
theorem cksum_not_right : (¬∀ hdr : IpHeader, Right ipcksum ipField hdr.1) ∧
    ¬∀ msg : IcmpMessage, Right icmp_cksum icField msg.1 := by
  constructor
  · intro hip
    have hvalue := (hip ⟨[0x45, 0, 0xFF, 0xFF, 0xBB, 0xFF, 0, 0, 0, 0, 0, 0, 0, 0, 0, 0, 0, 0, 0, 0],
      rfl⟩).value
    revert hvalue
    decide +kernel
  · intro hic
    have hvalue := (hic ⟨[8, 0, 0, 0, 0, 0, 0, 0, 1], by decide⟩).value
    revert hvalue
    decide +kernel

end Xinu.Net
