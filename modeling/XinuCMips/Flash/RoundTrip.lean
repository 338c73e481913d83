import XinuCMips.Flash.Nvram

/-!
# Settings written to flash memory

`image` is a block with settings as the boot loader leaves it. A name is compared with a
string only as far as the name goes, and the `=` behind it is not looked at; but names
that do not have the same hash never meet.

* `findBlock_top`     — the topmost block is found;
* `lookup_pairs`      — which setting a name leads to;
* `nvram_round_trip`  — **a setting is read back just when no earlier one hides it**.
-/

namespace Xinu.Flash

open Bytes Terminated
open CChars (NULLCH)

/-- A name and its value. -/
structure Setting where
  name : List UInt8
  value : List UInt8
  nonempty : name ≠ []
  short : name.length ≤ NVRAM_STRMAX
  plain : NULLCH ∉ name ∧ EQUALS ∉ name
  ends : NULLCH ∉ value
  deriving DecidableEq

def Setting.pair (e : Setting) : List UInt8 := e.name ++ EQUALS :: e.value

/-- The strings of a block. -/
def dataOf (es : List Setting) : List UInt8 := encode NULLCH (es.map Setting.pair)

/-- A block with settings. -/
def image (crc refresh ncdl : UInt32) (es : List Setting) : List UInt8 :=
  leBytes 4 NVRAM_MAGIC.toNat ++ (leBytes 4 (headerSize.toNat + (dataOf es).length) ++
    (leBytes 4 crc.toNat ++ (leBytes 4 refresh.toNat ++ (leBytes 4 ncdl.toNat ++ dataOf es))))

variable {mem : Memory} {a base start : UInt32} {n : Nat} {name l : List UInt8}

-- ---------------------------------------------------------------------------
-- The topmost block
-- ---------------------------------------------------------------------------

/-- The block at `base` is the first that the scan from `start` down meets: it is `k` blocks
below, and none of those begins with the magic number. -/
structure Topmost (mem : Memory) (start base : UInt32) (k : Nat) : Prop where
  above : FLASH_BASE < base
  below : base.toNat + k * NVRAM_SIZE.toNat = start.toNat
  magic : wordAt mem base = NVRAM_MAGIC
  others : ∀ j < k, wordAt mem (base + UInt32.ofNat (j + 1) * NVRAM_SIZE) ≠ NVRAM_MAGIC

theorem scan_topmost (k : Nat) : ∀ {n : Nat} {start : UInt32}, k < n → Topmost mem start base k →
    scan mem n start = base := by
  have hsize : NVRAM_SIZE.toNat = 32768 := rfl
  induction k with
  | zero =>
    intro n start hn h
    obtain ⟨n, rfl⟩ := Nat.exists_eq_add_of_lt hn
    have hbelow := h.below
    obtain rfl : base = start := UInt32.toNat_inj.mp (by omega)
    rw [Nat.zero_add]
    unfold scan
    rw [if_pos h.above, if_pos h.magic.symm]
  | succ k ih =>
    intro n start hn h
    cases n with
    | zero => exact absurd hn (Nat.not_lt_zero _)
    | succ n =>
      have hbelow := h.below
      have habove := UInt32.lt_iff_toNat_lt.mp h.above
      rw [hsize] at hbelow
      have hstart : start = base + UInt32.ofNat (k + 1) * NVRAM_SIZE := by
        refine UInt32.toNat_inj.mp ?_
        have hlt := start.toNat_lt
        rw [UInt32.toNat_add, UInt32.toNat_mul, UInt32.toNat_ofNat', hsize]
        omega
      have hnext : (start - NVRAM_SIZE).toNat = base.toNat + k * NVRAM_SIZE.toNat := by
        rw [UInt32.toNat_sub_of_le _ _ (UInt32.le_iff_toNat_le.mpr (by omega)), hsize]
        omega
      unfold scan
      rw [if_pos (UInt32.lt_iff_toNat_lt.mpr (by omega)), if_neg]
      · exact ih (Nat.lt_of_succ_lt_succ hn)
          ⟨h.above, hnext.symm, h.magic, fun j hj => h.others j (Nat.lt_succ_of_lt hj)⟩
      · rw [hstart]
        exact (h.others k (Nat.lt_succ_self k)).symm

/-- **The topmost block is found.** -/
theorem findBlock_top {size : Int32} {k : Nat} (h : Topmost mem (lastBlock size) base k) :
    findBlock mem size = base := by
  refine scan_topmost k ?_ h
  have hbelow := h.below
  have habove := UInt32.lt_iff_toNat_lt.mp h.above
  have hsize : NVRAM_SIZE.toNat = 32768 := rfl
  have hflash : FLASH_BASE.toNat = 3170893824 := rfl
  unfold scanRounds
  rw [hsize] at hbelow ⊢
  omega

-- ---------------------------------------------------------------------------
-- Names and strings
-- ---------------------------------------------------------------------------

/-- The hash stops at the `=`. -/
theorem hashLoop_append (h : EQUALS ∉ name) (sum : UInt32) :
    hashLoop sum (name ++ EQUALS :: l) = hashLoop sum name := by
  induction name generalizing sum with
  | nil => exact if_pos rfl
  | cons ch name ih =>
    obtain ⟨hch, h⟩ := not_or.mp fun hor => h (List.mem_cons.mpr hor)
    rw [List.cons_append, hashLoop, hashLoop, if_neg (Ne.symm hch), if_neg (Ne.symm hch), ih h]

theorem nvramHash_pair (e : Setting) : nvramHash e.pair = nvramHash e.name := by
  unfold nvramHash Setting.pair
  rw [Fin.mk.injEq, hashLoop_append e.plain.2]

/-- A name without `=` reaches at most up to the `=` of a string. -/
theorem prefix_pair {b : List UInt8} (h : EQUALS ∉ name) :
    name <+: b ++ EQUALS :: l ↔ name <+: b := by
  induction name generalizing b with
  | nil => exact iff_of_true List.nil_prefix List.nil_prefix
  | cons ch name ih =>
    obtain ⟨hch, h⟩ := not_or.mp fun hor => h (List.mem_cons.mpr hor)
    cases b with
    | nil =>
      rw [List.nil_append, List.cons_prefix_cons, List.prefix_nil]
      exact iff_of_false (fun hpre => hch hpre.1.symm) (List.cons_ne_nil _ _)
    | cons c b => rw [List.cons_append, List.cons_prefix_cons, List.cons_prefix_cons, ih h]

/-- A setting that a name may lead to. -/
def Hides (name : List UInt8) (e : Setting) : Prop :=
  nvramHash e.name = nvramHash name ∧ name <+: e.name

instance (name : List UInt8) (e : Setting) : Decidable (Hides name e) :=
  inferInstanceAs (Decidable (_ ∧ _))

/-- **Which setting a name leads to.** -/
theorem lookup_pairs (hplain : EQUALS ∉ name) (hshort : name.length ≤ NVRAM_STRMAX)
    (es : List Setting) :
    lookup (es.map Setting.pair) name = (es.find? fun e => Hides name e).map Setting.pair := by
  unfold lookup
  rw [List.find?_map]
  refine congrArg (Option.map _) (List.find?_congr fun e _ => ?_)
  rw [Function.comp_apply, Bool.eq_iff_iff, decide_eq_true_iff, decide_eq_true_iff,
    nvramHash_pair]
  unfold InFront Hides Setting.pair
  rw [List.take_of_length_le hshort, prefix_pair hplain]

theorem pair_inj {e e' : Setting} (h : e.pair = e'.pair) : e.name = e'.name := by
  have hpre : e.name <+: e'.name := (prefix_pair e.plain.2).mp ⟨EQUALS :: e.value, h⟩
  have hpre' : e'.name <+: e.name := (prefix_pair e'.plain.2).mp ⟨EQUALS :: e'.value, h.symm⟩
  exact hpre.eq_of_length_le hpre'.length_le

/-- What stands behind the name and the `=` is the value. -/
theorem text_value (e : Setting) : (⟨e.pair, e.name.length + 1⟩ : Pointer).text = some e.value := by
  have hlen : e.name.length + 1 ≤ e.pair.length := by
    unfold Setting.pair
    rw [List.length_append, List.length_cons]
    omega
  unfold Pointer.text
  rw [if_pos hlen]
  unfold Setting.pair
  rw [List.drop_append, Nat.add_sub_cancel_left, List.drop_of_length_le (Nat.le_succ _)]
  rfl

-- ---------------------------------------------------------------------------
-- The block in memory
-- ---------------------------------------------------------------------------

variable {crc refresh ncdl : UInt32} {es : List Setting}

theorem length_image : (image crc refresh ncdl es).length =
    headerSize.toNat + (dataOf es).length := by
  have hsize : headerSize.toNat = 20 := rfl
  unfold image
  simp only [List.length_append, length_leBytes]
  omega

/-- A field of a header and what is behind it. -/
theorem field_at {x m : Nat} {rest : List UInt8} (hx : x < 2 ^ 32)
    (h : bytesAt mem a (4 + m) = leBytes 4 x ++ rest) :
    wordAt mem a = UInt32.ofNat x ∧ bytesAt mem (a + 4) m = rest := by
  rw [bytesAt_add] at h
  obtain ⟨hword, hrest⟩ := List.append_inj h (by rw [length_bytesAt, length_leBytes])
  refine ⟨?_, hrest⟩
  unfold wordAt
  rw [hword, ofLe_leBytes hx]

/-- **The header and the strings of an image.** -/
theorem image_at (hfit : (image crc refresh ncdl es).length < 2 ^ 32)
    (h : bytesAt mem base (image crc refresh ncdl es).length = image crc refresh ncdl es) :
    headerAt mem base = ⟨NVRAM_MAGIC, UInt32.ofNat (headerSize.toNat + (dataOf es).length), crc,
      refresh, ncdl⟩ ∧
    pairsAt mem (base + headerSize) (dataOf es).length = es.map Setting.pair := by
  have hlen := @length_image crc refresh ncdl es
  have hsum : (image crc refresh ncdl es).length =
      4 + (4 + (4 + (4 + (4 + (dataOf es).length)))) := by
    have hsize : headerSize.toNat = 20 := rfl
    omega
  rw [hsum] at h
  unfold image at h
  obtain ⟨hmagic, h⟩ := field_at (UInt32.toNat_lt _) h
  obtain ⟨hlength, h⟩ := field_at (by omega) h
  obtain ⟨hcrc, h⟩ := field_at (UInt32.toNat_lt _) h
  obtain ⟨hrefresh, h⟩ := field_at (UInt32.toNat_lt _) h
  obtain ⟨hncdl, h⟩ := field_at (UInt32.toNat_lt _) h
  have hshift : ∀ x y z : UInt32, x + y = z → base + x + y = base + z := fun x y z hz => by
    rw [UInt32.add_assoc, hz]
  rw [hshift 4 4 8 rfl] at hcrc h hrefresh hncdl
  rw [hshift 8 4 12 rfl] at hrefresh h hncdl
  rw [hshift 12 4 16 rfl] at hncdl h
  rw [hshift 16 4 20 rfl] at h
  refine ⟨?_, ?_⟩
  · unfold headerAt
    rw [hmagic, hlength, hcrc, hrefresh, hncdl]
    simp only [UInt32.ofNat_toNat]
  · have hstrings : ∀ p ∈ es.map Setting.pair, NULLCH ∉ p ∧ p ≠ [] := by
      intro p hp
      obtain ⟨e, -, rfl⟩ := List.mem_map.mp hp
      unfold Setting.pair
      refine ⟨fun hmem => ?_, List.append_ne_nil_of_right_ne_nil _ (List.cons_ne_nil _ _)⟩
      rcases List.mem_append.mp hmem with hmem | hmem
      · exact e.plain.1 hmem
      · rcases List.mem_cons.mp hmem with heq | hmem
        · exact absurd heq (by decide)
        · exact e.ends hmem
    have hdata : bytesAt mem (base + headerSize) (dataOf es).length = dataOf es := h
    unfold pairsAt
    rw [hdata]
    exact pieces_encode hstrings

-- ---------------------------------------------------------------------------
-- The round trip
-- ---------------------------------------------------------------------------

/-- **Settings are read back.** The topmost block holds settings with different names. After
`nvramInit` a lookup of any name returns the first setting with the hash of the name that
has the name in front, or nothing; so a setting is found by its name just when no earlier
one with the same hash has a name that goes on from it, and then its value is read. -/
theorem nvram_round_trip (mem : Memory) (s : Nvram) (base crc refresh ncdl : UInt32) (k : Nat)
    (es : List Setting) (hs : s.fresh)
    (htop : Topmost mem (lastBlock (sizeOf s.flash_size)) base k)
    (himage : bytesAt mem base (image crc refresh ncdl es).length = image crc refresh ncdl es)
    (hfit : (image crc refresh ncdl es).length < 2 ^ 32 - 1)
    (hdistinct : (es.map Setting.name).Nodup) :
    ∃ t, nvramInit mem s = some (OK, t) ∧
      (∀ mem' name, NULLCH ∉ name → EQUALS ∉ name → name.length ≤ NVRAM_STRMAX →
        nvramGet mem' name t =
          some ((es.find? fun e => Hides name e).map (⟨·.pair, name.length + 1⟩), t)) ∧
      ∀ mem' before e after, es = before ++ e :: after →
        (nvramGet mem' e.name t = some (some ⟨e.pair, e.name.length + 1⟩, t) ↔
          ∀ e' ∈ before, ¬Hides e.name e') ∧
        (⟨e.pair, e.name.length + 1⟩ : Pointer).text = some e.value := by
  obtain ⟨hheader, hpairs⟩ := image_at (by omega) himage
  have hlen := @length_image crc refresh ncdl es
  have hlength : (UInt32.ofNat (headerSize.toNat + (dataOf es).length)).toNat =
      headerSize.toNat + (dataOf es).length :=
    UInt32.toNat_ofNat_of_lt' (show _ < 2 ^ 32 by omega)
  have hfound := findBlock_top htop
  obtain ⟨t, hinit, -, hget⟩ := nvram_serves mem s hs (by rw [hfound, hheader])
    (by rw [hfound, hheader, hlength]; omega)
  rw [hfound, hheader] at hget
  dsimp only at hget
  rw [hlength, Nat.add_sub_cancel_left, hpairs] at hget
  have hlookup : ∀ mem' name, NULLCH ∉ name → EQUALS ∉ name → name.length ≤ NVRAM_STRMAX →
      nvramGet mem' name t =
        some ((es.find? fun e => Hides name e).map (⟨·.pair, name.length + 1⟩), t) := by
    intro mem' name hnull hequals hshort
    rw [hget mem' name hnull, lookup_pairs hequals hshort, Option.map_map, Nat.min_eq_left hshort]
    rfl
  refine ⟨t, hinit, hlookup, fun mem' before e after hes => ⟨?_, text_value e⟩⟩
  rw [hlookup mem' e.name e.plain.1 e.plain.2 e.short, hes, List.find?_append,
    List.find?_cons_of_pos (by simp [Hides])]
  constructor
  · intro hfind e' he' hhides
    obtain ⟨x, hx⟩ : ∃ x, before.find? (fun e' => Hides e.name e') = some x :=
      Option.isSome_iff_exists.mp (List.find?_isSome.mpr ⟨e', he', decide_eq_true hhides⟩)
    rw [hx] at hfind
    have hpair : x.pair = e.pair := by
      have hsome := congrArg (fun r => r.map Prod.fst) hfind
      simpa using hsome
    -- the names are different
    have hxmem := List.mem_of_find?_eq_some hx
    rw [hes, List.map_append, List.map_cons] at hdistinct
    refine (List.nodup_append.mp hdistinct).2.2 x.name (List.mem_map_of_mem hxmem) e.name
      List.mem_cons_self (pair_inj hpair)
  · intro hnone
    have hfind : before.find? (fun e' => Hides e.name e') = none :=
      List.find?_eq_none.mpr fun e' he' => by simpa using hnone e' he'
    rw [hfind]
    rfl

/-- `at=1`, and `a=2`, whose name has the same hash. -/
def twoSettings : List Setting :=
  [⟨[97, 116], [49], by decide, by decide, by decide, by decide⟩,
    ⟨[97], [50], by decide, by decide, by decide, by decide⟩]

/-- A flash memory of one megabyte with the settings in the last block but one. -/
def flash : Memory := fun a => (image 0 0 0 twoSettings).getD (a - 0xBD0F0000).toNat 0

def booted : Nvram := ⟨1, none, fun _ => []⟩

theorem flash_topmost : Topmost flash (lastBlock (sizeOf booted.flash_size)) 0xBD0F0000 1 where
  above := by decide
  below := by decide
  magic := by decide +kernel
  others := by decide +kernel

theorem nvram_round_trip_two :
    ∃ t, nvramInit flash booted = some (OK, t) ∧
      (∀ mem' name, NULLCH ∉ name → EQUALS ∉ name → name.length ≤ NVRAM_STRMAX →
        nvramGet mem' name t =
          some ((twoSettings.find? fun e => Hides name e).map (⟨·.pair, name.length + 1⟩), t)) ∧
      ∀ mem' before e after, twoSettings = before ++ e :: after →
        (nvramGet mem' e.name t = some (some ⟨e.pair, e.name.length + 1⟩, t) ↔
          ∀ e' ∈ before, ¬Hides e.name e') ∧
        (⟨e.pair, e.name.length + 1⟩ : Pointer).text = some e.value :=
  nvram_round_trip flash booted 0xBD0F0000 0 0 0 1 twoSettings nofun flash_topmost
    (by decide +kernel) (by decide +kernel) (by decide)

/-- The first setting hides the second. -/
example : (nvramGet flash [97] booted).map Prod.fst = some (some ⟨[97, 116, 61, 49], 2⟩) := by
  decide +kernel

end Xinu.Flash
