import XinuCMips.Lib.Codec
import XinuCMips.Lib.Terminated
import XinuCMips.Libxc.Strings
import Mathlib.Algebra.BigOperators.Fin
import Mathlib.Data.List.Find

/-!
# Settings in flash memory: `nvram.c`

A block of the flash memory holds a header and `name=value` strings. `nvramInit` finds the
block and enters the strings in a hash table, `nvramGet` looks a name up and returns a
pointer to what stands behind the name and one character more, and `xsh_nvram list`
prints the table.

* `pairsAt`      — the strings of a block, as they stand one after another;
* `readPairs_eq` — the loop of `nvramInit` reads them, unless its offset wraps around;
* `Loaded`       — the table, bucket by bucket, and the length in the header;
* `nvram_serves` — **what lookups and the list return** from then on.
-/

namespace Xinu.Flash

open Bytes Terminated
open CChars (NULLCH)
open Libxc (strncmp strncmp_eq_zero)

def FLASH_BASE : UInt32 := 0xBD000000
def NVRAM_MAGIC : UInt32 := 0x48534C46
def NVRAM_SIZE : UInt32 := 0x8000
def NVRAM_NHASH : Nat := 256
def NVRAM_STRMAX : Nat := 1024
def EQUALS : UInt8 := 61

def OK : Int := 1
def SYSERR : Int := -1

/-- What is in the memory of the machine. -/
abbrev Memory := UInt32 → UInt8

/-- The `n` bytes from `a` on. -/
def bytesAt (mem : Memory) (a : UInt32) (n : Nat) : List UInt8 :=
  (List.range n).map fun i => mem (a + UInt32.ofNat i)

def wordAt (mem : Memory) (a : UInt32) : UInt32 := UInt32.ofNat (ofLe (bytesAt mem a 4))

/-- `struct nvram_header`. -/
structure Header where
  magic : UInt32
  length : UInt32
  crc_ver_init : UInt32
  config_refresh : UInt32
  config_ncdl : UInt32
  deriving DecidableEq

/-- `sizeof(struct nvram_header)`. -/
def headerSize : UInt32 := 20

def headerAt (mem : Memory) (a : UInt32) : Header :=
  ⟨wordAt mem a, wordAt mem (a + 4), wordAt mem (a + 8), wordAt mem (a + 12), wordAt mem (a + 16)⟩

/-- The global variables. A tuple is the string that it holds. -/
structure Nvram where
  flash_size : Int32
  nvram_header : Option Header
  nvram_tuples : Fin NVRAM_NHASH → List (List UInt8)

/-- `strnlen`. -/
def strnlen (mem : Memory) (s : UInt32) : Nat → Nat
  | 0 => 0
  | len + 1 => if mem s = NULLCH then 0 else strnlen mem (s + 1) len + 1

/-- The loop of `nvramHash`; characters are signed. -/
def hashLoop (sum : UInt32) : List UInt8 → UInt32
  | [] => sum
  | ch :: p => if ch = EQUALS then sum else hashLoop (13 * sum + ch.toInt8.toInt32.toUInt32) p

def nvramHash (p : List UInt8) : Fin NVRAM_NHASH :=
  ⟨(hashLoop 0 p).toNat % NVRAM_NHASH, Nat.mod_lt _ (by decide)⟩

/-- `nvramInsert`: to the end of the list of its bucket. The header counts its length. -/
def nvramInsert (tuple : List UInt8) (s : Nvram) : Nvram :=
  let i := nvramHash tuple
  { s with
    nvram_tuples := Function.update s.nvram_tuples i (s.nvram_tuples i ++ [tuple])
    nvram_header := s.nvram_header.map fun h =>
      { h with length := h.length + UInt32.ofNat (min tuple.length NVRAM_STRMAX + 1) } }

/-- The scan for the magic number, from `nvbase` down. -/
def scan (mem : Memory) : Nat → UInt32 → UInt32
  | 0, nvbase => nvbase
  | n + 1, nvbase =>
    if FLASH_BASE < nvbase then
      if NVRAM_MAGIC = wordAt mem nvbase then nvbase else scan mem n (nvbase - NVRAM_SIZE)
    else nvbase

/-- So many rounds suffice. -/
def scanRounds (nvbase : UInt32) : Nat := nvbase.toNat / NVRAM_SIZE.toNat

/-- The loop over the strings of the block, each of which is inserted. It goes on for ever
when the offset wraps around to one that it has had. -/
def readPairs (mem : Memory) (nvbase nvram_length : UInt32) :
    Nat → UInt32 → Nvram → Option Nvram
  | 0, offset, s => if offset < nvram_length then none else some s
  | n + 1, offset, s =>
    if offset < nvram_length then
      let pair := nvbase + offset
      let pair_len := strnlen mem pair (nvram_length - offset).toNat
      let offset := offset + UInt32.ofNat pair_len + 1
      if pair_len = 0 then readPairs mem nvbase nvram_length n offset s
      else
        readPairs mem nvbase nvram_length n offset (nvramInsert (bytesAt mem pair pair_len) s)
    else some s

/-- The size in bytes; the boot loader passes it in megabytes. -/
def sizeOf (size : Int32) : Int32 := if size < 1024 then size <<< 20 else size

/-- Where the block is looked for first. -/
def lastBlock (size : Int32) : UInt32 := FLASH_BASE + size.toUInt32 - NVRAM_SIZE

def findBlock (mem : Memory) (size : Int32) : UInt32 :=
  scan mem (scanRounds (lastBlock size)) (lastBlock size)

def nvramInit (mem : Memory) (s : Nvram) : Option (Int × Nvram) :=
  if s.nvram_header.any fun h => h.magic = NVRAM_MAGIC then some (OK, s)
  else
    let s := { s with flash_size := sizeOf s.flash_size, nvram_tuples := fun _ => [] }
    let nvbase := findBlock mem s.flash_size
    let header := headerAt mem nvbase
    if header.magic ≠ NVRAM_MAGIC then some (SYSERR, { s with nvram_header := some header })
    else
      let s := { s with nvram_header := some { header with length := headerSize } }
      (readPairs mem nvbase header.length header.length.toNat headerSize s).map fun s => (OK, s)

/-- A pointer into a tuple. -/
structure Pointer where
  pair : List UInt8
  offset : Nat
  deriving DecidableEq

/-- The string it points to, if it points into the tuple. -/
def Pointer.text (p : Pointer) : Option (List UInt8) :=
  if p.offset ≤ p.pair.length then some (p.pair.drop p.offset) else none

/-- `strncmp(name, tuple->pair, strnlen(name, NVRAM_STRMAX)) == 0`. -/
def matchesName (name pair : List UInt8) : Bool :=
  strncmp name pair (min name.length NVRAM_STRMAX) = 0

def nvramGet (mem : Memory) (name : List UInt8) (s : Nvram) : Option (Option Pointer × Nvram) :=
  (nvramInit mem s).map fun r =>
    if r.1 = OK then
      (((r.2.nvram_tuples (nvramHash name)).find? (matchesName name)).map fun pair =>
        ⟨pair, min name.length NVRAM_STRMAX + 1⟩, r.2)
    else (none, r.2)

/-- What `xsh_nvram list` prints: the pairs, their number and the length. -/
structure Listing where
  lines : List (List UInt8)
  count : UInt16
  length : UInt32

/-- `xsh_nvram list`, with nothing where the device has no nvram. -/
def xsh_nvram (mem : Memory) (s : Nvram) : Option (Option Listing × Nvram) :=
  (nvramInit mem s).map fun r =>
    if r.1 = SYSERR then (none, r.2)
    else
      let lines := (List.finRange NVRAM_NHASH).flatMap r.2.nvram_tuples
      (some ⟨lines, UInt16.ofNat lines.length, (r.2.nvram_header.map Header.length).getD 0⟩, r.2)

variable {mem : Memory} {a nvbase : UInt32} {s t : Nvram} {n : Nat}

-- ---------------------------------------------------------------------------
-- Bytes of the memory
-- ---------------------------------------------------------------------------

@[simp] theorem length_bytesAt : (bytesAt mem a n).length = n := by simp [bytesAt]

theorem bytesAt_succ (mem : Memory) (a : UInt32) (n : Nat) :
    bytesAt mem a (n + 1) = mem a :: bytesAt mem (a + 1) n := by
  unfold bytesAt
  rw [List.range_succ_eq_map, List.map_cons, List.map_map]
  refine congrArg₂ _ (congrArg mem (UInt32.add_zero a)) (List.map_congr_left fun i _ => ?_)
  have hsucc : UInt32.ofNat (i + 1) = 1 + UInt32.ofNat i := by
    rw [UInt32.ofNat_add, UInt32.add_comm]
    rfl
  show mem (a + UInt32.ofNat (i + 1)) = mem (a + 1 + UInt32.ofNat i)
  rw [hsucc, UInt32.add_assoc]

theorem bytesAt_add (mem : Memory) (a : UInt32) (m n : Nat) :
    bytesAt mem a (m + n) = bytesAt mem a m ++ bytesAt mem (a + UInt32.ofNat m) n := by
  induction m generalizing a with
  | zero =>
    rw [Nat.zero_add]
    exact congrArg (bytesAt mem · n) (UInt32.add_zero a).symm
  | succ m ih =>
    have hsucc : a + 1 + UInt32.ofNat m = a + UInt32.ofNat (m + 1) := by
      rw [UInt32.ofNat_add, UInt32.add_assoc, UInt32.add_comm 1]
      rfl
    rw [Nat.succ_add, bytesAt_succ, bytesAt_succ, ih, hsucc, List.cons_append]

/-- The characters in front of the first null character, or all of them. -/
theorem strnlen_spec (mem : Memory) (a : UInt32) (n : Nat) : strnlen mem a n ≤ n ∧
    NULLCH ∉ bytesAt mem a (strnlen mem a n) ∧
      (strnlen mem a n < n → mem (a + UInt32.ofNat (strnlen mem a n)) = NULLCH) := by
  induction n generalizing a with
  | zero => exact ⟨le_rfl, List.not_mem_nil, nofun⟩
  | succ n ih =>
    unfold strnlen
    by_cases hnull : mem a = NULLCH
    · rw [if_pos hnull]
      refine ⟨Nat.zero_le _, List.not_mem_nil, fun _ => ?_⟩
      exact (congrArg mem (UInt32.add_zero a)).trans hnull
    · rw [if_neg hnull]
      obtain ⟨hle, hnot, hend⟩ := ih (a + 1)
      refine ⟨Nat.succ_le_succ hle, ?_, fun hlt => ?_⟩
      · rw [bytesAt_succ, List.mem_cons]
        exact not_or.mpr ⟨Ne.symm hnull, hnot⟩
      · have hsucc : a + UInt32.ofNat (strnlen mem (a + 1) n + 1) =
            a + 1 + UInt32.ofNat (strnlen mem (a + 1) n) := by
          rw [UInt32.ofNat_add, UInt32.add_assoc, UInt32.add_comm 1]
          rfl
        rw [hsucc]
        exact hend (Nat.lt_of_succ_lt_succ hlt)

/-- The strings of the block, from `a` on. -/
def pairsAt (mem : Memory) (a : UInt32) (n : Nat) : List (List UInt8) :=
  pieces NULLCH (bytesAt mem a n)

/-- The first string of the block, and those behind it. -/
theorem pairsAt_strnlen (mem : Memory) (a : UInt32) (n : Nat) :
    let k := strnlen mem a n
    let rest := pairsAt mem (a + UInt32.ofNat (k + 1)) (n - (k + 1))
    pairsAt mem a n = if k = 0 then rest else bytesAt mem a k :: rest := by
  obtain ⟨hle, hnot, hend⟩ := strnlen_spec mem a n
  dsimp only
  generalize strnlen mem a n = k at hle hnot hend ⊢
  have hnil : bytesAt mem a k = [] ↔ k = 0 := by
    rw [← List.length_eq_zero_iff, length_bytesAt]
  unfold pairsAt
  rcases Nat.lt_or_ge k n with hlt | hge
  · have hsplit : bytesAt mem a n = bytesAt mem a k ++
        NULLCH :: bytesAt mem (a + UInt32.ofNat (k + 1)) (n - (k + 1)) := by
      have hsum : n = k + (n - (k + 1) + 1) := by omega
      have hsucc : a + UInt32.ofNat k + 1 = a + UInt32.ofNat (k + 1) := by
        rw [UInt32.ofNat_add, UInt32.add_assoc]
        rfl
      conv_lhs => rw [hsum]
      rw [bytesAt_add, bytesAt_succ, hend hlt, hsucc]
    rw [hsplit, pieces_cons hnot]
    exact if_congr hnil rfl rfl
  · -- the block ends in the string
    obtain rfl := Nat.le_antisymm hle hge
    have hzero : k - (k + 1) = 0 := by omega
    rw [pieces_last hnot, hzero]
    exact if_congr hnil rfl rfl

-- ---------------------------------------------------------------------------
-- The loop
-- ---------------------------------------------------------------------------

/-- **The loop reads the strings of the block**, unless the offset wraps around. -/
theorem readPairs_eq (mem : Memory) (nvbase : UInt32) {nvram_length : UInt32}
    (hlen : nvram_length.toNat < 2 ^ 32 - 1) (n : Nat) : ∀ (o : Nat) (s : Nvram),
    o < 2 ^ 32 → nvram_length.toNat - o ≤ n →
    readPairs mem nvbase nvram_length n (UInt32.ofNat o) s =
      some ((pairsAt mem (nvbase + UInt32.ofNat o) (nvram_length.toNat - o)).foldl
        (fun s pair => nvramInsert pair s) s) := by
  have hlt : ∀ o, o < 2 ^ 32 → (UInt32.ofNat o < nvram_length ↔ o < nvram_length.toNat) := by
    intro o ho
    rw [UInt32.lt_iff_toNat_lt, UInt32.toNat_ofNat_of_lt' ho]
  have hdone : ∀ o (s : Nvram), nvram_length.toNat ≤ o → some s =
      some ((pairsAt mem (nvbase + UInt32.ofNat o) (nvram_length.toNat - o)).foldl
        (fun s pair => nvramInsert pair s) s) := by
    intro o s ho
    rw [Nat.sub_eq_zero_of_le ho]
    rfl
  induction n with
  | zero =>
    intro o s ho hn
    unfold readPairs
    rw [if_neg (by rw [hlt o ho]; omega)]
    exact hdone o s (by omega)
  | succ n ih =>
    intro o s ho hn
    unfold readPairs
    by_cases hin : o < nvram_length.toNat
    · rw [if_pos ((hlt o ho).mpr hin)]
      have hsub : (nvram_length - UInt32.ofNat o).toNat = nvram_length.toNat - o := by
        rw [UInt32.toNat_sub_of_le _ _ (UInt32.le_iff_toNat_le.mpr ?_),
          UInt32.toNat_ofNat_of_lt' ho]
        rw [UInt32.toNat_ofNat_of_lt' ho]
        exact hin.le
      have hstep := pairsAt_strnlen mem (nvbase + UInt32.ofNat o) (nvram_length.toNat - o)
      have hle := (strnlen_spec mem (nvbase + UInt32.ofNat o) (nvram_length.toNat - o)).1
      dsimp only at hstep ⊢
      rw [hsub]
      generalize strnlen mem (nvbase + UInt32.ofNat o) (nvram_length.toNat - o) = k at hstep hle ⊢
      have hnext : UInt32.ofNat o + UInt32.ofNat k + 1 = UInt32.ofNat (o + (k + 1)) := by
        rw [UInt32.ofNat_add, UInt32.ofNat_add, UInt32.add_assoc]
        rfl
      have hbase : nvbase + UInt32.ofNat o + UInt32.ofNat (k + 1) =
          nvbase + UInt32.ofNat (o + (k + 1)) := by
        rw [UInt32.ofNat_add o, UInt32.add_assoc]
      have hrest := fun s => ih (o + (k + 1)) s (by omega) (by omega)
      rw [hnext, hstep, hbase, Nat.sub_sub]
      by_cases hzero : k = 0
      · rw [if_pos hzero, if_pos hzero]
        exact hrest s
      · rw [if_neg hzero, if_neg hzero, List.foldl_cons]
        exact hrest _
    · rw [if_neg (fun h => hin ((hlt o ho).mp h))]
      exact hdone o s (not_lt.mp hin)

-- ---------------------------------------------------------------------------
-- The table
-- ---------------------------------------------------------------------------

/-- What the header counts for the strings. -/
def counted (pairs : List (List UInt8)) : Nat :=
  (pairs.map fun pair => min pair.length NVRAM_STRMAX + 1).sum

/-- The strings go to the ends of their buckets, in their order. -/
theorem foldl_insert (pairs : List (List UInt8)) (s : Nvram) :
    let t := pairs.foldl (fun s pair => nvramInsert pair s) s
    t.flash_size = s.flash_size ∧
      (∀ i, t.nvram_tuples i = s.nvram_tuples i ++ pairs.filter fun pair => nvramHash pair = i) ∧
      t.nvram_header = s.nvram_header.map fun h =>
        { h with length := h.length + UInt32.ofNat (counted pairs) } := by
  induction pairs generalizing s with
  | nil =>
    refine ⟨rfl, fun i => (List.append_nil _).symm, ?_⟩
    cases hh : s.nvram_header with
    | none => exact hh
    | some h => exact hh.trans (congrArg some (congrArg (fun x => { h with length := x })
        (UInt32.add_zero h.length).symm))
  | cons pair pairs ih =>
    obtain ⟨hsize, htuples, hheader⟩ := ih (nvramInsert pair s)
    refine ⟨hsize, fun i => ?_, ?_⟩
    · rw [List.foldl_cons, htuples i]
      unfold nvramInsert
      dsimp only
      by_cases hi : nvramHash pair = i
      · obtain rfl := hi
        rw [Function.update_self, List.filter_cons_of_pos (by simp), List.append_assoc]
        rfl
      · rw [Function.update_of_ne (Ne.symm hi), List.filter_cons_of_neg (by simpa using hi)]
    · rw [List.foldl_cons, hheader]
      unfold nvramInsert
      dsimp only
      rw [Option.map_map]
      refine congrArg (fun f => Option.map f s.nvram_header) (funext fun h => ?_)
      have hsum : counted (pair :: pairs) = min pair.length NVRAM_STRMAX + 1 + counted pairs := rfl
      show ({ h with length := _ } : Header) = { h with length := _ }
      rw [hsum, UInt32.ofNat_add (min pair.length NVRAM_STRMAX + 1), ← UInt32.add_assoc]

/-- The table holds the strings. -/
structure Loaded (pairs : List (List UInt8)) (h : Header) (t : Nvram) : Prop where
  tuples : ∀ i, t.nvram_tuples i = pairs.filter fun pair => nvramHash pair = i
  header : t.nvram_header = some { h with length := headerSize + UInt32.ofNat (counted pairs) }
  magic : h.magic = NVRAM_MAGIC

/-- Not initialised yet. -/
def Nvram.fresh (s : Nvram) : Prop := ∀ h ∈ s.nvram_header, h.magic ≠ NVRAM_MAGIC

/-- **The table is loaded** from the block that is found. -/
theorem nvramInit_loads (hs : s.fresh)
    (hmagic : (headerAt mem (findBlock mem (sizeOf s.flash_size))).magic = NVRAM_MAGIC)
    (hlen : (headerAt mem (findBlock mem (sizeOf s.flash_size))).length.toNat < 2 ^ 32 - 1) :
    let nvbase := findBlock mem (sizeOf s.flash_size)
    let h := headerAt mem nvbase
    ∃ t, nvramInit mem s = some (OK, t) ∧
      Loaded (pairsAt mem (nvbase + headerSize) (h.length.toNat - headerSize.toNat)) h t := by
  intro nvbase h
  have hfresh : ¬(s.nvram_header.any fun h => decide (h.magic = NVRAM_MAGIC)) = true := by
    intro hany
    obtain ⟨g, hg, hm⟩ := (Option.any_eq_true _ _).mp hany
    exact hs g hg (of_decide_eq_true hm)
  unfold nvramInit
  rw [if_neg hfresh]
  dsimp only
  rw [if_neg (not_not.mpr hmagic)]
  have hread := readPairs_eq mem nvbase hlen h.length.toNat headerSize.toNat
    ⟨sizeOf s.flash_size, some { h with length := headerSize }, fun _ => []⟩ (by decide)
    (Nat.sub_le _ _)
  have hsize : UInt32.ofNat headerSize.toNat = headerSize := UInt32.ofNat_toNat
  rw [hsize] at hread
  obtain ⟨-, htuples, hheader⟩ := foldl_insert
    (pairsAt mem (nvbase + headerSize) (h.length.toNat - headerSize.toNat))
    ⟨sizeOf s.flash_size, some { h with length := headerSize }, fun _ => []⟩
  exact ⟨_, congrArg (Option.map fun s => (OK, s)) hread, htuples, hheader, hmagic⟩

variable {pairs : List (List UInt8)} {h : Header} {name : List UInt8}

/-- **It is loaded once**: whatever the flash memory holds later, the table stays. -/
theorem Loaded.again (hl : Loaded pairs h t) (mem : Memory) : nvramInit mem t = some (OK, t) := by
  unfold nvramInit
  rw [hl.header]
  exact if_pos (decide_eq_true hl.magic)

/-- A name stands in front of a string. -/
def InFront (name pair : List UInt8) : Prop := name.take NVRAM_STRMAX <+: pair

instance (name pair : List UInt8) : Decidable (InFront name pair) :=
  inferInstanceAs (Decidable (_ <+: _))

theorem matchesName_iff {pair : List UInt8} (hname : NULLCH ∉ name) (hpair : NULLCH ∉ pair) :
    matchesName name pair = true ↔ InFront name pair := by
  unfold matchesName InFront
  rw [decide_eq_true_iff, strncmp_eq_zero hname hpair (Nat.min_le_left _ _), Nat.min_comm,
    ← List.take_eq_take_min]

/-- The string that is looked for: the first with the hash of the name that has the name in
front. -/
def lookup (pairs : List (List UInt8)) (name : List UInt8) : Option (List UInt8) :=
  pairs.find? fun pair => nvramHash pair = nvramHash name ∧ InFront name pair

/-- **What a lookup returns.** -/
theorem Loaded.get (hl : Loaded pairs h t) (hpairs : ∀ pair ∈ pairs, NULLCH ∉ pair)
    (hname : NULLCH ∉ name) (mem : Memory) : nvramGet mem name t =
      some ((lookup pairs name).map (⟨·, min name.length NVRAM_STRMAX + 1⟩), t) := by
  unfold nvramGet
  rw [hl.again mem, Option.map_some]
  dsimp only
  rw [if_pos rfl, hl.tuples, List.find?_filter]
  refine congrArg some (congrArg (·, t) (congrArg (Option.map _) ?_))
  refine List.find?_congr fun pair hpair => ?_
  have hiff := matchesName_iff hname (hpairs pair hpair)
  rw [Bool.eq_iff_iff, decide_eq_true_iff, decide_eq_true_iff, decide_eq_true_iff, hiff]

/-- **The list has every string once.** -/
theorem Loaded.listed (hl : Loaded pairs h t) :
    ((List.finRange NVRAM_NHASH).flatMap t.nvram_tuples).Perm pairs := by
  have htuples : t.nvram_tuples = fun i => pairs.filter fun pair => nvramHash pair = i :=
    funext hl.tuples
  rw [htuples, List.perm_iff_count]
  intro pair
  rw [List.count_flatMap]
  have hone : ((List.finRange NVRAM_NHASH).map (List.count pair ∘ fun i =>
      pairs.filter fun pair => nvramHash pair = i)) = (List.finRange NVRAM_NHASH).map fun i =>
        if nvramHash pair = i then pairs.count pair else 0 := by
    refine List.map_congr_left fun i _ => ?_
    by_cases hi : nvramHash pair = i
    · rw [if_pos hi]
      exact List.count_filter (by simpa using hi)
    · rw [if_neg hi]
      exact List.count_eq_zero.mpr fun hmem => hi (by simpa using (List.mem_filter.mp hmem).2)
  rw [hone, ← Fin.sum_univ_def, Finset.sum_ite_eq]
  exact if_pos (Finset.mem_univ _)

-- ---------------------------------------------------------------------------
-- The block
-- ---------------------------------------------------------------------------

/-- A string of the block has no null character. -/
theorem null_notMem_pairsAt {pair : List UInt8} : ∀ (n : Nat) (a : UInt32), pair ∈ pairsAt mem a n →
    NULLCH ∉ pair := by
  intro n
  induction n using Nat.strongRecOn with
  | _ n ih =>
    intro a hpair
    rcases Nat.eq_zero_or_pos n with rfl | hpos
    · cases hpair
    have hstep := pairsAt_strnlen mem a n
    have hnot := (strnlen_spec mem a n).2.1
    dsimp only at hstep
    generalize strnlen mem a n = k at hstep hnot
    have hrest := ih (n - (k + 1)) (by omega) (a + UInt32.ofNat (k + 1))
    rw [hstep] at hpair
    by_cases hzero : k = 0
    · rw [if_pos hzero] at hpair
      exact hrest hpair
    · rw [if_neg hzero] at hpair
      rcases List.mem_cons.mp hpair with rfl | hpair
      · exact hnot
      · exact hrest hpair

/-- **The settings in flash memory**: from the block that is found, the table is loaded with
the strings of the block, each once; from then on every lookup, whatever is in the flash
memory, returns the first string with the hash of the name that has the name in front,
and the table is not loaded again. -/
theorem nvram_serves (mem : Memory) (s : Nvram) (hs : s.fresh)
    (hmagic : (headerAt mem (findBlock mem (sizeOf s.flash_size))).magic = NVRAM_MAGIC)
    (hlen : (headerAt mem (findBlock mem (sizeOf s.flash_size))).length.toNat < 2 ^ 32 - 1) :
    let nvbase := findBlock mem (sizeOf s.flash_size)
    let pairs := pairsAt mem (nvbase + headerSize)
      ((headerAt mem nvbase).length.toNat - headerSize.toNat)
    ∃ t, nvramInit mem s = some (OK, t) ∧
      (∀ mem', ∃ l, xsh_nvram mem' t = some (some l, t) ∧ l.lines.Perm pairs ∧
        l.count = UInt16.ofNat pairs.length ∧
        l.length = headerSize + UInt32.ofNat (counted pairs)) ∧
      ∀ mem' name, NULLCH ∉ name → nvramGet mem' name t =
        some ((lookup pairs name).map (⟨·, min name.length NVRAM_STRMAX + 1⟩), t) := by
  obtain ⟨t, hinit, hloaded⟩ := nvramInit_loads hs hmagic hlen
  obtain ⟨lines, hlines⟩ : ∃ lines, lines = (List.finRange NVRAM_NHASH).flatMap t.nvram_tuples :=
    ⟨_, rfl⟩
  have hperm : lines.Perm _ := hlines ▸ hloaded.listed
  refine ⟨t, hinit, fun mem' => ⟨⟨lines, UInt16.ofNat lines.length,
    (t.nvram_header.map Header.length).getD 0⟩, ?_, hperm, ?_, ?_⟩, fun mem' name hname => ?_⟩
  · unfold xsh_nvram
    rw [hloaded.again mem', hlines]
    rfl
  · rw [hperm.length_eq]
  · rw [hloaded.header]
    rfl
  · exact hloaded.get (fun pair hpair => null_notMem_pairsAt _ _ hpair) hname mem'

/-- A flash memory of one megabyte whose last block is empty. -/
def bare : Memory := fun a =>
  ([0x46, 0x4C, 0x53, 0x48, 20] : List UInt8).getD (a - 0xBD0F8000).toNat 0

theorem nvram_serves_bare :
    let nvbase := findBlock bare (sizeOf 1)
    let pairs := pairsAt bare (nvbase + headerSize)
      ((headerAt bare nvbase).length.toNat - headerSize.toNat)
    ∃ t, nvramInit bare ⟨1, none, fun _ => []⟩ = some (OK, t) ∧
      (∀ mem', ∃ l, xsh_nvram mem' t = some (some l, t) ∧ l.lines.Perm pairs ∧
        l.count = UInt16.ofNat pairs.length ∧
        l.length = headerSize + UInt32.ofNat (counted pairs)) ∧
      ∀ mem' name, NULLCH ∉ name → nvramGet mem' name t =
        some ((lookup pairs name).map (⟨·, min name.length NVRAM_STRMAX + 1⟩), t) :=
  nvram_serves bare ⟨1, none, fun _ => []⟩ nofun (by decide +kernel) (by decide +kernel)

end Xinu.Flash
