import XinuCMips.Lfs.Formatted

/-!
# Checking the format of a disk

`lfsckfmt` reads the directory of a disk that `lfscreate` has formatted, and
follows and counts the two lists of free blocks.

* `lfscreate_loops`  — the loops of `lfscreate` end, for all arguments;
* `Blank.lfsckfmt`   — `lfsckfmt` counts the blocks of a formatted disk;
* `formats_iff`      — **formatting is refused or leaves a well-formed disk
  exactly if index blocks are asked for, and the disk has not two sectors with
  one of them for index blocks**.
-/

namespace Xinu.Lfs

open Bytes Follow

/-! ## The loops of the formatter -/

/-- `for (i=0; i<lfiblks-1; i++)`, from `i` on, a comparison of signed words,
for a number of turns at most. -/
def iblockLoop (lfiblks : Int) : Nat → Nat → Disk → Option (Nat × Disk)
  | 0, _, _ => none
  | turns + 1, i, disk =>
    if (i : Int) < lfiblks - 1 then
      iblockLoop lfiblks turns (i + 1)
        (lfibput disk i { lfibclear 0 with ibNext := some (i + 1) })
    else some (i, disk)

/-- `for (i=0; i<dblks-1; i++)`, a comparison of unsigned words. -/
def dblockLoop (dblks : Nat) : Nat → Nat → Nat → Disk → Option (Nat × Disk)
  | 0, _, _, _ => none
  | turns + 1, i, dbindex, disk =>
    if i < (((dblks : Int) - 1) % 2 ^ 32).toNat then
      dblockLoop dblks turns (i + 1) ((dbindex + 1) % 2 ^ 32) (disk.write dbindex
        (Lfdbfree.layout.enc
          ⟨some ((dbindex + 1) % 2 ^ 32), List.replicate (LF_BLKSIZ - 4) 0⟩))
    else some (dbindex, disk)

/-- `lfscreate` with its loops cut short after a number of turns. -/
def lfscreateWithin (turns : Nat) (disk : Disk) (lfiblks : Int) (dsiz : Nat) :
    Option (Option Disk) :=
  let sectors := dsiz / LF_BLKSIZ
  let ibsectors := ibSectors lfiblks
  let lfiblks := ibsectors * (LF_BLKSIZ / Lfiblk.layout.width)
  if sectors / 2 < ibsectors then some none
  else do
    let dbindex := ibsectors + 1
    let dblks := (((sectors : Int) - ibsectors - 1) % 2 ^ 32).toNat
    let dir := { zeroDir with lfdDfree := some dbindex }
    let disk := disk.write LF_AREA_DIR (Lfdir.layout.enc dir)
    let (i, disk) ← iblockLoop lfiblks turns 0 disk
    let disk := lfibput disk i (lfibclear 0)
    let (dbindex, disk) ← dblockLoop dblks turns 0 dbindex disk
    some (some (disk.write dbindex
      (Lfdbfree.layout.enc ⟨none, List.replicate (LF_BLKSIZ - 4) 0⟩)))

/-- **The first loop** threads what is left of the index blocks. -/
theorem iblockLoop_eq (n : Nat) (d : Disk) : ∀ (turns i : Nat), i ≤ n - 1 → n - 1 - i < turns →
    iblockLoop n turns i (threadIblocks i d) = some (n - 1, threadIblocks (n - 1) d) := by
  intro turns
  induction turns with
  | zero => exact fun _ _ h => absurd h (Nat.not_lt_zero _)
  | succ turns ih =>
    intro i hi ht
    unfold iblockLoop
    by_cases hlt : (i : Int) < n - 1
    · rw [if_pos hlt]
      exact ih (i + 1) (by omega) (by omega)
    · obtain rfl : i = n - 1 := by omega
      rw [if_neg hlt]

/-- **The second loop** threads what is left of the data blocks. -/
theorem dblockLoop_eq {dblks n : Nat} (hn : (((dblks : Int) - 1) % 2 ^ 32).toNat = n)
    (dbindex : Nat) (d : Disk) : ∀ (turns i : Nat), i ≤ n → n - i < turns →
    dblockLoop dblks turns i ((dbindex + i) % 2 ^ 32) (threadDblocks dbindex i d) =
      some ((dbindex + n) % 2 ^ 32, threadDblocks dbindex n d) := by
  intro turns
  induction turns with
  | zero => exact fun _ _ h => absurd h (Nat.not_lt_zero _)
  | succ turns ih =>
    intro i hi ht
    unfold dblockLoop
    rw [hn]
    by_cases hlt : i < n
    · have hnext : ((dbindex + i) % 2 ^ 32 + 1) % 2 ^ 32 = (dbindex + (i + 1)) % 2 ^ 32 := by
        omega
      rw [if_pos hlt, hnext]
      exact ih (i + 1) hlt (by omega)
    · obtain rfl : i = n := by omega
      rw [if_neg hlt]

theorem ibSectors_lt (lfiblks : Int) : ibSectors lfiblks < 2 ^ 30 := by
  show ((lfiblks + 6) % 2 ^ 32).toNat / 7 < 2 ^ 30
  omega

/-- **The loops of `lfscreate` end**, for all arguments. -/
theorem lfscreate_loops (disk : Disk) (lfiblks : Int) (dsiz : Nat) :
    ∃ turns, lfscreateWithin turns disk lfiblks dsiz = some (lfscreate disk lfiblks dsiz) := by
  set nib := ibSectors lfiblks * (LF_BLKSIZ / Lfiblk.layout.width) with hnib
  set dblks := ((((dsiz / LF_BLKSIZ : Nat) : Int) - ibSectors lfiblks - 1) % 2 ^ 32).toNat
    with hdblks
  set n := (((dblks : Int) - 1) % 2 ^ 32).toNat with hn
  -- the longer loop ends in that many turns
  refine ⟨nib + n + 1, ?_⟩
  have hfirst := fun d => iblockLoop_eq nib d (nib + n + 1) 0 (Nat.zero_le _) (by omega)
  have hsecond := fun d => dblockLoop_eq hn.symm (ibSectors lfiblks + 1) d (nib + n + 1) 0
    (Nat.zero_le _) (by omega)
  have hstart : (ibSectors lfiblks + 1 + 0) % 2 ^ 32 = ibSectors lfiblks + 1 := by
    have := ibSectors_lt lfiblks
    omega
  rw [hstart] at hsecond
  unfold lfscreateWithin lfscreate
  dsimp only
  by_cases hfew : dsiz / LF_BLKSIZ / 2 < ibSectors lfiblks
  · rw [if_pos hfew, if_pos hfew]
  · rw [if_neg hfew, if_neg hfew, ← hnib, ← hdblks, ← hn]
    rw [show ∀ d, iblockLoop nib (nib + n + 1) 0 d = _ from hfirst]
    simp only [Option.bind_eq_bind, Option.bind_some]
    rw [show ∀ d, dblockLoop dblks (nib + n + 1) 0 (ibSectors lfiblks + 1) d = _ from hsecond]
    rfl

/-! ## The checker -/

/-- What `lfsckfmt` prints: the first index block and the number of them, in
how many sectors, and the first data block and the number of them. -/
structure Found where
  nextib : Option Nat
  lfiblks : Nat
  ibsectors : Nat
  nextdb : Option Nat
  dblks : Nat
  deriving DecidableEq, Repr

/-- Check the format of an initially-created disk, with a number of turns for
each loop. -/
def lfsckfmt (turns : Nat) (disk : Disk) : Option Found := do
  -- read directory
  let dir := Lfdir.layout.dec (disk LF_AREA_DIR)
  -- follow index block list
  let lfiblks ← countFrom (nextI disk) turns dir.lfdIfree 0
  let ibsectors := (lfiblks + 6) / 7
  -- follow data block list
  let dblks ← countFrom (nextD disk) turns dir.lfdDfree 0
  some ⟨dir.lfdIfree, lfiblks, ibsectors, dir.lfdDfree, dblks⟩

/-- A disk with `ibsectors` sectors of index blocks and no files: the free
lists have all index blocks, and all sectors behind them. -/
structure WellFormed (ibsectors sectors : Nat) (d : Disk) : Prop where
  dir : ∃ ifree dfree, Lfdir.layout.dec (d LF_AREA_DIR) =
    { zeroDir with lfdIfree := ifree, lfdDfree := dfree }
  iblocks : ∃ l : List Nat, Follows (nextI d) (Lfdir.layout.dec (d LF_AREA_DIR)).lfdIfree l ∧
    l.Perm (List.range (7 * ibsectors))
  dblocks : ∃ l : List Nat, Follows (nextD d) (Lfdir.layout.dec (d LF_AREA_DIR)).lfdDfree l ∧
    l.Perm (List.range' (ibsectors + 1) (sectors - 1 - ibsectors))

/-- The free lists of a formatted disk. -/
theorem Blank.wellFormed {g : Geometry} {d : Disk} (h : Blank g d) :
    WellFormed g.ibsectors g.sectors d := by
  refine ⟨⟨some 0, some (g.ibsectors + 1), h.dir⟩, ⟨_, ?_, List.Perm.refl _⟩,
    ⟨_, ?_, List.Perm.refl _⟩⟩
  · rw [h.dir]
    exact h.iblocks
  · rw [h.dir]
    exact h.dblocks

/-- **The checker counts the blocks** of a well-formed disk. -/
theorem WellFormed.lfsckfmt {ibsectors sectors : Nat} {d : Disk}
    (h : WellFormed ibsectors sectors d) : ∃ turns nextib nextdb, lfsckfmt turns d =
      some ⟨nextib, 7 * ibsectors, ibsectors, nextdb, sectors - 1 - ibsectors⟩ := by
  obtain ⟨li, hi, hpi⟩ := h.iblocks
  obtain ⟨ld, hd, hpd⟩ := h.dblocks
  have hli := hpi.length_eq
  have hld := hpd.length_eq
  rw [List.length_range] at hli
  rw [List.length_range'] at hld
  refine ⟨li.length + ld.length, (Lfdir.layout.dec (d LF_AREA_DIR)).lfdIfree,
    (Lfdir.layout.dec (d LF_AREA_DIR)).lfdDfree, ?_⟩
  unfold Lfs.lfsckfmt
  dsimp only
  rw [hi.countFrom (Nat.le_add_right _ _), Nat.zero_add, hli, Option.bind_eq_bind,
    Option.bind_some, hd.countFrom (by omega), Nat.zero_add, hld, Option.bind_some, show (7 * ibsectors + 6) / 7 = ibsectors by omega]

/-! ## Which disks are well formed -/

/-- Sectors of `n` index blocks, seven in each. -/
def iareaSectors (n : Int) : Nat := ((n + 6) / 7).toNat

/-- What formatting is for: it ends, and if it is not refused then the disk is
well formed and the checker finds all its blocks. -/
def Formats (disk : Disk) (lfiblks : Int) (dsiz : Nat) : Prop :=
  (∃ turns, lfscreateWithin turns disk lfiblks dsiz = some (lfscreate disk lfiblks dsiz)) ∧
  ∀ d, lfscreate disk lfiblks dsiz = some d →
    WellFormed (iareaSectors lfiblks) (dsiz / LF_BLKSIZ) d ∧
    ∃ turns nextib nextdb, lfsckfmt turns d =
      some ⟨nextib, 7 * iareaSectors lfiblks, iareaSectors lfiblks, nextdb,
        dsiz / LF_BLKSIZ - 1 - iareaSectors lfiblks⟩

/-- What the second loop leaves in the sector of the directory, should it come
there: `dbindex` is zero then. -/
theorem threadDblocks_dir (dbindex n : Nat) (d : Disk) :
    threadDblocks dbindex n d LF_AREA_DIR = d LF_AREA_DIR ∨
      threadDblocks dbindex n d LF_AREA_DIR =
        Lfdbfree.layout.enc ⟨some 1, List.replicate (LF_BLKSIZ - 4) 0⟩ := by
  induction n with
  | zero => exact Or.inl rfl
  | succ n ih =>
    unfold threadDblocks
    by_cases hwrap : (dbindex + n) % 2 ^ 32 = LF_AREA_DIR
    · have hnext : (dbindex + n + 1) % 2 ^ 32 = 1 := by
        unfold LF_AREA_DIR at hwrap
        omega
      right
      rw [hwrap, write_self, hnext]
    · rw [write_of_ne (Ne.symm hwrap)]
      exact ih

/-- Index blocks lie behind the directory. -/
theorem lfibput_dir (d : Disk) (inum : Nat) (b : Lfiblk) :
    lfibput d inum b LF_AREA_DIR = d LF_AREA_DIR :=
  lfibput_of_ne (Nat.succ_ne_zero _).symm

theorem threadIblocks_dir (n : Nat) (d : Disk) :
    threadIblocks n d LF_AREA_DIR = d LF_AREA_DIR := by
  induction n with
  | zero => rfl
  | succ n ih =>
    unfold threadIblocks
    rw [lfibput_dir, ih]

/-- The sector of the directory behind all writes: the directory, unless the
loop has run past all sectors and on from the first one. -/
theorem lfscreate_dir {disk d : Disk} {lfiblks : Int} {dsiz : Nat}
    (hd : lfscreate disk lfiblks dsiz = some d) :
    d LF_AREA_DIR = Lfdir.layout.enc (initialDir (ibSectors lfiblks + 1)) ∨
      d LF_AREA_DIR = Lfdbfree.layout.enc ⟨some 1, List.replicate (LF_BLKSIZ - 4) 0⟩ ∨
      d LF_AREA_DIR = Lfdbfree.layout.enc ⟨none, List.replicate (LF_BLKSIZ - 4) 0⟩ ∧
        dsiz / LF_BLKSIZ % 2 ^ 32 = 1 := by
  unfold lfscreate at hd
  dsimp only at hd
  split at hd
  · cases hd
  obtain rfl := Option.some.inj hd
  set n := ((((((dsiz / LF_BLKSIZ : Nat) : Int) - ibSectors lfiblks - 1) % 2 ^ 32).toNat : Int)
    - 1) % 2 ^ 32 with hn
  by_cases hlast : (ibSectors lfiblks + 1 + n.toNat) % 2 ^ 32 = LF_AREA_DIR
  · right
    right
    refine ⟨?_, ?_⟩
    · rw [hlast, write_self]
    · unfold LF_AREA_DIR at hlast
      omega
  · rw [write_of_ne (Ne.symm hlast)]
    have hbefore : ∀ (m : Nat) (d : Disk), lfibput (threadIblocks m (d.write LF_AREA_DIR
        (Lfdir.layout.enc (initialDir (ibSectors lfiblks + 1))))) m (lfibclear 0) LF_AREA_DIR =
        Lfdir.layout.enc (initialDir (ibSectors lfiblks + 1)) := by
      intro m d
      rw [lfibput_dir, threadIblocks_dir, write_self]
    rcases threadDblocks_dir (ibSectors lfiblks + 1) n.toNat _ with h | h
    · left
      rw [h]
      exact hbefore _ disk
    · right
      left
      exact h

/-- Read as a directory, a data block that is all zeros but for its link. -/
theorem ifree_of_dblock (next : Option Nat) :
    (Lfdir.layout.dec (Lfdbfree.layout.enc
      ⟨next, List.replicate (LF_BLKSIZ - 4) 0⟩)).lfdIfree = some 0 :=
  rfl

theorem dfree_of_dblock :
    (Lfdir.layout.dec (Lfdbfree.layout.enc
      ⟨some 1, List.replicate (LF_BLKSIZ - 4) 0⟩)).lfdDfree = some 1 :=
  rfl

/-- A list of no blocks starts with the null pointer. -/
theorem head_eq_none {next : Nat → Option Nat} {head : Option Nat} {l : List Nat}
    (h : Follows next head l) (hl : l.Perm []) : head = none := by
  obtain rfl := hl.eq_nil
  exact h

section Arguments

variable {disk d : Disk} {lfiblks : Int} {dsiz : Nat}

/-- Without index blocks, their list in the directory is not empty. -/
theorem not_wellFormed_of_none (hib : ibSectors lfiblks = 0)
    (hd : lfscreate disk lfiblks dsiz = some d) (sectors : Nat) : ¬ WellFormed 0 sectors d := by
  rintro ⟨-, ⟨l, hl, hperm⟩, -⟩
  have hnone := head_eq_none hl hperm
  have hdir := @initialDir_ok (ibSectors lfiblks + 1) (by omega)
  rcases lfscreate_dir hd with h | h | ⟨h, -⟩
  · rw [h, Lfdir.layout.dec_enc hdir] at hnone
    cases hnone
  · rw [h, ifree_of_dblock] at hnone
    cases hnone
  · rw [h, ifree_of_dblock] at hnone
    cases hnone

/-- Without data blocks, their list in the directory is not empty. -/
theorem not_wellFormed_of_two (hib : ibSectors lfiblks = 1) (hs : dsiz / LF_BLKSIZ = 2)
    (hd : lfscreate disk lfiblks dsiz = some d) : ¬ WellFormed 1 2 d := by
  rintro ⟨-, -, l, hl, hperm⟩
  have hnone := head_eq_none hl hperm
  have hdir := @initialDir_ok (ibSectors lfiblks + 1) (by omega)
  rcases lfscreate_dir hd with h | h | ⟨-, hone⟩
  · rw [h, Lfdir.layout.dec_enc hdir] at hnone
    cases hnone
  · rw [h, dfree_of_dblock] at hnone
    cases hnone
  · omega

/-- **Formatting is refused, or leaves a well-formed disk**, exactly if index
blocks are asked for (or a negative number of them that counts as a large one)
and the index area does not fill a disk of two sectors. -/
theorem formats_iff (hs : disk.Sized) (hlo : -2 ^ 31 ≤ lfiblks) (hhi : lfiblks < 2 ^ 31)
    (hword : dsiz < 2 ^ 32) :
    Formats disk lfiblks dsiz ↔
      lfiblks < -6 ∨ 0 < lfiblks ∧ ¬ (lfiblks ≤ 7 ∧ dsiz / LF_BLKSIZ = 2) := by
  have hib : ibSectors lfiblks = ((lfiblks + 6) % 2 ^ 32).toNat / 7 := rfl
  have hsectors : dsiz / LF_BLKSIZ < 2 ^ 23 := by
    unfold LF_BLKSIZ
    omega
  have hsome : ¬ dsiz / LF_BLKSIZ / 2 < ibSectors lfiblks →
      ∃ d, lfscreate disk lfiblks dsiz = some d := by
    intro hfew
    unfold lfscreate
    dsimp only
    rw [if_neg hfew]
    exact ⟨_, rfl⟩
  constructor
  · rintro ⟨-, hall⟩
    by_contra hbad
    rcases lt_or_ge 0 lfiblks with hpos | hneg
    · -- one sector of index blocks, and one of the directory
      have htwo : lfiblks ≤ 7 ∧ dsiz / LF_BLKSIZ = 2 := by
        by_contra h
        exact hbad (Or.inr ⟨hpos, h⟩)
      have hone : ibSectors lfiblks = 1 := by omega
      have harea : iareaSectors lfiblks = 1 := by
        unfold iareaSectors
        omega
      obtain ⟨d, hd⟩ := hsome (by omega)
      have hwell := (hall d hd).1
      rw [harea, htwo.2] at hwell
      exact not_wellFormed_of_two hone htwo.2 hd hwell
    · have hzero : ibSectors lfiblks = 0 := by omega
      have harea : iareaSectors lfiblks = 0 := by
        unfold iareaSectors
        omega
      obtain ⟨d, hd⟩ := hsome (hzero ▸ Nat.not_lt_zero _)
      have hwell := (hall d hd).1
      rw [harea] at hwell
      exact not_wellFormed_of_none hzero hd _ hwell
  · intro hcond
    refine ⟨lfscreate_loops disk lfiblks dsiz, fun d hd => ?_⟩
    have hroom : ¬ dsiz / LF_BLKSIZ / 2 < ibSectors lfiblks := by
      intro hfew
      unfold lfscreate at hd
      dsimp only at hd
      rw [if_pos hfew] at hd
      cases hd
    have hpos : 0 < lfiblks := by omega
    have hform : Formattable disk lfiblks dsiz := ⟨hs, hword, by omega, by omega⟩
    have harea : iareaSectors lfiblks = ibSectors lfiblks := by
      unfold iareaSectors
      omega
    have hwell := (lfscreate_blank hform hd).wellFormed
    rw [harea]
    exact ⟨hwell, hwell.lfsckfmt⟩

end Arguments

/-- The theorem for a disk of sixteen sectors. -/
theorem formats_sixteen : Formats blankDisk 7 (16 * LF_BLKSIZ) :=
  (formats_iff (fun _ => List.length_replicate) (by decide) (by decide) (by decide)).mpr
    (Or.inr ⟨by decide, by decide⟩)

/-- Two sectors, for the directory and index blocks: the count of data blocks
is zero, and the loop runs once for each number of 32 bits but one. -/
theorem not_formats : ¬ Formats blankDisk 7 (2 * LF_BLKSIZ) := by
  rintro ⟨-, hall⟩
  obtain ⟨d, hd⟩ : ∃ d, lfscreate blankDisk 7 (2 * LF_BLKSIZ) = some d := by
    unfold lfscreate
    dsimp only
    rw [if_neg (by decide)]
    exact ⟨_, rfl⟩
  exact not_wellFormed_of_two rfl rfl hd (hall d hd).1

end Xinu.Lfs
