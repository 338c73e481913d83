import XinuCMips.Lfs.Refine

/-!
# A freshly formatted disk

`lfscreate` leaves a disk with no files on which every index block and every
data block is free, each linked to the next one. The local file system that
starts on it stands for no files at all (`lfscreate_represents`), so that every
sequence of calls that the disk has room for gives the replies of lists of
bytes (`lfs_refines`).
-/

namespace Xinu.Lfs

open Bytes Follow

/-- Arguments of `lfscreate` for which the disk has an index block and a data
block at least. -/
structure Formattable (disk : Disk) (lfiblks : Int) (dsiz : Nat) : Prop where
  sized : disk.Sized
  word : dsiz < 2 ^ 32
  iblock : 0 < ibSectors lfiblks
  dblock : ibSectors lfiblks + 1 < dsiz / LF_BLKSIZ

/-- The sectors of the formatted disk. -/
def Formattable.geometry {disk : Disk} {lfiblks : Int} {dsiz : Nat}
    (h : Formattable disk lfiblks dsiz) : Geometry where
  ibsectors := ibSectors lfiblks
  sectors := dsiz / LF_BLKSIZ
  room := Nat.lt_of_succ_lt h.dblock
  small := by
    have := h.word
    unfold LF_BLKSIZ
    omega

/-- The directory that `lfscreate` writes. -/
def initialDir (dbindex : Nat) : Lfdir := { zeroDir with lfdDfree := some dbindex }

/-! ## The lists of free blocks -/

/-- **Threading `n` index blocks** touches their sectors only. -/
theorem threadIblocks_spec {g : Geometry} {d : Disk} {n : Nat} (hd : d.Sized) (hn : n ≤ g.nib) :
    (threadIblocks n d).Sized ∧
      (∀ m, m = 0 ∨ g.ibsectors < m → threadIblocks n d m = d m) ∧
      ∀ b, b < n → nextI (threadIblocks n d) b = some (b + 1) := by
  induction n with
  | zero => exact ⟨hd, fun _ _ => rfl, fun b hb => absurd hb (Nat.not_lt_zero b)⟩
  | succ n ih =>
    obtain ⟨hs, hm, hb⟩ := ih (by omega)
    have hrange : 0 < ib2sect n ∧ ib2sect n ≤ g.ibsectors := Geometry.ib2sect_range (by omega)
    have hok : Lfiblk.layout.Ok { lfibclear 0 with ibNext := some (n + 1) } := by
      refine ⟨fun x hx => ?_, ?_, List.length_replicate, fun a ha x hx => ?_⟩
      · obtain rfl := Option.some.inj hx
        have := g.room
        have := g.small
        unfold Geometry.nib at hn
        omega
      · show 0 < 256 ^ 4
        omega
      · rw [List.eq_of_mem_replicate ha] at hx
        cases hx
    refine ⟨hs.lfibput hok, fun m hm' => ?_, fun b hlt => ?_⟩
    · rw [← hm m hm']
      exact lfibput_of_ne (by omega)
    · unfold nextI threadIblocks
      by_cases hbn : b = n
      · rw [hbn, lfibget_lfibput_self hs hok]
      · rw [lfibget_lfibput_of_ne hs hok hbn]
        exact hb b (by omega)

/-- **Threading `n` data blocks** from `dbindex` on. -/
theorem threadDblocks_spec {d : Disk} {dbindex n : Nat} (hd : d.Sized)
    (hn : dbindex + n < 256 ^ 4 - 1) :
    (threadDblocks dbindex n d).Sized ∧
      (∀ m, m < dbindex ∨ dbindex + n ≤ m → threadDblocks dbindex n d m = d m) ∧
      ∀ k, k < n → nextD (threadDblocks dbindex n d) (dbindex + k) = some (dbindex + k + 1) := by
  induction n with
  | zero => exact ⟨hd, fun _ _ => rfl, fun k hk => absurd hk (Nat.not_lt_zero k)⟩
  | succ n ih =>
    obtain ⟨hs, hm, hk⟩ := ih (by omega)
    have hok : Lfdbfree.layout.Ok
        ⟨some (dbindex + n + 1), List.replicate (LF_BLKSIZ - 4) 0⟩ := by
      refine ⟨fun x hx => ?_, List.length_replicate⟩
      obtain rfl := Option.some.inj hx
      omega
    -- the sector number does not wrap around
    unfold threadDblocks
    rw [Nat.mod_eq_of_lt (show dbindex + n < 2 ^ 32 by omega),
      Nat.mod_eq_of_lt (show dbindex + n + 1 < 2 ^ 32 by omega)]
    refine ⟨hs.write (Lfdbfree.layout.length_enc hok), fun m hm' => ?_, fun k hlt => ?_⟩
    · rw [← hm m (by omega)]
      exact write_of_ne (by omega)
    · unfold nextD
      by_cases hkn : k = n
      · rw [hkn, write_self, Lfdbfree.layout.dec_enc hok]
      · rw [write_of_ne (by omega)]
        exact hk k (by omega)

/-- Consecutive blocks, each linked to the next, are a list. -/
theorem follows_range' {next : Nat → Option Nat} {o n : Nat} (hn : 0 < n)
    (hlink : ∀ k, k + 1 < n → next (o + k) = some (o + k + 1))
    (hlast : next (o + (n - 1)) = none) : Follows next (some o) (List.range' o n) := by
  have hhead : (List.range' o n).head? = some o := by
    rw [List.head?_range', if_neg (by omega)]
  rw [← hhead]
  refine follows_iff_getElem?.mpr fun j a hj => ?_
  obtain ⟨hlt, rfl⟩ := List.getElem?_eq_some_iff.mp hj
  rw [List.length_range'] at hlt
  rw [List.getElem_range', Nat.one_mul]
  by_cases hend : j + 1 < n
  · rw [hlink j hend, List.getElem?_range' hend, Nat.one_mul]
    rfl
  · rw [show j = n - 1 by omega, hlast]
    exact (List.getElem?_eq_none (by rw [List.length_range']; omega)).symm

/-! ## The file system on it -/

/-- What `lfscreate` leaves on the disk. -/
structure Blank (g : Geometry) (d : Disk) : Prop where
  sized : d.Sized
  dir : Lfdir.layout.dec (d LF_AREA_DIR) = initialDir (g.ibsectors + 1)
  iblocks : Follows (nextI d) (some 0) (List.range g.nib)
  dblocks : Follows (nextD d) (some (g.ibsectors + 1)) (List.range' (g.ibsectors + 1) g.ndb)

theorem initialDir_ok {n : Nat} (hn : n < 256 ^ 4 - 1) : Lfdir.layout.Ok (initialDir n) := by
  refine ⟨fun x hx => ?_, fun x hx => ?_, ?_, ⟨List.length_replicate, fun e he => ?_⟩,
    List.length_replicate⟩
  · obtain rfl := Option.some.inj hx
    exact hn
  · obtain rfl := Option.some.inj hx
    omega
  · show 0 < 256 ^ 4
    omega
  · rw [List.eq_of_mem_replicate he]
    refine ⟨?_, fun x hx => ?_, List.length_replicate⟩
    · show 0 < 256 ^ 4
      omega
    · obtain rfl := Option.some.inj hx
      omega

/-- The counts of `lfscreate` do not wrap around. -/
theorem lfscreate_eq {disk d : Disk} {lfiblks : Int} {dsiz : Nat}
    (h : Formattable disk lfiblks dsiz) (hd : lfscreate disk lfiblks dsiz = some d) :
    d = (threadDblocks (h.geometry.ibsectors + 1) (h.geometry.ndb - 1)
      (lfibput (threadIblocks (h.geometry.nib - 1) (disk.write LF_AREA_DIR
        (Lfdir.layout.enc (initialDir (h.geometry.ibsectors + 1))))) (h.geometry.nib - 1)
        (lfibclear 0))).write (h.geometry.ibsectors + 1 + (h.geometry.ndb - 1))
      (Lfdbfree.layout.enc ⟨none, List.replicate (LF_BLKSIZ - 4) 0⟩) := by
  have hdb := h.dblock
  have hnib : h.geometry.nib = 7 * ibSectors lfiblks := rfl
  have hndb : h.geometry.ndb = dsiz / LF_BLKSIZ - 1 - ibSectors lfiblks := rfl
  have hsect : dsiz / LF_BLKSIZ ≤ 2 ^ 23 := h.geometry.small
  have hper : LF_BLKSIZ / Lfiblk.layout.width = 7 := rfl
  have hdblks : ((((dsiz / LF_BLKSIZ : Nat) : Int) - ibSectors lfiblks - 1) % 2 ^ 32).toNat =
      h.geometry.ndb := by omega
  have hn : (((h.geometry.ndb : Int) - 1) % 2 ^ 32).toNat = h.geometry.ndb - 1 := by omega
  have hi : ibSectors lfiblks * (LF_BLKSIZ / Lfiblk.layout.width) - 1 = h.geometry.nib - 1 := by
    rw [hper, hnib, Nat.mul_comm]
  unfold lfscreate at hd
  dsimp only at hd
  split at hd
  · cases hd
  rw [hdblks, hn, hi, Nat.mod_eq_of_lt (show _ < 2 ^ 32 by omega)] at hd
  exact (Option.some.inj hd).symm

/-- An index block is read from its own sector. -/
theorem lfibget_congr {d d' : Disk} {b : Nat} (h : d' (ib2sect b) = d (ib2sect b)) :
    lfibget d' b = lfibget d b := by
  unfold lfibget
  dsimp only
  rw [h]

/-- **Formatting** puts all blocks on the free lists. -/
theorem lfscreate_blank {disk d : Disk} {lfiblks : Int} {dsiz : Nat}
    (h : Formattable disk lfiblks dsiz) (hd : lfscreate disk lfiblks dsiz = some d) :
    Blank h.geometry d := by
  have hib : 0 < h.geometry.ibsectors := h.iblock
  have hdb : h.geometry.ibsectors + 1 < h.geometry.sectors := h.dblock
  have hsmall := h.geometry.small
  have hnib : h.geometry.nib = 7 * h.geometry.ibsectors := rfl
  have hndb : h.geometry.ndb = h.geometry.sectors - 1 - h.geometry.ibsectors := rfl
  rw [lfscreate_eq h hd]
  generalize h.geometry = g at *
  have hdir := @initialDir_ok (g.ibsectors + 1) (by omega)
  have hs₀ := @Disk.Sized.write _ h.sized LF_AREA_DIR _ (Lfdir.layout.length_enc hdir)
  obtain ⟨hs₁, hm₁, hb₁⟩ := @threadIblocks_spec g _ (g.nib - 1) hs₀ (by omega)
  have hzero := hm₁ LF_AREA_DIR (Or.inl rfl)
  rw [write_self] at hzero
  -- the last index block ends its list
  have hclear : Lfiblk.layout.Ok (lfibclear 0) := lfibclear_ok (by decide)
  generalize threadIblocks (g.nib - 1) _ = d₁ at *
  have hs₂ := @Disk.Sized.lfibput d₁ (g.nib - 1) _ hs₁ hclear
  have hsec : 0 < ib2sect (g.nib - 1) ∧ ib2sect (g.nib - 1) ≤ g.ibsectors :=
    Geometry.ib2sect_range (by omega)
  have hzero₂ : lfibput d₁ (g.nib - 1) (lfibclear 0) LF_AREA_DIR = d₁ LF_AREA_DIR :=
    lfibput_of_ne (by unfold LF_AREA_DIR; omega)
  have hlast₂ : nextI (lfibput d₁ (g.nib - 1) (lfibclear 0)) (g.nib - 1) = none := by
    unfold nextI
    rw [lfibget_lfibput_self hs₁ hclear]
    rfl
  have hlink₂ : ∀ b, b + 1 < g.nib →
      nextI (lfibput d₁ (g.nib - 1) (lfibclear 0)) b = some (b + 1) := by
    intro b hb
    unfold nextI
    rw [lfibget_lfibput_of_ne hs₁ hclear (by omega)]
    exact hb₁ b (by omega)
  generalize lfibput d₁ (g.nib - 1) (lfibclear 0) = d₂ at *
  -- the list of data blocks lies behind them
  obtain ⟨hs₃, hm₃, hk₃⟩ := @threadDblocks_spec d₂ (g.ibsectors + 1) (g.ndb - 1) hs₂ (by omega)
  generalize threadDblocks (g.ibsectors + 1) (g.ndb - 1) d₂ = d₃ at *
  have hlast : Lfdbfree.layout.Ok ⟨none, List.replicate (LF_BLKSIZ - 4) 0⟩ :=
    ⟨fun x hx => (by cases hx), List.length_replicate⟩
  have hlow : ∀ m, m ≤ g.ibsectors → ∀ buf,
      d₃.write (g.ibsectors + 1 + (g.ndb - 1)) buf m = d₂ m := by
    intro m hm buf
    rw [write_of_ne (by omega), hm₃ m (by omega)]
  refine ⟨hs₃.write (Lfdbfree.layout.length_enc hlast), ?_, ?_, ?_⟩
  · rw [hlow LF_AREA_DIR (Nat.zero_le _), hzero₂, hzero, Lfdir.layout.dec_enc hdir]
  · have hkeep : ∀ b, b < g.nib → ∀ buf,
        nextI (d₃.write (g.ibsectors + 1 + (g.ndb - 1)) buf) b = nextI d₂ b := by
      intro b hb buf
      unfold nextI
      rw [lfibget_congr (hlow _ (Geometry.ib2sect_range hb).2 buf)]
    rw [List.range_eq_range']
    refine follows_range' (by omega) (fun k hk => ?_) ?_
    · rw [hkeep _ (by omega), Nat.zero_add]
      exact hlink₂ k hk
    · rw [hkeep _ (by omega), Nat.zero_add]
      exact hlast₂
  · refine follows_range' (by omega) (fun k hk => ?_) ?_
    · unfold nextD
      rw [write_of_ne (by omega)]
      exact hk₃ k (by omega)
    · unfold nextD
      rw [write_self, Lfdbfree.layout.dec_enc hlast]

/-- The local file system before any call: no files, and no device open. -/
def Files.init (devs : List Nat) : Files where
  files := []
  handles := devs.map fun _ => none
  devs := devs

/-- **A blank disk stands for no files.** -/
theorem Blank.represents {g : Geometry} {d : Disk} (h : Blank g d) (devs : List Nat) :
    Represents g (bootLfs d devs) (Files.init devs) := by
  have hnone : ∀ (m : Nat) (f : Lflcblk), ¬ InUse (bootLfs d devs) m f := by
    rintro m f ⟨hf, hused⟩
    obtain ⟨n, -, rfl⟩ := List.mem_map.mp (List.mem_of_getElem? hf)
    exact LfState.noConfusion hused
  have hsmall := g.small
  have hroom := g.room
  refine ⟨bootLfs_handles d devs true, fun i j f f' hf => absurd hf (hnone i f), ?_⟩
  refine ⟨_, ⟨[], List.range g.nib, List.range' (g.ibsectors + 1) g.ndb⟩, rfl, ?_, ?_⟩
  · refine
      { sized := h.sized, dirOk := ?_, nfiles := ?_, room := Nat.zero_le _, entries := ?_,
        shape := ?_, iperm := List.Perm.refl _, nperm := List.Perm.refl _, free := ?_,
        closed := ?_, opened := fun m f hf => absurd hf (hnone m f),
        saved := fun _ => SameDir.refl _ }
    · show Lfdir.layout.Ok (Lfdir.layout.dec (d LF_AREA_DIR))
      rw [h.dir]
      exact initialDir_ok (by omega)
    · show (Lfdir.layout.dec (d LF_AREA_DIR)).lfdNfiles = 0
      rw [h.dir]
      rfl
    · intro i F hF
      cases hF
    · intro F hF
      cases hF
    · constructor
      · show Follows _ (Lfdir.layout.dec (d LF_AREA_DIR)).lfdIfree _
        rw [h.dir]
        exact h.iblocks
      · show Follows _ (Lfdir.layout.dec (d LF_AREA_DIR)).lfdDfree _
        rw [h.dir]
        exact h.dblocks
    · intro i F hF
      cases hF
  · refine ⟨?_, rfl, ?_, ?_⟩
    · show [] = (dirNames (Lfdir.layout.dec (d LF_AREA_DIR))).map nameOf
      rw [h.dir]
      rfl
    · show devs.map (fun _ => none) = (devs.map lflInit).map handleOf
      rw [List.map_map]
      rfl
    · show devs = (devs.map lflInit).map Lflcblk.lfdev
      rw [List.map_map]
      exact (List.map_id devs).symm

/-- **Files on a formatted disk are lists of bytes.** Every sequence of calls
that opens no open file again, and that the blocks of the disk have room for,
gets all replies (values, bytes and ends of files) of the byte lists. -/
theorem lfs_refines (disk d : Disk) (lfiblks : Int) (dsiz : Nat) (devs : List Nat)
    (h : Formattable disk lfiblks dsiz) (hd : lfscreate disk lfiblks dsiz = some d)
    (cs : List Call)
    (hcs : Files.Within h.geometry.nib h.geometry.ndb cs (Files.init devs)) :
    ∃ s, run cs (bootLfs d devs) = .ok ((Files.run cs (Files.init devs)).1, s) := by
  obtain ⟨s, hs, -⟩ := run_refines cs hcs ((lfscreate_blank h hd).represents devs)
  exact ⟨s, hs⟩

/-- A disk of null characters. -/
def blankDisk : Disk := fun _ => List.replicate LF_BLKSIZ 0

theorem sample_formattable : Formattable blankDisk 7 (16 * LF_BLKSIZ) :=
  ⟨fun _ => List.length_replicate, by decide, by decide, by decide⟩

theorem sampleDisk_eq : lfscreate blankDisk 7 (16 * LF_BLKSIZ) = some sampleDisk := by
  have hsome : (lfscreate blankDisk 7 (16 * LF_BLKSIZ)).isSome = true := rfl
  obtain ⟨d, hd⟩ := Option.isSome_iff_exists.mp hsome
  have hsample : sampleDisk = (lfscreate blankDisk 7 (16 * LF_BLKSIZ)).getD blankDisk := rfl
  rw [hsample, hd]
  rfl

/-- The theorem for a byte that is written and read again. -/
theorem lfs_refines_sample :
    ∃ s, run [.open fileA anyMode, .putc 0 65, .seek 0 0, .getc 0, .getc 0]
        (bootLfs sampleDisk (List.range 6)) =
      .ok ([(0, []), (OK, []), (OK, []), (65, []), (EOF, [])], s) := by
  have hfits : ∀ a : Files, (a.files.map fun f => (f.bytes.length + 8191) / 8192).sum ≤ 7 →
      (a.files.map fun f => (f.bytes.length + 511) / 512).sum ≤ 14 → a.Fits 7 14 :=
    fun _ hi hd => ⟨hi, hd⟩
  refine lfs_refines blankDisk sampleDisk 7 (16 * LF_BLKSIZ) (List.range 6) sample_formattable
    sampleDisk_eq [.open fileA anyMode, .putc 0 65, .seek 0 0, .getc 0, .getc 0]
    ⟨?_, hfits _ (by decide) (by decide), trivial, hfits _ (by decide) (by decide), trivial,
      hfits _ (by decide) (by decide), trivial, hfits _ (by decide) (by decide), trivial,
      hfits _ (by decide) (by decide), trivial⟩
  -- no device is open at the start
  rintro ⟨h, f, hh, -⟩
  obtain ⟨n, -, hn⟩ := List.mem_map.mp hh
  cases hn

end Xinu.Lfs
