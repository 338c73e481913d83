import XinuCMips.Lfs.Frame
import XinuCMips.Lib.Follow
import Mathlib.Data.List.Perm.Subperm

/-!
# Where the files lie

A `FileMap` says where one file lies: its index blocks in order, its data
blocks in order, and its bytes. It determines what every index block of the
file holds (`FileMap.iblock`). While the file is open, one index block and one
data block are cached in its control block, and the disk may lag behind on
those two.

* `OnDisk`, `InMemory` — what the disk and the control block know of a file;
* `Elsewhere` — a disk changed on given blocks only;
* `Holds` — a file and the two free lists, as one call on the file sees them.
-/

namespace Xinu.Lfs

open Follow

/-! ## The disk -/

/-- A formatted disk: sector 0 is the directory, `ibsectors` sectors hold
index blocks, and the rest up to `sectors` are data blocks. -/
structure Geometry where
  ibsectors : Nat
  sectors : Nat
  room : ibsectors < sectors
  small : sectors ≤ 2 ^ 23

namespace Geometry

variable (g : Geometry)

/-- The number of index blocks. -/
def nib : Nat := 7 * g.ibsectors

/-- `n` is the number of a data block. -/
def IsDblock (n : Nat) : Prop := g.ibsectors < n ∧ n < g.sectors

variable {g} {b n : Nat}

/-- Index blocks lie in the sectors between directory and data. -/
theorem ib2sect_range (hb : b < g.nib) : 0 < ib2sect b ∧ ib2sect b ≤ g.ibsectors := by
  unfold nib at hb
  unfold ib2sect LF_AREA_IB
  omega

theorem iblock_fits (hb : b < g.nib) : b < 256 ^ 4 - 1 := by
  have := g.small
  have := g.room
  unfold nib at hb
  omega

theorem IsDblock.fits (hn : g.IsDblock n) : n < 256 ^ 4 - 1 := by
  have := g.small
  have := hn.2
  omega

theorem IsDblock.ne_ib2sect (hn : g.IsDblock n) (hb : b < g.nib) : ib2sect b ≠ n := by
  have := ib2sect_range hb
  have := hn.1
  omega

theorem IsDblock.ne_dir (hn : g.IsDblock n) : n ≠ LF_AREA_DIR := by
  have := hn.1
  unfold LF_AREA_DIR
  omega

end Geometry

/-! ## One file -/

/-- Where a file lies, and what it holds. -/
structure FileMap where
  chain : List Nat
  dbs : List Nat
  bytes : List UInt8

namespace FileMap

variable (F : FileMap)

/-- What the `j`-th index block of the file holds. -/
def iblock (j : Nat) : Lfiblk where
  ibNext := F.chain[j + 1]?
  ibOffset := j * 8192
  ibDba := (List.range 16).map fun k => F.dbs[j * 16 + k]?

/-- The buffer holds those bytes of the file that belong to its `m`-th data
block; what lies behind the end of the file does not matter. -/
def Agrees (m : Nat) (buf : List UInt8) : Prop :=
  buf.length = LF_BLKSIZ ∧
    ∀ k, k < 512 → m * 512 + k < F.bytes.length → buf[k]? = F.bytes[m * 512 + k]?

/-- There are blocks for all bytes, and at most one block and one index block
more than the bytes need. -/
structure Shape : Prop where
  covers : F.bytes.length ≤ 512 * F.dbs.length
  spare : 512 * F.dbs.length ≤ F.bytes.length + 512
  indexed : F.dbs.length ≤ 16 * F.chain.length
  ispare : 16 * F.chain.length ≤ F.dbs.length + 16

/-- There are no more blocks than the bytes need. -/
structure Tight : Prop where
  spare : 512 * F.dbs.length < F.bytes.length + 512
  ispare : 16 * F.chain.length < F.dbs.length + 16

variable {F}

/-- A file whose numbers all fit can be written. -/
theorem iblock_ok {g : Geometry} (hc : ∀ b ∈ F.chain, b < g.nib) (hd : ∀ n ∈ F.dbs, g.IsDblock n)
    {j : Nat} (hj : j * 8192 < 2 ^ 32) : Lfiblk.layout.Ok (F.iblock j) := by
  refine ⟨fun b hb => Geometry.iblock_fits (hc b (List.mem_of_getElem? hb)), hj, ?_, ?_⟩
  · show ((List.range 16).map fun k => F.dbs[j * 16 + k]?).length = 16
    rw [List.length_map, List.length_range]
  · intro a ha n hn
    obtain ⟨k, -, rfl⟩ := List.mem_map.mp ha
    exact (hd n (List.mem_of_getElem? hn)).fits

/-- Slot `k` of the `j`-th index block. -/
theorem iblock_slot {j k : Nat} (hk : k < 16) :
    (F.iblock j).ibDba.getD k none = F.dbs[j * 16 + k]? := by
  unfold iblock
  rw [List.getD_eq_getElem?_getD, List.getElem?_map, List.getElem?_range hk]
  rfl

end FileMap

/-- The index block that the disk lags behind on. -/
def dirtyIb (f : Lflcblk) : Option Nat := if f.lfibdirty then f.lfinum else none

/-- The data block that the disk lags behind on. -/
def dirtyDb (f : Lflcblk) : Option Nat := if f.lfdbdirty then f.lfdnum else none

/-- The disk holds the file, index block `ei` and data block `ed` apart. -/
structure OnDisk (d : Disk) (F : FileMap) (ei ed : Option Nat) : Prop where
  iblocks : ∀ j b, F.chain[j]? = some b → some b ≠ ei → lfibget d b = F.iblock j
  dblocks : ∀ m n, F.dbs[m]? = some n → some n ≠ ed → F.Agrees m (d n)

/-- The blocks in the control block are blocks of the file. -/
structure InMemory (f : Lflcblk) (F : FileMap) : Prop where
  iblock : ∀ b, f.lfinum = some b → ∃ j, F.chain[j]? = some b ∧ f.lfiblock = F.iblock j
  dblock : ∀ n, f.lfdnum = some n → ∃ m, F.dbs[m]? = some n ∧ F.Agrees m f.lfdblock
  ibdirty : f.lfibdirty = true → f.lfinum ≠ none
  dbdirty : f.lfdbdirty = true → f.lfdnum ≠ none

/-- Elements of a list without repetitions have one index. -/
theorem nodup_index {l : List Nat} (h : l.Nodup) {i j a : Nat} (hi : l[i]? = some a)
    (hj : l[j]? = some a) : i = j := by
  obtain ⟨hi', -⟩ := List.getElem?_eq_some_iff.mp hi
  exact (List.getElem?_inj hi' h).mp (hi.trans hj.symm)

/-! ## Changes of the disk -/

/-- `d'` differs from `d` at most in the directory, in the index blocks `I`
and in the data blocks `N`. -/
structure Elsewhere (g : Geometry) (I N : List Nat) (d d' : Disk) : Prop where
  iblocks : ∀ b, b < g.nib → b ∉ I → lfibget d' b = lfibget d b
  dblocks : ∀ n, g.ibsectors < n → n ∉ N → d' n = d n

namespace Elsewhere

variable {g : Geometry} {I I' N N' : List Nat} {d d' d'' : Disk}

theorem refl : Elsewhere g I N d d := ⟨fun _ _ _ => rfl, fun _ _ _ => rfl⟩

theorem trans (h : Elsewhere g I N d d') (h' : Elsewhere g I N d' d'') :
    Elsewhere g I N d d'' where
  iblocks b hb hI := (h'.iblocks b hb hI).trans (h.iblocks b hb hI)
  dblocks n hn hN := (h'.dblocks n hn hN).trans (h.dblocks n hn hN)

theorem mono (h : Elsewhere g I N d d') (hI : I ⊆ I') (hN : N ⊆ N') :
    Elsewhere g I' N' d d' where
  iblocks b hb hb' := h.iblocks b hb fun hm => hb' (hI hm)
  dblocks n hn hn' := h.dblocks n hn fun hm => hn' (hN hm)

/-- The directory is written. -/
theorem dir (buf : List UInt8) : Elsewhere g I N d (d.write LF_AREA_DIR buf) where
  iblocks b hb _ := by
    refine lfibget_write_of_ne fun h => ?_
    have := Geometry.ib2sect_range hb
    unfold LF_AREA_DIR at h
    omega
  dblocks n hn _ := by
    refine write_of_ne fun h => ?_
    unfold LF_AREA_DIR at h
    omega

/-- A data block is written. -/
theorem dblock {n : Nat} (hn : g.IsDblock n) (hN : n ∈ N) (buf : List UInt8) :
    Elsewhere g I N d (d.write n buf) where
  iblocks _ hb _ := lfibget_write_of_ne (hn.ne_ib2sect hb)
  dblocks _ _ hk := write_of_ne fun h => hk (h ▸ hN)

/-- An index block is written. -/
theorem iblock {b : Nat} (hb : b < g.nib) (hI : b ∈ I) (hd : d.Sized) {ib : Lfiblk}
    (hok : Lfiblk.layout.Ok ib) : Elsewhere g I N d (lfibput d b ib) where
  iblocks c _ hc := lfibget_lfibput_of_ne hd hok fun h => hc (h ▸ hI)
  dblocks n hn _ := by
    refine lfibput_of_ne fun h => ?_
    have := Geometry.ib2sect_range hb
    omega

end Elsewhere

/-- The link of a free index block. -/
def nextI (d : Disk) (b : Nat) : Option Nat := (lfibget d b).ibNext

/-- The link of a free data block. -/
def nextD (d : Disk) (n : Nat) : Option Nat := (Lfdbfree.layout.dec (d n)).lfNextdb

/-- The two free lists run through `I` and `N`. -/
structure FreeLists (d : Disk) (dir : Lfdir) (I N : List Nat) : Prop where
  iblocks : Follows (nextI d) dir.lfdIfree I
  dblocks : Follows (nextD d) dir.lfdDfree N

/-- Free lists do not notice changes of other blocks. -/
theorem FreeLists.elsewhere {g : Geometry} {d d' : Disk} {dir : Lfdir} {I N I' N' : List Nat}
    (h : FreeLists d dir I N) (he : Elsewhere g I' N' d d') (hI : ∀ b ∈ I, b < g.nib ∧ b ∉ I')
    (hN : ∀ n ∈ N, g.IsDblock n ∧ n ∉ N') : FreeLists d' dir I N where
  iblocks := h.iblocks.congr fun b hb => by
    unfold nextI
    rw [he.iblocks b (hI b hb).1 (hI b hb).2]
  dblocks := h.dblocks.congr fun n hn => by
    unfold nextD
    rw [he.dblocks n (hN n hn).1.1 (hN n hn).2]

/-- Nor do files. -/
theorem OnDisk.elsewhere {g : Geometry} {d d' : Disk} {F : FileMap} {I N : List Nat}
    {ei ed : Option Nat} (h : OnDisk d F ei ed) (he : Elsewhere g I N d d')
    (hI : ∀ b ∈ F.chain, b < g.nib ∧ b ∉ I) (hN : ∀ n ∈ F.dbs, g.IsDblock n ∧ n ∉ N) :
    OnDisk d' F ei ed where
  iblocks j b hj hne := by
    have hb := hI b (List.mem_of_getElem? hj)
    rw [he.iblocks b hb.1 hb.2]
    exact h.iblocks j b hj hne
  dblocks m n hm hne := by
    have hn := hN n (List.mem_of_getElem? hm)
    rw [he.dblocks n hn.1.1 hn.2]
    exact h.dblocks m n hm hne

/-! ## A file and the free lists -/

/-- **What a call on a file finds and leaves**, at every point of its way: the
file lies at `F`, up to what its caches hold back, and the free lists run
through `I` and `N`. -/
structure Holds (g : Geometry) (v : View) (F : FileMap) (I N : List Nat) : Prop where
  used : v.file.lfstate = .used
  sized : v.disk.Sized
  dirOk : Lfdir.layout.Ok v.glob.lfDir
  slot : v.file.lfdirptr < LF_NUM_DIR_ENT
  size : v.ldptr.ldSize = F.bytes.length
  first : v.ldptr.ldIlist = F.chain.head?
  shape : F.Shape
  inodup : (F.chain ++ I).Nodup
  irange : ∀ b ∈ F.chain ++ I, b < g.nib
  nnodup : (F.dbs ++ N).Nodup
  nrange : ∀ n ∈ F.dbs ++ N, g.IsDblock n
  free : FreeLists v.disk v.glob.lfDir I N
  disk : OnDisk v.disk F (dirtyIb v.file) (dirtyDb v.file)
  mem : InMemory v.file F

section Holds

variable {g : Geometry} {v : View} {F : FileMap} {I N : List Nat}

theorem Holds.chain_lt (h : Holds g v F I N) : ∀ b ∈ F.chain, b < g.nib :=
  fun b hb => h.irange b (List.mem_append_left I hb)

theorem Holds.dbs_range (h : Holds g v F I N) : ∀ n ∈ F.dbs, g.IsDblock n :=
  fun n hn => h.nrange n (List.mem_append_left N hn)

/-- The blocks of a file are fewer than the sectors of the disk. -/
theorem Holds.dbs_length (h : Holds g v F I N) : F.dbs.length < g.sectors := by
  have hsub : F.dbs ⊆ List.range g.sectors := fun n hn =>
    List.mem_range.mpr (h.dbs_range n hn).2
  have hnd : (0 :: F.dbs).Nodup := by
    refine List.nodup_cons.mpr ⟨fun h0 => ?_, (List.nodup_append.mp h.nnodup).1⟩
    exact absurd (h.dbs_range 0 h0).1 (Nat.not_lt_zero _)
  have hsub' : (0 :: F.dbs) ⊆ List.range g.sectors := by
    refine List.cons_subset.mpr ⟨List.mem_range.mpr ?_, hsub⟩
    have := g.room
    omega
  have hlen := (hnd.subperm hsub').length_le
  rw [List.length_range, List.length_cons] at hlen
  omega

/-- Positions in a file, and offsets of its index blocks, fit a word. -/
theorem Holds.offset_lt (h : Holds g v F I N) {j : Nat} (hj : 16 * j ≤ F.dbs.length) :
    j * 8192 < 2 ^ 32 := by
  have := h.dbs_length
  have := g.small
  omega

theorem Holds.size_lt (h : Holds g v F I N) : F.bytes.length < 2 ^ 32 := by
  have := h.dbs_length
  have := g.small
  have := h.shape.covers
  omega

/-- What is cached, or on disk, of an index block of the file can be written. -/
theorem Holds.iblock_ok (h : Holds g v F I N) {j : Nat} (hj : j < F.chain.length) :
    Lfiblk.layout.Ok (F.iblock j) := by
  refine FileMap.iblock_ok h.chain_lt h.dbs_range (h.offset_lt ?_)
  have := h.shape.ispare
  omega

theorem Holds.files_length (h : Holds g v F I N) :
    v.glob.lfDir.lfdFiles.length = LF_NUM_DIR_ENT :=
  h.dirOk.2.2.2.1.1

end Holds

end Xinu.Lfs
