import XinuCMips.Lib.Codec

/-!
# The local file system on disk

`lfilesys.h`: sector 0 of the disk holds the directory, the sectors after it
hold index blocks, seven to a sector, and the rest are data blocks. A disk is
its sectors, each a list of `LF_BLKSIZ` bytes; `lfibget` and `lfibput` read
and write one index block in the middle of its sector. Block numbers are
`Option Nat`, with `none` for the null pointers `LF_INULL` and `LF_DNULL`
(all ones on disk).

* `lfibget_lfibput_self` / `lfibget_lfibput_of_ne` — an index block written
  is read back, and its six neighbours are left alone;
* `index_block_stored` — and so is every byte outside its place.
-/

namespace Xinu.Lfs

open Bytes

def LF_BLKSIZ : Nat := 512
def LF_NAME_LEN : Nat := 16
def LF_NUM_DIR_ENT : Nat := 20
def LF_IBLEN : Nat := 16
def LF_IDATA : Nat := 8192
def LF_AREA_IB : Nat := 1
def LF_AREA_DIR : Nat := 0

/-! ## Structures on disk -/

/-- An index block: the next one of the file, the first byte of the file that
this one indexes, and the data blocks it points to. -/
structure Lfiblk where
  ibNext : Option Nat
  ibOffset : Nat
  ibDba : List (Option Nat)
  deriving DecidableEq, Repr

/-- A directory entry: size of the file in bytes, its first index block, and
its name, closed by a null character. -/
structure Ldentry where
  ldSize : Nat
  ldIlist : Option Nat
  ldName : List UInt8
  deriving DecidableEq, Repr

/-- The directory: heads of the two free lists, and the files. -/
structure Lfdir where
  lfdDfree : Option Nat
  lfdIfree : Option Nat
  lfdNfiles : Nat
  lfdFiles : List Ldentry
  padding : List UInt8
  deriving DecidableEq, Repr

/-- A data block while it is on the free list. -/
structure Lfdbfree where
  lfNextdb : Option Nat
  lfUnused : List UInt8
  deriving DecidableEq, Repr

/-- `sizeof(struct lfiblk)` is 72. -/
def Lfiblk.layout : Codec Lfiblk :=
  ((Codec.nullable 4).pair ((Codec.word 4).pair (Codec.many LF_IBLEN (Codec.nullable 4)))).iso
    { toFun := fun p => ⟨p.1, p.2.1, p.2.2⟩
      invFun := fun b => (b.ibNext, b.ibOffset, b.ibDba)
      left_inv := fun _ => rfl
      right_inv := fun _ => rfl }

/-- `sizeof(struct ldentry)` is 24. -/
def Ldentry.layout : Codec Ldentry :=
  ((Codec.word 4).pair ((Codec.nullable 4).pair (Codec.raw LF_NAME_LEN))).iso
    { toFun := fun p => ⟨p.1, p.2.1, p.2.2⟩
      invFun := fun e => (e.ldSize, e.ldIlist, e.ldName)
      left_inv := fun _ => rfl
      right_inv := fun _ => rfl }

/-- `struct lfdir` fills its sector: 12 + 20 · 24 + 20 bytes. -/
def Lfdir.layout : Codec Lfdir :=
  ((Codec.nullable 4).pair ((Codec.nullable 4).pair ((Codec.word 4).pair
      ((Codec.many LF_NUM_DIR_ENT Ldentry.layout).pair (Codec.raw 20))))).iso
    { toFun := fun p => ⟨p.1, p.2.1, p.2.2.1, p.2.2.2.1, p.2.2.2.2⟩
      invFun := fun d => (d.lfdDfree, d.lfdIfree, d.lfdNfiles, d.lfdFiles, d.padding)
      left_inv := fun _ => rfl
      right_inv := fun _ => rfl }

/-- `struct lfdbfree` fills its sector too. -/
def Lfdbfree.layout : Codec Lfdbfree :=
  ((Codec.nullable 4).pair (Codec.raw (LF_BLKSIZ - 4))).iso
    { toFun := fun p => ⟨p.1, p.2⟩
      invFun := fun b => (b.lfNextdb, b.lfUnused)
      left_inv := fun _ => rfl
      right_inv := fun _ => rfl }

theorem lfiblk_width : Lfiblk.layout.width = 72 := rfl

/-! ## Sectors -/

/-- The sectors of a disk. Reading one always succeeds, and so does writing. -/
abbrev Disk := Nat → List UInt8

/-- Every sector holds `LF_BLKSIZ` bytes. -/
def Disk.Sized (d : Disk) : Prop := ∀ n, (d n).length = LF_BLKSIZ

/-- `write(diskdev, buf, n)`. -/
def Disk.write (d : Disk) (n : Nat) (buf : List UInt8) : Disk :=
  fun m => if m = n then buf else d m

@[simp] theorem write_self (d : Disk) (n : Nat) (buf : List UInt8) : d.write n buf n = buf :=
  if_pos rfl

theorem write_of_ne {d : Disk} {n m : Nat} {buf : List UInt8} (h : m ≠ n) :
    d.write n buf m = d m :=
  if_neg h

theorem Disk.Sized.write {d : Disk} (hd : d.Sized) {n : Nat} {buf : List UInt8}
    (h : buf.length = LF_BLKSIZ) : (d.write n buf).Sized := by
  intro m
  unfold Disk.write
  split
  · exact h
  · exact hd m

/-! ## Index blocks -/

/-- Disk sector of an index block. -/
def ib2sect (ib : Nat) : Nat := ib / 7 + LF_AREA_IB

/-- Byte offset of an index block within its sector. -/
def ib2disp (ib : Nat) : Nat := ib % 7 * Lfiblk.layout.width

/-- Get an index block from disk given its number. -/
def lfibget (diskdev : Disk) (inum : Nat) : Lfiblk :=
  let dbuff := diskdev (ib2sect inum)
  Lfiblk.layout.dec (slice (ib2disp inum) Lfiblk.layout.width dbuff)

/-- Write an index block to disk given its number: the sector is read, the
block is copied into place and the sector is written back. -/
def lfibput (diskdev : Disk) (inum : Nat) (ibuff : Lfiblk) : Disk :=
  let dbuff := diskdev (ib2sect inum)
  diskdev.write (ib2sect inum) (splice (ib2disp inum) (Lfiblk.layout.enc ibuff) dbuff)

/-- Clear an in-core copy of an index block. -/
def lfibclear (offset : Nat) : Lfiblk where
  ibNext := none
  ibOffset := offset
  ibDba := List.replicate LF_IBLEN none

/-- A cleared block can be written. -/
theorem lfibclear_ok {offset : Nat} (h : offset < 256 ^ 4) :
    Lfiblk.layout.Ok (lfibclear offset) := by
  refine ⟨fun x hx => (by cases hx), h, List.length_replicate, fun a ha x hx => ?_⟩
  rw [List.eq_of_mem_replicate ha] at hx
  cases hx

/-- The place of an index block lies within its sector. -/
theorem ib2disp_bound (ib : Nat) : ib2disp ib + Lfiblk.layout.width ≤ LF_BLKSIZ := by
  have h : ib % 7 < 7 := Nat.mod_lt _ (by omega)
  unfold ib2disp
  rw [lfiblk_width, LF_BLKSIZ]
  omega

/-- Two index blocks of one sector do not overlap. -/
theorem ib2disp_apart {a b : Nat} (hne : a ≠ b) (hs : ib2sect a = ib2sect b) :
    ib2disp a + Lfiblk.layout.width ≤ ib2disp b ∨
      ib2disp b + Lfiblk.layout.width ≤ ib2disp a := by
  unfold ib2sect at hs
  unfold ib2disp
  rw [lfiblk_width]
  omega

section Put

variable {d : Disk} {inum : Nat} {ibuff : Lfiblk}

/-- The record fits where it goes. -/
private theorem put_fits (hd : d.Sized) (hok : Lfiblk.layout.Ok ibuff) :
    ib2disp inum + (Lfiblk.layout.enc ibuff).length ≤ (d (ib2sect inum)).length := by
  rw [Lfiblk.layout.length_enc hok, hd]
  exact ib2disp_bound inum

theorem Disk.Sized.lfibput (hd : d.Sized) (hok : Lfiblk.layout.Ok ibuff) :
    (lfibput d inum ibuff).Sized := by
  refine hd.write ?_
  rw [length_splice (put_fits hd hok), hd]

theorem lfibput_of_ne {n : Nat} (h : n ≠ ib2sect inum) : lfibput d inum ibuff n = d n :=
  write_of_ne h

/-- **An index block written is read back.** -/
theorem lfibget_lfibput_self (hd : d.Sized) (hok : Lfiblk.layout.Ok ibuff) :
    lfibget (lfibput d inum ibuff) inum = ibuff := by
  unfold lfibget lfibput
  dsimp only
  rw [write_self, ← Lfiblk.layout.length_enc hok, slice_splice_self (put_fits hd hok),
    Lfiblk.layout.dec_enc hok]

/-- **The other index blocks keep their contents**, those of the same sector
included. -/
theorem lfibget_lfibput_of_ne (hd : d.Sized) (hok : Lfiblk.layout.Ok ibuff) {b : Nat}
    (hne : b ≠ inum) : lfibget (lfibput d inum ibuff) b = lfibget d b := by
  unfold lfibget lfibput
  by_cases hs : ib2sect b = ib2sect inum
  · -- the neighbours within the sector
    have hap := ib2disp_apart hne hs
    dsimp only
    rw [hs, write_self, slice_splice_apart (put_fits hd hok)]
    rw [Lfiblk.layout.length_enc hok]
    exact hap
  · dsimp only
    rw [write_of_ne hs]

/-- **What a put changes**: the block is read back, the others are as before, and no byte
outside the block's place in its sector is another. -/
theorem index_block_stored (hd : d.Sized) (hok : Lfiblk.layout.Ok ibuff) :
    lfibget (lfibput d inum ibuff) inum = ibuff ∧
      (∀ b, b ≠ inum → lfibget (lfibput d inum ibuff) b = lfibget d b) ∧
      ∀ n k, ¬(n = ib2sect inum ∧ ib2disp inum ≤ k ∧
        k < ib2disp inum + Lfiblk.layout.width) → (lfibput d inum ibuff n)[k]? = (d n)[k]? := by
  refine ⟨lfibget_lfibput_self hd hok, fun b hb => lfibget_lfibput_of_ne hd hok hb, ?_⟩
  intro n k hout
  by_cases hn : n = ib2sect inum
  · subst hn
    unfold lfibput
    rw [write_self, getElem?_splice (put_fits hd hok), Lfiblk.layout.length_enc hok,
      if_neg fun hk => hout ⟨rfl, hk⟩]
  · rw [lfibput_of_ne hn]

end Put

/-- The theorem for a cleared block, written on a disk of zeros. -/
theorem index_block_stored_blank :
    let d : Disk := fun _ => List.replicate LF_BLKSIZ 0
    lfibget (lfibput d 9 (lfibclear 0)) 9 = lfibclear 0 ∧
      lfibget (lfibput d 9 (lfibclear 0)) 8 = lfibget d 8 := by
  intro d
  have hd : d.Sized := fun _ => List.length_replicate
  obtain ⟨hself, hothers, -⟩ :=
    @index_block_stored d 9 (lfibclear 0) hd (lfibclear_ok (by decide))
  exact ⟨hself, hothers 8 (by decide)⟩

/-- Index blocks do not change when a sector outside theirs is written. -/
theorem lfibget_write_of_ne {d : Disk} {n b : Nat} {buf : List UInt8} (h : ib2sect b ≠ n) :
    lfibget (d.write n buf) b = lfibget d b := by
  unfold lfibget
  dsimp only
  rw [write_of_ne h]

end Xinu.Lfs
