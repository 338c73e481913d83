import XinuCMips.Lfs.Files

/-!
# Formatting a disk

`lfscreate` computes how many sectors hold index blocks and how many are left
for data, writes a directory with no files, and threads all index blocks and
all data blocks on the two free lists.
-/

namespace Xinu.Lfs

/-- Sectors of index blocks for `lfiblks` of them, rounded up. -/
def ibSectors (lfiblks : Int) : Nat :=
  let ibpersector := LF_BLKSIZ / Lfiblk.layout.width
  ((lfiblks + (ibpersector - 1)) % 2 ^ 32).toNat / ibpersector

/-- The loop that threads index blocks `0`, …, `n - 1`, each to the next. -/
def threadIblocks : Nat → Disk → Disk
  | 0, d => d
  | n + 1, d => lfibput (threadIblocks n d) n { lfibclear 0 with ibNext := some (n + 1) }

/-- The loop that threads `n` data blocks from `dbindex` on, each to the next;
`dbindex` wraps around. -/
def threadDblocks (dbindex : Nat) : Nat → Disk → Disk
  | 0, d => d
  | n + 1, d =>
    (threadDblocks dbindex n d).write ((dbindex + n) % 2 ^ 32)
      (Lfdbfree.layout.enc
        ⟨some ((dbindex + n + 1) % 2 ^ 32), List.replicate (LF_BLKSIZ - 4) 0⟩)

/-- Create an initially-empty file system on a disk of `dsiz` bytes; nothing
for invalid arguments. -/
def lfscreate (disk : Disk) (lfiblks : Int) (dsiz : Nat) : Option Disk :=
  let sectors := dsiz / LF_BLKSIZ
  let ibsectors := ibSectors lfiblks
  let lfiblks := ibsectors * (LF_BLKSIZ / Lfiblk.layout.width)
  if sectors / 2 < ibsectors then none
  else
    let dbindex := ibsectors + 1
    let dblks := (((sectors : Int) - ibsectors - 1) % 2 ^ 32).toNat
    -- create an initial directory
    let dir := { zeroDir with lfdDfree := some dbindex }
    let disk := disk.write LF_AREA_DIR (Lfdir.layout.enc dir)
    -- create list of free i-blocks on disk
    let disk := threadIblocks (lfiblks - 1) disk
    let disk := lfibput disk (lfiblks - 1) (lfibclear 0)
    -- create list of free data blocks on disk
    let n := (((dblks : Int) - 1) % 2 ^ 32).toNat
    let disk := threadDblocks dbindex n disk
    some (disk.write ((dbindex + n) % 2 ^ 32)
      (Lfdbfree.layout.enc ⟨none, List.replicate (LF_BLKSIZ - 4) 0⟩))

/-- A disk of sixteen sectors with seven index blocks, formatted. -/
def sampleDisk : Disk :=
  let blank : Disk := fun _ => List.replicate LF_BLKSIZ 0
  (lfscreate blank 7 (16 * LF_BLKSIZ)).getD blank

end Xinu.Lfs
