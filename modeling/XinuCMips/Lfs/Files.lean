import XinuCMips.Lfs.Disk

/-!
# Local files

The calls of the local file system over a disk: the master device
(`lfsOpen`) and the pseudo-devices of open files (`lflPutc`, `lflGetc`,
`lflSeek`, `lflControl`, `lflClose` and what they call). A call on an open
file sees the disk, the global data and the control block of that file, its
`View`.

Every call holds `lfmutex` of its file from start to end and `lf_mutex`
while it works on the directory, and releases them on every path, so calls
made one after another never find them taken; the semaphores are left out.
The bytes below the part of a stack buffer that is written before it goes to
disk are whatever lies there: `lftruncate` takes them as an argument.
-/

namespace Xinu.Lfs

open Bytes

def OK : Int := 1
def SYSERR : Int := -1
def EOF : Int := -2

def LF_MODE_R : Nat := 0x01
def LF_MODE_W : Nat := 0x02
def LF_MODE_RW : Nat := 0x03
def LF_MODE_N : Nat := 0x04
def LF_MODE_O : Nat := 0x08
def LF_CTL_TRUNC : Int := 2
def LF_IMASK : Nat := 0x00001fff
def LF_DMASK : Nat := 0x000001ff
/-- Character that fills a new data block, `'+'`. -/
def DFILL : UInt8 := 43

/-- What the calls do not return from. -/
inductive Fault
  /-- `panic(msg)` -/
  | panic (msg : String)
  /-- an index block is fetched through `LF_INULL` -/
  | wild
  /-- a chain of index blocks goes on for longer than the file -/
  | spins
  deriving DecidableEq, Repr

/-! ## Data in memory -/

inductive LfState
  | free
  | used
  deriving DecidableEq, Repr

/-- `struct lfdata`: the global data of the local file system. -/
structure Lfdata where
  lfDir : Lfdir
  lfDirpresent : Bool
  lfDirdirty : Bool
  deriving DecidableEq, Repr

/-- `struct lflcblk`: the control block of a pseudo-device. `lfdirptr` is the
index in `lfd_files` of the entry it points to, and `lfbyte` the offset in
`lfdblock`, `LF_BLKSIZ` when it lies outside. -/
structure Lflcblk where
  lfstate : LfState
  lfdev : Nat
  lfdirptr : Nat
  lfmode : Nat
  lfpos : Nat
  lfname : List UInt8
  lfinum : Option Nat
  lfiblock : Lfiblk
  lfdnum : Option Nat
  lfdblock : List UInt8
  lfbyte : Nat
  lfibdirty : Bool
  lfdbdirty : Bool
  deriving DecidableEq, Repr

/-- What a call on an open file works on. -/
structure View where
  disk : Disk
  glob : Lfdata
  file : Lflcblk

/-- `*ldptr`, the directory entry of the file. -/
def View.ldptr (v : View) : Ldentry :=
  v.glob.lfDir.lfdFiles.getD v.file.lfdirptr ⟨0, none, []⟩

/-- Store into `*ldptr`. -/
def View.setEntry (v : View) (e : Ldentry) : View :=
  { v with glob := { v.glob with lfDir := { v.glob.lfDir with
      lfdFiles := v.glob.lfDir.lfdFiles.set v.file.lfdirptr e } } }

/-! ## Flushing and allocation -/

/-- `write(lf_dskdev, &lf_dir, LF_AREA_DIR); lf_dirdirty = FALSE`. -/
def View.saveDir (v : View) : View where
  disk := v.disk.write LF_AREA_DIR (Lfdir.layout.enc v.glob.lfDir)
  glob := { v.glob with lfDirdirty := false }
  file := v.file

/-- Write the directory if it has changed. -/
def flushDir (v : View) : View :=
  if v.glob.lfDirdirty then v.saveDir else v

/-- Write data block if it has changed. -/
def flushDblock (v : View) : View :=
  if v.file.lfdbdirty then
    { v with
      disk := v.file.lfdnum.elim v.disk fun n => v.disk.write n v.file.lfdblock
      file := { v.file with lfdbdirty := false } }
  else v

/-- Write i-block if it has changed. -/
def flushIblock (v : View) : View :=
  if v.file.lfibdirty then
    { v with
      disk := v.file.lfinum.elim v.disk fun n => lfibput v.disk n v.file.lfiblock
      file := { v.file with lfibdirty := false } }
  else v

/-- Flush directory, data block, and index block for an open file. -/
def lfflush (v : View) : Int × View :=
  if v.file.lfstate = .free then (SYSERR, v)
  else (OK, flushIblock (flushDblock (flushDir v)))

/-- If existing index block or data block changed, write to disk. -/
def writeBack (v : View) : View :=
  if v.file.lfibdirty || v.file.lfdbdirty then (lfflush v).2 else v

/-- Allocate a new index block from free list on disk. -/
def lfiballoc (v : View) : Except Fault (Nat × View) :=
  match v.glob.lfDir.lfdIfree with
  | none => .error (.panic "out of index blocks")
  | some ibnum =>
    -- unlink the block and write a copy of the directory to disk
    let dir := { v.glob.lfDir with lfdIfree := (lfibget v.disk ibnum).ibNext }
    .ok (ibnum, View.saveDir { v with glob := { v.glob with lfDir := dir } })

/-- Allocate a new data block from free list on disk, into the data block
buffer of the file. -/
def lfdballoc (v : View) : Except Fault (Nat × View) :=
  match v.glob.lfDir.lfdDfree with
  | none => .error (.panic "out of data blocks")
  | some dnum =>
    let dir := { v.glob.lfDir with lfdDfree := (Lfdbfree.layout.dec (v.disk dnum)).lfNextdb }
    -- fill data block to erase old data
    .ok (dnum, View.saveDir
      { v with
        glob := { v.glob with lfDir := dir }
        file := { v.file with lfdblock := List.replicate LF_BLKSIZ DFILL } })

/-- Free a data block given its block number; `unused` is what lies in the
buffer behind the pointer. The directory is written without a look at
`lf_dirdirty`. -/
def lfdbfree (unused : List UInt8) (v : View) (dnum : Nat) : View :=
  let dir := { v.glob.lfDir with lfdDfree := some dnum }
  { v with
    disk := (v.disk.write dnum (Lfdbfree.layout.enc ⟨v.glob.lfDir.lfdDfree, unused⟩)).write
      LF_AREA_DIR (Lfdir.layout.enc dir)
    glob := { v.glob with lfDir := dir } }

/-! ## Positioning -/

/-- Load index block `ibnum` of the file. -/
def getIblock (v : View) (ibnum : Nat) : View :=
  { v with file := { v.file with lfiblock := lfibget v.disk ibnum, lfinum := some ibnum } }

/-- The new i-block `ibnum` becomes the first one of an empty file. -/
def startFile (v : View) (ibnum : Nat) : View :=
  View.setEntry
    { v with file := { v.file with
        lfiblock := lfibclear 0, lfibdirty := true, lfinum := some ibnum } }
    { v.ldptr with ldIlist := some ibnum }

/-- The first part of `lfsetup`: get an index block of the file into memory,
the first one if there is none or if the position has moved before it. -/
def firstIblock (v : View) : Except Fault View :=
  match v.file.lfinum, v.ldptr.ldIlist with
  | none, none => do
    -- empty file: get new i-block
    let (ibnum, v) ← lfiballoc v
    .ok (startFile v ibnum)
  | none, some ibnum => .ok (getIblock v ibnum)
  | some _, ldIlist =>
    if v.file.lfpos < v.file.lfiblock.ibOffset then
      match ldIlist with
      | none => .error .wild
      | some ibnum => .ok (getIblock v ibnum)
    else .ok v

/-- The new i-block `ibnum` follows the current one, which is written with
the link to it, and takes its place in memory. -/
def extendFile (v : View) (ibnum : Nat) : View :=
  { v with
    disk := v.file.lfinum.elim v.disk fun n =>
      lfibput v.disk n { v.file.lfiblock with ibNext := some ibnum }
    file := { v.file with
      lfinum := some ibnum
      lfiblock := lfibclear ((v.file.lfiblock.ibOffset + LF_IDATA) % 2 ^ 32)
      lfibdirty := true } }

/-- `lfptr->lfdnum = LF_DNULL`. -/
def dropDblock (v : View) : View := { v with file := { v.file with lfdnum := none } }

/-- One turn of the loop: move to the next index block of the file, a new one
at its end, and invalidate the old data block. -/
def nextIblock (v : View) : Except Fault View :=
  match v.file.lfiblock.ibNext with
  | none => do
    let (ibnum, v) ← lfiballoc v
    .ok (dropDblock (extendFile v ibnum))
  | some ibnum => .ok (dropDblock (getIblock v ibnum))

/-- `while ((lfpos & ~LF_IMASK) > ib_offset)`: loop until the index block
covers the current file position, for at most `fuel` turns. -/
def coverLoop : Nat → View → Except Fault View
  | fuel, v =>
    if v.file.lfiblock.ibOffset < v.file.lfpos - (v.file.lfpos &&& LF_IMASK) then
      match fuel with
      | 0 => .error .spins
      | fuel + 1 => do
        let v ← nextIblock v
        coverLoop fuel v
    else .ok v

/-- The new data block `dnum` goes into slot `dindex` of the index block. -/
def addDblock (v : View) (dindex dnum : Nat) : View :=
  { v with file := { v.file with
      lfiblock :=
        { v.file.lfiblock with ibDba := v.file.lfiblock.ibDba.set dindex (some dnum) }
      lfibdirty := true
      lfdnum := some dnum } }

/-- Read data block `dnum` of the file. -/
def getDblock (v : View) (dnum : Nat) : View :=
  { v with file := { v.file with
      lfdblock := v.disk dnum, lfdbdirty := false, lfdnum := some dnum } }

/-- Get the data block of slot `dindex` into memory, a new one if the slot is
empty. -/
def fetchDblock (v : View) (dindex : Nat) : Except Fault View :=
  match v.file.lfiblock.ibDba.getD dindex none with
  | none => do
    let (dnum, v) ← lfdballoc v
    .ok (addDblock v dindex dnum)
  | some dnum => .ok (if some dnum ≠ v.file.lfdnum then getDblock v dnum else v)

/-- Use current file offset to set the pointer to the next byte. -/
def setByte (v : View) : View :=
  { v with file := { v.file with lfbyte := v.file.lfpos &&& LF_DMASK } }

/-- Set a file's index block and data block for the current file position. -/
def lfsetup (v : View) : Except Fault View := do
  let v ← firstIblock (writeBack v)
  -- each turn of the loop moves `LF_IDATA` bytes ahead
  let v ← coverLoop (v.file.lfpos / LF_IDATA + 1) v
  let v ← fetchDblock v ((v.file.lfpos &&& LF_IMASK) >>> 9)
  .ok (setByte v)

/-! ## Calls on an open file -/

/-- `if (lfbyte >= &lfdblock[LF_BLKSIZ])`: set up a new block when the byte
pointer is outside the current one. -/
def ensureBlock (v : View) : Except Fault View :=
  if LF_BLKSIZ ≤ v.file.lfbyte then lfsetup v else .ok v

/-- If appending a byte to the file, increment the file size. -/
def growFile (v : View) : View :=
  if v.ldptr.ldSize ≤ v.file.lfpos then
    View.setEntry { v with glob := { v.glob with lfDirdirty := true } }
      { v.ldptr with ldSize := (v.ldptr.ldSize + 1) % 2 ^ 32 }
  else v

/-- `lfbyte++; lfpos++`. -/
def stepByte (f : Lflcblk) : Lflcblk :=
  { f with lfbyte := f.lfbyte + 1, lfpos := (f.lfpos + 1) % 2 ^ 32 }

/-- Place byte in buffer and mark buffer "dirty". -/
def putByte (ch : UInt8) (v : View) : View :=
  { v with file := { stepByte v.file with
      lfdblock := v.file.lfdblock.set v.file.lfbyte ch, lfdbdirty := true } }

/-- Write a single byte to an open local file. -/
def lflPutc (ch : UInt8) (v : View) : Except Fault (Int × View) :=
  if v.file.lfstate ≠ .used then .ok (SYSERR, v)
  -- an attempt to skip bytes beyond the current end of the file
  else if v.ldptr.ldSize < v.file.lfpos then .ok (SYSERR, v)
  else do
    let v ← ensureBlock v
    .ok (OK, putByte ch (growFile v))

/-- Read the next byte from an open local file. -/
def lflGetc (v : View) : Except Fault (Int × View) :=
  if v.file.lfstate ≠ .used then .ok (SYSERR, v)
  else if v.ldptr.ldSize ≤ v.file.lfpos then .ok (EOF, v)
  else do
    let v ← ensureBlock v
    .ok (((v.file.lfdblock.getD v.file.lfbyte 0).toNat : Int),
      { v with file := stepByte v.file })

/-- The loop of `lflWrite`; a byte that is refused ends it. -/
def lflWriteLoop : List UInt8 → View → Except Fault (Bool × View)
  | [], v => .ok (true, v)
  | ch :: buff, v => do
    let (r, v) ← lflPutc ch v
    if r = SYSERR then .ok (false, v) else lflWriteLoop buff v

/-- Write the first `count` bytes of `buff` to an open local file. -/
def lflWrite (buff : List UInt8) (count : Int) (v : View) : Except Fault (Int × View) :=
  if count < 0 then .ok (SYSERR, v)
  else do
    let (done, v) ← lflWriteLoop (buff.take count.toNat) v
    .ok (if done then count else SYSERR, v)

/-- The loop of `lflRead`, for `n` more bytes after those in `buff`. -/
def lflReadLoop : Nat → List UInt8 → View → Except Fault ((Int × List UInt8) × View)
  | 0, buff, v => .ok ((buff.length, buff), v)
  | n + 1, buff, v => do
    let (nxtbyte, v) ← lflGetc v
    if nxtbyte = SYSERR then .ok ((SYSERR, buff), v)
    else if nxtbyte = EOF then
      -- EOF before finished
      .ok ((if buff.length = 0 then EOF else buff.length, buff), v)
    else lflReadLoop n (buff ++ [UInt8.ofNat nxtbyte.toNat]) v

/-- Read up to `count` bytes from an open local file: the value returned and
the bytes put into the caller's buffer. -/
def lflRead (count : Int) (v : View) : Except Fault ((Int × List UInt8) × View) :=
  if count < 0 then .ok ((SYSERR, []), v) else lflReadLoop count.toNat [] v

/-- Seek to a specified position in a file. -/
def lflSeek (offset : Nat) (v : View) : Int × View :=
  if v.file.lfstate ≠ .used then (SYSERR, v)
  else if v.ldptr.ldSize < offset then (SYSERR, v)
  -- the byte pointer is invalidated
  else (OK, { v with file := { v.file with lfpos := offset, lfbyte := LF_BLKSIZ } })

/-- Free each data block of an index block. -/
def freeDblocks (unused : List UInt8) : List (Option Nat) → View → View
  | [], v => v
  | none :: dba, v => freeDblocks unused dba v
  | some nextdb :: dba, v => freeDblocks unused dba (lfdbfree unused v nextdb)

/-- The link of a disposed i-block: the last one of the file is made to point
to the current free list. -/
def linkBefore (ifree : Option Nat) (iblock : Lfiblk) : Option Nat :=
  if iblock.ibNext = none then ifree else iblock.ibNext

/-- Free the data blocks of i-block `nextib` and write it, cleared, back to
disk. -/
def disposeIblock (unused : List UInt8) (ifree : Option Nat) (v : View) (nextib : Nat) : View :=
  let iblock := lfibget v.disk nextib
  let w := freeDblocks unused iblock.ibDba v
  { w with
    disk := lfibput w.disk nextib { lfibclear 0 with ibNext := linkBefore ifree iblock } }

/-- `for (nextib=firstib; nextib!=ifree; nextib=iblock.ib_next)`: walk along
the index blocks of the file and put them, cleared, before the free list. -/
def truncLoop (unused : List UInt8) (ifree : Option Nat) :
    Nat → Option Nat → View → Except Fault View
  | fuel, nextib, v =>
    if nextib = ifree then .ok v
    else
      match nextib, fuel with
      | none, _ => .error .wild
      | some _, 0 => .error .spins
      | some nextib, fuel + 1 =>
        truncLoop unused ifree fuel (linkBefore ifree (lfibget v.disk nextib))
          (disposeIblock unused ifree v nextib)

/-- Forget the position and the blocks in memory. -/
def resetFile (v : View) : View :=
  { v with file := { v.file with
      lfpos := 0, lfinum := none, lfdnum := none, lfbyte := LF_BLKSIZ } }

/-- Clear the directory entry of the file. -/
def clearEntry (v : View) : View :=
  View.setEntry { v with glob := { v.glob with lfDirdirty := true } }
    { v.ldptr with ldIlist := none, ldSize := 0 }

/-- The free list starts at `firstib`. -/
def setIfree (v : View) (firstib : Option Nat) : View :=
  { v with glob := { v.glob with
      lfDir := { v.glob.lfDir with lfdIfree := firstib }, lfDirdirty := true } }

/-- The second half of `lftruncate`, for a file with nothing in memory. -/
def disposeBlocks (unused : List UInt8) (v : View) : Except Fault View := do
  let w ← truncLoop unused v.glob.lfDir.lfdIfree (v.ldptr.ldSize / LF_IDATA + 1)
    v.ldptr.ldIlist (clearEntry v)
  .ok (setIfree w v.ldptr.ldIlist)

/-- Truncate a file by freeing its index and data blocks. -/
def lftruncate (unused : List UInt8) (v : View) : Except Fault (Int × View) :=
  if v.ldptr.ldSize = 0 then .ok (OK, v)
  else do
    let v ← disposeBlocks unused (resetFile (writeBack v))
    .ok (OK, v)

/-- Control functions: truncation is the only one. -/
def lflControl (func : Int) (unused : List UInt8) (v : View) : Except Fault (Int × View) :=
  if v.file.lfstate ≠ .used then .ok (SYSERR, v)
  else if func = LF_CTL_TRUNC then lftruncate unused v
  else .ok (SYSERR, v)

/-- Write everything that has changed, on close. -/
def flushAll (v : View) : View :=
  if v.glob.lfDirdirty || v.file.lfdbdirty || v.file.lfibdirty then (lfflush v).2 else v

/-- Close a file by flushing output and freeing device entry. -/
def lflClose (v : View) : Int × View :=
  if v.file.lfstate ≠ .used then (SYSERR, v)
  else (OK, { flushAll v with file := { (flushAll v).file with lfstate := .free } })

/-! ## Opening -/

/-- A string of the caller: the characters before the null character. -/
structure CString where
  chars : List UInt8
  nonzero : (0 : UInt8) ∉ chars

/-- The loop of `lfgetmode`, from the mode bits found so far. -/
def lfgetmodeLoop : List UInt8 → Nat → Int
  | [], mbits => ((if mbits &&& LF_MODE_RW = 0 then mbits ||| LF_MODE_RW else mbits : Nat) : Int)
  | ch :: mode, mbits =>
    if ch = 114 then -- 'r'
      if mbits &&& LF_MODE_R ≠ 0 then SYSERR else lfgetmodeLoop mode (mbits ||| LF_MODE_R)
    else if ch = 119 then -- 'w'
      if mbits &&& LF_MODE_W ≠ 0 then SYSERR else lfgetmodeLoop mode (mbits ||| LF_MODE_W)
    else if ch = 111 then -- 'o'
      if mbits &&& LF_MODE_O ≠ 0 ∨ mbits &&& LF_MODE_N ≠ 0 then SYSERR
      else lfgetmodeLoop mode (mbits ||| LF_MODE_O)
    else if ch = 110 then -- 'n'
      if mbits &&& LF_MODE_O ≠ 0 ∨ mbits &&& LF_MODE_N ≠ 0 then SYSERR
      else lfgetmodeLoop mode (mbits ||| LF_MODE_N)
    else SYSERR

/-- Parse mode argument and generate integer of mode bits. -/
def lfgetmode (mode : CString) : Int := lfgetmodeLoop mode.chars 0

/-- The comparison of a requested name with a stored one, both read up to
the null character of the requested name. -/
def sameName : List UInt8 → List UInt8 → Bool
  | [], cmp => cmp.headD 0 == 0
  | c :: nam, cmp => if c ≠ cmp.headD 0 then false else sameName nam cmp.tail

/-- `while ((*to++ = *from++) != NULLCH)`: copy a name and its null character
over the first characters of the destination. -/
def copyName (name : CString) (dest : List UInt8) : List UInt8 :=
  splice 0 (name.chars ++ [0]) dest

/-- `while ((*to = *from++) != NULLCH)`: here `to` stays where it is, and each
character is stored over the one before. -/
def copyNameHere : List UInt8 → List UInt8 → List UInt8
  | [], dest => dest.set 0 0
  | c :: name, dest => copyNameHere name (dest.set 0 c)

/-- The search of the pseudo-devices: nothing if the named file is open, else
the first device that is not in use. -/
def searchTab (name : CString) : List Lflcblk → Nat → Option Nat → Option (Option Nat)
  | [], _, lfnext => some lfnext
  | lf :: tab, i, lfnext =>
    if lf.lfstate = .free then searchTab name tab (i + 1) (lfnext.or (some i))
    else if sameName name.chars lf.lfname then none
    else searchTab name tab (i + 1) lfnext

/-- The search of the directory. -/
def searchDir (name : CString) (dir : Lfdir) : Option Nat :=
  (dir.lfdFiles.take dir.lfdNfiles).findIdx? fun e => sameName name.chars e.ldName

/-- The local file system: disk, global data and pseudo-devices. `readable`
says whether the directory can be read from the disk at all. -/
structure FileSystem where
  disk : Disk
  readable : Bool
  glob : Lfdata
  lfltab : List Lflcblk

/-- Obtain copy of directory if not already present in memory. -/
def loadDir (s : FileSystem) : Option FileSystem :=
  if s.glob.lfDirpresent then some s
  else if s.readable then
    some { s with glob := { s.glob with
      lfDir := Lfdir.layout.dec (s.disk LF_AREA_DIR), lfDirpresent := true } }
  else none

/-- Allocate next directory entry and initialize to empty file. -/
def newEntry (name : CString) (s : FileSystem) : FileSystem :=
  let dir := s.glob.lfDir
  let old := dir.lfdFiles.getD dir.lfdNfiles ⟨0, none, []⟩
  { s with glob := { s.glob with lfDir := { dir with
      lfdNfiles := dir.lfdNfiles + 1
      lfdFiles := dir.lfdFiles.set dir.lfdNfiles ⟨0, none, copyName name old.ldName⟩ } } }

/-- The control block of a pseudo-device that is opened for directory entry
`i`: position 0, and neither index block nor data block valid. -/
def openBlock (lf : Lflcblk) (i : Nat) (name : CString) (mbits : Nat) : Lflcblk :=
  { lf with
    lfstate := .used
    lfdirptr := i
    lfmode := mbits &&& LF_MODE_RW
    lfpos := 0
    lfname := copyNameHere name.chars lf.lfname
    lfinum := none
    lfdnum := none
    lfbyte := LF_BLKSIZ
    lfibdirty := false
    lfdbdirty := false }

/-- Initialize the local file pseudo-device `lfnext` for directory entry `i`. -/
def openFile (s : FileSystem) (lfnext i : Nat) (name : CString) (mbits : Nat) :
    Int × FileSystem :=
  match s.lfltab[lfnext]? with
  | none => (SYSERR, s)
  | some lf => (lf.lfdev, { s with lfltab := s.lfltab.set lfnext (openBlock lf i name mbits) })

/-- The part of `lfsOpen` after the directory is in memory. -/
def openNamed (name : CString) (mbits lfnext : Nat) (s : FileSystem) : Int × FileSystem :=
  match searchDir name s.glob.lfDir with
  | none =>
    -- case #1: file is not in directory
    if mbits &&& LF_MODE_O ≠ 0 then (SYSERR, s)
    else if LF_NUM_DIR_ENT ≤ s.glob.lfDir.lfdNfiles then (SYSERR, s)
    else openFile (newEntry name s) lfnext s.glob.lfDir.lfdNfiles name mbits
  | some i =>
    -- case #2: file is in directory
    if mbits &&& LF_MODE_N ≠ 0 then (SYSERR, s)
    else openFile s lfnext i name mbits

/-- Open a file and allocate a local file pseudo-device. -/
def lfsOpen (name mode : CString) (s : FileSystem) : Int × FileSystem :=
  -- no null character among the first `LF_NAME_LEN`: name is too long
  if LF_NAME_LEN ≤ name.chars.length then (SYSERR, s)
  else if lfgetmode mode = SYSERR then (SYSERR, s)
  else
    match searchTab name s.lfltab 0 none with
    | none | some none => (SYSERR, s)
    | some (some lfnext) =>
      match loadDir s with
      | none => (SYSERR, s)
      | some s => openNamed name (lfgetmode mode).toNat lfnext s

/-! ## Initialization -/

/-- A directory of null characters. -/
def zeroDir : Lfdir where
  lfdDfree := some 0
  lfdIfree := some 0
  lfdNfiles := 0
  lfdFiles := List.replicate LF_NUM_DIR_ENT ⟨0, some 0, List.replicate LF_NAME_LEN 0⟩
  padding := List.replicate 20 0

/-- Initialize the local file system master device. -/
def lfsInit : Lfdata where
  lfDir := zeroDir
  lfDirpresent := false
  lfDirdirty := false

/-- Initialize the control block of pseudo-device `dvnum`. -/
def lflInit (dvnum : Nat) : Lflcblk where
  lfstate := .free
  lfdev := dvnum
  lfdirptr := 0
  lfmode := 0
  lfpos := 0
  lfname := List.replicate LF_NAME_LEN 0
  lfinum := none
  lfiblock := ⟨some 0, 0, List.replicate LF_IBLEN (some 0)⟩
  lfdnum := some 0
  lfdblock := List.replicate LF_BLKSIZ 0
  lfbyte := LF_BLKSIZ
  lfibdirty := false
  lfdbdirty := false

/-- The file system as it starts on a disk, with one pseudo-device for each
device number of `devs`. -/
def bootLfs (disk : Disk) (devs : List Nat) : FileSystem where
  disk := disk
  readable := true
  glob := lfsInit
  lfltab := devs.map lflInit

/-! ## Sequences of calls -/

/-- What happens to lie in the part of a stack buffer that is not written. -/
abbrev Unused := { l : List UInt8 // l.length = LF_BLKSIZ - 4 }

/-- A call, with its arguments; those on a file name its minor device number. -/
inductive Call
  | open (name mode : CString)
  | putc (minor : Nat) (ch : UInt8)
  | write (minor : Nat) (buff : List UInt8) (count : Int)
  | getc (minor : Nat)
  | read (minor : Nat) (count : Int)
  | seek (minor : Nat) (offset : Nat)
  | control (minor : Nat) (func : Int) (unused : Unused)
  | flush (minor : Nat)
  | close (minor : Nat)

/-- What a call gives back: its value, and the bytes it stores for the caller. -/
abbrev Reply := Int × List UInt8

/-- A call on minor device `m`; there is no device beyond the table. -/
def onFile (m : Nat) (call : View → Except Fault (Reply × View)) (s : FileSystem) :
    Except Fault (Reply × FileSystem) :=
  match s.lfltab[m]? with
  | none => .ok ((SYSERR, []), s)
  | some file => do
    let (r, v) ← call ⟨s.disk, s.glob, file⟩
    .ok (r, { s with disk := v.disk, glob := v.glob, lfltab := s.lfltab.set m v.file })

/-- A call that stores nothing for the caller. -/
def plain (call : View → Except Fault (Int × View)) (v : View) : Except Fault (Reply × View) := do
  let (r, v) ← call v
  .ok ((r, []), v)

/-- One call. -/
def exec : Call → FileSystem → Except Fault (Reply × FileSystem)
  | .open name mode, s => .ok (((lfsOpen name mode s).1, []), (lfsOpen name mode s).2)
  | .putc m ch, s => onFile m (plain (lflPutc ch)) s
  | .write m buff count, s => onFile m (plain (lflWrite buff count)) s
  | .getc m, s => onFile m (plain lflGetc) s
  | .read m count, s => onFile m (lflRead count) s
  | .seek m offset, s => onFile m (plain fun v => .ok (lflSeek offset v)) s
  | .control m func unused, s => onFile m (plain (lflControl func unused.1)) s
  | .flush m, s => onFile m (plain fun v => .ok (lfflush v)) s
  | .close m, s => onFile m (plain fun v => .ok (lflClose v)) s

/-- A sequence of calls, and what they give back. -/
def run : List Call → FileSystem → Except Fault (List Reply × FileSystem)
  | [], s => .ok ([], s)
  | c :: cs, s => do
    let (r, s) ← exec c s
    let (rs, s) ← run cs s
    .ok (r :: rs, s)

end Xinu.Lfs
