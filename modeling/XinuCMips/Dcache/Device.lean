import XinuCMips.Cpu.Decode

/-!
# The data cache and its memory

`D_CACHE(behavioral)` of `cache.vhd`, `RAM(simulation)` of `ram.vhd` and the memory
interface of MEM in `core.vhd`, one bus transaction a step. `D_CACHE(fake)` passes the
transaction to the RAM.

A byte that is 'X' on the data bus is a byte of the word `undef`.
-/

namespace Xinu.Dcache

open Cpu (Word byteSel bytesRead)

abbrev Byte := BitVec 8

-- widths of p_MEMORY
def dataAddrsBits : Nat := 19
abbrev dcTagBits : Nat := 21
abbrev dcIndexBits : Nat := 7
abbrev dcWordSelBits : Nat := 2
abbrev dcByteSelBits : Nat := 2
def dcWordsPerBlock : Nat := 4

-- ---------------------------------------------------------------------------
-- RAM
-- ---------------------------------------------------------------------------

/-- `storage`, by byte. -/
abbrev Storage := Nat → Byte

/-- `index` of `accessRAM`: the RAM does not look at the bits above its size. -/
def index (addr : Word) : Nat := (addr.extractLsb' 0 dataAddrsBits).toNat

/-- A write of `accessRAM`: part of a word comes in the lower bits of the bus. -/
def ramWrite (sel : BitVec 4) (addr data : Word) (s : Storage) : Storage :=
  let i := index addr
  match sel.toNat with
  | 0b1111 =>
      Function.update (Function.update (Function.update (Function.update s
        (i + 3) (data.extractLsb' 24 8)) (i + 2) (data.extractLsb' 16 8))
        (i + 1) (data.extractLsb' 8 8)) i (data.extractLsb' 0 8)
  | 0b1100 | 0b0011 =>
      Function.update (Function.update s (i + 1) (data.extractLsb' 8 8)) i (data.extractLsb' 0 8)
  | 0b0001 | 0b0010 | 0b0100 | 0b1000 => Function.update s i (data.extractLsb' 0 8)
  | _ => s

/-- A read of `accessRAM`: part of a word goes out in its own place. -/
def ramRead (undef : Word) (sel : BitVec 4) (addr : Word) (s : Storage) : Word :=
  let i := index addr
  match sel.toNat with
  | 0b1111 => s (i + 3) ++ s (i + 2) ++ s (i + 1) ++ s i
  | 0b1100 => s (i + 1) ++ s i ++ undef.extractLsb' 0 16
  | 0b0011 => undef.extractLsb' 16 16 ++ s (i + 1) ++ s i
  | 0b0001 => undef.extractLsb' 8 24 ++ s i
  | 0b0010 => undef.extractLsb' 16 16 ++ s i ++ undef.extractLsb' 0 8
  | 0b0100 => undef.extractLsb' 24 8 ++ s i ++ undef.extractLsb' 0 16
  | 0b1000 => s i ++ undef.extractLsb' 0 24
  | _ => undef

-- ---------------------------------------------------------------------------
-- The CPU side
-- ---------------------------------------------------------------------------

/-- A load or a store in MEM. -/
structure Access where
  /-- `wr` is active -/
  write : Bool
  memT : BitVec 4
  /-- `MM_addr` -/
  addr : Word
  data : Word

namespace Access

variable (undef : Word) (a : Access)

/-- `i_d_addr` of process `MM_MEM_CTRL_INTERFACE`. -/
def iDAddr : BitVec 2 :=
  match (a.memT.extractLsb' 0 2).toNat with
  | 0b11 => 0b00
  | 0b10 => BitVec.ofBool (a.addr.getLsbD 1) ++ 0#1
  | 0b01 => a.addr.extractLsb' 0 2
  | _ => undef.extractLsb' 0 2

/-- `d_addr`. -/
def dAddr : Word := a.addr.extractLsb' 2 30 ++ a.iDAddr undef

/-- `b_sel`. -/
def bSel : BitVec 4 := byteSel a.memT a.addr

/-- `rd_data`, what MEM makes of the word on the data bus. -/
def rdData (raw : Word) : Word := bytesRead undef a.memT a.addr raw

/-- The access is of a byte, a half-word or a word. -/
def Sized : Prop := a.memT.extractLsb' 0 2 ≠ 0

end Access

-- ---------------------------------------------------------------------------
-- D_CACHE(fake)
-- ---------------------------------------------------------------------------

/-- A transaction without a cache: what a read puts on the data bus, and the memory. -/
def fakeAccess (undef : Word) (a : Access) (s : Storage) : Option Word × Storage :=
  if a.write then (none, ramWrite a.bSel (a.dAddr undef) a.data s)
  else (some (ramRead undef a.bSel (a.dAddr undef) s), s)

-- ---------------------------------------------------------------------------
-- D_CACHE(behavioral)
-- ---------------------------------------------------------------------------

/-- `dc_block`. -/
abbrev DcBlock := BitVec dcWordSelBits → Word

/-- `dc_tag`. -/
structure DcTag where
  val : Bool
  tag : BitVec dcTagBits

/-- The signals and variables of the cache that outlive a transaction. -/
structure DCache where
  dcTagsMatrix : BitVec dcIndexBits → DcTag
  dcDataMatrix : BitVec dcIndexBits → DcBlock
  blk : DcBlock
  iRefCnt : Nat
  iRdHitCnt : Nat
  iWrHitCnt : Nat

/-- The cache after `rst`; what `rst` does not set is any word. -/
def reset (tag : BitVec dcIndexBits → BitVec dcTagBits) (data : BitVec dcIndexBits → DcBlock)
    (blk : DcBlock) : DCache :=
  { dcTagsMatrix := fun i => { val := false, tag := tag i }, dcDataMatrix := data, blk := blk,
    iRefCnt := 0, iRdHitCnt := 0, iWrHitCnt := 0 }

def inpTag (addr : Word) : BitVec dcTagBits := addr.extractLsb' 11 21
def inpIndex (addr : Word) : BitVec dcIndexBits := addr.extractLsb' 4 7
def inpWSel (addr : Word) : BitVec dcWordSelBits := addr.extractLsb' 2 2
def inpBSel (addr : Word) : BitVec dcByteSelBits := addr.extractLsb' 0 2

/-- `mem_addr`. -/
def memAddr (tag : BitVec dcTagBits) (idx : BitVec dcIndexBits) (wSel : BitVec dcWordSelBits)
    (bSel : BitVec dcByteSelBits) : Word := tag ++ idx ++ wSel ++ bSel

/-- The loop of a read miss, from the word that is asked for around the block. -/
def fill (undef : Word) (s : Storage) (addr : Word) (blk : DcBlock) : DcBlock :=
  (List.range dcWordsPerBlock).foldl
    (fun blk i =>
      let wdSel := BitVec.ofNat dcWordSelBits (((inpWSel addr).toNat + i) % dcWordsPerBlock)
      Function.update blk wdSel
        (ramRead undef 0b1111 (memAddr (inpTag addr) (inpIndex addr) wdSel (inpBSel addr)) s))
    blk

/-- `d_word` of a write hit. -/
def mergeWrite (undef : Word) (xfer : BitVec 4) (inp word : Word) : Word :=
  match xfer.toNat with
  | 0b1111 => inp
  | 0b1100 => inp.extractLsb' 0 16 ++ word.extractLsb' 0 16
  | 0b0011 => word.extractLsb' 16 16 ++ inp.extractLsb' 0 16
  | 0b0001 => word.extractLsb' 8 24 ++ inp.extractLsb' 0 8
  | 0b0010 => word.extractLsb' 16 16 ++ inp.extractLsb' 0 8 ++ word.extractLsb' 0 8
  | 0b0100 => word.extractLsb' 24 8 ++ inp.extractLsb' 0 8 ++ word.extractLsb' 0 16
  | 0b1000 => inp.extractLsb' 0 8 ++ word.extractLsb' 0 24
  | _ => undef

namespace DCache

variable (undef : Word) (addr : Word) (c : DCache)

/-- `v_miss`, negated. -/
def hit : Bool :=
  (c.dcTagsMatrix (inpIndex addr)).val && (c.dcTagsMatrix (inpIndex addr)).tag == inpTag addr

/-- A read of `U_access`: `cpu_data_out`, and the cache. -/
def read (s : Storage) : Word × DCache :=
  let idx := inpIndex addr
  if c.hit addr then
    let blk := c.dcDataMatrix idx
    (blk (inpWSel addr),
      { c with blk := blk, iRefCnt := c.iRefCnt + 1, iRdHitCnt := c.iRdHitCnt + 1 })
  else
    let blk := fill undef s addr c.blk
    (blk (inpWSel addr),
      { c with dcTagsMatrix := Function.update c.dcTagsMatrix idx { val := true, tag := inpTag addr },
               dcDataMatrix := Function.update c.dcDataMatrix idx blk, blk := blk,
               iRefCnt := c.iRefCnt + 1 })

/-- A write of `U_access`, in the cache. -/
def write (xfer : BitVec 4) (inp : Word) : DCache :=
  let idx := inpIndex addr
  if c.hit addr then
    let word := mergeWrite undef xfer inp (c.dcDataMatrix idx (inpWSel addr))
    let blk := Function.update (c.dcDataMatrix idx) (inpWSel addr) word
    { c with dcDataMatrix := Function.update c.dcDataMatrix idx blk, blk := blk,
             iRefCnt := c.iRefCnt + 1, iWrHitCnt := c.iWrHitCnt + 1 }
  else { c with iRefCnt := c.iRefCnt + 1 }

/-- A transaction through the cache: what a read puts on the data bus, the cache and the
memory. -/
def access (a : Access) (s : Storage) : Option Word × DCache × Storage :=
  let addr := a.dAddr undef
  if a.write then
    (none, c.write undef addr a.bSel a.data,
      ramWrite a.bSel (memAddr (inpTag addr) (inpIndex addr) (inpWSel addr) (inpBSel addr)) a.data s)
  else
    let r := c.read undef addr s
    (some r.1, r.2, s)

end DCache

/-- The cache and the memory after `n` transactions. -/
def cached (undef : Word) (ops : Nat → Access) (c : DCache) (s : Storage) : Nat → DCache × Storage
  | 0 => (c, s)
  | n + 1 =>
      let p := cached undef ops c s n
      (p.1.access undef (ops n) p.2).2

/-- The memory after `n` transactions without a cache. -/
def direct (undef : Word) (ops : Nat → Access) (s : Storage) : Nat → Storage
  | 0 => s
  | n + 1 => (fakeAccess undef (ops n) (direct undef ops s n)).2

end Xinu.Dcache
