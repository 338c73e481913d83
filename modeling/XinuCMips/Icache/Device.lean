import Mathlib.Logic.Function.Basic

/-!
# The instruction cache

`I_CACHE(behavioral)` of `cache.vhd` and a memory behind it, one period of `clk4x` a
step. In a period the state machine moves, then its outputs reach the memory, and then
process `U_access` goes on if the edge has come that it waits for. Signals are as in the
source: `false` is '0', which is what selects and what makes the CPU wait.

The memory holds `mem_rdy` low for `waits k` periods in the `k`-th access. A word that is
'X' is the word `undef`.
-/

namespace Xinu.Icache

abbrev Word := BitVec 32

-- widths of p_MEMORY
abbrev icTagBits : Nat := 22
abbrev icIndexBits : Nat := 6
abbrev icWordSelBits : Nat := 2
def icWordsPerBlock : Nat := 4

/-- The slices of an address. -/
def tagOf (addr : Word) : BitVec icTagBits := addr.extractLsb' 10 icTagBits

def indexOf (addr : Word) : BitVec icIndexBits := addr.extractLsb' 4 icIndexBits

def wSelOf (addr : Word) : BitVec icWordSelBits := addr.extractLsb' 2 icWordSelBits

/-- `mem_addr` without its two zeros. -/
def wordAddr (tag : BitVec icTagBits) (index : BitVec icIndexBits)
    (wSel : BitVec icWordSelBits) : BitVec 30 :=
  tag ++ index ++ wSel

/-- `ic_state`. -/
inductive IcState
  | stIdle | stCheck | stHit | stStart | stWaiting | stDone
  deriving DecidableEq

namespace IcState

/-- `U_st_transitions`. -/
def next (cpuSel miss memRdy blkFilled : Bool) : IcState → IcState
  | stIdle => if !cpuSel then stCheck else stIdle
  | stCheck => if !miss then stHit else stStart
  | stHit => if !cpuSel then stHit else stIdle
  | stStart => stWaiting
  | stWaiting => if !memRdy then stWaiting else stDone
  | stDone => if blkFilled then stHit else stStart

/-- `mem_sel`. -/
def memSel : IcState → Bool
  | stStart | stWaiting => false
  | _ => true

/-- `next_word`, which three of the states leave as it is. -/
def nextWord (old : Bool) : IcState → Bool
  | stIdle | stStart => false
  | stDone => true
  | _ => old

end IcState

/-- `ic_tag`. -/
structure IcTag where
  val : Bool
  tag : BitVec icTagBits

/-- What `U_access` waits for: the next fetch (at its end, or at its start), an edge of
`mem_rdy` or an edge of `next_word` in the turn `i` of its loop. -/
inductive Place
  | cpuSel
  | memRdy (i : Nat)
  | nextWord (i : Nat)
  deriving DecidableEq

/-- The cache and its memory during one period. -/
structure ICache where
  fsm : IcState
  cpuSel : Bool
  miss : Bool
  blkFilled : Bool
  nextWord : Bool
  tags : BitVec icIndexBits → IcTag
  data : BitVec icIndexBits → BitVec icWordSelBits → Word
  -- `U_access`: where it waits, and its variables
  place : Place
  inpTag : BitVec icTagBits
  inpIndex : BitVec icIndexBits
  inpWSel : BitVec icWordSelBits
  blk : BitVec icWordSelBits → Word
  memAddr : BitVec 30
  cpuData : Word
  -- the memory: how many accesses it has had, and how long this one still waits
  refs : Nat
  waiting : Nat

/-- The cache after `rst`, with nothing valid. -/
def reset (undef : Word) : ICache where
  fsm := .stIdle
  cpuSel := true
  miss := false
  blkFilled := false
  nextWord := false
  tags _ := ⟨false, 0⟩
  data _ _ := undef
  place := .cpuSel
  inpTag := 0
  inpIndex := 0
  inpWSel := 0
  blk _ := undef
  memAddr := 0
  cpuData := undef
  refs := 0
  waiting := 0

namespace ICache

section Period

variable (undef : Word) (waits : Nat → Nat) (mem : BitVec 30 → Word) (s : ICache)

/-- `mem_rdy`. -/
def memRdy : Bool := s.waiting == 0

/-- `wd_sel` in turn `i`. -/
def wdSel (i : Nat) : BitVec icWordSelBits := s.inpWSel + BitVec.ofNat icWordSelBits i

/-- The start of turn `i`. -/
def turn (i : Nat) : ICache :=
  { s with
    cpuData := undef
    memAddr := wordAddr s.inpTag s.inpIndex (s.wdSel i)
    place := .memRdy i }

/-- A fetch begins. -/
def lookup (addr : Word) : ICache :=
  let s := { s with inpTag := tagOf addr, inpIndex := indexOf addr, inpWSel := wSelOf addr }
  let tag := s.tags s.inpIndex
  if tag.val && tag.tag == s.inpTag then
    { s with
      miss := false
      blk := s.data s.inpIndex
      cpuData := s.data s.inpIndex s.inpWSel }
  else { s with miss := true, blkFilled := false }.turn undef 0

/-- The memory has the word of turn `i`. -/
def fill (i : Nat) : ICache :=
  { s with blk := Function.update s.blk (s.wdSel i) (mem s.memAddr), place := .nextWord i }

/-- The end of turn `i`. -/
def advance (i : Nat) : ICache :=
  if i + 1 < icWordsPerBlock then s.turn undef (i + 1)
  else
    { s with
      blkFilled := true
      tags := Function.update s.tags s.inpIndex ⟨true, s.inpTag⟩
      data := Function.update s.data s.inpIndex s.blk
      cpuData := s.blk s.inpWSel
      place := .cpuSel }

/-- The state machine and the memory in the next period. -/
def edge (cpuSel : Bool) : ICache :=
  let fsm := s.fsm.next s.cpuSel s.miss s.memRdy s.blkFilled
  let fresh := s.fsm.memSel && !fsm.memSel
  { s with
    fsm := fsm
    cpuSel := cpuSel
    nextWord := fsm.nextWord s.nextWord
    refs := if fresh then s.refs + 1 else s.refs
    waiting := if fsm.memSel then 0 else if fresh then waits s.refs else s.waiting - 1 }

/-- The next period, with what the CPU asks for in it. -/
def step (cpuSel : Bool) (cpuAddr : Word) : ICache :=
  let t := s.edge waits cpuSel
  match s.place with
  | .cpuSel => if s.cpuSel && !cpuSel then t.lookup undef cpuAddr else t
  | .memRdy i => if !s.memRdy && t.memRdy then t.fill mem i else t
  | .nextWord i => if !s.nextWord && t.nextWord then t.advance undef i else t

/-- Some periods in which the CPU asks for a word. -/
def lows (addr : Word) : Nat → ICache
  | 0 => s
  | n + 1 => (lows addr n).step undef waits mem false addr

/-- Some periods in which it asks for nothing. -/
def highs (addr : Word) : Nat → ICache
  | 0 => s
  | n + 1 => (highs addr n).step undef waits mem true addr

end Period

end ICache

end Xinu.Icache
