import XinuCMips.Lib.Threaded
import XinuCMips.Lib.Tiling

/-!
# The free memory list: `getmem`, `getstk`, `freemem`

The heap of `memory.h` and of `getmem.c`, `getstk.c`, `freemem.c`. A free
block starts with a `struct memblk`: the word at its address is `mnext`, the
next word `mlength`. The head of the list, `memlist`, is such a struct too,
placed below the heap.

Memory is a function from byte addresses to the 32-bit words stored there;
only the cells of the list are ever read. Pointers and lengths are
`uint32`, so sums and differences are reduced modulo `2 ^ 32`.
-/

namespace Xinu

/-- Contents of memory, by the address of each word. -/
abbrev Mem := Nat → Nat

/-- Truncation to an unsigned 32-bit value. -/
def uint32 (x : Nat) : Nat := x % 2 ^ 32

/-- Unsigned 32-bit subtraction. -/
def usub (x y : Nat) : Nat := uint32 (x + 2 ^ 32 - y)

def OK : Int := 1
def SYSERR : Int := -1

/-- Where the heap lies: set by `start.S` and `sysinit` before the first
allocation and never changed. `memlist` is the address of the list head. -/
structure HeapBounds where
  memlist : Nat
  minheap : Nat
  maxheap : Nat
  memlist_pos : 0 < memlist
  memlist_below : memlist + 8 ≤ minheap
  nonempty : minheap < maxheap
  addressable : maxheap < 2 ^ 32

/-- `roundmb`: `(7 + x) & ~7` on 32-bit words. -/
def roundmb (x : Nat) : Nat := uint32 (7 + x) / 8 * 8

def mnext (m : Mem) (a : Nat) : Nat := m a
def mlength (m : Mem) (a : Nat) : Nat := m (a + 4)
def setMnext (m : Mem) (a v : Nat) : Mem := Function.update m a v
def setMlength (m : Mem) (a v : Nat) : Mem := Function.update m (a + 4) v

theorem mnext_setMnext_same (m : Mem) (a v : Nat) : mnext (setMnext m a v) a = v := by
  simp [mnext, setMnext]

theorem mnext_setMnext {m : Mem} {a v x : Nat} (h : x ≠ a) :
    mnext (setMnext m a v) x = mnext m x := by
  simp [mnext, setMnext, h]

theorem mlength_setMnext {m : Mem} {a v x : Nat} (h : x + 4 ≠ a) :
    mlength (setMnext m a v) x = mlength m x := by
  simp [mlength, setMnext, h]

theorem mnext_setMlength {m : Mem} {a v x : Nat} (h : x ≠ a + 4) :
    mnext (setMlength m a v) x = mnext m x := by
  simp [mnext, setMlength, h]

theorem mlength_setMlength_same (m : Mem) (a v : Nat) : mlength (setMlength m a v) a = v := by
  simp [mlength, setMlength]

theorem mlength_setMlength {m : Mem} {a v x : Nat} (h : x ≠ a) :
    mlength (setMlength m a v) x = mlength m x := by
  simp [mlength, setMlength, h]

variable (B : HeapBounds)

/-- The free list as `sysinit` lays it over the heap: one block. -/
def initMemlist (m : Mem) : Mem :=
  let m := setMnext m B.memlist B.minheap
  let m := setMnext m B.minheap 0
  let m := setMlength m B.memlist (B.maxheap - B.minheap)
  setMlength m B.minheap (B.maxheap - B.minheap)

/-- The search loop of `getmem`; the first argument bounds the number of
blocks visited. -/
def getmemLoop (nbytes : Nat) : Nat → Nat → Nat → Mem → Option Nat × Mem
  | 0, _, _, m => (none, m)
  | k + 1, prev, curr, m =>
    if curr = 0 then (none, m)
    else if mlength m curr = nbytes then
      let m := setMnext m prev (mnext m curr)
      (some curr, setMlength m B.memlist (usub (mlength m B.memlist) nbytes))
    else if nbytes < mlength m curr then
      let leftover := uint32 (curr + nbytes)
      let m := setMnext m prev leftover
      let m := setMnext m leftover (mnext m curr)
      let m := setMlength m leftover (usub (mlength m curr) nbytes)
      (some curr, setMlength m B.memlist (usub (mlength m B.memlist) nbytes))
    else getmemLoop nbytes k curr (mnext m curr) m

/-- `getmem`: address of an allocated block, or `none` for `SYSERR`. -/
def getmem (nbytes : Nat) (m : Mem) : Option Nat × Mem :=
  if nbytes = 0 then (none, m)
  else getmemLoop B (roundmb nbytes) B.maxheap B.memlist (mnext m B.memlist) m

/-- The scan loop of `getstk`: the last block that fits and the one before
it (`0` while none fits). -/
def getstkLoop (nbytes : Nat) : Nat → Nat → Nat → Nat × Nat → Mem → Nat × Nat
  | 0, _, _, fit, _ => fit
  | k + 1, prev, curr, fit, m =>
    if curr = 0 then fit
    else
      getstkLoop nbytes k curr (mnext m curr)
        (if nbytes ≤ mlength m curr then (curr, prev) else fit) m

/-- `getstk`: highest word address of an allocated block. -/
def getstk (nbytes : Nat) (m : Mem) : Option Nat × Mem :=
  if nbytes = 0 then (none, m)
  else
    let nbytes := roundmb nbytes
    let (fits, fitsprev) :=
      getstkLoop nbytes B.maxheap B.memlist (mnext m B.memlist) (0, 0) m
    if fits = 0 then (none, m)
    else
      let (fits, m) :=
        if nbytes = mlength m fits then (fits, setMnext m fitsprev (mnext m fits))
        else
          let m := setMlength m fits (usub (mlength m fits) nbytes)
          (uint32 (fits + mlength m fits), m)
      let m := setMlength m B.memlist (usub (mlength m B.memlist) nbytes)
      (some (usub (uint32 (fits + nbytes)) 4), m)

/-- The walk of `freemem`: the last block below `block` and the one after. -/
def freememLoop (block : Nat) : Nat → Nat → Nat → Mem → Nat × Nat
  | 0, prev, next, _ => (prev, next)
  | k + 1, prev, next, m =>
    if next ≠ 0 ∧ next < block then freememLoop block k next (mnext m next) m
    else (prev, next)

/-- The first half of `freemem`'s update: coalesce the block with the
previous one, or link it into the list as a new node. -/
def freememLink (prev next top block nbytes : Nat) (m : Mem) : Nat × Mem :=
  if top = block then (prev, setMlength m prev (uint32 (mlength m prev + nbytes)))
  else
    let m := setMnext m block next
    let m := setMlength m block nbytes
    (block, setMnext m prev block)

/-- The second half: coalesce with the next block if adjacent. -/
def freememCoalesce (block next : Nat) (m : Mem) : Mem :=
  if uint32 (block + mlength m block) = next then
    let m := setMlength m block (uint32 (mlength m block + mlength m next))
    setMnext m block (mnext m next)
  else m

/-- Address just past the block at `prev`; `NULL` for the list head. -/
def topOf (prev : Nat) (m : Mem) : Nat :=
  if prev = B.memlist then 0 else uint32 (prev + mlength m prev)

/-- `freemem`: return a block to the free list. -/
def freemem (blkaddr nbytes : Nat) (m : Mem) : Int × Mem :=
  if nbytes = 0 ∨ blkaddr < B.minheap ∨ B.maxheap < blkaddr then (SYSERR, m)
  else
    let nbytes := roundmb nbytes
    let w := freememLoop blkaddr B.maxheap B.memlist (mnext m B.memlist) m
    let prev := w.1
    let next := w.2
    let top := topOf B prev m
    if (prev ≠ B.memlist ∧ blkaddr < top) ∨ (next ≠ 0 ∧ next < uint32 (blkaddr + nbytes)) then
      (SYSERR, m)
    else
      let m := setMlength m B.memlist (uint32 (mlength m B.memlist + nbytes))
      let r := freememLink prev next top blkaddr nbytes m
      (OK, freememCoalesce r.1 next r.2)

/-- `freestk(p, len)`: free the stack whose highest word is at `p`. -/
def freestk (p len : Nat) (m : Mem) : Int × Mem :=
  freemem B (uint32 (usub p (roundmb len) + 4)) (roundmb len) m

end Xinu
