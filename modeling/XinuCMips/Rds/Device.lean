import XinuCMips.Lib.Histories
import XinuCMips.Lib.Sema
import Mathlib.Logic.Function.Basic

/-!
# The remote disk

`rdsRead`, `rdsWrite` and `rdsControl` with `RDS_CTL_SYNC`, the communication
process `rdsprocess`, and `rdsbufalloc`. The device has `RD_BUFFS` buffers,
linked in a request queue, a cache and a free list by pointers that are held
here as they are in memory.

A call runs with interrupts disabled, so other processes run only where it
waits: in `wait`, in `semreset` and in `receive`. `rdsprocess` has a priority
above all callers; they run where it waits for a request or for the server. A
call of `rdsWrite` is complete when its block is in the request queue.
-/

namespace Xinu.Rds

abbrev Pid := Nat

abbrev Block := List UInt8

abbrev RD_BUFFS : Nat := 64

abbrev Bufid := Fin RD_BUFFS

/-! ## Lists -/

/-- What an `rd_next` or `rd_prev` field may point at: the heads and tails of
the request queue and the cache, and the buffers. -/
inductive Node
  | null
  | rhead
  | rtail
  | chead
  | ctail
  | buf (i : Bufid)
  deriving DecidableEq, Repr

structure Ptrs where
  rdNext : Node → Node
  rdPrev : Node → Node
  rdFree : Node

inductive Found
  | at (i : Bufid)
  | nowhere
  /-- The loop follows a pointer that leads to no buffer, or goes round for ever. -/
  | lost
  deriving DecidableEq, Repr

/-- The loops `while (bptr != stop) { if (test) ...; bptr = bptr->link; }`. One
that has seen more than `RD_BUFFS` buffers goes round. -/
def search (link : Node → Node) (test : Bufid → Bool) (stop : Node) : Nat → Node → Found
  | 0, _ => .lost
  | n + 1, node =>
    if node = stop then .nowhere
    else
      match node with
      | .buf i => if test i then .at i else search link test stop n (link (.buf i))
      | _ => .lost

namespace Ptrs

/-- From the head of the cache. -/
def cached (p : Ptrs) (test : Bufid → Bool) : Found :=
  search p.rdNext test .ctail (RD_BUFFS + 1) (p.rdNext .chead)

/-- From the tail of the cache. -/
def oldest (p : Ptrs) (test : Bufid → Bool) : Found :=
  search p.rdPrev test .chead (RD_BUFFS + 1) (p.rdPrev .ctail)

/-- From the head of the request queue. -/
def requested (p : Ptrs) (test : Bufid → Bool) : Found :=
  search p.rdNext test .rtail (RD_BUFFS + 1) (p.rdNext .rhead)

/-- From the tail of the request queue. -/
def recent (p : Ptrs) (test : Bufid → Bool) : Found :=
  search p.rdPrev test .rhead (RD_BUFFS + 1) (p.rdPrev .rtail)

def unlink (p : Ptrs) (i : Bufid) : Ptrs :=
  let pptr := p.rdPrev (.buf i)
  let nptr := p.rdNext (.buf i)
  { p with
    rdNext := Function.update p.rdNext pptr nptr
    rdPrev := Function.update p.rdPrev nptr pptr }

/-- The unlinking of a second request `q` for the block in `b`. It takes the
neighbours of `q` and their new links from `b`. -/
def unlinkWaiting (p : Ptrs) (b q : Bufid) : Ptrs :=
  let pptr := p.rdPrev (.buf q)
  let nptr := p.rdNext (.buf q)
  { p with
    rdNext := Function.update p.rdNext pptr (p.rdNext (.buf b))
    rdPrev := Function.update p.rdPrev nptr (p.rdPrev (.buf b)) }

/-- Just before the tail of the request queue. -/
def enqueue (p : Ptrs) (i : Bufid) : Ptrs :=
  let pptr := p.rdPrev .rtail
  { p with
    rdNext := Function.update (Function.update p.rdNext (.buf i) (p.rdNext pptr)) pptr (.buf i)
    rdPrev := Function.update (Function.update p.rdPrev .rtail (.buf i)) (.buf i) pptr }

/-- At the head of the cache. -/
def cache (p : Ptrs) (i : Bufid) : Ptrs :=
  let nptr := p.rdNext .chead
  { p with
    rdNext := Function.update (Function.update p.rdNext (.buf i) nptr) .chead (.buf i)
    rdPrev := Function.update (Function.update p.rdPrev (.buf i) .chead) nptr (.buf i) }

def free (p : Ptrs) (i : Bufid) : Ptrs :=
  { p with
    rdNext := Function.update p.rdNext (.buf i) p.rdFree
    rdFree := .buf i }

/-- `rdsbufalloc` behind its `wait`: from the free list, or the oldest item of
the cache that passes the test. -/
def bufalloc (p : Ptrs) (test : Bufid → Bool) : Found × Ptrs :=
  match p.rdFree with
  | .buf i => (.at i, { p with rdFree := p.rdNext (.buf i) })
  | .null =>
    match p.oldest test with
    | .at i => (.at i, p.unlink i)
    | r => (r, p)
  | _ => (.lost, p)

end Ptrs

/-! ## The device -/

inductive RdOp
  | read
  | write
  | sync
  deriving DecidableEq, Repr

structure Rdbuff where
  rdOp : RdOp := .read
  rdRefcnt : Int := 0
  rdBlknum : UInt32 := 0
  rdValid : Bool := false
  rdPid : Pid := 0
  rdBlock : Block := []
  deriving DecidableEq, Repr

inductive RdState
  | free
  | open
  | pend
  deriving DecidableEq

/-- What a call wants a buffer for. -/
inductive Req
  | read (blk : UInt32)
  | write (blk : UInt32) (data : Block)
  | sync
  deriving DecidableEq

def Req.blk? : Req → Option UInt32
  | .read blk => some blk
  | .write blk _ => some blk
  | .sync => none

/-- A call that waits. `stale` remembers that another process has completed an
`rdsWrite` of the block since the call searched the lists; no function reads it. -/
inductive RdsCall
  /-- In `rdsbufalloc`, for `rd_availsem`. -/
  | bufalloc (r : Req) (stale : Bool)
  /-- In the `resched` of `semreset`, with a buffer that it has unlinked. -/
  | semreset (i : Bufid) (blk : UInt32) (data : Block) (stale : Bool)
  /-- For the message that a read of a block, or a `RDS_CTL_SYNC`, is done. -/
  | receive (blk : Option UInt32)
  deriving DecidableEq

/-- Where `rdsprocess` is. -/
inductive Com
  | idle
  | waiting
  /-- In `rdscomm`, with the request at the head of the queue. -/
  | reading (i : Bufid)
  | writing (blk : UInt32) (data : Block)
  deriving DecidableEq

structure Device where
  lists : Ptrs
  buf : Bufid → Rdbuff
  rdState : RdState
  rdAvailsem : Sema
  rdReqsem : Sema
  com : Com
  /-- The field `rd_blk` of `msg` in `rdsprocess`. -/
  rdBlk : UInt32
  calls : Pid → Option RdsCall
  /-- A message is the address of a buffer, or `OK`. -/
  prmsg : Pid → Option (Option Bufid)
  /-- What the server holds. -/
  server : UInt32 → Block
  halted : Bool := false

inductive Event
  /-- A call of `rdsRead` begins. -/
  | asked (pid : Pid) (blk : UInt32)
  | got (pid : Pid) (blk : UInt32) (data : Block)
  | wrote (pid : Pid) (blk : UInt32) (data : Block)
  | synced (pid : Pid)
  /-- The device is not open. -/
  | failed (pid : Pid)
  | panicked
  /-- A loop that never ends, or a pointer that leads to no buffer. -/
  | hung
  | lost
  deriving DecidableEq

namespace Device

def halt (s : Device) (e : Event) : Device × List Event := ({ s with halted := true }, [e])

def send (s : Device) (pid : Pid) (m : Option Bufid) : Device :=
  { s with prmsg := Function.update s.prmsg pid (some ((s.prmsg pid).getD m)) }

def hasBlk (s : Device) (blk : UInt32) (i : Bufid) : Bool := (s.buf i).rdBlknum = blk

def unused (s : Device) (i : Bufid) : Bool := (s.buf i).rdRefcnt ≤ 0

end Device

def RdsCall.written (blk : UInt32) : RdsCall → RdsCall
  | .bufalloc r stale => .bufalloc r (stale || r.blk? = some blk)
  | .semreset i b data stale => .semreset i b data (stale || b = blk)
  | .receive b => .receive b

namespace Device

/-! ## Calls -/

/-- The end of `rdsWrite`. -/
def wrote (s : Device) (pid : Pid) (blk : UInt32) (data : Block) : Device × List Event :=
  ({ s with
      calls := Function.update (fun p => (s.calls p).map (RdsCall.written blk)) pid none },
    [.wrote pid blk data])

/-- `rdsRead` behind `rdsbufalloc`, up to `receive`. -/
def readRequest (s : Device) (pid : Pid) (blk : UInt32) (i : Bufid) : Device × List Event :=
  ({ s with
      buf := Function.update s.buf i
        { s.buf i with rdOp := .read, rdRefcnt := 1, rdBlknum := blk, rdValid := false, rdPid := pid }
      lists := s.lists.enqueue i
      prmsg := Function.update s.prmsg pid none
      rdReqsem := s.rdReqsem.signal
      calls := Function.update s.calls pid (some (.receive (some blk))) }, [])

/-- `rdsWrite` from `Create a write request` on. -/
def writeRequest (s : Device) (pid : Pid) (blk : UInt32) (data : Block) (i : Bufid) :
    Device × List Event :=
  { s with
    buf := Function.update s.buf i
      { rdOp := .write, rdRefcnt := 0, rdBlknum := blk, rdValid := true, rdPid := pid, rdBlock := data }
    lists := s.lists.enqueue i
    rdReqsem := s.rdReqsem.signal }.wrote pid blk data

/-- `rdsControl` behind `rdsbufalloc`. `resume` has no effect on a process that
is not suspended. -/
def syncRequest (s : Device) (pid : Pid) (i : Bufid) : Device × List Event :=
  ({ s with
      buf := Function.update s.buf i
        { s.buf i with rdOp := .sync, rdRefcnt := 1, rdBlknum := 0, rdValid := false, rdPid := pid }
      lists := s.lists.enqueue i
      prmsg := Function.update s.prmsg pid none
      calls := Function.update s.calls pid (some (.receive none)) }, [])

def request (s : Device) (pid : Pid) (i : Bufid) : Req → Device × List Event
  | .read blk => s.readRequest pid blk i
  | .write blk data => s.writeRequest pid blk data i
  | .sync => s.syncRequest pid i

/-- A call from the end of the `wait` in `rdsbufalloc` on. -/
def take (s : Device) (pid : Pid) (r : Req) : Device × List Event :=
  match s.lists.bufalloc s.unused with
  | (.at i, p) => { s with lists := p }.request pid i r
  | (.nowhere, _) => s.halt .panicked
  | (.lost, _) => s.halt .lost

def rdsbufalloc (s : Device) (pid : Pid) (r : Req) : Device × List Event :=
  let s' := { s with rdAvailsem := (s.rdAvailsem.wait pid).2 }
  if (s.rdAvailsem.wait pid).1 then s'.take pid r
  else ({ s' with calls := Function.update s.calls pid (some (.bufalloc r false)) }, [])

/-- The two searches of `rdsRead`: the buffer that has the data. -/
def lookup (s : Device) (blk : UInt32) : Found :=
  let queued :=
    match s.lists.recent (s.hasBlk blk) with
    | .at i => if (s.buf i).rdOp = .write then .at i else .nowhere
    | r => r
  match s.lists.cached (s.hasBlk blk) with
  | .at i => if (s.buf i).rdValid then .at i else queued
  | .nowhere => queued
  | .lost => .lost

def rdsRead (s : Device) (pid : Pid) (blk : UInt32) : Device × List Event :=
  if s.rdState ≠ .open then (s, [.failed pid])
  else
    match s.lookup blk with
    | .at i => (s, [.got pid blk (s.buf i).rdBlock, .asked pid blk])
    | .nowhere =>
      let r := s.rdsbufalloc pid (.read blk)
      (r.1, r.2 ++ [.asked pid blk])
    | .lost => s.halt .lost

/-- `rdsRead` behind `receive`. The loop over the cache that follows the last
reference never steps to the next item: it ends at once, or never. -/
def readDone (s : Device) (pid : Pid) (blk : UInt32) (i : Bufid) : Device × List Event :=
  let refcnt := (s.buf i).rdRefcnt - 1
  if refcnt ≤ 0 ∧ s.lists.rdNext .chead ≠ .buf i then s.halt .hung
  else
    ({ s with
        buf := Function.update s.buf i { s.buf i with rdRefcnt := refcnt }
        prmsg := Function.update s.prmsg pid none
        calls := Function.update s.calls pid none }, [.got pid blk (s.buf i).rdBlock])

/-- The searches of `rdsWrite`: the write request for the block. -/
def pending (s : Device) (blk : UInt32) : Found :=
  s.lists.requested fun i => s.hasBlk blk i && (s.buf i).rdOp = .write

/-- The cached copy of the block, if no process uses it. -/
def reusable (s : Device) (blk : UInt32) : Found :=
  match s.lists.cached (s.hasBlk blk) with
  | .at i => if s.unused i then .at i else .nowhere
  | r => r

/-- `rdsWrite` with the cached copy of the block. A `semreset` to a negative
count does nothing. -/
def reuse (s : Device) (pid : Pid) (blk : UInt32) (data : Block) (i : Bufid) : Device × List Event :=
  let s' := { s with lists := s.lists.unlink i }
  if s.rdAvailsem.count - 1 < 0 then s'.writeRequest pid blk data i
  else
    ({ s' with
        rdAvailsem := s.rdAvailsem.reset (s.rdAvailsem.count - 1)
        calls := Function.update s.calls pid (some (.semreset i blk data false)) }, [])

def rdsWrite (s : Device) (pid : Pid) (blk : UInt32) (data : Block) : Device × List Event :=
  if s.rdState ≠ .open then (s, [.failed pid])
  else
    match s.pending blk with
    | .at i =>
      { s with buf := Function.update s.buf i { s.buf i with rdBlock := data } }.wrote pid blk data
    | .nowhere =>
      match s.reusable blk with
      | .at i => s.reuse pid blk data i
      | .nowhere => s.rdsbufalloc pid (.write blk data)
      | .lost => s.halt .lost
    | .lost => s.halt .lost

def rdsControl (s : Device) (pid : Pid) : Device × List Event :=
  if s.rdState ≠ .open then (s, [.failed pid]) else s.rdsbufalloc pid .sync

/-! ## The communication process -/

/-- `rdsprocess` behind its `wait`, up to `rdscomm`. The message for a read
request does not get a block number. -/
def serve (s : Device) : Device × List Event :=
  match s.lists.rdNext .rhead with
  | .buf i =>
    match (s.buf i).rdOp with
    | .read => ({ s with com := .reading i }, [])
    | .write =>
      ({ s with
          rdBlk := (s.buf i).rdBlknum
          lists := (s.lists.unlink i).cache i
          buf := Function.update s.buf i { s.buf i with rdRefcnt := 0 }
          rdAvailsem := s.rdAvailsem.signal
          com := .writing (s.buf i).rdBlknum (s.buf i).rdBlock }, [])
    | .sync =>
      ({ s.send (s.buf i).rdPid none with
          lists := (s.lists.unlink i).free i
          rdAvailsem := s.rdAvailsem.signal
          com := .idle }, [])
  | _ => s.halt .lost

/-- A second request for the block that has been read: its process is told, and
the request is given up. -/
def notify (s : Device) (i : Bufid) : Device × List Event :=
  match s.lists.requested (s.hasBlk (s.buf i).rdBlknum) with
  | .at q =>
    ({ s.send (s.buf q).rdPid (some i) with
        buf := Function.update s.buf i { s.buf i with rdRefcnt := (s.buf i).rdRefcnt + 1 }
        lists := (s.lists.unlinkWaiting i q).free q
        rdAvailsem := s.rdAvailsem.signal }, [])
  | .nowhere => (s, [])
  | .lost => s.halt .lost

/-- The block of a read request in the cache, and its process told. -/
def reply (s : Device) (i : Bufid) : Device :=
  { s with
    buf := Function.update s.buf i { s.buf i with rdBlock := s.server s.rdBlk, rdRefcnt := 1 }
    lists := (s.lists.unlink i).cache i
    rdAvailsem := s.rdAvailsem.signal
    com := .idle }.send (s.buf i).rdPid (some i)

end Device

/-! ## Runs -/

inductive Act
  | read (pid : Pid) (blk : UInt32)
  | write (pid : Pid) (blk : UInt32) (data : Block)
  | sync (pid : Pid)
  /-- A call runs that has waited in `rdsbufalloc`, or was switched out in `semreset`. -/
  | woken (pid : Pid)
  | resumed (pid : Pid)
  /-- A call that has a message runs. -/
  | receive (pid : Pid)
  /-- `rdsprocess` waits for a request, or runs when it has waited for one. -/
  | comWait
  | comWoken
  /-- The server answers. -/
  | comReply
  deriving DecidableEq

/-- The process that runs `rdsprocess`. No other waits for `rd_reqsem`. -/
abbrev rdComproc : Pid := 0

namespace Device

def step (s : Device) : Act → Option (Device × List Event)
  | .read pid blk => if ¬ s.halted ∧ s.calls pid = none then some (s.rdsRead pid blk) else none
  | .write pid blk data =>
    if ¬ s.halted ∧ s.calls pid = none then some (s.rdsWrite pid blk data) else none
  | .sync pid => if ¬ s.halted ∧ s.calls pid = none then some (s.rdsControl pid) else none
  | .woken pid =>
    match s.calls pid with
    | some (.bufalloc r _) =>
      if ¬ s.halted ∧ pid ∈ s.rdAvailsem.released then
        some ({ s with rdAvailsem := s.rdAvailsem.resume pid }.take pid r)
      else none
    | _ => none
  | .resumed pid =>
    match s.calls pid with
    | some (.semreset i blk data _) =>
      if ¬ s.halted then some (s.writeRequest pid blk data i) else none
    | _ => none
  | .receive pid =>
    if s.halted then none
    else
      match s.calls pid, s.prmsg pid with
      | some (.receive (some blk)), some (some i) => some (s.readDone pid blk i)
      | some (.receive (some _)), some none => some (s.halt .lost)
      | some (.receive none), some _ =>
        some ({ s with prmsg := Function.update s.prmsg pid none
                       calls := Function.update s.calls pid none }, [.synced pid])
      | _, _ => none
  | .comWait =>
    if ¬ s.halted ∧ s.com = .idle then
      let s' := { s with rdReqsem := (s.rdReqsem.wait rdComproc).2 }
      if (s.rdReqsem.wait rdComproc).1 then some s'.serve else some ({ s' with com := .waiting }, [])
    else none
  | .comWoken =>
    if ¬ s.halted ∧ s.com = .waiting ∧ rdComproc ∈ s.rdReqsem.released then
      some { s with rdReqsem := s.rdReqsem.resume rdComproc }.serve
    else none
  | .comReply =>
    if s.halted then none
    else
      match s.com with
      | .reading i => some ((s.reply i).notify i)
      | .writing blk data =>
        some ({ s with server := Function.update s.server blk data, com := .idle }, [])
      | _ => none

end Device

/-- The lists that `rdsInit` makes. -/
def rdsInit : Ptrs where
  rdNext
    | .rhead => .rtail
    | .chead => .ctail
    | .buf i => if h : i.val + 1 < RD_BUFFS then .buf ⟨i.val + 1, h⟩ else .null
    | _ => .null
  rdPrev
    | .rtail => .rhead
    | .ctail => .chead
    | _ => .null
  rdFree := .buf 0

/-- The device behind `rdsInit`, and open. The server holds `disk`; the memory of
the buffers and the field for the block number in `msg` hold anything. -/
def boot (disk : UInt32 → Block) (blk : UInt32) (mem : Bufid → Rdbuff) : Device where
  lists := rdsInit
  buf := fun i => { mem i with rdValid := false }
  rdState := .open
  rdAvailsem := { count := RD_BUFFS }
  rdReqsem := { count := 0 }
  com := .idle
  rdBlk := blk
  calls := fun _ => none
  prmsg := fun _ => none
  server := disk

/-- The device with a server that holds `disk` at first. -/
def machine (disk : UInt32 → Block) : Machine Device Act Event where
  start s := ∃ blk mem, s = boot disk blk mem
  step := Device.step

theorem boot_started (disk : UInt32 → Block) (blk : UInt32) (mem : Bufid → Rdbuff) :
    (machine disk).start (boot disk blk mem) :=
  ⟨blk, mem, rfl⟩

end Xinu.Rds
