import XinuCMips.Lib.Histories
import XinuCMips.Lib.Sema
import XinuCMips.Pools.Create

/-!
# Taking buffers and giving them back: `getbuf.c`, `freebuf.c`

Any number of processes take buffers from a pool that `mkbufpool` has made,
write in the buffers that are handed out, and give them back. Each call runs
with interrupts off, so that a process leaves the CPU inside a call only where
`getbuf` waits; `calls` holds the pool of such a call. What is left of `freebuf`
behind its `signal` touches nothing.

`held` is a history variable: the buffers handed out, each by the address of
its header.
-/

namespace Xinu.Pools

abbrev Pid := Nat

/-- Memory, pool table and semaphores. -/
structure PoolState where
  mem : Mem
  buftab : Nat → Bpentry
  nbpools : Nat
  used : Int → Bool
  sem : Int → Sema
  calls : Pid → Option Nat
  held : List Nat

/-- How a call leaves the CPU: with an address or a status, or in the queue of a
semaphore. -/
inductive Outcome where
  | buf (addr : Nat)
  | status (v : Int)
  | blocked
  deriving DecidableEq, Repr

/-- `SYSERR` as an address. -/
def NOBUF : Nat := uint32 (2 ^ 32 - 1)

/-- What a process does next. -/
inductive Act where
  /-- it calls `getbuf` -/
  | getbuf (pid : Pid)
  /-- it goes on behind the `wait` of `getbuf` -/
  | resume (pid : Pid)
  /-- some process calls `freebuf` for a buffer that is handed out -/
  | freebuf (bufaddr : Nat)
  /-- some process writes a word of a buffer that is handed out -/
  | store (addr v : Nat)
  deriving DecidableEq, Repr

namespace PoolState

variable (s : PoolState)

/-- `isbadsem(sem) || semtab[sem].sstate == S_FREE`. -/
def badSem (x : Int) : Prop := isbadsem x ∨ s.used x = false

instance (x : Int) : Decidable (s.badSem x) := inferInstanceAs (Decidable (_ ∨ _))

def setSem (x : Int) (e : Sema) : PoolState := { s with sem := Function.update s.sem x e }

/-- `signal(sem)`; an error is not looked at. -/
def signal (x : Int) : PoolState := if s.badSem x then s else s.setSem x (s.sem x).signal

/-- `getbuf` behind its `wait`: unlink a buffer from the pool and record the
pool in its header. -/
def take (poolid : Nat) : Outcome × PoolState :=
  let bufptr := (s.buftab poolid).bpnext
  let entry := { s.buftab poolid with bpnext := s.mem bufptr }
  (.buf (uint32 (bufptr + headerSize)),
    { s with
      buftab := Function.update s.buftab poolid entry
      mem := Function.update s.mem bufptr poolid
      held := bufptr :: s.held })

/-- `getbuf`: get a buffer from a preestablished buffer pool. -/
def getbuf (pid : Pid) (poolid : Nat) : Outcome × PoolState :=
  if s.nbpools ≤ poolid then (.buf NOBUF, s)
  else
    let x := (s.buftab poolid).bpsem
    -- the result of `wait` is not looked at
    if s.badSem x then s.take poolid
    else
      let r := (s.sem x).wait pid
      let s := s.setSem x r.2
      if r.1 then s.take poolid
      else (.blocked, { s with calls := Function.update s.calls pid (some poolid) })

/-- The process has been let go by a `signal` and runs. -/
def resume (pid : Pid) (poolid : Nat) : Outcome × PoolState :=
  let x := (s.buftab poolid).bpsem
  let s := s.setSem x ((s.sem x).resume pid)
  { s with calls := Function.update s.calls pid none }.take poolid

/-- `freebuf`: free a buffer that was allocated from a pool by `getbuf`. -/
def freebuf (bufaddr : Nat) : Int × PoolState :=
  let bufaddr := usub bufaddr headerSize
  let poolid := s.mem bufaddr
  -- the header as an `int32`
  if poolid ≥ 2 ^ 31 ∨ s.nbpools ≤ poolid then (SYSERR, s)
  else
    let entry := s.buftab poolid
    let s := { s with
      mem := Function.update s.mem bufaddr entry.bpnext
      buftab := Function.update s.buftab poolid { entry with bpnext := bufaddr }
      held := s.held.erase bufaddr }
    (OK, s.signal entry.bpsem)

/-- `addr` is a word of a buffer of pool `poolid` that is handed out, behind its
header. -/
def InBuffer (poolid addr : Nat) : Prop :=
  4 ∣ addr ∧ ∃ h ∈ s.held, h + headerSize ≤ addr ∧
    addr + 4 ≤ h + headerSize + (s.buftab poolid).bpsize

instance (poolid addr : Nat) : Decidable (s.InBuffer poolid addr) :=
  inferInstanceAs (Decidable (_ ∧ _))

/-- One step of the processes that use pool `poolid`. -/
def step (poolid : Nat) : Act → Option (Outcome × PoolState)
  | .getbuf pid =>
    if s.calls pid = none then some (s.getbuf pid poolid) else none
  | .resume pid =>
    match s.calls pid with
    | none => none
    | some p =>
      if pid ∈ (s.sem (s.buftab p).bpsem).released then some (s.resume pid p) else none
  | .freebuf bufaddr =>
    if headerSize ≤ bufaddr ∧ bufaddr - headerSize ∈ s.held then
      some (.status (s.freebuf bufaddr).1, (s.freebuf bufaddr).2)
    else none
  | .store addr v =>
    if s.InBuffer poolid addr then
      some (.status OK, { s with mem := Function.update s.mem addr v })
    else none

end PoolState

/-- The pools as `mkbufpool` leaves them, with no process in a call and nothing
handed out. A semaphore that has just been created has no process in its
queue. -/
def PoolTable.boot (t : PoolTable) : PoolState where
  mem := t.kernel.mem
  buftab := t.buftab
  nbpools := t.nbpools
  used x := (t.kernel.semtab x).sstate = .used
  sem x := { count := (t.kernel.semtab x).scount }
  calls _ := none
  held := []

/-- The use of pool `poolid` of the table `t`. A step shows how its call ends. -/
def machine (t : PoolTable) (poolid : Nat) : Machine PoolState Act Outcome :=
  ⟨fun s => s = t.boot, fun s a => (s.step poolid a).map fun r => (r.2, [r.1])⟩

end Xinu.Pools
