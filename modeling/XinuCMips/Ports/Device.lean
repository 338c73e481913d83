import XinuCMips.Kernel.Table

/-!
# Message ports: `ptcreate.c`, `ptsend.c`, `ptrecv.c`, `ptclear.c`

A port is a bounded list of messages with two semaphores: `ptssem` counts the
places left, `ptrsem` the messages. The messages of all ports lie in nodes of one
pool; the free ones are linked from `ptfree`. A port's `ptseq` tells its generations
apart: a process that waited through a reset finds another number and gives up.

A process leaves the CPU inside a call where the call waits and where a reset or
deletion has released the processes that waited; `calls` holds what is left of
such a call. `ready` says that its process may go on. `trace` is a history
variable.
-/

namespace Xinu.Ports

def NPORTS : Nat := 30

abbrev Pid := Nat
abbrev Node := Nat
abbrev Msg := BitVec 32

inductive PtState where
  | free | limbo | alloc
  deriving DecidableEq, Repr

/-- An entry of the port table: `struct ptentry`. -/
structure Ptentry where
  ptssem : Int
  ptrsem : Int
  ptstate : PtState
  ptmaxcnt : Nat
  ptseq : Int
  pthead : Option Node
  pttail : Option Node
  deriving DecidableEq, Repr

/-- A semaphore, with the processes on its queue. -/
structure Sem where
  used : Bool
  scount : Int
  squeue : List Pid
  deriving DecidableEq, Repr

/-- What is left of a call when its process runs again. -/
inductive Call where
  /-- `ptsend` after its `wait` -/
  | send (portid : Nat) (seq : Int) (msg : Msg)
  /-- `ptrecv` after its `wait` -/
  | recv (portid : Nat) (seq : Int)
  /-- `_ptclear` after it has released the senders -/
  | clear (portid : Nat) (newstate : PtState)
  /-- `_ptclear` after it has released the receivers too -/
  | cleared (portid : Nat) (newstate : PtState)
  deriving DecidableEq, Repr

inductive Event where
  | opened (portid : Nat)
  | sent (portid : Nat) (msg : Msg)
  | received (portid : Nat) (msg : Msg)
  | disposed (portid : Nat) (msg : Msg)
  deriving DecidableEq, Repr

structure PortTable where
  porttab : Nat → Ptentry
  ptnextid : Nat
  ptfree : Option Node
  ptnext : Node → Option Node
  ptmsg : Node → Msg
  semtab : Int → Sem
  nextsem : Int
  calls : Pid → Option Call
  ready : Pid → Bool
  /-- `panic`, or a null pointer followed -/
  halted : Bool
  trace : List Event

/-- How a call leaves the CPU. -/
inductive Outcome where
  | ret (v : Int)
  | msg (m : Msg)
  | blocked
  | yielded
  | halted
  deriving DecidableEq, Repr

namespace PortTable

def setPort (p : Nat) (f : Ptentry → Ptentry) (s : PortTable) : PortTable :=
  { s with porttab := Function.update s.porttab p (f (s.porttab p)) }

def setSem (sem : Int) (f : Sem → Sem) (s : PortTable) : PortTable :=
  { s with semtab := Function.update s.semtab sem (f (s.semtab sem)) }

def setCall (pid : Pid) (c : Option Call) (s : PortTable) : PortTable :=
  { s with calls := Function.update s.calls pid c }

def wake (pid : Pid) (s : PortTable) : PortTable := { s with ready := Function.update s.ready pid true }

def log (e : Event) (s : PortTable) : PortTable := { s with trace := e :: s.trace }

def halt (s : PortTable) : Outcome × PortTable := (.halted, { s with halted := true })

-- ---------------------------------------------------------------------------
-- Semaphores
-- ---------------------------------------------------------------------------

/-- `isbadsem(sem) || semtab[sem].sstate == S_FREE`. -/
def badSem (sem : Int) (s : PortTable) : Prop := isbadsem sem ∨ (s.semtab sem).used = false

instance (sem : Int) (s : PortTable) : Decidable (s.badSem sem) := inferInstanceAs (Decidable (_ ∨ _))

/-- `newsem`: a free semaphore, searched from `nextsem`. -/
def newsem : Nat → PortTable → Int × PortTable
  | 0, s => (SYSERR, s)
  | n + 1, s =>
    let sem := s.nextsem
    let s := { s with nextsem := if NSEM ≤ sem + 1 then 0 else sem + 1 }
    if (s.semtab sem).used then newsem n s else (sem, s.setSem sem fun e => { e with used := true })

def semcreate (count : Int) (s : PortTable) : Int × PortTable :=
  if count < 0 then (SYSERR, s)
  else
    let r := newsem NSEM.toNat s
    if r.1 = SYSERR then r else (r.1, r.2.setSem r.1 fun e => { e with scount := count })

/-- `wait`: `none` for `SYSERR`, else whether the process has to block. -/
def wait (pid : Pid) (sem : Int) (s : PortTable) : Option Bool × PortTable :=
  if s.badSem sem then (none, s)
  else
    let s := s.setSem sem fun e => { e with scount := e.scount - 1 }
    if (s.semtab sem).scount < 0 then
      let s := s.setSem sem fun e => { e with squeue := e.squeue ++ [pid] }
      (some true, { s with ready := Function.update s.ready pid false })
    else (some false, s)

/-- `ready(getfirst(semptr->squeue), RESCHED_NO)`. -/
def releaseFirst (sem : Int) (s : PortTable) : PortTable :=
  match (s.semtab sem).squeue with
  | [] => s
  | pid :: rest => (s.setSem sem fun e => { e with squeue := rest }).wake pid

def signal (sem : Int) (s : PortTable) : PortTable :=
  if s.badSem sem then s
  else
    let count := (s.semtab sem).scount
    let s := s.setSem sem fun e => { e with scount := e.scount + 1 }
    if count < 0 then s.releaseFirst sem else s

/-- The loop of `semreset`: free all waiting processes. -/
def drain (sem : Int) : Nat → PortTable → PortTable
  | 0, s => s
  | n + 1, s => drain sem n (s.releaseFirst sem)

def semreset (sem count : Int) (s : PortTable) : PortTable :=
  if count < 0 ∨ s.badSem sem then s
  else (drain sem (s.semtab sem).squeue.length s).setSem sem fun e => { e with scount := count }

/-- The loop of `semdelete`: `while (semptr->scount++ < 0)`. -/
def semdeleteLoop (sem : Int) : Nat → PortTable → PortTable
  | 0, s => s
  | n + 1, s =>
    let count := (s.semtab sem).scount
    let s := s.setSem sem fun e => { e with scount := e.scount + 1 }
    if count < 0 then semdeleteLoop sem n (s.releaseFirst sem) else s

def semdelete (sem : Int) (s : PortTable) : PortTable :=
  if s.badSem sem then s
  else
    let s := s.setSem sem fun e => { e with used := false }
    semdeleteLoop sem ((-(s.semtab sem).scount).toNat + 1) s

-- ---------------------------------------------------------------------------
-- The calls
-- ---------------------------------------------------------------------------

/-- `ptcreate` fills the entry that it has found. -/
def openPort (count : Int) (ptnum : Nat) (s : PortTable) : PortTable :=
  let s := s.setPort ptnum fun e => { e with ptstate := .alloc }
  let r := semcreate count s
  let s := r.2.setPort ptnum fun e => { e with ptssem := r.1 }
  let r := semcreate 0 s
  let s := r.2.setPort ptnum fun e =>
    { e with
      ptrsem := r.1
      pthead := none
      pttail := none
      ptseq := int32 (e.ptseq + 1)
      -- `ptmaxcnt` is a `uint16`
      ptmaxcnt := count.toNat % 2 ^ 16 }
  s.log (.opened ptnum)

/-- The loop of `ptcreate` over the table entries. -/
def ptcreateLoop (count : Int) : Nat → PortTable → Int × PortTable
  | 0, s => (SYSERR, s)
  | n + 1, s =>
    let ptnum := s.ptnextid
    let s := { s with ptnextid := if NPORTS ≤ ptnum + 1 then 0 else ptnum + 1 }
    if (s.porttab ptnum).ptstate = .free then (ptnum, s.openPort count ptnum)
    else ptcreateLoop count n s

/-- `ptcreate`: create a port that allows `count` outstanding messages. -/
def ptcreate (count : Int) (s : PortTable) : Int × PortTable :=
  if count < 0 then (SYSERR, s) else ptcreateLoop count NPORTS s

/-- `isbadport(portid) || ptptr->ptstate != PT_ALLOC`. -/
def badPort (portid : Nat) (s : PortTable) : Prop :=
  NPORTS ≤ portid ∨ (s.porttab portid).ptstate ≠ .alloc

instance (portid : Nat) (s : PortTable) : Decidable (s.badPort portid) :=
  inferInstanceAs (Decidable (_ ∨ _))

/-- The port is not the one that the process waited for. -/
def stale (portid : Nat) (seq : Int) (s : PortTable) : Prop :=
  (s.porttab portid).ptstate ≠ .alloc ∨ (s.porttab portid).ptseq ≠ seq

instance (portid : Nat) (seq : Int) (s : PortTable) : Decidable (s.stale portid seq) :=
  inferInstanceAs (Decidable (_ ∨ _))

/-- The free node `msgnode` is filled and linked into the queue of the port. -/
def linkNode (portid : Nat) (msgnode : Node) (msg : Msg) (s : PortTable) : PortTable :=
  let s := { s with
    ptfree := s.ptnext msgnode
    ptnext := Function.update s.ptnext msgnode none
    ptmsg := Function.update s.ptmsg msgnode msg }
  match (s.porttab portid).pttail with
  | none => s.setPort portid fun e => { e with pttail := some msgnode, pthead := some msgnode }
  | some tailnode =>
    { s with ptnext := Function.update s.ptnext tailnode (some msgnode) }.setPort portid
      fun e => { e with pttail := some msgnode }

/-- `ptsend` after its `wait`. -/
def ptsendRest (portid : Nat) (seq : Int) (msg : Msg) (s : PortTable) : Outcome × PortTable :=
  if s.stale portid seq then (.ret SYSERR, s)
  else
    match s.ptfree with
    -- panic("Port system ran out of message nodes")
    | none => s.halt
    | some msgnode =>
      let s := (s.linkNode portid msgnode msg).log (.sent portid msg)
      (.ret OK, s.signal (s.porttab portid).ptrsem)

/-- `ptsend`: send a message to a port by adding it to the queue. -/
def ptsend (pid : Pid) (portid : Nat) (msg : Msg) (s : PortTable) : Outcome × PortTable :=
  if s.badPort portid then (.ret SYSERR, s)
  else
    let seq := (s.porttab portid).ptseq
    match s.wait pid (s.porttab portid).ptssem with
    | (none, s) => (.ret SYSERR, s)
    | (some true, s) => (.blocked, s.setCall pid (some (.send portid seq msg)))
    | (some false, s) => s.ptsendRest portid seq msg

/-- The first node of the port, `msgnode`, is unlinked and returned to the free list. -/
def unlinkNode (portid : Nat) (msgnode : Node) (s : PortTable) : PortTable :=
  let s :=
    if (s.porttab portid).pthead = (s.porttab portid).pttail then
      s.setPort portid fun e => { e with pthead := none, pttail := none }
    else s.setPort portid fun e => { e with pthead := s.ptnext msgnode }
  { s with ptnext := Function.update s.ptnext msgnode s.ptfree, ptfree := some msgnode }

/-- `ptrecv` after its `wait`. -/
def ptrecvRest (portid : Nat) (seq : Int) (s : PortTable) : Outcome × PortTable :=
  if s.stale portid seq then (.ret SYSERR, s)
  else
    match (s.porttab portid).pthead with
    | none => s.halt
    | some msgnode =>
      let msg := s.ptmsg msgnode
      let s := (s.unlinkNode portid msgnode).log (.received portid msg)
      (.msg msg, s.signal (s.porttab portid).ptssem)

/-- `ptrecv`: receive a message from a port, blocking if the port is empty. -/
def ptrecv (pid : Pid) (portid : Nat) (s : PortTable) : Outcome × PortTable :=
  if s.badPort portid then (.ret SYSERR, s)
  else
    let seq := (s.porttab portid).ptseq
    match s.wait pid (s.porttab portid).ptrsem with
    | (none, s) => (.ret SYSERR, s)
    | (some true, s) => (.blocked, s.setCall pid (some (.recv portid seq)))
    | (some false, s) => s.ptrecvRest portid seq

/-- The loop of `_ptclear` that disposes of each message. -/
def disposeLoop (portid : Nat) : Nat → Option Node → PortTable → PortTable
  | n + 1, some walk, s => disposeLoop portid n (s.ptnext walk) (s.log (.disposed portid (s.ptmsg walk)))
  | _, _, s => s

/-- The message list of the port, put before the free list. -/
def freeMessages (nodes portid : Nat) (s : PortTable) : PortTable :=
  match (s.porttab portid).pthead with
  | none => s
  | some walk =>
    let s := disposeLoop portid nodes (some walk) s
    match (s.porttab portid).pttail with
    | none => { s with halted := true }
    | some tail => { s with ptnext := Function.update s.ptnext tail s.ptfree, ptfree := some walk }

/-- `_ptclear` until it has released the senders. There are `nodes` message nodes. -/
def ptclear (nodes portid : Nat) (newstate : PtState) (s : PortTable) : PortTable :=
  let s := s.setPort portid fun e => { e with ptstate := .limbo, ptseq := int32 (e.ptseq + 1) }
  let s := s.freeMessages nodes portid
  if newstate = .alloc then
    let s := s.setPort portid fun e => { e with pttail := none, pthead := none }
    s.semreset (s.porttab portid).ptssem (s.porttab portid).ptmaxcnt
  else s.semdelete (s.porttab portid).ptssem

/-- Then it releases the receivers. -/
def ptclearNext (portid : Nat) (newstate : PtState) (s : PortTable) : PortTable :=
  if newstate = .alloc then s.semreset (s.porttab portid).ptrsem 0
  else s.semdelete (s.porttab portid).ptrsem

/-- Its end, and that of `ptreset` or `ptdelete`. -/
def ptclearDone (portid : Nat) (newstate : PtState) (s : PortTable) : PortTable :=
  let s := s.setPort portid fun e => { e with ptstate := newstate }
  if newstate = .alloc then s.log (.opened portid) else { s with ptnextid := portid }

/-- `ptreset` and `ptdelete`: reset a port, or delete it. -/
def ptend (nodes : Nat) (pid : Pid) (portid : Nat) (newstate : PtState) (s : PortTable) :
    Outcome × PortTable :=
  if s.badPort portid then (.ret SYSERR, s)
  else (.yielded, (s.ptclear nodes portid newstate).setCall pid (some (.clear portid newstate)))

end PortTable

/-- The rest of a call. -/
def Call.run (pid : Pid) : Call → PortTable → Outcome × PortTable
  | .send portid seq msg, s => (s.setCall pid none).ptsendRest portid seq msg
  | .recv portid seq, s => (s.setCall pid none).ptrecvRest portid seq
  | .clear portid newstate, s =>
    (.yielded, (s.ptclearNext portid newstate).setCall pid (some (.cleared portid newstate)))
  | .cleared portid newstate, s =>
    (.ret OK, (s.ptclearDone portid newstate).setCall pid none)

/-- What a process does next. -/
inductive Act where
  | create (count : Int)
  | send (portid : Nat) (msg : Msg)
  | recv (portid : Nat)
  | reset (portid : Nat)
  | delete (portid : Nat)
  | resume
  deriving DecidableEq, Repr

/-- One step of process `pid`: a call, if it is in none, or the rest of the one it is
in. -/
def step (nodes : Nat) (pid : Pid) (a : Act) (s : PortTable) : Option (Outcome × PortTable) :=
  if s.halted then none
  else
    match a, s.calls pid with
    | .create count, none => some (.ret (s.ptcreate count).1, (s.ptcreate count).2)
    | .send portid msg, none => some (s.ptsend pid portid msg)
    | .recv portid, none => some (s.ptrecv pid portid)
    | .reset portid, none => some (s.ptend nodes pid portid .alloc)
    | .delete portid, none => some (s.ptend nodes pid portid .free)
    | .resume, some c => if s.ready pid then some (c.run pid s) else none
    | _, _ => none

/-- The state that `ptinit(nodes)` leaves: all nodes are linked into the free list and
all ports are free. No process is in a call, and every semaphore is in use or free
alike. -/
def ptinit (nodes : Nat) (used : Bool) : PortTable where
  porttab _ := { ptssem := 0, ptrsem := 0, ptstate := .free, ptmaxcnt := 0, ptseq := 0,
                 pthead := none, pttail := none }
  ptnextid := 0
  ptfree := some 0
  ptnext n := if n + 1 < nodes then some (n + 1) else none
  ptmsg _ := 0
  semtab _ := { used := used, scount := 0, squeue := [] }
  nextsem := 0
  calls _ := none
  ready _ := true
  halted := false
  trace := []

end Xinu.Ports
