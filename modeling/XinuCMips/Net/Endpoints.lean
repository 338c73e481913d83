import Mathlib.Algebra.BigOperators.Group.Finset.Piecewise
import Mathlib.Data.Fintype.BigOperators
import Mathlib.Data.Multiset.AddSub
import XinuCMips.Lib.Histories
import XinuCMips.Lib.Ring
import XinuCMips.Net.Packet

/-!
# Endpoints

`udp.c` and `icmp.c` keep the packets of an endpoint in the same way: a ring of
buffer addresses, a count, and the process that waits for a packet. This module
has that part once, with the constants of the two files and the copying of the
payload as parameters (`Proto`), and what it keeps as long as no step goes
wrong.

A receiver gives up the processor in `recvtime`, and `netin` may have to wait
in `getbuf` after it has stored a packet; what the call does afterwards is a
step of its own.

* `fifo`   — the monitor of the histories: packets leave a queue in the order
  in which they were accepted;
* `Intact` — the rings hold these queues, and every buffer has one place.
-/

namespace Xinu.Net

/-- `UDP_FREE`, `UDP_USED`, `UDP_RECV` and their `ICMP_` namesakes. -/
inductive Epstate where
  | FREE | USED | RECV
  deriving DecidableEq, Repr

/-- The fields of `struct udpentry` and `struct icmpentry` that hold the queue. -/
structure Endpoint where
  state : Epstate := .FREE
  head : Nat := 0
  tail : Nat := 0
  count : Int := 0
  /-- The waiting process, `none` for `-1`. -/
  pid : Option Pid := none
  queue : Nat → Buf := fun _ => 0

/-- What a receiver gets: the value of the call, the bytes stored in its buffer
and, from `udp_recvaddr`, the sender. -/
structure Reply where
  value : Int
  data : List (Option UInt8)
  sender : Option (UInt32 × UInt16) := none
  deriving DecidableEq, Repr

/-- What differs between the protocols: where the receivers wrap, where `netin`
wraps, and what a receiver copies out of a packet. `κ` is what a call still
needs when it has waited. -/
structure Proto (κ : Type) where
  slots : Nat
  qsiz : Nat
  reply : κ → Netpacket → Reply

structure Wait (n : Nat) (κ : Type) where
  slot : Fin n
  args : κ

inductive Event (n : Nat) where
  /-- A packet goes into a queue, in its buffer. -/
  | accepted (i : Fin n) (b : Buf) (p : Netpacket)
  /-- A receiver takes one out. -/
  | returned (pid : Pid) (i : Fin n) (b : Buf) (p : Netpacket) (r : Reply)
  /-- Releasing the endpoint throws one away. -/
  | flushed (i : Fin n) (b : Buf) (p : Netpacket)
  /-- A call ends without a packet. -/
  | failed (pid : Pid) (value : Int)
  deriving DecidableEq, Repr

structure Endpoints (n : Nat) (κ : Type) extends Base where
  tab : Fin n → Endpoint
  /-- The entry whose packet `netin` has stored when it waits in `getbuf`. -/
  netin : Option (Fin n)
  /-- The calls that wait in `recvtime`. -/
  waiting : Pid → Option (Wait n κ)
  /-- The buffers that other functions of `net/` have taken. -/
  others : List Buf

variable {n : Nat} {κ : Type}

/-! ## One entry -/

namespace Endpoint

def enqueue (qsiz : Nat) (b : Buf) (e : Endpoint) : Endpoint :=
  { e with
    count := e.count + 1
    queue := Function.update e.queue e.tail b
    tail := Ring.next qsiz e.tail }

/-- The buffer that `dequeue` takes out. -/
def front (e : Endpoint) : Buf := e.queue e.head

def dequeue (slots : Nat) (e : Endpoint) : Endpoint :=
  { e with
    head := Ring.next slots e.head
    count := e.count - 1 }

end Endpoint

namespace Endpoints

/-! ## Steps -/

def setEp (i : Fin n) (f : Endpoint → Endpoint) (s : Endpoints n κ) : Endpoints n κ :=
  { s with tab := Function.update s.tab i (f (s.tab i)) }

/-- Waking the process that waits for a packet. -/
def notify (i : Fin n) (s : Endpoints n κ) : Endpoints n κ :=
  if (s.tab i).state = .RECV then
    let s := s.setEp i fun e => { e with state := .USED }
    { s with toBase := s.send (s.tab i).pid OK }
  else s

/-- Storing `currpkt` in the queue of an entry and taking another buffer, which
may have to be waited for. -/
def deliver (P : Proto κ) (i : Fin n) (s : Endpoints n κ) : Endpoints n κ × List (Event n) :=
  let es := [.accepted i s.currpkt (s.packet s.currpkt)]
  let s := s.setEp i (Endpoint.enqueue P.qsiz s.currpkt)
  match s.getbuf with
  | none => ({ s with netin := some i }, es)
  | some base => (notify i { s with toBase := base }, es)

/-- `netin` goes on after waiting in `getbuf`. -/
def delivered (s : Endpoints n κ) : Option (Endpoints n κ × List (Event n)) :=
  match s.netin, s.getbuf with
  | some i, some base => some (notify i { s with toBase := base, netin := none }, [])
  | _, _ => none

/-- Taking the packet at the head of the queue and freeing its buffer. -/
def unqueue (slots : Nat) (i : Fin n) (s : Endpoints n κ) : Endpoints n κ :=
  { s.setEp i (Endpoint.dequeue slots) with toBase := s.freebuf (s.tab i).front }

/-- A receiver takes a packet, and copies it before it frees the buffer. -/
def take (P : Proto κ) (pid : Pid) (i : Fin n) (args : κ) (s : Endpoints n κ) :
    Endpoints n κ × List (Event n) :=
  let pkt := (s.tab i).front
  (s.unqueue P.slots i, [.returned pid i pkt (s.packet pkt) (P.reply args (s.packet pkt))])

/-- A receiver behind its `recvtime`, which has given `msg`. -/
def recvRest (P : Proto κ) (pid : Pid) (i : Fin n) (args : κ) (msg : Int) (s : Endpoints n κ) :
    Endpoints n κ × List (Event n) :=
  let s := s.setEp i fun e => { e with state := .USED }
  if msg = TIMEOUT then (s, [.failed pid TIMEOUT])
  else if msg ≠ OK then (s, [.failed pid SYSERR])
  else take P pid i args s

/-- A receiver from the entry `i`. Without a packet it waits, at most for
`timeout`. -/
def recv (P : Proto κ) (pid : Pid) (i : Fin n) (args : κ) (timeout : Int) (s : Endpoints n κ) :
    Endpoints n κ × List (Event n) :=
  if (s.tab i).count = 0 then
    let s := s.setEp i fun e => { e with state := .RECV, pid := some pid }
    let s := { s with toBase := s.recvclr pid }
    -- `recvtime` refuses a negative time
    if timeout < 0 then recvRest P pid i args SYSERR s
    else ({ s with waiting := Function.update s.waiting pid (some ⟨i, args⟩) }, [])
  else take P pid i args s

/-- The receiver `pid` runs again, because of a message or after its time. -/
def woken (P : Proto κ) (pid : Pid) (s : Endpoints n κ) :
    Option (Endpoints n κ × List (Event n)) :=
  match s.waiting pid with
  | none => none
  | some w =>
    let msg := s.received pid
    let s := { s with toBase := s.recvclr pid, waiting := Function.update s.waiting pid none }
    some (recvRest P pid w.slot w.args msg s)

/-- `while (count > 0)`: free the buffers of all packets of an entry. -/
def drain (slots : Nat) (i : Fin n) : Nat → Endpoints n κ → Endpoints n κ × List (Event n)
  | 0, s => (s, [])
  | k + 1, s =>
    let pkt := (s.tab i).front
    let (s', es) := drain slots i k (s.unqueue slots i)
    (s', es ++ [.flushed i pkt (s.packet pkt)])

/-- Releasing the entry `i`. -/
def release (P : Proto κ) (i : Fin n) (s : Endpoints n κ) : Endpoints n κ × List (Event n) :=
  let (s, es) := drain P.slots i (s.tab i).count.toNat s
  (s.setEp i fun e => { e with state := .FREE }, es)

/-- Another function of `net/` takes a buffer. -/
def borrow (s : Endpoints n κ) : Option (Endpoints n κ × List (Event n)) :=
  match s.netbufpool with
  | [] => none
  | b :: free => some ({ s with netbufpool := free, others := b :: s.others }, [])

/-- Another function of `net/` frees a buffer that it has taken. -/
def giveBack (b : Buf) (s : Endpoints n κ) : Option (Endpoints n κ × List (Event n)) :=
  if b ∈ s.others then
    some ({ s with toBase := s.freebuf b, others := s.others.erase b }, [])
  else none

/-- A process sends a message. -/
def tell (pid : Pid) (msg : Int) (s : Endpoints n κ) : Endpoints n κ × List (Event n) :=
  ({ s with toBase := s.send (some pid) msg }, [])

end Endpoints

end Xinu.Net
