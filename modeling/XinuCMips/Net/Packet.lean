import Mathlib.Logic.Function.Basic
import XinuCMips.Kernel.Table

/-!
# Packets, packet buffers and messages

What the functions of `net/` share: the packet of `net.h`, the buffers of
`netbufpool`, the buffer `currpkt` that `netin` reads into, and the message
box of each process. Buffers and processes are numbers.

A packet has its UDP and its ICMP fields side by side; they share storage in
the source, but no function reads a field of one protocol after writing a
field of the other.
-/

namespace Xinu.Net

def IP_BCAST : UInt32 := 0xFFFFFFFF

abbrev Buf := Nat
abbrev Pid := Nat

/-- `struct netpacket`: the fields that `udp.c` and `icmp.c` read. -/
structure Netpacket where
  net_iplen : UInt16 := 0
  net_ipsrc : UInt32 := 0
  net_ipdst : UInt32 := 0
  net_udpsport : UInt16 := 0
  net_udpdport : UInt16 := 0
  net_udplen : UInt16 := 0
  net_udpdata : List UInt8 := []
  net_ictype : UInt8 := 0
  net_icident : UInt16 := 0
  net_icseq : UInt16 := 0
  net_icdata : List UInt8 := []
  deriving DecidableEq, Repr

/-- The bytes that a copy of `n` bytes of payload reads; `none` is a byte
behind the end of the packet. -/
def copied (data : List UInt8) (n : Nat) : List (Option UInt8) := (List.range n).map (data[·]?)

/-- The message boxes: `prmsg` where `prhasmsg` is set. -/
abbrev Mail := Pid → Option Int

/-- `send`: nothing is delivered to a process that has a message already. -/
def Mail.send (m : Mail) (pid : Pid) (msg : Int) : Mail :=
  if (m pid).isSome then m else Function.update m pid (some msg)

/-- `recvclr`. -/
def Mail.recvclr (m : Mail) (pid : Pid) : Mail := Function.update m pid none

/-- `recvtime` when the process runs again: the message that has come, or
`TIMEOUT` when none has. -/
def Mail.received (m : Mail) (pid : Pid) : Int := (m pid).getD TIMEOUT

structure Base where
  /-- The free buffers, the next one to be handed out first. -/
  netbufpool : List Buf
  /-- What each buffer contains. -/
  packet : Buf → Netpacket
  currpkt : Buf
  prmsg : Mail

namespace Base

/-! ## Buffers -/

/-- `currpkt = getbuf(netbufpool)`, where a buffer is free. -/
def getbuf (s : Base) : Option Base :=
  match s.netbufpool with
  | [] => none
  | b :: free => some { s with netbufpool := free, currpkt := b }

def freebuf (b : Buf) (s : Base) : Base := { s with netbufpool := b :: s.netbufpool }

/-- `read(ETHER0, currpkt, PACKLEN)`. -/
def readPacket (p : Netpacket) (s : Base) : Base :=
  { s with packet := Function.update s.packet s.currpkt p }

/-! ## Messages -/

/-- `send`, to no process for the pid `-1`. -/
def send (pid : Option Pid) (msg : Int) (s : Base) : Base :=
  match pid with
  | none => s
  | some pid => { s with prmsg := Mail.send s.prmsg pid msg }

def recvclr (pid : Pid) (s : Base) : Base := { s with prmsg := Mail.recvclr s.prmsg pid }

def received (pid : Pid) (s : Base) : Int := Mail.received s.prmsg pid

variable {s s' : Base}

@[simp] theorem send_netbufpool (pid : Option Pid) (msg : Int) (s : Base) :
    (s.send pid msg).netbufpool = s.netbufpool := by
  cases pid with
  | none => rfl
  | some pid => rfl

@[simp] theorem send_packet (pid : Option Pid) (msg : Int) (s : Base) :
    (s.send pid msg).packet = s.packet := by
  cases pid with
  | none => rfl
  | some pid => rfl

@[simp] theorem send_currpkt (pid : Option Pid) (msg : Int) (s : Base) :
    (s.send pid msg).currpkt = s.currpkt := by
  cases pid with
  | none => rfl
  | some pid => rfl

/-- `getbuf` takes the first free buffer. -/
theorem getbuf_eq (h : s.getbuf = some s') :
    s.netbufpool = s'.currpkt :: s'.netbufpool ∧ s'.packet = s.packet ∧ s'.prmsg = s.prmsg := by
  unfold getbuf at h
  cases hp : s.netbufpool with
  | nil =>
    rw [hp] at h
    cases h
  | cons b free =>
    rw [hp] at h
    obtain rfl := Option.some.inj h
    exact ⟨rfl, rfl, rfl⟩

end Base

end Xinu.Net
