import XinuCMips.Net.Intact

/-!
# UDP endpoints

`udp.c`: the table of endpoints, the packets that `netin` hands to `udp_in`,
and the processes that receive them. `udp_in` stores at `udtail`, which wraps
at `UDP_QSIZ`; `udp_recv`, `udp_recvaddr` and `udp_release` take from `udhead`,
which wraps at `UDP_SLOTS`, the size of another array.

* `udp_fifo_without_slip` — as long as no packet is taken from the slot
  `UDP_SLOTS - 1`, and every receiver that is told of a packet finds one, all
  packets are returned in order and once, and no buffer is lost;
* `udp_not_fifo`          — the seventh packet is not the one that is returned.
-/

namespace Xinu.Net

def UDP_SLOTS : Nat := 6
def UDP_QSIZ : Nat := 8
def UDP_HDR_LEN : Int := 8

/-- The addresses of a `struct udpentry`. -/
structure Udpaddr where
  udremip : UInt32 := 0
  udremport : UInt16 := 0
  udlocport : UInt16 := 0
  deriving DecidableEq, Repr

/-- What is left of a receiving call behind `recvtime`: the length of the
caller's buffer, and whether the call is `udp_recvaddr`. -/
structure UdpArgs where
  len : Int
  addr : Bool

/-- The copying of the payload: up to `net_udplen` less the header, and up to
`len`. -/
def udpReply (args : UdpArgs) (pkt : Netpacket) : Reply :=
  let msglen := (pkt.net_udplen.toNat : Int) - UDP_HDR_LEN
  let n := (min msglen args.len).toNat
  { value := n
    data := copied pkt.net_udpdata n
    sender := if args.addr then some (pkt.net_ipsrc, pkt.net_udpsport) else none }

def udp : Proto UdpArgs where
  slots := UDP_SLOTS
  qsiz := UDP_QSIZ
  reply := udpReply

structure Udp extends Endpoints UDP_SLOTS UdpArgs where
  addr : Fin UDP_SLOTS → Udpaddr

namespace Udp

/-- A step that concerns the queues only. -/
def after (s : Udp) (r : Endpoints UDP_SLOTS UdpArgs × List (Event UDP_SLOTS)) :
    Udp × List (Event UDP_SLOTS) :=
  ({ s with toEndpoints := r.1 }, r.2)

/-! ## `udp.c` -/

/-- The entry matches the packet. -/
def Matches (s : Udp) (pkt : Netpacket) (i : Fin UDP_SLOTS) : Prop :=
  (s.tab i).state ≠ .FREE ∧ pkt.net_udpdport = (s.addr i).udlocport ∧
    ((s.addr i).udremport = 0 ∨ pkt.net_udpsport = (s.addr i).udremport) ∧
    ((s.addr i).udremip = 0 ∨ pkt.net_ipsrc = (s.addr i).udremip)

instance (s : Udp) (pkt : Netpacket) (i : Fin UDP_SLOTS) : Decidable (s.Matches pkt i) :=
  inferInstanceAs (Decidable (_ ∧ _))

/-- `udp_in`: the first entry that matches and has room takes the packet. -/
def udp_in (s : Udp) : Udp × List (Event UDP_SLOTS) :=
  let pkt := s.packet s.currpkt
  match (List.finRange UDP_SLOTS).find? fun i => s.Matches pkt i ∧ (s.tab i).count < UDP_QSIZ with
  | none => (s, [])
  | some i => s.after (s.deliver udp i)

/-- `udp_register`. -/
def udp_register (remip : UInt32) (remport locport : UInt16) (s : Udp) : Int × Udp :=
  if ∃ i, (s.tab i).state ≠ .FREE ∧ s.addr i = ⟨remip, remport, locport⟩ then (SYSERR, s)
  else
    match (List.finRange UDP_SLOTS).find? fun i => (s.tab i).state = .FREE with
    | none => (SYSERR, s)
    | some i =>
      let eps := s.setEp i fun e =>
        { e with state := .USED, count := 0, head := 0, tail := 0, pid := none }
      (OK, { toEndpoints := eps, addr := Function.update s.addr i ⟨remip, remport, locport⟩ })

/-- The entry that `udp_recv` receives from. -/
def recvEntry (remip : UInt32) (remport locport : UInt16) (s : Udp) : Option (Fin UDP_SLOTS) :=
  (List.finRange UDP_SLOTS).find? fun i => s.addr i = ⟨remip, remport, locport⟩

/-- `udp_recv`. The time is passed on as an `int32`. -/
def udp_recv (pid : Pid) (remip : UInt32) (remport locport : UInt16) (len : Int)
    (timeout : UInt32) (s : Udp) : Udp × List (Event UDP_SLOTS) :=
  match s.recvEntry remip remport locport with
  | none => (s, [.failed pid SYSERR])
  | some i => s.after (s.recv udp pid i ⟨len, false⟩ (int32 timeout.toNat))

/-- The entry that `udp_recvaddr` receives from. -/
def recvaddrEntry (locport : UInt16) (s : Udp) : Option (Fin UDP_SLOTS) :=
  (List.finRange UDP_SLOTS).find? fun i => (s.addr i).udremip = 0 ∧ locport = (s.addr i).udlocport

/-- `udp_recvaddr`. -/
def udp_recvaddr (pid : Pid) (locport : UInt16) (len : Int) (timeout : UInt32) (s : Udp) :
    Udp × List (Event UDP_SLOTS) :=
  match s.recvaddrEntry locport with
  | none => (s, [.failed pid SYSERR])
  | some i => s.after (s.recv udp pid i ⟨len, true⟩ (int32 timeout.toNat))

/-- The entry that `udp_release` releases. -/
def releaseEntry (remip : UInt32) (remport locport : UInt16) (s : Udp) : Option (Fin UDP_SLOTS) :=
  (List.finRange UDP_SLOTS).find? fun i =>
    (s.tab i).state = .USED ∧ s.addr i = ⟨remip, remport, locport⟩

/-- `udp_release`. -/
def udp_release (remip : UInt32) (remport locport : UInt16) (s : Udp) :
    Udp × List (Event UDP_SLOTS) :=
  match s.releaseEntry remip remport locport with
  | none => (s, [])
  | some i => s.after (s.release udp i)

end Udp

/-! ## Runs -/

inductive UdpAct where
  /-- `netin` reads a packet and calls `udp_in`. -/
  | arrive (pkt : Netpacket)
  /-- `netin` goes on after waiting for a buffer. -/
  | netin
  | register (remip : UInt32) (remport locport : UInt16)
  | recv (pid : Pid) (remip : UInt32) (remport locport : UInt16) (len : Int) (timeout : UInt32)
  | recvaddr (pid : Pid) (locport : UInt16) (len : Int) (timeout : UInt32)
  /-- A receiver goes on, with a message or after its time. -/
  | woken (pid : Pid)
  | release (remip : UInt32) (remport locport : UInt16)
  | tell (pid : Pid) (msg : Int)
  | borrow
  | giveBack (b : Buf)

namespace Udp

def step (s : Udp) : UdpAct → Option (Udp × List (Event UDP_SLOTS))
  | .arrive pkt =>
    if s.netin = none then some { s with toBase := s.readPacket pkt }.udp_in else none
  | .netin => s.delivered.map s.after
  | .register remip remport locport => some ((s.udp_register remip remport locport).2, [])
  | .recv pid remip remport locport len timeout =>
    if (s.waiting pid).isNone then some (s.udp_recv pid remip remport locport len timeout) else none
  | .recvaddr pid locport len timeout =>
    if (s.waiting pid).isNone then some (s.udp_recvaddr pid locport len timeout) else none
  | .woken pid => (s.toEndpoints.woken udp pid).map s.after
  | .release remip remport locport => some (s.udp_release remip remport locport)
  | .tell pid msg => some (s.after (s.toEndpoints.tell pid msg))
  | .borrow => s.toEndpoints.borrow.map s.after
  | .giveBack b => (s.toEndpoints.giveBack b).map s.after

/-- After `udp_init`, with the first buffer in `currpkt`. -/
def Started (pool : Multiset Buf) (s : Udp) : Prop :=
  pool.Nodup ∧ ↑s.netbufpool + {s.currpkt} + ↑s.others = pool ∧ (∀ i, s.tab i = {}) ∧
    s.netin = none ∧ ∀ pid, (s.waiting pid).isNone

def machine (pool : Multiset Buf) : Machine Udp UdpAct (Event UDP_SLOTS) := ⟨Started pool, step⟩

/-- **All packets have been returned in order, each of them once, or are still
queued; the indices agree with the counts; and each buffer is in one place.** -/
def Kept (pool : Multiset Buf) (tr : List (Event UDP_SLOTS)) (s : Udp) : Prop :=
  ∃ q, (fifo UDP_SLOTS).run tr = some q ∧ s.toEndpoints.Intact udp pool q

/-- A step that takes no packet from the slot `UDP_SLOTS - 1`, and wakes no
receiver with `OK` whose queue is empty. -/
def Sound (s : Udp) : UdpAct → Prop
  | .recv _ remip remport locport _ _ =>
    ∀ i ∈ s.recvEntry remip remport locport,
      (s.tab i).count ≠ 0 → (s.tab i).head + 1 < UDP_SLOTS
  | .recvaddr _ locport _ _ =>
    ∀ i ∈ s.recvaddrEntry locport, (s.tab i).count ≠ 0 → (s.tab i).head + 1 < UDP_SLOTS
  | .woken pid =>
    ∀ w ∈ s.waiting pid, s.received pid = OK →
      0 < (s.tab w.slot).count ∧ (s.tab w.slot).head + 1 < UDP_SLOTS
  | .release remip remport locport =>
    ∀ i ∈ s.releaseEntry remip remport locport,
      (s.tab i).head + (s.tab i).count.toNat < UDP_SLOTS
  | _ => True

instance (s : Udp) : ∀ a : UdpAct, Decidable (Sound s a)
  | .recv _ remip remport locport _ _ =>
    inferInstanceAs (Decidable (∀ i ∈ s.recvEntry remip remport locport, _))
  | .recvaddr _ locport _ _ => inferInstanceAs (Decidable (∀ i ∈ s.recvaddrEntry locport, _))
  | .woken pid =>
    inferInstanceAs (Decidable (∀ w ∈ s.waiting pid, s.received pid = OK →
      0 < (s.tab w.slot).count ∧ (s.tab w.slot).head + 1 < UDP_SLOTS))
  | .release remip remport locport =>
    inferInstanceAs (Decidable (∀ i ∈ s.releaseEntry remip remport locport, _))
  | .arrive _ | .netin | .register .. | .tell .. | .borrow | .giveBack _ =>
    inferInstanceAs (Decidable True)

variable {pool : Multiset Buf} {q : Queues UDP_SLOTS} {s s' : Udp} {es : List (Event UDP_SLOTS)}

open Endpoints

theorem started_intact (h : Started pool s) :
    s.toEndpoints.Intact udp pool fun _ => [] := by
  obtain ⟨-, hpool, htab, hnetin, -⟩ := h
  refine ⟨?_, nofun, ?_, fun _ _ => rfl⟩
  · intro i
    rw [htab i]
    exact Endpoint.keeps_nil (by decide)
  · rw [current_of_none hnetin, ← hpool]
    unfold Queues.buffers
    simp

theorem udp_in_kept (h : s.toEndpoints.Intact udp pool q) (hn : s.netin = none) :
    Endpoints.Kept udp pool q (s.udp_in.1.toEndpoints, s.udp_in.2) := by
  unfold udp_in
  dsimp only
  cases hf : (List.finRange UDP_SLOTS).find?
      fun i => s.Matches (s.packet s.currpkt) i ∧ (s.tab i).count < UDP_QSIZ with
  | none => exact h.kept
  | some i =>
    have hi := List.find?_some hf
    rw [decide_eq_true_eq] at hi
    exact h.deliver hn hi.2 hi.1.1

/-- Registering finds the queue of a free entry empty. -/
theorem register_intact (h : s.toEndpoints.Intact udp pool q) (remip : UInt32)
    (remport locport : UInt16) :
    (s.udp_register remip remport locport).2.toEndpoints.Intact udp pool q := by
  unfold udp_register
  by_cases hdup : ∃ i, (s.tab i).state ≠ .FREE ∧ s.addr i = ⟨remip, remport, locport⟩
  · rw [if_pos hdup]
    exact h
  · rw [if_neg hdup]
    cases hf : (List.finRange UDP_SLOTS).find? fun i => (s.tab i).state = .FREE with
    | none => exact h
    | some i =>
      have hfree := List.find?_some hf
      rw [decide_eq_true_eq] at hfree
      have hnil := h.unused i hfree
      refine h.setEntry i (fun e =>
        { e with state := .USED, count := 0, head := 0, tail := 0, pid := none }) ?_ fun _ => hnil
      rw [hnil]
      exact ⟨Nat.zero_lt_succ 7, rfl, rfl, Nat.zero_le _, Ring.holds_nil⟩

theorem udp_recv_kept (h : s.toEndpoints.Intact udp pool q) (pid : Pid) (remip : UInt32)
    (remport locport : UInt16) (len : Int) (timeout : UInt32)
    (hok : Sound s (.recv pid remip remport locport len timeout)) :
    Endpoints.Kept udp pool q ((s.udp_recv pid remip remport locport len timeout).1.toEndpoints,
      (s.udp_recv pid remip remport locport len timeout).2) := by
  unfold udp_recv
  cases hf : s.recvEntry remip remport locport with
  | none => exact h.failed pid SYSERR
  | some i => exact h.recv (by decide) pid _ _ (hok i hf)

theorem udp_recvaddr_kept (h : s.toEndpoints.Intact udp pool q) (pid : Pid) (locport : UInt16)
    (len : Int) (timeout : UInt32) (hok : Sound s (.recvaddr pid locport len timeout)) :
    Endpoints.Kept udp pool q ((s.udp_recvaddr pid locport len timeout).1.toEndpoints,
      (s.udp_recvaddr pid locport len timeout).2) := by
  unfold udp_recvaddr
  cases hf : s.recvaddrEntry locport with
  | none => exact h.failed pid SYSERR
  | some i => exact h.recv (by decide) pid _ _ (hok i hf)

theorem udp_release_kept (h : s.toEndpoints.Intact udp pool q) (remip : UInt32)
    (remport locport : UInt16) (hok : Sound s (.release remip remport locport)) :
    Endpoints.Kept udp pool q ((s.udp_release remip remport locport).1.toEndpoints,
      (s.udp_release remip remport locport).2) := by
  unfold udp_release
  cases hf : s.releaseEntry remip remport locport with
  | none => exact h.kept
  | some i => exact h.release (by decide) (hok i hf)

/-- **One step keeps the queues.** -/
theorem step_kept (hpool : pool.Nodup) (h : s.toEndpoints.Intact udp pool q) {a : UdpAct}
    (hok : Sound s a) (hst : s.step a = some (s', es)) :
    Endpoints.Kept udp pool q (s'.toEndpoints, es) := by
  have hle : udp.slots ≤ udp.qsiz := by decide
  -- a step of the queues, possible or not
  have hmap {r : Option (Endpoints UDP_SLOTS UdpArgs × List (Event UDP_SLOTS))}
      (hr : ∀ t es, r = some (t, es) → Endpoints.Kept udp pool q (t, es))
      (hm : r.map s.after = some (s', es)) : Endpoints.Kept udp pool q (s'.toEndpoints, es) := by
    obtain ⟨⟨t, es'⟩, ht, hs'⟩ := Option.map_eq_some_iff.mp hm
    obtain ⟨rfl, rfl⟩ := Prod.mk.inj hs'
    exact hr t es' ht
  cases a with
  | arrive pkt =>
    change (if s.netin = none then _ else _) = _ at hst
    by_cases hn : s.netin = none
    · rw [if_pos hn] at hst
      have hk := udp_in_kept (s := { s with toBase := s.readPacket pkt })
        (h.readPacket hpool hn pkt) hn
      rw [Option.some.inj hst] at hk
      exact hk
    · rw [if_neg hn] at hst
      cases hst
  | netin => exact hmap (fun t es ht => h.delivered ht) hst
  | register remip remport locport =>
    obtain ⟨rfl, rfl⟩ := Prod.mk.inj (Option.some.inj hst)
    exact (register_intact h remip remport locport).kept
  | recv pid remip remport locport len timeout =>
    change (if (s.waiting pid).isNone then _ else _) = _ at hst
    by_cases hw : (s.waiting pid).isNone
    · rw [if_pos hw] at hst
      have hk := udp_recv_kept h pid remip remport locport len timeout hok
      rw [Option.some.inj hst] at hk
      exact hk
    · rw [if_neg hw] at hst
      cases hst
  | recvaddr pid locport len timeout =>
    change (if (s.waiting pid).isNone then _ else _) = _ at hst
    by_cases hw : (s.waiting pid).isNone
    · rw [if_pos hw] at hst
      have hk := udp_recvaddr_kept h pid locport len timeout hok
      rw [Option.some.inj hst] at hk
      exact hk
    · rw [if_neg hw] at hst
      cases hst
  | woken pid =>
    refine hmap (fun t es ht => h.woken hle ?_ ht) hst
    intro w hw hmsg
    obtain ⟨hcount, hhead⟩ := hok w hw hmsg
    exact ⟨hcount, hhead⟩
  | release remip remport locport =>
    have hk := udp_release_kept h remip remport locport hok
    rw [Option.some.inj hst] at hk
    exact hk
  | tell pid msg =>
    obtain ⟨rfl, rfl⟩ := Prod.mk.inj (Option.some.inj hst)
    exact (h.send (some pid) msg).kept
  | borrow => exact hmap (fun t es ht => h.borrow ht) hst
  | giveBack b => exact hmap (fun t es ht => h.giveBack ht) hst

/-- **Packets are returned in order, each of them once, and every buffer keeps
its place**, in every run in which no packet is taken from the slot
`UDP_SLOTS - 1` and every receiver that is told of a packet finds one. -/
theorem udp_fifo_without_slip {tr : List (Event UDP_SLOTS)}
    (r : (machine pool).Run Sound tr s) : Kept pool tr s := by
  have hnodup : pool.Nodup := by
    induction r with
    | start h => exact h.1
    | step _ _ _ ih => exact ih
  refine r.accepted (R := fun q s => s.toEndpoints.Intact udp pool q) ?_ ?_
  · intro s h
    exact started_intact h
  · intro q s s' a es h hok hst
    exact step_kept hnodup h hok hst

/-! ## Seven packets -/

/-- After `udp_init`, with a small pool. -/
def boot : Udp where
  netbufpool := [1, 2, 3, 4, 5, 6, 7]
  packet := fun _ => {}
  currpkt := 0
  prmsg := fun _ => none
  tab := fun _ => {}
  netin := none
  waiting := fun _ => none
  others := []
  addr := fun _ => {}

theorem boot_started : Started (Multiset.range 8) boot := by
  refine ⟨Multiset.nodup_range 8, by decide, fun _ => rfl, rfl, fun _ => rfl⟩

/-- `n` packets arrive for port 7, numbered from `k`, and then process 5 receives
`n` packets. -/
def burst (k n : Nat) : List UdpAct :=
  ((List.range n).map fun j =>
    .arrive { net_udpdport := 7, net_udplen := 9, net_udpdata := [(k + j).toUInt8] }) ++
    List.replicate n (.recv 5 0 0 7 100 1000)

theorem udp_fifo_without_slip_five :
    ∃ tr s, (machine (Multiset.range 8)).exec Sound boot [] (.register 0 0 7 :: burst 0 5) =
      some (s, tr) ∧ tr.length = 10 ∧ Kept (Multiset.range 8) tr s := by
  have hrun : ((machine (Multiset.range 8)).exec Sound boot [] (.register 0 0 7 :: burst 0 5)).any
      (fun r => r.2.length == 10) := by
    decide +kernel
  obtain ⟨⟨s, tr⟩, hst, hlen⟩ := (Option.any_eq_true _ _).mp hrun
  exact ⟨tr, s, hst, of_decide_eq_true hlen,
    udp_fifo_without_slip (Machine.exec_run (.start boot_started) hst)⟩

/-- **The seventh packet is not the one that is returned**: after the sixth the
head of the queue is back at the first slot, the tail is not. -/
theorem udp_not_fifo : ¬ ∀ pool tr s, (machine pool).Run (fun _ _ => True) tr s → Kept pool tr s := by
  intro hall
  have hrun : ((machine (Multiset.range 8)).exec (fun _ _ => True) boot []
      (.register 0 0 7 :: (burst 0 6 ++ burst 6 1))).any
        (fun r => ((fifo UDP_SLOTS).run r.2).isNone) := by
    decide +kernel
  obtain ⟨⟨s, tr⟩, hst, hrej⟩ := (Option.any_eq_true _ _).mp hrun
  obtain ⟨q, hq, -⟩ := hall _ tr s (Machine.exec_run (.start boot_started) hst)
  rw [hq] at hrej
  cases hrej

end Udp

end Xinu.Net
