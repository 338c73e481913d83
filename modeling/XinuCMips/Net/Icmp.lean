import XinuCMips.Net.Intact

/-!
# ICMP echo

`icmp.c`: `icmp_in` stores an echo reply in the slot that its identifier names,
without looking at how many are queued there, and answers an echo request
through `icmp_send`, which stores the answer in the output queue, without
looking whether there is room. The process `icmp_out` sends the answers. As in
`udp.c`, the receivers wrap at `ICMP_SLOTS` and `icmp_in` at `ICMP_QSIZ`.

* `icmp_fifo_without_slip` — when neither queue is full where a packet is
  stored, no packet is taken from the slot `ICMP_SLOTS - 1`, and every receiver
  that is told of a packet finds one, both queues keep their order and no buffer
  is lost;
* `icmp_not_fifo`          — nine replies without a receiver.
-/

namespace Xinu.Net

def ICMP_SLOTS : Nat := 6
def ICMP_QSIZ : Nat := 8
def ICMP_OQSIZ : Nat := 6
def ICMP_HDR_LEN : Int := 8
def IP_HDR_LEN : Int := 20
def ICMP_ECHOREPLY : UInt8 := 0
def ICMP_ECHOREQST : UInt8 := 8

/-- What is left of `icmp_recv` behind `recvtime`. -/
structure IcmpArgs where
  len : Int

/-- The length of the data of an ICMP packet. -/
def datalen (pkt : Netpacket) : Int := (pkt.net_iplen.toNat : Int) - IP_HDR_LEN - ICMP_HDR_LEN

def icmpReply (args : IcmpArgs) (pkt : Netpacket) : Reply :=
  let n := (min (datalen pkt) args.len).toNat
  { value := n, data := copied pkt.net_icdata n }

def icmp : Proto IcmpArgs where
  slots := ICMP_SLOTS
  qsiz := ICMP_QSIZ
  reply := icmpReply

/-- `icmptab` and `Icmpout`. -/
structure Icmp extends Endpoints ICMP_SLOTS IcmpArgs where
  icremip : Fin ICMP_SLOTS → UInt32
  icohead : Nat
  icotail : Nat
  /-- The count of the semaphore `icosem`. -/
  icosem : Nat
  icoutq : Nat → Buf
  /-- The packet that `icmp_out` is sending. -/
  sending : Option Buf

inductive IcmpEvent where
  | slot (e : Event ICMP_SLOTS)
  /-- A packet goes into the output queue. -/
  | queued (b : Buf) (p : Netpacket)
  /-- `icmp_out` takes a packet out of the queue. -/
  | dequeued (b : Buf) (p : Netpacket)
  /-- The packet is handed to the device. -/
  | sent (p : Netpacket)
  deriving DecidableEq, Repr

namespace Icmp

/-- A step that concerns the slots only. -/
def after (s : Icmp) (r : Endpoints ICMP_SLOTS IcmpArgs × List (Event ICMP_SLOTS)) :
    Icmp × List IcmpEvent :=
  ({ s with toEndpoints := r.1 }, r.2.map .slot)

/-! ## `icmp.c` -/

/-- `icmp_send`, where a buffer is free; a call that has to wait for one has
done nothing yet. Of the data, the bytes that lie in the caller's buffer are
copied. -/
def icmp_send (remip : UInt32) (type : UInt8) (ident seq : UInt16) (buf : List UInt8) (len : Int)
    (s : Icmp) : Option (Icmp × List IcmpEvent) :=
  match s.netbufpool with
  | [] => none
  | pkt :: free =>
    let p : Netpacket :=
      { net_iplen := UInt16.ofNat (IP_HDR_LEN + ICMP_HDR_LEN + len).toNat
        net_ipdst := remip
        net_ictype := type
        net_icident := ident
        net_icseq := seq
        net_icdata := buf.take len.toNat }
    some
      ({ s with
          netbufpool := free
          packet := Function.update s.packet pkt p
          icoutq := Function.update s.icoutq s.icotail pkt
          icotail := Ring.next ICMP_OQSIZ s.icotail
          icosem := s.icosem + 1 }, [.queued pkt p])

/-- The slot with a given number. -/
def slotOf (slot : Int) : Option (Fin ICMP_SLOTS) :=
  if h : 0 ≤ slot ∧ slot < ICMP_SLOTS then some ⟨slot.toNat, by omega⟩ else none

/-- The slot that an echo reply is for. -/
def replySlot (pkt : Netpacket) (s : Icmp) : Option (Fin ICMP_SLOTS) :=
  (slotOf pkt.net_icident.toNat).filter fun i =>
    (s.tab i).state ≠ .FREE ∧ pkt.net_ipsrc = s.icremip i

/-- `icmp_in`. -/
def icmp_in (s : Icmp) : Option (Icmp × List IcmpEvent) :=
  let pkt := s.packet s.currpkt
  if pkt.net_ictype ≠ ICMP_ECHOREPLY ∧ pkt.net_ictype ≠ ICMP_ECHOREQST then some (s, [])
  else if pkt.net_ictype = ICMP_ECHOREQST then
    s.icmp_send pkt.net_ipsrc ICMP_ECHOREPLY pkt.net_icident pkt.net_icseq pkt.net_icdata
      (datalen pkt)
  else
    match s.replySlot pkt with
    | none => some (s, [])
    | some i => some (s.after (s.deliver icmp i))

/-- `icmp_register`. -/
def icmp_register (remip : UInt32) (s : Icmp) : Int × Icmp :=
  if ∃ i, (s.tab i).state ≠ .FREE ∧ s.icremip i = remip then (SYSERR, s)
  else
    match (List.finRange ICMP_SLOTS).find? fun i => (s.tab i).state = .FREE with
    | none => (SYSERR, s)
    | some i =>
      let eps := s.setEp i fun e =>
        { e with state := .USED, count := 0, head := 0, tail := 0, pid := none }
      (i.val, { s with toEndpoints := eps, icremip := Function.update s.icremip i remip })

/-- The slot in use with a given number: a slot with a waiting process is not. -/
def usedSlot (slot : Int) (s : Icmp) : Option (Fin ICMP_SLOTS) :=
  (slotOf slot).filter fun i => (s.tab i).state = .USED

/-- `icmp_recv`. -/
def icmp_recv (pid : Pid) (slot len : Int) (timeout : UInt32) (s : Icmp) :
    Icmp × List IcmpEvent :=
  match s.usedSlot slot with
  | none => (s, [.slot (.failed pid SYSERR)])
  | some i => s.after (s.recv icmp pid i ⟨len⟩ (int32 timeout.toNat))

/-- `icmp_release`. -/
def icmp_release (slot : Int) (s : Icmp) : Icmp × List IcmpEvent :=
  match s.usedSlot slot with
  | none => (s, [])
  | some i => s.after (s.release icmp i)

/-- `icmp_out` behind `wait(Icmpout.icosem)`: it takes a packet. -/
def outTake (s : Icmp) : Option (Icmp × List IcmpEvent) :=
  if s.sending.isSome ∨ s.icosem = 0 then none
  else
    let pkt := s.icoutq s.icohead
    some
      ({ s with
          icosem := s.icosem - 1
          icohead := Ring.next ICMP_OQSIZ s.icohead
          sending := some pkt }, [.dequeued pkt (s.packet pkt)])

/-- `icmp_out` to the end of its loop. A packet that is not for all is sent
when ARP resolves its address; the buffer is freed on each path. -/
def outDone (resolved : Bool) (s : Icmp) : Option (Icmp × List IcmpEvent) :=
  match s.sending with
  | none => none
  | some pkt =>
    some ({ s with toBase := s.freebuf pkt, sending := none },
      if (s.packet pkt).net_ipdst = IP_BCAST ∨ resolved then [.sent (s.packet pkt)] else [])

end Icmp

/-! ## Runs -/

inductive IcmpAct where
  /-- `netin` reads a packet and calls `icmp_in`. -/
  | arrive (pkt : Netpacket)
  /-- `netin` goes on after waiting for a buffer. -/
  | netin
  | send (remip : UInt32) (type : UInt8) (ident seq : UInt16) (buf : List UInt8) (len : Int)
  | register (remip : UInt32)
  | recv (pid : Pid) (slot len : Int) (timeout : UInt32)
  /-- A receiver goes on, with a message or after its time. -/
  | woken (pid : Pid)
  | release (slot : Int)
  | outTake
  | outDone (resolved : Bool)
  | tell (pid : Pid) (msg : Int)
  | borrow
  | giveBack (b : Buf)

namespace Icmp

def step (s : Icmp) : IcmpAct → Option (Icmp × List IcmpEvent)
  | .arrive pkt =>
    if s.netin = none then { s with toBase := s.readPacket pkt }.icmp_in else none
  | .netin => s.delivered.map s.after
  | .send remip type ident seq buf len => s.icmp_send remip type ident seq buf len
  | .register remip => some ((s.icmp_register remip).2, [])
  | .recv pid slot len timeout =>
    if (s.waiting pid).isNone then some (s.icmp_recv pid slot len timeout) else none
  | .woken pid => (s.toEndpoints.woken icmp pid).map s.after
  | .release slot => some (s.icmp_release slot)
  | .outTake => s.outTake
  | .outDone resolved => s.outDone resolved
  | .tell pid msg => some (s.after (s.toEndpoints.tell pid msg))
  | .borrow => s.toEndpoints.borrow.map s.after
  | .giveBack b => (s.toEndpoints.giveBack b).map s.after

/-- After `icmp_init`, with the first buffer in `currpkt`. -/
def Started (pool : Multiset Buf) (s : Icmp) : Prop :=
  pool.Nodup ∧ ↑s.netbufpool + {s.currpkt} + ↑s.others = pool ∧ (∀ i, s.tab i = {}) ∧
    s.netin = none ∧ (∀ pid, (s.waiting pid).isNone) ∧ s.icohead = 0 ∧ s.icotail = 0 ∧
      s.icosem = 0 ∧ s.sending = none

def machine (pool : Multiset Buf) : Machine Icmp IcmpAct IcmpEvent := ⟨Started pool, step⟩

/-! ## The queues of a history -/

/-- The queues of the slots, and the output queue. -/
abbrev Flow := Queues ICMP_SLOTS × List (Buf × Netpacket)

/-- **Packets leave each queue in the order in which they came, and each of
them once.** -/
def flow : Monitor IcmpEvent Flow where
  init := (fun _ => [], [])
  next q e :=
    match e with
    | .slot e => ((fifo ICMP_SLOTS).next q.1 e).map (·, q.2)
    | .queued b p => some (q.1, q.2 ++ [(b, p)])
    | .dequeued b p => if q.2.head? = some (b, p) then some (q.1, q.2.tail) else none
    | .sent _ => some q

/-- **The slots are intact, the output queue holds the packets that have not
been sent, at most as many as it has slots, and each buffer is in one place.** -/
structure Whole (pool : Multiset Buf) (q : Flow) (s : Icmp) : Prop where
  out_head : s.icohead < ICMP_OQSIZ
  out_tail : s.icotail = (s.icohead + q.2.length) % ICMP_OQSIZ
  out_sem : s.icosem = q.2.length
  out_length : q.2.length ≤ ICMP_OQSIZ
  out_holds : Ring.Holds ICMP_OQSIZ s.icoutq s.icohead (q.2.map Prod.fst)
  out_packets : ∀ x ∈ q.2, s.packet x.1 = x.2
  slots : ∃ rest, s.toEndpoints.Intact icmp rest q.1 ∧
    rest + (↑(q.2.map Prod.fst) + ↑s.sending.toList) = pool

/-- All packets have been returned or sent in order, each of them once, or are
still queued. -/
def Kept (pool : Multiset Buf) (tr : List IcmpEvent) (s : Icmp) : Prop :=
  ∃ q, flow.run tr = some q ∧ Whole pool q s

/-- A step that stores in no full queue, takes no packet from the slot
`ICMP_SLOTS - 1`, and wakes no receiver with `OK` whose queue is empty. -/
def Sound (s : Icmp) : IcmpAct → Prop
  | .arrive pkt =>
    (pkt.net_ictype = ICMP_ECHOREQST → s.icosem < ICMP_OQSIZ) ∧
      (pkt.net_ictype = ICMP_ECHOREPLY → ∀ i ∈ s.replySlot pkt, (s.tab i).count < ICMP_QSIZ)
  | .send .. => s.icosem < ICMP_OQSIZ
  | .recv _ slot _ _ =>
    ∀ i ∈ s.usedSlot slot, (s.tab i).count ≠ 0 → (s.tab i).head + 1 < ICMP_SLOTS
  | .woken pid =>
    ∀ w ∈ s.waiting pid, s.received pid = OK →
      0 < (s.tab w.slot).count ∧ (s.tab w.slot).head + 1 < ICMP_SLOTS
  | .release slot =>
    ∀ i ∈ s.usedSlot slot, (s.tab i).head + (s.tab i).count.toNat < ICMP_SLOTS
  | _ => True

instance (s : Icmp) : ∀ a : IcmpAct, Decidable (Sound s a)
  | .arrive pkt =>
    inferInstanceAs (Decidable ((pkt.net_ictype = ICMP_ECHOREQST → s.icosem < ICMP_OQSIZ) ∧
      (pkt.net_ictype = ICMP_ECHOREPLY → ∀ i ∈ s.replySlot pkt, (s.tab i).count < ICMP_QSIZ)))
  | .send .. => inferInstanceAs (Decidable (s.icosem < ICMP_OQSIZ))
  | .recv _ slot _ _ => inferInstanceAs (Decidable (∀ i ∈ s.usedSlot slot, _))
  | .woken pid =>
    inferInstanceAs (Decidable (∀ w ∈ s.waiting pid, s.received pid = OK →
      0 < (s.tab w.slot).count ∧ (s.tab w.slot).head + 1 < ICMP_SLOTS))
  | .release slot => inferInstanceAs (Decidable (∀ i ∈ s.usedSlot slot, _))
  | .netin | .register _ | .outTake | .outDone _ | .tell .. | .borrow | .giveBack _ =>
    inferInstanceAs (Decidable True)

variable {pool : Multiset Buf} {q : Flow} {s s' : Icmp} {es : List IcmpEvent}

open Endpoints

theorem started_whole (h : Started pool s) : Whole pool (fun _ => [], []) s := by
  obtain ⟨-, hpool, htab, hnetin, -, hhead, htail, hsem, hsend⟩ := h
  refine ⟨?_, ?_, hsem, Nat.zero_le _, Ring.holds_nil, nofun, pool, ⟨?_, nofun, ?_, fun _ _ => rfl⟩, ?_⟩
  · rw [hhead]
    decide
  · rw [hhead, htail]
    rfl
  · intro i
    rw [htab i]
    exact Endpoint.keeps_nil (by decide)
  · rw [current_of_none hnetin, ← hpool]
    unfold Queues.buffers
    simp
  · rw [hsend]
    simp

/-! ## The slots -/

/-- The monitored step of a run. -/
def Steps (pool : Multiset Buf) (q : Flow) (r : Icmp × List IcmpEvent) : Prop :=
  ∃ q', Machine.feed flow q r.2 = some q' ∧ Whole pool q' r.1

theorem feed_slot (q : Queues ICMP_SLOTS) (o : List (Buf × Netpacket)) :
    ∀ es : List (Event ICMP_SLOTS), Machine.feed flow (q, o) (es.map .slot) =
      (Machine.feed (fifo ICMP_SLOTS) q es).map (·, o)
  | [] => rfl
  | e :: es => by
    rw [List.map_cons, Machine.feed_cons, Machine.feed_cons, feed_slot q o es]
    cases Machine.feed (fifo ICMP_SLOTS) q es with
    | none => rfl
    | some q' => rfl

/-- **A step of the slots** leaves the output queue alone. -/
theorem Whole.slot (h : Whole pool q s)
    {r : Endpoints ICMP_SLOTS IcmpArgs × List (Event ICMP_SLOTS)} (hp : r.1.packet = s.packet)
    (hr : ∀ rest, s.toEndpoints.Intact icmp rest q.1 → Endpoints.Kept icmp rest q.1 r) :
    Steps pool q (s.after r) := by
  obtain ⟨rest, hin, hrest⟩ := h.slots
  obtain ⟨q', hfeed, hin'⟩ := hr rest hin
  refine ⟨(q', q.2), ?_, ?_⟩
  · change Machine.feed flow (q.1, q.2) (r.2.map .slot) = _
    rw [feed_slot, hfeed]
    rfl
  · refine ⟨h.out_head, h.out_tail, h.out_sem, h.out_length, h.out_holds, ?_, rest, hin', hrest⟩
    change ∀ x ∈ q.2, r.1.packet x.1 = x.2
    rw [hp]
    exact h.out_packets

/-- Registering finds the queue of a free slot empty. -/
theorem register_whole (h : Whole pool q s) (remip : UInt32) :
    Whole pool q (s.icmp_register remip).2 := by
  unfold icmp_register
  by_cases hdup : ∃ i, (s.tab i).state ≠ .FREE ∧ s.icremip i = remip
  · rw [if_pos hdup]
    exact h
  · rw [if_neg hdup]
    cases hf : (List.finRange ICMP_SLOTS).find? fun i => (s.tab i).state = .FREE with
    | none => exact h
    | some i =>
      have hfree := List.find?_some hf
      rw [decide_eq_true_eq] at hfree
      obtain ⟨rest, hin, hrest⟩ := h.slots
      have hnil := hin.unused i hfree
      refine ⟨h.out_head, h.out_tail, h.out_sem, h.out_length, h.out_holds, h.out_packets, rest,
        ?_, hrest⟩
      refine hin.setEntry i (fun e =>
        { e with state := .USED, count := 0, head := 0, tail := 0, pid := none }) ?_ fun _ => hnil
      rw [hnil]
      exact ⟨Nat.zero_lt_succ 7, rfl, rfl, Nat.zero_le _, Ring.holds_nil⟩

/-! ## The output queue -/

/-- No queued packet is in the buffer that `netin` reads into. -/
theorem Whole.readPacket (h : Whole pool q s) (hpool : pool.Nodup) (hn : s.netin = none)
    (p : Netpacket) : Whole pool q { s with toBase := s.readPacket p } := by
  obtain ⟨rest, hin, hrest⟩ := h.slots
  rw [← hrest, Multiset.nodup_add] at hpool
  refine ⟨h.out_head, h.out_tail, h.out_sem, h.out_length, h.out_holds, ?_, rest,
    hin.readPacket hpool.1 hn p, hrest⟩
  intro x hx
  have hne : x.1 ≠ s.currpkt := by
    intro hxc
    have hmem : s.currpkt ∈ rest := by
      rw [← hin.buffers, current_of_none hn]
      simp
    have hmem' : x.1 ∈ (↑(q.2.map Prod.fst) + ↑s.sending.toList : Multiset Buf) :=
      Multiset.mem_add.mpr (Or.inl (Multiset.mem_coe.mpr (List.mem_map_of_mem hx)))
    exact Multiset.disjoint_left.mp hpool.2.2 hmem (hxc ▸ hmem')
  change Function.update s.packet s.currpkt p x.1 = x.2
  rw [Function.update_of_ne hne]
  exact h.out_packets x hx

/-- A free buffer holds no queued packet. -/
theorem Whole.free_ne (h : Whole pool q s) (hpool : pool.Nodup) {b : Buf} {free : List Buf}
    (hb : s.netbufpool = b :: free) :
    (∀ i, ∀ x ∈ q.1 i, x.1 ≠ b) ∧ ∀ x ∈ q.2, x.1 ≠ b := by
  obtain ⟨rest, hin, hrest⟩ := h.slots
  rw [← hrest, Multiset.nodup_add] at hpool
  have hmem : b ∈ (↑s.netbufpool + s.current + ↑s.others : Multiset Buf) := by
    rw [hb]
    simp
  constructor
  · intro i x hx hxb
    have hrestnd := hpool.1
    rw [← hin.buffers, Multiset.nodup_add] at hrestnd
    refine Multiset.disjoint_left.mp hrestnd.2.2 hmem ?_
    refine Multiset.mem_sum.mpr ⟨i, Finset.mem_univ i, ?_⟩
    exact Multiset.mem_coe.mpr (hxb ▸ List.mem_map_of_mem hx)
  · intro x hx hxb
    refine Multiset.disjoint_left.mp hpool.2.2 ?_
      (Multiset.mem_add.mpr (Or.inl (Multiset.mem_coe.mpr (List.mem_map_of_mem hx))))
    rw [hxb, ← hin.buffers]
    exact Multiset.mem_add.mpr (Or.inl hmem)

/-- **A packet goes into the output queue**, which has room for it. -/
theorem icmp_send_steps (h : Whole pool q s) (hpool : pool.Nodup) (hfull : s.icosem < ICMP_OQSIZ)
    (remip : UInt32) (type : UInt8) (ident seq : UInt16) (buf : List UInt8) (len : Int)
    (hst : s.icmp_send remip type ident seq buf len = some (s', es)) :
    Steps pool q (s', es) := by
  unfold icmp_send at hst
  cases hb : s.netbufpool with
  | nil =>
    rw [hb] at hst
    cases hst
  | cons b free =>
    rw [hb] at hst
    dsimp only at hst
    generalize hp : ({
      net_iplen := UInt16.ofNat (IP_HDR_LEN + ICMP_HDR_LEN + len).toNat
      net_ipdst := remip
      net_ictype := type
      net_icident := ident
      net_icseq := seq
      net_icdata := buf.take len.toNat } : Netpacket) = p at hst
    obtain ⟨rfl, rfl⟩ := Prod.mk.inj (Option.some.inj hst)
    obtain ⟨hne, hne'⟩ := h.free_ne hpool hb
    obtain ⟨rest, hin, hrest⟩ := h.slots
    have hlen : (q.2.map Prod.fst).length < ICMP_OQSIZ := by
      rw [List.length_map, ← h.out_sem]
      exact hfull
    refine ⟨(q.1, q.2 ++ [(b, p)]), rfl, h.out_head, ?_, ?_, ?_, ?_, ?_, rest - {b}, ⟨hin.ring, ?_,
      ?_, hin.unused⟩, ?_⟩
    · change Ring.next ICMP_OQSIZ s.icotail = _
      rw [h.out_tail, Ring.tail_enqueue (by decide)]
    · change s.icosem + 1 = _
      rw [h.out_sem, List.length_append]
      rfl
    · rw [List.length_append, ← h.out_sem]
      exact hfull
    · change Ring.Holds ICMP_OQSIZ (Function.update s.icoutq s.icotail b) s.icohead _
      rw [h.out_tail, List.map_append]
      have := h.out_holds.enqueue hlen b
      rwa [List.length_map] at this
    · intro x hx
      change Function.update s.packet b p x.1 = x.2
      rcases List.mem_append.mp hx with hx | hx
      · rw [Function.update_of_ne (hne' x hx)]
        exact h.out_packets x hx
      · rw [List.mem_singleton.mp hx, Function.update_self]
    · intro i x hx
      change Function.update s.packet b p x.1 = x.2
      rw [Function.update_of_ne (hne i x hx)]
      exact hin.packets i x hx
    · -- the buffer leaves the free ones ...
      have hbuf := hin.buffers
      rw [hb] at hbuf
      rw [← hbuf, ← Multiset.cons_coe, ← Multiset.singleton_add]
      change ↑free + s.current + ↑s.others + q.1.buffers = _
      rw [show ({b} + ↑free + s.current + ↑s.others + q.1.buffers : Multiset Buf) =
        ↑free + s.current + ↑s.others + q.1.buffers + {b} by abel, add_tsub_cancel_right]
    · -- ... and joins the output queue
      have hmem : b ∈ rest := by
        rw [← hin.buffers, hb]
        simp
      have hsub : rest - {b} + {b} = rest := tsub_add_cancel_of_le (Multiset.singleton_le.mpr hmem)
      rw [List.map_append, ← Multiset.coe_add, ← hrest]
      conv_rhs => rw [← hsub]
      generalize rest - {b} = rest'
      change rest' + (↑(q.2.map Prod.fst) + {b} + ↑s.sending.toList) = _
      abel

/-- **`icmp_out` takes the oldest packet.** -/
theorem outTake_steps (h : Whole pool q s) (hst : s.outTake = some (s', es)) :
    Steps pool q (s', es) := by
  unfold outTake at hst
  by_cases hwait : s.sending.isSome ∨ s.icosem = 0
  · rw [if_pos hwait] at hst
    cases hst
  · rw [if_neg hwait] at hst
    obtain ⟨rfl, rfl⟩ := Prod.mk.inj (Option.some.inj hst)
    rw [not_or, Option.not_isSome_iff_eq_none] at hwait
    obtain ⟨hsend, hsem⟩ := hwait
    obtain ⟨qs, o⟩ := q
    cases o with
    | nil => exact absurd h.out_sem hsem
    | cons x o =>
      obtain ⟨rest, hin, hrest⟩ := h.slots
      have hfront : s.icoutq s.icohead = x.1 := h.out_holds.front h.out_head
      have hpk : s.packet x.1 = x.2 := h.out_packets x List.mem_cons_self
      refine ⟨(qs, o), ?_, Ring.next_lt (by decide), ?_, ?_, ?_, ?_, ?_, rest, hin, ?_⟩
      · change (if (x :: o).head? = some (s.icoutq s.icohead, s.packet (s.icoutq s.icohead)) then
          some (qs, o) else none) = _
        rw [hfront, hpk]
        exact if_pos rfl
      · change s.icotail = (Ring.next ICMP_OQSIZ s.icohead + o.length) % ICMP_OQSIZ
        rw [Ring.tail_dequeue (a := x) h.out_head]
        exact h.out_tail
      · change s.icosem - 1 = _
        rw [h.out_sem]
        rfl
      · exact (Nat.le_succ _).trans h.out_length
      · exact h.out_holds.dequeue h.out_head
      · intro y hy
        exact h.out_packets y (List.mem_cons_of_mem x hy)
      · rw [← hrest, hsend, hfront]
        change rest + (↑(o.map Prod.fst) + ↑[x.1]) =
          rest + (↑(x.1 :: o.map Prod.fst) + (([] : List Buf) : Multiset Buf))
        rw [Multiset.coe_nil, add_zero, Multiset.coe_singleton, ← Multiset.cons_coe,
          ← Multiset.singleton_add, add_comm (↑(o.map Prod.fst) : Multiset Buf)]

/-- The packet that has been sent leaves its buffer. -/
theorem outDone_steps (h : Whole pool q s) (resolved : Bool)
    (hst : s.outDone resolved = some (s', es)) : Steps pool q (s', es) := by
  unfold outDone at hst
  cases hsend : s.sending with
  | none =>
    rw [hsend] at hst
    cases hst
  | some b =>
    rw [hsend] at hst
    obtain ⟨rfl, rfl⟩ := Prod.mk.inj (Option.some.inj hst)
    obtain ⟨rest, hin, hrest⟩ := h.slots
    refine ⟨q, ?_, h.out_head, h.out_tail, h.out_sem, h.out_length, h.out_holds, h.out_packets,
      rest + {b}, ⟨hin.ring, hin.packets, ?_, hin.unused⟩, ?_⟩
    · by_cases hs : (s.packet b).net_ipdst = IP_BCAST ∨ resolved = true
      · rw [if_pos hs]
        rfl
      · rw [if_neg hs]
        rfl
    · rw [← hin.buffers]
      change ↑(b :: s.netbufpool) + s.current + ↑s.others + q.1.buffers = _
      rw [← Multiset.cons_coe, ← Multiset.singleton_add]
      abel
    · rw [← hrest, hsend]
      change rest + {b} + (↑(q.2.map Prod.fst) + (([] : List Buf) : Multiset Buf)) =
        rest + (↑(q.2.map Prod.fst) + ↑[b])
      rw [Multiset.coe_nil, add_zero, Multiset.coe_singleton]
      abel

/-! ## Runs -/

theorem icmp_in_steps (h : Whole pool q s) (hpool : pool.Nodup) (hn : s.netin = none)
    (hreq : (s.packet s.currpkt).net_ictype = ICMP_ECHOREQST → s.icosem < ICMP_OQSIZ)
    (hrep : (s.packet s.currpkt).net_ictype = ICMP_ECHOREPLY →
      ∀ i ∈ s.replySlot (s.packet s.currpkt), (s.tab i).count < ICMP_QSIZ)
    (hst : s.icmp_in = some (s', es)) : Steps pool q (s', es) := by
  unfold icmp_in at hst
  dsimp only at hst
  by_cases hping : (s.packet s.currpkt).net_ictype ≠ ICMP_ECHOREPLY ∧
      (s.packet s.currpkt).net_ictype ≠ ICMP_ECHOREQST
  · rw [if_pos hping] at hst
    obtain ⟨rfl, rfl⟩ := Prod.mk.inj (Option.some.inj hst)
    exact ⟨q, rfl, h⟩
  · rw [if_neg hping] at hst
    by_cases hr : (s.packet s.currpkt).net_ictype = ICMP_ECHOREQST
    · rw [if_pos hr] at hst
      exact icmp_send_steps h hpool (hreq hr) _ _ _ _ _ _ hst
    · rw [if_neg hr] at hst
      have hreply : (s.packet s.currpkt).net_ictype = ICMP_ECHOREPLY := by
        by_contra hne
        exact hping ⟨hne, hr⟩
      cases hf : s.replySlot (s.packet s.currpkt) with
      | none =>
        rw [hf] at hst
        obtain ⟨rfl, rfl⟩ := Prod.mk.inj (Option.some.inj hst)
        exact ⟨q, rfl, h⟩
      | some i =>
        rw [hf] at hst
        have hi := (Option.filter_eq_some_iff.mp hf).2
        rw [decide_eq_true_eq] at hi
        rw [← Option.some.inj hst]
        exact h.slot (deliver_packet ..) fun rest hin =>
          hin.deliver hn (hrep hreply i hf) hi.1

/-- **One step keeps both kinds of queues.** -/
theorem step_steps (hpool : pool.Nodup) (h : Whole pool q s) {a : IcmpAct} (hok : Sound s a)
    (hst : s.step a = some (s', es)) : Steps pool q (s', es) := by
  have hle : icmp.slots ≤ icmp.qsiz := by decide
  -- a step of the slots, possible or not
  have hmap {r : Option (Endpoints ICMP_SLOTS IcmpArgs × List (Event ICMP_SLOTS))}
      (hp : ∀ t es, r = some (t, es) → t.packet = s.packet)
      (hr : ∀ t es, r = some (t, es) → ∀ rest, s.toEndpoints.Intact icmp rest q.1 →
        Endpoints.Kept icmp rest q.1 (t, es))
      (hm : r.map s.after = some (s', es)) : Steps pool q (s', es) := by
    obtain ⟨⟨t, es'⟩, ht, hs'⟩ := Option.map_eq_some_iff.mp hm
    rw [← hs']
    exact h.slot (hp t es' ht) (hr t es' ht)
  cases a with
  | arrive pkt =>
    change (if s.netin = none then _ else _) = _ at hst
    by_cases hn : s.netin = none
    · rw [if_pos hn] at hst
      have hcur : Function.update s.packet s.currpkt pkt s.currpkt = pkt := Function.update_self ..
      refine icmp_in_steps (h.readPacket hpool hn pkt) hpool hn ?_ ?_ hst
      · intro hr
        exact hok.1 (hcur ▸ hr)
      · intro hr i hi
        refine hok.2 (hcur ▸ hr) i ?_
        rw [← hcur]
        exact hi
    · rw [if_neg hn] at hst
      cases hst
  | netin =>
    exact hmap (fun t es ht => delivered_packet ht) (fun t es ht rest hin => hin.delivered ht) hst
  | send remip type ident seq buf len => exact icmp_send_steps h hpool hok _ _ _ _ _ _ hst
  | register remip =>
    obtain ⟨rfl, rfl⟩ := Prod.mk.inj (Option.some.inj hst)
    exact ⟨q, rfl, register_whole h remip⟩
  | recv pid slot len timeout =>
    change (if (s.waiting pid).isNone then _ else _) = _ at hst
    by_cases hw : (s.waiting pid).isNone
    · rw [if_pos hw] at hst
      rw [← Option.some.inj hst]
      unfold icmp_recv
      cases hf : s.usedSlot slot with
      | none => exact ⟨q, rfl, h⟩
      | some i =>
        exact h.slot (recv_packet ..) fun rest hin => hin.recv hle pid _ _ (hok i hf)
    · rw [if_neg hw] at hst
      cases hst
  | woken pid =>
    refine hmap (fun t es ht => woken_packet ht) (fun t es ht rest hin => hin.woken hle ?_ ht) hst
    intro w hw hmsg
    obtain ⟨hcount, hhead⟩ := hok w hw hmsg
    exact ⟨hcount, hhead⟩
  | release slot =>
    rw [← Option.some.inj hst]
    unfold icmp_release
    cases hf : s.usedSlot slot with
    | none => exact ⟨q, rfl, h⟩
    | some i => exact h.slot (release_packet ..) fun rest hin => hin.release hle (hok i hf)
  | outTake => exact outTake_steps h hst
  | outDone resolved => exact outDone_steps h resolved hst
  | tell pid msg =>
    rw [← Option.some.inj hst]
    exact h.slot (Base.send_packet ..) fun rest hin => (hin.send (some pid) msg).kept
  | borrow =>
    exact hmap (fun t es ht => borrow_packet ht) (fun t es ht rest hin => hin.borrow ht) hst
  | giveBack b =>
    exact hmap (fun t es ht => giveBack_packet ht) (fun t es ht rest hin => hin.giveBack ht) hst

/-- **Replies are returned and answers are sent in order, each of them once, and
every buffer keeps its place**, in every run in which no packet is stored in a
full queue, none is taken from the slot `ICMP_SLOTS - 1`, and every receiver that
is told of a packet finds one. -/
theorem icmp_fifo_without_slip {tr : List IcmpEvent} (r : (machine pool).Run Sound tr s) :
    Kept pool tr s := by
  have hnodup : pool.Nodup := by
    induction r with
    | start h => exact h.1
    | step _ _ _ ih => exact ih
  refine r.accepted (R := Whole pool) ?_ ?_
  · intro s h
    exact started_whole h
  · intro q s s' a es h hok hst
    exact step_steps hnodup h hok hst

/-! ## Nine replies -/

/-- After `icmp_init`, with a small pool. -/
def boot : Icmp where
  netbufpool := [1, 2, 3, 4, 5, 6, 7, 8, 9, 10]
  packet := fun _ => {}
  currpkt := 0
  prmsg := fun _ => none
  tab := fun _ => {}
  netin := none
  waiting := fun _ => none
  others := []
  icremip := fun _ => 0
  icohead := 0
  icotail := 0
  icosem := 0
  icoutq := fun _ => 0
  sending := none

theorem boot_started : Started (Multiset.range 11) boot := by
  refine ⟨Multiset.nodup_range 11, by decide, fun _ => rfl, rfl, fun _ => rfl, rfl, rfl, rfl, rfl⟩

/-- `n` replies from the address 5 for the slot 0, whose sequence numbers count
from 0. -/
def replies (n : Nat) : List IcmpAct :=
  (List.range n).map fun k =>
    .arrive { net_ipsrc := 5, net_iplen := 29, net_icseq := k.toUInt16, net_icdata := [k.toUInt8] }

/-- Five replies that process 7 receives, and an echo request that is answered. -/
def pings : List IcmpAct :=
  .register 5 :: (replies 5 ++ List.replicate 5 (.recv 7 0 56 3000) ++
    [.arrive { net_ipsrc := 9, net_ictype := 8, net_iplen := 28 }, .outTake, .outDone true])

theorem icmp_fifo_without_slip_five :
    ∃ tr s, (machine (Multiset.range 11)).exec Sound boot [] pings = some (s, tr) ∧
      tr.length = 13 ∧ Kept (Multiset.range 11) tr s := by
  have hrun : ((machine (Multiset.range 11)).exec Sound boot [] pings).any
      (fun r => r.2.length == 13) := by
    decide +kernel
  obtain ⟨⟨s, tr⟩, hst, hlen⟩ := (Option.any_eq_true _ _).mp hrun
  exact ⟨tr, s, hst, of_decide_eq_true hlen,
    icmp_fifo_without_slip (Machine.exec_run (.start boot_started) hst)⟩

/-- **The ninth reply takes the place of the first**, which the next receiver
does not get. -/
theorem icmp_not_fifo :
    ¬ ∀ pool tr s, (machine pool).Run (fun _ _ => True) tr s → Kept pool tr s := by
  intro hall
  have hrun : ((machine (Multiset.range 11)).exec (fun _ _ => True) boot []
      (.register 5 :: (replies 9 ++ [.recv 7 0 56 3000]))).any
        (fun r => (flow.run r.2).isNone) := by
    decide +kernel
  obtain ⟨⟨s, tr⟩, hst, hrej⟩ := (Option.any_eq_true _ _).mp hrun
  obtain ⟨q, hq, -⟩ := hall _ tr s (Machine.exec_run (.start boot_started) hst)
  rw [hq] at hrej
  cases hrej

end Icmp

end Xinu.Net
