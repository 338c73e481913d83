import XinuCMips.Net.Icmp
import XinuCMips.Net.Udp

/-!
# The lengths of received packets

A receiver copies as many bytes as the length field of the packet says, and at most as
many as its caller has room for. No function compares the length field with the number
of bytes that have been received.

* `inside_iff`         — when a copy stays inside the packet;
* `Endpoints.recv_copied`, `Endpoints.woken_copied` — what a call returns;
* `received_inside_iff` — for every packet and both protocols.
-/

namespace Xinu.Net

/-- A reply made of bytes of the packet, at most `len` of them, and their number. -/
structure Inside (data : List UInt8) (len : Int) (r : Reply) : Prop where
  received : ∀ i < r.data.length, ∃ b, data[i]? = some b ∧ r.data[i]? = some (some b)
  atMost : (r.data.length : Int) ≤ max len 0
  value : r.value = r.data.length

/-- The packet has as many bytes as it says, or as the caller wants. -/
def Enough (claimed len : Int) (data : List UInt8) : Prop :=
  claimed ≤ data.length ∨ len ≤ data.length

instance (claimed len : Int) (data : List UInt8) : Decidable (Enough claimed len data) :=
  inferInstanceAs (Decidable (_ ∨ _))

theorem copied_length (data : List UInt8) (n : Nat) : (copied data n).length = n := by
  rw [copied, List.length_map, List.length_range]

theorem copied_getElem? (data : List UInt8) {n i : Nat} (h : i < n) :
    (copied data n)[i]? = some data[i]? := by
  rw [copied, List.getElem?_map, List.getElem?_range h]
  rfl

/-- **A copy stays inside the packet** exactly when the packet has enough bytes. -/
theorem inside_iff (data : List UInt8) (claimed len : Int) (sender : Option (UInt32 × UInt16)) :
    Inside data len
      { value := (min claimed len).toNat
        data := copied data (min claimed len).toNat
        sender := sender } ↔ Enough claimed len data := by
  have hlen := copied_length data (min claimed len).toNat
  unfold Enough
  constructor
  · intro h
    by_contra hshort
    -- the byte behind the end of the packet is copied
    obtain ⟨b, hb, -⟩ := h.received data.length (by rw [hlen]; omega)
    rw [List.getElem?_eq_none le_rfl] at hb
    cases hb
  · intro h
    refine ⟨fun i hi => ?_, ?_, ?_⟩
    · rw [hlen] at hi
      have hlt : i < data.length := by omega
      refine ⟨data[i], List.getElem?_eq_getElem hlt, ?_⟩
      rw [copied_getElem? data hi, List.getElem?_eq_getElem hlt]
    · dsimp only
      rw [hlen]
      omega
    · dsimp only
      rw [hlen]

-- ---------------------------------------------------------------------------
-- The packets that a step returns
-- ---------------------------------------------------------------------------

variable {n : Nat} {κ : Type} {P : Proto κ} {i : Fin n} {pid : Pid} {args : κ}

/-- The packets that these events return are copied for a call with these arguments. -/
def Copied (P : Proto κ) (packet : Buf → Netpacket) (args : κ) (es : List (Event n)) : Prop :=
  ∀ pid i b p r, Event.returned pid i b p r ∈ es → p = packet b ∧ r = P.reply args p

/-- No packet is returned. -/
def Quiet (es : List (Event n)) : Prop := ∀ pid i b p r, Event.returned pid i b p r ∉ es

theorem Quiet.copied {packet : Buf → Netpacket} {es : List (Event n)} (h : Quiet es) :
    Copied P packet args es := fun pid i b p r hr => absurd hr (h pid i b p r)

theorem quiet_nil : Quiet (n := n) [] := fun _ _ _ _ _ => List.not_mem_nil

theorem quiet_failed (pid : Pid) (value : Int) : Quiet (n := n) [.failed pid value] := by
  intro _ _ _ _ _ h
  cases List.mem_singleton.mp h

namespace Endpoints

variable {s s' : Endpoints n κ} {es : List (Event n)}

theorem take_copied : Copied P s.packet args (s.take P pid i args).2 := by
  intro _ _ b p r h
  obtain ⟨-, -, rfl, rfl, rfl⟩ := Event.returned.inj (List.mem_singleton.mp h)
  exact ⟨rfl, rfl⟩

theorem recvRest_copied (msg : Int) : Copied P s.packet args (s.recvRest P pid i args msg).2 := by
  unfold recvRest
  dsimp only
  by_cases htime : msg = TIMEOUT
  · rw [if_pos htime]
    exact (quiet_failed pid TIMEOUT).copied
  · rw [if_neg htime]
    by_cases hok : msg = OK
    · rw [if_neg (not_not_intro hok)]
      exact take_copied (s := s.setEp i fun e => { e with state := .USED })
    · rw [if_pos hok]
      exact (quiet_failed pid SYSERR).copied

/-- **A call copies for itself.** -/
theorem recv_copied (timeout : Int) : Copied P s.packet args (s.recv P pid i args timeout).2 := by
  unfold recv
  by_cases hc : (s.tab i).count = 0
  · rw [if_pos hc]
    dsimp only
    by_cases htime : timeout < 0
    · rw [if_pos htime]
      exact recvRest_copied (s := { s.setEp i fun e => { e with state := .RECV, pid := some pid } with
        toBase := (s.setEp i fun e => { e with state := .RECV, pid := some pid }).recvclr pid }) SYSERR
    · rw [if_neg htime]
      exact quiet_nil.copied
  · rw [if_neg hc]
    exact take_copied

/-- **A call that has waited copies for itself.** -/
theorem woken_copied (h : s.woken P pid = some (s', es)) :
    ∃ w, s.waiting pid = some w ∧ Copied P s.packet w.args es := by
  unfold woken at h
  cases hwait : s.waiting pid with
  | none =>
    rw [hwait] at h
    cases h
  | some w =>
    rw [hwait] at h
    have hrest : Copied P s.packet w.args
        (({ s with toBase := s.recvclr pid, waiting := Function.update s.waiting pid none } :
          Endpoints n κ).recvRest P pid w.slot w.args (s.received pid)).2 :=
      recvRest_copied (s.received pid)
    rw [Option.some.inj h] at hrest
    exact ⟨w, rfl, hrest⟩

theorem deliver_quiet : Quiet (s.deliver P i).2 := by
  have hev : (s.deliver P i).2 = [.accepted i s.currpkt (s.packet s.currpkt)] := by
    unfold deliver
    dsimp only
    cases (s.setEp i (Endpoint.enqueue P.qsiz s.currpkt)).getbuf with
    | none => rfl
    | some base => rfl
  rw [hev]
  intro _ _ _ _ _ h
  cases List.mem_singleton.mp h

theorem delivered_quiet (h : s.delivered = some (s', es)) : Quiet es := by
  unfold delivered at h
  split at h
  · obtain ⟨-, rfl⟩ := Prod.mk.inj (Option.some.inj h)
    exact quiet_nil
  · cases h

theorem drain_quiet (slots : Nat) (i : Fin n) : ∀ (k : Nat) (s : Endpoints n κ),
    Quiet (s.drain slots i k).2
  | 0, _ => quiet_nil
  | k + 1, s => by
    unfold drain
    intro pid j b p r h
    rcases List.mem_append.mp h with h | h
    · exact drain_quiet slots i k _ pid j b p r h
    · cases List.mem_singleton.mp h

theorem borrow_quiet (h : s.borrow = some (s', es)) : Quiet es := by
  unfold borrow at h
  split at h
  · cases h
  · obtain ⟨-, rfl⟩ := Prod.mk.inj (Option.some.inj h)
    exact quiet_nil

theorem giveBack_quiet {b : Buf} (h : s.giveBack b = some (s', es)) : Quiet es := by
  unfold giveBack at h
  split at h
  · obtain ⟨-, rfl⟩ := Prod.mk.inj (Option.some.inj h)
    exact quiet_nil
  · cases h

end Endpoints

-- ---------------------------------------------------------------------------
-- UDP
-- ---------------------------------------------------------------------------

namespace Udp

/-- What the call that goes on in this step needs to copy a packet. -/
def calls (s : Udp) : UdpAct → Option UdpArgs
  | .recv _ _ _ _ len _ => some ⟨len, false⟩
  | .recvaddr _ _ len _ => some ⟨len, true⟩
  | .woken pid => (s.waiting pid).map Wait.args
  | _ => none

variable {s s' : Udp} {es : List (Event UDP_SLOTS)} {a : UdpAct}

/-- A packet is returned for the call of the step, out of its buffer. -/
def Returns (s : Udp) (a : UdpAct) (es : List (Event UDP_SLOTS)) : Prop :=
  Quiet es ∨ ∃ c ∈ s.calls a, Copied udp s.packet c es

theorem udp_in_quiet (s : Udp) : Quiet s.udp_in.2 := by
  unfold udp_in
  dsimp only
  split
  · exact quiet_nil
  · exact Endpoints.deliver_quiet

theorem udp_recv_returns (pid : Pid) (remip : UInt32) (remport locport : UInt16) (len : Int)
    (timeout : UInt32) : Returns s (.recv pid remip remport locport len timeout)
      (s.udp_recv pid remip remport locport len timeout).2 := by
  unfold udp_recv
  split
  · exact .inl (quiet_failed pid SYSERR)
  · exact .inr ⟨_, rfl, Endpoints.recv_copied _⟩

theorem udp_recvaddr_returns (pid : Pid) (locport : UInt16) (len : Int) (timeout : UInt32) :
    Returns s (.recvaddr pid locport len timeout) (s.udp_recvaddr pid locport len timeout).2 := by
  unfold udp_recvaddr
  split
  · exact .inl (quiet_failed pid SYSERR)
  · exact .inr ⟨_, rfl, Endpoints.recv_copied _⟩

theorem udp_release_quiet (s : Udp) (remip : UInt32) (remport locport : UInt16) :
    Quiet (s.udp_release remip remport locport).2 := by
  unfold udp_release
  split
  · exact quiet_nil
  · exact Endpoints.drain_quiet UDP_SLOTS _ _ _

/-- **Only the receiving calls return packets.** -/
theorem step_returns (hst : s.step a = some (s', es)) : Returns s a es := by
  cases a with
  | arrive pkt =>
    change (if s.netin = none then _ else _) = _ at hst
    split at hst
    · have hq := udp_in_quiet { s with toBase := s.readPacket pkt }
      rw [Option.some.inj hst] at hq
      exact .inl hq
    · cases hst
  | netin =>
    obtain ⟨⟨t, es'⟩, ht, hs'⟩ := Option.map_eq_some_iff.mp hst
    obtain ⟨-, rfl⟩ := Prod.mk.inj hs'
    exact .inl (Endpoints.delivered_quiet ht)
  | register remip remport locport =>
    obtain ⟨-, rfl⟩ := Prod.mk.inj (Option.some.inj hst)
    exact .inl quiet_nil
  | recv pid remip remport locport len timeout =>
    change (if (s.waiting pid).isNone then _ else _) = _ at hst
    split at hst
    · have hr := udp_recv_returns (s := s) pid remip remport locport len timeout
      rw [Option.some.inj hst] at hr
      exact hr
    · cases hst
  | recvaddr pid locport len timeout =>
    change (if (s.waiting pid).isNone then _ else _) = _ at hst
    split at hst
    · have hr := udp_recvaddr_returns (s := s) pid locport len timeout
      rw [Option.some.inj hst] at hr
      exact hr
    · cases hst
  | woken pid =>
    obtain ⟨⟨t, es'⟩, ht, hs'⟩ := Option.map_eq_some_iff.mp hst
    obtain ⟨-, rfl⟩ := Prod.mk.inj hs'
    obtain ⟨w, hw, hc⟩ := Endpoints.woken_copied ht
    refine .inr ⟨w.args, ?_, hc⟩
    change (s.waiting pid).map Wait.args = some w.args
    rw [hw]
    rfl
  | release remip remport locport =>
    have hq := udp_release_quiet s remip remport locport
    rw [Option.some.inj hst] at hq
    exact .inl hq
  | tell pid msg =>
    obtain ⟨-, rfl⟩ := Prod.mk.inj (Option.some.inj hst)
    exact .inl quiet_nil
  | borrow =>
    obtain ⟨⟨t, es'⟩, ht, hs'⟩ := Option.map_eq_some_iff.mp hst
    obtain ⟨-, rfl⟩ := Prod.mk.inj hs'
    exact .inl (Endpoints.borrow_quiet ht)
  | giveBack b =>
    obtain ⟨⟨t, es'⟩, ht, hs'⟩ := Option.map_eq_some_iff.mp hst
    obtain ⟨-, rfl⟩ := Prod.mk.inj hs'
    exact .inl (Endpoints.giveBack_quiet ht)

end Udp

-- ---------------------------------------------------------------------------
-- ICMP
-- ---------------------------------------------------------------------------

namespace Icmp

/-- What the call that goes on in this step needs to copy a packet. -/
def calls (s : Icmp) : IcmpAct → Option IcmpArgs
  | .recv _ _ len _ => some ⟨len⟩
  | .woken pid => (s.waiting pid).map Wait.args
  | _ => none

variable {s s' : Icmp} {es : List IcmpEvent} {a : IcmpAct}

/-- The events of the slots. -/
def slotEvents (es : List IcmpEvent) : List (Event ICMP_SLOTS) :=
  es.filterMap fun
    | .slot e => some e
    | _ => none

/-- A packet is returned for the call of the step, out of its buffer. -/
def Returns (s : Icmp) (a : IcmpAct) (es : List IcmpEvent) : Prop :=
  Quiet (slotEvents es) ∨ ∃ c ∈ s.calls a, Copied icmp s.packet c (slotEvents es)

theorem slotEvents_slot (es : List (Event ICMP_SLOTS)) : slotEvents (es.map .slot) = es := by
  unfold slotEvents
  rw [List.filterMap_map]
  exact List.filterMap_some

theorem icmp_send_quiet {remip : UInt32} {type : UInt8} {ident seq : UInt16} {buf : List UInt8}
    {len : Int} (h : s.icmp_send remip type ident seq buf len = some (s', es)) :
    Quiet (slotEvents es) := by
  unfold icmp_send at h
  split at h
  · cases h
  · obtain ⟨-, rfl⟩ := Prod.mk.inj (Option.some.inj h)
    exact quiet_nil

theorem icmp_in_quiet (h : s.icmp_in = some (s', es)) : Quiet (slotEvents es) := by
  unfold icmp_in at h
  dsimp only at h
  split at h
  · obtain ⟨-, rfl⟩ := Prod.mk.inj (Option.some.inj h)
    exact quiet_nil
  · split at h
    · exact icmp_send_quiet h
    · split at h
      · obtain ⟨-, rfl⟩ := Prod.mk.inj (Option.some.inj h)
        exact quiet_nil
      · obtain ⟨-, rfl⟩ := Prod.mk.inj (Option.some.inj h)
        rw [slotEvents_slot]
        exact Endpoints.deliver_quiet

theorem icmp_recv_returns (pid : Pid) (slot len : Int) (timeout : UInt32) :
    Returns s (.recv pid slot len timeout) (s.icmp_recv pid slot len timeout).2 := by
  unfold icmp_recv
  split
  · exact .inl (quiet_failed pid SYSERR)
  · refine .inr ⟨_, rfl, ?_⟩
    unfold after
    dsimp only
    rw [slotEvents_slot]
    exact Endpoints.recv_copied _

theorem icmp_release_quiet (s : Icmp) (slot : Int) : Quiet (slotEvents (s.icmp_release slot).2) := by
  unfold icmp_release
  split
  · exact quiet_nil
  · unfold after
    dsimp only
    rw [slotEvents_slot]
    exact Endpoints.drain_quiet ICMP_SLOTS _ _ _

theorem outTake_quiet (h : s.outTake = some (s', es)) : Quiet (slotEvents es) := by
  unfold outTake at h
  split at h
  · cases h
  · obtain ⟨-, rfl⟩ := Prod.mk.inj (Option.some.inj h)
    exact quiet_nil

theorem outDone_quiet {resolved : Bool} (h : s.outDone resolved = some (s', es)) :
    Quiet (slotEvents es) := by
  unfold outDone at h
  split at h
  · cases h
  · obtain ⟨-, rfl⟩ := Prod.mk.inj (Option.some.inj h)
    split
    · exact quiet_nil
    · exact quiet_nil

/-- **Only `icmp_recv` returns packets.** -/
theorem step_returns (hst : s.step a = some (s', es)) : Returns s a es := by
  -- a step of the slots, possible or not
  have hmap {r : Option (Endpoints ICMP_SLOTS IcmpArgs × List (Event ICMP_SLOTS))}
      (hr : ∀ t es, r = some (t, es) → Quiet es ∨ ∃ c ∈ s.calls a, Copied icmp s.packet c es)
      (hm : r.map s.after = some (s', es)) : Returns s a es := by
    obtain ⟨⟨t, es'⟩, ht, hs'⟩ := Option.map_eq_some_iff.mp hm
    obtain ⟨-, rfl⟩ := Prod.mk.inj hs'
    unfold Returns
    rw [slotEvents_slot]
    exact hr t es' ht
  cases a with
  | arrive pkt =>
    change (if s.netin = none then _ else _) = _ at hst
    split at hst
    · exact .inl (icmp_in_quiet hst)
    · cases hst
  | netin => exact hmap (fun t es ht => .inl (Endpoints.delivered_quiet ht)) hst
  | send remip type ident seq buf len => exact .inl (icmp_send_quiet hst)
  | register remip =>
    obtain ⟨-, rfl⟩ := Prod.mk.inj (Option.some.inj hst)
    exact .inl quiet_nil
  | recv pid slot len timeout =>
    change (if (s.waiting pid).isNone then _ else _) = _ at hst
    split at hst
    · have hr := icmp_recv_returns (s := s) pid slot len timeout
      rw [Option.some.inj hst] at hr
      exact hr
    · cases hst
  | woken pid =>
    refine hmap (fun t es ht => ?_) hst
    obtain ⟨w, hw, hc⟩ := Endpoints.woken_copied ht
    refine .inr ⟨w.args, ?_, hc⟩
    change (s.waiting pid).map Wait.args = some w.args
    rw [hw]
    rfl
  | release slot =>
    have hq := icmp_release_quiet s slot
    rw [Option.some.inj hst] at hq
    exact .inl hq
  | outTake => exact .inl (outTake_quiet hst)
  | outDone resolved => exact .inl (outDone_quiet hst)
  | tell pid msg =>
    obtain ⟨-, rfl⟩ := Prod.mk.inj (Option.some.inj hst)
    exact .inl quiet_nil
  | borrow => exact hmap (fun t es ht => .inl (Endpoints.borrow_quiet ht)) hst
  | giveBack b => exact hmap (fun t es ht => .inl (Endpoints.giveBack_quiet ht)) hst

end Icmp

-- ---------------------------------------------------------------------------
-- Every received packet
-- ---------------------------------------------------------------------------

/-- The bytes of a UDP packet and of an ICMP packet, by their length fields. -/
def udpClaims (p : Netpacket) : Int := (p.net_udplen.toNat : Int) - UDP_HDR_LEN

/-- **For every packet, whatever its length fields contain**, `udp_recv`, `udp_recvaddr` and
`icmp_recv` copy bytes of the packet only exactly when the packet has as many bytes as it
says, or as the caller wants. -/
theorem received_inside_iff (u u' : Udp) (a : UdpAct) (es : List (Event UDP_SLOTS))
    (s s' : Icmp) (c : IcmpAct) (fs : List IcmpEvent) :
    (u.step a = some (u', es) → ∀ pid i b p r, Event.returned pid i b p r ∈ es →
      ∃ args ∈ u.calls a, p = u.packet b ∧
        (Inside p.net_udpdata args.len r ↔ Enough (udpClaims p) args.len p.net_udpdata)) ∧
    (s.step c = some (s', fs) → ∀ pid i b p r, IcmpEvent.slot (.returned pid i b p r) ∈ fs →
      ∃ args ∈ s.calls c, p = s.packet b ∧
        (Inside p.net_icdata args.len r ↔ Enough (datalen p) args.len p.net_icdata)) := by
  constructor
  · intro hst pid i b p r hr
    rcases Udp.step_returns hst with hq | ⟨c, hc, hcopied⟩
    · exact absurd hr (hq pid i b p r)
    · obtain ⟨hp, rfl⟩ := hcopied pid i b p r hr
      exact ⟨c, hc, hp, inside_iff p.net_udpdata (udpClaims p) c.len _⟩
  · intro hst pid i b p r hr
    have hr' : Event.returned pid i b p r ∈ Icmp.slotEvents fs :=
      List.mem_filterMap.mpr ⟨_, hr, rfl⟩
    rcases Icmp.step_returns hst with hq | ⟨c, hc, hcopied⟩
    · exact absurd hr' (hq pid i b p r)
    · obtain ⟨hp, rfl⟩ := hcopied pid i b p r hr'
      exact ⟨c, hc, hp, inside_iff p.net_icdata (datalen p) c.len none⟩

/-- A packet for port 7 has arrived. -/
def arrived (pkt : Netpacket) : Udp :=
  let s := (Udp.boot.udp_register 0 0 7).2
  { s with toBase := s.readPacket pkt }.udp_in.1

/-- A packet with one byte of data, whatever its length field says. -/
def oneByte (udplen : UInt16) : Netpacket :=
  { net_udpdport := 7, net_udplen := udplen, net_udpdata := [1] }

/-- An echo reply from the address 5. -/
def oneByteReply (iplen : UInt16) : Netpacket :=
  { net_ipsrc := 5, net_iplen := iplen, net_icdata := [1] }

/-- An echo reply has arrived. -/
def answered (pkt : Netpacket) : Icmp :=
  let s := (Icmp.boot.icmp_register 5).2
  ({ s with toBase := s.readPacket pkt }.icmp_in.map Prod.fst).getD s

theorem received_inside_iff_oneByte :
    (∃ c ∈ (arrived (oneByte 9)).calls (.recv 5 0 0 7 100 0),
      oneByte 9 = (arrived (oneByte 9)).packet 0 ∧
        (Inside [1] c.len (udpReply ⟨100, false⟩ (oneByte 9)) ↔ Enough 1 c.len [1])) ∧
    ∃ c ∈ (answered (oneByteReply 29)).calls (.recv 5 0 56 0),
      oneByteReply 29 = (answered (oneByteReply 29)).packet 0 ∧
        (Inside [1] c.len (icmpReply ⟨56⟩ (oneByteReply 29)) ↔ Enough 1 c.len [1]) :=
  have h := received_inside_iff (arrived (oneByte 9)) _ (.recv 5 0 0 7 100 0) _
    (answered (oneByteReply 29)) _ (.recv 5 0 56 0) _
  ⟨h.1 rfl 5 ⟨0, by decide⟩ 0 (oneByte 9) (udpReply ⟨100, false⟩ (oneByte 9)) (by decide +kernel),
    h.2 rfl 5 ⟨0, by decide⟩ 0 (oneByteReply 29) (icmpReply ⟨56⟩ (oneByteReply 29))
      (by decide +kernel)⟩

/-- A packet of one byte claims to have a hundred. -/
theorem received_not_inside : ¬(
    (∀ (s s' : Udp) (a : UdpAct) (es : List (Event UDP_SLOTS)), s.step a = some (s', es) →
      ∀ pid i b p r, Event.returned pid i b p r ∈ es →
        ∃ c ∈ s.calls a, Inside p.net_udpdata c.len r) ∧
    (∀ (s s' : Icmp) (a : IcmpAct) (es : List IcmpEvent), s.step a = some (s', es) →
      ∀ pid i b p r, IcmpEvent.slot (.returned pid i b p r) ∈ es →
        ∃ c ∈ s.calls a, Inside p.net_icdata c.len r)) := by
  rintro ⟨hudp, -⟩
  obtain ⟨c, -, hin⟩ := hudp (arrived (oneByte 108)) _ (.recv 5 0 0 7 100 0) _ rfl 5 ⟨0, by decide⟩ 0
    (oneByte 108) (udpReply ⟨100, false⟩ (oneByte 108)) (by decide +kernel)
  -- the second byte is not one of the packet
  obtain ⟨b, hb, -⟩ := hin.received 1 (by decide +kernel)
  cases hb

end Xinu.Net
