import Mathlib.Data.List.FinRange
import XinuCMips.Lib.Histories
import XinuCMips.Lib.Ring
import XinuCMips.Net.Packet

/-!
# ARP

`arp.c`: the cache, `arp_in`, which `netin` calls for each ARP packet, and
`arp_resolve`, which any process may call. `arp_resolve` reserves an entry,
sends requests, and waits for a message from `arp_in`; a step of its own is
what it does between two points at which other processes may run. It takes
every message for the one from `arp_in`, and reads the entry without looking at
its state.

* `arp_sound_without_slip` — as long as a call that goes on with a message finds
  its entry resolved, each address returned is from a packet of its sender, and
  every pending entry has a call that will settle it;
* `arp_not_sound`          — a message from another process.
-/

namespace Xinu.Net

def ARP_HTYPE : UInt16 := 1
def ARP_PTYPE : UInt16 := 0x0800
def ARP_OP_REQ : UInt16 := 1
def ARP_OP_RPLY : UInt16 := 2
def ARP_SIZ : Nat := 16
def ARP_RETRY : Nat := 3

/-- A hardware address, `ARP_HALEN` bytes. -/
abbrev Mac := BitVec 48

/-- `ethbcast`. -/
def ethbcast : Mac := BitVec.allOnes 48

/-- `struct arppacket`. The lengths `arp_hlen` and `arp_plen` and the Ethernet
header are never read. -/
structure Arppacket where
  arp_htype : UInt16 := ARP_HTYPE
  arp_ptype : UInt16 := ARP_PTYPE
  arp_op : UInt16
  arp_sndha : Mac
  arp_sndpa : UInt32
  arp_tarha : Mac
  arp_tarpa : UInt32
  deriving DecidableEq, Repr

inductive Arstate where
  | FREE | PENDING | RESOLVED
  deriving DecidableEq, Repr

/-- `struct arpentry`. -/
structure Arpentry where
  arstate : Arstate := .FREE
  arpaddr : UInt32 := 0
  arpid : Pid := 0
  arhaddr : Mac := 0
  deriving DecidableEq, Repr

/-- The fields of `NetData` that `arp.c` reads. -/
structure NetData where
  ipvalid : Bool
  ipaddr : UInt32
  ethaddr : Mac

/-- Where a call of `arp_resolve` stands that has reserved an entry. -/
inductive Phase where
  /-- Before `recvclr`. -/
  | asked
  /-- In the round `i` of the loop, in `recvtime`. -/
  | waiting (i : Nat)
  /-- Behind the loop, left in the round `i`. -/
  | left (i : Nat)
  deriving DecidableEq, Repr

/-- A call of `arp_resolve` that has reserved an entry. -/
structure Call where
  ipaddr : UInt32
  slot : Fin ARP_SIZ
  phase : Phase

structure Arp where
  arpcache : Fin ARP_SIZ → Arpentry
  /-- The static variable of `arp_alloc`. -/
  nextslot : Fin ARP_SIZ
  netData : NetData
  prmsg : Mail
  calls : Pid → Option Call

inductive ArpEvent where
  /-- An ARP packet for IPv4 over Ethernet has arrived. -/
  | arrived (p : Arppacket)
  | wrote (p : Arppacket)
  /-- A call returns, with an address or with a status. -/
  | resolved (pid : Pid) (ipaddr : UInt32) (mac : Mac)
  | failed (pid : Pid) (ipaddr : UInt32) (status : Int)
  deriving DecidableEq, Repr

namespace Arp

def setEntry (i : Fin ARP_SIZ) (e : Arpentry) (s : Arp) : Arp :=
  { s with arpcache := Function.update s.arpcache i e }

def setCall (pid : Pid) (c : Option Call) (s : Arp) : Arp :=
  { s with calls := Function.update s.calls pid c }

/-! ## `arp.c` -/

/-- `nextslot++`, back to the start behind the last entry. -/
def nextSlot (slot : Fin ARP_SIZ) : Fin ARP_SIZ :=
  ⟨Ring.next ARP_SIZ slot, Ring.next_lt (by decide)⟩

/-- A loop of `arp_alloc`: the first of `k` entries from `slot` on that is in
state `st`, and the next slot to try. -/
def search (s : Arp) (st : Arstate) : Nat → Fin ARP_SIZ → Option (Fin ARP_SIZ) × Fin ARP_SIZ
  | 0, slot => (none, slot)
  | k + 1, slot =>
    if (s.arpcache slot).arstate = st then (some slot, nextSlot slot)
    else s.search st k (nextSlot slot)

/-- `arp_alloc`: a free entry, or else one that is resolved. -/
def arp_alloc (s : Arp) : Option (Fin ARP_SIZ) × Arp :=
  match s.search .FREE ARP_SIZ s.nextslot with
  | (some slot, next) => (some slot, { s with nextslot := next })
  | (none, next) =>
    let (slot, next) := s.search .RESOLVED ARP_SIZ next
    (slot, { s with nextslot := next })

/-- The entry for an address. -/
def entryOf (ipaddr : UInt32) (s : Arp) : Option (Fin ARP_SIZ) :=
  (List.finRange ARP_SIZ).find? fun i =>
    (s.arpcache i).arstate ≠ .FREE ∧ (s.arpcache i).arpaddr = ipaddr

/-- `arp_resolve` up to the point where it has reserved an entry. -/
def arp_resolve (pid : Pid) (ipaddr : UInt32) (s : Arp) : Arp × List ArpEvent :=
  if ipaddr = IP_BCAST then (s, [.resolved pid ipaddr ethbcast])
  else
    match s.entryOf ipaddr with
    | some i =>
      -- only one request can be pending for an address
      if (s.arpcache i).arstate = .PENDING then (s, [.failed pid ipaddr SYSERR])
      else (s, [.resolved pid ipaddr (s.arpcache i).arhaddr])
    | none =>
      match s.arp_alloc with
      | (none, s) => (s, [.failed pid ipaddr SYSERR])
      | (some slot, s) =>
        let e := s.arpcache slot
        let s := s.setEntry slot { e with arstate := .PENDING, arpaddr := ipaddr, arpid := pid }
        (s.setCall pid (some ⟨ipaddr, slot, .asked⟩), [])

/-- The request that `arp_resolve` sends. -/
def request (ipaddr : UInt32) (s : Arp) : Arppacket where
  arp_op := ARP_OP_REQ
  arp_sndha := s.netData.ethaddr
  arp_sndpa := s.netData.ipaddr
  arp_tarha := 0
  arp_tarpa := ipaddr

/-- `recvclr`, and the first request. -/
def clear (pid : Pid) (s : Arp) : Option (Arp × List ArpEvent) :=
  match s.calls pid with
  | some ⟨ipaddr, slot, .asked⟩ =>
    let s := { s with prmsg := s.prmsg.recvclr pid }
    some (s.setCall pid (some ⟨ipaddr, slot, .waiting 0⟩), [.wrote (s.request ipaddr)])
  | _ => none

/-- `recvtime` has come back. -/
def recvtime (pid : Pid) (s : Arp) : Option (Arp × List ArpEvent) :=
  match s.calls pid with
  | some ⟨ipaddr, slot, .waiting i⟩ =>
    let msg := s.prmsg.received pid
    let s := { s with prmsg := s.prmsg.recvclr pid }
    if msg = TIMEOUT then
      if i + 1 < ARP_RETRY then
        some (s.setCall pid (some ⟨ipaddr, slot, .waiting (i + 1)⟩), [.wrote (s.request ipaddr)])
      else some (s.setCall pid (some ⟨ipaddr, slot, .left (i + 1)⟩), [])
    else if msg = SYSERR then some (s.setCall pid none, [.failed pid ipaddr SYSERR])
    else some (s.setCall pid (some ⟨ipaddr, slot, .left i⟩), [])
  | _ => none

/-- `arp_resolve` behind its loop. -/
def finish (pid : Pid) (s : Arp) : Option (Arp × List ArpEvent) :=
  match s.calls pid with
  | some ⟨ipaddr, slot, .left i⟩ =>
    let e := s.arpcache slot
    let s := s.setCall pid none
    if e.arpaddr ≠ ipaddr then some (s, [.failed pid ipaddr SYSERR])
    else if i < ARP_RETRY then some (s, [.resolved pid ipaddr e.arhaddr])
    else some (s.setEntry slot { e with arstate := .FREE }, [.failed pid ipaddr TIMEOUT])
  | _ => none

/-- The end of `arp_in`: a request for the local machine is answered, and its
sender is entered in the cache unless it was found there. -/
def answer (pkt : Arppacket) (found : Bool) (s : Arp) : Arp × List ArpEvent :=
  let reply : Arppacket :=
    { arp_op := ARP_OP_RPLY
      arp_sndha := s.netData.ethaddr
      arp_sndpa := s.netData.ipaddr
      arp_tarha := pkt.arp_sndha
      arp_tarpa := pkt.arp_sndpa }
  if pkt.arp_op = ARP_OP_RPLY then (s, [])
  else if ¬ s.netData.ipvalid ∨ pkt.arp_tarpa ≠ s.netData.ipaddr then (s, [])
  else if found then (s, [.wrote reply])
  else
    match s.arp_alloc with
    | (none, s) => (s, [])
    | (some slot, s) =>
      let e := s.arpcache slot
      (s.setEntry slot
        { e with arstate := .RESOLVED, arpaddr := pkt.arp_sndpa, arhaddr := pkt.arp_sndha },
        [.wrote reply])

/-- `arp_in`. -/
def arp_in (pkt : Arppacket) (s : Arp) : Arp × List ArpEvent :=
  if pkt.arp_htype ≠ ARP_HTYPE ∨ pkt.arp_ptype ≠ ARP_PTYPE then (s, [])
  else
    let es := [.arrived pkt]
    match s.entryOf pkt.arp_sndpa with
    | none =>
      let (s, es') := s.answer pkt false
      (s, es' ++ es)
    | some slot =>
      let e := { s.arpcache slot with arhaddr := pkt.arp_sndha }
      let s :=
        if e.arstate = .PENDING then
          -- the waiting process is told
          { s.setEntry slot { e with arstate := .RESOLVED } with
            prmsg := s.prmsg.send e.arpid OK }
        else s.setEntry slot e
      let (s, es') := s.answer pkt true
      (s, es' ++ es)

end Arp

/-! ## Runs -/

inductive ArpAct where
  /-- `netin` calls `arp_in`. -/
  | packet (pkt : Arppacket)
  | resolve (pid : Pid) (ipaddr : UInt32)
  | clear (pid : Pid)
  | recvtime (pid : Pid)
  | finish (pid : Pid)
  /-- A process sends a message. -/
  | tell (pid : Pid) (msg : Int)
  /-- The addresses of the interface change. -/
  | configure (d : NetData)

namespace Arp

def step (s : Arp) : ArpAct → Option (Arp × List ArpEvent)
  | .packet pkt => some (s.arp_in pkt)
  | .resolve pid ipaddr => if (s.calls pid).isNone then some (s.arp_resolve pid ipaddr) else none
  | .clear pid => s.clear pid
  | .recvtime pid => s.recvtime pid
  | .finish pid => s.finish pid
  | .tell pid msg => some ({ s with prmsg := s.prmsg.send pid msg }, [])
  | .configure d => some ({ s with netData := d }, [])

/-- After `arp_init`. -/
def Started (s : Arp) : Prop := (∀ i, s.arpcache i = {}) ∧ ∀ pid, (s.calls pid).isNone

def machine : Machine Arp ArpAct ArpEvent := ⟨Started, step⟩

/-! ## What the cache may contain -/

/-- **An address is returned only when a packet has come that names it as the
hardware address of its sender.** -/
def backed : Monitor ArpEvent (List (UInt32 × Mac)) where
  init := []
  next seen e :=
    match e with
    | .arrived p => some ((p.arp_sndpa, p.arp_sndha) :: seen)
    | .resolved _ ipaddr mac => if (ipaddr, mac) ∈ seen then some seen else none
    | .failed .. | .wrote _ => some seen

/-- **Resolved entries come from packets, and each pending entry has a call that
is still going on.** So a call that has returned leaves none behind. -/
structure Backed (seen : List (UInt32 × Mac)) (s : Arp) : Prop where
  resolved : ∀ i, (s.arpcache i).arstate = .RESOLVED →
    ((s.arpcache i).arpaddr, (s.arpcache i).arhaddr) ∈ seen
  pending : ∀ i, (s.arpcache i).arstate = .PENDING →
    ∃ c, s.calls (s.arpcache i).arpid = some c ∧ c.slot = i ∧ c.ipaddr = (s.arpcache i).arpaddr

/-- Every address returned so far is backed, and so is the cache. -/
def Kept (tr : List ArpEvent) (s : Arp) : Prop :=
  ∃ seen, backed.run tr = some seen ∧ Backed seen s

/-- A step that asks for no broadcast address, receives no message `SYSERR` while
the caller's entry is pending, and, when it returns the address of an entry,
finds the entry resolved. -/
def Sound (s : Arp) : ArpAct → Prop
  | .resolve _ ipaddr => ipaddr ≠ IP_BCAST
  | .recvtime pid =>
    s.prmsg.received pid = SYSERR → ∀ c ∈ s.calls pid,
      ¬ ((s.arpcache c.slot).arstate = .PENDING ∧ (s.arpcache c.slot).arpid = pid)
  | .finish pid =>
    ∀ c ∈ s.calls pid, (s.arpcache c.slot).arpaddr = c.ipaddr →
      c.phase ≠ .left ARP_RETRY → (s.arpcache c.slot).arstate = .RESOLVED
  | _ => True

instance (s : Arp) : ∀ a : ArpAct, Decidable (Sound s a)
  | .resolve _ ipaddr => inferInstanceAs (Decidable (ipaddr ≠ IP_BCAST))
  | .recvtime pid =>
    inferInstanceAs (Decidable (s.prmsg.received pid = SYSERR → ∀ c ∈ s.calls pid,
      ¬ ((s.arpcache c.slot).arstate = .PENDING ∧ (s.arpcache c.slot).arpid = pid)))
  | .finish pid =>
    inferInstanceAs (Decidable (∀ c ∈ s.calls pid, (s.arpcache c.slot).arpaddr = c.ipaddr →
      c.phase ≠ .left ARP_RETRY → (s.arpcache c.slot).arstate = .RESOLVED))
  | .packet _ | .clear _ | .tell .. | .configure _ => inferInstanceAs (Decidable True)

variable {seen : List (UInt32 × Mac)} {s s' : Arp} {es : List ArpEvent} {pid : Pid}
  {i slot : Fin ARP_SIZ}

/-- A monitored step that leads to a backed cache. -/
def Steps (seen : List (UInt32 × Mac)) (r : Arp × List ArpEvent) : Prop :=
  ∃ seen', Machine.feed backed seen r.2 = some seen' ∧ Backed seen' r.1

theorem started_backed (h : Started s) : Backed [] s := by
  constructor
  · intro i hi
    rw [h.1 i] at hi
    cases hi
  · intro i hi
    rw [h.1 i] at hi
    cases hi

/-- Only the cache and the calls matter. -/
theorem Backed.congr (h : Backed seen s) (hcache : s'.arpcache = s.arpcache)
    (hcalls : s'.calls = s.calls) : Backed seen s' := by
  constructor
  · rw [hcache]
    exact h.resolved
  · rw [hcache, hcalls]
    exact h.pending

/-- More packets back more. -/
theorem Backed.mono (h : Backed seen s) (x : UInt32 × Mac) : Backed (x :: seen) s :=
  ⟨fun i hi => List.mem_cons_of_mem x (h.resolved i hi), h.pending⟩

/-- An entry is overwritten. -/
theorem Backed.setEntry (h : Backed seen s) (e : Arpentry)
    (hres : e.arstate = .RESOLVED → (e.arpaddr, e.arhaddr) ∈ seen)
    (hpend : e.arstate = .PENDING →
      ∃ c, s.calls e.arpid = some c ∧ c.slot = i ∧ c.ipaddr = e.arpaddr) :
    Backed seen (s.setEntry i e) := by
  constructor
  · intro j hj
    change (Function.update s.arpcache i e j).arstate = _ at hj
    change ((Function.update s.arpcache i e j).arpaddr, (Function.update s.arpcache i e j).arhaddr)
      ∈ seen
    by_cases hji : j = i
    · subst hji
      rw [Function.update_self] at hj ⊢
      exact hres hj
    · rw [Function.update_of_ne hji] at hj ⊢
      exact h.resolved j hj
  · intro j hj
    change (Function.update s.arpcache i e j).arstate = _ at hj
    change ∃ c, s.calls (Function.update s.arpcache i e j).arpid = some c ∧ c.slot = j ∧
      c.ipaddr = (Function.update s.arpcache i e j).arpaddr
    by_cases hji : j = i
    · subst hji
      rw [Function.update_self] at hj ⊢
      exact hpend hj
    · rw [Function.update_of_ne hji] at hj ⊢
      exact h.pending j hj

/-- A process begins or ends a call, or goes on with it. A pending entry of its
own must stay the one of the call. -/
theorem Backed.setCall (h : Backed seen s) (c : Option Call)
    (hpend : ∀ i, (s.arpcache i).arstate = .PENDING → (s.arpcache i).arpid = pid →
      ∃ c', c = some c' ∧ c'.slot = i ∧ c'.ipaddr = (s.arpcache i).arpaddr) :
    Backed seen (s.setCall pid c) := by
  refine ⟨h.resolved, ?_⟩
  intro i hi
  change ∃ c', Function.update s.calls pid c (s.arpcache i).arpid = some c' ∧ _
  by_cases hpid : (s.arpcache i).arpid = pid
  · rw [hpid, Function.update_self]
    exact hpend i hi hpid
  · rw [Function.update_of_ne hpid]
    exact h.pending i hi

/-- The entry that is pending for a call in progress. -/
theorem Backed.own (h : Backed seen s) {c : Call} (hc : s.calls pid = some c)
    (hi : (s.arpcache i).arstate = .PENDING) (hpid : (s.arpcache i).arpid = pid) :
    c.slot = i ∧ c.ipaddr = (s.arpcache i).arpaddr := by
  obtain ⟨c', hc', hslot, hip⟩ := h.pending i hi
  rw [hpid, hc] at hc'
  obtain rfl := Option.some.inj hc'
  exact ⟨hslot, hip⟩

/-- A call goes on, with the same entry. -/
theorem Backed.goOn (h : Backed seen s) {c : Call} (hc : s.calls pid = some c) (ph : Phase) :
    Backed seen (s.setCall pid (some { c with phase := ph })) := by
  refine h.setCall _ ?_
  intro i hi hpid
  have hown := h.own hc hi hpid
  exact ⟨_, rfl, hown⟩

/-- A call returns whose entry is not pending any more. -/
theorem Backed.leave (h : Backed seen s) {c : Call} (hc : s.calls pid = some c)
    (hown : ¬ ((s.arpcache c.slot).arstate = .PENDING ∧ (s.arpcache c.slot).arpid = pid ∧
      c.ipaddr = (s.arpcache c.slot).arpaddr)) : Backed seen (s.setCall pid none) := by
  refine h.setCall none ?_
  intro i hi hpid
  obtain ⟨rfl, hip⟩ := h.own hc hi hpid
  exact absurd ⟨hi, hpid, hip⟩ hown

/-! ## One step -/

theorem arp_alloc_cache (s : Arp) :
    s.arp_alloc.2.arpcache = s.arpcache ∧ s.arp_alloc.2.calls = s.calls := by
  unfold arp_alloc
  rcases hs : s.search .FREE ARP_SIZ s.nextslot with ⟨_ | slot, next⟩
  · exact ⟨rfl, rfl⟩
  · exact ⟨rfl, rfl⟩

theorem entryOf_spec {ipaddr : UInt32} (h : s.entryOf ipaddr = some i) :
    (s.arpcache i).arstate ≠ .FREE ∧ (s.arpcache i).arpaddr = ipaddr := by
  have hi := List.find?_some h
  rwa [decide_eq_true_eq] at hi

/-- **A call finds an entry, or reserves one.** -/
theorem arp_resolve_steps (h : Backed seen s) (hc : s.calls pid = none) {ipaddr : UInt32}
    (hip : ipaddr ≠ IP_BCAST) : Steps seen (s.arp_resolve pid ipaddr) := by
  unfold arp_resolve
  rw [if_neg hip]
  cases hf : s.entryOf ipaddr with
  | some i =>
    obtain ⟨hfree, haddr⟩ := entryOf_spec hf
    dsimp only
    by_cases hp : (s.arpcache i).arstate = .PENDING
    · rw [if_pos hp]
      exact ⟨seen, rfl, h⟩
    · rw [if_neg hp]
      have hres : (s.arpcache i).arstate = .RESOLVED := by
        cases hst : (s.arpcache i).arstate with
        | FREE => exact absurd hst hfree
        | PENDING => exact absurd hst hp
        | RESOLVED => rfl
      have hmem := h.resolved i hres
      rw [haddr] at hmem
      exact ⟨seen, if_pos hmem, h⟩
  | none =>
    obtain ⟨hcache, hcalls⟩ := s.arp_alloc_cache
    rcases ha : s.arp_alloc with ⟨_ | slot, t⟩
    · rw [ha] at hcache hcalls
      exact ⟨seen, rfl, h.congr hcache hcalls⟩
    · rw [ha] at hcache hcalls
      have ht : Backed seen t := h.congr hcache hcalls
      -- no pending entry is the caller's, who is in no call
      have hcall : Backed seen (t.setCall pid (some ⟨ipaddr, slot, .asked⟩)) := by
        refine ht.setCall _ ?_
        intro j hj hpid
        obtain ⟨c, hc', -⟩ := ht.pending j hj
        rw [hpid, hcalls, hc] at hc'
        cases hc'
      refine ⟨seen, rfl, hcall.setEntry _ nofun fun _ => ⟨⟨ipaddr, slot, .asked⟩, ?_, rfl, rfl⟩⟩
      exact Function.update_self ..

theorem clear_steps (h : Backed seen s) (hst : s.clear pid = some (s', es)) :
    Steps seen (s', es) := by
  unfold clear at hst
  rcases hc : s.calls pid with _ | ⟨ipaddr, slot, _ | i | i⟩
  · rw [hc] at hst
    cases hst
  · rw [hc] at hst
    obtain ⟨rfl, rfl⟩ := Prod.mk.inj (Option.some.inj hst)
    exact ⟨seen, rfl, (h.goOn hc (.waiting 0)).congr rfl rfl⟩
  · rw [hc] at hst
    cases hst
  · rw [hc] at hst
    cases hst

/-- **A call goes on, or returns** because of a message that its entry has
survived. -/
theorem recvtime_steps (h : Backed seen s) (hok : Sound s (.recvtime pid))
    (hst : s.recvtime pid = some (s', es)) : Steps seen (s', es) := by
  unfold recvtime at hst
  rcases hc : s.calls pid with _ | ⟨ipaddr, slot, _ | i | i⟩
  · rw [hc] at hst
    cases hst
  · rw [hc] at hst
    cases hst
  · rw [hc] at hst
    dsimp only at hst
    by_cases htime : s.prmsg.received pid = TIMEOUT
    · rw [if_pos htime] at hst
      by_cases hi : i + 1 < ARP_RETRY
      · rw [if_pos hi] at hst
        obtain ⟨rfl, rfl⟩ := Prod.mk.inj (Option.some.inj hst)
        exact ⟨seen, rfl, (h.goOn hc (.waiting (i + 1))).congr rfl rfl⟩
      · rw [if_neg hi] at hst
        obtain ⟨rfl, rfl⟩ := Prod.mk.inj (Option.some.inj hst)
        exact ⟨seen, rfl, (h.goOn hc (.left (i + 1))).congr rfl rfl⟩
    · rw [if_neg htime] at hst
      by_cases herr : s.prmsg.received pid = SYSERR
      · rw [if_pos herr] at hst
        obtain ⟨rfl, rfl⟩ := Prod.mk.inj (Option.some.inj hst)
        have hown := hok herr _ hc
        exact ⟨seen, rfl, (h.leave hc fun hp => hown ⟨hp.1, hp.2.1⟩).congr rfl rfl⟩
      · rw [if_neg herr] at hst
        obtain ⟨rfl, rfl⟩ := Prod.mk.inj (Option.some.inj hst)
        exact ⟨seen, rfl, (h.goOn hc (.left i)).congr rfl rfl⟩
  · rw [hc] at hst
    cases hst

/-- **A call returns** with the address of an entry that is resolved, or frees
the entry. -/
theorem finish_steps (h : Backed seen s) (hok : Sound s (.finish pid))
    (hst : s.finish pid = some (s', es)) : Steps seen (s', es) := by
  unfold finish at hst
  rcases hc : s.calls pid with _ | ⟨ipaddr, slot, _ | i | i⟩
  · rw [hc] at hst
    cases hst
  · rw [hc] at hst
    cases hst
  · rw [hc] at hst
    cases hst
  · rw [hc] at hst
    dsimp only at hst
    by_cases haddr : (s.arpcache slot).arpaddr ≠ ipaddr
    · rw [if_pos haddr] at hst
      obtain ⟨rfl, rfl⟩ := Prod.mk.inj (Option.some.inj hst)
      exact ⟨seen, rfl, h.leave hc fun hp => haddr hp.2.2.symm⟩
    · rw [if_neg haddr] at hst
      rw [not_ne_iff] at haddr
      by_cases hi : i < ARP_RETRY
      · rw [if_pos hi] at hst
        obtain ⟨rfl, rfl⟩ := Prod.mk.inj (Option.some.inj hst)
        have hph : (⟨ipaddr, slot, .left i⟩ : Call).phase ≠ .left ARP_RETRY := by
          intro hph
          injection hph with hph
          omega
        have hres := hok _ hc haddr hph
        have hmem := h.resolved slot hres
        rw [haddr] at hmem
        refine ⟨seen, if_pos hmem, h.leave hc ?_⟩
        intro hp
        rw [hres] at hp
        exact nomatch hp.1
      · -- a pending entry is the caller's, and is free from now on
        rw [if_neg hi] at hst
        obtain ⟨rfl, rfl⟩ := Prod.mk.inj (Option.some.inj hst)
        refine ⟨seen, rfl, ?_⟩
        have hset := h.setEntry (i := slot) { s.arpcache slot with arstate := .FREE } nofun nofun
        refine hset.setCall none ?_
        intro j hj hpid
        by_cases hjs : j = slot
        · subst hjs
          change (Function.update s.arpcache j _ j).arstate = _ at hj
          rw [Function.update_self] at hj
          cases hj
        · have hent : (s.setEntry slot { s.arpcache slot with arstate := .FREE }).arpcache j =
              s.arpcache j := Function.update_of_ne hjs ..
          rw [hent] at hj hpid
          exact absurd (h.own hc hj hpid).1.symm hjs

/-- The sender of a request is entered as it says. -/
theorem answer_steps {pkt : Arppacket} (found : Bool) (h : Backed seen s)
    (hseen : (pkt.arp_sndpa, pkt.arp_sndha) ∈ seen) :
    Machine.feed backed seen (s.answer pkt found).2 = some seen ∧
      Backed seen (s.answer pkt found).1 := by
  unfold answer
  dsimp only
  by_cases hop : pkt.arp_op = ARP_OP_RPLY
  · rw [if_pos hop]
    exact ⟨rfl, h⟩
  · rw [if_neg hop]
    by_cases hme : ¬ s.netData.ipvalid ∨ pkt.arp_tarpa ≠ s.netData.ipaddr
    · rw [if_pos hme]
      exact ⟨rfl, h⟩
    · rw [if_neg hme]
      cases found with
      | true => exact ⟨rfl, h⟩
      | false =>
        obtain ⟨hcache, hcalls⟩ := s.arp_alloc_cache
        rcases ha : s.arp_alloc with ⟨_ | slot, t⟩
        · rw [ha] at hcache hcalls
          exact ⟨rfl, h.congr hcache hcalls⟩
        · rw [ha] at hcache hcalls
          have ht : Backed seen t := h.congr hcache hcalls
          exact ⟨rfl, ht.setEntry _ (fun _ => hseen) nofun⟩

/-- **A packet arrives.** -/
theorem arp_in_steps (h : Backed seen s) (pkt : Arppacket) : Steps seen (s.arp_in pkt) := by
  unfold arp_in
  by_cases hty : pkt.arp_htype ≠ ARP_HTYPE ∨ pkt.arp_ptype ≠ ARP_PTYPE
  · rw [if_pos hty]
    exact ⟨seen, rfl, h⟩
  · rw [if_neg hty]
    obtain ⟨seen', hseen'⟩ : ∃ seen', seen' = (pkt.arp_sndpa, pkt.arp_sndha) :: seen := ⟨_, rfl⟩
    have hmem : (pkt.arp_sndpa, pkt.arp_sndha) ∈ seen' := hseen' ▸ List.mem_cons_self
    have h' : Backed seen' s := hseen' ▸ h.mono _
    -- what is left is to answer
    have hrest {t : Arp} (found : Bool) (ht : Backed seen' t) :
        Steps seen ((t.answer pkt found).1, (t.answer pkt found).2 ++ [.arrived pkt]) := by
      obtain ⟨hfeed, hin⟩ := answer_steps found ht hmem
      refine ⟨seen', ?_, hin⟩
      rw [Machine.feed_append, Machine.feed_singleton]
      change (some _).bind _ = _
      rw [← hseen']
      exact hfeed
    cases hf : s.entryOf pkt.arp_sndpa with
    | none => exact hrest false h'
    | some slot =>
      obtain ⟨hfree, haddr⟩ := entryOf_spec hf
      have hent : ((s.arpcache slot).arpaddr, pkt.arp_sndha) ∈ seen' := by
        rw [haddr]
        exact hmem
      refine hrest true ?_
      dsimp only
      by_cases hp : (s.arpcache slot).arstate = .PENDING
      · rw [if_pos hp]
        have hset := h'.setEntry (i := slot)
          { s.arpcache slot with arhaddr := pkt.arp_sndha, arstate := .RESOLVED }
          (fun _ => hent) nofun
        exact hset.congr rfl rfl
      · rw [if_neg hp]
        exact h'.setEntry _ (fun _ => hent) fun hp' => absurd hp' hp

/-- **One step keeps the cache backed.** -/
theorem step_steps (h : Backed seen s) {a : ArpAct} (hok : Sound s a)
    (hst : s.step a = some (s', es)) : Steps seen (s', es) := by
  cases a with
  | packet pkt =>
    rw [← Option.some.inj hst]
    exact arp_in_steps h pkt
  | resolve pid ipaddr =>
    change (if (s.calls pid).isNone then _ else _) = _ at hst
    by_cases hc : (s.calls pid).isNone
    · rw [if_pos hc] at hst
      rw [← Option.some.inj hst]
      exact arp_resolve_steps h (Option.isNone_iff_eq_none.mp hc) hok
    · rw [if_neg hc] at hst
      cases hst
  | clear pid => exact clear_steps h hst
  | recvtime pid => exact recvtime_steps h hok hst
  | finish pid => exact finish_steps h hok hst
  | tell pid msg =>
    obtain ⟨rfl, rfl⟩ := Prod.mk.inj (Option.some.inj hst)
    exact ⟨seen, rfl, h.congr rfl rfl⟩
  | configure d =>
    obtain ⟨rfl, rfl⟩ := Prod.mk.inj (Option.some.inj hst)
    exact ⟨seen, rfl, h.congr rfl rfl⟩

/-- **An address is returned only from a packet of its sender, and no call leaves
a pending entry behind**, in every run in which no call for an address goes on
with a message while its entry is not resolved. -/
theorem arp_sound_without_slip {tr : List ArpEvent} (r : machine.Run Sound tr s) : Kept tr s := by
  refine r.accepted (R := Backed) ?_ ?_
  · intro s h
    exact started_backed h
  · intro seen s s' a es h hok hst
    exact step_steps h hok hst

/-! ## A message from another process -/

/-- After `arp_init`. -/
def boot : Arp where
  arpcache := fun _ => {}
  nextslot := ⟨0, by decide⟩
  netData := { ipvalid := true, ipaddr := 1, ethaddr := 0x11 }
  prmsg := fun _ => none
  calls := fun _ => none

theorem boot_started : Started boot := ⟨fun _ => rfl, fun _ => rfl⟩

/-- The host 9 answers to the second request of process 3. -/
def answered : List ArpAct :=
  [.resolve 3 9, .clear 3, .recvtime 3,
    .packet { arp_op := ARP_OP_RPLY, arp_sndha := 0x99, arp_sndpa := 9, arp_tarha := 0x11, arp_tarpa := 1 },
    .recvtime 3, .finish 3]

theorem arp_sound_without_slip_answered :
    ∃ tr s, machine.exec Sound boot [] answered = some (s, tr) ∧
      .resolved 3 9 0x99 ∈ tr ∧ Kept tr s := by
  have hrun : (machine.exec Sound boot [] answered).any
      (fun r => decide (.resolved 3 9 0x99 ∈ r.2)) := by
    decide +kernel
  obtain ⟨⟨s, tr⟩, hst, hmem⟩ := (Option.any_eq_true _ _).mp hrun
  exact ⟨tr, s, hst, of_decide_eq_true hmem,
    arp_sound_without_slip (Machine.exec_run (.start boot_started) hst)⟩

/-- **Any message is taken for the answer**: process 3 waits for the address of
host 9, gets the message 7 from another process, and returns with `OK` and the
contents of the entry. -/
theorem arp_not_sound : ¬ ∀ tr s, machine.Run (fun _ _ => True) tr s → Kept tr s := by
  intro hall
  have hrun : (machine.exec (fun _ _ => True) boot []
      [.resolve 3 9, .clear 3, .tell 3 7, .recvtime 3, .finish 3]).any
        (fun r => (backed.run r.2).isNone) := by
    decide +kernel
  obtain ⟨⟨s, tr⟩, hst, hrej⟩ := (Option.any_eq_true _ _).mp hrun
  obtain ⟨q, hq, -⟩ := hall tr s (Machine.exec_run (.start boot_started) hst)
  rw [hq] at hrej
  cases hrej

end Arp

end Xinu.Net
