import XinuCMips.Net.Arp

/-!
# The ARP cache

A step either leaves the cache alone or changes one entry: it reserves an entry
that is not pending for an address that is not cached, enters the sender of a
packet in the entry of its address, or frees the entry of a call that gives up
(`Moves`).

The last of these looks at the address of the entry only. A call that has given
up frees an entry that another call has reserved since for the same address.

* `step_moves`             — what a step does to the cache;
* `arp_cache_without_slip` — one entry for each address, none taken away from a
  call that waits for it, and packets change entries in place, as long as no
  call frees a pending entry of another;
* `arp_cache_not_safe`     — a call that does.
-/

namespace Xinu.Net

/-- The loop has run `ARP_RETRY` times. -/
def Phase.gaveUp : Phase → Prop
  | .left i => ARP_RETRY ≤ i
  | _ => False

instance : DecidablePred Phase.gaveUp := fun ph => by
  cases ph <;> unfold Phase.gaveUp <;> infer_instance

namespace Arp

variable {s s' : Arp} {es : List ArpEvent} {a : ArpAct} {i j slot : Fin ARP_SIZ}

/-- **At most one entry for each address.** -/
def Unique (s : Arp) : Prop :=
  ∀ i j, (s.arpcache i).arstate ≠ .FREE → (s.arpcache j).arstate ≠ .FREE →
    (s.arpcache i).arpaddr = (s.arpcache j).arpaddr → i = j

/-- The entry `i` is pending for the call that the process `pid` is in. -/
def Awaits (s : Arp) (pid : Pid) (i : Fin ARP_SIZ) : Prop :=
  (∃ c ∈ s.calls pid, c.slot = i) ∧ (s.arpcache i).arstate = .PENDING ∧ (s.arpcache i).arpid = pid

/-- What a step must not do to the cache. -/
structure CacheStep (s : Arp) (a : ArpAct) (s' : Arp) : Prop where
  /-- An entry that a call waits for stays, until a packet from its address
  resolves it or the call itself gives up. -/
  awaited : ∀ pid i, Awaits s pid i → s'.arpcache i = s.arpcache i ∨ a = .finish pid ∨
    ∃ pkt, a = .packet pkt ∧ pkt.arp_sndpa = (s.arpcache i).arpaddr ∧
      s'.arpcache i = { s.arpcache i with arstate := .RESOLVED, arhaddr := pkt.arp_sndha }
  /-- A packet from an address in the cache changes its entry and no other. -/
  inPlace : ∀ pkt i, a = .packet pkt → pkt.arp_htype = ARP_HTYPE → pkt.arp_ptype = ARP_PTYPE →
    (s.arpcache i).arstate ≠ .FREE → (s.arpcache i).arpaddr = pkt.arp_sndpa →
      s'.arpcache = Function.update s.arpcache i
        { s.arpcache i with arstate := .RESOLVED, arhaddr := pkt.arp_sndha }

/-- A call that gives up frees no pending entry of another call. -/
def FreesOwn (s : Arp) : ArpAct → Prop
  | .finish pid =>
    ∀ c ∈ s.calls pid, c.phase.gaveUp → (s.arpcache c.slot).arpaddr = c.ipaddr →
      (s.arpcache c.slot).arstate = .PENDING → (s.arpcache c.slot).arpid = pid
  | _ => True

instance (s : Arp) : ∀ a : ArpAct, Decidable (FreesOwn s a)
  | .finish pid =>
    inferInstanceAs (Decidable (∀ c ∈ s.calls pid, c.phase.gaveUp →
      (s.arpcache c.slot).arpaddr = c.ipaddr →
        (s.arpcache c.slot).arstate = .PENDING → (s.arpcache c.slot).arpid = pid))
  | .packet _ | .resolve .. | .clear _ | .recvtime _ | .tell .. | .configure _ =>
    inferInstanceAs (Decidable True)

/-! ## Searching -/

theorem search_spec {st : Arstate} : ∀ {k : Nat} {slot next : Fin ARP_SIZ},
    s.search st k slot = (some i, next) → (s.arpcache i).arstate = st
  | 0, _, _, h => by cases h
  | k + 1, slot, next, h => by
    unfold search at h
    by_cases hst : (s.arpcache slot).arstate = st
    · rw [if_pos hst] at h
      obtain ⟨hi, -⟩ := Prod.mk.inj h
      rw [← Option.some.inj hi]
      exact hst
    · rw [if_neg hst] at h
      exact search_spec h

/-- **No pending entry is given away.** -/
theorem arp_alloc_spec (h : s.arp_alloc.1 = some slot) : (s.arpcache slot).arstate ≠ .PENDING := by
  unfold arp_alloc at h
  rcases hfree : s.search .FREE ARP_SIZ s.nextslot with ⟨_ | i, next⟩
  · rw [hfree] at h
    have hres : (s.arpcache slot).arstate = .RESOLVED := search_spec (Prod.ext h rfl)
    rw [hres]
    nofun
  · rw [hfree] at h
    obtain rfl := Option.some.inj h
    rw [search_spec hfree]
    nofun

theorem entryOf_none {ipaddr : UInt32} (h : s.entryOf ipaddr = none) (i : Fin ARP_SIZ)
    (hi : (s.arpcache i).arstate ≠ .FREE) : (s.arpcache i).arpaddr ≠ ipaddr := by
  intro haddr
  have hno := List.find?_eq_none.mp h i (List.mem_finRange i)
  exact hno (decide_eq_true ⟨hi, haddr⟩)

/-! ## One step -/

/-- What a step does to the cache. -/
inductive Moves (s : Arp) (a : ArpAct) (s' : Arp) : Prop
  | same (hcache : s'.arpcache = s.arpcache)
      (hmiss : ∀ pkt, a = .packet pkt → pkt.arp_htype = ARP_HTYPE → pkt.arp_ptype = ARP_PTYPE →
        s.entryOf pkt.arp_sndpa = none)
  | reserve {slot : Fin ARP_SIZ} {e : Arpentry} (hst : (s.arpcache slot).arstate ≠ .PENDING)
      (hmiss : s.entryOf e.arpaddr = none)
      (hpkt : ∀ pkt, a = .packet pkt → pkt.arp_sndpa = e.arpaddr)
      (hcache : s'.arpcache = Function.update s.arpcache slot e)
  | enter {slot : Fin ARP_SIZ} {pkt : Arppacket} (ha : a = .packet pkt)
      (hhit : s.entryOf pkt.arp_sndpa = some slot)
      (hcache : s'.arpcache = Function.update s.arpcache slot
        { s.arpcache slot with arstate := .RESOLVED, arhaddr := pkt.arp_sndha })
  | giveUp {pid : Pid} {c : Call} (ha : a = .finish pid) (hc : s.calls pid = some c)
      (hph : c.phase.gaveUp) (haddr : (s.arpcache c.slot).arpaddr = c.ipaddr)
      (hcache : s'.arpcache = Function.update s.arpcache c.slot
        { s.arpcache c.slot with arstate := .FREE })

/-- A step that leaves the cache alone and reads no packet. -/
theorem Moves.quiet (hcache : s'.arpcache = s.arpcache) (ha : ∀ pkt, a ≠ .packet pkt) :
    Moves s a s' := .same hcache fun pkt hp => absurd hp (ha pkt)

theorem arp_resolve_moves (s : Arp) (pid : Pid) (ipaddr : UInt32) :
    Moves s (.resolve pid ipaddr) (s.arp_resolve pid ipaddr).1 := by
  unfold arp_resolve
  by_cases hb : ipaddr = IP_BCAST
  · rw [if_pos hb]
    exact .quiet rfl nofun
  · rw [if_neg hb]
    cases hf : s.entryOf ipaddr with
    | some i =>
      dsimp only
      split
      · exact .quiet rfl nofun
      · exact .quiet rfl nofun
    | none =>
      have hcache := s.arp_alloc_cache.1
      rcases ha : s.arp_alloc with ⟨_ | slot, t⟩
      · rw [ha] at hcache
        exact .quiet hcache nofun
      · rw [ha] at hcache
        have hst : (s.arpcache slot).arstate ≠ .PENDING := arp_alloc_spec (by rw [ha])
        refine .reserve (e := { t.arpcache slot with arstate := .PENDING, arpaddr := ipaddr, arpid := pid })
          hst hf nofun ?_
        change Function.update t.arpcache slot _ = _
        rw [hcache]

theorem finish_moves {pid : Pid} (hst : s.finish pid = some (s', es)) :
    Moves s (.finish pid) s' := by
  unfold finish at hst
  rcases hc : s.calls pid with _ | ⟨ipaddr, slot, _ | i | i⟩
  · rw [hc] at hst
    cases hst
  · rw [hc] at hst
    cases hst
  · rw [hc] at hst
    cases hst
  · rw [hc] at hst
    dsimp only at hst
    by_cases haddr : (s.arpcache slot).arpaddr ≠ ipaddr
    · rw [if_pos haddr] at hst
      obtain ⟨rfl, -⟩ := Prod.mk.inj (Option.some.inj hst)
      exact .quiet rfl nofun
    · rw [if_neg haddr] at hst
      rw [not_ne_iff] at haddr
      by_cases hi : i < ARP_RETRY
      · rw [if_pos hi] at hst
        obtain ⟨rfl, -⟩ := Prod.mk.inj (Option.some.inj hst)
        exact .quiet rfl nofun
      · rw [if_neg hi] at hst
        obtain ⟨rfl, -⟩ := Prod.mk.inj (Option.some.inj hst)
        exact .giveUp rfl hc (show ARP_RETRY ≤ i from not_lt.mp hi) haddr rfl

/-- The sender of a request is entered unless it was found. -/
theorem answer_cache (s : Arp) (pkt : Arppacket) (found : Bool) :
    (s.answer pkt found).1.arpcache = s.arpcache ∨
      found = false ∧ ∃ slot e, (s.arpcache slot).arstate ≠ .PENDING ∧
        e.arpaddr = pkt.arp_sndpa ∧
        (s.answer pkt found).1.arpcache = Function.update s.arpcache slot e := by
  unfold answer
  dsimp only
  by_cases hop : pkt.arp_op = ARP_OP_RPLY
  · rw [if_pos hop]
    exact .inl rfl
  · rw [if_neg hop]
    by_cases hme : ¬ s.netData.ipvalid ∨ pkt.arp_tarpa ≠ s.netData.ipaddr
    · rw [if_pos hme]
      exact .inl rfl
    · rw [if_neg hme]
      cases found with
      | true => exact .inl rfl
      | false =>
        have hcache := s.arp_alloc_cache.1
        rcases ha : s.arp_alloc with ⟨_ | slot, t⟩
        · rw [ha] at hcache
          exact .inl hcache
        · rw [ha] at hcache
          have hst : (s.arpcache slot).arstate ≠ .PENDING := arp_alloc_spec (by rw [ha])
          refine .inr ⟨rfl, slot, { t.arpcache slot with
            arstate := .RESOLVED, arpaddr := pkt.arp_sndpa, arhaddr := pkt.arp_sndha }, hst, rfl, ?_⟩
          change Function.update t.arpcache slot _ = _
          rw [hcache]

theorem arp_in_moves (s : Arp) (pkt : Arppacket) : Moves s (.packet pkt) (s.arp_in pkt).1 := by
  unfold arp_in
  by_cases hty : pkt.arp_htype ≠ ARP_HTYPE ∨ pkt.arp_ptype ≠ ARP_PTYPE
  · rw [if_pos hty]
    refine .same rfl ?_
    intro pkt' hp hh hpt
    cases hp
    exact absurd hty (not_or.mpr ⟨not_not.mpr hh, not_not.mpr hpt⟩)
  · rw [if_neg hty]
    cases hf : s.entryOf pkt.arp_sndpa with
    | none =>
      rcases s.answer_cache pkt false with hsame | ⟨-, slot, e, hst, haddr, hcache⟩
      · refine .same hsame ?_
        intro pkt' hp _ _
        cases hp
        exact hf
      · refine .reserve hst (by rw [haddr]; exact hf) ?_ hcache
        intro pkt' hp
        cases hp
        exact haddr.symm
    | some slot =>
      refine .enter rfl hf ?_
      dsimp only
      by_cases hp : (s.arpcache slot).arstate = .PENDING
      · rw [if_pos hp]
        rcases answer_cache _ pkt true with hsame | ⟨hfound, -⟩
        · exact hsame
        · cases hfound
      · rw [if_neg hp]
        have hres : (s.arpcache slot).arstate = .RESOLVED := by
          cases hst : (s.arpcache slot).arstate with
          | FREE => exact absurd hst (entryOf_spec hf).1
          | PENDING => exact absurd hst hp
          | RESOLVED => rfl
        rcases answer_cache _ pkt true with hsame | ⟨hfound, -⟩
        · rw [← hres]
          exact hsame
        · cases hfound

/-- **What a step does to the cache.** -/
theorem step_moves (hst : s.step a = some (s', es)) : Moves s a s' := by
  cases a with
  | packet pkt =>
    have hs' : (s.arp_in pkt).1 = s' := congrArg Prod.fst (Option.some.inj hst)
    rw [← hs']
    exact arp_in_moves s pkt
  | resolve pid ipaddr =>
    change (if (s.calls pid).isNone then _ else _) = _ at hst
    by_cases hc : (s.calls pid).isNone
    · rw [if_pos hc] at hst
      have hs' : (s.arp_resolve pid ipaddr).1 = s' := congrArg Prod.fst (Option.some.inj hst)
      rw [← hs']
      exact arp_resolve_moves s pid ipaddr
    · rw [if_neg hc] at hst
      cases hst
  | clear pid =>
    refine .quiet ?_ nofun
    change s.clear pid = _ at hst
    unfold clear at hst
    split at hst
    · obtain ⟨rfl, -⟩ := Prod.mk.inj (Option.some.inj hst)
      rfl
    · cases hst
  | recvtime pid =>
    refine .quiet ?_ nofun
    change s.recvtime pid = _ at hst
    unfold recvtime at hst
    split at hst
    · dsimp only at hst
      split at hst
      · split at hst
        · obtain ⟨rfl, -⟩ := Prod.mk.inj (Option.some.inj hst)
          rfl
        · obtain ⟨rfl, -⟩ := Prod.mk.inj (Option.some.inj hst)
          rfl
      · split at hst
        · obtain ⟨rfl, -⟩ := Prod.mk.inj (Option.some.inj hst)
          rfl
        · obtain ⟨rfl, -⟩ := Prod.mk.inj (Option.some.inj hst)
          rfl
    · cases hst
  | finish pid => exact finish_moves hst
  | tell pid msg =>
    obtain ⟨rfl, -⟩ := Prod.mk.inj (Option.some.inj hst)
    exact .quiet rfl nofun
  | configure d =>
    obtain ⟨rfl, -⟩ := Prod.mk.inj (Option.some.inj hst)
    exact .quiet rfl nofun

/-! ## Runs -/

/-- An entry changes, and what it is for is either what it was for or cached
nowhere. -/
theorem Unique.update (h : Unique s) {e : Arpentry}
    (hcache : s'.arpcache = Function.update s.arpcache slot e)
    (he : e.arstate ≠ .FREE → ∀ j, j ≠ slot → (s.arpcache j).arstate ≠ .FREE →
      (s.arpcache j).arpaddr ≠ e.arpaddr) : Unique s' := by
  intro i j hi hj hij
  rw [hcache] at hi hj hij
  by_cases his : i = slot
  · by_cases hjs : j = slot
    · rw [his, hjs]
    · subst his
      rw [Function.update_self] at hi hij
      rw [Function.update_of_ne hjs] at hj hij
      exact absurd hij.symm (he hi j hjs hj)
  · rw [Function.update_of_ne his] at hi hij
    by_cases hjs : j = slot
    · subst hjs
      rw [Function.update_self] at hj hij
      exact absurd hij (he hj i his hi)
    · rw [Function.update_of_ne hjs] at hj hij
      exact h i j hi hj hij

theorem Moves.unique (hm : Moves s a s') (h : Unique s) : Unique s' := by
  cases hm with
  | same hcache _ =>
    intro i j
    rw [hcache]
    exact h i j
  | reserve _ hmiss _ hcache => exact h.update hcache fun _ j _ hj => entryOf_none hmiss j hj
  | @enter slot pkt _ hhit hcache =>
    refine h.update hcache fun _ j hjs hj haddr => hjs ?_
    exact h j slot hj (entryOf_spec hhit).1 haddr
  | giveUp _ _ _ _ hcache => exact h.update hcache fun hfree => absurd rfl hfree

/-- The entry of an address is the one that the search finds. -/
theorem Unique.entryOf (h : Unique s) {ipaddr : UInt32} (hi : (s.arpcache i).arstate ≠ .FREE)
    (haddr : (s.arpcache i).arpaddr = ipaddr) : s.entryOf ipaddr = some i := by
  cases hf : s.entryOf ipaddr with
  | none => exact absurd haddr (entryOf_none hf i hi)
  | some j =>
    obtain ⟨hj, haddr'⟩ := entryOf_spec hf
    rw [h i j hi hj (haddr.trans haddr'.symm)]

theorem Moves.cacheStep (hm : Moves s a s') (h : Unique s) (hok : FreesOwn s a) :
    CacheStep s a s' := by
  constructor
  · rintro pid i ⟨-, hpend, hpid⟩
    cases hm with
    | same hcache _ => exact .inl (congrFun hcache i)
    | @reserve slot e hst _ _ hcache =>
      left
      rw [hcache]
      refine Function.update_of_ne ?_ ..
      rintro rfl
      exact hst hpend
    | @enter slot pkt ha hhit hcache =>
      by_cases his : i = slot
      · subst his
        refine .inr (.inr ⟨pkt, ha, (entryOf_spec hhit).2.symm, ?_⟩)
        rw [hcache, Function.update_self]
      · left
        rw [hcache, Function.update_of_ne his]
    | @giveUp pid' c ha hc hph haddr hcache =>
      by_cases his : i = c.slot
      · right; left
        subst ha his
        have hown : (s.arpcache c.slot).arpid = pid' := hok c hc hph haddr hpend
        rw [← hown, hpid]
      · left
        rw [hcache, Function.update_of_ne his]
  · intro pkt i ha hh hp hi haddr
    have hentry := h.entryOf hi haddr
    cases hm with
    | same _ hmiss =>
      rw [hmiss pkt ha hh hp] at hentry
      cases hentry
    | reserve _ hmiss hpkt _ =>
      rw [hpkt pkt ha, hmiss] at hentry
      cases hentry
    | @enter slot pkt' ha' hhit hcache =>
      rw [ha] at ha'
      cases ha'
      rw [hhit] at hentry
      rw [← Option.some.inj hentry]
      exact hcache
    | giveUp ha' _ _ _ _ =>
      rw [ha] at ha'
      cases ha'

/-- **Addresses are unique, an entry that a call waits for is not taken away, and
packets change entries in place**, in every run in which no call that gives up
frees a pending entry of another. -/
theorem arp_cache_without_slip {tr : List ArpEvent} (r : machine.Run FreesOwn tr s) :
    Unique s ∧ ∀ a s' es, FreesOwn s a → s.step a = some (s', es) → CacheStep s a s' := by
  have hu : Unique s := by
    refine r.invariant (I := fun _ s => Unique s) ?_ ?_
    · intro s h i j hi
      rw [h.1 i] at hi
      exact absurd rfl hi
    · intro tr es s s' a h _ hst
      exact (step_moves hst).unique h
  exact ⟨hu, fun a s' es hok hst => (step_moves hst).cacheStep hu hok⟩

theorem arp_cache_without_slip_answered :
    ∃ tr s, machine.Run FreesOwn tr s ∧ .resolved 3 9 0x99 ∈ tr ∧
      Unique s ∧ ∀ a s' es, FreesOwn s a → s.step a = some (s', es) → CacheStep s a s' := by
  have hrun : (machine.exec FreesOwn boot [] answered).any
      (fun r => decide (.resolved 3 9 0x99 ∈ r.2)) := by
    decide +kernel
  obtain ⟨⟨s, tr⟩, hst, hmem⟩ := (Option.any_eq_true _ _).mp hrun
  have r := Machine.exec_run (.start boot_started) hst
  exact ⟨tr, s, r, of_decide_eq_true hmem, arp_cache_without_slip r⟩

/-! ## An entry is taken away -/

/-- All entries are pending, and the call of process 0 gives up. Before it runs
on, the host 100 answers, another host takes over its entry, and process 16 asks
for the host 100 again. -/
def reserved : List ArpAct :=
  (List.range ARP_SIZ).map (fun i => .resolve i (100 + i.toUInt32)) ++
    [.clear 0, .recvtime 0, .recvtime 0, .recvtime 0,
      .packet { arp_op := ARP_OP_RPLY, arp_sndha := 0x99, arp_sndpa := 100, arp_tarha := 0x11, arp_tarpa := 1 },
      .packet { arp_op := ARP_OP_REQ, arp_sndha := 0x98, arp_sndpa := 200, arp_tarha := 0, arp_tarpa := 1 },
      .resolve 16 100]

/-- The first entry of the cache. -/
def first : Fin ARP_SIZ := ⟨0, Nat.succ_pos 15⟩

/-- **A call frees an entry that another call waits for**: process 0 finds its
address in the entry, which is now pending for process 16. -/
theorem arp_cache_not_safe : ¬ ∀ tr s, machine.Run (fun _ _ => True) tr s →
    Unique s ∧ ∀ a s' es, s.step a = some (s', es) → CacheStep s a s' := by
  intro hall
  have hrun : (machine.exec (fun _ _ => True) boot [] reserved).any fun r =>
      decide ((∃ c ∈ r.1.calls 16, c.slot = first) ∧ (r.1.arpcache first).arstate = .PENDING ∧
        (r.1.arpcache first).arpid = 16) &&
      (r.1.step (.finish 0)).any fun r' => decide ((r'.1.arpcache first).arstate = .FREE) := by
    decide +kernel
  obtain ⟨⟨s, tr⟩, hst, hs⟩ := (Option.any_eq_true _ _).mp hrun
  obtain ⟨hwaits, hfree⟩ := (Bool.and_eq_true _ _).mp hs
  obtain ⟨⟨s', es⟩, hst', hfree'⟩ := (Option.any_eq_true _ _).mp hfree
  have hstep := (hall tr s (Machine.exec_run (.start boot_started) hst)).2 _ _ _ hst'
  have hawaits := of_decide_eq_true hwaits
  have hst0 : (s'.arpcache first).arstate = .FREE := of_decide_eq_true hfree'
  rcases hstep.awaited 16 first hawaits with hsame | hself | ⟨pkt, hpkt, -⟩
  · rw [hsame, hawaits.2.1] at hst0
    cases hst0
  · cases hself
  · cases hpkt

end Arp

end Xinu.Net
