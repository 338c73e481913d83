import XinuCMips.Net.Udp

/-!
# The slots of the UDP table

`udp_register`, `udp_release` and `udp_in` look at the state of a slot before they use it;
`udp_recv` and `udp_recvaddr` compare the addresses only, which a free slot still has.
They wait on a slot that has been released, and make it a used one again.

* `Endpoints.recv_calm`, `Endpoints.recv_free` — a receiver at a slot that is in use, and
  at one that is free;
* `udp_valid_iff` — the steps that respect the table.
-/

namespace Xinu.Net

namespace Endpoints

variable {n : Nat} {κ : Type} {P : Proto κ} {s s' s'' : Endpoints n κ} {i : Fin n} {pid : Pid}
  {args : κ} {es : List (Event n)}

/-- Free slots stay free, and no other process waits than before. -/
structure Calm (s s' : Endpoints n κ) : Prop where
  free : ∀ i, (s.tab i).state = .FREE → (s'.tab i).state = .FREE
  waiting : ∀ pid w, s'.waiting pid = some w → s.waiting pid = some w

theorem Calm.refl (s : Endpoints n κ) : Calm s s := ⟨fun _ h => h, fun _ _ h => h⟩

theorem Calm.trans (h : Calm s s') (h' : Calm s' s'') : Calm s s'' :=
  ⟨fun i hi => h'.free i (h.free i hi), fun pid w hw => h.waiting pid w (h'.waiting pid w hw)⟩

theorem setEp_state (i j : Fin n) (f : Endpoint → Endpoint) (s : Endpoints n κ) :
    ((s.setEp i f).tab j).state = if j = i then (f (s.tab i)).state else (s.tab j).state := by
  by_cases hj : j = i
  · subst hj
    rw [if_pos rfl, setEp_tab_self]
  · rw [if_neg hj, setEp_tab_of_ne hj]

/-- A slot in use, or one that keeps its state, is changed. -/
theorem setEp_calm (i : Fin n) (f : Endpoint → Endpoint)
    (h : (s.tab i).state = .FREE → (f (s.tab i)).state = .FREE) : Calm s (s.setEp i f) := by
  refine ⟨fun j hj => ?_, fun _ _ hw => hw⟩
  rw [setEp_state]
  by_cases hji : j = i
  · subst hji
    rw [if_pos rfl]
    exact h hj
  · rwa [if_neg hji]

theorem notify_calm (i : Fin n) (s : Endpoints n κ) : Calm s (s.notify i) := by
  unfold notify
  by_cases hr : (s.tab i).state = .RECV
  · rw [if_pos hr]
    have hused : Calm s (s.setEp i fun e => { e with state := .USED }) :=
      setEp_calm i _ fun hf => absurd (hr.symm.trans hf) (by decide)
    exact ⟨hused.free, hused.waiting⟩
  · rw [if_neg hr]
    exact Calm.refl s

theorem deliver_calm (P : Proto κ) (i : Fin n) (s : Endpoints n κ) : Calm s (s.deliver P i).1 := by
  have hput : Calm s (s.setEp i (Endpoint.enqueue P.qsiz s.currpkt)) := setEp_calm i _ id
  unfold deliver
  dsimp only
  cases (s.setEp i (Endpoint.enqueue P.qsiz s.currpkt)).getbuf with
  | none => exact ⟨hput.free, hput.waiting⟩
  | some base =>
    dsimp only
    refine Calm.trans ?_ (notify_calm i _)
    exact ⟨hput.free, hput.waiting⟩

theorem delivered_calm (h : s.delivered = some (s', es)) : Calm s s' := by
  unfold delivered at h
  split at h
  · obtain ⟨rfl, -⟩ := Prod.mk.inj (Option.some.inj h)
    refine Calm.trans ?_ (notify_calm _ _)
    exact ⟨fun _ hi => hi, fun _ _ hw => hw⟩
  · cases h

theorem unqueue_calm (slots : Nat) (i : Fin n) (s : Endpoints n κ) : Calm s (s.unqueue slots i) := by
  have htaken : Calm s (s.setEp i (Endpoint.dequeue slots)) := setEp_calm i _ id
  exact ⟨htaken.free, htaken.waiting⟩

theorem drain_calm (slots : Nat) (i : Fin n) : ∀ (k : Nat) (s : Endpoints n κ),
    Calm s (s.drain slots i k).1
  | 0, s => Calm.refl s
  | k + 1, s => (unqueue_calm slots i s).trans (drain_calm slots i k _)

theorem release_calm (P : Proto κ) (i : Fin n) (s : Endpoints n κ) : Calm s (s.release P i).1 := by
  have hdrain := drain_calm P.slots i (s.tab i).count.toNat s
  exact hdrain.trans (setEp_calm i (fun e => { e with state := .FREE }) fun _ => rfl)

theorem borrow_calm (h : s.borrow = some (s', es)) : Calm s s' := by
  unfold borrow at h
  split at h
  · cases h
  · obtain ⟨rfl, -⟩ := Prod.mk.inj (Option.some.inj h)
    exact ⟨fun _ hi => hi, fun _ _ hw => hw⟩

theorem giveBack_calm {b : Buf} (h : s.giveBack b = some (s', es)) : Calm s s' := by
  unfold giveBack at h
  split at h
  · obtain ⟨rfl, -⟩ := Prod.mk.inj (Option.some.inj h)
    exact ⟨fun _ hi => hi, fun _ _ hw => hw⟩
  · cases h

/-! ## The receivers -/

/-- Behind `recvtime` the slot is made a used one, whatever has come. -/
theorem recvRest_state (P : Proto κ) (pid : Pid) (i : Fin n) (args : κ) (msg : Int)
    (s : Endpoints n κ) : ((s.recvRest P pid i args msg).1.tab i).state = .USED := by
  have hused : ((s.setEp i fun e => { e with state := .USED }).tab i).state = .USED := by
    rw [setEp_tab_self]
  unfold recvRest
  dsimp only
  by_cases htime : msg = TIMEOUT
  · rw [if_pos htime]
    exact hused
  · rw [if_neg htime]
    by_cases hok : msg ≠ OK
    · rw [if_pos hok]
      exact hused
    · rw [if_neg hok]
      change (((s.setEp i fun e => { e with state := .USED }).setEp i
        (Endpoint.dequeue P.slots)).tab i).state = .USED
      rw [setEp_tab_self]
      exact hused

theorem recvRest_calm (P : Proto κ) (pid : Pid) (args : κ) (msg : Int)
    (h : (s.tab i).state ≠ .FREE) : Calm s (s.recvRest P pid i args msg).1 := by
  have hused : Calm s (s.setEp i fun e => { e with state := .USED }) :=
    setEp_calm i _ fun hf => absurd hf h
  unfold recvRest
  dsimp only
  by_cases htime : msg = TIMEOUT
  · rw [if_pos htime]
    exact hused
  · rw [if_neg htime]
    by_cases hok : msg ≠ OK
    · rw [if_pos hok]
      exact hused
    · rw [if_neg hok]
      exact hused.trans (unqueue_calm P.slots i _)

/-- **A receiver at a slot in use** leaves the free slots alone, and waits on this slot or
not at all. -/
theorem recv_calm (P : Proto κ) (pid : Pid) (args : κ) (timeout : Int)
    (h : (s.tab i).state ≠ .FREE) :
    (∀ j, (s.tab j).state = .FREE → ((s.recv P pid i args timeout).1.tab j).state = .FREE) ∧
      ∀ pid' w, (s.recv P pid i args timeout).1.waiting pid' = some w →
        s.waiting pid' = some w ∨ w.slot = i := by
  have hcalm {r : Endpoints n κ} (hr : Calm s r) :
      (∀ j, (s.tab j).state = .FREE → (r.tab j).state = .FREE) ∧
        ∀ pid' w, r.waiting pid' = some w → s.waiting pid' = some w ∨ w.slot = i :=
    ⟨hr.free, fun pid' w hw => .inl (hr.waiting pid' w hw)⟩
  have hrecv : Calm s (s.setEp i fun e => { e with state := .RECV, pid := some pid }) :=
    setEp_calm i _ fun hf => absurd hf h
  unfold recv
  by_cases hc : (s.tab i).count = 0
  · rw [if_pos hc]
    dsimp only
    by_cases htime : timeout < 0
    · rw [if_pos htime]
      refine hcalm (Calm.trans ?_ (recvRest_calm P pid args SYSERR ?_))
      · exact ⟨hrecv.free, hrecv.waiting⟩
      · dsimp only
        rw [setEp_tab_self]
        exact Epstate.noConfusion
    · rw [if_neg htime]
      refine ⟨hrecv.free, fun pid' w hw => ?_⟩
      dsimp only at hw
      by_cases hp : pid' = pid
      · subst hp
        rw [Function.update_self] at hw
        exact .inr (by rw [← Option.some.inj hw])
      · rw [Function.update_of_ne hp] at hw
        exact .inl hw
  · rw [if_neg hc]
    exact hcalm (unqueue_calm P.slots i s)

/-- **A receiver at a free slot without packets** makes it a used one, or waits on it. -/
theorem recv_free (P : Proto κ) (pid : Pid) (args : κ) (timeout : Int)
    (hc : (s.tab i).count = 0) : ((s.recv P pid i args timeout).1.tab i).state ≠ .FREE := by
  unfold recv
  rw [if_pos hc]
  dsimp only
  by_cases htime : timeout < 0
  · rw [if_pos htime, recvRest_state]
    decide
  · rw [if_neg htime]
    dsimp only
    rw [setEp_tab_self]
    exact Epstate.noConfusion

/-- With a count that is not zero, the receiver takes a packet. -/
theorem recv_take (P : Proto κ) (pid : Pid) (args : κ) (timeout : Int)
    (hc : (s.tab i).count ≠ 0) : s.recv P pid i args timeout = s.take P pid i args := if_neg hc

end Endpoints

-- ---------------------------------------------------------------------------
-- What the table promises
-- ---------------------------------------------------------------------------

namespace Udp

/-- The arguments of a receiving call name the addresses of this slot. -/
def Names (s : Udp) (i : Fin UDP_SLOTS) : UdpAct → Prop
  | .recv _ remip remport locport _ _ => s.addr i = ⟨remip, remport, locport⟩
  | .recvaddr _ locport _ _ => (s.addr i).udremip = 0 ∧ locport = (s.addr i).udlocport
  | _ => False

/-- The process that makes a receiving call. -/
def caller : UdpAct → Option Pid
  | .recv pid .. => some pid
  | .recvaddr pid .. => some pid
  | _ => none

/-- The slot that a receiving call uses. -/
def used (s : Udp) : UdpAct → Option (Fin UDP_SLOTS)
  | .recv _ remip remport locport _ _ => s.recvEntry remip remport locport
  | .recvaddr _ locport _ _ => s.recvaddrEntry locport
  | _ => none

def registers : UdpAct → Prop
  | .register .. => True
  | _ => False

def Free (s : Udp) (i : Fin UDP_SLOTS) : Prop := (s.tab i).state = .FREE

instance (s : Udp) (i : Fin UDP_SLOTS) : Decidable (s.Free i) := inferInstanceAs (Decidable (_ = _))

/-- A step that respects the table: a receiving call that names no registered endpoint
fails and changes nothing, a slot that is free stays free unless it is registered, and
nobody waits on it. -/
structure Valid (t : Machine.Transition Udp UdpAct (Event UDP_SLOTS)) : Prop where
  refused : ∀ pid ∈ caller t.act, (∀ i, t.before.Names i t.act → t.before.Free i) →
    t.events = [.failed pid SYSERR] ∧ t.after = t.before
  free : ¬registers t.act → ∀ i, t.before.Free i → t.after.Free i
  blocked : ∀ pid w, t.before.waiting pid = none → t.after.waiting pid = some w →
    ¬t.before.Free w.slot

/-- The slot that the step uses is not free. A receiver may also take a packet that a free
slot counts, when another endpoint is registered with its arguments. -/
def Careful (s : Udp) (a : UdpAct) : Prop :=
  (∀ i ∈ s.used a, s.Free i → (s.tab i).count ≠ 0 ∧ ∃ j, s.Names j a ∧ ¬s.Free j) ∧
    match a with
    | .woken pid => ∀ w ∈ s.waiting pid, ¬s.Free w.slot
    | _ => True

open Endpoints

variable {s s' : Udp} {es : List (Event UDP_SLOTS)} {a : UdpAct} {pid : Pid} {i : Fin UDP_SLOTS}

/-- A step that is calm on the queues, and no receiving call. -/
theorem valid_calm (h : Calm s.toEndpoints s'.toEndpoints) (hc : caller a = none) :
    Valid ⟨s, a, s', es⟩ := by
  refine ⟨fun pid hpid => ?_, fun _ i hi => h.free i hi, fun pid w hn hw => ?_⟩
  · rw [hc] at hpid
    cases hpid
  · cases hn.symm.trans (h.waiting pid w hw)

theorem careful_other (hu : s.used a = none) (hw : ∀ pid, a ≠ .woken pid) : Careful s a := by
  refine ⟨fun i hi => ?_, ?_⟩
  · rw [hu] at hi
    cases hi
  · cases a with
    | woken pid => exact absurd rfl (hw pid)
    | _ => trivial

theorem udp_in_calm (s : Udp) : Calm s.toEndpoints s.udp_in.1.toEndpoints := by
  unfold udp_in
  dsimp only
  split
  · exact Calm.refl _
  · exact deliver_calm udp _ _

theorem udp_release_calm (s : Udp) (remip : UInt32) (remport locport : UInt16) :
    Calm s.toEndpoints (s.udp_release remip remport locport).1.toEndpoints := by
  unfold udp_release
  split
  · exact Calm.refl _
  · exact release_calm udp _ _

theorem udp_register_waiting (s : Udp) (remip : UInt32) (remport locport : UInt16) :
    (s.udp_register remip remport locport).2.waiting = s.waiting := by
  unfold udp_register
  split
  · rfl
  · split
    · rfl
    · rfl

/-! ## The receiving calls -/

/-- What a receiving call does, with the slot that it uses. -/
def receive (pid : Pid) (args : UdpArgs) (timeout : Int) (found : Option (Fin UDP_SLOTS)) (s : Udp) :
    Udp × List (Event UDP_SLOTS) :=
  match found with
  | none => (s, [.failed pid SYSERR])
  | some i => s.after (s.recv udp pid i args timeout)

/-- **A receiving call respects the table** exactly when it uses a slot that is not free. -/
theorem receive_valid_iff (args : UdpArgs) (timeout : Int)
    (hcaller : caller a = some pid) (hnames : ∀ i ∈ s.used a, s.Names i a)
    (hmissed : s.used a = none → ∀ i, ¬s.Names i a) (hw : ∀ pid, a ≠ .woken pid)
    (hreg : ¬registers a) :
    Valid ⟨s, a, (s.receive pid args timeout (s.used a)).1, (s.receive pid args timeout (s.used a)).2⟩ ↔
      Careful s a := by
  cases hu : s.used a with
  | none =>
    refine iff_of_true ⟨fun pid' hpid => ?_, fun _ i hi => hi, fun _ _ hn hw => ?_⟩ (careful_other hu hw)
    · obtain rfl : pid = pid' := Option.some.inj (hcaller.symm.trans hpid)
      exact fun _ => ⟨rfl, rfl⟩
    · cases hn.symm.trans hw
  | some i =>
    have hcareful : Careful s a ↔
        (s.Free i → (s.tab i).count ≠ 0 ∧ ∃ j, s.Names j a ∧ ¬s.Free j) := by
      refine ⟨fun h => h.1 i hu, fun h => ⟨fun j hj => ?_, ?_⟩⟩
      · rwa [← Option.some.inj (hu.symm.trans hj)]
      · cases a with
        | woken pid => exact absurd rfl (hw pid)
        | _ => trivial
    rw [hcareful]
    have hi : s.Names i a := hnames i hu
    by_cases hfree : s.Free i
    · -- the slot is free: only a packet that it counts can be taken
      rw [forall_prop_of_true hfree]
      constructor
      · intro h
        have hcount : (s.tab i).count ≠ 0 := fun hc => recv_free udp pid args timeout hc (h.free hreg i hfree)
        refine ⟨hcount, ?_⟩
        by_contra hnone
        have hevents := (h.refused pid hcaller fun j hj => by
          by_contra hjf
          exact hnone ⟨j, hj, hjf⟩).1
        change (s.recv udp pid i args timeout).2 = _ at hevents
        rw [recv_take udp pid args timeout hcount] at hevents
        cases (List.cons.inj hevents).1
      · rintro ⟨hcount, j, hj, hjf⟩
        have hcalm := unqueue_calm udp.slots i s.toEndpoints
        refine ⟨fun pid' hpid hall => absurd (hall j hj) hjf, fun _ k hk => ?_, fun pid' w hn hw => ?_⟩
        · change ((s.recv udp pid i args timeout).1.tab k).state = .FREE
          rw [recv_take udp pid args timeout hcount]
          exact hcalm.free k hk
        · change (s.recv udp pid i args timeout).1.waiting pid' = some w at hw
          rw [recv_take udp pid args timeout hcount] at hw
          cases hn.symm.trans (hcalm.waiting pid' w hw)
    · obtain ⟨hkeep, hwait⟩ := recv_calm udp pid args timeout hfree
      refine iff_of_true ⟨fun pid' hpid hall => absurd (hall i hi) hfree, fun _ k hk => hkeep k hk, ?_⟩
        fun hf => absurd hf hfree
      intro pid' w hn hw
      rcases hwait pid' w hw with hold | rfl
      · cases hn.symm.trans hold
      · exact hfree

theorem recv_valid_iff (pid : Pid) (remip : UInt32) (remport locport : UInt16) (len : Int)
    (timeout : UInt32) :
    Valid ⟨s, .recv pid remip remport locport len timeout,
        (s.udp_recv pid remip remport locport len timeout).1,
        (s.udp_recv pid remip remport locport len timeout).2⟩ ↔
      Careful s (.recv pid remip remport locport len timeout) := by
  refine receive_valid_iff ⟨len, false⟩ (int32 timeout.toNat) (rfl : some pid = _) (fun i hi => ?_)
    (fun hnone i hi => ?_) nofun not_false
  · have hfound := List.find?_some (p := fun i => s.addr i = ⟨remip, remport, locport⟩) hi
    rwa [decide_eq_true_eq] at hfound
  · exact List.find?_eq_none.mp hnone i (List.mem_finRange i) (decide_eq_true hi)

theorem recvaddr_valid_iff (pid : Pid) (locport : UInt16) (len : Int) (timeout : UInt32) :
    Valid ⟨s, .recvaddr pid locport len timeout, (s.udp_recvaddr pid locport len timeout).1,
        (s.udp_recvaddr pid locport len timeout).2⟩ ↔
      Careful s (.recvaddr pid locport len timeout) := by
  refine receive_valid_iff ⟨len, true⟩ (int32 timeout.toNat) (rfl : some pid = _) (fun i hi => ?_)
    (fun hnone i hi => ?_) nofun not_false
  · have hfound := List.find?_some
      (p := fun i => (s.addr i).udremip = 0 ∧ locport = (s.addr i).udlocport) hi
    rwa [decide_eq_true_eq] at hfound
  · exact List.find?_eq_none.mp hnone i (List.mem_finRange i) (decide_eq_true hi)

/-- **A receiver that goes on** makes its slot a used one. -/
theorem woken_valid_iff (hst : s.step (.woken pid) = some (s', es)) :
    Valid ⟨s, .woken pid, s', es⟩ ↔ Careful s (.woken pid) := by
  obtain ⟨⟨t, es'⟩, ht, hs'⟩ := Option.map_eq_some_iff.mp hst
  obtain ⟨rfl, rfl⟩ := Prod.mk.inj hs'
  unfold woken at ht
  cases hwait : s.waiting pid with
  | none =>
    rw [hwait] at ht
    cases ht
  | some w =>
    rw [hwait] at ht
    have hcareful : Careful s (.woken pid) ↔ ¬s.Free w.slot :=
      ⟨fun h => h.2 w hwait, fun h => ⟨nofun, fun w' hw' =>
        by rwa [← Option.some.inj (hwait.symm.trans hw')]⟩⟩
    rw [hcareful]
    obtain ⟨c, hc⟩ : ∃ c : Endpoints UDP_SLOTS UdpArgs,
      c = { s.toEndpoints with toBase := s.recvclr pid, waiting := Function.update s.waiting pid none } :=
      ⟨_, rfl⟩
    have hafter : t = (c.recvRest udp pid w.slot w.args (s.received pid)).1 := by
      rw [hc]
      exact (Prod.mk.inj (Option.some.inj ht)).1.symm
    have hcleared : Calm s.toEndpoints c := by
      refine ⟨fun i hi => by rwa [hc], fun pid' w' hw' => ?_⟩
      rw [hc] at hw'
      dsimp only at hw'
      by_cases hp : pid' = pid
      · subst hp
        rw [Function.update_self] at hw'
        cases hw'
      · rwa [Function.update_of_ne hp] at hw'
    constructor
    · intro h hfree
      have hstill : (t.tab w.slot).state = .FREE := h.free not_false w.slot hfree
      rw [hafter, recvRest_state] at hstill
      cases hstill
    · intro hused
      have hslot : (c.tab w.slot).state ≠ .FREE := by rwa [hc]
      refine valid_calm ?_ rfl
      change Calm s.toEndpoints t
      rw [hafter]
      exact hcleared.trans (recvRest_calm udp pid w.args _ hslot)

/-- **A step respects the table** exactly when it is careful. -/
theorem step_valid_iff (hst : s.step a = some (s', es)) : Valid ⟨s, a, s', es⟩ ↔ Careful s a := by
  -- a step of the queues that is calm
  have hmap {r : Option (Endpoints UDP_SLOTS UdpArgs × List (Event UDP_SLOTS))}
      (hc : caller a = none) (hu : s.used a = none) (hw : ∀ pid, a ≠ .woken pid)
      (hr : ∀ t es, r = some (t, es) → Calm s.toEndpoints t)
      (hm : r.map s.after = some (s', es)) : Valid ⟨s, a, s', es⟩ ↔ Careful s a := by
    obtain ⟨⟨t, es'⟩, ht, hs'⟩ := Option.map_eq_some_iff.mp hm
    obtain ⟨rfl, rfl⟩ := Prod.mk.inj hs'
    exact iff_of_true (valid_calm (hr t es' ht) hc) (careful_other hu hw)
  cases a with
  | arrive pkt =>
    change (if s.netin = none then _ else _) = _ at hst
    split at hst
    · have hcalm := udp_in_calm { s with toBase := s.readPacket pkt }
      rw [Option.some.inj hst] at hcalm
      refine iff_of_true (valid_calm ?_ rfl) (careful_other rfl nofun)
      exact ⟨hcalm.free, hcalm.waiting⟩
    · cases hst
  | netin => exact hmap rfl rfl nofun (fun t es ht => delivered_calm ht) hst
  | register remip remport locport =>
    obtain ⟨rfl, rfl⟩ := Prod.mk.inj (Option.some.inj hst)
    refine iff_of_true ⟨nofun, fun h => absurd trivial h, fun pid w hn hw => ?_⟩
      (careful_other rfl nofun)
    dsimp only at hw
    rw [udp_register_waiting] at hw
    cases hn.symm.trans hw
  | recv pid remip remport locport len timeout =>
    change (if (s.waiting pid).isNone then _ else _) = _ at hst
    split at hst
    · have hr := recv_valid_iff (s := s) pid remip remport locport len timeout
      rw [Option.some.inj hst] at hr
      exact hr
    · cases hst
  | recvaddr pid locport len timeout =>
    change (if (s.waiting pid).isNone then _ else _) = _ at hst
    split at hst
    · have hr := recvaddr_valid_iff (s := s) pid locport len timeout
      rw [Option.some.inj hst] at hr
      exact hr
    · cases hst
  | woken pid => exact woken_valid_iff hst
  | release remip remport locport =>
    have hcalm := udp_release_calm s remip remport locport
    rw [Option.some.inj hst] at hcalm
    exact iff_of_true (valid_calm hcalm rfl) (careful_other rfl nofun)
  | tell pid msg =>
    obtain ⟨rfl, rfl⟩ := Prod.mk.inj (Option.some.inj hst)
    refine iff_of_true (valid_calm ?_ rfl) (careful_other rfl nofun)
    exact ⟨fun _ hi => hi, fun _ _ hw => hw⟩
  | borrow => exact hmap rfl rfl nofun (fun t es ht => borrow_calm ht) hst
  | giveBack b => exact hmap rfl rfl nofun (fun t es ht => giveBack_calm ht) hst

/-! ## Every run -/

/-- The endpoints with whatever table they have. -/
def anyTable : Machine Udp UdpAct (Event UDP_SLOTS) := ⟨fun _ => True, step⟩

/-- **For every table and every order of the calls and the packets**, the steps of a run
respect the table exactly when all of them are careful. -/
theorem udp_valid_iff (s : Udp) (steps : List (Machine.Transition Udp UdpAct (Event UDP_SLOTS)))
    (r : anyTable.transitions.Run (fun _ _ => True) steps s) :
    (∀ t ∈ steps, Valid t) ↔ ∀ t ∈ steps, Careful t.before t.act :=
  r.transitions_iff fun _ _ _ _ hst => step_valid_iff hst

/-- Port 7 is registered, and released again. -/
def registered : Udp := (boot.udp_register 0 0 7).2

def released : Udp := (registered.udp_release 0 0 7).1

def twoSteps : List (Machine.Transition Udp UdpAct (Event UDP_SLOTS)) :=
  [⟨registered, .release 0 0 7, released, (registered.udp_release 0 0 7).2⟩,
    ⟨boot, .register 0 0 7, registered, []⟩]

theorem released_run : anyTable.transitions.Run (fun _ _ => True) twoSteps released := by
  have hboot : anyTable.transitions.Run (fun _ _ => True) [] boot := .start trivial
  exact (hboot.step (a := .register 0 0 7) trivial rfl).step (a := .release 0 0 7) trivial rfl

theorem udp_valid_iff_released :
    (∀ t ∈ twoSteps, Valid t) ↔ ∀ t ∈ twoSteps, Careful t.before t.act :=
  udp_valid_iff released twoSteps released_run

/-- A process that receives from the released port waits on its free slot. -/
theorem udp_not_valid : ¬∀ (s : Udp)
    (steps : List (Machine.Transition Udp UdpAct (Event UDP_SLOTS))),
    anyTable.transitions.Run (fun _ _ => True) steps s → ∀ t ∈ steps, Valid t := by
  intro hall
  have hrun := released_run.step trivial (a := UdpAct.recv 5 0 0 7 100 1000) rfl
  have hvalid := hall _ _ hrun _ List.mem_cons_self
  have hstill := hvalid.free not_false ⟨0, by decide⟩ (by decide +kernel)
  revert hstill
  decide +kernel

end Udp

end Xinu.Net
