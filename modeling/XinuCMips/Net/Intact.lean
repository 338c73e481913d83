import Mathlib.Tactic.Abel
import XinuCMips.Net.Endpoints

/-!
# Endpoints that keep their packets

What the steps of an endpoint preserve, and when. The receivers wrap at
`slots`, which is less than the size `qsiz` of the ring, so that a packet may
be taken from any slot below the last of these; and a receiver that is told of
a packet has to find one.

* `Intact.deliver`, `Intact.recv`, `Intact.woken`, `Intact.release` — one lemma
  for each step.
-/

namespace Xinu.Net

variable {n : Nat} {κ : Type}

/-! ## The queues of a history -/

abbrev Queues (n : Nat) := Fin n → List (Buf × Netpacket)

/-- A packet leaves the front of its queue. -/
def Queues.leave (q : Queues n) (i : Fin n) (b : Buf) (p : Netpacket) : Option (Queues n) :=
  if (q i).head? = some (b, p) then some (Function.update q i (q i).tail) else none

/-- **Packets leave each queue in the order in which they were accepted, and
each of them once.** -/
def fifo (n : Nat) : Monitor (Event n) (Queues n) where
  init := fun _ => []
  next q e :=
    match e with
    | .accepted i b p => some (Function.update q i (q i ++ [(b, p)]))
    | .returned _ i b p _ => q.leave i b p
    | .flushed i b p => q.leave i b p
    | .failed _ _ => some q

/-- The buffers of the queued packets. -/
def Queues.buffers (q : Queues n) : Multiset Buf := ∑ i, ↑((q i).map Prod.fst)

theorem Queues.buffers_update (q : Queues n) (i : Fin n) (l : List (Buf × Netpacket)) :
    Queues.buffers (Function.update q i l) + ↑((q i).map Prod.fst) =
      Queues.buffers q + ↑(l.map Prod.fst) := by
  have hsum (f : Queues n) : Queues.buffers f =
      ↑((f i).map Prod.fst) + ∑ j ∈ Finset.univ \ {i}, (↑((f j).map Prod.fst) : Multiset Buf) := by
    unfold Queues.buffers
    rw [← Finset.sum_sdiff (Finset.subset_univ {i}), Finset.sum_singleton, add_comm]
  have hrest : ∑ j ∈ Finset.univ \ {i}, (↑((Function.update q i l j).map Prod.fst) : Multiset Buf) =
      ∑ j ∈ Finset.univ \ {i}, ↑((q j).map Prod.fst) := by
    refine Finset.sum_congr rfl ?_
    intro j hj
    have hji : j ≠ i := by simpa using hj
    rw [Function.update_of_ne hji]
  rw [hsum, hsum q, hrest, Function.update_self]
  abel

theorem Queues.buffers_push (q : Queues n) (i : Fin n) (x : Buf × Netpacket) :
    Queues.buffers (Function.update q i (q i ++ [x])) = {x.1} + Queues.buffers q := by
  have h := q.buffers_update i (q i ++ [x])
  rw [List.map_append, ← Multiset.coe_add, add_comm (↑((q i).map Prod.fst) : Multiset Buf),
    ← add_assoc] at h
  rw [add_right_cancel h, add_comm]
  rfl

theorem Queues.buffers_pop {q : Queues n} {i : Fin n} {x : Buf × Netpacket}
    {l : List (Buf × Netpacket)} (hq : q i = x :: l) :
    Queues.buffers q = {x.1} + Queues.buffers (Function.update q i l) := by
  have h := q.buffers_update i l
  rw [hq, List.map_cons, ← Multiset.cons_coe, ← Multiset.singleton_add, ← add_assoc] at h
  rw [← add_right_cancel h, add_comm]

/-! ## One entry -/

/-- The ring of an entry holds the buffers `q`. -/
structure Endpoint.Keeps (qsiz : Nat) (q : List Buf) (e : Endpoint) : Prop where
  head_lt : e.head < qsiz
  tail_eq : e.tail = (e.head + q.length) % qsiz
  count_eq : e.count = q.length
  length_le : q.length ≤ qsiz
  holds : Ring.Holds qsiz e.queue e.head q

namespace Endpoint

variable {qsiz slots : Nat} {q : List Buf} {b : Buf} {e e' : Endpoint}

theorem keeps_nil (h : 0 < qsiz) : Keeps qsiz [] {} :=
  ⟨h, (Nat.zero_mod qsiz).symm, rfl, Nat.zero_le _, Ring.holds_nil⟩

/-- Only the ring matters. -/
theorem Keeps.congr (h : Keeps qsiz q e) (hhead : e'.head = e.head) (htail : e'.tail = e.tail)
    (hcount : e'.count = e.count) (hqueue : e'.queue = e.queue) : Keeps qsiz q e' := by
  refine ⟨?_, ?_, ?_, h.length_le, ?_⟩
  · rw [hhead]
    exact h.head_lt
  · rw [htail, hhead]
    exact h.tail_eq
  · rw [hcount]
    exact h.count_eq
  · rw [hqueue, hhead]
    exact h.holds

theorem Keeps.enqueue (h : Keeps qsiz q e) (hc : e.count < qsiz) (b : Buf) :
    Keeps qsiz (q ++ [b]) (e.enqueue qsiz b) := by
  have hlen : q.length < qsiz := by
    have := h.count_eq
    omega
  have hpos : 0 < qsiz := by omega
  refine ⟨h.head_lt, ?_, ?_, ?_, ?_⟩
  · change Ring.next qsiz e.tail = _
    rw [h.tail_eq, Ring.tail_enqueue hpos]
    rfl
  · change e.count + 1 = _
    rw [h.count_eq, List.length_append]
    rfl
  · rw [List.length_append]
    exact hlen
  · change Ring.Holds qsiz (Function.update e.queue e.tail b) e.head _
    rw [h.tail_eq]
    exact h.holds.enqueue hlen b

/-- The receivers' wrap does not show below its end. -/
theorem Keeps.dequeue (h : Keeps qsiz (b :: q) e) (hs : slots ≤ qsiz) (hh : e.head + 1 < slots) :
    e.front = b ∧ Keeps qsiz q (e.dequeue slots) := by
  have hnext : Ring.next slots e.head = Ring.next qsiz e.head := by
    rw [Ring.next_of_lt hh, Ring.next_of_lt (by omega)]
  have hpos : 0 < qsiz := by omega
  refine ⟨h.holds.front h.head_lt, ?_, ?_, ?_, ?_, ?_⟩
  · change Ring.next slots e.head < qsiz
    rw [hnext]
    exact Ring.next_lt hpos
  · change e.tail = (Ring.next slots e.head + q.length) % qsiz
    rw [hnext, Ring.tail_dequeue (a := b) h.head_lt]
    exact h.tail_eq
  · change e.count - 1 = _
    rw [h.count_eq, List.length_cons]
    omega
  · exact (Nat.le_succ _).trans h.length_le
  · change Ring.Holds qsiz e.queue (Ring.next slots e.head) q
    rw [hnext]
    exact h.holds.dequeue h.head_lt

end Endpoint

/-! ## All entries -/

namespace Endpoints

/-- The buffer that `netin` reads into, except while it waits for one. -/
def current (s : Endpoints n κ) : Multiset Buf :=
  match s.netin with
  | none => {s.currpkt}
  | some _ => 0

/-- **Every ring holds its queue, with the packets unchanged, and each buffer is
either free, or holds a queued packet, or is in use by one function.** So no
buffer is freed twice, and none is lost. -/
structure Intact (P : Proto κ) (pool : Multiset Buf) (q : Queues n) (s : Endpoints n κ) :
    Prop where
  ring : ∀ i, (s.tab i).Keeps P.qsiz ((q i).map Prod.fst)
  packets : ∀ i, ∀ x ∈ q i, s.packet x.1 = x.2
  buffers : ↑s.netbufpool + s.current + ↑s.others + q.buffers = pool
  unused : ∀ i, (s.tab i).state = .FREE → q i = []

/-- A monitored step leads to an intact state. -/
def Kept (P : Proto κ) (pool : Multiset Buf) (q : Queues n)
    (r : Endpoints n κ × List (Event n)) : Prop :=
  ∃ q', Machine.feed (fifo n) q r.2 = some q' ∧ Intact P pool q' r.1

/-- A packet can be taken: there is one, and not in the last slot that the
receivers know. -/
structure Takeable (P : Proto κ) (e : Endpoint) : Prop where
  count : 0 < e.count
  head : e.head + 1 < P.slots

variable {P : Proto κ} {pool : Multiset Buf} {q : Queues n} {s s' : Endpoints n κ} {i : Fin n}
  {pid : Pid} {es : List (Event n)}

theorem current_of_none (h : s.netin = none) : s.current = {s.currpkt} := by
  unfold current
  rw [h]

theorem current_of_some (h : s.netin = some i) : s.current = 0 := by
  unfold current
  rw [h]

theorem Intact.kept (h : Intact P pool q s) : Kept P pool q (s, []) := ⟨q, rfl, h⟩

/-- A call that fails shows nothing that the monitor looks at. -/
theorem Intact.failed (h : Intact P pool q s) (pid : Pid) (v : Int) :
    Kept P pool q (s, [.failed pid v]) := ⟨q, rfl, h⟩

/-- A step that leaves the rings, the packets and the buffers alone. -/
theorem Intact.congr (h : Intact P pool q s)
    (hring : ∀ j, (s'.tab j).Keeps P.qsiz ((q j).map Prod.fst))
    (hstate : ∀ j, (s'.tab j).state = .FREE → q j = []) (hpool : s'.netbufpool = s.netbufpool)
    (hpacket : s'.packet = s.packet) (hcur : s'.current = s.current)
    (hothers : s'.others = s.others) : Intact P pool q s' := by
  refine ⟨hring, ?_, ?_, hstate⟩
  · rw [hpacket]
    exact h.packets
  · rw [hpool, hcur, hothers]
    exact h.buffers

theorem setEp_tab_self (i : Fin n) (f : Endpoint → Endpoint) (s : Endpoints n κ) :
    (s.setEp i f).tab i = f (s.tab i) := Function.update_self ..

theorem setEp_tab_of_ne {j : Fin n} (h : j ≠ i) (f : Endpoint → Endpoint) (s : Endpoints n κ) :
    (s.setEp i f).tab j = s.tab j := Function.update_of_ne h ..

/-- A change of one entry that keeps its queue. -/
theorem Intact.setEntry (h : Intact P pool q s) (i : Fin n) (f : Endpoint → Endpoint)
    (hring : (f (s.tab i)).Keeps P.qsiz ((q i).map Prod.fst))
    (hfree : (f (s.tab i)).state = .FREE → q i = []) : Intact P pool q (s.setEp i f) := by
  refine h.congr ?_ ?_ rfl rfl rfl rfl
  · intro j
    by_cases hj : j = i
    · subst hj
      rw [setEp_tab_self]
      exact hring
    · rw [setEp_tab_of_ne hj]
      exact h.ring j
  · intro j
    by_cases hj : j = i
    · subst hj
      rw [setEp_tab_self]
      exact hfree
    · rw [setEp_tab_of_ne hj]
      exact h.unused j

/-- An entry gets a new state, `FREE` only when its queue is empty. -/
theorem Intact.setState (h : Intact P pool q s) (i : Fin n) (f : Endpoint → Endpoint)
    (hhead : (f (s.tab i)).head = (s.tab i).head) (htail : (f (s.tab i)).tail = (s.tab i).tail)
    (hcount : (f (s.tab i)).count = (s.tab i).count)
    (hqueue : (f (s.tab i)).queue = (s.tab i).queue)
    (hfree : (f (s.tab i)).state = .FREE → q i = []) : Intact P pool q (s.setEp i f) :=
  h.setEntry i f ((h.ring i).congr hhead htail hcount hqueue) hfree

/-- Messages do not matter. -/
theorem Intact.setMail (h : Intact P pool q s) (m : Mail) :
    Intact P pool q { s with prmsg := m } :=
  h.congr h.ring h.unused rfl rfl rfl rfl

theorem Intact.setWaiting (h : Intact P pool q s) (w : Pid → Option (Wait n κ)) :
    Intact P pool q { s with waiting := w } :=
  h.congr h.ring h.unused rfl rfl rfl rfl

theorem Intact.send (h : Intact P pool q s) (pid : Option Pid) (msg : Int) :
    Intact P pool q { s with toBase := s.send pid msg } := by
  refine h.congr h.ring h.unused (Base.send_netbufpool ..) (Base.send_packet ..) ?_ rfl
  unfold current
  dsimp only
  rw [Base.send_currpkt]

/-- Waking a receiver moves no packet. -/
theorem Intact.notify (h : Intact P pool q s) (i : Fin n) : Intact P pool q (s.notify i) := by
  unfold Endpoints.notify
  by_cases hr : (s.tab i).state = .RECV
  · rw [if_pos hr]
    refine Intact.send (s := s.setEp i _) ?_ _ _
    exact h.setState i _ rfl rfl rfl rfl nofun
  · rw [if_neg hr]
    exact h

/-! ## Arrivals -/

/-- The packet that arrives overwrites no queued one: the buffer that `netin`
reads into is not queued. -/
theorem Intact.readPacket (h : Intact P pool q s) (hpool : pool.Nodup) (hn : s.netin = none)
    (p : Netpacket) : Intact P pool q { s with toBase := s.readPacket p } := by
  have hcur := current_of_none hn
  refine ⟨h.ring, ?_, h.buffers, h.unused⟩
  intro j x hx
  have hne : x.1 ≠ s.currpkt := by
    intro hxc
    have hb := h.buffers
    rw [hcur] at hb
    rw [← hb] at hpool
    have hmem : x.1 ∈ q.buffers := by
      refine Multiset.mem_sum.mpr ⟨j, Finset.mem_univ j, ?_⟩
      exact Multiset.mem_coe.mpr (List.mem_map_of_mem hx)
    have hdis := (Multiset.nodup_add.mp hpool).2.2
    refine Multiset.disjoint_left.mp hdis ?_ hmem
    simp [hxc]
  change Function.update s.packet s.currpkt p x.1 = x.2
  rw [Function.update_of_ne hne]
  exact h.packets j x hx

/-- **Storing a packet** in a queue that is not full. -/
theorem Intact.deliver (h : Intact P pool q s) (hn : s.netin = none)
    (hc : (s.tab i).count < P.qsiz) (hs : (s.tab i).state ≠ .FREE) :
    Kept P pool q (s.deliver P i) := by
  have hcur := current_of_none hn
  have hb : ↑s.netbufpool + ↑s.others + ({s.currpkt} + q.buffers) = pool := by
    rw [← h.buffers, hcur]
    abel
  obtain ⟨q', hq'⟩ : ∃ q' : Queues n, q' = Function.update q i
      (q i ++ [(s.currpkt, s.packet s.currpkt)]) := ⟨_, rfl⟩
  have hfeed : Machine.feed (fifo n) q [.accepted i s.currpkt (s.packet s.currpkt)] = some q' :=
    congrArg some hq'.symm
  have hring (j : Fin n) : ((s.setEp i (Endpoint.enqueue P.qsiz s.currpkt)).tab j).Keeps P.qsiz
      ((q' j).map Prod.fst) := by
    by_cases hj : j = i
    · subst hj
      rw [setEp_tab_self, hq', Function.update_self, List.map_append]
      exact (h.ring j).enqueue hc s.currpkt
    · rw [setEp_tab_of_ne hj, hq', Function.update_of_ne hj]
      exact h.ring j
  have hpackets (j : Fin n) : ∀ x ∈ q' j, s.packet x.1 = x.2 := by
    intro x hx
    by_cases hj : j = i
    · subst hj
      rw [hq', Function.update_self, List.mem_append, List.mem_singleton] at hx
      rcases hx with hx | rfl
      · exact h.packets j x hx
      · rfl
    · rw [hq', Function.update_of_ne hj] at hx
      exact h.packets j x hx
  have hunused (j : Fin n) :
      ((s.setEp i (Endpoint.enqueue P.qsiz s.currpkt)).tab j).state = .FREE → q' j = [] := by
    intro hj
    by_cases hji : j = i
    · subst hji
      rw [setEp_tab_self] at hj
      exact absurd hj hs
    · rw [setEp_tab_of_ne hji] at hj
      rw [hq', Function.update_of_ne hji]
      exact h.unused j hj
  have hqb : q'.buffers = {s.currpkt} + q.buffers := by
    rw [hq']
    exact q.buffers_push i _
  unfold Endpoints.deliver
  dsimp only
  cases hg : (s.setEp i (Endpoint.enqueue P.qsiz s.currpkt)).getbuf with
  | none =>
    -- `netin` waits; its old buffer is in the queue now
    refine ⟨q', hfeed, hring, hpackets, ?_, hunused⟩
    rw [hqb, ← hb]
    change ↑s.netbufpool + 0 + ↑s.others + ({s.currpkt} + q.buffers) = _
    rw [add_zero]
  | some base =>
    obtain ⟨hpool', hpk, -⟩ := Base.getbuf_eq hg
    have hpc : (↑s.netbufpool : Multiset Buf) = {base.currpkt} + ↑base.netbufpool :=
      congrArg Multiset.ofList hpool'
    have hin : Intact P pool q'
        { s.setEp i (Endpoint.enqueue P.qsiz s.currpkt) with toBase := base } := by
      refine ⟨hring, ?_, ?_, hunused⟩
      · change ∀ j, ∀ x ∈ q' j, base.packet x.1 = x.2
        rw [hpk]
        exact hpackets
      · rw [hqb, ← hb, hpc, current_of_none]
        · change ↑base.netbufpool + {base.currpkt} + ↑s.others + ({s.currpkt} + q.buffers) = _
          abel
        · exact hn
    exact ⟨q', hfeed, hin.notify i⟩

/-- `netin` gets the buffer that it waited for. -/
theorem Intact.delivered (h : Intact P pool q s) (hd : s.delivered = some (s', es)) :
    Kept P pool q (s', es) := by
  unfold Endpoints.delivered at hd
  cases hn : s.netin with
  | none =>
    rw [hn] at hd
    cases hd
  | some i =>
    cases hg : s.getbuf with
    | none =>
      rw [hn, hg] at hd
      cases hd
    | some base =>
      rw [hn, hg] at hd
      obtain ⟨rfl, rfl⟩ := Prod.mk.inj (Option.some.inj hd)
      obtain ⟨hpool', hpk, -⟩ := Base.getbuf_eq hg
      have hcur := current_of_some hn
      have hpc : (↑s.netbufpool : Multiset Buf) = {base.currpkt} + ↑base.netbufpool :=
        congrArg Multiset.ofList hpool'
      have hin : Intact P pool q { s with toBase := base, netin := none } := by
        refine ⟨h.ring, ?_, ?_, h.unused⟩
        · change ∀ j, ∀ x ∈ q j, base.packet x.1 = x.2
          rw [hpk]
          exact h.packets
        · rw [← h.buffers, hcur, hpc]
          change ↑base.netbufpool + {base.currpkt} + ↑s.others + q.buffers = _
          abel
      exact (hin.notify i).kept

/-! ## Receivers -/

/-- The packet at the head of a ring, with its buffer, when it is taken and its
buffer freed. -/
theorem Intact.dequeue (h : Intact P pool q s) (hs : P.slots ≤ P.qsiz)
    (ht : Takeable P (s.tab i)) :
    ∃ p, (q i).head? = some ((s.tab i).front, p) ∧ s.packet (s.tab i).front = p ∧
      Intact P pool (Function.update q i (q i).tail) (s.unqueue P.slots i) := by
  cases hq : q i with
  | nil =>
    have hc := (h.ring i).count_eq
    rw [hq] at hc
    have := ht.count
    rw [hc] at this
    exact absurd this (lt_irrefl _)
  | cons x l =>
    have hring := h.ring i
    rw [hq, List.map_cons] at hring
    obtain ⟨hfront, hdeq⟩ := hring.dequeue hs ht.head
    have hmem : x ∈ q i := hq ▸ List.mem_cons_self
    refine ⟨x.2, ?_, ?_, ?_, ?_, ?_, ?_⟩
    · rw [hfront]
      rfl
    · rw [hfront]
      exact h.packets i x hmem
    · intro j
      by_cases hj : j = i
      · subst hj
        rw [Function.update_self]
        change ((s.setEp j (Endpoint.dequeue P.slots)).tab j).Keeps _ _
        rw [setEp_tab_self]
        exact hdeq
      · rw [Function.update_of_ne hj]
        change ((s.setEp i (Endpoint.dequeue P.slots)).tab j).Keeps _ _
        rw [setEp_tab_of_ne hj]
        exact h.ring j
    · intro j y hy
      by_cases hj : j = i
      · subst hj
        rw [Function.update_self] at hy
        exact h.packets j y (hq ▸ List.mem_cons_of_mem x hy)
      · rw [Function.update_of_ne hj] at hy
        exact h.packets j y hy
    · -- the buffer goes from the queue to the free ones
      rw [← h.buffers, Queues.buffers_pop hq, ← hfront, List.tail_cons]
      change ↑((s.tab i).front :: s.netbufpool) + s.current + ↑s.others + _ = _
      rw [← Multiset.cons_coe, ← Multiset.singleton_add]
      abel
    · intro j hj
      by_cases hji : j = i
      · subst hji
        change ((s.setEp j (Endpoint.dequeue P.slots)).tab j).state = .FREE at hj
        rw [setEp_tab_self] at hj
        have := h.unused j hj
        rw [hq] at this
        cases this
      · change ((s.setEp i (Endpoint.dequeue P.slots)).tab j).state = .FREE at hj
        rw [setEp_tab_of_ne hji] at hj
        rw [Function.update_of_ne hji]
        exact h.unused j hj

/-- **Taking a packet** takes the oldest one. -/
theorem Intact.take (h : Intact P pool q s) (hs : P.slots ≤ P.qsiz) (ht : Takeable P (s.tab i))
    (pid : Pid) (args : κ) : Kept P pool q (s.take P pid i args) := by
  obtain ⟨p, hhead, hp, hin⟩ := h.dequeue hs ht
  refine ⟨_, ?_, hin⟩
  change q.leave i _ (s.packet _) = _
  unfold Queues.leave
  rw [hp, if_pos hhead]

theorem Intact.recvRest (h : Intact P pool q s) (hs : P.slots ≤ P.qsiz) (pid : Pid) (args : κ)
    (msg : Int) (ht : msg = OK → Takeable P (s.tab i)) :
    Kept P pool q (s.recvRest P pid i args msg) := by
  have hused : Intact P pool q (s.setEp i fun e => { e with state := .USED }) :=
    h.setState i _ rfl rfl rfl rfl nofun
  unfold Endpoints.recvRest
  dsimp only
  by_cases htime : msg = TIMEOUT
  · rw [if_pos htime]
    exact hused.failed pid TIMEOUT
  · rw [if_neg htime]
    by_cases hok : msg = OK
    · rw [if_neg (not_not_intro hok)]
      obtain ⟨hcount, hhead⟩ := ht hok
      refine hused.take hs ⟨?_, ?_⟩ pid args
      · rw [setEp_tab_self]
        exact hcount
      · rw [setEp_tab_self]
        exact hhead
    · rw [if_pos hok]
      exact hused.failed pid SYSERR

/-- **A receiver begins.** -/
theorem Intact.recv (h : Intact P pool q s) (hs : P.slots ≤ P.qsiz) (pid : Pid) (args : κ)
    (timeout : Int) (ht : (s.tab i).count ≠ 0 → (s.tab i).head + 1 < P.slots) :
    Kept P pool q (s.recv P pid i args timeout) := by
  unfold Endpoints.recv
  by_cases hc : (s.tab i).count = 0
  · rw [if_pos hc]
    have hrecv : Intact P pool q (s.setEp i fun e => { e with state := .RECV, pid := some pid }) :=
      h.setState i _ rfl rfl rfl rfl nofun
    have hclr := hrecv.setMail (Function.update s.prmsg pid none)
    dsimp only
    by_cases htime : timeout < 0
    · rw [if_pos htime]
      exact Intact.recvRest hclr hs pid args SYSERR nofun
    · rw [if_neg htime]
      exact (hclr.setWaiting _).kept
  · rw [if_neg hc]
    have hpos : 0 < (s.tab i).count := by
      have := (h.ring i).count_eq
      omega
    exact h.take hs ⟨hpos, ht hc⟩ pid args

/-- **A receiver goes on** after it has waited. -/
theorem Intact.woken (h : Intact P pool q s) (hs : P.slots ≤ P.qsiz)
    (ht : ∀ w, s.waiting pid = some w → s.received pid = OK → Takeable P (s.tab w.slot))
    (hw : s.woken P pid = some (s', es)) : Kept P pool q (s', es) := by
  unfold Endpoints.woken at hw
  cases hwait : s.waiting pid with
  | none =>
    rw [hwait] at hw
    cases hw
  | some w =>
    rw [hwait] at hw
    have hclr := h.setMail (Function.update s.prmsg pid none)
    have hrest := Intact.recvRest (hclr.setWaiting (Function.update s.waiting pid none)) hs pid
      w.args _ (ht w hwait)
    rw [← Option.some.inj hw]
    exact hrest

/-! ## Release -/

/-- **All packets of an entry are thrown away**, the oldest first. -/
theorem Intact.drain (hs : P.slots ≤ P.qsiz) : ∀ {k : Nat} {q : Queues n} {s : Endpoints n κ},
    Intact P pool q s → (q i).length = k → (s.tab i).head + k < P.slots →
      ∃ q', Machine.feed (fifo n) q (s.drain P.slots i k).2 = some q' ∧
        Intact P pool q' (s.drain P.slots i k).1 ∧ q' i = []
  | 0, q, s, h, hk, _ => ⟨q, rfl, h, List.length_eq_zero_iff.mp hk⟩
  | k + 1, q, s, h, hk, hh => by
    have hcount : (s.tab i).count = k + 1 := by
      rw [(h.ring i).count_eq, List.length_map, hk]
      rfl
    obtain ⟨p, hhead, hp, hin⟩ := h.dequeue (i := i) hs ⟨by omega, by omega⟩
    have hhead₁ : ((s.unqueue P.slots i).tab i).head = (s.tab i).head + 1 := by
      change ((s.setEp i (Endpoint.dequeue P.slots)).tab i).head = _
      rw [setEp_tab_self]
      exact Ring.next_of_lt (by omega)
    have hlen : (Function.update q i (q i).tail i).length = k := by
      rw [Function.update_self, List.length_tail, hk]
      rfl
    obtain ⟨q', hfeed, hin', hnil⟩ := Intact.drain hs hin hlen (by omega)
    refine ⟨q', ?_, ?_, hnil⟩
    · unfold Endpoints.drain
      dsimp only
      rw [Machine.feed_append, Machine.feed_singleton]
      change (q.leave i _ (s.packet _)).bind _ = _
      unfold Queues.leave
      rw [hp, if_pos hhead]
      exact hfeed
    · unfold Endpoints.drain
      exact hin'

/-- **An entry is released.** -/
theorem Intact.release (h : Intact P pool q s) (hs : P.slots ≤ P.qsiz)
    (ht : (s.tab i).head + (s.tab i).count.toNat < P.slots) :
    Kept P pool q (s.release P i) := by
  have hlen : (q i).length = (s.tab i).count.toNat := by
    have := (h.ring i).count_eq
    rw [List.length_map] at this
    omega
  obtain ⟨q', hfeed, hin, hnil⟩ := Intact.drain hs h hlen ht
  refine ⟨q', hfeed, ?_⟩
  exact hin.setState i (fun e => { e with state := .FREE }) rfl rfl rfl rfl fun _ => hnil

/-! ## Contents of the buffers

Only arrivals write to a buffer. -/

theorem notify_packet (s : Endpoints n κ) (i : Fin n) : (s.notify i).packet = s.packet := by
  unfold Endpoints.notify
  by_cases hr : (s.tab i).state = .RECV
  · rw [if_pos hr]
    exact Base.send_packet ..
  · rw [if_neg hr]

theorem deliver_packet (P : Proto κ) (s : Endpoints n κ) (i : Fin n) :
    (s.deliver P i).1.packet = s.packet := by
  unfold Endpoints.deliver
  dsimp only
  cases hg : (s.setEp i (Endpoint.enqueue P.qsiz s.currpkt)).getbuf with
  | none => rfl
  | some base =>
    obtain ⟨-, hpk, -⟩ := Base.getbuf_eq hg
    rw [← show base.packet = s.packet from hpk]
    exact notify_packet ..

theorem delivered_packet (hd : s.delivered = some (s', es)) : s'.packet = s.packet := by
  unfold Endpoints.delivered at hd
  cases hn : s.netin with
  | none =>
    rw [hn] at hd
    cases hd
  | some i =>
    cases hg : s.getbuf with
    | none =>
      rw [hn, hg] at hd
      cases hd
    | some base =>
      rw [hn, hg] at hd
      obtain ⟨rfl, rfl⟩ := Prod.mk.inj (Option.some.inj hd)
      obtain ⟨-, hpk, -⟩ := Base.getbuf_eq hg
      rw [← hpk]
      exact notify_packet ..

theorem recvRest_packet (P : Proto κ) (s : Endpoints n κ) (pid : Pid) (i : Fin n) (args : κ)
    (msg : Int) : (s.recvRest P pid i args msg).1.packet = s.packet := by
  unfold Endpoints.recvRest
  dsimp only
  by_cases htime : msg = TIMEOUT
  · rw [if_pos htime]
    rfl
  · rw [if_neg htime]
    by_cases hok : msg ≠ OK
    · rw [if_pos hok]
      rfl
    · rw [if_neg hok]
      rfl

theorem recv_packet (P : Proto κ) (s : Endpoints n κ) (pid : Pid) (i : Fin n) (args : κ)
    (timeout : Int) : (s.recv P pid i args timeout).1.packet = s.packet := by
  unfold Endpoints.recv
  by_cases hc : (s.tab i).count = 0
  · rw [if_pos hc]
    dsimp only
    by_cases htime : timeout < 0
    · rw [if_pos htime]
      exact recvRest_packet ..
    · rw [if_neg htime]
      rfl
  · rw [if_neg hc]
    rfl

theorem woken_packet (hw : s.woken P pid = some (s', es)) : s'.packet = s.packet := by
  unfold Endpoints.woken at hw
  cases hwait : s.waiting pid with
  | none =>
    rw [hwait] at hw
    cases hw
  | some w =>
    rw [hwait] at hw
    rw [show s' = (s', es).1 from rfl, ← Option.some.inj hw]
    exact recvRest_packet ..

theorem drain_packet (slots : Nat) (i : Fin n) : ∀ (k : Nat) (s : Endpoints n κ),
    (s.drain slots i k).1.packet = s.packet
  | 0, _ => rfl
  | k + 1, s => drain_packet slots i k (s.unqueue slots i)

theorem release_packet (P : Proto κ) (s : Endpoints n κ) (i : Fin n) :
    (s.release P i).1.packet = s.packet := drain_packet ..

theorem borrow_packet (hb : s.borrow = some (s', es)) : s'.packet = s.packet := by
  unfold Endpoints.borrow at hb
  cases hp : s.netbufpool with
  | nil =>
    rw [hp] at hb
    cases hb
  | cons b free =>
    rw [hp] at hb
    obtain ⟨rfl, rfl⟩ := Prod.mk.inj (Option.some.inj hb)
    rfl

theorem giveBack_packet {b : Buf} (hb : s.giveBack b = some (s', es)) : s'.packet = s.packet := by
  unfold Endpoints.giveBack at hb
  by_cases hm : b ∈ s.others
  · rw [if_pos hm] at hb
    obtain ⟨rfl, rfl⟩ := Prod.mk.inj (Option.some.inj hb)
    rfl
  · rw [if_neg hm] at hb
    cases hb

/-! ## The other functions of `net/` -/

theorem Intact.borrow (h : Intact P pool q s) (hb : s.borrow = some (s', es)) :
    Kept P pool q (s', es) := by
  unfold Endpoints.borrow at hb
  cases hp : s.netbufpool with
  | nil =>
    rw [hp] at hb
    cases hb
  | cons b free =>
    rw [hp] at hb
    obtain ⟨rfl, rfl⟩ := Prod.mk.inj (Option.some.inj hb)
    refine Intact.kept ⟨h.ring, h.packets, ?_, h.unused⟩
    rw [← h.buffers, hp]
    change ↑free + s.current + ↑(b :: s.others) + q.buffers = _
    rw [← Multiset.cons_coe, ← Multiset.cons_coe, ← Multiset.singleton_add,
      ← Multiset.singleton_add]
    abel

theorem Intact.giveBack (h : Intact P pool q s) {b : Buf} (hb : s.giveBack b = some (s', es)) :
    Kept P pool q (s', es) := by
  unfold Endpoints.giveBack at hb
  by_cases hm : b ∈ s.others
  · rw [if_pos hm] at hb
    obtain ⟨rfl, rfl⟩ := Prod.mk.inj (Option.some.inj hb)
    refine Intact.kept ⟨h.ring, h.packets, ?_, h.unused⟩
    have herase : (↑s.others : Multiset Buf) = {b} + ↑(s.others.erase b) := by
      rw [← Multiset.coe_erase, Multiset.singleton_add]
      exact (Multiset.cons_erase (Multiset.mem_coe.mpr hm)).symm
    rw [← h.buffers, herase]
    change ↑(b :: s.netbufpool) + s.current + ↑(s.others.erase b) + q.buffers = _
    rw [← Multiset.cons_coe, ← Multiset.singleton_add]
    abel
  · rw [if_neg hm] at hb
    cases hb

end Endpoints

end Xinu.Net
