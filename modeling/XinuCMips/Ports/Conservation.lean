import XinuCMips.Ports.Endings

/-!
# What the ports conserve

Over any interleaving of the port calls no message is lost, made up or moved.

* `step_holds`         — every step keeps the invariant;
* `ports_conserve`     — the messages of every generation of every port;
* `ports_not_conserve` — what goes wrong with too few nodes, and with too long a wait.
-/

namespace Xinu.Ports

variable {nodes : Nat} {gen : Nat → Nat} {since : Pid → Nat → Nat} {hole : Option Key} {g : Ghost}
  {s s' : PortTable} {pid : Pid} {port : Nat} {k : Key} {seq : Int} {msg : Msg}

-- ---------------------------------------------------------------------------
-- Steps
-- ---------------------------------------------------------------------------

/-- The invariant. A system that has stopped has done so without a free node. -/
def Holds (nodes : Nat) (q : System) : Prop :=
  ∃ hole g, Good nodes q.gen q.since hole g q.tab ∧ (q.tab.halted = false → hole = none) ∧
    (q.tab.halted = true → g.fl = [])

variable {q : System} {o : Outcome} {t : PortTable} {a : Act} {c : Call} {r : Role}

theorem advance_gen {gen' : Nat → Nat} {g' : Ghost} {since' : Pid → Nat → Nat}
    (h : Gens q.tab q.gen q.since g) (h' : Gens t gen' since' g')
    (hgen : ∀ p, gen' p = q.gen p ∨ gen' p = q.gen p + 1) : (q.advance pid o t).gen = gen' := by
  funext p
  change (if (t.porttab p).ptseq = (q.tab.porttab p).ptseq then q.gen p else q.gen p + 1) = gen' p
  rw [h.seq, h'.seq]
  rcases hgen p with heq | heq
  · rw [heq, if_pos rfl]
  · have hne : int32 (gen' p) ≠ int32 (q.gen p) := by
      rw [heq]
      push_cast
      exact int32_succ_ne _
    rw [if_neg hne, heq]

theorem advance_since (ho : o ≠ .blocked) : (q.advance pid o t).since = q.since := if_neg ho

/-- A call that leaves the generations alone. -/
theorem holds_same (h : Gens q.tab q.gen q.since g) (ho : o ≠ .blocked) {g' : Ghost}
    (h' : Good nodes q.gen q.since none g' t) (ht : t.halted = false) :
    Holds nodes (q.advance pid o t) := by
  have hgen : (q.advance pid o t).gen = q.gen := advance_gen h h'.gens fun _ => .inl rfl
  have hsince : (q.advance pid o t).since = q.since := advance_since ho
  refine ⟨none, g', ?_, fun _ => rfl, fun hh => ?_⟩
  · rw [hgen, hsince]
    exact h'
  · exact Bool.noConfusion (ht.symm.trans hh)

/-- A call that begins or ends a generation of a port. -/
theorem holds_bump (h : Gens q.tab q.gen q.since g) (ho : o ≠ .blocked) {g' : Ghost}
    (h' : Good nodes (Good.bump q.gen port) q.since none g' t) (ht : t.halted = false) :
    Holds nodes (q.advance pid o t) := by
  have hgen : (q.advance pid o t).gen = Good.bump q.gen port := by
    refine advance_gen h h'.gens fun p => ?_
    by_cases hp : p = port
    · rw [hp, Good.bump_self]
      exact .inr rfl
    · rw [Good.bump_of_ne _ hp]
      exact .inl rfl
  have hsince : (q.advance pid o t).since = q.since := advance_since ho
  refine ⟨none, g', ?_, fun _ => rfl, fun hh => ?_⟩
  · rw [hgen, hsince]
    exact h'
  · exact Bool.noConfusion (ht.symm.trans hh)

/-- A call that blocks. -/
theorem holds_blocked (h : Gens q.tab q.gen q.since g) {g' : Ghost}
    (h' : Good nodes q.gen (Function.update q.since pid q.gen) none g' t) (ht : t.halted = false) :
    Holds nodes (q.advance pid .blocked t) := by
  have hgen : (q.advance pid .blocked t).gen = q.gen := advance_gen h h'.gens fun _ => .inl rfl
  have hsince : (q.advance pid .blocked t).since = Function.update q.since pid q.gen := by
    change Function.update q.since pid (q.advance pid .blocked t).gen = _
    rw [hgen]
  refine ⟨none, g', ?_, fun _ => rfl, fun hh => ?_⟩
  · rw [hgen, hsince]
    exact h'
  · exact Bool.noConfusion (ht.symm.trans hh)

/-- The system stops, with a unit in the hands of the sender. -/
theorem holds_halted (h : Gens q.tab q.gen q.since g) {g' : Ghost}
    (h' : Good nodes q.gen q.since hole g' s) (hfl : g'.fl = []) :
    Holds nodes (q.advance pid .halted s.halt.2) := by
  have hgen : (q.advance pid .halted s.halt.2).gen = q.gen :=
    advance_gen h h'.halt.gens fun _ => .inl rfl
  have hsince : (q.advance pid .halted s.halt.2).since = q.since := advance_since nofun
  refine ⟨hole, g', ?_, nofun, fun _ => hfl⟩
  rw [hgen, hsince]
  exact h'.halt

theorem alloc_iff (h : Good nodes gen since hole g s) (port : Nat) :
    (s.porttab port).ptstate = .alloc ↔ g.phase port = .alloc := by
  rw [h.phases.state]
  cases g.phase port with
  | alloc => exact iff_of_true rfl rfl
  | free => exact iff_of_false nofun nofun
  | ending pid newstate next => exact iff_of_false nofun nofun

theorem phase_of_open (h : Good nodes gen since hole g s) (hp : ¬s.badPort port) :
    g.phase port = .alloc :=
  (alloc_iff h port).mp (not_not.mp (not_or.mp hp).2)

/-- What `ptsend` and `ptrecv` do with a unit. -/
theorem rest_holds (h : Gens q.tab q.gen q.since g) {g' : Ghost}
    (h' : Good nodes q.gen q.since (some (port, .send)) g' s) (hgo : s.halted = false)
    (ha : g'.phase port = .alloc) (hseq : (s.porttab port).ptseq = seq) (msg : Msg) :
    Holds nodes (q.advance pid (s.ptsendRest port seq msg).1 (s.ptsendRest port seq msg).2) := by
  rcases h'.sendRest ha hseq msg with ⟨heq, hfl⟩ | ⟨t, g'', heq, ht, h''⟩
  · rw [heq]
    exact holds_halted h h' hfl
  · rw [heq]
    exact holds_same h nofun h'' (ht.trans hgo)

theorem recv_holds (h : Gens q.tab q.gen q.since g) (pid : Pid) {g' : Ghost}
    (h' : Good nodes q.gen q.since (some (port, .recv)) g' s) (hgo : s.halted = false)
    (ha : g'.phase port = .alloc) (hseq : (s.porttab port).ptseq = seq) :
    Holds nodes (q.advance pid (s.ptrecvRest port seq).1 (s.ptrecvRest port seq).2) ∧
      (s.ptrecvRest port seq).1 ≠ .halted := by
  obtain ⟨msg, t, g'', heq, ht, h''⟩ := h'.recvRest ha hseq
  rw [heq]
  exact ⟨holds_same h nofun h'' (ht.trans hgo), nofun⟩

/-- `ptsend`. -/
theorem ptsend_holds (h : Good nodes q.gen q.since none g q.tab) (hgo : q.tab.halted = false)
    (hidle : q.tab.calls pid = none) (port : Nat) (msg : Msg) :
    Holds nodes (q.advance pid (q.tab.ptsend pid port msg).1 (q.tab.ptsend pid port msg).2) := by
  unfold PortTable.ptsend
  by_cases hbad : q.tab.badPort port
  · rw [if_pos hbad]
    exact holds_same h.gens nofun h hgo
  rw [if_neg hbad]
  have ha := phase_of_open h hbad
  have hid : q.tab.id (port, .send) = (q.tab.porttab port).ptssem := rfl
  rcases h.wait (k := (port, .send)) ha hidle with heq | ⟨tab, g', heq, hphase, h'⟩ |
    ⟨s', heq, hs', h'⟩
  · rw [hid] at heq
    rw [heq]
    exact holds_same h.gens nofun h hgo
  · rw [hid] at heq
    rw [heq]
    exact rest_holds h.gens h' hgo (by rw [hphase, ha]) rfl msg
  · rw [hid] at heq
    rw [heq]
    obtain ⟨g', h'⟩ := h' (.send port (q.tab.porttab port).ptseq msg) rfl
    exact holds_blocked h.gens h' (hs'.trans hgo)

/-- `ptrecv`. -/
theorem ptrecv_holds (h : Good nodes q.gen q.since none g q.tab) (hgo : q.tab.halted = false)
    (hidle : q.tab.calls pid = none) (port : Nat) :
    Holds nodes (q.advance pid (q.tab.ptrecv pid port).1 (q.tab.ptrecv pid port).2) ∧
      (q.tab.ptrecv pid port).1 ≠ .halted := by
  unfold PortTable.ptrecv
  by_cases hbad : q.tab.badPort port
  · rw [if_pos hbad]
    exact ⟨holds_same h.gens nofun h hgo, nofun⟩
  rw [if_neg hbad]
  have ha := phase_of_open h hbad
  have hid : q.tab.id (port, .recv) = (q.tab.porttab port).ptrsem := rfl
  rcases h.wait (k := (port, .recv)) ha hidle with heq | ⟨tab, g', heq, hphase, h'⟩ |
    ⟨s', heq, hs', h'⟩
  · rw [hid] at heq
    rw [heq]
    exact ⟨holds_same h.gens nofun h hgo, nofun⟩
  · rw [hid] at heq
    rw [heq]
    exact recv_holds h.gens pid h' hgo (by rw [hphase, ha]) rfl
  · rw [hid] at heq
    rw [heq]
    obtain ⟨g', h'⟩ := h' (.recv port (q.tab.porttab port).ptseq) rfl
    exact ⟨holds_blocked h.gens h' (hs'.trans hgo), nofun⟩

/-- `ptreset` and `ptdelete`. -/
theorem ptend_holds {newstate : PtState} (h : Good nodes q.gen q.since none g q.tab)
    (hgo : q.tab.halted = false) (hidle : q.tab.calls pid = none) (hst : newstate ≠ .limbo) (port : Nat) :
    Holds nodes (q.advance pid (q.tab.ptend nodes pid port newstate).1
      (q.tab.ptend nodes pid port newstate).2) := by
  unfold PortTable.ptend
  by_cases hbad : q.tab.badPort port
  · rw [if_pos hbad]
    exact holds_same h.gens nofun h hgo
  · rw [if_neg hbad]
    obtain ⟨hhalted, g', h'⟩ := h.clear (phase_of_open h hbad) hidle hst
    exact holds_bump h.gens nofun h' (hhalted.trans hgo)

/-- `ptcreate`. -/
theorem ptcreate_holds {count : Int} (h : Good nodes q.gen q.since none g q.tab)
    (hgo : q.tab.halted = false) (hidle : q.tab.calls pid = none) (hsmall : count < 2 ^ 16) :
    Holds nodes (q.advance pid (.ret (q.tab.ptcreate count).1) (q.tab.ptcreate count).2) := by
  have hnextid : ∀ v, v < NPORTS → Good nodes q.gen q.since none g { q.tab with ptnextid := v } :=
    fun v hv => ⟨h.chains.same rfl rfl rfl, h.recorded, h.linked, h.queues,
      h.phases.same rfl fun _ => rfl, ⟨h.gens.seq, h.gens.le, h.gens.waits, h.gens.queued⟩, h.counts,
      h.nextsem, hv⟩
  by_cases hc : 0 ≤ count
  · rcases ptcreate_cases hc h.nextid with ⟨-, v, hv, heq⟩ | ⟨port, v, hport, hfree, hv, heq⟩
    · rw [heq]
      exact holds_same h.gens nofun (hnextid v hv) hgo
    · have hph : g.phase port = .free := by
        rw [h.phases.state] at hfree
        cases hph : g.phase port with
        | free => rfl
        | alloc =>
          rw [hph] at hfree
          cases hfree
        | ending pid newstate next =>
          rw [hph] at hfree
          cases hfree
      rw [heq]
      obtain ⟨hhalted, g', h'⟩ := (hnextid v hv).create hph hport hidle hc hsmall
      exact holds_bump h.gens nofun h' (hhalted.trans hgo)
  · have heq : q.tab.ptcreate count = (SYSERR, q.tab) := if_pos (not_le.mp hc)
    rw [heq]
    exact holds_same h.gens nofun h hgo

/-- The generation that a process waited for is gone. -/
theorem stale_of_ne (h : Good nodes q.gen q.since none g q.tab) (hw : q.tab.waiting pid = some (k, seq))
    (hround : q.gen k.1 - q.since pid k.1 < 2 ^ 32) (hne : q.since pid k.1 ≠ q.gen k.1) :
    (q.tab.setCall pid none).stale k.1 seq := by
  refine .inr fun heq => hne ?_
  change (q.tab.porttab k.1).ptseq = seq at heq
  rw [h.gens.seq, (h.gens.waits pid k seq hw).1] at heq
  exact (seq_eq_iff (h.gens.le pid k.1) hround).mp heq.symm

theorem seq_of_eq (h : Good nodes q.gen q.since none g q.tab) (hw : q.tab.waiting pid = some (k, seq))
    (heq : q.since pid k.1 = q.gen k.1) : (q.tab.porttab k.1).ptseq = seq := by
  rw [h.gens.seq, (h.gens.waits pid k seq hw).1, heq]

/-- What a process does behind its wait. -/
structure Resumed (nodes : Nat) (q : System) (pid : Pid) (k : Key) (o : Outcome) (t : PortTable) : Prop where
  holds : Holds nodes (q.advance pid o t)
  finds : k.2 = .recv → o ≠ .halted
  refused : q.since pid k.1 ≠ q.gen k.1 → o = .ret SYSERR ∧ t = q.tab.setCall pid none

theorem ret_ne_blocked (v : Int) : Outcome.ret v ≠ .blocked := by
  intro hb
  cases hb

theorem send_resumed (h : Good nodes q.gen q.since none g q.tab) (hgo : q.tab.halted = false)
    (hw : q.tab.waiting pid = some ((port, .send), seq)) (hready : q.tab.ready pid = true)
    (hround : q.gen port - q.since pid port < 2 ^ 32) (msg : Msg) :
    Resumed nodes q pid (port, .send) ((q.tab.setCall pid none).ptsendRest port seq msg).1
      ((q.tab.setCall pid none).ptsendRest port seq msg).2 := by
  obtain ⟨g', hphase, h'⟩ := h.resume hw hready
  by_cases hcur : q.since pid port = q.gen port
  · rw [if_pos hcur] at h'
    have ha : g'.phase port = .alloc := by
      rw [hphase]
      exact (h.gens.waits pid _ seq hw).2 hcur
    exact ⟨rest_holds h.gens h' hgo ha (seq_of_eq h hw hcur) msg, (fun hr => by cases hr),
      fun hne => absurd hcur hne⟩
  · rw [if_neg hcur] at h'
    have hstale := stale_of_ne h hw hround hcur
    rw [PortTable.ptsendRest, if_pos hstale]
    exact ⟨holds_same h.gens (ret_ne_blocked SYSERR) h' hgo, (fun hr => by cases hr),
      fun _ => ⟨rfl, rfl⟩⟩

theorem recv_resumed (h : Good nodes q.gen q.since none g q.tab) (hgo : q.tab.halted = false)
    (hw : q.tab.waiting pid = some ((port, .recv), seq)) (hready : q.tab.ready pid = true)
    (hround : q.gen port - q.since pid port < 2 ^ 32) :
    Resumed nodes q pid (port, .recv) ((q.tab.setCall pid none).ptrecvRest port seq).1
      ((q.tab.setCall pid none).ptrecvRest port seq).2 := by
  obtain ⟨g', hphase, h'⟩ := h.resume hw hready
  by_cases hcur : q.since pid port = q.gen port
  · rw [if_pos hcur] at h'
    have ha : g'.phase port = .alloc := by
      rw [hphase]
      exact (h.gens.waits pid _ seq hw).2 hcur
    obtain ⟨hholds, hfinds⟩ := recv_holds h.gens pid h' hgo ha (seq_of_eq h hw hcur)
    exact ⟨hholds, fun _ => hfinds, fun hne => absurd hcur hne⟩
  · rw [if_neg hcur] at h'
    have hstale := stale_of_ne h hw hround hcur
    rw [PortTable.ptrecvRest, if_pos hstale]
    exact ⟨holds_same h.gens (ret_ne_blocked SYSERR) h' hgo, (fun _ hh => by cases hh),
      fun _ => ⟨rfl, rfl⟩⟩

/-- A call on a process that is in none is no wait. -/
theorem answers_call (hidle : q.tab.calls pid = none) (hrecv : (∃ port, a = .recv port) → o ≠ .halted) :
    Answers q pid a o t := by
  have hnone : q.tab.waiting pid = none := by
    unfold PortTable.waiting
    rw [hidle]
    rfl
  refine ⟨fun hcase => ?_, fun k seq _ hw => ?_⟩
  · rcases hcase with hcase | ⟨-, port, seq, hw⟩
    · exact hrecv hcase
    · cases hnone.symm.trans hw
  · cases hnone.symm.trans hw

/-- **Every step keeps the invariant**, and answers as it should. -/
theorem step_holds (h : Holds nodes q) (hok : Allowed q (pid, a))
    (hst : step nodes pid a q.tab = some (o, t)) :
    Holds nodes (q.advance pid o t) ∧ Answers q pid a o t := by
  obtain ⟨hole, g, h, hnone, -⟩ := h
  unfold step at hst
  by_cases hhalted : q.tab.halted = true
  · rw [if_pos hhalted] at hst
    cases hst
  rw [if_neg hhalted] at hst
  have hgo : q.tab.halted = false := Bool.eq_false_iff.mpr hhalted
  rw [hnone hgo] at h
  cases hc : q.tab.calls pid with
  | none =>
    rw [hc] at hst
    cases a with
    | create count =>
      obtain ⟨rfl, rfl⟩ := Prod.mk.inj (Option.some.inj hst)
      exact ⟨ptcreate_holds h hgo hc hok, answers_call hc fun _ => nofun⟩
    | send port msg =>
      obtain ⟨rfl, rfl⟩ := Prod.ext_iff.mp (Option.some.inj hst)
      exact ⟨ptsend_holds h hgo hc port msg, answers_call hc nofun⟩
    | recv port =>
      obtain ⟨rfl, rfl⟩ := Prod.ext_iff.mp (Option.some.inj hst)
      obtain ⟨hholds, hfinds⟩ := ptrecv_holds h hgo hc port
      exact ⟨hholds, answers_call hc fun _ => hfinds⟩
    | reset port =>
      have hnew : PtState.alloc ≠ .limbo := nofun
      obtain ⟨rfl, rfl⟩ := Prod.ext_iff.mp (Option.some.inj hst)
      exact ⟨ptend_holds h hgo hc hnew port, answers_call hc nofun⟩
    | delete port =>
      have hnew : PtState.free ≠ .limbo := nofun
      obtain ⟨rfl, rfl⟩ := Prod.ext_iff.mp (Option.some.inj hst)
      exact ⟨ptend_holds h hgo hc hnew port, answers_call hc nofun⟩
    | resume => cases hst
  | some c =>
    rw [hc] at hst
    have hresume : a = .resume := by
      cases a with
      | resume => rfl
      | create | send | recv | reset | delete => cases hst
    subst hresume
    dsimp only at hst
    by_cases hready : q.tab.ready pid = true
    swap
    · rw [if_neg hready] at hst
      cases hst
    rw [if_pos hready] at hst
    have hround : q.gen c.portid - q.since pid c.portid < 2 ^ 32 := hok c hc
    have hwaiting : q.tab.waiting pid = c.waits := by
      unfold PortTable.waiting
      rw [hc]
      rfl
    obtain ⟨rfl, rfl⟩ := Prod.ext_iff.mp (Option.some.inj hst)
    cases c with
    | send port seq msg =>
      have hr := send_resumed h hgo hwaiting hready hround msg
      refine ⟨hr.holds, fun hcase => ?_, fun k seq _ hw hne => ?_⟩
      · rcases hcase with ⟨port, hcase⟩ | ⟨-, port, seq, hw⟩
        · cases hcase
        · cases hwaiting.symm.trans hw
      · obtain ⟨rfl, rfl⟩ := Prod.mk.inj (Option.some.inj (hwaiting.symm.trans hw))
        exact hr.refused hne
    | recv port seq =>
      have hr := recv_resumed h hgo hwaiting hready hround
      refine ⟨hr.holds, fun _ => hr.finds rfl, fun k seq _ hw hne => ?_⟩
      obtain ⟨rfl, rfl⟩ := Prod.mk.inj (Option.some.inj (hwaiting.symm.trans hw))
      exact hr.refused hne
    | clear port newstate =>
      obtain ⟨ht, g', h'⟩ := h.clearNext hc
      refine ⟨holds_same h.gens nofun h' (ht.trans hgo), fun _ => nofun, fun k seq _ hw => ?_⟩
      cases hwaiting.symm.trans hw
    | cleared port newstate =>
      obtain ⟨ht, g', h'⟩ := h.clearDone hc
      refine ⟨holds_same h.gens nofun h' (ht.trans hgo), fun _ => nofun, fun k seq _ hw => ?_⟩
      cases hwaiting.symm.trans hw

-- ---------------------------------------------------------------------------
-- Runs
-- ---------------------------------------------------------------------------

/-- The free list that `ptinit` builds. -/
theorem ptinit_follows (h : 0 < nodes) (used : Bool) :
    Follow.Follows (ptinit nodes used).ptnext (some 0) (List.range nodes) := by
  have hhead : (List.range nodes).head? = some 0 := by
    rw [List.head?_range, if_neg h.ne']
  rw [← hhead, Follow.follows_iff_getElem?]
  intro j a hj
  obtain ⟨hlt, hj⟩ := List.getElem?_eq_some_iff.mp hj
  rw [List.getElem_range] at hj
  rw [List.length_range] at hlt
  subst hj
  change (if j + 1 < nodes then some (j + 1) else none) = _
  by_cases hnext : j + 1 < nodes
  · rw [if_pos hnext, List.getElem?_range hnext]
  · rw [if_neg hnext, List.getElem?_eq_none (by rw [List.length_range]; omega)]

theorem started_holds (h : 0 < nodes) (hq : q.Started nodes) : Holds nodes q := by
  obtain ⟨tab, gen, since⟩ := q
  obtain ⟨htab, hfree, hnextsem, hgen, hsince⟩ := hq
  dsimp only at htab hfree hnextsem hgen hsince
  obtain ⟨semtab, hsemtab⟩ : ∃ semtab, semtab = tab.semtab := ⟨_, rfl⟩
  obtain ⟨nextsem, hnext⟩ : ∃ nextsem, nextsem = tab.nextsem := ⟨_, rfl⟩
  rw [← hsemtab] at htab hfree
  rw [← hnext] at htab hnextsem
  have hwaiting : ∀ pid, tab.waiting pid = none := by
    intro pid
    rw [htab]
    rfl
  refine ⟨none, ⟨List.range nodes, fun _ => [], fun _ => { count := 0 }, fun _ => .free⟩, ?_,
    fun _ => rfl, fun hh => ?_⟩
  · dsimp only
    refine ⟨⟨?_, fun _ => nofun, fun _ hne => absurd rfl hne, ?_⟩, ?_, ?_, ?_, ?_, ?_, ?_, ?_, ?_⟩
    · rw [htab]
      exact ptinit_follows h false
    · have hnil : (List.range NPORTS).flatMap (fun _ => ([] : List Node)) = [] :=
        List.flatMap_eq_nil_iff.mpr fun _ _ => rfl
      dsimp only
      rw [hnil, List.append_nil]
    · rw [htab]
      exact ⟨fun _ => nofun, fun _ => rfl, fun _ => nofun⟩
    · rw [htab]
      exact ⟨fun _ => nofun, fun _ => nofun, fun _ _ => nofun, hfree⟩
    · refine ⟨fun k pid => ?_, fun k pid => ?_, fun _ => ⟨List.nodup_nil, List.nodup_nil⟩, fun _ => rfl⟩
      · rw [hwaiting]
        exact iff_of_false List.not_mem_nil nofun
      · rw [hwaiting]
        exact iff_of_false List.not_mem_nil nofun
    · rw [htab]
      exact ⟨fun _ => rfl, fun _ hne => absurd rfl hne, fun _ _ _ _ => nofun,
        fun _ _ _ _ => iff_of_false nofun nofun⟩
    · refine ⟨fun port => ?_, fun pid port => ?_, fun pid k seq hw => ?_, fun _ => nofun⟩
      · rw [hgen, htab]
        rfl
      · rw [hsince]
        exact Nat.zero_le _
      · rw [hwaiting] at hw
        cases hw
    · exact fun port => ⟨rfl, fun _ => rfl⟩
    · rw [htab]
      exact hnextsem
    · have hzero : tab.ptnextid = 0 := by rw [htab]; rfl
      rw [hzero]
      decide
  · dsimp only at hh
    rw [htab] at hh
    cases hh

theorem walk_eq {l : List Node} {n : Nat} {head : Option Node} (h : Follow.Follows s.ptnext head l)
    (hl : l.length ≤ n) : s.walk n head = l := by
  induction l generalizing head n with
  | nil =>
    rw [h.head?_eq, List.head?_nil]
    cases n with
    | zero => rfl
    | succ n => rfl
  | cons a l ih =>
    rw [h.head?_eq, List.head?_cons]
    cases n with
    | zero => exact absurd hl (Nat.not_succ_le_zero _)
    | succ n =>
      rw [PortTable.walk, ih h.tail (Nat.le_of_succ_le_succ hl)]

/-- A port that is not in use has no messages. -/
theorem empty_of_not_alloc (h : Good nodes gen since hole g s) (ha : g.phase port ≠ .alloc) :
    g.ql port = [] := by
  have hcounts := h.counts port
  refine List.eq_nil_of_length_eq_zero ?_
  cases hph : g.phase port with
  | alloc => exact absurd hph ha
  | free =>
    rw [hph] at hcounts
    exact Int.ofNat.inj hcounts.1
  | ending pid newstate next =>
    rw [hph] at hcounts
    exact Int.ofNat.inj hcounts.1

/-- The queue of a port is its list. -/
theorem queue_eq (h : Good nodes gen since hole g s) (port : Nat) :
    s.queue nodes port = (g.ql port).map s.ptmsg := by
  unfold PortTable.queue
  by_cases ha : g.phase port = .alloc
  · have htidy : (g.phase port).Tidy := by rw [ha]; trivial
    rw [if_pos ((alloc_iff h port).mpr ha),
      walk_eq (h.chains.queue port htidy).1 (h.chains.length_le port)]
  · rw [if_neg fun hst => ha ((alloc_iff h port).mp hst), empty_of_not_alloc h ha]
    rfl

theorem held_nonneg (hole : Option Key) (k : Key) : 0 ≤ held hole k := by
  unfold held
  split
  · exact Int.one_nonneg
  · exact le_refl 0

/-- No port holds more than it may. -/
theorem length_le_max (h : Good nodes gen since hole g s) (port : Nat) :
    (g.ql port).length ≤ (s.porttab port).ptmaxcnt := by
  by_cases ha : g.phase port = .alloc
  · have hsend := (h.alloc_counts ha).1
    have hle := (h.queues.ok (port, .send)).released_le
    have hheld := held_nonneg hole (port, .send)
    omega
  · rw [empty_of_not_alloc h ha]
    exact Nat.zero_le _

/-- What the invariant says of the messages. -/
theorem Holds.conserved (h : Holds nodes q) : Conserved nodes q := by
  obtain ⟨hole, g, h, -, hfl⟩ := h
  refine ⟨h.recorded.past, fun port => ?_, fun port ha => ?_, fun port => ?_, fun hh => ?_,
    fun pid k seq hw hne => ?_⟩
  · rw [queue_eq h]
    exact h.recorded.last port
  · exact h.recorded.undisturbed port ((alloc_iff h port).mp ha)
  · rw [queue_eq h, List.length_map]
    exact length_le_max h port
  · have hlen := h.chains.perm.length_eq
    rw [hfl hh, List.nil_append, List.length_range, List.length_flatMap] at hlen
    have hsame : ∀ port ∈ List.range NPORTS, (q.tab.queue nodes port).length = (g.ql port).length := by
      intro port _
      rw [queue_eq h, List.length_map]
    exact (congrArg List.sum (List.map_congr_left hsame)).trans hlen
  · -- nothing waits for a generation that is gone but the receivers of a port that is closed
    by_contra hnot
    obtain ⟨hready, hclear⟩ := not_or.mp hnot
    have hin : pid ∈ (g.sem k).queue :=
      (h.queues.queue k pid).mpr ⟨by rw [hw]; rfl, Bool.eq_false_iff.mpr hready⟩
    have hcounts := h.counts k.1
    cases hph : g.phase k.1 with
    | alloc => exact hne (h.gens.queued k hph pid hin)
    | free =>
      rw [hph] at hcounts
      have hnil : (g.sem k).queue = [] := hcounts.2 k.2
      rw [hnil] at hin
      cases hin
    | ending pid' newstate next =>
      rw [hph] at hcounts
      obtain ⟨-, hsend, hrecv⟩ := hcounts
      obtain ⟨port, r⟩ := k
      cases r with
      | send =>
        dsimp only at hsend hin
        rw [hsend] at hin
        cases hin
      | recv =>
        cases next with
        | false => exact hclear ⟨pid', newstate, (h.phases.ends pid' port newstate false).mpr hph⟩
        | true =>
          have hzero := hrecv rfl
          dsimp only at hzero hin
          rw [hzero] at hin
          cases hin

variable {tr : List (Pid × Act × Outcome)}

theorem run_holds (h : 0 < nodes) (r : (machine nodes).Run Allowed tr q) : Holds nodes q := by
  refine r.invariant (I := fun _ q => Holds nodes q) (fun q hq => started_holds h hq) ?_
  intro tr es q q' a hq hok hst
  obtain ⟨⟨o, t⟩, hstep, hr⟩ := Option.map_eq_some_iff.mp hst
  obtain ⟨rfl, -⟩ := Prod.mk.inj hr
  exact (step_holds hq hok hstep).1

instance (q : System) (a : Pid × Act) : Decidable (Allowed q a) := by
  unfold Allowed
  split
  · infer_instance
  · infer_instance
  · infer_instance

/-- Two ports, a receiver that waits, and a reset under a sender that waits. -/
def twoPorts : List (Pid × Act) :=
  [(1, .create 1), (1, .create 2), (2, .recv 1), (1, .send 1 7), (2, .resume), (3, .send 0 8),
    (4, .send 0 9), (1, .reset 0), (4, .resume), (1, .resume), (1, .resume), (5, .send 0 10)]

def boot (nodes : Nat) : System := ⟨ptinit nodes false, fun _ => 0, fun _ _ => 0⟩

theorem boot_started (nodes : Nat) : (boot nodes).Started nodes :=
  ⟨rfl, fun _ _ => rfl, (by decide : 0 ≤ (0 : Int) ∧ (0 : Int) < NSEM), fun _ => rfl, fun _ _ => rfl⟩

/-- Counts are below 65536. -/
def Small (_ : System) (a : Pid × Act) : Prop :=
  match a.2 with
  | .create count => count < 2 ^ 16
  | _ => True

instance (q : System) (a : Pid × Act) : Decidable (Small q a) := by
  unfold Small
  split
  · infer_instance
  · infer_instance

/-- A hundred nodes, and a port for a hundred and one messages. -/
def tooMany : List (Pid × Act) := (1, .create 101) :: List.replicate 101 (1, .send 0 7)

theorem panics : ∃ tr q, (machine 100).Run Small tr q ∧ q.tab.halted = true := by
  have hrun : ((machine 100).exec Small (boot 100) [] tooMany).any (fun r => r.1.tab.halted) := by
    decide +kernel
  obtain ⟨⟨q, tr⟩, hst, hhalted⟩ := (Option.any_eq_true _ _).mp hrun
  exact ⟨tr, q, Machine.exec_run (.start (boot_started 100)) hst, hhalted⟩

/-- Process 2 waited for the first generation of port 0, and may go on. Process 1 is
idle, and the port is in its generation `n`. -/
structure Waited (n : Nat) (q : System) : Prop where
  entry : q.tab.porttab 0 = ⟨0, 1, .alloc, 0, int32 n, none, none⟩
  ssem : q.tab.semtab 0 = Ports.entry { count := 0 }
  rsem : q.tab.semtab 1 = Ports.entry { count := 0 }
  free : q.tab.ptfree = some 0
  idle : q.tab.calls 1 = none
  ready : q.tab.ready 1 = true ∧ q.tab.ready 2 = true
  waits : q.tab.calls 2 = some (.send 0 1 7)
  going : q.tab.halted = false
  gen : q.gen 0 = n
  since : q.since 2 0 = 1

/-- `semreset` on a semaphore that has its count. -/
theorem semreset_same {x : Int} (hx : ¬isbadsem x) (he : s.semtab x = entry { count := 0 }) :
    s.semreset x 0 = s := by
  rw [semreset_eq (le_refl 0) hx he, woken_nil]
  unfold PortTable.putSem
  rw [← he, Function.update_eq_self]

/-- `_ptclear` on such a port. -/
theorem Waited.ptclear {n : Nat} (h : Waited n q) : q.tab.ptclear nodes 0 .alloc =
    { q.tab with porttab := Function.update q.tab.porttab 0 ⟨0, 1, .limbo, 0, int32 (n + 1), none, none⟩ } := by
  have hfreed : (q.tab.setPort 0 fun e => { e with ptstate := .limbo, ptseq := int32 (e.ptseq + 1) }).freeMessages
      nodes 0 = { q.tab.setPort 0 fun e => { e with ptstate := .limbo, ptseq := int32 (e.ptseq + 1) } with
        ptnext := q.tab.ptnext, ptfree := q.tab.ptfree, trace := q.tab.trace } := by
    unfold PortTable.freeMessages
    rw [setPort_self, h.entry]
    rfl
  have hentry : Good.ended .alloc (q.tab.porttab 0) = ⟨0, 1, .limbo, 0, int32 (n + 1), none, none⟩ := by
    rw [h.entry]
    unfold Good.ended
    rw [int32_succ]
    rfl
  rw [Good.ptclear_eq _ hfreed, hentry]
  dsimp only
  rw [if_pos rfl, h.entry]
  have hid : ({ q.tab with
      porttab := Function.update q.tab.porttab 0 ⟨0, 1, .limbo, 0, int32 (n + 1), none, none⟩ } :
        PortTable).id (0, .send) = 0 := by
    unfold PortTable.id
    dsimp only
    rw [Function.update_self]
    rfl
  rw [hid]
  exact semreset_same (by decide) h.ssem

theorem step_resume (hgo : s.halted = false) (hc : s.calls pid = some c) (hr : s.ready pid = true) :
    step nodes pid .resume s = some (c.run pid s) := by
  unfold step
  rw [if_neg (by rw [hgo]; exact Bool.false_ne_true), hc]
  exact if_pos hr

theorem calls_setCall (pid : Pid) (c : Option Call) (s : PortTable) :
    (s.setCall pid c).calls pid = c := Function.update_self _ _ _

theorem advance_gen_moved (h : (t.porttab port).ptseq ≠ (q.tab.porttab port).ptseq) :
    (q.advance pid o t).gen port = q.gen port + 1 := if_neg h

theorem advance_gen_kept (h : (t.porttab port).ptseq = (q.tab.porttab port).ptseq) :
    (q.advance pid o t).gen port = q.gen port := if_pos h

theorem setCall_setCall (c c' : Option Call) (s : PortTable) :
    (s.setCall pid c).setCall pid c' = s.setCall pid c' := by
  unfold PortTable.setCall
  dsimp only
  rw [Function.update_idem]

/-- A step of a run. -/
theorem run_step (r : (machine nodes).Run Small tr q) (hok : Small q (pid, a))
    (h : step nodes pid a q.tab = some (o, t)) :
    (machine nodes).Run Small ((pid, a, o) :: tr) (q.advance pid o t) := by
  have hstep : (machine nodes).step q (pid, a) = some (q.advance pid o t, [(pid, a, o)]) := by
    change (step nodes pid a q.tab).map _ = _
    rw [h]
    rfl
  exact r.step hok hstep

/-- A reset moves the port to the next generation, and nothing else. -/
theorem Waited.reset {n : Nat} (h : Waited n q) (r : (machine nodes).Run Small tr q) :
    ∃ tr' q', (machine nodes).Run Small tr' q' ∧ Waited (n + 1) q' := by
  obtain ⟨t, ht⟩ : ∃ t : PortTable, t = { q.tab with
      porttab := Function.update q.tab.porttab 0 ⟨0, 1, .limbo, 0, int32 (n + 1), none, none⟩ } := ⟨_, rfl⟩
  have hentry : t.porttab 0 = ⟨0, 1, .limbo, 0, int32 (n + 1), none, none⟩ := by
    rw [ht]
    dsimp only
    rw [Function.update_self]
  have hrest : t.semtab = q.tab.semtab ∧ t.ptfree = q.tab.ptfree ∧ t.calls = q.tab.calls ∧
      t.ready = q.tab.ready ∧ t.halted = q.tab.halted := by
    rw [ht]
    exact ⟨rfl, rfl, rfl, rfl, rfl⟩
  obtain ⟨hsemtab, hfree, hcalls, hready, hhalted⟩ := hrest
  have hbad : ¬q.tab.badPort 0 := by
    refine not_or.mpr ⟨by decide, not_not.mpr ?_⟩
    rw [h.entry]
  have hresume : ∀ c, step nodes 1 .resume (t.setCall 1 (some c)) =
      some (c.run 1 (t.setCall 1 (some c))) := fun c =>
    step_resume (hhalted.trans h.going) (calls_setCall 1 (some c) t)
      ((congrFun hready 1).trans h.ready.1)
  -- the three steps
  have hfirst : step nodes 1 (.reset 0) q.tab =
      some (.yielded, t.setCall 1 (some (.clear 0 .alloc))) := by
    unfold step
    rw [if_neg (by rw [h.going]; exact Bool.false_ne_true), h.idle]
    change some (q.tab.ptend nodes 1 0 .alloc) = _
    rw [PortTable.ptend, if_neg hbad, h.ptclear, ← ht]
  have hsecond : step nodes 1 .resume (t.setCall 1 (some (.clear 0 .alloc))) =
      some (.yielded, t.setCall 1 (some (.cleared 0 .alloc))) := by
    rw [hresume]
    have hsame : (t.setCall 1 (some (.clear 0 .alloc))).ptclearNext 0 .alloc =
        t.setCall 1 (some (.clear 0 .alloc)) := by
      unfold PortTable.ptclearNext
      rw [if_pos rfl]
      change (t.setCall 1 (some (.clear 0 .alloc))).semreset (t.porttab 0).ptrsem 0 = _
      have hsem : (t.setCall 1 (some (.clear 0 .alloc))).semtab 1 = Ports.entry { count := 0 } := by
        change t.semtab 1 = _
        rw [hsemtab]
        exact h.rsem
      have hgood : ¬isbadsem 1 := by decide
      rw [hentry]
      exact semreset_same hgood hsem
    change some (Outcome.yielded, ((t.setCall 1 (some (.clear 0 .alloc))).ptclearNext 0 .alloc).setCall 1 _) = _
    rw [hsame, setCall_setCall]
  obtain ⟨t', ht'⟩ : ∃ t', t' = ((t.setCall 1 (some (.cleared 0 .alloc))).ptclearDone 0 .alloc).setCall 1 none :=
    ⟨_, rfl⟩
  have hthird : step nodes 1 .resume (t.setCall 1 (some (.cleared 0 .alloc))) = some (.ret OK, t') := by
    rw [hresume, ht']
    rfl
  have hok : ∀ q : System, Small q (1, .reset 0) ∧ Small q (1, .resume) := fun _ => ⟨trivial, trivial⟩
  have hr₁ := run_step r (hok _).1 hfirst
  have hr₂ := run_step hr₁ (hok _).2 hsecond
  have hr₃ := run_step hr₂ (hok _).2 hthird
  have hentry' : t'.porttab 0 = ⟨0, 1, .alloc, 0, int32 (n + 1), none, none⟩ := by
    rw [ht']
    change Function.update t.porttab 0 { t.porttab 0 with ptstate := .alloc } 0 = _
    rw [Function.update_self, hentry]
  have hcalls' : t'.calls = Function.update q.tab.calls 1 none := by
    rw [ht']
    change Function.update (Function.update t.calls 1 _) 1 none = _
    rw [Function.update_idem, hcalls]
  have hrest' : t'.semtab = q.tab.semtab ∧ t'.ptfree = q.tab.ptfree ∧ t'.ready = q.tab.ready ∧
      t'.halted = q.tab.halted := by
    rw [ht', ← hsemtab, ← hfree, ← hready, ← hhalted]
    exact ⟨rfl, rfl, rfl, rfl⟩
  obtain ⟨hsemtab', hfree', hready', hhalted'⟩ := hrest'
  refine ⟨_, _, hr₃, ?_, ?_, ?_, ?_, ?_, ?_, ?_, ?_, ?_, ?_⟩
  · change t'.porttab 0 = _
    rw [hentry']
    push_cast
    rfl
  · change t'.semtab 0 = _
    rw [hsemtab', h.ssem]
  · change t'.semtab 1 = _
    rw [hsemtab', h.rsem]
  · change t'.ptfree = _
    rw [hfree', h.free]
  · change t'.calls 1 = none
    rw [hcalls', Function.update_self]
  · change t'.ready 1 = true ∧ t'.ready 2 = true
    rw [hready']
    exact h.ready
  · change t'.calls 2 = _
    rw [hcalls', Function.update_of_ne (by decide)]
    exact h.waits
  · change t'.halted = false
    rw [hhalted', h.going]
  · have hmoved : ((t.setCall 1 (some (.clear 0 .alloc))).porttab 0).ptseq ≠
        (q.tab.porttab 0).ptseq := by
      change (t.porttab 0).ptseq ≠ _
      rw [hentry, h.entry]
      dsimp only
      exact int32_succ_ne n
    have hsame : (t'.porttab 0).ptseq = (t.porttab 0).ptseq := by
      rw [hentry', hentry]
    have hstill : ((t.setCall 1 (some (.cleared 0 .alloc))).porttab 0).ptseq =
        ((t.setCall 1 (some (.clear 0 .alloc))).porttab 0).ptseq := rfl
    rw [advance_gen_kept hsame, advance_gen_kept hstill, advance_gen_moved hmoved, h.gen]
  · exact h.since

/-- Process 2 waits on a port without room, which is reset. -/
def keepWaiting : List (Pid × Act) :=
  [(1, .create 0), (2, .send 0 7), (1, .reset 0), (1, .resume), (1, .resume)]

theorem waited_second : ∃ tr q, (machine 100).Run Small tr q ∧ Waited 2 q := by
  have hrun : ((machine 100).exec Small (boot 100) [] keepWaiting).any (fun r => decide (
      (r.1.tab.porttab 0 = ⟨0, 1, .alloc, 0, int32 2, none, none⟩ ∧
        r.1.tab.semtab 0 = Ports.entry { count := 0 } ∧ r.1.tab.semtab 1 = Ports.entry { count := 0 }) ∧
      (r.1.tab.ptfree = some 0 ∧ r.1.tab.calls 1 = none ∧
        r.1.tab.ready 1 = true ∧ r.1.tab.ready 2 = true) ∧
      r.1.tab.calls 2 = some (.send 0 1 7) ∧ r.1.tab.halted = false ∧ r.1.gen 0 = 2 ∧
        r.1.since 2 0 = 1)) := by
    decide +kernel
  obtain ⟨⟨q, tr⟩, hst, hq⟩ := (Option.any_eq_true _ _).mp hrun
  obtain ⟨⟨hentry, hssem, hrsem⟩, ⟨hfree, hidle, hready⟩, hwaits, hgoing, hgen, hsince⟩ :=
    of_decide_eq_true hq
  exact ⟨tr, q, Machine.exec_run (.start (boot_started 100)) hst,
    hentry, hssem, hrsem, hfree, hidle, hready, hwaits, hgoing, hgen, hsince⟩

theorem waited_all (k : Nat) : ∃ tr q, (machine 100).Run Small tr q ∧ Waited (2 + k) q := by
  induction k with
  | zero => exact waited_second
  | succ k ih =>
    obtain ⟨tr, q, hr, h⟩ := ih
    exact h.reset hr

/-- When the number of the generation comes round, the process that waited sends to a
later one. -/
theorem Waited.sends (h : Waited (2 + (2 ^ 32 - 1)) q) (nodes : Nat) :
    ∃ t, step nodes 2 .resume q.tab = some (.ret OK, t) ∧ ¬Answers q 2 .resume (.ret OK) t := by
  have hresume : step nodes 2 .resume q.tab = some ((q.tab.setCall 2 none).ptsendRest 0 1 7) :=
    step_resume h.going h.waits h.ready.2
  have hround : int32 ((2 + (2 ^ 32 - 1) : Nat) : Int) = 1 := by decide
  have hstale : ¬(q.tab.setCall 2 none).stale 0 1 := by
    refine not_or.mpr ⟨not_not.mpr ?_, not_not.mpr ?_⟩
    · change (q.tab.porttab 0).ptstate = _
      rw [h.entry]
    · change (q.tab.porttab 0).ptseq = _
      rw [h.entry]
      exact hround
  rw [PortTable.ptsendRest, if_neg hstale] at hresume
  have hfree : (q.tab.setCall 2 none).ptfree = some 0 := h.free
  rw [hfree] at hresume
  refine ⟨_, hresume, fun hans => ?_⟩
  have hwaiting : q.tab.waiting 2 = some ((0, .send), 1) := by
    unfold PortTable.waiting
    rw [h.waits]
    rfl
  have hgone : q.since 2 0 ≠ q.gen 0 := by
    rw [h.since, h.gen]
    decide
  cases (hans.refused (0, .send) 1 rfl hwaiting hgone).1

end Xinu.Ports
