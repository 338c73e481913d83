import XinuCMips.Ports.Units

/-!
# Generations that begin and end

A reset or deletion passes through three states of its port, and between two of them other
processes run: `_ptclear` disposes of the messages and releases the senders, then the
receivers, and last the port is open again, or free.

* `Good.clear`, `Good.clearNext`, `Good.clearDone` — the three parts of `_ptclear`;
* `Good.create`  — a new port.
-/

namespace Xinu.Ports

variable {nodes : Nat} {gen : Nat → Nat} {since : Pid → Nat → Nat} {hole : Option Key} {g : Ghost}
  {s s' : PortTable} {pid : Pid} {port : Nat} {k : Key} {seq : Int} {msg : Msg}

namespace Good

variable {g' : Ghost} {hole' : Option Key}

-- ---------------------------------------------------------------------------
-- Resets and deletions
-- ---------------------------------------------------------------------------

/-- The counts of the generations when one port moves on. -/
def bump (gen : Nat → Nat) (port : Nat) : Nat → Nat := Function.update gen port (gen port + 1)

theorem bump_self (gen : Nat → Nat) (port : Nat) : bump gen port port = gen port + 1 :=
  Function.update_self _ _ _

theorem bump_of_ne {p : Nat} (gen : Nat → Nat) (hp : p ≠ port) : bump gen port p = gen p :=
  Function.update_of_ne hp _ _

/-- Nobody goes by the generation that begins. -/
theorem since_lt (h : Good nodes gen since hole g s) (pid : Pid) :
    since pid port < bump gen port port := by
  have hle := h.gens.le pid port
  rw [bump_self]
  omega

/-- Whoever has been released goes by a generation that is gone. -/
def outdated (port : Nat) (sem : Key → Sema) (k : Key) : Sema :=
  { sem k with released := if k.1 = port then [] else (sem k).released }

theorem outdated_of_ne (hk : k.1 ≠ port) (sem : Key → Sema) : outdated port sem k = sem k := by
  unfold outdated
  rw [if_neg hk]

theorem queues_bump (h : Good nodes gen since hole g s) (port : Nat) :
    Queues (fun pid => (s.waiting pid).map Prod.fst) s.ready
      (fun pid p => since pid p = bump gen port p) (outdated port g.sem) :=
  h.queues.outdate (fun pid => (h.since_lt pid).ne) fun pid p hp => by rw [bump_of_ne gen hp]

/-- A port moves to another generation. -/
theorem gens_bump {g' : Ghost} (h : Good nodes gen since hole g s)
    (hseq : (s'.porttab port).ptseq = int32 ((s.porttab port).ptseq + 1))
    (hother : ∀ p, p ≠ port → (s'.porttab p).ptseq = (s.porttab p).ptseq ∧ g'.phase p = g.phase p ∧
      ∀ r, (g'.sem (p, r)).queue = (g.sem (p, r)).queue)
    (hwaiting : s'.waiting = s.waiting)
    (hempty : g'.phase port = .alloc → ∀ r, (g'.sem (port, r)).queue = []) :
    Gens s' (bump gen port) since g' := by
  have hlt : ∀ pid, since pid port < bump gen port port := h.since_lt
  refine ⟨fun p => ?_, fun pid p => ?_, fun pid k seq hw => ?_, fun k ha pid hp => ?_⟩
  · by_cases hp : p = port
    · rw [hp, hseq, h.gens.seq, int32_succ, bump_self]
      push_cast
      rfl
    · rw [(hother p hp).1, bump_of_ne gen hp]
      exact h.gens.seq p
  · by_cases hp : p = port
    · rw [hp]
      exact (hlt pid).le
    · rw [bump_of_ne gen hp]
      exact h.gens.le pid p
  · rw [hwaiting] at hw
    obtain ⟨hs, hcur⟩ := h.gens.waits pid k seq hw
    refine ⟨hs, fun heq => ?_⟩
    by_cases hp : k.1 = port
    · rw [hp] at heq
      exact absurd heq (hlt pid).ne
    · rw [bump_of_ne gen hp] at heq
      rw [(hother k.1 hp).2.1]
      exact hcur heq
  · by_cases hk : k.1 = port
    · have hnil := hempty (hk ▸ ha) k.2
      rw [← hk] at hnil
      change (g'.sem k).queue = [] at hnil
      rw [hnil] at hp
      cases hp
    · obtain ⟨-, hphase, hsem⟩ := hother k.1 hk
      rw [hphase] at ha
      rw [bump_of_ne gen hk]
      refine h.gens.queued k ha pid ?_
      have heq : (g'.sem k).queue = (g.sem k).queue := hsem k.2
      rwa [heq] at hp

-- ---------------------------------------------------------------------------
-- One port moves to another phase
-- ---------------------------------------------------------------------------

theorem chains_move {ph : Phase} {phase : Nat → Phase} {fl : List Node} {ql : Nat → List Node}
    {tidy : Nat → Prop} (h : Chains nodes fl ql tidy s) (hfree : s'.ptfree = s.ptfree)
    (hnext : s'.ptnext = s.ptnext)
    (hself : ph.Tidy →
      (tidy port ∧ (s'.porttab port).pthead = (s.porttab port).pthead ∧
        (s'.porttab port).pttail = (s.porttab port).pttail) ∨
      (ql port = [] ∧ (s'.porttab port).pthead = none ∧ (s'.porttab port).pttail = none))
    (hother : ∀ p, p ≠ port → ((phase p).Tidy → tidy p) ∧ s'.porttab p = s.porttab p) :
    Chains nodes fl ql (fun p => (Function.update phase port ph p).Tidy) s' := by
  refine h.frame hfree hnext fun p ht => ?_
  by_cases hp : p = port
  · rw [hp, Function.update_self] at ht
    rw [hp]
    exact hself ht
  · rw [Function.update_of_ne hp] at ht
    obtain ⟨htidy, hsame⟩ := hother p hp
    rw [hsame]
    exact .inl ⟨htidy ht, rfl, rfl⟩

theorem linked_move {ph : Phase} {phase : Nat → Phase} {id : Key → Int} {semtab : Int → Sem}
    {live : Key → Prop} {sem : Key → Sema} (h : Linked id semtab live sem)
    (hself : ∀ r, ph.Live r → live (port, r))
    (hother : ∀ k, k.1 ≠ port → (phase k.1).Live k.2 → live k) :
    Linked id semtab (fun k => (Function.update phase port ph k.1).Live k.2) sem := by
  refine h.mono fun k hk => ?_
  obtain ⟨p, r⟩ := k
  dsimp only at hk
  by_cases hp : p = port
  · rw [hp, Function.update_self] at hk
    rw [hp]
    exact hself r hk
  · rw [Function.update_of_ne hp] at hk
    exact hother (p, r) hp hk

/-- A port that is not opened is not in use. -/
theorem in_use {ph : Phase} {phase : Nat → Phase} {p : Nat} (hph : ph ≠ .alloc)
    (ha : Function.update phase port ph p = .alloc) : phase p = .alloc ∧ p ≠ port := by
  have hne : p ≠ port := by
    rintro rfl
    rw [Function.update_self] at ha
    exact hph ha
  rw [Function.update_of_ne hne] at ha
  exact ⟨ha, hne⟩

/-- Nobody goes by a generation of a port that is not in use. -/
theorem gens_move {ph : Phase} {sem : Key → Sema} (h : Good nodes gen since hole g s)
    (hph : g.phase port ≠ .alloc) (hseq : ∀ p, (s'.porttab p).ptseq = (s.porttab p).ptseq)
    (hwaiting : s'.waiting = s.waiting) (hsem : ∀ p, p ≠ port → ∀ r, sem (p, r) = g.sem (p, r))
    (hempty : ph = .alloc → ∀ r, (sem (port, r)).queue = []) :
    Gens s' gen since ⟨g.fl, g.ql, sem, Function.update g.phase port ph⟩ := by
  refine ⟨fun p => (hseq p).trans (h.gens.seq p), h.gens.le, fun p k seq hw => ?_,
    fun k ha p hin => ?_⟩
  · rw [hwaiting] at hw
    obtain ⟨hs, hcur⟩ := h.gens.waits p k seq hw
    refine ⟨hs, fun heq => ?_⟩
    have ha := hcur heq
    have hk : k.1 ≠ port := fun hk => hph (hk ▸ ha)
    exact (Function.update_of_ne hk _ _).trans ha
  · obtain ⟨p', r⟩ := k
    dsimp only at ha hin
    by_cases hk : p' = port
    · rw [hk, Function.update_self] at ha
      rw [hk, hempty ha r] at hin
      cases hin
    · rw [Function.update_of_ne hk] at ha
      rw [hsem p' hk r] at hin
      exact h.gens.queued (p', r) ha p hin

/-- A process that goes on from one part of a call to another where it waits in neither. -/
theorem waiting_same {c : Option Call} (hcalls : s'.calls = Function.update s.calls pid c)
    (hold : (s.calls pid).bind Call.waits = none) (hnew : c.bind Call.waits = none) :
    s'.waiting = s.waiting := by
  funext p
  unfold PortTable.waiting
  rw [hcalls]
  by_cases hp : p = pid
  · rw [hp, Function.update_self, hnew, hold]
  · rw [Function.update_of_ne hp]

/-- The semaphore of one role of a port is not one of another port. -/
theorem update_sem {p : Nat} {r r' : Role} {e : Sema} (sem : Key → Sema) (hp : p ≠ port) :
    Function.update sem (port, r') e (p, r) = sem (p, r) :=
  Function.update_of_ne (fun heq => hp (congrArg Prod.fst heq)) _ _

-- ---------------------------------------------------------------------------
-- Resets and deletions, part by part
-- ---------------------------------------------------------------------------

theorem endCall_inj {port port' : Nat} {st st' : PtState} {b b' : Bool}
    (h : endCall port st b = endCall port' st' b') : port = port' ∧ st = st' ∧ b = b' := by
  cases b with
  | false =>
    cases b' with
    | false =>
      obtain ⟨hp, hst⟩ := Call.clear.inj h
      exact ⟨hp, hst, rfl⟩
    | true => cases h
  | true =>
    cases b' with
    | false => cases h
    | true =>
      obtain ⟨hp, hst⟩ := Call.cleared.inj h
      exact ⟨hp, hst, rfl⟩

/-- One process goes on in the reset or deletion of one port, or begins or ends it. -/
theorem phases_update {ph : Phase} {c : Option Call} {phase : Nat → Phase} (h : Phases s phase)
    (hp : port < NPORTS)
    (hstate : ∀ p, (s'.porttab p).ptstate = if p = port then ph.state else (s.porttab p).ptstate)
    (hcalls : s'.calls = Function.update s.calls pid c)
    (hinto : ∀ p st b, ph = .ending p st b → st ≠ .limbo)
    (hold : ∀ p st b, s.calls pid = some (endCall p st b) → p = port)
    (hnew : ∀ p st b, c = some (endCall p st b) ↔ p = port ∧ ph = .ending pid st b)
    (hothers : ∀ p st b, p ≠ pid → phase port ≠ .ending p st b ∧ ph ≠ .ending p st b) :
    Phases s' (Function.update phase port ph) := by
  refine ⟨fun p => ?_, fun p hne => ?_, fun p pid st b heq => ?_, fun p port' st b => ?_⟩
  · rw [hstate]
    by_cases heq : p = port
    · rw [if_pos heq, heq, Function.update_self]
    · rw [if_neg heq, Function.update_of_ne heq]
      exact h.state p
  · by_cases heq : p = port
    · rw [heq]
      exact hp
    · rw [Function.update_of_ne heq] at hne
      exact h.inside p hne
  · by_cases hpp : p = port
    · rw [hpp, Function.update_self] at heq
      exact hinto pid st b heq
    · rw [Function.update_of_ne hpp] at heq
      exact h.into p pid st b heq
  · rw [hcalls]
    by_cases hpid : p = pid
    · rw [hpid, Function.update_self, hnew]
      by_cases hpp : port' = port
      · rw [hpp, Function.update_self]
        exact and_iff_right rfl
      · rw [Function.update_of_ne hpp, ← h.ends]
        exact iff_of_false (fun hc => hpp hc.1) fun hc => hpp (hold port' st b hc)
    · rw [Function.update_of_ne hpid, h.ends]
      by_cases hpp : port' = port
      · rw [hpp, Function.update_self]
        exact iff_of_false (hothers p st b hpid).1 (hothers p st b hpid).2
      · rw [Function.update_of_ne hpp]

theorem endCall_iff {newstate st : PtState} {b b' : Bool} {p : Nat} :
    some (endCall port newstate b) = some (endCall p st b') ↔
      p = port ∧ Phase.ending pid newstate b = .ending pid st b' := by
  constructor
  · intro heq
    obtain ⟨rfl, rfl, rfl⟩ := endCall_inj (Option.some.inj heq)
    exact ⟨rfl, rfl⟩
  · rintro ⟨rfl, hph⟩
    obtain ⟨-, rfl, rfl⟩ := Phase.ending.inj hph
    rfl

/-- The process has one of the middle parts of the reset or deletion before it. -/
theorem phases_ending {newstate : PtState} {b : Bool} {phase : Nat → Phase} (h : Phases s phase)
    (hp : port < NPORTS)
    (hstate : ∀ p, (s'.porttab p).ptstate = if p = port then .limbo else (s.porttab p).ptstate)
    (hcalls : s'.calls = Function.update s.calls pid (some (endCall port newstate b)))
    (hst : newstate ≠ .limbo)
    (hold : ∀ p st b, s.calls pid = some (endCall p st b) → p = port)
    (hothers : ∀ p st b, p ≠ pid → phase port ≠ .ending p st b) :
    Phases s' (Function.update phase port (.ending pid newstate b)) := by
  refine phases_update h hp hstate hcalls (fun p st b heq => ?_) hold
    (fun p st b => endCall_iff) fun p st b hne => ⟨hothers p st b hne, fun heq => ?_⟩
  · obtain ⟨-, rfl, -⟩ := Phase.ending.inj heq
    exact hst
  · exact hne (Phase.ending.inj heq).1.symm

/-- The entry of a port that `_ptclear` has emptied. -/
def ended (newstate : PtState) (e : Ptentry) : Ptentry :=
  { e with
    ptstate := .limbo
    ptseq := int32 (e.ptseq + 1)
    pthead := if newstate = .alloc then none else e.pthead
    pttail := if newstate = .alloc then none else e.pttail }

theorem ended_sem (newstate : PtState) (r : Role) (e : Ptentry) : (ended newstate e).sem r = e.sem r := by
  cases r with
  | send => rfl
  | recv => rfl

theorem ptclear_eq {next : Node → Option Node} {free : Option Node} {tr : List Event}
    (newstate : PtState)
    (hfreed : (s.setPort port fun e => { e with ptstate := .limbo, ptseq := int32 (e.ptseq + 1) }).freeMessages
      nodes port = { s.setPort port fun e => { e with ptstate := .limbo, ptseq := int32 (e.ptseq + 1) } with
        ptnext := next, ptfree := free, trace := tr }) :
    s.ptclear nodes port newstate =
      let t := { s with
        porttab := Function.update s.porttab port (ended newstate (s.porttab port))
        ptnext := next
        ptfree := free
        trace := tr }
      if newstate = .alloc then t.semreset (t.id (port, .send)) (s.porttab port).ptmaxcnt
      else t.semdelete (t.id (port, .send)) := by
  unfold PortTable.ptclear
  dsimp only
  rw [hfreed]
  by_cases hst : newstate = .alloc
  · rw [if_pos hst, if_pos hst]
    simp [PortTable.setPort, PortTable.id, Ptentry.sem, ended, hst]
  · rw [if_neg hst, if_neg hst]
    simp [PortTable.setPort, PortTable.id, Ptentry.sem, ended, hst]

/-- `t` has another entry for one port, and the events `evs` behind those of `s`. -/
structure Entered (s : PortTable) (port : Nat) (e : Ptentry) (evs : List Event)
    (t : PortTable) : Prop where
  porttab : t.porttab = Function.update s.porttab port e
  trace : t.trace = evs ++ s.trace
  ptmsg : t.ptmsg = s.ptmsg
  calls : t.calls = s.calls
  ready : t.ready = s.ready
  halted : t.halted = s.halted

namespace Entered

variable {e : Ptentry} {evs : List Event} {t : PortTable}

theorem entry (h : Entered s port e evs t) : t.porttab port = e := by
  rw [h.porttab, Function.update_self]

theorem other {p : Nat} (h : Entered s port e evs t) (hp : p ≠ port) :
    t.porttab p = s.porttab p := by
  rw [h.porttab, Function.update_of_ne hp]

/-- The entry has the semaphores that it had. -/
theorem id (h : Entered s port e evs t) (he : ∀ r, e.sem r = (s.porttab port).sem r) :
    t.id = s.id := by
  funext k
  unfold PortTable.id
  rw [h.porttab]
  by_cases hk : k.1 = port
  · rw [hk, Function.update_self, he]
  · rw [Function.update_of_ne hk]

end Entered

/-- `_ptclear` disposes of the messages. -/
theorem empties (h : Good nodes gen since none g s) (ha : g.phase port = .alloc)
    (newstate : PtState) (pid : Pid) :
    ∃ t fl, s.ptclear nodes port newstate =
        (if newstate = .alloc then t.semreset (t.id (port, .send)) (s.porttab port).ptmaxcnt
          else t.semdelete (t.id (port, .send))) ∧
      Entered s port (ended newstate (s.porttab port))
        (((g.ql port).map s.ptmsg).map (Event.disposed port)).reverse t ∧
      (t.semtab = s.semtab ∧ t.nextsem = s.nextsem ∧ t.ptnextid = s.ptnextid) ∧
      Chains nodes fl (Function.update g.ql port [])
        (fun p => (Function.update g.phase port (.ending pid newstate false) p).Tidy) t := by
  have hp : port < NPORTS := h.phases.inside port (by rw [ha]; exact nofun)
  have htidy : (g.phase port).Tidy := by rw [ha]; trivial
  obtain ⟨s₁, hs₁⟩ : ∃ t, t = s.setPort port fun e =>
    { e with ptstate := .limbo, ptseq := int32 (e.ptseq + 1) } := ⟨_, rfl⟩
  have hchains₁ : Chains nodes g.fl g.ql (fun p => (g.phase p).Tidy) s₁ := by
    rw [hs₁]
    refine h.chains.frame rfl rfl fun p ht => .inl ⟨ht, ?_⟩
    by_cases heq : p = port
    · rw [heq, setPort_self]
      exact ⟨rfl, rfl⟩
    · have hsame : (s.setPort port fun e =>
          { e with ptstate := .limbo, ptseq := int32 (e.ptseq + 1) }).porttab p = s.porttab p :=
        Function.update_of_ne heq _ _
      rw [hsame]
      exact ⟨rfl, rfl⟩
  obtain ⟨next, free, hfreed, fl, hchains₂⟩ := hchains₁.freeMessages hp htidy
  rw [hs₁] at hfreed hchains₂
  refine ⟨_, fl, ptclear_eq newstate hfreed, ⟨rfl, rfl, rfl, rfl, rfl, rfl⟩, ⟨rfl, rfl, rfl⟩, ?_⟩
  refine chains_move hchains₂ rfl rfl (fun hnew => ?_) fun p hne => ⟨fun ht => ⟨hne, ht⟩, ?_⟩
  · change newstate = .alloc at hnew
    rw [Function.update_self]
    refine .inr ⟨rfl, ?_, ?_⟩
    · dsimp only
      rw [Function.update_self]
      exact if_pos hnew
    · dsimp only
      rw [Function.update_self]
      exact if_pos hnew
  · simp [PortTable.setPort, hne]

/-- A semaphore of a port is reset or deleted, and all processes are released. -/
theorem linked_release {count : Int} {live : Key → Prop} {sem : Key → Sema} (newstate : PtState)
    (h : Linked s.id s.semtab live sem) (hk : live k) (hok : (sem k).Ok) (hc : 0 ≤ count) :
    ∃ tab, (if newstate = .alloc then s.semreset (s.id k) count else s.semdelete (s.id k)) =
        { s with semtab := tab, ready := woken (sem k).queue s.ready } ∧
      Linked s.id tab (fun k' => live k' ∧ (newstate = .alloc ∨ k' ≠ k))
        (Function.update sem k { count := count }) := by
  by_cases hnew : newstate = .alloc
  · rw [if_pos hnew]
    obtain ⟨tab, hreset, hl⟩ := h.reset hk hc
    exact ⟨tab, hreset, hl.mono fun k' hk' => hk'.1⟩
  · rw [if_neg hnew]
    obtain ⟨tab, hdelete, hl⟩ := h.delete hk hok { count := count }
    exact ⟨tab, hdelete, hl.mono fun k' hk' => ⟨hk'.1, hk'.2.resolve_left hnew⟩⟩

/-- `_ptclear` disposes of the messages and releases the senders. -/
theorem clear {newstate : PtState} (h : Good nodes gen since none g s) (ha : g.phase port = .alloc)
    (hidle : s.calls pid = none) (hst : newstate ≠ .limbo) :
    (s.ptclear nodes port newstate).halted = s.halted ∧
      ∃ g', Good nodes (bump gen port) since none g'
        ((s.ptclear nodes port newstate).setCall pid (some (.clear port newstate))) := by
  have hp : port < NPORTS := h.phases.inside port (by rw [ha]; exact nofun)
  have hending : Phase.ending pid newstate false ≠ .alloc := nofun
  obtain ⟨t, fl, hclear, he, ⟨hsemtab, hnextsem, hnextid⟩, hchains⟩ := h.empties ha newstate pid
  have hqueues := h.queues_bump port
  have hlinked : Linked t.id t.semtab (fun k => (g.phase k.1).Live k.2) (outdated port g.sem) := by
    rw [he.id fun r => ended_sem newstate r _, hsemtab]
    exact h.linked.congr _ fun _ => ⟨rfl, rfl⟩
  have hlive : (g.phase port).Live .send := by rw [ha]; trivial
  obtain ⟨tab, hreleased, hlinked'⟩ := linked_release (k := (port, .send)) newstate hlinked hlive
    (hqueues.ok _) (Int.natCast_nonneg (s.porttab port).ptmaxcnt)
  rw [hclear, hreleased]
  have hcalls : Function.update t.calls pid (some (endCall port newstate false)) =
      Function.update s.calls pid (some (endCall port newstate false)) := by rw [he.calls]
  have hwaiting : ({ t with semtab := tab, ready := woken (outdated port g.sem (port, .send)).queue t.ready }.setCall
      pid (some (.clear port newstate))).waiting = s.waiting :=
    waiting_same hcalls (by rw [hidle]; rfl) rfl
  refine ⟨he.halted, ⟨fl, Function.update g.ql port [],
    Function.update (outdated port g.sem) (port, .send) { count := (s.porttab port).ptmaxcnt },
    Function.update g.phase port (.ending pid newstate false)⟩,
    hchains.same rfl rfl rfl, ?_, ?_, ?_, ?_, ?_, ?_, ?_, ?_⟩
  · change Recorded t.trace (fun p => (Function.update g.ql port [] p).map t.ptmsg) _
    rw [he.trace, he.ptmsg]
    refine (h.recorded.disposed port).congr (fun p => ?_) fun p hp => in_use hending hp
    by_cases heq : p = port
    · rw [heq, Function.update_self, Function.update_self]
      rfl
    · rw [Function.update_of_ne heq, Function.update_of_ne heq]
  · refine linked_move hlinked' (fun r hr => ⟨by rw [ha]; trivial, ?_⟩) fun k hne hk =>
      ⟨hk, .inr fun heq => hne (congrArg Prod.fst heq)⟩
    rcases hr with hnew | ⟨rfl, -⟩
    · exact .inl hnew
    · exact .inr (by simp)
  · rw [hwaiting]
    change Queues _ (woken (g.sem (port, .send)).queue t.ready) _ _
    rw [he.ready]
    exact hqueues.reset (fun pid _ => (h.since_lt pid).ne)
      (Int.natCast_nonneg (s.porttab port).ptmaxcnt)
  · refine phases_ending h.phases hp (fun p => ?_) hcalls hst (fun p st b heq => ?_)
      fun p st b _ => by rw [ha]; exact nofun
    · change (t.porttab p).ptstate = _
      by_cases heq : p = port
      · rw [if_pos heq, heq, he.entry]
        rfl
      · rw [if_neg heq, he.other heq]
    · rw [hidle] at heq
      cases heq
  · refine h.gens_bump ?_ (fun p hne => ⟨?_, Function.update_of_ne hne _ _, fun r => ?_⟩) hwaiting
      fun heq => ?_
    · change (t.porttab port).ptseq = _
      rw [he.entry]
      rfl
    · change (t.porttab p).ptseq = _
      rw [he.other hne]
    · dsimp only
      rw [update_sem _ hne]
      rfl
    · dsimp only at heq
      rw [Function.update_self] at heq
      cases heq
  · refine h.counts_of ⟨fl, Function.update g.ql port [],
      Function.update (outdated port g.sem) (port, .send) { count := (s.porttab port).ptmaxcnt },
      Function.update g.phase port (.ending pid newstate false)⟩ _ port
      (fun p hne => ⟨?_, Function.update_of_ne hne _ _, fun r => ?_, fun _ => rfl,
        Function.update_of_ne hne _ _⟩) ?_
    · change (t.porttab p).ptmaxcnt = _
      rw [he.other hne]
    · dsimp only
      rw [update_sem _ hne, outdated_of_ne (k := (p, r)) hne]
    · have hmax : (t.porttab port).ptmaxcnt = (s.porttab port).ptmaxcnt := by
        rw [he.entry]
        rfl
      change Counts (t.porttab port).ptmaxcnt (Function.update g.ql port [] port).length _ _
        (Function.update g.phase port _ port)
      rw [Function.update_self, Function.update_self, hmax]
      exact ⟨rfl, Function.update_self _ _ _, nofun⟩
  · change 0 ≤ t.nextsem ∧ t.nextsem < NSEM
    rw [hnextsem]
    exact h.nextsem
  · change t.ptnextid < NPORTS
    rw [hnextid]
    exact h.nextid

/-- Then it releases the receivers. -/
theorem clearNext {newstate : PtState} (h : Good nodes gen since none g s)
    (hc : s.calls pid = some (.clear port newstate)) :
    (s.ptclearNext port newstate).halted = s.halted ∧ ∃ g', Good nodes gen since none g'
      ((s.ptclearNext port newstate).setCall pid (some (.cleared port newstate))) := by
  have hph : g.phase port = .ending pid newstate false := (h.phases.ends pid port newstate false).mp hc
  have hp : port < NPORTS := h.phases.inside port (by rw [hph]; exact nofun)
  have hending : Phase.ending pid newstate true ≠ .alloc := nofun
  have hlive : (g.phase port).Live .recv := by
    rw [hph]
    exact .inr ⟨rfl, rfl⟩
  have hcounts := h.counts port
  rw [hph] at hcounts
  obtain ⟨hempty, hsend, -⟩ := hcounts
  obtain ⟨tab, hreleased, hlinked⟩ := linked_release (k := (port, .recv)) newstate h.linked hlive
    (h.queues.ok _) (le_refl 0)
  have hclear : s.ptclearNext port newstate = _ := hreleased
  rw [hclear]
  have hwaiting : ({ s with semtab := tab, ready := woken (g.sem (port, .recv)).queue s.ready }.setCall
      pid (some (.cleared port newstate))).waiting = s.waiting :=
    waiting_same rfl (by rw [hc]; rfl) rfl
  refine ⟨rfl, ⟨g.fl, g.ql, Function.update g.sem (port, .recv) { count := 0 },
    Function.update g.phase port (.ending pid newstate true)⟩,
    ?_, ?_, ?_, ?_, ?_, ?_, ?_, h.nextsem, h.nextid⟩
  · refine chains_move h.chains rfl rfl (fun ht => .inl ⟨?_, rfl, rfl⟩) fun p _ =>
      ⟨fun ht => ht, rfl⟩
    rw [hph]
    exact ht
  · exact h.recorded.congr (fun _ => rfl) fun p hp => (in_use hending hp).1
  · refine linked_move hlinked (fun r hr => ?_) fun k hne hk =>
      ⟨hk, .inr fun heq => hne (congrArg Prod.fst heq)⟩
    have hnew : newstate = .alloc := hr.resolve_right fun hr => nomatch hr.2
    rw [hph]
    exact ⟨.inl hnew, .inl hnew⟩
  · rw [hwaiting]
    refine h.queues.reset (fun p hw hcur => ?_) (le_refl 0)
    obtain ⟨⟨k, seq⟩, hw, rfl⟩ := Option.map_eq_some_iff.mp hw
    cases hph.symm.trans ((h.gens.waits p _ seq hw).2 hcur)
  · refine phases_ending (b := true) h.phases hp (fun p => ?_) rfl
      (h.phases.into port pid newstate false hph) (fun p st b heq => ?_) fun p st b hne => ?_
    · change (s.porttab p).ptstate = _
      by_cases heq : p = port
      · rw [if_pos heq, heq, h.phases.state, hph]
        rfl
      · rw [if_neg heq]
    · rw [hc] at heq
      exact (endCall_inj (b := false) (Option.some.inj heq)).1.symm
    · rw [hph]
      exact fun heq => hne (Phase.ending.inj heq).1.symm
  · exact h.gens_move (by rw [hph]; exact nofun) (fun _ => rfl) hwaiting
      (fun p hne r => update_sem _ hne) nofun
  · refine h.counts_of ⟨g.fl, g.ql, Function.update g.sem (port, .recv) { count := 0 },
      Function.update g.phase port (.ending pid newstate true)⟩ _ port
      (fun p hne => ⟨rfl, rfl, fun r => update_sem _ hne, fun _ => rfl,
        Function.update_of_ne hne _ _⟩) ?_
    change Counts _ _ _ _ (Function.update g.phase port _ port)
    rw [Function.update_self]
    refine ⟨hempty, ?_, fun _ => Function.update_self _ _ _⟩
    dsimp only
    rw [Function.update_of_ne (by simp)]
    exact hsend

theorem ptclearDone_entered (s : PortTable) (port : Nat) (newstate : PtState) :
    Entered s port { s.porttab port with ptstate := newstate }
      (if newstate = .alloc then [.opened port] else []) (s.ptclearDone port newstate) ∧
    (s.ptclearDone port newstate).ptfree = s.ptfree ∧
    (s.ptclearDone port newstate).ptnext = s.ptnext ∧
    (s.ptclearDone port newstate).semtab = s.semtab ∧
    (s.ptclearDone port newstate).nextsem = s.nextsem := by
  unfold PortTable.ptclearDone
  dsimp only
  by_cases hnew : newstate = .alloc
  · rw [if_pos hnew, if_pos hnew]
    exact ⟨⟨rfl, rfl, rfl, rfl, rfl, rfl⟩, rfl, rfl, rfl, rfl⟩
  · rw [if_neg hnew, if_neg hnew]
    exact ⟨⟨rfl, rfl, rfl, rfl, rfl, rfl⟩, rfl, rfl, rfl, rfl⟩

/-- The port is open again, or free. -/
theorem clearDone {newstate : PtState} (h : Good nodes gen since none g s)
    (hc : s.calls pid = some (.cleared port newstate)) :
    (s.ptclearDone port newstate).halted = s.halted ∧ ∃ g', Good nodes gen since none g'
      ((s.ptclearDone port newstate).setCall pid none) := by
  have hph : g.phase port = .ending pid newstate true := (h.phases.ends pid port newstate true).mp hc
  have hp : port < NPORTS := h.phases.inside port (by rw [hph]; exact nofun)
  obtain ⟨ph, hph'⟩ : ∃ ph, ph = if newstate = .alloc then Phase.alloc else .free := ⟨_, rfl⟩
  have hfinal : ph = .alloc ∧ newstate = .alloc ∨ ph = .free ∧ newstate = .free := by
    cases newstate with
    | alloc => exact .inl ⟨hph', rfl⟩
    | free => exact .inr ⟨hph', rfl⟩
    | limbo => exact absurd rfl (h.phases.into port pid .limbo true hph)
  have hnot : ∀ p st b, ph ≠ .ending p st b := by
    intro p st b heq
    rcases hfinal with ⟨hal, -⟩ | ⟨hfr, -⟩
    · cases hal.symm.trans heq
    · cases hfr.symm.trans heq
  have hcounts := h.counts port
  rw [hph] at hcounts
  obtain ⟨hempty, hsend, hrecv⟩ := hcounts
  dsimp only at hempty hsend hrecv
  have hnil : g.ql port = [] := List.eq_nil_of_length_eq_zero (by omega)
  have hqueue : ∀ r, (g.sem (port, r)).queue = [] := by
    intro r
    cases r with
    | send => rw [hsend]
    | recv => rw [hrecv rfl]
  have hnextid : (s.ptclearDone port newstate).ptnextid < NPORTS := by
    unfold PortTable.ptclearDone
    dsimp only
    split
    · exact h.nextid
    · exact hp
  obtain ⟨he, hfree, hnext, hsemtab, hnextsem⟩ := ptclearDone_entered s port newstate
  obtain ⟨t, ht⟩ : ∃ t, t = s.ptclearDone port newstate := ⟨_, rfl⟩
  rw [← ht] at he hfree hnext hsemtab hnextsem hnextid ⊢
  have hid : t.id = s.id := he.id fun r => by
    cases r with
    | send => rfl
    | recv => rfl
  have hcalls : Function.update t.calls pid none = Function.update s.calls pid none := by rw [he.calls]
  have hwaiting : (t.setCall pid none).waiting = s.waiting :=
    waiting_same hcalls (by rw [hc]; rfl) rfl
  refine ⟨he.halted, ⟨g.fl, g.ql, g.sem, Function.update g.phase port ph⟩,
    ?_, ?_, ?_, ?_, ?_, ?_, ?_, ?_, hnextid⟩
  · refine chains_move h.chains hfree hnext (fun ht => .inl ⟨?_, ?_⟩) fun p hne =>
      ⟨fun ht => ht, he.other hne⟩
    · rw [hph]
      rcases hfinal with ⟨-, hnew⟩ | ⟨hfr, -⟩
      · exact hnew
      · rw [hfr] at ht
        exact ht.elim
    · change (t.porttab port).pthead = _ ∧ (t.porttab port).pttail = _
      rw [he.entry]
      exact ⟨rfl, rfl⟩
  · change Recorded t.trace (fun p => (g.ql p).map t.ptmsg) _
    rw [he.trace, he.ptmsg]
    rcases hfinal with ⟨-, hnew⟩ | ⟨hfr, hnew⟩
    · rw [if_pos hnew]
      refine h.recorded.opened (by rw [hnil]; rfl) fun p hne ha => ?_
      dsimp only at ha
      rwa [Function.update_of_ne hne] at ha
    · rw [if_neg (by rw [hnew]; exact nofun)]
      exact h.recorded.congr (fun _ => rfl) fun p ha => (in_use (by rw [hfr]; exact nofun) ha).1
  · change Linked t.id t.semtab _ _
    rw [hid, hsemtab]
    refine linked_move h.linked (fun r hr => ?_) fun k _ hk => hk
    rw [hph]
    rcases hfinal with ⟨-, hnew⟩ | ⟨hfr, -⟩
    · exact .inl hnew
    · rw [hfr] at hr
      exact hr.elim
  · rw [hwaiting]
    change Queues _ t.ready _ _
    rw [he.ready]
    exact h.queues
  · refine phases_update h.phases hp (fun p => ?_) hcalls (fun p st b heq => absurd heq (hnot p st b))
      (fun p st b heq => ?_) (fun p st b => iff_of_false nofun fun heq => hnot pid st b heq.2)
      fun p st b hne => ⟨?_, hnot p st b⟩
    · change (t.porttab p).ptstate = _
      by_cases heq : p = port
      · rw [if_pos heq, heq, he.entry]
        rcases hfinal with ⟨hal, hnew⟩ | ⟨hfr, hnew⟩
        · rw [hal, hnew]
          rfl
        · rw [hfr, hnew]
          rfl
      · rw [if_neg heq, he.other heq]
    · rw [hc] at heq
      exact (endCall_inj (b := true) (Option.some.inj heq)).1.symm
    · rw [hph]
      exact fun heq => hne (Phase.ending.inj heq).1.symm
  · refine h.gens_move (by rw [hph]; exact nofun) (fun p => ?_) hwaiting (fun _ _ _ => rfl)
      fun _ => hqueue
    change (t.porttab p).ptseq = _
    by_cases heq : p = port
    · rw [heq, he.entry]
    · rw [he.other heq]
  · refine h.counts_of ⟨g.fl, g.ql, g.sem, Function.update g.phase port ph⟩ _ port (fun p hne =>
      ⟨?_, rfl, fun _ => rfl, fun _ => rfl, Function.update_of_ne hne _ _⟩) ?_
    · change (t.porttab p).ptmaxcnt = _
      rw [he.other hne]
    · change Counts (t.porttab port).ptmaxcnt (g.ql port).length (fun r => g.sem (port, r)) _
        (Function.update g.phase port ph port)
      rw [Function.update_self, he.entry]
      rcases hfinal with ⟨hal, -⟩ | ⟨hfr, -⟩
      · rw [hal]
        refine ⟨?_, ?_⟩
        · dsimp only
          rw [hsend, hempty, held_none]
          unfold Sema.units
          simp
        · dsimp only
          rw [hrecv rfl, hempty, held_none]
          rfl
      · rw [hfr]
        exact ⟨hempty, hqueue⟩
  · change 0 ≤ t.nextsem ∧ t.nextsem < NSEM
    rw [hnextsem]
    exact h.nextsem

-- ---------------------------------------------------------------------------
-- New ports
-- ---------------------------------------------------------------------------

/-- The semaphores of a new port. -/
def renewed (port : Nat) (count : Int) (sem : Key → Sema) : Key → Sema :=
  Function.update (Function.update sem (port, .send) { count := count }) (port, .recv) { count := 0 }

theorem renewed_send (port : Nat) (count : Int) (sem : Key → Sema) :
    renewed port count sem (port, .send) = { count := count } := by
  unfold renewed
  rw [Function.update_of_ne (by simp), Function.update_self]

theorem renewed_recv (port : Nat) (count : Int) (sem : Key → Sema) :
    renewed port count sem (port, .recv) = { count := 0 } :=
  Function.update_self _ _ _

theorem renewed_of_ne {p : Nat} {r : Role} (hp : p ≠ port) (count : Int) (sem : Key → Sema) :
    renewed port count sem (p, r) = sem (p, r) :=
  (update_sem _ hp).trans (update_sem _ hp)

/-- Nobody waits on the semaphores of a new port. -/
theorem queues_renewed {count : Int} (h : Good nodes gen since hole g s)
    (hnil : ∀ r, (g.sem (port, r)).queue = []) (hc : 0 ≤ count) :
    Queues (fun pid => (s.waiting pid).map Prod.fst) s.ready
      (fun pid p => since pid p = bump gen port p) (renewed port count (outdated port g.sem)) := by
  have hnone : ∀ pid, since pid port ≠ bump gen port port := fun pid => (h.since_lt pid).ne
  have hsem : ∀ r, (outdated port g.sem (port, r)).queue = [] := hnil
  have hqueues := (h.queues_bump port).reset (k := (port, .send)) (fun pid _ => hnone pid) hc
  rw [hsem, woken_nil] at hqueues
  have hqueues' := hqueues.reset (k := (port, .recv)) (fun pid _ => hnone pid) (le_refl 0)
  rw [Function.update_of_ne (by simp), hsem, woken_nil] at hqueues'
  exact hqueues'

/-- The entry that `ptcreate` fills. -/
def opened (count a b : Int) (e : Ptentry) : Ptentry :=
  { e with
    ptstate := .alloc
    ptssem := a
    ptrsem := b
    pthead := none
    pttail := none
    ptseq := int32 (e.ptseq + 1)
    ptmaxcnt := count.toNat % 2 ^ 16 }

theorem opened_id {count a b : Int} {evs : List Event} {t : PortTable}
    (he : Entered s port (opened count a b (s.porttab port)) evs t) :
    t.id = Function.update (Function.update s.id (port, .send) a) (port, .recv) b := by
  funext ⟨p, r⟩
  by_cases hp : p = port
  · rw [hp]
    unfold PortTable.id
    dsimp only
    rw [he.entry]
    cases r with
    | send =>
      rw [Function.update_of_ne (by simp), Function.update_self]
      rfl
    | recv =>
      rw [Function.update_self]
      rfl
  · have hk : ∀ r', ((p, r) : Key) ≠ (port, r') := fun r' heq => hp (congrArg Prod.fst heq)
    rw [Function.update_of_ne (hk _), Function.update_of_ne (hk _)]
    unfold PortTable.id
    dsimp only
    rw [he.other hp]

/-- `ptcreate` on a free entry, with the semaphores that it gets. -/
theorem openPort_eq {count : Int} {live : Key → Prop} {sem : Key → Sema}
    (h : Linked s.id s.semtab live sem) (hc : 0 ≤ count) (hn : 0 ≤ s.nextsem ∧ s.nextsem < NSEM)
    (port : Nat) : ∃ a b tab v, s.openPort count port = { s with
        porttab := Function.update s.porttab port (opened count a b (s.porttab port))
        semtab := tab
        nextsem := v
        trace := .opened port :: s.trace } ∧ (0 ≤ v ∧ v < NSEM) ∧
      Linked (Function.update (Function.update s.id (port, .send) a) (port, .recv) b) tab
        (fun k => (live k ∨ k = (port, .send)) ∨ k = (port, .recv))
        (renewed port count sem) := by
  obtain ⟨s₁, hs₁⟩ : ∃ t, t = s.setPort port fun e => { e with ptstate := .alloc } := ⟨_, rfl⟩
  have hl₁ : Linked s.id s₁.semtab live sem := by
    rw [hs₁]
    exact h
  have hn₁ : 0 ≤ s₁.nextsem ∧ s₁.nextsem < NSEM := by
    rw [hs₁]
    exact hn
  obtain ⟨a, tab₁, v₁, ha, hv₁, hl₂⟩ := hl₁.create hc hn₁ (port, .send)
  obtain ⟨s₂, hs₂⟩ : ∃ t, t = ({ s₁ with semtab := tab₁, nextsem := v₁ } : PortTable).setPort port
    fun e => { e with ptssem := a } := ⟨_, rfl⟩
  have hl₂' : Linked (Function.update s.id (port, .send) a) s₂.semtab
      (fun k => live k ∨ k = (port, .send)) (Function.update sem (port, .send) { count := count }) := by
    rw [hs₂]
    exact hl₂
  have hn₂ : 0 ≤ s₂.nextsem ∧ s₂.nextsem < NSEM := by
    rw [hs₂]
    exact hv₁
  obtain ⟨b, tab₂, v₂, hb, hv₂, hl₃⟩ := hl₂'.create (le_refl 0) hn₂ (port, .recv)
  refine ⟨a, b, tab₂, v₂, ?_, hv₂, hl₃⟩
  unfold PortTable.openPort
  dsimp only
  rw [← hs₁, ha]
  dsimp only
  rw [← hs₂, hb, hs₂, hs₁]
  simp [PortTable.setPort, PortTable.log, opened]

/-- A port is created. -/
theorem create {count : Int} (h : Good nodes gen since none g s) (hfree : g.phase port = .free)
    (hp : port < NPORTS) (hidle : s.calls pid = none) (hc : 0 ≤ count) (hsmall : count < 2 ^ 16) :
    (s.openPort count port).halted = s.halted ∧
      ∃ g', Good nodes (bump gen port) since none g' (s.openPort count port) := by
  have hcounts := h.counts port
  rw [hfree] at hcounts
  obtain ⟨hempty, hqueue⟩ := hcounts
  dsimp only at hqueue
  have hnil : g.ql port = [] := List.eq_nil_of_length_eq_zero (by omega)
  have hlinked : Linked s.id s.semtab (fun k => (g.phase k.1).Live k.2) (outdated port g.sem) :=
    h.linked.congr _ fun _ => ⟨rfl, rfl⟩
  obtain ⟨a, b, tab, v, heq, hv, hlinked⟩ := openPort_eq hlinked hc h.nextsem port
  obtain ⟨t, ht⟩ : ∃ t, t = s.openPort count port := ⟨_, rfl⟩
  rw [← ht] at heq ⊢
  have he : Entered s port (opened count a b (s.porttab port)) [.opened port] t := by
    rw [heq]
    exact ⟨rfl, rfl, rfl, rfl, rfl, rfl⟩
  have hrest : t.ptfree = s.ptfree ∧ t.ptnext = s.ptnext ∧ t.semtab = tab ∧ t.nextsem = v ∧
      t.ptnextid = s.ptnextid := by
    rw [heq]
    exact ⟨rfl, rfl, rfl, rfl, rfl⟩
  obtain ⟨hpf, hnext, hsemtab, hnextsem, hnextid⟩ := hrest
  have hwaiting : t.waiting = s.waiting := by
    funext p
    unfold PortTable.waiting
    rw [he.calls]
  -- the semaphores, which nobody knows of
  obtain ⟨sem, hsem⟩ : ∃ sem, sem = renewed port count (outdated port g.sem) := ⟨_, rfl⟩
  have hsem_send : sem (port, .send) = { count := count } := hsem ▸ renewed_send _ _ _
  have hsem_recv : sem (port, .recv) = { count := 0 } := hsem ▸ renewed_recv _ _ _
  have hsem_ne : ∀ p, p ≠ port → ∀ r, sem (p, r) = g.sem (p, r) := fun p hne r => by
    rw [hsem, renewed_of_ne hne, outdated_of_ne (k := (p, r)) hne]
  refine ⟨he.halted, ⟨g.fl, g.ql, sem, Function.update g.phase port .alloc⟩,
    ?_, ?_, ?_, ?_, ?_, ?_, ?_, ?_, ?_⟩
  · refine chains_move h.chains hpf hnext (fun _ => .inr ⟨hnil, ?_⟩) fun p hne =>
      ⟨fun ht => ht, he.other hne⟩
    rw [he.entry]
    exact ⟨rfl, rfl⟩
  · change Recorded t.trace (fun p => (g.ql p).map t.ptmsg) _
    rw [he.trace, he.ptmsg]
    refine h.recorded.opened (by rw [hnil]; rfl) fun p hne ha => ?_
    dsimp only at ha
    rwa [Function.update_of_ne hne] at ha
  · rw [opened_id he, hsemtab, hsem]
    refine linked_move hlinked (fun r _ => ?_) fun k _ hk => .inl (.inl hk)
    cases r with
    | send => exact .inl (.inr rfl)
    | recv => exact .inr rfl
  · rw [hwaiting, he.ready, hsem]
    exact h.queues_renewed hqueue hc
  · have hset : t.calls = Function.update s.calls pid none := by
      rw [he.calls, ← hidle, Function.update_eq_self]
    refine phases_update h.phases hp (fun p => ?_) hset (fun p st b => nofun) (fun p st b hend => ?_)
      (fun p st b => iff_of_false nofun nofun) fun p st b _ => ?_
    · by_cases heq : p = port
      · rw [if_pos heq, heq, he.entry]
        rfl
      · rw [if_neg heq, he.other heq]
    · rw [hidle] at hend
      cases hend
    · rw [hfree]
      exact ⟨nofun, nofun⟩
  · refine h.gens_bump ?_ (fun p hne => ⟨?_, Function.update_of_ne hne _ _, fun r => ?_⟩) hwaiting
      fun _ r => ?_
    · rw [he.entry]
      rfl
    · rw [he.other hne]
    · change (sem (p, r)).queue = _
      rw [hsem_ne p hne]
    · change (sem (port, r)).queue = []
      cases r with
      | send => rw [hsem_send]
      | recv => rw [hsem_recv]
  · refine h.counts_of ⟨g.fl, g.ql, sem, Function.update g.phase port .alloc⟩ _ port (fun p hne =>
      ⟨by rw [he.other hne], rfl, hsem_ne p hne, fun _ => rfl, Function.update_of_ne hne _ _⟩) ?_
    change Counts (t.porttab port).ptmaxcnt (g.ql port).length (fun r => sem (port, r)) _
      (Function.update g.phase port .alloc port)
    rw [Function.update_self, he.entry]
    have hmax : (opened count a b (s.porttab port)).ptmaxcnt = count.toNat := by
      change count.toNat % 2 ^ 16 = count.toNat
      omega
    rw [hmax, Int.toNat_of_nonneg hc]
    refine ⟨?_, ?_⟩
    · dsimp only
      rw [hsem_send, hempty, held_none]
      unfold Sema.units
      simp
    · dsimp only
      rw [hsem_recv, hempty, held_none]
      rfl
  · rw [hnextsem]
    exact hv
  · rw [hnextid]
    exact h.nextid

end Good

end Xinu.Ports
