import XinuCMips.Ports.Ledger
import XinuCMips.Ports.Waiting

/-!
# Units and messages

The units of the two semaphores of a port, its messages, and the processes that have been
given a unit and have not run since add up: a sender in possession of a unit finds room, a
receiver a message.

* `Good`          — the invariant, with a unit in the hands of the running process;
* `Good.wait`, `Good.resume`, `Good.signal` — units that are taken and given back;
* `Good.sendRest`, `Good.recvRest` — what they are taken for.
-/

namespace Xinu.Ports

-- ---------------------------------------------------------------------------
-- Sequence numbers
-- ---------------------------------------------------------------------------

theorem int32_eq_iff {a b : Int} : int32 a = int32 b ↔ (a - b) % 2 ^ 32 = 0 := by
  unfold int32 Int.bmod
  dsimp only
  split
  · split
    · omega
    · omega
  · split
    · omega
    · omega

theorem int32_succ (a : Int) : int32 (int32 a + 1) = int32 (a + 1) := by
  rw [int32_eq_iff]
  have hsame : int32 (int32 a) = int32 a := Int.bmod_bmod
  have hzero := int32_eq_iff.mp hsame
  omega

theorem int32_succ_ne (a : Int) : int32 (a + 1) ≠ int32 a := by
  rw [Ne, int32_eq_iff]
  omega

/-- Numbers that lie less than a round apart are told apart. -/
theorem seq_eq_iff {since gen : Nat} (hle : since ≤ gen) (hround : gen - since < 2 ^ 32) :
    int32 since = int32 gen ↔ since = gen := by
  rw [int32_eq_iff]
  omega

-- ---------------------------------------------------------------------------
-- The invariant
-- ---------------------------------------------------------------------------

/-- Where a port is. While it is reset or deleted, `next` says that the senders have been
released and the receivers too. -/
inductive Phase where
  | free
  | alloc
  | ending (pid : Pid) (newstate : PtState) (next : Bool)

namespace Phase

def state : Phase → PtState
  | .free => .free
  | .alloc => .alloc
  | .ending .. => .limbo

/-- The role has its semaphore. -/
def Live : Phase → Role → Prop
  | .free, _ => False
  | .alloc, _ => True
  | .ending _ newstate next, r => newstate = .alloc ∨ (r = .recv ∧ next = false)

/-- The pointers of the port are those of its list. -/
def Tidy : Phase → Prop
  | .free => False
  | .alloc => True
  | .ending _ newstate _ => newstate = .alloc

end Phase

structure Ghost where
  fl : List Node
  ql : Nat → List Node
  sem : Key → Sema
  phase : Nat → Phase

/-- The unit that the running process has taken and not yet used. -/
def held (hole : Option Key) (k : Key) : Int := if hole = some k then 1 else 0

/-- The units of a port and its `n` messages. -/
def Counts (max n : Int) (sem : Role → Sema) (held : Role → Int) : Phase → Prop
  | .free => n = 0 ∧ ∀ r, (sem r).queue = []
  | .alloc => (sem .send).units + n + held .send = max ∧ (sem .recv).units + held .recv = n
  | .ending _ _ next => n = 0 ∧ sem .send = { count := max } ∧
      (next = true → sem .recv = { count := 0 })

/-- What is left of a reset or deletion. -/
def endCall (port : Nat) (newstate : PtState) (next : Bool) : Call :=
  if next then .cleared port newstate else .clear port newstate

structure Phases (s : PortTable) (phase : Nat → Phase) : Prop where
  state : ∀ port, (s.porttab port).ptstate = (phase port).state
  inside : ∀ port, phase port ≠ .free → port < NPORTS
  into : ∀ port pid newstate next, phase port = .ending pid newstate next → newstate ≠ .limbo
  ends : ∀ pid port newstate next, s.calls pid = some (endCall port newstate next) ↔
    phase port = .ending pid newstate next

structure Gens (s : PortTable) (gen : Nat → Nat) (since : Pid → Nat → Nat) (g : Ghost) : Prop where
  seq : ∀ port, (s.porttab port).ptseq = int32 (gen port)
  le : ∀ pid port, since pid port ≤ gen port
  waits : ∀ pid k seq, s.waiting pid = some (k, seq) →
    seq = int32 (since pid k.1) ∧ (since pid k.1 = gen k.1 → g.phase k.1 = .alloc)
  queued : ∀ k, g.phase k.1 = .alloc → ∀ pid ∈ (g.sem k).queue, since pid k.1 = gen k.1

structure Good (nodes : Nat) (gen : Nat → Nat) (since : Pid → Nat → Nat) (hole : Option Key)
    (g : Ghost) (s : PortTable) : Prop where
  chains : Chains nodes g.fl g.ql (fun port => (g.phase port).Tidy) s
  recorded : Recorded s.trace (fun port => (g.ql port).map s.ptmsg) (fun port => g.phase port = .alloc)
  linked : Linked s.id s.semtab (fun k => (g.phase k.1).Live k.2) g.sem
  queues : Queues (fun pid => (s.waiting pid).map Prod.fst) s.ready
    (fun pid port => since pid port = gen port) g.sem
  phases : Phases s g.phase
  gens : Gens s gen since g
  counts : ∀ port, Counts (s.porttab port).ptmaxcnt (g.ql port).length (fun r => g.sem (port, r))
    (fun r => held hole (port, r)) (g.phase port)
  nextsem : 0 ≤ s.nextsem ∧ s.nextsem < NSEM
  nextid : s.ptnextid < NPORTS

variable {nodes : Nat} {gen : Nat → Nat} {since : Pid → Nat → Nat} {hole : Option Key} {g : Ghost}
  {s s' : PortTable} {pid : Pid} {port : Nat} {k : Key} {seq : Int} {msg : Msg}

-- ---------------------------------------------------------------------------
-- What a part of the invariant looks at
-- ---------------------------------------------------------------------------

theorem Chains.frame {fl : List Node} {ql : Nat → List Node} {tidy tidy' : Nat → Prop}
    (h : Chains nodes fl ql tidy s) (hfree : s'.ptfree = s.ptfree) (hnext : s'.ptnext = s.ptnext)
    (hq : ∀ p, tidy' p →
      (tidy p ∧ (s'.porttab p).pthead = (s.porttab p).pthead ∧
        (s'.porttab p).pttail = (s.porttab p).pttail) ∨
      (ql p = [] ∧ (s'.porttab p).pthead = none ∧ (s'.porttab p).pttail = none)) :
    Chains nodes fl ql tidy' s' := by
  refine ⟨?_, fun p ht => ?_, h.inside, h.perm⟩
  · rw [hfree, hnext]
    exact h.free
  · rcases hq p ht with ⟨ht, hhead, htail⟩ | ⟨hnil, hhead, htail⟩
    · rw [hnext, hhead, htail]
      exact h.queue p ht
    · rw [hhead, htail, hnil]
      exact ⟨rfl, rfl⟩

theorem Chains.same {fl : List Node} {ql : Nat → List Node} {tidy : Nat → Prop}
    (h : Chains nodes fl ql tidy s) (hfree : s'.ptfree = s.ptfree) (hnext : s'.ptnext = s.ptnext)
    (htab : s'.porttab = s.porttab) : Chains nodes fl ql tidy s' :=
  h.frame hfree hnext fun p ht => .inl ⟨ht, by rw [htab], by rw [htab]⟩

theorem Phases.same {phase : Nat → Phase} (h : Phases s phase) (hcalls : s'.calls = s.calls)
    (hst : ∀ p, (s'.porttab p).ptstate = (s.porttab p).ptstate) : Phases s' phase := by
  refine ⟨fun p => (hst p).trans (h.state p), h.inside, h.into, ?_⟩
  rw [hcalls]
  exact h.ends

theorem endCall_waits (port : Nat) (newstate : PtState) (next : Bool) :
    (endCall port newstate next).waits = none := by
  cases next with
  | false => rfl
  | true => rfl

theorem waiting_setCall (pid : Pid) (c : Option Call) (s : PortTable) :
    (s.setCall pid c).waiting = Function.update s.waiting pid (c.bind Call.waits) := by
  funext p
  change (Function.update s.calls pid c p).bind Call.waits = _
  by_cases hp : p = pid
  · rw [hp, Function.update_self, Function.update_self]
  · rw [Function.update_of_ne hp, Function.update_of_ne hp]
    rfl

/-- The keys that are waited for, when one process enters or leaves a call. -/
theorem keys_setCall (pid : Pid) (c : Option Call) (s : PortTable) :
    (fun p => ((s.setCall pid c).waiting p).map Prod.fst) =
      Function.update (fun p => (s.waiting p).map Prod.fst) pid ((c.bind Call.waits).map Prod.fst) := by
  rw [waiting_setCall]
  funext p
  by_cases hp : p = pid
  · rw [hp, Function.update_self, Function.update_self]
  · rw [Function.update_of_ne hp, Function.update_of_ne hp]

theorem held_self (k : Key) : held (some k) k = 1 := if_pos rfl

theorem held_none (k : Key) : held none k = 0 := if_neg nofun

theorem held_of_ne {k' : Key} (h : k' ≠ k) : held (some k) k' = 0 :=
  if_neg fun heq => h (Option.some.inj heq).symm

namespace Good

variable {g' : Ghost} {hole' : Option Key}

/-- One port changes. -/
theorem counts_of (h : Good nodes gen since hole g s) (g' : Ghost) (s' : PortTable) (p : Nat)
    (hother : ∀ port, port ≠ p → (s'.porttab port).ptmaxcnt = (s.porttab port).ptmaxcnt ∧
      g'.ql port = g.ql port ∧ (∀ r, g'.sem (port, r) = g.sem (port, r)) ∧
      (∀ r, held hole' (port, r) = held hole (port, r)) ∧ g'.phase port = g.phase port)
    (hp : Counts (s'.porttab p).ptmaxcnt (g'.ql p).length (fun r => g'.sem (p, r))
      (fun r => held hole' (p, r)) (g'.phase p)) (port : Nat) :
    Counts (s'.porttab port).ptmaxcnt (g'.ql port).length (fun r => g'.sem (port, r))
      (fun r => held hole' (port, r)) (g'.phase port) := by
  by_cases heq : port = p
  · rw [heq]
    exact hp
  · obtain ⟨hmax, hql, hsem, hheld, hphase⟩ := hother port heq
    rw [hmax, hql, hphase, funext hsem, funext hheld]
    exact h.counts port

/-- What a port in use has. -/
theorem alloc_counts (h : Good nodes gen since hole g s) (ha : g.phase port = .alloc) :
    (g.sem (port, .send)).units + (g.ql port).length + held hole (port, .send) =
      (s.porttab port).ptmaxcnt ∧
    (g.sem (port, .recv)).units + held hole (port, .recv) = (g.ql port).length := by
  have hc := h.counts port
  rw [ha] at hc
  exact hc

/-- The semaphore of one role of a port in use changes. -/
theorem counts_sem {e : Sema} (h : Good nodes gen since hole g s) (ha : g.phase k.1 = .alloc)
    (hheld : ∀ k', k' ≠ k → held hole' k' = held hole k')
    (hunits : e.units + held hole' k = (g.sem k).units + held hole k) (port : Nat) :
    Counts (s.porttab port).ptmaxcnt (g.ql port).length
      (fun r => Function.update g.sem k e (port, r)) (fun r => held hole' (port, r))
      (g.phase port) := by
  refine h.counts_of { g with sem := Function.update g.sem k e } s k.1
    (fun port hne => ⟨rfl, rfl, fun r => ?_, fun r => ?_, rfl⟩) ?_ port
  · exact Function.update_of_ne (fun heq => hne (by rw [← heq])) _ _
  · exact hheld _ fun heq => hne (by rw [← heq])
  · obtain ⟨hsend, hrecv⟩ := h.alloc_counts ha
    rw [ha]
    obtain ⟨p, r⟩ := k
    cases r with
    | send =>
      refine ⟨?_, ?_⟩
      · dsimp only at *
        rw [Function.update_self]
        omega
      · dsimp only
        rw [Function.update_of_ne (by simp), hheld _ (by simp)]
        exact hrecv
    | recv =>
      refine ⟨?_, ?_⟩
      · dsimp only
        rw [Function.update_of_ne (by simp), hheld _ (by simp)]
        exact hsend
      · dsimp only at *
        rw [Function.update_self]
        omega

-- ---------------------------------------------------------------------------
-- Units and messages
-- ---------------------------------------------------------------------------

/-- A semaphore of a port in use changes, and nobody enters or leaves a call. -/
theorem sem_of {e : Sema} {tab : Int → Sem} {ready : Pid → Bool}
    (h : Good nodes gen since hole g s) (ha : g.phase k.1 = .alloc)
    (hlinked : Linked s.id tab (fun k => (g.phase k.1).Live k.2) (Function.update g.sem k e))
    (hqueues : Queues (fun pid => (s.waiting pid).map Prod.fst) ready
      (fun pid port => since pid port = gen port) (Function.update g.sem k e))
    (hqueue : ∀ pid ∈ e.queue, pid ∈ (g.sem k).queue)
    (hheld : ∀ k', k' ≠ k → held hole' k' = held hole k')
    (hunits : e.units + held hole' k = (g.sem k).units + held hole k) :
    Good nodes gen since hole' { g with sem := Function.update g.sem k e }
      { s with semtab := tab, ready := ready } where
  chains := h.chains.same rfl rfl rfl
  recorded := h.recorded
  linked := hlinked
  queues := hqueues
  phases := h.phases.same rfl fun _ => rfl
  gens := by
    refine ⟨h.gens.seq, h.gens.le, h.gens.waits, fun k' ha' pid hp => ?_⟩
    by_cases heq : k' = k
    · rw [heq] at ha' hp ⊢
      dsimp only at hp
      rw [Function.update_self] at hp
      exact h.gens.queued k ha' pid (hqueue pid hp)
    · dsimp only at hp
      rw [Function.update_of_ne heq] at hp
      exact h.gens.queued k' ha' pid hp
  counts := h.counts_sem ha hheld hunits
  nextsem := h.nextsem
  nextid := h.nextid

theorem live_of_alloc (ha : g.phase k.1 = .alloc) : (g.phase k.1).Live k.2 := by
  rw [ha]
  trivial

/-- A process takes a unit, or is put in the queue. -/
theorem wait (h : Good nodes gen since none g s) (ha : g.phase k.1 = .alloc)
    (hidle : s.calls pid = none) :
    s.wait pid (s.id k) = (none, s) ∨
    (∃ tab g', s.wait pid (s.id k) = (some false, { s with semtab := tab }) ∧
      g'.phase = g.phase ∧ Good nodes gen since (some k) g' { s with semtab := tab }) ∨
    ∃ s', s.wait pid (s.id k) = (some true, s') ∧ s'.halted = s.halted ∧
      ∀ c, c.waits = some (k, (s.porttab k.1).ptseq) → ∃ g',
        Good nodes gen (Function.update since pid gen) none g' (s'.setCall pid (some c)) := by
  have hnot : (s.waiting pid).map Prod.fst = none := by
    unfold PortTable.waiting
    rw [hidle]
    rfl
  rcases h.linked.wait (live_of_alloc ha) pid with hbad | ⟨hw, tab, heq, hlinked⟩ |
    ⟨hw, tab, heq, hlinked⟩
  · exact .inl hbad
  · refine .inr (.inl ⟨tab, { g with sem := Function.update g.sem k ((g.sem k).wait pid).2 },
      heq, rfl, h.sem_of ha hlinked (h.queues.pass hw) (fun p hp => ?_)
      (fun k' hne => (held_of_ne hne).trans (held_none k').symm) ?_⟩)
    · unfold Sema.wait at hw hp
      dsimp only at hw hp
      by_cases hc : (g.sem k).count - 1 < 0
      · rw [if_pos hc] at hw
        cases hw
      · rwa [if_neg hc] at hp
    · rw [Sema.wait_units, if_pos hw, held_self, held_none]
      omega
  · refine .inr (.inr ⟨_, heq, rfl, fun c hc => ⟨{ g with
      sem := Function.update g.sem k ((g.sem k).wait pid).2 }, ?_⟩⟩)
    have hkeys := keys_setCall pid (some c)
      { s with semtab := tab, ready := Function.update s.ready pid false }
    have hwaits : ((some c).bind Call.waits).map Prod.fst = some k := by
      rw [Option.bind_some, hc]
      rfl
    rw [hwaits] at hkeys
    have hsince : ∀ p, p ≠ pid → Function.update since pid gen p = since p :=
      fun p hp => Function.update_of_ne hp _ _
    refine ⟨h.chains.same rfl rfl rfl, h.recorded, hlinked, ?_, ?_, ?_, ?_, h.nextsem, h.nextid⟩
    · rw [hkeys]
      exact h.queues.block hnot hw fun p hp port => by rw [hsince p hp]
    · -- it was in no other call
      refine ⟨h.phases.state, h.phases.inside, h.phases.into, fun p port st next => ?_⟩
      rw [← h.phases.ends]
      change Function.update s.calls pid (some c) p = _ ↔ _
      by_cases hp : p = pid
      · rw [hp, Function.update_self, hidle]
        refine iff_of_false (fun hend => ?_) nofun
        rw [Option.some.inj hend, endCall_waits] at hc
        cases hc
      · rw [Function.update_of_ne hp]
    · have hwaiting := waiting_setCall pid (some c)
        { s with semtab := tab, ready := Function.update s.ready pid false }
      rw [Option.bind_some, hc] at hwaiting
      refine ⟨h.gens.seq, fun p port => ?_, fun p k' seq hp => ?_, fun k' ha' p hp => ?_⟩
      · by_cases hpid : p = pid
        · rw [hpid, Function.update_self]
        · rw [hsince p hpid]
          exact h.gens.le p port
      · rw [hwaiting] at hp
        by_cases hpid : p = pid
        · rw [hpid, Function.update_self] at hp
          obtain ⟨rfl, rfl⟩ := Prod.mk.inj (Option.some.inj hp)
          rw [hpid, Function.update_self]
          exact ⟨h.gens.seq _, fun _ => ha⟩
        · rw [Function.update_of_ne hpid] at hp
          rw [hsince p hpid]
          exact h.gens.waits p k' seq hp
      · by_cases hpid : p = pid
        · rw [hpid, Function.update_self]
        · rw [hsince p hpid]
          refine h.gens.queued k' ha' p ?_
          -- the queue has the process at its end
          by_cases heq : k' = k
          · rw [heq] at hp ⊢
            dsimp only at hp
            rw [Function.update_self] at hp
            unfold Sema.wait at hp
            dsimp only at hp
            split at hp
            · exact (List.mem_append.mp hp).resolve_right fun hl => hpid (List.mem_singleton.mp hl)
            · exact hp
          · dsimp only at hp
            rwa [Function.update_of_ne heq] at hp
    · refine h.counts_sem ha (fun _ _ => rfl) ?_
      rw [Sema.wait_units, if_neg (by rw [hw]; exact Bool.false_ne_true)]

/-- A unit is given back, or to the process that waits first. -/
theorem signal (h : Good nodes gen since (some k) g s) (ha : g.phase k.1 = .alloc) :
    (s.signal (s.id k)).halted = s.halted ∧
      ∃ g', Good nodes gen since none g' (s.signal (s.id k)) := by
  obtain ⟨tab, heq, hlinked⟩ := h.linked.signal (live_of_alloc ha) (h.queues.ok k)
  rw [heq]
  refine ⟨rfl, _, h.sem_of ha hlinked (h.queues.signal fun pid hp => h.gens.queued k ha pid hp)
    (fun pid hp => ?_) (fun k' hne => (held_none k').trans (held_of_ne hne).symm) ?_⟩
  · unfold Sema.signal at hp
    split at hp
    · exact List.mem_of_mem_tail hp
    · exact hp
  · rw [Sema.signal_units (h.queues.ok k), held_self, held_none, add_zero]

/-- A process that has been let go runs. It is in possession of a unit, if it goes by the
generation that the port is in. -/
theorem resume (h : Good nodes gen since none g s) (hw : s.waiting pid = some (k, seq))
    (hready : s.ready pid = true) :
    ∃ g', g'.phase = g.phase ∧ Good nodes gen since
      (if since pid k.1 = gen k.1 then some k else none) g' (s.setCall pid none) := by
  have hkey : (s.waiting pid).map Prod.fst = some k := by rw [hw]; rfl
  have hkeys := keys_setCall pid none s
  have hwaiting := waiting_setCall pid none s
  have hsame : ∀ k', (Function.update g.sem k ((g.sem k).resume pid) k').count = (g.sem k').count ∧
      (Function.update g.sem k ((g.sem k).resume pid) k').queue = (g.sem k').queue := by
    intro k'
    by_cases heq : k' = k
    · rw [heq, Function.update_self]
      exact ⟨rfl, rfl⟩
    · rw [Function.update_of_ne heq]
      exact ⟨rfl, rfl⟩
  refine ⟨{ g with sem := Function.update g.sem k ((g.sem k).resume pid) }, rfl,
    h.chains.same rfl rfl rfl, h.recorded, h.linked.congr _ hsame, ?_, ?_, ?_, ?_, h.nextsem, h.nextid⟩
  · rw [hkeys]
    exact h.queues.resume hkey hready
  · refine ⟨h.phases.state, h.phases.inside, h.phases.into, fun p port st next => ?_⟩
    rw [← h.phases.ends]
    change Function.update s.calls pid none p = _ ↔ _
    by_cases hp : p = pid
    · rw [hp, Function.update_self]
      refine iff_of_false nofun fun hend => ?_
      unfold PortTable.waiting at hw
      rw [hend, Option.bind_some, endCall_waits] at hw
      cases hw
    · rw [Function.update_of_ne hp]
  · refine ⟨h.gens.seq, h.gens.le, fun p k' seq hp => ?_, fun k' ha p hp => ?_⟩
    · rw [hwaiting] at hp
      by_cases hpid : p = pid
      · rw [hpid, Function.update_self] at hp
        cases hp
      · rw [Function.update_of_ne hpid] at hp
        exact h.gens.waits p k' seq hp
    · dsimp only at hp
      rw [(hsame k').2] at hp
      exact h.gens.queued k' ha p hp
  · by_cases hcur : since pid k.1 = gen k.1
    · have hin : pid ∈ (g.sem k).released := (h.queues.released k pid).mpr ⟨hkey, hready, hcur⟩
      rw [if_pos hcur]
      refine h.counts_sem ((h.gens.waits pid k seq hw).2 hcur)
        (fun k' hne => (held_of_ne hne).trans (held_none k').symm) ?_
      rw [Sema.resume_units hin, held_self, held_none]
      omega
    · have hout : pid ∉ (g.sem k).released := fun hin => hcur ((h.queues.released k pid).mp hin).2.2
      have hnone : (g.sem k).resume pid = g.sem k := by
        unfold Sema.resume
        rw [List.erase_of_not_mem hout]
      rw [if_neg hcur, hnone, Function.update_eq_self]
      exact h.counts

/-- What changes with the messages of one port. -/
theorem moved {fl : List Node} {l : List Node} {tr : List Event} (h : Good nodes gen since hole g s)
    (ha : g.phase port = .alloc) (ho : OnNodes port s s')
    (hother : ∀ p, p ≠ port → s'.porttab p = s.porttab p)
    (hchains : Chains nodes fl (Function.update g.ql port l) (fun p => (g.phase p).Tidy) s')
    (hrecorded : Recorded tr (fun p => (Function.update g.ql port l p).map s'.ptmsg)
      (fun p => g.phase p = .alloc))
    (hheld : ∀ p, p ≠ port → ∀ r, held hole' (p, r) = held hole (p, r))
    (hcounts : Counts (s.porttab port).ptmaxcnt l.length (fun r => g.sem (port, r))
      (fun r => held hole' (port, r)) .alloc) :
    Good nodes gen since hole' { g with fl := fl, ql := Function.update g.ql port l }
      { s' with trace := tr } := by
  have hentry := ho.entry
  have hrest : ∀ p, (s'.porttab p).ptssem = (s.porttab p).ptssem ∧
      (s'.porttab p).ptrsem = (s.porttab p).ptrsem ∧
      (s'.porttab p).ptstate = (s.porttab p).ptstate ∧
      (s'.porttab p).ptmaxcnt = (s.porttab p).ptmaxcnt ∧
      (s'.porttab p).ptseq = (s.porttab p).ptseq := by
    intro p
    by_cases hp : p = port
    · rw [hp, hentry]
      exact ⟨rfl, rfl, rfl, rfl, rfl⟩
    · rw [hother p hp]
      exact ⟨rfl, rfl, rfl, rfl, rfl⟩
  have hid : s'.id = s.id := by
    funext ⟨p, r⟩
    cases r with
    | send => exact (hrest p).1
    | recv => exact (hrest p).2.1
  have hcalls : s'.calls = s.calls := ho.calls
  have hready : s'.ready = s.ready := by rw [ho.only]
  have hwaiting : s'.waiting = s.waiting := by
    funext p
    unfold PortTable.waiting
    rw [hcalls]
  refine ⟨hchains.same rfl rfl rfl, hrecorded, ?_, ?_, ?_, ?_, ?_, ?_, ?_⟩
  · change Linked s'.id s'.semtab _ _
    rw [hid, ho.semtab]
    exact h.linked
  · change Queues (fun pid => (s'.waiting pid).map Prod.fst) s'.ready _ _
    rw [hwaiting, hready]
    exact h.queues
  · exact h.phases.same hcalls fun p => (hrest p).2.2.1
  · refine ⟨fun p => (hrest p).2.2.2.2.trans (h.gens.seq p), h.gens.le, ?_, h.gens.queued⟩
    change ∀ pid k seq, s'.waiting pid = some (k, seq) → _
    rw [hwaiting]
    exact h.gens.waits
  · refine h.counts_of { g with fl := fl, ql := Function.update g.ql port l } s' port
      (fun p hp => ⟨(hrest p).2.2.2.1, Function.update_of_ne hp _ _, fun _ => rfl, hheld p hp, rfl⟩) ?_
    dsimp only
    rw [Function.update_self, ha, (hrest port).2.2.2.1]
    exact hcounts
  · change 0 ≤ s'.nextsem ∧ s'.nextsem < NSEM
    rw [ho.only]
    exact h.nextsem
  · change s'.ptnextid < NPORTS
    rw [ho.only]
    exact h.nextid

theorem held_other {p : Nat} {r : Role} (hp : p ≠ port) (r' : Role) :
    held (some (port, r)) (p, r') = 0 :=
  held_of_ne fun heq => hp (congrArg Prod.fst heq)

/-- The sender's unit becomes a message. -/
theorem link {node : Node} {fl : List Node} (h : Good nodes gen since (some (port, .send)) g s)
    (ha : g.phase port = .alloc) (hfl : g.fl = node :: fl) (msg : Msg) :
    ∃ g', g'.phase = g.phase ∧ Good nodes gen since (some (port, .recv)) g'
      ((s.linkNode port node msg).log (.sent port msg)) := by
  have hp : port < NPORTS := h.phases.inside port (by rw [ha]; exact nofun)
  have htidy : (g.phase port).Tidy := by rw [ha]; trivial
  have hchains := h.chains
  rw [hfl] at hchains
  obtain ⟨hsend, hrecv⟩ := h.alloc_counts ha
  have htrace : (s.linkNode port node msg).trace = s.trace := by
    rw [(linkNode_onNodes port node msg s).only]
  refine ⟨{ g with fl := fl, ql := Function.update g.ql port (g.ql port ++ [node]) }, rfl,
    h.moved ha (linkNode_onNodes port node msg s) (linkNode_frame port node msg s).2.1
      (hchains.link hp htidy msg) ?_ (fun p hne r => ?_) ⟨?_, ?_⟩⟩
  · rw [htrace]
    exact (h.recorded.sent port msg).congr (fun p => hchains.link_msgs hp msg p) fun _ hp => hp
  · rw [held_other hne, held_other hne]
  · rw [held_self] at hsend
    dsimp only
    rw [held_of_ne (by simp), List.length_append, List.length_singleton]
    push_cast
    omega
  · rw [held_of_ne (by simp)] at hrecv
    dsimp only
    rw [held_self, List.length_append, List.length_singleton]
    push_cast
    omega

/-- The receiver's unit has a message, which is taken out. -/
theorem unlink (h : Good nodes gen since (some (port, .recv)) g s) (ha : g.phase port = .alloc) :
    ∃ node, (s.porttab port).pthead = some node ∧ ∃ g', g'.phase = g.phase ∧
      Good nodes gen since (some (port, .send)) g'
        ((s.unlinkNode port node).log (.received port (s.ptmsg node))) := by
  have hp : port < NPORTS := h.phases.inside port (by rw [ha]; exact nofun)
  have htidy : (g.phase port).Tidy := by rw [ha]; trivial
  obtain ⟨hsend, hrecv⟩ := h.alloc_counts ha
  rw [held_self] at hrecv
  rw [held_of_ne (by simp)] at hsend
  have hle := (h.queues.ok (port, .recv)).released_le
  obtain ⟨node, rest, hq⟩ : ∃ node rest, g.ql port = node :: rest := by
    refine List.exists_cons_of_ne_nil fun hnil => ?_
    rw [hnil, List.length_nil] at hrecv
    omega
  rw [hq, List.length_cons] at hsend hrecv
  have hhead : (s.porttab port).pthead = some node := by
    rw [(h.chains.queue port htidy).1.head?_eq, hq]
    rfl
  have htrace : (s.unlinkNode port node).trace = s.trace := by
    rw [(unlinkNode_onNodes port node s).only]
  refine ⟨node, hhead, { g with fl := node :: g.fl, ql := Function.update g.ql port rest }, rfl,
    h.moved ha (unlinkNode_onNodes port node s) (unlinkNode_frame port node s).2.1
      (h.chains.unlink hp htidy hq) ?_ (fun p hne r => ?_) ⟨?_, ?_⟩⟩
  · rw [htrace, (unlinkNode_frame port node s).1]
    have hmsgs : (g.ql port).map s.ptmsg = s.ptmsg node :: rest.map s.ptmsg := by
      rw [hq]
      rfl
    refine (h.recorded.received ha hmsgs).congr (fun p => ?_) fun _ hp => hp
    by_cases heq : p = port
    · rw [heq, Function.update_self, Function.update_self]
    · rw [Function.update_of_ne heq, Function.update_of_ne heq]
  · rw [held_other hne, held_other hne]
  · dsimp only
    rw [held_self]
    push_cast at hsend
    omega
  · dsimp only
    rw [held_of_ne (by simp)]
    push_cast at hrecv
    omega

theorem not_stale (h : Good nodes gen since hole g s) (ha : g.phase port = .alloc)
    (hseq : (s.porttab port).ptseq = seq) : ¬s.stale port seq := by
  refine not_or.mpr ⟨not_not.mpr ?_, not_not.mpr hseq⟩
  rw [h.phases.state, ha]
  rfl

theorem halt (h : Good nodes gen since hole g s) : Good nodes gen since hole g s.halt.2 :=
  ⟨h.chains.same rfl rfl rfl, h.recorded, h.linked, h.queues, h.phases.same rfl fun _ => rfl,
    ⟨h.gens.seq, h.gens.le, h.gens.waits, h.gens.queued⟩, h.counts, h.nextsem, h.nextid⟩

/-- A sender in possession of a unit sends, unless all nodes are in ports. -/
theorem sendRest (h : Good nodes gen since (some (port, .send)) g s) (ha : g.phase port = .alloc)
    (hseq : (s.porttab port).ptseq = seq) (msg : Msg) :
    (s.ptsendRest port seq msg = s.halt ∧ g.fl = []) ∨
    ∃ t g', s.ptsendRest port seq msg = (.ret OK, t) ∧ t.halted = s.halted ∧
      Good nodes gen since none g' t := by
  rw [PortTable.ptsendRest, if_neg (h.not_stale ha hseq), h.chains.free.head?_eq]
  cases hfl : g.fl with
  | nil => exact .inl ⟨rfl, rfl⟩
  | cons node fl =>
    obtain ⟨g₁, hphase, h₁⟩ := h.link ha hfl msg
    have ha₁ : g₁.phase port = .alloc := by rw [hphase, ha]
    obtain ⟨hhalted, g', h'⟩ := h₁.signal ha₁
    refine .inr ⟨_, g', rfl, hhalted.trans ?_, h'⟩
    change (s.linkNode port node msg).halted = s.halted
    rw [(linkNode_onNodes port node msg s).only]

/-- A receiver in possession of a unit receives. -/
theorem recvRest (h : Good nodes gen since (some (port, .recv)) g s) (ha : g.phase port = .alloc)
    (hseq : (s.porttab port).ptseq = seq) :
    ∃ msg t g', s.ptrecvRest port seq = (.msg msg, t) ∧ t.halted = s.halted ∧
      Good nodes gen since none g' t := by
  obtain ⟨node, hhead, g₁, hphase, h₁⟩ := h.unlink ha
  have ha₁ : g₁.phase port = .alloc := by rw [hphase, ha]
  obtain ⟨hhalted, g', h'⟩ := h₁.signal ha₁
  rw [PortTable.ptrecvRest, if_neg (h.not_stale ha hseq), hhead]
  refine ⟨s.ptmsg node, _, g', rfl, hhalted.trans ?_, h'⟩
  change (s.unlinkNode port node).halted = s.halted
  rw [(unlinkNode_onNodes port node s).only]

end Good

end Xinu.Ports
