import Mathlib.Logic.Relation
import XinuCMips.Ports.Nodes

/-!
# The capacity of a port

`ptcreate` starts the sender semaphore with the whole `count`, and keeps the count
for later resets in the 16 bits of `ptmaxcnt`. A port therefore admits `count`
messages when it is new, and `count` modulo 65536 after a reset; and it admits none
beyond the message nodes of the system, where `ptsend` panics. `ptcreate` does not
look at the results of its two `semcreate` calls: without semaphores it still hands
out the port.

## Results

* `admits_iff`         — what a port admits, from its semaphore and the free nodes.
* `Kept.run`           — a port in use keeps its capacity for the next reset.
* `port_capacity`      — when `ptcreate` keeps the claim.
-/

namespace Xinu.Ports

open Follow

variable {s s' : PortTable} {port c F : Nat} {pid : Pid} {fl ql : List Node}

-- ---------------------------------------------------------------------------
-- What is to hold
-- ---------------------------------------------------------------------------

/-- The port takes `n` messages, whoever sends them, and the next sender blocks. -/
def Admits (port : Nat) : Nat → PortTable → Prop
  | 0, s => ∀ pid msg, s.calls pid = none → (s.ptsend pid port msg).1 = .blocked
  | n + 1, s => ∀ pid msg, s.calls pid = none →
    (s.ptsend pid port msg).1 = .ret OK ∧ Admits port n (s.ptsend pid port msg).2

/-- The port of a call. -/
def Call.portid : Call → Nat
  | .send p _ _ | .recv p _ | .clear p _ | .cleared p _ => p

/-- Process `pid` sends to the port, receives from it or resets it, or goes on with
such a call. -/
def Act.on (port : Nat) (pid : Pid) (s : PortTable) : Act → Prop
  | .send p _ | .recv p | .reset p => p = port
  | .resume => ∀ c, s.calls pid = some c → c.portid = port
  | .create _ | .delete _ => False

/-- One step of some process on the port. -/
def Uses (nodes port : Nat) (s s' : PortTable) : Prop :=
  ∃ pid a o, Act.on port pid s a ∧ step nodes pid a s = some (o, s')

/-- From `s` on, whatever is done with the port, each reset leaves it as `ptcreate` is
to leave it. -/
def Recovers (nodes port count : Nat) (s : PortTable) : Prop :=
  ∀ s₁, Relation.ReflTransGen (Uses nodes port) s s₁ → ∀ pid o s₂,
    s₁.calls pid = some (.cleared port .alloc) → step nodes pid .resume s₁ = some (o, s₂) →
      Admits port count s₂

/-- Two semaphores are free. -/
def TwoFree (s : PortTable) : Prop :=
  ∃ a b, a ≠ b ∧ ¬isbadsem a ∧ ¬isbadsem b ∧ (s.semtab a).used = false ∧ (s.semtab b).used = false

/-- What the claim says of `ptcreate(count)`. -/
structure CapacityKept (nodes : Nat) (count : Int) (s : PortTable) : Prop where
  refuses : ¬TwoFree s → (s.ptcreate count).1 = SYSERR ∧
    (s.ptcreate count).2.porttab = s.porttab ∧ (s.ptcreate count).2.semtab = s.semtab
  admits : ∀ port : Nat, (s.ptcreate count).1 = port → Admits port count.toNat (s.ptcreate count).2
  recovers : ∀ port : Nat, (s.ptcreate count).1 = port →
    Recovers nodes port count.toNat (s.ptcreate count).2

-- ---------------------------------------------------------------------------
-- What a port admits
-- ---------------------------------------------------------------------------

/-- The port is open, its sender semaphore has `c` units, and `F` nodes are free. -/
structure Ready (port c F : Nat) (s : PortTable) : Prop where
  inside : port < NPORTS
  alloc : (s.porttab port).ptstate = .alloc
  valid : ¬s.badSem (s.porttab port).ptssem
  apart : (s.porttab port).ptssem ≠ (s.porttab port).ptrsem
  units : (s.semtab (s.porttab port).ptssem).scount = c
  nodes : ∃ fl ql, Pool port fl ql s ∧ fl.length = F

theorem Ready.open (h : Ready port c F s) : ¬s.badPort port := by
  rintro (hout | hclosed)
  · exact absurd h.inside (not_lt.mpr hout)
  · exact hclosed h.alloc

/-- A port without units blocks its sender. -/
theorem Ready.blocks (h : Ready port 0 F s) (pid : Pid) (msg : Msg) :
    (s.ptsend pid port msg).1 = .blocked := by
  have hneg : (s.semtab (s.porttab port).ptssem).scount - 1 < 0 := by
    rw [h.units]
    decide
  have hwait : (s.wait pid (s.porttab port).ptssem).1 = some true := by
    rw [PortTable.wait, if_neg h.valid]
    dsimp only
    rw [setSem_self, if_pos hneg]
  rw [PortTable.ptsend, if_neg h.open]
  dsimp only
  rw [show s.wait pid (s.porttab port).ptssem = (some true, _) from Prod.ext hwait rfl]

/-- A unit lets the sender pass. -/
theorem Ready.passes (h : Ready port (c + 1) F s) (pid : Pid) (msg : Msg) :
    ∃ s₁, s.ptsend pid port msg = s₁.ptsendRest port (s.porttab port).ptseq msg ∧
      Ready port c F s₁ ∧ s₁.calls = s.calls ∧ s₁.porttab = s.porttab := by
  have hpos : ¬(s.semtab (s.porttab port).ptssem).scount - 1 < 0 := by
    rw [h.units]
    omega
  have hwait : s.wait pid (s.porttab port).ptssem =
      (some false, s.setSem (s.porttab port).ptssem fun e => { e with scount := e.scount - 1 }) := by
    rw [PortTable.wait, if_neg h.valid]
    dsimp only
    rw [setSem_self, if_neg hpos]
  have hon := wait_onSem pid (s.porttab port).ptssem s
  rw [hwait] at hon
  refine ⟨_, ?_, ?_, hon.calls, hon.porttab⟩
  · rw [PortTable.ptsend, if_neg h.open, hwait]
  · obtain ⟨fl, ql, hpool, hlen⟩ := h.nodes
    refine ⟨h.inside, hon.porttab ▸ h.alloc, ?_, hon.porttab ▸ h.apart, ?_,
      fl, ql, hpool.onSem hon, hlen⟩
    · rw [hon.badSem]
      exact h.valid
    · rw [hon.porttab]
      dsimp only
      rw [setSem_self, h.units]
      push_cast
      omega

/-- Without a free node the system stops. -/
theorem Ready.panics (h : Ready port c 0 s) {seq : Int} (hseq : (s.porttab port).ptseq = seq)
    (msg : Msg) : (s.ptsendRest port seq msg).1 = .halted := by
  obtain ⟨fl, ql, hpool, hlen⟩ := h.nodes
  have hstale : ¬s.stale port seq := not_or.mpr ⟨not_not.mpr h.alloc, not_not.mpr hseq⟩
  have hnone : s.ptfree = none := by
    rw [hpool.free.head?_eq, List.length_eq_zero_iff.mp hlen]
    rfl
  rw [PortTable.ptsendRest, if_neg hstale, hnone]
  rfl

/-- A free node takes the message. -/
theorem Ready.sends (h : Ready port c (F + 1) s) {seq : Int} (hseq : (s.porttab port).ptseq = seq)
    (msg : Msg) : (s.ptsendRest port seq msg).1 = .ret OK ∧
      Ready port c F (s.ptsendRest port seq msg).2 ∧
      (s.ptsendRest port seq msg).2.calls = s.calls := by
  obtain ⟨fl, ql, hpool, hlen⟩ := h.nodes
  have hstale : ¬s.stale port seq := not_or.mpr ⟨not_not.mpr h.alloc, not_not.mpr hseq⟩
  obtain ⟨node, fl, rfl⟩ := List.exists_cons_of_length_eq_add_one hlen
  have hsome : s.ptfree = some node := hpool.free.1
  have hpool' := hpool.link msg
  have hnodes := linkNode_onNodes port node msg s
  obtain ⟨l, hl⟩ : ∃ l, l = (s.linkNode port node msg).log (.sent port msg) := ⟨_, rfl⟩
  have hentry : l.porttab port = { s.porttab port with
      pthead := (l.porttab port).pthead, pttail := (l.porttab port).pttail } := by
    rw [hl]
    exact hnodes.entry
  have hsemtab : l.semtab = s.semtab := by
    rw [hl]
    exact hnodes.semtab
  have hpoolL : Pool port fl (ql ++ [node]) l := by
    rw [hl]
    exact hpool'.congr rfl rfl rfl rfl
  have hon := signal_onSem (l.porttab port).ptrsem l
  have hssem : (l.porttab port).ptssem = (s.porttab port).ptssem := by rw [hentry]
  have hrsem : (l.porttab port).ptrsem = (s.porttab port).ptrsem := by rw [hentry]
  have hstate : (l.porttab port).ptstate = .alloc := by
    rw [hentry]
    exact h.alloc
  rw [PortTable.ptsendRest, if_neg hstale, hsome]
  dsimp only
  rw [← hl]
  refine ⟨rfl, ⟨h.inside, ?_, ?_, ?_, ?_, fl, _, hpoolL.onSem hon, Nat.succ.inj hlen⟩, ?_⟩
  · rw [hon.porttab]
    exact hstate
  · rw [hon.badSem, hon.porttab, hssem, PortTable.badSem, hsemtab]
    exact h.valid
  · rw [hon.porttab, hssem, hrsem]
    exact h.apart
  · rw [hon.porttab, hssem, hon.others _ (hrsem ▸ h.apart), hsemtab]
    exact h.units
  · rw [hon.calls, hl]
    exact hnodes.calls

/-- A port admits as many messages as its semaphore has units, when there are nodes
for them. -/
theorem admits_iff (n : Nat) (h : Ready port c F s) (hidle : s.calls pid = none) :
    Admits port n s ↔ n = c ∧ n ≤ F := by
  induction n generalizing c F s with
  | zero =>
    cases c with
    | zero => exact ⟨fun _ => ⟨rfl, Nat.zero_le F⟩, fun _ pid msg _ => h.blocks pid msg⟩
    | succ c =>
      refine ⟨fun hadmits => ?_, fun hc => absurd hc.1.symm (Nat.succ_ne_zero c)⟩
      have hblocked := hadmits pid 0 hidle
      obtain ⟨s₁, heq, hready, -, htab⟩ := h.passes pid 0
      have hseq : (s₁.porttab port).ptseq = (s.porttab port).ptseq := by rw [htab]
      rw [heq] at hblocked
      cases F with
      | zero => cases hblocked.symm.trans (hready.panics hseq 0)
      | succ F => cases hblocked.symm.trans (hready.sends hseq 0).1
  | succ n ih =>
    cases c with
    | zero =>
      refine ⟨fun hadmits => ?_, fun hc => absurd hc.1 (Nat.succ_ne_zero n)⟩
      cases (hadmits pid 0 hidle).1.symm.trans (h.blocks pid 0)
    | succ c =>
      cases F with
      | zero =>
        refine ⟨fun hadmits => ?_, fun hc => absurd hc.2 (Nat.not_succ_le_zero n)⟩
        have hsent := (hadmits pid 0 hidle).1
        obtain ⟨s₁, heq, hready, -, htab⟩ := h.passes pid 0
        rw [heq] at hsent
        cases hsent.symm.trans (hready.panics (by rw [htab]) 0)
      | succ F =>
        -- each message takes a unit and a node
        have hstep : ∀ pid' msg, (s.ptsend pid' port msg).1 = .ret OK ∧
            Ready port c F (s.ptsend pid' port msg).2 ∧
            (s.ptsend pid' port msg).2.calls pid = none := by
          intro pid' msg
          obtain ⟨s₁, heq, hready, hcalls, htab⟩ := h.passes pid' msg
          obtain ⟨hok, hready', hcalls'⟩ := hready.sends (by rw [htab]) msg
          rw [heq]
          exact ⟨hok, hready', by rw [hcalls', hcalls, hidle]⟩
        constructor
        · intro hadmits
          obtain ⟨-, hready, hidle'⟩ := hstep pid 0
          have hrest := (ih hready hidle').mp (hadmits pid 0 hidle).2
          omega
        · intro hc pid' msg _
          obtain ⟨hok, hready, hidle'⟩ := hstep pid' msg
          exact ⟨hok, (ih hready hidle').mpr (by omega)⟩

-- ---------------------------------------------------------------------------
-- A port in use
-- ---------------------------------------------------------------------------

/-- A process is in the middle of a reset of the port. -/
def Resetting (port : Nat) (c : Option Call) : Prop :=
  c = some (.clear port .alloc) ∨ c = some (.cleared port .alloc)

/-- No process deletes the port. -/
def NotDeleted (port : Nat) (c : Option Call) : Prop :=
  ∀ st, c = some (.clear port st) ∨ c = some (.cleared port st) → st = .alloc

/-- The port is closed for a reset that has put its sender semaphore back. -/
structure Closed (port : Nat) (a : Int) (count F : Nat) (s : PortTable) : Prop where
  limbo : (s.porttab port).ptstate = .limbo
  full : Full a count s
  empty : ∃ fl, Pool port fl [] s ∧ fl.length = F

/-- What use keeps of a port created with `count` and `F` free nodes. -/
structure Kept (port : Nat) (a b : Int) (count F : Nat) (s : PortTable) : Prop where
  inside : port < NPORTS
  ssem : (s.porttab port).ptssem = a
  rsem : (s.porttab port).ptrsem = b
  maxcnt : (s.porttab port).ptmaxcnt = count
  apart : a ≠ b
  valid : ¬s.badSem a
  nodes : ∃ fl ql, Pool port fl ql s ∧ fl.length + ql.length = F
  kept : ∀ pid, NotDeleted port (s.calls pid)
  closed : ∀ pid, Resetting port (s.calls pid) → Closed port a count F s
  alone : ∀ pid pid', Resetting port (s.calls pid) → Resetting port (s.calls pid') → pid = pid'

variable {a b x : Int} {count : Nat} {seq : Int} {msg : Msg}

namespace Kept

/-- An open port is not being reset. -/
theorem not_resetting (h : Kept port a b count F s)
    (hst : (s.porttab port).ptstate = .alloc) (pid : Pid) : ¬Resetting port (s.calls pid) :=
  fun hr => by cases hst.symm.trans (h.closed pid hr).limbo

theorem onSem (h : Kept port a b count F s) (ho : OnSem x s s')
    (hx : x ≠ a ∨ (s.porttab port).ptstate = .alloc) : Kept port a b count F s' := by
  obtain ⟨fl, ql, hpool, hlen⟩ := h.nodes
  refine ⟨h.inside, ?_, ?_, ?_, h.apart, ?_, ⟨fl, ql, hpool.onSem ho, hlen⟩, ?_, ?_, ?_⟩
  · rw [ho.porttab]
    exact h.ssem
  · rw [ho.porttab]
    exact h.rsem
  · rw [ho.porttab]
    exact h.maxcnt
  · rw [ho.badSem]
    exact h.valid
  · rw [ho.calls]
    exact h.kept
  · rw [ho.calls]
    intro pid hr
    have hclosed := h.closed pid hr
    obtain ⟨fl, hpool, hlen⟩ := hclosed.empty
    rcases hx with hx | hst
    · refine ⟨?_, hclosed.full.onSem ho hx.symm, fl, hpool.onSem ho, hlen⟩
      rw [ho.porttab]
      exact hclosed.limbo
    · exact absurd hr (h.not_resetting hst pid)
  · rw [ho.calls]
    exact h.alone

/-- A process enters or leaves a call that is no reset. -/
theorem setCall (h : Kept port a b count F s) {c : Option Call} (hc : ¬Resetting port c)
    (hn : NotDeleted port c) (pid : Pid) : Kept port a b count F (s.setCall pid c) := by
  have hcall : ∀ pid', (s.setCall pid c).calls pid' = if pid' = pid then c else s.calls pid' :=
    fun pid' => Function.update_apply _ _ _ _
  have hold : ∀ pid', Resetting port ((s.setCall pid c).calls pid') →
      Resetting port (s.calls pid') := by
    intro pid' hr
    rw [hcall] at hr
    by_cases hp : pid' = pid
    · rw [if_pos hp] at hr
      exact absurd hr hc
    · rwa [if_neg hp] at hr
  refine ⟨h.inside, h.ssem, h.rsem, h.maxcnt, h.apart, h.valid, ?_, fun pid' => ?_,
    fun pid' hr => ?_, fun p q hp hq => h.alone p q (hold p hp) (hold q hq)⟩
  · obtain ⟨fl, ql, hpool, hlen⟩ := h.nodes
    exact ⟨fl, ql, hpool.congr rfl rfl rfl rfl, hlen⟩
  · rw [hcall]
    by_cases hp : pid' = pid
    · rw [if_pos hp]
      exact hn
    · rw [if_neg hp]
      exact h.kept pid'
  · obtain ⟨hlimbo, hfull, fl, hpool, hlen⟩ := h.closed pid' (hold pid' hr)
    exact ⟨hlimbo, hfull, fl, hpool.congr rfl rfl rfl rfl, hlen⟩

/-- Messages move in or out of an open port. -/
theorem onNodes (h : Kept port a b count F s) (ho : OnNodes port s s')
    (hst : (s.porttab port).ptstate = .alloc) (hpool : Pool port fl ql s')
    (hlen : fl.length + ql.length = F) : Kept port a b count F s' := by
  have hnone : ∀ pid, ¬Resetting port (s'.calls pid) := fun pid => by
    rw [ho.calls]
    exact h.not_resetting hst pid
  refine ⟨h.inside, ?_, ?_, ?_, h.apart, ?_, ⟨fl, ql, hpool, hlen⟩, ?_,
    fun pid hr => absurd hr (hnone pid), fun pid _ hr => absurd hr (hnone pid)⟩
  · rw [ho.entry]
    exact h.ssem
  · rw [ho.entry]
    exact h.rsem
  · rw [ho.entry]
    exact h.maxcnt
  · rw [PortTable.badSem, ho.semtab]
    exact h.valid
  · rw [ho.calls]
    exact h.kept

theorem log (h : Kept port a b count F s) (e : Event) :
    Kept port a b count F (s.log e) := by
  obtain ⟨fl, ql, hpool, hlen⟩ := h.nodes
  refine ⟨h.inside, h.ssem, h.rsem, h.maxcnt, h.apart, h.valid,
    ⟨fl, ql, hpool.congr rfl rfl rfl rfl, hlen⟩, h.kept, fun pid hr => ?_, h.alone⟩
  obtain ⟨hlimbo, hfull, fl, hpool, hlen⟩ := h.closed pid hr
  exact ⟨hlimbo, hfull, fl, hpool.congr rfl rfl rfl rfl, hlen⟩

theorem halt (h : Kept port a b count F s) : Kept port a b count F s.halt.2 := by
  obtain ⟨fl, ql, hpool, hlen⟩ := h.nodes
  refine ⟨h.inside, h.ssem, h.rsem, h.maxcnt, h.apart, h.valid,
    ⟨fl, ql, hpool.congr rfl rfl rfl rfl, hlen⟩, h.kept, fun pid hr => ?_, h.alone⟩
  obtain ⟨hlimbo, hfull, fl, hpool, hlen⟩ := h.closed pid hr
  exact ⟨hlimbo, hfull, fl, hpool.congr rfl rfl rfl rfl, hlen⟩

-- ---------------------------------------------------------------------------
-- The calls on the port
-- ---------------------------------------------------------------------------

theorem ptsendRest (h : Kept port a b count F s) (seq : Int) (msg : Msg) :
    Kept port a b count F (s.ptsendRest port seq msg).2 := by
  unfold PortTable.ptsendRest
  by_cases hstale : s.stale port seq
  · rw [if_pos hstale]
    exact h
  · rw [if_neg hstale]
    have hst : (s.porttab port).ptstate = .alloc := not_not.mp (not_or.mp hstale).1
    cases hfree : s.ptfree with
    | none => exact h.halt
    | some node =>
      obtain ⟨fl, ql, hpool, hlen⟩ := h.nodes
      obtain ⟨fl, rfl⟩ : ∃ l, fl = node :: l := by
        have hhead := hpool.free.head?_eq
        rw [hfree] at hhead
        exact ⟨_, List.eq_cons_of_mem_head? hhead.symm⟩
      have hlinked := (h.onNodes (linkNode_onNodes port node msg s) hst (hpool.link msg)
        (by rw [List.length_append, List.length_singleton, ← hlen, List.length_cons]; omega)).log
          (.sent port msg)
      dsimp only
      exact hlinked.onSem (signal_onSem _ _) (.inl (by rw [hlinked.rsem]; exact h.apart.symm))

theorem ptrecvRest (h : Kept port a b count F s) (seq : Int) :
    Kept port a b count F (s.ptrecvRest port seq).2 := by
  unfold PortTable.ptrecvRest
  by_cases hstale : s.stale port seq
  · rw [if_pos hstale]
    exact h
  · rw [if_neg hstale]
    have hst : (s.porttab port).ptstate = .alloc := not_not.mp (not_or.mp hstale).1
    cases hhead : (s.porttab port).pthead with
    | none => exact h.halt
    | some node =>
      obtain ⟨fl, ql, hpool, hlen⟩ := h.nodes
      obtain ⟨ql, rfl⟩ : ∃ l, ql = node :: l := by
        have hfirst := hpool.queue.head?_eq
        rw [hhead] at hfirst
        exact ⟨_, List.eq_cons_of_mem_head? hfirst.symm⟩
      have hnodes := unlinkNode_onNodes port node s
      have hunlinked := (h.onNodes hnodes hst hpool.unlink
        (by rw [← hlen, List.length_cons, List.length_cons]; omega)).log
          (.received port (s.ptmsg node))
      dsimp only
      refine hunlinked.onSem (signal_onSem _ _) (.inr ?_)
      have hentry := congrArg Ptentry.ptstate hnodes.entry
      exact hentry.trans hst

theorem ptsend (h : Kept port a b count F s) (pid : Pid) (msg : Msg) :
    Kept port a b count F (s.ptsend pid port msg).2 := by
  unfold PortTable.ptsend
  by_cases hbad : s.badPort port
  · rw [if_pos hbad]
    exact h
  · rw [if_neg hbad]
    have hst : (s.porttab port).ptstate = .alloc := not_not.mp (not_or.mp hbad).2
    have hwait := h.onSem (wait_onSem pid (s.porttab port).ptssem s) (.inr hst)
    rcases hw : s.wait pid (s.porttab port).ptssem with ⟨_ | _ | _, s₁⟩
    · rw [hw] at hwait
      exact hwait
    · rw [hw] at hwait
      exact hwait.ptsendRest _ msg
    · rw [hw] at hwait
      exact hwait.setCall (by simp [Resetting]) (by simp [NotDeleted]) pid

theorem ptrecv (h : Kept port a b count F s) (pid : Pid) :
    Kept port a b count F (s.ptrecv pid port).2 := by
  unfold PortTable.ptrecv
  by_cases hbad : s.badPort port
  · rw [if_pos hbad]
    exact h
  · rw [if_neg hbad]
    have hst : (s.porttab port).ptstate = .alloc := not_not.mp (not_or.mp hbad).2
    have hwait := h.onSem (wait_onSem pid (s.porttab port).ptrsem s) (.inr hst)
    rcases hw : s.wait pid (s.porttab port).ptrsem with ⟨_ | _ | _, s₁⟩
    · rw [hw] at hwait
      exact hwait
    · rw [hw] at hwait
      exact hwait.ptrecvRest _
    · rw [hw] at hwait
      exact hwait.setCall (by simp [Resetting]) (by simp [NotDeleted]) pid

/-- The reset closes the port, takes its messages away and puts its sender semaphore
back. -/
theorem ptclear_closed (h : Kept port a b count F s) (hst : (s.porttab port).ptstate = .alloc)
    (n : Nat) : Kept port a b count F (s.ptclear n port .alloc) ∧
      Closed port a count F (s.ptclear n port .alloc) ∧
      (s.ptclear n port .alloc).calls = s.calls := by
  obtain ⟨fl, ql, hpool, hlen⟩ := h.nodes
  obtain ⟨t, ht⟩ : ∃ t, t = s.setPort port fun e =>
    { e with ptstate := .limbo, ptseq := int32 (e.ptseq + 1) } := ⟨_, rfl⟩
  have htab : t.porttab port = { s.porttab port with
      ptstate := .limbo, ptseq := int32 ((s.porttab port).ptseq + 1) } := by
    rw [ht]
    exact setPort_self _ _ _
  have hpool' : Pool port fl ql t := by
    refine hpool.congr ?_ ?_ ?_ ?_
    · rw [ht]
      rfl
    · rw [ht]
      rfl
    · rw [htab]
    · rw [htab]
  obtain ⟨next, free, tr, hfreed, hall⟩ := hpool'.freeMessages n
  obtain ⟨u, hu⟩ : ∃ u, u = (t.freeMessages n port).setPort port fun e =>
    { e with pttail := none, pthead := none } := ⟨_, rfl⟩
  have hentry : u.porttab port = { t.porttab port with pttail := none, pthead := none } := by
    rw [hu, setPort_self, hfreed]
  have hsem : u.semtab = s.semtab ∧ u.calls = s.calls := by
    rw [hu, hfreed, ht]
    exact ⟨rfl, rfl⟩
  have hempty : Pool port (ql ++ fl) [] u := by
    refine ⟨?_, ?_, ?_, ?_⟩
    · rw [hu, hfreed]
      exact hall
    · rw [hentry]
      rfl
    · rw [hentry]
      rfl
    · rw [List.append_nil]
      exact (List.perm_append_comm.nodup_iff).mp hpool.nodup
  have hssem : (u.porttab port).ptssem = a := by
    rw [hentry, htab]
    exact h.ssem
  have hvalid : ¬u.badSem a := by
    rw [PortTable.badSem, hsem.1]
    exact h.valid
  have hmax : (u.porttab port).ptmaxcnt = count := by
    rw [hentry, htab]
    exact h.maxcnt
  have hclear : s.ptclear n port .alloc = u.semreset a count := by
    rw [PortTable.ptclear]
    dsimp only
    rw [if_pos rfl, ← ht, ← hu, hssem, hmax]
  have hon := semreset_onSem a count u
  have hcalls : (s.ptclear n port .alloc).calls = s.calls := by rw [hclear, hon.calls, hsem.2]
  have hclosed : Closed port a count F (s.ptclear n port .alloc) := by
    rw [hclear]
    refine ⟨?_, semreset_full (Int.natCast_nonneg count) hvalid, ql ++ fl, hempty.onSem hon, ?_⟩
    · rw [hon.porttab, hentry, htab]
    · rw [List.length_append]
      omega
  refine ⟨⟨h.inside, ?_, ?_, ?_, h.apart, ?_, ?_, ?_, fun _ _ => hclosed, ?_⟩, hclosed, hcalls⟩
  · rw [hclear, hon.porttab]
    exact hssem
  · rw [hclear, hon.porttab, hentry, htab]
    exact h.rsem
  · rw [hclear, hon.porttab]
    exact hmax
  · rw [hclear, hon.badSem]
    exact hvalid
  · obtain ⟨l, hl, hn⟩ := hclosed.empty
    exact ⟨l, [], hl, hn⟩
  · rw [hcalls]
    exact h.kept
  · rw [hcalls]
    exact fun p q hp _ => absurd hp (h.not_resetting hst p)

/-- A process goes on with the only reset of a closed port. -/
theorem setResetting (h : Kept port a b count F s) (hclosed : Closed port a count F s) {k : Call}
    (hn : NotDeleted port (some k))
    (halone : ∀ p, Resetting port (s.calls p) → p = pid) :
    Kept port a b count F (s.setCall pid (some k)) := by
  have hcall : ∀ p, (s.setCall pid (some k)).calls p = if p = pid then some k else s.calls p :=
    fun p => Function.update_apply _ _ _ _
  have hold : ∀ p, Resetting port ((s.setCall pid (some k)).calls p) → p = pid := by
    intro p hr
    by_contra hp
    rw [hcall, if_neg hp] at hr
    exact hp (halone p hr)
  obtain ⟨hlimbo, hfull, l, hempty, hlen⟩ := hclosed
  refine ⟨h.inside, h.ssem, h.rsem, h.maxcnt, h.apart, h.valid, ?_, fun p => ?_,
    fun _ _ => ⟨hlimbo, hfull, l, hempty.congr rfl rfl rfl rfl, hlen⟩,
    fun p q hp hq => (hold p hp).trans (hold q hq).symm⟩
  · exact ⟨l, [], hempty.congr rfl rfl rfl rfl, hlen⟩
  · rw [hcall]
    by_cases hp : p = pid
    · rw [if_pos hp]
      exact hn
    · rw [if_neg hp]
      exact h.kept p

theorem reset (h : Kept port a b count F s) (n : Nat) (pid : Pid) :
    Kept port a b count F (s.ptend n pid port .alloc).2 := by
  unfold PortTable.ptend
  by_cases hbad : s.badPort port
  · rw [if_pos hbad]
    exact h
  · rw [if_neg hbad]
    have hst : (s.porttab port).ptstate = .alloc := not_not.mp (not_or.mp hbad).2
    obtain ⟨hkept, hclosed, hcalls⟩ := h.ptclear_closed hst n
    refine hkept.setResetting hclosed (by simp [NotDeleted]) fun p hr => ?_
    rw [hcalls] at hr
    exact absurd hr (h.not_resetting hst p)

/-- The reset goes on: the receivers are released. -/
theorem clear (h : Kept port a b count F s) (hc : s.calls pid = some (.clear port .alloc)) :
    Kept port a b count F
      ((s.ptclearNext port .alloc).setCall pid (some (.cleared port .alloc))) := by
  have hreset : Resetting port (s.calls pid) := .inl hc
  have hclosed := h.closed pid hreset
  have hon : OnSem b s (s.ptclearNext port .alloc) := by
    rw [PortTable.ptclearNext, if_pos rfl, h.rsem]
    exact semreset_onSem b 0 s
  have hkept := h.onSem hon (.inl h.apart.symm)
  have hcalls : (s.ptclearNext port .alloc).calls = s.calls := hon.calls
  refine hkept.setResetting (hkept.closed pid ?_) (by simp [NotDeleted]) fun p hr => ?_
  · rw [hcalls]
    exact hreset
  · rw [hcalls] at hr
    exact h.alone p pid hr hreset

/-- The reset ends: the port is open again, with all its places. -/
theorem done (h : Kept port a b count F s) (hc : s.calls pid = some (.cleared port .alloc)) :
    let s' := (s.ptclearDone port .alloc).setCall pid none
    Kept port a b count F s' ∧ Ready port count F s' ∧ s'.calls pid = none := by
  intro s'
  have hreset : Resetting port (s.calls pid) := .inr hc
  obtain ⟨-, hfull, fl, hpool, hlen⟩ := h.closed pid hreset
  have hentry : s'.porttab port = { s.porttab port with ptstate := .alloc } :=
    setPort_self port (fun e => { e with ptstate := .alloc }) s
  have hsemtab : s'.semtab = s.semtab := rfl
  have hcall : ∀ p, s'.calls p = if p = pid then none else s.calls p :=
    fun p => Function.update_apply _ _ _ _
  have hnone : ∀ p, ¬Resetting port (s'.calls p) := by
    intro p hr
    rw [hcall] at hr
    by_cases hp : p = pid
    · rw [if_pos hp] at hr
      revert hr
      simp [Resetting]
    · rw [if_neg hp] at hr
      exact hp (h.alone p pid hr hreset)
  have hpool' : Pool port fl [] s' := by
    refine hpool.congr rfl rfl ?_ ?_
    · rw [hentry]
    · rw [hentry]
  have hssem : (s'.porttab port).ptssem = a := by
    rw [hentry]
    exact h.ssem
  have hrsem : (s'.porttab port).ptrsem = b := by
    rw [hentry]
    exact h.rsem
  have hmax : (s'.porttab port).ptmaxcnt = count := by
    rw [hentry]
    exact h.maxcnt
  refine ⟨⟨h.inside, hssem, hrsem, hmax, h.apart, h.valid, ⟨fl, [], hpool', hlen⟩, fun p => ?_,
    fun p hr => absurd hr (hnone p), fun p _ hr => absurd hr (hnone p)⟩,
    ⟨h.inside, ?_, ?_, ?_, ?_, fl, [], hpool', hlen⟩, Function.update_self _ _ _⟩
  · rw [hcall]
    by_cases hp : p = pid
    · rw [if_pos hp]
      simp [NotDeleted]
    · rw [if_neg hp]
      exact h.kept p
  · rw [hentry]
  · rw [hssem]
    exact h.valid
  · rw [hssem, hrsem]
    exact h.apart
  · rw [hssem]
    exact hfull.1

/-- One step of some process on the port. -/
theorem uses {nodes : Nat} (h : Kept port a b count F s) (hs : Uses nodes port s s') :
    Kept port a b count F s' := by
  obtain ⟨pid, act, o, hon, hstep⟩ := hs
  unfold step at hstep
  by_cases hhalt : s.halted = true
  · rw [if_pos hhalt] at hstep
    cases hstep
  · rw [if_neg hhalt] at hstep
    have hresult : ∀ {r : Outcome × PortTable}, some r = some (o, s') → r.2 = s' :=
      fun heq => congrArg Prod.snd (Option.some.inj heq)
    cases hc : s.calls pid with
    | none =>
      cases act with
      | create count => exact absurd hon id
      | delete p => exact absurd hon id
      | resume => rw [hc] at hstep; cases hstep
      | send p msg =>
        obtain rfl : p = port := hon
        rw [hc] at hstep
        exact hresult hstep ▸ h.ptsend pid msg
      | recv p =>
        obtain rfl : p = port := hon
        rw [hc] at hstep
        exact hresult hstep ▸ h.ptrecv pid
      | reset p =>
        obtain rfl : p = port := hon
        rw [hc] at hstep
        exact hresult hstep ▸ h.reset nodes pid
    | some k =>
      cases act with
      | create count => exact absurd hon id
      | delete p => exact absurd hon id
      | send p msg => rw [hc] at hstep; cases hstep
      | recv p => rw [hc] at hstep; cases hstep
      | reset p => rw [hc] at hstep; cases hstep
      | resume =>
        have hport : k.portid = port := hon k hc
        rw [hc] at hstep
        dsimp only at hstep
        by_cases hr : s.ready pid = true
        · rw [if_pos hr] at hstep
          rw [← hresult hstep]
          have hidle : Kept port a b count F (s.setCall pid none) :=
            h.setCall (by simp [Resetting]) (by simp [NotDeleted]) pid
          cases k with
          | send p seq msg =>
            obtain rfl : p = port := hport
            exact hidle.ptsendRest seq msg
          | recv p seq =>
            obtain rfl : p = port := hport
            exact hidle.ptrecvRest seq
          | clear p st =>
            obtain rfl : p = port := hport
            obtain rfl := h.kept pid st (.inl hc)
            exact h.clear hc
          | cleared p st =>
            obtain rfl : p = port := hport
            obtain rfl := h.kept pid st (.inr hc)
            exact (h.done hc).1
        · rw [if_neg hr] at hstep
          cases hstep

/-- **Whatever is done with the port**, it keeps its capacity for the next reset. -/
theorem run {nodes : Nat} (h : Kept port a b count F s)
    (hrun : Relation.ReflTransGen (Uses nodes port) s s') : Kept port a b count F s' := by
  induction hrun with
  | refl => exact h
  | tail _ hs ih => exact ih.uses hs

/-- The last step of a reset. -/
theorem step_cleared {nodes : Nat} {o : Outcome} (hc : s.calls pid = some (.cleared port .alloc))
    (hstep : step nodes pid .resume s = some (o, s')) :
    s' = (s.ptclearDone port .alloc).setCall pid none := by
  unfold step at hstep
  rw [hc] at hstep
  split at hstep
  · cases hstep
  · dsimp only at hstep
    split at hstep
    · exact (congrArg Prod.snd (Option.some.inj hstep)).symm
    · cases hstep

/-- So each reset leaves the port with its places. -/
theorem recovers (h : Kept port a b count F s) (hF : count ≤ F) (nodes : Nat) :
    Recovers nodes port count s := by
  intro s₁ hrun pid o s₂ hc hstep
  obtain ⟨-, hready, hidle⟩ := (h.run hrun).done hc
  rw [step_cleared hc hstep]
  exact (admits_iff count hready hidle).mpr ⟨rfl, hF⟩

end Kept

-- ---------------------------------------------------------------------------
-- Creation
-- ---------------------------------------------------------------------------

/-- A state between calls: the free nodes are `fl`, the search indices lie in their
tables, and only a closed port is being reset or deleted. The process that calls next is `pid`. -/
structure Sane (pid : Pid) (fl : List Node) (s : PortTable) : Prop where
  nextid : s.ptnextid < NPORTS
  nextsem : 0 ≤ s.nextsem ∧ s.nextsem < NSEM
  free : Follows s.ptnext s.ptfree fl
  nodup : fl.Nodup
  closed : ∀ p port st, s.calls p = some (.clear port st) ∨ s.calls p = some (.cleared port st) →
    (s.porttab port).ptstate = .limbo
  idle : s.calls pid = none
  runs : s.ready pid = true
  going : s.halted = false

/-- Some port is free. -/
def PortFree (s : PortTable) : Prop := ∃ p < NPORTS, (s.porttab p).ptstate = .free

/-- When a port can be had, its semaphores can be had too, its count fits 16 bits, and
there is a node for each of its messages. -/
def Fits (count : Int) (free : Nat) (s : PortTable) : Prop :=
  0 ≤ count → PortFree s → TwoFree s ∧ count < 2 ^ 16 ∧ count ≤ free

/-- `ptcreate` fills a free entry, or finds none. -/
theorem ptcreateLoop_cases (count : Int) (n : Nat) (s : PortTable) (hn : s.ptnextid < NPORTS) :
    (∃ v, s.ptcreateLoop count n = (SYSERR, { s with ptnextid := v }) ∧ v < NPORTS ∧
      ∀ j < n, (s.porttab ((s.ptnextid + j) % NPORTS)).ptstate ≠ .free) ∨
    ∃ port v, port < NPORTS ∧ (s.porttab port).ptstate = .free ∧ v < NPORTS ∧
      s.ptcreateLoop count n =
        ((port : Int), ({ s with ptnextid := v } : PortTable).openPort count port) := by
  induction n generalizing s with
  | zero => exact .inl ⟨s.ptnextid, rfl, hn, fun j hj => absurd hj (Nat.not_lt_zero j)⟩
  | succ n ih =>
    have hnext : (if NPORTS ≤ s.ptnextid + 1 then 0 else s.ptnextid + 1) =
        (s.ptnextid + 1) % NPORTS := by
      unfold NPORTS at *
      split <;> omega
    have hrange : (s.ptnextid + 1) % NPORTS < NPORTS := Nat.mod_lt _ (by decide)
    rw [PortTable.ptcreateLoop]
    dsimp only
    rw [hnext]
    by_cases hfree : (s.porttab s.ptnextid).ptstate = .free
    · rw [if_pos hfree]
      exact .inr ⟨s.ptnextid, _, hn, hfree, hrange, rfl⟩
    · rw [if_neg hfree]
      rcases ih { s with ptnextid := (s.ptnextid + 1) % NPORTS } hrange with
        ⟨v, heq, hv, hall⟩ | ⟨port, v, hport, hst, hv, heq⟩
      · refine .inl ⟨v, heq, hv, fun j hj => ?_⟩
        cases j with
        | zero => rwa [Nat.add_zero, Nat.mod_eq_of_lt hn]
        | succ j =>
          have hmod : ((s.ptnextid + 1) % NPORTS + j) % NPORTS =
              (s.ptnextid + (j + 1)) % NPORTS := by
            unfold NPORTS
            omega
          rw [← hmod]
          exact hall j (Nat.lt_of_succ_lt_succ hj)
      · exact .inr ⟨port, v, hport, hst, hv, heq⟩

/-- So it fails exactly when no port is free. -/
theorem ptcreate_cases {count : Int} (hc : 0 ≤ count) (hn : s.ptnextid < NPORTS) :
    (¬PortFree s ∧ ∃ v < NPORTS, s.ptcreate count = (SYSERR, { s with ptnextid := v })) ∨
    ∃ port v, port < NPORTS ∧ (s.porttab port).ptstate = .free ∧ v < NPORTS ∧
      s.ptcreate count =
        ((port : Int), ({ s with ptnextid := v } : PortTable).openPort count port) := by
  rw [PortTable.ptcreate, if_neg (not_lt.mpr hc)]
  rcases ptcreateLoop_cases count NPORTS s hn with ⟨v, heq, hv, hall⟩ | hport
  · refine .inl ⟨fun ⟨port, hlt, hfree⟩ => ?_, v, hv, heq⟩
    have hat : (s.ptnextid + (port + NPORTS - s.ptnextid) % NPORTS) % NPORTS = port := by
      unfold NPORTS at *
      omega
    exact hall ((port + NPORTS - s.ptnextid) % NPORTS) (Nat.mod_lt _ (by decide))
      (by rw [hat]; exact hfree)
  · exact .inr hport

/-- The entry that `ptcreate` fills when it gets both semaphores. -/
theorem openPort_kept {count : Int} (h : Sane pid fl s) (hc : 0 ≤ count) (hport : port < NPORTS)
    (hfree : (s.porttab port).ptstate = .free) (htwo : TwoFree s) :
    let s' := s.openPort count port
    (∃ a b, Kept port a b (count.toNat % 2 ^ 16) fl.length s') ∧
      Ready port count.toNat fl.length s' ∧ s'.calls = s.calls ∧ s'.ready = s.ready ∧
      s'.halted = s.halted := by
  intro s'
  obtain ⟨x, y, hxy, hx, hy, hxf, hyf⟩ := htwo
  obtain ⟨s₁, hs₁⟩ : ∃ t, t = s.setPort port fun e => { e with ptstate := .alloc } := ⟨_, rfl⟩
  have hsem₁ : s₁.semtab = s.semtab ∧ s₁.nextsem = s.nextsem := by
    rw [hs₁]
    exact ⟨rfl, rfl⟩
  have hany : AnyFree s₁ := ⟨x, hx, by rw [hsem₁.1]; exact hxf⟩
  rcases semcreate_cases hc (hsem₁.2 ▸ h.nextsem) with ⟨hnone, -⟩ | ⟨a, v, ha, haf, hv, heqa⟩
  · exact absurd hany hnone
  obtain ⟨s₂, hs₂⟩ : ∃ t, t = ((({ s₁ with nextsem := v } : PortTable).setSem a fun e =>
    { e with used := true, scount := count }).setPort port fun e => { e with ptssem := a }) :=
      ⟨_, rfl⟩
  have hsem₂ : s₂.semtab = Function.update s.semtab a
      { s.semtab a with used := true, scount := count } ∧ s₂.nextsem = v := by
    rw [hs₂, ← hsem₁.1]
    exact ⟨rfl, rfl⟩
  -- the second semaphore is another one
  have hany₂ : AnyFree s₂ := by
    rw [hsem₁.1] at haf
    by_cases hax : x = a
    · refine ⟨y, hy, ?_⟩
      rw [hsem₂.1, Function.update_of_ne (fun hya => hxy (hax.trans hya.symm))]
      exact hyf
    · refine ⟨x, hx, ?_⟩
      rw [hsem₂.1, Function.update_of_ne hax]
      exact hxf
  rcases semcreate_cases (le_refl 0) (hsem₂.2 ▸ hv) with ⟨hnone, -⟩ | ⟨b, w, hb, hbf, -, heqb⟩
  · exact absurd hany₂ hnone
  have hab : a ≠ b := by
    rintro rfl
    rw [hsem₂.1, Function.update_self] at hbf
    cases hbf
  have hs' : s' = (((({ s₂ with nextsem := w } : PortTable).setSem b fun e =>
      { e with used := true, scount := 0 }).setPort port fun e =>
        { e with
          ptrsem := b
          pthead := none
          pttail := none
          ptseq := int32 (e.ptseq + 1)
          ptmaxcnt := count.toNat % 2 ^ 16 }).log (.opened port)) := by
    change s.openPort count port = _
    rw [PortTable.openPort, ← hs₁, heqa, ← hs₂, heqb]
  have hentry : s'.porttab port = { s.porttab port with
      ptstate := .alloc, ptssem := a, ptrsem := b, pthead := none, pttail := none,
      ptseq := int32 ((s.porttab port).ptseq + 1), ptmaxcnt := count.toNat % 2 ^ 16 } := by
    rw [hs', hs₂, hs₁]
    simp [PortTable.log, PortTable.setPort, PortTable.setSem]
  have hunit : s'.semtab a = { s.semtab a with used := true, scount := count } := by
    rw [hs']
    change Function.update s₂.semtab b _ a = _
    rw [Function.update_of_ne hab, hsem₂.1, Function.update_self]
  have hrest : s'.ptnext = s.ptnext ∧ s'.ptfree = s.ptfree ∧ s'.calls = s.calls ∧
      s'.ready = s.ready ∧ s'.halted = s.halted := by
    rw [hs', hs₂, hs₁]
    exact ⟨rfl, rfl, rfl, rfl, rfl⟩
  have hpool : Pool port fl [] s' := by
    refine ⟨?_, ?_, ?_, ?_⟩
    · rw [hrest.1, hrest.2.1]
      exact h.free
    · rw [hentry]
      rfl
    · rw [hentry]
      rfl
    · rw [List.append_nil]
      exact h.nodup
  have hvalid : ¬s'.badSem a := by
    refine not_or.mpr ⟨ha, ?_⟩
    rw [hunit]
    exact Bool.noConfusion
  -- a free port was not being reset
  have hopen : ∀ p st, s'.calls p ≠ some (.clear port st) ∧ s'.calls p ≠ some (.cleared port st) := by
    intro p st
    rw [hrest.2.2.1]
    exact ⟨fun hr => (by cases hfree.symm.trans (h.closed p port st (.inl hr))),
      fun hr => (by cases hfree.symm.trans (h.closed p port st (.inr hr)))⟩
  have hnone : ∀ p, ¬Resetting port (s'.calls p) := fun p hr =>
    hr.elim (hopen p .alloc).1 (hopen p .alloc).2
  refine ⟨⟨a, b, hport, ?_, ?_, ?_, hab, hvalid, ⟨fl, [], hpool, rfl⟩, ?_, ?_, ?_⟩,
    ⟨hport, ?_, ?_, ?_, ?_, fl, [], hpool, rfl⟩, hrest.2.2⟩
  · rw [hentry]
  · rw [hentry]
  · rw [hentry]
  · exact fun p st hr => (hr.elim (hopen p st).1 (hopen p st).2).elim
  · exact fun p hr => absurd hr (hnone p)
  · exact fun p _ hr => absurd hr (hnone p)
  · rw [hentry]
  · rw [hentry]
    exact hvalid
  · rw [hentry]
    exact hab
  · rw [hentry, hunit]
    exact (Int.toNat_of_nonneg hc).symm

-- ---------------------------------------------------------------------------
-- The claim
-- ---------------------------------------------------------------------------

/-- The creator resets the new port. -/
theorem exists_reset {nodes : Nat} (h : Kept port a b count F s)
    (hst : (s.porttab port).ptstate = .alloc) (hidle : s.calls pid = none)
    (hready : s.ready pid = true) (hgo : s.halted = false) :
    ∃ s₁ s₂, Relation.ReflTransGen (Uses nodes port) s s₁ ∧
      s₁.calls pid = some (.cleared port .alloc) ∧
      step nodes pid .resume s₁ = some (.ret OK, s₂) := by
  obtain ⟨s₁, hs₁⟩ : ∃ t, t = (s.ptclear nodes port .alloc).setCall pid (some (.clear port .alloc)) :=
    ⟨_, rfl⟩
  obtain ⟨s₂, hs₂⟩ : ∃ t, t = (s₁.ptclearNext port .alloc).setCall pid (some (.cleared port .alloc)) :=
    ⟨_, rfl⟩
  have hbad : ¬s.badPort port := not_or.mpr ⟨not_le.mpr h.inside, not_not.mpr hst⟩
  -- the process may go on, and the system does
  have hgo₁ : s₁.ready pid = true ∧ s₁.halted = false := by
    obtain ⟨fl, ql, hpool, -⟩ := h.nodes
    have hpool' : Pool port fl ql (s.setPort port fun e =>
        { e with ptstate := .limbo, ptseq := int32 (e.ptseq + 1) }) := by
      refine hpool.congr rfl rfl ?_ ?_
      · rw [setPort_self]
      · rw [setPort_self]
    obtain ⟨next, free, tr, hfreed, -⟩ := hpool'.freeMessages nodes
    rw [hs₁]
    simp only [PortTable.ptclear, if_true, hfreed]
    constructor
    · exact semreset_ready _ hready
    · change (PortTable.semreset _ _ _).halted = false
      rw [(semreset_onSem _ _ _).only]
      exact hgo
  have hgo₂ : s₂.ready pid = true ∧ s₂.halted = false := by
    rw [hs₂, PortTable.ptclearNext, if_pos rfl]
    constructor
    · exact semreset_ready _ hgo₁.1
    · change (PortTable.semreset _ _ _).halted = false
      rw [(semreset_onSem _ _ _).only]
      exact hgo₁.2
  have hc₁ : s₁.calls pid = some (.clear port .alloc) := by
    rw [hs₁]
    exact Function.update_self _ _ _
  have hc₂ : s₂.calls pid = some (.cleared port .alloc) := by
    rw [hs₂]
    exact Function.update_self _ _ _
  have hstep₁ : step nodes pid (.reset port) s = some (.yielded, s₁) := by
    simp only [step, hgo, hidle, PortTable.ptend, if_neg hbad, hs₁, Bool.false_eq_true, if_false]
  have hstep₂ : step nodes pid .resume s₁ = some (.yielded, s₂) := by
    simp only [step, hgo₁.1, hgo₁.2, hc₁, Call.run, hs₂, Bool.false_eq_true, if_false, if_true]
  refine ⟨s₂, (s₂.ptclearDone port .alloc).setCall pid none, ?_, hc₂, ?_⟩
  · refine (Relation.ReflTransGen.single ⟨pid, .reset port, _, rfl, hstep₁⟩).tail
      ⟨pid, .resume, _, ?_, hstep₂⟩
    intro c hc
    rw [hc₁] at hc
    cases hc
    rfl
  · simp only [step, hgo₂.1, hgo₂.2, hc₂, Call.run, Bool.false_eq_true, if_false, if_true]

/-- A call that fails and leaves the tables alone keeps the claim. -/
theorem capacityKept_syserr {nodes : Nat} {count : Int} (hret : (s.ptcreate count).1 = SYSERR)
    (hport : (s.ptcreate count).2.porttab = s.porttab)
    (hsem : (s.ptcreate count).2.semtab = s.semtab) : CapacityKept nodes count s := by
  have hno : ∀ p : Nat, (s.ptcreate count).1 ≠ p := by
    intro p hp
    have hneg : SYSERR < 0 := by decide
    omega
  exact ⟨fun _ => ⟨hret, hport, hsem⟩, fun p hp => absurd hp (hno p), fun p hp => absurd hp (hno p)⟩

/-- For every state between calls and every count, `ptcreate` keeps the claim exactly
when it finds no port, or finds its semaphores, a count of 16 bits and enough nodes. -/
theorem port_capacity (h : Sane pid fl s) (nodes : Nat) (count : Int) :
    CapacityKept nodes count s ↔ Fits count fl.length s := by
  by_cases hc : 0 ≤ count
  · rcases ptcreate_cases hc h.nextid with ⟨hnone, v, -, heq⟩ | ⟨port, v, hport, hfree, hv, heq⟩
    · refine ⟨fun _ _ hfree => absurd hfree hnone, fun _ => ?_⟩
      apply capacityKept_syserr <;> rw [heq]
    · obtain ⟨t, ht⟩ : ∃ t : PortTable, t = { s with ptnextid := v } := ⟨_, rfl⟩
      have hsane : Sane pid fl t := by
        rw [ht]
        exact ⟨hv, h.nextsem, h.free, h.nodup, h.closed, h.idle, h.runs, h.going⟩
      rw [← ht] at heq
      have htwo : TwoFree t ↔ TwoFree s := by rw [ht]; exact Iff.rfl
      have hfree' : (t.porttab port).ptstate = .free := by rw [ht]; exact hfree
      constructor
      · intro hkept _ _
        have hsems : TwoFree s := by
          by_contra hno
          have hret := (hkept.refuses hno).1
          rw [heq] at hret
          have hneg : SYSERR < 0 := by decide
          omega
        obtain ⟨⟨a, b, hk⟩, hready, hcalls, hrun, hgo⟩ :=
          openPort_kept hsane hc hport hfree' (htwo.mpr hsems)
        have hidle : (t.openPort count port).calls pid = none := by rw [hcalls, hsane.idle]
        have hadmits := hkept.admits port (by rw [heq])
        rw [heq] at hadmits
        have hroom := (admits_iff _ hready hidle).mp hadmits
        refine ⟨hsems, ?_, by omega⟩
        -- the reset port goes by `ptmaxcnt`
        obtain ⟨s₁, s₂, hreach, hc₁, hstep⟩ := @exists_reset _ _ _ _ _ _ _ nodes hk hready.alloc
          hidle (by rw [hrun, hsane.runs]) (by rw [hgo, hsane.going])
        have hrecovers := hkept.recovers port (by rw [heq])
        rw [heq] at hrecovers
        have hagain := hrecovers s₁ hreach pid _ s₂ hc₁ hstep
        obtain ⟨-, hready₂, hidle₂⟩ := (hk.run hreach).done hc₁
        rw [Kept.step_cleared hc₁ hstep] at hagain
        have hsame := ((admits_iff _ hready₂ hidle₂).mp hagain).1
        omega
      · intro hfits
        obtain ⟨hsems, hsmall, hroom⟩ := hfits hc ⟨port, hport, hfree⟩
        obtain ⟨⟨a, b, hk⟩, hready, hcalls, -, -⟩ :=
          openPort_kept hsane hc hport hfree' (htwo.mpr hsems)
        have hidle : (t.openPort count port).calls pid = none := by rw [hcalls, hsane.idle]
        have hmod : count.toNat % 2 ^ 16 = count.toNat := Nat.mod_eq_of_lt (by omega)
        rw [hmod] at hk
        constructor
        · exact fun hno => absurd hsems hno
        · intro p hp
          rw [heq] at hp ⊢
          obtain rfl : port = p := Int.ofNat.inj hp
          exact (admits_iff _ hready hidle).mpr ⟨rfl, by omega⟩
        · intro p hp
          rw [heq] at hp ⊢
          obtain rfl : port = p := Int.ofNat.inj hp
          exact hk.recovers (by omega) nodes
  · have hret : s.ptcreate count = (SYSERR, s) := if_pos (not_le.mp hc)
    refine ⟨fun _ h0 => absurd h0 hc, fun _ => ?_⟩
    apply capacityKept_syserr <;> rw [hret]

/-- Two messages on a system of four nodes. -/
theorem port_capacity_two : Fits 2 4 (ptinit 4 false) ∧ CapacityKept 4 2 (ptinit 4 false) := by
  have hsane : Sane 0 [0, 1, 2, 3] (ptinit 4 false) := by
    refine ⟨by decide, by decide, ⟨rfl, rfl, rfl, rfl, rfl⟩, by decide, ?_, rfl, rfl, rfl⟩
    rintro p port st (h | h) <;> cases h
  have hfits : Fits 2 4 (ptinit 4 false) := fun _ _ =>
    ⟨⟨0, 1, by decide, by decide, by decide, rfl, rfl⟩, by decide, by decide⟩
  exact ⟨hfits, (port_capacity hsane 4 2).mpr hfits⟩

/-- Without a semaphore the port is handed out all the same. -/
theorem port_not_capacity : ¬CapacityKept 4 2 (ptinit 4 true) := by
  intro h
  have htwo : ¬TwoFree (ptinit 4 true) := by
    rintro ⟨a, b, -, -, -, ha, -⟩
    cases ha
  have hret := (h.refuses htwo).1
  revert hret
  decide +kernel

end Xinu.Ports
