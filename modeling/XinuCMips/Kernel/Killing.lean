import XinuCMips.Heap.Stacks
import XinuCMips.Kernel.Runs

/-!
# The process table under `kill`

`kill` takes its victim out of `prcount`, sends a message to the parent, and only then gives
the stack back and frees the entry. The message can make the parent run in between, with a
victim that still looks alive. Where one kill of a process is never begun inside another one,
and nobody is killed who is in the middle of a kill, the table, the counter and the heap agree.

* `Kept`         — the acts that have nothing to do with birth and death;
* `Tally`        — the invariant: the counter, the kills that are pending, the stacks;
* `Act.tally`    — every act keeps it;
* `kills_sound`  — **every run of such kills keeps the table.**
-/

namespace Xinu

open DoubleLinks

variable {Q : Type}

-- ---------------------------------------------------------------------------
-- What is to hold
-- ---------------------------------------------------------------------------

/-- The process ids of the table. -/
def pids : List Int := (List.range NPROC.toNat).map fun i : Nat => (i : Int)

theorem mem_pids {p : Int} : p ∈ pids ↔ IsPid p := by
  unfold pids
  rw [List.mem_map]
  constructor
  · rintro ⟨i, hi, rfl⟩
    have hlt := List.mem_range.mp hi
    refine ⟨Int.natCast_nonneg i, ?_⟩
    unfold NPROC at *
    omega
  · rintro ⟨h0, h1⟩
    refine ⟨p.toNat, List.mem_range.mpr ?_, Int.toNat_of_nonneg h0⟩
    unfold NPROC at *
    omega

theorem pids_nodup : pids.Nodup :=
  List.Nodup.map (fun _ _ h => Int.ofNat.inj h) List.nodup_range

/-- The victim of a kill that is to go on behind its `send`, and which incarnation was
meant. -/
def Frame.victim? : Frame → Option (Int × Nat)
  | .killRest x b => some (x, b)
  | _ => none

/-- A process is born, or its stack is given back. -/
def Event.life : Event → Bool
  | .created _ | .stkfreed _ _ => true
  | _ => false

def Event.frees (p : Int) : Event → Bool
  | .stkfreed q _ => q == p
  | _ => false

namespace Kernel

variable (k : Kernel Q)

/-- The entries of the table that are not free. -/
def alive : List Int := pids.filter fun p => (k.proctab p).prstate ≠ .free

/-- The kills that a process is in the middle of. -/
def kills (p : Int) : List (Int × Nat) := (k.frames p).filterMap Frame.victim?

/-- The kills that are in progress. -/
def pending : List (Int × Nat) := k.alive.flatMap k.kills

/-- The stack of a process; that of the null process is not on the heap. -/
def stack (p : Int) : List (Nat × Nat) :=
  if p = NULLPROC then [] else stackBlock (k.proctab p).prstkbase (k.proctab p).prstklen

def allStacks : List (Nat × Nat) := k.alive.flatMap k.stack

/-- How often a stack of slot `p` was given back. -/
def freed (p : Int) : Nat := k.trace.countP (Event.frees p)

def lives : List Event := k.trace.filter Event.life

end Kernel

/-- **What is to hold of the process table.** -/
structure Accounted (k : Kernel QTab) : Prop where
  /-- a kill that calls `xdone` never ends -/
  count : k.halted = none → k.pending = [] → k.prcount = k.alive.length
  /-- the stack of a process that is dead was given back once -/
  once : ∀ p, IsPid p → p ≠ NULLPROC →
    k.freed p + (if (k.proctab p).prstate = .free then 0 else 1) = k.births p
  /-- what the heap has handed out are the stacks of the living -/
  heap : ∃ live, HeapReachable k.bounds ⟨k.mem, live⟩ ∧ live.Perm k.allStacks
  /-- and it takes each of them back -/
  owned : ∀ p ∈ k.alive, p ≠ NULLPROC → roundmb (k.proctab p).prstklen ≠ 0 →
    (freestk k.bounds (k.proctab p).prstkbase (k.proctab p).prstklen k.mem).1 = OK
  /-- a kill goes on with the process that it was called for -/
  victim : ∀ e ∈ k.pending, e.1 ∈ k.alive ∧ k.births e.1 = e.2

/-- No kill of a process is begun while another one is in progress, and none ends while its
victim is in the middle of a kill. -/
def OneKill (k : Kernel QTab) (i : Input) : Prop :=
  Disciplined k i ∧
    match i with
    | .call (.kill v) => v ∉ k.pending.map Prod.fst
    | .cont => ∀ v b fs, k.frames k.currpid = .killRest v b :: fs → v ≠ k.currpid → k.kills v = []
    | _ => True

-- ---------------------------------------------------------------------------
-- The living
-- ---------------------------------------------------------------------------

variable {G : Guard} {a b : AKernel} {p : Int}

theorem mem_alive {k : Kernel Q} : p ∈ k.alive ↔ IsPid p ∧ (k.proctab p).prstate ≠ .free := by
  unfold Kernel.alive
  rw [List.mem_filter, mem_pids, decide_eq_true_iff]

theorem alive_nodup (k : Kernel Q) : k.alive.Nodup := pids_nodup.filter _

/-- One process more is alive. -/
theorem alive_perm (hp : IsPid p) (hfree : (a.proctab p).prstate = .free)
    (hlive : (b.proctab p).prstate ≠ .free)
    (hsame : ∀ q ≠ p, (b.proctab q).prstate = .free ↔ (a.proctab q).prstate = .free) :
    b.alive.Perm (p :: a.alive) := by
  refine (List.perm_ext_iff_of_nodup (alive_nodup b) ?_).mpr fun q => ?_
  · exact List.nodup_cons.mpr ⟨fun hmem => (mem_alive.mp hmem).2 hfree, alive_nodup a⟩
  · rw [List.mem_cons, mem_alive, mem_alive]
    by_cases hq : q = p
    · subst hq
      simp [hp, hlive]
    · rw [ne_eq, hsame q hq]
      simp [hq]

/-- What the living have, with one of them in front. -/
theorem flatMap_cons {α : Type} {f g : Int → List α} {l l' : List Int} (hl : l'.Perm (p :: l))
    (hsame : ∀ q ∈ l, g q = f q) : (l'.flatMap g).Perm (g p ++ l.flatMap f) := by
  refine (hl.flatMap_right g).trans ?_
  rw [List.flatMap_cons, List.flatMap_congr hsame]

theorem births_eq (k : Kernel Q) (p : Int) : k.births p = k.lives.count (.created p) :=
  (List.count_filter rfl).symm

theorem freed_eq (k : Kernel Q) (p : Int) : k.freed p = k.lives.countP (Event.frees p) := by
  unfold Kernel.freed Kernel.lives
  rw [List.countP_filter]
  refine List.countP_congr fun e _ => ?_
  cases e <;> simp [Event.frees, Event.life]

-- ---------------------------------------------------------------------------
-- The invariant
-- ---------------------------------------------------------------------------

/-- **The counter, the pending kills, the history and the heap agree.** -/
structure Tally (a : AKernel) : Prop where
  count : a.halted = none → a.prcount + a.pending.length = a.alive.length
  distinct : (a.pending.map Prod.fst).Nodup
  victims : ∀ e ∈ a.pending, e.1 ∈ a.alive ∧ a.births e.1 = e.2
  once : ∀ p, IsPid p → p ≠ NULLPROC →
    a.freed p + (if (a.proctab p).prstate = .free then 0 else 1) = a.births p
  heap : ∃ live, HeapReachable a.bounds ⟨a.mem, live⟩ ∧ live.Perm a.allStacks
  null : (a.proctab NULLPROC).prstate ≠ .free

/-- An entry of the table before and after an act that is not about life and death. -/
structure Kin (e e' : Procent) : Prop where
  free : e'.prstate = .free ↔ e.prstate = .free
  base : e'.prstkbase = e.prstkbase
  len : e'.prstklen = e.prstklen

theorem Kin.refl (e : Procent) : Kin e e := ⟨Iff.rfl, rfl, rfl⟩

theorem Kin.trans {e e' e'' : Procent} (h : Kin e e') (h' : Kin e' e'') : Kin e e'' :=
  ⟨h'.free.trans h.free, h'.base.trans h.base, h'.len.trans h.len⟩

/-- The entry of one live process is written. -/
theorem kin_update {e : Procent} (hp : (a.proctab p).prstate ≠ .free) (he : e.prstate ≠ .free)
    (hbase : e.prstkbase = (a.proctab p).prstkbase) (hlen : e.prstklen = (a.proctab p).prstklen)
    (q : Int) : Kin (a.proctab q) (Function.update a.proctab p e q) := by
  by_cases hq : q = p
  · subst hq
    rw [Function.update_self]
    exact ⟨iff_of_false he hp, hbase, hlen⟩
  · rw [Function.update_of_ne hq]
    exact .refl _

/-- Nobody is born, nobody dies, and no kill begins or ends. -/
structure Kept (a b : AKernel) : Prop where
  kin : ∀ p, Kin (a.proctab p) (b.proctab p)
  kills : b.kills = a.kills
  prcount : b.prcount = a.prcount
  bounds : b.bounds = a.bounds
  mem : b.mem = a.mem
  halted : b.halted = none → a.halted = none
  lives : b.lives = a.lives

namespace Kept

theorem refl (a : AKernel) : Kept a a := ⟨fun _ => .refl _, rfl, rfl, rfl, rfl, id, rfl⟩

theorem trans {c : AKernel} (h : Kept a b) (h' : Kept b c) : Kept a c :=
  ⟨fun p => (h.kin p).trans (h'.kin p), h'.kills.trans h.kills, h'.prcount.trans h.prcount,
    h'.bounds.trans h.bounds, h'.mem.trans h.mem, h.halted ∘ h'.halted, h'.lives.trans h.lives⟩

variable (h : Kept a b)

include h

theorem alive : b.alive = a.alive := by
  refine List.filter_congr fun p _ => ?_
  rw [decide_eq_decide]
  exact not_congr (h.kin p).free

theorem pending : b.pending = a.pending := by
  unfold Kernel.pending
  rw [h.alive, h.kills]

theorem allStacks : b.allStacks = a.allStacks := by
  unfold Kernel.allStacks
  rw [h.alive]
  refine List.flatMap_congr fun p _ => ?_
  unfold Kernel.stack
  rw [(h.kin p).base, (h.kin p).len]

theorem births (p : Int) : b.births p = a.births p := by
  rw [births_eq, births_eq, h.lives]

theorem freed (p : Int) : b.freed p = a.freed p := by
  rw [freed_eq, freed_eq, h.lives]

theorem tally (ha : Tally a) : Tally b where
  count hrun := by
    rw [h.prcount, h.pending, h.alive]
    exact ha.count (h.halted hrun)
  distinct := by
    rw [h.pending]
    exact ha.distinct
  victims e he := by
    rw [h.pending] at he
    rw [h.alive, h.births]
    exact ha.victims e he
  once p hp h0 := by
    rw [h.freed, h.births]
    simp only [(h.kin p).free]
    exact ha.once p hp h0
  heap := by
    rw [h.bounds, h.mem, h.allStacks]
    exact ha.heap
  null := (not_congr (h.kin NULLPROC).free).mpr ha.null

end Kept

-- ---------------------------------------------------------------------------
-- Acts that have nothing to do with birth and death
-- ---------------------------------------------------------------------------

theorem kills_eq_vital (k : Kernel Q) (p : Int) :
    k.kills p = (k.vital p).filterMap Frame.victim? := by
  unfold Kernel.kills Kernel.vital
  rw [List.filterMap_filter]
  refine List.filterMap_congr fun f _ => ?_
  cases f with
  | killRest x b => exact (if_pos (decide_eq_true trivial)).symm
  | _ => simp [Frame.victim?]

theorem kills_push {f : Frame} (hf : f.victim? = none) : (a.push f).kills = a.kills := by
  funext q
  unfold Kernel.kills Kernel.push
  dsimp only
  by_cases hq : q = a.currpid
  · rw [hq, Function.update_self, List.filterMap_cons, hf]
  · rw [Function.update_of_ne hq]

theorem kills_pop {f : Frame} {fs : List Frame} (htop : a.frames a.currpid = f :: fs)
    (hf : f.victim? = none) : a.pop.kills = a.kills := by
  funext q
  unfold Kernel.kills Kernel.pop
  dsimp only
  by_cases hq : q = a.currpid
  · rw [hq, Function.update_self, htop, List.tail_cons, List.filterMap_cons, hf]
  · rw [Function.update_of_ne hq]

theorem kept_tidy (h : Tidy a b) : Kept a b where
  kin p := by
    rw [h.proctab]
    exact .refl _
  kills := by
    funext p
    rw [kills_eq_vital, kills_eq_vital, h.frames]
  prcount := h.prcount
  bounds := h.bounds
  mem := h.mem
  halted hrun := h.halted ▸ hrun
  lives := by
    unfold Kernel.lives
    rw [h.trace]

theorem kept_makeReady (hp : (a.proctab p).prstate ≠ .free) : Kept a (a.makeReady p) :=
  ⟨kin_update hp (show PrState.ready ≠ .free by decide) rfl rfl, rfl, rfl, rfl, rfl, id, rfl⟩

theorem kept_setState {st : PrState} (hp : (a.proctab p).prstate ≠ .free) (hst : st ≠ .free) :
    Kept a (a.setState p st) :=
  ⟨kin_update hp hst rfl rfl, rfl, rfl, rfl, rfl, id, rfl⟩

theorem kept_deposit {m : Int} (hp : (a.proctab p).prstate ≠ .free) : Kept a (a.deposit p m) where
  kin q := by
    rw [Kernel.deposit_proctab]
    refine kin_update hp ?_ ?_ ?_ q
    · dsimp only
      cases hst : (a.proctab p).prstate <;> first | exact absurd hst hp | decide
    · rfl
    · rfl
  kills := by
    unfold Kernel.kills
    rw [Kernel.deposit_frames]
  prcount := by unfold Kernel.deposit; split <;> rfl
  bounds := by unfold Kernel.deposit; split <;> rfl
  mem := by unfold Kernel.deposit; split <;> rfl
  halted := by unfold Kernel.deposit; split <;> exact id
  lives := by unfold Kernel.deposit; split <;> rfl

/-- A process on a queue is let go. -/
theorem kept_letGo {e : Event} (he : e.life = false) (hp : (a.proctab p).prstate ≠ .free) :
    Kept a (((a.onLists (·.remove p)).log e).makeReady p) := by
  have hlog : Kept a ((a.onLists (·.remove p)).log e) :=
    ⟨fun _ => .refl _, rfl, rfl, rfl, rfl, id, List.filter_cons_of_neg (by simp [he])⟩
  exact hlog.trans (kept_makeReady hp)

theorem kept_releaseFirst (h : Agree a) {s : Int} (hs : IsSem s) {e : Int → Event}
    (he : ∀ q, (e q).life = false) : Kept a (a.releaseFirst s e) := by
  unfold Kernel.releaseFirst
  cases hon : a.queuetab.on (a.semtab s).squeue with
  | nil =>
    exact ⟨fun _ => .refl _, rfl, rfl, rfl, rfl, id, List.filter_cons_of_neg (by simp [he])⟩
  | cons p l => exact kept_letGo (he p) (h.on_ne_free (isQueue_squeue h hs) hon)

theorem kept_drain {s : Int} (hs : IsSem s) :
    ∀ {n : Nat} {a : AKernel}, Agree a → Kept a (a.drain s n)
  | 0, a, _ => .refl a
  | _ + 1, _, h => (kept_releaseFirst h hs fun _ => rfl).trans (kept_drain hs (h.releaseFirst hs _))

theorem kept_unit (h : Agree a) {s : Int} (hs : IsSem s) : Kept a (a.unit s) := by
  have hcount : Kept a ((a.setCount s (int32 ((a.semtab s).scount + 1))).log (.signalled s)) :=
    ⟨fun _ => .refl _, rfl, rfl, rfl, rfl, id, rfl⟩
  have hag : Agree ((a.setCount s (int32 ((a.semtab s).scount + 1))).log (.signalled s)) :=
    h.congr rfl rfl (fun r => setCount_squeue a s _ r) rfl
  unfold Kernel.unit
  split
  · exact hcount.trans (kept_releaseFirst hag hs fun _ => rfl)
  · exact hcount

theorem kept_wakeDue : ∀ (n : Nat) {a : AKernel}, Agree a → Kept a (a.wakeDue n)
  | 0, a, _ => .refl a
  | n + 1, a, h => by
    unfold Kernel.wakeDue
    split
    · exact .refl a
    · rename_i p l hon
      split
      · exact (kept_letGo rfl (h.on_ne_free isQueue_sleepq hon)).trans (kept_wakeDue n (h.wake hon))
      · exact .refl a

theorem kept_tick (h : Agree a) : Kept a a.tick := by
  have hhead : Kept a ((a.log .ticked).onLists fun ls => ls.addHead (ls.on sleepq) (-1)) :=
    ⟨fun _ => .refl _, rfl, rfl, rfl, rfl, id, rfl⟩
  exact hhead.trans (kept_wakeDue _ (h.congr (Lists.addHead_on _ _ _) rfl (fun _ => rfl) rfl))

theorem kept_switchTo (hp : (a.proctab p).prstate ≠ .free) : Kept a (a.switchTo p) :=
  ⟨kin_update hp (show PrState.curr ≠ .free by decide) rfl rfl, rfl, rfl, rfl, rfl, id, rfl⟩

theorem kept_lost (a : AKernel) : Kept a a.lost :=
  ⟨fun _ => .refl _, rfl, rfl, rfl, rfl, nofun, rfl⟩

theorem kept_enterWait (hr : Runs a) (s : Int) : Kept a (a.enterWait s) :=
  ⟨kin_update hr.ne_free (show PrState.wait ≠ .free by decide) rfl rfl, rfl, rfl, rfl, rfl, id,
    rfl⟩

theorem kept_enterRecv (hr : Runs a) : Kept a a.enterRecv := by
  have hpush := @kills_push (a.setState a.currpid .recv) .receiveRest rfl
  exact ⟨kin_update hr.ne_free (show PrState.recv ≠ .free by decide) rfl rfl, hpush, rfl, rfl, rfl,
    id, rfl⟩

theorem kept_enterSleep (hr : Runs a) {st : PrState} (hst : st ≠ .free) (d : Int) :
    Kept a (a.enterSleep st d) :=
  ⟨kin_update hr.ne_free hst rfl rfl, rfl, rfl, rfl, rfl, id, rfl⟩

theorem kept_enterRectim (hr : Runs a) (d : Int) : Kept a (a.enterRectim d) := by
  have hpush := @kills_push (a.enterSleep .rectim d) .recvtimeRest rfl
  exact ⟨(kept_enterSleep hr (by decide) d).kin, hpush, rfl, rfl, rfl, id, rfl⟩

theorem kept_collect (hr : Runs a) : Kept a a.collect :=
  ⟨kin_update hr.ne_free (show (a.proctab a.currpid).prstate ≠ .free from hr.ne_free) rfl rfl, rfl,
    rfl, rfl, rfl, id, rfl⟩

theorem kept_pop {f : Frame} {fs : List Frame} (htop : a.frames a.currpid = f :: fs)
    (hf : f.victim? = none) : Kept a a.pop :=
  ⟨fun _ => .refl _, kills_pop htop hf, rfl, rfl, rfl, id, rfl⟩

theorem kept_chprio (p v : Int) : Kept a (a.setProc p fun e => { e with prprio := v }) := by
  refine ⟨fun q => ?_, rfl, rfl, rfl, rfl, id, rfl⟩
  by_cases hq : q = p
  · subst hq
    rw [setProc_same]
    exact ⟨Iff.rfl, rfl, rfl⟩
  · rw [setProc_of_ne a hq]
    exact .refl _

/-- Semaphores and the history of their use do not matter. -/
theorem kept_semtab (h : Kept a b) {f : Int → Sentry} {e : Event} (he : e.life = false) :
    Kept a ({ b with semtab := f }.log e) :=
  h.trans ⟨fun _ => .refl _, rfl, rfl, rfl, rfl, id, List.filter_cons_of_neg (by simp [he])⟩

-- ---------------------------------------------------------------------------
-- Birth and death
-- ---------------------------------------------------------------------------

namespace Tally

variable (h : Tally a)

include h

/-- **A process is born.** -/
theorem birth {prio : Int} {saddr ssize : Nat} {m : Mem} (hp : IsPid p)
    (hfree : (a.proctab p).prstate = .free) (hsize : 0 < ssize ∧ ssize < 2 ^ 32)
    (hget : getstk a.bounds ssize a.mem = (some saddr, m)) :
    Tally (a.birth p prio saddr ssize m) := by
  have hproc : ∀ q ≠ p, (a.birth p prio saddr ssize m).proctab q = a.proctab q := fun q hq => by
    rw [Kernel.birth_proctab, Function.update_of_ne hq]
  have hself : ((a.birth p prio saddr ssize m).proctab p).prstate = .susp ∧
      ((a.birth p prio saddr ssize m).proctab p).prstkbase = saddr ∧
      ((a.birth p prio saddr ssize m).proctab p).prstklen = ssize := by
    rw [Kernel.birth_proctab, Function.update_self]
    exact ⟨rfl, rfl, rfl⟩
  have hnull : p ≠ NULLPROC := by
    rintro rfl
    exact h.null hfree
  have halive : (a.birth p prio saddr ssize m).alive.Perm (p :: a.alive) :=
    alive_perm hp hfree (by rw [hself.1]; decide) fun q hq => by rw [hproc q hq]
  have hne : ∀ q ∈ a.alive, q ≠ p := fun q hq heq => (mem_alive.mp hq).2 (heq ▸ hfree)
  -- the new process is in no kill
  have hkills : ∀ q ≠ p, (a.birth p prio saddr ssize m).kills q = a.kills q := fun q hq => by
    show ((Function.update a.frames p []) q).filterMap _ = _
    rw [Function.update_of_ne hq]
    rfl
  have hkill : (a.birth p prio saddr ssize m).kills p = [] := by
    show ((Function.update a.frames p []) p).filterMap _ = _
    rw [Function.update_self]
    rfl
  have hpending : (a.birth p prio saddr ssize m).pending.Perm a.pending := by
    have hperm := flatMap_cons halive fun q hq => hkills q (hne q hq)
    rwa [hkill, List.nil_append] at hperm
  have hbirths : ∀ q, (a.birth p prio saddr ssize m).births q =
      a.births q + if q = p then 1 else 0 := fun q => by
    show (Event.created p :: a.trace).count _ = _
    rw [List.count_cons]
    by_cases hq : q = p
    · simp [hq, Kernel.births]
    · simp [hq, Ne.symm hq, Kernel.births]
  have hfreed : ∀ q, (a.birth p prio saddr ssize m).freed q = a.freed q := fun q =>
    List.countP_cons_of_neg (by simp [Event.frees])
  refine ⟨fun hrun => ?_, ?_, fun e he => ?_, fun q hq h0 => ?_, ?_, ?_⟩
  · have hcount := h.count hrun
    rw [hpending.length_eq, halive.length_eq, List.length_cons]
    show a.prcount + 1 + _ = _
    push_cast
    omega
  · exact (hpending.map Prod.fst).nodup_iff.mpr h.distinct
  · obtain ⟨hmem, hbirth⟩ := h.victims e (hpending.subset he)
    rw [hbirths, if_neg (hne _ hmem)]
    exact ⟨halive.symm.subset (List.mem_cons_of_mem p hmem), hbirth⟩
  · have honce := h.once q hq h0
    rw [hbirths, hfreed]
    by_cases hqp : q = p
    · subst hqp
      rw [if_pos hfree] at honce
      rw [hself.1, if_pos rfl, if_neg (by decide)]
      omega
    · rw [hproc q hqp, if_neg hqp]
      exact honce
  · obtain ⟨live, hreach, hlive⟩ := h.heap
    refine ⟨_, hreach.takeStack hsize.1 hsize.2 hget, ?_⟩
    have hstack : (a.birth p prio saddr ssize m).stack p = stackBlock saddr ssize := by
      unfold Kernel.stack
      rw [if_neg hnull, hself.2.1, hself.2.2]
    have hperm : (a.birth p prio saddr ssize m).allStacks.Perm
        ((a.birth p prio saddr ssize m).stack p ++ a.allStacks) :=
      flatMap_cons halive fun q hq => by
        unfold Kernel.stack
        rw [hproc q (hne q hq)]
    rw [hstack] at hperm
    exact (hlive.append_left _).trans hperm.symm
  · rw [hproc _ hnull.symm]
    exact h.null

/-- A kill begins that is not inside a kill of the same process. -/
theorem killBegin (hr : Runs a) (hp : IsPid p) (hlive : (a.proctab p).prstate ≠ .free)
    (hone : p ∉ a.pending.map Prod.fst) : Tally (a.killBegin p) := by
  have hcur : a.currpid ∈ a.alive := mem_alive.mpr ⟨hr.1, hr.ne_free⟩
  have hkill : (a.killBegin p).kills a.currpid = (p, a.births p) :: a.kills a.currpid := by
    show ((Function.update a.frames a.currpid _) a.currpid).filterMap _ = _
    rw [Function.update_self]
    rfl
  have hkills : ∀ q ≠ a.currpid, (a.killBegin p).kills q = a.kills q := fun q hq => by
    show ((Function.update a.frames a.currpid _) q).filterMap _ = _
    rw [Function.update_of_ne hq]
    rfl
  have hpending : (a.killBegin p).pending.Perm ((p, a.births p) :: a.pending) := by
    have hsplit := List.perm_cons_erase hcur
    have hnew : (a.killBegin p).pending.Perm
        ((a.killBegin p).kills a.currpid ++ (a.alive.erase a.currpid).flatMap a.kills) :=
      flatMap_cons hsplit fun q hq => hkills q fun heq =>
        (alive_nodup a).not_mem_erase (heq ▸ hq)
    have hold : a.pending.Perm
        (a.kills a.currpid ++ (a.alive.erase a.currpid).flatMap a.kills) :=
      flatMap_cons hsplit fun _ _ => rfl
    rw [hkill, List.cons_append] at hnew
    exact hnew.trans (hold.symm.cons _)
  refine ⟨fun hrun => ?_, ?_, fun e he => ?_, h.once, h.heap, h.null⟩
  · have hcount := h.count hrun
    rw [hpending.length_eq, List.length_cons]
    show a.prcount - 1 + _ = (a.alive.length : Int)
    push_cast
    omega
  · refine (hpending.map Prod.fst).nodup_iff.mpr ?_
    exact List.nodup_cons.mpr ⟨hone, h.distinct⟩
  · rcases List.mem_cons.mp (hpending.subset he) with rfl | he
    · exact ⟨mem_alive.mpr ⟨hp, hlive⟩, rfl⟩
    · exact h.victims e he

/-- The last process is killed, and the machine halts. -/
theorem xdone : Tally { a with prcount := a.prcount - 1, halted := some .xdone } :=
  ⟨nofun, h.distinct, h.victims, h.once, h.heap, h.null⟩

/-- **A process is buried**: its stack is given back and its entry is free, and one kill is
over. -/
theorem bury {c : Nat} {r : Int} (hp : IsPid p) (hnull : p ≠ NULLPROC)
    (hpending : a.pending.Perm ((p, c) :: b.pending))
    (hproc : b.proctab = Function.update a.proctab p { a.proctab p with prstate := .free })
    (hprcount : b.prcount = a.prcount) (hhalted : b.halted = a.halted)
    (hbounds : b.bounds = a.bounds)
    (hmem : b.mem = (freestk a.bounds (a.proctab p).prstkbase (a.proctab p).prstklen a.mem).2)
    (hlives : b.lives = .stkfreed p r :: a.lives) : Tally b := by
  have hvictim := h.victims (p, c) (hpending.symm.subset List.mem_cons_self)
  have hlive : (a.proctab p).prstate ≠ .free := (mem_alive.mp hvictim.1).2
  have hself : (b.proctab p).prstate = .free := by
    rw [hproc, Function.update_self]
  have hother : ∀ q ≠ p, b.proctab q = a.proctab q := fun q hq => by
    rw [hproc, Function.update_of_ne hq]
  have halive : a.alive.Perm (p :: b.alive) :=
    alive_perm hp hself hlive fun q hq => by rw [hother q hq]
  have hne : ∀ q ∈ b.alive, q ≠ p := fun q hq heq => (mem_alive.mp hq).2 (heq ▸ hself)
  have hbirths : ∀ q, b.births q = a.births q := fun q => by
    rw [births_eq, births_eq, hlives]
    exact List.count_cons_of_ne (by simp)
  have hfreed : ∀ q, b.freed q = a.freed q + if q = p then 1 else 0 := fun q => by
    rw [freed_eq, freed_eq, hlives, List.countP_cons]
    by_cases hq : q = p
    · simp [hq, Event.frees]
    · simp [hq, Ne.symm hq, Event.frees]
  have hdistinct := (hpending.map Prod.fst).nodup_iff.mp h.distinct
  rw [List.map_cons, List.nodup_cons] at hdistinct
  refine ⟨fun hrun => ?_, hdistinct.2, fun e he => ?_, fun q hq h0 => ?_, ?_, ?_⟩
  · have hcount := h.count (hhalted ▸ hrun)
    rw [hpending.length_eq, halive.length_eq, List.length_cons, List.length_cons] at hcount
    rw [hprcount]
    push_cast at hcount
    omega
  · obtain ⟨hmem, hbirth⟩ := h.victims e (hpending.symm.subset (List.mem_cons_of_mem _ he))
    refine ⟨?_, (hbirths _).trans hbirth⟩
    -- no other kill has this victim
    rcases List.mem_cons.mp (halive.subset hmem) with heq | hmem
    · exact absurd (List.mem_map.mpr ⟨e, he, heq⟩) hdistinct.1
    · exact hmem
  · have honce := h.once q hq h0
    rw [hbirths, hfreed]
    by_cases hqp : q = p
    · subst hqp
      rw [if_neg hlive] at honce
      rw [if_pos rfl, if_pos hself]
      omega
    · rw [hother q hqp, if_neg hqp]
      exact honce
  · obtain ⟨live, hreach, hperm⟩ := h.heap
    have hstack : a.stack p = stackBlock (a.proctab p).prstkbase (a.proctab p).prstklen := if_neg hnull
    have hsplit : a.allStacks.Perm (a.stack p ++ b.allStacks) :=
      flatMap_cons halive fun q hq => by
        unfold Kernel.stack
        rw [hother q (hne q hq)]
    rw [hstack] at hsplit
    rw [hbounds, hmem]
    exact (hreach.giveStack (hperm.trans hsplit)).2
  · rw [hother _ hnull.symm]
    exact h.null

omit h in
/-- The kill on top of the frames is taken off. -/
theorem pending_pop {c : Nat} {fs : List Frame} (hr : Runs a)
    (htop : a.frames a.currpid = .killRest p c :: fs) :
    a.pending.Perm ((p, c) :: a.pop.pending) := by
  have hcur : a.currpid ∈ a.alive := mem_alive.mpr ⟨hr.1, hr.ne_free⟩
  have hsplit := List.perm_cons_erase hcur
  have hkill : a.kills a.currpid = (p, c) :: a.pop.kills a.currpid := by
    unfold Kernel.kills Kernel.pop
    dsimp only
    rw [Function.update_self, htop]
    rfl
  have hkills : ∀ q ≠ a.currpid, a.pop.kills q = a.kills q := fun q hq => by
    unfold Kernel.kills Kernel.pop
    dsimp only
    rw [Function.update_of_ne hq]
  have hold : a.pending.Perm (a.kills a.currpid ++ (a.alive.erase a.currpid).flatMap a.kills) :=
    flatMap_cons hsplit fun _ _ => rfl
  have hnew : a.pop.pending.Perm
      (a.pop.kills a.currpid ++ (a.alive.erase a.currpid).flatMap a.kills) :=
    flatMap_cons hsplit fun q hq => hkills q fun heq => (alive_nodup a).not_mem_erase (heq ▸ hq)
  rw [hkill, List.cons_append] at hold
  exact hold.trans (hnew.symm.cons _)

omit h in
/-- One live process dies that is in no kill. -/
theorem pending_death (hp : IsPid p) (hlive : (a.proctab p).prstate ≠ .free)
    (hdead : (b.proctab p).prstate = .free)
    (hsame : ∀ q ≠ p, (a.proctab q).prstate = .free ↔ (b.proctab q).prstate = .free)
    (hidle : a.kills p = []) (hkills : ∀ q ≠ p, a.kills q = b.kills q) :
    a.pending.Perm b.pending := by
  have hperm : a.pending.Perm (a.kills p ++ b.pending) :=
    flatMap_cons (alive_perm hp hdead hlive hsame) fun q hq => hkills q fun heq =>
      (mem_alive.mp hq).2 (heq ▸ hdead)
  rwa [hidle, List.nil_append] at hperm

/-- Another process is killed, and is in no kill of its own. -/
theorem killed {c : Nat} {fs : List Frame} (hf : FramesOk a) (hr : Runs a)
    (htop : a.frames a.currpid = .killRest p c :: fs) (hst : (a.proctab p).prstate ≠ .curr)
    (hidle : a.kills p = []) : Tally (a.killed p) := by
  obtain ⟨hp, hnull⟩ := hf.victims a.currpid p c (top_vital htop trivial)
  have hpop := pending_pop hr htop
  have hlive : (a.proctab p).prstate ≠ .free :=
    (mem_alive.mp (h.victims _ (hpop.symm.subset List.mem_cons_self)).1).2
  have hne : p ≠ a.currpid := fun heq => hst (heq ▸ hr.2)
  have hproc := a.killed_proctab p
  have hdead : ((a.killed p).proctab p).prstate = .free := by
    rw [hproc, Function.update_self]
  have hkills : (a.killed p).kills = a.pop.kills := by
    unfold Kernel.kills
    rw [Kernel.killed_frames]
  have hpidle : a.pop.kills p = [] := by
    unfold Kernel.kills Kernel.pop
    dsimp only
    rw [Function.update_of_ne hne]
    exact hidle
  have hdeath : a.pop.pending.Perm (a.killed p).pending := by
    refine pending_death hp hlive hdead (fun q hq => ?_) hpidle fun q _ => by rw [hkills]
    rw [hproc, Function.update_of_ne hq]
    exact Iff.rfl
  have hleave : ∀ x : AKernel, (x.leave p).prcount = x.prcount ∧ (x.leave p).halted = x.halted ∧
      (x.leave p).bounds = x.bounds ∧ (x.leave p).mem = x.mem ∧ (x.leave p).lives = x.lives := by
    intro x
    unfold Kernel.leave
    split <;> exact ⟨rfl, rfl, rfl, rfl, rfl⟩
  obtain ⟨h1, h2, h3, h4, h5⟩ := hleave (a.pop.freeStk p)
  exact h.bury hp hnull (hpop.trans (hdeath.cons _)) hproc h1 h2 h3 h4 h5

/-- The process kills itself. -/
theorem exit {c : Nat} {fs : List Frame} (hag : Agree a) (hf : FramesOk a) (hr : Runs a)
    (htop : a.frames a.currpid = .killRest p c :: fs) (hst : (a.proctab p).prstate = .curr) :
    Tally (a.exit p) := by
  obtain ⟨hp, hnull⟩ := hf.victims a.currpid p c (top_vital htop trivial)
  obtain rfl := hag.curr p hp hp.ne_empty hst
  have hpop := pending_pop hr htop
  have hproc := a.exit_proctab a.currpid
  have hdead : ((a.exit a.currpid).proctab a.currpid).prstate = .free := by
    rw [hproc, Function.update_self]
  have hkills : (a.exit a.currpid).kills = a.pop.kills :=
    @kills_push ((a.pop.freeStk a.currpid).setState a.currpid .free) (.killUnsleep a.currpid) rfl
  have hpidle : a.pop.kills a.currpid = [] := by
    rw [kills_eq_vital, show a.pop.vital a.currpid = [] from hf.idle_pop htop trivial]
    rfl
  have hdeath : a.pop.pending.Perm (a.exit a.currpid).pending := by
    refine pending_death hp hr.ne_free hdead (fun q hq => ?_) hpidle fun q _ => by rw [hkills]
    rw [hproc, Function.update_of_ne hq]
    exact Iff.rfl
  exact h.bury hp hnull (hpop.trans (hdeath.cons _)) hproc rfl rfl rfl rfl rfl

end Tally

/-- A guard that lets one kill of a process begin at a time, and end when its victim is in
none. -/
structure OneByOne (G : Guard) : Prop where
  begin : ∀ a p, G a (.kill p) → p ∉ a.pending.map Prod.fst
  finish : ∀ a p, G a (.bury p) → p ≠ a.currpid → a.kills p = []

/-- **Every act keeps the tally.** -/
theorem Act.tally (hact : Act G a b) (hG : OneByOne G) (hb : Base a) (h : Tally a) : Tally b := by
  cases hact with
  | tidy ht => exact (kept_tidy ht).tally h
  | requeue hr => exact (kept_makeReady hr.ne_free).tally h
  | switchTo _ hon => exact (kept_switchTo (hb.agree.on_ne_free isQueue_readylist hon)).tally h
  | lost _ _ => exact (kept_lost a).tally h
  | enterWait _ hr _ _ _ => exact (kept_enterWait hr _).tally h
  | enterRecv _ hr _ _ => exact (kept_enterRecv hr).tally h
  | enterSleep _ hr => exact (kept_enterSleep hr (by decide) _).tally h
  | enterRectim _ hr _ _ => exact (kept_enterRectim hr _).tally h
  | enterSusp hr _ => exact (kept_setState hr.ne_free (by decide)).tally h
  | suspend _ _ hst =>
    have hset := @kept_setState a _ .susp (by rw [hst]; decide) (by decide)
    exact Kept.tally ⟨hset.kin, rfl, rfl, rfl, rfl, id, rfl⟩ h
  | resume _ hst => exact (kept_makeReady (by rw [hst]; decide)).tally h
  | tick _ => exact (kept_tick hb.agree).tally h
  | deposit _ hne _ => exact (kept_deposit hne).tally h
  | collect hr _ _ => exact (kept_collect hr).tally h
  | receiveRest hr htop =>
    exact ((kept_pop htop rfl).trans (@kept_collect a.pop hr)).tally h
  | recvtimeRest _ htop => exact (kept_pop htop rfl).tally h
  | countDown _ _ _ => exact (kept_semtab (.refl a) rfl).tally h
  | unit hs _ => exact (kept_unit hb.agree hs).tally h
  | semcreate _ _ _ => exact (kept_semtab (.refl a) rfl).tally h
  | semreset hs _ _ => exact (kept_semtab (kept_drain hs hb.agree) rfl).tally h
  | semdelete hs _ _ => exact (kept_semtab (kept_drain hs hb.agree) rfl).tally h
  | chprio _ _ _ => exact (kept_chprio _ _).tally h
  | create hp hfree _ _ hlt hpos hget => exact h.birth hp hfree ⟨hpos, hlt⟩ hget
  | killBegin hg hr _ hp _ hlive => exact h.killBegin hr hp hlive (hG.begin _ _ hg)
  | xdone _ _ _ => exact h.xdone
  | killed hg hr htop hst =>
    refine h.killed hb.frames hr htop hst (hG.finish _ _ hg fun heq => ?_)
    exact hst (heq ▸ hr.2)
  | exit _ hr htop hst => exact h.exit hb.agree hb.frames hr htop hst

-- ---------------------------------------------------------------------------
-- Every run
-- ---------------------------------------------------------------------------

theorem Acts.tally (hacts : Acts G a b) (hG : OneByOne G) (hb : Base a) (h : Tally a) : Tally b := by
  induction hacts with
  | refl => exact h
  | tail hab hact ih =>
    have hab' : Acts G a _ := hab
    exact hact.tally hG (hab'.base hb) ih

variable {k : Kernel QTab} {ls : Lists} {i : Input}

/-- What a step does is what its input says. -/
theorem OneKill.oneByOne (h : OneKill k i) : OneByOne (Doing k ls i) where
  begin a p hdo := by
    obtain ⟨hdoes, -, hstart⟩ := hdo
    obtain rfl := hstart nofun
    cases hdoes
    exact h.2
  finish a p hdo hne := by
    obtain ⟨hdoes, -, hstart⟩ := hdo
    obtain rfl := hstart nofun
    cases hdoes with
    | bury htop => exact h.2 _ _ _ htop hne

/-- After `sysinit` only the null process is alive. -/
theorem sysinit_tally (B : HeapBounds) (m : Mem) : Tally (sysinitLists B m) := by
  refine ⟨fun _ => rfl, List.nodup_nil, nofun, fun p _ h0 => ?_, ⟨[], .init m, .refl _⟩, ?_⟩
  · have hfree : ((sysinitLists B m).proctab p).prstate = .free := if_neg h0
    rw [if_pos hfree]
    rfl
  · exact (nofun : PrState.curr ≠ .free)

/-- **The process table in every run of such kills**: the counter is right when no kill is in
progress, every stack is given back once, and no kill hits a process that came later. -/
theorem kills_sound : ∀ k, Reaches OneKill k → Accounted k := by
  intro k h
  obtain ⟨ls, hg, htally⟩ := @Reaches.invariant k OneKill Tally (fun _ _ hok => hok.1) sysinit_tally
    (fun _ _ _ _ hg _ hok hseg hI => hseg.acts.tally hok.oneByOne hg.base hI) h
  refine ⟨fun hrun hnone => ?_, htally.once, htally.heap, fun p hp h0 hz => ?_, htally.victims⟩
  · have hcount := htally.count hrun
    rw [show (k.withQueues ls).pending = [] from hnone] at hcount
    exact (Int.add_zero _).symm.trans hcount
  · obtain ⟨live, hreach, hlive⟩ := htally.heap
    have hp' : p ∈ (k.withQueues ls).alive := hp
    have hsplit : (k.withQueues ls).allStacks.Perm ((k.withQueues ls).stack p ++
        ((k.withQueues ls).alive.erase p).flatMap (k.withQueues ls).stack) :=
      flatMap_cons (List.perm_cons_erase hp') fun _ _ => rfl
    rw [show (k.withQueues ls).stack p = stackBlock _ _ from if_neg h0] at hsplit
    exact (hreach.giveStack (hlive.trans hsplit)).1 hz

/-- The null process creates two processes and kills the first. -/
theorem kills_sound_boot :
    let k := step (step (step (step bootKernel (.call (.create 1024 20))) (.call (.create 1024 20)))
      (.call (.kill 1))) .cont
    k.prcount = 2 ∧ k.freed 1 = 1 ∧ Accounted k := by
  refine ⟨by decide +kernel, by decide +kernel, kills_sound _ (.step (.step (.step (.step (.init _ _)
    (by decide) ?_) (by decide +kernel) ?_) (by decide +kernel) ?_) (by decide +kernel) ?_)⟩
  · exact ⟨⟨fun h => h.elim, by decide⟩, trivial⟩
  · exact ⟨⟨fun h => h.elim, by decide +kernel⟩, trivial⟩
  · refine ⟨⟨fun h => h.elim, by decide +kernel⟩, ?_⟩
    decide +kernel
  · refine ⟨⟨fun _ => by decide +kernel, by decide +kernel⟩, fun v b fs htop _ => ?_⟩
    have hframes : (step (step (step bootKernel (.call (.create 1024 20)))
        (.call (.create 1024 20))) (.call (.kill 1))).frames 0 = [.killRest 1 1] := by
      decide +kernel
    obtain ⟨hv, -⟩ := List.cons.inj (hframes.symm.trans htop)
    obtain ⟨rfl, -⟩ := Frame.killRest.inj hv
    decide +kernel

/-- A child of process 1 is killed by process 3. The parent, of higher priority, gets the
message, kills the child itself and waits for the next message. -/
def killedTwice : List Input :=
  [.call (.create 1024 30), .call (.resume 1), .call (.create 1024 10), .call (.create 1024 20),
    .call (.resume 3), .cont, .call .receive, .call (.kill 2), .cont, .call (.kill 2), .cont,
    .call .receive, .call .receive, .cont, .cont]

/-- **One process dies twice**: its stack is given back by both kills. -/
theorem kills_not_sound : ¬ ∀ k, Reaches (fun _ _ => True) k → Accounted k := by
  intro hall
  have htakes : Takes bootKernel killedTwice := by decide +kernel
  have hreach : Reaches (fun _ _ => True) (killedTwice.foldl step bootKernel) :=
    Reaches.takes (.init _ _) htakes fun _ _ _ => trivial
  have honce := (hall _ hreach).once 2 ⟨by decide, by decide⟩ (by decide)
  have hfreed : (killedTwice.foldl step bootKernel).freed 2 = 2 := by decide +kernel
  have hbirths : (killedTwice.foldl step bootKernel).births 2 = 1 := by decide +kernel
  omega

end Xinu
