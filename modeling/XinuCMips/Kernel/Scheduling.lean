import XinuCMips.Kernel.ReadyList

/-!
# Scheduling

The ready list is kept in the order in which its processes will run: by
descending priority, and first come first served among equals. Every call
that could upset the choice of the current process ends in a `resched`, so
between two steps the current process is the right one, unless rescheduling
is deferred.

* `ReadyOrder`        — the ready list is sorted and its keys are priorities;
* `Act.ready`         — every act keeps it so, if the null process never
  blocks;
* `Seg.settled`       — a step ends with the right process running;
* `ready_list_sound`  — **every run keeps the schedule**.
-/

namespace Xinu

open DoubleLinks

/-! ## Order of insertion -/

/-- `p` runs before `q`. -/
def Before (key : Int → Int) (tr : List Event) (p q : Int) : Prop :=
  key q < key p ∨ (key q = key p ∧ stamp tr p < stamp tr q)

variable {G : Guard} {a b c : AKernel}

/-! ## The ready list -/

/-- The ready list is in the order in which its processes run. -/
structure ReadyOrder (a : AKernel) : Prop where
  keys : ∀ p ∈ a.queuetab.on readylist, a.queuetab.key p = (a.proctab p).prprio
  sorted : (a.queuetab.on readylist).Pairwise (Before a.queuetab.key a.trace)

/-- Nothing joins the ready list, and for those that stay nothing changes. -/
theorem ReadyOrder.shrink (h : ReadyOrder a)
    (hsub : (b.queuetab.on readylist).Sublist (a.queuetab.on readylist))
    (hsame : ∀ p ∈ b.queuetab.on readylist, b.queuetab.key p = a.queuetab.key p ∧
      (b.proctab p).prprio = (a.proctab p).prprio ∧ stamp b.trace p = stamp a.trace p) :
    ReadyOrder b where
  keys p hp := by
    rw [(hsame p hp).1, (hsame p hp).2.1]
    exact h.keys p (hsub.subset hp)
  sorted := by
    refine (h.sorted.sublist hsub).imp_of_mem fun {x y} hx hy hxy => ?_
    unfold Before at *
    rw [(hsame x hx).1, (hsame y hy).1, (hsame x hx).2.2, (hsame y hy).2.2]
    exact hxy

/-- A process off the ready list becomes ready. -/
theorem ReadyOrder.makeReady (h : ReadyOrder a) {p : Int} (hoff : p ∉ a.queuetab.on readylist) :
    ReadyOrder (a.makeReady p) := by
  have hmem : ∀ x ∈ a.queuetab.on readylist, x ≠ p := fun x hx hxp => hoff (hxp ▸ hx)
  have hstamp : ∀ x ∈ a.queuetab.on readylist,
      stamp (a.makeReady p).trace x = stamp a.trace x := fun x hx =>
    stamp_cons_of_ne (by simpa using (hmem x hx).symm)
  have hlast : stamp (a.makeReady p).trace p = a.trace.length + 1 := stamp_readied _ _
  refine ⟨fun x hx => ?_, ?_⟩
  · rw [makeReady_prio, makeReady_key]
    rcases mem_makeReady.mp hx with rfl | hxl
    · exact if_pos rfl
    · rw [if_neg (hmem x hxl)]
      exact h.keys x hxl
  · rw [makeReady_on]
    have hold : (a.queuetab.on readylist).Pairwise fun x y =>
        Before (a.makeReady p).queuetab.key (a.makeReady p).trace x y := by
      refine h.sorted.imp_of_mem fun {x y} hx hy hxy => ?_
      unfold Before at *
      rw [makeReady_key, makeReady_key, if_neg (hmem x hx), if_neg (hmem y hy), hstamp x hx, hstamp y hy]
      exact hxy
    refine pairwise_insertDesc hold (fun x hx y hy hxy => ?_) (fun x hx hle => ?_) fun x hx hlt => ?_
    · unfold Before at hxy
      rw [makeReady_key, makeReady_key, if_neg (hmem x hx), if_neg (hmem y hy)] at hxy
      omega
    · -- an equal one is older
      have hle' := stamp_le x a.trace
      unfold Before
      rw [makeReady_key, makeReady_key, if_pos rfl, if_neg (hmem x hx), hstamp x hx, hlast]
      omega
    · unfold Before
      rw [makeReady_key, makeReady_key, if_pos rfl, if_neg (hmem x hx)]
      exact Or.inl hlt

/-- A list in this order is sorted by priority. -/
theorem ReadyOrder.ranked (h : ReadyOrder a) : Ranked a where
  close p hp := by
    rw [h.keys p hp]
    omega
  sorted := h.sorted.imp_of_mem fun {x y} hx hy hxy => by
    unfold Before at hxy
    rw [← h.keys x hx, ← h.keys y hy]
    omega

/-! ### Moves -/

theorem ReadyMoves.order (hm : ReadyMoves a b) (h : ReadyOrder a) : ReadyOrder b := by
  induction hm with
  | refl => exact h
  | shrink _ hsub hsame ih => exact ih.shrink hsub hsame
  | makeReady _ hoff ih => exact ih.makeReady hoff

/-- Every act keeps the ready list in order. -/
theorem Act.readyOrder (hG : ∀ a p, ¬ G a (.chprio p)) (hact : Act G a b) (hb : Base a)
    (h : ReadyOrder a) : ReadyOrder b :=
  (hact.readyMoves hG hb .refl).order h

/-! ## The null process -/

/-- The null process is ready or running, so some process always is. -/
structure NullReady (a : AKernel) : Prop where
  null : (a.proctab NULLPROC).prstate = .ready ∨ (a.proctab NULLPROC).prstate = .curr
  found : a.halted ≠ some .wild

/-- The guard of runs in which the null process never waits and no priority
is changed. -/
structure NullRuns (G : Guard) : Prop where
  block : ∀ a, G a .block → a.currpid ≠ NULLPROC
  sleep : ∀ a d, G a (.sleep d) → a.currpid ≠ NULLPROC
  chprio : ∀ a p, ¬ G a (.chprio p)

theorem isPid_null : IsPid NULLPROC := ⟨by decide, by decide⟩

theorem NullReady.same (h : NullReady a) (hp : b.proctab = a.proctab) (hh : b.halted = a.halted) :
    NullReady b := ⟨hp ▸ h.null, hh ▸ h.found⟩

/-- A process other than the null process changes, or it becomes ready or
current. -/
theorem NullReady.update (h : NullReady a) {p : Int} {e : Procent}
    (hp : b.proctab = Function.update a.proctab p e) (hh : b.halted = a.halted)
    (he : p = NULLPROC → e.prstate = .ready ∨ e.prstate = .curr) : NullReady b := by
  refine ⟨?_, hh ▸ h.found⟩
  rw [hp]
  by_cases hpn : p = NULLPROC
  · subst hpn
    rw [Function.update_self]
    exact he rfl
  · rw [Function.update_of_ne (Ne.symm hpn)]
    exact h.null

theorem NullReady.makeReady (h : NullReady a) (p : Int) : NullReady (a.makeReady p) :=
  h.update (a.makeReady_proctab p) rfl fun _ => Or.inl rfl

theorem NullReady.releaseFirst (h : NullReady a) (s : Int) (e : Int → Event) :
    NullReady (a.releaseFirst s e) := by
  unfold Kernel.releaseFirst
  split
  · exact h.same rfl rfl
  · exact h.update (Kernel.makeReady_proctab _ _) rfl fun _ => Or.inl rfl

theorem NullReady.drain (s : Int) : ∀ (n : Nat) {a : AKernel}, NullReady a → NullReady (a.drain s n)
  | 0, _, h => h
  | n + 1, _, h => NullReady.drain s n (h.releaseFirst s _)

theorem NullReady.wakeDue : ∀ (n : Nat) {a : AKernel}, NullReady a → NullReady (a.wakeDue n)
  | 0, _, h => h
  | n + 1, a, h => by
    unfold Kernel.wakeDue
    split
    · exact h
    · rename_i p l hon
      split
      · exact NullReady.wakeDue n
          (h.update (Kernel.makeReady_proctab _ p) rfl fun _ => Or.inl rfl)
      · exact h

/-- While the null process is ready or running, a process is ready whenever
the current one cannot run on. -/
theorem NullReady.readylist_ne_nil (h : NullReady a) (hag : Agree a)
    (hc : (a.proctab a.currpid).prstate ≠ .curr) : a.queuetab.on readylist ≠ [] := by
  rcases h.null with hst | hst
  · have hmem := (hag.placed _ isQueue_readylist NULLPROC (by decide)).mpr
      ⟨isPid_null, by simp [Kernel.place, hst]⟩
    exact List.ne_nil_of_mem hmem
  · exact absurd (hag.curr _ isPid_null (by decide) hst ▸ hst) hc

theorem Act.nullReady (hG : NullRuns G) (hact : Act G a b) (hb : Base a) (h : NullReady a) :
    NullReady b := by
  cases hact with
  | tidy ht => exact h.same ht.proctab ht.halted
  | requeue _ => exact h.makeReady _
  | switchTo _ _ => exact h.update (a.switchTo_proctab _) rfl fun _ => Or.inr rfl
  | lost hne hon => exact absurd hon (h.readylist_ne_nil hb.agree hne)
  | enterWait hg _ _ _ _ =>
    exact h.update (a.enterWait_proctab _) rfl fun hn => absurd hn (hG.block a hg)
  | enterRecv hg _ _ _ =>
    exact h.update (a.setState_proctab _ _) rfl fun hn => absurd hn (hG.block a hg)
  | enterSleep hg _ =>
    exact h.update (a.setState_proctab _ _) rfl fun hn => absurd hn (hG.sleep a _ hg)
  | enterRectim hg _ _ _ =>
    exact h.update (a.setState_proctab _ _) rfl fun hn => absurd hn (hG.sleep a _ hg)
  | enterSusp _ hne => exact h.update (a.setState_proctab _ _) rfl fun hn => absurd hn hne
  | suspend _ hne _ => exact h.update (a.setState_proctab _ _) rfl fun hn => absurd hn hne
  | resume _ _ => exact h.makeReady _
  | tick _ => exact NullReady.wakeDue _ (h.same rfl rfl)
  | @deposit p m _ _ _ =>
    refine h.update (a.deposit_proctab p m) ?_ fun hn => ?_
    · unfold Kernel.deposit
      split <;> rfl
    · subst hn
      rcases h.null with hst | hst <;> rw [hst] <;> simp
  | collect hr _ _ => exact h.update a.collect_proctab rfl fun _ => Or.inr hr.2
  | receiveRest hr _ => exact h.update a.pop.collect_proctab rfl fun _ => Or.inr hr.2
  | recvtimeRest _ _ => exact h.same rfl rfl
  | countDown _ _ _ => exact h.same rfl rfl
  | @unit s _ _ =>
    have h1 : NullReady ((a.setCount s (int32 ((a.semtab s).scount + 1))).log (.signalled s)) :=
      h.same rfl rfl
    unfold Kernel.unit
    split
    · exact h1.releaseFirst _ _
    · exact h1
  | semcreate _ _ _ => exact h.same rfl rfl
  | semreset _ _ _ => exact (h.drain _ _).same rfl rfl
  | semdelete _ _ _ => exact (h.drain _ _).same rfl rfl
  | chprio hg _ _ => exact absurd hg (hG.chprio _ _)
  | create _ hfree _ _ _ _ _ =>
    refine h.update (a.birth_proctab _ _ _ _ _) rfl fun hn => ?_
    subst hn
    rcases h.null with hst | hst <;> rw [hst] at hfree <;> simp at hfree
  | killBegin _ _ _ _ _ _ => exact h.same rfl rfl
  | xdone _ _ _ => exact ⟨h.null, by simp⟩
  | @killed p _ _ _ hr htop _ =>
    have hv := hb.frames.victims _ _ _ (top_vital htop trivial)
    refine h.update (a.killed_proctab p) ?_ fun hn => absurd hn hv.2
    show ((a.pop.freeStk p).leave p).halted = a.halted
    unfold Kernel.leave
    split <;> rfl
  | @exit p _ _ _ hr htop _ =>
    have hv := hb.frames.victims _ _ _ (top_vital htop trivial)
    exact h.update (a.exit_proctab p) rfl fun hn => absurd hn hv.2

/-! ## The schedule -/

/-- What every act preserves. -/
structure Schedule (a : AKernel) : Prop where
  order : ReadyOrder a
  null : NullReady a

theorem Acts.schedule (hG : NullRuns G) (hacts : Acts G a b) (hb : Base a) (h : Schedule a) :
    Schedule b := by
  induction hacts with
  | refl => exact h
  | tail hab hact ih =>
    have hb' := Acts.base hab hb
    exact ⟨hact.readyOrder hG.chprio hb' ih.order, hact.nullReady hG hb' ih.null⟩

/-- **A step ends with the right process running.** -/
theorem Seg.settled (hG : NullRuns G) (h : Seg G a c) (hb : Base a) (hs : Schedule a)
    (hset : Settled a) : Settled c := by
  cases h with
  | calm _ _ hcalm => exact hcalm hset
  | resched hacts hres => exact hres.settled (hacts.schedule hG hb hs).order.ranked (hacts.base hb)
  | chprio hg _ _ => exact absurd hg (hG.chprio _ _)

/-! ## Runs -/

/-- No priority is changed, the null process makes no call that blocks, and
rescheduling is deferred only around calls that do not block. -/
def Scheduling (k : Kernel QTab) (i : Input) : Prop :=
  (∀ p v, i ≠ .call (.chprio p v)) ∧ (k.currpid = NULLPROC → ¬ Blocks k i) ∧ Disciplined k i

theorem Scheduling.nullRuns {k : Kernel QTab} {ls : Lists} {i : Input} (h : Scheduling k i) :
    NullRuns (Doing k ls i) where
  block a hg hn := by
    obtain ⟨hd, -, ha⟩ := hg
    rw [ha (by simp)] at hn
    cases hd with
    | block hbl => exact h.2.1 hn hbl
  sleep a d hg hn := by
    obtain ⟨hd, -, ha⟩ := hg
    rw [ha (by simp)] at hn
    exact h.2.1 hn hd.blocks_of_sleep
  chprio a p hg := by
    obtain ⟨hd, -⟩ := hg
    cases hd with
    | chprio => exact h.1 _ _ rfl

/-- The schedule between two steps: the processes on the ready list, and who
is running. -/
structure Scheduled (k : Kernel QTab) (ready : List Int) : Prop where
  /-- the ready list, from its head to its tail -/
  list : Links (fun i => (k.queuetab i).qnext) (fun i => (k.queuetab i).qprev)
    (queuehead readylist :: (ready ++ [queuetail readylist]))
  /-- by descending key, equal keys in order of insertion -/
  sorted : ready.Pairwise (Before (fun p => (k.queuetab p).qkey) k.trace)
  keys : ∀ p ∈ ready, (k.queuetab p).qkey = (k.proctab p).prprio
  current : k.ndefers = 0 → ∀ p ∈ ready, (k.proctab p).prprio ≤ (k.proctab k.currpid).prprio
  null : NULLPROC ∈ ready ∨ k.currpid = NULLPROC
  found : k.halted ≠ some .wild

theorem sysinit_schedule (B : HeapBounds) (m : Mem) :
    Schedule (sysinitLists B m) ∧ Settled (sysinitLists B m) := by
  have hon : (sysinitLists B m).queuetab.on readylist = [] := rfl
  refine ⟨⟨⟨fun p hp => ?_, ?_⟩, ⟨Or.inr rfl, show none ≠ some Halt.wild by simp⟩⟩,
    Or.inr fun p hp => ?_⟩
  · rw [hon] at hp
    simp at hp
  · rw [hon]
    exact List.Pairwise.nil
  · rw [hon] at hp
    simp at hp

/-- **The schedule is right between any two steps** of a run: the ready list
is sorted by priority and age, the current process has the highest priority
unless rescheduling is deferred, and there is always a process to run. -/
theorem ready_list_sound : ∀ k, Reaches Scheduling k → ∃ ready, Scheduled k ready := by
  intro k h
  obtain ⟨ls, hg, hs, hset⟩ := @Reaches.invariant k Scheduling (fun a => Schedule a ∧ Settled a)
    (fun _ _ hi => hi.2.2) sysinit_schedule
    (fun k i ls b hg _ hi hseg ⟨hs, hset⟩ => ⟨hseg.acts.schedule hi.nullRuns hg.base hs,
      hseg.settled hi.nullRuns hg.base hs hset⟩) h
  have hkey : ∀ p ∈ ls.on readylist, (k.queuetab p).qkey = ls.key p := fun p hp =>
    hg.linked.keys p (hg.linked.pids _ isQueue_readylist p hp)
  refine ⟨ls.on readylist, hg.linked.links _ isQueue_readylist, ?_, fun p hp => ?_,
    fun hd p hp => ?_, ?_, hs.null.found⟩
  · refine hs.order.sorted.imp_of_mem fun {x y} hx hy hxy => ?_
    unfold Before at *
    show (k.queuetab y).qkey < (k.queuetab x).qkey ∨
      (k.queuetab y).qkey = (k.queuetab x).qkey ∧ stamp k.trace x < stamp k.trace y
    rw [hkey x hx, hkey y hy]
    exact hxy
  · rw [hkey p hp]
    exact hs.order.keys p hp
  · rcases hset with ⟨hpos, -⟩ | hle
    · rw [show (k.withQueues ls).ndefers = 0 from hd] at hpos
      exact absurd hpos (lt_irrefl _)
    · exact hle p hp
  · rcases hs.null.null with hst | hst
    · exact Or.inl ((hg.base.agree.placed _ isQueue_readylist NULLPROC (by decide)).mpr
        ⟨isPid_null, by simp [Kernel.place, hst]⟩)
    · exact Or.inr (hg.base.agree.curr _ isPid_null (by decide) hst).symm

/-- The null process creates two processes and resumes the second, which runs
at once. -/
theorem ready_list_sound_boot :
    let k := step (step (step bootKernel (.call (.create 1024 20))) (.call (.create 1024 20)))
      (.call (.resume 2))
    k.currpid = 2 ∧ ∃ ready, Scheduled k ready := by
  refine ⟨by decide, ready_list_sound _ (.step (.step (.step (.init _ _) (by decide) ?_)
    (by decide) ?_) (by decide) ?_)⟩
  all_goals exact ⟨by simp, fun _ h => h, fun h => h.elim, by decide⟩

end Xinu
