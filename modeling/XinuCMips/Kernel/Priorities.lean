import XinuCMips.Kernel.ReadyList

/-!
# Changes of priority

`chprio` stores the new priority and does nothing else: a ready process keeps
its place on the ready list and its key, and nobody reschedules. What is said of
the ready list in runs without `chprio` therefore survives exactly those calls
whose new priority fits the place that the process has.

* `Fits`            — a new priority that asks for no move;
* `chprio_ranked`   — such a call leaves the ready list sorted;
* `priorities_kept` — **in every run of such calls the ready list is sorted by
  the current priorities, and the running process has the highest.**
-/

namespace Xinu

open DoubleLinks

variable {k : Kernel QTab} {ls : Lists} {p v : Int}

/-! ## Priorities that fit -/

/-- `x` is in front of `y` on a queue. -/
def Ahead (k : Kernel QTab) : Int → Int → Prop :=
  Relation.TransGen fun x y => (k.queuetab x).qnext = y

/-- A `resched` has been asked for and waits for the end of the deferral. -/
def Postponed {Q : Type} (k : Kernel Q) : Prop := 0 < k.ndefers ∧ k.attempt = true

/-- The new priority of a ready process fits its key and its neighbours, and
does not exceed that of the running process. -/
structure FitsReady (k : Kernel QTab) (p v : Int) : Prop where
  key : (k.queuetab p).qkey ≤ v ∧ v ≤ (k.queuetab p).qkey + 1
  ahead : ∀ x, IsPid x → Ahead k x p → v ≤ (k.proctab x).prprio
  behind : ∀ y, IsPid y → Ahead k p y → (k.proctab y).prprio ≤ v
  running : Postponed k ∨ v ≤ (k.proctab k.currpid).prprio

/-- The running process stays the one with the highest priority. -/
def FitsRunning (k : Kernel QTab) (v : Int) : Prop :=
  Postponed k ∨ ∀ x, IsPid x → (k.proctab x).prstate = .ready → (k.proctab x).prprio ≤ v

/-- A new priority for which no process has to move. -/
def Fits (k : Kernel QTab) (p v : Int) : Prop :=
  match (k.proctab p).prstate with
  | .ready => FitsReady k p v
  | .curr => FitsRunning k v
  | _ => True

/-- Priorities are changed only to ones that fit. -/
def Fitting (k : Kernel QTab) (i : Input) : Prop :=
  Disciplined k i ∧ ∀ p v, i = .call (.chprio p v) → ¬ isbadpid k p → Fits k p (pri16 v)

/-! ## Places on the ready list -/

/-- On a linked list each node is in front of all that follow. -/
theorem Links.ahead {l : List Int}
    (h : Links (fun i => (k.queuetab i).qnext) (fun i => (k.queuetab i).qprev) l) :
    l.Pairwise (Ahead k) := by
  have : Trans (Ahead k) (Ahead k) (Ahead k) := ⟨.trans⟩
  exact List.isChain_iff_pairwise.mp (h.imp fun _ _ hxy => .single hxy.1)

theorem Good.ahead (h : Good k ls) : (ls.on readylist).Pairwise (Ahead k) := by
  have hall := Links.ahead (h.linked.links _ isQueue_readylist)
  rw [List.pairwise_cons, List.pairwise_append] at hall
  exact hall.2.1

theorem Good.key_of_ready (h : Good k ls) (hp : p ∈ ls.on readylist) :
    (k.queuetab p).qkey = ls.key p :=
  h.linked.keys p (h.linked.pids _ isQueue_readylist p hp)

theorem Good.ready_iff (h : Good k ls) (hp : IsPid p) :
    p ∈ ls.on readylist ↔ (k.proctab p).prstate = .ready := h.queuesAgree.ready p hp

/-! ## The call -/

/-- What a `chprio` that finds its process does to the process table. -/
def Kernel.setPrio {Q : Type} (k : Kernel Q) (p v : Int) : Kernel Q :=
  k.setProc p fun e => { e with prprio := v }

theorem setPrio_prio {Q : Type} (k : Kernel Q) (p v x : Int) :
    ((k.setPrio p v).proctab x).prprio = if x = p then v else (k.proctab x).prprio := by
  unfold Kernel.setPrio Kernel.setProc
  dsimp only
  by_cases hx : x = p
  · subst hx
    rw [if_pos rfl, Function.update_self]
  · rw [if_neg hx, Function.update_of_ne hx]

/-- **A priority that fits leaves the ready list sorted.** -/
theorem chprio_ranked (hg : Good k ls) (h : Ranked (k.withQueues ls)) (hfit : Fits k p v)
    (hp : IsPid p) :
    Ranked ((k.withQueues ls).setPrio p v) := by
  have hpids := hg.linked.pids _ isQueue_readylist
  have hready : p ∈ ls.on readylist → FitsReady k p v := fun hmem => by
    unfold Fits at hfit
    rw [(hg.ready_iff hp).mp hmem] at hfit
    exact hfit
  refine ⟨fun x hx => ?_, (h.sorted.and hg.ahead).imp_of_mem fun {x y} hx hy hxy => ?_⟩
  · show ls.key x ≤ _ ∧ _ ≤ ls.key x + 1
    rw [setPrio_prio]
    by_cases hxp : x = p
    · subst hxp
      rw [if_pos rfl, ← hg.key_of_ready hx]
      exact (hready hx).key
    · rw [if_neg hxp]
      exact h.close x hx
  · obtain ⟨⟨hkey, hprio⟩, hahead⟩ := hxy
    refine ⟨hkey, ?_⟩
    rw [setPrio_prio, setPrio_prio]
    by_cases hxp : x = p
    · subst hxp
      rw [if_pos rfl]
      by_cases hyx : y = x
      · rw [if_pos hyx]
      · rw [if_neg hyx]
        exact (hready hx).behind y (hpids y hy) hahead
    · rw [if_neg hxp]
      by_cases hyp : y = p
      · subst hyp
        rw [if_pos rfl]
        exact (hready hy).ahead x (hpids x hx) hahead
      · rw [if_neg hyp]
        exact hprio

/-- **A priority that fits leaves the right process running.** -/
theorem chprio_settled (hg : Good k ls) (hr : Runs (k.withQueues ls))
    (h : Settled (k.withQueues ls)) (hfit : Fits k p v) (hp : IsPid p) :
    Settled ((k.withQueues ls).setPrio p v) := by
  rcases h with hpost | hle
  · exact Or.inl hpost
  have hpids := hg.linked.pids _ isQueue_readylist
  have hcur : (k.proctab k.currpid).prstate = .curr := hr.2
  unfold Fits at hfit
  by_cases hpc : p = k.currpid
  · subst hpc
    rw [hcur] at hfit
    refine hfit.imp id fun hall x hx => ?_
    have hst := (hg.ready_iff (hpids x hx)).mp hx
    have hxc : x ≠ k.currpid := by
      rintro rfl
      rw [hcur] at hst
      exact absurd hst (by simp)
    rw [setPrio_prio, setPrio_prio, if_neg hxc]
    refine le_of_le_of_eq ?_ (if_pos rfl).symm
    exact hall x (hpids x hx) hst
  · by_cases hmem : p ∈ ls.on readylist
    · rw [(hg.ready_iff hp).mp hmem] at hfit
      refine hfit.running.imp id fun hv x hx => ?_
      rw [setPrio_prio, setPrio_prio]
      refine le_of_le_of_eq ?_ (if_neg (Ne.symm hpc)).symm
      by_cases hxp : x = p
      · rw [if_pos hxp]
        exact hv
      · rw [if_neg hxp]
        exact hle x hx
    · refine Or.inr fun x hx => ?_
      have hxp : x ≠ p := by
        rintro rfl
        exact hmem hx
      rw [setPrio_prio, setPrio_prio, if_neg hxp]
      refine le_of_le_of_eq ?_ (if_neg (Ne.symm hpc)).symm
      exact hle x hx

/-! ## Runs -/

/-- Every act but a change of priority keeps the ready list sorted. -/
theorem Acts.ranked {G : Guard} {a b : AKernel} (hG : ∀ a p, ¬ G a (.chprio p))
    (hacts : Acts G a b) (hb : Base a) (h : Ranked a) : Ranked b := by
  induction hacts with
  | refl => exact h
  | tail hab hact ih => exact (hact.readyMoves hG (Acts.base hab hb) .refl).ranked ih

/-- Every step but a change of priority ends with the right process running. -/
theorem Seg.ranked {G : Guard} {a c : AKernel} (hG : ∀ a p, ¬ G a (.chprio p)) (h : Seg G a c)
    (hb : Base a) (hrank : Ranked a) (hset : Settled a) : Ranked c ∧ Settled c := by
  refine ⟨h.acts.ranked hG hb hrank, ?_⟩
  cases h with
  | calm _ _ hcalm => exact hcalm hset
  | resched hacts hres => exact hres.settled (hacts.ranked hG hb hrank) (hacts.base hb)
  | chprio hg _ _ => exact absurd hg (hG _ _)

/-- The ready list goes by the current priorities, and so does the choice of
the running process. -/
structure ByPriority (k : Kernel QTab) (ready : List Int) : Prop where
  /-- the ready list, from its head to its tail -/
  list : Links (fun i => (k.queuetab i).qnext) (fun i => (k.queuetab i).qprev)
    (queuehead readylist :: (ready ++ [queuetail readylist]))
  states : ∀ p, IsPid p → (p ∈ ready ↔ (k.proctab p).prstate = .ready)
  sorted : ready.Pairwise fun x y => (k.proctab y).prprio ≤ (k.proctab x).prprio
  current : k.ndefers = 0 → ∀ p ∈ ready, (k.proctab p).prprio ≤ (k.proctab k.currpid).prprio

/-- What holds between any two steps. -/
structure Placed (k : Kernel QTab) (ls : Lists) : Prop where
  good : Good k ls
  ranked : Ranked (k.withQueues ls)
  settled : Settled (k.withQueues ls)

theorem Ranked.ret (h : Ranked (k.withQueues ls)) (r : Int) : Ranked ((k.ret r).withQueues ls) :=
  h.shrink (List.Sublist.refl _) fun _ _ => ⟨rfl, rfl⟩

/-- A priority that fits keeps the lists and the order of the ready list, and
the choice of the running process if it was right. -/
theorem chprio_kept (hg : Good k ls) (hrank : Ranked (k.withQueues ls)) (hhalt : k.halted = none)
    (hfit : ¬ isbadpid k p → Fits k p (pri16 v)) :
    Good (chprio p v k) ls ∧ Ranked ((chprio p v k).withQueues ls) ∧
      (Settled (k.withQueues ls) → Settled ((chprio p v k).withQueues ls)) := by
  have hr := hg.runs hhalt
  unfold Xinu.chprio
  by_cases hbad : isbadpid k p
  · rw [if_pos hbad]
    exact ⟨⟨hg.linked, (tidy_ret (k.withQueues ls) SYSERR).base hg.base, fun _ => hr⟩,
      hrank.ret _, id⟩
  · have hp := (isPid_of_not_bad hbad).1
    rw [if_neg hbad]
    have hrank' := chprio_ranked hg hrank (hfit hbad) hp
    refine ⟨⟨hg.linked, ?_, fun _ => chprio_runs hr⟩,
      hrank'.shrink (List.Sublist.refl _) fun _ _ => ⟨rfl, rfl⟩,
      fun hset => chprio_settled hg hr hset (hfit hbad) hp⟩
    exact Acts.base (@chprio_acts (fun _ _ => True) k ls p v hp trivial) hg.base

theorem Placed.chprio (h : Placed k ls) (hhalt : k.halted = none)
    (hfit : ¬ isbadpid k p → Fits k p (pri16 v)) : Placed (chprio p v k) ls := by
  obtain ⟨hg, hrank, hset⟩ := chprio_kept h.good h.ranked hhalt hfit
  exact ⟨hg, hrank, hset h.settled⟩

theorem Placed.byPriority (h : Placed k ls) : ByPriority k (ls.on readylist) where
  list := h.good.linked.links _ isQueue_readylist
  states _ hp := h.good.ready_iff hp
  sorted := h.ranked.sorted.imp fun hxy => hxy.2
  current hd := by
    rcases h.settled with ⟨hpos, -⟩ | hle
    · rw [show (k.withQueues ls).ndefers = 0 from hd] at hpos
      exact absurd hpos (lt_irrefl _)
    · exact hle

theorem sysinit_placed (B : HeapBounds) (m : Mem) : Placed (sysinit B m) noProcs where
  good := sysinit_good B m
  ranked := ⟨fun _ hp => absurd hp List.not_mem_nil, List.Pairwise.nil⟩
  settled := Or.inr fun _ hp => absurd hp List.not_mem_nil

theorem Placed.step {i : Input} (h : Placed k ls) (hen : Enabled k i) (hi : Fitting k i) :
    ∃ ls', Placed (step k i) ls' := by
  by_cases hch : ∃ p v, i = .call (.chprio p v)
  · obtain ⟨p, v, rfl⟩ := hch
    exact ⟨ls, h.chprio hen.1 (hi.2 p v rfl)⟩
  · have hG : ∀ a p, ¬ Doing k ls i a (.chprio p) := fun _ p hdo => by
      obtain ⟨hd, -⟩ := hdo
      cases hd with
      | chprio => exact hch ⟨_, _, rfl⟩
    obtain ⟨ls', hg', hseg⟩ := step_good h.good hen hi.1
    obtain ⟨hrank, hset⟩ := hseg.ranked hG h.good.base h.ranked h.settled
    exact ⟨ls', hg', hrank, hset⟩

/-- **Priorities that fit keep the schedule**: in every run in which a
priority is changed only to one that fits the place of its process, the ready
list is always sorted by the current priorities, and unless rescheduling is
deferred no ready process has a higher priority than the running one. -/
theorem priorities_kept : ∀ k, Reaches Fitting k → ∃ ready, ByPriority k ready := by
  intro k h
  have hplaced : ∃ ls, Placed k ls := by
    induction h with
    | init B m => exact ⟨noProcs, sysinit_placed B m⟩
    | step _ hen hi ih =>
      obtain ⟨ls, hpl⟩ := ih
      exact hpl.step hen hi
  obtain ⟨ls, hpl⟩ := hplaced
  exact ⟨_, hpl.byPriority⟩

/-- The null process creates a process, gives it priority 30 while it is
suspended, and resumes it. -/
theorem priorities_kept_boot :
    let k := step (step (step bootKernel (.call (.create 1024 20))) (.call (.chprio 1 30)))
      (.call (.resume 1))
    (k.currpid = 1 ∧ (k.proctab 1).prprio = 30) ∧ ∃ ready, ByPriority k ready := by
  have hsusp : ((step bootKernel (.call (.create 1024 20))).proctab 1).prstate = .susp := by
    decide +kernel
  refine ⟨by decide +kernel, priorities_kept _ (.step (.step (.step (.init _ _) (by decide)
    ⟨⟨fun h => h.elim, by decide⟩, by simp⟩) (by decide +kernel)
    ⟨⟨fun h => h.elim, by decide +kernel⟩, fun p v hpv _ => ?_⟩) (by decide +kernel)
    ⟨⟨fun h => h.elim, by decide +kernel⟩, by simp⟩)⟩
  obtain ⟨rfl, rfl⟩ : 1 = p ∧ 30 = v := by simpa using hpv
  unfold Fits
  rw [show (Kernel.proctab _ 1).prstate = .susp from hsusp]
  trivial

/-- Process 1 runs with priority 20 and raises the ready process 2 to 30. -/
theorem chprio_not_kept : ¬ ∀ k, Reaches Disciplined k → ∃ ready, ByPriority k ready := by
  intro h
  let is : List Input := [.call (.create 1024 20), .call (.resume 1), .call (.create 1024 10),
    .call (.resume 2), .cont, .call (.chprio 2 30)]
  have htakes : Takes bootKernel is := by decide +kernel
  have hreach : Reaches NoDefer (is.foldl step bootKernel) :=
    Reaches.takes (.init _ _) htakes fun _ i hi d hd => by
      subst hd
      simp [is] at hi
  obtain ⟨ready, hby⟩ := h _ (NoDefer.disciplined hreach).1
  have hready : ((is.foldl step bootKernel).proctab 2).prstate = .ready := by decide +kernel
  have hlow : ((is.foldl step bootKernel).proctab (is.foldl step bootKernel).currpid).prprio <
      ((is.foldl step bootKernel).proctab 2).prprio := by decide +kernel
  have hmem := (hby.states 2 ⟨by decide, by decide⟩).mpr hready
  exact absurd (hby.current (NoDefer.disciplined hreach).2 2 hmem) (not_le.mpr hlow)

end Xinu
