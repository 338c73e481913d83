import XinuCMips.Kernel.Refine

/-!
# The segments of the kernel calls

One lemma for each call: from a state whose queues agree with its process
states the call is a segment of acts. `step_seg` collects them.

A call that blocks its process must not be made while rescheduling is
deferred (`Blocks`): the process would go on running in a state that says
otherwise. `sched_cntl` is only used around calls that do not block.
-/

namespace Xinu

variable {G : Guard} {a b c : AKernel} {k k₁ : Kernel QTab} {ls ls₁ : Lists}

/-! ## Bookkeeping -/

theorem tidy_ret (a : AKernel) (v : Int) : Tidy a (a.ret v) :=
  ⟨rfl, rfl, rfl, rfl, rfl, rfl, rfl, rfl, rfl, id, fun _ => rfl⟩

theorem tidy_push (a : AKernel) {f : Frame} (hf : ¬ f.Vital) : Tidy a (a.push f) where
  queuetab := rfl
  proctab := rfl
  semtab := rfl
  prcount := rfl
  currpid := rfl
  bounds := rfl
  mem := rfl
  halted := rfl
  trace := rfl
  nextsem := id
  frames p := by
    by_cases hp : p = a.currpid
    · subst hp
      simp [Kernel.vital, Kernel.push, hf]
    · simp [Kernel.vital, Kernel.push, hp]

theorem tidy_pop {f : Frame} {fs : List Frame} (h : a.frames a.currpid = f :: fs)
    (hf : ¬ f.Vital) : Tidy a a.pop where
  queuetab := rfl
  proctab := rfl
  semtab := rfl
  prcount := rfl
  currpid := rfl
  bounds := rfl
  mem := rfl
  halted := rfl
  trace := rfl
  nextsem := id
  frames p := by
    by_cases hp : p = a.currpid
    · subst hp
      simp [Kernel.vital, Kernel.pop, h, hf]
    · simp [Kernel.vital, Kernel.pop, hp]

theorem Settled.congr (h : Settled a) (hq : ∀ p ∈ b.queuetab.on readylist,
      p ∈ a.queuetab.on readylist ∧ (b.proctab p).prprio = (a.proctab p).prprio)
    (hc : (b.proctab b.currpid).prprio = (a.proctab a.currpid).prprio)
    (hd : b.ndefers = a.ndefers) (ht : b.attempt = a.attempt) : Settled b := by
  rcases h with ⟨h1, h2⟩ | h
  · exact Or.inl ⟨hd ▸ h1, ht ▸ h2⟩
  · refine Or.inr fun p hp => ?_
    rw [(hq p hp).2, hc]
    exact h p (hq p hp).1

/-- Nothing that the scheduler reads differs. -/
structure SameSched (a b : AKernel) : Prop where
  queuetab : b.queuetab = a.queuetab
  proctab : b.proctab = a.proctab
  currpid : b.currpid = a.currpid
  ndefers : b.ndefers = a.ndefers
  attempt : b.attempt = a.attempt

theorem SameSched.settled (h : SameSched a b) (hs : Settled a) : Settled b :=
  hs.congr (fun p hp => ⟨h.queuetab ▸ hp, by rw [h.proctab]⟩) (by rw [h.proctab, h.currpid])
    h.ndefers h.attempt

/-- A segment may start with acts that leave the schedule alone. -/
theorem Seg.after (h : Seg G b c) (hacts : Acts G a b) (hr : Runs a → Runs b)
    (hs : Settled a → Settled b) : Seg G a c := by
  cases h with
  | calm hbc hruns hsettled => exact .calm (hacts.trans hbc) (hruns ∘ hr) (hsettled ∘ hs)
  | resched hbc hres => exact .resched (hacts.trans hbc) hres
  | chprio hg hbc hruns => exact .chprio hg (hacts.trans hbc) (hruns ∘ hr)

/-! ## Ways in which a call ends -/

/-- The call returns. -/
theorem seg_ret (h : Linked k.queuetab ls) (v : Int) : Refines (Seg G) k (k.ret v) ls :=
  ⟨ls, h, .calm (.single (.tidy (tidy_ret _ v))) id id⟩

/-- The call reschedules. -/
theorem seg_resched (hb : Base (k.withQueues ls)) (h₁ : Linked k₁.queuetab ls₁)
    (hacts : Acts G (k.withQueues ls) (k₁.withQueues ls₁)) (hcur : IsPid k₁.currpid)
    (hdef : 0 < k₁.ndefers → Runs (k₁.withQueues ls₁)) : Refines (Seg G) k (resched k₁) ls := by
  obtain ⟨ls', hl, hres⟩ := resched_refines h₁ (hacts.base hb).agree hcur hdef
  exact ⟨ls', hl, .resched hacts hres⟩

/-- The call makes a process ready and reschedules. -/
theorem seg_ready {p : Int} (hb : Base (k.withQueues ls)) (h₁ : Linked k₁.queuetab ls₁)
    (hag : AgreeBut p (k₁.withQueues ls₁)) (hp : IsPid p) (hlive : (k₁.proctab p).prstate ≠ .free)
    (hacts : Acts G (k.withQueues ls) ((k₁.withQueues ls₁).makeReady p))
    (hruns : Runs ((k₁.withQueues ls₁).makeReady p)) : Refines (Seg G) k (ready p true k₁) ls := by
  obtain ⟨ls', hl, heq, hready⟩ := ready_refines h₁ hag hp hlive
  rw [hready]
  refine seg_resched hb hl (by rw [heq]; exact hacts) ?_ fun _ => by rw [heq]; exact hruns
  have hc : (ready p false k₁).currpid = k₁.currpid := by
    have := congrArg Kernel.currpid heq
    exact this
  rw [hc]
  exact hruns.1

/-! ## The current process runs on -/

theorem makeReady_runs {p : Int} (h : Runs a) (hp : (a.proctab p).prstate ≠ .curr) :
    Runs (a.makeReady p) :=
  h.of_update hp (a.makeReady_proctab p) rfl

theorem place_ne_curr {p q : Int} (h : a.place p = some q) : (a.proctab p).prstate ≠ .curr := by
  intro hcur
  simp [Kernel.place, hcur] at h

theorem releaseFirst_runs (hag : Agree a) {s : Int} (hs : IsSem s) (h : Runs a) (e : Int → Event) :
    Runs (a.releaseFirst s e) := by
  unfold Kernel.releaseFirst
  cases hon : a.queuetab.on (a.semtab s).squeue with
  | nil => exact h
  | cons p l =>
    have hq : IsQueue (a.semtab s).squeue := by
      rw [hag.squeue]
      exact isQueue_semqueue hs
    have hp := (mem_on_pid hag hq (show p ∈ a.queuetab.on _ by rw [hon]; simp)).2
    exact h.of_update (place_ne_curr hp) (Kernel.makeReady_proctab _ p) rfl

theorem unit_runs (hag : Agree a) {s : Int} (hs : IsSem s) (h : Runs a) : Runs (a.unit s) := by
  have h1 : Agree ((a.setCount s (int32 ((a.semtab s).scount + 1))).log (.signalled s)) :=
    hag.congr rfl rfl (fun r => setCount_squeue a s _ r) rfl
  unfold Kernel.unit
  split
  · exact releaseFirst_runs h1 hs h _
  · exact h

theorem drain_runs {s : Int} (hs : IsSem s) :
    ∀ {n : Nat} {a : AKernel}, Agree a → Runs a → Runs (a.drain s n)
  | 0, _, _, h => h
  | n + 1, _, hag, h =>
    @drain_runs s hs n _ (hag.releaseFirst hs _) (releaseFirst_runs hag hs h _)

theorem deposit_runs {p m : Int} (h : Runs a) : Runs (a.deposit p m) := by
  have hc : (a.deposit p m).currpid = a.currpid := by
    unfold Kernel.deposit
    split <;> rfl
  refine ⟨hc ▸ h.1, ?_⟩
  rw [hc, Kernel.deposit_proctab]
  by_cases hp : a.currpid = p
  · subst hp
    rw [Function.update_self]
    simp only [h.2]
  · rw [Function.update_of_ne hp]
    exact h.2

/-! ## Semaphores -/

theorem isSem_of_not_bad {s : Int} (h : ¬ isbadsem s) : IsSem s := by
  unfold isbadsem at h
  unfold IsSem
  omega

theorem used_of_ne_free {st : SemState} (h : st ≠ .free) : st = .used := by
  cases st with
  | free => exact absurd rfl h
  | used => rfl

theorem setCount_scount {Q : Type} (k : Kernel Q) (s c : Int) :
    ((k.setCount s c).semtab s).scount = c := by
  simp [Kernel.setCount, Kernel.setSem]

theorem setCount_squeue' {Q : Type} (k : Kernel Q) (s c r : Int) :
    ((k.setCount s c).semtab r).squeue = (k.semtab r).squeue := by
  by_cases hr : r = s
  · subst hr
    simp [Kernel.setCount, Kernel.setSem]
  · simp [Kernel.setCount, Kernel.setSem, hr]

theorem wait_seg {s : Int} (h : Linked k.queuetab ls) (hb : Base (k.withQueues ls))
    (hr : Runs (k.withQueues ls))
    (hblock : ¬ isbadsem s → (k.semtab s).sstate = .used → int32 ((k.semtab s).scount - 1) < 0 →
      k.ndefers ≤ 0 ∧ G (k.withQueues ls) .block) : Refines (Seg G) k (wait s k) ls := by
  unfold wait
  by_cases hbad : isbadsem s ∨ (k.semtab s).sstate = .free
  · rw [if_pos hbad]
    exact seg_ret h _
  · rw [if_neg hbad]
    rw [not_or] at hbad
    have hs := isSem_of_not_bad hbad.1
    have hused := used_of_ne_free hbad.2
    simp only [setCount_scount]
    by_cases hneg : int32 ((k.semtab s).scount - 1) < 0
    · -- the caller must block
      rw [if_pos hneg]
      obtain ⟨hd, hg⟩ := hblock hbad.1 hused hneg
      set k₀ := (k.setCount s (int32 ((k.semtab s).scount - 1))).setProc k.currpid fun e =>
        { e with prstate := .wait, prsem := s } with hk₀
      have hq : IsQueue (k₀.semtab s).squeue := by
        rw [show (k₀.semtab s).squeue = (k.semtab s).squeue from setCount_squeue' k s _ s,
          show (k.semtab s).squeue = semqueue s from hb.agree.squeue s]
        exact isQueue_semqueue hs
      have hlive : (k₀.proctab k.currpid).prstate ≠ .free := by
        simp [hk₀, Kernel.setProc]
      have hoff := (Agree.lift hb.agree hr.place).off
      obtain ⟨t', henq, hl⟩ := @enqueue_linked ls k₀ h k.currpid _ hq hr.1 hlive hoff
      rw [show (k.setCount s (int32 ((k.semtab s).scount - 1))).currpid = k.currpid from rfl, ← hk₀,
        show k₀.currpid = k.currpid from rfl, henq]
      refine @seg_resched G k
        (Kernel.push (Kernel.log { k₀ with queuetab := t' } (.waited s k.currpid)) (.ret OK)) ls
        (ls.set (k₀.semtab s).squeue (ls.on (k₀.semtab s).squeue ++ [k.currpid])) hb hl ?_ hr.1
        fun hd' => absurd hd (not_le.mpr hd')
      refine .tail (.single (.enterWait hg hr hs hused hneg)) (.tidy ?_)
      exact tidy_push ((k.withQueues ls).enterWait s) (by simp [Frame.Vital])
    · rw [if_neg hneg]
      refine ⟨ls, h, .calm ?_ id id⟩
      exact .tail (.single (.countDown hs hused (not_lt.mp hneg))) (.tidy (tidy_ret _ _))

theorem isQueue_squeue (h : Agree a) {s : Int} (hs : IsSem s) : IsQueue (a.semtab s).squeue := by
  rw [h.squeue]
  exact isQueue_semqueue hs

/-- What `signalUnit` leaves to its caller: a process to be made ready, an
id that `ready` rejects, or nothing. -/
inductive UnitLeft (k : Kernel QTab) (ls : Lists) (s : Int) : Option Int × Kernel QTab → Prop
  | some {p : Int} {k₁ : Kernel QTab} {ls₁ : Lists} : Linked k₁.queuetab ls₁ → AgreeBut p (k₁.withQueues ls₁) → IsPid p →
      (k₁.proctab p).prstate ≠ .free →
      (k₁.withQueues ls₁).makeReady p = (k.withQueues ls).unit s → UnitLeft k ls s (some p, k₁)
  | empty {k₁ : Kernel QTab} : Linked k₁.queuetab ls → k₁.withQueues ls = (k.withQueues ls).unit s →
      SameSched (k.withQueues ls) (k₁.withQueues ls) → UnitLeft k ls s (some EMPTY, k₁)
  | none {k₁ : Kernel QTab} : Linked k₁.queuetab ls → k₁.withQueues ls = (k.withQueues ls).unit s →
      SameSched (k.withQueues ls) (k₁.withQueues ls) → UnitLeft k ls s (none, k₁)

theorem signalUnit_refines {s : Int} (h : Linked k.queuetab ls) (hag : Agree (k.withQueues ls))
    (hs : IsSem s) : UnitLeft k ls s (signalUnit s k) := by
  have hq : IsQueue (k.semtab s).squeue := isQueue_squeue hag hs
  set k₀ := (k.setCount s (int32 ((k.semtab s).scount + 1))).log (.signalled s) with hk₀
  have hsq : (k₀.semtab s).squeue = (k.semtab s).squeue := setCount_squeue' k s _ s
  have hunit : (k.withQueues ls).unit s =
      if (k.semtab s).scount < 0 then (k₀.withQueues ls).releaseFirst s (.released s)
      else k₀.withQueues ls := rfl
  have hcode : signalUnit s k =
      if (k.semtab s).scount < 0 then
        (some (dequeue (k₀.semtab s).squeue k.queuetab).1,
          ({ k₀ with queuetab := (dequeue (k₀.semtab s).squeue k.queuetab).2 } : Kernel QTab).log
            (.released s (dequeue (k₀.semtab s).squeue k.queuetab).1))
      else (none, k₀) := rfl
  rw [hcode]
  by_cases hneg : (k.semtab s).scount < 0
  · rw [if_pos hneg, hsq]
    rw [if_pos hneg] at hunit
    cases hon : ls.on (k.semtab s).squeue with
    | nil =>
      rw [dequeue_nil h hq hon]
      refine .empty h ?_ ⟨rfl, rfl, rfl, rfl, rfl⟩
      rw [hunit, (k₀.withQueues ls).releaseFirst_nil (by rw [← hon, ← hsq]; rfl)]
      rfl
    | cons p l =>
      obtain ⟨t', hdeq, hl⟩ := dequeue_linked h hq hon
      rw [hdeq]
      have hp := mem_on_pid hag hq (show p ∈ ls.on _ by rw [hon]; simp)
      have hag₀ : Agree (k₀.withQueues ls) := hag.congr rfl rfl (fun r => setCount_squeue' k s _ r) rfl
      refine .some hl ((hag₀.remove p).log _) hp.1 (Agree.on_ne_free hag hq hon) ?_
      rw [hunit, (k₀.withQueues ls).releaseFirst_cons (by rw [← hon, ← hsq]; rfl)]
      rfl
  · rw [if_neg hneg]
    rw [if_neg hneg] at hunit
    exact .none h hunit.symm ⟨rfl, rfl, rfl, rfl, rfl⟩

theorem ready_empty (resch : Bool) (k : Kernel QTab) : ready EMPTY resch k = k :=
  if_pos (Or.inl (by decide))

theorem signal_seg {s : Int} (h : Linked k.queuetab ls) (hb : Base (k.withQueues ls))
    (hr : Runs (k.withQueues ls)) : Refines (Seg G) k (signal s k) ls := by
  unfold signal
  by_cases hbad : isbadsem s ∨ (k.semtab s).sstate = .free
  · rw [if_pos hbad]
    exact seg_ret h _
  · rw [if_neg hbad]
    rw [not_or] at hbad
    have hs := isSem_of_not_bad hbad.1
    have hact : Act G (k.withQueues ls) ((k.withQueues ls).unit s) :=
      .unit hs (used_of_ne_free hbad.2)
    have hruns := unit_runs hb.agree hs hr
    have hpush : Acts G (k.withQueues ls) (((k.withQueues ls).unit s).push (.ret OK)) :=
      .tail (.single hact) (.tidy (tidy_push _ (by simp [Frame.Vital])))
    have hunit := signalUnit_refines h hb.agree hs
    cases hsig : signalUnit s k with
    | mk o k₁ =>
      rw [hsig] at hunit
      cases hunit with
      | @some p _ ls₁ hl hag hp hlive heq =>
        have heq' : ((k₁.push (.ret OK)).withQueues ls₁).makeReady p =
            ((k.withQueues ls).unit s).push (.ret OK) := by
          rw [← heq]
          rfl
        exact @seg_ready G k (k₁.push (.ret OK)) ls ls₁ p hb hl
          (hag.congr rfl rfl (fun _ => rfl) rfl) hp hlive (by rw [heq']; exact hpush)
          (by rw [heq']; exact hruns)
      | empty hl heq hsame =>
        simp only [ready_empty]
        refine ⟨ls, hl, ?_⟩
        rw [show (k₁.push (.ret OK)).withQueues ls = ((k.withQueues ls).unit s).push (.ret OK) by
          rw [← heq]; rfl]
        exact .calm hpush (fun _ => hruns) fun hset => heq ▸ hsame.settled hset
      | none hl heq hsame =>
        refine ⟨ls, hl, ?_⟩
        rw [show (k₁.ret OK).withQueues ls = ((k.withQueues ls).unit s).ret OK by
          rw [← heq]; rfl]
        exact .calm (.tail (.single hact) (.tidy (tidy_ret _ _))) (fun _ => hruns)
          fun hset => heq ▸ hsame.settled hset

/-- A loop of acts after which the current process still runs. -/
def Loop (G : Guard) (a b : AKernel) : Prop := Acts G a b ∧ Runs b

theorem signalnLoop_refines {s : Int} (hs : IsSem s) :
    ∀ {n : Nat} {k : Kernel QTab} {ls : Lists}, Linked k.queuetab ls → Base (k.withQueues ls) →
      Runs (k.withQueues ls) → (k.semtab s).sstate = .used →
      Refines (Loop G) k (signalnLoop s n k) ls := by
  intro n
  induction n with
  | zero => exact fun h _ hr _ => ⟨_, h, .refl, hr⟩
  | succ n ih =>
    intro k ls h hb hr hused
    have hact : Act G (k.withQueues ls) ((k.withQueues ls).unit s) := .unit hs hused
    have hb' := hact.base hb
    have hr' := unit_runs hb.agree hs hr
    have hused' : (((k.withQueues ls).unit s).semtab s).sstate = .used := by
      have hst : (((k.withQueues ls).setCount s (int32 ((k.semtab s).scount + 1))).semtab s).sstate =
          (k.semtab s).sstate := by
        simp [Kernel.setCount, Kernel.setSem, Kernel.withQueues]
      unfold Kernel.unit
      split
      · rw [Kernel.releaseFirst_semtab]
        exact hst.trans hused
      · exact hst.trans hused
    -- one round of the loop, then the rest
    have hgo : ∀ {k₁ : Kernel QTab} {ls₁ : Lists}, Linked k₁.queuetab ls₁ →
        k₁.withQueues ls₁ = (k.withQueues ls).unit s →
        Refines (Loop G) k (signalnLoop s n k₁) ls := by
      intro k₁ ls₁ hl heq
      rw [← heq] at hb' hr' hused' hact
      obtain ⟨ls', hl', hacts, hruns⟩ := ih hl hb' hr' hused'
      exact ⟨ls', hl', .head hact hacts, hruns⟩
    have hunit := signalUnit_refines h hb.agree hs
    rw [signalnLoop]
    cases hsig : signalUnit s k with
    | mk o k₁ =>
      rw [hsig] at hunit
      cases hunit with
      | some hl hag hp hlive heq =>
        obtain ⟨ls', hl', heq', -⟩ := ready_refines hl hag hp hlive
        exact hgo hl' (heq'.trans heq)
      | empty hl heq _ =>
        simp only [ready_empty]
        exact hgo hl heq
      | none hl heq _ => exact hgo hl heq

theorem signaln_seg {s c : Int} (h : Linked k.queuetab ls) (hb : Base (k.withQueues ls))
    (hr : Runs (k.withQueues ls)) : Refines (Seg G) k (signaln s c k) ls := by
  unfold signaln
  by_cases hbad : isbadsem s ∨ c < 0 ∨ (k.semtab s).sstate = .free
  · rw [if_pos hbad]
    exact seg_ret h _
  · rw [if_neg hbad]
    rw [not_or, not_or] at hbad
    obtain ⟨ls', hl, hacts, hruns⟩ := @signalnLoop_refines G s (isSem_of_not_bad hbad.1) c.toNat _ _ h hb hr
      (used_of_ne_free hbad.2.2)
    exact @seg_resched G k (Kernel.push (signalnLoop s c.toNat k) (.ret OK)) ls ls' hb hl
      (.tail hacts (.tidy (tidy_push _ (by simp [Frame.Vital])))) hruns.1 fun _ => hruns

/-! ### Draining a semaphore -/

theorem drainFirst_refines {s : Int} (h : Linked k.queuetab ls) (hag : Agree (k.withQueues ls))
    (hs : IsSem s) : ∃ ls', Linked (drainFirst s k).2.queuetab ls' ∧
      (drainFirst s k).2.withQueues ls' = (k.withQueues ls).releaseFirst s (.drained s) := by
  have hq : IsQueue (k.semtab s).squeue := isQueue_squeue hag hs
  unfold drainFirst
  cases hon : ls.on (k.semtab s).squeue with
  | nil =>
    rw [getfirst_nil h hq hon, (k.withQueues ls).releaseFirst_nil hon]
    simp only [ready_empty]
    exact ⟨ls, h, rfl⟩
  | cons p l =>
    obtain ⟨hget, hl⟩ := getfirst_linked h hq hon
    rw [hget, (k.withQueues ls).releaseFirst_cons hon]
    have hp := mem_on_pid hag hq (show p ∈ ls.on _ by rw [hon]; simp)
    set k₁ := ({ k with queuetab := getitem p k.queuetab } : Kernel QTab).log (.drained s p)
    obtain ⟨ls', hl', heq, -⟩ := @ready_refines k₁ (ls.remove p) p hl ((hag.remove p).log _) hp.1
      (Agree.on_ne_free hag hq hon)
    exact ⟨ls', hl', heq⟩

theorem drain_setSem {s : Int} {f : Sentry → Sentry} (hf : ∀ e, (f e).squeue = e.squeue) :
    ∀ (n : Nat) (a : AKernel), (a.setSem s f).drain s n = (a.drain s n).setSem s f
  | 0, _ => rfl
  | n + 1, a => by
    have hsq : ((a.setSem s f).semtab s).squeue = (a.semtab s).squeue := setSem_squeue a s s hf
    have hone : (a.setSem s f).releaseFirst s (.drained s) =
        (a.releaseFirst s (.drained s)).setSem s f := by
      cases hon : a.queuetab.on (a.semtab s).squeue with
      | nil =>
        rw [a.releaseFirst_nil hon, (a.setSem s f).releaseFirst_nil (by rw [hsq]; exact hon)]
        rfl
      | cons p l =>
        rw [a.releaseFirst_cons hon, (a.setSem s f).releaseFirst_cons (by rw [hsq]; exact hon)]
        rfl
    rw [Kernel.drain, hone, drain_setSem hf n]
    rfl

theorem semresetLoop_refines {s : Int} (hs : IsSem s) :
    ∀ {n : Nat} {k : Kernel QTab} {ls : Lists}, Linked k.queuetab ls → Agree (k.withQueues ls) →
      (ls.on (k.semtab s).squeue).length < n →
      ∃ ls', Linked (semresetLoop s n k).queuetab ls' ∧
        (semresetLoop s n k).withQueues ls' =
          (k.withQueues ls).drain s (ls.on (k.semtab s).squeue).length := by
  intro n
  induction n with
  | zero => exact fun _ _ hn => absurd hn (by simp)
  | succ n ih =>
    intro k ls h hag hn
    have hq : IsQueue (k.semtab s).squeue := isQueue_squeue hag hs
    rw [semresetLoop]
    cases hon : ls.on (k.semtab s).squeue with
    | nil =>
      rw [if_pos ((h.isempty_iff hq).mpr hon)]
      exact ⟨ls, h, rfl⟩
    | cons p l =>
      rw [if_neg fun he => by simp [(h.isempty_iff hq).mp he] at hon]
      obtain ⟨ls₁, hl, heq⟩ := drainFirst_refines h hag hs
      have hag₁ : Agree ((drainFirst s k).2.withQueues ls₁) := by
        rw [heq]
        exact Agree.releaseFirst hag hs _
      have hsem : ((drainFirst s k).2.semtab s).squeue = (k.semtab s).squeue := by
        have := congrArg (fun a : AKernel => (a.semtab s).squeue) heq
        rw [Kernel.releaseFirst_semtab] at this
        exact this
      -- one process fewer waits
      have hls : ls₁.on (k.semtab s).squeue = l := by
        have := congrArg (fun a : AKernel => a.queuetab.on (k.semtab s).squeue) heq
        rw [(k.withQueues ls).releaseFirst_cons hon] at this
        have hne : (k.semtab s).squeue ≠ readylist := by
          rw [show (k.semtab s).squeue = semqueue s from hag.squeue s]
          exact semqueue_ne_readylist hs
        refine this.trans ?_
        show (((ls.remove p).insert p readylist _).on _) = l
        rw [Lists.insert, Lists.set_on_of_ne _ hne, Lists.setKey_on, Lists.remove_on, hon,
          List.erase_cons_head]
      have hlen : (ls₁.on ((drainFirst s k).2.semtab s).squeue).length < n := by
        rw [hsem, hls]
        rw [hon] at hn
        simpa using hn
      obtain ⟨ls', hl', heq'⟩ := ih hl hag₁ hlen
      refine ⟨ls', hl', ?_⟩
      rw [heq', hsem, hls, heq]
      rfl

theorem semreset_seg {s c : Int} (h : Linked k.queuetab ls) (hb : Base (k.withQueues ls))
    (hr : Runs (k.withQueues ls)) : Refines (Seg G) k (semreset s c k) ls := by
  unfold semreset
  by_cases hbad : c < 0 ∨ isbadsem s ∨ (k.semtab s).sstate = .free
  · rw [if_pos hbad]
    exact seg_ret h _
  · rw [if_neg hbad]
    rw [not_or, not_or] at hbad
    have hs := isSem_of_not_bad hbad.2.1
    have hused := used_of_ne_free hbad.2.2
    obtain ⟨ls', hl, heq⟩ := semresetLoop_refines hs h hb.agree (h.length_lt (isQueue_squeue hb.agree hs))
    have hruns := @drain_runs s hs (ls.on (k.semtab s).squeue).length _ hb.agree hr
    have heq' : ((((semresetLoop s NQENT.toNat k).setCount s c).log (.semreset s c)).push
        (.ret OK)).withQueues ls' =
        ((((k.withQueues ls).drain s (ls.on (k.semtab s).squeue).length).setCount s c).log
          (.semreset s c)).push (.ret OK) := by
      rw [← heq]
      rfl
    refine @seg_resched G k ((((semresetLoop s NQENT.toNat k).setCount s c).log (.semreset s c)).push
      (.ret OK)) ls ls' hb hl ?_ ?_ ?_
    · rw [heq']
      exact .tail (.single (.semreset hs hused (not_lt.mp hbad.1)))
        (.tidy (tidy_push _ (by simp [Frame.Vital])))
    · have := congrArg Kernel.currpid heq'
      rw [show ((((semresetLoop s NQENT.toNat k).setCount s c).log (.semreset s c)).push
        (.ret OK)).currpid = _ from this]
      exact hruns.1
    · intro _
      rw [heq']
      exact hruns

theorem setCount_setCount (a : AKernel) (s c d : Int) :
    (a.setCount s c).setCount s d = a.setCount s d := by
  simp [Kernel.setCount, Kernel.setSem]

theorem semdeleteLoop_refines {s : Int} (hs : IsSem s) :
    ∀ {m : Nat} {k : Kernel QTab} {ls : Lists}, Linked k.queuetab ls → Agree (k.withQueues ls) →
      -2 ^ 31 ≤ (k.semtab s).scount → (-(k.semtab s).scount).toNat = m →
      ∃ ls' c, Linked (semdeleteLoop s (m + 1) k).queuetab ls' ∧ -2 ^ 31 ≤ c ∧
        (semdeleteLoop s (m + 1) k).withQueues ls' = ((k.withQueues ls).drain s m).setCount s c := by
  intro m
  induction m with
  | zero =>
    intro k ls h _ _ hm
    refine ⟨ls, int32 ((k.semtab s).scount + 1), ?_, (int32_range _).1, ?_⟩
    · rw [semdeleteLoop]
      simp only [show ¬ (k.semtab s).scount < 0 by omega, if_false]
      exact h
    · rw [semdeleteLoop]
      simp only [show ¬ (k.semtab s).scount < 0 by omega, if_false]
      rfl
  | succ m ih =>
    intro k ls h hag hlow hm
    have hneg : (k.semtab s).scount < 0 := by omega
    have hnext : int32 ((k.semtab s).scount + 1) = (k.semtab s).scount + 1 :=
      int32_eq (by omega) (by omega)
    set k₀ := k.setCount s ((k.semtab s).scount + 1) with hk₀
    have hag₀ : Agree (k₀.withQueues ls) := hag.congr rfl rfl (fun r => setCount_squeue' k s _ r) rfl
    obtain ⟨ls₁, hl, heq⟩ := @drainFirst_refines k₀ ls s h hag₀ hs
    have hcount : ((drainFirst s k₀).2.semtab s).scount = (k.semtab s).scount + 1 := by
      have := congrArg (fun a : AKernel => (a.semtab s).scount) heq
      rw [Kernel.releaseFirst_semtab] at this
      exact this.trans (setCount_scount k s _)
    have hag₁ : Agree ((drainFirst s k₀).2.withQueues ls₁) := by
      rw [heq]
      exact Agree.releaseFirst hag₀ hs _
    obtain ⟨ls', c, hl', hc, heq'⟩ := ih hl hag₁ (by rw [hcount]; omega) (by rw [hcount]; omega)
    have hloop : semdeleteLoop s (m + 1 + 1) k = semdeleteLoop s (m + 1) (drainFirst s k₀).2 := by
      conv_lhs => rw [semdeleteLoop]
      simp only [hneg, if_true, hnext, ← hk₀]
    refine ⟨ls', c, by rw [hloop]; exact hl', hc, ?_⟩
    rw [hloop, heq', heq]
    -- the count can be set after the processes are drained
    have hcomm : (k₀.withQueues ls).drain s (m + 1) =
        ((k.withQueues ls).drain s (m + 1)).setCount s ((k.semtab s).scount + 1) :=
      @drain_setSem s (fun e => { e with scount := (k.semtab s).scount + 1 }) (fun _ => rfl) (m + 1)
        (k.withQueues ls)
    show ((k₀.withQueues ls).drain s (m + 1)).setCount s c = _
    rw [hcomm, setCount_setCount]

theorem semdelete_seg {s : Int} (h : Linked k.queuetab ls) (hb : Base (k.withQueues ls))
    (hr : Runs (k.withQueues ls)) : Refines (Seg G) k (semdelete s k) ls := by
  unfold semdelete
  by_cases hbad : isbadsem s ∨ (k.semtab s).sstate = .free
  · rw [if_pos hbad]
    exact seg_ret h _
  · rw [if_neg hbad]
    rw [not_or] at hbad
    have hs := isSem_of_not_bad hbad.1
    have hused := used_of_ne_free hbad.2
    set k₀ := k.setSem s fun e => { e with sstate := .free } with hk₀
    have hcount : (k₀.semtab s).scount = (k.semtab s).scount := by
      simp [hk₀, Kernel.setSem]
    have hag₀ : Agree (k₀.withQueues ls) :=
      hb.agree.congr rfl rfl (fun r => @setSem_squeue (k.withQueues ls) s r
        (fun e => { e with sstate := .free }) fun _ => rfl) rfl
    obtain ⟨ls', c, hl, hc, heq⟩ := @semdeleteLoop_refines s hs _ k₀ ls h hag₀
      (by rw [hcount]; exact hb.counts s) rfl
    set m := (-(k₀.semtab s).scount).toNat with hm
    have hm' : m = (-((k.withQueues ls).semtab s).scount).toNat := by
      rw [hm, hcount]
      rfl
    have hcomm : (k₀.withQueues ls).drain s m =
        ((k.withQueues ls).drain s m).setSem s fun e => { e with sstate := .free } :=
      @drain_setSem s (fun e => { e with sstate := .free }) (fun _ => rfl) m (k.withQueues ls)
    have hfin : (((semdeleteLoop s (m + 1) k₀).log (.semdeleted s)).push (.ret OK)).withQueues ls' =
        ((((k.withQueues ls).drain s m).setSem s
          fun e => { e with sstate := .free, scount := c }).log (.semdeleted s)).push (.ret OK) := by
      rw [show (((semdeleteLoop s (m + 1) k₀).log (.semdeleted s)).push (.ret OK)).withQueues ls' =
        (((semdeleteLoop s (m + 1) k₀).withQueues ls').log (.semdeleted s)).push (.ret OK) from rfl,
        heq, hcomm]
      simp [Kernel.setCount, Kernel.setSem]
    have hruns := @drain_runs s hs m _ hb.agree hr
    refine @seg_resched G k (((semdeleteLoop s (m + 1) k₀).log (.semdeleted s)).push (.ret OK)) ls ls'
      hb hl ?_ ?_ ?_
    · rw [hfin, hm']
      exact .tail (.single (.semdelete hs hused hc)) (.tidy (tidy_push _ (by simp [Frame.Vital])))
    · have := congrArg Kernel.currpid hfin
      rw [show (((semdeleteLoop s (m + 1) k₀).log (.semdeleted s)).push (.ret OK)).currpid = _ from this]
      exact hruns.1
    · intro _
      rw [hfin]
      exact hruns

/-- `newsem` finds a free semaphore or changes only `nextsem`. -/
theorem newsem_cases : ∀ (n : Nat) (k : Kernel QTab), 0 ≤ k.nextsem ∧ k.nextsem < NSEM →
    (∃ v, newsem n k = (none, { k with nextsem := v }) ∧ 0 ≤ v ∧ v < NSEM) ∨
    ∃ s v, IsSem s ∧ (k.semtab s).sstate = .free ∧ 0 ≤ v ∧ v < NSEM ∧
      newsem n k = (some s, ({ k with nextsem := v } : Kernel QTab).setSem s
        fun e => { e with sstate := .used }) := by
  intro n
  induction n with
  | zero => exact fun k hk => Or.inl ⟨k.nextsem, rfl, hk⟩
  | succ n ih =>
    intro k hk
    have hnext : 0 ≤ (if NSEM ≤ k.nextsem + 1 then 0 else k.nextsem + 1) ∧
        (if NSEM ≤ k.nextsem + 1 then 0 else k.nextsem + 1) < NSEM := by
      split
      · exact ⟨le_refl _, by decide⟩
      · omega
    rw [newsem]
    by_cases hfree : (k.semtab k.nextsem).sstate = .free
    · simp only [hfree, if_true]
      exact Or.inr ⟨k.nextsem, _, hk, hfree, hnext.1, hnext.2, rfl⟩
    · simp only [hfree, if_false]
      exact ih _ hnext

/-- When `newsem` fails, no entry it looked at is free. -/
theorem newsem_none : ∀ (n : Nat) (k k' : Kernel QTab), 0 ≤ k.nextsem ∧ k.nextsem < NSEM →
    newsem n k = (none, k') → ∀ j < n, (k.semtab ((k.nextsem + j) % NSEM)).sstate ≠ .free := by
  intro n
  induction n with
  | zero => exact fun _ _ _ _ j hj => absurd hj (Nat.not_lt_zero j)
  | succ n ih =>
    intro k k' hk heq j hj
    have hnext : (if NSEM ≤ k.nextsem + 1 then 0 else k.nextsem + 1) = (k.nextsem + 1) % NSEM := by
      unfold NSEM at *
      split <;> omega
    rw [newsem] at heq
    by_cases hfree : (k.semtab k.nextsem).sstate = .free
    · simp only [hfree, if_true] at heq
      cases heq
    · simp only [hfree, if_false, hnext] at heq
      cases j with
      | zero => rwa [Nat.cast_zero, add_zero, Int.emod_eq_of_lt hk.1 hk.2]
      | succ j =>
        have hpos : (0 : Int) < NSEM := by decide
        have hlater := ih _ k' ⟨Int.emod_nonneg _ hpos.ne', Int.emod_lt_of_pos _ hpos⟩ heq j
          (Nat.lt_of_succ_lt_succ hj)
        have hmod : ((k.nextsem + 1) % NSEM + j) % NSEM = (k.nextsem + (j + 1 : Nat)) % NSEM := by
          unfold NSEM
          omega
        dsimp only at hlater
        rwa [hmod] at hlater

theorem semcreate_seg {c : Int} (h : Linked k.queuetab ls) (hb : Base (k.withQueues ls)) :
    Refines (Seg G) k (semcreate c k) ls := by
  unfold semcreate
  by_cases hneg : c < 0
  · rw [if_pos hneg]
    exact seg_ret h _
  · rw [if_neg hneg]
    rcases newsem_cases NSEM.toNat k hb.nextsem with ⟨v, heq, hv⟩ | ⟨s, v, hs, hfree, hv0, hv1, heq⟩
    · rw [heq]
      exact ⟨ls, h, .calm (.single (.tidy
        ⟨rfl, rfl, rfl, rfl, rfl, rfl, rfl, rfl, rfl, fun _ => hv, fun _ => rfl⟩)) id id⟩
    · rw [heq]
      set k₁ : Kernel QTab := { k with nextsem := v }
      have htidy : Tidy (k.withQueues ls) (k₁.withQueues ls) :=
        ⟨rfl, rfl, rfl, rfl, rfl, rfl, rfl, rfl, rfl, fun _ => ⟨hv0, hv1⟩, fun _ => rfl⟩
      have hact : Act G (k₁.withQueues ls) (((k₁.withQueues ls).setSem s
          fun e => { e with sstate := .used, scount := c }).log (.semcreated s c)) :=
        .semcreate hs hfree (not_lt.mp hneg)
      have hfin : (((k₁.setSem s fun e => { e with sstate := .used }).setCount s c).log
          (.semcreated s c)).withQueues ls = ((k₁.withQueues ls).setSem s
            fun e => { e with sstate := .used, scount := c }).log (.semcreated s c) := by
        simp [Kernel.setCount, Kernel.setSem, Kernel.withQueues, Kernel.log]
      refine ⟨ls, h, .calm (.tail (.tail (.single (.tidy htidy)) hact) (.tidy ?_)) id id⟩
      rw [← hfin]
      exact tidy_ret _ s

/-! ## Processes -/

theorem newpid_cases : ∀ (n : Nat) (k : Kernel QTab),
    (∃ v, newpid n k = (none, { k with nextpid := v })) ∨
    ∃ p v, IsPid p ∧ (k.proctab p).prstate = .free ∧
      newpid n k = (some p, { k with nextpid := v }) := by
  intro n
  induction n with
  | zero => exact fun k => Or.inl ⟨k.nextpid, rfl⟩
  | succ n ih =>
    intro k
    have hpid : IsPid (k.nextpid % NPROC) :=
      ⟨Int.emod_nonneg _ (by decide), Int.emod_lt_of_pos _ (by decide)⟩
    rw [newpid]
    by_cases hfree : (k.proctab (k.nextpid % NPROC)).prstate = .free
    · simp only [hfree, if_true]
      exact Or.inr ⟨_, _, hpid, hfree, rfl⟩
    · simp only [hfree, if_false]
      exact ih _

theorem getstk_none {B : HeapBounds} {n : Nat} {m m' : Mem} (h : getstk B n m = (none, m')) :
    m' = m := by
  unfold getstk at h
  split at h
  · exact (Prod.mk.inj h).2.symm
  · simp only at h
    split at h
    · exact (Prod.mk.inj h).2.symm
    · exact absurd (Prod.mk.inj h).1 (by simp)

theorem pri16_range (x : Int) : -2 ^ 15 ≤ pri16 x ∧ pri16 x < 2 ^ 15 := by
  unfold pri16
  exact ⟨Int.le_bmod (by decide), Int.bmod_lt (by decide)⟩

theorem create_seg {ssize : Nat} {prio : Int} (h : Linked k.queuetab ls)
    (hb : Base (k.withQueues ls)) (hr : Runs (k.withQueues ls)) :
    Refines (Seg G) k (create ssize prio k) ls := by
  unfold create
  by_cases hbad : uint32 ssize < MINSTK ∨ pri16 prio ≤ 0
  · rw [if_pos hbad]
    exact seg_ret h _
  · rw [if_neg hbad]
    rw [not_or] at hbad
    rcases newpid_cases NPROC.toNat k with ⟨v, heq⟩ | ⟨p, v, hp, hfree, heq⟩
    · rw [heq]
      exact ⟨ls, h, .calm (.single (.tidy
        ⟨rfl, rfl, rfl, rfl, rfl, rfl, rfl, rfl, rfl, id, fun _ => rfl⟩)) id id⟩
    · rw [heq]
      simp only
      cases hstk : getstk k.bounds (uint32 ssize) k.mem with
      | mk o m =>
        cases o with
        | none =>
          have hm := getstk_none hstk
          subst hm
          exact ⟨ls, h, .calm (.single (.tidy
            ⟨rfl, rfl, rfl, rfl, rfl, rfl, rfl, rfl, rfl, id, fun _ => rfl⟩)) id id⟩
        | some saddr =>
          set k₁ : Kernel QTab := { k with nextpid := v }
          set c := (k₁.withQueues ls).birth p (pri16 prio) saddr (uint32 ssize) m with hc
          have htidy : Tidy (k.withQueues ls) (k₁.withQueues ls) :=
            ⟨rfl, rfl, rfl, rfl, rfl, rfl, rfl, rfl, rfl, id, fun _ => rfl⟩
          have hmin : MINKEY < pri16 prio := lt_trans (by decide) (not_le.mp hbad.2)
          have hact : Act G (k₁.withQueues ls) c :=
            .create hp hfree (not_le.mp hbad.2) hmin (Nat.mod_lt _ (by decide))
              (lt_of_lt_of_le (by decide) (not_lt.mp hbad.1)) hstk
          -- the new process is neither current nor ready
          have hstp : ((k.withQueues ls).proctab p).prstate = .free := hfree
          have hne : k.currpid ≠ p := by
            rintro rfl
            exact hr.ne_free hstp
          refine ⟨ls, h, ?_⟩
          show Seg G (k.withQueues ls) (c.ret p)
          refine .calm (.tail (.tail (.single (.tidy htidy)) hact) (.tidy (tidy_ret c p)))
            (fun _ => ?_) fun hset => ?_
          · exact hr.of_update (by rw [hstp]; decide)
              ((k₁.withQueues ls).birth_proctab p (pri16 prio) saddr (uint32 ssize) m) rfl
          · refine hset.congr (fun x hx => ⟨hx, ?_⟩) ?_ rfl rfl
            · have hxp : x ≠ p := by
                rintro rfl
                have := (mem_on_pid hb.agree isQueue_readylist hx).2
                simp [Kernel.place, show ((k.withQueues ls).proctab x).prstate = .free from hfree] at this
              show (c.proctab x).prprio = _
              rw [hc, Kernel.birth_proctab, Function.update_of_ne hxp]
              rfl
            · show (c.proctab k.currpid).prprio = _
              rw [hc, Kernel.birth_proctab, Function.update_of_ne hne]
              rfl

theorem isPid_of_not_bad {Q : Type} {k : Kernel Q} {p : Int} (h : ¬ isbadpid k p) :
    IsPid p ∧ (k.proctab p).prstate ≠ .free := by
  unfold isbadpid at h
  rw [not_or, not_or] at h
  exact ⟨⟨not_lt.mp h.1, not_le.mp h.2.1⟩, h.2.2⟩

/-- A suspended process may be made ready. -/
theorem makeReady_susp {p v : Int} (hb : Base (k.withQueues ls)) (hr : Runs (k.withQueues ls))
    (hp : IsPid p) (hst : (k.proctab p).prstate = .susp) :
    AgreeBut p ((k.push (.ret v)).withQueues ls) ∧
      Acts G (k.withQueues ls) (((k.push (.ret v)).withQueues ls).makeReady p) ∧
      Runs (((k.push (.ret v)).withQueues ls).makeReady p) := by
  set k₁ := k.push (.ret v) with hk₁
  have hplace : (k₁.withQueues ls).place p = none := by
    simp [Kernel.place, hk₁, Kernel.push, Kernel.withQueues, hst]
  have hag₁ : Agree (k₁.withQueues ls) := hb.agree.congr rfl rfl (fun _ => rfl) rfl
  have hr₁ : Runs (k₁.withQueues ls) := hr
  refine ⟨hag₁.lift hplace, ?_, ?_⟩
  · exact .tail (.single (.tidy (tidy_push _ (by simp [Frame.Vital])))) (.resume hp hst)
  · exact makeReady_runs hr₁ (by
      rw [show ((k₁.withQueues ls).proctab p).prstate = .susp from hst]
      decide)

/-- The call makes a suspended process ready and reschedules. -/
theorem seg_susp {p v : Int} (h : Linked k.queuetab ls) (hb : Base (k.withQueues ls))
    (hr : Runs (k.withQueues ls)) (hp : IsPid p) (hst : (k.proctab p).prstate = .susp) :
    Refines (Seg G) k (ready p true (k.push (.ret v))) ls := by
  obtain ⟨hag, hacts, hruns⟩ := @makeReady_susp G k ls p v hb hr hp hst
  have hlive : ((k.push (.ret v)).proctab p).prstate ≠ .free := by
    rw [show ((k.push (.ret v)).proctab p).prstate = .susp from hst]
    decide
  exact seg_ready hb h hag hp hlive hacts hruns

theorem resume_seg {p : Int} (h : Linked k.queuetab ls) (hb : Base (k.withQueues ls))
    (hr : Runs (k.withQueues ls)) : Refines (Seg G) k (resume p k) ls := by
  unfold resume
  by_cases hbad : isbadpid k p
  · rw [if_pos hbad]
    exact seg_ret h _
  · rw [if_neg hbad]
    by_cases hst : (k.proctab p).prstate = .susp
    · rw [if_neg (not_not.mpr hst)]
      exact seg_susp h hb hr (isPid_of_not_bad hbad).1 hst
    · rw [if_pos hst]
      exact seg_ret h _

theorem suspend_seg {p : Int} (h : Linked k.queuetab ls) (hb : Base (k.withQueues ls))
    (hr : Runs (k.withQueues ls)) (hblock : p = k.currpid ∧ p ≠ NULLPROC → k.ndefers ≤ 0) :
    Refines (Seg G) k (suspend p k) ls := by
  unfold suspend
  by_cases hbad : isbadpid k p ∨ p = NULLPROC
  · rw [if_pos hbad]
    exact seg_ret h _
  · rw [if_neg hbad]
    rw [not_or] at hbad
    have hp := (isPid_of_not_bad hbad.1).1
    by_cases hst : (k.proctab p).prstate = .ready
    · -- a ready process leaves the ready list
      rw [if_neg (by simp [hst]), if_pos hst]
      have hplace : (k.withQueues ls).place p = some readylist := by
        simp [Kernel.place, Kernel.withQueues, hst]
      have hon : p ∈ ls.on readylist :=
        (hb.agree.placed _ isQueue_readylist p hp.ne_empty).mpr ⟨hp, hplace⟩
      set c := ((k.withQueues ls).onLists (·.remove p)).setState p .susp with hc
      have hact : Act G (k.withQueues ls) c := .suspend hp hbad.2 hst
      have hne : k.currpid ≠ p := fun hcp => place_ne_curr hplace (hcp ▸ hr.2)
      refine ⟨ls.remove p, getitem_linked h isQueue_readylist hon, ?_⟩
      show Seg G (k.withQueues ls) (c.ret (c.proctab p).prprio)
      refine .calm (.tail (.single hact) (.tidy (tidy_ret _ _))) (fun _ => ?_) fun hset => ?_
      · exact hr.of_update (place_ne_curr hplace)
          (((k.withQueues ls).onLists (·.remove p)).setState_proctab p .susp) rfl
      · refine hset.congr (fun x hx => ⟨List.mem_of_mem_erase hx, ?_⟩) ?_ rfl rfl
        · have hxp : x ≠ p := by
            rintro rfl
            exact (h.nodup _ isQueue_readylist).not_mem_erase hx
          show (((k.withQueues ls).setState p .susp).proctab x).prprio = _
          rw [Kernel.setState_proctab, Function.update_of_ne hxp]
        · show (((k.withQueues ls).setState p .susp).proctab k.currpid).prprio = _
          rw [Kernel.setState_proctab, Function.update_of_ne hne]
          rfl
    · by_cases hcur : (k.proctab p).prstate = .curr
      · rw [if_neg (by simp [hcur]), if_neg hst]
        have hpc : p = k.currpid := hb.agree.curr p hp hp.ne_empty hcur
        subst hpc
        have hd := hblock ⟨rfl, hbad.2⟩
        refine @seg_resched G k ((k.setState k.currpid .susp).push (.suspendRest k.currpid)) ls ls hb h ?_
          hr.1 fun hd' => absurd hd (not_le.mpr hd')
        exact .tail (.single (.enterSusp hr hbad.2)) (.tidy (tidy_push
          ((k.withQueues ls).setState k.currpid .susp) (by simp [Frame.Vital])))
      · rw [if_pos ⟨hcur, hst⟩]
        exact seg_ret h _

theorem yield_seg (h : Linked k.queuetab ls) (hb : Base (k.withQueues ls))
    (hr : Runs (k.withQueues ls)) : Refines (Seg G) k (yield k) ls :=
  @seg_resched G k (k.push (.ret OK)) ls ls hb h
    (.single (.tidy (tidy_push (k.withQueues ls) (by simp [Frame.Vital])))) hr.1 fun _ => hr

theorem sched_cntl_seg {d : Int} (h : Linked k.queuetab ls) (hb : Base (k.withQueues ls))
    (hr : Runs (k.withQueues ls)) (hmax : d = 1 → k.ndefers < 2 ^ 31 - 1) :
    Refines (Seg G) k (sched_cntl d k) ls := by
  unfold sched_cntl
  by_cases h1 : d = 1
  · -- `DEFER_START`
    have hmax := hmax h1
    rw [if_pos h1]
    by_cases h0 : k.ndefers = 0
    · simp only [h0, if_true]
      refine ⟨ls, h, .calm (.single (.tidy
        ⟨rfl, rfl, rfl, rfl, rfl, rfl, rfl, rfl, rfl, id, fun _ => rfl⟩)) id fun hset => ?_⟩
      rcases hset with ⟨hpos, -⟩ | hset
      · exact absurd hpos (by show ¬ 0 < k.ndefers; omega)
      · exact Or.inr hset
    · simp only [h0, if_false]
      refine ⟨ls, h, .calm (.single (.tidy
        ⟨rfl, rfl, rfl, rfl, rfl, rfl, rfl, rfl, rfl, id, fun _ => rfl⟩)) id fun hset => ?_⟩
      rcases hset with ⟨hpos, hat⟩ | hset
      · have hpos : 0 < k.ndefers := hpos
        refine Or.inl ⟨?_, hat⟩
        show 0 < int32 (k.ndefers + 1)
        rw [int32_eq (by omega) (by omega)]
        omega
      · exact Or.inr hset
  · rw [if_neg h1]
    by_cases h2 : d = 2
    · -- `DEFER_STOP`
      rw [if_pos h2]
      by_cases h0 : k.ndefers ≤ 0
      · rw [if_pos h0]
        exact seg_ret h _
      · rw [if_neg h0]
        set k₁ : Kernel QTab := { k with ndefers := k.ndefers - 1 } with hk₁
        have htidy : Tidy (k.withQueues ls) (k₁.withQueues ls) :=
          ⟨rfl, rfl, rfl, rfl, rfl, rfl, rfl, rfl, rfl, id, fun _ => rfl⟩
        by_cases hlast : k₁.ndefers = 0 ∧ k₁.attempt = true
        · -- make up for the calls that were missed
          simp only [hlast, and_self, if_true]
          exact @seg_resched G k (k₁.push (.ret OK)) ls ls hb h
            (.tail (.single (.tidy htidy)) (.tidy (tidy_push _ (by simp [Frame.Vital])))) hr.1
            fun _ => hr
        · simp only [if_neg hlast]
          refine ⟨ls, h, .calm (.tail (.single (.tidy htidy)) (.tidy (tidy_ret _ _))) id fun hset => ?_⟩
          rcases hset with ⟨-, hat⟩ | hset
          · refine Or.inl ⟨?_, hat⟩
            have hne : k₁.ndefers ≠ 0 := fun hz => hlast ⟨hz, hat⟩
            have hval : k₁.ndefers = k.ndefers - 1 := rfl
            show 0 < k₁.ndefers
            omega
          · exact Or.inr hset
    · rw [if_neg h2]
      exact seg_ret h _

/-! ## Messages -/

theorem send_seg {p m : Int} (h : Linked k.queuetab ls) (hb : Base (k.withQueues ls))
    (hr : Runs (k.withQueues ls)) : Refines (Seg G) k (send p m k) ls := by
  unfold send
  by_cases hbad : isbadpid k p
  · rw [if_pos hbad]
    exact seg_ret h _
  · rw [if_neg hbad]
    obtain ⟨hp, hlive⟩ := isPid_of_not_bad hbad
    by_cases hmsg : (k.proctab p).prhasmsg = true
    · rw [if_pos hmsg]
      exact seg_ret h _
    · rw [if_neg hmsg]
      set k₁ := (k.setProc p fun e => { e with prmsg := m, prhasmsg := true }).log (.sent p m)
        with hk₁
      have hst : (k₁.proctab p).prstate = (k.proctab p).prstate := by
        simp [hk₁, Kernel.log, Kernel.setProc]
      have hact : Act G (k.withQueues ls) ((k.withQueues ls).deposit p m) :=
        .deposit hp hlive (Bool.eq_false_iff.mpr hmsg)
      have hruns : Runs ((k.withQueues ls).deposit p m) := deposit_runs hr
      have hag₀ : Agree ((k.withQueues ls).setProc p fun e => { e with prmsg := m, prhasmsg := true }) :=
        hb.agree.touch (by intro; rfl) (by intro; rfl) fun _ => id
      have hag₁ : Agree (k₁.withQueues ls) := hag₀.log _
      have hpush : ∀ {k₂ : Kernel QTab} {ls₂ : Lists},
          (k₂.withQueues ls₂).makeReady p = (k.withQueues ls).deposit p m →
          Acts G (k.withQueues ls) (((k₂.push (.ret OK)).withQueues ls₂).makeReady p) ∧
            Runs (((k₂.push (.ret OK)).withQueues ls₂).makeReady p) := by
        intro k₂ ls₂ heq
        rw [show ((k₂.push (.ret OK)).withQueues ls₂).makeReady p =
          ((k₂.withQueues ls₂).makeReady p).push (.ret OK) from rfl, heq]
        exact ⟨.tail (.single hact) (.tidy (tidy_push _ (by simp [Frame.Vital]))), hruns⟩
      simp only [hst]
      by_cases hrecv : (k.proctab p).prstate = .recv
      · -- the recipient waits for it
        rw [if_pos hrecv]
        have heq : (k₁.withQueues ls).makeReady p = (k.withQueues ls).deposit p m := by
          unfold Kernel.deposit
          rw [show ((k.withQueues ls).proctab p).prstate = .recv from hrecv]
          rfl
        have hplace : (k₁.withQueues ls).place p = none := by
          unfold Kernel.place
          rw [show ((k₁.withQueues ls).proctab p).prstate = .recv from hst.trans hrecv]
        refine @seg_ready G k (k₁.push (.ret OK)) ls ls p hb h
          ((hag₁.lift hplace).congr rfl rfl (fun _ => rfl) rfl) hp ?_ (hpush heq).1 (hpush heq).2
        show (k₁.proctab p).prstate ≠ .free
        rw [hst]
        exact hlive
      · rw [if_neg hrecv]
        by_cases htim : (k.proctab p).prstate = .rectim
        · -- the recipient waits for it with a timeout
          rw [if_pos htim]
          have hplace : (k₁.withQueues ls).place p = some sleepq := by
            unfold Kernel.place
            rw [show ((k₁.withQueues ls).proctab p).prstate = .rectim from hst.trans htim]
          have hon : p ∈ ls.on sleepq :=
            (hag₁.placed _ isQueue_sleepq p hp.ne_empty).mpr ⟨hp, hplace⟩
          obtain ⟨t', huns, hl⟩ := @unsleep_linked ls k₁ h p hon (Or.inr (hst.trans htim))
          rw [huns]
          set k₂ := ({ k₁ with queuetab := t' } : Kernel QTab).log (.unslept p)
          have heq : (k₂.withQueues (ls.unsleep p)).makeReady p = (k.withQueues ls).deposit p m := by
            unfold Kernel.deposit
            rw [show ((k.withQueues ls).proctab p).prstate = .rectim from htim]
            rfl
          refine @seg_ready G k (k₂.push (.ret OK)) ls (ls.unsleep p) p hb hl
            ((hag₁.leaveSleep p).congr rfl rfl (fun _ => rfl) rfl) hp ?_ (hpush heq).1 (hpush heq).2
          show (k₁.proctab p).prstate ≠ .free
          rw [hst]
          exact hlive
        · -- the recipient does not wait
          rw [if_neg htim]
          have heq : k₁.withQueues ls = (k.withQueues ls).deposit p m := by
            unfold Kernel.deposit
            cases hs : ((k.withQueues ls).proctab p).prstate with
            | recv => exact absurd hs hrecv
            | rectim => exact absurd hs htim
            | _ => rfl
          have hprio : ∀ x, (k₁.proctab x).prprio = (k.proctab x).prprio := by
            intro x
            by_cases hx : x = p
            · subst hx
              simp [hk₁, Kernel.log, Kernel.setProc]
            · simp [hk₁, Kernel.log, Kernel.setProc, hx]
          refine ⟨ls, h, ?_⟩
          show Seg G (k.withQueues ls) ((k₁.withQueues ls).ret OK)
          rw [heq]
          refine .calm (.tail (.single hact) (.tidy (tidy_ret _ _))) (fun _ => hruns) fun hset => ?_
          rw [← heq]
          exact hset.congr (fun x hx => ⟨hx, hprio x⟩) (hprio _) rfl rfl

/-- Taking a message leaves the schedule alone. -/
theorem collect_calm (a : AKernel) : (Runs a → Runs a.collect) ∧ (Settled a → Settled a.collect) := by
  have hprio : ∀ x, (a.collect.proctab x).prprio = (a.proctab x).prprio ∧
      (a.collect.proctab x).prstate = (a.proctab x).prstate := by
    intro x
    rw [Kernel.collect_proctab]
    by_cases hx : x = a.currpid
    · subst hx
      rw [Function.update_self]
      exact ⟨rfl, rfl⟩
    · rw [Function.update_of_ne hx]
      exact ⟨rfl, rfl⟩
  refine ⟨fun h => ⟨h.1, ?_⟩, fun h => h.congr (fun x hx => ⟨hx, (hprio x).1⟩) (hprio _).1 rfl rfl⟩
  rw [show a.collect.currpid = a.currpid from rfl, (hprio a.currpid).2]
  exact h.2

theorem takeMsg_seg (h : Linked k.queuetab ls) (hr : Runs (k.withQueues ls))
    (hidle : Idle (k.withQueues ls) k.currpid)
    (hmsg : (k.proctab k.currpid).prhasmsg = true) : Refines (Seg G) k (takeMsg k) ls := by
  have hcalm := collect_calm (k.withQueues ls)
  refine ⟨ls, h, ?_⟩
  show Seg G (k.withQueues ls) ((k.withQueues ls).collect.ret (k.proctab k.currpid).prmsg)
  exact .calm (.tail (.single (.collect hr hidle hmsg)) (.tidy (tidy_ret _ _))) hcalm.1 hcalm.2

theorem receive_seg (h : Linked k.queuetab ls) (hb : Base (k.withQueues ls))
    (hr : Runs (k.withQueues ls)) (hidle : Idle (k.withQueues ls) k.currpid)
    (hblock : (k.proctab k.currpid).prhasmsg = false →
      k.ndefers ≤ 0 ∧ G (k.withQueues ls) .block) :
    Refines (Seg G) k (receive k) ls := by
  unfold receive
  by_cases hmsg : (k.proctab k.currpid).prhasmsg = false
  · rw [if_pos hmsg]
    obtain ⟨hd, hg⟩ := hblock hmsg
    exact seg_resched hb (show Linked ((k.setState k.currpid .recv).push .receiveRest).queuetab ls from h)
      (.single (.enterRecv hg hr hidle hmsg)) hr.1 fun hd' => absurd hd (not_le.mpr hd')
  · rw [if_neg hmsg]
    exact takeMsg_seg h hr hidle (by simpa using hmsg)

theorem recvtimeRest_seg (h : Linked k.queuetab ls) (hr : Runs (k.withQueues ls))
    (hidle : Idle (k.withQueues ls) k.currpid) :
    Refines (Seg G) k (recvtimeRest k) ls := by
  unfold recvtimeRest
  by_cases hmsg : (k.proctab k.currpid).prhasmsg = true
  · rw [if_pos hmsg]
    exact takeMsg_seg h hr hidle hmsg
  · rw [if_neg hmsg]
    exact seg_ret h _

theorem recvclr_seg (h : Linked k.queuetab ls) (hr : Runs (k.withQueues ls))
    (hidle : Idle (k.withQueues ls) k.currpid) :
    Refines (Seg G) k (recvclr k) ls := by
  unfold recvclr
  by_cases hmsg : (k.proctab k.currpid).prhasmsg = true
  · rw [if_pos hmsg]
    exact takeMsg_seg h hr hidle hmsg
  · rw [if_neg hmsg]
    exact seg_ret h _

theorem recvtime_seg {w : Int} (h : Linked k.queuetab ls) (hb : Base (k.withQueues ls))
    (hr : Runs (k.withQueues ls)) (hidle : Idle (k.withQueues ls) k.currpid)
    (hblock : 0 ≤ w → (k.proctab k.currpid).prhasmsg = false →
      k.ndefers ≤ 0 ∧ G (k.withQueues ls) (.sleep w)) :
    Refines (Seg G) k (recvtime w k) ls := by
  unfold recvtime
  by_cases hneg : w < 0
  · rw [if_pos hneg]
    exact seg_ret h _
  · rw [if_neg hneg]
    by_cases hmsg : (k.proctab k.currpid).prhasmsg = false
    · rw [if_pos hmsg]
      obtain ⟨hd, hg⟩ := hblock (not_lt.mp hneg) hmsg
      obtain ⟨t', hins, hl⟩ := @insertd_linked ls k h k.currpid sleepq w isQueue_sleepq hr.1
        hr.ne_free (Agree.lift hb.agree hr.place).off
      simp only [hins, show ¬ (OK = SYSERR) by decide, if_false]
      refine @seg_resched G k ((Kernel.setState (Kernel.log { k with queuetab := t' }
        (.slept k.currpid w)) k.currpid .rectim).push .recvtimeRest) ls (ls.insertd k.currpid sleepq w)
        hb hl ?_ hr.1 fun hd' => absurd hd (not_le.mpr hd')
      exact .single (.enterRectim hg hr hidle hmsg)
    · rw [if_neg hmsg]
      exact recvtimeRest_seg h hr hidle

/-! ## The clock -/

theorem sleepms_seg {d : Nat} (h : Linked k.queuetab ls) (hb : Base (k.withQueues ls))
    (hr : Runs (k.withQueues ls)) 
    (hblock : d ≠ 0 → k.ndefers ≤ 0 ∧ G (k.withQueues ls) (.sleep (int32 d))) :
    Refines (Seg G) k (sleepms d k) ls := by
  unfold sleepms
  by_cases h0 : d = 0
  · rw [if_pos h0]
    refine @seg_resched G k ((k.push (.ret OK)).push (.ret OK)) ls ls hb h ?_ hr.1 fun _ => hr
    exact .tail (.single (.tidy (tidy_push (k.withQueues ls) (by simp [Frame.Vital]))))
      (.tidy (tidy_push _ (by simp [Frame.Vital])))
  · rw [if_neg h0]
    obtain ⟨hd, hg⟩ := hblock h0
    obtain ⟨t', hins, hl⟩ := @insertd_linked ls k h k.currpid sleepq (int32 d) isQueue_sleepq hr.1
      hr.ne_free (Agree.lift hb.agree hr.place).off
    simp only [hins, show ¬ (OK = SYSERR) by decide, if_false]
    refine @seg_resched G k ((Kernel.setState (Kernel.log { k with queuetab := t' }
      (.slept k.currpid (int32 d))) k.currpid .sleep).push (.ret OK)) ls
      (ls.insertd k.currpid sleepq (int32 d)) hb hl ?_ hr.1 fun hd' => absurd hd (not_le.mpr hd')
    exact .tail (.single (.enterSleep hg hr))
      (.tidy (tidy_push ((k.withQueues ls).enterSleep .sleep (int32 d)) (by simp [Frame.Vital])))

theorem wakeupLoop_refines : ∀ {n : Nat} {k : Kernel QTab} {ls : Lists}, Linked k.queuetab ls →
    Agree (k.withQueues ls) → ∃ ls', Linked (wakeupLoop n k).queuetab ls' ∧
      (wakeupLoop n k).withQueues ls' = (k.withQueues ls).wakeDue n := by
  intro n
  induction n with
  | zero => exact fun h _ => ⟨_, h, rfl⟩
  | succ n ih =>
    intro k ls h hag
    rw [wakeupLoop]
    cases hon : ls.on sleepq with
    | nil =>
      rw [if_neg fun hc => (h.nonempty_iff isQueue_sleepq).mp hc.1 hon]
      exact ⟨ls, h, (Kernel.wakeDue_nil (k.withQueues ls) hon _).symm⟩
    | cons p l =>
      have hfirst := (h.firstkey_cons isQueue_sleepq hon).2
      by_cases hkey : ls.key p ≤ 0
      · have hne : nonempty k.queuetab sleepq :=
          (h.nonempty_iff isQueue_sleepq).mpr (by simp [hon])
        rw [if_pos ⟨hne, by rw [hfirst]; exact hkey⟩]
        obtain ⟨t', hdeq, hl⟩ := dequeue_linked h isQueue_sleepq hon
        simp only [hdeq]
        have hp := mem_on_pid hag isQueue_sleepq (show p ∈ ls.on sleepq by rw [hon]; simp)
        set k₁ := Kernel.log { k with queuetab := t' } (.woken p)
        obtain ⟨ls', hl', heq, -⟩ := @ready_refines k₁ (ls.remove p) p hl
          ((hag.remove p).log _) hp.1 (hag.on_ne_free isQueue_sleepq hon)
        have hag' : Agree ((ready p false k₁).withQueues ls') := by
          rw [heq]
          exact hag.wake hon
        obtain ⟨ls₂, hl₂, heq₂⟩ := ih hl' hag'
        refine ⟨ls₂, hl₂, ?_⟩
        rw [heq₂, heq, Kernel.wakeDue_due (k.withQueues ls) hon hkey]
        rfl
      · rw [if_neg fun hc => hkey (hfirst ▸ hc.2)]
        exact ⟨ls, h, (Kernel.wakeDue_early (k.withQueues ls) hon (not_le.mp hkey) _).symm⟩

theorem wakeDue_runs : ∀ (n : Nat) {a : AKernel}, Agree a → Runs a → Runs (a.wakeDue n)
  | 0, _, _, h => h
  | n + 1, a, hag, h => by
    unfold Kernel.wakeDue
    split
    · exact h
    · rename_i p l hon
      split
      · have hp := mem_on_pid hag isQueue_sleepq (show p ∈ _ by rw [hon]; simp)
        exact wakeDue_runs n (hag.wake hon)
          (h.of_update (place_ne_curr hp.2) (Kernel.makeReady_proctab _ p) rfl)
      · exact h

theorem setPreempt_seg (h : Linked k.queuetab ls) (hr : Runs (k.withQueues ls)) (v : Nat) :
    Refines (Seg G) k { k with preempt := v } ls := by
  have hsame : SameSched (k.withQueues ls) (Kernel.withQueues { k with preempt := v } ls) :=
    ⟨rfl, rfl, rfl, rfl, rfl⟩
  exact ⟨ls, h, .calm (.single (.tidy
    ⟨rfl, rfl, rfl, rfl, rfl, rfl, rfl, rfl, rfl, id, fun _ => rfl⟩)) (fun _ => ⟨hr.1, hr.2⟩)
    hsame.settled⟩

theorem clkRest_seg (h : Linked k.queuetab ls) (hb : Base (k.withQueues ls))
    (hr : Runs (k.withQueues ls)) : Refines (Seg G) k (clkRest k) ls := by
  unfold clkRest
  split
  · exact @seg_resched G k { k with preempt := QUANTUM } ls ls hb h
      (.single (.tidy ⟨rfl, rfl, rfl, rfl, rfl, rfl, rfl, rfl, rfl, id, fun _ => rfl⟩)) hr.1
      fun _ => hr
  · exact setPreempt_seg h hr _

/-- The counters are bookkeeping. -/
theorem countTick_tidy (k : Kernel QTab) (ls : Lists) : (countTick k).queuetab = k.queuetab ∧
    Tidy (k.withQueues ls) ((countTick k).withQueues ls) ∧
      SameSched (k.withQueues ls) ((countTick k).withQueues ls) := by
  unfold countTick
  split
  · exact ⟨rfl, ⟨rfl, rfl, rfl, rfl, rfl, rfl, rfl, rfl, rfl, id, fun _ => rfl⟩,
      ⟨rfl, rfl, rfl, rfl, rfl⟩⟩
  · exact ⟨rfl, ⟨rfl, rfl, rfl, rfl, rfl, rfl, rfl, rfl, rfl, id, fun _ => rfl⟩,
      ⟨rfl, rfl, rfl, rfl, rfl⟩⟩

/-- A segment of `k₁` is one of `k` when acts that leave the schedule alone
lead from `k` to `k₁`. -/
theorem Refines.after {k' : Kernel QTab} (h : Refines (Seg G) k₁ k' ls₁)
    (hacts : Acts G (k.withQueues ls) (k₁.withQueues ls₁))
    (hr : Runs (k.withQueues ls) → Runs (k₁.withQueues ls₁))
    (hs : Settled (k.withQueues ls) → Settled (k₁.withQueues ls₁)) : Refines (Seg G) k k' ls := by
  obtain ⟨ls', hl, hseg⟩ := h
  exact ⟨ls', hl, hseg.after hacts hr hs⟩

theorem clkhandler_seg (h : Linked k.queuetab ls) (hb : Base (k.withQueues ls))
    (hr : Runs (k.withQueues ls)) (hg : ∀ a : AKernel, a.queuetab = ls → G a .tick) :
    Refines (Seg G) k (clkhandler k) ls := by
  unfold clkhandler
  obtain ⟨hqt, htidy, hsame⟩ := countTick_tidy k ls
  set k₀ := countTick k
  have hl₀ : Linked (k₀.log .ticked).queuetab ls := hqt ▸ h
  have hb₀ : Base (k₀.withQueues ls) := htidy.base hb
  have hr₀ : Runs (k₀.withQueues ls) := by
    refine ⟨?_, ?_⟩
    · rw [hsame.currpid]
      exact hr.1
    · rw [hsame.currpid, hsame.proctab]
      exact hr.2
  -- the first delay is one shorter
  set A := ((k₀.withQueues ls).log .ticked).onLists fun ls => ls.addHead (ls.on sleepq) (-1) with hA
  have htick : Acts G (k.withQueues ls) (A.wakeDue NQENT.toNat) :=
    .tail (.single (.tidy htidy)) (.tick (hg _ rfl))
  have hagA : Agree A := hb₀.agree.congr (Lists.addHead_on _ _ _) rfl (fun _ => rfl) rfl
  have hon : A.queuetab.on = ls.on := Lists.addHead_on _ _ _
  have hsettled : Settled (k.withQueues ls) → Settled A := fun hset =>
    (hsame.settled hset).congr (fun x hx => ⟨by rw [hon] at hx; exact hx, rfl⟩) rfl rfl rfl
  cases hsl : ls.on sleepq with
  | nil =>
    rw [if_neg fun hc => (hl₀.nonempty_iff isQueue_sleepq).mp hc hsl]
    have hAeq : (k₀.log .ticked).withQueues ls = A := by
      rw [hA]
      simp only [Kernel.onLists, show ((k₀.withQueues ls).log .ticked).queuetab = ls from rfl, hsl]
      rfl
    have hacts : Acts G (k.withQueues ls) A := by
      rw [Kernel.wakeDue_nil A (by rw [hon]; exact hsl)] at htick
      exact htick
    refine (clkRest_seg hl₀ ?_ ?_).after ?_ (fun _ => ?_) fun hset => ?_
    · rw [hAeq]
      exact hacts.base hb
    · exact hr₀
    · rw [hAeq]
      exact hacts
    · exact hr₀
    · rw [hAeq]
      exact hsettled hset
  | cons p l =>
    have hp := (mem_on_pid hb.agree isQueue_sleepq (show p ∈ ls.on sleepq by rw [hsl]; simp)).1
    have hne : nonempty (k₀.log .ticked).queuetab sleepq :=
      (hl₀.nonempty_iff isQueue_sleepq).mpr (by simp [hsl])
    have hfirst := (hl₀.firstkey_cons isQueue_sleepq hsl).1
    have hkp : ((k₀.log .ticked).queuetab p).qkey = ls.key p := hl₀.keys p hp
    simp only [if_pos hne, hfirst, hkp]
    set ls₁ := ls.setKey p (int32 (ls.key p - 1)) with hls₁
    set k₁ : Kernel QTab := { k₀.log .ticked with
      queuetab := setKey (k₀.log .ticked).queuetab p (int32 (ls.key p - 1)) } with hk₁
    have hl₁ : Linked k₁.queuetab ls₁ := hl₀.setKey hp _
    have hAeq : k₁.withQueues ls₁ = A := by
      rw [hA]
      simp only [Kernel.onLists, show ((k₀.withQueues ls).log .ticked).queuetab = ls from rfl, hsl,
        Lists.addHead, ← sub_eq_add_neg]
      rfl
    have hr₁ : Runs (k₁.withQueues ls₁) := hr₀
    have hsl₁ : ls₁.on sleepq = p :: l := hsl
    by_cases hkey : firstkey k₁.queuetab sleepq ≤ 0
    · rw [if_pos hkey]
      have hagp : Agree ((k₁.push .clkRest).withQueues ls₁) := by
        have hag₁ : Agree (k₁.withQueues ls₁) := hAeq ▸ hagA
        exact hag₁.congr rfl rfl (fun _ => rfl) rfl
      obtain ⟨ls₂, hl₂, hwake⟩ := @wakeupLoop_refines NQENT.toNat (k₁.push .clkRest) ls₁ hl₁ hagp
      have hr₂ : Runs ((wakeupLoop NQENT.toNat (k₁.push .clkRest)).withQueues ls₂) := by
        rw [hwake]
        exact wakeDue_runs _ hagp hr₁
      refine seg_resched hb hl₂ ?_ hr₂.1 fun _ => hr₂
      -- the rest of the handler is pushed before the tick
      have hpush : Tidy (k₀.withQueues ls) ((k₀.withQueues ls).push .clkRest) :=
        tidy_push _ (by simp [Frame.Vital])
      rw [hwake, show (k₁.push .clkRest).withQueues ls₁ = (k₁.withQueues ls₁).push .clkRest from rfl,
        hAeq]
      exact .tail (.tail (.single (.tidy htidy)) (.tidy hpush)) (.tick (hg _ rfl))
    · rw [if_neg hkey]
      have hacts : Acts G (k.withQueues ls) A := by
        have hfirst₁ : firstkey k₁.queuetab sleepq = ls₁.key p :=
          (hl₁.firstkey_cons isQueue_sleepq hsl₁).2
        rw [hfirst₁, show ls₁.key p = A.queuetab.key p by rw [← hAeq]; rfl] at hkey
        rw [Kernel.wakeDue_early A (by rw [hon]; exact hsl) (not_le.mp hkey)] at htick
        exact htick
      have hb₁ : Base (k₁.withQueues ls₁) := by
        rw [hAeq]
        exact hacts.base hb
      refine (clkRest_seg hl₁ hb₁ hr₁).after ?_ (fun _ => hr₁) fun hset => ?_
      · rw [hAeq]
        exact hacts
      · rw [hAeq]
        exact hsettled hset

/-! ## Death -/

theorem leave_on {q x p : Int} (hx : x ∈ (a.leave p).queuetab.on q) : x ∈ a.queuetab.on q := by
  unfold Kernel.leave at hx
  split at hx
  · exact List.mem_of_mem_erase hx
  · exact Lists.addHead_on a.queuetab _ _ ▸ List.mem_of_mem_erase hx
  · exact Lists.addHead_on a.queuetab _ _ ▸ List.mem_of_mem_erase hx
  · exact List.mem_of_mem_erase hx
  · exact hx

theorem leave_sched (a : AKernel) (p : Int) : (a.leave p).currpid = a.currpid ∧
    (a.leave p).ndefers = a.ndefers ∧ (a.leave p).attempt = a.attempt := by
  unfold Kernel.leave
  split <;> exact ⟨rfl, rfl, rfl⟩

/-- Killing another process leaves the schedule alone. -/
theorem killed_calm {p : Int} (hp : (a.proctab p).prstate ≠ .curr) :
    (Runs a → Runs (a.killed p)) ∧ (Settled a → Settled (a.killed p)) := by
  obtain ⟨hc, hd, ht⟩ := leave_sched (a.pop.freeStk p) p
  have hprio : ∀ x, ((a.killed p).proctab x).prprio = (a.proctab x).prprio := by
    intro x
    rw [Kernel.killed_proctab]
    by_cases hx : x = p
    · rw [hx, Function.update_self]
    · rw [Function.update_of_ne hx]
  refine ⟨fun h => h.of_update hp (a.killed_proctab p) hc, fun h => h.congr (fun x hx => ⟨?_, hprio x⟩) ?_ hd ht⟩
  · exact @leave_on (a.pop.freeStk p) readylist x p hx
  · rw [hprio, show (a.killed p).currpid = a.currpid from hc]

theorem killRest_pop {k k₀ : Kernel QTab} {p : Int}
    (hk₀ : k₀ = Kernel.log { k.pop with mem := (freestk k.bounds (k.proctab p).prstkbase
        (k.proctab p).prstklen k.mem).2 } (.stkfreed p (freestk k.bounds (k.proctab p).prstkbase
          (k.proctab p).prstklen k.mem).1)) :
    killRest p k.pop =
      match (k.proctab p).prstate with
      | .curr => resched ((k₀.setState p .free).push (.killUnsleep p))
      | .sleep | .rectim => killUnsleep p k₀
      | .wait =>
        let s := (k.proctab p).prsem
        let k := k₀.setCount s (int32 ((k₀.semtab s).scount + 1))
        let k := Kernel.log { k with queuetab := getitem p k.queuetab } (.cancelled s p)
        (k.setState p .free).ret OK
      | .ready => (Kernel.setState { k₀ with queuetab := getitem p k₀.queuetab } p .free).ret OK
      | _ => (k₀.setState p .free).ret OK := by
  subst hk₀
  rfl

theorem killRest_seg {p : Int} {b : Nat} {fs : List Frame} (h : Linked k.queuetab ls)
    (hb : Base (k.withQueues ls)) (hr : Runs (k.withQueues ls))
    (htop : k.frames k.currpid = .killRest p b :: fs) (hg : G (k.withQueues ls) (.bury p))
    (hblock : p = k.currpid → k.ndefers ≤ 0) :
    Refines (Seg G) k (killRest p k.pop) ls := by
  have hp : IsPid p := (hb.frames.victims k.currpid p b
    (@top_vital (k.withQueues ls) _ _ htop trivial)).1
  set k₀ := Kernel.log { k.pop with mem := (freestk k.bounds (k.proctab p).prstkbase
      (k.proctab p).prstklen k.mem).2 } (.stkfreed p (freestk k.bounds (k.proctab p).prstkbase
        (k.proctab p).prstklen k.mem).1) with hk₀
  have hrep : k₀.withQueues ls = (k.withQueues ls).pop.freeStk p := rfl
  rw [killRest_pop hk₀]
  -- a process on a queue is unlinked from it
  have hplace : ∀ {q : Int}, IsQueue q → (k.withQueues ls).place p = some q → p ∈ ls.on q :=
    fun hq hpl => (hb.agree.placed _ hq p hp.ne_empty).mpr ⟨hp, hpl⟩
  -- every case but suicide ends in the same state
  have hdone : (k.proctab p).prstate ≠ .curr →
      Seg G (k.withQueues ls) (((k.withQueues ls).killed p).ret OK) := by
    intro hne
    have hcalm := @killed_calm (k.withQueues ls) p hne
    exact .calm (.tail (.single (.killed hg hr htop hne)) (.tidy (tidy_ret _ _))) hcalm.1 hcalm.2
  have hleave : (k.withQueues ls).killed p = ((k₀.withQueues ls).leave p).setState p .free := rfl
  have hasleep : (k.proctab p).prstate = .sleep ∨ (k.proctab p).prstate = .rectim →
      Refines (Seg G) k (killUnsleep p k₀) ls := by
    intro hst
    have hon : p ∈ ls.on sleepq := hplace isQueue_sleepq (by
      unfold Kernel.place
      rcases hst with hst | hst
      · rw [show ((k.withQueues ls).proctab p).prstate = .sleep from hst]
      · rw [show ((k.withQueues ls).proctab p).prstate = .rectim from hst])
    obtain ⟨t', huns, hl⟩ := @unsleep_linked ls k₀ h p hon hst
    have hlv : (k₀.withQueues ls).leave p = (k₀.withQueues ls).leaveSleep p := by
      unfold Kernel.leave
      rcases hst with hst | hst
      · rw [show ((k₀.withQueues ls).proctab p).prstate = .sleep from hst]
      · rw [show ((k₀.withQueues ls).proctab p).prstate = .rectim from hst]
    rw [hlv] at hleave
    rw [hleave] at hdone
    unfold killUnsleep
    rw [huns]
    refine ⟨ls.unsleep p, hl, hdone ?_⟩
    rcases hst with hst | hst <;> rw [hst] <;> decide
  have hidle : (k₀.withQueues ls).leave p = k₀.withQueues ls → (k.proctab p).prstate ≠ .curr →
      Refines (Seg G) k ((k₀.setState p .free).ret OK) ls := by
    intro hlv hne
    rw [hlv] at hleave
    rw [hleave] at hdone
    exact ⟨ls, h, hdone hne⟩
  cases hst : (k.proctab p).prstate with
  | curr =>
    -- suicide
    have hpc : p = k.currpid := hb.agree.curr p hp hp.ne_empty hst
    have hd := hblock hpc
    refine @seg_resched G k ((k₀.setState p .free).push (.killUnsleep p)) ls ls hb h ?_ hr.1
      fun hd' => absurd hd (not_le.mpr hd')
    exact .single (.exit hg hr htop hst)
  | sleep => exact hasleep (Or.inl hst)
  | rectim => exact hasleep (Or.inr hst)
  | wait =>
    have hs := hb.agree.waits p hp hp.ne_empty hst
    have hon : p ∈ ls.on ((k.withQueues ls).semtab (k.proctab p).prsem).squeue :=
      hplace (isQueue_squeue hb.agree hs) (by
        unfold Kernel.place
        rw [show ((k.withQueues ls).proctab p).prstate = .wait from hst]
        rfl)
    have hlv : (k₀.withQueues ls).leave p = (((k₀.withQueues ls).setCount (k.proctab p).prsem
        (int32 ((k.semtab (k.proctab p).prsem).scount + 1))).onLists (·.remove p)).log
          (.cancelled (k.proctab p).prsem p) := by
      unfold Kernel.leave
      rw [show ((k₀.withQueues ls).proctab p).prstate = .wait from hst]
      rfl
    rw [hlv] at hleave
    rw [hleave, hst] at hdone
    exact ⟨ls.remove p, getitem_linked h (isQueue_squeue hb.agree hs) hon, hdone (by decide)⟩
  | ready =>
    have hon : p ∈ ls.on readylist := hplace isQueue_readylist (by
      unfold Kernel.place
      rw [show ((k.withQueues ls).proctab p).prstate = .ready from hst])
    have hlv : (k₀.withQueues ls).leave p = (k₀.withQueues ls).onLists (·.remove p) := by
      unfold Kernel.leave
      rw [show ((k₀.withQueues ls).proctab p).prstate = .ready from hst]
    rw [hlv] at hleave
    rw [hleave, hst] at hdone
    exact ⟨ls.remove p, getitem_linked h isQueue_readylist hon, hdone (by decide)⟩
  | free =>
    refine hidle ?_ (by rw [hst]; decide)
    unfold Kernel.leave
    rw [show ((k₀.withQueues ls).proctab p).prstate = .free from hst]
  | recv =>
    refine hidle ?_ (by rw [hst]; decide)
    unfold Kernel.leave
    rw [show ((k₀.withQueues ls).proctab p).prstate = .recv from hst]
  | susp =>
    refine hidle ?_ (by rw [hst]; decide)
    unfold Kernel.leave
    rw [show ((k₀.withQueues ls).proctab p).prstate = .susp from hst]

theorem kill_seg {p : Int} (h : Linked k.queuetab ls) (hb : Base (k.withQueues ls))
    (hr : Runs (k.withQueues ls)) (hidle : Idle (k.withQueues ls) k.currpid)
    (hg : G (k.withQueues ls) (.kill p)) : Refines (Seg G) k (kill p k) ls := by
  unfold kill
  by_cases hbad : isbadpid k p ∨ p = NULLPROC
  · rw [if_pos hbad]
    exact seg_ret h _
  · rw [if_neg hbad]
    rw [not_or] at hbad
    obtain ⟨hp, hlive⟩ := isPid_of_not_bad hbad.1
    by_cases hlast : k.prcount - 1 ≤ 1
    · -- the last user process completes
      simp only [hlast, if_true]
      exact ⟨ls, h, .calm (.single (.xdone hp hbad.2 hlive)) id id⟩
    · simp only [hlast, if_false]
      set k₁ := Kernel.push { k with prcount := k.prcount - 1 } (.killRest p (k.births p)) with hk₁
      have hact : Act G (k.withQueues ls) (k₁.withQueues ls) := .killBegin hg hr hidle hp hbad.2 hlive
      exact (@send_seg G k₁ ls (k.proctab p).prparent p h (hact.base hb) hr).after (.single hact) id id

/-! ## Steps -/

/-- The input makes the current process give up the processor or its life. -/
def Blocks (k : Kernel QTab) : Input → Prop
  | .call (.wait s) => ¬ isbadsem s ∧ (k.semtab s).sstate = .used ∧
      int32 ((k.semtab s).scount - 1) < 0
  | .call .receive => (k.proctab k.currpid).prhasmsg = false
  | .call (.recvtime w) => 0 ≤ w ∧ (k.proctab k.currpid).prhasmsg = false
  | .call (.sleepms d) => d ≠ 0
  | .call (.suspend p) => p = k.currpid ∧ p ≠ NULLPROC
  | .cont => ∃ b fs, k.frames k.currpid = .killRest k.currpid b :: fs
  | _ => False

/-- `sched_cntl` is used as its callers use it: no process blocks or ends
while it defers rescheduling, and the nesting stays within an `int32`. -/
def Disciplined (k : Kernel QTab) (i : Input) : Prop :=
  (Blocks k i → k.ndefers ≤ 0) ∧ k.ndefers < 2 ^ 31 - 1

/-- What a step lets its process do. -/
inductive Does (k : Kernel QTab) : Input → Deed → Prop
  | block {i : Input} : Blocks k i → Does k i .block
  | sleepms {d : Nat} : Blocks k (.call (.sleepms d)) →
      Does k (.call (.sleepms d)) (.sleep (int32 d))
  | recvtime {w : Int} : Blocks k (.call (.recvtime w)) → Does k (.call (.recvtime w)) (.sleep w)
  | tick : Does k .tick .tick
  | chprio {p v : Int} : Does k (.call (.chprio p v)) (.chprio p)
  | kill {p : Int} : Does k (.call (.kill p)) (.kill p)
  | bury {p : Int} {b : Nat} {fs : List Frame} :
      k.frames k.currpid = .killRest p b :: fs → Does k .cont (.bury p)

theorem Does.blocks_of_sleep {i : Input} {d : Int} (h : Does k i (.sleep d)) : Blocks k i := by
  generalize hd : Deed.sleep d = deed at h
  cases h with
  | sleepms hbl => exact hbl
  | recvtime hbl => exact hbl
  | _ => simp at hd

/-- The guard of a step: what it does, it does first, but for the tick, which
finds the queues as they were. -/
def Doing (k : Kernel QTab) (ls : Lists) (i : Input) : Guard :=
  fun a d => Does k i d ∧ a.queuetab = ls ∧ (d ≠ .tick → a = k.withQueues ls)

theorem chprio_acts {p v : Int} (hp : IsPid p) (hg : G (k.withQueues ls) (.chprio p)) :
    Acts G (k.withQueues ls)
      (((k.setProc p fun e => { e with prprio := pri16 v }).ret (k.proctab p).prprio).withQueues ls) := by
  have hv : MINKEY < pri16 v := lt_of_lt_of_le (by decide) (pri16_range v).1
  exact .tail (.single (.chprio hg hp hv)) (.tidy (tidy_ret _ _))

theorem chprio_runs {p v : Int} (hr : Runs (k.withQueues ls)) :
    Runs (((k.setProc p fun e => { e with prprio := v }).ret (k.proctab p).prprio).withQueues ls) := by
  refine ⟨hr.1, ?_⟩
  show (((k.withQueues ls).setProc p fun e => { e with prprio := v }).proctab k.currpid).prstate =
    .curr
  by_cases hx : k.currpid = p
  · rw [hx, setProc_same]
    exact hx ▸ hr.2
  · rw [setProc_of_ne (k.withQueues ls) hx]
    exact hr.2

theorem chprio_seg {p v : Int} (h : Linked k.queuetab ls)
    (hg : G (k.withQueues ls) (.chprio p)) : Refines (Seg G) k (chprio p v k) ls := by
  unfold chprio
  by_cases hbad : isbadpid k p
  · rw [if_pos hbad]
    exact seg_ret h _
  · rw [if_neg hbad]
    exact ⟨ls, h, .chprio hg (chprio_acts (isPid_of_not_bad hbad).1 hg) chprio_runs⟩

theorem exec_seg {c : Call} (h : Linked k.queuetab ls) (hb : Base (k.withQueues ls))
    (hr : Runs (k.withQueues ls)) (hfr : k.frames k.currpid = [])
    (hdis : Disciplined k (.call c)) :
    Refines (Seg (Doing k ls (.call c))) k (exec c k) ls := by
  obtain ⟨hblock, hmax⟩ := hdis
  have hidle : Idle (k.withQueues ls) k.currpid := by
    unfold Idle Kernel.vital
    rw [show (k.withQueues ls).frames k.currpid = [] from hfr]
    rfl
  have hblocks : Blocks k (.call c) → k.ndefers ≤ 0 ∧ Doing k ls (.call c) (k.withQueues ls) .block :=
    fun hbl => ⟨hblock hbl, .block hbl, rfl, fun _ => rfl⟩
  cases c with
  | create ssize priority => exact create_seg h hb hr
  | resume pid => exact resume_seg h hb hr
  | suspend pid => exact suspend_seg h hb hr hblock
  | kill pid => exact kill_seg h hb hr hidle ⟨.kill, rfl, fun _ => rfl⟩
  | chprio p v => exact chprio_seg h ⟨.chprio, rfl, fun _ => rfl⟩
  | semcreate count => exact semcreate_seg h hb
  | wait sem => exact wait_seg h hb hr fun h1 h2 h3 => hblocks ⟨h1, h2, h3⟩
  | signal sem => exact signal_seg h hb hr
  | signaln sem count => exact signaln_seg h hb hr
  | semreset sem count => exact semreset_seg h hb hr
  | semdelete sem => exact semdelete_seg h hb hr
  | send pid msg => exact send_seg h hb hr
  | receive => exact receive_seg h hb hr hidle hblocks
  | recvtime maxwait =>
    exact recvtime_seg h hb hr hidle fun h1 h2 =>
      ⟨hblock ⟨h1, h2⟩, .recvtime ⟨h1, h2⟩, rfl, fun _ => rfl⟩
  | recvclr => exact recvclr_seg h hr hidle
  | sleepms delay => exact sleepms_seg h hb hr fun h0 =>
      ⟨hblock h0, .sleepms h0, rfl, fun _ => rfl⟩
  | yield => exact yield_seg h hb hr
  | sched_cntl d => exact sched_cntl_seg h hb hr fun _ => hmax

/-- The rest of a call, when its process is current again. -/
theorem cont_seg {f : Frame} {fs : List Frame} (h : Linked k.queuetab ls)
    (hb : Base (k.withQueues ls)) (hr : Runs (k.withQueues ls))
    (htop : k.frames k.currpid = f :: fs) (hdis : Disciplined k .cont) :
    Refines (Seg (Doing k ls .cont)) k (runFrame f k.pop) ls := by
  -- a frame that does not matter is popped first
  have hpop : ∀ {k' : Kernel QTab}, ¬ f.Vital →
      Refines (Seg (Doing k ls .cont)) k.pop k' ls → Refines (Seg (Doing k ls .cont)) k k' ls := by
    intro k' hv hseg
    exact hseg.after (.single (.tidy (tidy_pop htop hv))) id id
  have hbpop : ¬ f.Vital → Base (k.pop.withQueues ls) := fun hv =>
    (tidy_pop (show (k.withQueues ls).frames k.currpid = f :: fs from htop) hv).base hb
  cases f with
  | ret v => exact hpop (by simp [Frame.Vital]) (@seg_ret _ k.pop ls h v)
  | killRest p b =>
    refine killRest_seg h hb hr htop ⟨.bury htop, rfl, fun _ => rfl⟩ fun hpc => hdis.1 ?_
    subst hpc
    exact ⟨b, fs, htop⟩
  | killUnsleep p =>
    -- the dead do not run
    exact absurd (@top_vital (k.withQueues ls) (.killUnsleep p) fs htop trivial)
      (hb.frames.gone k.currpid hr.1 hr.ne_free p)
  | suspendRest p => exact hpop (by simp [Frame.Vital]) (@seg_ret _ k.pop ls h _)
  | receiveRest =>
    have hcalm := collect_calm (k.withQueues ls).pop
    refine ⟨ls, h, ?_⟩
    show Seg _ (k.withQueues ls) ((k.withQueues ls).pop.collect.ret (k.proctab k.currpid).prmsg)
    exact .calm (.tail (.single (.receiveRest hr htop)) (.tidy (tidy_ret _ _))) hcalm.1 hcalm.2
  | recvtimeRest =>
    have hact : Act (Doing k ls .cont) (k.withQueues ls) (k.pop.withQueues ls) :=
      .recvtimeRest hr htop
    exact (@recvtimeRest_seg _ k.pop ls h hr (hb.frames.idle_pop htop trivial)).after
      (.single hact) id id
  | clkRest =>
    exact hpop (by simp [Frame.Vital]) (@clkRest_seg _ k.pop ls h (hbpop (by simp [Frame.Vital])) hr)

/-- **One step of the machine is one segment of acts on the lists.** -/
theorem step_seg {i : Input} (h : Linked k.queuetab ls) (hb : Base (k.withQueues ls))
    (hr : Runs (k.withQueues ls)) (hen : Enabled k i) (hdis : Disciplined k i) :
    Refines (Seg (Doing k ls i)) k (step k i) ls := by
  cases i with
  | call c => exact exec_seg h hb hr hen.2 hdis
  | cont =>
    cases htop : k.frames k.currpid with
    | nil => exact absurd htop hen.2
    | cons f fs =>
      rw [show step k .cont = runFrame f k.pop by simp only [step, htop]]
      exact cont_seg h hb hr htop hdis
  | tick => exact clkhandler_seg h hb hr fun a ha => ⟨.tick, ha, fun hne => absurd rfl hne⟩

end Xinu
