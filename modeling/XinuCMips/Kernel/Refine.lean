import XinuCMips.Kernel.Agreement

/-!
# Every step is a segment of acts

The refinement between the two levels: from a state in which `queuetab`
holds lists that agree with the process states, one step of the machine is a
sequence of acts on the lists that either leaves the schedule as it was
(`Seg.calm`) or ends with a `resched` (`Seg.resched`).

* `resched_refines`, `ready_refines` — the scheduler;
* `step_seg` — every step.
-/

namespace Xinu

/-! ## Base invariant -/

/-- What every act preserves and every step relies on. -/
structure Base (a : AKernel) : Prop where
  agree : Agree a
  frames : FramesOk a
  counts : ∀ s, -2 ^ 31 ≤ (a.semtab s).scount
  nextsem : 0 ≤ a.nextsem ∧ a.nextsem < NSEM

theorem int32_range (x : Int) : -2 ^ 31 ≤ int32 x ∧ int32 x < 2 ^ 31 := by
  unfold int32
  exact ⟨Int.le_bmod (by decide), Int.bmod_lt (by decide)⟩

theorem int32_eq {x : Int} (h0 : -2 ^ 31 ≤ x) (h1 : x < 2 ^ 31) : int32 x = x := by
  unfold int32
  exact Int.bmod_eq_of_le (by omega) (by omega)

variable {G : Guard} {a b c : AKernel}

theorem counts_setSem {s : Int} {f : Sentry → Sentry} (h : ∀ s, -2 ^ 31 ≤ (a.semtab s).scount)
    (hf : -2 ^ 31 ≤ (f (a.semtab s)).scount) (r : Int) :
    -2 ^ 31 ≤ ((a.setSem s f).semtab r).scount := by
  by_cases hr : r = s
  · subst hr
    simpa [Kernel.setSem] using hf
  · simpa [Kernel.setSem, hr] using h r

theorem counts_setCount {s : Int} (x : Int) (h : ∀ s, -2 ^ 31 ≤ (a.semtab s).scount) (r : Int) :
    -2 ^ 31 ≤ ((a.setCount s (int32 x)).semtab r).scount :=
  counts_setSem h (int32_range x).1 r

theorem drain_semtab (s : Int) : ∀ (n : Nat) (a : AKernel), (a.drain s n).semtab = a.semtab
  | 0, _ => rfl
  | n + 1, a => (drain_semtab s n _).trans (a.releaseFirst_semtab s _)

theorem wakeDue_sems : ∀ (n : Nat) (a : AKernel),
    (a.wakeDue n).semtab = a.semtab ∧ (a.wakeDue n).nextsem = a.nextsem
  | 0, _ => ⟨rfl, rfl⟩
  | n + 1, a => by
    unfold Kernel.wakeDue
    split
    · exact ⟨rfl, rfl⟩
    · split
      · exact wakeDue_sems n _
      · exact ⟨rfl, rfl⟩

theorem Act.counts (hact : Act G a b) (h : ∀ s, -2 ^ 31 ≤ (a.semtab s).scount) :
    ∀ s, -2 ^ 31 ≤ (b.semtab s).scount := by
  cases hact with
  | tidy ht =>
    rw [ht.semtab]
    exact h
  | @enterWait s _ _ _ _ _ => exact @counts_setCount a s _ h
  | @countDown s _ _ _ => exact @counts_setCount a s _ h
  | @unit s _ _ =>
    unfold Kernel.unit
    split
    · rw [Kernel.releaseFirst_semtab]
      exact @counts_setCount a s _ h
    · exact @counts_setCount a s _ h
  | @semcreate s c _ _ hc =>
    have hc' : -2 ^ 31 ≤ c := by omega
    exact @counts_setSem a s (fun e => { e with sstate := .used, scount := c }) h hc'
  | @semreset s c _ _ hc =>
    have hc' : -2 ^ 31 ≤ c := by omega
    refine @counts_setSem (a.drain s _) s (fun e => { e with scount := c }) ?_ hc'
    rw [drain_semtab]
    exact h
  | @semdelete s c _ _ hc =>
    refine @counts_setSem (a.drain s _) s (fun e => { e with sstate := .free, scount := c }) ?_ hc
    rw [drain_semtab]
    exact h
  | @killed p _ _ _ _ _ _ =>
    show ∀ s, _ ≤ (((a.pop.freeStk p).leave p).semtab s).scount
    unfold Kernel.leave
    split
    · exact h
    · exact h
    · exact h
    · exact @counts_setCount (a.pop.freeStk p) _ _ h
    · exact h
  | deposit _ _ _ =>
    unfold Kernel.deposit
    split <;> exact h
  | tick _ =>
    unfold Kernel.tick
    rw [(wakeDue_sems _ _).1]
    exact h
  | _ => exact h

theorem releaseFirst_nextsem (s : Int) (e : Int → Event) :
    (a.releaseFirst s e).nextsem = a.nextsem := by
  unfold Kernel.releaseFirst
  split <;> rfl

theorem drain_nextsem (s : Int) : ∀ (n : Nat) (a : AKernel), (a.drain s n).nextsem = a.nextsem
  | 0, _ => rfl
  | n + 1, _ => (drain_nextsem s n _).trans (releaseFirst_nextsem s _)

theorem Act.nextsem (hact : Act G a b) (h : 0 ≤ a.nextsem ∧ a.nextsem < NSEM) :
    0 ≤ b.nextsem ∧ b.nextsem < NSEM := by
  cases hact with
  | tidy ht => exact ht.nextsem h
  | unit _ _ =>
    unfold Kernel.unit
    split
    · rw [releaseFirst_nextsem]
      exact h
    · exact h
  | @semreset s c _ _ _ =>
    show 0 ≤ (a.drain s _).nextsem ∧ (a.drain s _).nextsem < NSEM
    rw [drain_nextsem]
    exact h
  | @semdelete s c _ _ _ =>
    show 0 ≤ (a.drain s _).nextsem ∧ (a.drain s _).nextsem < NSEM
    rw [drain_nextsem]
    exact h
  | @killed p _ _ _ _ _ _ =>
    show 0 ≤ ((a.pop.freeStk p).leave p).nextsem ∧ ((a.pop.freeStk p).leave p).nextsem < NSEM
    unfold Kernel.leave
    split <;> exact h
  | deposit _ _ _ =>
    unfold Kernel.deposit
    split <;> exact h
  | tick _ =>
    unfold Kernel.tick
    rw [(wakeDue_sems _ _).2]
    exact h
  | _ => exact h

theorem Act.base (hact : Act G a b) (h : Base a) : Base b :=
  ⟨hact.agree h.agree, hact.frames h.agree h.frames, hact.counts h.counts, hact.nextsem h.nextsem⟩

theorem Tidy.base (ht : Tidy a b) (h : Base a) : Base b :=
  (@Act.tidy (fun _ _ => True) a b ht).base h

/-- Acts preserve the base invariant. -/
theorem Acts.base (hacts : Acts G a b) (h : Base a) : Base b := by
  induction hacts with
  | refl => exact h
  | tail _ hact ih => exact hact.base ih

/-! ## Segments -/

/-- The scheduler on lists. -/
inductive Resched : AKernel → AKernel → Prop
  | defer {a : AKernel} : 0 < a.ndefers → Runs a → Resched a { a with attempt := true }
  | keep {a : AKernel} : a.ndefers ≤ 0 → Runs a →
      (∀ p l, a.queuetab.on readylist = p :: l →
        a.queuetab.key p < (a.proctab a.currpid).prprio) → Resched a a
  | requeue {a : AKernel} {p : Int} {l : List Int} : a.ndefers ≤ 0 → Runs a →
      (a.makeReady a.currpid).queuetab.on readylist = p :: l →
      Resched a ((a.makeReady a.currpid).switchTo p)
  | switch {a : AKernel} {p : Int} {l : List Int} : a.ndefers ≤ 0 → (a.proctab a.currpid).prstate ≠ .curr →
      a.queuetab.on readylist = p :: l → Resched a (a.switchTo p)
  | lost {a : AKernel} : (a.proctab a.currpid).prstate ≠ .curr → a.queuetab.on readylist = [] →
      Resched a a.lost

/-- A `resched` is pending, or no ready process has a higher priority than
the current one. -/
def Settled (a : AKernel) : Prop :=
  (0 < a.ndefers ∧ a.attempt = true) ∨
    ∀ p ∈ a.queuetab.on readylist, (a.proctab p).prprio ≤ (a.proctab a.currpid).prprio

/-- A call runs to its end, or to its `resched`, or it is the one call that
changes priorities and does not reschedule. -/
inductive Seg (G : Guard) (a c : AKernel) : Prop
  | calm : Acts G a c → (Runs a → Runs c) → (Settled a → Settled c) → Seg G a c
  | resched {b : AKernel} : Acts G a b → Resched b c → Seg G a c
  | chprio {x : AKernel} {p : Int} : G x (.chprio p) → Acts G a c → (Runs a → Runs c) → Seg G a c

theorem Runs.of_update {p : Int} {e : Procent} (h : Runs a) (hp : (a.proctab p).prstate ≠ .curr)
    (hb : b.proctab = Function.update a.proctab p e) (hc : b.currpid = a.currpid) : Runs b := by
  have hne : a.currpid ≠ p := by
    rintro rfl
    exact hp h.2
  refine ⟨hc ▸ h.1, ?_⟩
  rw [hc, hb, Function.update_of_ne hne]
  exact h.2

theorem makeReady_readylist (a : AKernel) (p : Int) :
    ((a.makeReady p).queuetab.on readylist).Perm (p :: a.queuetab.on readylist) := by
  show (((a.queuetab.insert p readylist _).on readylist)).Perm _
  rw [Lists.insert, Lists.set_on_same]
  exact insertDesc_perm _ _ _ _

/-- The acts of a `resched`. -/
theorem Resched.acts (h : Resched b c) : Acts G b c := by
  cases h with
  | defer _ _ => exact .single (.tidy ⟨rfl, rfl, rfl, rfl, rfl, rfl, rfl, rfl, rfl, id, fun _ => rfl⟩)
  | keep _ _ _ => exact .refl
  | requeue _ hr hon =>
    refine .tail (.single (.requeue hr)) (.switchTo ?_ hon)
    show ((b.makeReady b.currpid).proctab b.currpid).prstate ≠ .curr
    rw [Kernel.makeReady_proctab, Function.update_self]
    simp
  | switch _ hne hon => exact .single (.switchTo hne hon)
  | lost hne hon => exact .single (.lost hne hon)

theorem Seg.acts (h : Seg G a c) : Acts G a c := by
  cases h with
  | calm hacts _ _ => exact hacts
  | resched hacts hr => exact hacts.trans hr.acts
  | chprio _ hacts _ => exact hacts

theorem switchTo_runs {p : Int} {l : List Int} (h : Agree a) (hon : a.queuetab.on readylist = p :: l) :
    Runs (a.switchTo p) := by
  refine ⟨(mem_on_pid h isQueue_readylist (show p ∈ a.queuetab.on readylist by rw [hon]; simp)).1, ?_⟩
  rw [Kernel.switchTo_proctab, show (a.switchTo p).currpid = p from rfl, Function.update_self]

/-- Unless the machine is lost, a segment ends with a process running. -/
theorem Seg.runs (h : Seg G a c) (hb : Base a) (hr : Runs a) : Runs c ∨ c.halted = some .wild := by
  cases h with
  | calm _ hruns _ => exact Or.inl (hruns hr)
  | @resched b hacts hres =>
    have hagree := (hacts.base hb).agree
    cases hres with
    | defer _ hr => exact Or.inl hr
    | keep _ hr _ => exact Or.inl hr
    | requeue _ hr hon => exact Or.inl (switchTo_runs ((Agree.lift hagree hr.place).makeReady hr.1) hon)
    | switch _ _ hon => exact Or.inl (switchTo_runs hagree hon)
    | lost _ _ => exact Or.inr rfl
  | chprio _ _ hruns => exact Or.inl (hruns hr)

/-! ## The scheduler -/

variable {k : Kernel QTab} {ls : Lists}

/-- The refinement of one function: from `k` over the lists `ls` to `k'` over
some lists, by the relation `R`. -/
def Refines (R : AKernel → AKernel → Prop) (k k' : Kernel QTab) (ls : Lists) : Prop :=
  ∃ ls', Linked k'.queuetab ls' ∧ R (k.withQueues ls) (k'.withQueues ls')

theorem switch_refines (h : Linked k.queuetab ls) (hag : Agree (k.withQueues ls))
    (hd : k.ndefers ≤ 0) (hst : (k.proctab k.currpid).prstate ≠ .curr) :
    Refines Resched k (switch k) ls := by
  unfold switch
  cases hon : ls.on readylist with
  | nil =>
    rw [dequeue_nil h isQueue_readylist hon]
    exact ⟨ls, h, .lost hst hon⟩
  | cons p l =>
    obtain ⟨t', hdeq, hl⟩ := dequeue_linked h isQueue_readylist hon
    have hp := (mem_on_pid hag isQueue_readylist (show p ∈ ls.on readylist by rw [hon]; simp)).1
    rw [hdeq]
    simp only [hp.ne_empty, if_false]
    exact ⟨ls.remove p, hl, Resched.switch hd hst hon⟩

/-- `ready` without rescheduling. -/
theorem ready_refines {p : Int} (h : Linked k.queuetab ls) (hag : AgreeBut p (k.withQueues ls))
    (hp : IsPid p) (hlive : (k.proctab p).prstate ≠ .free) :
    ∃ ls', Linked (ready p false k).queuetab ls' ∧
      (ready p false k).withQueues ls' = (k.withQueues ls).makeReady p ∧
      ready p true k = resched (ready p false k) := by
  have hst : ((k.setState p .ready).proctab p).prstate ≠ .free := by
    simp [Kernel.setState, Kernel.setProc]
  obtain ⟨t', hins, hl⟩ := @insert_linked ls (k.setState p .ready) h p readylist
    (k.proctab p).prprio isQueue_readylist hp hst hag.off (hag.prio p hp)
  have hprio : ((k.setState p .ready).proctab p).prprio = (k.proctab p).prprio := by
    simp [Kernel.setState, Kernel.setProc]
  refine ⟨ls.insert p readylist (k.proctab p).prprio, ?_, ?_, ?_⟩
  · rw [ready, if_neg (not_isbadpid hp hlive)]
    simp only [hprio, hins]
    exact hl
  · rw [ready, if_neg (not_isbadpid hp hlive)]
    simp only [hprio, hins]
    rfl
  · rw [ready, ready, if_neg (not_isbadpid hp hlive), if_neg (not_isbadpid hp hlive)]
    simp

theorem resched_refines (h : Linked k.queuetab ls) (hag : Agree (k.withQueues ls))
    (hcur : IsPid k.currpid) (hdef : 0 < k.ndefers → Runs (k.withQueues ls)) :
    Refines Resched k (resched k) ls := by
  unfold resched
  by_cases hd : 0 < k.ndefers
  · rw [if_pos hd]
    exact ⟨ls, h, Resched.defer hd (hdef hd)⟩
  · rw [if_neg hd]
    by_cases hst : (k.proctab k.currpid).prstate = .curr
    · have hr : Runs (k.withQueues ls) := ⟨hcur, hst⟩
      simp only [hst, if_true]
      by_cases hkey : firstkey k.queuetab readylist < (k.proctab k.currpid).prprio
      · -- the current process remains running
        rw [if_pos hkey]
        refine ⟨ls, h, Resched.keep (by exact not_lt.mp hd) hr fun p l hon => ?_⟩
        rw [(h.firstkey_cons isQueue_readylist hon).2] at hkey
        exact hkey
      · -- it goes back to the ready list
        rw [if_neg hkey]
        have hprio := hag.prio _ hcur
        have hst' : ((k.setState k.currpid .ready).proctab k.currpid).prstate ≠ .free := by
          simp [Kernel.setState, Kernel.setProc]
        obtain ⟨t', hins, hl⟩ := @insert_linked ls (k.setState k.currpid .ready) h k.currpid readylist
          (k.proctab k.currpid).prprio isQueue_readylist hcur hst'
          (Agree.lift hag hr.place).off hprio
        have hag' := (Agree.lift hag hr.place).makeReady hcur
        rw [show (k.setState k.currpid .ready).currpid = k.currpid from rfl, hins]
        set k₁ := ({ k.setState k.currpid .ready with queuetab := t' } : Kernel QTab).log
          (.readied k.currpid) with hk₁
        have hst₁ : (k₁.proctab k₁.currpid).prstate ≠ .curr := by
          simp [hk₁, Kernel.log, Kernel.setState, Kernel.setProc]
        obtain ⟨ls', hl', hres⟩ := @switch_refines k₁ _ hl hag' (not_lt.mp hd) hst₁
        refine ⟨ls', hl', ?_⟩
        have hready : k₁.withQueues (ls.insert k.currpid readylist (k.proctab k.currpid).prprio) =
            (k.withQueues ls).makeReady k.currpid := rfl
        rw [hready] at hres
        generalize (switch k₁).withQueues ls' = c at hres ⊢
        cases hres with
        | switch _ _ hon => exact Resched.requeue (not_lt.mp hd) hr hon
        | lost _ hnil =>
          -- the list holds at least the process just inserted
          have hperm := (makeReady_readylist (k.withQueues ls) k.currpid).length_eq
          rw [hnil] at hperm
          simp at hperm
        | defer hd' _ => exact absurd hd' hd
        | keep _ hr' _ => exact absurd hr'.2 hst₁
        | requeue _ hr' _ => exact absurd hr'.2 hst₁
    · simp only [hst, if_false]
      exact switch_refines h hag (not_lt.mp hd) hst

end Xinu
