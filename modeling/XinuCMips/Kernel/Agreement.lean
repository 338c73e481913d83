import XinuCMips.Kernel.Acts

/-!
# Queues and process states agree

`Agree a` says that a process is on a queue exactly when its state says so,
on the queue its state says. Within a call one process may be in transit:
taken off its queue but not yet given its new state, or the other way round.
`AgreeBut x a` is agreement for everyone but `x`. A move of `x` leaves
agreement (`Agree.takeOff`, `Agree.lift`), changes `x` at will
(`AgreeBut.change`) and returns (`AgreeBut.land`, `AgreeBut.settle`).

* `Act.agree`  — every act preserves agreement;
* `Act.frames` — and the shape of the frames.
-/

namespace Xinu

/-! ## Agreement of queues and states -/

/-- Queues and process states agree, except that `x` is on no queue whatever
its state. -/
structure AgreeBut (x : Int) (a : AKernel) : Prop where
  placed : ∀ q, IsQueue q → ∀ p, p ≠ x →
    (p ∈ a.queuetab.on q ↔ IsPid p ∧ a.place p = some q)
  off : a.queuetab.Off x
  nodup : ∀ q, IsQueue q → (a.queuetab.on q).Nodup
  squeue : ∀ s, (a.semtab s).squeue = semqueue s
  waits : ∀ p, IsPid p → p ≠ x → (a.proctab p).prstate = .wait → IsSem (a.proctab p).prsem
  curr : ∀ p, IsPid p → p ≠ x → (a.proctab p).prstate = .curr → p = a.currpid
  prio : ∀ p, IsPid p → MINKEY < (a.proctab p).prprio

/-- **Queues and process states agree**: no process is in transit. -/
abbrev Agree (a : AKernel) : Prop := AgreeBut EMPTY a

theorem IsPid.ne_empty {p : Int} (h : IsPid p) : p ≠ EMPTY := by
  have := h.1
  unfold EMPTY
  omega

/-- The frames of the kernel's own calls. -/
structure FramesOk (a : AKernel) : Prop where
  /-- only the dead are left in a kill of themselves -/
  gone : ∀ p, IsPid p → (a.proctab p).prstate ≠ .free → ∀ x, Frame.killUnsleep x ∉ a.vital p
  victims : ∀ p x b, Frame.killRest x b ∈ a.vital p → IsPid x ∧ x ≠ NULLPROC
  /-- a process is in one call at a time -/
  one : ∀ p, (a.vital p).length ≤ 1

variable {G : Guard} {a b : AKernel} {x : Int}

/-! ## Moving one process -/

theorem place_congr {p : Int} (hp : b.proctab p = a.proctab p)
    (hs : ∀ s, (b.semtab s).squeue = (a.semtab s).squeue) : b.place p = a.place p := by
  unfold Kernel.place
  rw [hp, hs]

/-- The process in transit may be changed at will. -/
theorem AgreeBut.change (h : AgreeBut x a) (hq : b.queuetab.on = a.queuetab.on)
    (hp : ∀ p, p ≠ x → b.proctab p = a.proctab p)
    (hs : ∀ s, (b.semtab s).squeue = (a.semtab s).squeue) (hc : b.currpid = a.currpid)
    (hprio : IsPid x → MINKEY < (b.proctab x).prprio) : AgreeBut x b where
  placed q hqq p hpx := by
    rw [hq, place_congr (hp p hpx) hs]
    exact h.placed q hqq p hpx
  off q hqq := by
    rw [hq]
    exact h.off q hqq
  nodup q hqq := by
    rw [hq]
    exact h.nodup q hqq
  squeue s := by
    rw [hs]
    exact h.squeue s
  waits p hpid hpx hst := by
    rw [hp p hpx] at hst ⊢
    exact h.waits p hpid hpx hst
  curr p hpid hpx hst := by
    rw [hp p hpx] at hst
    rw [hc]
    exact h.curr p hpid hpx hst
  prio p hpid := by
    by_cases hpx : p = x
    · subst hpx
      exact hprio hpid
    · rw [hp p hpx]
      exact h.prio p hpid

/-- Agreement reads only lists, processes, `squeue` and `currpid`. -/
theorem AgreeBut.congr (h : AgreeBut x a) (hq : b.queuetab.on = a.queuetab.on)
    (hp : b.proctab = a.proctab) (hs : ∀ s, (b.semtab s).squeue = (a.semtab s).squeue)
    (hc : b.currpid = a.currpid) : AgreeBut x b :=
  h.change hq (fun p _ => by rw [hp]) hs hc fun hx => by rw [hp]; exact h.prio x hx

/-- A process that belongs on no queue comes to rest. -/
theorem AgreeBut.settle (h : AgreeBut x a) (hx : a.place x = none)
    (hcur : (a.proctab x).prstate = .curr → x = a.currpid) : Agree a where
  placed q hq p _ := by
    by_cases hpx : p = x
    · subst hpx
      rw [hx]
      simp [h.off q hq]
    · exact h.placed q hq p hpx
  off q hq hm := by
    by_cases hex : EMPTY = x
    · exact h.off q hq (hex ▸ hm)
    · exact ((h.placed q hq EMPTY hex).mp hm).1.ne_empty rfl
  nodup := h.nodup
  squeue := h.squeue
  waits p hpid _ hst := by
    by_cases hpx : p = x
    · subst hpx
      simp [Kernel.place, hst] at hx
    · exact h.waits p hpid hpx hst
  curr p hpid _ hst := by
    by_cases hpx : p = x
    · rw [hpx] at hst ⊢
      exact hcur hst
    · exact h.curr p hpid hpx hst
  prio := h.prio

/-- A process joins the queue that its state says. -/
theorem AgreeBut.land {q : Int} (h : AgreeBut x a) (hx : IsPid x) (hq : IsQueue q)
    (hplace : a.place x = some q) (hsem : (a.proctab x).prstate = .wait → IsSem (a.proctab x).prsem)
    (hon : (b.queuetab.on q).Perm (x :: a.queuetab.on q))
    (hother : ∀ r, r ≠ q → b.queuetab.on r = a.queuetab.on r) (hp : b.proctab = a.proctab)
    (hs : b.semtab = a.semtab) (hc : b.currpid = a.currpid) : Agree b := by
  have hpl : ∀ p, b.place p = a.place p := fun p => place_congr (by rw [hp]) fun s => by rw [hs]
  have hmem : ∀ r, IsQueue r → ∀ p, p ∈ b.queuetab.on r ↔ IsPid p ∧ b.place p = some r := by
    intro r hr p
    rw [hpl]
    by_cases hpx : p = x
    · subst hpx
      rw [hplace, Option.some.injEq]
      by_cases hrq : r = q
      · subst hrq
        exact iff_of_true (hon.mem_iff.mpr (by simp)) ⟨hx, rfl⟩
      · rw [hother r hrq]
        exact iff_of_false (h.off r hr) fun hcon => hrq hcon.2.symm
    · rw [← h.placed r hr p hpx]
      by_cases hrq : r = q
      · subst hrq
        rw [hon.mem_iff, List.mem_cons]
        exact or_iff_right hpx
      · rw [hother r hrq]
  refine ⟨fun r hr p _ => hmem r hr p, fun r hr hm => ?_, fun r hr => ?_, fun s => ?_,
    fun p hpid _ hst => ?_, fun p hpid _ hst => ?_, fun p hpid => ?_⟩
  · exact ((hmem r hr EMPTY).mp hm).1.ne_empty rfl
  · by_cases hrq : r = q
    · subst hrq
      exact hon.nodup_iff.mpr (List.nodup_cons.mpr ⟨h.off r hr, h.nodup r hr⟩)
    · rw [hother r hrq]
      exact h.nodup r hr
  · rw [hs]
    exact h.squeue s
  · rw [hp] at hst ⊢
    by_cases hpx : p = x
    · subst hpx
      exact hsem hst
    · exact h.waits p hpid hpx hst
  · rw [hp] at hst
    rw [hc]
    by_cases hpx : p = x
    · subst hpx
      simp [Kernel.place, hst] at hplace
    · exact h.curr p hpid hpx hst
  · rw [hp]
    exact h.prio p hpid

/-- A process whose state puts it on no queue may start to move. -/
theorem Agree.lift (h : Agree a) (hx : a.place x = none) : AgreeBut x a where
  placed q hq p _ := by
    by_cases hpe : p = EMPTY
    · subst hpe
      exact iff_of_false (h.off q hq) fun hcon => hcon.1.ne_empty rfl
    · exact h.placed q hq p hpe
  off q hq hm := by
    by_cases hxe : x = EMPTY
    · exact h.off q hq (hxe ▸ hm)
    · have := ((h.placed q hq x hxe).mp hm).2
      rw [hx] at this
      exact absurd this (by simp)
  nodup := h.nodup
  squeue := h.squeue
  waits p hpid _ := h.waits p hpid hpid.ne_empty
  curr p hpid _ := h.curr p hpid hpid.ne_empty
  prio := h.prio

/-- A process is taken off its queue. -/
theorem Agree.takeOff (h : Agree a) (hq : ∀ q, b.queuetab.on q = (a.queuetab.on q).erase x)
    (hp : b.proctab = a.proctab) (hs : ∀ s, (b.semtab s).squeue = (a.semtab s).squeue)
    (hc : b.currpid = a.currpid) : AgreeBut x b where
  placed q hqq p hpx := by
    rw [hq, List.mem_erase_of_ne hpx, place_congr (by rw [hp]) hs]
    by_cases hpe : p = EMPTY
    · subst hpe
      exact iff_of_false (h.off q hqq) fun hcon => hcon.1.ne_empty rfl
    · exact h.placed q hqq p hpe
  off q hqq := by
    rw [hq]
    exact (h.nodup q hqq).not_mem_erase
  nodup q hqq := by
    rw [hq]
    exact (h.nodup q hqq).erase x
  squeue s := by
    rw [hs]
    exact h.squeue s
  waits p hpid _ := by
    rw [hp]
    exact h.waits p hpid hpid.ne_empty
  curr p hpid _ := by
    rw [hp, hc]
    exact h.curr p hpid hpid.ne_empty
  prio p hpid := by
    rw [hp]
    exact h.prio p hpid

theorem insertDesc_perm (key : Int → Int) (k p : Int) (l : List Int) :
    (insertDesc key k p l).Perm (p :: l) := by
  unfold insertDesc
  refine List.perm_middle.trans ?_
  rw [List.takeWhile_append_dropWhile]

theorem mem_on_pid (h : Agree a) {q p : Int} (hq : IsQueue q) (hp : p ∈ a.queuetab.on q) :
    IsPid p ∧ a.place p = some q := by
  by_cases hpe : p = EMPTY
  · exact absurd (hpe ▸ hp) (h.off q hq)
  · exact (h.placed q hq p hpe).mp hp

/-- A process off all queues becomes ready. -/
theorem AgreeBut.makeReady (h : AgreeBut x a) (hx : IsPid x) : Agree (a.makeReady x) := by
  have h' : AgreeBut x (a.setState x .ready) :=
    h.change rfl (fun p hp => by simp [Kernel.setState, Kernel.setProc, hp]) (fun _ => rfl) rfl
      fun hx => by simpa [Kernel.setState, Kernel.setProc] using h.prio x hx
  refine h'.land hx isQueue_readylist ?_ ?_ ?_ (fun r hr => ?_) rfl rfl rfl
  · simp [Kernel.place, Kernel.setState, Kernel.setProc]
  · simp [Kernel.setState, Kernel.setProc]
  · simpa [Kernel.makeReady, Kernel.onLists, Kernel.log, Lists.insert] using insertDesc_perm ..
  · simp [Kernel.makeReady, Kernel.onLists, Kernel.log, Lists.insert, hr]

/-- Fields that do not decide where a process belongs may change. -/
theorem Agree.touch (h : Agree a) {p : Int} {f : Procent → Procent}
    (hst : ∀ e, (f e).prstate = e.prstate) (hsem : ∀ e, (f e).prsem = e.prsem)
    (hprio : ∀ e, MINKEY < e.prprio → MINKEY < (f e).prprio) : Agree (a.setProc p f) := by
  have hst' : ∀ x, ((a.setProc p f).proctab x).prstate = (a.proctab x).prstate := by
    intro x
    by_cases hx : x = p
    · subst hx
      simp [Kernel.setProc, hst]
    · simp [Kernel.setProc, hx]
  have hsem' : ∀ x, ((a.setProc p f).proctab x).prsem = (a.proctab x).prsem := by
    intro x
    by_cases hx : x = p
    · subst hx
      simp [Kernel.setProc, hsem]
    · simp [Kernel.setProc, hx]
  have hprio' : ∀ x, MINKEY < (a.proctab x).prprio → MINKEY < ((a.setProc p f).proctab x).prprio := by
    intro x h
    by_cases hx : x = p
    · subst hx
      simpa [Kernel.setProc] using hprio _ h
    · simpa [Kernel.setProc, hx] using h
  have hplace : ∀ x, (a.setProc p f).place x = a.place x := by
    intro x
    unfold Kernel.place
    rw [hst', hsem']
    rfl
  refine ⟨fun q hq x hx => ?_, h.off, h.nodup, h.squeue, fun x hx hne hw => ?_,
    fun x hx hne hc => ?_, fun x hx => ?_⟩
  · rw [hplace]
    exact h.placed q hq x hx
  · rw [hst'] at hw
    rw [hsem']
    exact h.waits x hx hne hw
  · rw [hst'] at hc
    exact h.curr x hx hne hc
  · exact hprio' x (h.prio x hx)

theorem setSem_squeue (a : AKernel) (s r : Int) {f : Sentry → Sentry}
    (hf : ∀ e, (f e).squeue = e.squeue) :
    ((a.setSem s f).semtab r).squeue = (a.semtab r).squeue := by
  by_cases hr : r = s
  · subst hr
    simp [Kernel.setSem, hf]
  · simp [Kernel.setSem, hr]

theorem setCount_squeue (a : AKernel) (s c r : Int) :
    ((a.setCount s c).semtab r).squeue = (a.semtab r).squeue :=
  setSem_squeue a s r fun _ => rfl

theorem setProc_of_ne (a : AKernel) {p x : Int} (h : x ≠ p) (f : Procent → Procent) :
    (a.setProc p f).proctab x = a.proctab x := by
  simp [Kernel.setProc, h]

theorem setProc_same (a : AKernel) (p : Int) (f : Procent → Procent) :
    (a.setProc p f).proctab p = f (a.proctab p) := by
  simp [Kernel.setProc]

/-- The state of a process in transit may change. -/
theorem AgreeBut.setState (h : AgreeBut x a) (st : PrState) : AgreeBut x (a.setState x st) :=
  h.change rfl (fun _ hp => setProc_of_ne a hp _) (fun _ => rfl) rfl fun hx => by
    rw [Kernel.setState, setProc_same]
    exact h.prio x hx

theorem place_setState (a : AKernel) (x : Int) {st : PrState}
    (hst : st = .susp ∨ st = .free ∨ st = .recv ∨ st = .curr) :
    (a.setState x st).place x = none := by
  unfold Kernel.place
  rw [Kernel.setState, setProc_same]
  rcases hst with rfl | rfl | rfl | rfl <;> rfl

theorem Runs.place (h : Runs a) : a.place a.currpid = none := by
  unfold Kernel.place
  rw [h.2]

theorem insertd_perm (ls : Lists) (p q k : Int) :
    ((ls.insertd p q k).on q).Perm (p :: ls.on q) := by
  simp only [Lists.insertd, Lists.addHead_on, Lists.set_on_same]
  refine List.perm_middle.trans ?_
  rw [splitDelta_append]

/-- A process leaves the sleep queue. -/
theorem Agree.leaveSleep (h : Agree a) (p : Int) : AgreeBut p (a.leaveSleep p) :=
  h.takeOff (fun q => by simp [Kernel.leaveSleep, Kernel.onLists, Kernel.log, Lists.unsleep]) rfl
    (fun _ => rfl) rfl

theorem Agree.remove (h : Agree a) (p : Int) : AgreeBut p (a.onLists (·.remove p)) :=
  h.takeOff (fun _ => rfl) rfl (fun _ => rfl) rfl

theorem AgreeBut.log (h : AgreeBut x a) (e : Event) : AgreeBut x (a.log e) :=
  h.congr rfl rfl (fun _ => rfl) rfl

/-- The first process waiting for a semaphore becomes ready. -/
theorem Agree.releaseFirst (h : Agree a) {s : Int} (hs : IsSem s) (e : Int → Event) :
    Agree (a.releaseFirst s e) := by
  unfold Kernel.releaseFirst
  cases hon : a.queuetab.on (a.semtab s).squeue with
  | nil => exact h.congr rfl rfl (fun _ => rfl) rfl
  | cons p l =>
    have hq : IsQueue (a.semtab s).squeue := by
      rw [h.squeue]
      exact isQueue_semqueue hs
    have hp := (mem_on_pid h hq (show p ∈ _ by rw [hon]; simp)).1
    exact ((h.remove p).log _).makeReady hp

theorem Agree.drain {s : Int} (hs : IsSem s) :
    ∀ {n : Nat} {a : AKernel}, Agree a → Agree (a.drain s n)
  | 0, _, h => h
  | n + 1, _, h => @Agree.drain s hs n _ (h.releaseFirst hs _)

/-- A killed process leaves whatever queue it is on. -/
theorem Agree.leave (h : Agree a) (p : Int) : AgreeBut p (a.leave p) := by
  unfold Kernel.leave
  cases hst : (a.proctab p).prstate with
  | ready => exact h.remove p
  | sleep => exact h.leaveSleep p
  | rectim => exact h.leaveSleep p
  | wait =>
    exact (h.remove p).congr rfl rfl (fun r => setCount_squeue a (a.proctab p).prsem _ r) rfl
  | free => exact h.lift (by simp [Kernel.place, hst])
  | curr => exact h.lift (by simp [Kernel.place, hst])
  | recv => exact h.lift (by simp [Kernel.place, hst])
  | susp => exact h.lift (by simp [Kernel.place, hst])

/-! ## Every act preserves agreement -/

theorem Agree.enterWait (h : Agree a) {s : Int} (hr : Runs a) (hs : IsSem s) :
    Agree (a.enterWait s) := by
  have h1 : AgreeBut a.currpid (((a.setCount s (int32 ((a.semtab s).scount - 1)))).setProc
      a.currpid fun e => { e with prstate := .wait, prsem := s }) :=
    (h.lift hr.place).change rfl (fun _ hp => setProc_of_ne _ hp _)
      (fun r => setCount_squeue a s _ r) rfl fun hx => by
        rw [setProc_same]
        exact h.prio _ hx
  have hsq : ((a.setCount s (int32 ((a.semtab s).scount - 1))).semtab s).squeue = semqueue s := by
    rw [setCount_squeue]
    exact h.squeue s
  refine h1.land hr.1 (isQueue_semqueue hs) ?_ ?_ ?_ (fun r hrq => ?_) rfl rfl rfl
  · unfold Kernel.place
    rw [setProc_same]
    exact congrArg some hsq
  · rw [setProc_same]
    exact fun _ => hs
  · show ((Lists.set a.queuetab ((a.setCount s _).semtab s).squeue
      (a.queuetab.on ((a.setCount s _).semtab s).squeue ++ [a.currpid])).on _).Perm _
    rw [hsq, Lists.set_on_same]
    exact List.perm_append_singleton _ _
  · show (Lists.set _ ((a.setCount s _).semtab s).squeue _).on _ = _
    rw [hsq, Lists.set_on_of_ne _ hrq]
    rfl

theorem Agree.enterSleep (h : Agree a) {st : PrState} {d : Int} (hr : Runs a)
    (hst : st = .sleep ∨ st = .rectim) : Agree (a.enterSleep st d) := by
  refine ((h.lift hr.place).setState st).land hr.1 isQueue_sleepq ?_ ?_ (insertd_perm _ _ _ _)
    (fun r hrq => ?_) rfl rfl rfl
  · unfold Kernel.place
    rw [Kernel.setState, setProc_same]
    rcases hst with rfl | rfl <;> rfl
  · rw [Kernel.setState, setProc_same]
    rcases hst with rfl | rfl <;> simp
  · show ((a.queuetab.insertd a.currpid sleepq d).on r) = a.queuetab.on r
    simp only [Lists.insertd, Lists.addHead_on]
    rw [Lists.set_on_of_ne _ hrq]
    rfl

theorem Agree.deposit (h : Agree a) {p m : Int} (hp : IsPid p) : Agree (a.deposit p m) := by
  have h0 : Agree (a.setProc p fun e => { e with prmsg := m, prhasmsg := true }) :=
    h.touch (by intro; rfl) (by intro; rfl) fun _ => id
  have h1 : Agree ((a.setProc p fun e => { e with prmsg := m, prhasmsg := true }).log (.sent p m)) :=
    h0.log _
  unfold Kernel.deposit
  cases hst : (a.proctab p).prstate with
  | recv =>
    refine (h1.lift ?_).makeReady hp
    simp [Kernel.place, Kernel.log, setProc_same, hst]
  | rectim => exact (h1.leaveSleep p).makeReady hp
  | _ => exact h1

theorem Agree.collect (h : Agree a) : Agree a.collect := by
  have h0 : Agree (a.setProc a.currpid fun e => { e with prhasmsg := false }) :=
    h.touch (by intro; rfl) (by intro; rfl) fun _ => id
  exact h0.log _

theorem Agree.wake (h : Agree a) {p : Int} {l : List Int} (hon : a.queuetab.on sleepq = p :: l) :
    Agree (a.wake p) := by
  have hp := mem_on_pid h isQueue_sleepq (show p ∈ _ by rw [hon]; simp)
  exact ((h.remove p).log _).makeReady hp.1

theorem Agree.wakeDue : ∀ (n : Nat) {a : AKernel}, Agree a → Agree (a.wakeDue n)
  | 0, _, h => h
  | n + 1, a, h => by
    unfold Kernel.wakeDue
    split
    · exact h
    · rename_i p l hon
      split
      · exact Agree.wakeDue n (h.wake hon)
      · exact h

/-- **Every act preserves agreement** of queues and process states. -/
theorem Act.agree (hact : Act G a b) (h : Agree a) : Agree b := by
  cases hact with
  | tidy ht =>
    exact h.congr (by rw [ht.queuetab]) ht.proctab (fun s => by rw [ht.semtab]) ht.currpid
  | requeue hr => exact (h.lift hr.place).makeReady hr.1
  | @switchTo p l hne hon =>
    have hp := mem_on_pid h isQueue_readylist (show p ∈ _ by rw [hon]; simp)
    have h1 := h.remove p
    -- no other process is current
    have hcur : ∀ x, IsPid x → (a.proctab x).prstate ≠ .curr := by
      intro x hx hst
      exact hne (h.curr x hx hx.ne_empty hst ▸ hst)
    have h2 : AgreeBut p { a.onLists (·.remove p) with currpid := p } :=
      ⟨h1.placed, h1.off, h1.nodup, h1.squeue, h1.waits,
        fun x hx _ hst => absurd hst (hcur x hx), h1.prio⟩
    exact ((h2.setState .curr).settle (place_setState _ _ (by simp)) fun _ => rfl).congr rfl rfl
      (fun _ => rfl) rfl
  | lost hne hon =>
    exact ⟨h.placed, h.off, h.nodup, h.squeue, h.waits,
      fun x hx hxe hst => absurd (h.curr x hx hxe hst ▸ hst) hne, h.prio⟩
  | enterWait _ hr hs _ _ => exact h.enterWait hr hs
  | enterRecv _ hr _ _ =>
    exact (((h.lift hr.place).setState .recv).settle (place_setState _ _ (by simp))
      fun hst => rfl).congr rfl rfl (fun _ => rfl) rfl
  | enterSleep _ hr => exact h.enterSleep hr (Or.inl rfl)
  | enterRectim _ hr _ _ =>
    exact (h.enterSleep hr (Or.inr rfl)).congr rfl rfl (fun _ => rfl) rfl
  | enterSusp hr _ =>
    exact ((h.lift hr.place).setState .susp).settle (place_setState _ _ (by simp)) fun hst => rfl
  | @suspend p hp _ _ =>
    refine ((h.remove p).setState .susp).settle
      (place_setState _ _ (by simp)) fun hst => ?_
    rw [Kernel.setState, setProc_same] at hst
    simp at hst
  | resume hp hst => exact (h.lift (by simp [Kernel.place, hst])).makeReady hp
  | tick _ => exact Agree.wakeDue _ (h.congr (Lists.addHead_on _ _ _) rfl (fun _ => rfl) rfl)
  | deposit hp _ _ => exact h.deposit hp
  | collect _ _ _ => exact h.collect
  | receiveRest _ _ => exact (show Agree a.pop from h.congr rfl rfl (fun _ => rfl) rfl).collect
  | recvtimeRest _ _ => exact h.congr rfl rfl (fun _ => rfl) rfl
  | @countDown s _ _ _ => exact h.congr rfl rfl (fun r => setCount_squeue a s _ r) rfl
  | @unit s hs _ =>
    have h1 : Agree ((a.setCount s (int32 ((a.semtab s).scount + 1))).log (.signalled s)) :=
      h.congr rfl rfl (fun r => setCount_squeue a s _ r) rfl
    unfold Kernel.unit
    split
    · exact h1.releaseFirst hs _
    · exact h1
  | @semcreate s c _ _ _ =>
    exact h.congr rfl rfl (fun r =>
      @setSem_squeue a s r (fun e => { e with sstate := .used, scount := c }) fun _ => rfl) rfl
  | @semreset s c hs _ _ =>
    exact (h.drain hs).congr rfl rfl (fun r => setCount_squeue (a.drain s _) s c r) rfl
  | @semdelete s c hs _ _ =>
    exact (h.drain hs).congr rfl rfl (fun r =>
      @setSem_squeue (a.drain s _) s r (fun e => { e with sstate := .free, scount := c })
        fun _ => rfl) rfl
  | chprio _ hp hv => exact h.touch (fun _ => rfl) (fun _ => rfl) fun _ _ => hv
  | @create p prio saddr ssize m hp hfree _ hprio _ _ _ =>
    have h1 : AgreeBut p (a.birth p prio saddr ssize m) :=
      (h.lift (by simp [Kernel.place, hfree])).change rfl (fun y hx => by rw [Kernel.birth_proctab, Function.update_of_ne hx])
        (fun _ => rfl) rfl fun _ => by
          rw [Kernel.birth_proctab, Function.update_self]
          exact hprio
    have hst : ((a.birth p prio saddr ssize m).proctab p).prstate = .susp := by
      rw [Kernel.birth_proctab, Function.update_self]
    refine h1.settle ?_ fun hcur => ?_
    · unfold Kernel.place
      rw [hst]
    · rw [hst] at hcur
      simp at hcur
  | killBegin _ _ _ _ _ _ => exact h.congr rfl rfl (fun _ => rfl) rfl
  | xdone _ _ _ => exact h.congr rfl rfl (fun _ => rfl) rfl
  | @killed p _ _ _ _ _ _ =>
    have h1 : Agree (a.pop.freeStk p) := h.congr rfl rfl (fun _ => rfl) rfl
    refine ((h1.leave p).setState .free).settle (place_setState _ _ (by simp)) fun hst => ?_
    rw [Kernel.setState, setProc_same] at hst
    simp at hst
  | @exit p _ _ _ _ _ hst =>
    have h1 : Agree (a.pop.freeStk p) := h.congr rfl rfl (fun _ => rfl) rfl
    have hplace : (a.pop.freeStk p).place p = none := by
      show a.place p = none
      simp [Kernel.place, hst]
    refine (((h1.lift hplace).setState .free).settle (place_setState _ _ (by simp))
      fun hst => ?_).congr rfl rfl (fun _ => rfl) rfl
    rw [Kernel.setState, setProc_same] at hst
    simp at hst

/-! ## Frames -/

/-- No dead process comes back to life and no frame that matters is added. -/
theorem FramesOk.mono (h : FramesOk a) (hfr : ∀ p, (b.vital p).Sublist (a.vital p))
    (hst : ∀ p, IsPid p → (a.proctab p).prstate = .free → (b.proctab p).prstate = .free) :
    FramesOk b where
  gone p hp hne y hy := h.gone p hp (fun hf => hne (hst p hp hf)) y ((hfr p).subset hy)
  victims p y c hy := h.victims p y c ((hfr p).subset hy)
  one p := (hfr p).length_le.trans (h.one p)

theorem FramesOk.same (h : FramesOk a) (hfr : b.frames = a.frames)
    (hst : ∀ p, IsPid p → (a.proctab p).prstate = .free → (b.proctab p).prstate = .free) :
    FramesOk b :=
  h.mono (fun p => by rw [Kernel.vital, hfr]; exact List.Sublist.refl _) hst

/-- An act on the entry of one live process leaves the dead dead. -/
theorem free_of_update {p : Int} {e : Procent} (hp : (a.proctab p).prstate ≠ .free)
    (hb : b.proctab = Function.update a.proctab p e) (y : Int)
    (hy : (a.proctab y).prstate = .free) : (b.proctab y).prstate = .free := by
  have hyp : y ≠ p := by
    rintro rfl
    exact hp hy
  rw [hb, Function.update_of_ne hyp]
  exact hy

/-- A process on a queue is alive. -/
theorem Agree.on_ne_free (h : Agree a) {q p : Int} {l : List Int} (hq : IsQueue q)
    (hon : a.queuetab.on q = p :: l) : (a.proctab p).prstate ≠ .free := by
  have hp := (mem_on_pid h hq (show p ∈ a.queuetab.on q by rw [hon]; simp)).2
  intro hf
  simp [Kernel.place, hf] at hp

theorem releaseFirst_free (h : Agree a) {s : Int} (hs : IsSem s) (e : Int → Event) (y : Int)
    (hy : (a.proctab y).prstate = .free) :
    ((a.releaseFirst s e).proctab y).prstate = .free := by
  unfold Kernel.releaseFirst
  cases hon : a.queuetab.on (a.semtab s).squeue with
  | nil => exact hy
  | cons p l =>
    have hq : IsQueue (a.semtab s).squeue := by
      rw [h.squeue]
      exact isQueue_semqueue hs
    exact free_of_update (h.on_ne_free hq hon) (Kernel.makeReady_proctab _ p) y hy

theorem drain_free {s : Int} (hs : IsSem s) (y : Int) :
    ∀ {n : Nat} {a : AKernel}, Agree a → (a.proctab y).prstate = .free →
      ((a.drain s n).proctab y).prstate = .free
  | 0, _, _, hy => hy
  | n + 1, _, h, hy =>
    @drain_free s hs y n _ (h.releaseFirst hs _) (releaseFirst_free h hs _ y hy)

theorem wake_free (h : Agree a) {p : Int} {l : List Int} (hon : a.queuetab.on sleepq = p :: l)
    (y : Int) (hy : (a.proctab y).prstate = .free) : ((a.wake p).proctab y).prstate = .free :=
  free_of_update (h.on_ne_free isQueue_sleepq hon) (Kernel.makeReady_proctab _ p) y hy

theorem wakeDue_free (y : Int) :
    ∀ (n : Nat) {a : AKernel}, Agree a → (a.proctab y).prstate = .free →
      ((a.wakeDue n).proctab y).prstate = .free
  | 0, _, _, hy => hy
  | n + 1, a, h, hy => by
    unfold Kernel.wakeDue
    split
    · exact hy
    · rename_i p l hon
      split
      · exact wakeDue_free y n (h.wake hon) (wake_free h hon y hy)
      · exact hy

theorem vital_pop (a : AKernel) (p : Int) : (a.pop.vital p).Sublist (a.vital p) := by
  unfold Kernel.vital
  by_cases hp : p = a.currpid
  · subst hp
    simp only [Kernel.pop, Function.update_self]
    exact (List.tail_sublist _).filter _
  · simp [Kernel.pop, hp]

theorem vital_push_of_ne (a : AKernel) {p : Int} (h : p ≠ a.currpid) (g : Frame) :
    (a.push g).vital p = a.vital p := by
  simp [Kernel.vital, Kernel.push, h]

/-- An idle process that enters a call that matters is in no other. -/
theorem vital_push_same (h : Idle a a.currpid) {g : Frame} (hg : g.Vital) :
    (a.push g).vital a.currpid = [g] := by
  unfold Idle Kernel.vital at h
  simp [Kernel.vital, Kernel.push, hg, h]

/-- When a call that matters is popped the process is idle. -/
theorem FramesOk.idle_pop (h : FramesOk a) {f : Frame} {fs : List Frame}
    (htop : a.frames a.currpid = f :: fs) (hf : f.Vital) : Idle a.pop a.currpid := by
  have hone := h.one a.currpid
  unfold Kernel.vital at hone
  rw [htop, List.filter_cons_of_pos (by simpa using hf), List.length_cons] at hone
  have hnil : fs.filter (fun f => f.Vital) = [] := List.length_eq_zero_iff.mp (by omega)
  simpa [Idle, Kernel.vital, Kernel.pop, htop] using hnil

theorem top_vital {f : Frame} {fs : List Frame} (htop : a.frames a.currpid = f :: fs)
    (hf : f.Vital) : f ∈ a.vital a.currpid := by
  unfold Kernel.vital
  rw [htop]
  simp [hf]

/-- An idle process enters a call that matters. -/
theorem FramesOk.push (h : FramesOk a) (hidle : Idle a a.currpid) {g : Frame} (hg : g.Vital)
    (hgone : ∀ x, g = .killUnsleep x → (a.proctab a.currpid).prstate = .free)
    (hv : ∀ x c, g = .killRest x c → IsPid x ∧ x ≠ NULLPROC) : FramesOk (a.push g) where
  gone p hp hne y hy := by
    by_cases hpc : p = a.currpid
    · subst hpc
      rw [vital_push_same hidle hg, List.mem_singleton] at hy
      exact hne (hgone y hy.symm)
    · rw [vital_push_of_ne a hpc] at hy
      exact h.gone p hp hne y hy
  victims p y c hy := by
    by_cases hpc : p = a.currpid
    · subst hpc
      rw [vital_push_same hidle hg, List.mem_singleton] at hy
      exact hv y c hy.symm
    · rw [vital_push_of_ne a hpc] at hy
      exact h.victims p y c hy
  one p := by
    by_cases hpc : p = a.currpid
    · subst hpc
      rw [vital_push_same hidle hg]
      simp
    · rw [vital_push_of_ne a hpc]
      exact h.one p

theorem Runs.ne_free (h : Runs a) : (a.proctab a.currpid).prstate ≠ .free := by
  rw [h.2]
  decide

/-- Every act preserves the shape of the frames. -/
theorem Act.frames (hact : Act G a b) (hag : Agree a) (h : FramesOk a) : FramesOk b := by
  cases hact with
  | tidy ht =>
    refine h.mono (fun p => by rw [ht.frames]) fun p _ hp => ?_
    rw [ht.proctab]
    exact hp
  | requeue hr => exact h.same rfl fun y _ => free_of_update hr.ne_free (a.makeReady_proctab _) y
  | @switchTo p l _ hon =>
    exact h.same rfl fun y _ =>
      free_of_update (hag.on_ne_free isQueue_readylist hon) (a.switchTo_proctab p) y
  | lost _ _ => exact h.same rfl fun _ _ hy => hy
  | enterWait _ hr _ _ _ =>
    exact h.same rfl fun y _ => free_of_update hr.ne_free (a.enterWait_proctab _) y
  | enterRecv _ hr hidle _ =>
    have h1 : FramesOk (a.setState a.currpid .recv) :=
      h.same rfl fun y _ => free_of_update hr.ne_free (a.setState_proctab _ _) y
    exact @FramesOk.push _ h1 hidle .receiveRest trivial (by simp) (by simp)
  | enterSleep _ hr =>
    exact h.same rfl fun y _ => free_of_update hr.ne_free (a.setState_proctab _ _) y
  | @enterRectim d _ hr hidle _ =>
    have h1 : FramesOk (a.enterSleep .rectim d) :=
      h.same rfl fun y _ => free_of_update hr.ne_free (a.setState_proctab _ _) y
    exact @FramesOk.push _ h1 hidle .recvtimeRest trivial (by simp) (by simp)
  | enterSusp hr _ =>
    exact h.same rfl fun y _ => free_of_update hr.ne_free (a.setState_proctab _ _) y
  | suspend _ _ hst =>
    exact h.same rfl fun y _ => free_of_update (by rw [hst]; decide) (a.setState_proctab _ _) y
  | resume _ hst =>
    exact h.same rfl fun y _ => free_of_update (by rw [hst]; decide) (a.makeReady_proctab _) y
  | tick _ =>
    have h1 : Agree ((a.log .ticked).onLists fun ls => ls.addHead (ls.on sleepq) (-1)) :=
      hag.congr (Lists.addHead_on _ _ _) rfl (fun _ => rfl) rfl
    exact h.same (Kernel.wakeDue_frames _ _) fun y _ hy => wakeDue_free y _ h1 hy
  | @deposit p m hp hne _ =>
    exact h.same (a.deposit_frames p m) fun y _ => free_of_update hne (a.deposit_proctab p m) y
  | collect hr _ _ => exact h.same rfl fun y _ => free_of_update hr.ne_free a.collect_proctab y
  | receiveRest hr _ =>
    exact h.mono (vital_pop a) fun y _ => free_of_update hr.ne_free a.collect_proctab y
  | recvtimeRest _ _ => exact h.mono (vital_pop a) fun _ _ hy => hy
  | countDown _ _ _ => exact h.same rfl fun _ _ hy => hy
  | @unit s hs _ =>
    have h1 : Agree ((a.setCount s (int32 ((a.semtab s).scount + 1))).log (.signalled s)) :=
      hag.congr rfl rfl (fun r => setCount_squeue a s _ r) rfl
    unfold Kernel.unit
    split
    · exact h.same (Kernel.releaseFirst_frames _ _ _) fun y _ hy => releaseFirst_free h1 hs _ y hy
    · exact h.same rfl fun _ _ hy => hy
  | semcreate _ _ _ => exact h.same rfl fun _ _ hy => hy
  | semreset hs _ _ => exact h.same (Kernel.drain_frames _ _ _) fun y _ hy => drain_free hs y hag hy
  | semdelete hs _ _ => exact h.same (Kernel.drain_frames _ _ _) fun y _ hy => drain_free hs y hag hy
  | @chprio p v _ _ _ =>
    refine h.same rfl fun y _ hy => ?_
    by_cases hyp : y = p
    · subst hyp
      rw [setProc_same]
      exact hy
    · rw [setProc_of_ne a hyp]
      exact hy
  | @create p prio saddr ssize m hp hfree _ _ _ _ _ =>
    -- the slot starts again with no frames
    have hfr : ∀ y, y ≠ p → (a.birth p prio saddr ssize m).vital y = a.vital y := by
      intro y hy
      simp [Kernel.vital, Kernel.birth, Kernel.log, Kernel.setProc, hy]
    have hnew : (a.birth p prio saddr ssize m).vital p = [] := by
      simp [Kernel.vital, Kernel.birth, Kernel.log]
    have hmem : ∀ y f, f ∈ (a.birth p prio saddr ssize m).vital y → y ≠ p ∧ f ∈ a.vital y := by
      intro y f hf
      by_cases hy : y = p
      · rw [hy, hnew] at hf
        simp at hf
      · exact ⟨hy, hfr y hy ▸ hf⟩
    refine ⟨fun y hy hne z hz => ?_, fun y z c hz => h.victims y z c (hmem y _ hz).2, fun y => ?_⟩
    · obtain ⟨hyp, hz⟩ := hmem y _ hz
      rw [Kernel.birth_proctab, Function.update_of_ne hyp] at hne
      exact h.gone y hy hne z hz
    · by_cases hy : y = p
      · rw [hy, hnew]
        simp
      · rw [hfr y hy]
        exact h.one y
  | @killBegin p _ _ hidle hp hne _ =>
    have h1 : FramesOk { a with prcount := a.prcount - 1 } := h.same rfl fun y _ hy => hy
    refine @FramesOk.push _ h1 hidle (.killRest p (a.births p)) trivial (by simp) fun x c hx => ?_
    cases hx
    exact ⟨hp, hne⟩
  | xdone _ _ _ => exact h.same rfl fun _ _ hy => hy
  | @killed p c fs _ _ _ _ =>
    refine h.mono (fun y => ?_) fun y _ hy => ?_
    · show (List.filter _ ((a.killed p).frames y)).Sublist _
      rw [Kernel.killed_frames]
      exact vital_pop a y
    · rw [Kernel.killed_proctab]
      by_cases hyp : y = p
      · rw [hyp, Function.update_self]
      · rw [Function.update_of_ne hyp]
        exact hy
  | @exit p c fs _ hr htop hst =>
    have hp := (h.victims a.currpid p c (top_vital htop trivial)).1
    have hpc := hag.curr p hp hp.ne_empty hst
    subst hpc
    have h1 : FramesOk ((a.pop.freeStk a.currpid).setState a.currpid .free) := by
      refine h.mono (vital_pop a) fun y _ hy => ?_
      rw [Kernel.setState_proctab]
      by_cases hyc : y = a.currpid
      · rw [hyc, Function.update_self]
      · rw [Function.update_of_ne hyc]
        exact hy
    refine @FramesOk.push _ h1 (h.idle_pop htop trivial) (.killUnsleep a.currpid) trivial
      (fun x _ => ?_) (by simp)
    show (((a.pop.freeStk a.currpid).setState a.currpid .free).proctab a.currpid).prstate = .free
    rw [Kernel.setState, setProc_same]

end Xinu
