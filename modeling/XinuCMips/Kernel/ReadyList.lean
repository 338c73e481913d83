import XinuCMips.Kernel.Runs

/-!
# The ready list

What an act does to the ready list: processes leave it, or one that is off it
becomes ready. An act that changes no priority does nothing else to it
(`Act.readyMoves`), so whatever these two moves preserve every such act does.
One property that they preserve is the order by priority (`Ranked`), and where
it holds a `resched` finds the process to run (`Resched.settled`).
-/

namespace Xinu

open DoubleLinks

/-! ## Order of insertion -/

/-- When a process was last put on the ready list. -/
def stamp : List Event → Int → Nat
  | [], _ => 0
  | e :: trace, p => if e = .readied p then trace.length + 1 else stamp trace p

theorem stamp_le (p : Int) : ∀ tr, stamp tr p ≤ tr.length
  | [] => le_refl _
  | e :: tr => by
    have ih := stamp_le p tr
    unfold stamp
    split <;> simp only [List.length_cons] <;> omega

theorem stamp_cons_of_ne {e : Event} {tr : List Event} {p : Int} (h : e ≠ .readied p) :
    stamp (e :: tr) p = stamp tr p := if_neg h

theorem stamp_readied (tr : List Event) (p : Int) : stamp (.readied p :: tr) p = tr.length + 1 :=
  if_pos rfl

/-- Insertion past all keys that are at least as large keeps a descending
list descending. -/
theorem pairwise_insertDesc {R : Int → Int → Prop} {key : Int → Int} {k p : Int} {l : List Int}
    (h : l.Pairwise R) (hdesc : ∀ x ∈ l, ∀ y ∈ l, R x y → key y ≤ key x)
    (hbefore : ∀ x ∈ l, k ≤ key x → R x p) (hafter : ∀ x ∈ l, key x < k → R p x) :
    (insertDesc key k p l).Pairwise R := by
  induction l with
  | nil => simp [insertDesc]
  | cons a l ih =>
    rw [List.pairwise_cons] at h
    have hcons : insertDesc key k p (a :: l) =
        if k ≤ key a then a :: insertDesc key k p l else p :: a :: l := by
      unfold insertDesc
      by_cases hka : k ≤ key a <;> simp [hka]
    rw [hcons]
    by_cases hka : k ≤ key a
    · rw [if_pos hka, List.pairwise_cons]
      refine ⟨fun x hx => ?_, ih h.2 (fun x hx y hy => hdesc x (by simp [hx]) y (by simp [hy]))
        (fun x hx => hbefore x (by simp [hx])) fun x hx => hafter x (by simp [hx])⟩
      rcases List.mem_cons.mp ((insertDesc_perm key k p l).mem_iff.mp hx) with rfl | hxl
      · exact hbefore a (by simp) hka
      · exact h.1 x hxl
    · rw [if_neg hka, List.pairwise_cons]
      refine ⟨fun x hx => ?_, List.pairwise_cons.mpr h⟩
      rcases List.mem_cons.mp hx with rfl | hxl
      · exact hafter x (by simp) (not_le.mp hka)
      · have := hdesc a (by simp) x hx (h.1 x hxl)
        exact hafter x (by simp [hxl]) (by omega)

/-- How the ready list of `o` has become that of another state. -/
inductive ReadyMoves (o : AKernel) : AKernel → Prop
  | refl : ReadyMoves o o
  /-- Nothing joins the list, and for those that stay nothing changes. -/
  | shrink {a b : AKernel} (h : ReadyMoves o a)
      (hsub : (b.queuetab.on readylist).Sublist (a.queuetab.on readylist))
      (hsame : ∀ p ∈ b.queuetab.on readylist, b.queuetab.key p = a.queuetab.key p ∧
        (b.proctab p).prprio = (a.proctab p).prprio ∧ stamp b.trace p = stamp a.trace p) :
      ReadyMoves o b
  /-- A process off the list becomes ready. -/
  | makeReady {a : AKernel} {p : Int} (h : ReadyMoves o a) (hoff : p ∉ a.queuetab.on readylist) :
      ReadyMoves o (a.makeReady p)

variable {G : Guard} {o a b c : AKernel}

/-! ## The ready list after a process has joined it -/

theorem makeReady_on (a : AKernel) (p : Int) : (a.makeReady p).queuetab.on readylist =
    insertDesc a.queuetab.key (a.proctab p).prprio p (a.queuetab.on readylist) := by
  show (a.queuetab.insert p readylist _).on readylist = _
  rw [Lists.insert, Lists.set_on_same]

theorem mem_makeReady {a : AKernel} {p x : Int} :
    x ∈ (a.makeReady p).queuetab.on readylist ↔ x = p ∨ x ∈ a.queuetab.on readylist := by
  rw [makeReady_on, (insertDesc_perm ..).mem_iff, List.mem_cons]

theorem makeReady_key (a : AKernel) (p x : Int) : (a.makeReady p).queuetab.key x =
    if x = p then (a.proctab p).prprio else a.queuetab.key x := by
  show (a.queuetab.setKey p _).key x = _
  by_cases hx : x = p
  · subst hx
    rw [Lists.setKey_key_same, if_pos rfl]
  · rw [Lists.setKey_key_of_ne _ hx, if_neg hx]

theorem makeReady_prio (a : AKernel) (p x : Int) :
    ((a.makeReady p).proctab x).prprio = (a.proctab x).prprio := by
  rw [Kernel.makeReady_proctab]
  by_cases hx : x = p
  · rw [hx, Function.update_self]
  · rw [Function.update_of_ne hx]

theorem switchTo_prio (a : AKernel) (p x : Int) :
    ((a.switchTo p).proctab x).prprio = (a.proctab x).prprio := by
  rw [Kernel.switchTo_proctab]
  by_cases hx : x = p
  · rw [hx, Function.update_self]
  · rw [Function.update_of_ne hx]

/-! ## Moves -/

/-- Nothing that the order depends on is touched. -/
theorem ReadyMoves.congr (h : ReadyMoves o a) (hq : b.queuetab.on readylist = a.queuetab.on readylist)
    (hkey : ∀ p ∈ a.queuetab.on readylist, b.queuetab.key p = a.queuetab.key p)
    (hprio : ∀ p ∈ a.queuetab.on readylist, (b.proctab p).prprio = (a.proctab p).prprio)
    (htr : ∀ p ∈ a.queuetab.on readylist, stamp b.trace p = stamp a.trace p) : ReadyMoves o b :=
  h.shrink (by rw [hq]) fun p hp => by
    rw [hq] at hp
    exact ⟨hkey p hp, hprio p hp, htr p hp⟩

theorem ReadyMoves.log (h : ReadyMoves o a) {e : Event} (he : ∀ p, e ≠ .readied p) :
    ReadyMoves o (a.log e) :=
  h.congr rfl (fun _ _ => rfl) (fun _ _ => rfl) fun p _ => stamp_cons_of_ne (he p)

theorem ReadyMoves.remove (h : ReadyMoves o a) (p : Int) : ReadyMoves o (a.onLists (·.remove p)) :=
  h.shrink List.erase_sublist fun _ _ => ⟨rfl, rfl, rfl⟩

/-- A process may change as long as its priority does not. -/
theorem ReadyMoves.setProc (h : ReadyMoves o a) (p : Int) {f : Procent → Procent}
    (hf : ∀ e, (f e).prprio = e.prprio) : ReadyMoves o (a.setProc p f) :=
  h.congr rfl (fun _ _ => rfl) (fun x _ => by
    by_cases hx : x = p
    · subst hx
      rw [setProc_same, hf]
    · rw [setProc_of_ne a hx]) fun _ _ => rfl

theorem ReadyMoves.setState (h : ReadyMoves o a) (p : Int) (st : PrState) :
    ReadyMoves o (a.setState p st) :=
  @ReadyMoves.setProc _ _ h p (fun e => { e with prstate := st }) fun _ => rfl

theorem ReadyMoves.collect (h : ReadyMoves o a) : ReadyMoves o a.collect := by
  have h1 : ReadyMoves o (a.setProc a.currpid fun e => { e with prhasmsg := false }) :=
    h.setProc a.currpid fun _ => rfl
  exact h1.congr rfl (fun _ _ => rfl) (fun _ _ => rfl) fun _ _ => stamp_cons_of_ne (by simp)

/-- A process is on one queue only. -/
theorem Agree.apart (h : Agree a) {q r x : Int} (hq : IsQueue q) (hr : IsQueue r)
    (hx : x ∈ a.queuetab.on q) (hx' : x ∈ a.queuetab.on r) : q = r := by
  have h1 := (mem_on_pid h hq hx).2
  rw [(mem_on_pid h hr hx').2] at h1
  exact (Option.some.inj h1).symm

/-- Delays are keys of other processes. -/
theorem ReadyMoves.addHead (h : ReadyMoves o a) {post : List Int} (v : Int)
    (hpost : ∀ x ∈ post, x ∉ a.queuetab.on readylist) :
    ReadyMoves o (a.onLists (·.addHead post v)) := by
  refine h.congr (by rw [Kernel.onLists, Lists.addHead_on]) (fun p hp => ?_) (fun _ _ => rfl)
    fun _ _ => rfl
  cases post with
  | nil => rfl
  | cons x l =>
    have hne : p ≠ x := by
      rintro rfl
      exact hpost p (by simp) hp
    exact Lists.setKey_key_of_ne _ hne _

theorem mem_after {x p : Int} : ∀ {l : List Int}, x ∈ after p l → x ∈ l
  | [], h => h
  | y :: l, h => by
    unfold after at h
    split at h
    · exact List.mem_cons_of_mem _ h
    · exact List.mem_cons_of_mem _ (mem_after h)

theorem not_ready_of_asleep (h : Agree a) {x : Int} (hx : x ∈ a.queuetab.on sleepq) :
    x ∉ a.queuetab.on readylist := fun hx' =>
  readylist_ne_sleepq (h.apart isQueue_readylist isQueue_sleepq hx' hx)

theorem ReadyMoves.leaveSleep (h : ReadyMoves o a) (hag : Agree a) (p : Int) :
    ReadyMoves o (a.leaveSleep p) :=
  ((h.addHead _ fun _ hx => not_ready_of_asleep hag (mem_after hx)).remove p).log (by simp)

theorem ReadyMoves.enterSleep (h : ReadyMoves o a) (hag : Agree a) (hr : Runs a) (st : PrState)
    (d : Int) : ReadyMoves o (a.enterSleep st d) := by
  have hcur : a.currpid ∉ a.queuetab.on readylist := (hag.lift hr.place).off _ isQueue_readylist
  set r := splitDelta a.queuetab.key d (a.queuetab.on sleepq) with hr'
  have h1 : ReadyMoves o (a.onLists fun ls => (ls.setKey a.currpid r.1).set sleepq
      (r.2.1 ++ a.currpid :: r.2.2)) := by
    refine h.congr (Lists.set_on_of_ne _ readylist_ne_sleepq _) (fun p hp => ?_) (fun _ _ => rfl)
      fun _ _ => rfl
    have hpc : p ≠ a.currpid := by
      rintro rfl
      exact hcur hp
    exact Lists.setKey_key_of_ne _ hpc _
  have hpost : ∀ x ∈ r.2.2, x ∉ a.queuetab.on readylist := fun x hx => by
    refine not_ready_of_asleep hag ?_
    rw [← splitDelta_append a.queuetab.key d (a.queuetab.on sleepq)]
    exact List.mem_append_right _ hx
  have h2 : ReadyMoves o (a.onLists (·.insertd a.currpid sleepq d)) :=
    @ReadyMoves.addHead _ _ h1 r.2.2 (-r.1) fun x hx hmem => hpost x hx (by
      rwa [Kernel.onLists, Lists.set_on_of_ne _ readylist_ne_sleepq] at hmem)
  have h3 : ReadyMoves o ((a.onLists (·.insertd a.currpid sleepq d)).log (.slept a.currpid d)) :=
    h2.log (by simp)
  exact h3.setState a.currpid st

theorem ReadyMoves.enterWait (h : ReadyMoves o a) (hag : Agree a) {s : Int} (hs : IsSem s) :
    ReadyMoves o (a.enterWait s) := by
  have hsq : ((a.setCount s (int32 ((a.semtab s).scount - 1))).semtab s).squeue = semqueue s := by
    rw [setCount_squeue]
    exact hag.squeue s
  have h1 : ReadyMoves o ((a.setCount s (int32 ((a.semtab s).scount - 1))).setProc a.currpid
      fun e => { e with prstate := .wait, prsem := s }) := by
    have h0 : ReadyMoves o (a.setCount s (int32 ((a.semtab s).scount - 1))) :=
      h.congr rfl (fun _ _ => rfl) (fun _ _ => rfl) fun _ _ => rfl
    exact @ReadyMoves.setProc _ _ h0 a.currpid
      (fun e => { e with prstate := .wait, prsem := s }) fun _ => rfl
  refine h1.congr ?_ (fun _ _ => rfl) (fun _ _ => rfl) fun _ _ => stamp_cons_of_ne (by simp)
  show (Lists.set _ ((a.setCount s _).semtab s).squeue _).on readylist = _
  rw [hsq, Lists.set_on_of_ne _ (semqueue_ne_readylist hs).symm]
  rfl


/-- A process on another queue becomes ready. -/
theorem ReadyMoves.moveToReady (h : ReadyMoves o a) (hag : Agree a) (p : Int) {e : Event}
    (he : ∀ p, e ≠ .readied p) : ReadyMoves o (((a.onLists (·.remove p)).log e).makeReady p) :=
  ((h.remove p).log he).makeReady ((hag.remove p).off _ isQueue_readylist)

theorem ReadyMoves.releaseFirst (h : ReadyMoves o a) (hag : Agree a) (s : Int) {e : Int → Event}
    (he : ∀ x p, e x ≠ .readied p) : ReadyMoves o (a.releaseFirst s e) := by
  unfold Kernel.releaseFirst
  split
  · exact h.log (he _)
  · exact h.moveToReady hag _ (he _)

theorem ReadyMoves.drain {s : Int} (hs : IsSem s) :
    ∀ (n : Nat) {a : AKernel}, ReadyMoves o a → Agree a → ReadyMoves o (a.drain s n)
  | 0, _, h, _ => h
  | n + 1, _, h, hag =>
    ReadyMoves.drain hs n (h.releaseFirst hag s (by simp)) (hag.releaseFirst hs _)

theorem ReadyMoves.wakeDue :
    ∀ (n : Nat) {a : AKernel}, ReadyMoves o a → Agree a → ReadyMoves o (a.wakeDue n)
  | 0, _, h, _ => h
  | n + 1, a, h, hag => by
    unfold Kernel.wakeDue
    split
    · exact h
    · rename_i p l hon
      split
      · exact ReadyMoves.wakeDue n (h.moveToReady hag p (by simp)) (hag.wake hon)
      · exact h

theorem ReadyMoves.leave (h : ReadyMoves o a) (hag : Agree a) (p : Int) : ReadyMoves o (a.leave p) := by
  unfold Kernel.leave
  split
  · exact h.remove p
  · exact h.leaveSleep hag p
  · exact h.leaveSleep hag p
  · have h1 : ReadyMoves o (a.setCount (a.proctab p).prsem
        (int32 ((a.semtab (a.proctab p).prsem).scount + 1))) :=
      h.congr rfl (fun _ _ => rfl) (fun _ _ => rfl) fun _ _ => rfl
    exact (h1.remove p).log (by simp)
  · exact h

theorem ReadyMoves.deposit (h : ReadyMoves o a) (hag : Agree a) (p m : Int) :
    ReadyMoves o (a.deposit p m) := by
  have hset : ReadyMoves o (a.setProc p fun e => { e with prmsg := m, prhasmsg := true }) :=
    h.setProc p fun _ => rfl
  have hset' : Agree (a.setProc p fun e => { e with prmsg := m, prhasmsg := true }) :=
    hag.touch (fun _ => rfl) (fun _ => rfl) fun _ => id
  have h1 : ReadyMoves o ((a.setProc p fun e => { e with prmsg := m, prhasmsg := true }).log
      (.sent p m)) := hset.log (by simp)
  have hag1 : Agree ((a.setProc p fun e => { e with prmsg := m, prhasmsg := true }).log
      (.sent p m)) := hset'.log _
  unfold Kernel.deposit
  cases hst : (a.proctab p).prstate with
  | recv =>
    refine h1.makeReady ((hag1.lift ?_).off _ isQueue_readylist)
    simp [Kernel.place, Kernel.log, setProc_same, hst]
  | rectim =>
    exact (h1.leaveSleep hag1 p).makeReady ((hag1.leaveSleep p).off _ isQueue_readylist)
  | _ => exact h1

/-- Every act keeps the ready list in order. -/
theorem Act.readyMoves (hG : ∀ a p, ¬ G a (.chprio p)) (hact : Act G a b) (hb : Base a)
    (h : ReadyMoves o a) : ReadyMoves o b := by
  have hag := hb.agree
  cases hact with
  | tidy ht =>
    exact h.congr (by rw [ht.queuetab]) (fun _ _ => by rw [ht.queuetab])
      (fun _ _ => by rw [ht.proctab]) fun _ _ => by rw [ht.trace]
  | requeue hr => exact h.makeReady ((hag.lift hr.place).off _ isQueue_readylist)
  | @switchTo p l _ _ =>
    have h1 : ReadyMoves o { a.onLists (·.remove p) with currpid := p } :=
      (h.remove p).congr rfl (fun _ _ => rfl) (fun _ _ => rfl) fun _ _ => rfl
    exact (h1.setState p .curr).congr rfl (fun _ _ => rfl) (fun _ _ => rfl) fun _ _ => rfl
  | lost _ _ => exact h.congr rfl (fun _ _ => rfl) (fun _ _ => rfl) fun _ _ => rfl
  | enterWait _ _ hs _ _ => exact h.enterWait hag hs
  | enterRecv _ _ _ _ =>
    exact (h.setState a.currpid .recv).congr rfl (fun _ _ => rfl) (fun _ _ => rfl) fun _ _ => rfl
  | enterSleep _ hr => exact h.enterSleep hag hr _ _
  | enterRectim _ hr _ _ =>
    exact (h.enterSleep hag hr _ _).congr rfl (fun _ _ => rfl) (fun _ _ => rfl) fun _ _ => rfl
  | enterSusp _ _ => exact h.setState _ _
  | suspend _ _ _ => exact (h.remove _).setState _ _
  | resume hp hst =>
    exact h.makeReady ((hag.lift (by simp [Kernel.place, hst])).off _ isQueue_readylist)
  | tick _ =>
    have hl : ReadyMoves o (a.log .ticked) := h.log (by simp)
    have h1 : ReadyMoves o ((a.log .ticked).onLists fun ls => ls.addHead (ls.on sleepq) (-1)) :=
      hl.addHead (-1) fun _ hx => not_ready_of_asleep hag hx
    exact ReadyMoves.wakeDue _ h1 (hag.congr (Lists.addHead_on _ _ _) rfl (fun _ => rfl) rfl)
  | deposit _ _ _ => exact h.deposit hag _ _
  | collect _ _ _ => exact h.collect
  | receiveRest _ _ =>
    have h1 : ReadyMoves o a.pop := h.congr rfl (fun _ _ => rfl) (fun _ _ => rfl) fun _ _ => rfl
    exact h1.collect
  | recvtimeRest _ _ => exact h.congr rfl (fun _ _ => rfl) (fun _ _ => rfl) fun _ _ => rfl
  | countDown _ _ _ =>
    exact h.congr rfl (fun _ _ => rfl) (fun _ _ => rfl) fun _ _ => stamp_cons_of_ne (by simp)
  | @unit s _ _ =>
    have h1 : ReadyMoves o ((a.setCount s (int32 ((a.semtab s).scount + 1))).log (.signalled s)) :=
      h.congr rfl (fun _ _ => rfl) (fun _ _ => rfl) fun _ _ => stamp_cons_of_ne (by simp)
    have hag1 : Agree ((a.setCount s (int32 ((a.semtab s).scount + 1))).log (.signalled s)) :=
      hag.congr rfl rfl (fun r => setCount_squeue a s _ r) rfl
    unfold Kernel.unit
    split
    · exact h1.releaseFirst hag1 s (by simp)
    · exact h1
  | semcreate _ _ _ =>
    exact h.congr rfl (fun _ _ => rfl) (fun _ _ => rfl) fun _ _ => stamp_cons_of_ne (by simp)
  | semreset hs _ _ =>
    exact (h.drain hs _ hag).congr rfl (fun _ _ => rfl) (fun _ _ => rfl)
      fun _ _ => stamp_cons_of_ne (by simp)
  | semdelete hs _ _ =>
    exact (h.drain hs _ hag).congr rfl (fun _ _ => rfl) (fun _ _ => rfl)
      fun _ _ => stamp_cons_of_ne (by simp)
  | chprio hg _ _ => exact absurd hg (hG _ _)
  | @create p _ _ _ _ hp hfree _ _ _ _ _ =>
    -- the dead are not on the ready list
    have hoff := (hag.lift (show a.place p = none by simp [Kernel.place, hfree])).off _
      isQueue_readylist
    refine h.congr rfl (fun _ _ => rfl) (fun x hx => ?_) fun _ _ => stamp_cons_of_ne (by simp)
    have hxp : x ≠ p := by
      rintro rfl
      exact hoff hx
    rw [Kernel.birth_proctab, Function.update_of_ne hxp]
  | killBegin _ _ _ _ _ _ => exact h.congr rfl (fun _ _ => rfl) (fun _ _ => rfl) fun _ _ => rfl
  | xdone _ _ _ => exact h.congr rfl (fun _ _ => rfl) (fun _ _ => rfl) fun _ _ => rfl
  | @killed p _ _ _ _ _ _ =>
    have h1 : ReadyMoves o (a.pop.freeStk p) :=
      h.congr rfl (fun _ _ => rfl) (fun _ _ => rfl) fun _ _ => stamp_cons_of_ne (by simp)
    have hag1 : Agree (a.pop.freeStk p) := hag.congr rfl rfl (fun _ => rfl) rfl
    exact (h1.leave hag1 p).setState p .free
  | @exit p _ _ _ _ _ _ =>
    have h1 : ReadyMoves o (a.pop.freeStk p) :=
      h.congr rfl (fun _ _ => rfl) (fun _ _ => rfl) fun _ _ => stamp_cons_of_ne (by simp)
    exact (h1.setState p .free).congr rfl (fun _ _ => rfl) (fun _ _ => rfl) fun _ _ => rfl

/-! ## Processes by rank -/

/-- The ready list is sorted by key and by priority. A priority may be one
above the key: what is inserted at the lower one comes after, at the higher
one before. -/
structure Ranked (a : AKernel) : Prop where
  close : ∀ p ∈ a.queuetab.on readylist,
    a.queuetab.key p ≤ (a.proctab p).prprio ∧ (a.proctab p).prprio ≤ a.queuetab.key p + 1
  sorted : (a.queuetab.on readylist).Pairwise fun x y =>
    a.queuetab.key y ≤ a.queuetab.key x ∧ (a.proctab y).prprio ≤ (a.proctab x).prprio

theorem Ranked.shrink (h : Ranked a)
    (hsub : (b.queuetab.on readylist).Sublist (a.queuetab.on readylist))
    (hsame : ∀ p ∈ b.queuetab.on readylist, b.queuetab.key p = a.queuetab.key p ∧
      (b.proctab p).prprio = (a.proctab p).prprio) : Ranked b where
  close p hp := by
    rw [(hsame p hp).1, (hsame p hp).2]
    exact h.close p (hsub.subset hp)
  sorted := (h.sorted.sublist hsub).imp_of_mem fun {x y} hx hy hxy => by
    rw [(hsame x hx).1, (hsame y hy).1, (hsame x hx).2, (hsame y hy).2]
    exact hxy

theorem Ranked.makeReady (h : Ranked a) {p : Int} (hoff : p ∉ a.queuetab.on readylist) :
    Ranked (a.makeReady p) := by
  have hmem : ∀ x ∈ a.queuetab.on readylist, x ≠ p := fun x hx hxp => hoff (hxp ▸ hx)
  have hkey : ∀ x ∈ a.queuetab.on readylist, (a.makeReady p).queuetab.key x = a.queuetab.key x :=
    fun x hx => by rw [makeReady_key, if_neg (hmem x hx)]
  have hkeyp : (a.makeReady p).queuetab.key p = (a.proctab p).prprio := by
    rw [makeReady_key, if_pos rfl]
  refine ⟨fun x hx => ?_, ?_⟩
  · rw [makeReady_prio]
    rcases mem_makeReady.mp hx with rfl | hxl
    · rw [hkeyp]
      omega
    · rw [hkey x hxl]
      exact h.close x hxl
  · rw [makeReady_on]
    have hold : (a.queuetab.on readylist).Pairwise fun x y =>
        (a.makeReady p).queuetab.key y ≤ (a.makeReady p).queuetab.key x ∧
          ((a.makeReady p).proctab y).prprio ≤ ((a.makeReady p).proctab x).prprio := by
      refine h.sorted.imp_of_mem fun {x y} hx hy hxy => ?_
      rw [hkey x hx, hkey y hy, makeReady_prio, makeReady_prio]
      exact hxy
    refine pairwise_insertDesc hold (fun x hx y hy hxy => ?_) (fun x hx hle => ?_) fun x hx hlt => ?_
    · rw [hkey x hx, hkey y hy] at hxy
      exact hxy.1
    · rw [hkey x hx, hkeyp, makeReady_prio, makeReady_prio]
      exact ⟨hle, hle.trans (h.close x hx).1⟩
    · rw [hkey x hx, hkeyp, makeReady_prio, makeReady_prio]
      have hx1 := (h.close x hx).2
      omega

theorem ReadyMoves.ranked (hm : ReadyMoves a b) (h : Ranked a) : Ranked b := by
  induction hm with
  | refl => exact h
  | shrink _ hsub hsame ih => exact ih.shrink hsub fun p hp => ⟨(hsame p hp).1, (hsame p hp).2.1⟩
  | makeReady _ hoff ih => exact ih.makeReady hoff

/-- The first ready process has the highest priority. -/
theorem Ranked.head_le (h : Ranked a) {p : Int} {l : List Int}
    (hon : a.queuetab.on readylist = p :: l) :
    ∀ x ∈ l, (a.proctab x).prprio ≤ (a.proctab p).prprio := by
  intro x hx
  have hs := h.sorted
  rw [hon, List.pairwise_cons] at hs
  exact (hs.1 x hx).2

/-- Switching to the first ready process settles the schedule. -/
theorem switchTo_settled (h : Ranked a) {p : Int} {l : List Int}
    (hon : a.queuetab.on readylist = p :: l) : Settled (a.switchTo p) := by
  refine Or.inr fun x hx => ?_
  rw [switchTo_prio, switchTo_prio]
  have hl : x ∈ l := by
    have hx' : x ∈ (a.queuetab.on readylist).erase p := hx
    rwa [hon, List.erase_cons_head] at hx'
  exact h.head_le hon x hl

/-- A `resched` settles the schedule. -/
theorem Resched.settled (h : Resched b c) (hs : Ranked b) (hb : Base b) : Settled c := by
  cases h with
  | defer hd _ => exact Or.inl ⟨hd, rfl⟩
  | keep _ hr hfirst =>
    refine Or.inr fun x hx => ?_
    cases hon : b.queuetab.on readylist with
    | nil =>
      rw [hon] at hx
      simp at hx
    | cons p l =>
      have hp : (b.proctab p).prprio ≤ (b.proctab b.currpid).prprio :=
        (hs.close p (by rw [hon]; simp)).2.trans (hfirst p l hon)
      rw [hon] at hx
      rcases List.mem_cons.mp hx with rfl | hxl
      · exact hp
      · exact (hs.head_le hon x hxl).trans hp
  | requeue _ hr hon =>
    exact switchTo_settled
      (hs.makeReady ((Agree.lift hb.agree hr.place).off _ isQueue_readylist)) hon
  | switch _ _ hon => exact switchTo_settled hs hon
  | lost _ hon =>
    refine Or.inr fun x hx => ?_
    rw [show b.lost.queuetab.on readylist = [] from hon] at hx
    simp at hx

end Xinu
