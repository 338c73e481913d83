import Mathlib.Data.List.Nodup
import XinuCMips.Lib.Follow
import XinuCMips.Ports.Device

/-!
# Semaphores and nodes of a port

The semaphore calls write the semaphore table and wake processes, and leave the
ports and the nodes alone. The message nodes of a port and the free nodes are two
lists without a node in common: a message sent moves a node from one to the other, a
message received or a reset moves it back.
-/

namespace Xinu.Ports

open Follow

variable {s s' s'' : PortTable} {sem x : Int} {port : Nat}

@[simp] theorem setSem_self (sem : Int) (f : Sem → Sem) (s : PortTable) :
    (s.setSem sem f).semtab sem = f (s.semtab sem) := Function.update_self _ _ _

@[simp] theorem setPort_self (port : Nat) (f : Ptentry → Ptentry) (s : PortTable) :
    (s.setPort port f).porttab port = f (s.porttab port) := Function.update_self _ _ _

-- ---------------------------------------------------------------------------
-- What a semaphore call changes
-- ---------------------------------------------------------------------------

/-- `s'` is `s` after calls on the semaphore `sem`. -/
structure OnSem (sem : Int) (s s' : PortTable) : Prop where
  only : s' = { s with semtab := s'.semtab, ready := s'.ready }
  others : ∀ x, x ≠ sem → s'.semtab x = s.semtab x
  used : ∀ x, (s'.semtab x).used = (s.semtab x).used

namespace OnSem

theorem refl (sem : Int) (s : PortTable) : OnSem sem s s := ⟨rfl, fun _ _ => rfl, fun _ => rfl⟩

theorem trans (h : OnSem sem s s') (h' : OnSem sem s' s'') : OnSem sem s s'' where
  only := by
    rw [h'.only, h.only]
  others x hx := (h'.others x hx).trans (h.others x hx)
  used x := (h'.used x).trans (h.used x)

theorem porttab (h : OnSem sem s s') : s'.porttab = s.porttab := by rw [h.only]

theorem calls (h : OnSem sem s s') : s'.calls = s.calls := by rw [h.only]

theorem nodes (h : OnSem sem s s') : s'.ptfree = s.ptfree ∧ s'.ptnext = s.ptnext := by
  rw [h.only]
  exact ⟨rfl, rfl⟩

theorem badSem (h : OnSem sem s s') (x : Int) : s'.badSem x ↔ s.badSem x := by
  unfold PortTable.badSem
  rw [h.used]

theorem setSem (f : Sem → Sem) (hf : ∀ e, (f e).used = e.used) (s : PortTable) :
    OnSem sem s (s.setSem sem f) where
  only := rfl
  others x hx := Function.update_of_ne hx _ _
  used x := by
    by_cases hx : x = sem
    · rw [hx]
      exact (congrArg Sem.used (Function.update_self _ _ _)).trans (hf _)
    · exact congrArg Sem.used (Function.update_of_ne hx _ _)

theorem setReady (s : PortTable) (ready : Pid → Bool) : OnSem sem s { s with ready := ready } :=
  ⟨rfl, fun _ _ => rfl, fun _ => rfl⟩

end OnSem

theorem releaseFirst_onSem (sem : Int) (s : PortTable) : OnSem sem s (s.releaseFirst sem) := by
  unfold PortTable.releaseFirst
  split
  · exact .refl sem s
  · next rest _ =>
    exact (OnSem.setSem (fun e => { e with squeue := rest }) (fun _ => rfl) s).trans (.setReady _ _)

theorem signal_onSem (sem : Int) (s : PortTable) : OnSem sem s (s.signal sem) := by
  unfold PortTable.signal
  by_cases hbad : s.badSem sem
  · rw [if_pos hbad]
    exact .refl sem s
  · rw [if_neg hbad]
    have hcount : OnSem sem s (s.setSem sem fun e => { e with scount := e.scount + 1 }) :=
      .setSem (fun e => { e with scount := e.scount + 1 }) (fun _ => rfl) s
    dsimp only
    split
    · exact hcount.trans (releaseFirst_onSem sem _)
    · exact hcount

theorem drain_onSem (sem : Int) (n : Nat) (s : PortTable) : OnSem sem s (s.drain sem n) := by
  induction n generalizing s with
  | zero => exact .refl sem s
  | succ n ih => exact (releaseFirst_onSem sem s).trans (ih _)

theorem semreset_onSem (sem count : Int) (s : PortTable) : OnSem sem s (s.semreset sem count) := by
  unfold PortTable.semreset
  split
  · exact .refl sem s
  · exact (drain_onSem sem _ s).trans
      (.setSem (fun e => { e with scount := count }) (fun _ => rfl) _)

theorem wait_onSem (pid : Pid) (sem : Int) (s : PortTable) : OnSem sem s (s.wait pid sem).2 := by
  unfold PortTable.wait
  by_cases hbad : s.badSem sem
  · rw [if_pos hbad]
    exact .refl sem s
  · rw [if_neg hbad]
    have hcount : OnSem sem s (s.setSem sem fun e => { e with scount := e.scount - 1 }) :=
      .setSem (fun e => { e with scount := e.scount - 1 }) (fun _ => rfl) s
    dsimp only
    split
    · exact hcount.trans ((OnSem.setSem (fun e => { e with squeue := e.squeue ++ [pid] })
        (fun _ => rfl) _).trans (.setReady _ _))
    · exact hcount

/-- A process that may go on is not stopped by a reset. -/
theorem semreset_ready {pid : Pid} (count : Int) (h : s.ready pid = true) :
    (s.semreset sem count).ready pid = true := by
  have hfirst : ∀ s : PortTable, s.ready pid = true → (s.releaseFirst sem).ready pid = true := by
    intro s h
    unfold PortTable.releaseFirst
    split
    · exact h
    · next p _ _ =>
      change Function.update s.ready p true pid = true
      rw [Function.update_apply]
      split
      · rfl
      · exact h
  have hdrain : ∀ (n : Nat) (s : PortTable), s.ready pid = true → (s.drain sem n).ready pid = true := by
    intro n
    induction n with
    | zero => exact fun _ h => h
    | succ n ih => exact fun s h => ih _ (hfirst s h)
  unfold PortTable.semreset
  split
  · exact h
  · exact hdrain _ s h

-- ---------------------------------------------------------------------------
-- New semaphores
-- ---------------------------------------------------------------------------

/-- Some semaphore is free. -/
def AnyFree (s : PortTable) : Prop := ∃ sem, ¬isbadsem sem ∧ (s.semtab sem).used = false

/-- `newsem` finds a free semaphore or changes only `nextsem`. -/
theorem newsem_cases (n : Nat) (s : PortTable) (hn : 0 ≤ s.nextsem ∧ s.nextsem < NSEM) :
    (∃ v, s.newsem n = (SYSERR, { s with nextsem := v }) ∧ (0 ≤ v ∧ v < NSEM) ∧
      ∀ j < n, (s.semtab ((s.nextsem + j) % NSEM)).used = true) ∨
    ∃ sem v, ¬isbadsem sem ∧ (s.semtab sem).used = false ∧ (0 ≤ v ∧ v < NSEM) ∧
      s.newsem n = (sem, ({ s with nextsem := v } : PortTable).setSem sem
        fun e => { e with used := true }) := by
  induction n generalizing s with
  | zero => exact .inl ⟨s.nextsem, rfl, hn, fun j hj => absurd hj (Nat.not_lt_zero j)⟩
  | succ n ih =>
    have hpos : (0 : Int) < NSEM := by decide
    have hnext : (if NSEM ≤ s.nextsem + 1 then 0 else s.nextsem + 1) = (s.nextsem + 1) % NSEM := by
      unfold NSEM at *
      split <;> omega
    have hrange : 0 ≤ (s.nextsem + 1) % NSEM ∧ (s.nextsem + 1) % NSEM < NSEM :=
      ⟨Int.emod_nonneg _ hpos.ne', Int.emod_lt_of_pos _ hpos⟩
    rw [PortTable.newsem]
    dsimp only
    rw [hnext]
    by_cases hused : (s.semtab s.nextsem).used = true
    · rw [if_pos hused]
      rcases ih { s with nextsem := (s.nextsem + 1) % NSEM } hrange with
        ⟨v, heq, hv, hall⟩ | ⟨sem, v, hsem, hfree, hv, heq⟩
      · refine .inl ⟨v, heq, hv, fun j hj => ?_⟩
        cases j with
        | zero => rwa [Nat.cast_zero, add_zero, Int.emod_eq_of_lt hn.1 hn.2]
        | succ j =>
          have hmod : ((s.nextsem + 1) % NSEM + j) % NSEM = (s.nextsem + (j + 1 : Nat)) % NSEM := by
            unfold NSEM
            omega
          rw [← hmod]
          exact hall j (Nat.lt_of_succ_lt_succ hj)
      · exact .inr ⟨sem, v, hsem, hfree, hv, heq⟩
    · rw [if_neg hused]
      exact .inr ⟨s.nextsem, _, not_or.mpr ⟨not_lt.mpr hn.1, not_le.mpr hn.2⟩,
        Bool.eq_false_iff.mpr hused, hrange, rfl⟩

/-- A semaphore is created exactly when one is free. -/
theorem semcreate_cases {count : Int} (hc : 0 ≤ count) (hn : 0 ≤ s.nextsem ∧ s.nextsem < NSEM) :
    (¬AnyFree s ∧ ∃ v, s.semcreate count = (SYSERR, { s with nextsem := v }) ∧ 0 ≤ v ∧ v < NSEM) ∨
    ∃ sem v, ¬isbadsem sem ∧ (s.semtab sem).used = false ∧ (0 ≤ v ∧ v < NSEM) ∧
      s.semcreate count = (sem, ({ s with nextsem := v } : PortTable).setSem sem
        fun e => { e with used := true, scount := count }) := by
  rw [PortTable.semcreate, if_neg (not_lt.mpr hc)]
  rcases newsem_cases NSEM.toNat s hn with ⟨v, heq, hv, hall⟩ | ⟨sem, v, hsem, hfree, hv, heq⟩
  · rw [heq]
    refine .inl ⟨fun ⟨sem, hsem, hfree⟩ => ?_, v, if_pos rfl, hv⟩
    obtain ⟨h0, h1⟩ := not_or.mp hsem
    -- the entry is one of those looked at
    have hpos : (0 : Int) < NSEM := by decide
    have hdist := Int.emod_nonneg (sem - s.nextsem) hpos.ne'
    have hless := Int.emod_lt_of_pos (sem - s.nextsem) hpos
    have hused := hall ((sem - s.nextsem) % NSEM).toNat (by omega)
    rw [Int.toNat_of_nonneg hdist, Int.add_emod_emod, add_sub_cancel,
      Int.emod_eq_of_lt (not_lt.mp h0) (not_le.mp h1), hfree] at hused
    cases hused
  · rw [heq]
    have hne : sem ≠ SYSERR := fun heq => hsem (.inl (heq ▸ by decide))
    refine .inr ⟨sem, v, hsem, hfree, hv, ?_⟩
    rw [if_neg hne]
    simp [PortTable.setSem]

-- ---------------------------------------------------------------------------
-- A reset semaphore
-- ---------------------------------------------------------------------------

/-- Nothing waits on the semaphore, and it has `count` units. -/
def Full (sem count : Int) (s : PortTable) : Prop :=
  (s.semtab sem).scount = count ∧ (s.semtab sem).squeue = []

theorem releaseFirst_squeue (sem : Int) (s : PortTable) :
    ((s.releaseFirst sem).semtab sem).squeue = (s.semtab sem).squeue.tail := by
  unfold PortTable.releaseFirst
  split
  · next h => rw [h]; rfl
  · next pid rest h =>
    rw [h]
    change ((s.setSem sem fun e => { e with squeue := rest }).semtab sem).squeue = rest
    rw [setSem_self]

theorem drain_squeue (sem : Int) (n : Nat) (s : PortTable) :
    ((s.drain sem n).semtab sem).squeue = (s.semtab sem).squeue.drop n := by
  induction n generalizing s with
  | zero => rfl
  | succ n ih =>
    rw [PortTable.drain, ih, releaseFirst_squeue, List.drop_tail]

theorem semreset_full {count : Int} (hc : 0 ≤ count) (h : ¬s.badSem sem) :
    Full sem count (s.semreset sem count) := by
  rw [PortTable.semreset, if_neg (by rintro (hneg | hbad); exacts [absurd hneg (not_lt.mpr hc), h hbad])]
  unfold Full
  rw [setSem_self]
  exact ⟨rfl, (drain_squeue sem _ s).trans List.drop_length⟩

theorem Full.onSem {count : Int} (h : Full x count s) (ho : OnSem sem s s') (hx : x ≠ sem) :
    Full x count s' := by
  unfold Full
  rw [ho.others x hx]
  exact h

-- ---------------------------------------------------------------------------
-- The nodes
-- ---------------------------------------------------------------------------

/-- `s'` is `s` with other messages in the port. -/
structure OnNodes (port : Nat) (s s' : PortTable) : Prop where
  only : s' = { s with
    porttab := Function.update s.porttab port { s.porttab port with
      pthead := (s'.porttab port).pthead
      pttail := (s'.porttab port).pttail }
    ptfree := s'.ptfree
    ptnext := s'.ptnext
    ptmsg := s'.ptmsg }

namespace OnNodes

theorem entry (h : OnNodes port s s') : s'.porttab port = { s.porttab port with
    pthead := (s'.porttab port).pthead, pttail := (s'.porttab port).pttail } := by
  have hentry := congrFun (congrArg PortTable.porttab h.only) port
  exact hentry.trans (Function.update_self _ _ _)

theorem semtab (h : OnNodes port s s') : s'.semtab = s.semtab := by rw [h.only]

theorem calls (h : OnNodes port s s') : s'.calls = s.calls := by rw [h.only]

end OnNodes

theorem linkNode_onNodes (port : Nat) (node : Node) (msg : Msg) (s : PortTable) :
    OnNodes port s (s.linkNode port node msg) := by
  constructor
  unfold PortTable.linkNode
  dsimp only
  split <;> simp [PortTable.setPort]

theorem unlinkNode_onNodes (port : Nat) (node : Node) (s : PortTable) :
    OnNodes port s (s.unlinkNode port node) := by
  constructor
  unfold PortTable.unlinkNode
  dsimp only
  split <;> simp [PortTable.setPort]

variable {fl ql : List Node} {node : Node}

/-- The free nodes are `fl`, and the port has its messages in `ql`. -/
structure Pool (port : Nat) (fl ql : List Node) (s : PortTable) : Prop where
  free : Follows s.ptnext s.ptfree fl
  queue : Follows s.ptnext (s.porttab port).pthead ql
  tail : (s.porttab port).pttail = ql.getLast?
  nodup : (fl ++ ql).Nodup

theorem Pool.congr (h : Pool port fl ql s) (hfree : s'.ptfree = s.ptfree)
    (hnext : s'.ptnext = s.ptnext) (hhead : (s'.porttab port).pthead = (s.porttab port).pthead)
    (htail : (s'.porttab port).pttail = (s.porttab port).pttail) : Pool port fl ql s' where
  free := by
    rw [hfree, hnext]
    exact h.free
  queue := by
    rw [hhead, hnext]
    exact h.queue
  tail := htail.trans h.tail
  nodup := h.nodup

theorem Pool.onSem (h : Pool port fl ql s) (ho : OnSem sem s s') : Pool port fl ql s' :=
  h.congr ho.nodes.1 ho.nodes.2 (by rw [ho.porttab]) (by rw [ho.porttab])

/-- A free node becomes the last of the port. -/
theorem Pool.link (h : Pool port (node :: fl) ql s) (msg : Msg) :
    Pool port fl (ql ++ [node]) (s.linkNode port node msg) := by
  have hnd := h.nodup
  rw [List.cons_append, List.nodup_cons, List.mem_append, not_or] at hnd
  obtain ⟨⟨hnf, hnq⟩, hnd⟩ := hnd
  have hnext : ∀ a, a ≠ node → Function.update s.ptnext node none a = s.ptnext a :=
    fun a ha => Function.update_of_ne ha _ _
  have hfree : Follows (Function.update s.ptnext node none) (s.ptnext node) fl :=
    h.free.tail.congr fun a ha => hnext a (ne_of_mem_of_not_mem ha hnf)
  have hqueue : Follows (Function.update s.ptnext node none) (s.porttab port).pthead ql :=
    h.queue.congr fun a ha => hnext a (ne_of_mem_of_not_mem ha hnq)
  have hnode : Follows (Function.update s.ptnext node none) (some node) [node] :=
    ⟨rfl, Function.update_self _ _ _⟩
  have hall : (fl ++ (ql ++ [node])).Nodup := by
    rw [← List.append_assoc]
    refine List.nodup_append.mpr ⟨hnd, List.nodup_singleton _, fun a ha b hb => ?_⟩
    rw [List.mem_singleton.mp hb]
    exact ne_of_mem_of_not_mem ha (by simp [hnf, hnq])
  unfold PortTable.linkNode
  dsimp only
  rcases List.eq_nil_or_concat ql with rfl | ⟨l, last, rfl⟩
  · have htail : (s.porttab port).pttail = none := h.tail
    rw [htail]
    refine ⟨hfree, ?_, ?_, hall⟩
    · rw [setPort_self]
      exact hnode
    · rw [setPort_self]
      rfl
  · have htail : (s.porttab port).pttail = some last := h.tail.trans (by simp)
    rw [htail]
    rw [List.concat_eq_append] at hqueue hall hnd hnq ⊢
    have hapart := List.nodup_append.mp hnd
    have hlf : last ∉ fl := fun ht => hapart.2.2 last ht last (by simp) rfl
    have hll : last ∉ l := fun ht =>
      (List.nodup_append.mp hapart.2.1).2.2 last ht last (by simp) rfl
    have hln : last ≠ node := fun ht => hnq (by simp [ht])
    refine ⟨?_, ?_, ?_, hall⟩
    · exact hfree.congr fun a ha => Function.update_of_ne (ne_of_mem_of_not_mem ha hlf) _ _
    · rw [setPort_self, List.append_assoc]
      exact hqueue.redirect hll hnode (by simpa using hln)
    · rw [setPort_self, List.getLast?_concat]

/-- The port's first node becomes free. -/
theorem Pool.unlink (h : Pool port fl (node :: ql) s) :
    Pool port (node :: fl) ql (s.unlinkNode port node) := by
  have hnd := List.nodup_middle.mp h.nodup
  rw [List.nodup_cons, List.mem_append, not_or] at hnd
  obtain ⟨⟨hnf, hnq⟩, hnd⟩ := hnd
  have hnext : ∀ a, a ≠ node → Function.update s.ptnext node s.ptfree a = s.ptnext a :=
    fun a ha => Function.update_of_ne ha _ _
  have hfree : Follows (Function.update s.ptnext node s.ptfree) s.ptfree fl :=
    h.free.congr fun a ha => hnext a (ne_of_mem_of_not_mem ha hnf)
  have hqueue : Follows (Function.update s.ptnext node s.ptfree) (s.ptnext node) ql :=
    h.queue.tail.congr fun a ha => hnext a (ne_of_mem_of_not_mem ha hnq)
  have hall : (node :: fl ++ ql).Nodup := by
    rw [List.cons_append, List.nodup_cons, List.mem_append, not_or]
    exact ⟨⟨hnf, hnq⟩, hnd⟩
  have hfreed : Follows (Function.update s.ptnext node s.ptfree) (some node) (node :: fl) :=
    ⟨rfl, by rwa [Function.update_self]⟩
  unfold PortTable.unlinkNode
  cases ql with
  | nil =>
    have hone : (s.porttab port).pthead = (s.porttab port).pttail := h.queue.1.trans h.tail.symm
    rw [if_pos hone]
    refine ⟨hfreed, ?_, ?_, hall⟩
    · dsimp only
      rw [setPort_self]
      rfl
    · dsimp only
      rw [setPort_self]
      rfl
  | cons a l =>
    -- the first message is not the last one
    have hmore : (s.porttab port).pthead ≠ (s.porttab port).pttail := by
      rw [h.queue.1, h.tail, List.getLast?_cons_cons]
      exact fun heq => hnq (List.mem_of_getLast? heq.symm)
    rw [if_neg hmore]
    refine ⟨hfreed, ?_, ?_, hall⟩
    · dsimp only
      rw [setPort_self]
      exact hqueue
    · dsimp only
      rw [setPort_self]
      exact h.tail.trans List.getLast?_cons_cons

theorem disposeLoop_only (n : Nat) (walk : Option Node) (s : PortTable) :
    s.disposeLoop port n walk = { s with trace := (s.disposeLoop port n walk).trace } := by
  induction n generalizing walk s with
  | zero => rfl
  | succ n ih =>
    cases walk with
    | none => rfl
    | some a =>
      rw [PortTable.disposeLoop, ih]
      rfl

/-- The port's nodes are put before the free ones. -/
theorem Pool.freeMessages (h : Pool port fl ql s) (n : Nat) :
    ∃ next free tr, s.freeMessages n port = { s with ptnext := next, ptfree := free, trace := tr } ∧
      Follows next free (ql ++ fl) := by
  unfold PortTable.freeMessages
  rw [h.queue.head?_eq]
  cases ql with
  | nil => exact ⟨s.ptnext, s.ptfree, s.trace, rfl, h.free⟩
  | cons a l =>
    rw [List.head?_cons]
    dsimp only
    rw [disposeLoop_only]
    obtain ⟨l', last, hl⟩ : ∃ l' last, a :: l = l' ++ [last] :=
      ⟨_, _, (List.dropLast_append_getLast (List.cons_ne_nil a l)).symm⟩
    have htail : (s.porttab port).pttail = some last := by
      rw [h.tail, hl, List.getLast?_concat]
    dsimp only
    rw [htail]
    refine ⟨_, _, _, rfl, ?_⟩
    have hnd := List.nodup_append.mp (hl ▸ h.nodup)
    have hlf : last ∉ fl := fun ht => hnd.2.2 last ht last (by simp) rfl
    have hll : last ∉ l' := fun ht =>
      (List.nodup_append.mp hnd.2.1).2.2 last ht last (by simp) rfl
    have hqueue : Follows s.ptnext (some a) (l' ++ [last]) := by
      rw [← hl]
      exact ⟨rfl, h.queue.tail⟩
    have hjoined := hqueue.redirect hll h.free hlf
    rw [hl, List.append_assoc]
    exact hjoined

end Xinu.Ports
