import XinuCMips.Ports.Generations

/-!
# The semaphores of the ports

Each role of a port has a semaphore while the port has it. `sem` sees it as its users
do, with the processes that have been released and have not run; where `semcreate`
found no semaphore there is none behind it, and nothing waits for it.

* `Linked` — the semaphore table says what `sem` says;
* `Queues` — the processes that a semaphore knows of are those that wait for it.
-/

namespace Xinu.Ports

abbrev Key := Nat × Role

/-- The semaphore of a role. -/
def Ptentry.sem (e : Ptentry) : Role → Int
  | .send => e.ptssem
  | .recv => e.ptrsem

def PortTable.id (s : PortTable) (k : Key) : Int := (s.porttab k.1).sem k.2

-- ---------------------------------------------------------------------------
-- The semaphore table
-- ---------------------------------------------------------------------------

structure Linked (id : Key → Int) (semtab : Int → Sem) (live : Key → Prop) (sem : Key → Sema) :
    Prop where
  bad : ∀ k, live k → isbadsem (id k) → (sem k).queue = []
  entry : ∀ k, live k → ¬isbadsem (id k) → semtab (id k) = entry (sem k)
  apart : ∀ k k', live k → live k' → ¬isbadsem (id k) → id k = id k' → k = k'
  free : ∀ x, (semtab x).used = false → (semtab x).squeue = []

variable {s : PortTable} {id : Key → Int} {semtab : Int → Sem} {live : Key → Prop}
  {sem : Key → Sema} {k : Key} {e : Sema} {pid : Pid}

namespace Linked

/-- The semaphore of one role changes. -/
theorem put (h : Linked id semtab live sem) (hk : live k) (hbad : ¬isbadsem (id k)) (e : Sema) :
    Linked id (Function.update semtab (id k) (Ports.entry e)) live (Function.update sem k e) := by
  refine ⟨fun k' hk' hb => ?_, fun k' hk' hb => ?_, h.apart, fun x hx => ?_⟩
  · have hne : k' ≠ k := fun heq => hbad (heq ▸ hb)
    rw [Function.update_of_ne hne]
    exact h.bad k' hk' hb
  · by_cases heq : k' = k
    · rw [heq, Function.update_self, Function.update_self]
    · have hid : id k' ≠ id k := fun hid => heq (h.apart k' k hk' hk hb hid)
      rw [Function.update_of_ne heq, Function.update_of_ne hid]
      exact h.entry k' hk' hb
  · by_cases heq : x = id k
    · rw [heq, Function.update_self] at hx
      cases hx
    · rw [Function.update_of_ne heq] at hx ⊢
      exact h.free x hx

/-- A role without a semaphore changes. -/
theorem put_bad (h : Linked id semtab live sem) (hbad : isbadsem (id k)) (he : e.queue = []) :
    Linked id semtab live (Function.update sem k e) := by
  refine ⟨fun k' hk' hb => ?_, fun k' hk' hb => ?_, h.apart, h.free⟩
  · by_cases heq : k' = k
    · rw [heq, Function.update_self]
      exact he
    · rw [Function.update_of_ne heq]
      exact h.bad k' hk' hb
  · have hne : k' ≠ k := fun heq => hb (heq ▸ hbad)
    rw [Function.update_of_ne hne]
    exact h.entry k' hk' hb

/-- Who has been released is not in the table. -/
theorem congr (h : Linked id semtab live sem) (sem' : Key → Sema)
    (hs : ∀ k, (sem' k).count = (sem k).count ∧ (sem' k).queue = (sem k).queue) :
    Linked id semtab live sem' := by
  refine ⟨fun k hk hb => ?_, fun k hk hb => ?_, h.apart, h.free⟩
  · rw [(hs k).2]
    exact h.bad k hk hb
  · rw [h.entry k hk hb]
    unfold Ports.entry
    rw [(hs k).1, (hs k).2]

theorem mono {live' : Key → Prop} (h : Linked id semtab live sem) (hl : ∀ k, live' k → live k) :
    Linked id semtab live' sem :=
  ⟨fun k hk => h.bad k (hl k hk), fun k hk => h.entry k (hl k hk),
    fun k k' hk hk' => h.apart k k' (hl k hk) (hl k' hk'), h.free⟩

/-- `wait` refuses a semaphore that is not there, lets the process go on, or blocks it. -/
theorem wait (h : Linked s.id s.semtab live sem) (hk : live k) (pid : Pid) :
    s.wait pid (s.id k) = (none, s) ∨
    (((sem k).wait pid).1 = true ∧ ∃ tab, s.wait pid (s.id k) = (some false, { s with semtab := tab }) ∧
      Linked s.id tab live (Function.update sem k ((sem k).wait pid).2)) ∨
    ((sem k).wait pid).1 = false ∧ ∃ tab, s.wait pid (s.id k) =
        (some true, { s with semtab := tab, ready := Function.update s.ready pid false }) ∧
      Linked s.id tab live (Function.update sem k ((sem k).wait pid).2) := by
  by_cases hbad : isbadsem (s.id k)
  · exact .inl (bad_calls hbad s pid 0).1
  · right
    have hput := h.put hk hbad ((sem k).wait pid).2
    cases hw : ((sem k).wait pid).1 with
    | true => exact .inl ⟨rfl, _, wait_pass hbad (h.entry k hk hbad) hw, hput⟩
    | false => exact .inr ⟨rfl, _, wait_block hbad (h.entry k hk hbad) hw, hput⟩

/-- `signal` adds a unit or releases a process. -/
theorem signal (h : Linked s.id s.semtab live sem) (hk : live k) (hok : (sem k).Ok) :
    ∃ tab, s.signal (s.id k) = { s with
        semtab := tab
        ready := woken (if (sem k).count < 0 then (sem k).queue.head?.toList else []) s.ready } ∧
      Linked s.id tab live (Function.update sem k (sem k).signal) := by
  by_cases hbad : isbadsem (s.id k)
  · have hnil := h.bad k hk hbad
    have hcount : ¬(sem k).count < 0 := by
      unfold Sema.Ok at hok
      rw [hnil, List.length_nil] at hok
      omega
    refine ⟨s.semtab, ?_, h.put_bad hbad ?_⟩
    · rw [(bad_calls hbad s 0 0).2.1, if_neg hcount, woken_nil]
    · unfold Sema.signal
      rw [if_neg hcount]
      exact hnil
  · exact ⟨_, signal_eq hbad (h.entry k hk hbad), h.put hk hbad _⟩

/-- `semreset` releases all processes. -/
theorem reset {count : Int} (h : Linked s.id s.semtab live sem) (hk : live k) (hc : 0 ≤ count) :
    ∃ tab, s.semreset (s.id k) count =
        { s with semtab := tab, ready := woken (sem k).queue s.ready } ∧
      Linked s.id tab live (Function.update sem k { count := count }) := by
  by_cases hbad : isbadsem (s.id k)
  · refine ⟨s.semtab, ?_, h.put_bad hbad rfl⟩
    rw [(bad_calls hbad s 0 count).2.2.1, h.bad k hk hbad, woken_nil]
  · exact ⟨_, semreset_eq hc hbad (h.entry k hk hbad), h.put hk hbad _⟩

/-- `semdelete` releases all processes and gives the semaphore up. -/
theorem delete (h : Linked s.id s.semtab live sem) (hk : live k) (hok : (sem k).Ok) (e : Sema) :
    ∃ tab, s.semdelete (s.id k) =
        { s with semtab := tab, ready := woken (sem k).queue s.ready } ∧
      Linked s.id tab (fun k' => live k' ∧ k' ≠ k) (Function.update sem k e) := by
  have hsem : ∀ k', k' ≠ k → Function.update sem k e k' = sem k' :=
    fun k' hne => Function.update_of_ne hne _ _
  by_cases hbad : isbadsem (s.id k)
  · refine ⟨s.semtab, ?_, ?_⟩
    · rw [(bad_calls hbad s 0 0).2.2.2, h.bad k hk hbad, woken_nil]
    · refine ⟨fun k' hk' hb => ?_, fun k' hk' hb => ?_,
        fun k' k'' hk' hk'' => h.apart k' k'' hk'.1 hk''.1, h.free⟩
      · rw [hsem k' hk'.2]
        exact h.bad k' hk'.1 hb
      · rw [hsem k' hk'.2]
        exact h.entry k' hk'.1 hb
  · obtain ⟨c, hc⟩ := semdelete_eq hbad (h.entry k hk hbad) hok
    refine ⟨_, hc, fun k' hk' hb => ?_, fun k' hk' hb => ?_,
      fun k' k'' hk' hk'' => h.apart k' k'' hk'.1 hk''.1, fun x hx => ?_⟩
    · rw [hsem k' hk'.2]
      exact h.bad k' hk'.1 hb
    · -- the other roles have other semaphores
      have hid : s.id k' ≠ s.id k := fun hid => hk'.2 (h.apart k' k hk'.1 hk hb hid)
      rw [hsem k' hk'.2, Function.update_of_ne hid]
      exact h.entry k' hk'.1 hb
    · by_cases heq : x = s.id k
      · rw [heq, Function.update_self]
      · rw [Function.update_of_ne heq] at hx ⊢
        exact h.free x hx

/-- A role gets the semaphore `a`, which no other one has. -/
theorem extend {tab : Int → Sem} {a : Int} (h : Linked id semtab live sem)
    (ha : ∀ k, live k → ¬isbadsem (id k) → id k ≠ a) (htab : ∀ x, x ≠ a → tab x = semtab x)
    (hnew : ¬isbadsem a → tab a = Ports.entry e) (hfree : (tab a).used = false → (tab a).squeue = [])
    (he : e.queue = []) : Linked (Function.update id k a) tab (fun k' => live k' ∨ k' = k)
      (Function.update sem k e) := by
  have hlive : ∀ k', live k' ∨ k' = k → k' ≠ k → live k' :=
    fun k' hk' hne => hk'.resolve_right hne
  refine ⟨fun k' hk' hb => ?_, fun k' hk' hb => ?_, fun k' k'' hk' hk'' hb hid => ?_, fun x hx => ?_⟩
  · by_cases hne : k' = k
    · rw [hne, Function.update_self]
      exact he
    · rw [Function.update_of_ne hne] at hb ⊢
      exact h.bad k' (hlive k' hk' hne) hb
  · by_cases hne : k' = k
    · rw [hne, Function.update_self] at hb ⊢
      rw [Function.update_self]
      exact hnew hb
    · rw [Function.update_of_ne hne] at hb ⊢
      rw [Function.update_of_ne hne, htab _ (ha k' (hlive k' hk' hne) hb)]
      exact h.entry k' (hlive k' hk' hne) hb
  · by_cases hne : k' = k
    · by_cases hne' : k'' = k
      · rw [hne, hne']
      · rw [hne, Function.update_self] at hb hid
        rw [Function.update_of_ne hne'] at hid
        exact absurd hid.symm (ha k'' (hlive k'' hk'' hne') (hid ▸ hb))
    · rw [Function.update_of_ne hne] at hb hid
      by_cases hne' : k'' = k
      · rw [hne', Function.update_self] at hid
        exact absurd hid (ha k' (hlive k' hk' hne) hb)
      · rw [Function.update_of_ne hne'] at hid
        exact h.apart k' k'' (hlive k' hk' hne) (hlive k'' hk'' hne') hb hid
  · by_cases hxa : x = a
    · rw [hxa] at hx ⊢
      exact hfree hx
    · rw [htab x hxa] at hx ⊢
      exact h.free x hx

/-- `semcreate` gives a role a semaphore that no other one has, or none. -/
theorem create {count : Int} (h : Linked id s.semtab live sem) (hc : 0 ≤ count)
    (hn : 0 ≤ s.nextsem ∧ s.nextsem < NSEM) (k : Key) :
    ∃ a tab v, s.semcreate count = (a, { s with semtab := tab, nextsem := v }) ∧
      (0 ≤ v ∧ v < NSEM) ∧ Linked (Function.update id k a) tab (fun k' => live k' ∨ k' = k)
        (Function.update sem k { count := count }) := by
  rcases semcreate_cases hc hn with ⟨-, v, heq, hv⟩ | ⟨a, v, ha, hfree, hv, heq⟩
  · have hbad : isbadsem SYSERR := .inl (by decide)
    exact ⟨SYSERR, s.semtab, v, heq, hv, h.extend (fun k' _ hb hid => hb (hid ▸ hbad))
      (fun _ _ => rfl) (fun hb => absurd hbad hb) (h.free SYSERR) rfl⟩
  · have hnew : ({ s.semtab a with used := true, scount := count } : Sem) =
        Ports.entry { count := count } := by
      unfold Ports.entry
      dsimp only
      rw [h.free a hfree]
    refine ⟨a, Function.update s.semtab a (Ports.entry { count := count }), v, ?_, hv,
      h.extend (fun k' hk' hb hid => ?_) (fun x hx => Function.update_of_ne hx _ _)
        (fun _ => Function.update_self _ _ _) (fun hused => ?_) rfl⟩
    · rw [heq, ← hnew]
      rfl
    · -- the semaphores in use are other ones
      have hused := congrArg Sem.used (h.entry k' hk' hb)
      rw [hid, hfree] at hused
      cases hused
    · rw [Function.update_self] at hused
      cases hused

end Linked

-- ---------------------------------------------------------------------------
-- The processes
-- ---------------------------------------------------------------------------

/-- `cur pid port` says that the process goes by the generation that the port is in. -/
structure Queues (waiting : Pid → Option Key) (ready : Pid → Bool) (cur : Pid → Nat → Prop)
    (sem : Key → Sema) : Prop where
  queue : ∀ k pid, pid ∈ (sem k).queue ↔ waiting pid = some k ∧ ready pid = false
  released : ∀ k pid, pid ∈ (sem k).released ↔
    waiting pid = some k ∧ ready pid = true ∧ cur pid k.1
  nodup : ∀ k, (sem k).queue.Nodup ∧ (sem k).released.Nodup
  ok : ∀ k, (sem k).Ok

variable {waiting : Pid → Option Key} {ready : Pid → Bool} {cur cur' : Pid → Nat → Prop}

namespace Queues

/-- What holds of the new semaphore of one role and of the old ones of the others. -/
theorem forall_update {P : Key → Sema → Prop} (hself : P k e) (hother : ∀ k', k' ≠ k → P k' (sem k')) :
    ∀ k', P k' (Function.update sem k e k') :=
  (Function.forall_update_iff sem P).mpr ⟨hself, hother⟩

/-- Only units move. -/
theorem units (h : Queues waiting ready cur sem) (hq : e.queue = (sem k).queue)
    (hr : e.released = (sem k).released) (hok : e.Ok) :
    Queues waiting ready cur (Function.update sem k e) where
  queue := forall_update (P := fun k e => ∀ pid, pid ∈ e.queue ↔ waiting pid = some k ∧ ready pid = false)
    (by rw [hq]; exact h.queue k) fun k' _ => h.queue k'
  released := forall_update (P := fun k e => ∀ pid, pid ∈ e.released ↔
    waiting pid = some k ∧ ready pid = true ∧ cur pid k.1) (by rw [hr]; exact h.released k)
      fun k' _ => h.released k'
  nodup := forall_update (P := fun _ e => e.queue.Nodup ∧ e.released.Nodup)
    (by rw [hq, hr]; exact h.nodup k) fun k' _ => h.nodup k'
  ok := forall_update (P := fun _ e => e.Ok) hok fun k' _ => h.ok k'

/-- A process goes on behind its `wait`. -/
theorem pass (h : Queues waiting ready cur sem) (hw : ((sem k).wait pid).1 = true) :
    Queues waiting ready cur (Function.update sem k ((sem k).wait pid).2) := by
  refine h.units ?_ (Sema.wait_released _ _) (Sema.wait_ok (h.ok k) pid)
  unfold Sema.wait at hw ⊢
  dsimp only at hw ⊢
  by_cases hc : (sem k).count - 1 < 0
  · rw [if_pos hc] at hw
    cases hw
  · rw [if_neg hc]

/-- A process is put in the queue. -/
theorem block (h : Queues waiting ready cur sem) (hidle : waiting pid = none)
    (hw : ((sem k).wait pid).1 = false) (hcur : ∀ p ≠ pid, ∀ port, cur' p port ↔ cur p port) :
    Queues (Function.update waiting pid (some k)) (Function.update ready pid false) cur'
      (Function.update sem k ((sem k).wait pid).2) := by
  have hqueue : ((sem k).wait pid).2.queue = (sem k).queue ++ [pid] := by
    unfold Sema.wait at hw ⊢
    dsimp only at hw ⊢
    by_cases hc : (sem k).count - 1 < 0
    · rw [if_pos hc]
    · rw [if_neg hc] at hw
      cases hw
  have hnot : ∀ k', pid ∉ (sem k').queue ∧ pid ∉ (sem k').released := by
    intro k'
    rw [h.queue, h.released, hidle]
    constructor
    · rintro ⟨hk, -⟩
      cases hk
    · rintro ⟨hk, -⟩
      cases hk
  have hout : ∀ k' p, p ≠ pid → (p ∈ (sem k').queue ↔
      Function.update waiting pid (some k) p = some k' ∧ Function.update ready pid false p = false) := by
    intro k' p hp
    rw [Function.update_of_ne hp, Function.update_of_ne hp]
    exact h.queue k' p
  refine ⟨?_, fun k' p => ?_, ?_, ?_⟩
  · refine forall_update (P := fun k' e => ∀ p, p ∈ e.queue ↔
      Function.update waiting pid (some k) p = some k' ∧ Function.update ready pid false p = false)
      (fun p => ?_) fun k' hne p => ?_
    · rw [hqueue, List.mem_append, List.mem_singleton]
      by_cases hp : p = pid
      · rw [hp, Function.update_self, Function.update_self]
        exact iff_of_true (.inr rfl) ⟨rfl, rfl⟩
      · rw [or_iff_left hp]
        exact hout k p hp
    · by_cases hp : p = pid
      · rw [hp, Function.update_self]
        exact iff_of_false (hnot k').1 fun heq => hne (Option.some.inj heq.1).symm
      · exact hout k' p hp
  · have hrel : (Function.update sem k ((sem k).wait pid).2 k').released = (sem k').released := by
      by_cases heq : k' = k
      · rw [heq, Function.update_self]
        exact Sema.wait_released _ _
      · rw [Function.update_of_ne heq]
    rw [hrel]
    by_cases hp : p = pid
    · rw [hp, Function.update_self, Function.update_self]
      exact iff_of_false (hnot k').2 fun heq => nomatch heq.2.1
    · rw [Function.update_of_ne hp, Function.update_of_ne hp, hcur p hp]
      exact h.released k' p
  · refine forall_update (P := fun _ e => e.queue.Nodup ∧ e.released.Nodup) ?_ fun k' _ => h.nodup k'
    rw [hqueue, Sema.wait_released]
    refine ⟨List.nodup_append.mpr ⟨(h.nodup k).1, List.nodup_singleton _, fun p hp p' hp' => ?_⟩,
      (h.nodup k).2⟩
    rw [List.mem_singleton.mp hp']
    exact ne_of_mem_of_not_mem hp (hnot k).1
  · exact forall_update (P := fun _ e => e.Ok) (Sema.wait_ok (h.ok k) pid) fun k' _ => h.ok k'

/-- The first process of the queue, if there is one, is let go. -/
theorem signal (h : Queues waiting ready cur sem) (hcur : ∀ pid ∈ (sem k).queue, cur pid k.1) :
    Queues waiting (woken (if (sem k).count < 0 then (sem k).queue.head?.toList else []) ready) cur
      (Function.update sem k (sem k).signal) := by
  have hok := h.ok k
  by_cases hc : (sem k).count < 0
  · obtain ⟨first, rest, hq⟩ : ∃ first rest, (sem k).queue = first :: rest := by
      refine List.exists_cons_of_ne_nil fun hnil => ?_
      unfold Sema.Ok at hok
      rw [hnil, List.length_nil] at hok
      omega
    have hsig : (sem k).signal =
        { count := (sem k).count + 1, queue := rest, released := (sem k).released ++ [first] } := by
      unfold Sema.signal
      rw [if_pos hc, hq]
      rfl
    have hfirst := (h.queue k first).mp (by rw [hq]; exact List.mem_cons_self)
    have hnd := (h.nodup k).1
    rw [hq, List.nodup_cons] at hnd
    have hwoken : ∀ p, woken [first] ready p = false ↔ p ≠ first ∧ ready p = false := by
      intro p
      rw [woken_eq_false, List.mem_singleton]
    have hwoken' : ∀ p, woken [first] ready p = true ↔ p = first ∨ ready p = true := by
      intro p
      rw [woken_eq_true, List.mem_singleton]
    have hready : ∀ p, p = first → ready p = false := fun p hp => by rw [hp]; exact hfirst.2
    rw [if_pos hc, hq, List.head?_cons, Option.toList_some, hsig]
    refine ⟨?_, ?_, ?_, ?_⟩
    · refine forall_update (P := fun k e => ∀ p, p ∈ e.queue ↔
        waiting p = some k ∧ woken [first] ready p = false) (fun p => ?_) fun k' hne p => ?_
      · dsimp only
        rw [hwoken]
        have hmem := h.queue k p
        rw [hq, List.mem_cons] at hmem
        constructor
        · intro hp
          obtain ⟨hk, hr⟩ := hmem.mp (.inr hp)
          exact ⟨hk, ne_of_mem_of_not_mem hp hnd.1, hr⟩
        · rintro ⟨hk, hne, hr⟩
          exact (hmem.mpr ⟨hk, hr⟩).resolve_left hne
      · rw [h.queue, hwoken]
        refine and_congr_right fun hk => (and_iff_right ?_).symm
        rintro rfl
        exact hne (Option.some.inj (hk.symm.trans hfirst.1))
    · refine forall_update (P := fun k e => ∀ p, p ∈ e.released ↔
        waiting p = some k ∧ woken [first] ready p = true ∧ cur p k.1) (fun p => ?_)
        fun k' hne p => ?_
      · rw [List.mem_append, List.mem_singleton, h.released, hwoken']
        constructor
        · rintro (⟨hk, hr, hg⟩ | rfl)
          · exact ⟨hk, .inr hr, hg⟩
          · exact ⟨hfirst.1, .inl rfl, hcur p (by rw [hq]; exact List.mem_cons_self)⟩
        · rintro ⟨hk, rfl | hr, hg⟩
          · exact .inr rfl
          · exact .inl ⟨hk, hr, hg⟩
      · rw [h.released, hwoken']
        refine and_congr_right fun hk => and_congr_left' (or_iff_right ?_).symm
        rintro rfl
        exact hne (Option.some.inj (hk.symm.trans hfirst.1))
    · refine forall_update (P := fun _ e => e.queue.Nodup ∧ e.released.Nodup) ?_ fun k' _ => h.nodup k'
      refine ⟨hnd.2, List.nodup_append.mpr ⟨(h.nodup k).2, List.nodup_singleton _, ?_⟩⟩
      intro p hp p' hp'
      rw [List.mem_singleton.mp hp']
      rintro rfl
      exact Bool.noConfusion (hfirst.2.symm.trans ((h.released k p).mp hp).2.1)
    · refine forall_update (P := fun _ e => e.Ok) ?_ fun k' _ => h.ok k'
      rw [← hsig]
      exact Sema.signal_ok hok
  · rw [if_neg hc, woken_nil]
    have hsig : (sem k).signal = { sem k with count := (sem k).count + 1 } := if_neg hc
    refine h.units ?_ ?_ (Sema.signal_ok hok)
    · rw [hsig]
    · rw [hsig]

/-- The port moves to another generation: no process goes by it. -/
theorem outdate {port : Nat} (h : Queues waiting ready cur sem) (hnone : ∀ pid, ¬cur' pid port)
    (hcur : ∀ pid p, p ≠ port → (cur' pid p ↔ cur pid p)) :
    Queues waiting ready cur'
      (fun k => { sem k with released := if k.1 = port then [] else (sem k).released }) where
  queue := h.queue
  released k pid := by
    dsimp only
    by_cases hp : k.1 = port
    · rw [if_pos hp, hp]
      exact iff_of_false List.not_mem_nil fun hc => hnone pid hc.2.2
    · rw [if_neg hp, hcur pid k.1 hp]
      exact h.released k pid
  nodup k := by
    refine ⟨(h.nodup k).1, ?_⟩
    dsimp only
    split
    · exact List.nodup_nil
    · exact (h.nodup k).2
  ok := h.ok

/-- All processes of the queue are let go, none of which goes by the generation of the
port. -/
theorem reset {count : Int} (h : Queues waiting ready cur sem)
    (hnone : ∀ pid, waiting pid = some k → ¬cur pid k.1)
    (hc : 0 ≤ count) : Queues waiting (woken (sem k).queue ready) cur
      (Function.update sem k { count := count }) := by
  have hin : ∀ p, p ∈ (sem k).queue → waiting p = some k := fun p hp => ((h.queue k p).mp hp).1
  refine ⟨?_, ?_, ?_, ?_⟩
  · refine forall_update (P := fun k' e => ∀ p, p ∈ e.queue ↔
      waiting p = some k' ∧ woken (sem k).queue ready p = false) (fun p => ?_) fun k' hne p => ?_
    · rw [woken_eq_false]
      exact iff_of_false List.not_mem_nil fun hp => hp.2.1 ((h.queue k p).mpr ⟨hp.1, hp.2.2⟩)
    · rw [h.queue, woken_eq_false]
      refine and_congr_right fun hk => (and_iff_right fun hp => ?_).symm
      exact hne (Option.some.inj (hk.symm.trans (hin p hp)))
  · refine forall_update (P := fun k' e => ∀ p, p ∈ e.released ↔
      waiting p = some k' ∧ woken (sem k).queue ready p = true ∧ cur p k'.1) (fun p => ?_)
      fun k' hne p => ?_
    · exact iff_of_false List.not_mem_nil fun hp => hnone p hp.1 hp.2.2
    · rw [h.released, woken_eq_true]
      refine and_congr_right fun hk => and_congr_left' (or_iff_right fun hp => ?_).symm
      exact hne (Option.some.inj (hk.symm.trans (hin p hp)))
  · exact forall_update (P := fun _ e => e.queue.Nodup ∧ e.released.Nodup)
      ⟨List.nodup_nil, List.nodup_nil⟩ fun k' _ => h.nodup k'
  · refine forall_update (P := fun _ e => e.Ok) ?_ fun k' _ => h.ok k'
    unfold Sema.Ok
    rw [List.length_nil]
    exact (max_eq_right (neg_nonpos.mpr hc)).symm

/-- A process that may go on runs: it has its unit, if it goes by the generation of the
port. -/
theorem resume (h : Queues waiting ready cur sem) (hk : waiting pid = some k)
    (hready : ready pid = true) : Queues (Function.update waiting pid none) ready cur
      (Function.update sem k ((sem k).resume pid)) := by
  have hwait : ∀ p k', (Function.update waiting pid none p = some k' ↔
      p ≠ pid ∧ waiting p = some k') := by
    intro p k'
    by_cases hp : p = pid
    · rw [hp, Function.update_self]
      exact iff_of_false nofun fun hne => hne.1 rfl
    · rw [Function.update_of_ne hp, and_iff_right hp]
  have hself : ∀ p k', waiting p = some k' → k' ≠ k → p ≠ pid := by
    rintro p k' hk' hne rfl
    exact hne (Option.some.inj (hk'.symm.trans hk))
  refine ⟨fun k' p => ?_, ?_, ?_, ?_⟩
  · have hqueue : (Function.update sem k ((sem k).resume pid) k').queue = (sem k').queue := by
      by_cases heq : k' = k
      · rw [heq, Function.update_self]
        rfl
      · rw [Function.update_of_ne heq]
    rw [hqueue, h.queue, hwait, and_assoc]
    refine (and_iff_right_of_imp fun hp => ?_).symm
    rintro rfl
    exact Bool.noConfusion (hready.symm.trans hp.2)
  · refine forall_update (P := fun k' e => ∀ p, p ∈ e.released ↔
      Function.update waiting pid none p = some k' ∧ ready p = true ∧ cur p k'.1) (fun p => ?_)
      fun k' hne p => ?_
    · unfold Sema.resume
      rw [(h.nodup k).2.mem_erase_iff, h.released, hwait, and_assoc]
    · rw [h.released, hwait, and_assoc]
      exact (and_iff_right_of_imp fun hp => hself p k' hp.1 hne).symm
  · exact forall_update (P := fun _ e => e.queue.Nodup ∧ e.released.Nodup)
      ⟨(h.nodup k).1, (h.nodup k).2.erase pid⟩ fun k' _ => h.nodup k'
  · exact forall_update (P := fun _ e => e.Ok) (Sema.resume_ok (h.ok k) pid) fun k' _ => h.ok k'

end Queues

end Xinu.Ports
