import XinuCMips.Lib.Sema
import XinuCMips.Ports.Nodes

/-!
# What the semaphore calls do

The semaphore calls of the ports, each as one change of the semaphore table and of
the processes that may go on. A semaphore in use is seen as a `Sema`: its count, the
processes in its queue, and those that have been released but have not run since.

* `wait_pass`, `wait_block` — `wait` takes a unit, or queues the process;
* `signal_eq`               — `signal` adds a unit or releases the first process;
* `semreset_eq`, `semdelete_eq` — both release all processes that wait.
-/

namespace Xinu.Ports

variable {s : PortTable} {x : Int} {e : Sema} {pid : Pid}

/-- The entry of a semaphore in use. -/
def entry (e : Sema) : Sem := { used := true, scount := e.count, squeue := e.queue }

/-- The processes that may go on when those of the list have been released. -/
def woken (l : List Pid) (ready : Pid → Bool) : Pid → Bool := fun pid => decide (pid ∈ l) || ready pid

@[simp] theorem woken_nil (ready : Pid → Bool) : woken [] ready = ready := by
  funext pid
  simp [woken]

theorem woken_eq_false {l : List Pid} {ready : Pid → Bool} :
    woken l ready pid = false ↔ pid ∉ l ∧ ready pid = false := by
  simp [woken]

theorem woken_eq_true {l : List Pid} {ready : Pid → Bool} :
    woken l ready pid = true ↔ pid ∈ l ∨ ready pid = true := by
  simp [woken]

theorem woken_append (l l' : List Pid) (ready : Pid → Bool) :
    woken l' (woken l ready) = woken (l ++ l') ready := by
  funext pid
  simp only [woken, List.mem_append, Bool.decide_or]
  cases decide (pid ∈ l) <;> cases decide (pid ∈ l') <;> rfl

/-- A semaphore call: one entry changes, and processes stop or go on. -/
def PortTable.putSem (x : Int) (m : Sem) (ready : Pid → Bool) (s : PortTable) : PortTable :=
  { s with semtab := Function.update s.semtab x m, ready := ready }

theorem putSem_putSem (m m' : Sem) (ready ready' : Pid → Bool) (s : PortTable) :
    (s.putSem x m ready).putSem x m' ready' = s.putSem x m' ready' := by
  unfold PortTable.putSem
  dsimp only
  rw [Function.update_idem]

theorem setSem_eq (f : Sem → Sem) (s : PortTable) :
    s.setSem x f = s.putSem x (f (s.semtab x)) s.ready := rfl

theorem putSem_self (m : Sem) (ready : Pid → Bool) (s : PortTable) :
    (s.putSem x m ready).semtab x = m := Function.update_self _ _ _

theorem not_badSem (hx : ¬isbadsem x) (he : s.semtab x = entry e) : ¬s.badSem x := by
  rintro (hbad | hfree)
  · exact hx hbad
  · rw [he] at hfree
    cases hfree

-- ---------------------------------------------------------------------------
-- Taking and giving units
-- ---------------------------------------------------------------------------

/-- `wait` goes on with a unit. -/
theorem wait_pass (hx : ¬isbadsem x) (he : s.semtab x = entry e) (hw : (e.wait pid).1 = true) :
    s.wait pid x = (some false, s.putSem x (entry (e.wait pid).2) s.ready) := by
  have hcount : (s.semtab x).scount = e.count := by rw [he]; rfl
  have hpos := Sema.wait_true_count hw
  have hneg : ¬e.count - 1 < 0 := by omega
  rw [PortTable.wait, if_neg (not_badSem hx he)]
  dsimp only
  rw [setSem_self, hcount, if_neg hneg, setSem_eq, he, Sema.wait]
  dsimp only
  rw [if_neg hneg]
  rfl

/-- `wait` puts the process in the queue. -/
theorem wait_block (hx : ¬isbadsem x) (he : s.semtab x = entry e) (hw : (e.wait pid).1 = false) :
    s.wait pid x = (some true, s.putSem x (entry (e.wait pid).2)
      (Function.update s.ready pid false)) := by
  have hcount : (s.semtab x).scount = e.count := by rw [he]; rfl
  have hneg : e.count - 1 < 0 := by
    by_contra hneg
    rw [Sema.wait] at hw
    dsimp only at hw
    rw [if_neg hneg] at hw
    cases hw
  rw [PortTable.wait, if_neg (not_badSem hx he)]
  dsimp only
  rw [setSem_self, hcount, if_pos hneg, setSem_eq, setSem_eq, putSem_putSem, putSem_self, he,
    Sema.wait]
  dsimp only
  rw [if_pos hneg]
  rfl

theorem releaseFirst_eq (s : PortTable) : s.releaseFirst x = s.putSem x
    { s.semtab x with squeue := (s.semtab x).squeue.tail }
    (woken (s.semtab x).squeue.head?.toList s.ready) := by
  unfold PortTable.releaseFirst
  split
  · next h =>
    have hsame : { s.semtab x with squeue := (s.semtab x).squeue.tail } = s.semtab x := by
      rw [h, List.tail_nil, ← h]
    rw [hsame, h]
    simp [PortTable.putSem]
  · next pid rest h =>
    rw [h]
    simp only [setSem_eq, PortTable.wake, PortTable.putSem, List.tail_cons, List.head?_cons,
      Option.toList_some]
    congr 1
    funext q
    rw [Function.update_apply]
    by_cases hq : q = pid
    · simp [hq, woken]
    · simp [hq, woken]

/-- `signal` adds a unit, or gives it to the first process of the queue. -/
theorem signal_eq (hx : ¬isbadsem x) (he : s.semtab x = entry e) :
    s.signal x = s.putSem x (entry e.signal)
      (woken (if e.count < 0 then e.queue.head?.toList else []) s.ready) := by
  have hcount : (s.semtab x).scount = e.count := by rw [he]; rfl
  have hset : s.setSem x (fun m => { m with scount := m.scount + 1 }) =
      s.putSem x (entry { e with count := e.count + 1 }) s.ready := by
    rw [setSem_eq, he]
    rfl
  rw [PortTable.signal, if_neg (not_badSem hx he)]
  dsimp only
  rw [hcount, hset, Sema.signal]
  by_cases hneg : e.count < 0
  · rw [if_pos hneg, if_pos hneg, if_pos hneg, releaseFirst_eq, putSem_putSem, putSem_self]
    rfl
  · rw [if_neg hneg, if_neg hneg, if_neg hneg, woken_nil]

-- ---------------------------------------------------------------------------
-- Releasing all processes
-- ---------------------------------------------------------------------------

theorem drain_eq (n : Nat) (s : PortTable) : s.drain x n = s.putSem x
    { s.semtab x with squeue := (s.semtab x).squeue.drop n }
    (woken ((s.semtab x).squeue.take n) s.ready) := by
  induction n generalizing s with
  | zero =>
    rw [PortTable.drain, List.drop_zero, List.take_zero, woken_nil]
    simp [PortTable.putSem]
  | succ n ih =>
    rw [PortTable.drain, ih, releaseFirst_eq, putSem_putSem, putSem_self]
    dsimp only [PortTable.putSem]
    rw [woken_append]
    cases (s.semtab x).squeue with
    | nil => simp
    | cons a l => simp

/-- `semreset` releases all processes that wait. -/
theorem semreset_eq {count : Int} (hc : 0 ≤ count) (hx : ¬isbadsem x) (he : s.semtab x = entry e) :
    s.semreset x count = s.putSem x (entry { count := count }) (woken e.queue s.ready) := by
  have hbad := not_badSem hx he
  rw [PortTable.semreset, if_neg (not_or.mpr ⟨not_lt.mpr hc, hbad⟩), drain_eq, setSem_eq,
    putSem_putSem, putSem_self, he]
  dsimp only [PortTable.putSem, entry]
  rw [List.drop_length, List.take_length]

/-- The loop of `semdelete` runs until the count is positive: once for each process
that waits, and once more. -/
theorem semdeleteLoop_eq (n : Nat) (s : PortTable) {c : Int} {q : List Pid}
    (hs : s.semtab x = { used := false, scount := c, squeue := q })
    (hq : (q.length : Int) = max (-c) 0) (hn : -c < n) (hpos : 0 < n) :
    ∃ c', s.semdeleteLoop x n = s.putSem x { used := false, scount := c', squeue := [] }
      (woken q s.ready) := by
  induction n generalizing s c q with
  | zero => exact absurd hpos (Nat.lt_irrefl 0)
  | succ n ih =>
    have hcount : (s.semtab x).scount = c := by rw [hs]
    rw [PortTable.semdeleteLoop]
    rw [hcount, setSem_eq, hs]
    by_cases hneg : c < 0
    · rw [if_pos hneg, releaseFirst_eq, putSem_putSem, putSem_self]
      dsimp only
      cases q with
      | nil =>
        rw [List.length_nil] at hq
        omega
      | cons pid q =>
        rw [List.length_cons] at hq
        obtain ⟨c', hc'⟩ := ih (s.putSem x { used := false, scount := c + 1, squeue := q }
          (woken [pid] s.ready)) (putSem_self _ _ _) (by omega) (by omega) (by omega)
        refine ⟨c', hc'.trans ?_⟩
        rw [putSem_putSem]
        dsimp only [PortTable.putSem]
        rw [woken_append]
        rfl
    · rw [if_neg hneg]
      have hnil : q = [] := List.eq_nil_of_length_eq_zero (by omega)
      rw [hnil, woken_nil]
      exact ⟨c + 1, rfl⟩

/-- `semdelete` releases all processes that wait, and gives the semaphore up. -/
theorem semdelete_eq (hx : ¬isbadsem x) (he : s.semtab x = entry e) (hok : e.Ok) :
    ∃ c, s.semdelete x = s.putSem x { used := false, scount := c, squeue := [] }
      (woken e.queue s.ready) := by
  have hset : s.setSem x (fun m => { m with used := false }) =
      s.putSem x { used := false, scount := e.count, squeue := e.queue } s.ready := by
    rw [setSem_eq, he]
    rfl
  rw [PortTable.semdelete, if_neg (not_badSem hx he)]
  dsimp only
  rw [hset, putSem_self]
  obtain ⟨c, hc⟩ := semdeleteLoop_eq ((-e.count).toNat + 1) (s.putSem x
    { used := false, scount := e.count, squeue := e.queue } s.ready) (putSem_self _ _ _) hok
    (by omega) (Nat.succ_pos _)
  refine ⟨c, hc.trans ?_⟩
  rw [putSem_putSem]
  rfl

/-- A semaphore that is not there stays so. -/
theorem bad_calls (hx : isbadsem x) (s : PortTable) (pid : Pid) (count : Int) :
    s.wait pid x = (none, s) ∧ s.signal x = s ∧ s.semreset x count = s ∧ s.semdelete x = s := by
  have hbad : s.badSem x := .inl hx
  exact ⟨if_pos hbad, if_pos hbad, if_pos (.inr hbad), if_pos hbad⟩

end Xinu.Ports
