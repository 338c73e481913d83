import XinuCMips.Kernel.Queue

/-!
# Queue ids: `newqueue.c`

`queuetab` has one entry for each process and two for each queue. `newqueue`
hands out the entries after the processes' two at a time, the head and the tail
of a new queue, and is to refuse when the table is used up.

Its check is `q > NQENT`, and lets through the two ids for which the table no
longer has both entries: at `NQENT - 1` the tail is beyond the table, at `NQENT`
the head is too. Only one of them is ever reached, by the first call that finds the
table used up.

## Results

* `newqueue_frame`       — a call writes its own two entries.
* `ids_eq`               — the ids of a run of calls.
* `queue_ids_inside`     — when a run stays inside the table.
-/

namespace Xinu.QueueIds

/-- The sizes a kernel is configured with. -/
structure Config where
  NPROC : Nat
  NSEM : Nat
  NQENT : Nat
  deriving DecidableEq, Repr

/-- The default of `NQENT`: an entry for each process, and two for each semaphore, the
ready list and the sleep queue. -/
def Config.standard (nproc nsem : Nat) : Config where
  NPROC := nproc
  NSEM := nsem
  NQENT := nproc + 4 + nsem + nsem

/-- `nextqid` and `queuetab`; an index past the last entry is memory after the table. -/
structure Queues where
  nextqid : Int
  queuetab : QTab

/-- `newqueue`: allocate and initialize a queue. -/
def newqueue (c : Config) (s : Queues) : Int × Queues :=
  let q := s.nextqid
  -- check for table overflow
  if q > c.NQENT then (SYSERR, s)
  else
    let t := s.queuetab
    let t := setNext t (queuehead q) (queuetail q)
    let t := setPrev t (queuehead q) EMPTY
    let t := setKey t (queuehead q) MAXKEY
    let t := setNext t (queuetail q) EMPTY
    let t := setPrev t (queuetail q) (queuehead q)
    let t := setKey t (queuetail q) MINKEY
    (q, { nextqid := s.nextqid + 2, queuetab := t })

-- ---------------------------------------------------------------------------
-- Runs of calls
-- ---------------------------------------------------------------------------

variable (c : Config) (use : Nat → QTab → QTab) (t : QTab)

/-- The state after `n` calls from `nextqid = NPROC`. Before call `i` the rest of the
kernel has used the table, as `use i` says; it leaves `nextqid` alone. -/
def run : Nat → Queues
  | 0 => { nextqid := c.NPROC, queuetab := t }
  | n + 1 => (newqueue c { run n with queuetab := use n (run n).queuetab }).2

/-- The state that call `i` finds. -/
def found (i : Nat) : Queues := { run c use t i with queuetab := use i (run c use t i).queuetab }

/-- What call `i` returns. -/
def result (i : Nat) : Int := (newqueue c (found c use t i)).1

/-- The table has no two entries left. -/
def Exhausted (s : Queues) : Prop := c.NQENT < s.nextqid + 2

/-- The queues of `n` calls lie in the table, apart from each other and from the
processes, and a call that finds the table exhausted fails and writes nothing. -/
structure Inside (n : Nat) : Prop where
  inside : ∀ i < n, result c use t i ≠ SYSERR → queuetail (result c use t i) < c.NQENT
  procs : ∀ i < n, result c use t i ≠ SYSERR → c.NPROC ≤ queuehead (result c use t i)
  apart : ∀ i j, i < j → j < n → result c use t i ≠ SYSERR → result c use t j ≠ SYSERR →
    queuetail (result c use t i) < queuehead (result c use t j)
  refuses : ∀ i < n, Exhausted c (found c use t i) →
    result c use t i = SYSERR ∧ run c use t (i + 1) = found c use t i

variable {c : Config} {use : Nat → QTab → QTab} {t : QTab} {s : Queues}

-- ---------------------------------------------------------------------------
-- One call
-- ---------------------------------------------------------------------------

theorem newqueue_refused (h : s.nextqid > c.NQENT) : newqueue c s = (SYSERR, s) := if_pos h

theorem newqueue_granted (h : ¬s.nextqid > c.NQENT) :
    (newqueue c s).1 = s.nextqid ∧ (newqueue c s).2.nextqid = s.nextqid + 2 := by
  rw [newqueue]
  simp only [if_neg h]
  exact ⟨trivial, trivial⟩

/-- A call writes the two entries of its queue and no others. -/
theorem newqueue_frame (c : Config) (s : Queues) {i : Int} (hhead : i ≠ s.nextqid)
    (htail : i ≠ s.nextqid + 1) : (newqueue c s).2.queuetab i = s.queuetab i := by
  rw [newqueue]
  dsimp only
  split
  · rfl
  · simp only [setNext, setPrev, setKey, queuehead, queuetail, Function.update_of_ne hhead,
      Function.update_of_ne htail]

/-- A new queue is empty: its head and its tail are linked to each other. -/
theorem newqueue_linked (h : ¬s.nextqid > c.NQENT) :
    (newqueue c s).2.queuetab (queuehead s.nextqid) = ⟨MAXKEY, queuetail s.nextqid, EMPTY⟩ ∧
      (newqueue c s).2.queuetab (queuetail s.nextqid) = ⟨MINKEY, EMPTY, queuehead s.nextqid⟩ := by
  rw [newqueue]
  simp only [if_neg h]
  simp [setNext, setPrev, setKey, queuehead, queuetail]

-- ---------------------------------------------------------------------------
-- The ids of a run
-- ---------------------------------------------------------------------------

/-- The number of calls that pass the check. -/
def granted (c : Config) : Nat := if c.NQENT < c.NPROC then 0 else (c.NQENT - c.NPROC) / 2 + 1

theorem passes_iff {i : Nat} : ¬(c.NPROC + 2 * i : Int) > c.NQENT ↔ i < granted c := by
  unfold granted
  split <;> omega

theorem stops : (c.NPROC + 2 * granted c : Int) > c.NQENT :=
  not_not.mp fun h => Nat.lt_irrefl _ (passes_iff.mp h)

theorem run_nextqid (i : Nat) : (run c use t i).nextqid = c.NPROC + 2 * min i (granted c) := by
  induction i with
  | zero => simp [run]
  | succ i ih =>
    have hfound : (found c use t i).nextqid = c.NPROC + 2 * min i (granted c) := ih
    change (newqueue c (found c use t i)).2.nextqid = _
    by_cases hi : i < granted c
    · rw [Nat.min_eq_left hi.le] at hfound
      have hpass := passes_iff.mpr hi
      rw [← hfound] at hpass
      rw [(newqueue_granted hpass).2, hfound, Nat.min_eq_left hi]
      omega
    · rw [Nat.min_eq_right (by omega)] at hfound
      rw [newqueue_refused (hfound ▸ stops), hfound, Nat.min_eq_right (by omega)]

theorem found_nextqid (i : Nat) :
    (found c use t i).nextqid = c.NPROC + 2 * min i (granted c) := run_nextqid i

/-- Calls are given consecutive pairs of entries until the check stops them. -/
theorem ids_eq (i : Nat) :
    result c use t i = if i < granted c then (c.NPROC + 2 * i : Int) else SYSERR := by
  have hfound : (found c use t i).nextqid = c.NPROC + 2 * min i (granted c) := found_nextqid i
  unfold result
  by_cases hi : i < granted c
  · rw [if_pos hi]
    rw [Nat.min_eq_left hi.le] at hfound
    have hpass := passes_iff.mpr hi
    rw [← hfound] at hpass
    rw [(newqueue_granted hpass).1, hfound]
  · rw [if_neg hi]
    rw [Nat.min_eq_right (by omega)] at hfound
    rw [newqueue_refused (hfound ▸ stops)]

/-- `sysinit` and `clkinit` make the calls of a standard configuration that have room:
one for each semaphore, one for the ready list and one for the sleep queue. -/
theorem ids_standard :
    (∀ sem < NSEM.toNat, result (.standard NPROC.toNat NSEM.toNat) use t sem = semqueue sem) ∧
      result (.standard NPROC.toNat NSEM.toNat) use t NSEM.toNat = readylist ∧
      result (.standard NPROC.toNat NSEM.toNat) use t (NSEM.toNat + 1) = sleepq := by
  have hgranted : granted (.standard NPROC.toNat NSEM.toNat) = 35 := rfl
  refine ⟨fun sem hsem => ?_, ?_, ?_⟩
  · have hn : sem < 32 := hsem
    rw [ids_eq, hgranted, if_pos (by omega)]
    rfl
  · rw [ids_eq]
    rfl
  · rw [ids_eq]
    rfl

/-- For every configuration and whatever else the kernel does with the table, the
queues of `n` calls lie inside it exactly when it has two entries for each of them, or
not even the first call passes the check. -/
theorem queue_ids_inside (c : Config) (use : Nat → QTab → QTab) (t : QTab) (n : Nat) :
    Inside c use t n ↔ c.NPROC + 2 * n ≤ c.NQENT ∨ c.NQENT < c.NPROC := by
  constructor
  · intro h
    by_contra hout
    -- the last call that passes finds at most one entry
    obtain ⟨last, hlast⟩ : ∃ last, last = (c.NQENT - c.NPROC) / 2 := ⟨_, rfl⟩
    have hgranted : granted c = last + 1 := by
      unfold granted
      rw [if_neg (by omega), hlast]
    have hid : result c use t last = c.NPROC + 2 * last := by
      rw [ids_eq, if_pos (by omega)]
    have hok : result c use t last ≠ SYSERR := by
      rw [hid, SYSERR]
      omega
    have hin := h.inside last (by omega) hok
    rw [hid, queuetail] at hin
    omega
  · intro h
    have hids : ∀ i < n, result c use t i ≠ SYSERR →
        result c use t i = c.NPROC + 2 * i ∧ c.NPROC + 2 * n ≤ c.NQENT := by
      intro i hi hok
      rw [ids_eq] at hok ⊢
      by_cases hg : i < granted c
      · rw [if_pos hg]
        have hpass := passes_iff.mpr hg
        exact ⟨rfl, by omega⟩
      · exact absurd (if_neg hg) hok
    constructor
    · intro i hi hok
      obtain ⟨hid, hroom⟩ := hids i hi hok
      rw [hid, queuetail]
      omega
    · intro i hi hok
      rw [(hids i hi hok).1, queuehead]
      omega
    · intro i j hij hj hoki hokj
      rw [(hids i (by omega) hoki).1, (hids j hj hokj).1, queuetail, queuehead]
      omega
    · intro i hi hex
      unfold Exhausted at hex
      rw [found_nextqid] at hex
      have hnone : c.NQENT < c.NPROC := by
        rcases h with h | h
        · omega
        · exact h
      have hover : (found c use t i).nextqid > c.NQENT := by
        rw [found_nextqid]
        omega
      have hcall := newqueue_refused hover
      exact ⟨congrArg Prod.fst hcall, congrArg Prod.snd hcall⟩

/-- The queue after the sleep queue lies beyond the table of a standard kernel. -/
theorem queue_ids_not_inside :
    ¬∀ n, Inside (.standard 16 32) (fun _ t => t) (fun _ => ⟨0, 0, 0⟩) n := by
  intro h
  have hid : result (.standard 16 32) (fun _ t => t) (fun _ => ⟨0, 0, 0⟩) 34 = 84 := by
    decide +kernel
  have hin := (h 35).inside 34 (by decide) (by rw [hid]; decide)
  rw [hid] at hin
  exact absurd hin (by decide)

end Xinu.QueueIds
