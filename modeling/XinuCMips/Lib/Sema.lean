import Mathlib.Data.List.Basic

/-!
# Counting semaphores

A semaphore as its users see it: the count, the processes that wait for it in
the order in which they came, and the ones that a signal has let go but that
have not run since. Such a process has its unit already; the count does not
show it any more.

* `Sema.units`       — the units that running processes may still take;
* `Sema.wait_units`, `Sema.signaln_units`, `Sema.resume_units` — what the
  operations do to them;
* `Sema.Takes`       — a process gets a unit.
-/

structure Sema where
  count : Int
  queue : List Nat := []
  released : List Nat := []
  deriving DecidableEq, Repr

namespace Sema

variable {s : Sema} {p : Nat}

/-! ## Operations -/

/-- `wait`: whether the caller may go on, or has been put in the queue. -/
def wait (p : Nat) (s : Sema) : Bool × Sema :=
  let s := { s with count := s.count - 1 }
  if s.count < 0 then (false, { s with queue := s.queue ++ [p] }) else (true, s)

/-- `signal`: the first process of the queue is let go. -/
def signal (s : Sema) : Sema :=
  if s.count < 0 then
    { count := s.count + 1
      queue := s.queue.tail
      released := s.released ++ s.queue.head?.toList }
  else { s with count := s.count + 1 }

def signaln : Nat → Sema → Sema
  | 0, s => s
  | n + 1, s => signaln n s.signal

/-- `semreset`: all processes of the queue are let go. A negative count is not
accepted. -/
def reset (n : Int) (s : Sema) : Sema :=
  if n < 0 then s else { count := n, queue := [], released := s.released ++ s.queue }

/-- A process that has been let go runs. -/
def resume (p : Nat) (s : Sema) : Sema := { s with released := s.released.erase p }

/-! ## Units -/

/-- The processes in the queue are those that the count owes a unit. -/
def Ok (s : Sema) : Prop := (s.queue.length : Int) = max (-s.count) 0

/-- The units that have been signalled, less those that running processes have
taken. -/
def units (s : Sema) : Int := s.count + s.queue.length + s.released.length

theorem Ok.units_eq (h : s.Ok) : s.units = max s.count 0 + s.released.length := by
  unfold units
  unfold Ok at h
  omega

/-- What the count shows are the units that no process has been given. -/
theorem Ok.released_le (h : s.Ok) : (s.released.length : Int) ≤ s.units := by
  rw [h.units_eq]
  omega

theorem Ok.count_le (h : s.Ok) : s.count ≤ s.units := by
  rw [h.units_eq]
  omega

/-- With a process in the queue, all units have been given away. -/
theorem Ok.units_of_waiting (h : s.Ok) (hq : s.queue ≠ []) : s.units = s.released.length := by
  have hlen := List.length_pos_iff.mpr hq
  unfold Ok at h
  unfold units
  omega

theorem wait_ok (h : s.Ok) (p : Nat) : (s.wait p).2.Ok := by
  unfold wait
  dsimp only
  unfold Ok at *
  by_cases hc : s.count - 1 < 0
  · rw [if_pos hc]
    dsimp only
    rw [List.length_append, List.length_singleton]
    omega
  · rw [if_neg hc]
    dsimp only
    omega

/-- A process that goes on has taken a unit; one that waits has taken none. -/
theorem wait_units (s : Sema) (p : Nat) :
    (s.wait p).2.units = if (s.wait p).1 then s.units - 1 else s.units := by
  unfold wait
  dsimp only
  by_cases hc : s.count - 1 < 0
  · rw [if_pos hc]
    simp only [units, List.length_append, List.length_singleton, if_neg Bool.false_ne_true]
    omega
  · rw [if_neg hc]
    simp only [units, if_true]
    omega

theorem wait_released (s : Sema) (p : Nat) : (s.wait p).2.released = s.released := by
  unfold wait
  dsimp only
  by_cases hc : s.count - 1 < 0
  · rw [if_pos hc]
  · rw [if_neg hc]

theorem wait_true_count (hw : (s.wait p).1 = true) : 0 < s.count := by
  unfold wait at hw
  dsimp only at hw
  by_cases hc : s.count - 1 < 0
  · rw [if_pos hc] at hw
    cases hw
  · omega

theorem signal_ok (h : s.Ok) : s.signal.Ok := by
  unfold signal
  unfold Ok at *
  by_cases hc : s.count < 0
  · rw [if_pos hc]
    dsimp only
    rw [List.length_tail]
    omega
  · rw [if_neg hc]
    dsimp only
    omega

theorem signal_units (h : s.Ok) : s.signal.units = s.units + 1 := by
  unfold signal
  unfold Ok at h
  by_cases hc : s.count < 0
  · rw [if_pos hc]
    unfold units
    cases hq : s.queue with
    | nil =>
      rw [hq, List.length_nil] at h
      omega
    | cons p q =>
      simp
      omega
  · rw [if_neg hc]
    unfold units
    dsimp only
    omega

theorem signaln_ok (h : s.Ok) (n : Nat) : (signaln n s).Ok := by
  induction n generalizing s with
  | zero => exact h
  | succ n ih => exact ih (signal_ok h)

theorem signaln_units (h : s.Ok) (n : Nat) : (signaln n s).units = s.units + n := by
  induction n generalizing s with
  | zero => exact (Int.add_zero _).symm
  | succ n ih =>
    unfold signaln
    rw [ih (signal_ok h), signal_units h]
    omega

theorem resume_ok (h : s.Ok) (p : Nat) : (s.resume p).Ok := h

/-- A process that runs again takes the unit that it was given. -/
theorem resume_units (hp : p ∈ s.released) : (s.resume p).units = s.units - 1 := by
  have hlen := List.length_erase_of_mem hp
  have hpos := List.length_pos_of_mem hp
  unfold units resume
  dsimp only
  omega

/-- A process gets a unit: it goes on behind its `wait`, or it has been let go
and runs. -/
inductive Takes (s : Sema) (p : Nat) : Sema → Prop
  | wait (h : (s.wait p).1 = true) : Takes s p (s.wait p).2
  | resume (h : p ∈ s.released) : Takes s p (s.resume p)

variable {s' : Sema}

theorem Takes.ok (h : s.Takes p s') (hs : s.Ok) : s'.Ok := by
  cases h with
  | wait hw => exact wait_ok hs p
  | resume hp => exact resume_ok hs p

theorem Takes.units (h : s.Takes p s') : s'.units = s.units - 1 := by
  cases h with
  | wait hw => rw [wait_units, if_pos hw]
  | resume hp => exact resume_units hp

theorem Takes.units_pos (h : s.Takes p s') (hs : s.Ok) : 0 < s.units := by
  have hle := (h.ok hs).released_le
  have heq := h.units
  omega

end Sema
