import Mathlib.Data.BitVec
import Mathlib.Tactic.Abel

/-!
# The clock threshold

COUNT runs freely; when it meets COMPARE the core requests the clock interrupt
and holds the request until COMPARE is written. `clkhandler` first calls
`clkupdate`, which moves COMPARE on by the cycles of one tick: from COMPARE, or
from COUNT when COUNT is already there. It decides with one unsigned
comparison of two words that wrap.

The next request comes within one tick when the new COMPARE is in place within
a tick of the last request, or when the comparison sees that it is late. It does
not see it when COUNT has wrapped and COMPARE plus the tick has not, nor when
COUNT passes the new threshold between being read and the write.

## Results

* `Timer.idle_pending` — when COUNT meets COMPARE.
* `served_recurs`      — one tick.
* `clock_recurs`       — every run of ticks.
-/

namespace Xinu.Clock

abbrev Word := BitVec 32

-- ---------------------------------------------------------------------------
-- The counter
-- ---------------------------------------------------------------------------

/-- COUNT, COMPARE and the request, `count_eq_compare`. -/
structure Timer where
  count : Word
  compare : Word
  pending : Bool
  deriving DecidableEq, Repr

namespace Timer

variable {t : Timer} {n v : Word}

/-- One cycle of COUNT, COMPARE and the request; `w` is what `mtc0` writes to
COMPARE, which also withdraws the request. -/
def cycle (w : Option Word) (t : Timer) : Timer where
  count := t.count + 1
  compare := w.getD t.compare
  pending := w.isNone && (t.pending || t.count == t.compare)

/-- `n` cycles in which COMPARE is not written. -/
def idle : Nat → Timer → Timer
  | 0, t => t
  | n + 1, t => idle n (t.cycle none)

/-- The cycles until COUNT meets COMPARE. -/
def remaining (t : Timer) : Nat := (t.compare - t.count).toNat

/-- `clkupdate`: COUNT and COMPARE are read together, and COMPARE is written
`delay` cycles later. -/
def clkupdate (cycles : Word) (delay : Nat) (t : Timer) : Timer :=
  let v0 := t.compare + cycles
  let v1 := t.count
  -- `bleu v0, v1, compare_up`
  if v0 ≤ v1 then (t.idle delay).cycle (some (v1 + cycles))
  else (t.idle delay).cycle (some v0)

end Timer

/-- The processor's answer to one request: `latency` cycles until `clkupdate` has
read COUNT, and `delay` more until it writes COMPARE. -/
structure Tick where
  latency : Nat
  delay : Nat
  latency_lt : latency < 2 ^ 31
  delay_lt : delay + 1 < 2 ^ 31

namespace Tick

/-- The timer when `clkupdate` reads it: COUNT has met COMPARE, the request is
registered in the cycle after, and is answered `latency` cycles later. -/
def reads (x : Tick) (t : Timer) : Timer := t.idle (t.remaining + 1 + x.latency)

/-- The timer after the call. -/
def served (n : Word) (x : Tick) (t : Timer) : Timer := (x.reads t).clkupdate n x.delay

/-- The cycles from COUNT = COMPARE to the new COMPARE. -/
def age (x : Tick) : Nat := x.latency + x.delay + 2

end Tick

/-- A run of ticks. -/
def run (n : Word) (ticks : List Tick) (t : Timer) : Timer :=
  ticks.foldl (fun t x => x.served n t) t

-- ---------------------------------------------------------------------------
-- What is to hold
-- ---------------------------------------------------------------------------

/-- COMPARE lies at most `n` cycles ahead of COUNT, and the request comes within
them (and the cycle that registers it). -/
def Recurs (n : Word) (t : Timer) : Prop :=
  t.remaining ≤ n.toNat ∧ (t.idle (n.toNat + 1)).pending = true

instance (n : Word) (t : Timer) : Decidable (Recurs n t) := inferInstanceAs (Decidable (_ ∧ _))

/-- The new COMPARE is in place within a tick of the last request, or the
comparison sees that COUNT is beyond it and the write follows within a tick. -/
def InTime (n : Word) (x : Tick) (t : Timer) : Prop :=
  x.age ≤ n.toNat ∨
    (x.reads t).compare + n ≤ (x.reads t).count ∧ x.delay + 1 ≤ n.toNat

instance (n : Word) (x : Tick) (t : Timer) : Decidable (InTime n x t) :=
  inferInstanceAs (Decidable (_ ∨ _))

-- ---------------------------------------------------------------------------
-- Idle cycles
-- ---------------------------------------------------------------------------

namespace Timer

variable {t : Timer} {n v : Word}

@[simp] theorem idle_zero (t : Timer) : t.idle 0 = t := rfl

@[simp] theorem idle_succ (n : Nat) (t : Timer) : t.idle (n + 1) = (t.cycle none).idle n := rfl

@[simp] theorem idle_compare (n : Nat) (t : Timer) : (t.idle n).compare = t.compare := by
  induction n generalizing t with
  | zero => rfl
  | succ n ih => exact ih _

@[simp] theorem idle_count (n : Nat) (t : Timer) :
    (t.idle n).count = t.count + BitVec.ofNat 32 n := by
  induction n generalizing t with
  | zero => exact (BitVec.add_zero _).symm
  | succ n ih =>
    rw [idle_succ, ih, Nat.add_comm n 1, BitVec.ofNat_add]
    exact BitVec.add_assoc _ _ _

theorem clkupdate_count (n : Word) (d : Nat) (t : Timer) :
    (t.clkupdate n d).count = t.count + BitVec.ofNat 32 (d + 1) := by
  have hcount : (t.clkupdate n d).count = (t.idle d).count + 1 := by
    unfold clkupdate
    dsimp only
    split <;> rfl
  rw [hcount, idle_count, BitVec.ofNat_add]
  exact BitVec.add_assoc _ _ _

theorem clkupdate_compare (n : Word) (d : Nat) (t : Timer) :
    (t.clkupdate n d).compare = if t.compare + n ≤ t.count then t.count + n else t.compare + n := by
  unfold clkupdate
  dsimp only
  split <;> rfl

theorem remaining_zero : t.remaining = 0 ↔ t.count = t.compare := by
  unfold remaining
  constructor
  · intro h
    exact (sub_eq_zero.mp (BitVec.eq_of_toNat_eq h)).symm
  · intro h
    rw [h, sub_self]
    rfl

/-- While COUNT has not met COMPARE, one cycle brings it one nearer. -/
theorem remaining_cycle (h : t.remaining ≠ 0) : (t.cycle none).remaining = t.remaining - 1 := by
  unfold remaining at *
  have hone : (1 : Word).toNat = 1 := rfl
  have hsub : (t.cycle none).compare - (t.cycle none).count = t.compare - t.count - 1 := by
    change t.compare - (t.count + 1) = _
    abel
  rw [hsub, BitVec.toNat_sub_of_le (BitVec.le_def.mpr (by rw [hone]; omega)), hone]

theorem idle_pending_of_pending (h : t.pending = true) (n : Nat) : (t.idle n).pending = true := by
  induction n generalizing t with
  | zero => exact h
  | succ n ih => exact ih (by simp [cycle, h])

/-- The request is there as soon as COUNT has met COMPARE. -/
theorem idle_pending {n : Nat} (h : t.remaining < n) : (t.idle n).pending = true := by
  induction n generalizing t with
  | zero => exact absurd h (Nat.not_lt_zero _)
  | succ n ih =>
    rw [idle_succ]
    by_cases hz : t.remaining = 0
    · have hmet : t.count = t.compare := remaining_zero.mp hz
      exact idle_pending_of_pending (by simp [cycle, hmet]) n
    · exact ih (by rw [remaining_cycle hz]; omega)

theorem recurs_iff : Recurs n t ↔ t.remaining ≤ n.toNat :=
  ⟨And.left, fun h => ⟨h, idle_pending (Nat.lt_succ_of_le h)⟩⟩

end Timer

-- ---------------------------------------------------------------------------
-- One update
-- ---------------------------------------------------------------------------

/-- A word less `k` stays below itself unless it wraps. -/
theorem sub_le_iff {n : Word} {k : Nat} (hk : k < 2 ^ 32) :
    (n - BitVec.ofNat 32 k).toNat ≤ n.toNat ↔ k ≤ n.toNat := by
  have hn : n.toNat < 2 ^ 32 := n.isLt
  rw [BitVec.toNat_sub, BitVec.toNat_ofNat, Nat.mod_eq_of_lt hk]
  by_cases h : k ≤ n.toNat
  · have hmod : (2 ^ 32 - k + n.toNat) % 2 ^ 32 = n.toNat - k := by omega
    omega
  · have hmod : (2 ^ 32 - k + n.toNat) % 2 ^ 32 = 2 ^ 32 - k + n.toNat := by omega
    omega

namespace Tick

variable {n : Word} {x : Tick} {t : Timer}

theorem reads_count (x : Tick) (t : Timer) :
    (x.reads t).count = (x.reads t).compare + BitVec.ofNat 32 (x.latency + 1) := by
  have hmeets : t.count + BitVec.ofNat 32 t.remaining = t.compare := by
    rw [Timer.remaining, BitVec.ofNat_toNat, BitVec.setWidth_eq]
    exact add_sub_cancel _ _
  rw [reads, Timer.idle_count, Timer.idle_compare, Nat.add_assoc, BitVec.ofNat_add,
    Nat.add_comm 1, ← BitVec.add_assoc, hmeets]

/-- The update answers within a tick of COUNT as it was read. -/
theorem remaining_late (h : (x.reads t).compare + n ≤ (x.reads t).count) :
    (x.served n t).remaining = (n - BitVec.ofNat 32 (x.delay + 1)).toNat := by
  rw [served, Timer.remaining, Timer.clkupdate_count, Timer.clkupdate_compare, if_pos h,
    add_sub_add_left_eq_sub]

/-- The update answers within a tick of the last COMPARE. -/
theorem remaining_normal (h : ¬(x.reads t).compare + n ≤ (x.reads t).count) :
    (x.served n t).remaining = (n - BitVec.ofNat 32 x.age).toNat := by
  have hage : x.age = x.latency + 1 + (x.delay + 1) := by unfold age; omega
  rw [served, Timer.remaining, Timer.clkupdate_count, Timer.clkupdate_compare, if_neg h,
    reads_count, hage, BitVec.ofNat_add (x.latency + 1), add_assoc, add_sub_add_left_eq_sub]

/-- After one update the request recurs within a tick exactly when the update is in
time. -/
theorem served_recurs (n : Word) (x : Tick) (t : Timer) :
    Recurs n (x.served n t) ↔ InTime n x t := by
  have hlat := x.latency_lt
  have hdel := x.delay_lt
  have hage : x.age < 2 ^ 32 := by unfold age; omega
  rw [Timer.recurs_iff]
  unfold InTime
  by_cases h : (x.reads t).compare + n ≤ (x.reads t).count
  · rw [remaining_late h, sub_le_iff (by omega)]
    constructor
    · exact fun hle => .inr ⟨h, hle⟩
    · rintro (hle | ⟨-, hle⟩)
      · exact le_trans (by unfold age; omega) hle
      · exact hle
  · rw [remaining_normal h, sub_le_iff hage]
    exact ⟨.inl, fun hin => hin.resolve_right fun hr => h hr.1⟩

end Tick

-- ---------------------------------------------------------------------------
-- Runs
-- ---------------------------------------------------------------------------

/-- Every update of the run leaves a request within a tick. -/
def Recurring (n : Word) (ticks : List Tick) (t : Timer) : Prop :=
  ∀ pre x post, ticks = pre ++ x :: post → Recurs n (x.served n (run n pre t))

/-- Every update of the run is in time. -/
def InTimes (n : Word) (ticks : List Tick) (t : Timer) : Prop :=
  ∀ pre x post, ticks = pre ++ x :: post → InTime n x (run n pre t)

/-- From every COUNT and COMPARE, for every tick length and every run of ticks, each
request recurs within a tick of the update before it exactly when each update is in
time. -/
theorem clock_recurs (n : Word) (t : Timer) (ticks : List Tick) :
    Recurring n ticks t ↔ InTimes n ticks t := by
  constructor
  · intro h pre x post hsplit
    exact (x.served_recurs n _).mp (h pre x post hsplit)
  · intro h pre x post hsplit
    exact (x.served_recurs n _).mpr (h pre x post hsplit)

/-- COUNT has wrapped and COMPARE plus the tick has not: the comparison takes a late
update for an early one, and COMPARE is left behind COUNT. -/
theorem clock_not_recurs :
    ¬Recurring 0x80 [⟨0x180, 4, by decide, by decide⟩] ⟨0xFFFFFF00, 0xFFFFFF00, false⟩ :=
  fun h => absurd (h [] _ [] rfl) (by decide +kernel)

end Xinu.Clock
