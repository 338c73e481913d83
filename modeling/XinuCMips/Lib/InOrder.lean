import Mathlib.Data.Bool.Basic

/-!
# Instructions in an in-order pipeline

Counters that say which instruction each of the last four stages of an in-order
pipeline holds, when every cycle either holds the whole pipeline, sends a bubble
from the first of these stages into the second, or moves each instruction on.
The stages are named by the counters: the stage `mm` holds the instruction
numbered `mm` when the stage before it is one instruction ahead, and a bubble
when it is not.
-/

namespace Xinu.InOrder

/-- The numbers of the oldest instructions that have not passed each stage. The
stage `rf` always holds an instruction. -/
structure Flight where
  wb : Nat
  mm : Nat
  ex : Nat
  rf : Nat
  deriving DecidableEq

namespace Flight

/-- Before the first cycle only the first stage holds an instruction. -/
def start : Flight := ⟨0, 0, 0, 0⟩

/-- One cycle. -/
def step (hold bubble : Bool) (f : Flight) : Flight :=
  if hold then f
  else { wb := f.mm, mm := f.ex, ex := f.rf, rf := if bubble then f.rf else f.rf + 1 }

/-- Each stage holds at most one instruction. -/
structure Ordered (f : Flight) : Prop where
  wb : f.mm = f.wb ∨ f.mm = f.wb + 1
  mm : f.ex = f.mm ∨ f.ex = f.mm + 1
  ex : f.rf = f.ex ∨ f.rf = f.ex + 1

theorem start_ordered : start.Ordered := ⟨Or.inl rfl, Or.inl rfl, Or.inl rfl⟩

theorem Ordered.step {f : Flight} (h : f.Ordered) (hold bubble : Bool) :
    (f.step hold bubble).Ordered := by
  unfold Flight.step
  by_cases hh : hold = true
  · rw [if_pos hh]
    exact h
  · rw [if_neg hh]
    refine ⟨h.mm, h.ex, ?_⟩
    cases bubble with
    | false => exact Or.inr rfl
    | true => exact Or.inl rfl

end Flight

variable (hold bubble : Nat → Bool)

/-- The counters in cycle `n`. -/
def flight : Nat → Flight
  | 0 => Flight.start
  | n + 1 => (flight n).step (hold n) (bubble n)

theorem flight_ordered (n : Nat) : (flight hold bubble n).Ordered := by
  induction n with
  | zero => exact Flight.start_ordered
  | succ n ih => exact ih.step _ _

/-- Instruction `k` leaves the stage `mm` in cycle `n`. -/
def Leaves (k n : Nat) : Prop :=
  hold n = false ∧ (flight hold bubble n).mm = k ∧ (flight hold bubble n).ex = k + 1

/-- The counter of the stage `mm` never goes back. -/
theorem flight_mm_mono {m n : Nat} (h : m ≤ n) :
    (flight hold bubble m).mm ≤ (flight hold bubble n).mm := by
  induction h with
  | refl => exact Nat.le_refl _
  | @step n _ ih =>
    have ho := (flight_ordered hold bubble n).mm
    refine Nat.le_trans ih ?_
    show _ ≤ ((flight hold bubble n).step (hold n) (bubble n)).mm
    cases hold n with
    | true => exact Nat.le_refl _
    | false =>
      -- the new counter is that of the stage before
      show (flight hold bubble n).mm ≤ (flight hold bubble n).ex
      omega

/-- Nor does that of the first stage. -/
theorem flight_rf_mono {m n : Nat} (h : m ≤ n) :
    (flight hold bubble m).rf ≤ (flight hold bubble n).rf := by
  induction h with
  | refl => exact Nat.le_refl _
  | @step n _ ih =>
    refine Nat.le_trans ih ?_
    show _ ≤ ((flight hold bubble n).step (hold n) (bubble n)).rf
    cases hold n with
    | true => exact Nat.le_refl _
    | false =>
      cases bubble n with
      | true => exact Nat.le_refl _
      | false => exact Nat.le_succ _

/-- An instruction leaves the stage `mm` at most once. -/
theorem Leaves.unique {k m n : Nat} (hm : Leaves hold bubble k m) (hn : Leaves hold bubble k n) :
    m = n := by
  -- after it has left, the counter is past it
  have past : ∀ {a b : Nat}, Leaves hold bubble k a → Leaves hold bubble k b → ¬ a < b := by
    intro a b ha hb hlt
    have hmono : (flight hold bubble (a + 1)).mm ≤ (flight hold bubble b).mm :=
      flight_mm_mono hold bubble hlt
    have hnext : (flight hold bubble (a + 1)).mm = k + 1 := by
      show ((flight hold bubble a).step (hold a) (bubble a)).mm = k + 1
      rw [ha.1]
      exact ha.2.2
    have hk := hb.2.1
    omega
  rcases Nat.lt_trichotomy m n with h | h | h
  · exact absurd h (past hm hn)
  · exact h
  · exact absurd h (past hn hm)

end Xinu.InOrder
