import Mathlib

/-!
# The Gregorian calendar

Days are numbered from the first day of a year `e`, the epoch, and months from one.

* `yearStart_le`     — a later year starts when an earlier one has ended;
* `year_eq`          — a day belongs to one year;
* `yearStart_1970`   — the first days of the years up to 2100, in closed form.
-/

namespace Gregorian

def leap (y : Nat) : Bool := y % 4 == 0 && (y % 100 != 0 || y % 400 == 0)

def yearLength (y : Nat) : Nat := if leap y then 366 else 365

def monthLength (y : Nat) : Nat → Nat
  | 2 => if leap y then 29 else 28
  | 4 | 6 | 9 | 11 => 30
  | _ => 31

/-- The days from the epoch to the first day of a year. -/
def yearStart (e y : Nat) : Nat := ((List.range (y - e)).map fun k => yearLength (e + k)).sum

/-- The days from the first day of a year to the first day of a month. -/
def monthStart (y m : Nat) : Nat := ((List.range (m - 1)).map fun k => monthLength y (k + 1)).sum

structure Date where
  year : Nat
  month : Nat
  day : Nat
  deriving DecidableEq, Repr

namespace Date

/-- The date is one of the calendar. -/
def Valid (d : Date) : Prop :=
  1 ≤ d.month ∧ d.month ≤ 12 ∧ 1 ≤ d.day ∧ d.day ≤ monthLength d.year d.month

/-- The number of a day. -/
def number (e : Nat) (d : Date) : Nat := yearStart e d.year + monthStart d.year d.month + (d.day - 1)

end Date

variable {e y n : Nat}

@[simp] theorem yearStart_self (e : Nat) : yearStart e e = 0 := by
  simp [yearStart]

theorem yearStart_succ (h : e ≤ y) : yearStart e (y + 1) = yearStart e y + yearLength y := by
  have hsub : y + 1 - e = y - e + 1 := by omega
  rw [yearStart, hsub, List.range_succ, List.map_append, List.sum_append, List.map_singleton,
    List.sum_singleton, Nat.add_sub_cancel' h]
  rfl

theorem monthStart_succ (y m : Nat) :
    monthStart y (m + 2) = monthStart y (m + 1) + monthLength y (m + 1) := by
  rw [monthStart, show m + 2 - 1 = m + 1 from rfl, List.range_succ, List.map_append, List.sum_append,
    List.map_singleton, List.sum_singleton]
  rfl

/-- The twelve months make up the year. -/
theorem monthStart_thirteen (y : Nat) : monthStart y 13 = yearLength y := by
  simp only [monthStart, monthLength, yearLength, List.range_succ, List.range_zero]
  split <;> rfl

/-- A later year starts when an earlier one has ended. -/
theorem yearStart_le {y' : Nat} (h : e ≤ y) (hlt : y < y') :
    yearStart e y + yearLength y ≤ yearStart e y' := by
  induction y' with
  | zero => omega
  | succ z ih =>
    have hsucc := yearStart_succ (y := z) (e := e) (by omega)
    by_cases hz : y = z
    · exact Nat.le_of_eq (by rw [hsucc, hz])
    · have hle := ih (by omega)
      omega

/-- A day belongs to one year. -/
theorem year_eq {y' : Nat} (h : e ≤ y) (h' : e ≤ y') (hy : yearStart e y ≤ n)
    (hy1 : n < yearStart e y + yearLength y) (hy' : yearStart e y' ≤ n)
    (hy1' : n < yearStart e y' + yearLength y') : y = y' := by
  rcases Nat.lt_trichotomy y y' with hlt | heq | hlt
  · have hle := yearStart_le h hlt
    omega
  · exact heq
  · have hle := yearStart_le h' hlt
    omega

/-- In the twentieth and the twenty-first century every fourth year is a leap year. -/
theorem leap_eq (h : 1900 < y) (h' : y < 2100) : leap y = (y % 4 == 0) := by
  unfold leap
  by_cases h4 : y % 4 = 0
  · have hcent : y % 100 ≠ 0 ∨ y % 400 = 0 := by omega
    rcases hcent with h100 | h400
    · simp [h4, h100]
    · simp [h4, h400]
  · simp [h4]

/-- The first days of the years from 1970 to 2100. -/
theorem yearStart_1970 (h : 1970 ≤ y) (h' : y ≤ 2100) :
    yearStart 1970 y = 365 * (y - 1970) + (y - 1969) / 4 := by
  induction y with
  | zero => omega
  | succ z ih =>
    by_cases hz : z + 1 = 1970
    · rw [hz, yearStart_self]
    · rw [yearStart_succ (by omega), ih (by omega) (by omega), yearLength,
        leap_eq (by omega) (by omega)]
      simp only [beq_iff_eq]
      split <;> omega

end Gregorian
