import Mathlib.Tactic.IntervalCases
import XinuCMips.Lib.Gregorian

/-!
# `ascdate`

A count of seconds is peeled into a date by two loops, and daylight saving time moves the
hour afterwards. What is printed are the arguments of `sprintf`. No computation with
`uint32` or `int32` leaves its range, so all of them are `Nat`.

* `yearLoop_eq`, `monthLoop_from` — the loops find the year and the month;
* `Parts.summer`  — the automatic rule is the one for instants;
* `ascdate_right_iff` — the date is that of the calendar unless the hour is moved past
  midnight.
-/

namespace Xinu.Date

def DATE_DST_OFF : Int := 0
def DATE_DST_ON : Int := 1
def DATE_DST_AUTO : Int := 2

def SECPERDY : Nat := 60 * 60 * 24
def SECPERHR : Nat := 60 * 60
def SECPERMN : Nat := 60

def dt_msize : List Nat := [31, 28, 31, 30, 31, 30, 31, 31, 30, 31, 30, 31]

def dt_mnam : List String :=
  ["Jan", "Feb", "Mar", "Apr", "May", "Jun", "Jul", "Aug", "Sep", "Oct", "Nov", "Dec"]

def dt_dnam : List String := ["Sun", "Mon", "Tue", "Wed", "Thu", "Fri", "Sat"]

def zones : List String := ["EST", "CST", "MST", "PST"]
def dzones : List String := ["EDT", "CDT", "MDT", "PDT"]

/-- `ZONE_EST`. -/
def TIMEZONE : Nat := 5

/-- `isleap`. -/
def isleap (x : Nat) : Bool := x % 4 == 0

-- ---------------------------------------------------------------------------
-- The function
-- ---------------------------------------------------------------------------

/-- `isleap(year) ? 366 : 365`. -/
def yearDays (year : Nat) : Nat := if isleap year then 366 else 365

/-- The loop over the years: the year and the seconds left. -/
def yearLoop : Nat → Nat → Nat → Nat × Nat
  | 0, year, now => (year, now)
  | k + 1, year, now =>
    let tmp := yearDays year * SECPERDY
    if tmp > now then (year, now) else yearLoop k (year + 1) (now - tmp)

/-- The loop over the months, with the sizes of those that are left: the month and the
seconds left. -/
def monthLoop (year : Nat) : List Nat → Nat → Nat → Nat × Nat
  | [], month, now => (month, now)
  | size :: sizes, month, now =>
    let tmp := size * SECPERDY + if month == 1 && isleap year then SECPERDY else 0
    if tmp > now then (month, now) else monthLoop year sizes (month + 1) (now - tmp)

/-- The day of the second Sunday in March, from the day of the week of January 1. -/
def marss (year jan1 : Nat) : Nat :=
  let mar1 := (jan1 + (dt_msize.take 2).sum + (isleap year).toNat) % 7
  if mar1 = 0 then 8 else 15 - mar1

/-- The day of the first Sunday in November. -/
def novfs (year jan1 : Nat) : Nat :=
  let nov1 := (jan1 + (dt_msize.take 10).sum + (isleap year).toNat) % 7
  if nov1 = 0 then 1 else 8 - nov1

/-- `dst`, when it is set automatically. -/
def autoDst (year jan1 month day hour : Nat) : Bool :=
  if month = 11 ∨ month = 0 ∨ month = 1 then false
  else if month > 2 ∧ month < 10 then true
  else if month = 2 then
    if day > marss year jan1 then true
    else if day = marss year jan1 ∧ hour ≥ 2 then true
    else false
  else if month = 10 then
    if day > novfs year jan1 then false
    else if day = novfs year jan1 ∧ hour ≥ 1 then false
    else true
  else false

/-- The arguments of `sprintf`; a name is missing where its index is not in the table. -/
structure Printed where
  dnam : Option String
  mnam : Option String
  day : Nat
  hour : Nat
  minute : Nat
  second : Nat
  zone : Option String
  year : Nat
  deriving DecidableEq, Repr

/-- `hour`, `day` and `month` after the step to daylight saving time. -/
def advance (dst : Bool) (month day hour : Nat) : Nat × Nat × Nat :=
  if dst then
    if hour + 1 > 23 then
      if day + 1 > dt_msize.getD month 0 then (month + 1, 1, 0) else (month, day + 1, 0)
    else (month, day, hour + 1)
  else (month, day, hour)

/-- `ascdate`, with `dt_daylight`. -/
def ascdate (dt_daylight : Int) (now : Nat) : Printed :=
  let (year, now) := yearLoop (now / (365 * SECPERDY) + 1) 1970 now
  let days := now / SECPERDY
  let (month, now) := monthLoop year dt_msize 0 now
  let day := now / SECPERDY + 1
  let now := now % SECPERDY
  let hour := now / SECPERHR
  let now := now % SECPERHR
  let minute := now / SECPERMN
  let second := now % SECPERMN
  let leapyrs := (year - 1969) / 4
  let shift := 4 + (year - 1970) + leapyrs
  let jan1 := shift % 7
  let dayofweek := (shift + days) % 7
  let dst :=
    if dt_daylight = DATE_DST_ON then true
    else if dt_daylight = DATE_DST_AUTO then autoDst year jan1 month day hour
    else false
  let (month, day, hour) := advance dst month day hour
  { dnam := dt_dnam[dayofweek]?, mnam := dt_mnam[month]?, day := day, hour := hour,
    minute := minute, second := second,
    zone := if dst then dzones[TIMEZONE - 5]? else zones[TIMEZONE - 5]?, year := year }

-- ---------------------------------------------------------------------------
-- The calendar
-- ---------------------------------------------------------------------------

open Gregorian

/-- The day of the week of a day number: the first day of 1970 was a Thursday. -/
def weekday (n : Nat) : Nat := (4 + n) % 7

/-- The first second of a day. -/
def instant (d : Gregorian.Date) : Nat := d.number 1970 * SECPERDY

/-- Daylight time applies: from 2:00 on the second Sunday of March to 1:00 standard time,
which is 2:00 daylight time, on the first Sunday of November. -/
def Summer (now : Nat) : Prop :=
  ∃ year mar nov, 1970 ≤ year ∧ (8 ≤ mar ∧ mar ≤ 14) ∧ (1 ≤ nov ∧ nov ≤ 7) ∧
    weekday (Gregorian.Date.number 1970 ⟨year, 3, mar⟩) = 0 ∧
    weekday (Gregorian.Date.number 1970 ⟨year, 11, nov⟩) = 0 ∧
    instant ⟨year, 3, mar⟩ + 2 * SECPERHR ≤ now ∧ now < instant ⟨year, 11, nov⟩ + SECPERHR

/-- Daylight time applies under a setting. -/
def Daylight (dt_daylight : Int) (now : Nat) : Prop :=
  dt_daylight = DATE_DST_ON ∨ (dt_daylight = DATE_DST_AUTO ∧ Summer now)

/-- The local time of an instant of standard time, in seconds. -/
def Local (dt_daylight : Int) (now t : Nat) : Prop :=
  (Daylight dt_daylight now ∧ t = now + SECPERHR) ∨ (¬ Daylight dt_daylight now ∧ t = now)

/-- What is printed is the weekday, the date and the time of the instant `t`. -/
def Printed.Right (t : Nat) (p : Printed) : Prop :=
  ∃ d : Gregorian.Date, d.Valid ∧ 1970 ≤ d.year ∧ d.number 1970 = t / SECPERDY ∧
    p.dnam = dt_dnam[weekday (t / SECPERDY)]? ∧ p.mnam = dt_mnam[d.month - 1]? ∧
    p.mnam.isSome = true ∧ p.dnam.isSome = true ∧
    p.day = d.day ∧ p.year = d.year ∧ p.hour = t % SECPERDY / SECPERHR ∧
    p.minute = t % SECPERHR / SECPERMN ∧ p.second = t % SECPERMN

example : (ascdate DATE_DST_OFF 951782400) =
    { dnam := some "Tue", mnam := some "Feb", day := 29, hour := 0, minute := 0, second := 0,
      zone := some "EST", year := 2000 } := by decide

-- ---------------------------------------------------------------------------
-- The loops
-- ---------------------------------------------------------------------------

/-- The days before a year, with every fourth year a leap year. -/
def daysBefore (year : Nat) : Nat := 365 * (year - 1970) + (year - 1969) / 4

theorem daysBefore_succ {year : Nat} (h : 1970 ≤ year) :
    daysBefore (year + 1) = daysBefore year + yearDays year := by
  simp only [daysBefore, yearDays, isleap, beq_iff_eq]
  split <;> omega

theorem yearDays_ge (year : Nat) : 365 ≤ yearDays year ∧ yearDays year ≤ 366 := by
  unfold yearDays
  split <;> decide

/-- The loop over the years takes away whole years and leaves less than one. -/
theorem yearLoop_eq {k year now : Nat} (h : 1970 ≤ year) (hk : now / (365 * SECPERDY) < k) :
    ∃ y r, yearLoop k year now = (y, r) ∧ year ≤ y ∧
      daysBefore year * SECPERDY + now = daysBefore y * SECPERDY + r ∧
      r < yearDays y * SECPERDY := by
  induction k generalizing year now with
  | zero => exact absurd hk (Nat.not_lt_zero _)
  | succ k ih =>
    obtain ⟨hge, -⟩ := yearDays_ge year
    have hsucc := daysBefore_succ h
    unfold yearLoop
    by_cases hlt : yearDays year * SECPERDY > now
    · exact ⟨year, now, if_pos hlt, Nat.le_refl _, rfl, hlt⟩
    · unfold SECPERDY at hlt hk
      have hfuel : (now - yearDays year * SECPERDY) / (365 * SECPERDY) < k := by
        unfold SECPERDY
        omega
      obtain ⟨y, r, hloop, hle, hsum, hr⟩ := ih (Nat.le_succ_of_le h) hfuel
      refine ⟨y, r, ?_, by omega, ?_, hr⟩
      · rw [if_neg (by unfold SECPERDY; omega), hloop]
      · rw [← hsum, hsucc]
        unfold SECPERDY
        omega

/-- The size of a month in the table, with the day that February gets in a leap year. -/
theorem msize_eq {year month size : Nat} {sizes : List Nat} (hleap : leap year = isleap year)
    (h : size :: sizes = dt_msize.drop month) :
    size * SECPERDY + (if month == 1 && isleap year then SECPERDY else 0) =
      monthLength year (month + 1) * SECPERDY := by
  have hm : month < 12 := by
    by_contra hge
    rw [List.drop_eq_nil_of_le (Nat.le_of_not_lt hge)] at h
    cases h
  have hsize : size = dt_msize.getD month 0 := by
    have hhead := congrArg List.head? h
    rw [List.head?_cons, List.head?_drop] at hhead
    rw [List.getD_eq_getElem?_getD, ← hhead]
    rfl
  rw [hsize]
  interval_cases month
  case «1» =>
    simp only [monthLength, hleap]
    cases isleap year <;> rfl
  all_goals simp [dt_msize, monthLength]

theorem monthLoop_from {year : Nat} (hleap : leap year = isleap year) {sizes : List Nat}
    {month now : Nat} (hs : sizes = dt_msize.drop month) (hmonth : month ≤ 12)
    (hnow : monthStart year (month + 1) * SECPERDY + now < yearDays year * SECPERDY) :
    ∃ m r, monthLoop year sizes month now = (m, r) ∧ m < 12 ∧
      monthStart year (month + 1) * SECPERDY + now = monthStart year (m + 1) * SECPERDY + r ∧
      r < monthLength year (m + 1) * SECPERDY := by
  induction sizes generalizing month now with
  | nil =>
    have hge : 12 ≤ month := List.drop_eq_nil_iff.mp hs.symm
    have hlen : yearLength year = yearDays year := by rw [yearLength, yearDays, hleap]
    have hend := monthStart_thirteen year
    rw [show month + 1 = 13 by omega, hend, hlen] at hnow
    omega
  | cons size sizes ih =>
    have hsize := msize_eq hleap hs
    have htail : sizes = dt_msize.drop (month + 1) := by
      have htl := congrArg List.tail hs
      rwa [List.tail_cons, List.tail_drop] at htl
    have hlt12 : month < 12 := by
      by_contra hge
      rw [List.drop_eq_nil_of_le (Nat.le_of_not_lt hge)] at hs
      cases hs
    rw [monthLoop, hsize]
    by_cases hlt : monthLength year (month + 1) * SECPERDY > now
    · exact ⟨month, now, if_pos hlt, hlt12, rfl, hlt⟩
    · have hstart : monthStart year (month + 2) * SECPERDY =
          monthStart year (month + 1) * SECPERDY + monthLength year (month + 1) * SECPERDY := by
        rw [monthStart_succ, Nat.add_mul]
      have hleft : monthStart year (month + 2) * SECPERDY +
          (now - monthLength year (month + 1) * SECPERDY) < yearDays year * SECPERDY := by
        rw [hstart]
        omega
      obtain ⟨m, r, hloop, hm, hsum, hr⟩ := ih htail hlt12 hleft
      refine ⟨m, r, by rw [if_neg hlt, hloop], hm, ?_, hr⟩
      rw [← hsum, hstart]
      omega

/-- The parts that the loops find of an instant: the year, the month, and the seconds of the
month, `r`. -/
structure Parts (now year month r : Nat) : Prop where
  years : yearLoop (now / (365 * SECPERDY) + 1) 1970 now =
    (year, monthStart year (month + 1) * SECPERDY + r)
  months : monthLoop year dt_msize 0 (monthStart year (month + 1) * SECPERDY + r) = (month, r)
  year_ge : 1970 ≤ year
  year_lt : year < 2100
  month_lt : month < 12
  within : r < monthLength year (month + 1) * SECPERDY
  sum : now = yearStart 1970 year * SECPERDY + (monthStart year (month + 1) * SECPERDY + r)

theorem parts_of {now : Nat} (h : now < yearStart 1970 2100 * SECPERDY) :
    ∃ year month r, Parts now year month r := by
  obtain ⟨y, r, hloop, hge, hsum, hr⟩ :=
    yearLoop_eq (Nat.le_refl 1970) (Nat.lt_succ_self (now / (365 * SECPERDY)))
  rw [yearStart_1970 (by omega) (by omega)] at h
  have hlt : y < 2100 := by
    unfold daysBefore SECPERDY at hsum
    unfold SECPERDY at h
    omega
  have hstart : yearStart 1970 y = daysBefore y := yearStart_1970 hge (by omega)
  have hbegin : monthStart y (0 + 1) * SECPERDY + r < yearDays y * SECPERDY := by
    rw [show monthStart y (0 + 1) = 0 from rfl]
    omega
  have hleap : leap y = isleap y := leap_eq (by omega) hlt
  obtain ⟨m, r', hmonth, hm, hsum', hr'⟩ :=
    monthLoop_from hleap (show dt_msize = dt_msize.drop 0 from rfl) (Nat.zero_le 12) hbegin
  have hr0 : r = monthStart y (m + 1) * SECPERDY + r' := by
    rw [← hsum', show monthStart y (0 + 1) = 0 from rfl]
    omega
  subst hr0
  exact ⟨y, m, r', hloop, hmonth, hge, hlt, hm, hr', by
    rw [hstart, ← hsum, show daysBefore 1970 = 0 from rfl, Nat.zero_mul, Nat.zero_add]⟩

namespace Parts

variable {now year month r : Nat} (h : Parts now year month r)

include h

/-- The date of the parts is a date of the calendar. -/
theorem valid : (⟨year, month + 1, r / SECPERDY + 1⟩ : Gregorian.Date).Valid := by
  have hlt := h.within
  have hm := h.month_lt
  refine ⟨Nat.le_add_left _ _, hm, Nat.le_add_left _ _, ?_⟩
  exact Nat.succ_le_of_lt ((Nat.div_lt_iff_lt_mul (by decide)).mpr hlt)

/-- Its number is that of the day. -/
theorem number : Gregorian.Date.number 1970 ⟨year, month + 1, r / SECPERDY + 1⟩ =
    now / SECPERDY := by
  have hsum := h.sum
  show yearStart 1970 year + monthStart year (month + 1) + (r / SECPERDY + 1 - 1) = _
  generalize yearStart 1970 year = F at *
  generalize monthStart year (month + 1) = M at *
  rw [hsum]
  unfold SECPERDY
  omega

/-- The day of the week. -/
theorem dayofweek :
    (4 + (year - 1970) + (year - 1969) / 4 +
      (monthStart year (month + 1) * SECPERDY + r) / SECPERDY) % 7 = weekday (now / SECPERDY) := by
  have hsum := h.sum
  have hge := h.year_ge
  rw [yearStart_1970 hge (by have := h.year_lt; omega)] at hsum
  generalize monthStart year (month + 1) = M at *
  rw [weekday, hsum]
  unfold SECPERDY
  omega

/-- The time of the day. -/
theorem time : r % SECPERDY = now % SECPERDY := by
  have hsum := h.sum
  generalize yearStart 1970 year = F at *
  generalize monthStart year (month + 1) = M at *
  rw [hsum]
  unfold SECPERDY
  omega

end Parts

-- ---------------------------------------------------------------------------
-- Daylight saving time
-- ---------------------------------------------------------------------------

/-- The days in front of a month, by its index. -/
theorem monthStart_eq {year m : Nat} (hm : m < 12) :
    monthStart year (m + 1) = [0, 31, 59, 90, 120, 151, 181, 212, 243, 273, 304, 334].getD m 0 +
      if 2 ≤ m then (leap year).toNat else 0 := by
  interval_cases m <;> simp only [monthStart, monthLength, List.range_succ, List.range_zero] <;>
    cases leap year <;> rfl

/-- The second Sunday of March, and the first one of November, by the number of the first
day of the year. -/
theorem marss_iff {year d : Nat} (h : 8 ≤ d ∧ d ≤ 14) (F : Nat) :
    weekday (F + (59 + (isleap year).toNat) + (d - 1)) = 0 ↔ d = marss year ((4 + F) % 7) := by
  have hsum : (dt_msize.take 2).sum = 59 := rfl
  unfold weekday marss
  rw [hsum]
  generalize (isleap year).toNat = b
  dsimp only
  split <;> omega

theorem novfs_iff {year d : Nat} (h : 1 ≤ d ∧ d ≤ 7) (F : Nat) :
    weekday (F + (304 + (isleap year).toNat) + (d - 1)) = 0 ↔ d = novfs year ((4 + F) % 7) := by
  have hsum : (dt_msize.take 10).sum = 304 := rfl
  unfold weekday novfs
  rw [hsum]
  generalize (isleap year).toNat = b
  dsimp only
  split <;> omega

theorem marss_range (year jan1 : Nat) : 8 ≤ marss year jan1 ∧ marss year jan1 ≤ 14 := by
  unfold marss
  dsimp only
  split <;> omega

theorem novfs_range (year jan1 : Nat) : 1 ≤ novfs year jan1 ∧ novfs year jan1 ≤ 7 := by
  unfold novfs
  dsimp only
  split <;> omega

/-- The rule for a month, a day and an hour is one for the days of the year. -/
theorem autoDst_iff {year jan1 month q hour x : Nat} (hleap : leap year = isleap year)
    (hm : month < 12) (hq : q < monthLength year (month + 1))
    (hx : x = monthStart year (month + 1) + q) :
    autoDst year jan1 month (q + 1) hour = true ↔
      (59 + (isleap year).toNat + (marss year jan1 - 1) < x ∨
        59 + (isleap year).toNat + (marss year jan1 - 1) = x ∧ 2 ≤ hour) ∧
      (x < 304 + (isleap year).toNat + (novfs year jan1 - 1) ∨
        x = 304 + (isleap year).toNat + (novfs year jan1 - 1) ∧ hour < 1) := by
  obtain ⟨hmar, hmar'⟩ := marss_range year jan1
  obtain ⟨hnov, hnov'⟩ := novfs_range year jan1
  have hb : (isleap year).toNat ≤ 1 := Bool.toNat_le _
  rw [monthStart_eq hm, hleap] at hx
  unfold autoDst
  generalize marss year jan1 = mar at *
  generalize novfs year jan1 = nov at *
  generalize hbool : (isleap year).toNat = b at *
  interval_cases month
  case «1» =>
    have hfeb : q < 28 + b := by
      rw [← hbool]
      simp only [monthLength, hleap] at hq
      cases hl : isleap year <;> rw [hl] at hq <;> exact hq
    simp at hx ⊢
    omega
  all_goals
    simp [monthLength] at hx hq ⊢
    omega

theorem number_march (y d : Nat) : Gregorian.Date.number 1970 ⟨y, 3, d⟩ =
    yearStart 1970 y + (59 + (leap y).toNat) + (d - 1) := by
  have hstart := @monthStart_eq y 2 (by decide)
  rw [Gregorian.Date.number, hstart]
  rfl

theorem number_november (y d : Nat) : Gregorian.Date.number 1970 ⟨y, 11, d⟩ =
    yearStart 1970 y + (304 + (leap y).toNat) + (d - 1) := by
  have hstart := @monthStart_eq y 10 (by decide)
  rw [Gregorian.Date.number, hstart]
  rfl

/-- The months stay inside the year. -/
theorem month_le_year {year m : Nat} (hm : m < 12) :
    monthStart year (m + 1) + monthLength year (m + 1) ≤ yearLength year := by
  rw [monthStart_eq hm, yearLength]
  interval_cases m <;> cases hl : leap year <;> simp [monthLength, hl]

/-- An instant is past an hour of a day when the day is a later one, or the same with the
hour reached. -/
theorem from_iff {a x s k : Nat} (hs : s < SECPERDY) (hk : k < 24) :
    a * SECPERDY + k * SECPERHR ≤ x * SECPERDY + s ↔ a < x ∨ a = x ∧ k ≤ s / SECPERHR := by
  unfold SECPERDY SECPERHR at *
  omega

/-- The numbers of the days between the two Sundays lie in their year. -/
theorem summer_year {year mar nov x : Nat} (hnov : nov ≤ 7)
    (hfrom : Gregorian.Date.number 1970 ⟨year, 3, mar⟩ ≤ x)
    (hto : x ≤ Gregorian.Date.number 1970 ⟨year, 11, nov⟩) :
    yearStart 1970 year ≤ x ∧ x < yearStart 1970 year + yearLength year := by
  have hlen : 365 ≤ yearLength year := by
    unfold yearLength
    split <;> decide
  have hb : (leap year).toNat ≤ 1 := Bool.toNat_le _
  rw [number_march] at hfrom
  rw [number_november] at hto
  omega

/-- **The automatic rule is the one for instants.** -/
theorem Parts.summer {now year month r : Nat} (h : Parts now year month r) :
    Summer now ↔ autoDst year ((4 + (year - 1970) + (year - 1969) / 4) % 7) month
      (r / SECPERDY + 1) (r % SECPERDY / SECPERHR) = true := by
  have hge := h.year_ge
  have hlt := h.year_lt
  have hleap : leap year = isleap year := leap_eq (by omega) hlt
  have hq : r / SECPERDY < monthLength year (month + 1) :=
    (Nat.div_lt_iff_lt_mul (by decide)).mpr h.within
  have hyear := @month_le_year year month h.month_lt
  have hjan : (4 + (year - 1970) + (year - 1969) / 4) % 7 = (4 + yearStart 1970 year) % 7 := by
    rw [yearStart_1970 hge (by omega)]
    omega
  have hsec : r % SECPERDY < SECPERDY := Nat.mod_lt _ (by decide)
  -- the day of the year, and with it the number of the day
  obtain ⟨x, hx⟩ : ∃ x, x = monthStart year (month + 1) + r / SECPERDY := ⟨_, rfl⟩
  have hnow : now = (yearStart 1970 year + x) * SECPERDY + r % SECPERDY := by
    rw [h.sum, hx, Nat.add_mul, Nat.add_mul, Nat.add_assoc, Nat.add_assoc, Nat.mul_comm (r / SECPERDY),
      Nat.div_add_mod]
  rw [autoDst_iff hleap h.month_lt hq hx, hjan]
  obtain ⟨hmar, hmar'⟩ := marss_range year ((4 + yearStart 1970 year) % 7)
  obtain ⟨hnov, hnov'⟩ := novfs_range year ((4 + yearStart 1970 year) % 7)
  constructor
  · rintro ⟨y, mar, nov, hy, hmarr, hnovr, hsun, hsun', hfrom, hto⟩
    rw [instant, hnow, from_iff hsec (by decide)] at hfrom
    rw [instant, hnow, ← Nat.not_le, ← Nat.one_mul SECPERHR, from_iff hsec (by decide)] at hto
    have hsame : y = year := by
      have hmarch : Gregorian.Date.number 1970 ⟨y, 3, mar⟩ ≤ yearStart 1970 year + x := by omega
      have hnovember : yearStart 1970 year + x ≤ Gregorian.Date.number 1970 ⟨y, 11, nov⟩ := by
        omega
      have hx' : x < yearLength year := by omega
      obtain ⟨hlow, hhigh⟩ := summer_year hnovr.2 hmarch hnovember
      exact year_eq hy hge hlow hhigh (Nat.le_add_right _ _) (Nat.add_lt_add_left hx' _)
    subst hsame
    rw [number_march, hleap] at hsun hfrom
    rw [number_november, hleap] at hsun' hto
    rw [← (marss_iff hmarr _).mp hsun, ← (novfs_iff hnovr _).mp hsun']
    omega
  · rintro ⟨hfrom, hto⟩
    refine ⟨year, _, _, hge, ⟨hmar, hmar'⟩, ⟨hnov, hnov'⟩, ?_, ?_, ?_, ?_⟩
    · rw [number_march, hleap]
      exact (marss_iff ⟨hmar, hmar'⟩ _).mpr rfl
    · rw [number_november, hleap]
      exact (novfs_iff ⟨hnov, hnov'⟩ _).mpr rfl
    · rw [instant, number_march, hleap, hnow, from_iff hsec (by decide)]
      omega
    · rw [instant, number_november, hleap, hnow, ← Nat.not_le, ← Nat.one_mul SECPERHR,
        from_iff hsec (by decide)]
      omega

-- ---------------------------------------------------------------------------
-- What is printed
-- ---------------------------------------------------------------------------

/-- What is printed for the parts of an instant, by whether daylight time applies. -/
theorem Parts.ascdate_eq {now year month r : Nat} (h : Parts now year month r)
    (dt_daylight : Int) :
    ∃ dst : Bool, (dst = true ↔ Daylight dt_daylight now) ∧
      ascdate dt_daylight now =
        { dnam := dt_dnam[weekday (now / SECPERDY)]?
          mnam := dt_mnam[(advance dst month (r / SECPERDY + 1) (now % SECPERDY / SECPERHR)).1]?
          day := (advance dst month (r / SECPERDY + 1) (now % SECPERDY / SECPERHR)).2.1
          hour := (advance dst month (r / SECPERDY + 1) (now % SECPERDY / SECPERHR)).2.2
          minute := now % SECPERDY % SECPERHR / SECPERMN
          second := now % SECPERDY % SECPERHR % SECPERMN
          zone := if dst then dzones[TIMEZONE - 5]? else zones[TIMEZONE - 5]?
          year := year } := by
  refine ⟨if dt_daylight = DATE_DST_ON then true
    else if dt_daylight = DATE_DST_AUTO then
      autoDst year ((4 + (year - 1970) + (year - 1969) / 4) % 7) month (r / SECPERDY + 1)
        (now % SECPERDY / SECPERHR)
    else false, ?_, ?_⟩
  · rw [Daylight, h.summer, h.time]
    by_cases hon : dt_daylight = DATE_DST_ON
    · simp [hon]
    · by_cases hauto : dt_daylight = DATE_DST_AUTO
      · simp [hauto, show DATE_DST_AUTO ≠ DATE_DST_ON by decide]
      · simp [hon, hauto]
  · unfold ascdate
    rw [h.years]
    dsimp only
    rw [h.months]
    dsimp only
    rw [h.dayofweek, h.time]

theorem weekday_lt (n : Nat) : weekday n < 7 := Nat.mod_lt _ (by decide)

theorem weekday_succ_ne (n : Nat) : weekday (n + 1) ≠ weekday n := by
  unfold weekday
  omega

/-- The names of the days differ. -/
theorem dnam_eq {i j : Nat} (hi : i < 7) (h : dt_dnam[i]? = dt_dnam[j]?) : i = j :=
  (List.getElem?_inj hi (by decide)).mp h

-- the time of the day

theorem hour_le (now : Nat) : now % SECPERDY / SECPERHR ≤ 23 := by
  unfold SECPERDY SECPERHR
  omega

/-- An hour later is the next hour of the same day, before the last one. -/
theorem hour_moved {now : Nat} (h : ¬ now % SECPERDY / SECPERHR + 1 > 23) :
    (now + SECPERHR) / SECPERDY = now / SECPERDY ∧
      (now + SECPERHR) % SECPERDY / SECPERHR = now % SECPERDY / SECPERHR + 1 := by
  unfold SECPERDY SECPERHR at *
  omega

theorem day_moved {now : Nat} (h : now % SECPERDY / SECPERHR = 23) :
    (now + SECPERHR) / SECPERDY = now / SECPERDY + 1 := by
  unfold SECPERDY SECPERHR at *
  omega

theorem minute_eq (now : Nat) :
    now % SECPERDY % SECPERHR / SECPERMN = now % SECPERHR / SECPERMN ∧
      now % SECPERDY % SECPERHR % SECPERMN = now % SECPERMN := by
  unfold SECPERDY SECPERHR SECPERMN
  omega

theorem minute_moved (now : Nat) :
    now % SECPERDY % SECPERHR / SECPERMN = (now + SECPERHR) % SECPERHR / SECPERMN ∧
      now % SECPERDY % SECPERHR % SECPERMN = (now + SECPERHR) % SECPERMN := by
  unfold SECPERDY SECPERHR SECPERMN
  omega

/-- Where the hour stays in its day the date of the parts is printed. -/
theorem Parts.right {now year month r t : Nat} (h : Parts now year month r) {p : Printed}
    (hday : t / SECPERDY = now / SECPERDY)
    (hp : p.dnam = dt_dnam[weekday (now / SECPERDY)]?) (hm : p.mnam = dt_mnam[month]?)
    (hd : p.day = r / SECPERDY + 1) (hy : p.year = year)
    (hh : p.hour = t % SECPERDY / SECPERHR) (hmin : p.minute = t % SECPERHR / SECPERMN)
    (hs : p.second = t % SECPERMN) : p.Right t := by
  have hmonth : month < dt_mnam.length := h.month_lt
  have hweek : weekday (now / SECPERDY) < dt_dnam.length := weekday_lt _
  refine ⟨⟨year, month + 1, r / SECPERDY + 1⟩, h.valid, h.year_ge, ?_, ?_, hm, ?_, ?_, hd, hy, hh,
    hmin, hs⟩
  · rw [h.number, hday]
  · rw [hp, hday]
  · rw [hm, List.getElem?_eq_getElem hmonth]
    rfl
  · rw [hp, List.getElem?_eq_getElem hweek]
    rfl

/-- **The date is that of the calendar unless the hour is moved past midnight**: the day of
the week stays that of the day before. -/
theorem ascdate_right_iff {dt_daylight : Int} {now t : Nat}
    (h : now < yearStart 1970 2100 * SECPERDY) (ht : Local dt_daylight now t) :
    (ascdate dt_daylight now).Right t ↔
      ¬ (Daylight dt_daylight now ∧ now % SECPERDY / SECPERHR = 23) := by
  obtain ⟨year, month, r, hparts⟩ := parts_of h
  obtain ⟨dst, hdst, heq⟩ := hparts.ascdate_eq dt_daylight
  rw [heq, ← hdst]
  rcases ht with ⟨hday, rfl⟩ | ⟨hday, rfl⟩
  · obtain rfl : dst = true := hdst.mpr hday
    by_cases hhour : now % SECPERDY / SECPERHR = 23
    · refine iff_of_false ?_ (not_not_intro ⟨rfl, hhour⟩)
      rintro ⟨d, -, -, -, hnam, -⟩
      rw [day_moved hhour] at hnam
      exact weekday_succ_ne _ (dnam_eq (weekday_lt _) hnam).symm
    · refine iff_of_true ?_ (fun hlate => hhour hlate.2)
      have hlt : ¬ now % SECPERDY / SECPERHR + 1 > 23 := by
        have hrange := hour_le now
        omega
      have hadvance : advance true month (r / SECPERDY + 1) (now % SECPERDY / SECPERHR) =
          (month, r / SECPERDY + 1, now % SECPERDY / SECPERHR + 1) := if_neg hlt
      obtain ⟨hsame, hnext⟩ := hour_moved hlt
      rw [hadvance]
      exact hparts.right hsame rfl rfl rfl rfl hnext.symm (minute_moved now).1 (minute_moved now).2
  · obtain rfl : dst = false := Bool.eq_false_iff.mpr fun hon => hday (hdst.mp hon)
    refine iff_of_true ?_ (fun hlate => Bool.false_ne_true hlate.1)
    exact hparts.right rfl rfl rfl rfl rfl rfl (minute_eq _).1 (minute_eq _).2

/-- The evening of a day in July. -/
theorem ascdate_right_july : (ascdate DATE_DST_ON (26000000 * 10)).Right (26000000 * 10 + SECPERHR) ↔
    ¬ (Daylight DATE_DST_ON (26000000 * 10) ∧ 26000000 * 10 % SECPERDY / SECPERHR = 23) :=
  ascdate_right_iff (by rw [yearStart_1970 (by decide) (by decide)]; decide)
    (Or.inl ⟨Or.inl rfl, rfl⟩)

/-- At half past eleven in the evening of the fourth of July 2016, a Monday, daylight time is
half past midnight of Tuesday; a Monday is printed. -/
theorem not_ascdate_right : ¬ ∀ (dt_daylight : Int) (now t : Nat),
    now < yearStart 1970 2100 * SECPERDY → Local dt_daylight now t →
    (ascdate dt_daylight now).Right t := by
  intro hall
  obtain ⟨d, -, -, -, hnam, -⟩ := hall DATE_DST_ON 1467675000 (1467675000 + SECPERHR)
    (by rw [yearStart_1970 (by decide) (by decide)]; decide) (Or.inl ⟨Or.inl rfl, rfl⟩)
  exact absurd hnam (by decide)

end Xinu.Date
