import Mathlib.Algebra.BigOperators.Intervals
import Mathlib.Algebra.Order.BigOperators.Group.Finset
import Mathlib.Data.Int.Basic
import Mathlib.Tactic.IntervalCases

/-! The seconds since 1970 that `mktimegm` of `cutils.c` computes, against a count of the days. The
closed formula for the day is right in every year. Its product with the length of a day is an `int`,
and is wrong from 20 January 2038 on. -/

namespace Ar7Qemu.Vl.Calendar

/-! ### The code -/

/-- `struct tm`, as far as `mktimegm` reads it. -/
structure Tm where
  tmSec : ℤ
  tmMin : ℤ
  tmHour : ℤ
  tmMday : ℤ
  tmMon : ℤ
  tmYear : ℤ

/-- The value of an `int` expression. -/
def int32 (x : ℤ) : ℤ := x.bmod (2 ^ 32)

/-- `mktimegm`. The sum is a `time_t` of 64 bits, the two terms are of type `int`. -/
def mktimegm (tm : Tm) : ℤ :=
  let y := tm.tmYear + 1900
  let m := tm.tmMon + 1
  let d := tm.tmMday
  let (m, y) := if m < 3 then (m + 12, y - 1) else (m, y)
  let t := int32 (86400 * (d + (153 * m - 457).tdiv 5 + 365 * y + y.tdiv 4 - y.tdiv 100 + y.tdiv 400 - 719469))
  t + int32 (3600 * tm.tmHour + 60 * tm.tmMin + tm.tmSec)

/-! ### The calendar -/

def Leap (year : ℕ) : Prop := year % 4 = 0 ∧ (year % 100 ≠ 0 ∨ year % 400 = 0)

instance (year : ℕ) : Decidable (Leap year) := inferInstanceAs (Decidable (_ ∧ _))

def daysInYear (year : ℕ) : ℕ := if Leap year then 366 else 365

/-- The length of a month, counted from 0. -/
def daysInMonth (year : ℕ) : ℕ → ℕ
  | 1 => if Leap year then 29 else 28
  | 3 => 30
  | 5 => 30
  | 8 => 30
  | 10 => 30
  | _ => 31

/-- A date and time from 1970 to 9999. -/
structure Date where
  year : ℕ
  mon : ℕ
  mday : ℕ
  hour : ℕ
  min : ℕ
  sec : ℕ
  year_ge : 1970 ≤ year
  year_le : year ≤ 9999
  mon_lt : mon < 12
  mday_pos : 0 < mday
  mday_le : mday ≤ daysInMonth year mon
  hour_lt : hour < 24
  min_lt : min < 60
  sec_lt : sec < 60

def yearDays (year : ℕ) : ℕ := ∑ i ∈ Finset.range (year - 1970), daysInYear (1970 + i)

def monthDays (year mon : ℕ) : ℕ := ∑ i ∈ Finset.range mon, daysInMonth year i

namespace Date

/-- The date as the library keeps it. -/
def tm (a : Date) : Tm := ⟨a.sec, a.min, a.hour, a.mday, a.mon, a.year - 1900⟩

def days (a : Date) : ℕ := yearDays a.year + monthDays a.year a.mon + (a.mday - 1)

def seconds (a : Date) : ℕ := 86400 * a.days + (3600 * a.hour + 60 * a.min + a.sec)

def fields (a : Date) : List ℕ := [a.year, a.mon, a.mday, a.hour, a.min, a.sec]

/-- The date is 19 January 2038 or before. -/
def InRange (a : Date) : Prop := a.year < 2038 ∨ a.year = 2038 ∧ a.mon = 0 ∧ a.mday ≤ 19

instance (a : Date) : Decidable a.InRange := inferInstanceAs (Decidable (_ ∨ _))

end Date

/-! ### Counting days -/

theorem yearDays_succ {year : ℕ} (h : 1970 ≤ year) : yearDays (year + 1) = yearDays year + daysInYear year := by
  have hlen : year + 1 - 1970 = year - 1970 + 1 := by omega
  have hlast : 1970 + (year - 1970) = year := by omega
  unfold yearDays
  rw [hlen, Finset.sum_range_succ, hlast]

theorem monthDays_succ (year mon : ℕ) : monthDays year (mon + 1) = monthDays year mon + daysInMonth year mon :=
  Finset.sum_range_succ _ _

theorem yearDays_eq {year : ℕ} (h : 1970 ≤ year) :
    yearDays year + 719527 + (year - 1) / 100 = 365 * year + (year - 1) / 4 + (year - 1) / 400 := by
  induction year, h using Nat.le_induction with
  | base => rfl
  | succ year h ih =>
    rw [yearDays_succ h, daysInYear]
    by_cases hleap : Leap year
    · rw [if_pos hleap]
      unfold Leap at hleap
      omega
    · rw [if_neg hleap]
      unfold Leap at hleap
      omega

theorem monthDays_eq {year mon : ℕ} (h : mon < 12) :
    monthDays year mon = if mon < 2 then 31 * mon
      else (153 * (mon + 1) - 457) / 5 + (if Leap year then 60 else 59) := by
  unfold monthDays
  interval_cases mon <;> simp only [Finset.sum_range_succ, Finset.sum_range_zero, daysInMonth] <;> split_ifs <;> omega

theorem monthDays_year (year : ℕ) : monthDays year 12 = daysInYear year := by
  have hlast : daysInMonth year 11 = 31 := rfl
  have hne : ¬ 11 < 2 := by decide
  rw [monthDays_succ, monthDays_eq (by decide), if_neg hne, hlast, daysInYear]
  split_ifs <;> rfl

theorem monthDays_mono (year : ℕ) : Monotone (monthDays year) := by
  apply monotone_nat_of_le_succ
  intro mon
  rw [monthDays_succ]
  exact Nat.le_add_right _ _

theorem yearDays_mono {year year' : ℕ} (hge : 1970 ≤ year) (h : year ≤ year') : yearDays year ≤ yearDays year' := by
  induction year', h using Nat.le_induction with
  | base => exact le_rfl
  | succ year' h ih =>
    rw [yearDays_succ (hge.trans h)]
    exact ih.trans (Nat.le_add_right _ _)

namespace Date

theorem days_lt_month (a : Date) : a.days < yearDays a.year + monthDays a.year (a.mon + 1) := by
  have hpos := a.mday_pos
  have hle := a.mday_le
  rw [monthDays_succ, days]
  omega

theorem days_lt_year (a : Date) : a.days < yearDays (a.year + 1) := by
  rw [yearDays_succ a.year_ge, ← monthDays_year]
  exact a.days_lt_month.trans_le (Nat.add_le_add_left (monthDays_mono a.year a.mon_lt) _)

theorem yearDays_le_days (a : Date) : yearDays a.year ≤ a.days := by
  unfold days
  omega

theorem secs_lt (a : Date) : 3600 * a.hour + 60 * a.min + a.sec < 86400 := by
  have hhour := a.hour_lt
  have hmin := a.min_lt
  have hsec := a.sec_lt
  omega

/-- A later date has more seconds. -/
theorem seconds_lt {a b : Date} (h : a.fields < b.fields) : a.seconds < b.seconds := by
  have hday : a.days < b.days → a.seconds < b.seconds := by
    intro hlt
    have ha := a.secs_lt
    unfold seconds
    omega
  simp only [fields, List.cons_lt_cons_iff, List.not_lt_nil, and_false, or_false] at h
  rcases h with hyear | ⟨hyear, hmon | ⟨hmon, hmday | ⟨hmday, htime⟩⟩⟩
  · apply hday
    calc a.days < yearDays (a.year + 1) := a.days_lt_year
      _ ≤ yearDays b.year := yearDays_mono (Nat.le_succ_of_le a.year_ge) hyear
      _ ≤ b.days := b.yearDays_le_days
  · apply hday
    calc a.days < yearDays a.year + monthDays a.year (a.mon + 1) := a.days_lt_month
      _ ≤ yearDays a.year + monthDays a.year b.mon := Nat.add_le_add_left (monthDays_mono a.year hmon) _
      _ ≤ b.days := by
        rw [hyear, days]
        exact Nat.le_add_right _ _
  · apply hday
    have hpos := a.mday_pos
    unfold days
    rw [hyear, hmon]
    omega
  · have ha := a.min_lt
    have hsec := a.sec_lt
    have hdays : a.days = b.days := by
      unfold days
      rw [hyear, hmon, hmday]
    unfold seconds
    rw [hdays]
    omega

/-! ### The closed formula -/

/-- The number of a day, with the year and month that start in March. -/
def marchDay (m y d : ℤ) : ℤ := d + (153 * m - 457).tdiv 5 + 365 * y + y.tdiv 4 - y.tdiv 100 + y.tdiv 400 - 719469

theorem marchDay_eq_ediv {m y : ℤ} (hm : 3 ≤ m) (hy : 0 ≤ y) (d : ℤ) :
    marchDay m y d = d + (153 * m - 457) / 5 + 365 * y + y / 4 - y / 100 + y / 400 - 719469 := by
  have hpos : 0 ≤ 153 * m - 457 := by omega
  unfold marchDay
  rw [Int.tdiv_eq_ediv_of_nonneg hpos, Int.tdiv_eq_ediv_of_nonneg hy, Int.tdiv_eq_ediv_of_nonneg hy,
    Int.tdiv_eq_ediv_of_nonneg hy]

theorem marchDay_winter {a : Date} (h : a.mon < 2) : marchDay (a.mon + 1 + 12) (a.year - 1) a.mday = a.days := by
  have hge := a.year_ge
  have hpos := a.mday_pos
  have hyear := yearDays_eq a.year_ge
  rw [marchDay_eq_ediv (by omega) (by omega), days, monthDays_eq a.mon_lt, if_pos h]
  omega

theorem marchDay_spring {a : Date} (h : ¬ a.mon < 2) : marchDay (a.mon + 1) a.year a.mday = a.days := by
  have hge := a.year_ge
  have hpos := a.mday_pos
  have hyear := yearDays_eq a.year_ge
  rw [marchDay_eq_ediv (by omega) (by omega), days, monthDays_eq a.mon_lt, if_neg h]
  by_cases hleap : Leap a.year
  · rw [if_pos hleap]
    unfold Leap at hleap
    omega
  · rw [if_neg hleap]
    unfold Leap at hleap
    omega

theorem mktimegm_eq_marchDay (tm : Tm) : mktimegm tm =
    int32 (86400 * if tm.tmMon + 1 < 3 then marchDay (tm.tmMon + 1 + 12) (tm.tmYear + 1900 - 1) tm.tmMday
      else marchDay (tm.tmMon + 1) (tm.tmYear + 1900) tm.tmMday) +
    int32 (3600 * tm.tmHour + 60 * tm.tmMin + tm.tmSec) := by
  unfold mktimegm marchDay
  by_cases h : tm.tmMon + 1 < 3
  · simp only [if_pos h]
  · simp only [if_neg h]

theorem mktimegm_eq (a : Date) : mktimegm a.tm = int32 (86400 * a.days) + (3600 * a.hour + 60 * a.min + a.sec : ℕ) := by
  have hsecs := a.secs_lt
  have hyear : (a.year : ℤ) - 1900 + 1900 = a.year := Int.sub_add_cancel _ _
  have htime : int32 (3600 * a.hour + 60 * a.min + a.sec) = (3600 * a.hour + 60 * a.min + a.sec : ℕ) := by
    unfold int32
    rw [Int.bmod_eq_of_le (by omega) (by omega)]
    push_cast
    rfl
  rw [mktimegm_eq_marchDay]
  unfold tm
  dsimp only
  rw [hyear, htime]
  by_cases hmon : a.mon < 2
  · rw [if_pos (by omega), marchDay_winter hmon]
  · rw [if_neg (by omega), marchDay_spring hmon]

/-- A day's first second fits an `int` up to day 24855. -/
theorem inRange_iff (a : Date) : a.InRange ↔ a.days ≤ 24855 := by
  have hstart := yearDays_eq (show 1970 ≤ 2038 by decide)
  unfold InRange
  rcases Nat.lt_trichotomy a.year 2038 with hyear | hyear | hyear
  · have hlt := a.days_lt_year.trans_le (yearDays_mono (Nat.le_succ_of_le a.year_ge) hyear)
    refine iff_of_true (.inl hyear) ?_
    omega
  · have hpos := a.mday_pos
    rw [days, hyear]
    by_cases hmon : a.mon = 0
    · have hnone : monthDays 2038 a.mon = 0 := by rw [hmon]; rfl
      rw [hnone]
      omega
    · have hmonth : monthDays 2038 1 ≤ monthDays 2038 a.mon := monthDays_mono 2038 (Nat.pos_of_ne_zero hmon)
      have hjan : monthDays 2038 1 = 31 := rfl
      omega
  · have hle : yearDays 2039 ≤ a.days := (yearDays_mono (by decide) hyear).trans a.yearDays_le_days
    have hnext := yearDays_eq (show 1970 ≤ 2039 by decide)
    omega

/-- Up to 19 January 2038, and no longer, the result is exact; up to then it is later for every later
date. -/
theorem mktimegm_exact_iff (a : Date) :
    (mktimegm a.tm = a.seconds ∧ ∀ b : Date, b.fields < a.fields → mktimegm b.tm < mktimegm a.tm) ↔ a.InRange := by
  have hexact : ∀ b : Date, mktimegm b.tm = b.seconds ↔ b.days ≤ 24855 := by
    intro b
    rw [mktimegm_eq, seconds, int32, Int.bmod_def]
    push_cast
    omega
  rw [hexact, inRange_iff]
  refine and_iff_left_of_imp fun ha b hlt => ?_
  have hb : b.days ≤ 24855 := by
    have hsecs := seconds_lt hlt
    have hbound := a.secs_lt
    unfold seconds at hsecs
    omega
  rw [(hexact a).2 ha, (hexact b).2 hb]
  exact_mod_cast seconds_lt hlt

/-- 20 January 2038, at midnight. -/
def overflowDay : Date :=
  ⟨2038, 0, 20, 0, 0, 0, by decide, by decide, by decide, by decide, by decide, by decide, by decide, by decide⟩

theorem mktimegm_negative : ¬ ∀ a : Date, mktimegm a.tm = a.seconds := by
  intro h
  have hnegative : mktimegm overflowDay.tm = -2147408896 := by decide
  have hday := h overflowDay
  rw [hnegative] at hday
  omega

end Date

end Ar7Qemu.Vl.Calendar
