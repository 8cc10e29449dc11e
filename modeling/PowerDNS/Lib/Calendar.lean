import Mathlib.Data.Int.Basic
import Mathlib.Algebra.BigOperators.Group.List.Basic
import Mathlib.Tactic.Ring

/-!
# Calendar times

A number of seconds since 1 January 1970 and the broken-down time that belongs to it, in the Gregorian
calendar. `gmtime` takes whole years and months away until the rest is a day of a month, as C libraries
do, and `timegm` adds them up again, whatever is in the fields.

`timegm_gmtime` says that nothing is lost on the way there and back, and `gmtime_range` in which ranges
the fields lie.
-/

namespace Calendar

open List

/-! ### Years and months -/

/-- A year with a 29 February. -/
def IsLeap (year : Int) : Prop := year % 4 = 0 ∧ (year % 100 ≠ 0 ∨ year % 400 = 0)

instance : DecidablePred IsLeap := fun year =>
  inferInstanceAs (Decidable (year % 4 = 0 ∧ (year % 100 ≠ 0 ∨ year % 400 = 0)))

/-- The days of a year. -/
def yearDays (year : Int) : Nat := if IsLeap year then 366 else 365

/-- The days of its months. -/
def monthDays (year : Int) : List Nat :=
  [31, if IsLeap year then 29 else 28, 31, 30, 31, 30, 31, 31, 30, 31, 30, 31]

/-- The day on which a year begins. -/
def yearStart (year : Int) : Int :=
  365 * (year - 1970) + (year - 1) / 4 - (year - 1) / 100 + (year - 1) / 400 - 477

theorem yearStart_epoch : yearStart 1970 = 0 := by decide

theorem le_yearDays (year : Int) : 365 ≤ yearDays year := by
  unfold yearDays
  split <;> omega

theorem yearStart_succ (year : Int) : yearStart (year + 1) = yearStart year + yearDays year := by
  unfold yearStart yearDays
  split
  next h =>
    unfold IsLeap at h
    omega
  next h =>
    unfold IsLeap at h
    omega

theorem length_monthDays (year : Int) : (monthDays year).length = 12 := rfl

theorem sum_monthDays (year : Int) : (monthDays year).sum = yearDays year := by
  unfold monthDays yearDays
  split <;> rfl

theorem monthDays_le {year : Int} {n : Nat} (h : n ∈ monthDays year) : n ≤ 31 := by
  unfold monthDays at h
  simp only [mem_cons, not_mem_nil, or_false] at h
  split at h <;> omega

/-! ### Taking years and months away -/

/-- The year a day lies in that is `days` days behind the beginning of `year`, and its number there. -/
def splitYear : Nat → Int → Nat → Int × Nat
  | 0, year, days => (year, days)
  | fuel + 1, year, days =>
    if days < yearDays year then (year, days) else splitYear fuel (year + 1) (days - yearDays year)

theorem splitYear_spec {fuel : Nat} {year : Int} {days : Nat} (h : days < 365 * (fuel + 1)) :
    yearStart (splitYear fuel year days).1 + (splitYear fuel year days).2 = yearStart year + days ∧
      (splitYear fuel year days).2 < yearDays (splitYear fuel year days).1 ∧
        year ≤ (splitYear fuel year days).1 ∧ (splitYear fuel year days).1 ≤ year + fuel := by
  induction fuel generalizing year days with
  | zero =>
    have hle := le_yearDays year
    exact ⟨rfl, (by omega : days < yearDays year), Int.le_refl year,
      (by omega : year ≤ year + (0 : Nat))⟩
  | succ fuel ih =>
    unfold splitYear
    split
    next hlt => exact ⟨rfl, hlt, by omega, by omega⟩
    next hlt =>
      have hle := le_yearDays year
      obtain ⟨hstart, hday, hlo, hhi⟩ := @ih (year + 1) (days - yearDays year) (by omega)
      rw [yearStart_succ] at hstart
      exact ⟨by omega, hday, by omega, by omega⟩

/-- The month a day of the year lies in, and its number there. -/
def splitMonth : List Nat → Nat → Nat × Nat
  | [], days => (0, days)
  | n :: ns, days =>
    if days < n then (0, days)
    else
      let r := splitMonth ns (days - n)
      (r.1 + 1, r.2)

theorem splitMonth_spec {months : List Nat} {days : Nat} (h : days < months.sum) :
    (months.take (splitMonth months days).1).sum + (splitMonth months days).2 = days ∧
      (splitMonth months days).1 < months.length ∧
        ∃ n ∈ months, (splitMonth months days).2 < n := by
  induction months generalizing days with
  | nil => exact absurd h (Nat.not_lt_zero _)
  | cons n ns ih =>
    unfold splitMonth
    split
    next hlt => exact ⟨by simp, Nat.zero_lt_succ _, n, mem_cons_self, hlt⟩
    next hlt =>
      rw [sum_cons] at h
      obtain ⟨hsum, hlen, k, hk, hday⟩ := @ih (days - n) (by omega)
      refine ⟨?_, Nat.succ_lt_succ hlen, k, mem_cons_of_mem n hk, hday⟩
      dsimp only
      rw [take_succ_cons, sum_cons]
      omega

/-! ### Broken-down times -/

/-- `struct tm`. Years count from 1900 and months from zero. -/
structure Tm where
  tm_year : Int
  tm_mon : Int
  tm_mday : Int
  tm_hour : Int
  tm_min : Int
  tm_sec : Int
  deriving DecidableEq

/-- A date of the calendar, and a time of the day. -/
structure Tm.Valid (tm : Tm) : Prop where
  mon : 0 ≤ tm.tm_mon ∧ tm.tm_mon < 12
  mday : 1 ≤ tm.tm_mday ∧ tm.tm_mday ≤ (monthDays (tm.tm_year + 1900)).getD tm.tm_mon.toNat 0
  hour : 0 ≤ tm.tm_hour ∧ tm.tm_hour < 24
  min : 0 ≤ tm.tm_min ∧ tm.tm_min < 60
  sec : 0 ≤ tm.tm_sec ∧ tm.tm_sec < 60

/-- `gmtime_r(&t, &tm)`, for a time that is not before 1970. -/
def gmtime (t : Nat) : Tm :=
  let days := t / 86400
  let year := splitYear (days / 365) 1970 days
  let month := splitMonth (monthDays year.1) year.2
  { tm_year := year.1 - 1900
    tm_mon := month.1
    tm_mday := month.2 + 1
    tm_hour := (t % 86400 / 3600 : Nat)
    tm_min := (t % 3600 / 60 : Nat)
    tm_sec := (t % 60 : Nat) }

/-- The day a date stands for, also when its month or day lies outside the year. -/
def dayOf (tm : Tm) : Int :=
  let year := tm.tm_year + 1900 + tm.tm_mon / 12
  yearStart year + (((monthDays year).take (tm.tm_mon % 12).toNat).sum : Nat) + tm.tm_mday - 1

/-- `timegm(&tm)` of the C library. -/
def timegm (tm : Tm) : Int :=
  dayOf tm * 86400 + tm.tm_hour * 3600 + tm.tm_min * 60 + tm.tm_sec

/-- What the two splits in `gmtime` come to. -/
theorem gmtime_split (t : Nat) : ∃ year : Int, ∃ days month mday : Nat,
    splitYear (t / 86400 / 365) 1970 (t / 86400) = (year, days) ∧
      splitMonth (monthDays year) days = (month, mday) ∧
        yearStart year + (((monthDays year).take month).sum : Nat) + mday = (t / 86400 : Nat) ∧
          month < 12 ∧ mday < 31 ∧ 1970 ≤ year ∧ year ≤ 1970 + (t / 86400 / 365 : Nat) := by
  obtain ⟨hstart, hday, hlo, hhi⟩ := @splitYear_spec (t / 86400 / 365) 1970 (t / 86400) (by omega)
  generalize hy : splitYear (t / 86400 / 365) 1970 (t / 86400) = year at hstart hday hlo hhi
  rw [yearStart_epoch] at hstart
  obtain ⟨hsum, hlen, n, hn, hmday⟩ := @splitMonth_spec (monthDays year.1) year.2
    (by rw [sum_monthDays]; exact hday)
  generalize hm : splitMonth (monthDays year.1) year.2 = month at hsum hlen hmday
  have hle := monthDays_le hn
  exact ⟨year.1, year.2, month.1, month.2, rfl, hm, by omega, hlen, by omega, hlo, hhi⟩

/-- **A time comes back** from its broken-down form. -/
theorem timegm_gmtime (t : Nat) : timegm (gmtime t) = t := by
  obtain ⟨year, days, month, mday, hyear, hmonth, hday, hlt, -, -, -⟩ := gmtime_split t
  have htm : gmtime t = ⟨year - 1900, month, mday + 1, (t % 86400 / 3600 : Nat),
      (t % 3600 / 60 : Nat), (t % 60 : Nat)⟩ := by
    unfold gmtime
    dsimp only
    rw [hyear, hmonth]
  have hmod : ((month : Int) % 12).toNat = month := by omega
  have hdiv : year - 1900 + 1900 + (month : Int) / 12 = year := by omega
  rw [htm]
  unfold timegm dayOf
  dsimp only
  rw [hmod, hdiv]
  omega

/-- **The ranges of the fields.** -/
theorem gmtime_range (t : Nat) :
    (70 ≤ (gmtime t).tm_year ∧ (gmtime t).tm_year ≤ 70 + (t / 86400 / 365 : Nat)) ∧
      (0 ≤ (gmtime t).tm_mon ∧ (gmtime t).tm_mon ≤ 11) ∧
        (1 ≤ (gmtime t).tm_mday ∧ (gmtime t).tm_mday ≤ 31) ∧
          (0 ≤ (gmtime t).tm_hour ∧ (gmtime t).tm_hour ≤ 23) ∧
            (0 ≤ (gmtime t).tm_min ∧ (gmtime t).tm_min ≤ 59) ∧
              0 ≤ (gmtime t).tm_sec ∧ (gmtime t).tm_sec ≤ 59 := by
  obtain ⟨year, days, month, mday, hyear, hmonth, -, hlt, hmday, hlo, hhi⟩ := gmtime_split t
  unfold gmtime
  dsimp only
  rw [hyear, hmonth]
  omega

/-- The fields of a time of the years with four digits. -/
theorem exists_fields {t : Nat} (ht : t < 2 ^ 33) : ∃ year mon mday hour min sec : Nat,
    (year < 10 ^ 4 ∧ mon < 10 ^ 2 ∧ mday < 10 ^ 2 ∧ hour < 10 ^ 2 ∧ min < 10 ^ 2 ∧ sec < 10 ^ 2) ∧
    gmtime t = ⟨(year : Int) - 1900, (mon : Int) - 1, mday, hour, min, sec⟩ := by
  obtain ⟨⟨hy, hy'⟩, ⟨hm, hm'⟩, ⟨hd, hd'⟩, ⟨hh, hh'⟩, ⟨hi, hi'⟩, hs, hs'⟩ := gmtime_range t
  generalize gmtime t = tm at hy hy' hm hm' hd hd' hh hh' hi hi' hs hs'
  obtain ⟨tm_year, tm_mon, tm_mday, tm_hour, tm_min, tm_sec⟩ := tm
  dsimp only at hy hy' hm hm' hd hd' hh hh' hi hi' hs hs'
  obtain ⟨year, rfl⟩ : ∃ year : Nat, tm_year = (year : Int) - 1900 := ⟨(tm_year + 1900).toNat, by omega⟩
  obtain ⟨mon, rfl⟩ : ∃ mon : Nat, tm_mon = (mon : Int) - 1 := ⟨(tm_mon + 1).toNat, by omega⟩
  obtain ⟨mday, rfl⟩ := Int.eq_ofNat_of_zero_le (show 0 ≤ tm_mday by omega)
  obtain ⟨hour, rfl⟩ := Int.eq_ofNat_of_zero_le hh
  obtain ⟨min, rfl⟩ := Int.eq_ofNat_of_zero_le hi
  obtain ⟨sec, rfl⟩ := Int.eq_ofNat_of_zero_le hs
  exact ⟨year, mon, mday, hour, min, sec, ⟨by omega, by omega, by omega, by omega, by omega, by omega⟩, rfl⟩

example : gmtime 1262304000 = ⟨110, 0, 1, 0, 0, 0⟩ := by decide

end Calendar
