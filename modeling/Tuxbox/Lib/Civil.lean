import Mathlib.Order.Monotone.Basic
import Mathlib.Tactic.Basic

/-!
# The Gregorian calendar

Days are counted from 1 January 1970. A year here starts in March, so that the
leap day is its last; the months of a date are counted from January, which is 0.
-/

namespace Tuxbox.Civil

/-- The days before a year that starts in March, from the year 0 on. -/
def yearDays (y : Int) : Int := 365 * y + y / 4 - y / 100 + y / 400

/-- The days before a month, in a year that starts in March. -/
def monthDays (m : Int) : Int := (153 * m + 2) / 5

/-- 1 March of the year 0 is 719468 days before the first. -/
def epoch : Int := 719468

/-- The day of a date, of which month and day of the month may be out of range. -/
def dayNumber (year mon mday : Int) : Int :=
  yearDays (year + (mon + 10) / 12 - 1) + monthDays ((mon + 10) % 12) + (mday - 1) - epoch

/-- The year, from March on, that a day is in. The first guess is off by one at
most. -/
def marchYear (day : Int) : Int :=
  let guess := 400 * day / 146097
  if day < yearDays guess then guess - 1
  else if day < yearDays (guess + 1) then guess
  else guess + 1

structure Date where
  year : Int
  mon : Int
  mday : Int

/-- The date of a day. -/
def civil (day : Int) : Date :=
  let day := day + epoch
  let y := marchYear day
  let m := (5 * (day - yearDays y) + 2) / 153
  ⟨y + (m + 2) / 12, (m + 2) % 12, day - yearDays y - monthDays m + 1⟩

theorem yearDays_succ (y : Int) :
    yearDays y + 365 ≤ yearDays (y + 1) ∧ yearDays (y + 1) ≤ yearDays y + 366 := by
  unfold yearDays
  omega

theorem marchYear_spec (day : Int) :
    yearDays (marchYear day) ≤ day ∧ day < yearDays (marchYear day + 1) := by
  have hlow : yearDays (400 * day / 146097 - 1) ≤ day := by
    unfold yearDays
    omega
  have hhigh : day < yearDays (400 * day / 146097 + 1 + 1) := by
    unfold yearDays
    omega
  unfold marchYear
  simp only
  split
  · rename_i h
    rw [Int.sub_add_cancel]
    exact ⟨hlow, h⟩
  · split
    · constructor <;> omega
    · constructor <;> omega

/-- The day of the year, from March on, and the month it is in. -/
theorem march_range (day : Int) :
    0 ≤ day - yearDays (marchYear day) ∧ day - yearDays (marchYear day) ≤ 365 := by
  obtain ⟨hlow, hhigh⟩ := marchYear_spec day
  have hyear := yearDays_succ (marchYear day)
  omega

theorem civil_range (day : Int) :
    0 ≤ (civil day).mon ∧ (civil day).mon ≤ 11 ∧ 1 ≤ (civil day).mday ∧ (civil day).mday ≤ 31 := by
  obtain ⟨hlow, hhigh⟩ := march_range (day + epoch)
  simp only [civil]
  generalize day + epoch - yearDays (marchYear (day + epoch)) = d at hlow hhigh
  unfold monthDays
  omega

/-- It is the date of that day, and in range. -/
theorem dayNumber_civil (day : Int) :
    dayNumber (civil day).year (civil day).mon (civil day).mday = day := by
  obtain ⟨hlow, hhigh⟩ := march_range (day + epoch)
  simp only [civil, dayNumber]
  generalize hd : day + epoch - yearDays (marchYear (day + epoch)) = d at hlow hhigh
  have hm : 0 ≤ (5 * d + 2) / 153 ∧ (5 * d + 2) / 153 ≤ 11 := by omega
  generalize (5 * d + 2) / 153 = m at hm
  have hyear : marchYear (day + epoch) + (m + 2) / 12 + ((m + 2) % 12 + 10) / 12 - 1 =
      marchYear (day + epoch) := by omega
  have hmonth : ((m + 2) % 12 + 10) % 12 = m := by omega
  rw [hyear, hmonth]
  omega

/-- Later days and months. -/
theorem dayNumber_add (year mon mday k : Int) :
    dayNumber year mon (mday + k) = dayNumber year mon mday + k := by
  unfold dayNumber
  omega

/-- The same day of the next month is 28 to 31 days later. -/
theorem dayNumber_next_month (year mon mday : Int) :
    dayNumber year mon mday + 28 ≤ dayNumber year (mon + 1) mday ∧
      dayNumber year (mon + 1) mday ≤ dayNumber year mon mday + 31 := by
  unfold dayNumber
  have hmod : 0 ≤ (mon + 10) % 12 ∧ (mon + 10) % 12 ≤ 11 := by omega
  by_cases hlast : (mon + 10) % 12 = 11
  · have hyear : year + (mon + 1 + 10) / 12 - 1 = year + (mon + 10) / 12 - 1 + 1 := by omega
    have hmonth : (mon + 1 + 10) % 12 = 0 := by omega
    have hdays := yearDays_succ (year + (mon + 10) / 12 - 1)
    rw [hyear, hmonth, hlast]
    have h11 : monthDays 11 = 337 := by decide
    have h0 : monthDays 0 = 0 := by decide
    omega
  · have hyear : year + (mon + 1 + 10) / 12 - 1 = year + (mon + 10) / 12 - 1 := by omega
    have hmonth : (mon + 1 + 10) % 12 = (mon + 10) % 12 + 1 := by omega
    rw [hyear, hmonth]
    unfold monthDays
    omega

/-- A day is before the first of the month after its own. -/
theorem lt_next_month (day : Int) : day < dayNumber (civil day).year ((civil day).mon + 1) 1 := by
  obtain ⟨hlow, hhigh⟩ := march_range (day + epoch)
  obtain ⟨hstart, hend⟩ := marchYear_spec (day + epoch)
  simp only [civil, dayNumber]
  generalize marchYear (day + epoch) = y at hlow hhigh hstart hend
  generalize hd : day + epoch - yearDays y = d at hlow hhigh
  have hm : 0 ≤ (5 * d + 2) / 153 ∧ (5 * d + 2) / 153 ≤ 11 := by omega
  by_cases hlast : (5 * d + 2) / 153 = 11
  · -- The month is February, and the next day begins a year.
    have hyear : y + ((5 * d + 2) / 153 + 2) / 12 + ((((5 * d + 2) / 153 + 2) % 12 + 1 + 10) / 12) -
        1 = y + 1 := by omega
    have hmonth : (((5 * d + 2) / 153 + 2) % 12 + 1 + 10) % 12 = 0 := by omega
    have h0 : monthDays 0 = 0 := by decide
    rw [hyear, hmonth, h0]
    omega
  · have hyear : y + ((5 * d + 2) / 153 + 2) / 12 + ((((5 * d + 2) / 153 + 2) % 12 + 1 + 10) / 12) -
        1 = y := by omega
    have hmonth : (((5 * d + 2) / 153 + 2) % 12 + 1 + 10) % 12 = (5 * d + 2) / 153 + 1 := by omega
    rw [hyear, hmonth]
    unfold monthDays
    omega

/-- The months counted from the year 0 on. -/
theorem dayNumber_months (year mon mday : Int) :
    dayNumber year mon mday = dayNumber 0 (12 * year + mon) mday := by
  unfold dayNumber
  have hyear : 0 + (12 * year + mon + 10) / 12 - 1 = year + (mon + 10) / 12 - 1 := by omega
  have hmonth : (12 * year + mon + 10) % 12 = (mon + 10) % 12 := by omega
  rw [hyear, hmonth]

theorem dayNumber_mono {mon mon' : Int} (h : mon ≤ mon') :
    dayNumber 0 mon 1 ≤ dayNumber 0 mon' 1 := by
  apply monotone_int_of_le_succ _ h
  intro m
  have hnext := dayNumber_next_month 0 m 1
  omega

/-- A day is in no later month than a later day. -/
theorem civil_le {day day' : Int} (h : day ≤ day') :
    12 * (civil day).year + (civil day).mon ≤ 12 * (civil day').year + (civil day').mon := by
  have hend := lt_next_month day'
  have hday := dayNumber_civil day
  have hrange := civil_range day
  rw [dayNumber_months] at hend
  rw [dayNumber_months, show (civil day).mday = 1 + ((civil day).mday - 1) by omega,
    dayNumber_add] at hday
  by_contra hlater
  have hle : dayNumber 0 (12 * (civil day').year + ((civil day').mon + 1)) 1 ≤
      dayNumber 0 (12 * (civil day).year + (civil day).mon) 1 := by
    apply dayNumber_mono
    omega
  omega

/-- The leap day of 2000, and the day after it. -/
example : dayNumber 2000 1 29 = 11016 ∧ dayNumber 2000 2 1 = 11017 ∧ dayNumber 1970 0 1 = 0 := by
  decide

end Tuxbox.Civil
