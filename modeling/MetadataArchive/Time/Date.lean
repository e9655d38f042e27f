/-!
# Calendar dates

Dates of the proleptic Gregorian calendar, with a year zero and negative years, and the step to the
day after and the day before.
-/

namespace MetadataArchive

namespace Date

/-- Whether a year has a 29th of February. -/
def isLeapYear (year : Int) : Bool :=
  year % 4 == 0 && (year % 100 != 0 || year % 400 == 0)

/-- How many days a month has; `month` counts from 1. -/
def daysIn (year : Int) (month : Nat) : Nat :=
  if month = 2 then (if isLeapYear year then 29 else 28)
  else if month = 4 ∨ month = 6 ∨ month = 9 ∨ month = 11 then 30
  else 31

theorem one_le_daysIn (year : Int) (month : Nat) : 1 ≤ daysIn year month := by
  unfold daysIn
  split
  · split <;> omega
  · split <;> omega

end Date

/-- A date that exists. -/
structure Date where
  year : Int
  month : Nat
  day : Nat
  month_mem : 1 ≤ month ∧ month ≤ 12
  day_mem : 1 ≤ day ∧ day ≤ Date.daysIn year month
deriving DecidableEq

namespace Date

/-- The date with the given parts, if it exists. -/
def ofParts? (year : Int) (month day : Nat) : Option Date :=
  if h : (1 ≤ month ∧ month ≤ 12) ∧ 1 ≤ day ∧ day ≤ daysIn year month then
    some ⟨year, month, day, h.1, h.2⟩
  else
    none

/-- The first day of a year. -/
def firstOfYear (year : Int) : Date :=
  ⟨year, 1, 1, by omega, by simp [one_le_daysIn]⟩

/-- The last day of a year. -/
def lastOfYear (year : Int) : Date :=
  ⟨year, 12, 31, by omega, by simp [daysIn]⟩

/-- The day after. -/
def next (d : Date) : Date :=
  if h : d.day < daysIn d.year d.month then
    ⟨d.year, d.month, d.day + 1, d.month_mem, by omega⟩
  else if h : d.month < 12 then
    ⟨d.year, d.month + 1, 1, by omega, by simp [one_le_daysIn]⟩
  else
    firstOfYear (d.year + 1)

/-- The day before. -/
def previous (d : Date) : Date :=
  if h : 1 < d.day then
    ⟨d.year, d.month, d.day - 1, d.month_mem, by have := d.day_mem; omega⟩
  else if h : 1 < d.month then
    ⟨d.year, d.month - 1, daysIn d.year (d.month - 1), by have := d.month_mem; omega,
      by simp [one_le_daysIn]⟩
  else
    lastOfYear (d.year - 1)

end Date

end MetadataArchive
