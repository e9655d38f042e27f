import Mathlib.Data.Int.Init
import Mathlib.Order.Monotone.Basic
import MetadataArchive.Time.Timestamp

/-!
# Days by number

Every date has a number, which no other date has: days are counted from the 1st of January 1970, in
both directions and without end. The day after has the next number and the day before the previous
one, also where a month or a year ends.
-/

namespace MetadataArchive.Date

/-! ## The days of a year -/

/-- How many days a year has. -/
def daysInYear (year : Int) : Nat :=
  if isLeapYear year then 366 else 365

/-- How many days the first months of a year have together. -/
def daysThrough (year : Int) : Nat → Nat
  | 0 => 0
  | month + 1 => daysThrough year month + daysIn year (month + 1)

theorem daysThrough_twelve (year : Int) : daysThrough year 12 = daysInYear year := by
  unfold daysInYear
  cases h : isLeapYear year <;> simp [daysThrough, daysIn, h]

theorem daysThrough_mono (year : Int) : Monotone (daysThrough year) :=
  monotone_nat_of_le_succ fun _ => Nat.le_add_right _ _

theorem daysThrough_of_pos (year : Int) {month : Nat} (h : 1 ≤ month) :
    daysThrough year month = daysThrough year (month - 1) + daysIn year month := by
  obtain ⟨month, rfl⟩ := Nat.exists_eq_add_of_le' h
  rfl

/-- The number of a day in its year, from 1. -/
def dayOfYear (d : Date) : Nat :=
  daysThrough d.year (d.month - 1) + d.day

theorem dayOfYear_firstOfYear (year : Int) : (firstOfYear year).dayOfYear = 1 :=
  rfl

theorem dayOfYear_lastOfYear (year : Int) : (lastOfYear year).dayOfYear = daysInYear year := by
  rw [← daysThrough_twelve]
  rfl

/-- A day comes after all days of the months before, and not after the last one of its own month. -/
theorem dayOfYear_mem (d : Date) : daysThrough d.year (d.month - 1) < d.dayOfYear ∧
    d.dayOfYear ≤ daysThrough d.year d.month := by
  obtain ⟨hfirst, hlast⟩ := d.day_mem
  have hmonth := daysThrough_of_pos d.year d.month_mem.1
  unfold dayOfYear
  omega

theorem one_le_dayOfYear (d : Date) : 1 ≤ d.dayOfYear :=
  Nat.one_le_of_lt d.dayOfYear_mem.1

theorem dayOfYear_le (d : Date) : d.dayOfYear ≤ daysInYear d.year := by
  rw [← daysThrough_twelve]
  exact le_trans d.dayOfYear_mem.2 (daysThrough_mono _ d.month_mem.2)

theorem dayOfYear_lt_of_month_lt {d d' : Date} (hyear : d.year = d'.year)
    (hmonth : d.month < d'.month) : d.dayOfYear < d'.dayOfYear := by
  have hthrough : daysThrough d.year d.month ≤ daysThrough d'.year (d'.month - 1) := by
    rw [hyear]
    exact daysThrough_mono _ (Nat.le_sub_one_of_lt hmonth)
  exact lt_of_le_of_lt (le_trans d.dayOfYear_mem.2 hthrough) d'.dayOfYear_mem.1

/-! ## The days of all years -/

/-- How many days there are from the start of the year 1 to the start of a year; fewer than none for
the years before. -/
def daysBeforeYear (year : Int) : Int :=
  365 * (year - 1) + (year - 1) / 4 - (year - 1) / 100 + (year - 1) / 400

theorem daysBeforeYear_add_one (year : Int) :
    daysBeforeYear (year + 1) = daysBeforeYear year + daysInYear year := by
  unfold daysBeforeYear daysInYear isLeapYear
  split
  · next h =>
    simp only [Bool.and_eq_true, beq_iff_eq, Bool.or_eq_true, bne_iff_ne] at h
    omega
  · next h =>
    simp only [Bool.and_eq_true, beq_iff_eq, Bool.or_eq_true, bne_iff_ne] at h
    omega

theorem daysBeforeYear_le {year year' : Int} (h : year ≤ year') :
    daysBeforeYear year ≤ daysBeforeYear year' := by
  unfold daysBeforeYear
  omega

/-- How many days there are from the start of the year 1 to the start of 1970. -/
def daysBeforeEpoch : Int :=
  719162

/-- The number of a date: how many days it is after the 1st of January 1970. -/
def dayNumber (d : Date) : Int :=
  daysBeforeYear d.year + (d.dayOfYear - 1) - daysBeforeEpoch

theorem dayNumber_firstOfYear (year : Int) :
    (firstOfYear year).dayNumber = daysBeforeYear year - daysBeforeEpoch := by
  have hyear : (firstOfYear year).year = year := rfl
  rw [dayNumber, dayOfYear_firstOfYear, hyear]
  omega

theorem dayNumber_lastOfYear (year : Int) :
    (lastOfYear year).dayNumber = daysBeforeYear (year + 1) - 1 - daysBeforeEpoch := by
  have hyear : (lastOfYear year).year = year := rfl
  rw [dayNumber, dayOfYear_lastOfYear, daysBeforeYear_add_one, hyear]
  omega

theorem le_year_iff (d : Date) (year : Int) :
    year ≤ d.year ↔ daysBeforeYear year - daysBeforeEpoch ≤ d.dayNumber := by
  have hfirst := d.one_le_dayOfYear
  have hlast := d.dayOfYear_le
  have hnext := daysBeforeYear_add_one d.year
  unfold dayNumber
  constructor
  · intro h
    have := daysBeforeYear_le h
    omega
  · intro h
    by_contra hlater
    have := daysBeforeYear_le (Int.add_one_le_of_lt (Int.not_le.1 hlater))
    omega

/-! ## The day after and the day before -/

theorem dayNumber_next (d : Date) : d.next.dayNumber = d.dayNumber + 1 := by
  have hlast := d.day_mem.2
  have hthrough := daysThrough_of_pos d.year d.month_mem.1
  unfold next
  split
  · -- within a month
    simp only [dayNumber, dayOfYear]
    omega
  split
  · -- from the end of a month to the next
    simp only [dayNumber, dayOfYear, Nat.add_sub_cancel]
    omega
  · -- from the end of a year to the next
    next hday hmonth =>
    have hmonth : d.month = 12 := Nat.le_antisymm d.month_mem.2 (Nat.not_lt.1 hmonth)
    have hlast : d.day = daysIn d.year d.month := Nat.le_antisymm d.day_mem.2 (Nat.not_lt.1 hday)
    rw [dayNumber_firstOfYear, daysBeforeYear_add_one, dayNumber, dayOfYear, hlast, ← hthrough,
      hmonth, daysThrough_twelve]
    omega

theorem dayNumber_previous (d : Date) : d.previous.dayNumber = d.dayNumber - 1 := by
  have hfirst := d.day_mem.1
  unfold previous
  split
  · -- within a month
    simp only [dayNumber, dayOfYear]
    omega
  split
  · -- from the start of a month to the one before
    next hday hmonth =>
    have hthrough := daysThrough_of_pos d.year (Nat.le_sub_one_of_lt hmonth)
    simp only [dayNumber, dayOfYear]
    omega
  · -- from the start of a year to the one before
    next hday hmonth =>
    have hmonth : d.month = 1 := Nat.le_antisymm (Nat.not_lt.1 hmonth) d.month_mem.1
    have hnone : daysThrough d.year (1 - 1) = 0 := rfl
    rw [dayNumber_lastOfYear, Int.sub_add_cancel, dayNumber, dayOfYear, hmonth, hnone]
    omega

/-! ## Dates and their numbers -/

theorem eq_of_parts_eq {d d' : Date} (hyear : d.year = d'.year) (hmonth : d.month = d'.month)
    (hday : d.day = d'.day) : d = d' := by
  cases d
  cases d'
  cases hyear
  cases hmonth
  cases hday
  rfl

theorem dayNumber_injective : Function.Injective dayNumber := by
  intro d d' h
  have hyear : d.year = d'.year := by
    have hle := (d.le_year_iff d.year).1 le_rfl
    have hge := (d'.le_year_iff d'.year).1 le_rfl
    rw [h] at hle
    rw [← h] at hge
    exact le_antisymm ((d'.le_year_iff _).2 hle) ((d.le_year_iff _).2 hge)
  have hofYear : d.dayOfYear = d'.dayOfYear := by
    unfold dayNumber at h
    rw [hyear] at h
    omega
  have hmonth : d.month = d'.month := by
    rcases Nat.lt_trichotomy d.month d'.month with hlt | heq | hlt
    · exact absurd hofYear (dayOfYear_lt_of_month_lt hyear hlt).ne
    · exact heq
    · exact absurd hofYear (dayOfYear_lt_of_month_lt hyear.symm hlt).ne'
  refine eq_of_parts_eq hyear hmonth ?_
  unfold dayOfYear at hofYear
  rw [hyear, hmonth] at hofYear
  exact Nat.add_left_cancel hofYear

/-- The dates that timestamps cover, by their numbers. -/
theorem isCovered_iff (d : Date) :
    d.IsCovered ↔ -96465292 ≤ d.dayNumber ∧ d.dayNumber ≤ 95026236 := by
  have hfirst : daysBeforeYear (-262143) - daysBeforeEpoch = -96465292 := by decide
  have hlast : daysBeforeYear 262143 - daysBeforeEpoch = 95026237 := by decide
  have hlow := d.le_year_iff (-262143)
  have hhigh := d.le_year_iff 262143
  rw [hfirst] at hlow
  rw [hlast] at hhigh
  unfold IsCovered
  omega

end MetadataArchive.Date
