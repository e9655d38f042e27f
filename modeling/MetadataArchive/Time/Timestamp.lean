import MetadataArchive.Time.Date

/-!
# Timestamps

A `Timestamp` is an instant of Coordinated Universal Time, to the nanosecond, given by its date and
time of day. Second 60 is a leap second: it is an instant of its own, different from the second that
follows it. Years are limited to a range that is part of the type.
-/

namespace MetadataArchive

/-- How many nanoseconds a second has. -/
def TimeOfDay.nanosecondsPerSecond : Nat :=
  1000000000

/-- A time of day. Second 60 of any minute is a leap second. -/
structure TimeOfDay where
  hour : Nat
  minute : Nat
  second : Nat
  nanosecond : Nat
  hour_lt : hour < 24
  minute_lt : minute < 60
  second_le : second ≤ 60
  nanosecond_lt : nanosecond < TimeOfDay.nanosecondsPerSecond
deriving DecidableEq

/-- The time of day with the given parts, if there is one. -/
def TimeOfDay.ofParts? (hour minute second nanosecond : Nat) : Option TimeOfDay :=
  if h : hour < 24 ∧ minute < 60 ∧ second ≤ 60 ∧ nanosecond < nanosecondsPerSecond then
    some ⟨hour, minute, second, nanosecond, h.1, h.2.1, h.2.2.1, h.2.2.2⟩
  else
    none

/-- Whether a year lies in the range that timestamps cover. -/
def Date.IsCovered (d : Date) : Prop :=
  -262143 ≤ d.year ∧ d.year ≤ 262142

instance (d : Date) : Decidable d.IsCovered :=
  inferInstanceAs (Decidable (_ ∧ _))

/-- An instant of Coordinated Universal Time. -/
structure Timestamp where
  date : Date
  time : TimeOfDay
  covered : date.IsCovered
deriving DecidableEq

namespace Timestamp

/-- The timestamp with the given date and time of day, if the year is covered. -/
def ofParts? (date : Date) (time : TimeOfDay) : Option Timestamp :=
  if h : date.IsCovered then some ⟨date, time, h⟩ else none

/-- The instant at which clocks that are `offset` minutes ahead of Coordinated Universal Time show a
date and a time of day. Both dates must be covered; the offset is less than a day either way, so
that the date changes by a day at most. -/
def ofLocal? (date : Date) (time : TimeOfDay) (offset : Int) : Option Timestamp :=
  if date.IsCovered then
    let minutes : Int := time.hour * 60 + time.minute - offset
    let date := if minutes < 0 then date.previous else if 1440 ≤ minutes then date.next else date
    let ofDay := (minutes % 1440).toNat
    (TimeOfDay.ofParts? (ofDay / 60) (ofDay % 60) time.second time.nanosecond).bind (ofParts? date)
  else
    none

end Timestamp

end MetadataArchive
