import MetadataArchive.Proofs.Time.Calendar
import MetadataArchive.Proofs.Time.Spelling

/-!
# The instant that clocks show

Clocks ahead of Coordinated Universal Time or behind it show another minute, which may be one of
another day, month or year. What they show is an instant all the same: a number of seconds from the
start of 1970, with the nanoseconds and the mark of a leap second, which are the same on all clocks.
A timestamp is what clocks without an offset show at that instant.
-/

namespace MetadataArchive

/-- The number of a second in its day. A leap second has the number of the second before it. -/
def TimeOfDay.secondOfDay (t : TimeOfDay) : Nat :=
  t.hour * 3600 + t.minute * 60 + min t.second 59

/-- Whether a time of day is within a leap second. -/
def TimeOfDay.isLeap (t : TimeOfDay) : Bool :=
  t.second == 60

/-- What a clock shows that is some minutes ahead of Coordinated Universal Time. -/
structure LocalTime where
  date : Date
  time : TimeOfDay
  offset : Int
  offset_mem : -1440 < offset ∧ offset < 1440
deriving DecidableEq

/-- A point in time. -/
structure Instant where
  /-- How many seconds it is after the start of 1970. -/
  second : Int
  /-- Whether it is in a leap second, which has the number of the second before it. -/
  isLeap : Bool
  nanosecond : Nat
deriving DecidableEq

/-- The instant at which a clock shows a local time. -/
def LocalTime.instant (l : LocalTime) : Instant where
  second := l.date.dayNumber * 86400 + l.time.secondOfDay - l.offset * 60
  isLeap := l.time.isLeap
  nanosecond := l.time.nanosecond

/-- A timestamp, as a clock without an offset shows it. -/
def Timestamp.utc (t : Timestamp) : LocalTime :=
  ⟨t.date, t.time, 0, by decide⟩

/-- The instant that a timestamp names. -/
def Timestamp.instant (t : Timestamp) : Instant :=
  t.utc.instant

/-- Whether the date of an instant in Coordinated Universal Time is one that timestamps cover. -/
def Instant.IsCovered (i : Instant) : Prop :=
  -8334601228800 ≤ i.second ∧ i.second ≤ 8210266876799

instance (i : Instant) : Decidable i.IsCovered :=
  inferInstanceAs (Decidable (_ ∧ _))

/-! ## Clocks with the same offset -/

namespace TimeOfDay

theorem secondOfDay_lt (t : TimeOfDay) : t.secondOfDay < 86400 := by
  have hhour := t.hour_lt
  have hminute := t.minute_lt
  unfold secondOfDay
  omega

theorem eq_of_parts_eq {t u : TimeOfDay} (hhour : t.hour = u.hour) (hminute : t.minute = u.minute)
    (hsecond : t.second = u.second) (hnanosecond : t.nanosecond = u.nanosecond) : t = u := by
  cases t
  cases u
  cases hhour
  cases hminute
  cases hsecond
  cases hnanosecond
  rfl

theorem eq_of_secondOfDay_eq {t u : TimeOfDay} (h : t.secondOfDay = u.secondOfDay)
    (hleap : t.isLeap = u.isLeap) (hnanosecond : t.nanosecond = u.nanosecond) : t = u := by
  have hmark : t.second = 60 ↔ u.second = 60 := by
    simpa only [isLeap, beq_iff_eq] using Bool.eq_iff_iff.1 hleap
  have := t.minute_lt
  have := u.minute_lt
  have := t.second_le
  have := u.second_le
  unfold secondOfDay at h
  exact eq_of_parts_eq (by omega) (by omega) (by omega) hnanosecond

end TimeOfDay

namespace LocalTime

/-- Clocks with the same offset never show the same at different instants. -/
theorem eq_of_instant_eq (l m : LocalTime) (hoffset : l.offset = m.offset)
    (h : l.instant = m.instant) : l.date = m.date ∧ l.time = m.time := by
  obtain ⟨hsecond, hleap, hnanosecond⟩ := Instant.mk.inj h
  have hl := l.time.secondOfDay_lt
  have hm := m.time.secondOfDay_lt
  rw [hoffset] at hsecond
  refine ⟨Date.dayNumber_injective ?_, TimeOfDay.eq_of_secondOfDay_eq ?_ hleap hnanosecond⟩
  · omega
  · omega

/-! ## What a clock without an offset shows -/

/-- The minute of the day that a clock without an offset shows, counted from the start of the day
that the local clock shows. -/
def utcMinute (l : LocalTime) : Int :=
  l.time.hour * 60 + l.time.minute - l.offset

theorem utcMinute_mem (l : LocalTime) : -1440 ≤ l.utcMinute ∧ l.utcMinute < 2880 := by
  have hhour := l.time.hour_lt
  have hminute := l.time.minute_lt
  have hoffset := l.offset_mem
  unfold utcMinute
  omega

/-- The date that a clock without an offset shows. -/
def utcDate (l : LocalTime) : Date :=
  if l.utcMinute < 0 then l.date.previous else if 1440 ≤ l.utcMinute then l.date.next else l.date

/-- The time of day that a clock without an offset shows. -/
def utcTime (l : LocalTime) : TimeOfDay where
  hour := (l.utcMinute % 1440).toNat / 60
  minute := (l.utcMinute % 1440).toNat % 60
  second := l.time.second
  nanosecond := l.time.nanosecond
  hour_lt := by omega
  minute_lt := by omega
  second_le := l.time.second_le
  nanosecond_lt := l.time.nanosecond_lt

/-- The same instant, on a clock without an offset. -/
def toUtc (l : LocalTime) : LocalTime :=
  ⟨l.utcDate, l.utcTime, 0, by decide⟩

/-- The date changes by one day at most, and the minutes make up for it. -/
theorem dayNumber_utcDate (l : LocalTime) :
    l.utcDate.dayNumber * 1440 + l.utcMinute % 1440 = l.date.dayNumber * 1440 + l.utcMinute := by
  have hminute := l.utcMinute_mem
  unfold utcDate
  split
  · rw [Date.dayNumber_previous]
    omega
  split
  · rw [Date.dayNumber_next]
    omega
  · omega

theorem secondOfDay_utcTime (l : LocalTime) :
    (l.utcTime.secondOfDay : Int) = l.utcMinute % 1440 * 60 + min l.time.second 59 := by
  simp only [TimeOfDay.secondOfDay, utcTime]
  omega

theorem instant_toUtc (l : LocalTime) : l.toUtc.instant = l.instant := by
  have hdate := l.dayNumber_utcDate
  have htime := l.secondOfDay_utcTime
  have hsecond : l.toUtc.instant.second = l.instant.second := by
    simp only [instant, toUtc, TimeOfDay.secondOfDay] at htime ⊢
    unfold utcMinute at hdate htime
    omega
  exact Instant.mk.injEq .. ▸ ⟨hsecond, rfl, rfl⟩

/-- The date that a clock without an offset shows is covered in the range of instants that the
timestamps cover, and only there. -/
theorem isCovered_utcDate_iff (l : LocalTime) : l.utcDate.IsCovered ↔ l.instant.IsCovered := by
  have htime := l.utcTime.secondOfDay_lt
  rw [Date.isCovered_iff, ← instant_toUtc, Instant.IsCovered]
  simp only [instant, toUtc]
  omega

end LocalTime

/-! ## Timestamps -/

namespace Timestamp

variable {l : LocalTime} {t : Timestamp}

theorem ofParts?_eq_some_iff {date : Date} {time : TimeOfDay} :
    ofParts? date time = some t ↔ date = t.date ∧ time = t.time := by
  constructor
  · intro h
    unfold ofParts? at h
    split at h
    · cases h
      exact ⟨rfl, rfl⟩
    · cases h
  · rintro ⟨rfl, rfl⟩
    exact dif_pos t.covered

theorem isCovered_instant (t : Timestamp) : t.instant.IsCovered := by
  have htime := t.time.secondOfDay_lt
  have hdate := (Date.isCovered_iff _).1 t.covered
  simp only [Instant.IsCovered, instant, LocalTime.instant, utc]
  omega

theorem ofLocal?_eq (l : LocalTime) : ofLocal? l.date l.time l.offset =
    if l.date.IsCovered then ofParts? l.utcDate l.utcTime else none := by
  unfold ofLocal?
  split
  · show (TimeOfDay.ofParts? l.utcTime.hour l.utcTime.minute l.utcTime.second
      l.utcTime.nanosecond).bind (ofParts? l.utcDate) = _
    rw [l.utcTime.ofParts?_parts, Option.bind_some]
  · rfl

/-- A local time is that of the one timestamp that names the same instant, if its own date is
covered as well. -/
theorem ofLocal?_eq_some_iff : ofLocal? l.date l.time l.offset = some t ↔
    l.date.IsCovered ∧ t.instant = l.instant := by
  rw [ofLocal?_eq, ← l.instant_toUtc]
  constructor
  · intro h
    split at h
    · next hcovered =>
      obtain ⟨hdate, htime⟩ := ofParts?_eq_some_iff.1 h
      refine ⟨hcovered, ?_⟩
      rw [LocalTime.toUtc, hdate, htime]
      rfl
    · cases h
  · rintro ⟨hcovered, hinstant⟩
    obtain ⟨hdate, htime⟩ := t.utc.eq_of_instant_eq l.toUtc rfl hinstant
    rw [if_pos hcovered]
    exact ofParts?_eq_some_iff.2 ⟨hdate.symm, htime.symm⟩

/-- The timestamps name the instants in their range, each one of them. -/
theorem exists_ofLocal?_iff : (∃ t, ofLocal? l.date l.time l.offset = some t) ↔
    l.date.IsCovered ∧ l.instant.IsCovered := by
  constructor
  · rintro ⟨t, ht⟩
    obtain ⟨hcovered, hinstant⟩ := ofLocal?_eq_some_iff.1 ht
    exact ⟨hcovered, hinstant ▸ t.isCovered_instant⟩
  · rintro ⟨hcovered, hinstant⟩
    rw [ofLocal?_eq, if_pos hcovered]
    exact ⟨_, dif_pos (l.isCovered_utcDate_iff.2 hinstant)⟩

end Timestamp

end MetadataArchive
