import Mathlib.Algebra.Group.Nat.Defs
import MetadataArchive.Proofs.Text.Digits
import MetadataArchive.Time.Spelling

/-!
# Timestamps read back

Every timestamp is read back from its text: years of any length and sign, leap seconds, and
fractions of a second down to the nanosecond.
-/

namespace MetadataArchive

namespace Text

variable {c : Char} {cs : List Char}

theorem skipWhitespace_cons (h : isWhitespace c = false) : skipWhitespace (c :: cs) = c :: cs :=
  List.dropWhile_cons_of_neg (by simp [h])

theorem toNat_mem_of_isDigit (h : c.isDigit = true) : 48 ≤ c.toNat ∧ c.toNat ≤ 57 := by
  simpa [Char.isDigit, UInt32.le_iff_toNat_le] using h

theorem isWhitespace_of_isDigit (h : c.isDigit = true) : isWhitespace c = false := by
  have hdigit := toNat_mem_of_isDigit h
  simp only [isWhitespace, whitespaceRanges, List.any_cons, List.any_nil, Bool.or_eq_false_iff,
    Bool.and_eq_false_iff, decide_eq_false_iff_not, and_true]
  omega

theorem skipWhitespace_digits {ds : List Char} (hne : ds ≠ []) (hds : ∀ c ∈ ds, c.isDigit = true) :
    skipWhitespace (ds ++ cs) = ds ++ cs := by
  obtain ⟨d, ds, rfl⟩ := List.exists_cons_of_ne_nil hne
  exact skipWhitespace_cons (isWhitespace_of_isDigit (hds d List.mem_cons_self))

end Text

theorem Date.daysIn_le (year : Int) (month : Nat) : daysIn year month ≤ 31 := by
  unfold daysIn
  split
  · split <;> omega
  · split <;> omega

theorem Date.ofParts?_parts (d : Date) : ofParts? d.year d.month d.day = some d :=
  dif_pos ⟨d.month_mem, d.day_mem⟩

theorem Date.ofParts?_eq_some_iff {year : Int} {month day : Nat} {d : Date} :
    ofParts? year month day = some d ↔ d.year = year ∧ d.month = month ∧ d.day = day := by
  constructor
  · intro h
    unfold ofParts? at h
    split at h
    · cases h
      exact ⟨rfl, rfl, rfl⟩
    · cases h
  · rintro ⟨rfl, rfl, rfl⟩
    exact d.ofParts?_parts

theorem TimeOfDay.ofParts?_parts (t : TimeOfDay) :
    ofParts? t.hour t.minute t.second t.nanosecond = some t :=
  dif_pos ⟨t.hour_lt, t.minute_lt, t.second_le, t.nanosecond_lt⟩

theorem TimeOfDay.ofParts?_eq_some_iff {hour minute second nanosecond : Nat} {t : TimeOfDay} :
    ofParts? hour minute second nanosecond = some t ↔ t.hour = hour ∧ t.minute = minute ∧
      t.second = second ∧ t.nanosecond = nanosecond := by
  constructor
  · intro h
    unfold ofParts? at h
    split at h
    · cases h
      exact ⟨rfl, rfl, rfl, rfl⟩
    · cases h
  · rintro ⟨rfl, rfl, rfl, rfl⟩
    exact t.ofParts?_parts

namespace Timestamp

open Text

variable {width n : Nat} {rest : List Char}

/-! ## Numbers -/

theorem length_padded_of_lt (hwidth : 0 < width) (h : n < 10 ^ width) :
    (padded width n).length = width := by
  have hdigits : (Nat.toDigits 10 n).length ≤ width :=
    (Nat.length_toDigits_le_iff (by decide) hwidth).2 h
  rw [length_padded]
  omega

/-- As many digits as are allowed are read, no more than there are. -/
theorem readNumber_digits {limit : Nat} {ds : List Char} (hne : ds ≠ [])
    (hds : ∀ c ∈ ds, c.isDigit = true) (hlimit : ds.length ≤ limit) (hrest : NoDigitAhead rest) :
    readNumber limit (ds ++ rest) = some (Nat.ofDigitChars 10 ds 0, rest) := by
  have hdigits : ((ds ++ rest).take limit).takeWhile Char.isDigit = ds := by
    rw [List.take_append, List.take_of_length_le hlimit]
    exact takeWhile_digits_append hds (hrest.take _)
  rw [readNumber, hdigits]
  split
  · exact absurd rfl hne
  · rw [List.drop_left]

theorem readNumber_padded {limit : Nat} (hlimit : (padded width n).length ≤ limit)
    (hrest : NoDigitAhead rest) : readNumber limit (padded width n ++ rest) = some (n, rest) := by
  rw [readNumber_digits padded_ne_nil (fun _ => isDigit_of_mem_padded) hlimit hrest,
    ofDigitChars_padded]

theorem skipWhitespace_padded : skipWhitespace (padded width n ++ rest) = padded width n ++ rest :=
  skipWhitespace_digits padded_ne_nil fun _ => isDigit_of_mem_padded

theorem readPart_padded (h : n < 100) (hrest : NoDigitAhead rest) :
    readPart (padded 2 n ++ rest) = some (n, rest) := by
  rw [readPart, skipWhitespace_padded]
  exact readNumber_padded (Nat.le_of_eq (length_padded_of_lt (by decide) h)) hrest

theorem readSeparator_cons {sign : Char} (h : isWhitespace sign = false) :
    readSeparator sign (sign :: rest) = some rest := by
  rw [readSeparator, skipWhitespace_cons h]
  exact if_pos rfl

theorem readYear_writeYear (year : Int) (hrest : NoDigitAhead rest) :
    readYear (writeYear year ++ rest) = some (year, rest) := by
  unfold writeYear
  split
  · -- four digits, and no more are looked at
    next h =>
    have hvalue : (year.toNat : Int) = year := by omega
    have hnumber : readNumber 4 (padded 4 year.toNat ++ rest) = some (year.toNat, rest) :=
      readNumber_padded (Nat.le_of_eq (length_padded_of_lt (by decide) (by omega))) hrest
    rw [readYear, skipWhitespace_padded]
    split
    · next heq => exact absurd heq (padded_append_ne_cons rfl)
    · next heq => exact absurd heq (padded_append_ne_cons rfl)
    · simp only [hnumber, Option.map_some, hvalue]
  · -- a sign, and as many digits as there are
    next h =>
    have hlength : (padded 4 year.natAbs).length ≤ (padded 4 year.natAbs ++ rest).length := by
      rw [List.length_append]
      omega
    have hnumber := readNumber_padded hlength hrest
    split
    · next hneg =>
      have hvalue : -(year.natAbs : Int) = year := by omega
      rw [List.cons_append, readYear, skipWhitespace_cons rfl]
      simp only [hnumber, Option.map_some, hvalue]
    · next hneg =>
      have hvalue : (year.natAbs : Int) = year := by omega
      rw [List.cons_append, readYear, skipWhitespace_cons rfl]
      simp only [hnumber, Option.map_some, hvalue]

/-! ## Fractions of a second -/

/-- Of the digits after the point nine count, and those that are not there are zeros. -/
theorem readFraction_digits {ds : List Char} (hne : ds ≠ []) (hds : ∀ c ∈ ds, c.isDigit = true)
    (hrest : NoDigitAhead rest) : readFraction ('.' :: (ds ++ rest)) =
      some (Nat.ofDigitChars 10 ((ds ++ List.replicate 9 '0').take 9) 0, rest) := by
  rw [readFraction, takeWhile_digits_append hds hrest]
  split
  · exact absurd rfl hne
  · rw [dropWhile_digits_append hds hrest]

theorem readFraction_padded (hwidth : 0 < width) (hnine : width ≤ 9) (h : n < 10 ^ width)
    (hrest : NoDigitAhead rest) :
    readFraction ('.' :: (padded width n ++ rest)) = some (n * 10 ^ (9 - width), rest) := by
  have hlength := length_padded_of_lt hwidth h
  have hzeros : (padded width n ++ List.replicate 9 '0').take 9 =
      padded width n ++ List.replicate (9 - width) '0' := by
    rw [List.take_append, List.take_of_length_le (by omega), List.take_replicate, hlength]
    congr 2
    omega
  rw [readFraction_digits padded_ne_nil (fun _ => isDigit_of_mem_padded) hrest, hzeros,
    Nat.ofDigitChars_append, ofDigitChars_padded, Nat.ofDigitChars_replicate_zero, Nat.mul_comm]

theorem noDigitAhead_writeFraction (hrest : NoDigitAhead rest) :
    NoDigitAhead (writeFraction n ++ rest) := by
  unfold writeFraction
  split
  · exact hrest
  split
  · exact noDigitAhead_cons rfl
  split
  · exact noDigitAhead_cons rfl
  · exact noDigitAhead_cons rfl

/-- The digits left out of a fraction are zeros, so the nanosecond is read back. -/
theorem readFraction_writeFraction (h : n < TimeOfDay.nanosecondsPerSecond)
    (hrest : NoDigitAhead rest) (hpoint : ∀ cs, rest ≠ '.' :: cs) :
    readFraction (writeFraction n ++ rest) = some (n, rest) := by
  have hbound : n < 1000000000 := h
  unfold writeFraction
  split
  · next hzero =>
    rw [List.nil_append]
    unfold readFraction
    split
    · exact absurd rfl (hpoint _)
    · rw [hzero]
  split
  · next hmilli =>
    rw [List.cons_append, readFraction_padded (by decide) (by decide) (by omega) hrest]
    congr 2
    omega
  split
  · next hmicro =>
    rw [List.cons_append, readFraction_padded (by decide) (by decide) (by omega) hrest]
    congr 2
    omega
  · rw [List.cons_append, readFraction_padded (by decide) (by decide) (by omega) hrest]
    congr 2
    omega

/-! ## A whole timestamp -/

theorem readDate_spelled (d : Date) (hrest : NoDigitAhead rest) :
    readDate (writeYear d.year ++ '-' :: (padded 2 d.month ++ '-' :: (padded 2 d.day ++ rest))) =
      some (d, rest) := by
  have hmonth : d.month < 100 := by
    have := d.month_mem
    omega
  have hday : d.day < 100 := by
    have := d.day_mem
    have := Date.daysIn_le d.year d.month
    omega
  have hdash : ∀ cs, NoDigitAhead ('-' :: cs) := fun _ => noDigitAhead_cons rfl
  have hseparator : ∀ cs, readSeparator '-' ('-' :: cs) = some cs := fun _ =>
    readSeparator_cons rfl
  simp only [readDate, readYear_writeYear d.year (hdash _), hseparator,
    readPart_padded hmonth (hdash _), readPart_padded hday hrest, d.ofParts?_parts,
    Option.bind_eq_bind, Option.bind_some, Option.pure_def]

theorem readTime_spelled (t : TimeOfDay) (hrest : NoDigitAhead rest)
    (hpoint : ∀ cs, rest ≠ '.' :: cs) :
    readTime (padded 2 t.hour ++ ':' :: (padded 2 t.minute ++ ':' :: (padded 2 t.second ++
      (writeFraction t.nanosecond ++ rest)))) = some (t, rest) := by
  have hhour : t.hour < 100 := by
    have := t.hour_lt
    omega
  have hminute : t.minute < 100 := by
    have := t.minute_lt
    omega
  have hsecond : t.second < 100 := by
    have := t.second_le
    omega
  have hcolon : ∀ cs, NoDigitAhead (':' :: cs) := fun _ => noDigitAhead_cons rfl
  have hseparator : ∀ cs, readSeparator ':' (':' :: cs) = some cs := fun _ =>
    readSeparator_cons rfl
  have hfraction : NoDigitAhead (writeFraction t.nanosecond ++ rest) :=
    noDigitAhead_writeFraction hrest
  simp only [readTime, readPart_padded hhour (hcolon _), hseparator,
    readPart_padded hminute (hcolon _), readPart_padded hsecond hfraction,
    readFraction_writeFraction t.nanosecond_lt hrest hpoint, t.ofParts?_parts,
    Option.bind_eq_bind, Option.bind_some, Option.pure_def]

/-- At no offset the local time is the time itself, on the same day. -/
theorem ofLocal?_utc (t : Timestamp) : ofLocal? t.date t.time 0 = some t := by
  have hhour := t.time.hour_lt
  have hminute := t.time.minute_lt
  have hbefore : ¬ ((t.time.hour : Int) * 60 + t.time.minute - 0 < 0) := by omega
  have hafter : ¬ (1440 ≤ (t.time.hour : Int) * 60 + t.time.minute - 0) := by omega
  have hofDay : (((t.time.hour : Int) * 60 + t.time.minute - 0) % 1440).toNat =
      t.time.hour * 60 + t.time.minute := by omega
  have hhours : (t.time.hour * 60 + t.time.minute) / 60 = t.time.hour := by omega
  have hminutes : (t.time.hour * 60 + t.time.minute) % 60 = t.time.minute := by omega
  rw [ofLocal?, if_pos t.covered]
  simp only [if_neg hbefore, if_neg hafter, hofDay, hhours, hminutes, t.time.ofParts?_parts,
    Option.bind_some]
  exact dif_pos t.covered

/-- Every timestamp reads back from its text. -/
theorem parse_render (t : Timestamp) : parse t.render = some t := by
  have hspell : t.spell = writeYear t.date.year ++ '-' :: (padded 2 t.date.month ++ '-' ::
      (padded 2 t.date.day ++ 'T' :: (padded 2 t.time.hour ++ ':' :: (padded 2 t.time.minute ++
        ':' :: (padded 2 t.time.second ++ (writeFraction t.time.nanosecond ++ ['Z'])))))) := by
    simp only [spell, List.append_assoc, List.cons_append]
  have hmiddle : ∀ cs, NoDigitAhead ('T' :: cs) := fun _ => noDigitAhead_cons rfl
  have hend : NoDigitAhead ['Z'] := noDigitAhead_cons rfl
  have htime := readTime_spelled t.time hend fun cs h => absurd (List.cons.inj h).1 (by decide)
  have hoffset : readOffset (skipWhitespace ['Z']) = some (0, []) := by decide
  rw [parse, render, String.toList_ofList, readChars, hspell]
  simp only [readDate_spelled t.date (hmiddle _), readMiddle, htime, hoffset,
    Option.bind_eq_bind, Option.bind_some, t.ofLocal?_utc]
  rfl

end Timestamp

end MetadataArchive
