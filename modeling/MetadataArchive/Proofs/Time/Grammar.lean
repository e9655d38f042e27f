import Mathlib.Data.List.TakeWhile
import MetadataArchive.Proofs.Time.Instant

/-!
# Which texts spell timestamps

The texts that are read as timestamps have a grammar: a date, a time of day and an offset from
Coordinated Universal Time, with white space in some places. The reader takes exactly the texts of
this grammar. What it makes of one is the instant at which a clock with that offset shows that date
and time of day.
-/

namespace MetadataArchive

/-! ## White space -/

namespace Text

/-- A text of white space only. -/
def IsBlank (cs : List Char) : Prop :=
  ∀ c ∈ cs, isWhitespace c = true

/-- White space and then a text that spells something. -/
inductive Spaced {α : Type} (spells : List Char → α → Prop) : List Char → α → Prop where
  | intro {blank cs : List Char} {a : α} (hblank : IsBlank blank) (h : spells cs a) :
    Spaced spells (blank ++ cs) a

variable {blank cs : List Char}

theorem skipWhitespace_blank_append (h : IsBlank blank) :
    skipWhitespace (blank ++ cs) = skipWhitespace cs :=
  List.dropWhile_append_of_pos h

theorem exists_eq_append_skipWhitespace (cs : List Char) :
    ∃ blank, IsBlank blank ∧ cs = blank ++ skipWhitespace cs :=
  ⟨cs.takeWhile isWhitespace, fun _ => List.mem_takeWhile_imp,
    List.takeWhile_append_dropWhile.symm⟩

theorem isBlank_iff : IsBlank cs ↔ skipWhitespace cs = [] :=
  List.dropWhile_eq_nil_iff.symm

theorem noDigitAhead_blank_append (h : IsBlank blank) (hcs : NoDigitAhead cs) :
    NoDigitAhead (blank ++ cs) := by
  cases blank with
  | nil => exact hcs
  | cons c blank =>
    refine noDigitAhead_cons ?_
    have hspace := h c List.mem_cons_self
    by_contra hdigit
    rw [isWhitespace_of_isDigit (Bool.not_eq_false _ ▸ hdigit)] at hspace
    exact Bool.false_ne_true hspace

end Text

namespace Timestamp

open Text

/-! ## The grammar -/

/-- Digits, at least one, and their number. -/
structure SpellsNumber (ds : List Char) (n : Nat) : Prop where
  ne_nil : ds ≠ []
  isDigit : ∀ d ∈ ds, d.isDigit = true
  value : Nat.ofDigitChars 10 ds 0 = n

/-- A month, a day, an hour, a minute or a second: one or two digits. -/
def SpellsPart (ds : List Char) (n : Nat) : Prop :=
  SpellsNumber ds n ∧ ds.length ≤ 2

/-- A year: up to four digits, or a sign and any number of digits. -/
inductive SpellsYear : List Char → Int → Prop where
  | unsigned {ds : List Char} {n : Nat} (h : SpellsNumber ds n) (hlength : ds.length ≤ 4) :
    SpellsYear ds n
  | positive {ds : List Char} {n : Nat} (h : SpellsNumber ds n) : SpellsYear ('+' :: ds) n
  | negative {ds : List Char} {n : Nat} (h : SpellsNumber ds n) : SpellsYear ('-' :: ds) (-n)

/-- A date: year, month and day with dashes between them. -/
inductive SpellsDate : List Char → Date → Prop where
  | intro {date : Date} {year month day blank₁ blank₂ : List Char}
    (hyear : Spaced SpellsYear year date.year) (hblank₁ : IsBlank blank₁)
    (hmonth : Spaced SpellsPart month date.month) (hblank₂ : IsBlank blank₂)
    (hday : Spaced SpellsPart day date.day) :
    SpellsDate (year ++ (blank₁ ++ '-' :: (month ++ (blank₂ ++ '-' :: day)))) date

/-- The nanoseconds: nothing, or a point and digits. What is less than a nanosecond is dropped. -/
inductive SpellsFraction : List Char → Nat → Prop where
  | whole : SpellsFraction [] 0
  | point {ds : List Char} {n : Nat} (h : SpellsNumber ds n) :
    SpellsFraction ('.' :: ds) (n * 10 ^ 9 / 10 ^ ds.length)

/-- A time of day: hour, minute and second with colons between them, and the nanoseconds. -/
inductive SpellsTime : List Char → TimeOfDay → Prop where
  | intro {time : TimeOfDay} {hour minute second fraction blank₁ blank₂ : List Char}
    (hhour : Spaced SpellsPart hour time.hour) (hblank₁ : IsBlank blank₁)
    (hminute : Spaced SpellsPart minute time.minute) (hblank₂ : IsBlank blank₂)
    (hsecond : Spaced SpellsPart second time.second)
    (hfraction : SpellsFraction fraction time.nanosecond) :
    SpellsTime (hour ++ (blank₁ ++ ':' :: (minute ++ (blank₂ ++ ':' :: (second ++ fraction))))) time

/-- The hours and minutes of an offset: two digits each, and colons or white space between them. -/
inductive SpellsMinutes : List Char → Nat → Prop where
  | intro {h₁ h₂ m₁ m₂ : Char} {hours minutes : Nat} {gap : List Char}
    (hhours : SpellsNumber [h₁, h₂] hours) (hday : hours < 24)
    (hgap : ∀ c ∈ gap, c = ':' ∨ isWhitespace c = true)
    (hminutes : SpellsNumber [m₁, m₂] minutes) (hhour : minutes < 60) :
    SpellsMinutes (h₁ :: h₂ :: (gap ++ [m₁, m₂])) (hours * 60 + minutes)

/-- An offset in minutes: `Z` or `UTC`, or a sign, hours and minutes. -/
inductive SpellsOffset : List Char → Int → Prop where
  | zero {z : Char} (hz : isLetter 'Z' z = true) : SpellsOffset [z] 0
  | utc {u t c : Char} (hu : isLetter 'U' u = true) (ht : isLetter 'T' t = true)
    (hc : isLetter 'C' c = true) : SpellsOffset [u, t, c] 0
  | ahead {cs : List Char} {n : Nat} (h : SpellsMinutes cs n) : SpellsOffset ('+' :: cs) n
  | behind {sign : Char} {cs : List Char} {n : Nat} (hsign : sign = '-' ∨ sign = '\u2212')
    (h : SpellsMinutes cs n) : SpellsOffset (sign :: cs) (-n)

/-- A local time: date, time of day and offset, with a `T` or a blank after the date. -/
inductive Spells : List Char → LocalTime → Prop where
  | intro {l : LocalTime} {date time offset blank : List Char} {middle : Char}
    (hdate : SpellsDate date l.date) (hmiddle : middle = 'T' ∨ middle = 't' ∨ middle = ' ')
    (htime : SpellsTime time l.time) (hoffset : Spaced SpellsOffset offset l.offset)
    (hblank : IsBlank blank) : Spells (date ++ middle :: (time ++ (offset ++ blank))) l

/-! ## Readers and what they read -/

/-- What is read is spelled by the front of the text; and a front that spells something is read,
where the rest of the text stops the reader. -/
structure Reads {α : Type} (stops : List Char → Prop) (read : List Char → Option (α × List Char))
    (spells : List Char → α → Prop) : Prop where
  sound : ∀ {cs rest a}, read cs = some (a, rest) → ∃ front, cs = front ++ rest ∧ spells front a
  complete : ∀ {front rest a}, spells front a → stops rest → read (front ++ rest) = some (a, rest)

/-- A reader that skips white space first, before texts that do not start with it. -/
theorem Reads.spaced {α : Type} {stops : List Char → Prop}
    {read : List Char → Option (α × List Char)} {spells : List Char → α → Prop}
    (h : Reads stops read spells)
    (hsolid : ∀ {cs a}, spells cs a → ∃ c rest, cs = c :: rest ∧ isWhitespace c = false) :
    Reads stops (fun cs => read (skipWhitespace cs)) (Spaced spells) where
  sound := by
    intro cs rest a hread
    obtain ⟨blank, hblank, hcs⟩ := exists_eq_append_skipWhitespace cs
    obtain ⟨front, hfront, hspells⟩ := h.sound hread
    refine ⟨blank ++ front, ?_, .intro hblank hspells⟩
    rw [List.append_assoc, ← hfront]
    exact hcs
  complete := by
    rintro _ rest _ ⟨hblank, hspells⟩ hstops
    obtain ⟨c, cs, hcs, hc⟩ := hsolid hspells
    rw [← h.complete hspells hstops, List.append_assoc]
    simp only [skipWhitespace_blank_append hblank]
    rw [hcs, List.cons_append, skipWhitespace_cons hc]

/-- What is made of a value that was read is made of the value alone. -/
theorem exists_of_map_eq_some {α β : Type} {read : Option (α × List Char)} {f : α → β} {b : β}
    {rest : List Char} (h : (read.map fun (a, rest) => (f a, rest)) = some (b, rest)) :
    ∃ a, read = some (a, rest) ∧ f a = b := by
  obtain ⟨⟨a, _⟩, hread, heq⟩ := Option.map_eq_some_iff.1 h
  obtain ⟨hvalue, rfl⟩ := Prod.mk.inj heq
  exact ⟨a, hread, hvalue⟩

variable {ds cs rest : List Char} {n : Nat}

theorem SpellsNumber.solid (h : SpellsNumber ds n) :
    ∃ d rest, ds = d :: rest ∧ isWhitespace d = false := by
  obtain ⟨d, rest, rfl⟩ := List.exists_cons_of_ne_nil h.ne_nil
  exact ⟨d, rest, rfl, isWhitespace_of_isDigit (h.isDigit d List.mem_cons_self)⟩

/-! ### Dates -/

theorem exists_of_readNumber {width : Nat} (h : readNumber width cs = some (n, rest)) :
    ∃ ds, cs = ds ++ rest ∧ SpellsNumber ds n ∧ ds.length ≤ width := by
  have hprefix : (cs.take width).takeWhile Char.isDigit <+: cs.take width :=
    List.takeWhile_prefix _
  have hdigits : ∀ d ∈ (cs.take width).takeWhile Char.isDigit, d.isDigit = true :=
    fun _ => List.mem_takeWhile_imp
  unfold readNumber at h
  generalize (cs.take width).takeWhile Char.isDigit = ds at h hprefix hdigits
  have hlength : ds.length ≤ width := le_trans hprefix.length_le (List.length_take_le _ _)
  obtain ⟨rest', rfl⟩ := hprefix.trans (List.take_prefix _ _)
  cases ds with
  | nil => cases h
  | cons d ds =>
    obtain ⟨rfl, rfl⟩ := Prod.mk.inj (Option.some.inj h)
    exact ⟨d :: ds, by rw [List.drop_left], ⟨List.cons_ne_nil _ _, hdigits, rfl⟩, hlength⟩

theorem reads_number (width : Nat) : Reads NoDigitAhead (readNumber width)
    fun ds n => SpellsNumber ds n ∧ ds.length ≤ width where
  sound := exists_of_readNumber
  complete := by
    rintro ds rest n ⟨h, hlength⟩ hstops
    rw [readNumber_digits h.ne_nil h.isDigit hlength hstops, h.value]

theorem reads_part : Reads NoDigitAhead readPart (Spaced SpellsPart) :=
  (reads_number 2).spaced fun h => h.1.solid

/-- A year, without white space before it. -/
def readSolidYear : List Char → Option (Int × List Char)
  | '-' :: rest => (readNumber rest.length rest).map fun (n, rest) => (-n, rest)
  | '+' :: rest => (readNumber rest.length rest).map fun (n, rest) => (n, rest)
  | rest => (readNumber 4 rest).map fun (n, rest) => (n, rest)

theorem readYear_eq : readYear = fun cs => readSolidYear (skipWhitespace cs) :=
  rfl

theorem reads_solidYear : Reads NoDigitAhead readSolidYear SpellsYear where
  sound := by
    intro cs rest year h
    unfold readSolidYear at h
    split at h
    · obtain ⟨n, hread, rfl⟩ := exists_of_map_eq_some (f := fun n : Nat => -(n : Int)) h
      obtain ⟨ds, rfl, hds, -⟩ := exists_of_readNumber hread
      exact ⟨'-' :: ds, rfl, .negative hds⟩
    · obtain ⟨n, hread, rfl⟩ := exists_of_map_eq_some h
      obtain ⟨ds, rfl, hds, -⟩ := exists_of_readNumber hread
      exact ⟨'+' :: ds, rfl, .positive hds⟩
    · obtain ⟨n, hread, rfl⟩ := exists_of_map_eq_some h
      obtain ⟨ds, rfl, hds, hlength⟩ := exists_of_readNumber hread
      exact ⟨ds, rfl, .unsigned hds hlength⟩
  complete := by
    intro cs rest year h hstops
    have hall : ∀ ds : List Char, ds.length ≤ (ds ++ rest).length := fun ds => by
      rw [List.length_append]
      omega
    cases h with
    | unsigned h hlength =>
      obtain ⟨d, ds, rfl, -⟩ := h.solid
      have hread := (reads_number 4).complete ⟨h, hlength⟩ hstops
      have hd := h.isDigit d List.mem_cons_self
      rw [List.cons_append] at hread ⊢
      unfold readSolidYear
      split
      · next heq => 
        cases heq
        exact absurd hd (by decide)
      · next heq =>
        cases heq
        exact absurd hd (by decide)
      · rw [hread]
        rfl
    | positive h =>
      rw [List.cons_append, readSolidYear, (reads_number _).complete ⟨h, hall _⟩ hstops]
      rfl
    | negative h =>
      rw [List.cons_append, readSolidYear, (reads_number _).complete ⟨h, hall _⟩ hstops]
      rfl

theorem SpellsYear.solid {year : Int} (h : SpellsYear cs year) :
    ∃ c rest, cs = c :: rest ∧ isWhitespace c = false := by
  cases h with
  | unsigned h => exact h.solid
  | positive => exact ⟨_, _, rfl, rfl⟩
  | negative => exact ⟨_, _, rfl, rfl⟩

theorem reads_year : Reads NoDigitAhead readYear (Spaced SpellsYear) := by
  rw [readYear_eq]
  exact reads_solidYear.spaced SpellsYear.solid

/-- A separator is read from where it stands, behind white space. -/
theorem readSeparator_eq_some_iff {sign : Char} (hsign : isWhitespace sign = false) :
    readSeparator sign cs = some rest ↔ ∃ blank, IsBlank blank ∧ cs = blank ++ sign :: rest := by
  constructor
  · intro h
    obtain ⟨blank, hblank, hcs⟩ := exists_eq_append_skipWhitespace cs
    unfold readSeparator at h
    split at h
    · next c rest' heq =>
      split at h
      · next hc =>
        cases h
        exact ⟨blank, hblank, by rw [hcs, heq, hc]⟩
      · cases h
    · cases h
  · rintro ⟨blank, hblank, rfl⟩
    rw [readSeparator, skipWhitespace_blank_append hblank, skipWhitespace_cons hsign]
    exact if_pos rfl

theorem readSeparator_blank_append (sign : Char) (hsign : isWhitespace sign = false)
    {blank : List Char} (hblank : IsBlank blank) :
    readSeparator sign (blank ++ sign :: rest) = some rest :=
  (readSeparator_eq_some_iff hsign).2 ⟨blank, hblank, rfl⟩

theorem reads_date : Reads NoDigitAhead readDate SpellsDate where
  sound := by
    intro cs rest date h
    simp only [readDate, Option.bind_eq_bind, Option.bind_eq_some_iff, Option.pure_def,
      Option.some.injEq, Prod.mk.injEq, Prod.exists] at h
    obtain ⟨year, _, hyear, _, hdash₁, month, _, hmonth, _, hdash₂, day, _, hday, _, hdate, rfl,
      rfl⟩ := h
    obtain ⟨rfl, rfl, rfl⟩ := Date.ofParts?_eq_some_iff.1 hdate
    obtain ⟨_, rfl, hyearSpelled⟩ := reads_year.sound hyear
    obtain ⟨_, hblank₁, rfl⟩ := (readSeparator_eq_some_iff rfl).1 hdash₁
    obtain ⟨_, rfl, hmonthSpelled⟩ := reads_part.sound hmonth
    obtain ⟨_, hblank₂, rfl⟩ := (readSeparator_eq_some_iff rfl).1 hdash₂
    obtain ⟨_, rfl, hdaySpelled⟩ := reads_part.sound hday
    exact ⟨_, by simp only [List.append_assoc, List.cons_append],
      .intro hyearSpelled hblank₁ hmonthSpelled hblank₂ hdaySpelled⟩
  complete := by
    rintro _ rest date ⟨hyear, hblank₁, hmonth, hblank₂, hday⟩ hstops
    have hdash {blank cs : List Char} (hblank : IsBlank blank) :
        NoDigitAhead (blank ++ '-' :: cs) :=
      noDigitAhead_blank_append hblank (noDigitAhead_cons rfl)
    simp only [readDate, List.append_assoc, List.cons_append, Option.bind_eq_bind,
      reads_year.complete hyear (hdash hblank₁), readSeparator_blank_append '-' rfl hblank₁,
      reads_part.complete hmonth (hdash hblank₂), readSeparator_blank_append '-' rfl hblank₂,
      reads_part.complete hday hstops, date.ofParts?_parts, Option.bind_some, Option.pure_def]

/-! ### Times of day -/

theorem ofDigitChars_lt (h : ∀ d ∈ ds, d.isDigit = true) :
    Nat.ofDigitChars 10 ds 0 < 10 ^ ds.length := by
  induction ds with
  | nil => decide
  | cons d ds ih =>
    have hrest := ih fun d hd => h d (List.mem_cons_of_mem _ hd)
    have hd := toNat_mem_of_isDigit (h d List.mem_cons_self)
    have hdigit : 10 ^ ds.length * (d.toNat - '0'.toNat) ≤ 10 ^ ds.length * 9 :=
      Nat.mul_le_mul_left _ (Nat.sub_le_of_le_add hd.2)
    rw [Nat.ofDigitChars_cons, Nat.ofDigitChars_eq_ofDigitChars_zero, Nat.mul_zero, Nat.zero_add,
      List.length_cons, Nat.pow_succ]
    omega

/-- Digits that are dropped after the ninth make less than a nanosecond. -/
theorem SpellsNumber.nanoseconds (h : SpellsNumber ds n) :
    Nat.ofDigitChars 10 ((ds ++ List.replicate 9 '0').take 9) 0 = n * 10 ^ 9 / 10 ^ ds.length := by
  let all := ds ++ List.replicate 9 '0'
  have hdropped : ∀ d ∈ all.drop 9, d.isDigit = true := by
    intro d hd
    rcases List.mem_append.1 (List.mem_of_mem_drop hd) with hd | hd
    · exact h.isDigit d hd
    · rw [List.eq_of_mem_replicate hd]
      rfl
  have hlength : (all.drop 9).length = ds.length := by
    simp [all]
  have htotal : n * 10 ^ 9 =
      10 ^ ds.length * Nat.ofDigitChars 10 (all.take 9) 0 + Nat.ofDigitChars 10 (all.drop 9) 0 :=
    calc
      n * 10 ^ 9 = Nat.ofDigitChars 10 all 0 := by
        rw [Nat.ofDigitChars_append, h.value, Nat.ofDigitChars_replicate_zero, Nat.mul_comm]
      _ = Nat.ofDigitChars 10 (all.drop 9) (Nat.ofDigitChars 10 (all.take 9) 0) := by
        rw [← Nat.ofDigitChars_append, List.take_append_drop]
      _ = _ := by
        rw [Nat.ofDigitChars_eq_ofDigitChars_zero, hlength]
  have hsmall := ofDigitChars_lt hdropped
  rw [hlength] at hsmall
  rw [htotal, Nat.mul_add_div (Nat.pow_pos (by decide)), Nat.div_eq_of_lt hsmall, Nat.add_zero]

/-- A text that does not go on with digits or a fraction. -/
def NoFractionAhead (cs : List Char) : Prop :=
  NoDigitAhead cs ∧ ∀ rest, cs ≠ '.' :: rest

theorem noFractionAhead_blank_append {blank : List Char} (h : IsBlank blank)
    (hcs : NoFractionAhead cs) : NoFractionAhead (blank ++ cs) := by
  cases blank with
  | nil => exact hcs
  | cons c blank =>
    refine ⟨noDigitAhead_blank_append h hcs.1, fun rest heq => ?_⟩
    have hspace := h c List.mem_cons_self
    rw [(List.cons.inj heq).1] at hspace
    exact absurd hspace (by decide)

theorem reads_fraction : Reads NoFractionAhead readFraction SpellsFraction where
  sound := by
    intro cs rest n h
    unfold readFraction at h
    split at h
    · next cs =>
      have hdigits : ∀ d ∈ cs.takeWhile Char.isDigit, d.isDigit = true :=
        fun _ => List.mem_takeWhile_imp
      have hsplit := List.takeWhile_append_dropWhile (p := Char.isDigit) (l := cs)
      generalize cs.takeWhile Char.isDigit = ds at h hdigits hsplit
      cases ds with
      | nil => cases h
      | cons d ds =>
        obtain ⟨rfl, rfl⟩ := Prod.mk.inj (Option.some.inj h)
        have hspells : SpellsNumber (d :: ds) (Nat.ofDigitChars 10 (d :: ds) 0) :=
          ⟨List.cons_ne_nil _ _, hdigits, rfl⟩
        refine ⟨'.' :: d :: ds, by rw [List.cons_append, hsplit], ?_⟩
        rw [hspells.nanoseconds]
        exact .point hspells
    · cases h
      exact ⟨[], rfl, .whole⟩
  complete := by
    rintro _ rest _ hfraction ⟨hdigit, hpoint⟩
    cases hfraction with
    | whole =>
      rw [List.nil_append]
      unfold readFraction
      split
      · exact absurd rfl (hpoint _)
      · rfl
    | point h =>
      rw [List.cons_append, readFraction_digits h.ne_nil h.isDigit hdigit, h.nanoseconds]

theorem SpellsFraction.noDigitAhead (h : SpellsFraction cs n) (hrest : NoDigitAhead rest) :
    NoDigitAhead (cs ++ rest) := by
  cases h with
  | whole => exact hrest
  | point => exact noDigitAhead_cons rfl

theorem reads_time : Reads NoFractionAhead readTime SpellsTime where
  sound := by
    intro cs rest time h
    simp only [readTime, Option.bind_eq_bind, Option.bind_eq_some_iff, Option.pure_def,
      Option.some.injEq, Prod.mk.injEq, Prod.exists] at h
    obtain ⟨hour, _, hhour, _, hcolon₁, minute, _, hminute, _, hcolon₂, second, _, hsecond,
      nanosecond, _, hfraction, _, htime, rfl, rfl⟩ := h
    obtain ⟨rfl, rfl, rfl, rfl⟩ := TimeOfDay.ofParts?_eq_some_iff.1 htime
    obtain ⟨_, rfl, hhourSpelled⟩ := reads_part.sound hhour
    obtain ⟨_, hblank₁, rfl⟩ := (readSeparator_eq_some_iff rfl).1 hcolon₁
    obtain ⟨_, rfl, hminuteSpelled⟩ := reads_part.sound hminute
    obtain ⟨_, hblank₂, rfl⟩ := (readSeparator_eq_some_iff rfl).1 hcolon₂
    obtain ⟨_, rfl, hsecondSpelled⟩ := reads_part.sound hsecond
    obtain ⟨_, rfl, hfractionSpelled⟩ := reads_fraction.sound hfraction
    exact ⟨_, by simp only [List.append_assoc, List.cons_append],
      .intro hhourSpelled hblank₁ hminuteSpelled hblank₂ hsecondSpelled hfractionSpelled⟩
  complete := by
    rintro _ rest time ⟨hhour, hblank₁, hminute, hblank₂, hsecond, hfraction⟩ hstops
    have hcolon {blank cs : List Char} (hblank : IsBlank blank) :
        NoDigitAhead (blank ++ ':' :: cs) :=
      noDigitAhead_blank_append hblank (noDigitAhead_cons rfl)
    simp only [readTime, List.append_assoc, List.cons_append, Option.bind_eq_bind,
      reads_part.complete hhour (hcolon hblank₁), readSeparator_blank_append ':' rfl hblank₁,
      reads_part.complete hminute (hcolon hblank₂), readSeparator_blank_append ':' rfl hblank₂,
      reads_part.complete hsecond (hfraction.noDigitAhead hstops.1),
      reads_fraction.complete hfraction hstops, time.ofParts?_parts, Option.bind_some,
      Option.pure_def]

/-! ### Offsets -/

theorem SpellsMinutes.lt (h : SpellsMinutes cs n) : n < 1440 := by
  obtain ⟨-, hhours, -, -, hminutes⟩ := h
  omega

theorem SpellsOffset.mem {offset : Int} (h : SpellsOffset cs offset) :
    -1440 < offset ∧ offset < 1440 := by
  cases h with
  | zero => decide
  | utc => decide
  | ahead h =>
    have := h.lt
    omega
  | behind _ h =>
    have := h.lt
    omega

theorem all_isDigit_iff {h₁ h₂ m₁ m₂ : Char} : [h₁, h₂, m₁, m₂].all Char.isDigit = true ↔
    (∀ d ∈ [h₁, h₂], d.isDigit = true) ∧ ∀ d ∈ [m₁, m₂], d.isDigit = true := by
  simp [and_assoc]

theorem reads_minutes : Reads (fun _ => True) readMinutes SpellsMinutes where
  sound := by
    intro cs rest n h
    unfold readMinutes at h
    split at h
    · next h₁ h₂ cs =>
      have hgap : ∀ c ∈ cs.takeWhile fun c => c == ':' || isWhitespace c,
          c = ':' ∨ isWhitespace c = true := by
        intro c hc
        simpa using List.mem_takeWhile_imp hc
      have hsplit :=
        List.takeWhile_append_dropWhile (p := fun c => c == ':' || isWhitespace c) (l := cs)
      split at h
      · next m₁ m₂ rest' heq =>
        dsimp only at h
        split at h
        · next hall =>
          obtain ⟨hdigits, hday, hhour⟩ := hall
          obtain ⟨rfl, rfl⟩ := Prod.mk.inj (Option.some.inj h)
          obtain ⟨hhours, hminutes⟩ := all_isDigit_iff.1 hdigits
          rw [heq] at hsplit
          refine ⟨_, ?_, .intro ⟨List.cons_ne_nil _ _, hhours, rfl⟩ hday hgap
            ⟨List.cons_ne_nil _ _, hminutes, rfl⟩ hhour⟩
          simp only [List.cons_append, List.append_assoc, List.nil_append, hsplit]
        · cases h
      · cases h
    · cases h
  complete := by
    rintro _ rest _ ⟨hhours, hday, hgap, hminutes, hhour⟩ -
    next h₁ h₂ m₁ m₂ hours minutes gap =>
    have hdigits := all_isDigit_iff.2 ⟨hhours.isDigit, hminutes.isDigit⟩
    have hm₁ : (m₁ == ':' || isWhitespace m₁) = false := by
      have hm₁ := hminutes.isDigit m₁ List.mem_cons_self
      rw [isWhitespace_of_isDigit hm₁, Bool.or_false, beq_eq_false_iff_ne]
      rintro rfl
      exact absurd hm₁ (by decide)
    have hdrop : (gap ++ m₁ :: m₂ :: rest).dropWhile (fun c => c == ':' || isWhitespace c) =
        m₁ :: m₂ :: rest := by
      rw [List.dropWhile_append_of_pos (by simpa using hgap),
        List.dropWhile_cons_of_neg (by simp [hm₁])]
    simp only [List.cons_append, List.append_assoc, List.nil_append, readMinutes, hdrop,
      hhours.value, hminutes.value]
    exact if_pos ⟨hdigits, hday, hhour⟩

theorem isLetter_iff {upper c : Char} :
    isLetter upper c = true ↔ c = upper ∨ c = Char.ofNat (upper.toNat + 32) := by
  rw [isLetter, Bool.or_eq_true, beq_iff_eq, beq_iff_eq]

theorem reads_offset : Reads (fun _ => True) readOffset SpellsOffset where
  sound := by
    intro cs rest offset h
    unfold readOffset at h
    split at h
    · obtain ⟨n, hread, rfl⟩ := exists_of_map_eq_some h
      obtain ⟨front, rfl, hfront⟩ := reads_minutes.sound hread
      exact ⟨'+' :: front, rfl, .ahead hfront⟩
    · obtain ⟨n, hread, rfl⟩ := exists_of_map_eq_some (f := fun n : Nat => -(n : Int)) h
      obtain ⟨front, rfl, hfront⟩ := reads_minutes.sound hread
      exact ⟨'-' :: front, rfl, .behind (.inl rfl) hfront⟩
    · obtain ⟨n, hread, rfl⟩ := exists_of_map_eq_some (f := fun n : Nat => -(n : Int)) h
      obtain ⟨front, rfl, hfront⟩ := reads_minutes.sound hread
      exact ⟨'\u2212' :: front, rfl, .behind (.inr rfl) hfront⟩
    · next c cs _ _ _ =>
      split at h
      · next hz =>
        cases h
        exact ⟨[c], rfl, .zero hz⟩
      · split at h
        · next t z cs =>
          split at h
          · next hletters =>
            cases h
            obtain ⟨hu, ht, hc⟩ := hletters
            exact ⟨[c, t, z], rfl, .utc hu ht hc⟩
          · cases h
        · cases h
    · cases h
  complete := by
    intro cs rest offset h _
    cases h with
    | zero hz =>
      rcases isLetter_iff.1 hz with rfl | rfl
      · rfl
      · rfl
    | utc hu ht hc =>
      rcases isLetter_iff.1 hu with rfl | rfl <;> rcases isLetter_iff.1 ht with rfl | rfl <;>
        rcases isLetter_iff.1 hc with rfl | rfl <;> rfl
    | ahead h =>
      rw [List.cons_append, readOffset, reads_minutes.complete h trivial]
      rfl
    | behind hsign h =>
      rcases hsign with rfl | rfl
      · rw [List.cons_append, readOffset, reads_minutes.complete h trivial]
        rfl
      · rw [List.cons_append, readOffset, reads_minutes.complete h trivial]
        rfl

theorem SpellsOffset.exists_cons {offset : Int} (h : SpellsOffset cs offset) :
    ∃ c rest, cs = c :: rest ∧ isWhitespace c = false ∧ c.isDigit = false ∧ c ≠ '.' := by
  cases h with
  | zero hz => rcases isLetter_iff.1 hz with rfl | rfl <;> exact ⟨_, _, rfl, by decide⟩
  | utc hu => rcases isLetter_iff.1 hu with rfl | rfl <;> exact ⟨_, _, rfl, by decide⟩
  | ahead => exact ⟨_, _, rfl, by decide⟩
  | behind hsign => rcases hsign with rfl | rfl <;> exact ⟨_, _, rfl, by decide⟩

theorem SpellsOffset.solid {offset : Int} (h : SpellsOffset cs offset) :
    ∃ c rest, cs = c :: rest ∧ isWhitespace c = false := by
  obtain ⟨c, rest, hcs, hspace, -⟩ := h.exists_cons
  exact ⟨c, rest, hcs, hspace⟩

theorem noFractionAhead_offset {offset : Int} (h : Spaced SpellsOffset cs offset)
    (rest : List Char) : NoFractionAhead (cs ++ rest) := by
  obtain ⟨hblank, hoffset⟩ := h
  obtain ⟨c, _, rfl, -, hdigit, hpoint⟩ := hoffset.exists_cons
  rw [List.append_assoc]
  exact noFractionAhead_blank_append hblank
    ⟨noDigitAhead_cons hdigit, fun _ heq => hpoint (List.cons.inj heq).1⟩

/-! ### Whole texts -/

theorem readMiddle_eq_some_iff : readMiddle cs = some rest ↔
    ∃ c, (c = 'T' ∨ c = 't' ∨ c = ' ') ∧ cs = c :: rest := by
  constructor
  · intro h
    unfold readMiddle at h
    split at h
    · cases h
      exact ⟨_, .inl rfl, rfl⟩
    · cases h
      exact ⟨_, .inr (.inl rfl), rfl⟩
    · cases h
      exact ⟨_, .inr (.inr rfl), rfl⟩
    · cases h
  · rintro ⟨c, rfl | rfl | rfl, rfl⟩ <;> rfl

theorem reads_spacedOffset : Reads (fun _ => True) (fun cs => readOffset (skipWhitespace cs))
    (Spaced SpellsOffset) :=
  reads_offset.spaced SpellsOffset.solid

theorem offset_mem_of_readOffset {offset : Int} (h : readOffset cs = some (offset, rest)) :
    -1440 < offset ∧ offset < 1440 := by
  obtain ⟨_, -, hspells⟩ := reads_offset.sound h
  exact hspells.mem

/-- The local time that a text spells. -/
def readLocal (cs : List Char) : Option LocalTime := do
  let (date, cs) ← readDate cs
  let cs ← readMiddle cs
  let (time, cs) ← readTime cs
  let (offset, cs) ← readOffset (skipWhitespace cs)
  if h : (-1440 < offset ∧ offset < 1440) ∧ skipWhitespace cs = [] then
    some ⟨date, time, offset, h.1⟩
  else
    none

/-- What a text is read as is the timestamp of the local time that it spells. -/
theorem readChars_eq (cs : List Char) :
    readChars cs = (readLocal cs).bind fun l => ofLocal? l.date l.time l.offset := by
  simp only [readChars, readLocal, Option.bind_eq_bind, Option.bind_assoc]
  refine Option.bind_congr fun _ _ => Option.bind_congr fun _ _ => Option.bind_congr fun _ _ =>
    Option.bind_congr fun offset hoffset => ?_
  have hmem := offset_mem_of_readOffset hoffset
  by_cases hend : skipWhitespace offset.2 = []
  · simp [hmem, hend]
  · simp [hend]

theorem readLocal_eq_some_iff {l : LocalTime} : readLocal cs = some l ↔ Spells cs l := by
  constructor
  · intro h
    simp only [readLocal, Option.bind_eq_bind, Option.bind_eq_some_iff, Prod.exists] at h
    obtain ⟨_, _, hdate, _, hmiddle, _, _, htime, _, _, hoffset, h⟩ := h
    split at h
    · next hend =>
      cases h
      obtain ⟨_, rfl, hdateSpelled⟩ := reads_date.sound hdate
      obtain ⟨_, hmiddleSpelled, rfl⟩ := readMiddle_eq_some_iff.1 hmiddle
      obtain ⟨_, rfl, htimeSpelled⟩ := reads_time.sound htime
      obtain ⟨_, rfl, hoffsetSpelled⟩ := reads_spacedOffset.sound hoffset
      exact .intro hdateSpelled hmiddleSpelled htimeSpelled hoffsetSpelled (isBlank_iff.2 hend.2)
    · cases h
  · rintro @⟨_, date, time, offset, blank, middle, hdate, hmiddle, htime, hoffset, hblank⟩
    have hstops : NoDigitAhead (middle :: (time ++ (offset ++ blank))) := by
      rcases hmiddle with rfl | rfl | rfl <;> exact noDigitAhead_cons rfl
    have hmiddleRead : readMiddle (middle :: (time ++ (offset ++ blank))) =
        some (time ++ (offset ++ blank)) := readMiddle_eq_some_iff.2 ⟨middle, hmiddle, rfl⟩
    have hoffsetRead : readOffset (skipWhitespace (offset ++ blank)) = some (l.offset, blank) :=
      reads_spacedOffset.complete hoffset trivial
    simp only [readLocal, Option.bind_eq_bind, Option.bind_some, reads_date.complete hdate hstops,
      hmiddleRead, reads_time.complete htime (noFractionAhead_offset hoffset blank), hoffsetRead]
    exact dif_pos ⟨l.offset_mem, isBlank_iff.1 hblank⟩

/-- A text spells one local time at most. -/
theorem Spells.unique {l l' : LocalTime} (h : Spells cs l) (h' : Spells cs l') : l = l' := by
  have hread := readLocal_eq_some_iff.2 h
  rw [readLocal_eq_some_iff.2 h'] at hread
  exact (Option.some.inj hread).symm

/-- A text is read as a timestamp exactly if it spells a local time whose date is covered, and the
timestamp names the instant at which clocks show that local time. -/
theorem parse_eq_some_iff {s : String} {t : Timestamp} : parse s = some t ↔
    ∃ l, Spells s.toList l ∧ l.date.IsCovered ∧ t.instant = l.instant := by
  simp only [parse, readChars_eq, Option.bind_eq_some_iff, readLocal_eq_some_iff,
    ofLocal?_eq_some_iff]

/-- Which texts are read: those that spell a local time whose date is covered, as is its instant. -/
theorem exists_parse_iff {s : String} : (∃ t, parse s = some t) ↔
    ∃ l, Spells s.toList l ∧ l.date.IsCovered ∧ l.instant.IsCovered := by
  simp only [parse, readChars_eq, Option.bind_eq_some_iff, readLocal_eq_some_iff]
  rw [exists_comm]
  simp only [exists_and_left, exists_ofLocal?_iff]

end Timestamp

end MetadataArchive
