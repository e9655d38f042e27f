import MetadataArchive.Text.Whitespace
import MetadataArchive.Time.Timestamp

/-!
# How timestamps are spelled

A timestamp is written in one way, `YYYY-MM-DDThh:mm:ss` with the shortest fraction of three, six or
nine digits that loses nothing, and `Z`. It is read from many: numbers may be short, white space may
stand before each number and before the signs between them, the time may be that of any offset from
Coordinated Universal Time, and digits of the fraction after the ninth are dropped.
-/

namespace MetadataArchive.Timestamp

/-! ## Writing -/

/-- The digits of a number, with zeros in front up to `width`. -/
def padded (width n : Nat) : List Char :=
  let ds := Nat.toDigits 10 n
  List.replicate (width - ds.length) '0' ++ ds

/-- A year: four digits if they are enough, else a sign and at least four digits. -/
def writeYear (year : Int) : List Char :=
  if 0 ≤ year ∧ year ≤ 9999 then padded 4 year.toNat
  else (if year < 0 then '-' else '+') :: padded 4 year.natAbs

/-- The fraction of a second with its point; nothing for a whole second. -/
def writeFraction (nanosecond : Nat) : List Char :=
  if nanosecond = 0 then []
  else if nanosecond % 1000000 = 0 then '.' :: padded 3 (nanosecond / 1000000)
  else if nanosecond % 1000 = 0 then '.' :: padded 6 (nanosecond / 1000)
  else '.' :: padded 9 nanosecond

/-- The text of a timestamp, as characters. -/
def spell (t : Timestamp) : List Char :=
  writeYear t.date.year ++ '-' :: padded 2 t.date.month ++ '-' :: padded 2 t.date.day ++
    'T' :: padded 2 t.time.hour ++ ':' :: padded 2 t.time.minute ++ ':' :: padded 2 t.time.second ++
    writeFraction t.time.nanosecond ++ ['Z']

/-- The text of a timestamp. -/
def render (t : Timestamp) : String :=
  String.ofList t.spell

/-! ## Reading -/

/-- A number of at least one and at most `width` digits, as far as the digits go. -/
def readNumber (width : Nat) (cs : List Char) : Option (Nat × List Char) :=
  match (cs.take width).takeWhile Char.isDigit with
  | [] => none
  | ds => some (Nat.ofDigitChars 10 ds 0, cs.drop ds.length)

/-- A number of one or two digits after white space. -/
def readPart (cs : List Char) : Option (Nat × List Char) :=
  readNumber 2 (Text.skipWhitespace cs)

/-- A year after white space: up to four digits, or a sign and any number of them. -/
def readYear (cs : List Char) : Option (Int × List Char) :=
  match Text.skipWhitespace cs with
  | '-' :: rest => (readNumber rest.length rest).map fun (n, rest) => (-n, rest)
  | '+' :: rest => (readNumber rest.length rest).map fun (n, rest) => (n, rest)
  | rest => (readNumber 4 rest).map fun (n, rest) => (n, rest)

/-- A sign between numbers, after white space. -/
def readSeparator (sign : Char) (cs : List Char) : Option (List Char) :=
  match Text.skipWhitespace cs with
  | c :: rest => if c = sign then some rest else none
  | [] => none

/-- The fraction of a second in nanoseconds, zero if there is none. -/
def readFraction : List Char → Option (Nat × List Char)
  | '.' :: rest =>
    match rest.takeWhile Char.isDigit with
    | [] => none
    | ds =>
      let nine := (ds ++ List.replicate 9 '0').take 9
      some (Nat.ofDigitChars 10 nine 0, rest.dropWhile Char.isDigit)
  | rest => some (0, rest)

/-- The sign between a date and a time of day. -/
def readMiddle : List Char → Option (List Char)
  | 'T' :: rest => some rest
  | 't' :: rest => some rest
  | ' ' :: rest => some rest
  | _ => none

/-- The hours and minutes of an offset: two digits each, with any colons and white space between
them. The offset is less than a day. -/
def readMinutes : List Char → Option (Nat × List Char)
  | h₁ :: h₂ :: rest =>
    match rest.dropWhile fun c => c == ':' || Text.isWhitespace c with
    | m₁ :: m₂ :: rest =>
      let hours := Nat.ofDigitChars 10 [h₁, h₂] 0
      let minutes := Nat.ofDigitChars 10 [m₁, m₂] 0
      if [h₁, h₂, m₁, m₂].all Char.isDigit ∧ hours < 24 ∧ minutes < 60 then
        some (hours * 60 + minutes, rest)
      else
        none
    | _ => none
  | _ => none

/-- Whether a character is `upper`, a capital letter, in either case. -/
def isLetter (upper c : Char) : Bool :=
  c == upper || c == Char.ofNat (upper.toNat + 32)

/-- The offset from Coordinated Universal Time in minutes: `Z`, `UTC`, or a sign, hours and minutes.
A minus sign may also be written as U+2212. -/
def readOffset : List Char → Option (Int × List Char)
  | '+' :: rest => (readMinutes rest).map fun (n, rest) => (n, rest)
  | '-' :: rest => (readMinutes rest).map fun (n, rest) => (-n, rest)
  | '\u2212' :: rest => (readMinutes rest).map fun (n, rest) => (-n, rest)
  | c :: rest =>
    if isLetter 'Z' c then some (0, rest)
    else
      match rest with
      | t :: z :: rest =>
        if isLetter 'U' c ∧ isLetter 'T' t ∧ isLetter 'C' z then some (0, rest) else none
      | _ => none
  | [] => none

/-- A date, as far as it goes. -/
def readDate (cs : List Char) : Option (Date × List Char) := do
  let (year, cs) ← readYear cs
  let cs ← readSeparator '-' cs
  let (month, cs) ← readPart cs
  let cs ← readSeparator '-' cs
  let (day, cs) ← readPart cs
  let date ← Date.ofParts? year month day
  return (date, cs)

/-- A time of day, as far as it goes. -/
def readTime (cs : List Char) : Option (TimeOfDay × List Char) := do
  let (hour, cs) ← readPart cs
  let cs ← readSeparator ':' cs
  let (minute, cs) ← readPart cs
  let cs ← readSeparator ':' cs
  let (second, cs) ← readPart cs
  let (nanosecond, cs) ← readFraction cs
  let time ← TimeOfDay.ofParts? hour minute second nanosecond
  return (time, cs)

/-- The timestamp that a text spells, given as characters. -/
def readChars (cs : List Char) : Option Timestamp := do
  let (date, cs) ← readDate cs
  let cs ← readMiddle cs
  let (time, cs) ← readTime cs
  let (offset, cs) ← readOffset (Text.skipWhitespace cs)
  if (Text.skipWhitespace cs).isEmpty then ofLocal? date time offset else none

/-- The timestamp that a text spells, if it spells one. -/
def parse (s : String) : Option Timestamp :=
  readChars s.toList

end MetadataArchive.Timestamp
