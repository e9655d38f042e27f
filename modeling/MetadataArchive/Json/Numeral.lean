import MetadataArchive.Json.Basic

/-!
# Numerals

How numbers are written and read. The grammar allows no leading zero, no bare point and no empty
exponent; every `Numeral` has a text in it, and that text spells the numeral back.
-/

namespace MetadataArchive.Numeral

/-! ## Writing -/

/-- All digits of a numeral, at least one of them before the point. -/
def allDigits (n : Numeral) : List Char :=
  let ds := Nat.toDigits 10 n.mantissa
  List.replicate (n.places + 1 - ds.length) '0' ++ ds

/-- The digits before the point. -/
def wholeDigits (n : Numeral) : List Char :=
  n.allDigits.take (n.allDigits.length - n.places)

/-- The digits after the point. -/
def fractionDigits (n : Numeral) : List Char :=
  n.allDigits.drop (n.allDigits.length - n.places)

/-- The digits with the point in its place. -/
def digits (n : Numeral) : List Char :=
  if n.places = 0 then n.wholeDigits else n.wholeDigits ++ '.' :: n.fractionDigits

/-- The exponent part: its sign is always shown and its digits are not padded. -/
def exponentPart : Option Int → List Char
  | none => []
  | some e => 'e' :: (if e < 0 then '-' else '+') :: Nat.toDigits 10 e.natAbs

/-- Writes a number in front of `rest`. -/
def write (n : Numeral) (rest : List Char) : List Char :=
  (if n.negative then ['-'] else []) ++ (n.digits ++ (exponentPart n.exponent ++ rest))

/-! ## Reading -/

/-- The digits at the front of a text and what follows them, unless there is no digit. -/
def readDigits (cs : List Char) : Option (List Char × List Char) :=
  match cs.takeWhile Char.isDigit with
  | [] => none
  | ds => some (ds, cs.dropWhile Char.isDigit)

/-- The digits before the point: a zero stands there only by itself. -/
def readWhole (cs : List Char) : Option (List Char × List Char) := do
  let (ds, rest) ← readDigits cs
  if ds.head? = some '0' ∧ ds ≠ ['0'] then none else some (ds, rest)

/-- The digits after a point, none if no point is written. -/
def readFraction : List Char → Option (List Char × List Char)
  | '.' :: rest => readDigits rest
  | rest => some ([], rest)

/-- The digits of an exponent after its sign. -/
def readMagnitude (negative : Bool) (cs : List Char) : Option (Option Int × List Char) :=
  (readDigits cs).map fun (ds, rest) =>
    let e : Int := Nat.ofDigitChars 10 ds 0
    (some (if negative then -e else e), rest)

/-- The exponent after its letter. -/
def readSigned : List Char → Option (Option Int × List Char)
  | '-' :: rest => readMagnitude true rest
  | '+' :: rest => readMagnitude false rest
  | rest => readMagnitude false rest

/-- The exponent part, `none` if no letter for it is written. -/
def readExponent : List Char → Option (Option Int × List Char)
  | 'e' :: rest => readSigned rest
  | 'E' :: rest => readSigned rest
  | rest => some (none, rest)

/-- Reads a number without its sign. -/
def readUnsigned (negative : Bool) (cs : List Char) : Option (Numeral × List Char) := do
  let (whole, cs) ← readWhole cs
  let (fraction, cs) ← readFraction cs
  let (exponent, cs) ← readExponent cs
  return (⟨negative, Nat.ofDigitChars 10 (whole ++ fraction) 0, fraction.length, exponent⟩, cs)

/-- Reads a number, as far as it goes. -/
def read : List Char → Option (Numeral × List Char)
  | '-' :: rest => readUnsigned true rest
  | rest => readUnsigned false rest

end MetadataArchive.Numeral
