import MetadataArchive.Binary64.Nearest
import MetadataArchive.Json.Numeral

/-!
# Reading doubles

How a numeral is read as a double: its leading digits, as many as fit into 64 bits, are taken as a
whole number, which is then multiplied or divided by a power of ten. The whole number, the power and
the result are each rounded to a double. So the double that is read may lie some ranks beside the
nearest one, and two numerals of one value need not read alike.
-/

namespace MetadataArchive.Binary64

/-- The whole numbers that fit into 64 bits are below this one. -/
def significandBound : Nat :=
  UInt64.size

/-- Writes digits behind a whole number while it fits; tells the number and the digits left over. -/
def extend (significand : Nat) : List Char → Nat × List Char
  | [] => (significand, [])
  | d :: ds =>
    let next := Nat.ofDigitChars 10 [d] significand
    if next < significandBound then extend next ds else (significand, d :: ds)

/-- The leading digits of a numeral as a whole number, and the exponent of the power of ten that
goes with it. Digits are left over on either side of the point by itself: when not all of those
before the point fit, those after it are still tried. -/
def scientific (n : Numeral) : Nat × Int :=
  let (whole, wholeLeft) := extend 0 n.wholeDigits
  let (significand, fractionLeft) := extend whole n.fractionDigits
  (significand, n.exponent.getD 0 + wholeLeft.length + fractionLeft.length - n.places)

/-- The rank nearest to a power of ten. -/
def powerRank (exponent : Nat) : Nat :=
  decimalRank 1 exponent

/-- The greatest exponent of a power of ten that is below the bound of doubles. -/
def greatestPower : Nat :=
  308

/-- The rank read for a magnitude below `2 ^ 64` times a power of ten. To divide by more than the
greatest power takes two divisions, and nothing is left after two of the greatest. -/
def scaleRank (rank : Nat) (exponent : Int) : Nat :=
  let size := exponent.natAbs
  if rank = 0 then 0
  else if 0 ≤ exponent then
    if size ≤ greatestPower then mulRank rank (powerRank size) else rankBound
  else if size ≤ greatestPower then divRank rank (powerRank size)
  else if size ≤ 2 * greatestPower then
    divRank (divRank rank (powerRank greatestPower)) (powerRank (size - greatestPower))
  else 0

/-- The double read for a numeral, unless that is too large. -/
def ofNumeral (n : Numeral) : Option Binary64 :=
  let (significand, exponent) := scientific n
  let rank := scaleRank (decimalRank significand 0) exponent
  if h : rank < rankBound then some ⟨n.negative, rank, h⟩ else none

end MetadataArchive.Binary64
