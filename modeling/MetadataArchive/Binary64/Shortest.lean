import MetadataArchive.Binary64.Nearest
import MetadataArchive.Json.Basic

/-!
# The shortest decimal

Which decimal number is written for a double: one with the fewest digits among those to which the
double is the nearest, of those the nearest to the double, of two equally near the one with the even
last digit. Whoever rounds such a number once gets the double back.
-/

namespace MetadataArchive.Binary64

/-- The decimal exponent of the first digit of the magnitude of a rank that is not zero. -/
def leadingExponent (rank : Nat) : Int :=
  (Nat.toDigits 10 (units rank * Nat.pow 10 324 / unitsPerOne)).length - 325

/-- The magnitude of a rank as a fraction of `10 ^ exponent`. -/
def quotientBy (rank : Nat) (exponent : Int) : Nat × Nat :=
  (units rank * Nat.pow 10 (-exponent).toNat, unitsPerOne * Nat.pow 10 exponent.toNat)

/-- Of the two multiples of `10 ^ exponent` around the magnitude of a rank, the one to write:
the nearer of those that round to it. -/
def candidate (rank : Nat) (exponent : Int) : Option Nat :=
  let (num, den) := quotientBy rank exponent
  let below := num / den
  let roundsBack (m : Nat) : Bool := decimalRank m exponent == rank
  match roundsBack below, roundsBack (below + 1) with
  | true, true =>
    if 2 * num < (2 * below + 1) * den then some below
    else if (2 * below + 1) * den < 2 * num then some (below + 1)
    else some (below + below % 2)
  | true, false => some below
  | false, true => some (below + 1)
  | false, false => none

/-- The mantissa and exponent written for a rank that is not zero. Seventeen digits suffice; the
exact value stands behind them. -/
def shortest (rank : Nat) : Nat × Int :=
  let first := leadingExponent rank
  let found := (List.range 17).findSome? fun places : Nat =>
    (candidate rank (first - places)).map fun m => (m, first - places)
  match found with
  | some (m, e) => if m % 10 = 0 then (m / 10, e + 1) else (m, e)
  | none => (units rank * Nat.pow 5 1074, -1074)

/-- How decimal numbers are laid out: positionally while the exponent of the first digit lies in a
range, with a digit after the point at least, and with an exponent part otherwise. -/
structure DecimalStyle where
  least : Int
  greatest : Int

/-- Doubles are written positionally from `1e-5` to below `1e16`. -/
def jsonStyle : DecimalStyle :=
  ⟨-5, 15⟩

/-- The numeral for `mantissa * 10 ^ exponent` in a style. -/
def DecimalStyle.layOut (n : DecimalStyle) (negative : Bool) (mantissa : Nat) (exponent : Int) :
    Numeral :=
  let size := (Nat.toDigits 10 mantissa).length
  let first := exponent + size - 1
  if n.least ≤ first ∧ first ≤ n.greatest then
    if 0 ≤ exponent then ⟨negative, mantissa * Nat.pow 10 (exponent.toNat + 1), 1, none⟩
    else ⟨negative, mantissa, (-exponent).toNat, none⟩
  else ⟨negative, mantissa, size - 1, some first⟩

/-- The numeral written for a double. -/
def toNumeral (x : Binary64) : Numeral :=
  if x.rank = 0 then ⟨x.negative, 0, 1, none⟩
  else
    let (m, e) := shortest x.rank
    jsonStyle.layOut x.negative m e

end MetadataArchive.Binary64
