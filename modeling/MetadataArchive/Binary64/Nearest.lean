import MetadataArchive.Binary64.Basic

/-!
# The nearest double

Which finite double is nearest to a number: to a decimal number, or to the product or quotient of
two doubles. All arithmetic is exact: magnitudes are compared as fractions in units of `2 ^ -1074`,
and only the last step, the choice between two neighbouring ranks, rounds. A tie goes to the even
rank; what rounds to the rank after the last is too large.
-/

namespace MetadataArchive.Binary64

/-- Adds to `rank`, from the bit below `bits` down, every power of two that keeps the magnitude at
most `num / den`. -/
def climb (num den : Nat) : Nat → Nat → Nat
  | 0, rank => rank
  | bits + 1, rank =>
    let next := rank + 1 <<< bits
    climb num den bits (if next ≤ rankBound ∧ units next * den ≤ num then next else rank)

/-- The greatest rank, up to the bound, whose magnitude is at most `num / den` units. -/
def floorRank (num den : Nat) : Nat :=
  climb num den 63 0

/-- The rank whose magnitude is nearest to `num / den` units; of two equally near the even one. -/
def nearestRank (num den : Nat) : Nat :=
  let rank := floorRank num den
  let middle := (units rank + units (rank + 1)) * den
  if rank = rankBound ∨ 2 * num < middle then rank
  else if middle < 2 * num then rank + 1
  else rank + rank % 2

/-- The rank nearest to `mantissa * 10 ^ exponent`. Exponents so far out that the answer is plain
are settled without computing the power. -/
def decimalRank (mantissa : Nat) (exponent : Int) : Nat :=
  if mantissa = 0 then 0
  else if 400 < exponent then rankBound
  else if exponent + mantissa.log2 < -400 then 0
  else
    nearestRank (mantissa * Nat.pow 10 exponent.toNat * unitsPerOne) (Nat.pow 10 (-exponent).toNat)

/-! ## Arithmetic -/

/-- The rank nearest to the product of two magnitudes. -/
def mulRank (a b : Nat) : Nat :=
  nearestRank (units a * units b) unitsPerOne

/-- The rank nearest to the quotient of two magnitudes, the second of which is not zero. -/
def divRank (a b : Nat) : Nat :=
  nearestRank (units a * unitsPerOne) (units b)

end MetadataArchive.Binary64
