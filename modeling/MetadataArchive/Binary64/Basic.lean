/-!
# Finite doubles

The finite values of the binary64 format, ordered by magnitude: the magnitude of rank `r` is a whole
number of units of `2 ^ -1074`, the ranks are consecutive, and a value is even in the sense of
"ties to even" exactly if its rank is. Infinities and NaN have no JSON text and are left out.
-/

namespace MetadataArchive

namespace Binary64

/-- How many magnitudes there are from a power of two to below the next: `2 ^ 52`. -/
def binade : Nat :=
  0x10000000000000

/-- How many finite magnitudes there are; this rank would be that of `2 ^ 1024`. -/
def rankBound : Nat :=
  2047 * binade

end Binary64

/-- A finite double: its sign and the rank of its magnitude. -/
structure Binary64 where
  negative : Bool
  rank : Nat
  rank_lt : rank < Binary64.rankBound

namespace Binary64

/-- How many units of `2 ^ -1074` make one. -/
def unitsPerOne : Nat :=
  1 <<< 1074

/-- The magnitude of a rank in units of `2 ^ -1074`. -/
def units (rank : Nat) : Nat :=
  if rank < binade then rank else (binade + rank % binade) <<< (rank / binade - 1)

/-- Equality of numbers: the two zeros are equal. -/
instance : BEq Binary64 where
  beq x y := x.rank == y.rank && (x.rank == 0 || x.negative == y.negative)

theorem beq_iff {x y : Binary64} :
    x == y ↔ x.rank = y.rank ∧ (x.rank = 0 ∨ x.negative = y.negative) := by
  simp [BEq.beq]

end Binary64

end MetadataArchive
