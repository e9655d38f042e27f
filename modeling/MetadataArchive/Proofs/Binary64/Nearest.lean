import Mathlib.Algebra.Group.Nat.Defs
import Mathlib.Order.Monotone.Basic
import MetadataArchive.Binary64.Reading
import MetadataArchive.Proofs.Json.Numeral

/-!
# How far a rounded rank can lie

Magnitudes grow strictly with their ranks, and the rank searched for never lies above the number it
is searched for. So rounding goes one rank up at most, and every whole number of 64 bits is read as
a double.
-/

namespace MetadataArchive.Binary64

/-! ## Magnitudes by rank -/

theorem units_of_lt {rank : Nat} (h : rank < binade) : units rank = rank :=
  if_pos h

theorem units_of_le {rank : Nat} (h : binade ≤ rank) :
    units rank = (binade + rank % binade) * 2 ^ (rank / binade - 1) := by
  rw [units, if_neg (Nat.not_lt.2 h), Nat.shiftLeft_eq]

theorem units_lt_units_succ (rank : Nat) : units rank < units (rank + 1) := by
  have hbinade : binade = 4503599627370496 := rfl
  rcases Nat.lt_trichotomy (rank + 1) binade with hsub | hfirst | hnormal
  · rw [units_of_lt hsub, units_of_lt (Nat.lt_of_succ_lt hsub)]
    exact Nat.lt_succ_self rank
  · rw [units_of_lt (by omega), units_of_le (Nat.le_of_eq hfirst.symm), hfirst,
      Nat.mod_self, Nat.div_self (by decide)]
    omega
  · rw [units_of_le (by omega), units_of_le (by omega)]
    have hpos : 0 < 2 ^ (rank / binade - 1) := Nat.two_pow_pos _
    by_cases hlast : rank % binade + 1 = binade
    · -- the last magnitude of a binade: the next is a power of two
      have hdiv : (rank + 1) / binade - 1 = rank / binade - 1 + 1 := by
        rw [hbinade] at hlast hnormal ⊢
        omega
      have hmod : (rank + 1) % binade = 0 := by
        rw [hbinade] at hlast ⊢
        omega
      rw [hdiv, hmod, Nat.pow_succ]
      calc (binade + rank % binade) * 2 ^ (rank / binade - 1)
          < (2 * binade) * 2 ^ (rank / binade - 1) := Nat.mul_lt_mul_of_pos_right (by omega) hpos
        _ = (binade + 0) * (2 ^ (rank / binade - 1) * 2) := by
          rw [Nat.add_zero, Nat.mul_comm 2 binade, Nat.mul_assoc, Nat.mul_comm 2]
    · have hdiv : (rank + 1) / binade = rank / binade := by
        rw [hbinade] at hlast ⊢
        omega
      have hmod : (rank + 1) % binade = rank % binade + 1 := by
        rw [hbinade] at hlast ⊢
        omega
      rw [hdiv, hmod]
      exact Nat.mul_lt_mul_of_pos_right (by omega) hpos

theorem units_strictMono : StrictMono units :=
  strictMono_nat_of_lt_succ units_lt_units_succ

theorem units_zero : units 0 = 0 := by
  decide

/-! ## Rounding -/

section Rounding

variable {num den rank : Nat}

theorem units_climb_mul_le (bits : Nat) (h : units rank * den ≤ num) :
    units (climb num den bits rank) * den ≤ num := by
  induction bits generalizing rank with
  | zero => exact h
  | succ bits ih =>
    rw [climb]
    split
    · next hnext => exact ih hnext.2
    · exact ih h

/-- The magnitude found is not above the number. -/
theorem units_floorRank_mul_le (num den : Nat) : units (floorRank num den) * den ≤ num :=
  units_climb_mul_le 63 (by rw [units_zero, Nat.zero_mul]; exact Nat.zero_le _)

theorem floorRank_lt (h : num < units rank * den) : floorRank num den < rank := by
  refine Nat.lt_of_not_le fun hle => ?_
  have hunits : units rank * den ≤ units (floorRank num den) * den :=
    Nat.mul_le_mul_right den (units_strictMono.monotone hle)
  have := units_floorRank_mul_le num den
  omega

theorem nearestRank_le_succ (num den : Nat) : nearestRank num den ≤ floorRank num den + 1 := by
  simp only [nearestRank]
  split
  · omega
  · split <;> omega

/-- A number below the magnitude of a rank is rounded to that rank at most. -/
theorem nearestRank_le (h : num < units rank * den) : nearestRank num den ≤ rank := by
  have := nearestRank_le_succ num den
  have := floorRank_lt h
  omega

end Rounding

/-! ## Digits of 64 bits -/

theorem le_ofDigitChars (ds : List Char) (n : Nat) : n ≤ Nat.ofDigitChars 10 ds n := by
  rw [Nat.ofDigitChars_eq_ofDigitChars_zero]
  exact Nat.le_add_right_of_le (Nat.le_mul_of_pos_left n (Nat.pow_pos (by decide)))

/-- While all digits fit, none is left over. -/
theorem extend_of_lt {ds : List Char} {n : Nat} (h : Nat.ofDigitChars 10 ds n < significandBound) :
    extend n ds = (Nat.ofDigitChars 10 ds n, []) := by
  induction ds generalizing n with
  | nil => rfl
  | cons d ds ih =>
    have hsplit : Nat.ofDigitChars 10 (d :: ds) n =
        Nat.ofDigitChars 10 ds (Nat.ofDigitChars 10 [d] n) :=
      Nat.ofDigitChars_append (l := [d]) n
    have hnext : Nat.ofDigitChars 10 [d] n < significandBound :=
      Nat.lt_of_le_of_lt (le_ofDigitChars ds _) (hsplit ▸ h)
    rw [extend, if_pos hnext, ih (hsplit ▸ h), hsplit]

/-- The exponent of the power of ten by which the digits of a numeral are multiplied. -/
def powerOf (n : Numeral) : Int :=
  n.exponent.getD 0 - n.places

theorem scientific_of_lt {n : Numeral} (h : n.mantissa < significandBound) :
    scientific n = (n.mantissa, powerOf n) := by
  have hvalue := n.ofDigitChars_whole_fraction
  rw [Nat.ofDigitChars_append] at hvalue
  have hfraction := extend_of_lt (hvalue.symm ▸ h)
  have hwhole := extend_of_lt (Nat.lt_of_le_of_lt (le_ofDigitChars n.fractionDigits _)
    (hvalue.symm ▸ h))
  rw [hvalue] at hfraction
  simp only [scientific, hwhole, hfraction, List.length_nil, powerOf]
  rw [Int.natCast_zero, Int.add_zero, Int.add_zero]

/-- The rank of `2 ^ 64`, the bound of the whole numbers of 64 bits. -/
def significandRank : Nat :=
  1087 * binade

theorem units_significandRank : units significandRank = significandBound * unitsPerOne := by
  decide +kernel

theorem decimalRank_le {m : Nat} (h : m < significandBound) :
    decimalRank m 0 ≤ significandRank := by
  unfold decimalRank
  split
  · exact Nat.zero_le _
  split
  · next hbig => exact absurd hbig (by decide)
  split
  · exact Nat.zero_le _
  · apply nearestRank_le
    rw [units_significandRank]
    show m * 1 * unitsPerOne < significandBound * unitsPerOne * 1
    rw [Nat.mul_one, Nat.mul_one]
    exact Nat.mul_lt_mul_of_pos_right h (show 0 < unitsPerOne by decide)

/-- A whole number of 64 bits is read as it is rounded, and rounded again where it is multiplied by
the power zero of ten. -/
theorem isSome_ofNumeral_ofInt {i : Int} (h : i.natAbs < significandBound) :
    (ofNumeral (.ofInt i)).isSome = true := by
  have hone : units (powerRank 0) = unitsPerOne := by decide +kernel
  have hrank : scaleRank (decimalRank i.natAbs 0) 0 < rankBound := by
    unfold scaleRank
    dsimp only
    split
    · decide
    · rw [if_pos (by decide), if_pos (by decide), mulRank, Int.natAbs_zero, hone]
      have hbound : units (decimalRank i.natAbs 0) * unitsPerOne <
          units (significandRank + 1) * unitsPerOne :=
        Nat.mul_lt_mul_of_pos_right (units_strictMono (Nat.lt_succ_of_le (decimalRank_le h)))
          (by decide)
      exact Nat.lt_of_le_of_lt (nearestRank_le hbound) (by decide)
  have hscientific : scientific (.ofInt i) = (i.natAbs, 0) := scientific_of_lt h
  rw [ofNumeral, hscientific]
  simp only [dif_pos hrank, Option.isSome_some]

end MetadataArchive.Binary64
