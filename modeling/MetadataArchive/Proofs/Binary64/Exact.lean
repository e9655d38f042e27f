import MetadataArchive.Proofs.Binary64.Nearest

/-!
# Roundings that change nothing

Reading rounds up to three times, but the magnitude of a double is rounded to itself. So a numeral
whose digits make up a whole number of at most 53 bits, and whose power of ten is a double itself,
is rounded once at most, and read as the nearest double.
-/

namespace MetadataArchive

namespace Binary64

/-! ## Rounding magnitudes of doubles -/

section Rounding

variable {num den rank : Nat}

/-- The bits below `bits` are enough to climb to every rank with a magnitude up to `num / den`. -/
theorem le_climb_of_lt {bits start : Nat} (hbound : rank ≤ rankBound) (h : units rank * den ≤ num)
    (hlt : rank < start + 1 <<< bits) : rank ≤ climb num den bits start := by
  induction bits generalizing start with
  | zero => exact Nat.le_of_lt_succ hlt
  | succ bits ih =>
    have hhalves : 1 <<< (bits + 1) = 1 <<< bits + 1 <<< bits := by
      rw [Nat.shiftLeft_succ]
      omega
    -- each bit halves the ranks that are left
    rw [climb]
    split
    · exact ih (by omega)
    · next hnext =>
      refine ih (Nat.lt_of_not_le fun hle => hnext ⟨Nat.le_trans hle hbound, ?_⟩)
      exact Nat.le_trans (Nat.mul_le_mul_right den (units_strictMono.monotone hle)) h

theorem le_floorRank (hbound : rank ≤ rankBound) (h : units rank * den ≤ num) :
    rank ≤ floorRank num den :=
  le_climb_of_lt hbound h (Nat.lt_of_le_of_lt hbound (by decide))

/-- The magnitude of a rank is rounded to that rank. -/
theorem nearestRank_units (hden : 0 < den) (hbound : rank ≤ rankBound) :
    nearestRank (units rank * den) den = rank := by
  have hnext : units rank * den < units (rank + 1) * den :=
    Nat.mul_lt_mul_of_pos_right (units_lt_units_succ rank) hden
  have hfloor : floorRank (units rank * den) den = rank :=
    Nat.le_antisymm (Nat.le_of_lt_succ (floorRank_lt hnext))
      (le_floorRank hbound (Nat.le_refl _))
  -- the number is below the middle to the next magnitude
  simp only [nearestRank, hfloor]
  rw [if_pos]
  right
  rw [Nat.add_mul]
  omega

theorem climb_mul_right {k : Nat} (hk : 0 < k) (bits start : Nat) :
    climb (num * k) (den * k) bits start = climb num den bits start := by
  induction bits generalizing start with
  | zero => rfl
  | succ bits ih =>
    simp only [climb, ← Nat.mul_assoc, Nat.mul_le_mul_right_iff hk, ih]

/-- Rounding depends on the number only, not on the fraction that it is given as. -/
theorem nearestRank_mul_right {k : Nat} (hk : 0 < k) :
    nearestRank (num * k) (den * k) = nearestRank num den := by
  have hfloor : floorRank (num * k) (den * k) = floorRank num den := climb_mul_right hk 63 0
  have hbelow (m : Nat) : 2 * (num * k) < m * (den * k) ↔ 2 * num < m * den := by
    rw [← Nat.mul_assoc, ← Nat.mul_assoc, Nat.mul_lt_mul_right hk]
  have habove (m : Nat) : m * (den * k) < 2 * (num * k) ↔ m * den < 2 * num := by
    rw [← Nat.mul_assoc, ← Nat.mul_assoc, Nat.mul_lt_mul_right hk]
  simp only [nearestRank, hfloor]
  exact if_congr (or_congr_right (hbelow _)) rfl (if_congr (habove _) rfl rfl)

end Rounding

/-! ## Rounding decimal numbers -/

/-- The whole numbers of at most 53 bits, and the next one, are at most this one. -/
def exactBound : Nat :=
  2 * binade

/-- The powers of ten up to this exponent are doubles. -/
def exactPower : Nat :=
  22

/-- Every whole number up to the bound is the magnitude of a double. -/
theorem exists_units_eq {m : Nat} (h : m ≤ exactBound) :
    ∃ rank < rankBound, units rank = m * unitsPerOne := by
  have hbinade : binade = 4503599627370496 := rfl
  by_cases hzero : m = 0
  · exact ⟨0, by decide, by rw [hzero, units_zero, Nat.zero_mul]⟩
  by_cases hlast : m = exactBound
  · subst hlast
    exact ⟨1076 * binade, by decide, by decide +kernel⟩
  have hbits : m.log2 ≤ 52 :=
    Nat.le_of_lt_succ ((Nat.log2_lt hzero).2 (Nat.lt_of_le_of_ne h hlast))
  -- the digits of the number, moved up until the first of them is that of the binade
  have hone : 2 ^ m.log2 * 2 ^ (52 - m.log2) = binade := by
    rw [← Nat.pow_add, Nat.add_sub_cancel' hbits]
    rfl
  have hleast : binade ≤ m * 2 ^ (52 - m.log2) :=
    hone ▸ Nat.mul_le_mul_right _ (Nat.log2_self_le hzero)
  have hgreatest : m * 2 ^ (52 - m.log2) < 2 * binade := by
    rw [← hone, ← Nat.mul_assoc, Nat.mul_comm 2, ← Nat.pow_succ]
    exact Nat.mul_lt_mul_of_pos_right Nat.lt_log2_self (Nat.two_pow_pos _)
  have hdiv : ((1022 + m.log2) * binade + m * 2 ^ (52 - m.log2)) / binade - 1 =
      1022 + m.log2 := by
    rw [hbinade] at hleast hgreatest ⊢
    omega
  have hmod : binade + ((1022 + m.log2) * binade + m * 2 ^ (52 - m.log2)) % binade =
      m * 2 ^ (52 - m.log2) := by
    rw [hbinade] at hleast hgreatest ⊢
    omega
  refine ⟨(1022 + m.log2) * binade + m * 2 ^ (52 - m.log2), ?_, ?_⟩
  · rw [rankBound]
    rw [hbinade] at hgreatest ⊢
    omega
  · have hexponent : 52 - m.log2 + (1022 + m.log2) = 1074 := by omega
    rw [units_of_le (Nat.le_trans hleast (Nat.le_add_left _ _)), hdiv, hmod, Nat.mul_assoc,
      ← Nat.pow_add, hexponent, unitsPerOne, Nat.one_shiftLeft]

theorem units_powerRank {e : Nat} (h : e ≤ exactPower) :
    units (powerRank e) = Nat.pow 10 e * unitsPerOne := by
  have hall : ∀ e ≤ exactPower, units (powerRank e) = Nat.pow 10 e * unitsPerOne := by
    decide +kernel
  exact hall e h

section Decimal

variable {m : Nat} {e : Int}

theorem decimalRank_zero (e : Int) : decimalRank 0 e = 0 :=
  if_pos rfl

theorem scaleRank_zero (e : Int) : scaleRank 0 e = 0 := by
  simp only [scaleRank, if_true]

/-- Exponents that are not far out are not settled in advance. -/
theorem decimalRank_eq_nearestRank (hm : m ≠ 0) (hleast : -400 ≤ e) (hgreatest : e ≤ 400) :
    decimalRank m e =
      nearestRank (m * Nat.pow 10 e.toNat * unitsPerOne) (Nat.pow 10 (-e).toNat) := by
  rw [decimalRank, if_neg hm, if_neg (by omega), if_neg (by omega)]

/-- A digit zero more and an exponent one less make the same number. -/
theorem decimalRank_mul_ten (hm : m ≠ 0) (hleast : -400 < e) (hgreatest : e ≤ 400) :
    decimalRank (m * 10) (e - 1) = decimalRank m e := by
  rw [decimalRank_eq_nearestRank (by omega) (by omega) (by omega),
    decimalRank_eq_nearestRank hm (by omega) hgreatest]
  by_cases he : 0 < e
  · have hpower : Nat.pow 10 e.toNat = Nat.pow 10 (e - 1).toNat * 10 := by
      rw [show e.toNat = (e - 1).toNat + 1 by omega]
      rfl
    have hnone : (-(e - 1)).toNat = (-e).toNat := by omega
    rw [hpower, hnone, Nat.mul_assoc m 10, Nat.mul_comm 10]
  · have hpower : Nat.pow 10 (-(e - 1)).toNat = Nat.pow 10 (-e).toNat * 10 := by
      rw [show (-(e - 1)).toNat = (-e).toNat + 1 by omega]
      rfl
    have hnone : (e - 1).toNat = e.toNat := by omega
    rw [hpower, hnone, Nat.mul_right_comm m 10, Nat.mul_right_comm _ 10,
      nearestRank_mul_right (by decide)]

theorem decimalRank_mul_pow (hm : m ≠ 0) (k : Nat) (hleast : -400 ≤ e - k) (hgreatest : e ≤ 400) :
    decimalRank (m * Nat.pow 10 k) (e - k) = decimalRank m e := by
  induction k with
  | zero =>
    show decimalRank (m * 1) (e - 0) = _
    rw [Nat.mul_one, Int.sub_zero]
  | succ k ih =>
    have hpower : m * Nat.pow 10 (k + 1) = m * Nat.pow 10 k * 10 := (Nat.mul_assoc _ _ _).symm
    have hexponent : e - (k + 1 : Nat) = e - k - 1 := by omega
    have hpos : 0 < Nat.pow 10 k := Nat.pow_pos (by decide)
    have hne : m * Nat.pow 10 k ≠ 0 := Nat.mul_ne_zero hm (Nat.ne_of_gt hpos)
    rw [hpower, hexponent, decimalRank_mul_ten hne (by omega) (by omega), ih (by omega)]

/-- A whole number up to the bound is not rounded. -/
theorem units_decimalRank (h : m ≤ exactBound) : units (decimalRank m 0) = m * unitsPerOne := by
  by_cases hm : m = 0
  · rw [hm, Nat.zero_mul]
    decide
  · obtain ⟨rank, hrank, hunits⟩ := exists_units_eq h
    rw [decimalRank_eq_nearestRank hm (by decide) (by decide)]
    show units (nearestRank (m * 1 * unitsPerOne) 1) = _
    have hround : nearestRank (units rank * 1) 1 = rank :=
      nearestRank_units (by decide) (Nat.le_of_lt hrank)
    rw [Nat.mul_one] at hround
    rw [Nat.mul_one, ← hunits, hround]

/-- With a whole number and a power that are doubles, only the last step rounds. -/
theorem scaleRank_decimalRank (h : m ≤ exactBound) (he : e.natAbs ≤ exactPower) :
    scaleRank (decimalRank m 0) e = decimalRank m e := by
  have hpos : 0 < unitsPerOne := by decide
  by_cases hm : m = 0
  · rw [hm, decimalRank_zero, decimalRank_zero, scaleRank_zero]
  have hunits := units_decimalRank h
  have hrank : decimalRank m 0 ≠ 0 := by
    intro hzero
    rw [hzero, units_zero] at hunits
    exact absurd hunits.symm (Nat.mul_ne_zero hm (by decide))
  have hpower : e.natAbs ≤ greatestPower := Nat.le_trans he (by decide)
  have hsmall : e.natAbs ≤ 22 := he
  have hnearest := @decimalRank_eq_nearestRank m e hm (by omega) (by omega)
  rw [hnearest]
  simp only [scaleRank]
  rw [if_neg hrank]
  -- a product or a quotient of two doubles, each given in units: one unit cancels
  by_cases hsign : 0 ≤ e
  · have hnat : e.natAbs = e.toNat := by omega
    have hnone : (-e).toNat = 0 := by omega
    rw [if_pos hsign, if_pos hpower, mulRank, hunits, units_powerRank he, hnat, hnone]
    have hnum : m * unitsPerOne * (Nat.pow 10 e.toNat * unitsPerOne) =
        m * Nat.pow 10 e.toNat * unitsPerOne * unitsPerOne := by
      rw [Nat.mul_mul_mul_comm, Nat.mul_assoc _ unitsPerOne]
    have hscale := @nearestRank_mul_right (m * Nat.pow 10 e.toNat * unitsPerOne) 1 _ hpos
    rw [Nat.one_mul] at hscale
    rw [hnum, hscale]
  · have hnat : e.natAbs = (-e).toNat := by omega
    have hnone : e.toNat = 0 := by omega
    rw [if_neg hsign, if_pos hpower, divRank, hunits, units_powerRank he, hnat, hnone]
    have hone : m * Nat.pow 10 0 = m := Nat.mul_one m
    rw [nearestRank_mul_right hpos, hone]

end Decimal

/-! ## Reading -/

/-- The double nearest to the number that a numeral stands for. -/
def nearest (n : Numeral) : Option Binary64 :=
  let rank := decimalRank n.mantissa (powerOf n)
  if h : rank < rankBound then some ⟨n.negative, rank, h⟩ else none

/-- A numeral that needs one rounding at most: its digits and its power of ten are doubles. -/
structure IsExact (n : Numeral) : Prop where
  mantissa_le : n.mantissa ≤ exactBound
  powerOf_le : (powerOf n).natAbs ≤ exactPower

/-- A numeral that is exact is read as the nearest double. -/
theorem ofNumeral_of_isExact {n : Numeral} (h : IsExact n) : ofNumeral n = nearest n := by
  have hbound : n.mantissa < significandBound := Nat.lt_of_le_of_lt h.mantissa_le (by decide)
  rw [ofNumeral, scientific_of_lt hbound]
  simp only [scaleRank_decimalRank h.mantissa_le h.powerOf_le, nearest]

end Binary64

end MetadataArchive
