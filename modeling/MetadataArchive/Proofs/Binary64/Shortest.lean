import MetadataArchive.Binary64.Shortest
import MetadataArchive.Proofs.Binary64.Exact

/-!
# What is written rounds back

The decimal that is written for a double has that double for its nearest, be it found by the search
or the exact value that stands behind the search. Whether it is read as that double is another
matter: it is if one rounding reads it.
-/

namespace MetadataArchive

namespace Binary64

/-! ## The search -/

theorem decimalRank_of_candidate {rank m : Nat} {e : Int} (h : candidate rank e = some m) :
    decimalRank m e = rank := by
  simp only [candidate] at h
  split at h
  · next hbelow habove =>
    rw [beq_iff_eq] at hbelow habove
    split at h
    · cases h
      exact hbelow
    split at h
    · cases h
      exact habove
    · -- equally near, and both round back
      cases h
      rcases Nat.mod_two_eq_zero_or_one ((quotientBy rank e).1 / (quotientBy rank e).2) with
        heven | hodd
      · rw [heven]
        exact hbelow
      · rw [hodd]
        exact habove
  · next hbelow _ =>
    cases h
    exact beq_iff_eq.1 hbelow
  · next habove =>
    cases h
    exact beq_iff_eq.1 habove
  · nomatch h

/-- The whole number of units that a rank stands for, with `p` for `10 ^ k` in place of the unit,
rounds to the rank. -/
theorem decimalRank_units_mul {rank k p : Nat} (hp : p * unitsPerOne = Nat.pow 10 k)
    (hleast : 2 ^ k ≤ p) (hzero : rank ≠ 0) (hbound : rank < rankBound) :
    decimalRank (units rank * p) (-k) = rank := by
  have hunits : 0 < units rank := units_zero ▸ units_strictMono (Nat.pos_of_ne_zero hzero)
  have hle : 2 ^ k ≤ units rank * p := Nat.le_trans hleast (Nat.le_mul_of_pos_left p hunits)
  have hm : units rank * p ≠ 0 := Nat.ne_of_gt (Nat.lt_of_lt_of_le (Nat.two_pow_pos k) hle)
  have hbits : k ≤ (units rank * p).log2 := (Nat.le_log2 hm).2 hle
  have hpower : (-(k : Int)).toNat = 0 := by omega
  have hden : (-(-(k : Int))).toNat = k := by omega
  rw [decimalRank, if_neg hm, if_neg (by omega), if_neg (by omega), hpower, hden]
  have hone : Nat.pow 10 0 = 1 := rfl
  have hnum : units rank * p * Nat.pow 10 0 * unitsPerOne = units rank * Nat.pow 10 k := by
    rw [hone, Nat.mul_one, ← hp, Nat.mul_assoc]
  rw [hnum]
  exact nearestRank_units (Nat.pow_pos (by decide)) (Nat.le_of_lt hbound)

theorem length_toDigits_le {rank p k : Nat} (hbound : rank < rankBound) (hk : 0 < k) (hpos : 0 < p)
    (hp : units rankBound * p ≤ 10 ^ k * unitsPerOne) :
    (Nat.toDigits 10 (units rank * p / unitsPerOne)).length ≤ k := by
  rw [Nat.length_toDigits_le_iff (by decide) hk, Nat.div_lt_iff_lt_mul (by decide)]
  exact Nat.lt_of_lt_of_le (Nat.mul_lt_mul_of_pos_right (units_strictMono hbound) hpos) hp

theorem leadingExponent_mem {rank : Nat} (hbound : rank < rankBound) :
    -325 < leadingExponent rank ∧ leadingExponent rank < 400 := by
  have hle := @length_toDigits_le rank (Nat.pow 10 324) 724 hbound (by decide) (by decide +kernel)
    (by decide +kernel)
  have hpos : 0 < (Nat.toDigits 10 (units rank * Nat.pow 10 324 / unitsPerOne)).length :=
    Nat.length_toDigits_pos
  rw [leadingExponent]
  omega

/-- The body of `shortest` under its binder. With an argument in place the two sides would not be
compared as terms: the search starts to compute. -/
theorem shortest_eq_fun : shortest = fun rank =>
    let first := leadingExponent rank
    let found := (List.range 17).findSome? fun places : Nat =>
      (candidate rank (first - places)).map fun m => (m, first - places)
    match found with
    | some (m, e) => if m % 10 = 0 then (m / 10, e + 1) else (m, e)
    | none => (units rank * Nat.pow 5 1074, -1074) := by
  delta shortest
  rfl

/-- What is written for a rank rounds to it. -/
theorem decimalRank_shortest {rank : Nat} (hzero : rank ≠ 0) (hbound : rank < rankBound) :
    ∃ m e, shortest rank = (m, e) ∧ decimalRank m e = rank := by
  obtain ⟨hleast, hgreatest⟩ := leadingExponent_mem hbound
  rw [shortest_eq_fun]
  cases hfound : (List.range 17).findSome? fun places : Nat =>
      (candidate rank (leadingExponent rank - places)).map fun m =>
        (m, leadingExponent rank - places) with
  | some found =>
    obtain ⟨places, hplaces, hsome⟩ := List.exists_of_findSome?_eq_some hfound
    rw [List.mem_range] at hplaces
    obtain ⟨m, hcandidate, rfl⟩ := Option.map_eq_some_iff.1 hsome
    have hrank := decimalRank_of_candidate hcandidate
    simp only [hfound]
    split
    · -- the digits end in a zero, and the same number is written without it
      next hten =>
      refine ⟨_, _, rfl, ?_⟩
      have hm : m / 10 * 10 = m := Nat.div_mul_cancel (Nat.dvd_of_mod_eq_zero hten)
      have hne : m / 10 ≠ 0 := by
        intro hnone
        rw [hnone, Nat.zero_mul] at hm
        exact hzero (hrank ▸ hm ▸ decimalRank_zero _)
      rw [← decimalRank_mul_ten hne (by omega) (by omega), hm, Int.add_sub_cancel]
      exact hrank
    · exact ⟨_, _, rfl, hrank⟩
  | none =>
    -- seventeen digits always suffice, but the exact value behind them is right as well
    simp only [hfound]
    exact ⟨_, _, rfl, @decimalRank_units_mul rank 1074 (Nat.pow 5 1074) (by decide +kernel)
      (by decide +kernel) hzero hbound⟩

/-! ## The layout -/

/-- Laying out moves zeros into the digits at most, and those only of a number that is not large. -/
theorem decimalRank_layOut {m : Nat} (hm : m ≠ 0) (e : Int) (negative : Bool) :
    decimalRank (jsonStyle.layOut negative m e).mantissa
      (powerOf (jsonStyle.layOut negative m e)) = decimalRank m e := by
  have hsize : 0 < (Nat.toDigits 10 m).length := Nat.length_toDigits_pos
  unfold DecimalStyle.layOut
  dsimp only
  split
  · next hplain =>
    have hgreatest : e + (Nat.toDigits 10 m).length - 1 ≤ 15 := hplain.2
    split
    · next hwhole =>
      have hpower : (0 : Int) - (1 : Nat) = e - (e.toNat + 1 : Nat) := by omega
      show decimalRank (m * Nat.pow 10 (e.toNat + 1)) (0 - (1 : Nat)) = _
      rw [hpower, decimalRank_mul_pow hm _ (by omega) (by omega)]
    · next hpoint =>
      have hpower : (0 : Int) - ((-e).toNat : Nat) = e := by omega
      exact congrArg (decimalRank m) hpower
  · have hpower :
        e + (Nat.toDigits 10 m).length - 1 - ((Nat.toDigits 10 m).length - 1 : Nat) = e := by
      omega
    exact congrArg (decimalRank m) hpower

theorem negative_layOut (negative : Bool) (m : Nat) (e : Int) :
    (jsonStyle.layOut negative m e).negative = negative := by
  unfold DecimalStyle.layOut
  dsimp only
  split
  · split <;> rfl
  · rfl

theorem toNumeral_of_eq_zero {x : Binary64} (h : x.rank = 0) :
    x.toNumeral = ⟨x.negative, 0, 1, none⟩ :=
  if_pos h

theorem toNumeral_of_shortest {x : Binary64} {m : Nat} {e : Int} (hzero : x.rank ≠ 0)
    (h : shortest x.rank = (m, e)) : x.toNumeral = jsonStyle.layOut x.negative m e := by
  rw [toNumeral, if_neg hzero, h]

theorem nearest_of_eq {n : Numeral} {x : Binary64} (hnegative : n.negative = x.negative)
    (hrank : decimalRank n.mantissa (powerOf n) = x.rank) : nearest n = some x := by
  simp only [nearest, hrank, dif_pos x.rank_lt, hnegative]

/-- To the number that is written for a double, that double is the nearest. -/
theorem nearest_toNumeral (x : Binary64) : nearest x.toNumeral = some x := by
  by_cases hzero : x.rank = 0
  · rw [toNumeral_of_eq_zero hzero]
    exact nearest_of_eq rfl ((decimalRank_zero _).trans hzero.symm)
  · obtain ⟨m, e, hshortest, hrank⟩ := decimalRank_shortest hzero x.rank_lt
    have hm : m ≠ 0 := by
      rintro rfl
      exact hzero (hrank ▸ decimalRank_zero e)
    rw [toNumeral_of_shortest hzero hshortest]
    exact nearest_of_eq (negative_layOut _ m e) ((decimalRank_layOut hm e _).trans hrank)

/-! ## Reading back -/

/-- The digits written for a double are read as that double. -/
def ReadsBack (x : Binary64) : Prop :=
  ofNumeral x.toNumeral = some x

/-- Only reading is to blame: a double reads back if the digits written for it are read as the
double nearest to them. -/
theorem readsBack_iff (x : Binary64) :
    x.ReadsBack ↔ ofNumeral x.toNumeral = nearest x.toNumeral := by
  rw [ReadsBack, nearest_toNumeral]

/-- A double reads back if one rounding at most reads the numeral written for it. -/
theorem readsBack_of_isExact {x : Binary64} (h : IsExact x.toNumeral) : x.ReadsBack :=
  x.readsBack_iff.2 (ofNumeral_of_isExact h)

/-- The double `1.0`. -/
example : ReadsBack ⟨false, 1023 * binade, by decide⟩ :=
  readsBack_of_isExact ⟨by decide +kernel, by decide +kernel⟩

end Binary64

end MetadataArchive
