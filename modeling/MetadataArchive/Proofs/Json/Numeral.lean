import MetadataArchive.Json.Numeral
import MetadataArchive.Proofs.Text.Digits

/-!
# Numerals read back

Every numeral is read back from its text, also one with more places than digits or with a zero in
front of its exponent, as long as what follows cannot be taken for more of it.
-/

namespace MetadataArchive.Numeral

open Text Timestamp

/-- A text before which a number ends: what stands at its front does not go on with a number. -/
def Ends (rest : List Char) : Prop :=
  ∀ c, rest.head? = some c → c.isDigit = false ∧ c ≠ '.' ∧ c ≠ 'e' ∧ c ≠ 'E'

theorem ends_nil : Ends [] :=
  fun _ h => nomatch h

theorem ends_cons {c : Char} {cs : List Char} (hdigit : c.isDigit = false) (hpoint : c ≠ '.')
    (hsmall : c ≠ 'e') (hcapital : c ≠ 'E') : Ends (c :: cs) := by
  intro d hd
  rw [List.head?_cons, Option.some_inj] at hd
  exact hd ▸ ⟨hdigit, hpoint, hsmall, hcapital⟩

theorem Ends.noDigitAhead {rest : List Char} (h : Ends rest) : NoDigitAhead rest :=
  fun c hc => (h c hc).1

/-! ## The digits of a numeral -/

theorem allDigits_eq_padded (n : Numeral) : n.allDigits = padded (n.places + 1) n.mantissa :=
  rfl

theorem places_lt_length_allDigits (n : Numeral) : n.places < n.allDigits.length := by
  rw [allDigits_eq_padded, length_padded]
  omega

theorem wholeDigits_append_fractionDigits (n : Numeral) :
    n.wholeDigits ++ n.fractionDigits = n.allDigits :=
  List.take_append_drop _ _

theorem length_fractionDigits (n : Numeral) : n.fractionDigits.length = n.places := by
  have := n.places_lt_length_allDigits
  rw [fractionDigits, List.length_drop]
  omega

theorem wholeDigits_ne_nil (n : Numeral) : n.wholeDigits ≠ [] := by
  have := n.places_lt_length_allDigits
  intro h
  have hlength := congrArg List.length h
  rw [wholeDigits, List.length_take, List.length_nil] at hlength
  omega

theorem isDigit_of_mem_wholeDigits {n : Numeral} {c : Char} (h : c ∈ n.wholeDigits) :
    c.isDigit = true :=
  isDigit_of_mem_padded (List.mem_of_mem_take h)

theorem isDigit_of_mem_fractionDigits {n : Numeral} {c : Char} (h : c ∈ n.fractionDigits) :
    c.isDigit = true :=
  isDigit_of_mem_padded (List.mem_of_mem_drop h)

/-- A zero before the point stands there alone: in front of it there is either padding, which is one
zero, or no more than the digit of the number zero. -/
theorem wholeDigits_eq_zero {n : Numeral} (h : n.wholeDigits.head? = some '0') :
    n.wholeDigits = ['0'] := by
  have hlength : n.wholeDigits.length = 1 := by
    rw [wholeDigits, List.length_take, allDigits_eq_padded, length_padded]
    by_cases hpadding : (Nat.toDigits 10 n.mantissa).length ≤ n.places
    · omega
    · -- without padding it is the first digit of a number, hence of zero
      have hdigits : n.allDigits = Nat.toDigits 10 n.mantissa := by
        have hnone : n.places + 1 - (Nat.toDigits 10 n.mantissa).length = 0 := by omega
        rw [allDigits_eq_padded, padded, hnone, List.replicate_zero, List.nil_append]
      have hhead : n.allDigits.head? = some '0' := by
        rw [← wholeDigits_append_fractionDigits, List.head?_append, h, Option.some_or]
      have hone : (Nat.toDigits 10 n.mantissa).length = 1 := by
        have hmantissa : n.mantissa = 0 := eq_zero_of_head?_digits (hdigits ▸ hhead)
        rw [hmantissa]
        rfl
      omega
  obtain ⟨c, hc⟩ := List.length_eq_one_iff.1 hlength
  rw [hc, List.head?_cons, Option.some_inj] at h
  rw [hc, h]

/-! ## Reading each part -/

section Reading

variable {rest : List Char}

theorem readDigits_append {ds : List Char} (hne : ds ≠ []) (hds : ∀ c ∈ ds, c.isDigit = true)
    (hrest : NoDigitAhead rest) : readDigits (ds ++ rest) = some (ds, rest) := by
  rw [readDigits, takeWhile_digits_append hds hrest, dropWhile_digits_append hds hrest]
  cases ds with
  | nil => exact absurd rfl hne
  | cons d ds => rfl

theorem readWhole_append (n : Numeral) (hrest : NoDigitAhead rest) :
    readWhole (n.wholeDigits ++ rest) = some (n.wholeDigits, rest) := by
  have hdigits : readDigits (n.wholeDigits ++ rest) = some (n.wholeDigits, rest) :=
    readDigits_append n.wholeDigits_ne_nil (fun _ => isDigit_of_mem_wholeDigits) hrest
  have hzero : ¬ (n.wholeDigits.head? = some '0' ∧ n.wholeDigits ≠ ['0']) :=
    fun h => h.2 (wholeDigits_eq_zero h.1)
  rw [readWhole, hdigits]
  exact if_neg hzero

theorem readFraction_of_ends (h : Ends rest) : readFraction rest = some ([], rest) := by
  unfold readFraction
  split
  · exact absurd rfl (h _ rfl).2.1
  · rfl

theorem readFraction_point {n : Numeral} (hplaces : n.places ≠ 0) (hrest : NoDigitAhead rest) :
    readFraction ('.' :: (n.fractionDigits ++ rest)) = some (n.fractionDigits, rest) := by
  refine readDigits_append ?_ (fun _ => isDigit_of_mem_fractionDigits) hrest
  intro h
  rw [← length_fractionDigits, h] at hplaces
  exact hplaces rfl

theorem readMagnitude_digits (negative : Bool) (m : Nat) (hrest : NoDigitAhead rest) :
    readMagnitude negative (Nat.toDigits 10 m ++ rest) =
      some (some (if negative then -(m : Int) else m), rest) := by
  have hdigits : readDigits (Nat.toDigits 10 m ++ rest) = some (Nat.toDigits 10 m, rest) :=
    readDigits_append Nat.toDigits_ne_nil (fun _ => isDigit_of_mem_digits) hrest
  rw [readMagnitude, hdigits, Option.map_some]
  simp only [Nat.ofDigitChars_ten_toDigits]

theorem readExponent_exponentPart (e : Option Int) (hrest : Ends rest) :
    readExponent (exponentPart e ++ rest) = some (e, rest) := by
  cases e with
  | none =>
    show readExponent rest = _
    unfold readExponent
    split
    · exact absurd rfl (hrest _ rfl).2.2.1
    · exact absurd rfl (hrest _ rfl).2.2.2
    · rfl
  | some e =>
    by_cases he : e < 0
    · have habs : -(e.natAbs : Int) = e := by omega
      rw [exponentPart, if_pos he]
      show readMagnitude true (Nat.toDigits 10 e.natAbs ++ rest) = _
      rw [readMagnitude_digits true e.natAbs hrest.noDigitAhead, if_pos rfl, habs]
    · have habs : (e.natAbs : Int) = e := by omega
      rw [exponentPart, if_neg he]
      show readMagnitude false (Nat.toDigits 10 e.natAbs ++ rest) = _
      rw [readMagnitude_digits false e.natAbs hrest.noDigitAhead, if_neg Bool.false_ne_true, habs]

/-- What stands between the digits and the rest does not go on with digits. -/
theorem noDigitAhead_exponentPart (e : Option Int) (hrest : Ends rest) :
    NoDigitAhead (exponentPart e ++ rest) := by
  cases e with
  | none => exact hrest.noDigitAhead
  | some e => exact noDigitAhead_cons rfl

/-- Without a point the digits are followed by the exponent, and no exponent begins with a point. -/
theorem readFraction_exponentPart (e : Option Int) (hrest : Ends rest) :
    readFraction (exponentPart e ++ rest) = some ([], exponentPart e ++ rest) := by
  cases e with
  | none => exact readFraction_of_ends hrest
  | some e => rfl

/-! ## A whole numeral -/

theorem ofDigitChars_whole_fraction (n : Numeral) :
    Nat.ofDigitChars 10 (n.wholeDigits ++ n.fractionDigits) 0 = n.mantissa := by
  rw [wholeDigits_append_fractionDigits, allDigits_eq_padded, ofDigitChars_padded]

theorem readUnsigned_digits (n : Numeral) (hrest : Ends rest) :
    readUnsigned n.negative (n.digits ++ (exponentPart n.exponent ++ rest)) = some (n, rest) := by
  have hexponent : readExponent (exponentPart n.exponent ++ rest) = some (n.exponent, rest) :=
    readExponent_exponentPart n.exponent hrest
  by_cases hplaces : n.places = 0
  · have hfraction : n.fractionDigits = [] :=
      List.length_eq_zero_iff.1 (n.length_fractionDigits.trans hplaces)
    rw [digits, if_pos hplaces, readUnsigned,
      readWhole_append n (noDigitAhead_exponentPart n.exponent hrest)]
    simp only [Option.bind_eq_bind, Option.bind_some,
      readFraction_exponentPart n.exponent hrest, hexponent, Option.pure_def]
    rw [← hfraction, n.ofDigitChars_whole_fraction, n.length_fractionDigits]
  · have hpoint : n.digits ++ (exponentPart n.exponent ++ rest) =
        n.wholeDigits ++ '.' :: (n.fractionDigits ++ (exponentPart n.exponent ++ rest)) := by
      rw [digits, if_neg hplaces, List.append_assoc, List.cons_append]
    rw [hpoint, readUnsigned, readWhole_append n (noDigitAhead_cons rfl)]
    simp only [Option.bind_eq_bind, Option.bind_some,
      readFraction_point hplaces (noDigitAhead_exponentPart n.exponent hrest), hexponent,
      Option.pure_def, n.ofDigitChars_whole_fraction, n.length_fractionDigits]

theorem exists_digits_eq_cons (n : Numeral) :
    ∃ d ds, n.digits = d :: ds ∧ d.isDigit = true := by
  obtain ⟨d, ds, hd⟩ := List.exists_cons_of_ne_nil n.wholeDigits_ne_nil
  have hdigit : d.isDigit = true := isDigit_of_mem_wholeDigits (hd ▸ List.mem_cons_self)
  unfold digits
  split
  · exact ⟨d, ds, hd, hdigit⟩
  · exact ⟨d, ds ++ '.' :: n.fractionDigits, by rw [hd, List.cons_append], hdigit⟩

/-- The first character of a numeral is its sign or a digit. -/
theorem exists_write_eq_cons (n : Numeral) (rest : List Char) :
    ∃ c cs, n.write rest = c :: cs ∧ (c = '-' ∨ c.isDigit = true) := by
  cases hsign : n.negative with
  | true => exact ⟨'-', _, by rw [write, hsign]; rfl, .inl rfl⟩
  | false =>
    obtain ⟨d, ds, hd, hdigit⟩ := n.exists_digits_eq_cons
    exact ⟨d, _, by rw [write, hsign, hd]; rfl, .inr hdigit⟩

/-- A numeral reads back from its text, wherever a number may end. -/
theorem read_write (n : Numeral) (hrest : Ends rest) : read (n.write rest) = some (n, rest) := by
  have hread := readUnsigned_digits n hrest
  cases hsign : n.negative with
  | true =>
    rw [hsign] at hread
    rw [write, hsign]
    exact hread
  | false =>
    obtain ⟨d, ds, hd, hdigit⟩ := n.exists_digits_eq_cons
    rw [hsign] at hread
    rw [write, hsign]
    show read (n.digits ++ (exponentPart n.exponent ++ rest)) = _
    unfold read
    split
    · -- the reader would take a sign off, but the first character is a digit
      next heq =>
      rw [hd] at heq
      rw [(List.cons.inj heq).1] at hdigit
      exact absurd hdigit (by decide)
    · exact hread

end Reading

end MetadataArchive.Numeral
