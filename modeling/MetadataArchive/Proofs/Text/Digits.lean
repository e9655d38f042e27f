import MetadataArchive.Time.Spelling

/-!
# Decimal digits

What readers of numbers rely on: where a run of digits ends, which number padded digits spell, and
how many of them there are.
-/

namespace MetadataArchive.Text

/-! ## Runs of digits -/

/-- No digit stands at the front of a text. -/
def NoDigitAhead (cs : List Char) : Prop :=
  ∀ c, cs.head? = some c → c.isDigit = false

theorem noDigitAhead_nil : NoDigitAhead [] :=
  fun _ h => nomatch h

theorem noDigitAhead_cons {c : Char} {cs : List Char} (h : c.isDigit = false) :
    NoDigitAhead (c :: cs) := by
  intro d hd
  rw [List.head?_cons, Option.some_inj] at hd
  exact hd ▸ h

theorem NoDigitAhead.takeWhile_eq_nil {cs : List Char} (h : NoDigitAhead cs) :
    cs.takeWhile Char.isDigit = [] := by
  cases cs with
  | nil => rfl
  | cons c cs => exact List.takeWhile_cons_of_neg (by simp [h c rfl])

theorem NoDigitAhead.dropWhile_eq_self {cs : List Char} (h : NoDigitAhead cs) :
    cs.dropWhile Char.isDigit = cs := by
  cases cs with
  | nil => rfl
  | cons c cs => exact List.dropWhile_cons_of_neg (by simp [h c rfl])

theorem NoDigitAhead.take {cs : List Char} (h : NoDigitAhead cs) (n : Nat) :
    NoDigitAhead (cs.take n) := by
  cases cs with
  | nil => rwa [List.take_nil]
  | cons c cs =>
    cases n with
    | zero => exact noDigitAhead_nil
    | succ n => exact noDigitAhead_cons (h c rfl)

variable {ds rest : List Char}

theorem takeWhile_digits_append (hds : ∀ c ∈ ds, c.isDigit = true) (hrest : NoDigitAhead rest) :
    (ds ++ rest).takeWhile Char.isDigit = ds := by
  rw [List.takeWhile_append_of_pos hds, hrest.takeWhile_eq_nil, List.append_nil]

theorem dropWhile_digits_append (hds : ∀ c ∈ ds, c.isDigit = true) (hrest : NoDigitAhead rest) :
    (ds ++ rest).dropWhile Char.isDigit = rest := by
  rw [List.dropWhile_append_of_pos hds, hrest.dropWhile_eq_self]

/-! ## The digits of a number -/

theorem isDigit_of_mem_digits {n : Nat} {c : Char} (h : c ∈ Nat.toDigits 10 n) :
    c.isDigit = true :=
  Nat.isDigit_of_mem_toDigits (by decide) (by decide) h

/-- Digits are not padded: a zero in front is all there is. -/
theorem eq_zero_of_head?_digits {n : Nat} (h : (Nat.toDigits 10 n).head? = some '0') : n = 0 := by
  induction n using Nat.strongRecOn with
  | ind n ih =>
    by_cases hn : n < 10
    · have hdigit : ∀ n < 10, Nat.digitChar n = '0' → n = 0 := by decide
      rw [Nat.toDigits_of_lt_base hn, List.head?_cons, Option.some_inj] at h
      exact hdigit n hn h
    · have hne : Nat.toDigits 10 (n / 10) ≠ [] := Nat.toDigits_ne_nil
      rw [Nat.toDigits_of_base_le (by decide) (by omega), List.head?_append,
        List.head?_eq_some_head hne, Option.some_or, ← List.head?_eq_some_head hne] at h
      have hzero : n / 10 = 0 := ih (n / 10) (by omega) h
      omega

end MetadataArchive.Text

/-! ## Padded digits -/

namespace MetadataArchive.Timestamp

variable {width n : Nat}

theorem isDigit_of_mem_padded {c : Char} (h : c ∈ padded width n) : c.isDigit = true := by
  rcases List.mem_append.1 h with h | h
  · rw [List.eq_of_mem_replicate h]
    rfl
  · exact Text.isDigit_of_mem_digits h

@[simp]
theorem ofDigitChars_padded : Nat.ofDigitChars 10 (padded width n) 0 = n := by
  rw [padded, Nat.ofDigitChars_append, Nat.ofDigitChars_replicate_zero, Nat.mul_zero,
    Nat.ofDigitChars_ten_toDigits]

theorem padded_ne_nil : padded width n ≠ [] :=
  List.append_ne_nil_of_right_ne_nil _ Nat.toDigits_ne_nil

theorem padded_append_ne_cons {c : Char} {cs rest : List Char} (h : c.isDigit = false) :
    padded width n ++ rest ≠ c :: cs := by
  obtain ⟨d, ds, hd⟩ := List.exists_cons_of_ne_nil (@padded_ne_nil width n)
  have hdigit : d.isDigit = true := isDigit_of_mem_padded (hd ▸ List.mem_cons_self)
  rintro heq
  rw [hd, List.cons_append] at heq
  rw [(List.cons.inj heq).1, h] at hdigit
  exact Bool.false_ne_true hdigit

theorem length_padded : (padded width n).length = max width (Nat.toDigits 10 n).length := by
  rw [padded, List.length_append, List.length_replicate]
  omega

end MetadataArchive.Timestamp
