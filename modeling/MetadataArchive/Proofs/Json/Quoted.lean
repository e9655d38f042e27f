import MetadataArchive.Json.Quoted

/-!
# Quoted strings read back

Every string is read back from its text between quotes, whatever characters it has, and so is a
string without text. Reading stops behind the closing quote.
-/

namespace MetadataArchive.Json.Quoted

variable {done : List Piece} {rest : List Char}

/-! ## One character -/

theorem hexValue?_digitChar {n : Nat} (h : n < 16) : hexValue? (Nat.digitChar n) = some n := by
  have hall : ∀ n < 16, hexValue? (Nat.digitChar n) = some n := by decide
  exact hall n h

theorem scan_short {c e : Char} (hc : c ≠ 'u') (h : shortEscape? c = some e) :
    scan done ('\\' :: c :: rest) = scan (.char e :: done) rest := by
  rw [scan.eq_def]
  split
  · next heq => exact absurd heq (by simp)
  · next heq => exact absurd heq (by simp)
  · next heq =>
    obtain ⟨-, heq⟩ := List.cons.inj heq
    exact absurd (List.cons.inj heq).1 hc
  · next heq =>
    obtain ⟨-, heq⟩ := List.cons.inj heq
    obtain ⟨rfl, rfl⟩ := List.cons.inj heq
    rw [h]
  · next hother heq =>
    obtain ⟨rfl, rfl⟩ := List.cons.inj heq
    exact absurd rfl (hother _ _ rfl)

theorem scan_codeUnit {a b c d : Char} {n : Nat} (h : codeUnit? a b c d = some n) :
    scan done ('\\' :: 'u' :: a :: b :: c :: d :: rest) = scan (.ofCodeUnit n :: done) rest := by
  rw [scan, h]

theorem scan_plain {c : Char} (hquote : c ≠ '"') (hbackslash : c ≠ '\\') (hc : ¬ c.toNat < 0x20) :
    scan done (c :: rest) = scan (.char c :: done) rest := by
  rw [scan.eq_def]
  split
  · next heq => exact absurd heq (by simp)
  · next heq => exact absurd (List.cons.inj heq).1 hquote
  · next heq => exact absurd (List.cons.inj heq).1 hbackslash
  · next heq => exact absurd (List.cons.inj heq).1 hbackslash
  · next heq =>
    obtain ⟨rfl, rfl⟩ := List.cons.inj heq
    rw [if_neg (not_or.2 ⟨hc, hbackslash⟩)]

/-- A character is read back from what stands for it between quotes. -/
theorem scan_escape (c : Char) : scan done (escape c ++ rest) = scan (.char c :: done) rest := by
  unfold escape
  split
  · next h => subst h; exact scan_short (by decide) rfl
  split
  · next h => subst h; exact scan_short (by decide) rfl
  split
  · next h => subst h; exact scan_short (by decide) rfl
  split
  · next h => subst h; exact scan_short (by decide) rfl
  split
  · next h => subst h; exact scan_short (by decide) rfl
  split
  · next h => subst h; exact scan_short (by decide) rfl
  split
  · next h => subst h; exact scan_short (by decide) rfl
  split
  · next hcontrol =>
    -- two zeros and the two digits of a number below 32, which is no half of a surrogate pair
    have hunit : codeUnit? '0' '0' (Nat.digitChar (c.toNat / 16)) (Nat.digitChar (c.toNat % 16)) =
        some c.toNat := by
      have hzero : hexValue? '0' = some 0 := by decide
      have hhigh : hexValue? (Nat.digitChar (c.toNat / 16)) = some (c.toNat / 16) :=
        hexValue?_digitChar (by omega)
      have hlow : hexValue? (Nat.digitChar (c.toNat % 16)) = some (c.toNat % 16) :=
        hexValue?_digitChar (by omega)
      simp only [codeUnit?, hzero, hhigh, hlow, Option.bind_eq_bind, Option.bind_some,
        Option.pure_def, Option.some.injEq]
      omega
    have hpiece : Piece.ofCodeUnit c.toNat = .char c := by
      rw [Piece.ofCodeUnit, if_neg (by omega), if_neg (by omega), Char.ofNat_toNat]
    show scan done ('\\' :: 'u' :: '0' :: '0' :: _ :: _ :: rest) = _
    rw [scan_codeUnit hunit, hpiece]
  · next hquote hbackslash _ _ _ _ _ hcontrol => exact scan_plain hquote hbackslash hcontrol

/-! ## A whole string -/

/-- The pieces come last first. -/
theorem scan_escapes (done : List Piece) (cs rest : List Char) :
    scan done (cs.foldr (fun c r => escape c ++ r) ('"' :: rest)) =
      some ((cs.map Piece.char).reverse ++ done, rest) := by
  induction cs generalizing done with
  | nil =>
    show scan done ('"' :: rest) = _
    rw [scan]
    rfl
  | cons c cs ih =>
    rw [List.foldr_cons, scan_escape, ih]
    simp

theorem join_chars (cs text : List Char) :
    join (cs.reverse.map Piece.char) text = some (cs.reverse.reverse ++ text) := by
  induction cs.reverse generalizing text with
  | nil => rfl
  | cons c cs ih =>
    show join (.char c :: cs.map Piece.char) text = _
    rw [join, ih, List.reverse_cons, List.append_assoc]
    rfl

/-- What is written after the opening quote reads back, up to the closing quote. -/
theorem read_write (text : Option String) (rest : List Char) :
    ∃ cs, write text rest = '"' :: cs ∧ read cs = some (text, rest) := by
  cases text with
  | some s =>
    refine ⟨_, rfl, ?_⟩
    have hscan := scan_escapes [] s.toList rest
    have hjoin := join_chars s.toList []
    rw [List.append_nil, ← List.map_reverse] at hscan
    rw [List.reverse_reverse, List.append_nil] at hjoin
    simp only [read, hscan, hjoin, Option.map_some, String.ofList_toList]
  | none => exact ⟨_, rfl, rfl⟩

end MetadataArchive.Json.Quoted
