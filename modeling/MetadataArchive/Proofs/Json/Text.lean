import Mathlib.Data.List.DropRight
import MetadataArchive.Json.Reader
import MetadataArchive.Json.Writer
import MetadataArchive.Proofs.Json.Numeral
import MetadataArchive.Proofs.Json.Quoted

/-!
# JSON values read back

Every JSON value is read back from its text in either layout. The proof follows the writer: what is
written for a value stands in front of a rest, reading takes it up to that rest, and the blanks of
the layout are skipped. The reader counts the parts it descends into; a text has fewer of them than
twice its length.
-/

namespace MetadataArchive.Json

variable {l : Layout} {depth fuel : Nat} {cs rest : List Char}

/-! ## Blanks -/

theorem skipBlanks_cons {c : Char} (h : isBlank c = false) : skipBlanks (c :: cs) = c :: cs :=
  List.dropWhile_cons_of_neg (by simp [h])

@[simp]
theorem skipBlanks_skipBlanks : skipBlanks (skipBlanks cs) = skipBlanks cs :=
  List.dropWhile_idempotent isBlank cs

@[simp]
theorem skipBlanks_gap : skipBlanks (l.gap depth ++ cs) = skipBlanks cs := by
  refine List.dropWhile_append_of_pos fun c hc => ?_
  cases l with
  | compact => nomatch hc
  | indented width =>
    rcases List.mem_cons.1 hc with rfl | hc
    · rfl
    · rw [List.eq_of_mem_replicate hc]
      rfl

theorem isBlank_of_isDigit {c : Char} (h : c.isDigit = true) : isBlank c = false := by
  cases hblank : isBlank c with
  | false => rfl
  | true =>
    simp only [isBlank, Bool.or_eq_true, beq_iff_eq] at hblank
    rcases hblank with ((rfl | rfl) | rfl) | rfl <;> exact absurd h (by decide)

/-! ## What is written -/

/-- The first character of a value is neither a blank nor a closing bracket. -/
theorem exists_write_eq_cons (l : Layout) (depth : Nat) (v : Json) (rest : List Char) :
    ∃ c cs, write l depth v rest = c :: cs ∧ isBlank c = false ∧ c ≠ ']' := by
  cases v with
  | null => exact ⟨_, _, by rw [write], rfl, by decide⟩
  | bool b => cases b <;> exact ⟨_, _, by rw [write], rfl, by decide⟩
  | number n =>
    obtain ⟨c, cs, hwrite, hc⟩ := n.exists_write_eq_cons rest
    refine ⟨c, cs, by rw [write, hwrite], ?_⟩
    rcases hc with rfl | hc
    · exact ⟨rfl, by decide⟩
    · exact ⟨isBlank_of_isDigit hc, fun h => absurd (h ▸ hc) (by decide)⟩
  | string s =>
    obtain ⟨cs, hwrite, -⟩ := Quoted.read_write s rest
    exact ⟨_, cs, by rw [write, hwrite], rfl, by decide⟩
  | array xs => cases xs <;> exact ⟨_, _, by rw [write], rfl, by decide⟩
  | object ms => rcases ms with - | ⟨⟨key, x⟩, ms⟩ <;> exact ⟨_, _, by rw [write], rfl, by decide⟩

/-- A number ends at a comma and at a closing bracket, with or without a gap in front of it. -/
theorem ends_gap {c : Char} (hdigit : c.isDigit = false) (hpoint : c ≠ '.') (hsmall : c ≠ 'e')
    (hcapital : c ≠ 'E') : Numeral.Ends (l.gap depth ++ c :: cs) := by
  cases l with
  | compact => exact Numeral.ends_cons hdigit hpoint hsmall hcapital
  | indented width => exact Numeral.ends_cons rfl (by decide) (by decide) (by decide)

/-- Behind an item there is a comma, or what ends the array. -/
theorem ends_writeItems (xs : List Json) {outer : Nat} :
    Numeral.Ends (writeItems l depth xs (l.gap outer ++ ']' :: rest)) := by
  cases xs with
  | nil =>
    rw [writeItems]
    exact ends_gap rfl (by decide) (by decide) (by decide)
  | cons x xs =>
    rw [writeItems]
    exact Numeral.ends_cons rfl (by decide) (by decide) (by decide)

/-- Behind a member there is a comma, or what ends the object. -/
theorem ends_writeMembers (ms : List Member) {outer : Nat} :
    Numeral.Ends (writeMembers l depth ms (l.gap outer ++ '\x7d' :: rest)) := by
  rcases ms with - | ⟨⟨key, x⟩, ms⟩
  · rw [writeMembers]
    exact ends_gap rfl (by decide) (by decide) (by decide)
  · rw [writeMembers]
    exact Numeral.ends_cons rfl (by decide) (by decide) (by decide)

theorem length_numeral_write (n : Numeral) : rest.length < (n.write rest).length := by
  obtain ⟨d, ds, hd, -⟩ := n.exists_digits_eq_cons
  rw [Numeral.write, hd]
  simp only [List.length_append, List.length_cons]
  omega

theorem length_foldr_escape (text rest : List Char) :
    rest.length ≤ (text.foldr (fun c r => Quoted.escape c ++ r) rest).length := by
  induction text with
  | nil => exact Nat.le_refl _
  | cons c text ih =>
    rw [List.foldr_cons, List.length_append]
    omega

theorem length_quoted_write (text : Option String) (rest : List Char) :
    rest.length < (Quoted.write text rest).length := by
  cases text with
  | none =>
    rw [Quoted.write]
    simp only [List.length_cons]
    omega
  | some s =>
    have := length_foldr_escape s.toList ('"' :: rest)
    rw [Quoted.write]
    simp only [List.length_cons] at this ⊢
    omega

theorem length_member (key : Option String) (value : List Char) :
    value.length < (Quoted.write key (l.colon ++ value)).length := by
  have hkey := length_quoted_write key (l.colon ++ value)
  rw [List.length_append] at hkey
  omega

mutual

theorem length_write (l : Layout) : ∀ (depth : Nat) (v : Json) (rest : List Char),
    rest.length < (write l depth v rest).length
  | _, .null, _ => by simp only [write, List.length_cons]; omega
  | _, .bool true, _ => by simp only [write, List.length_cons]; omega
  | _, .bool false, _ => by simp only [write, List.length_cons]; omega
  | _, .number n, rest => by
    rw [write]
    exact length_numeral_write n
  | _, .string s, rest => by
    rw [write]
    exact length_quoted_write s rest
  | _, .array [], _ => by simp only [write, List.length_cons]; omega
  | depth, .array (x :: xs), rest => by
    have hxs := length_writeItems l (depth + 1) xs (l.gap depth ++ ']' :: rest)
    have hx := length_write l (depth + 1) x
      (writeItems l (depth + 1) xs (l.gap depth ++ ']' :: rest))
    simp only [write, List.length_cons, List.length_append] at hx hxs ⊢
    omega
  | _, .object [], _ => by simp only [write, List.length_cons]; omega
  | depth, .object ((key, x) :: ms), rest => by
    have hms := length_writeMembers l (depth + 1) ms (l.gap depth ++ '\x7d' :: rest)
    have hx := length_write l (depth + 1) x
      (writeMembers l (depth + 1) ms (l.gap depth ++ '\x7d' :: rest))
    have hkey := length_member (l := l) key
      (write l (depth + 1) x (writeMembers l (depth + 1) ms (l.gap depth ++ '\x7d' :: rest)))
    simp only [write, List.length_cons, List.length_append] at hx hms hkey ⊢
    omega

theorem length_writeItems (l : Layout) : ∀ (depth : Nat) (xs : List Json) (rest : List Char),
    rest.length ≤ (writeItems l depth xs rest).length
  | _, [], _ => by rw [writeItems]
  | depth, x :: xs, rest => by
    have hx := length_write l depth x (writeItems l depth xs rest)
    have hxs := length_writeItems l depth xs rest
    simp only [writeItems, List.length_cons, List.length_append]
    omega

theorem length_writeMembers (l : Layout) : ∀ (depth : Nat) (ms : List Member) (rest : List Char),
    rest.length ≤ (writeMembers l depth ms rest).length
  | _, [], _ => by rw [writeMembers]
  | depth, (key, x) :: ms, rest => by
    have hms := length_writeMembers l depth ms rest
    have hx := length_write l depth x (writeMembers l depth ms rest)
    have hkey := length_member (l := l) key (write l depth x (writeMembers l depth ms rest))
    simp only [writeMembers, List.length_cons, List.length_append]
    omega

end

/-! ## The branches of the reader -/

section Branches

variable {first : List Char}

theorem readValue_skipBlanks : readValue fuel (skipBlanks cs) = readValue fuel cs := by
  cases fuel with
  | zero => rw [readValue, readValue]
  | succ fuel => rw [readValue, readValue, skipBlanks_skipBlanks]

theorem readItems_skipBlanks : readItems fuel (skipBlanks cs) = readItems fuel cs := by
  cases fuel with
  | zero => rw [readItems, readItems]
  | succ fuel => rw [readItems, readItems, readValue_skipBlanks]

theorem readMembers_skipBlanks : readMembers fuel (skipBlanks cs) = readMembers fuel cs := by
  cases fuel with
  | zero => rw [readMembers, readMembers]
  | succ fuel => rw [readMembers, readMembers, skipBlanks_skipBlanks]

theorem readItems_gap : readItems fuel (l.gap depth ++ cs) = readItems fuel cs := by
  rw [← readItems_skipBlanks, skipBlanks_gap, readItems_skipBlanks]

theorem readMembers_gap : readMembers fuel (l.gap depth ++ cs) = readMembers fuel cs := by
  rw [← readMembers_skipBlanks, skipBlanks_gap, readMembers_skipBlanks]

theorem readValue_number {n : Numeral} (h : Numeral.Ends rest) :
    readValue (fuel + 1) (n.write rest) = some (.number n, rest) := by
  obtain ⟨c, cs, hwrite, hc⟩ := n.exists_write_eq_cons rest
  have hblank : isBlank c = false := by
    rcases hc with rfl | hc
    · rfl
    · exact isBlank_of_isDigit hc
  have hother : ∀ d : Char, d ≠ '-' → d.isDigit = false → c ≠ d := by
    rintro d hsign hdigit rfl
    rcases hc with hc | hc
    · exact hsign hc
    · rw [hdigit] at hc
      exact Bool.false_ne_true hc
  have hread := n.read_write h
  rw [hwrite] at hread ⊢
  rw [readValue, skipBlanks_cons hblank]
  split
  · next heq => exact absurd (List.cons.inj heq).1 (hother 'n' (by decide) rfl)
  · next heq => exact absurd (List.cons.inj heq).1 (hother 't' (by decide) rfl)
  · next heq => exact absurd (List.cons.inj heq).1 (hother 'f' (by decide) rfl)
  · next heq => exact absurd (List.cons.inj heq).1 (hother '"' (by decide) rfl)
  · next heq => exact absurd (List.cons.inj heq).1 (hother '[' (by decide) rfl)
  · next heq => exact absurd (List.cons.inj heq).1 (hother '\x7b' (by decide) rfl)
  · rw [hread, Option.map_some]

theorem readValue_string (s : Option String) :
    readValue (fuel + 1) (Quoted.write s rest) = some (.string s, rest) := by
  obtain ⟨cs, hwrite, hread⟩ := Quoted.read_write s rest
  rw [hwrite, readValue, skipBlanks_cons rfl]
  simp only [hread, Option.map_some]

/-- An array whose first item begins with `c` is read item by item. -/
theorem readValue_items {c : Char} (hblank : isBlank c = false) (hc : c ≠ ']') :
    readValue (fuel + 1) ('[' :: (l.gap depth ++ c :: cs)) =
      (readItems fuel (c :: cs)).map fun (xs, rest) => (.array xs, rest) := by
  rw [readValue, skipBlanks_cons rfl]
  simp only [skipBlanks_gap, skipBlanks_cons hblank]
  split
  · next heq => exact absurd (List.cons.inj heq).1 hc
  · rfl

/-- An object whose first key begins with a quote is read member by member. -/
theorem readValue_members :
    readValue (fuel + 1) ('\x7b' :: (l.gap depth ++ '"' :: cs)) =
      (readMembers fuel ('"' :: cs)).map fun (ms, rest) => (.object ms, rest) := by
  rw [readValue, skipBlanks_cons rfl]
  simp only [skipBlanks_gap, skipBlanks_cons (show isBlank '"' = false from rfl)]
  rfl

/-- Behind an item there is a comma and more, or the end of the array. -/
theorem readItems_of_readValue {x : Json} (h : readValue fuel first = some (x, rest)) :
    readItems (fuel + 1) first =
      match skipBlanks rest with
      | ',' :: rest => (readItems fuel rest).map fun (xs, rest) => (x :: xs, rest)
      | ']' :: rest => some ([x], rest)
      | _ => none := by
  rw [readItems, h]
  rfl

/-- Behind a member there is a comma and more, or the end of the object. -/
theorem readMembers_of_readValue (key : Option String) {x : Json}
    (h : readValue fuel first = some (x, rest)) :
    readMembers (fuel + 1) (Quoted.write key (l.colon ++ first)) =
      match skipBlanks rest with
      | ',' :: rest => (readMembers fuel rest).map fun (ms, rest) => ((key, x) :: ms, rest)
      | '\x7d' :: rest => some ([(key, x)], rest)
      | _ => none := by
  obtain ⟨cs, hwrite, hread⟩ := Quoted.read_write key (l.colon ++ first)
  have hcolon : ∃ value, skipBlanks (l.colon ++ first) = ':' :: value ∧
      readValue fuel value = some (x, rest) := by
    cases l with
    | compact => exact ⟨first, skipBlanks_cons rfl, h⟩
    | indented width =>
      refine ⟨' ' :: first, skipBlanks_cons rfl, ?_⟩
      rw [← readValue_skipBlanks]
      show readValue fuel (skipBlanks first) = _
      rw [readValue_skipBlanks, h]
  obtain ⟨value, hskip, hvalue⟩ := hcolon
  rw [hwrite, readMembers, skipBlanks_cons rfl]
  simp only [hread, Option.bind_eq_bind, Option.bind_some, hskip]
  rw [hvalue]
  rfl

end Branches

/-! ## Values read back -/

mutual

/-- A value is read back up to what follows it, with fuel for twice the characters of the value. -/
theorem readValue_write (l : Layout) : ∀ (v : Json) {depth fuel : Nat} {rest : List Char},
    Numeral.Ends rest →
    2 * (write l depth v rest).length ≤ fuel + 2 * rest.length →
    readValue fuel (write l depth v rest) = some (v, rest)
  | v, depth, 0, rest, _, hfuel => by
    have := length_write l depth v rest
    omega
  | .null, _, fuel + 1, rest, _, _ => by
    rw [write, readValue, skipBlanks_cons rfl]
    rfl
  | .bool true, _, fuel + 1, rest, _, _ => by
    rw [write, readValue, skipBlanks_cons rfl]
    rfl
  | .bool false, _, fuel + 1, rest, _, _ => by
    rw [write, readValue, skipBlanks_cons rfl]
    rfl
  | .number n, _, fuel + 1, rest, hrest, _ => by rw [write, readValue_number hrest]
  | .string s, _, fuel + 1, rest, _, _ => by rw [write, readValue_string]
  | .array [], _, fuel + 1, rest, _, _ => by
    rw [write, readValue, skipBlanks_cons rfl]
    simp only [skipBlanks_cons (show isBlank ']' = false from rfl)]
  | .array (x :: xs), depth, fuel + 1, rest, _, hfuel => by
    obtain ⟨c, cs, hfirst, hblank, hc⟩ := exists_write_eq_cons l (depth + 1) x
      (writeItems l (depth + 1) xs (l.gap depth ++ ']' :: rest))
    have hlength := length_write l (depth + 1) x
      (writeItems l (depth + 1) xs (l.gap depth ++ ']' :: rest))
    have htail := length_writeItems l (depth + 1) xs (l.gap depth ++ ']' :: rest)
    rw [write, hfirst] at hfuel
    rw [hfirst] at hlength
    simp only [List.length_cons, List.length_append] at hfuel hlength htail
    obtain ⟨fuel, rfl⟩ : ∃ n, fuel = n + 1 := ⟨fuel - 1, by omega⟩
    have hx : readValue fuel (c :: cs) =
        some (x, writeItems l (depth + 1) xs (l.gap depth ++ ']' :: rest)) := by
      rw [← hfirst]
      refine readValue_write l x (ends_writeItems xs) ?_
      rw [hfirst, List.length_cons]
      omega
    rw [write, hfirst, readValue_items hblank hc, readItems_write l xs hx (by omega),
      Option.map_some]
  | .object [], _, fuel + 1, rest, _, _ => by
    rw [write, readValue, skipBlanks_cons rfl]
    simp only [skipBlanks_cons (show isBlank '\x7d' = false from rfl)]
  | .object ((key, x) :: ms), depth, fuel + 1, rest, _, hfuel => by
    have hlength := length_write l (depth + 1) x
      (writeMembers l (depth + 1) ms (l.gap depth ++ '\x7d' :: rest))
    have htail := length_writeMembers l (depth + 1) ms (l.gap depth ++ '\x7d' :: rest)
    have hmember := length_member (l := l) key (write l (depth + 1) x
      (writeMembers l (depth + 1) ms (l.gap depth ++ '\x7d' :: rest)))
    rw [write] at hfuel
    simp only [List.length_cons, List.length_append] at hfuel htail
    obtain ⟨fuel, rfl⟩ : ∃ n, fuel = n + 1 := ⟨fuel - 1, by omega⟩
    have hx : readValue fuel (write l (depth + 1) x
        (writeMembers l (depth + 1) ms (l.gap depth ++ '\x7d' :: rest))) =
        some (x, writeMembers l (depth + 1) ms (l.gap depth ++ '\x7d' :: rest)) :=
      readValue_write l x (ends_writeMembers ms) (by omega)
    obtain ⟨cs, hkey, -⟩ := Quoted.read_write key (l.colon ++ write l (depth + 1) x
      (writeMembers l (depth + 1) ms (l.gap depth ++ '\x7d' :: rest)))
    rw [write, hkey, readValue_members, ← hkey, readMembers_write l ms key hx (by omega),
      Option.map_some]

/-- Once the first item of an array is read, the others are read, up to the end of the array. -/
theorem readItems_write (l : Layout) : ∀ (xs : List Json) {depth outer fuel : Nat} {x : Json}
    {first rest : List Char},
    readValue fuel first = some (x, writeItems l depth xs (l.gap outer ++ ']' :: rest)) →
    2 * (writeItems l depth xs (l.gap outer ++ ']' :: rest)).length ≤ fuel + 2 * rest.length →
    readItems (fuel + 1) first = some (x :: xs, rest)
  | [], _, outer, _, _, _, rest, hx, _ => by
    rw [readItems_of_readValue hx, writeItems, skipBlanks_gap, skipBlanks_cons rfl]
    rfl
  | y :: ys, depth, outer, fuel, _, _, rest, hx, hfuel => by
    have hlength := length_write l depth y (writeItems l depth ys (l.gap outer ++ ']' :: rest))
    have htail := length_writeItems l depth ys (l.gap outer ++ ']' :: rest)
    rw [writeItems] at hfuel
    simp only [List.length_cons, List.length_append] at hfuel htail
    obtain ⟨fuel, rfl⟩ : ∃ n, fuel = n + 1 := ⟨fuel - 1, by omega⟩
    have hy : readValue fuel
        (write l depth y (writeItems l depth ys (l.gap outer ++ ']' :: rest))) =
        some (y, writeItems l depth ys (l.gap outer ++ ']' :: rest)) :=
      readValue_write l y (ends_writeItems ys) (by omega)
    rw [readItems_of_readValue hx, writeItems, skipBlanks_cons rfl]
    simp only [readItems_gap, readItems_write l ys hy (by omega), Option.map_some]

/-- Once the first value of an object is read, the other members are read, up to the end of the
object. -/
theorem readMembers_write (l : Layout) : ∀ (ms : List Member) (key : Option String)
    {depth outer fuel : Nat} {x : Json} {first rest : List Char},
    readValue fuel first = some (x, writeMembers l depth ms (l.gap outer ++ '\x7d' :: rest)) →
    2 * (writeMembers l depth ms (l.gap outer ++ '\x7d' :: rest)).length ≤
      fuel + 2 * rest.length →
    readMembers (fuel + 1) (Quoted.write key (l.colon ++ first)) = some ((key, x) :: ms, rest)
  | [], key, _, outer, _, _, _, rest, hx, _ => by
    rw [readMembers_of_readValue key hx, writeMembers, skipBlanks_gap, skipBlanks_cons rfl]
    rfl
  | (key', y) :: ms, key, depth, outer, fuel, _, _, rest, hx, hfuel => by
    have hlength := length_write l depth y (writeMembers l depth ms (l.gap outer ++ '\x7d' :: rest))
    have htail := length_writeMembers l depth ms (l.gap outer ++ '\x7d' :: rest)
    have hmember := length_member (l := l) key'
      (write l depth y (writeMembers l depth ms (l.gap outer ++ '\x7d' :: rest)))
    rw [writeMembers] at hfuel
    simp only [List.length_cons, List.length_append] at hfuel htail
    obtain ⟨fuel, rfl⟩ : ∃ n, fuel = n + 1 := ⟨fuel - 1, by omega⟩
    have hy : readValue fuel
        (write l depth y (writeMembers l depth ms (l.gap outer ++ '\x7d' :: rest))) =
        some (y, writeMembers l depth ms (l.gap outer ++ '\x7d' :: rest)) :=
      readValue_write l y (ends_writeMembers ms) (by omega)
    rw [readMembers_of_readValue key hx, writeMembers, skipBlanks_cons rfl]
    simp only [readMembers_gap, readMembers_write l ms key' hy (by omega), Option.map_some]

end

/-- Every value is read back from its text. -/
theorem parse_render (l : Layout) (v : Json) : parse (v.render l) = some v := by
  have hread : readValue (2 * (write l 0 v []).length + 1) (write l 0 v []) = some (v, []) :=
    readValue_write l v Numeral.ends_nil (by simp only [List.length_nil]; omega)
  rw [parse, render, String.toList_ofList, parseChars, hread]
  rfl

end MetadataArchive.Json
