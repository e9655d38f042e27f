import MetadataArchive.Draft.Rejection
import MetadataArchive.Text.Whitespace

/-!
# Names

What names definitions may have, and whether the attributes of a definition have different names.
-/

namespace MetadataArchive

/-- A name that a definition may have: not empty and without white space. -/
def IsTypeName (name : String) : Prop :=
  name ≠ "" ∧ ∀ c ∈ name.toList, Text.isWhitespace c = false

instance (name : String) : Decidable (IsTypeName name) :=
  @instDecidableAnd _ _ inferInstance (List.decidableBAll _ name.toList)

/-- Turns a name away that no definition may have. -/
def checkTypeName (name : String) : Except Rejection Unit :=
  if IsTypeName name then .ok () else .error (.malformedName name)

/-- Turns an empty key away. -/
def checkKey (subject : Subject) (key : String) : Except Rejection Unit :=
  if key = "" then .error (.missingName subject) else .ok ()

/-- The first of `names` that is among `seen` or stands earlier in the list. -/
def firstRepeated (seen : List String) : List String → Option String
  | [] => none
  | name :: names => if name ∈ seen then some name else firstRepeated (name :: seen) names

/-- Turns a definition away that declares two attributes of a name. -/
def checkAttributeNames (typeName : String) (names : List String) : Except Rejection Unit :=
  match firstRepeated [] names with
  | some name => .error (.duplicateAttribute typeName name)
  | none => .ok ()

theorem firstRepeated_eq_none_iff {seen names : List String} :
    firstRepeated seen names = none ↔ names.Nodup ∧ ∀ name ∈ names, name ∉ seen := by
  induction names generalizing seen with
  | nil => simp [firstRepeated]
  | cons name names ih =>
    rw [firstRepeated]
    split
    · next h => simp [h]
    · next h =>
      rw [ih]
      simp only [List.nodup_cons, List.mem_cons, not_or, forall_eq_or_imp]
      constructor
      · rintro ⟨hnd, hall⟩
        exact ⟨⟨fun hmem => (hall name hmem).1 rfl, hnd⟩, h, fun x hx => (hall x hx).2⟩
      · rintro ⟨⟨hnot, hnd⟩, -, hall⟩
        exact ⟨hnd, fun x hx => ⟨fun heq => hnot (heq ▸ hx), hall x hx⟩⟩

theorem checkAttributeNames_eq_ok_iff {typeName : String} {names : List String} :
    checkAttributeNames typeName names = .ok () ↔ names.Nodup := by
  have h := @firstRepeated_eq_none_iff [] names
  simp only [List.not_mem_nil, not_false_eq_true, implies_true, and_true] at h
  rw [← h, checkAttributeNames]
  cases firstRepeated [] names <;> simp

end MetadataArchive
