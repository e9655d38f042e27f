import MetadataArchive.Proofs.Draft.Item

/-!
# Looking through the items

Whether the identity of an item can be taken, found without any index: by looking through the items
already taken, for one reason after the other. The first reason that applies is the verdict.
-/

namespace MetadataArchive

/-- The verdict on an item, from the first reason against it if there is any. -/
def verdict : Option Rejection → Except Rejection Unit
  | some r => .error r
  | none => .ok ()

@[simp]
theorem verdict_eq_ok_iff {reason? : Option Rejection} :
    verdict reason? = .ok () ↔ reason? = none := by
  cases reason? <;> simp [verdict]

/-- A reason, or else another: the checks one after the other. -/
theorem verdict_or (reason? reason?' : Option Rejection) :
    verdict (reason?.or reason?') = verdict reason? >>= fun _ => verdict reason?' := by
  cases reason? <;> rfl

/-- The description of the first item with a property. -/
def describeFirst (items : List Item) (p : Item → Bool) : Option String :=
  (items.find? p).map Item.describe

/-- Where at most one description is in question, it does not matter which item is the first. -/
theorem describeFirst_eq {items : List Item} {p : Item → Bool} {owner? : Option String}
    (h : ∀ owner, owner? = some owner ↔ ∃ item ∈ items, p item = true ∧ item.describe = owner) :
    describeFirst items p = owner? := by
  unfold describeFirst
  cases hfind : items.find? p with
  | some item =>
    have hitem := List.mem_of_find?_eq_some hfind
    exact ((h _).2 ⟨item, hitem, List.find?_some hfind, rfl⟩).symm
  | none =>
    cases howner : owner? with
    | none => rfl
    | some owner =>
      obtain ⟨item, hitem, hp, -⟩ := (h owner).1 howner
      exact absurd hp (List.find?_eq_none.1 hfind item hitem)

theorem describeFirst_eq_none_iff {items : List Item} {p : Item → Bool} :
    describeFirst items p = none ↔ ∀ item ∈ items, p item = false := by
  simp [describeFirst]

/-! ## Definitions -/

/-- The first of some names that occurred earlier in the list. -/
def repeatedName? (names : List String) : Option String :=
  (names.zipIdx.find? fun p => p.1 ∈ names.take p.2).map Prod.fst

/-- Why the attributes of a definition cannot have these names. -/
def attributeFault? (typeName : String) (names : List String) : Option Rejection :=
  (repeatedName? names).map (.duplicateAttribute typeName)

/-- Why the identity of a definition cannot be taken. -/
def definitionFault? {α : Type} [Definition α] (items : List Item) (t : α) : Option Rejection :=
  let kind := Definition.kind α
  let name := Definition.name t
  let guid := Definition.guid t
  let malformed? := if IsTypeName name then none else some (.malformedName name)
  let sameKind? := describeFirst items fun item =>
    item.kind = .definition kind ∧ item.typeName? = some name
  let sameGuid? := describeFirst items fun item => item.guid? = some guid
  let otherKind? := describeFirst items fun item =>
    item.kind ≠ .definition kind ∧ item.typeName? = some name
  malformed?.or <|
    (sameKind?.map (.duplicateName kind name · (Definition.describe t))).or <|
      (sameGuid?.map (.duplicateGuid guid · (Definition.describe t))).or <|
        otherKind?.map (.duplicateTypeName name · (Definition.describe t))

/-! ## Instances -/

/-- Why the GUID of an instance cannot be taken. -/
def instanceFault? (items : List Item) (kind : InstanceKind) (guid description : String) :
    Option Rejection :=
  let missing? := if guid = "" then some (.missingName (.instanceOf kind)) else none
  let sameInstance? := describeFirst items fun item => item.instanceGuid? = some guid
  let sameGuid? := describeFirst items fun item => item.guid? = some guid
  missing?.or <|
    (sameInstance?.map (.duplicateInstance kind guid · description)).or <|
      sameGuid?.map (.duplicateGuid guid · description)

/-- Why the identity of an item cannot be taken. Nothing speaks against a patch. -/
def Item.identityFault? (items : List Item) : Item → Option Rejection
  | primitiveDef t => definitionFault? items t
  | collectionDef t => definitionFault? items t
  | enumDef t => definitionFault? items t
  | entityDef t =>
    (definitionFault? items t).or
      (attributeFault? t.name (t.properties.map TypeDefAttribute.name))
  | classificationDef t =>
    (definitionFault? items t).or
      (attributeFault? t.name (t.properties.map TypeDefAttribute.name))
  | relationshipDef t => definitionFault? items t
  | patch _ => none
  | entity e => instanceFault? items .entity e.guid e.describe
  | relationship r => instanceFault? items .relationship r.guid r.describe

/-! ## When nothing speaks against an item -/

section

variable {α : Type} [Definition α] {items : List Item}

theorem definitionFault?_eq_none_iff {t : α} :
    definitionFault? items t = none ↔ IsTypeName (Definition.name t) ∧
      Definition.name t ∉ items.filterMap Item.typeName? ∧
        Definition.guid t ∉ items.filterMap Item.guid? := by
  simp only [definitionFault?, Option.or_eq_none_iff, Option.map_eq_none_iff,
    describeFirst_eq_none_iff, List.mem_filterMap, not_exists, not_and, decide_eq_false_iff_not]
  constructor
  · intro hall
    obtain ⟨hname, hsame, hguid, hother⟩ := hall
    refine ⟨by simpa using hname, fun item hitem heq => ?_, hguid⟩
    by_cases hkind : item.kind = .definition (Definition.kind α)
    · exact hsame item hitem hkind heq
    · exact hother item hitem hkind heq
  · intro hall
    obtain ⟨hname, hfresh, hguid⟩ := hall
    exact ⟨if_pos hname, fun item hitem _ => hfresh item hitem, hguid,
      fun item hitem _ => hfresh item hitem⟩

theorem instanceFault?_eq_none_iff {kind : InstanceKind} {guid description : String} :
    instanceFault? items kind guid description = none ↔
      guid ≠ "" ∧ guid ∉ items.filterMap Item.guid? := by
  simp only [instanceFault?, Option.or_eq_none_iff, Option.map_eq_none_iff,
    describeFirst_eq_none_iff, List.mem_filterMap, not_exists, not_and, decide_eq_false_iff_not]
  constructor
  · intro hall
    obtain ⟨hne, -, hguid⟩ := hall
    exact ⟨by simpa using hne, hguid⟩
  · intro hall
    obtain ⟨hne, hguid⟩ := hall
    exact ⟨if_neg hne, fun item hitem heq => hguid item hitem (Item.guid?_of_instanceGuid? heq),
      hguid⟩

end

/-! ## Repeated names -/

theorem firstRepeated_eq_find? {before seen : List String} (names : List String)
    (hseen : ∀ name, name ∈ seen ↔ name ∈ before) :
    firstRepeated seen names = ((names.zipIdx before.length).find? fun p =>
      p.1 ∈ (before ++ names).take p.2).map Prod.fst := by
  induction names generalizing before seen with
  | nil => rfl
  | cons name names ih =>
    rw [firstRepeated, List.zipIdx_cons, List.find?_cons]
    simp only [List.take_left, hseen]
    by_cases hname : name ∈ before
    · simp [hname]
    · -- one name further, the names before it are those seen so far
      have hnext : ∀ x, x ∈ name :: seen ↔ x ∈ before ++ [name] := by
        simp [hseen, or_comm]
      simpa [hname, List.append_assoc] using ih hnext

theorem firstRepeated_eq_repeatedName? (names : List String) :
    firstRepeated [] names = repeatedName? names :=
  firstRepeated_eq_find? names fun _ => Iff.rfl

theorem checkAttributeNames_eq_verdict (typeName : String) (names : List String) :
    checkAttributeNames typeName names = verdict (attributeFault? typeName names) := by
  unfold checkAttributeNames attributeFault?
  rw [firstRepeated_eq_repeatedName?]
  cases repeatedName? names <;> rfl

theorem attributeFault?_eq_none_iff {typeName : String} {names : List String} :
    attributeFault? typeName names = none ↔ names.Nodup := by
  rw [← verdict_eq_ok_iff, ← checkAttributeNames_eq_verdict, checkAttributeNames_eq_ok_iff]

end MetadataArchive
