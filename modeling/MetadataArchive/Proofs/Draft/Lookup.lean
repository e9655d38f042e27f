import MetadataArchive.Proofs.Draft.Check

/-!
# Looking up what an archive lists

A draft finds an item through the positions in a table, and its archive lists the items of the table
in their order. The two are views of one content: what is found under a key is the item of that kind
and key that the archive lists, and where it lists none, nothing is found. No item is listed under
the empty key, which is turned away before any table is asked.
-/

namespace MetadataArchive

/-! ## What is asked and what is answered -/

/-- What an item is found by: a definition by its name, an instance by its GUID. -/
def Item.key? (x : Item) : Option String :=
  x.typeName?.or x.instanceGuid?

namespace Subject

/-- The kind of the items that are looked up. -/
def itemKind : Subject → ItemKind
  | definition kind => .definition kind
  | instanceOf kind => .instanceOf kind

/-- The items that are meant by a key: those of the kind that have it. -/
def Means (subject : Subject) (key : String) (x : Item) : Prop :=
  x.kind = subject.itemKind ∧ x.key? = some key

end Subject

/-- An answer to a look-up that agrees with what an archive lists: an item that the key means, as it
is listed; or, if none is listed, the reason for finding nothing under that key. -/
structure TypeArchive.Answers (a : TypeArchive) (subject : Subject) (key : String)
    (answer : Except Rejection Item) : Prop where
  eq_ok_iff : ∀ x, answer = .ok x ↔ x ∈ a.items ∧ subject.Means key x
  eq_error_iff : ∀ r, answer = .error r ↔
    (∀ x ∈ a.items, ¬ subject.Means key x) ∧ r = subject.notFound key

namespace Draft

variable {d : Draft}

/-- Finds an item of any kind that can be looked up. -/
def lookUp (d : Draft) (subject : Subject) (key : String) : Traced Item :=
  match subject with
  | .definition (.attributeType .primitive) => .primitiveDef <$> d.findPrimitiveDef key
  | .definition (.attributeType .collection) => .collectionDef <$> d.findCollectionDef key
  | .definition (.attributeType .enum) => .enumDef <$> d.findEnumDef key
  | .definition (.structuralType .entity) => .entityDef <$> d.findEntityDef key
  | .definition (.structuralType .classification) =>
    .classificationDef <$> d.findClassificationDef key
  | .definition (.structuralType .relationship) => .relationshipDef <$> d.findRelationshipDef key
  | .instanceOf .entity => .entity <$> d.findEntity key
  | .instanceOf .relationship => .relationship <$> d.findRelationship key

/-! ## Tables and listed items -/

/-- No item is known by the empty key. -/
theorem Coherent.key_ne (h : d.Coherent) {x : Item} {key : String} (hx : x ∈ d.items)
    (hkey : x.key? = some key) : key ≠ "" := by
  rcases Option.or_eq_some_iff.1 hkey with hname | ⟨-, hguid⟩
  · exact h.compatible.typeName_ne hx hname
  · exact h.compatible.instanceGuid_ne key (List.mem_filterMap.2 ⟨x, hx, hguid⟩)

/-- The answers of a table that has the items of a kind. Here `f` makes items of what is in the
table. -/
theorem Coherent.answers_find (h : d.Coherent) {α : Type} {table : KeyedTable α}
    {keyOf : α → String} {subject : Subject} {key : String} (f : α → Item)
    (hindexed : table.Indexed keyOf) (hitems : d.itemsOf subject.itemKind = table.toList.map f)
    (hkey : ∀ y, (f y).key? = some (keyOf y)) :
    d.archive.Answers subject key ((table.find subject key).map f) := by
  have hok : ∀ x, (table.find subject key).map f = .ok x ↔
      x ∈ d.archive.items ∧ subject.Means key x := by
    intro x
    rw [items_archive, Subject.Means, ← and_assoc, ← mem_itemsOf_iff, hitems, List.mem_map]
    simp only [Except.map_eq_ok_iff, KeyedTable.find_eq_ok_iff, hindexed.get?_eq_some_iff]
    constructor
    · intro hex
      obtain ⟨y, ⟨-, hy, rfl⟩, rfl⟩ := hex
      exact ⟨⟨y, hy, rfl⟩, hkey y⟩
    · intro hall
      obtain ⟨⟨y, hy, rfl⟩, hykey⟩ := hall
      have hmem : f y ∈ d.items := mem_items_of_mem_itemsOf (hitems ▸ List.mem_map_of_mem hy)
      exact ⟨y, ⟨h.key_ne hmem hykey, hy, Option.some.inj ((hkey y).symm.trans hykey)⟩, rfl⟩
  refine ⟨hok, fun r => ?_⟩
  cases hfind : table.find subject key with
  | ok y =>
    obtain ⟨hmem, hmeans⟩ := (hok (f y)).1 (by rw [hfind]; rfl)
    exact iff_of_false nofun fun hnone => hnone.1 _ hmem hmeans
  | error r' =>
    have hnone : ∀ x ∈ d.archive.items, ¬ subject.Means key x := by
      intro x hx hmeans
      have hsome := (hok x).2 ⟨hx, hmeans⟩
      rw [hfind] at hsome
      cases hsome
    rw [← KeyedTable.eq_notFound_of_find_eq_error hfind, and_iff_right hnone]
    show Except.error r' = .error r ↔ _
    rw [Except.error.injEq, eq_comm]

theorem Coherent.answers_lookUp (h : d.Coherent) (subject : Subject) (key : String) :
    d.archive.Answers subject key (d.lookUp subject key).outcome := by
  match subject with
  | .definition (.attributeType .primitive) =>
    rw [lookUp, Traced.outcome_map, findPrimitiveDef, outcome_findDefinition]
    exact h.answers_find .primitiveDef h.indexed.primitiveDefs rfl fun _ => rfl
  | .definition (.attributeType .collection) =>
    rw [lookUp, Traced.outcome_map, findCollectionDef, outcome_findDefinition]
    exact h.answers_find .collectionDef h.indexed.collectionDefs rfl fun _ => rfl
  | .definition (.attributeType .enum) =>
    rw [lookUp, Traced.outcome_map, findEnumDef, outcome_findDefinition]
    exact h.answers_find .enumDef h.indexed.enumDefs rfl fun _ => rfl
  | .definition (.structuralType .entity) =>
    rw [lookUp, Traced.outcome_map, findEntityDef, outcome_findDefinition]
    exact h.answers_find .entityDef h.indexed.entityDefs rfl fun _ => rfl
  | .definition (.structuralType .classification) =>
    rw [lookUp, Traced.outcome_map, findClassificationDef, outcome_findDefinition]
    exact h.answers_find .classificationDef h.indexed.classificationDefs rfl fun _ => rfl
  | .definition (.structuralType .relationship) =>
    rw [lookUp, Traced.outcome_map, findRelationshipDef, outcome_findDefinition]
    exact h.answers_find .relationshipDef h.indexed.relationshipDefs rfl fun _ => rfl
  | .instanceOf .entity =>
    rw [lookUp, Traced.outcome_map, findEntity, outcome_findInstance]
    exact h.answers_find .entity h.indexed.entities rfl fun _ => rfl
  | .instanceOf .relationship =>
    rw [lookUp, Traced.outcome_map, findRelationship, outcome_findInstance]
    exact h.answers_find .relationship h.indexed.relationships rfl fun _ => rfl

/-- After every run, every look-up answers from what the archive lists. So every item that is listed
is found again under its own key, which is never the empty one. -/
theorem answers_lookUp_run (header : ArchiveProperties) (calls : List Item) (subject : Subject) :
    (∀ key, (run header calls).archive.Answers subject key
        ((run header calls).lookUp subject key).outcome) ∧
      ∀ x ∈ (run header calls).archive.items, x.kind = subject.itemKind →
        ∃ key, x.key? = some key ∧ key ≠ "" ∧
          ((run header calls).lookUp subject key).outcome = .ok x := by
  have h := coherent_run header calls
  refine ⟨h.answers_lookUp subject, fun x hx hkind => ?_⟩
  have hsome : x.key?.isSome := by
    cases subject <;> cases x <;> first | rfl | cases hkind
  obtain ⟨key, hkey⟩ := Option.isSome_iff_exists.1 hsome
  refine ⟨key, hkey, ?_, ((h.answers_lookUp subject key).eq_ok_iff x).2 ⟨hx, hkind, hkey⟩⟩
  rw [items_archive] at hx
  exact h.key_ne hx hkey

end Draft

end MetadataArchive
