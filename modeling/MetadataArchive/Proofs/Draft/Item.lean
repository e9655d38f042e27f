import Mathlib.Data.List.Nodup
import MetadataArchive.Draft.Registration

/-!
# Items and their identity

What an item is known by: its kind, its name if it is a definition, its GUID if it takes one, and
its one-line description. Besides, what an item does to the attributes of an entity type: an entity
type declares its own, and a relationship type introduces the one named at its opposite end.
-/

namespace MetadataArchive

/-! ## Identity -/

/-- The kinds of items. -/
inductive ItemKind where
  | definition (kind : TypeKind)
  | patch
  | instanceOf (kind : InstanceKind)
deriving DecidableEq

namespace Item

/-- The kind of an item. -/
def kind : Item → ItemKind
  | primitiveDef _ => .definition (.attributeType .primitive)
  | collectionDef _ => .definition (.attributeType .collection)
  | enumDef _ => .definition (.attributeType .enum)
  | entityDef _ => .definition (.structuralType .entity)
  | classificationDef _ => .definition (.structuralType .classification)
  | relationshipDef _ => .definition (.structuralType .relationship)
  | patch _ => .patch
  | entity _ => .instanceOf .entity
  | relationship _ => .instanceOf .relationship

/-- The name of a definition. -/
def typeName? : Item → Option String
  | primitiveDef t => some t.name
  | collectionDef t => some t.name
  | enumDef t => some t.name
  | entityDef t => some t.name
  | classificationDef t => some t.name
  | relationshipDef t => some t.name
  | patch _ | entity _ | relationship _ => none

/-- The GUID of an instance. -/
def instanceGuid? : Item → Option String
  | entity e => some e.guid
  | relationship r => some r.guid
  | _ => none

/-- The GUID of a definition or an instance. A patch takes none: the one that it states is that of
the type it amends. -/
def guid? : Item → Option String
  | primitiveDef t => some t.guid
  | collectionDef t => some t.guid
  | enumDef t => some t.guid
  | entityDef t => some t.guid
  | classificationDef t => some t.guid
  | relationshipDef t => some t.guid
  | patch _ => none
  | entity e => some e.guid
  | relationship r => some r.guid

/-- The one-line description of an item. -/
def describe : Item → String
  | primitiveDef t => Definition.describe t
  | collectionDef t => Definition.describe t
  | enumDef t => Definition.describe t
  | entityDef t => Definition.describe t
  | classificationDef t => Definition.describe t
  | relationshipDef t => Definition.describe t
  | patch p => p.describe
  | entity e => e.describe
  | relationship r => r.describe

/-- The names of the attributes that a structural type itself declares. -/
def attributeNames : Item → List String
  | entityDef t => t.properties.map TypeDefAttribute.name
  | classificationDef t => t.properties.map TypeDefAttribute.name
  | relationshipDef t => t.properties.map TypeDefAttribute.name
  | _ => []

theorem guid?_of_instanceGuid? {item : Item} {guid : String}
    (h : item.instanceGuid? = some guid) : item.guid? = some guid := by
  cases item <;> first | exact h | cases h

end Item

/-! ## Attributes on entity types -/

theorem EntityDef.declares_iff {e : EntityDef} {attributeName : String} :
    e.declares attributeName = true ↔
      attributeName ∈ e.properties.map TypeDefAttribute.name := by
  simp [declares]

/-- The attributes that a relationship type introduces on an entity type: the one named at the end
opposite to each end where the entity type stands. One attribute that is named so at both ends
counts once. -/
def RelationshipDef.introducedOn (t : RelationshipDef) (entityType : String) : List String :=
  let at1 := if t.end1.entityType.name = entityType then [t.end2.attributeName] else []
  let at2 := if t.end2.entityType.name = entityType then [t.end1.attributeName] else []
  if t.end1.entityType.name = t.end2.entityType.name ∧
      t.end1.attributeName = t.end2.attributeName then
    at1
  else
    at1 ++ at2

theorem RelationshipDef.nodup_introducedOn (t : RelationshipDef) (entityType : String) :
    (t.introducedOn entityType).Nodup := by
  unfold introducedOn
  by_cases h1 : t.end1.entityType.name = entityType <;>
    by_cases h2 : t.end2.entityType.name = entityType <;>
      grind

theorem RelationshipDef.entityType_of_mem_claims (t : RelationshipDef) {c : EndpointClaim}
    (h : c ∈ t.claims) :
    c.entityType = t.end1.entityType.name ∨ c.entityType = t.end2.entityType.name := by
  unfold claims at h
  dsimp only at h
  split at h
  · exact .inl (by simp_all)
  · rcases List.mem_cons.1 h with h | h
    · exact .inl (by rw [h])
    · exact .inr (by rw [List.mem_singleton.1 h])

theorem RelationshipDef.claims_ne_nil (t : RelationshipDef) : t.claims ≠ [] := by
  unfold claims
  dsimp only
  split <;> simp

/-- What is introduced is what is claimed. -/
theorem RelationshipDef.mem_introducedOn {t : RelationshipDef} {entityType attributeName : String} :
    attributeName ∈ t.introducedOn entityType ↔
      ∃ c ∈ t.claims, c.entityType = entityType ∧ c.attributeName = attributeName := by
  unfold introducedOn claims
  by_cases h : t.end1.entityType.name = t.end2.entityType.name ∧
      t.end1.attributeName = t.end2.attributeName
  · -- both ends make the same claim
    rw [if_pos h, if_pos h]
    simp only [List.mem_ite_nil_right, List.mem_singleton, exists_eq_left, h.2,
      @eq_comm _ attributeName]
  · rw [if_neg h, if_neg h]
    simp only [List.mem_append, List.mem_ite_nil_right, List.mem_cons, List.not_mem_nil,
      or_false, or_and_right, exists_or, exists_eq_left, @eq_comm _ attributeName]

/-- Each end where the entity type stands introduces the attribute of the opposite end, whether or
not the two ends introduce the same. -/
theorem RelationshipDef.mem_introducedOn_iff {t : RelationshipDef}
    {entityType attributeName : String} : attributeName ∈ t.introducedOn entityType ↔
      (t.end1.entityType.name = entityType ∧ t.end2.attributeName = attributeName) ∨
        (t.end2.entityType.name = entityType ∧ t.end1.attributeName = attributeName) := by
  unfold introducedOn
  by_cases h : t.end1.entityType.name = t.end2.entityType.name ∧
      t.end1.attributeName = t.end2.attributeName
  · rw [if_pos h, h.1, h.2, or_self]
    simp only [List.mem_ite_nil_right, List.mem_singleton, @eq_comm _ attributeName]
  · rw [if_neg h]
    simp only [List.mem_append, List.mem_ite_nil_right, List.mem_singleton,
      @eq_comm _ attributeName]

namespace Item

/-- The attributes that an item introduces on an entity type from outside. -/
def introducedOn (entityType : String) : Item → List String
  | relationshipDef t => t.introducedOn entityType
  | _ => []

/-- The attributes that an entity type has by an item: those it declares itself if the item is its
definition, or those that the item introduces. -/
def visibleOn (entityType : String) : Item → List String
  | entityDef t => if t.name = entityType then t.properties.map TypeDefAttribute.name else []
  | relationshipDef t => t.introducedOn entityType
  | _ => []

/-- Items that bring a relationship type bring entity types for both its ends. -/
def EndsAmong (items : List Item) : Item → Prop
  | relationshipDef t =>
    (∃ e, entityDef e ∈ items ∧ e.name = t.end1.entityType.name) ∧
      ∃ e, entityDef e ∈ items ∧ e.name = t.end2.entityType.name
  | _ => True

theorem EndsAmong.mono {items items' : List Item} {item : Item} (h : item.EndsAmong items)
    (hsub : ∀ e, entityDef e ∈ items → entityDef e ∈ items') : item.EndsAmong items' := by
  cases item with
  | relationshipDef t =>
    obtain ⟨⟨e1, h1, hn1⟩, e2, h2, hn2⟩ := h
    exact ⟨⟨e1, hsub e1 h1, hn1⟩, e2, hsub e2 h2, hn2⟩
  | _ => trivial

end Item

end MetadataArchive
