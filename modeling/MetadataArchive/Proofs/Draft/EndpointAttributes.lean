import MetadataArchive.Proofs.Draft.Accepted
import MetadataArchive.Proofs.Draft.Archive

/-!
# Introduced attributes

A draft keeps the attributes that relationship types introduce in a map of its own, to which every
accepted relationship type adds. What this map says after a run, the archive says as well: looking
through its relationship types finds the same attributes on every entity type.
-/

namespace MetadataArchive

namespace TypeArchive

/-- An archive in which the relationship types introduce an attribute on an entity type, from either
of their ends. -/
def Introduces (a : TypeArchive) (entityType attributeName : String) : Prop :=
  ∃ t ∈ a.relationshipDefs,
    (t.end1.entityType.name = entityType ∧ t.end2.attributeName = attributeName) ∨
      (t.end2.entityType.name = entityType ∧ t.end1.attributeName = attributeName)

/-- An archive that lists an entity type of a name. -/
def HasEntityType (a : TypeArchive) (name : String) : Prop :=
  ∃ e, .entity e ∈ a.newTypeDefs ∧ e.name = name

end TypeArchive

namespace Draft

variable {d : Draft}

theorem relationshipDefs_archive (d : Draft) :
    d.archive.relationshipDefs = d.relationshipDefs.toList := by
  simp [TypeArchive.relationshipDefs, newTypeDefs_archive, newTypeDefs, List.filterMap_map,
    TypeDef.relationship?, Function.comp_def]

theorem relationshipDef_mem_items {t : RelationshipDef} :
    .relationshipDef t ∈ d.items ↔ t ∈ d.archive.relationshipDefs := by
  have h : .relationshipDef t ∈ d.itemsOf (.definition (.structuralType .relationship)) ↔
      t ∈ d.relationshipDefs.toList := by
    simp [itemsOf]
  rw [relationshipDefs_archive, ← h, mem_itemsOf_iff]
  exact (and_iff_left rfl).symm

theorem hasEntityType_archive {name : String} :
    d.archive.HasEntityType name ↔ ∃ e, .entityDef e ∈ d.items ∧ e.name = name := by
  simp [TypeArchive.HasEntityType, newTypeDefs_archive, newTypeDefs, entityDef_mem_items]

/-- What items introduce, the archive introduces. -/
theorem introduces_archive {entityType attributeName : String} :
    d.archive.Introduces entityType attributeName ↔
      ∃ item ∈ d.items, attributeName ∈ item.introducedOn entityType := by
  simp only [TypeArchive.Introduces, ← RelationshipDef.mem_introducedOn_iff,
    ← relationshipDef_mem_items]
  constructor
  · intro hex
    obtain ⟨t, ht, hintroduced⟩ := hex
    exact ⟨_, ht, hintroduced⟩
  · intro hex
    obtain ⟨item, hitem, hintroduced⟩ := hex
    cases item with
    | relationshipDef t => exact ⟨t, hitem, hintroduced⟩
    | _ => cases hintroduced

/-- A draft whose endpoint map can be had from its archive alone. -/
structure EndpointsDerived (d : Draft) : Prop where
  ascending : ∀ entityType, (d.endpointAttributes entityType).Pairwise (· < ·)
  mem_iff : ∀ entityType attributeName, attributeName ∈ d.endpointAttributes entityType ↔
    d.archive.Introduces entityType attributeName
  contains_iff : ∀ entityType attributeName, d.endpoints.contains entityType attributeName = true ↔
    attributeName ∈ d.endpointAttributes entityType
  isEmpty_iff : d.endpoints.isEmpty = true ↔ d.archive.relationshipDefs = []
  hasEntityType : ∀ entityType, d.endpointAttributes entityType ≠ [] →
    d.archive.HasEntityType entityType
  hasEntityType_ends : ∀ t ∈ d.archive.relationshipDefs,
    d.archive.HasEntityType t.end1.entityType.name ∧ d.archive.HasEntityType t.end2.entityType.name

theorem contains_iff_mem_endpointAttributes (d : Draft) (entityType attributeName : String) :
    d.endpoints.contains entityType attributeName = true ↔
      attributeName ∈ d.endpointAttributes entityType :=
  StringMap.mem_keys.symm

theorem Coherent.mem_endpointAttributes_iff (h : d.Coherent) {entityType attributeName : String} :
    attributeName ∈ d.endpointAttributes entityType ↔
      d.archive.Introduces entityType attributeName := by
  rw [← contains_iff_mem_endpointAttributes, h.endpoints, introduces_archive]

theorem Coherent.hasEntityType_ends (h : d.Coherent) {t : RelationshipDef}
    (ht : t ∈ d.archive.relationshipDefs) : d.archive.HasEntityType t.end1.entityType.name ∧
      d.archive.HasEntityType t.end2.entityType.name := by
  rw [hasEntityType_archive, hasEntityType_archive]
  exact h.endsAmong _ (relationshipDef_mem_items.2 ht)

/-- After every run the endpoint map says what the relationship types of the archive say. It is
empty exactly if no relationship type was accepted. -/
theorem endpointsDerived_run (header : ArchiveProperties) (calls : List Item) :
    (run header calls).EndpointsDerived ∧ ((run header calls).endpoints.isEmpty = true ↔
      ∀ t, .relationshipDef t ∉ (empty header).accepted calls) := by
  have h := coherent_run header calls
  have hempty := isEmpty_endpoints_run header calls
  refine ⟨?_, hempty.trans (by simp only [(perm_items_run header calls).mem_iff])⟩
  constructor
  case ascending => exact fun entityType => StringMap.pairwise_keys _
  case mem_iff => exact fun _ _ => h.mem_endpointAttributes_iff
  case contains_iff => exact contains_iff_mem_endpointAttributes _
  case isEmpty_iff =>
    rw [hempty, List.eq_nil_iff_forall_not_mem]
    simp only [relationshipDef_mem_items]
  case hasEntityType =>
    intro entityType hne
    -- an attribute is there because of an end, and the ends are those of entity types
    obtain ⟨attributeName, hmem⟩ := List.exists_mem_of_ne_nil _ hne
    obtain ⟨t, ht, hend⟩ := h.mem_endpointAttributes_iff.1 hmem
    obtain ⟨h1, h2⟩ := h.hasEntityType_ends ht
    rcases hend with ⟨rfl, -⟩ | ⟨rfl, -⟩
    · exact h1
    · exact h2
  case hasEntityType_ends => exact fun _ => h.hasEntityType_ends

end Draft

end MetadataArchive
