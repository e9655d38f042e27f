import MetadataArchive.Proofs.Draft.EndpointAttributes

/-!
# What speaks against the ends of a relationship type

Once the identity of a relationship type can be taken, the verdict on it follows from what the
archive lists so far. There have to be entity types at both its ends. An attribute that is named at
one end crosses over to the entity type at the other, where no other relationship type may have
introduced it and where it may not be declared. The first reason in this order is given.
-/

namespace MetadataArchive

/-- The entity type that a structural type is, if it is one. -/
def TypeDef.entity? : TypeDef → Option EntityDef
  | entity e => some e
  | _ => none

/-- The attributes that cross over: each entity type at an end receives the one that is named at the
opposite end. What both of them receive alike crosses over once. -/
def RelationshipDef.crossings (t : RelationshipDef) : List EndpointClaim :=
  [⟨t.end1.entityType.name, t.end2.entityType.name, t.end2.attributeName⟩,
    ⟨t.end2.entityType.name, t.end1.entityType.name, t.end1.attributeName⟩].eraseDups

theorem RelationshipDef.claims_eq_crossings (t : RelationshipDef) : t.claims = t.crossings := by
  unfold claims crossings
  by_cases h : t.end1.entityType.name = t.end2.entityType.name ∧
      t.end1.attributeName = t.end2.attributeName
  · rw [if_pos h, h.1, h.2]
    simp [List.eraseDups_cons]
  · have hne : (⟨t.end2.entityType.name, t.end1.entityType.name, t.end1.attributeName⟩ :
        EndpointClaim) ≠ ⟨t.end1.entityType.name, t.end2.entityType.name, t.end2.attributeName⟩ := by
      intro heq
      injection heq with htype _ hattribute
      exact h ⟨htype.symm, hattribute⟩
    rw [if_neg h]
    simp [List.eraseDups_cons, hne]

example (host : TypeDefLink) :
    (RelationshipDef.plain "guid-peer" "Peer" (.plain host "peers") (.plain host "peers")).crossings =
      [⟨host.name, host.name, "peers"⟩] := by
  simp [RelationshipDef.crossings, RelationshipDef.plain, RelationshipEndDef.plain,
    List.eraseDups_cons]

namespace TypeArchive

variable {a : TypeArchive}

/-- The entity types of an archive. -/
def entityDefs (a : TypeArchive) : List EntityDef :=
  a.newTypeDefs.filterMap TypeDef.entity?

theorem mem_entityDefs {e : EntityDef} : e ∈ a.entityDefs ↔ .entity e ∈ a.newTypeDefs := by
  rw [entityDefs, List.mem_filterMap]
  constructor
  · intro hex
    obtain ⟨t, ht, he⟩ := hex
    cases t with
    | entity e' => exact Option.some.inj he ▸ ht
    | _ => cases he
  · intro h
    exact ⟨_, h, rfl⟩

/-- An archive in which an entity type itself declares an attribute. -/
def Declares (a : TypeArchive) (entityType attributeName : String) : Prop :=
  ∃ e ∈ a.entityDefs, e.name = entityType ∧ attributeName ∈ e.properties.map TypeDefAttribute.name

instance (a : TypeArchive) (name : String) : Decidable (a.HasEntityType name) :=
  decidable_of_iff (∃ e ∈ a.entityDefs, e.name = name) (by simp only [HasEntityType, mem_entityDefs])

instance (a : TypeArchive) (entityType attributeName : String) :
    Decidable (a.Declares entityType attributeName) :=
  inferInstanceAs (Decidable (∃ e ∈ a.entityDefs, _))

instance (a : TypeArchive) (entityType attributeName : String) :
    Decidable (a.Introduces entityType attributeName) :=
  inferInstanceAs (Decidable (∃ t ∈ a.relationshipDefs, _))

/-- Why there is no entity type at an end. -/
def entityTypeFault? (a : TypeArchive) (name : String) : Option Rejection :=
  let kind : TypeKind := .structuralType .entity
  let missing? := if name = "" then some (.missingName (.definition kind)) else none
  let unknown? := if a.HasEntityType name then none else some (.unknownType kind name)
  missing?.or unknown?

/-- Why a relationship type cannot be added to an archive, if it is not for its identity. -/
def endsFault? (a : TypeArchive) (t : RelationshipDef) : Option Rejection :=
  let introduced? := t.crossings.find? fun c => a.Introduces c.entityType c.attributeName
  let declared? := t.crossings.find? fun c => a.Declares c.entityType c.attributeName
  (a.entityTypeFault? t.end1.entityType.name).or <|
    (a.entityTypeFault? t.end2.entityType.name).or <|
      ((introduced?.or declared?).map fun c => .duplicateEndpointAttribute t.name c.entityType
        c.otherEntityType c.attributeName).or <|
        attributeFault? t.name (t.properties.map TypeDefAttribute.name)

end TypeArchive

namespace Draft

variable {d : Draft}

theorem Coherent.entityTypeFault?_eq (h : d.Coherent) (name : String) :
    d.archive.entityTypeFault? name = if d.archive.HasEntityType name then none
      else some (Subject.notFound (.definition (.structuralType .entity)) name) := by
  by_cases hhas : d.archive.HasEntityType name
  · obtain ⟨e, he⟩ := hasEntityType_archive.1 hhas
    have hne : name ≠ "" :=
      (outcome_findDefinition_eq_ok_iff.1 (h.outcome_findEntityDef_eq_ok_iff.2 he)).1
    simp [TypeArchive.entityTypeFault?, hhas, hne]
  · rw [TypeArchive.entityTypeFault?, Subject.notFound, if_neg hhas, if_neg hhas]
    split <;> rfl

/-- An entity type at an end is found, or the archive shows why not. -/
theorem Coherent.findEntityDef_cases (h : d.Coherent) (name : String) :
    (∃ e, (d.findEntityDef name).outcome = .ok e ∧ d.entityDefs.get? name = some e ∧
      d.archive.entityTypeFault? name = none) ∨
    ∃ r, (d.findEntityDef name).outcome = .error r ∧ d.archive.entityTypeFault? name = some r := by
  rw [h.entityTypeFault?_eq]
  cases hfind : (d.findEntityDef name).outcome with
  | ok e =>
    have he := h.outcome_findEntityDef_eq_ok_iff.1 hfind
    exact .inl ⟨e, rfl, h.get?_entityDefs_eq_some_iff.2 he,
      if_pos (hasEntityType_archive.2 ⟨e, he⟩)⟩
  | error r =>
    have hnone : ¬ d.archive.HasEntityType name := by
      intro hhas
      obtain ⟨e, he⟩ := hasEntityType_archive.1 hhas
      rw [h.outcome_findEntityDef_eq_ok_iff.2 he] at hfind
      cases hfind
    refine .inr ⟨r, rfl, ?_⟩
    rw [if_neg hnone, eq_of_outcome_findDefinition_eq_error hfind]
    rfl

theorem entityDefs_archive (d : Draft) : d.archive.entityDefs = d.entityDefs.toList := by
  simp [TypeArchive.entityDefs, newTypeDefs_archive, newTypeDefs, List.filterMap_map,
    TypeDef.entity?, Function.comp_def]

theorem declares_archive {entityType attributeName : String} :
    d.archive.Declares entityType attributeName ↔ ∃ e, .entityDef e ∈ d.items ∧
      e.name = entityType ∧ attributeName ∈ e.properties.map TypeDefAttribute.name := by
  simp only [TypeArchive.Declares, entityDefs_archive, entityDef_mem_items]

theorem Coherent.any_declares_eq (h : d.Coherent) (entityType attributeName : String) :
    ((d.entityDefs.get? entityType).any fun e => e.declares attributeName) =
      decide (d.archive.Declares entityType attributeName) := by
  rw [Bool.eq_iff_iff, Option.any_eq_true, decide_eq_true_iff, declares_archive]
  simp only [h.get?_entityDefs_eq_some_iff, EntityDef.declares_iff, and_assoc]

theorem Coherent.contains_endpoints_eq (h : d.Coherent) (entityType attributeName : String) :
    d.endpoints.contains entityType attributeName =
      decide (d.archive.Introduces entityType attributeName) := by
  rw [Bool.eq_iff_iff, h.endpoints, decide_eq_true_iff, introduces_archive]

/-- What is checked after the identity gives the verdict that the archive gives. -/
theorem Coherent.checkEnds_eq_verdict (h : d.Coherent) (t : RelationshipDef) :
    d.checkEnds t = verdict (d.archive.endsFault? t) := by
  unfold checkEnds TypeArchive.endsFault?
  rcases h.findEntityDef_cases t.end1.entityType.name with
    ⟨entity1, hfind1, hget1, hfault1⟩ | ⟨r, hfind1, hfault1⟩
  · rcases h.findEntityDef_cases t.end2.entityType.name with
      ⟨entity2, hfind2, hget2, hfault2⟩ | ⟨r, hfind2, hfault2⟩
    · rw [hfind1, hfind2, hfault1, hfault2, Option.none_or, Option.none_or, verdict_or,
        ← checkAttributeNames_eq_verdict]
      show d.endpoints.check t entity1 entity2 >>= _ = _
      rw [EndpointMap.check_eq_verdict hget1 hget2, t.claims_eq_crossings]
      simp only [h.contains_endpoints_eq, h.any_declares_eq]
      rfl
    · rw [hfind1, hfind2, hfault1, hfault2]
      rfl
  · rw [hfind1, hfault1]
    rfl

/-- The exact verdict on a relationship type after every run: the first reason against its identity,
or else against its ends, if there is any. If it is accepted, the attributes that cross over are
introduced, each on the entity type that receives it, and nothing else changes there. -/
theorem outcome_add_relationshipDef_run (header : ArchiveProperties) (calls : List Item)
    (t : RelationshipDef) :
    (((run header calls).add (.relationshipDef t)).outcome.map fun _ => ()) =
        verdict ((definitionFault? (run header calls).archive.items t).or
          ((run header calls).archive.endsFault? t)) ∧
      ∀ d, ((run header calls).add (.relationshipDef t)).outcome = .ok d →
        ∀ entityType attributeName, d.endpoints.contains entityType attributeName = true ↔
          (∃ c ∈ t.crossings, c.entityType = entityType ∧ c.attributeName = attributeName) ∨
            (run header calls).endpoints.contains entityType attributeName = true := by
  have h := coherent_run header calls
  constructor
  · rw [outcome_map_add, h.check_eq, verdict_or, ← h.checkEnds_eq_verdict, items_archive]
    rfl
  · intro d hd entityType attributeName
    obtain ⟨-, rfl⟩ := outcome_add_eq_ok_iff.1 hd
    rw [contains_endpoints_take, ← t.claims_eq_crossings, ← RelationshipDef.mem_introducedOn]
    rfl

/-- What is introduced is held against a relationship type before what is declared. -/
example : ((run epochHeader (hostingCalls.take 3)).add
    (.relationshipDef (hostingDef "Addressing" "address"))).outcome =
      .error (.duplicateEndpointAttribute "Addressing" "Service" "Host" "host") :=
  rfl

end Draft

end MetadataArchive
