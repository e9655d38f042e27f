import MetadataArchive.Draft.Instance
import MetadataArchive.Proofs.Draft.Archive
import MetadataArchive.Proofs.Draft.Listing
import MetadataArchive.Proofs.Draft.Lookup

/-!
# The types of new instances

An instance that is made of a type of a draft gets a copy of the identity of that type, and nothing
looks at this copy when the instance is added. Still it says what it should in every archive that is
built from the draft later on: definitions are neither replaced nor taken away once they are there,
and no other definition or instance can take their GUID.
-/

namespace MetadataArchive

/-! ## Requests for instances -/

/-- A request for a new instance of a type that is given by its name. -/
inductive InstanceRequest where
  | entity (typeName guid : String) (properties : InstanceProperties)
    (classifications : List Classification)
  | classification (typeName : String) (properties : InstanceProperties)
  | relationship (typeName guid : String) (properties : InstanceProperties)
    (end1 end2 : EntityDetail)

/-- An instance of any kind. -/
inductive Instance where
  | entity (e : EntityDetail)
  | classification (c : Classification)
  | relationship (r : Relationship)

/-- The type that an instance states. -/
def Instance.type : Instance → InstanceType
  | entity e => e.instanceType
  | classification c => c.instanceType
  | relationship r => r.instanceType

/-- What the instances of a structural type state as their type. -/
def TypeDef.instanceType (t : TypeDef) : InstanceType :=
  ⟨t.guid, t.name, t.category⟩

namespace InstanceRequest

/-- The kind of the type that a request is about. -/
def category : InstanceRequest → TypeDefCategory
  | entity .. => .entity
  | classification .. => .classification
  | relationship .. => .relationship

/-- The name of the type that a request is about. -/
def typeName : InstanceRequest → String
  | entity typeName .. => typeName
  | classification typeName .. => typeName
  | relationship typeName .. => typeName

/-- The instance that is made of a structural type on a request. -/
def fill (request : InstanceRequest) (t : TypeDef) : Instance :=
  match request with
  | entity _ guid properties classifications =>
    .entity ⟨guid, t.instanceType, .active, 1, properties, classifications⟩
  | classification _ properties => .classification ⟨t.name, t.instanceType, .active, properties⟩
  | relationship _ guid properties end1 end2 =>
    .relationship ⟨guid, t.instanceType, .active, 1, properties, end1.proxy, end2.proxy⟩

@[simp]
theorem type_fill (request : InstanceRequest) (t : TypeDef) :
    (request.fill t).type = t.instanceType := by
  cases request <;> rfl

/-- The reason for not making an instance: its type was not found. -/
def notFound (request : InstanceRequest) : Rejection :=
  let kind : TypeKind := .structuralType request.category
  if request.typeName = "" then .missingName (.definition kind)
  else .unknownType kind request.typeName

/-- A structural type among some items that is of the kind and has the name that a request gives. -/
structure IsAbout (request : InstanceRequest) (items : List Item) (t : TypeDef) : Prop where
  item_mem : t.item ∈ items
  category_eq : t.category = request.category
  name_eq : t.name = request.typeName

end InstanceRequest

/-- An archive in which the type of an instance is one structural type: no other has this identity,
and no other definition and no instance has this GUID. -/
structure TypeArchive.Identifies (a : TypeArchive) (i : InstanceType) (t : TypeDef) : Prop where
  filter_instanceType : a.newTypeDefs.filter (fun d => d.instanceType = i) = [t]
  count_guids : a.guids.count i.typeDefGuid = 1

theorem TypeDef.kind_item (t : TypeDef) :
    t.item.kind = .definition (.structuralType t.category) := by
  cases t <;> rfl

theorem TypeDef.key?_item (t : TypeDef) : t.item.key? = some t.name := by
  cases t <;> rfl

theorem TypeDef.item_injective : Function.Injective TypeDef.item := by
  intro t t' h
  cases t <;> cases t' <;> cases h <;> rfl

namespace Draft

variable {d : Draft}

/-! ## Looking up -/

/-- Finds a structural type of a kind by its name. -/
def findTypeDef (d : Draft) (category : TypeDefCategory) (name : String) :
    Except Rejection TypeDef :=
  match category with
  | .entity => (d.findEntityDef name).outcome.map .entity
  | .classification => (d.findClassificationDef name).outcome.map .classification
  | .relationship => (d.findRelationshipDef name).outcome.map .relationship

theorem typeDef_mem_items {t : TypeDef} : t.item ∈ d.items ↔ t ∈ d.newTypeDefs := by
  have h : t.item ∈ d.itemsOf (.definition (.structuralType t.category)) ↔ t ∈ d.newTypeDefs := by
    cases t <;> simp [itemsOf, newTypeDefs, TypeDef.item, TypeDef.category]
  rw [← h, mem_itemsOf_iff]
  exact (and_iff_left t.kind_item).symm

theorem outcome_lookUp_structuralType (d : Draft) (category : TypeDefCategory) (name : String) :
    (d.lookUp (.definition (.structuralType category)) name).outcome =
      (d.findTypeDef category name).map TypeDef.item := by
  cases category with
  | entity =>
    rw [lookUp, findTypeDef, Traced.outcome_map]
    cases (d.findEntityDef name).outcome <;> rfl
  | classification =>
    rw [lookUp, findTypeDef, Traced.outcome_map]
    cases (d.findClassificationDef name).outcome <;> rfl
  | relationship =>
    rw [lookUp, findTypeDef, Traced.outcome_map]
    cases (d.findRelationshipDef name).outcome <;> rfl

theorem Coherent.findTypeDef_eq_ok_iff (h : d.Coherent) {category : TypeDefCategory} {name : String}
    {t : TypeDef} : d.findTypeDef category name = .ok t ↔
      t ∈ d.newTypeDefs ∧ t.category = category ∧ t.name = name := by
  have hanswers := (h.answers_lookUp (.definition (.structuralType category)) name).eq_ok_iff t.item
  rw [outcome_lookUp_structuralType, Except.map_eq_ok_iff, items_archive, typeDef_mem_items,
    Subject.Means, t.kind_item, t.key?_item] at hanswers
  simpa [TypeDef.item_injective.eq_iff, Subject.itemKind] using hanswers

theorem eq_of_findTypeDef_eq_error {category : TypeDefCategory} {name : String} {r : Rejection}
    (h : d.findTypeDef category name = .error r) :
    r = if name = "" then .missingName (.definition (.structuralType category))
      else .unknownType (.structuralType category) name := by
  cases category <;>
    exact eq_of_outcome_findDefinition_eq_error (Except.map_eq_error_iff.1 h)

/-! ## Making -/

/-- Makes an instance, or says why there is none. -/
def make (d : Draft) : InstanceRequest → Traced Instance
  | .entity typeName guid properties classifications =>
    .entity <$> d.newEntity typeName guid properties classifications
  | .classification typeName properties =>
    .classification <$> d.newClassification typeName properties
  | .relationship typeName guid properties end1 end2 =>
    .relationship <$> d.newRelationship typeName guid properties end1 end2

/-- An instance is made by finding its type and filling in the request. -/
theorem outcome_make (d : Draft) (request : InstanceRequest) :
    (d.make request).outcome =
      (d.findTypeDef request.category request.typeName).map request.fill := by
  cases request with
  | entity typeName =>
    simp only [make, newEntity, Traced.outcome_map, Traced.outcome_bind]
    show _ = ((d.findEntityDef typeName).outcome.map TypeDef.entity).map _
    cases (d.findEntityDef typeName).outcome <;> rfl
  | classification typeName =>
    simp only [make, newClassification, Traced.outcome_map, Traced.outcome_bind]
    show _ = ((d.findClassificationDef typeName).outcome.map TypeDef.classification).map _
    cases (d.findClassificationDef typeName).outcome <;> rfl
  | relationship typeName =>
    simp only [make, newRelationship, Traced.outcome_map, Traced.outcome_bind]
    show _ = ((d.findRelationshipDef typeName).outcome.map TypeDef.relationship).map _
    cases (d.findRelationshipDef typeName).outcome <;> rfl

/-! ## The types of instances in later archives -/

variable (header : ArchiveProperties)

/-- The archive of a run identifies every structural type that was accepted. -/
theorem identifies_of_accepted {calls : List Item} {t : TypeDef}
    (ht : t.item ∈ (empty header).accepted calls) :
    (run header calls).archive.Identifies t.instanceType t := by
  have hmem : t ∈ (run header calls).archive.newTypeDefs := by
    rw [newTypeDefs_archive]
    exact typeDef_mem_items.1 ((perm_items_run header calls).mem_iff.2 ht)
  have hguids := (coherent_run header calls).nodup_guids_archive
  have hnd : ((run header calls).archive.newTypeDefs.map TypeDef.guid).Nodup :=
    hguids.of_append_left.of_append_right
  constructor
  case filter_instanceType =>
    -- the GUID alone tells the type apart, for no two definitions share one
    refine filter_eq_singleton hnd hmem fun y hy => ?_
    rw [decide_eq_true_iff]
    constructor
    · exact congrArg InstanceType.typeDefGuid
    · intro hguid
      rw [List.inj_on_of_nodup_map hnd hy hmem hguid]
  case count_guids =>
    refine List.count_eq_one_of_mem hguids ?_
    exact List.mem_append_left _ (List.mem_append_right _ (List.mem_map_of_mem hmem))

/-- What is accepted later is listed as it was submitted. -/
theorem mem_items_of_accepted {earlier later : List Item} {item : Item}
    (h : item ∈ (run header earlier).accepted later) :
    item ∈ (run header (earlier ++ later)).archive.items := by
  rw [items_archive, (perm_items_run header _).mem_iff, accepted_append]
  exact List.mem_append_right _ h

/-- On a request an instance is made exactly if a structural type of the kind and the name was
accepted before; else the name is missing or unknown. Its type is the identity of that structural
type and of no other in the archive of every run that goes on from there, no other definition or
instance of which has the GUID. So it is when the instance itself, or an entity with the instance
among its classifications, is accepted later and is listed as it was made. -/
theorem make_resolves (earlier : List Item) (request : InstanceRequest) :
    ((∃ x, ((run header earlier).make request).outcome = .ok x) ↔
        ∃ t, request.IsAbout ((empty header).accepted earlier) t) ∧
      (∀ r, ((run header earlier).make request).outcome = .error r → r = request.notFound) ∧
      (∀ x, ((run header earlier).make request).outcome = .ok x →
        ∃ t, request.IsAbout ((empty header).accepted earlier) t ∧ x = request.fill t ∧
          ∀ later, (run header (earlier ++ later)).archive.Identifies x.type t) ∧
      ∀ later item, item ∈ (run header earlier).accepted later →
        item ∈ (run header (earlier ++ later)).archive.items := by
  have hfind : ∀ t, (run header earlier).findTypeDef request.category request.typeName = .ok t ↔
      request.IsAbout ((empty header).accepted earlier) t := by
    intro t
    rw [(coherent_run header earlier).findTypeDef_eq_ok_iff, ← typeDef_mem_items,
      (perm_items_run header earlier).mem_iff]
    exact ⟨fun ⟨hmem, hcategory, hname⟩ => ⟨hmem, hcategory, hname⟩,
      fun h => ⟨h.item_mem, h.category_eq, h.name_eq⟩⟩
  rw [outcome_make]
  refine ⟨?_, fun r hr => ?_, fun x hx => ?_, fun later item => mem_items_of_accepted header⟩
  · simp only [Except.map_eq_ok_iff, ← hfind]
    constructor
    · intro hex
      obtain ⟨x, t, ht, -⟩ := hex
      exact ⟨t, ht⟩
    · intro hex
      obtain ⟨t, ht⟩ := hex
      exact ⟨request.fill t, t, ht, rfl⟩
  · exact eq_of_findTypeDef_eq_error (Except.map_eq_error_iff.1 hr)
  · obtain ⟨t, ht, rfl⟩ := Except.map_eq_ok_iff.1 hx
    have habout := (hfind t).1 ht
    refine ⟨t, habout, rfl, fun later => ?_⟩
    -- the type stays accepted whatever is called later
    rw [InstanceRequest.type_fill]
    apply identifies_of_accepted
    rw [accepted_append]
    exact List.mem_append_left _ habout.item_mem

/-- The name of an entity type is not that of a classification type. -/
example : ((run epochHeader hostingCalls).make (.classification "Host" .empty)).outcome =
    .error (.unknownType (.structuralType .classification) "Host") :=
  rfl

end Draft

end MetadataArchive
