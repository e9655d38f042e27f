import MetadataArchive.Proofs.Draft.Ends
import MetadataArchive.Proofs.Draft.Order

/-!
# What verdicts depend on

Whether an item is accepted, and if not then why, depends on the identities of the items before it
and on its own: kinds, names, GUIDs, the names of attributes, and the names at the ends of
relationship types. Two runs that agree on these give the same verdicts, however they differ in all
else, in their headers and in patches. The descriptions in a rejection are the exception, since
those of instances tell more than their identity.
-/

namespace MetadataArchive

/-! ## Identities -/

/-- The identity of an item: its kind, its name and its GUID if it has them, the names of the
attributes that it declares, and at each end of a relationship type the name of the entity type and
of the attribute. -/
structure ItemIdentity where
  kind : ItemKind
  typeName? : Option String
  guid? : Option String
  attributeNames : List String
  ends : List (String × String)
deriving DecidableEq

/-- The names at an end of a relationship type: of the entity type, and of the attribute. -/
def RelationshipEndDef.names (e : RelationshipEndDef) : String × String :=
  (e.entityType.name, e.attributeName)

namespace Item

/-- The names at the ends of a relationship type. -/
def ends : Item → List (String × String)
  | relationshipDef t => [t.end1.names, t.end2.names]
  | _ => []

/-- The identity of an item. -/
def identity (x : Item) : ItemIdentity :=
  ⟨x.kind, x.typeName?, x.guid?, x.attributeNames, x.ends⟩

end Item

/-- The identities of some items other than patches, in the same order. -/
def identitiesOf (items : List Item) : List ItemIdentity :=
  (items.filter fun x => x.kind ≠ .patch).map Item.identity

/-- The rejection without the descriptions of the items that collide. -/
def Rejection.anonymous : Rejection → Rejection
  | duplicateName kind name _ _ => .duplicateName kind name "" ""
  | duplicateTypeName name _ _ => .duplicateTypeName name "" ""
  | duplicateGuid guid _ _ => .duplicateGuid guid "" ""
  | duplicateInstance kind guid _ _ => .duplicateInstance kind guid "" ""
  | r => r

/-- What is seen of a call: whether the item is accepted or why not, and then, of the draft after
it, the attributes introduced on every entity type and the number of definitions. -/
@[ext]
structure Observation where
  verdict : Except Rejection Unit
  endpointAttributes : String → List String
  typeCount : Nat

namespace Draft

/-- What is seen of the next call. -/
def observation (d : Draft) (item : Item) : Observation where
  verdict := ((d.add item).outcome.map fun _ => ()).mapError Rejection.anonymous
  endpointAttributes := (d.tryAdd item).endpointAttributes
  typeCount := (d.tryAdd item).typeCount

/-- What is seen of a run, call by call except for patches. -/
def observe (d : Draft) : List Item → List Observation
  | [] => []
  | item :: calls =>
    let rest := (d.tryAdd item).observe calls
    if item.kind = .patch then rest else d.observation item :: rest

end Draft

/-! ## What identities say of items -/

namespace ItemIdentity

/-- The identity of a patch. -/
def patch : ItemIdentity :=
  ⟨.patch, none, none, [], []⟩

/-- The GUID of an instance. -/
def instanceGuid? (i : ItemIdentity) : Option String :=
  match i.kind with
  | .instanceOf _ => i.guid?
  | _ => none

@[simp]
theorem typeName?_patch : patch.typeName? = none :=
  rfl

@[simp]
theorem guid?_patch : patch.guid? = none :=
  rfl

@[simp]
theorem instanceGuid?_patch : patch.instanceGuid? = none :=
  rfl

/-- Whether an attribute is introduced on an entity type: it is named at the opposite end. -/
def IntroducesOn (i : ItemIdentity) (entityType attributeName : String) : Prop :=
  ∃ a b, i.ends = [a, b] ∧
    ((a.1 = entityType ∧ b.2 = attributeName) ∨ (b.1 = entityType ∧ a.2 = attributeName))

end ItemIdentity

namespace Item

variable {x : Item}

theorem identity_eq_patch (h : x.kind = .patch) : x.identity = .patch := by
  cases x with
  | patch p => rfl
  | _ => cases h

theorem instanceGuid?_identity (x : Item) : x.identity.instanceGuid? = x.instanceGuid? := by
  cases x <;> rfl

theorem introducedOn_identity {entityType attributeName : String} :
    x.identity.IntroducesOn entityType attributeName ↔
      attributeName ∈ x.introducedOn entityType := by
  cases x with
  | relationshipDef t =>
    show _ ↔ attributeName ∈ t.introducedOn entityType
    rw [RelationshipDef.mem_introducedOn_iff]
    simp [ItemIdentity.IntroducesOn, identity, ends, RelationshipEndDef.names]
  | _ => simp [ItemIdentity.IntroducesOn, identity, ends, introducedOn]

end Item

section

variable {items items' : List Item}

/-- What is said of the identity of some item, but of no patch, is said of one of the identities. -/
theorem exists_identitiesOf_iff {q : ItemIdentity → Prop} (hq : ¬ q .patch) :
    (∃ i ∈ identitiesOf items, q i) ↔ ∃ x ∈ items, q x.identity := by
  simp only [identitiesOf, List.mem_map, List.mem_filter, decide_eq_true_eq]
  constructor
  · intro hex
    obtain ⟨_, ⟨x, ⟨hx, -⟩, rfl⟩, hqx⟩ := hex
    exact ⟨x, hx, hqx⟩
  · intro hex
    obtain ⟨x, hx, hqx⟩ := hex
    exact ⟨_, ⟨x, ⟨hx, fun hkind => hq (Item.identity_eq_patch hkind ▸ hqx)⟩, rfl⟩, hqx⟩

theorem identitiesOf_cons (x : Item) (items : List Item) : identitiesOf (x :: items) =
    if x.kind = .patch then identitiesOf items else x.identity :: identitiesOf items := by
  by_cases hx : x.kind = .patch
  · simp [identitiesOf, hx]
  · simp [identitiesOf, hx]

theorem filterMap_typeName?_identitiesOf :
    (identitiesOf items).filterMap ItemIdentity.typeName? = items.filterMap Item.typeName? := by
  induction items with
  | nil => rfl
  | cons x items ih =>
    cases x <;>
      simp_all [identitiesOf, List.filterMap_cons, Item.kind, Item.identity, Item.typeName?]

/-- Reasons that differ in descriptions only come up together. -/
theorem map_describeFirst_eq {p p' : Item → Bool} {g g' : String → Rejection}
    (hany : (∃ x ∈ items, p x = true) ↔ ∃ y ∈ items', p' y = true)
    (hg : ∀ owner owner', (g owner).anonymous = (g' owner').anonymous) :
    ((describeFirst items p).map g).map Rejection.anonymous =
      ((describeFirst items' p').map g').map Rejection.anonymous := by
  unfold describeFirst
  cases hfind : items.find? p with
  | some x =>
    have hex : ∃ y ∈ items', p' y = true :=
      hany.1 ⟨x, List.mem_of_find?_eq_some hfind, List.find?_some hfind⟩
    obtain ⟨y, hfind'⟩ := Option.isSome_iff_exists.1 (List.find?_isSome.2 hex)
    rw [hfind']
    exact congrArg some (hg _ _)
  | none =>
    have hfind' : items'.find? p' = none := by
      rw [List.find?_eq_none] at hfind ⊢
      intro y hy hpy
      obtain ⟨x, hx, hpx⟩ := hany.2 ⟨y, hy, hpy⟩
      exact hfind x hx hpx
    rw [hfind']
    rfl

end

/-- What speaks against ends are names and nothing else. -/
theorem TypeArchive.endsFault?_congr {a a' : TypeArchive} {t t' : RelationshipDef}
    (hname : t.name = t'.name)
    (hnames : t.properties.map TypeDefAttribute.name = t'.properties.map TypeDefAttribute.name)
    (hend1 : t.end1.names = t'.end1.names) (hend2 : t.end2.names = t'.end2.names)
    (hhas : ∀ name, a.HasEntityType name ↔ a'.HasEntityType name)
    (hintroduces : ∀ entityType attributeName,
      a.Introduces entityType attributeName ↔ a'.Introduces entityType attributeName)
    (hdeclares : ∀ entityType attributeName,
      a.Declares entityType attributeName ↔ a'.Declares entityType attributeName) :
    a.endsFault? t = a'.endsFault? t' := by
  obtain ⟨htype1, hattribute1⟩ := Prod.mk.inj hend1
  obtain ⟨htype2, hattribute2⟩ := Prod.mk.inj hend2
  have hcrossings : t.crossings = t'.crossings := by
    unfold RelationshipDef.crossings
    rw [htype1, htype2, hattribute1, hattribute2]
  simp only [endsFault?, entityTypeFault?, hcrossings, htype1, htype2, hname, hnames, hhas,
    hintroduces, hdeclares]

namespace Draft

/-- Coherent drafts whose items have the same identities, up to order and patches. -/
structure Alike (d d' : Draft) : Prop where
  left : d.Coherent
  right : d'.Coherent
  perm : (identitiesOf d.items).Perm (identitiesOf d'.items)

variable {d d' : Draft}

namespace Alike

theorem refl (h : d.Coherent) : d.Alike d :=
  ⟨h, h, .rfl⟩

theorem symm (h : d.Alike d') : d'.Alike d :=
  ⟨h.right, h.left, h.perm.symm⟩

theorem exists_iff (h : d.Alike d') {q : ItemIdentity → Prop} (hq : ¬ q .patch) :
    (∃ x ∈ d.items, q x.identity) ↔ ∃ y ∈ d'.items, q y.identity := by
  rw [← exists_identitiesOf_iff hq, ← exists_identitiesOf_iff hq]
  simp only [h.perm.mem_iff]

theorem map_describeFirst (h : d.Alike d') {q : ItemIdentity → Prop} [DecidablePred q]
    (hq : ¬ q .patch) {g g' : String → Rejection}
    (hg : ∀ owner owner', (g owner).anonymous = (g' owner').anonymous) :
    ((describeFirst d.items fun x => q x.identity).map g).map Rejection.anonymous =
      ((describeFirst d'.items fun y => q y.identity).map g').map Rejection.anonymous := by
  refine map_describeFirst_eq ?_ hg
  simp only [decide_eq_true_eq]
  exact h.exists_iff hq

theorem contains_endpoints (h : d.Alike d') (entityType attributeName : String) :
    d.endpoints.contains entityType attributeName =
      d'.endpoints.contains entityType attributeName := by
  -- the map has what the items introduce, and what an item introduces its identity tells
  rw [Bool.eq_iff_iff, h.left.endpoints, h.right.endpoints]
  simp only [← Item.introducedOn_identity]
  exact h.exists_iff (q := (ItemIdentity.IntroducesOn · entityType attributeName)) (by
    intro h
    obtain ⟨_, _, hnil, -⟩ := h
    cases hnil)

theorem endpointAttributes_eq (h : d.Alike d') : d.endpointAttributes = d'.endpointAttributes := by
  funext entityType
  apply EndpointMap.attributesOf_eq_of_contains_iff
  intro attributeName
  rw [h.contains_endpoints]

theorem typeCount_eq (h : d.Alike d') : d.typeCount = d'.typeCount := by
  rw [typeCount_eq_length_typeNames, typeCount_eq_length_typeNames,
    ← filterMap_typeName?_identitiesOf, ← filterMap_typeName?_identitiesOf]
  exact (h.perm.filterMap _).length_eq

/-! ## Verdicts -/

theorem definitionFault?_eq (h : d.Alike d') {α : Type} [Definition α] {t t' : α}
    (hname : Definition.name t = Definition.name t')
    (hguid : Definition.guid t = Definition.guid t') :
    (definitionFault? d.items t).map Rejection.anonymous =
      (definitionFault? d'.items t').map Rejection.anonymous := by
  unfold definitionFault?
  simp only [Option.map_or, hname, hguid]
  refine congrArg₂ Option.or rfl (congrArg₂ Option.or ?sameKind (congrArg₂ Option.or ?guid ?other))
  case sameKind =>
    exact h.map_describeFirst (q := fun i => i.kind = .definition (Definition.kind α) ∧
      i.typeName? = some (Definition.name t')) (by simp) fun _ _ => rfl
  case guid =>
    exact h.map_describeFirst (q := fun i => i.guid? = some (Definition.guid t')) (by simp)
      fun _ _ => rfl
  case other =>
    exact h.map_describeFirst (q := fun i => i.kind ≠ .definition (Definition.kind α) ∧
      i.typeName? = some (Definition.name t')) (by simp) fun _ _ => rfl

theorem instanceFault?_eq (h : d.Alike d') (kind : InstanceKind) (guid : String)
    (description description' : String) :
    (instanceFault? d.items kind guid description).map Rejection.anonymous =
      (instanceFault? d'.items kind guid description').map Rejection.anonymous := by
  unfold instanceFault?
  simp only [Option.map_or, ← Item.instanceGuid?_identity]
  refine congrArg₂ Option.or rfl (congrArg₂ Option.or ?sameInstance ?guid)
  case sameInstance =>
    exact h.map_describeFirst (q := fun i => i.instanceGuid? = some guid) (by simp)
      fun _ _ => rfl
  case guid =>
    exact h.map_describeFirst (q := fun i => i.guid? = some guid) (by simp) fun _ _ => rfl

/-- The same reason, but for descriptions, speaks against items with one identity. -/
theorem identityFault?_eq (h : d.Alike d') {x y : Item} (hxy : x.identity = y.identity) :
    (x.identityFault? d.items).map Rejection.anonymous =
      (y.identityFault? d'.items).map Rejection.anonymous := by
  have hname : x.typeName? = y.typeName? := congrArg ItemIdentity.typeName? hxy
  have hguid : x.guid? = y.guid? := congrArg ItemIdentity.guid? hxy
  have hattributes : x.attributeNames = y.attributeNames := congrArg ItemIdentity.attributeNames hxy
  cases x <;> cases y <;> try cases congrArg ItemIdentity.kind hxy
  case patch.patch => rfl
  case entity.entity e e' =>
    rw [Item.identityFault?, Option.some.inj hguid]
    exact h.instanceFault?_eq _ _ _ _
  case relationship.relationship r r' =>
    rw [Item.identityFault?, Option.some.inj hguid]
    exact h.instanceFault?_eq _ _ _ _
  case entityDef.entityDef | classificationDef.classificationDef =>
    simp only [Item.identityFault?, Option.map_or]
    exact congrArg₂ Option.or
      (h.definitionFault?_eq (Option.some.inj hname) (Option.some.inj hguid))
      (congrArg (Option.map _) (congrArg₂ attributeFault? (Option.some.inj hname) hattributes))
  all_goals exact h.definitionFault?_eq (Option.some.inj hname) (Option.some.inj hguid)

/-- Entity types are told apart by the names of theirs and of their attributes. -/
theorem exists_entityDef_iff (h : d.Alike d') (q : String → List String → Prop) :
    (∃ e, .entityDef e ∈ d.items ∧ q e.name (e.properties.map TypeDefAttribute.name)) ↔
      ∃ e, .entityDef e ∈ d'.items ∧ q e.name (e.properties.map TypeDefAttribute.name) := by
  let p : ItemIdentity → Prop := fun i => i.kind = .definition (.structuralType .entity) ∧
    ∃ name, i.typeName? = some name ∧ q name i.attributeNames
  have hidentity : ∀ items : List Item,
      (∃ e, .entityDef e ∈ items ∧ q e.name (e.properties.map TypeDefAttribute.name)) ↔
        ∃ x ∈ items, p x.identity := by
    intro items
    constructor
    · intro hex
      obtain ⟨e, he, hq⟩ := hex
      exact ⟨_, he, rfl, _, rfl, hq⟩
    · intro hex
      obtain ⟨x, hx, hkind, name, hname, hq⟩ := hex
      cases x <;> try cases hkind
      next e => exact ⟨e, hx, Option.some.inj hname ▸ hq⟩
  rw [hidentity, hidentity]
  exact h.exists_iff (q := p) nofun

theorem hasEntityType_iff (h : d.Alike d') (name : String) :
    d.archive.HasEntityType name ↔ d'.archive.HasEntityType name := by
  rw [hasEntityType_archive, hasEntityType_archive]
  exact h.exists_entityDef_iff fun n _ => n = name

theorem declares_iff (h : d.Alike d') (entityType attributeName : String) :
    d.archive.Declares entityType attributeName ↔
      d'.archive.Declares entityType attributeName := by
  rw [declares_archive, declares_archive]
  exact h.exists_entityDef_iff fun n names => n = entityType ∧ attributeName ∈ names

theorem introduces_iff (h : d.Alike d') (entityType attributeName : String) :
    d.archive.Introduces entityType attributeName ↔
      d'.archive.Introduces entityType attributeName := by
  rw [← h.left.mem_endpointAttributes_iff, ← h.right.mem_endpointAttributes_iff,
    h.endpointAttributes_eq]

theorem checkEnds_eq (h : d.Alike d') {t t' : RelationshipDef} (hname : t.name = t'.name)
    (hnames : t.properties.map TypeDefAttribute.name = t'.properties.map TypeDefAttribute.name)
    (hend1 : t.end1.names = t'.end1.names) (hend2 : t.end2.names = t'.end2.names) :
    d.checkEnds t = d'.checkEnds t' := by
  rw [h.left.checkEnds_eq_verdict, h.right.checkEnds_eq_verdict,
    TypeArchive.endsFault?_congr hname hnames hend1 hend2 h.hasEntityType_iff h.introduces_iff
      h.declares_iff]

theorem checkRest_eq (h : d.Alike d') {x y : Item} (hxy : x.identity = y.identity) :
    d.checkRest x = d'.checkRest y := by
  have hname : x.typeName? = y.typeName? := congrArg ItemIdentity.typeName? hxy
  have hattributes : x.attributeNames = y.attributeNames := congrArg ItemIdentity.attributeNames hxy
  have hends : x.ends = y.ends := congrArg ItemIdentity.ends hxy
  cases x <;> cases y <;> try cases congrArg ItemIdentity.kind hxy
  case relationshipDef.relationshipDef t t' =>
    obtain ⟨hend1, htail⟩ := List.cons.inj hends
    exact h.checkEnds_eq (Option.some.inj hname) hattributes hend1 (List.cons.inj htail).1
  all_goals rfl

/-- Items with one identity get the same verdict, but for descriptions. -/
theorem check_eq (h : d.Alike d') {x y : Item} (hxy : x.identity = y.identity) :
    (d.check x).mapError Rejection.anonymous = (d'.check y).mapError Rejection.anonymous := by
  have hfault := h.identityFault?_eq hxy
  rw [h.left.check_eq, h.right.check_eq, h.checkRest_eq hxy]
  cases hx : x.identityFault? d.items with
  | none =>
    rw [hx, Option.map_none, eq_comm, Option.map_eq_none_iff] at hfault
    rw [hfault]
  | some r =>
    rw [hx, Option.map_some, eq_comm, Option.map_eq_some_iff] at hfault
    obtain ⟨r', hr', hanonymous⟩ := hfault
    rw [hr']
    exact congrArg Except.error hanonymous.symm

end Alike

/-! ## Runs -/

theorem Coherent.tryAdd (h : d.Coherent) (item : Item) : (d.tryAdd item).Coherent := by
  cases hcheck : d.check item with
  | ok =>
    rw [tryAdd_of_check_eq_ok hcheck]
    exact h.take (h.check_eq_ok_iff.1 hcheck).1 (h.check_eq_ok_iff.1 hcheck).2
  | error r => rwa [tryAdd_of_check_eq_error hcheck]

theorem perm_identitiesOf_take (d : Draft) (item : Item) :
    (identitiesOf (d.take item).items).Perm (identitiesOf (item :: d.items)) :=
  ((perm_items_take d item).filter _).map _

namespace Alike

/-- Items with one identity are both taken or both turned away. -/
theorem tryAdd (h : d.Alike d') {x y : Item} (hxy : x.identity = y.identity) :
    (d.tryAdd x).Alike (d'.tryAdd y) where
  left := h.left.tryAdd x
  right := h.right.tryAdd y
  perm := by
    have hverdict := h.check_eq hxy
    cases hx : d.check x with
    | ok =>
      cases hy : d'.check y with
      | ok =>
        rw [tryAdd_of_check_eq_ok hx, tryAdd_of_check_eq_ok hy]
        have hkind : x.kind = y.kind := congrArg ItemIdentity.kind hxy
        have hcons : (identitiesOf (x :: d.items)).Perm (identitiesOf (y :: d'.items)) := by
          rw [identitiesOf_cons, identitiesOf_cons, hkind, hxy]
          split
          · exact h.perm
          · exact h.perm.cons _
        exact (perm_identitiesOf_take d x).trans (hcons.trans (perm_identitiesOf_take d' y).symm)
      | error r =>
        rw [hx, hy] at hverdict
        cases hverdict
    | error r =>
      cases hy : d'.check y with
      | ok =>
        rw [hx, hy] at hverdict
        cases hverdict
      | error r' =>
        rw [tryAdd_of_check_eq_error hx, tryAdd_of_check_eq_error hy]
        exact h.perm

/-- A patch changes nothing that counts. -/
theorem tryAdd_patch (h : d.Alike d') {x : Item} (hx : x.kind = .patch) :
    (d.tryAdd x).Alike d' where
  left := h.left.tryAdd x
  right := h.right
  perm := by
    have hcheck : d.check x = .ok () := by
      cases x with
      | patch p => rfl
      | _ => cases hx
    have htake := perm_identitiesOf_take d x
    rw [identitiesOf_cons, if_pos hx] at htake
    rw [tryAdd_of_check_eq_ok hcheck]
    exact htake.trans h.perm

theorem observation_eq (h : d.Alike d') {x y : Item} (hxy : x.identity = y.identity) :
    d.observation x = d'.observation y := by
  have hverdict : ∀ (d : Draft) (item : Item), (d.observation item).verdict =
      (d.check item).mapError Rejection.anonymous := by
    intro d item
    unfold observation
    rw [outcome_add]
    cases d.check item <;> rfl
  have hnext := h.tryAdd hxy
  refine Observation.ext ?_ hnext.endpointAttributes_eq hnext.typeCount_eq
  rw [hverdict, hverdict, h.check_eq hxy]

/-- What is seen of two runs from drafts alike is the same if call by call the identities are. -/
theorem observe_eq (h : d.Alike d') {calls calls' : List Item}
    (hcalls : calls.map Item.identity = calls'.map Item.identity) :
    d.observe calls = d'.observe calls' := by
  -- on the calls, one of each run at a time: the drafts after them are alike again
  induction calls generalizing d d' calls' with
  | nil =>
    rw [List.map_nil, eq_comm, List.map_eq_nil_iff] at hcalls
    rw [hcalls]
    rfl
  | cons x calls ih =>
    obtain ⟨y, calls', rfl, hxy, hrest⟩ := List.map_eq_cons_iff.1 hcalls.symm
    have hkind : y.kind = x.kind := congrArg ItemIdentity.kind hxy
    rw [observe, observe, ih (h.tryAdd hxy.symm) hrest.symm, h.observation_eq hxy.symm, hkind]

end Alike

/-- Patches are not seen. -/
theorem observe_filter (h : d.Coherent) (calls : List Item) :
    d.observe (calls.filter fun x => x.kind ≠ .patch) = d.observe calls := by
  induction calls generalizing d with
  | nil => rfl
  | cons x calls ih =>
    by_cases hkind : x.kind = .patch
    · have hskip : d.Alike (d.tryAdd x) := ((Alike.refl h).tryAdd_patch hkind).symm
      rw [List.filter_cons_of_neg (by simpa using hkind), observe, if_pos hkind, ← ih (h.tryAdd x)]
      exact hskip.observe_eq rfl
    · rw [List.filter_cons_of_pos (by simpa using hkind), observe, observe, if_neg hkind,
        if_neg hkind, ih (h.tryAdd x)]

/-- Two runs whose calls other than patches have the same identities, one by one, are seen alike:
each pair of calls gets the same verdict, and then the drafts have the same attributes introduced on
every entity type and the same number of definitions. -/
theorem observe_eq_of_identities (header header' : ArchiveProperties) {calls calls' : List Item}
    (h : identitiesOf calls = identitiesOf calls') :
    (empty header).observe calls = (empty header').observe calls' := by
  have halike : (empty header).Alike (empty header') :=
    ⟨coherent_empty header, coherent_empty header', by rw [items_empty, items_empty]⟩
  calc (empty header).observe calls
    _ = (empty header).observe (calls.filter fun x => x.kind ≠ .patch) :=
      (observe_filter (coherent_empty header) calls).symm
    _ = (empty header').observe (calls'.filter fun x => x.kind ≠ .patch) := halike.observe_eq h
    _ = (empty header').observe calls' := observe_filter (coherent_empty header') calls'

/-- The hosting calls with other versions, descriptions, super types and link GUIDs, and patches in
between. -/
def relabeledCalls : List Item :=
  let patch : Item := .patch ⟨"guid-host", "Host", 1, 2, "2.0", none, [.plain "services" "string"]⟩
  [patch, .entityDef { hostDef with version := 2, description := some "A machine" },
    .entityDef { serviceDef with superType := some ⟨"guid-host", "Host"⟩ }, patch,
    .relationshipDef { hostingDef "Hosting" "services" with
      end1 := .plain ⟨"guid-service", "Host"⟩ "host" },
    .relationshipDef { hostingDef "Addressing" "address" with propagationRule := .both }]

theorem observe_hostingCalls_eq_observe_relabeledCalls :
    identitiesOf hostingCalls = identitiesOf relabeledCalls ∧
      (empty epochHeader).observe hostingCalls =
        (empty (epochHeader.dependsOn "guid-archive")).observe relabeledCalls :=
  ⟨by decide, observe_eq_of_identities _ _ (by decide)⟩

end Draft

end MetadataArchive
