import MetadataArchive.Proofs.Draft.Endpoint
import MetadataArchive.Proofs.Draft.Items

/-!
# What one item does to a draft

Adding an item is a check, which reads the draft and either passes or gives the reason for turning
the item away, and then a change that does not look at anything. `Drafting.add_eq` says that this is
all that adding is, in this order: nothing is changed before everything is checked, and what is
changed then is changed as a whole. So an item that is turned away leaves the draft as it was,
whichever check it fails (`tryAdd_eq`), and what is said of the check and of the change is said of
the draft. A run adds one item after the other, and what every accepted item preserves holds after
every run.
-/

namespace MetadataArchive

namespace Traced

variable {α β : Type}

theorem outcome_bind (x : Traced α) (f : α → Traced β) :
    (x >>= f).outcome = x.outcome >>= fun a => (f a).outcome := by
  show (x.andThen f).outcome = _
  unfold andThen
  cases x.outcome <;> rfl

theorem outcome_map (f : α → β) (x : Traced α) : (f <$> x).outcome = x.outcome.map f := by
  show (x.andThen fun a => pure (f a)).outcome = _
  unfold andThen
  cases x.outcome <;> rfl

theorem outcome_log (e : Event) : (log e).outcome = pure () :=
  rfl

theorem outcome_ofExcept (x : Except Rejection α) : (ofExcept x).outcome = x :=
  rfl

theorem ofExcept_bind (x : Except Rejection α) (f : α → Except Rejection β) :
    ofExcept (x >>= f) = ofExcept x >>= fun a => ofExcept (f a) := by
  cases x <;> rfl

end Traced

/-- The event of an item that is about to be added. -/
def Item.adding : Item → Event
  | primitiveDef t => .adding t
  | collectionDef t => .adding t
  | enumDef t => .adding t
  | entityDef t => .adding t
  | classificationDef t => .adding t
  | relationshipDef t =>
    .addingRelationshipDef t.name t.guid t.end1.entityType.name t.end2.entityType.name
  | patch p => .addingPatch p.describe p.typeDefGuid
  | entity e => .addingInstance .entity e.guid e.instanceType.typeDefName
  | relationship r => .addingInstance .relationship r.guid r.instanceType.typeDefName

namespace Draft

/-! ## Checking and taking -/

/-- What is checked of a relationship type after its identity: that there are entity types at its
ends, that it introduces nothing there that they expose, and its own attributes. -/
def checkEnds (d : Draft) (t : RelationshipDef) : Except Rejection Unit := do
  let entity1 ← (d.findEntityDef t.end1.entityType.name).outcome
  let entity2 ← (d.findEntityDef t.end2.entityType.name).outcome
  d.endpoints.check t entity1 entity2
  checkAttributeNames t.name (t.properties.map TypeDefAttribute.name)

/-- What is checked of an item before it is taken. -/
def check (d : Draft) : Item → Except Rejection Unit
  | .primitiveDef t => d.primitiveDefs.checkDefinition d.identities t
  | .collectionDef t => d.collectionDefs.checkDefinition d.identities t
  | .enumDef t => d.enumDefs.checkDefinition d.identities t
  | .entityDef t => do
    d.entityDefs.checkDefinition d.identities t
    checkAttributeNames t.name (t.properties.map TypeDefAttribute.name)
  | .classificationDef t => do
    d.classificationDefs.checkDefinition d.identities t
    checkAttributeNames t.name (t.properties.map TypeDefAttribute.name)
  | .relationshipDef t => do
    d.relationshipDefs.checkDefinition d.identities t
    d.checkEnds t
  | .patch _ => .ok ()
  | .entity e => d.checkInstance .entity e.guid e.describe
  | .relationship r => d.checkInstance .relationship r.guid r.describe

/-- The draft with an item in it that has passed the check. -/
def take (d : Draft) : Item → Draft
  | .primitiveDef t => { d with
    identities := d.identities.withDefinition t
    primitiveDefs := d.primitiveDefs.pushDefinition t }
  | .collectionDef t => { d with
    identities := d.identities.withDefinition t
    collectionDefs := d.collectionDefs.pushDefinition t }
  | .enumDef t => { d with
    identities := d.identities.withDefinition t
    enumDefs := d.enumDefs.pushDefinition t }
  | .entityDef t => { d with
    identities := d.identities.withDefinition t
    entityDefs := d.entityDefs.pushDefinition t }
  | .classificationDef t => { d with
    identities := d.identities.withDefinition t
    classificationDefs := d.classificationDefs.pushDefinition t }
  | .relationshipDef t => { d with
    identities := d.identities.withDefinition t
    relationshipDefs := d.relationshipDefs.pushDefinition t
    endpoints := d.endpoints.claimAll t.claims }
  | .patch p => { d with patches := d.patches.push p }
  | .entity e => { d with
    identities := d.identities.recordInstance e.guid e.describe
    instanceOwners := d.instanceOwners.insert e.guid e.describe
    entities := d.entities.push e.guid e }
  | .relationship r => { d with
    identities := d.identities.recordInstance r.guid r.describe
    instanceOwners := d.instanceOwners.insert r.guid r.describe
    relationships := d.relationships.push r.guid r }

/-- What is read of a draft before an item is taken or turned away. The item is announced and
checked; all that is logged besides are the look-ups for the ends of a relationship type. -/
def inspect (d : Draft) (item : Item) : Traced Unit := do
  Traced.log item.adding
  match item with
  | .relationshipDef t =>
    Traced.ofExcept (d.relationshipDefs.checkDefinition d.identities t)
    let entity1 ← d.findEntityDef t.end1.entityType.name
    let entity2 ← d.findEntityDef t.end2.entityType.name
    Traced.ofExcept (d.endpoints.check t entity1 entity2)
    Traced.ofExcept (checkAttributeNames t.name (t.properties.map TypeDefAttribute.name))
  | item => Traced.ofExcept (d.check item)

theorem outcome_inspect (d : Draft) (item : Item) : (d.inspect item).outcome = d.check item := by
  cases item with
  | relationshipDef t =>
    simp only [inspect, check, checkEnds, Traced.outcome_bind, Traced.outcome_log,
      Traced.outcome_ofExcept, pure_bind]
  | _ => rfl

end Draft

/-- First the draft is read, and only then it is changed: no check comes after a change. -/
theorem Drafting.add_eq (item : Item) :
    Drafting.add item = reportingRejection
      (reading (fun d => d.inspect item) >>= fun _ => change fun d => d.take item) := by
  refine congrArg reportingRejection ?_
  -- the inspection falls apart into its reads, which are those of the call one by one; what is left
  -- of the call only changes the draft
  cases item <;>
    simp only [addPrimitiveDef, addCollectionDef, addEnumDef, addEntityDef, addClassificationDef,
      addRelationshipDef, addPatch, addEntity, addRelationship, commit, commitInstance, log,
      checking, Draft.inspect, Draft.check, Traced.ofExcept_bind, ← reading_bind, bind_assoc,
      change_bind] <;>
    rfl

namespace Draft

/-- An attempt to add an item changes the draft if the item passes the check, and else not. -/
theorem drafting_add_apply (d : Draft) (item : Item) :
    Drafting.add item d =
      (match d.check item with
        | .ok _ => d.take item
        | .error _ => d, (d.inspect item).reportingRejection) := by
  have hreading := Drafting.reading_bind_change (fun d => d.inspect item) (fun d => d.take item) d
  rw [outcome_inspect] at hreading
  rw [Drafting.add_eq]
  exact congrArg (fun x => (x.1, x.2.reportingRejection)) hreading

theorem tryAdd_eq (d : Draft) (item : Item) :
    d.tryAdd item =
      match d.check item with
      | .ok _ => d.take item
      | .error _ => d := by
  rw [tryAdd, drafting_add_apply]

theorem add_eq (d : Draft) (item : Item) :
    d.add item = (fun _ => d.tryAdd item) <$> (d.inspect item).reportingRejection := by
  rw [tryAdd, add, drafting_add_apply]

theorem tryAdd_of_check_eq_ok {d : Draft} {item : Item} (h : d.check item = .ok ()) :
    d.tryAdd item = d.take item := by
  rw [tryAdd_eq, h]

theorem tryAdd_of_check_eq_error {d : Draft} {item : Item} {r : Rejection}
    (h : d.check item = .error r) : d.tryAdd item = d := by
  rw [tryAdd_eq, h]

theorem tryAdd_of_check_ne_ok {d : Draft} {item : Item} (h : d.check item ≠ .ok ()) :
    d.tryAdd item = d := by
  cases hcheck : d.check item with
  | ok => exact absurd hcheck h
  | error r => exact tryAdd_of_check_eq_error hcheck

/-- An item is added by checking it and then taking it. -/
theorem outcome_add (d : Draft) (item : Item) :
    (d.add item).outcome = (d.check item).map fun _ => d.take item := by
  rw [add_eq, Traced.outcome_map, Traced.outcome_reportingRejection, outcome_inspect]
  cases h : d.check item with
  | ok => rw [tryAdd_of_check_eq_ok h]
  | error r => rfl

/-- What an attempt leaves behind is the draft with the item in it, or else the draft as it was. -/
theorem tryAdd_eq_valueD (d : Draft) (item : Item) : d.tryAdd item = (d.add item).valueD d := by
  rw [Traced.valueD, outcome_add]
  cases h : d.check item with
  | ok => exact tryAdd_of_check_eq_ok h
  | error r => exact tryAdd_of_check_eq_error h

theorem outcome_map_add (d : Draft) (item : Item) :
    ((d.add item).outcome.map fun _ => ()) = d.check item := by
  rw [outcome_add]
  cases d.check item <;> rfl

theorem outcome_add_eq_ok_iff {d d' : Draft} {item : Item} :
    (d.add item).outcome = .ok d' ↔ d.check item = .ok () ∧ d.take item = d' := by
  rw [outcome_add]
  cases d.check item <;> simp [Except.map]

theorem outcome_add_eq_error_iff {d : Draft} {item : Item} {r : Rejection} :
    (d.add item).outcome = .error r ↔ d.check item = .error r := by
  rw [outcome_add]
  cases d.check item <;> simp [Except.map]

theorem exists_outcome_add_eq_ok_iff {d : Draft} {item : Item} :
    (∃ d', (d.add item).outcome = .ok d') ↔ d.check item = .ok () := by
  simp [outcome_add_eq_ok_iff]

/-- Adding all items of a list, each to the draft that the ones before it made, as long as none is
turned away. -/
def addAll (d : Draft) (items : List Item) : Except Rejection Draft :=
  items.foldlM (fun d item => (d.add item).outcome) d

/-- The draft after a run: attempts to add items one after the other to a new draft. All else that
is asked of a draft leaves it as it is. -/
def run (header : ArchiveProperties) (calls : List Item) : Draft :=
  calls.foldl tryAdd (empty header)

theorem run_append (header : ArchiveProperties) (earlier later : List Item) :
    run header (earlier ++ later) = later.foldl tryAdd (run header earlier) :=
  List.foldl_append

/-- What holds of a new draft and is preserved by every item that passes the check holds after every
run. -/
theorem run_induction {P : Draft → Prop} {header : ArchiveProperties} (hempty : P (empty header))
    (htake : ∀ d item, P d → d.check item = .ok () → P (d.take item)) (calls : List Item) :
    P (run header calls) := by
  have hfold : ∀ d, P d → P (calls.foldl tryAdd d) := by
    induction calls with
    | nil => exact fun d h => h
    | cons item calls ih =>
      intro d h
      apply ih
      -- an item that is turned away changes nothing
      cases hcheck : d.check item with
      | ok =>
        rw [tryAdd_of_check_eq_ok hcheck]
        exact htake d item h hcheck
      | error r =>
        rw [tryAdd_of_check_eq_error hcheck]
        exact h
  exact hfold _ hempty

/-! ## What taking an item changes -/

@[simp]
theorem header_take (d : Draft) (item : Item) : (d.take item).header = d.header := by
  cases item <;> rfl

theorem itemsOf_take (d : Draft) (item : Item) (k : ItemKind) :
    (d.take item).itemsOf k = if item.kind = k then d.itemsOf k ++ [item] else d.itemsOf k := by
  match k with
  | .definition (.attributeType category) =>
    cases category <;> cases item <;> simp [take, itemsOf, Item.kind, KeyedTable.pushDefinition]
  | .definition (.structuralType category) =>
    cases category <;> cases item <;> simp [take, itemsOf, Item.kind, KeyedTable.pushDefinition]
  | .patch => cases item <;> simp [take, itemsOf, Item.kind]
  | .instanceOf kind => cases kind <;> cases item <;> simp [take, itemsOf, Item.kind]

theorem perm_flatMap_itemsOf_take (d : Draft) {item : Item} {ks : List ItemKind} (hnd : ks.Nodup)
    (hmem : item.kind ∈ ks) :
    (ks.flatMap (d.take item).itemsOf).Perm (item :: ks.flatMap d.itemsOf) := by
  induction ks with
  | nil => cases hmem
  | cons k ks ih =>
    obtain ⟨hnot, hnd⟩ := List.nodup_cons.1 hnd
    rw [List.flatMap_cons, List.flatMap_cons, itemsOf_take]
    by_cases hk : item.kind = k
    · -- the item is put here, and the items of the other kinds stay as they are
      subst hk
      have hrest : ks.flatMap (d.take item).itemsOf = ks.flatMap d.itemsOf := by
        refine List.flatMap_congr fun k' hk' => ?_
        have hne : item.kind ≠ k' := fun heq => hnot (heq ▸ hk')
        rw [itemsOf_take, if_neg hne]
      rw [if_pos rfl, hrest, List.append_assoc]
      exact List.perm_middle
    · have hmem : item.kind ∈ ks := (List.mem_cons.1 hmem).resolve_left hk
      rw [if_neg hk]
      exact ((ih hnd hmem).append_left _).trans List.perm_middle

/-- Wherever among its kind an item is put, up to order it is one more item. -/
theorem perm_items_take (d : Draft) (item : Item) :
    (d.take item).items.Perm (item :: d.items) :=
  d.perm_flatMap_itemsOf_take ItemKind.nodup_loadOrder item.kind.mem_loadOrder

theorem mem_items_take {d : Draft} {item x : Item} :
    x ∈ (d.take item).items ↔ x = item ∨ x ∈ d.items := by
  rw [(perm_items_take d item).mem_iff, List.mem_cons]

theorem guidOwners_take (d : Draft) (item : Item) (guid : String) :
    (d.take item).identities.guidOwners.get? guid =
      if item.guid? = some guid then some item.describe
      else d.identities.guidOwners.get? guid := by
  cases item <;> simp [take, Item.guid?, Item.describe, IdentityIndex.withDefinition,
    IdentityIndex.recordDefinition, IdentityIndex.recordInstance, StringMap.get?_insert,
    Definition.guid, @eq_comm _ guid]

theorem nameOwners_take (d : Draft) (item : Item) (name : String) :
    (d.take item).identities.nameOwners.get? name =
      if item.typeName? = some name then some item.describe
      else d.identities.nameOwners.get? name := by
  cases item <;> simp [take, Item.typeName?, Item.describe, IdentityIndex.withDefinition,
    IdentityIndex.recordDefinition, IdentityIndex.recordInstance, StringMap.get?_insert,
    Definition.name, @eq_comm _ name]

theorem instanceOwners_take (d : Draft) (item : Item) (guid : String) :
    (d.take item).instanceOwners.get? guid =
      if item.instanceGuid? = some guid then some item.describe
      else d.instanceOwners.get? guid := by
  cases item <;> simp [take, Item.instanceGuid?, Item.describe, StringMap.get?_insert,
    @eq_comm _ guid]

theorem contains_endpoints_take (d : Draft) (item : Item) (entityType attributeName : String) :
    (d.take item).endpoints.contains entityType attributeName = true ↔
      attributeName ∈ item.introducedOn entityType ∨
        d.endpoints.contains entityType attributeName = true := by
  cases item with
  | relationshipDef t =>
    show (d.endpoints.claimAll t.claims).contains entityType attributeName = true ↔
      attributeName ∈ t.introducedOn entityType ∨ _
    rw [EndpointMap.contains_claimAll, RelationshipDef.mem_introducedOn]
  | _ => simp [take, Item.introducedOn]

end Draft

end MetadataArchive
