import MetadataArchive.Draft.Drafting

/-!
# Taking items

`Drafting.add` takes one item into a draft, or turns it away. Identities are checked first: the name
of a definition, then its kind's table, then the GUIDs in use, then the names in use. The attributes
of a definition come last, after what a relationship type introduces at its ends. Patches concern
types defined elsewhere and are always taken. What is taken is recorded in the indices before it is
put into its table. Nothing undoes such a record: an item that is turned away leaves no trace because
it is checked before anything is recorded.
-/

namespace MetadataArchive

/-- What an archive is made of. -/
inductive Item where
  | primitiveDef (d : PrimitiveDef)
  | collectionDef (d : CollectionDef)
  | enumDef (d : EnumDef)
  | entityDef (d : EntityDef)
  | classificationDef (d : ClassificationDef)
  | relationshipDef (d : RelationshipDef)
  | patch (p : TypeDefPatch)
  | entity (e : EntityDetail)
  | relationship (r : Relationship)

/-- Turns a definition away whose name or GUID it may not have. -/
def KeyedTable.checkDefinition {α : Type} [Definition α] (table : KeyedTable α)
    (identities : IdentityIndex) (d : α) : Except Rejection Unit := do
  let name := Definition.name d
  checkTypeName name
  match table.get? name with
  | some existing =>
    .error (.duplicateName (Definition.kind α) name (Definition.describe existing)
      (Definition.describe d))
  | none =>
    identities.checkGuid (Definition.guid d) (Definition.describe d)
    identities.checkName name (Definition.describe d)

/-- The table with one more definition, under its name. -/
def KeyedTable.pushDefinition {α : Type} [Definition α] (table : KeyedTable α) (d : α) :
    KeyedTable α :=
  table.push (Definition.name d) d

/-- The index with the identity of a definition taken. -/
def IdentityIndex.withDefinition {α : Type} [Definition α] (x : IdentityIndex) (d : α) :
    IdentityIndex :=
  x.recordDefinition (Definition.guid d) (Definition.name d) (Definition.describe d)

/-- The event of a definition that is about to be added. -/
def Event.adding {α : Type} [Definition α] (d : α) : Event :=
  .addingDefinition (Definition.kind α) (Definition.name d) (Definition.guid d)

namespace Draft

/-- Turns an instance away whose GUID it may not have. -/
def checkInstance (d : Draft) (kind : InstanceKind) (guid description : String) :
    Except Rejection Unit := do
  checkKey (.instanceOf kind) guid
  match d.instanceOwners.get? guid with
  | some existing => .error (.duplicateInstance kind guid existing description)
  | none => d.identities.checkGuid guid description

end Draft

namespace Drafting

/-- Records the identity of a definition and puts the definition into its table. -/
def commit {α : Type} [Definition α] (t : α) (put : Draft → Draft) : Drafting Unit := do
  change fun d => { d with identities := d.identities.withDefinition t }
  change put

/-- Records the GUID of an instance and puts the instance into its table. -/
def commitInstance (guid description : String) (put : Draft → Draft) : Drafting Unit := do
  change fun d => { d with instanceOwners := d.instanceOwners.insert guid description }
  change fun d => { d with identities := d.identities.recordInstance guid description }
  change put

/-- Takes a primitive type. -/
def addPrimitiveDef (t : PrimitiveDef) : Drafting Unit := do
  log (.adding t)
  checking fun d => d.primitiveDefs.checkDefinition d.identities t
  commit t fun d => { d with primitiveDefs := d.primitiveDefs.pushDefinition t }

/-- Takes a collection type. -/
def addCollectionDef (t : CollectionDef) : Drafting Unit := do
  log (.adding t)
  checking fun d => d.collectionDefs.checkDefinition d.identities t
  commit t fun d => { d with collectionDefs := d.collectionDefs.pushDefinition t }

/-- Takes an enumeration. -/
def addEnumDef (t : EnumDef) : Drafting Unit := do
  log (.adding t)
  checking fun d => d.enumDefs.checkDefinition d.identities t
  commit t fun d => { d with enumDefs := d.enumDefs.pushDefinition t }

/-- Takes an entity type. -/
def addEntityDef (t : EntityDef) : Drafting Unit := do
  log (.adding t)
  checking fun d => d.entityDefs.checkDefinition d.identities t
  checking fun _ => checkAttributeNames t.name (t.properties.map TypeDefAttribute.name)
  commit t fun d => { d with entityDefs := d.entityDefs.pushDefinition t }

/-- Takes a classification type. -/
def addClassificationDef (t : ClassificationDef) : Drafting Unit := do
  log (.adding t)
  checking fun d => d.classificationDefs.checkDefinition d.identities t
  checking fun _ => checkAttributeNames t.name (t.properties.map TypeDefAttribute.name)
  commit t fun d => { d with classificationDefs := d.classificationDefs.pushDefinition t }

/-- Takes a relationship type, and with it the attributes that it introduces at its ends. -/
def addRelationshipDef (t : RelationshipDef) : Drafting Unit := do
  log (.addingRelationshipDef t.name t.guid t.end1.entityType.name t.end2.entityType.name)
  checking fun d => d.relationshipDefs.checkDefinition d.identities t
  let entity1 ← reading fun d => d.findEntityDef t.end1.entityType.name
  let entity2 ← reading fun d => d.findEntityDef t.end2.entityType.name
  checking fun d => d.endpoints.check t entity1 entity2
  checking fun _ => checkAttributeNames t.name (t.properties.map TypeDefAttribute.name)
  commit t fun d => { d with relationshipDefs := d.relationshipDefs.pushDefinition t }
  change fun d => { d with endpoints := d.endpoints.claimAll t.claims }

/-- Takes a patch. -/
def addPatch (p : TypeDefPatch) : Drafting Unit := do
  log (.addingPatch p.describe p.typeDefGuid)
  change fun d => { d with patches := d.patches.push p }

/-- Takes an entity. -/
def addEntity (e : EntityDetail) : Drafting Unit := do
  log (.addingInstance .entity e.guid e.instanceType.typeDefName)
  checking fun d => d.checkInstance .entity e.guid e.describe
  commitInstance e.guid e.describe fun d => { d with entities := d.entities.push e.guid e }

/-- Takes a relationship. -/
def addRelationship (r : Relationship) : Drafting Unit := do
  log (.addingInstance .relationship r.guid r.instanceType.typeDefName)
  checking fun d => d.checkInstance .relationship r.guid r.describe
  commitInstance r.guid r.describe fun d =>
    { d with relationships := d.relationships.push r.guid r }

/-- Takes an item, or turns it away and logs why. -/
def add (item : Item) : Drafting Unit :=
  reportingRejection <|
    match item with
    | .primitiveDef t => addPrimitiveDef t
    | .collectionDef t => addCollectionDef t
    | .enumDef t => addEnumDef t
    | .entityDef t => addEntityDef t
    | .classificationDef t => addClassificationDef t
    | .relationshipDef t => addRelationshipDef t
    | .patch p => addPatch p
    | .entity e => addEntity e
    | .relationship r => addRelationship r

end Drafting

namespace Draft

/-- The draft with an item in it, or why the item is turned away. -/
def add (d : Draft) (item : Item) : Traced Draft :=
  let (d, x) := Drafting.add item d
  (fun _ => d) <$> x

/-- The draft that an attempt to add an item leaves behind, whether or not the item is taken. -/
def tryAdd (d : Draft) (item : Item) : Draft :=
  (Drafting.add item d).1

end Draft

end MetadataArchive
