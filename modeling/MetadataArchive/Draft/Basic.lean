import MetadataArchive.Draft.Endpoint
import MetadataArchive.Draft.Identity
import MetadataArchive.Draft.Name
import MetadataArchive.Draft.Table
import MetadataArchive.Draft.Traced
import MetadataArchive.Model.Archive

/-!
# Drafts

A `Draft` is an archive in the making: a header and the items taken so far, in tables by kind, with
indices over the identities in use. Items are found by name or, for instances, by GUID.
-/

namespace MetadataArchive

/-- An archive in the making. -/
structure Draft where
  header : ArchiveProperties
  identities : IdentityIndex
  primitiveDefs : KeyedTable PrimitiveDef
  collectionDefs : KeyedTable CollectionDef
  enumDefs : KeyedTable EnumDef
  entityDefs : KeyedTable EntityDef
  classificationDefs : KeyedTable ClassificationDef
  relationshipDefs : KeyedTable RelationshipDef
  endpoints : EndpointMap
  patches : Array TypeDefPatch
  entities : KeyedTable EntityDetail
  relationships : KeyedTable Relationship
  /-- The descriptions of the instances by their GUIDs. -/
  instanceOwners : StringMap String

namespace Draft

/-- A draft without items. -/
def empty (header : ArchiveProperties) : Draft where
  header
  identities := .empty
  primitiveDefs := .empty
  collectionDefs := .empty
  enumDefs := .empty
  entityDefs := .empty
  classificationDefs := .empty
  relationshipDefs := .empty
  endpoints := .empty
  patches := #[]
  entities := .empty
  relationships := .empty
  instanceOwners := .empty

/-- Starts a draft. -/
def create (header : ArchiveProperties) : Traced Draft := do
  Traced.log (.creating header.name header.guid)
  return .empty header

/-! ## Looking up -/

/-- Finds a definition by its name. -/
def findDefinition {α : Type} [Definition α] (table : KeyedTable α) (name : String) : Traced α := do
  let kind := Definition.kind α
  Traced.log (.retrievingDefinition kind name)
  Traced.ofExcept (checkKey (.definition kind) name)
  match table.get? name with
  | some d => return d
  | none => Traced.ofExcept (.error (.unknownType kind name))

/-- Finds an instance by its GUID. -/
def findInstance {α : Type} (kind : InstanceKind) (table : KeyedTable α) (guid : String) :
    Traced α := do
  Traced.log (.retrievingInstance kind guid)
  Traced.ofExcept (checkKey (.instanceOf kind) guid)
  match table.get? guid with
  | some x => return x
  | none => Traced.ofExcept (.error (.unknownInstance kind guid))

/-- Finds a primitive type by its name. -/
def findPrimitiveDef (d : Draft) : String → Traced PrimitiveDef :=
  findDefinition d.primitiveDefs

/-- Finds a collection type by its name. -/
def findCollectionDef (d : Draft) : String → Traced CollectionDef :=
  findDefinition d.collectionDefs

/-- Finds an enumeration by its name. -/
def findEnumDef (d : Draft) : String → Traced EnumDef :=
  findDefinition d.enumDefs

/-- Finds an entity type by its name. -/
def findEntityDef (d : Draft) : String → Traced EntityDef :=
  findDefinition d.entityDefs

/-- Finds a classification type by its name. -/
def findClassificationDef (d : Draft) : String → Traced ClassificationDef :=
  findDefinition d.classificationDefs

/-- Finds a relationship type by its name. -/
def findRelationshipDef (d : Draft) : String → Traced RelationshipDef :=
  findDefinition d.relationshipDefs

/-- Finds an entity by its GUID. -/
def findEntity (d : Draft) : String → Traced EntityDetail :=
  findInstance .entity d.entities

/-- Finds a relationship by its GUID. -/
def findRelationship (d : Draft) : String → Traced Relationship :=
  findInstance .relationship d.relationships

/-- The attributes that relationship types introduce on an entity type, in ascending order. -/
def endpointAttributes (d : Draft) (entityType : String) : List String :=
  d.endpoints.attributesOf entityType

/-- How many definitions there are. -/
def typeCount (d : Draft) : Nat :=
  d.primitiveDefs.size + d.collectionDefs.size + d.enumDefs.size +
    (d.entityDefs.size + d.classificationDefs.size + d.relationshipDefs.size)

end Draft

end MetadataArchive
