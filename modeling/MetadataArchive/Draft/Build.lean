import MetadataArchive.Draft.Basic

/-!
# From a draft to an archive

The archive of a draft lists its items by kind, and within a kind in the order in which they were
taken: attribute types before structural types, entity types before classification types before
relationship types. Empty lists and stores are left out.
-/

namespace MetadataArchive.Draft

/-- The attribute types of a draft, by kind. -/
def attributeTypeDefs (d : Draft) : List AttributeTypeDef :=
  d.primitiveDefs.toList.map .primitive ++ d.collectionDefs.toList.map .collection ++
    d.enumDefs.toList.map .enum

/-- The structural types of a draft, by kind. -/
def newTypeDefs (d : Draft) : List TypeDef :=
  d.entityDefs.toList.map .entity ++ d.classificationDefs.toList.map .classification ++
    d.relationshipDefs.toList.map .relationship

/-- A list, unless it is empty. -/
def nonempty? {α : Type} : List α → Option (List α)
  | [] => none
  | as => some as

/-- The types of a draft, with patches, unless there are none. -/
def typeStore (d : Draft) : Option ArchiveTypeStore :=
  match nonempty? d.attributeTypeDefs, nonempty? d.newTypeDefs, nonempty? d.patches.toList with
  | none, none, none => none
  | attributeTypeDefs, newTypeDefs, patches => some ⟨attributeTypeDefs, newTypeDefs, patches⟩

/-- The instances of a draft, unless there are none. -/
def instanceStore (d : Draft) : Option ArchiveInstanceStore :=
  match nonempty? d.entities.toList, nonempty? d.relationships.toList with
  | none, none => none
  | entities, relationships => some ⟨entities, relationships⟩

/-- The archive of a draft. -/
def archive (d : Draft) : TypeArchive :=
  ⟨d.header, d.typeStore, d.instanceStore⟩

/-- The event of an archive that is built. -/
def buildEvent (d : Draft) : Event :=
  .building d.header.name d.attributeTypeDefs.length d.newTypeDefs.length d.patches.size
    d.entities.size d.relationships.size d.identities.guidCount

/-- Builds the archive of a draft. -/
def build (d : Draft) : Traced TypeArchive := do
  Traced.log d.buildEvent
  return d.archive

end MetadataArchive.Draft
