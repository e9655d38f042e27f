import MetadataArchive.Wire.Archive

/-!
# Records and kinds of definitions

The types whose JSON form is a record, and the definitions in the lists of an archive, which are
records of six of these types with the tag of their kind. What holds of the definitions of each kind
holds of every definition in either list.
-/

namespace MetadataArchive

open Codec

/-! ## Record types -/

/-- The types whose JSON form is a record. -/
inductive RecordType where
  | typeDefLink
  | primitiveDef
  | collectionDef
  | enumElementDef
  | enumDef
  | typeDefAttribute
  | entityDef
  | classificationDef
  | relationshipEndDef
  | relationshipDef
  | typeDefPatch
  | instanceType
  | classification
  | entityDetail
  | entityProxy
  | relationship
  | archiveProperties
  | archiveTypeStore
  | archiveInstanceStore
  | typeArchive

namespace RecordType

/-- The values of a record type. -/
def Value : RecordType → Type
  | typeDefLink => TypeDefLink
  | primitiveDef => PrimitiveDef
  | collectionDef => CollectionDef
  | enumElementDef => EnumElementDef
  | enumDef => EnumDef
  | typeDefAttribute => TypeDefAttribute
  | entityDef => EntityDef
  | classificationDef => ClassificationDef
  | relationshipEndDef => RelationshipEndDef
  | relationshipDef => RelationshipDef
  | typeDefPatch => TypeDefPatch
  | instanceType => InstanceType
  | classification => Classification
  | entityDetail => EntityDetail
  | entityProxy => EntityProxy
  | relationship => Relationship
  | archiveProperties => ArchiveProperties
  | archiveTypeStore => ArchiveTypeStore
  | archiveInstanceStore => ArchiveInstanceStore
  | typeArchive => TypeArchive

/-- The fields of a record type. -/
def record : (T : RecordType) → Record T.Value
  | typeDefLink => TypeDefLink.record
  | primitiveDef => PrimitiveDef.record
  | collectionDef => CollectionDef.record
  | enumElementDef => EnumElementDef.record
  | enumDef => EnumDef.record
  | typeDefAttribute => TypeDefAttribute.record
  | entityDef => EntityDef.record
  | classificationDef => ClassificationDef.record
  | relationshipEndDef => RelationshipEndDef.record
  | relationshipDef => RelationshipDef.record
  | typeDefPatch => TypeDefPatch.record
  | instanceType => InstanceType.record
  | classification => Classification.record
  | entityDetail => EntityDetail.record
  | entityProxy => EntityProxy.record
  | relationship => Relationship.record
  | archiveProperties => ArchiveProperties.record
  | archiveTypeStore => ArchiveTypeStore.record
  | archiveInstanceStore => ArchiveInstanceStore.record
  | typeArchive => TypeArchive.record

/-- The codec of a record type. -/
def codec (T : RecordType) : Codec T.Value :=
  T.record.codec

end RecordType

/-! ## Lists of definitions -/

/-- The lists of definitions in an archive. -/
inductive DefinitionList where
  | attributeTypes
  | structuralTypes

namespace DefinitionList

/-- The definitions in a list. -/
def Entry : DefinitionList → Type
  | attributeTypes => AttributeTypeDef
  | structuralTypes => TypeDef

/-- The codec of the definitions in a list. -/
def codec : (l : DefinitionList) → Codec l.Entry
  | attributeTypes => AttributeTypeDef.codec
  | structuralTypes => TypeDef.codec

/-- Reads a definition of a list by its tag. -/
def readKind : (l : DefinitionList) → String → Place → Json → Option l.Entry
  | attributeTypes => AttributeTypeDef.readKind
  | structuralTypes => TypeDef.readKind

/-- The tag and the members written for a definition of a list. -/
def writeKind : (l : DefinitionList) → l.Entry → String × List Json.Member
  | attributeTypes => fun d => (d.category.tag, d.members)
  | structuralTypes => fun d => (d.category.tag, d.members)

theorem codec_eq_categorized (l : DefinitionList) :
    l.codec = categorized categoryKey l.readKind l.writeKind := by
  cases l <;> rfl

end DefinitionList

/-! ## Kinds of definitions -/

namespace TypeKind

/-- The list in which the definitions of a kind stand. -/
def list : TypeKind → DefinitionList
  | attributeType _ => .attributeTypes
  | structuralType _ => .structuralTypes

/-- The tag of a kind. -/
def tag : TypeKind → String
  | attributeType category => category.tag
  | structuralType category => category.tag

/-- The record type of the definitions of a kind. -/
def recordType : TypeKind → RecordType
  | attributeType .primitive => .primitiveDef
  | attributeType .collection => .collectionDef
  | attributeType .enum => .enumDef
  | structuralType .entity => .entityDef
  | structuralType .classification => .classificationDef
  | structuralType .relationship => .relationshipDef

/-- A definition as an element of its list. -/
def entry : (k : TypeKind) → k.recordType.Value → k.list.Entry
  | attributeType .primitive => AttributeTypeDef.primitive
  | attributeType .collection => AttributeTypeDef.collection
  | attributeType .enum => AttributeTypeDef.enum
  | structuralType .entity => TypeDef.entity
  | structuralType .classification => TypeDef.classification
  | structuralType .relationship => TypeDef.relationship

/-- What is written for a definition is its record, with the tag of its kind. -/
theorem writeKind_entry (k : TypeKind) (v : k.recordType.Value) :
    k.list.writeKind (k.entry v) = (k.tag, k.recordType.record.members v) := by
  cases k with
  | attributeType category | structuralType category => cases category <;> rfl

/-- Each tag selects its own kind. -/
theorem readKind_tag (k : TypeKind) (p : Place) (j : Json) :
    k.list.readKind k.tag p j = (k.recordType.codec.read p j).map k.entry := by
  cases k with
  | attributeType category | structuralType category => cases category <;> rfl

/-- The tag is not the key of a field. -/
theorem categoryKey_not_mem (k : TypeKind) : categoryKey ∉ k.recordType.record.fields.keys := by
  cases k with
  | attributeType category | structuralType category => cases category <;> decide

end TypeKind

/-- What holds of the definitions of each kind holds of all definitions in a list. -/
@[elab_as_elim]
theorem DefinitionList.entryCases {motive : (l : DefinitionList) → l.Entry → Prop}
    (entry : ∀ (k : TypeKind) (v : k.recordType.Value), motive k.list (k.entry v)) :
    ∀ (l : DefinitionList) (d : l.Entry), motive l d
  | attributeTypes, .primitive d => entry (.attributeType .primitive) d
  | attributeTypes, .collection d => entry (.attributeType .collection) d
  | attributeTypes, .enum d => entry (.attributeType .enum) d
  | structuralTypes, .entity d => entry (.structuralType .entity) d
  | structuralTypes, .classification d => entry (.structuralType .classification) d
  | structuralTypes, .relationship d => entry (.structuralType .relationship) d

end MetadataArchive
