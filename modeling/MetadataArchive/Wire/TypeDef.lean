import MetadataArchive.Model.TypeDef
import MetadataArchive.Wire.Definition

/-!
# The JSON form of structural types
-/

namespace MetadataArchive

namespace AttributeCardinality

/-- The written name of a cardinality. -/
def tag : AttributeCardinality → String
  | atMostOne => "AT_MOST_ONE"
  | exactlyOne => "EXACTLY_ONE"
  | anyNumberUnordered => "ANY_NUMBER_UNORDERED"
  | anyNumberOrdered => "ANY_NUMBER_ORDERED"
  | atLeastOneUnordered => "AT_LEAST_ONE_UNORDERED"
  | atLeastOneOrdered => "AT_LEAST_ONE_ORDERED"

/-- The cardinalities of attributes, by their written names. -/
def codec : Codec AttributeCardinality :=
  .choice [atMostOne, exactlyOne, anyNumberUnordered, anyNumberOrdered, atLeastOneUnordered,
    atLeastOneOrdered] tag

end AttributeCardinality

namespace RelationshipEndCardinality

/-- The written name of the cardinality of an end. -/
def tag : RelationshipEndCardinality → String
  | atMostOne => "AT_MOST_ONE"
  | anyNumber => "ANY_NUMBER"

/-- The cardinalities of ends, by their written names. -/
def codec : Codec RelationshipEndCardinality :=
  .choice [atMostOne, anyNumber] tag

end RelationshipEndCardinality

namespace PropagationRule

/-- The written name of a propagation rule. -/
def tag : PropagationRule → String
  | none => "NONE"
  | oneToTwo => "ONE_TO_TWO"
  | twoToOne => "TWO_TO_ONE"
  | both => "BOTH"

/-- The propagation rules, by their written names. -/
def codec : Codec PropagationRule :=
  .choice [none, oneToTwo, twoToOne, both] tag

end PropagationRule

namespace TypeDefAttribute

/-- Attributes, by their fields. -/
def record : Record TypeDefAttribute where
  fields :=
    .cons (.required "attributeName" .string) <|
    .cons (.required "attributeType" .string) <|
    .cons (.optional "attributeDescription" .string) <|
    .cons (.defaulted "cardinality" AttributeCardinality.codec .default) <|
    .cons (.defaulted "unique" .bool false) .nil
  ofValues := fun (name, type, description, cardinality, isUnique, ()) =>
    ⟨name, type, description, cardinality, isUnique⟩
  values a := (a.name, a.type, a.description, a.cardinality, a.isUnique, ())

/-- The codec of attributes. -/
def codec : Codec TypeDefAttribute :=
  record.codec

end TypeDefAttribute

namespace EntityDef

/-- Entity types, by their fields. -/
def record : Record EntityDef where
  fields :=
    .cons (.required "guid" .string) <|
    .cons (.required "name" .string) <|
    .cons (.required "version" .uint64) <|
    .cons (.required "versionName" .string) <|
    .cons (.optional "description" .string) <|
    .cons (.optional "superType" TypeDefLink.codec) <|
    .cons (.defaulted "propertiesDefinition" (.list TypeDefAttribute.codec) []) .nil
  ofValues := fun (guid, name, version, versionName, description, superType, properties, ()) =>
    ⟨guid, name, version, versionName, description, superType, properties⟩
  values d :=
    (d.guid, d.name, d.version, d.versionName, d.description, d.superType, d.properties, ())

/-- The codec of entity types. -/
def codec : Codec EntityDef :=
  record.codec

end EntityDef

namespace ClassificationDef

/-- Classification types, by their fields. -/
def record : Record ClassificationDef where
  fields :=
    .cons (.required "guid" .string) <|
    .cons (.required "name" .string) <|
    .cons (.required "version" .uint64) <|
    .cons (.required "versionName" .string) <|
    .cons (.optional "description" .string) <|
    .cons (.optional "superType" TypeDefLink.codec) <|
    .cons (.defaulted "propertiesDefinition" (.list TypeDefAttribute.codec) []) <|
    .cons (.defaulted "validEntityDefs" (.list TypeDefLink.codec) []) <|
    .cons (.defaulted "propagatable" .bool false) .nil
  ofValues := fun (guid, name, version, versionName, description, superType, properties,
      validEntityDefs, propagatable, ()) =>
    ⟨guid, name, version, versionName, description, superType, properties, validEntityDefs,
      propagatable⟩
  values d :=
    (d.guid, d.name, d.version, d.versionName, d.description, d.superType, d.properties,
      d.validEntityDefs, d.propagatable, ())

/-- The codec of classification types. -/
def codec : Codec ClassificationDef :=
  record.codec

end ClassificationDef

namespace RelationshipEndDef

/-- Ends of relationship types, by their fields. -/
def record : Record RelationshipEndDef where
  fields :=
    .cons (.required "entityType" TypeDefLink.codec) <|
    .cons (.required "attributeName" .string) <|
    .cons (.optional "attributeDescription" .string) <|
    .cons (.defaulted "attributeCardinality" RelationshipEndCardinality.codec .default) .nil
  ofValues := fun (entityType, attributeName, attributeDescription, cardinality, ()) =>
    ⟨entityType, attributeName, attributeDescription, cardinality⟩
  values e := (e.entityType, e.attributeName, e.attributeDescription, e.cardinality, ())

/-- The codec of ends of relationship types. -/
def codec : Codec RelationshipEndDef :=
  record.codec

end RelationshipEndDef

namespace RelationshipDef

/-- Relationship types, by their fields. -/
def record : Record RelationshipDef where
  fields :=
    .cons (.required "guid" .string) <|
    .cons (.required "name" .string) <|
    .cons (.required "version" .uint64) <|
    .cons (.required "versionName" .string) <|
    .cons (.optional "description" .string) <|
    .cons (.defaulted "propertiesDefinition" (.list TypeDefAttribute.codec) []) <|
    .cons (.required "endDef1" RelationshipEndDef.codec) <|
    .cons (.required "endDef2" RelationshipEndDef.codec) <|
    .cons (.defaulted "propagationRule" PropagationRule.codec .default) .nil
  ofValues := fun (guid, name, version, versionName, description, properties, end1, end2,
      propagationRule, ()) =>
    ⟨guid, name, version, versionName, description, properties, end1, end2, propagationRule⟩
  values d :=
    (d.guid, d.name, d.version, d.versionName, d.description, d.properties, d.end1, d.end2,
      d.propagationRule, ())

/-- The codec of relationship types. -/
def codec : Codec RelationshipDef :=
  record.codec

end RelationshipDef

namespace TypeDef

/-- Reads a structural type of the kind with a tag. -/
def readKind (tag : String) (p : Place) (j : Json) : Option TypeDef :=
  if tag = TypeDefCategory.entity.tag then (EntityDef.record.read p j).map entity
  else if tag = TypeDefCategory.classification.tag then
    (ClassificationDef.record.read p j).map classification
  else if tag = TypeDefCategory.relationship.tag then
    (RelationshipDef.record.read p j).map relationship
  else none

/-- The members written for a structural type. -/
def members : TypeDef → List Json.Member
  | entity d => EntityDef.record.members d
  | classification d => ClassificationDef.record.members d
  | relationship d => RelationshipDef.record.members d

/-- The codec of structural types: the fields of the definition with its kind as a tag. -/
def codec : Codec TypeDef :=
  .categorized categoryKey readKind fun d => (d.category.tag, d.members)

end TypeDef

namespace TypeDefPatch

/-- Patches, by their fields. -/
def record : Record TypeDefPatch where
  fields :=
    .cons (.required "typeDefGuid" .string) <|
    .cons (.required "typeName" .string) <|
    .cons (.required "applyToVersion" .uint64) <|
    .cons (.required "updateToVersion" .uint64) <|
    .cons (.required "newVersionName" .string) <|
    .cons (.optional "description" .string) <|
    .cons (.defaulted "propertiesToAdd" (.list TypeDefAttribute.codec) []) .nil
  ofValues := fun (typeDefGuid, typeName, applyToVersion, updateToVersion, newVersionName,
      description, propertiesToAdd, ()) =>
    ⟨typeDefGuid, typeName, applyToVersion, updateToVersion, newVersionName, description,
      propertiesToAdd⟩
  values p :=
    (p.typeDefGuid, p.typeName, p.applyToVersion, p.updateToVersion, p.newVersionName,
      p.description, p.propertiesToAdd, ())

/-- The codec of patches. -/
def codec : Codec TypeDefPatch :=
  record.codec

end TypeDefPatch

end MetadataArchive
