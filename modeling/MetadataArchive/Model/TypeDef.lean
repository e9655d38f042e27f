import MetadataArchive.Model.Definition

/-!
# Structural types

Entity types, classification types and relationship types, the attributes they declare, and patches
that amend types defined elsewhere. A relationship type joins two entity types. The attribute named
at one of its ends is exposed by the entity type at the other end.
-/

namespace MetadataArchive

/-! ## Attributes -/

/-- How many values an attribute may have. -/
inductive AttributeCardinality where
  | atMostOne
  | exactlyOne
  | anyNumberUnordered
  | anyNumberOrdered
  | atLeastOneUnordered
  | atLeastOneOrdered
deriving DecidableEq

/-- The cardinality of an attribute that states none. -/
def AttributeCardinality.default : AttributeCardinality :=
  exactlyOne

/-- An attribute that a structural type declares. Its type is an attribute type, given by name. -/
structure TypeDefAttribute where
  name : String
  type : String
  description : Option String
  cardinality : AttributeCardinality
  isUnique : Bool
deriving DecidableEq

namespace TypeDefAttribute

/-- An attribute that may have one value and need not be unique. -/
def plain (name type : String) : TypeDefAttribute :=
  ⟨name, type, none, .atMostOne, false⟩

/-- The same attribute, with values that no two instances share. -/
def unique (a : TypeDefAttribute) : TypeDefAttribute :=
  { a with isUnique := true }

/-- The same attribute with a cardinality. -/
def withCardinality (a : TypeDefAttribute) (cardinality : AttributeCardinality) :
    TypeDefAttribute :=
  { a with cardinality }

end TypeDefAttribute

/-! ## Entity types -/

/-- An entity type. -/
structure EntityDef where
  guid : String
  name : String
  version : UInt64
  versionName : String
  description : Option String
  superType : Option TypeDefLink
  properties : List TypeDefAttribute
deriving DecidableEq

instance : Definition EntityDef where
  kind := .structuralType .entity
  guid := EntityDef.guid
  name := EntityDef.name

namespace EntityDef

/-- The first version of an entity type, without attributes. -/
def plain (guid name : String) : EntityDef :=
  ⟨guid, name, 1, "1.0", none, none, []⟩

/-- The same type, below a super type. -/
def withSuperType (d : EntityDef) (superType : TypeDefLink) : EntityDef :=
  { d with superType := some superType }

/-- The same type with one more attribute. -/
def withProperty (d : EntityDef) (a : TypeDefAttribute) : EntityDef :=
  { d with properties := d.properties ++ [a] }

/-- Whether the type itself declares an attribute of a name. -/
def declares (d : EntityDef) (attributeName : String) : Bool :=
  d.properties.any fun a => a.name == attributeName

end EntityDef

/-! ## Classification types -/

/-- A classification type. It may be attached to the entity types listed, or to any if none is. -/
structure ClassificationDef where
  guid : String
  name : String
  version : UInt64
  versionName : String
  description : Option String
  superType : Option TypeDefLink
  properties : List TypeDefAttribute
  validEntityDefs : List TypeDefLink
  propagatable : Bool
deriving DecidableEq

instance : Definition ClassificationDef where
  kind := .structuralType .classification
  guid := ClassificationDef.guid
  name := ClassificationDef.name

namespace ClassificationDef

/-- The first version of a classification type, without attributes, for any entity. -/
def plain (guid name : String) : ClassificationDef :=
  ⟨guid, name, 1, "1.0", none, none, [], [], false⟩

/-- The same type with one more attribute. -/
def withProperty (d : ClassificationDef) (a : TypeDefAttribute) : ClassificationDef :=
  { d with properties := d.properties ++ [a] }

/-- The same type with one more entity type to which it may be attached. -/
def withValidEntity (d : ClassificationDef) (entityType : TypeDefLink) : ClassificationDef :=
  { d with validEntityDefs := d.validEntityDefs ++ [entityType] }

end ClassificationDef

/-! ## Relationship types -/

/-- How many relationships an entity may have at an end. -/
inductive RelationshipEndCardinality where
  | atMostOne
  | anyNumber
deriving DecidableEq

/-- The cardinality of an end that states none. -/
def RelationshipEndCardinality.default : RelationshipEndCardinality :=
  anyNumber

/-- One end of a relationship type: the entity type there, and the name of the attribute by which
the entity type at the other end refers to it. -/
structure RelationshipEndDef where
  entityType : TypeDefLink
  attributeName : String
  attributeDescription : Option String
  cardinality : RelationshipEndCardinality
deriving DecidableEq

namespace RelationshipEndDef

/-- An end with any number of relationships. -/
def plain (entityType : TypeDefLink) (attributeName : String) : RelationshipEndDef :=
  ⟨entityType, attributeName, none, .anyNumber⟩

/-- The same end with a cardinality. -/
def withCardinality (e : RelationshipEndDef) (cardinality : RelationshipEndCardinality) :
    RelationshipEndDef :=
  { e with cardinality }

end RelationshipEndDef

/-- In which directions classifications spread along a relationship. -/
inductive PropagationRule where
  | none
  | oneToTwo
  | twoToOne
  | both
deriving DecidableEq

/-- The propagation rule of a relationship type that states none. -/
def PropagationRule.default : PropagationRule :=
  none

/-- A relationship type. -/
structure RelationshipDef where
  guid : String
  name : String
  version : UInt64
  versionName : String
  description : Option String
  properties : List TypeDefAttribute
  end1 : RelationshipEndDef
  end2 : RelationshipEndDef
  propagationRule : PropagationRule
deriving DecidableEq

instance : Definition RelationshipDef where
  kind := .structuralType .relationship
  guid := RelationshipDef.guid
  name := RelationshipDef.name

namespace RelationshipDef

/-- The first version of a relationship type, without attributes of its own. -/
def plain (guid name : String) (end1 end2 : RelationshipEndDef) : RelationshipDef :=
  ⟨guid, name, 1, "1.0", none, [], end1, end2, .none⟩

/-- The same type with one more attribute of its own. -/
def withProperty (d : RelationshipDef) (a : TypeDefAttribute) : RelationshipDef :=
  { d with properties := d.properties ++ [a] }

end RelationshipDef

/-! ## Any structural type -/

/-- A structural type of any kind. -/
inductive TypeDef where
  | entity (d : EntityDef)
  | classification (d : ClassificationDef)
  | relationship (d : RelationshipDef)
deriving DecidableEq

namespace TypeDef

/-- The kind of a structural type. -/
def category : TypeDef → TypeDefCategory
  | entity _ => .entity
  | classification _ => .classification
  | relationship _ => .relationship

/-- The GUID of a structural type. -/
def guid : TypeDef → String
  | entity d => d.guid
  | classification d => d.guid
  | relationship d => d.guid

/-- The name of a structural type. -/
def name : TypeDef → String
  | entity d => d.name
  | classification d => d.name
  | relationship d => d.name

/-- The attributes that a structural type itself declares. -/
def properties : TypeDef → List TypeDefAttribute
  | entity d => d.properties
  | classification d => d.properties
  | relationship d => d.properties

/-- The reference to a structural type. -/
def link (d : TypeDef) : TypeDefLink :=
  ⟨d.guid, d.name⟩

end TypeDef

/-! ## Patches -/

/-- An amendment to a type that is defined elsewhere. Archives carry patches as they are. -/
structure TypeDefPatch where
  typeDefGuid : String
  typeName : String
  applyToVersion : UInt64
  updateToVersion : UInt64
  newVersionName : String
  description : Option String
  propertiesToAdd : List TypeDefAttribute
deriving DecidableEq

/-- The one-line description of a patch. -/
def TypeDefPatch.describe (p : TypeDefPatch) : String :=
  "TypeDefPatch\x7btype=" ++ p.typeName ++ ", v" ++ p.applyToVersion.toNat.repr ++ "->v" ++
    p.updateToVersion.toNat.repr ++ "\x7d"

end MetadataArchive
