import MetadataArchive.Model.Definition

/-!
# Attribute types

The types of the values that attributes hold: primitive types, collections with type arguments, and
enumerations of named elements.
-/

namespace MetadataArchive

/-! ## Primitive types -/

/-- The primitive values there are. -/
inductive PrimitiveDefCategory where
  | unknown
  | boolean
  | byte
  | char
  | short
  | int
  | long
  | float
  | double
  | bigInteger
  | bigDecimal
  | string
  | date
deriving DecidableEq

/-- A primitive type. -/
structure PrimitiveDef where
  guid : String
  name : String
  description : Option String
  category : PrimitiveDefCategory
deriving DecidableEq

instance : Definition PrimitiveDef where
  kind := .attributeType .primitive
  guid := PrimitiveDef.guid
  name := PrimitiveDef.name

namespace PrimitiveDef

/-- A primitive type without a description. -/
def plain (guid name : String) (category : PrimitiveDefCategory) : PrimitiveDef :=
  ⟨guid, name, none, category⟩

/-- The same type with a description. -/
def withDescription (d : PrimitiveDef) (description : String) : PrimitiveDef :=
  { d with description := some description }

end PrimitiveDef

/-! ## Collections -/

/-- The shapes of collections. -/
inductive CollectionDefCategory where
  | map
  | array
  | struct
deriving DecidableEq

/-- How many type arguments a collection of a shape takes; a structure takes any number. -/
def CollectionDefCategory.fixedArgumentCount : CollectionDefCategory → Option Nat
  | map => some 2
  | array => some 1
  | struct => none

/-- A collection type. Its arguments are attribute types, given by name. -/
structure CollectionDef where
  guid : String
  name : String
  description : Option String
  category : CollectionDefCategory
  argumentTypes : List String
deriving DecidableEq

instance : Definition CollectionDef where
  kind := .attributeType .collection
  guid := CollectionDef.guid
  name := CollectionDef.name

namespace CollectionDef

/-- A collection type without a description. -/
def plain (guid name : String) (category : CollectionDefCategory) (argumentTypes : List String) :
    CollectionDef :=
  ⟨guid, name, none, category, argumentTypes⟩

/-- How many type arguments are given. -/
def argumentCount (d : CollectionDef) : Nat :=
  d.argumentTypes.length

end CollectionDef

/-! ## Enumerations -/

/-- An element of an enumeration. -/
structure EnumElementDef where
  ordinal : UInt32
  value : String
  description : Option String
deriving DecidableEq

/-- An enumeration. The default value is given by its ordinal. -/
structure EnumDef where
  guid : String
  name : String
  description : Option String
  elements : List EnumElementDef
  defaultValue : Option UInt32
deriving DecidableEq

instance : Definition EnumDef where
  kind := .attributeType .enum
  guid := EnumDef.guid
  name := EnumDef.name

namespace EnumDef

/-- An enumeration without elements. -/
def plain (guid name : String) : EnumDef :=
  ⟨guid, name, none, [], none⟩

/-- The same enumeration with one more element. Its ordinal is the number of elements before it. -/
def withElement (d : EnumDef) (value : String) : EnumDef :=
  { d with elements := d.elements ++ [⟨UInt32.ofNat d.elements.length, value, none⟩] }

/-- The same enumeration with the default value of an ordinal. -/
def withDefaultValue (d : EnumDef) (ordinal : UInt32) : EnumDef :=
  { d with defaultValue := some ordinal }

end EnumDef

/-! ## Any attribute type -/

/-- An attribute type of any kind. -/
inductive AttributeTypeDef where
  | primitive (d : PrimitiveDef)
  | collection (d : CollectionDef)
  | enum (d : EnumDef)
deriving DecidableEq

namespace AttributeTypeDef

/-- The kind of an attribute type. -/
def category : AttributeTypeDef → AttributeTypeDefCategory
  | primitive _ => .primitive
  | collection _ => .collection
  | enum _ => .enum

/-- The GUID of an attribute type. -/
def guid : AttributeTypeDef → String
  | primitive d => d.guid
  | collection d => d.guid
  | enum d => d.guid

/-- The name of an attribute type. -/
def name : AttributeTypeDef → String
  | primitive d => d.name
  | collection d => d.name
  | enum d => d.name

/-- The one-line description of an attribute type. -/
def describe : AttributeTypeDef → String
  | primitive d => Definition.describe d
  | collection d => Definition.describe d
  | enum d => Definition.describe d

/-- The reference to an attribute type. -/
def link (d : AttributeTypeDef) : TypeDefLink :=
  ⟨d.guid, d.name⟩

end AttributeTypeDef

end MetadataArchive
