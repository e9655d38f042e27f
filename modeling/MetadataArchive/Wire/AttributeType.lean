import MetadataArchive.Model.AttributeType
import MetadataArchive.Wire.Definition

/-!
# The JSON form of attribute types
-/

namespace MetadataArchive

namespace PrimitiveDefCategory

/-- The written name of a primitive type's category. -/
def tag : PrimitiveDefCategory → String
  | unknown => "UNKNOWN"
  | boolean => "BOOLEAN"
  | byte => "BYTE"
  | char => "CHAR"
  | short => "SHORT"
  | int => "INT"
  | long => "LONG"
  | float => "FLOAT"
  | double => "DOUBLE"
  | bigInteger => "BIG_INTEGER"
  | bigDecimal => "BIG_DECIMAL"
  | string => "STRING"
  | date => "DATE"

/-- The categories of primitive types, by their written names. -/
def codec : Codec PrimitiveDefCategory :=
  .choice [unknown, boolean, byte, char, short, int, long, float, double, bigInteger, bigDecimal,
    string, date] tag

end PrimitiveDefCategory

namespace CollectionDefCategory

/-- The written name of a shape of collections. -/
def tag : CollectionDefCategory → String
  | map => "MAP"
  | array => "ARRAY"
  | struct => "STRUCT"

/-- The shapes of collections, by their written names. -/
def codec : Codec CollectionDefCategory :=
  .choice [map, array, struct] tag

end CollectionDefCategory

namespace PrimitiveDef

/-- Primitive types, by their fields. -/
def record : Record PrimitiveDef where
  fields :=
    .cons (.required "guid" .string) <|
    .cons (.required "name" .string) <|
    .cons (.optional "description" .string) <|
    .cons (.required "primitiveDefCategory" PrimitiveDefCategory.codec) .nil
  ofValues := fun (guid, name, description, category, ()) => ⟨guid, name, description, category⟩
  values d := (d.guid, d.name, d.description, d.category, ())

/-- The codec of primitive types. -/
def codec : Codec PrimitiveDef :=
  record.codec

end PrimitiveDef

namespace CollectionDef

/-- Collection types, by their fields. -/
def record : Record CollectionDef where
  fields :=
    .cons (.required "guid" .string) <|
    .cons (.required "name" .string) <|
    .cons (.optional "description" .string) <|
    .cons (.required "collectionDefCategory" CollectionDefCategory.codec) <|
    .cons (.defaulted "argumentTypes" (.list .string) []) .nil
  ofValues := fun (guid, name, description, category, argumentTypes, ()) =>
    ⟨guid, name, description, category, argumentTypes⟩
  values d := (d.guid, d.name, d.description, d.category, d.argumentTypes, ())

/-- The codec of collection types. -/
def codec : Codec CollectionDef :=
  record.codec

end CollectionDef

namespace EnumElementDef

/-- Elements of enumerations, by their fields. -/
def record : Record EnumElementDef where
  fields :=
    .cons (.required "ordinal" .uint32) <|
    .cons (.required "value" .string) <|
    .cons (.optional "description" .string) .nil
  ofValues := fun (ordinal, value, description, ()) => ⟨ordinal, value, description⟩
  values e := (e.ordinal, e.value, e.description, ())

/-- The codec of elements of enumerations. -/
def codec : Codec EnumElementDef :=
  record.codec

end EnumElementDef

namespace EnumDef

/-- Enumerations, by their fields. -/
def record : Record EnumDef where
  fields :=
    .cons (.required "guid" .string) <|
    .cons (.required "name" .string) <|
    .cons (.optional "description" .string) <|
    .cons (.defaulted "elementDefs" (.list EnumElementDef.codec) []) <|
    .cons (.optional "defaultValue" .uint32) .nil
  ofValues := fun (guid, name, description, elements, defaultValue, ()) =>
    ⟨guid, name, description, elements, defaultValue⟩
  values d := (d.guid, d.name, d.description, d.elements, d.defaultValue, ())

/-- The codec of enumerations. -/
def codec : Codec EnumDef :=
  record.codec

end EnumDef

namespace AttributeTypeDef

/-- Reads an attribute type of the kind with a tag. -/
def readKind (tag : String) (p : Place) (j : Json) : Option AttributeTypeDef :=
  if tag = AttributeTypeDefCategory.primitive.tag then (PrimitiveDef.record.read p j).map primitive
  else if tag = AttributeTypeDefCategory.collection.tag then
    (CollectionDef.record.read p j).map collection
  else if tag = AttributeTypeDefCategory.enum.tag then (EnumDef.record.read p j).map enum
  else none

/-- The members written for an attribute type. -/
def members : AttributeTypeDef → List Json.Member
  | primitive d => PrimitiveDef.record.members d
  | collection d => CollectionDef.record.members d
  | enum d => EnumDef.record.members d

/-- The codec of attribute types: the fields of the definition with its kind as a tag. -/
def codec : Codec AttributeTypeDef :=
  .categorized categoryKey readKind fun d => (d.category.tag, d.members)

end AttributeTypeDef

end MetadataArchive
