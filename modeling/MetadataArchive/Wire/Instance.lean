import MetadataArchive.Model.Instance
import MetadataArchive.Wire.Definition

/-!
# The JSON form of instances
-/

namespace MetadataArchive

namespace InstanceStatus

/-- The written name of a status. -/
def tag : InstanceStatus → String
  | draft => "DRAFT"
  | proposed => "PROPOSED"
  | approved => "APPROVED"
  | active => "ACTIVE"
  | deprecated => "DEPRECATED"
  | deleted => "DELETED"

/-- The statuses, by their written names. -/
def codec : Codec InstanceStatus :=
  .choice [draft, proposed, approved, active, deprecated, deleted] tag

end InstanceStatus

namespace InstanceType

/-- Types of instances, by their fields. -/
def record : Record InstanceType where
  fields :=
    .cons (.required "typeDefGuid" .string) <|
    .cons (.required "typeDefName" .string) <|
    .cons (.required "typeDefCategory" TypeDefCategory.codec) .nil
  ofValues := fun (typeDefGuid, typeDefName, typeDefCategory, ()) =>
    ⟨typeDefGuid, typeDefName, typeDefCategory⟩
  values t := (t.typeDefGuid, t.typeDefName, t.typeDefCategory, ())

/-- The codec of types of instances. -/
def codec : Codec InstanceType :=
  record.codec

end InstanceType

namespace PropertyValue

/-- The types of property values. -/
inductive Kind where
  | string
  | int
  | boolean
  | float
  | date
deriving DecidableEq

/-- The written name of a type of property values. -/
def Kind.tag : Kind → String
  | string => "string"
  | int => "int"
  | boolean => "boolean"
  | float => "float"
  | date => "date"

/-- The types of property values, by their written names. -/
def Kind.codec : Codec Kind :=
  .choice [string, int, boolean, float, date] tag

/-- The type of a property value. -/
def kind : PropertyValue → Kind
  | string _ => .string
  | int _ => .int
  | boolean _ => .boolean
  | float _ => .float
  | date _ => .date

/-- Reads a property value of a type. -/
def readKind (kind : Kind) (p : Place) (j : Json) : Option PropertyValue :=
  match kind with
  | .string => (Codec.string.read p j).map string
  | .int => (Codec.int64.read p j).map int
  | .boolean => (Codec.bool.read p j).map boolean
  | .float => (Codec.binary64.read p j).map float
  | .date => (Codec.int64.read p j).map date

/-- Writes a property value without its type. -/
def writeContent : PropertyValue → Json
  | string s => Codec.string.write s
  | int i => Codec.int64.write i
  | boolean b => Codec.bool.write b
  | float x => Codec.binary64.write x
  | date t => Codec.int64.write t

/-- The codec of property values: the type and the value. -/
def codec : Codec PropertyValue where
  read := Codec.readTyped Kind.codec readKind
  write v := Codec.writeTyped Kind.codec v.kind v.writeContent

end PropertyValue

/-- The codec of property values by attribute name. -/
def InstanceProperties.codec : Codec InstanceProperties :=
  .stringMap PropertyValue.codec

namespace Classification

/-- Classifications, by their fields. -/
def record : Record Classification where
  fields :=
    .cons (.required "name" .string) <|
    .cons (.required "instanceType" InstanceType.codec) <|
    .cons (.defaulted "status" InstanceStatus.codec .default) <|
    .cons (.mapOrOmitted "properties" PropertyValue.codec) .nil
  ofValues := fun (name, instanceType, status, properties, ()) =>
    ⟨name, instanceType, status, properties⟩
  values c := (c.name, c.instanceType, c.status, c.properties, ())

/-- The codec of classifications. -/
def codec : Codec Classification :=
  record.codec

end Classification

namespace EntityDetail

/-- Entities, by their fields. -/
def record : Record EntityDetail where
  fields :=
    .cons (.required "guid" .string) <|
    .cons (.required "instanceType" InstanceType.codec) <|
    .cons (.defaulted "status" InstanceStatus.codec .default) <|
    .cons (.required "version" .uint64) <|
    .cons (.mapOrOmitted "properties" PropertyValue.codec) <|
    .cons (.listOrOmitted "classifications" Classification.codec) .nil
  ofValues := fun (guid, instanceType, status, version, properties, classifications, ()) =>
    ⟨guid, instanceType, status, version, properties, classifications⟩
  values e := (e.guid, e.instanceType, e.status, e.version, e.properties, e.classifications, ())

/-- The codec of entities. -/
def codec : Codec EntityDetail :=
  record.codec

end EntityDetail

namespace EntityProxy

/-- References to entities, by their fields. -/
def record : Record EntityProxy where
  fields :=
    .cons (.required "guid" .string) <|
    .cons (.required "instanceType" InstanceType.codec) .nil
  ofValues := fun (guid, instanceType, ()) => ⟨guid, instanceType⟩
  values e := (e.guid, e.instanceType, ())

/-- The codec of references to entities. -/
def codec : Codec EntityProxy :=
  record.codec

end EntityProxy

namespace Relationship

/-- Relationships, by their fields. -/
def record : Record Relationship where
  fields :=
    .cons (.required "guid" .string) <|
    .cons (.required "instanceType" InstanceType.codec) <|
    .cons (.defaulted "status" InstanceStatus.codec .default) <|
    .cons (.required "version" .uint64) <|
    .cons (.mapOrOmitted "properties" PropertyValue.codec) <|
    .cons (.required "entityOneProxy" EntityProxy.codec) <|
    .cons (.required "entityTwoProxy" EntityProxy.codec) .nil
  ofValues := fun (guid, instanceType, status, version, properties, end1, end2, ()) =>
    ⟨guid, instanceType, status, version, properties, end1, end2⟩
  values r := (r.guid, r.instanceType, r.status, r.version, r.properties, r.end1, r.end2, ())

/-- The codec of relationships. -/
def codec : Codec Relationship :=
  record.codec

end Relationship

end MetadataArchive
