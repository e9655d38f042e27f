import MetadataArchive.Binary64.Basic
import MetadataArchive.Collection.StringMap
import MetadataArchive.Model.Definition

/-!
# Instances

Entities, the classifications attached to them, and relationships between two entities. Each carries
a copy of the identity of its type and a map of property values.
-/

namespace MetadataArchive

/-- How far an instance has come in its life. -/
inductive InstanceStatus where
  | draft
  | proposed
  | approved
  | active
  | deprecated
  | deleted
deriving DecidableEq

/-- The status of an instance that states none. -/
def InstanceStatus.default : InstanceStatus :=
  active

/-- The type of an instance: the identity and the kind of its definition. -/
structure InstanceType where
  typeDefGuid : String
  typeDefName : String
  typeDefCategory : TypeDefCategory
deriving DecidableEq

/-- The value of a property. Dates are milliseconds since the beginning of 1970. -/
inductive PropertyValue where
  | string (s : String)
  | int (i : Int64)
  | boolean (b : Bool)
  | float (x : Binary64)
  | date (t : Int64)
deriving BEq

/-- Property values by attribute name. -/
abbrev InstanceProperties := StringMap PropertyValue

/-- The properties with a string value at a name, or as they are if no value is given. -/
def InstanceProperties.addString (m : InstanceProperties) (name : String) :
    Option String → InstanceProperties
  | some s => m.insert name (.string s)
  | none => m

/-- A classification that is attached to an entity. -/
structure Classification where
  name : String
  instanceType : InstanceType
  status : InstanceStatus
  properties : InstanceProperties
deriving BEq

/-- An entity. -/
structure EntityDetail where
  guid : String
  instanceType : InstanceType
  status : InstanceStatus
  version : UInt64
  properties : InstanceProperties
  classifications : List Classification
deriving BEq

/-- A reference to an entity from an end of a relationship. -/
structure EntityProxy where
  guid : String
  instanceType : InstanceType
deriving DecidableEq

namespace EntityDetail

/-- The value of a property. -/
def property (e : EntityDetail) (name : String) : Option PropertyValue :=
  e.properties.get? name

/-- The first classification of a name. -/
def classification (e : EntityDetail) (name : String) : Option Classification :=
  e.classifications.find? fun c => c.name == name

/-- The reference to an entity. -/
def proxy (e : EntityDetail) : EntityProxy :=
  ⟨e.guid, e.instanceType⟩

/-- The one-line description of an entity. -/
def describe (e : EntityDetail) : String :=
  "EntityDetail\x7btype=" ++ e.instanceType.typeDefName ++ ", guid=" ++ e.guid ++
    ", properties=" ++ e.properties.size.repr ++ "\x7d"

end EntityDetail

/-- A relationship between two entities. -/
structure Relationship where
  guid : String
  instanceType : InstanceType
  status : InstanceStatus
  version : UInt64
  properties : InstanceProperties
  end1 : EntityProxy
  end2 : EntityProxy
deriving BEq

/-- The one-line description of a relationship. -/
def Relationship.describe (r : Relationship) : String :=
  "Relationship\x7btype=" ++ r.instanceType.typeDefName ++ ", guid=" ++ r.guid ++
    ", end1=" ++ r.end1.guid ++ ", end2=" ++ r.end2.guid ++ "\x7d"

end MetadataArchive
