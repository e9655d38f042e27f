import MetadataArchive.Model.Definition

/-!
# Why content is turned away

A `Rejection` is the reason why a draft does not take an item or does not find one. Where two items
collide it carries the one-line descriptions of both.
-/

namespace MetadataArchive

/-- The kinds of instances that are items of their own. -/
inductive InstanceKind where
  | entity
  | relationship
deriving DecidableEq

/-- The name of a kind of instances. -/
def InstanceKind.label : InstanceKind → String
  | entity => "Entity"
  | relationship => "Relationship"

/-- What is looked up: definitions of a kind by name, or instances of a kind by GUID. -/
inductive Subject where
  | definition (kind : TypeKind)
  | instanceOf (kind : InstanceKind)
deriving DecidableEq

/-- The name of what is looked up. -/
def Subject.label : Subject → String
  | definition kind => kind.label
  | instanceOf kind => kind.label

/-- Why an item is not taken or not found. -/
inductive Rejection where
  /-- A type name is empty or contains white space. -/
  | malformedName (name : String)
  /-- The key of a look-up, or the GUID of an instance, is empty. -/
  | missingName (subject : Subject)
  /-- A definition of the same kind has the name. -/
  | duplicateName (kind : TypeKind) (name existing duplicate : String)
  /-- A definition of another kind has the name. -/
  | duplicateTypeName (name existing duplicate : String)
  /-- A definition or an instance has the GUID. -/
  | duplicateGuid (guid existing duplicate : String)
  /-- A definition declares two attributes of a name. -/
  | duplicateAttribute (typeName attributeName : String)
  /-- An entity type already exposes the attribute that a relationship type introduces on it. -/
  | duplicateEndpointAttribute (relationship entityType otherEntityType attributeName : String)
  /-- Another instance has the GUID. -/
  | duplicateInstance (kind : InstanceKind) (guid existing duplicate : String)
  /-- There is no definition of the kind with the name. -/
  | unknownType (kind : TypeKind) (name : String)
  /-- There is no instance of the kind with the GUID. -/
  | unknownInstance (kind : InstanceKind) (guid : String)
deriving DecidableEq

namespace Rejection

/-- The text of a rejection. -/
def message : Rejection → String
  | malformedName name => "type name `" ++ name ++ "` is blank or contains whitespace"
  | missingName subject => "no name supplied to look up a " ++ subject.label
  | duplicateName kind name existing duplicate =>
    "duplicate " ++ kind.label ++ " named `" ++ name ++ "`: " ++ existing ++ " and " ++ duplicate
  | duplicateTypeName name existing duplicate =>
    "type name `" ++ name ++ "` is already used by " ++ existing ++ "; cannot add " ++ duplicate
  | duplicateGuid guid existing duplicate =>
    "guid `" ++ guid ++ "` is already used by " ++ existing ++ "; cannot add " ++ duplicate
  | duplicateAttribute typeName attributeName =>
    "attribute `" ++ attributeName ++ "` is declared more than once on type `" ++ typeName ++ "`"
  | duplicateEndpointAttribute relationship entityType otherEntityType attributeName =>
    "relationship `" ++ relationship ++ "` introduces attribute `" ++ attributeName ++
      "` on entity type `" ++ entityType ++ "` (traversing to `" ++ otherEntityType ++
      "`), but `" ++ entityType ++ "` already exposes an attribute with that name"
  | duplicateInstance kind guid existing duplicate =>
    "duplicate " ++ kind.label ++ " instance with guid `" ++ guid ++ "`: " ++ existing ++ " and " ++
      duplicate
  | unknownType kind name =>
    "no " ++ kind.label ++ " named `" ++ name ++ "` has been added to the archive"
  | unknownInstance kind guid =>
    "no " ++ kind.label ++ " instance with guid `" ++ guid ++ "` has been added to the archive"

end Rejection

end MetadataArchive
