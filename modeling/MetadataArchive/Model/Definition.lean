/-!
# Definitions and their identity

Every type definition has a GUID and a name and is of one of six kinds: three of attribute types,
which say what values an attribute may hold, and three of structural types, which say what instances
there are. A `TypeDefLink` refers to a structural type by both parts of its identity.
-/

namespace MetadataArchive

/-- The kinds of attribute types. -/
inductive AttributeTypeDefCategory where
  | primitive
  | collection
  | enum
deriving DecidableEq

/-- The kinds of structural types. -/
inductive TypeDefCategory where
  | entity
  | classification
  | relationship
deriving DecidableEq

/-- The name of a kind of attribute types. -/
def AttributeTypeDefCategory.label : AttributeTypeDefCategory → String
  | primitive => "PrimitiveDef"
  | collection => "CollectionDef"
  | enum => "EnumDef"

/-- The name of a kind of structural types. -/
def TypeDefCategory.label : TypeDefCategory → String
  | entity => "EntityDef"
  | classification => "ClassificationDef"
  | relationship => "RelationshipDef"

/-- The kinds of type definitions. -/
inductive TypeKind where
  | attributeType (category : AttributeTypeDefCategory)
  | structuralType (category : TypeDefCategory)
deriving DecidableEq

/-- The name of a kind of type definitions. -/
def TypeKind.label : TypeKind → String
  | attributeType category => category.label
  | structuralType category => category.label

/-- Types whose values define a type, all of one kind. -/
class Definition (α : Type) where
  kind : TypeKind
  guid : α → String
  name : α → String

/-- The one-line description of a definition: its kind and its identity. -/
def Definition.describe {α : Type} [Definition α] (d : α) : String :=
  (kind α).label ++ "\x7bname=" ++ name d ++ ", guid=" ++ guid d ++ "\x7d"

/-- A reference to a structural type by its identity. -/
structure TypeDefLink where
  guid : String
  name : String
deriving DecidableEq

/-- The reference to a definition. -/
def TypeDefLink.of {α : Type} [Definition α] (d : α) : TypeDefLink :=
  ⟨Definition.guid d, Definition.name d⟩

end MetadataArchive
