import MetadataArchive.Codec.Choice
import MetadataArchive.Codec.Tagged
import MetadataArchive.Model.Definition

/-!
# The JSON form of kinds and links
-/

namespace MetadataArchive

/-- The key of the tag that tells the kind of a definition in a list of definitions. -/
def categoryKey : String :=
  "category"

namespace AttributeTypeDefCategory

/-- The written name of a kind of attribute types. -/
def tag : AttributeTypeDefCategory → String
  | primitive => "PRIMITIVE"
  | collection => "COLLECTION"
  | enum => "ENUM_DEF"

/-- The kinds of attribute types, by their written names. -/
def codec : Codec AttributeTypeDefCategory :=
  .choice [primitive, collection, enum] tag

end AttributeTypeDefCategory

namespace TypeDefCategory

/-- The written name of a kind of structural types. -/
def tag : TypeDefCategory → String
  | entity => "ENTITY_DEF"
  | classification => "CLASSIFICATION_DEF"
  | relationship => "RELATIONSHIP_DEF"

/-- The kinds of structural types, by their written names. -/
def codec : Codec TypeDefCategory :=
  .choice [entity, classification, relationship] tag

end TypeDefCategory

/-- Links, by their two fields. -/
def TypeDefLink.record : Record TypeDefLink where
  fields := .cons (.required "guid" .string) <| .cons (.required "name" .string) .nil
  ofValues := fun (guid, name, ()) => ⟨guid, name⟩
  values l := (l.guid, l.name, ())

/-- The codec of links. -/
def TypeDefLink.codec : Codec TypeDefLink :=
  record.codec

end MetadataArchive
