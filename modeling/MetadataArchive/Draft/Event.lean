import MetadataArchive.Draft.Rejection
import MetadataArchive.Log

/-!
# Events

What is done to a draft is logged: an `Event` says what happened, and `Event.entry` is its line in
the log.
-/

namespace MetadataArchive

/-- What is logged. -/
inductive Event where
  | creating (archive guid : String)
  | addingDefinition (kind : TypeKind) (name guid : String)
  | addingRelationshipDef (name guid end1 end2 : String)
  | addingPatch (patch guid : String)
  | addingInstance (kind : InstanceKind) (guid typeName : String)
  | retrievingDefinition (kind : TypeKind) (name : String)
  | retrievingInstance (kind : InstanceKind) (guid : String)
  | rejected (reason : Rejection)
  | building (archive : String) (attributeTypes typeDefs patches entities relationships guids : Nat)
deriving DecidableEq

/-- What is said of a kind of instances that is added. -/
def InstanceKind.addingMessage : InstanceKind → String
  | entity => "adding entity"
  | relationship => "adding relationship"

/-- The line in the log for an event. -/
def Event.entry : Event → LogEntry
  | creating archive guid =>
    ⟨"creating archive builder", [("archive", .text archive), ("guid", .text guid)]⟩
  | addingDefinition kind name guid =>
    ⟨"adding " ++ kind.label, [("name", .text name), ("guid", .text guid)]⟩
  | addingRelationshipDef name guid end1 end2 =>
    ⟨"adding " ++ TypeDefCategory.relationship.label,
      [("name", .text name), ("guid", .text guid), ("end1", .text end1), ("end2", .text end2)]⟩
  | addingPatch patch guid =>
    ⟨"adding TypeDefPatch", [("patch", .text patch), ("guid", .text guid)]⟩
  | addingInstance kind guid typeName =>
    ⟨kind.addingMessage, [("guid", .text guid), ("type_name", .text typeName)]⟩
  | retrievingDefinition kind name =>
    ⟨"retrieving type", [("name", .text name), ("category", .text kind.label)]⟩
  | retrievingInstance kind guid =>
    ⟨"retrieving instance", [("guid", .text guid), ("category", .text kind.label)]⟩
  | rejected reason =>
    ⟨"archive content rejected", [("error", .text reason.message)]⟩
  | building archive attributeTypes typeDefs patches entities relationships guids =>
    ⟨"building archive",
      [("archive", .text archive), ("attribute_types", .int attributeTypes),
        ("type_defs", .int typeDefs), ("patches", .int patches), ("entities", .int entities),
        ("relationships", .int relationships), ("guids", .int guids)]⟩

end MetadataArchive
