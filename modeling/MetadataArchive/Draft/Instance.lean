import MetadataArchive.Draft.Basic

/-!
# Instances of the types of a draft

New entities, classifications and relationships get the identity of their type from the draft, which
must have the type. They are not added to the draft.
-/

namespace MetadataArchive

/-- The type of the instances of a structural type. -/
def InstanceType.of {α : Type} [Definition α] (category : TypeDefCategory) (d : α) :
    InstanceType :=
  ⟨Definition.guid d, Definition.name d, category⟩

namespace Draft

/-- An active entity of a type, in its first version. -/
def newEntity (d : Draft) (typeName guid : String) (properties : InstanceProperties)
    (classifications : List Classification) : Traced EntityDetail := do
  let t ← d.findEntityDef typeName
  return ⟨guid, .of .entity t, .active, 1, properties, classifications⟩

/-- An active classification of a type. -/
def newClassification (d : Draft) (typeName : String) (properties : InstanceProperties) :
    Traced Classification := do
  let t ← d.findClassificationDef typeName
  return ⟨t.name, .of .classification t, .active, properties⟩

/-- An active relationship of a type between two entities, in its first version. -/
def newRelationship (d : Draft) (typeName guid : String) (properties : InstanceProperties)
    (end1 end2 : EntityDetail) : Traced Relationship := do
  let t ← d.findRelationshipDef typeName
  return ⟨guid, .of .relationship t, .active, 1, properties, end1.proxy, end2.proxy⟩

end Draft

end MetadataArchive
