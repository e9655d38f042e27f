import MetadataArchive.Proofs.Codec.Emission
import MetadataArchive.Proofs.Wire.Kind

/-!
# What archives show

In the JSON form of an archive null is nowhere, and a collection that may be left out is shown exactly
if there is something in it: the properties of instances, the classifications of entities, and the
archives that a header depends on. A store, or a list in a store, is shown exactly if it is there.
-/

namespace MetadataArchive

open Codec MetadataArchive.Field

/-! ## Null nowhere -/

theorem TypeDefLink.nullFree_codec : TypeDefLink.codec.NullFree :=
  Record.nullFree_codec <|
    .cons (nullFree_required nullFree_string) <|
    .cons (nullFree_required nullFree_string) .nil

theorem PrimitiveDef.nullFree_fields : PrimitiveDef.record.fields.All Field.NullFree :=
  .cons (nullFree_required nullFree_string) <|
  .cons (nullFree_required nullFree_string) <|
  .cons (nullFree_optional nullFree_string) <|
  .cons (nullFree_required (nullFree_choice _ _)) .nil

theorem CollectionDef.nullFree_fields : CollectionDef.record.fields.All Field.NullFree :=
  .cons (nullFree_required nullFree_string) <|
  .cons (nullFree_required nullFree_string) <|
  .cons (nullFree_optional nullFree_string) <|
  .cons (nullFree_required (nullFree_choice _ _)) <|
  .cons (nullFree_defaulted (nullFree_list nullFree_string)) .nil

theorem EnumElementDef.nullFree_codec : EnumElementDef.codec.NullFree :=
  Record.nullFree_codec <|
    .cons (nullFree_required nullFree_integer) <|
    .cons (nullFree_required nullFree_string) <|
    .cons (nullFree_optional nullFree_string) .nil

theorem EnumDef.nullFree_fields : EnumDef.record.fields.All Field.NullFree :=
  .cons (nullFree_required nullFree_string) <|
  .cons (nullFree_required nullFree_string) <|
  .cons (nullFree_optional nullFree_string) <|
  .cons (nullFree_defaulted (nullFree_list EnumElementDef.nullFree_codec)) <|
  .cons (nullFree_optional nullFree_integer) .nil

theorem TypeDefAttribute.nullFree_codec : TypeDefAttribute.codec.NullFree :=
  Record.nullFree_codec <|
    .cons (nullFree_required nullFree_string) <|
    .cons (nullFree_required nullFree_string) <|
    .cons (nullFree_optional nullFree_string) <|
    .cons (nullFree_defaulted (nullFree_choice _ _)) <|
    .cons (nullFree_defaulted nullFree_bool) .nil

theorem EntityDef.nullFree_fields : EntityDef.record.fields.All Field.NullFree :=
  .cons (nullFree_required nullFree_string) <|
  .cons (nullFree_required nullFree_string) <|
  .cons (nullFree_required nullFree_integer) <|
  .cons (nullFree_required nullFree_string) <|
  .cons (nullFree_optional nullFree_string) <|
  .cons (nullFree_optional TypeDefLink.nullFree_codec) <|
  .cons (nullFree_defaulted (nullFree_list TypeDefAttribute.nullFree_codec)) .nil

theorem ClassificationDef.nullFree_fields : ClassificationDef.record.fields.All Field.NullFree :=
  .cons (nullFree_required nullFree_string) <|
  .cons (nullFree_required nullFree_string) <|
  .cons (nullFree_required nullFree_integer) <|
  .cons (nullFree_required nullFree_string) <|
  .cons (nullFree_optional nullFree_string) <|
  .cons (nullFree_optional TypeDefLink.nullFree_codec) <|
  .cons (nullFree_defaulted (nullFree_list TypeDefAttribute.nullFree_codec)) <|
  .cons (nullFree_defaulted (nullFree_list TypeDefLink.nullFree_codec)) <|
  .cons (nullFree_defaulted nullFree_bool) .nil

theorem RelationshipEndDef.nullFree_codec : RelationshipEndDef.codec.NullFree :=
  Record.nullFree_codec <|
    .cons (nullFree_required TypeDefLink.nullFree_codec) <|
    .cons (nullFree_required nullFree_string) <|
    .cons (nullFree_optional nullFree_string) <|
    .cons (nullFree_defaulted (nullFree_choice _ _)) .nil

theorem RelationshipDef.nullFree_fields : RelationshipDef.record.fields.All Field.NullFree :=
  .cons (nullFree_required nullFree_string) <|
  .cons (nullFree_required nullFree_string) <|
  .cons (nullFree_required nullFree_integer) <|
  .cons (nullFree_required nullFree_string) <|
  .cons (nullFree_optional nullFree_string) <|
  .cons (nullFree_defaulted (nullFree_list TypeDefAttribute.nullFree_codec)) <|
  .cons (nullFree_required RelationshipEndDef.nullFree_codec) <|
  .cons (nullFree_required RelationshipEndDef.nullFree_codec) <|
  .cons (nullFree_defaulted (nullFree_choice _ _)) .nil

theorem TypeKind.nullFree_fields (k : TypeKind) :
    k.recordType.record.fields.All Field.NullFree := by
  cases k with
  | attributeType category =>
    cases category with
    | primitive => exact PrimitiveDef.nullFree_fields
    | collection => exact CollectionDef.nullFree_fields
    | enum => exact EnumDef.nullFree_fields
  | structuralType category =>
    cases category with
    | entity => exact EntityDef.nullFree_fields
    | classification => exact ClassificationDef.nullFree_fields
    | relationship => exact RelationshipDef.nullFree_fields

theorem DefinitionList.nullFree_codec (l : DefinitionList) : l.codec.NullFree := by
  rw [codec_eq_categorized]
  refine nullFree_categorized fun d => ?_
  cases l, d using entryCases with
  | entry k v =>
    rw [k.writeKind_entry]
    exact Record.nullFree_of_mem_members k.nullFree_fields v

theorem TypeDefPatch.nullFree_codec : TypeDefPatch.codec.NullFree :=
  Record.nullFree_codec <|
    .cons (nullFree_required nullFree_string) <|
    .cons (nullFree_required nullFree_string) <|
    .cons (nullFree_required nullFree_integer) <|
    .cons (nullFree_required nullFree_integer) <|
    .cons (nullFree_required nullFree_string) <|
    .cons (nullFree_optional nullFree_string) <|
    .cons (nullFree_defaulted (nullFree_list TypeDefAttribute.nullFree_codec)) .nil

theorem InstanceType.nullFree_codec : InstanceType.codec.NullFree :=
  Record.nullFree_codec <|
    .cons (nullFree_required nullFree_string) <|
    .cons (nullFree_required nullFree_string) <|
    .cons (nullFree_required (nullFree_choice _ _)) .nil

theorem PropertyValue.nullFree_codec : PropertyValue.codec.NullFree := by
  intro v
  refine nullFree_writeTyped (nullFree_choice _ _) v.kind ?_
  cases v with
  | string s => exact nullFree_string s
  | int i => exact nullFree_integer i
  | boolean b => exact nullFree_bool b
  | float x => exact nullFree_binary64 x
  | date t => exact nullFree_integer t

theorem Classification.nullFree_codec : Classification.codec.NullFree :=
  Record.nullFree_codec <|
    .cons (nullFree_required nullFree_string) <|
    .cons (nullFree_required InstanceType.nullFree_codec) <|
    .cons (nullFree_defaulted (nullFree_choice _ _)) <|
    .cons (nullFree_mapOrOmitted PropertyValue.nullFree_codec) .nil

theorem EntityDetail.nullFree_codec : EntityDetail.codec.NullFree :=
  Record.nullFree_codec <|
    .cons (nullFree_required nullFree_string) <|
    .cons (nullFree_required InstanceType.nullFree_codec) <|
    .cons (nullFree_defaulted (nullFree_choice _ _)) <|
    .cons (nullFree_required nullFree_integer) <|
    .cons (nullFree_mapOrOmitted PropertyValue.nullFree_codec) <|
    .cons (nullFree_listOrOmitted Classification.nullFree_codec) .nil

theorem EntityProxy.nullFree_codec : EntityProxy.codec.NullFree :=
  Record.nullFree_codec <|
    .cons (nullFree_required nullFree_string) <|
    .cons (nullFree_required InstanceType.nullFree_codec) .nil

theorem Relationship.nullFree_codec : Relationship.codec.NullFree :=
  Record.nullFree_codec <|
    .cons (nullFree_required nullFree_string) <|
    .cons (nullFree_required InstanceType.nullFree_codec) <|
    .cons (nullFree_defaulted (nullFree_choice _ _)) <|
    .cons (nullFree_required nullFree_integer) <|
    .cons (nullFree_mapOrOmitted PropertyValue.nullFree_codec) <|
    .cons (nullFree_required EntityProxy.nullFree_codec) <|
    .cons (nullFree_required EntityProxy.nullFree_codec) .nil

theorem ArchiveProperties.nullFree_codec : ArchiveProperties.codec.NullFree :=
  Record.nullFree_codec <|
    .cons (nullFree_required nullFree_string) <|
    .cons (nullFree_required nullFree_string) <|
    .cons (nullFree_optional nullFree_string) <|
    .cons (nullFree_defaulted (nullFree_choice _ _)) <|
    .cons (nullFree_optional nullFree_string) <|
    .cons (nullFree_optional nullFree_string) <|
    .cons (nullFree_required nullFree_timestamp) <|
    .cons (nullFree_listOrOmitted nullFree_string) .nil

theorem ArchiveTypeStore.nullFree_codec : ArchiveTypeStore.codec.NullFree :=
  Record.nullFree_codec <|
    .cons (nullFree_optional (nullFree_list (DefinitionList.nullFree_codec .attributeTypes))) <|
    .cons (nullFree_optional (nullFree_list (DefinitionList.nullFree_codec .structuralTypes))) <|
    .cons (nullFree_optional (nullFree_list TypeDefPatch.nullFree_codec)) .nil

theorem ArchiveInstanceStore.nullFree_codec : ArchiveInstanceStore.codec.NullFree :=
  Record.nullFree_codec <|
    .cons (nullFree_optional (nullFree_list EntityDetail.nullFree_codec)) <|
    .cons (nullFree_optional (nullFree_list Relationship.nullFree_codec)) .nil

theorem TypeArchive.nullFree_codec : TypeArchive.codec.NullFree :=
  Record.nullFree_codec <|
    .cons (nullFree_required ArchiveProperties.nullFree_codec) <|
    .cons (nullFree_optional ArchiveTypeStore.nullFree_codec) <|
    .cons (nullFree_optional ArchiveInstanceStore.nullFree_codec) .nil

/-! ## Collections that are left out -/

/-- A JSON value that shows a header, with the archives that it depends on if there are any. -/
structure ArchiveProperties.ShownBy (h : ArchiveProperties) (j : Json) : Prop where
  dependsOnArchives : j.HasKey "dependsOnArchives" ↔ h.dependsOnArchives ≠ []

/-- A JSON value that shows a classification, with its properties if it has any. -/
structure Classification.ShownBy (c : Classification) (j : Json) : Prop where
  properties : j.HasKey "properties" ↔ c.properties.toList ≠ []

/-- A JSON value that shows an entity, with its properties if it has any, and with its classifications
if it has any, each of which is shown so. -/
structure EntityDetail.ShownBy (e : EntityDetail) (j : Json) : Prop where
  properties : j.HasKey "properties" ↔ e.properties.toList ≠ []
  classifications : j.HasKey "classifications" ↔ e.classifications ≠ []
  each : List.Forall₂ Classification.ShownBy e.classifications (j.itemsUnder "classifications")

/-- A JSON value that shows a relationship, with its properties if it has any. -/
structure Relationship.ShownBy (r : Relationship) (j : Json) : Prop where
  properties : j.HasKey "properties" ↔ r.properties.toList ≠ []

/-- A JSON value that shows a store of types: the lists that are there, and nothing of the others. -/
structure ArchiveTypeStore.ShownBy (s : ArchiveTypeStore) (j : Json) : Prop where
  attributeTypeDefs : j.HasKey "attributeTypeDefs" ↔ s.attributeTypeDefs ≠ none
  newTypeDefs : j.HasKey "newTypeDefs" ↔ s.newTypeDefs ≠ none
  typeDefPatches : j.HasKey "typeDefPatches" ↔ s.typeDefPatches ≠ none

/-- A JSON value that shows a store of instances: the lists that are there, and in them each
instance. -/
structure ArchiveInstanceStore.ShownBy (s : ArchiveInstanceStore) (j : Json) : Prop where
  entities : j.HasKey "entities" ↔ s.entities ≠ none
  relationships : j.HasKey "relationships" ↔ s.relationships ≠ none
  eachEntity : List.Forall₂ EntityDetail.ShownBy (s.entities.getD []) (j.itemsUnder "entities")
  eachRelationship :
    List.Forall₂ Relationship.ShownBy (s.relationships.getD []) (j.itemsUnder "relationships")

/-- A JSON value that shows an archive: its header, and the stores that are there. -/
structure TypeArchive.ShownBy (a : TypeArchive) (j : Json) : Prop where
  properties : List.Forall₂ ArchiveProperties.ShownBy [a.properties] (j.under "archiveProperties")
  typeStore : List.Forall₂ ArchiveTypeStore.ShownBy a.typeStore.toList (j.under "archiveTypeStore")
  instanceStore : List.Forall₂ ArchiveInstanceStore.ShownBy a.instanceStore.toList
    (j.under "archiveInstanceStore")

theorem forall₂_map_of_forall {α β : Type} {R : α → β → Prop} {f : α → β} (h : ∀ a, R a (f a))
    (as : List α) : List.Forall₂ R as (as.map f) :=
  List.forall₂_map_right_iff.2 (List.forall₂_same.2 fun a _ => h a)

theorem ArchiveProperties.shownBy_write (h : ArchiveProperties) : h.ShownBy (codec.write h) where
  dependsOnArchives := by
    obtain ⟨-, -, -, -, -, -, -, hunder, -⟩ := record.allWith_under (by decide) h
    exact hasKey_listOrOmitted hunder

theorem Classification.shownBy_write (c : Classification) : c.ShownBy (codec.write c) where
  properties := by
    obtain ⟨-, -, -, hunder, -⟩ := record.allWith_under (by decide) c
    exact hasKey_mapOrOmitted hunder

theorem EntityDetail.shownBy_write (e : EntityDetail) : e.ShownBy (codec.write e) := by
  obtain ⟨-, -, -, -, hproperties, hclassifications, -⟩ := record.allWith_under (by decide) e
  have hitems : (codec.write e).itemsUnder "classifications" =
      e.classifications.map Classification.codec.write := itemsUnder_listOrOmitted hclassifications
  constructor
  case properties => exact hasKey_mapOrOmitted hproperties
  case classifications => exact hasKey_listOrOmitted hclassifications
  case each =>
    rw [hitems]
    exact forall₂_map_of_forall Classification.shownBy_write _

theorem Relationship.shownBy_write (r : Relationship) : r.ShownBy (codec.write r) where
  properties := by
    obtain ⟨-, -, -, -, hunder, -⟩ := record.allWith_under (by decide) r
    exact hasKey_mapOrOmitted hunder

theorem ArchiveTypeStore.shownBy_write (s : ArchiveTypeStore) : s.ShownBy (codec.write s) := by
  obtain ⟨hattributeTypeDefs, hnewTypeDefs, htypeDefPatches, -⟩ :=
    record.allWith_under (by decide) s
  exact ⟨hasKey_optional hattributeTypeDefs, hasKey_optional hnewTypeDefs,
    hasKey_optional htypeDefPatches⟩

theorem ArchiveInstanceStore.shownBy_write (s : ArchiveInstanceStore) :
    s.ShownBy (codec.write s) := by
  obtain ⟨hentities, hrelationships, -⟩ := record.allWith_under (by decide) s
  have hentityItems : (codec.write s).itemsUnder "entities" =
      (s.entities.getD []).map EntityDetail.codec.write := itemsUnder_optional hentities
  have hrelationshipItems : (codec.write s).itemsUnder "relationships" =
      (s.relationships.getD []).map Relationship.codec.write := itemsUnder_optional hrelationships
  constructor
  case entities => exact hasKey_optional hentities
  case relationships => exact hasKey_optional hrelationships
  case eachEntity =>
    rw [hentityItems]
    exact forall₂_map_of_forall EntityDetail.shownBy_write _
  case eachRelationship =>
    rw [hrelationshipItems]
    exact forall₂_map_of_forall Relationship.shownBy_write _

theorem TypeArchive.shownBy_write (a : TypeArchive) : a.ShownBy (codec.write a) := by
  obtain ⟨hproperties, htypeStore, hinstanceStore, -⟩ := record.allWith_under (by decide) a
  have hheader : (codec.write a).under "archiveProperties" =
      [a.properties].map ArchiveProperties.codec.write := hproperties
  have htypes : (codec.write a).under "archiveTypeStore" =
      a.typeStore.toList.map ArchiveTypeStore.codec.write := under_optional htypeStore
  have hinstances : (codec.write a).under "archiveInstanceStore" =
      a.instanceStore.toList.map ArchiveInstanceStore.codec.write := under_optional hinstanceStore
  constructor
  case properties =>
    rw [hheader]
    exact forall₂_map_of_forall ArchiveProperties.shownBy_write _
  case typeStore =>
    rw [htypes]
    exact forall₂_map_of_forall ArchiveTypeStore.shownBy_write _
  case instanceStore =>
    rw [hinstances]
    exact forall₂_map_of_forall ArchiveInstanceStore.shownBy_write _

end MetadataArchive
