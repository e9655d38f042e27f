import MetadataArchive.Proofs.Codec.Tagged
import MetadataArchive.Proofs.Wire.Kind

/-!
# Definitions restored

Every attribute type, every structural type and every patch is read back from its JSON form,
whatever its parts are: there is no double in it.
-/

namespace MetadataArchive

open Codec MetadataArchive.Field

variable {depth : Nat}

/-! ## Kinds and links -/

theorem AttributeTypeDefCategory.restores_codec :
    AttributeTypeDefCategory.codec.Restores depth fun _ => True :=
  restores_choice fun a => by cases a <;> rfl

theorem TypeDefCategory.restores_codec : TypeDefCategory.codec.Restores depth fun _ => True :=
  restores_choice fun a => by cases a <;> rfl

theorem TypeDefLink.restores_codec : TypeDefLink.codec.Restores (depth + 1) fun _ => True :=
  (record.restores_codec (by decide) <|
    .cons (restores_required restores_string) <|
    .cons (restores_required restores_string) .nil).congr (by simp)

/-! ## Attribute types -/

theorem PrimitiveDefCategory.restores_codec :
    PrimitiveDefCategory.codec.Restores depth fun _ => True :=
  restores_choice fun a => by cases a <;> rfl

theorem CollectionDefCategory.restores_codec :
    CollectionDefCategory.codec.Restores depth fun _ => True :=
  restores_choice fun a => by cases a <;> rfl

theorem PrimitiveDef.restores_codec : PrimitiveDef.codec.Restores (depth + 1) fun _ => True :=
  (record.restores_codec (by decide) <|
    .cons (restores_required restores_string) <|
    .cons (restores_required restores_string) <|
    .cons (restores_optional restores_string) <|
    .cons (restores_required PrimitiveDefCategory.restores_codec) .nil).congr (by simp)

theorem CollectionDef.restores_codec : CollectionDef.codec.Restores (depth + 2) fun _ => True :=
  (record.restores_codec (by decide) <|
    .cons (restores_required restores_string) <|
    .cons (restores_required restores_string) <|
    .cons (restores_optional restores_string) <|
    .cons (restores_required CollectionDefCategory.restores_codec) <|
    .cons (restores_defaulted (restores_list restores_string)) .nil).congr (by simp)

theorem EnumElementDef.restores_codec : EnumElementDef.codec.Restores (depth + 1) fun _ => True :=
  (record.restores_codec (by decide) <|
    .cons (restores_required restores_uint32) <|
    .cons (restores_required restores_string) <|
    .cons (restores_optional restores_string) .nil).congr (by simp)

theorem EnumDef.restores_codec : EnumDef.codec.Restores (depth + 3) fun _ => True :=
  (record.restores_codec (by decide) <|
    .cons (restores_required restores_string) <|
    .cons (restores_required restores_string) <|
    .cons (restores_optional restores_string) <|
    .cons (restores_defaulted (restores_list EnumElementDef.restores_codec)) <|
    .cons (restores_optional restores_uint32) .nil).congr (by simp)

/-! ## Structural types -/

theorem AttributeCardinality.restores_codec :
    AttributeCardinality.codec.Restores depth fun _ => True :=
  restores_choice fun a => by cases a <;> rfl

theorem RelationshipEndCardinality.restores_codec :
    RelationshipEndCardinality.codec.Restores depth fun _ => True :=
  restores_choice fun a => by cases a <;> rfl

theorem PropagationRule.restores_codec : PropagationRule.codec.Restores depth fun _ => True :=
  restores_choice fun a => by cases a <;> rfl

theorem TypeDefAttribute.restores_codec :
    TypeDefAttribute.codec.Restores (depth + 1) fun _ => True :=
  (record.restores_codec (by decide) <|
    .cons (restores_required restores_string) <|
    .cons (restores_required restores_string) <|
    .cons (restores_optional restores_string) <|
    .cons (restores_defaulted AttributeCardinality.restores_codec) <|
    .cons (restores_defaulted restores_bool) .nil).congr (by simp)

theorem EntityDef.restores_codec : EntityDef.codec.Restores (depth + 3) fun _ => True :=
  (record.restores_codec (by decide) <|
    .cons (restores_required restores_string) <|
    .cons (restores_required restores_string) <|
    .cons (restores_required restores_uint64) <|
    .cons (restores_required restores_string) <|
    .cons (restores_optional restores_string) <|
    .cons (restores_optional TypeDefLink.restores_codec) <|
    .cons (restores_defaulted (restores_list TypeDefAttribute.restores_codec)) .nil).congr
      (by simp)

theorem ClassificationDef.restores_codec :
    ClassificationDef.codec.Restores (depth + 3) fun _ => True :=
  (record.restores_codec (by decide) <|
    .cons (restores_required restores_string) <|
    .cons (restores_required restores_string) <|
    .cons (restores_required restores_uint64) <|
    .cons (restores_required restores_string) <|
    .cons (restores_optional restores_string) <|
    .cons (restores_optional TypeDefLink.restores_codec) <|
    .cons (restores_defaulted (restores_list TypeDefAttribute.restores_codec)) <|
    .cons (restores_defaulted (restores_list TypeDefLink.restores_codec)) <|
    .cons (restores_defaulted restores_bool) .nil).congr (by simp)

theorem RelationshipEndDef.restores_codec :
    RelationshipEndDef.codec.Restores (depth + 2) fun _ => True :=
  (record.restores_codec (by decide) <|
    .cons (restores_required TypeDefLink.restores_codec) <|
    .cons (restores_required restores_string) <|
    .cons (restores_optional restores_string) <|
    .cons (restores_defaulted RelationshipEndCardinality.restores_codec) .nil).congr (by simp)

theorem RelationshipDef.restores_codec :
    RelationshipDef.codec.Restores (depth + 3) fun _ => True :=
  (record.restores_codec (by decide) <|
    .cons (restores_required restores_string) <|
    .cons (restores_required restores_string) <|
    .cons (restores_required restores_uint64) <|
    .cons (restores_required restores_string) <|
    .cons (restores_optional restores_string) <|
    .cons (restores_defaulted (restores_list TypeDefAttribute.restores_codec)) <|
    .cons (restores_required RelationshipEndDef.restores_codec) <|
    .cons (restores_required RelationshipEndDef.restores_codec) <|
    .cons (restores_defaulted PropagationRule.restores_codec) .nil).congr (by simp)

theorem TypeDefPatch.restores_codec : TypeDefPatch.codec.Restores (depth + 3) fun _ => True :=
  (record.restores_codec (by decide) <|
    .cons (restores_required restores_string) <|
    .cons (restores_required restores_string) <|
    .cons (restores_required restores_uint64) <|
    .cons (restores_required restores_uint64) <|
    .cons (restores_required restores_string) <|
    .cons (restores_optional restores_string) <|
    .cons (restores_defaulted (restores_list TypeDefAttribute.restores_codec)) .nil).congr
      (by simp)

/-! ## Definitions in lists -/

theorem TypeKind.restores_codec (k : TypeKind) :
    k.recordType.codec.Restores (depth + 3) fun _ => True := by
  cases k with
  | attributeType category =>
    cases category with
    | primitive => exact PrimitiveDef.restores_codec
    | collection => exact CollectionDef.restores_codec
    | enum => exact EnumDef.restores_codec
  | structuralType category =>
    cases category with
    | entity => exact EntityDef.restores_codec
    | classification => exact ClassificationDef.restores_codec
    | relationship => exact RelationshipDef.restores_codec

/-- No definition has a member under the key of the tag. -/
theorem DefinitionList.fst_ne_of_mem_writeKind (l : DefinitionList) (d : l.Entry) :
    ∀ m ∈ (l.writeKind d).2, m.1 ≠ some categoryKey := by
  cases l, d using entryCases with
  | entry k v =>
    rw [k.writeKind_entry]
    exact fun _ => Fields.fst_ne_of_mem_members k.categoryKey_not_mem

/-- The tag that is written selects the kind, and the record of that kind is restored. -/
theorem DefinitionList.readKind_writeKind {p : Place} (hroom : depth + 3 ≤ p.room)
    (l : DefinitionList) (d : l.Entry) :
    l.readKind (l.writeKind d).1 p (.object (l.writeKind d).2) = some d := by
  cases l, d using entryCases with
  | entry k v =>
    rw [k.writeKind_entry, k.readKind_tag]
    have hread := k.recordType.record.read_members k.restores_codec hroom v
    exact congrArg (Option.map k.entry) hread

theorem DefinitionList.readable_writeKind {room : Nat} (hroom : depth + 3 ≤ room)
    (l : DefinitionList) (d : l.Entry) :
    (Json.object (l.writeKind d).2).readable room = true := by
  cases l, d using entryCases with
  | entry k v =>
    rw [k.writeKind_entry]
    exact k.restores_codec.readable_write hroom trivial

theorem DefinitionList.restores_codec (l : DefinitionList) :
    l.codec.Restores (depth + 3) fun _ => True := by
  rw [codec_eq_categorized]
  exact restores_categorized l.fst_ne_of_mem_writeKind
    (fun hroom => iff_of_true (readKind_writeKind hroom l _) trivial)
    fun hroom _ => readable_writeKind hroom l _

theorem AttributeTypeDef.restores_codec :
    AttributeTypeDef.codec.Restores (depth + 3) fun _ => True :=
  DefinitionList.restores_codec .attributeTypes

theorem TypeDef.restores_codec : TypeDef.codec.Restores (depth + 3) fun _ => True :=
  DefinitionList.restores_codec .structuralTypes

end MetadataArchive
