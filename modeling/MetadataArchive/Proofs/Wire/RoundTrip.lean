import MetadataArchive.Proofs.Wire.Archive

/-!
# The JSON round trip

Decoding the text of a value, compact or pretty, gives that value back exactly if the doubles in it
are read back; and there are doubles that are not.
-/

namespace MetadataArchive

/-! ## Texts of values -/

/-- Only nesting is limited, and only doubles can change. -/
theorem Codec.decode_render_iff {α : Type} {c : Codec α} {ok : α → Prop}
    (h : c.Restores Json.nestingLimit ok) (l : Json.Layout) (a : α) :
    c.decode ((c.write a).render l) = some a ↔ ok a := by
  rw [decode, Json.parse_render, Option.bind_some]
  exact h.read_write (Nat.le_refl _)

/-! ## Types with a JSON form -/

/-- The types whose values have a JSON form. -/
inductive WireType where
  | attributeTypeDefCategory
  | typeDefCategory
  | typeDefLink
  | primitiveDefCategory
  | collectionDefCategory
  | primitiveDef
  | collectionDef
  | enumElementDef
  | enumDef
  | attributeTypeDef
  | attributeCardinality
  | relationshipEndCardinality
  | propagationRule
  | typeDefAttribute
  | entityDef
  | classificationDef
  | relationshipEndDef
  | relationshipDef
  | typeDef
  | typeDefPatch
  | instanceStatus
  | instanceType
  | propertyValue
  | instanceProperties
  | classification
  | entityDetail
  | entityProxy
  | relationship
  | archiveType
  | archiveProperties
  | archiveTypeStore
  | archiveInstanceStore
  | typeArchive

namespace WireType

/-- The values of a type. -/
def Value : WireType → Type
  | attributeTypeDefCategory => AttributeTypeDefCategory
  | typeDefCategory => TypeDefCategory
  | typeDefLink => TypeDefLink
  | primitiveDefCategory => PrimitiveDefCategory
  | collectionDefCategory => CollectionDefCategory
  | primitiveDef => PrimitiveDef
  | collectionDef => CollectionDef
  | enumElementDef => EnumElementDef
  | enumDef => EnumDef
  | attributeTypeDef => AttributeTypeDef
  | attributeCardinality => AttributeCardinality
  | relationshipEndCardinality => RelationshipEndCardinality
  | propagationRule => PropagationRule
  | typeDefAttribute => TypeDefAttribute
  | entityDef => EntityDef
  | classificationDef => ClassificationDef
  | relationshipEndDef => RelationshipEndDef
  | relationshipDef => RelationshipDef
  | typeDef => TypeDef
  | typeDefPatch => TypeDefPatch
  | instanceStatus => InstanceStatus
  | instanceType => InstanceType
  | propertyValue => PropertyValue
  | instanceProperties => InstanceProperties
  | classification => Classification
  | entityDetail => EntityDetail
  | entityProxy => EntityProxy
  | relationship => Relationship
  | archiveType => ArchiveType
  | archiveProperties => ArchiveProperties
  | archiveTypeStore => ArchiveTypeStore
  | archiveInstanceStore => ArchiveInstanceStore
  | typeArchive => TypeArchive

/-- The codec of a type. -/
def codec : (T : WireType) → Codec T.Value
  | attributeTypeDefCategory => AttributeTypeDefCategory.codec
  | typeDefCategory => TypeDefCategory.codec
  | typeDefLink => TypeDefLink.codec
  | primitiveDefCategory => PrimitiveDefCategory.codec
  | collectionDefCategory => CollectionDefCategory.codec
  | primitiveDef => PrimitiveDef.codec
  | collectionDef => CollectionDef.codec
  | enumElementDef => EnumElementDef.codec
  | enumDef => EnumDef.codec
  | attributeTypeDef => AttributeTypeDef.codec
  | attributeCardinality => AttributeCardinality.codec
  | relationshipEndCardinality => RelationshipEndCardinality.codec
  | propagationRule => PropagationRule.codec
  | typeDefAttribute => TypeDefAttribute.codec
  | entityDef => EntityDef.codec
  | classificationDef => ClassificationDef.codec
  | relationshipEndDef => RelationshipEndDef.codec
  | relationshipDef => RelationshipDef.codec
  | typeDef => TypeDef.codec
  | typeDefPatch => TypeDefPatch.codec
  | instanceStatus => InstanceStatus.codec
  | instanceType => InstanceType.codec
  | propertyValue => PropertyValue.codec
  | instanceProperties => InstanceProperties.codec
  | classification => Classification.codec
  | entityDetail => EntityDetail.codec
  | entityProxy => EntityProxy.codec
  | relationship => Relationship.codec
  | archiveType => ArchiveType.codec
  | archiveProperties => ArchiveProperties.codec
  | archiveTypeStore => ArchiveTypeStore.codec
  | archiveInstanceStore => ArchiveInstanceStore.codec
  | typeArchive => TypeArchive.codec

/-- The doubles in a value of a type. -/
def doubles : (T : WireType) → T.Value → List Binary64
  | propertyValue => PropertyValue.doubles
  | instanceProperties => InstanceProperties.doubles
  | classification => Classification.doubles
  | entityDetail => EntityDetail.doubles
  | relationship => Relationship.doubles
  | archiveInstanceStore => ArchiveInstanceStore.doubles
  | typeArchive => TypeArchive.doubles
  | _ => fun _ => []

theorem restores_codec (T : WireType) :
    T.codec.Restores Json.nestingLimit fun v => ∀ x ∈ T.doubles v, x.ReadsBack := by
  have hplain : ∀ {α : Type} {c : Codec α}, (c.Restores Json.nestingLimit fun _ => True) →
      c.Restores Json.nestingLimit fun _ => ∀ x ∈ ([] : List Binary64), x.ReadsBack :=
    fun h => h.congr fun _ => iff_of_true trivial fun _ hx => nomatch hx
  cases T with
  | attributeTypeDefCategory => exact hplain AttributeTypeDefCategory.restores_codec
  | typeDefCategory => exact hplain TypeDefCategory.restores_codec
  | typeDefLink => exact hplain TypeDefLink.restores_codec
  | primitiveDefCategory => exact hplain PrimitiveDefCategory.restores_codec
  | collectionDefCategory => exact hplain CollectionDefCategory.restores_codec
  | primitiveDef => exact hplain PrimitiveDef.restores_codec
  | collectionDef => exact hplain CollectionDef.restores_codec
  | enumElementDef => exact hplain EnumElementDef.restores_codec
  | enumDef => exact hplain EnumDef.restores_codec
  | attributeTypeDef => exact hplain AttributeTypeDef.restores_codec
  | attributeCardinality => exact hplain AttributeCardinality.restores_codec
  | relationshipEndCardinality => exact hplain RelationshipEndCardinality.restores_codec
  | propagationRule => exact hplain PropagationRule.restores_codec
  | typeDefAttribute => exact hplain TypeDefAttribute.restores_codec
  | entityDef => exact hplain EntityDef.restores_codec
  | classificationDef => exact hplain ClassificationDef.restores_codec
  | relationshipEndDef => exact hplain RelationshipEndDef.restores_codec
  | relationshipDef => exact hplain RelationshipDef.restores_codec
  | typeDef => exact hplain TypeDef.restores_codec
  | typeDefPatch => exact hplain TypeDefPatch.restores_codec
  | instanceStatus => exact hplain InstanceStatus.restores_codec
  | instanceType => exact hplain InstanceType.restores_codec
  | propertyValue => exact PropertyValue.restores_codec
  | instanceProperties => exact InstanceProperties.restores_codec
  | classification => exact Classification.restores_codec
  | entityDetail => exact EntityDetail.restores_codec
  | entityProxy => exact hplain EntityProxy.restores_codec
  | relationship => exact Relationship.restores_codec
  | archiveType => exact hplain ArchiveType.restores_codec
  | archiveProperties => exact hplain ArchiveProperties.restores_codec
  | archiveTypeStore => exact hplain ArchiveTypeStore.restores_codec
  | archiveInstanceStore => exact ArchiveInstanceStore.restores_codec
  | typeArchive => exact TypeArchive.restores_codec

/-- Decoding the compact text or the pretty text of a value gives the value back, exactly if each
double in it is read back from its digits. -/
theorem decode_encode_iff (T : WireType) (v : T.Value) :
    (T.codec.decode (T.codec.encode v) = some v ↔ ∀ x ∈ T.doubles v, x.ReadsBack) ∧
      (T.codec.decode (T.codec.encodePretty v) = some v ↔ ∀ x ∈ T.doubles v, x.ReadsBack) :=
  ⟨Codec.decode_render_iff T.restores_codec .compact v,
    Codec.decode_render_iff T.restores_codec (.indented 2) v⟩

end WireType

/-! ## A double that is lost -/

/-- The greatest odd double, `2 ^ 53 - 1`. -/
def Binary64.greatestOdd : Binary64 :=
  ⟨false, 1076 * binade - 1, by decide⟩

/-- It is written as `9007199254740991.0`. These digits are read as the whole number
`90071992547409910` and divided by ten; the number has more than 53 bits, so it is rounded first. -/
theorem Binary64.not_readsBack_greatestOdd : ¬ greatestOdd.ReadsBack := by
  intro h
  have hrank : (ofNumeral greatestOdd.toNumeral).map rank ≠ some greatestOdd.rank := by
    decide +kernel
  exact hrank (by rw [h, Option.map_some])

/-- A property value that is read back as another one. -/
theorem PropertyValue.decode_encode_float_ne :
    PropertyValue.codec.decode (PropertyValue.codec.encode (.float .greatestOdd)) ≠
      some (.float .greatestOdd) := by
  intro h
  have hdoubles := (Codec.decode_render_iff restores_codec .compact _).1 h
  exact Binary64.not_readsBack_greatestOdd (hdoubles .greatestOdd List.mem_cons_self)

end MetadataArchive
