import MetadataArchive.Proofs.Codec.Steady
import MetadataArchive.Proofs.Wire.Frames
import MetadataArchive.Proofs.Wire.Grammar

/-!
# Definitions with their category

A definition in a list tells its kind by a tag among its members. With the tag put in anywhere, an
object is read as a definition exactly as it is read as a record of that kind without the tag, by
itself and as an element of an archive. Without exactly one tag that names a kind nothing is read.
-/

namespace MetadataArchive

open Codec

/-! ## Tags -/

namespace TypeKind

/-- An object with the tag of a kind between its members. -/
def tagged (k : TypeKind) (before after : List Json.Member) : Json :=
  .object (before ++ (some categoryKey, .text k.tag) :: after)

end TypeKind

namespace DefinitionList

/-- The tags of the kinds of definitions that stand in a list. -/
def tags : DefinitionList → List String
  | attributeTypes =>
    [AttributeTypeDefCategory.primitive.tag, AttributeTypeDefCategory.collection.tag,
      AttributeTypeDefCategory.enum.tag]
  | structuralTypes =>
    [TypeDefCategory.entity.tag, TypeDefCategory.classification.tag,
      TypeDefCategory.relationship.tag]

theorem readKind_eq_none {l : DefinitionList} {tag : String} (h : tag ∉ l.tags) (p : Place)
    (j : Json) : l.readKind tag p j = none := by
  cases l with
  | attributeTypes | structuralTypes =>
    simp only [tags, List.mem_cons, List.not_mem_nil, or_false, not_or] at h
    obtain ⟨hfirst, hsecond, hthird⟩ := h
    exact (if_neg hfirst).trans ((if_neg hsecond).trans (if_neg hthird))

end DefinitionList

/-- A definition of a kind is read by the tag of its kind. -/
theorem TypeKind.read_of_readKind (k : TypeKind) {tag : String} {p : Place} {j : Json}
    {v : k.recordType.Value} (h : k.list.readKind tag p j = some (k.entry v)) :
    k.recordType.codec.read p j = some v := by
  have htag : tag ∈ k.list.tags := by
    refine Decidable.by_contra fun hnot => ?_
    rw [DefinitionList.readKind_eq_none hnot] at h
    nomatch h
  cases k with
  | attributeType category | structuralType category =>
    -- of three tags one is of the kind, and what is read by the others is of another kind
    cases category <;>
    · simp only [list, DefinitionList.tags, List.mem_cons, List.not_mem_nil, or_false] at htag
      rcases htag with rfl | rfl | rfl
      all_goals obtain ⟨w, hw, ⟨⟩⟩ := Option.map_eq_some_iff.1 h
      exact hw

/-! ## Definitions are read wherever they stand -/

section Steady

variable {depth : Nat}

theorem TypeDefLink.steady_codec : TypeDefLink.codec.Steady (depth + 1) :=
  Record.steady_codec <| .cons steady_string <| .cons steady_string .nil

theorem PrimitiveDefCategory.steady_codec : PrimitiveDefCategory.codec.Steady (depth + 1) :=
  steady_choice

theorem CollectionDefCategory.steady_codec : CollectionDefCategory.codec.Steady (depth + 1) :=
  steady_choice

theorem PrimitiveDef.steady_codec : PrimitiveDef.codec.Steady (depth + 2) :=
  Record.steady_codec <| .cons steady_string <| .cons steady_string <|
    .cons (steady_nullable steady_string) <| .cons PrimitiveDefCategory.steady_codec .nil

theorem CollectionDef.steady_codec : CollectionDef.codec.Steady (depth + 2) :=
  Record.steady_codec <| .cons steady_string <| .cons steady_string <|
    .cons (steady_nullable steady_string) <| .cons CollectionDefCategory.steady_codec <|
    .cons (steady_list steady_string) .nil

theorem EnumElementDef.steady_codec : EnumElementDef.codec.Steady (depth + 1) :=
  Record.steady_codec <| .cons steady_integer <| .cons steady_string <|
    .cons (steady_nullable steady_string) .nil

theorem EnumDef.steady_codec : EnumDef.codec.Steady (depth + 3) :=
  Record.steady_codec <| .cons steady_string <| .cons steady_string <|
    .cons (steady_nullable steady_string) <| .cons (steady_list EnumElementDef.steady_codec) <|
    .cons (steady_nullable steady_integer) .nil

theorem AttributeCardinality.steady_codec : AttributeCardinality.codec.Steady (depth + 1) :=
  steady_choice

theorem RelationshipEndCardinality.steady_codec :
    RelationshipEndCardinality.codec.Steady (depth + 1) :=
  steady_choice

theorem PropagationRule.steady_codec : PropagationRule.codec.Steady (depth + 1) :=
  steady_choice

theorem TypeDefAttribute.steady_codec : TypeDefAttribute.codec.Steady (depth + 2) :=
  Record.steady_codec <| .cons steady_string <| .cons steady_string <|
    .cons (steady_nullable steady_string) <| .cons AttributeCardinality.steady_codec <|
    .cons steady_bool .nil

theorem EntityDef.steady_codec : EntityDef.codec.Steady (depth + 4) :=
  Record.steady_codec <| .cons steady_string <| .cons steady_string <| .cons steady_integer <|
    .cons steady_string <| .cons (steady_nullable steady_string) <|
    .cons (steady_nullable TypeDefLink.steady_codec) <|
    .cons (steady_list TypeDefAttribute.steady_codec) .nil

theorem ClassificationDef.steady_codec : ClassificationDef.codec.Steady (depth + 4) :=
  Record.steady_codec <| .cons steady_string <| .cons steady_string <| .cons steady_integer <|
    .cons steady_string <| .cons (steady_nullable steady_string) <|
    .cons (steady_nullable TypeDefLink.steady_codec) <|
    .cons (steady_list TypeDefAttribute.steady_codec) <|
    .cons (steady_list TypeDefLink.steady_codec) <| .cons steady_bool .nil

theorem RelationshipEndDef.steady_codec : RelationshipEndDef.codec.Steady (depth + 2) :=
  Record.steady_codec <| .cons TypeDefLink.steady_codec <| .cons steady_string <|
    .cons (steady_nullable steady_string) <| .cons RelationshipEndCardinality.steady_codec .nil

theorem RelationshipDef.steady_codec : RelationshipDef.codec.Steady (depth + 4) :=
  Record.steady_codec <| .cons steady_string <| .cons steady_string <| .cons steady_integer <|
    .cons steady_string <| .cons (steady_nullable steady_string) <|
    .cons (steady_list TypeDefAttribute.steady_codec) <|
    .cons RelationshipEndDef.steady_codec <| .cons RelationshipEndDef.steady_codec <|
    .cons PropagationRule.steady_codec .nil

/-- No definition nests more than four containers. -/
theorem TypeKind.steady_codec (k : TypeKind) : k.recordType.codec.Steady (depth + 4) := by
  cases k with
  | attributeType category =>
    cases category with
    | primitive => exact PrimitiveDef.steady_codec
    | collection => exact CollectionDef.steady_codec
    | enum => exact EnumDef.steady_codec
  | structuralType category =>
    cases category with
    | entity => exact EntityDef.steady_codec
    | classification => exact ClassificationDef.steady_codec
    | relationship => exact RelationshipDef.steady_codec

end Steady

/-! ## Reading definitions -/

namespace TypeKind

variable {before after : List Json.Member} {p : Place}

/-- With the tag of a kind put in, an object is read as a definition as it is read without it as a
record of the kind. -/
theorem read_tagged (k : TypeKind) (hkey : ∀ m ∈ before ++ after, m.1 ≠ some categoryKey)
    (h : Legible k.recordType.codec p.room (.object (before ++ after))) :
    k.list.codec.read p (k.tagged before after) =
      (k.recordType.codec.read p (.object (before ++ after))).map k.entry := by
  rw [DefinitionList.codec_eq_categorized]
  exact read_categorized_insert k.readKind_tag hkey h

end TypeKind

/-- An object that does not hold exactly one tag, a string that names a kind, is not read. -/
theorem DefinitionList.read_eq_none {l : DefinitionList} {ms : List Json.Member} {p : Place}
    (h : ∀ tag ∈ l.tags, Json.valuesAt categoryKey ms ≠ [.text tag]) :
    l.codec.read p (.object ms) = none := by
  rw [codec_eq_categorized]
  exact read_categorized_of_forall_ne (fun _ htag p j => readKind_eq_none htag p j) h

/-! ## Decoding definitions -/

/-- An object text without a category, in which all that is passed over can be looked into and
enumerations are named by strings, decodes as a definition once the tag of a kind is put in
anywhere, exactly as it decodes as a record of that kind as it is; and an archive with that
definition in a list decodes exactly if it does without it and the definition does. An object that
does not hold exactly one tag, a string that names a kind, decodes neither by itself nor as an
element of a list in an archive. -/
theorem TypeKind.decode_tagged (k : TypeKind) :
    (∀ {before after : List Json.Member} {s : String},
      Json.parse s = some (.object (before ++ after)) →
      (∀ m ∈ before ++ after, m.1 ≠ some categoryKey) →
        (Legible k.recordType.codec Json.nestingLimit (.object (before ++ after)) →
          ∀ s', Json.parse s' = some (k.tagged before after) →
            k.list.codec.decode s' = (k.recordType.codec.decode s).map k.entry) ∧
        (Legible k.recordType.codec Surroundings.place.room (.object (before ++ after)) →
          ∀ (S : Surroundings k.list) (s' s'' : String), Json.parse s' = some (S.fill []) →
            Json.parse s'' = some (S.fill [k.tagged before after]) →
              TypeArchive.codec.decode s'' =
                amend (k.list.insertInto S.before.length) (TypeArchive.codec.decode s')
                  ((k.recordType.codec.decode s).map k.entry))) ∧
      ∀ {ms : List Json.Member},
        (∀ tag ∈ k.list.tags, Json.valuesAt categoryKey ms ≠ [.text tag]) →
          (∀ s, Json.parse s = some (.object ms) → k.list.codec.decode s = none) ∧
            ∀ (S : Surroundings k.list) (s : String),
              Json.parse s = some (S.fill [.object ms]) → TypeArchive.codec.decode s = none := by
  constructor
  · intro before after s hs hkey
    have hplain : k.recordType.codec.decode s =
        k.recordType.codec.read .top (.object (before ++ after)) := by
      rw [decode, hs, Option.bind_some]
    refine ⟨fun hlegible s' hs' => ?_, fun hlegible S s' s'' hs' hs'' => ?_⟩
    · rw [hplain, decode, hs', Option.bind_some]
      exact k.read_tagged (p := .top) hkey hlegible
    · have hsteady : k.recordType.codec.Steady 4 := k.steady_codec
      have hplace : k.recordType.codec.read .top (.object (before ++ after)) =
          k.recordType.codec.read Surroundings.place (.object (before ++ after)) :=
        hsteady.read_eq (p := .top) (q := Surroundings.place) (by decide) (by decide) rfl _
      rw [hplain, hplace, ← k.read_tagged hkey hlegible, decode, decode, hs', hs'',
        Option.bind_some, Option.bind_some]
      exact S.read_fill _
  · intro ms hnone
    refine ⟨fun s hs => ?_, fun S s hs => ?_⟩
    · rw [decode, hs, Option.bind_some]
      exact DefinitionList.read_eq_none hnone
    · rw [decode, hs, Option.bind_some, S.read_fill, DefinitionList.read_eq_none hnone]
      cases TypeArchive.codec.read .top (S.fill []) <;> rfl

/-! ## A primitive type in an archive -/

/-- The members of a primitive type in front of where the tag is put. -/
def scaledMembersBefore : List Json.Member :=
  [(some "name", .text "int"), (some "scale", .array [.int 10])]

/-- The members of the same type behind the tag. -/
def scaledMembersAfter : List Json.Member :=
  [(some "guid", .text "guid-int"), (some "primitiveDefCategory", .text "INT")]

/-- The text of the type without a tag. A primitive type has no member `scale`. -/
def scaledText : String :=
  "\x7b\"name\":\"int\",\"scale\":[10],\"guid\":\"guid-int\"," ++
    "\"primitiveDefCategory\":\"INT\"\x7d"

/-- The text of the type with the tag in the middle. -/
def taggedScaledText : String :=
  "\x7b\"name\":\"int\",\"scale\":[10],\"category\":\"PRIMITIVE\",\"guid\":\"guid-int\"," ++
    "\"primitiveDefCategory\":\"INT\"\x7d"

/-- An archive whose store has a list of attribute types. -/
def attributeTypeSurroundings : Surroundings .attributeTypes where
  archive := .members [(some "archiveProperties", .array [.text "guid-a", .text "Archive",
    .null, .text "CONTENT_PACK", .null, .null, .text "2024-01-01T00:00:00Z"])] []
  store := .members [] []
  before := []
  after := []
  archive_leavesOpen := trivial
  store_leavesOpen := trivial

theorem legible_scaledMembers (room : Nat) : Legible PrimitiveDef.codec (room + 2)
    (.object (scaledMembersBefore ++ scaledMembersAfter)) := by
  refine .object (.cons ?_ (.cons ?_ (.cons ?_ (.cons ?_ .nil)))) ?_
  · exact fun x _ => .string _ x
  · exact fun x _ => .string _ x
  · exact fun x _ => .nullable fun _ => .string _ x
  · intro x hx
    rw [List.mem_singleton.1 hx]
    exact .choice _ _ _ _
  · intro m hm hother
    simp only [scaledMembersBefore, scaledMembersAfter, List.cons_append, List.nil_append,
      List.mem_cons, List.not_mem_nil, or_false] at hm
    rcases hm with rfl | rfl | rfl | rfl
    · exact Json.readable_text _
    · refine Json.readable_array fun x hx => ?_
      rw [List.mem_singleton.1 hx]
      exact Json.readable_int (by decide)
    · exact Json.readable_text _
    · exact Json.readable_text _

theorem TypeKind.decode_taggedScaledText :
    AttributeTypeDef.codec.decode taggedScaledText =
        some (.primitive ⟨"guid-int", "int", none, .int⟩) ∧
      (TypeArchive.codec.decode (attributeTypeSurroundings.fill
          [tagged (.attributeType .primitive) scaledMembersBefore scaledMembersAfter]).compact).map
        TypeArchive.typeStore =
          some (some ⟨some [.primitive ⟨"guid-int", "int", none, .int⟩], none, none⟩) ∧
      AttributeTypeDef.codec.decode scaledText = none := by
  let k : TypeKind := .attributeType .primitive
  obtain ⟨htagged, huntagged⟩ := k.decode_tagged
  have hparse : Json.parse scaledText =
      some (.object (scaledMembersBefore ++ scaledMembersAfter)) :=
    Json.parse_of_compact (by decide +kernel)
  have hparse' : Json.parse taggedScaledText =
      some (k.tagged scaledMembersBefore scaledMembersAfter) :=
    Json.parse_of_compact (by decide +kernel)
  have hplain : k.recordType.codec.decode scaledText =
      some ⟨"guid-int", "int", none, .int⟩ := by
    rw [Codec.decode, hparse]
    rfl
  obtain ⟨halone, hamong⟩ := htagged hparse (by decide)
  refine ⟨?_, ?_, ?_⟩
  · have hdecode := halone (legible_scaledMembers 125) _ hparse'
    rw [hplain] at hdecode
    exact hdecode
  · have hdecode : TypeArchive.codec.decode (attributeTypeSurroundings.fill
        [k.tagged scaledMembersBefore scaledMembersAfter]).compact =
          amend (DefinitionList.attributeTypes.insertInto 0)
            (TypeArchive.codec.decode (attributeTypeSurroundings.fill []).compact)
            (some (.primitive ⟨"guid-int", "int", none, .int⟩)) :=
      (hamong (legible_scaledMembers 122) attributeTypeSurroundings _ _
        (Json.parse_render .compact _) (Json.parse_render .compact _)).trans (by rw [hplain]; rfl)
    have hbare : (TypeArchive.codec.decode (attributeTypeSurroundings.fill []).compact).map
        TypeArchive.typeStore = some (some ⟨some [], none, none⟩) := by
      rw [Codec.decode, Json.compact, Json.parse_render]
      decide +kernel
    obtain ⟨a, ha, hstore⟩ := Option.map_eq_some_iff.1 hbare
    rw [hdecode, ha]
    show some (a.typeStore.map _) = _
    rw [hstore]
    rfl
  · exact (huntagged fun _ _ heq => List.cons_ne_nil _ _ heq.symm).1 _ hparse

end MetadataArchive
