import MetadataArchive.Proofs.Codec.Grammar
import MetadataArchive.Proofs.Codec.Rearrangement
import MetadataArchive.Proofs.Wire.Kind

/-!
# The grammar of the record types

Which keys each record type has, and which of them must be there or may be null. An object text
decodes exactly if it keeps to this grammar and all its keys have a text, also those that are passed
over. What it decodes to depends on the members under the known keys alone, in every record that is
nested in it.
-/

namespace MetadataArchive

theorem Json.parse_of_compact {v : Json} {s : String} (h : v.compact = s) :
    parse s = some v := by
  rw [← h]
  exact parse_render _ v

/-! ## Keys -/

namespace RecordType

/-- The keys of a record type, with what may be missing or null. -/
def grammar : RecordType → List (String × Presence)
  | typeDefLink => [("guid", .required), ("name", .required)]
  | primitiveDef =>
    [("guid", .required), ("name", .required), ("description", .optional),
      ("primitiveDefCategory", .required)]
  | collectionDef =>
    [("guid", .required), ("name", .required), ("description", .optional),
      ("collectionDefCategory", .required), ("argumentTypes", .defaulted)]
  | enumElementDef =>
    [("ordinal", .required), ("value", .required), ("description", .optional)]
  | enumDef =>
    [("guid", .required), ("name", .required), ("description", .optional),
      ("elementDefs", .defaulted), ("defaultValue", .optional)]
  | typeDefAttribute =>
    [("attributeName", .required), ("attributeType", .required),
      ("attributeDescription", .optional), ("cardinality", .defaulted), ("unique", .defaulted)]
  | entityDef =>
    [("guid", .required), ("name", .required), ("version", .required), ("versionName", .required),
      ("description", .optional), ("superType", .optional), ("propertiesDefinition", .defaulted)]
  | classificationDef =>
    [("guid", .required), ("name", .required), ("version", .required), ("versionName", .required),
      ("description", .optional), ("superType", .optional), ("propertiesDefinition", .defaulted),
      ("validEntityDefs", .defaulted), ("propagatable", .defaulted)]
  | relationshipEndDef =>
    [("entityType", .required), ("attributeName", .required), ("attributeDescription", .optional),
      ("attributeCardinality", .defaulted)]
  | relationshipDef =>
    [("guid", .required), ("name", .required), ("version", .required), ("versionName", .required),
      ("description", .optional), ("propertiesDefinition", .defaulted), ("endDef1", .required),
      ("endDef2", .required), ("propagationRule", .defaulted)]
  | typeDefPatch =>
    [("typeDefGuid", .required), ("typeName", .required), ("applyToVersion", .required),
      ("updateToVersion", .required), ("newVersionName", .required), ("description", .optional),
      ("propertiesToAdd", .defaulted)]
  | instanceType =>
    [("typeDefGuid", .required), ("typeDefName", .required), ("typeDefCategory", .required)]
  | classification =>
    [("name", .required), ("instanceType", .required), ("status", .defaulted),
      ("properties", .defaulted)]
  | entityDetail =>
    [("guid", .required), ("instanceType", .required), ("status", .defaulted),
      ("version", .required), ("properties", .defaulted), ("classifications", .defaulted)]
  | entityProxy => [("guid", .required), ("instanceType", .required)]
  | relationship =>
    [("guid", .required), ("instanceType", .required), ("status", .defaulted),
      ("version", .required), ("properties", .defaulted), ("entityOneProxy", .required),
      ("entityTwoProxy", .required)]
  | archiveProperties =>
    [("archiveGuid", .required), ("archiveName", .required), ("archiveDescription", .optional),
      ("archiveType", .defaulted), ("originatorName", .optional), ("originatorLicense", .optional),
      ("creationDate", .required), ("dependsOnArchives", .defaulted)]
  | archiveTypeStore =>
    [("attributeTypeDefs", .optional), ("newTypeDefs", .optional), ("typeDefPatches", .optional)]
  | archiveInstanceStore => [("entities", .optional), ("relationships", .optional)]
  | typeArchive =>
    [("archiveProperties", .required), ("archiveTypeStore", .optional),
      ("archiveInstanceStore", .optional)]

theorem follows_fields (T : RecordType) : T.record.fields.Follows T.grammar := by
  cases T <;>
    repeat' first
      | exact .nil
      | refine .required rfl (fun _ => rfl) ?_
      | refine .optional rfl (fun _ => rfl) ?_
      | refine .defaulted rfl (fun _ => rfl) ?_

/-! ## Decoding -/

/-- The place of the members of a whole text. -/
def memberPlace : Place :=
  ⟨Json.nestingLimit - 1, false⟩

theorem enter_top : Place.top.enter = some memberPlace :=
  rfl

/-- The members of an object that keep to the grammar of a record type: of each key at most one, of
each required key one, and under each key a value that decodes as the field, which is null for
optional fields only. Other members do not matter. -/
def Accepts (T : RecordType) (ms : List Json.Member) : Prop :=
  T.record.fields.Accepts T.grammar memberPlace ms

/-- An object text decodes as a record type exactly if its members keep to the grammar and all keys
have a text. Each field is then what its own member decodes to, or else its default. The outcome is
the same for every text in which members are put in another order, or members that are not known are
added or left out, there or in a record that is nested in a known member. -/
theorem decode_object (T : RecordType) {s : String} {ms : List Json.Member}
    (h : Json.parse s = some (.object ms)) :
    ((∃ v, T.codec.decode s = some v) ↔ (∀ m ∈ ms, m.1 ≠ none) ∧ T.Accepts ms) ∧
      (∀ v, T.codec.decode s = some v → T.record.fields.AllWith
        (fun f a => (Json.valuesAt f.key ms = [] → f.absent = some a) ∧
          ∀ j ∈ Json.valuesAt f.key ms, f.codec.read memberPlace j = some a)
        (T.record.values v)) ∧
      ∀ s' j', Json.parse s' = some j' → Rearranged T.codec (.object ms) j' →
        T.codec.decode s' = T.codec.decode s := by
  have hdecode : T.codec.decode s = T.record.read .top (.object ms) := by
    rw [Codec.decode, h, Option.bind_some]
    rfl
  refine ⟨?_, fun v hv => ?_, fun s' j' hs' hrearranged => ?_⟩
  · rw [hdecode]
    exact Record.exists_read_object_iff T.follows_fields enter_top
  · rw [hdecode] at hv
    exact Record.values_of_read_object enter_top hv
  · rw [Codec.decode, hs', hdecode, Option.bind_some]
    exact (hrearranged.read_eq .top).symm

/-- The members of a link. -/
def hostLinkMembers : List Json.Member :=
  [(some "guid", .text "guid-host"), (some "name", .text "Host")]

/-- The members of an end of a relationship type. -/
def hostEndMembers : List Json.Member :=
  [(some "entityType", .object hostLinkMembers), (some "attributeName", .text "host")]

/-- The text of an end of a relationship type, with a link nested in it. -/
def hostEndText : String :=
  "\x7b\"entityType\":\x7b\"guid\":\"guid-host\",\"name\":\"Host\"\x7d," ++
    "\"attributeName\":\"host\"\x7d"

/-- The members of the same link with one that is not known, and the others the other way round. -/
def rearrangedLinkMembers : List Json.Member :=
  (some "kind", .text "EntityDef") :: hostLinkMembers.reverse

/-- The members of the same end, with another one and in another order, and so its link. -/
def rearrangedEndMembers : List Json.Member :=
  [(some "side", .array [.null]), (some "attributeName", .text "host"),
    (some "entityType", .object rearrangedLinkMembers)]

/-- The text of the rearranged end. -/
def rearrangedEndText : String :=
  "\x7b\"side\":[null],\"attributeName\":\"host\",\"entityType\":" ++
    "\x7b\"kind\":\"EntityDef\",\"name\":\"Host\",\"guid\":\"guid-host\"\x7d\x7d"

theorem rearranged_hostEndMembers : Rearranged relationshipEndDef.codec (.object hostEndMembers)
    (.object rearrangedEndMembers) := by
  have hlink : Rearranged TypeDefLink.codec (.object hostLinkMembers)
      (.object rearrangedLinkMembers) :=
    (Rearranged.order TypeDefLink.record (List.reverse_perm hostLinkMembers).symm).trans
      (.unknown TypeDefLink.record (by decide) _ _)
  have hmember : Rearranged relationshipEndDef.codec (.object hostEndMembers) (.object
      [(some "entityType", .object rearrangedLinkMembers), (some "attributeName", .text "host")]) :=
    .member (r := RelationshipEndDef.record) (by decide) (.first _ _) hlink _
  exact hmember.trans ((Rearranged.order RelationshipEndDef.record (List.Perm.swap _ _ _)).trans
    (.unknown RelationshipEndDef.record (by decide) _ _))

theorem decode_object_hostEndText : Json.parse hostEndText = some (.object hostEndMembers) ∧
    relationshipEndDef.Accepts hostEndMembers ∧
      relationshipEndDef.codec.decode rearrangedEndText =
        relationshipEndDef.codec.decode hostEndText := by
  have hparse : Json.parse hostEndText = some (.object hostEndMembers) :=
    Json.parse_of_compact (by decide +kernel)
  have hparse' : Json.parse rearrangedEndText = some (.object rearrangedEndMembers) :=
    Json.parse_of_compact (by decide +kernel)
  have hdecode : relationshipEndDef.codec.decode hostEndText =
      some (.plain ⟨"guid-host", "Host"⟩ "host") := by
    rw [Codec.decode, hparse]
    rfl
  obtain ⟨hiff, -, hsame⟩ := decode_object relationshipEndDef hparse
  exact ⟨hparse, (hiff.1 ⟨_, hdecode⟩).2, hsame _ _ hparse' rearranged_hostEndMembers⟩

/-- The text of a link with a member whose key names half of a surrogate pair. -/
def surrogateKeyText : String :=
  "\x7b\"\\ud800\":1,\"guid\":\"guid-host\",\"name\":\"Host\"\x7d"

/-- It is not enough to keep to the grammar: a key that is passed over must have a text too. -/
theorem not_forall_exists_decode_iff_accepts : ¬ ∀ (T : RecordType) (s : String)
    (ms : List Json.Member), Json.parse s = some (.object ms) →
      ((∃ v, T.codec.decode s = some v) ↔ T.Accepts ms) := by
  intro h
  have hparse : Json.parse surrogateKeyText =
      some (.object ((none, .int 1) :: hostLinkMembers)) :=
    Json.parse_of_compact (by decide +kernel)
  have hnone : typeDefLink.codec.decode surrogateKeyText = none := by
    rw [Codec.decode, hparse]
    rfl
  -- a key without a text is none of those in the grammar
  have haccepts : typeDefLink.Accepts ((none, .int 1) :: hostLinkMembers) := by
    have hlink : typeDefLink.Accepts hostLinkMembers :=
      ((Record.exists_read_object_iff typeDefLink.follows_fields enter_top).1
        ⟨⟨"guid-host", "Host"⟩, rfl⟩).2
    exact ⟨hlink.once, hlink.present, hlink.reads, hlink.nulls⟩
  obtain ⟨v, hv⟩ := (h _ _ _ hparse).2 haccepts
  rw [hnone] at hv
  cases hv

end RecordType

end MetadataArchive
