import MetadataArchive.Proofs.Codec.Positional
import MetadataArchive.Proofs.Wire.Category

/-!
# Values from arrays and from objects

An array of field values in order and an object that names them decode to the same value, for every
record type and, with the tag in front, for every kind of definitions; and so do the two forms of a
property value. Two forms of a part are not the same everywhere: in the array of a property value
the type must be a plain string, and around a tag every part must be readable.
-/

namespace MetadataArchive

open RecordType (memberPlace enter_top)

/-! ## Texts of a value -/

/-- Every text of a JSON value has the outcome when it is decoded. -/
def Codec.Decodes {α : Type} (c : Codec α) (j : Json) (outcome : Option α) : Prop :=
  ∀ s, Json.parse s = some j → c.decode s = outcome

theorem Codec.decodes_iff {α : Type} {c : Codec α} {j : Json} {outcome : Option α} :
    c.Decodes j outcome ↔ c.read .top j = outcome := by
  constructor
  · intro h
    rw [← h j.compact (Json.parse_render .compact j), decode, Json.compact, Json.parse_render,
      Option.bind_some]
  · intro h s hs
    rw [decode, hs, Option.bind_some, h]

/-! ## Forms of the fields -/

/-- The place of the parts of a text, which may have a tag. -/
def partPlace (tag : Option String) : Place :=
  ⟨Json.nestingLimit - 1, tag.isSome⟩

/-- Forms of the fields of a record, one for each in order: they decode as the values of the fields
where they stand, and under a tag everything in them is readable. -/
structure RecordType.Forms (T : RecordType) (tag : Option String) (v : T.Value)
    (js : List Json) : Prop where
  spells : T.record.fields.Spells (partPlace tag) (T.record.values v) js
  readable : tag.isSome = true → ∀ j ∈ js, j.readable (partPlace tag).room = true

namespace RecordType

variable (T : RecordType)

/-- What stands for a missing member is spelled by what is written for it. -/
theorem absentSpelled (tag : Option String) : T.record.fields.All fun f =>
    f.AbsentSpelled (partPlace tag) fun j =>
      tag.isSome = true → j.readable (partPlace tag).room = true := by
  cases T <;>
    repeat' first
      | exact .nil
      | refine .cons (Field.absentSpelled_required rfl) ?_
      | refine .cons (Field.absentSpelled_of_write rfl rfl fun _ => rfl) ?_

/-- The fields of a record that is read have forms. -/
theorem exists_forms (tag : Option String) {j : Json}
    (hreadable : tag.isSome = true → j.readable Json.nestingLimit = true) {v : T.Value}
    (h : T.codec.read ⟨Json.nestingLimit, tag.isSome⟩ j = some v) : ∃ js, T.Forms tag v js := by
  obtain ⟨js, hspells, hjs⟩ := Record.exists_spells_of_read rfl (T.absentSpelled tag)
    (fun ms hms m hm htag => Json.readable_of_mem_object (hms ▸ hreadable htag) hm)
    (fun xs hxs x hx htag => Json.readable_of_mem_array (hxs ▸ hreadable htag) hx) h
  exact ⟨js, hspells, fun htag j hj => hjs j hj htag⟩

end RecordType

/-! ## Records and definitions -/

/-- A codec takes arrays and objects of the field values of a record type for the same values, with
a tag in front or among the members if there is one. -/
structure Codec.Positional {α : Type} (c : Codec α) (tag : Option String) (T : RecordType)
    (make : T.Value → α) : Prop where
  /-- The fields of every value that a text decodes to have forms. -/
  forms : ∀ {s : String} {v : T.Value}, c.decode s = some (make v) → ∃ js, T.Forms tag v js
  /-- Forms in order decode to their value, and so they do without a tail of them that are forms of
  default values. -/
  array : ∀ {v : T.Value} {js : List Json}, T.Forms tag v js →
    ∀ n, (∀ i, n ≤ i → i < js.length → T.record.fields.IsDefault (T.record.values v) i) →
      c.Decodes (.array (tag.toList.map .text ++ js.take n)) (some (make v))
  /-- Named forms decode to the value in any order, and so they do without any of them that are
  forms of default values. -/
  object : ∀ {v : T.Value} {js : List Json}, T.Forms tag v js →
    ∀ keep : String → Bool, (∀ i key, T.record.fields.keys[i]? = some key → keep key = false →
      T.record.fields.IsDefault (T.record.values v) i) →
    ∀ ms, ms.Perm (tag.toList.map (fun s => (some categoryKey, .text s)) ++
        T.record.fields.named keep js) →
      c.Decodes (.object ms) (some (make v))
  /-- An array in which a required field has no item does not decode. -/
  short : ∀ {n : Nat} {key : String} {js : List Json}, T.grammar[n]? = some (key, .required) →
    js.length ≤ n → c.Decodes (.array (tag.toList.map .text ++ js)) none
  /-- An array with more items than there are fields does not decode. -/
  long : ∀ {js : List Json}, T.grammar.length < js.length →
    c.Decodes (.array (tag.toList.map .text ++ js)) none

namespace RecordType

variable (T : RecordType)

theorem nodup_keys : T.record.fields.keys.Nodup := by
  cases T <;> decide

theorem length_keys : T.record.fields.keys.length = T.grammar.length := by
  cases T <;> rfl

theorem readItems_eq_none_of_short {n : Nat} {key : String} {js : List Json}
    (hrequired : T.grammar[n]? = some (key, .required)) (hshort : js.length ≤ n) (q : Place) :
    T.record.fields.readItems q js = none :=
  T.follows_fields.readItems_eq_none hrequired hshort

theorem readItems_eq_none_of_long {js : List Json} (hlong : T.grammar.length < js.length)
    (q : Place) : T.record.fields.readItems q js = none :=
  Fields.readItems_eq_none_of_lt (by rw [T.length_keys]; exact hlong)

theorem positional_codec : T.codec.Positional none T id where
  forms hdecode := by
    obtain ⟨j, -, hread⟩ := Option.bind_eq_some_iff.1 hdecode
    exact T.exists_forms none (fun htag => nomatch htag) hread
  array h _ hdefault := Codec.decodes_iff.2 (Record.read_take enter_top h.spells hdefault)
  object h _ hdefault _ hms :=
    Codec.decodes_iff.2 (Record.read_named enter_top h.spells T.nodup_keys hdefault hms)
  short hrequired hshort := Codec.decodes_iff.2
    (Record.read_array_eq_none (T.readItems_eq_none_of_short hrequired hshort) .top)
  long hlong := Codec.decodes_iff.2
    (Record.read_array_eq_none (T.readItems_eq_none_of_long hlong) .top)

end RecordType

namespace TypeKind

variable (k : TypeKind)

/-- The place of the parts of a definition behind its tag. -/
theorem enter_categorize_top : Place.top.categorize.enter = some (partPlace (some k.tag)) :=
  rfl

/-- What decodes by itself as the fields of a definition also does so behind the tag. -/
theorem forms_tagged {v : k.recordType.Value} {js : List Json} (h : k.recordType.Forms none v js)
    (hreadable : ∀ j ∈ js, j.readable memberPlace.room = true) :
    k.recordType.Forms (some k.tag) v js where
  spells := by
    have hsteady : k.recordType.codec.Steady 4 := k.steady_codec
    have htop : k.recordType.codec.read .top (.array (js.take js.length)) = some v :=
      Record.read_take enter_top h.spells fun i hn hi => absurd hi (Nat.not_lt.2 hn)
    have htagged : k.recordType.codec.read Place.top.categorize (.array js) = some v := by
      rw [List.take_length] at htop
      exact hsteady ⟨show 4 ≤ Json.nestingLimit by decide, fun _ => rfl⟩ htop
    obtain ⟨t, ht, rfl⟩ := Option.map_eq_some_iff.1 htagged
    rw [Record.values_ofValues]
    exact Fields.spells_of_readItems h.spells.length_eq ht
  readable _ := hreadable

theorem read_array_of_record {js : List Json}
    (hreadable : ∀ j ∈ js, j.readable memberPlace.room = true) {v : k.recordType.Value}
    (h : k.recordType.codec.read Place.top.categorize (.array js) = some v) :
    k.list.codec.read .top (.array (.text k.tag :: js)) = some (k.entry v) := by
  have htagged : (Json.array (.text k.tag :: js)).readable Place.top.room = true :=
    Json.readable_array (List.forall_mem_cons.2 ⟨Json.readable_text k.tag, hreadable⟩)
  rw [DefinitionList.codec_eq_categorized, Codec.read_categorized_array, if_pos htagged,
    k.readKind_tag, h, Option.map_some]

theorem read_array_eq_none_of_record {js : List Json}
    (h : ∀ p, k.recordType.codec.read p (.array js) = none) :
    k.list.codec.read .top (.array (.text k.tag :: js)) = none := by
  rw [DefinitionList.codec_eq_categorized, Codec.read_categorized_array, k.readKind_tag, h,
    Option.map_none, ite_self]

theorem read_object_of_record {ms ms' : List Json.Member}
    (hms : ms.Perm ((some categoryKey, .text k.tag) :: ms'))
    (hkey : ∀ m ∈ ms', m.1 ≠ some categoryKey)
    (hreadable : ∀ m ∈ ms', m.1.isSome = true ∧ m.2.readable memberPlace.room = true)
    {v : k.recordType.Value} (h : ∀ ms'', ms''.Perm ms' →
      k.recordType.codec.read Place.top.categorize (.object ms'') = some v) :
    k.list.codec.read .top (.object ms) = some (k.entry v) := by
  obtain ⟨before, after, rfl⟩ := List.append_of_mem (hms.mem_iff.2 List.mem_cons_self)
  have hrest : (before ++ after).Perm ms' :=
    (List.perm_cons _).1 (List.perm_middle.symm.trans hms)
  have hbody : (Json.object (before ++ after)).readable Place.top.room = true :=
    Json.readable_object fun m hm => hreadable m (hrest.mem_iff.1 hm)
  rw [DefinitionList.codec_eq_categorized,
    Codec.read_categorized_insertTag k.tag fun m hm => hkey m (hrest.mem_iff.1 hm), if_pos hbody,
    k.readKind_tag, h _ hrest, Option.map_some]

theorem positional_codec : k.list.codec.Positional (some k.tag) k.recordType k.entry where
  forms hdecode := by
    obtain ⟨j, -, hread⟩ := Option.bind_eq_some_iff.1 hdecode
    rw [DefinitionList.codec_eq_categorized] at hread
    obtain ⟨tag, body, hbody, hkind⟩ := Codec.exists_of_read_categorized hread
    exact k.recordType.exists_forms (some k.tag) (fun _ => hbody) (k.read_of_readKind hkind)
  array h n hdefault := Codec.decodes_iff.2 <|
    k.read_array_of_record (fun j hj => h.readable rfl j (List.mem_of_mem_take hj))
      (Record.read_take k.enter_categorize_top h.spells hdefault)
  object {v js} h keep hdefault ms hms := by
    refine Codec.decodes_iff.2 (k.read_object_of_record hms (fun m hm heq => ?_) (fun m hm => ?_)
      fun ms'' hms'' => Record.read_named k.enter_categorize_top h.spells k.recordType.nodup_keys
        hdefault hms'')
    · obtain ⟨key, hkey, hm⟩ := Fields.fst_of_mem_named hm
      cases hm.symm.trans heq
      exact k.categoryKey_not_mem hkey
    · obtain ⟨key, -, hkey⟩ := Fields.fst_of_mem_named hm
      rw [hkey]
      exact ⟨rfl, h.readable rfl m.2 (Fields.snd_mem_of_mem_named hm)⟩
  short hrequired hshort := Codec.decodes_iff.2 <| k.read_array_eq_none_of_record <|
    Record.read_array_eq_none (k.recordType.readItems_eq_none_of_short hrequired hshort)
  long hlong := Codec.decodes_iff.2 <| k.read_array_eq_none_of_record <|
    Record.read_array_eq_none (k.recordType.readItems_eq_none_of_long hlong)

end TypeKind

/-! ## Property values -/

namespace PropertyValue

variable {v : PropertyValue} {t x : Json}

theorem kind_of_readKind {kind : Kind} {p : Place} (h : readKind kind p x = some v) :
    v.kind = kind := by
  cases kind <;>
  · obtain ⟨_, -, rfl⟩ := Option.map_eq_some_iff.1 h
    rfl

/-- The type and the value of a property value that is read have forms. -/
theorem exists_forms {j : Json} (h : codec.read .top j = some v) :
    ∃ t x, Kind.codec.read memberPlace t = some v.kind ∧
      readKind v.kind memberPlace x = some v := by
  have hforms {t x : Json}
      (hread : ((Kind.codec.read memberPlace t).bind fun kind => readKind kind memberPlace x) =
        some v) : ∃ t x, Kind.codec.read memberPlace t = some v.kind ∧
          readKind v.kind memberPlace x = some v := by
    obtain ⟨kind, hkind, hvalue⟩ := Option.bind_eq_some_iff.1 hread
    obtain rfl := kind_of_readKind hvalue
    exact ⟨t, x, hkind, hvalue⟩
  change Codec.readTyped Kind.codec readKind .top j = some v at h
  simp only [Codec.readTyped, enter_top, Option.bind_eq_bind, Option.bind_some] at h
  split at h
  · split at h
    · split at h
      · exact hforms h
      · cases h
    · cases h
  · exact hforms h
  · cases h

theorem read_object (hkind : Kind.codec.read memberPlace t = some v.kind)
    (hvalue : readKind v.kind memberPlace x = some v) {ms : List Json.Member}
    (hms : ms.Perm [(some "type", t), (some "value", x)]) :
    codec.read .top (.object ms) = some v := by
  show Codec.readTyped Kind.codec readKind .top (.object ms) = _
  rw [Codec.readTyped_perm hms]
  show (Place.top.enter.bind fun q => (Kind.codec.read q t).bind fun kind => readKind kind q x) = _
  rw [enter_top, Option.bind_some, hkind, Option.bind_some, hvalue]

theorem read_array (hvalue : readKind v.kind memberPlace x = some v) :
    codec.read .top (.array [.text v.kind.tag, x]) = some v := by
  have hkind : Kind.codec.read memberPlace (.text v.kind.tag) = some v.kind := by
    cases v <;> rfl
  show (Place.top.enter.bind fun q => (Kind.codec.read q (.text v.kind.tag)).bind fun kind =>
    readKind kind q x) = _
  rw [enter_top, Option.bind_some, hkind, Option.bind_some, hvalue]

/-- No array is read but one of two items of which the first is a string. -/
theorem read_array_eq_none {xs : List Json} (h : ∀ s y, xs ≠ [.string s, y]) :
    codec.read .top (.array xs) = none := by
  show Codec.readTyped Kind.codec readKind .top (.array xs) = none
  simp only [Codec.readTyped, enter_top, Option.bind_eq_bind, Option.bind_some]
  split
  · next heq => cases heq
  · next s y heq =>
    cases heq
    exact absurd rfl (h s y)
  · rfl

end PropertyValue

/-! ## All of them -/

/-- For every record type, for every kind of definitions with its tag, and for property values,
arrays and objects of the same parts decode to the same value, and an array without a required part
or with one too many does not decode. Forms that decode by themselves do so behind a tag if they are
readable. The fields of every value that decodes have forms. -/
theorem decodes_positional :
    (∀ T : RecordType, T.codec.Positional none T id) ∧
      (∀ k : TypeKind, k.list.codec.Positional (some k.tag) k.recordType k.entry ∧
        ∀ {v : k.recordType.Value} {js : List Json}, k.recordType.Forms none v js →
          (∀ j ∈ js, j.readable memberPlace.room = true) →
            k.recordType.Forms (some k.tag) v js) ∧
      (∀ {v : PropertyValue},
        (∀ {s}, PropertyValue.codec.decode s = some v →
          ∃ t x, PropertyValue.Kind.codec.read memberPlace t = some v.kind ∧
            PropertyValue.readKind v.kind memberPlace x = some v) ∧
        ∀ {x : Json}, PropertyValue.readKind v.kind memberPlace x = some v →
          (∀ {t : Json}, PropertyValue.Kind.codec.read memberPlace t = some v.kind →
            ∀ ms, ms.Perm [(some "type", t), (some "value", x)] →
              PropertyValue.codec.Decodes (.object ms) (some v)) ∧
          PropertyValue.codec.Decodes (.array [.text v.kind.tag, x]) (some v)) ∧
      ∀ xs, (∀ s y, xs ≠ [.string s, y]) → PropertyValue.codec.Decodes (.array xs) none := by
  refine ⟨RecordType.positional_codec, fun k => ⟨k.positional_codec, k.forms_tagged⟩,
    fun {v} => ⟨fun hdecode => ?_, fun hvalue => ⟨?_, ?_⟩⟩, fun xs hxs => ?_⟩
  · obtain ⟨j, -, hread⟩ := Option.bind_eq_some_iff.1 hdecode
    exact PropertyValue.exists_forms hread
  · intro t hkind ms hms
    exact Codec.decodes_iff.2 (PropertyValue.read_object hkind hvalue hms)
  · exact Codec.decodes_iff.2 (PropertyValue.read_array hvalue)
  · exact Codec.decodes_iff.2 (PropertyValue.read_array_eq_none hxs)

/-- The forms of the fields of an attribute whose last three have their default values. -/
def ownerForms : List Json :=
  [.text "owner", .text "string", .null, .object [(some "EXACTLY_ONE", .null)], .bool false]

/-- An attribute of which only the name and the type are not default values. -/
def ownerAttribute : TypeDefAttribute :=
  ⟨"owner", "string", none, .exactlyOne, false⟩

/-- The forms of the fields of a collection type without arguments. Only behind a tag an empty
object names its category. -/
def tagsForms : List Json :=
  [.text "guid-tags", .text "tags", .null, .object [(some "STRUCT", .object [])], .array []]

/-- A collection type without arguments. -/
def tagsDef : CollectionDef :=
  ⟨"guid-tags", "tags", none, .struct, []⟩

theorem forms_ownerForms : RecordType.typeDefAttribute.Forms none ownerAttribute ownerForms where
  spells := .cons rfl <| .cons rfl <| .cons rfl <| .cons rfl <| .cons rfl .nil
  readable h := nomatch h

theorem forms_tagsForms : RecordType.collectionDef.Forms (some "COLLECTION") tagsDef tagsForms where
  spells := .cons rfl <| .cons rfl <| .cons rfl <| .cons rfl <| .cons rfl .nil
  readable _ := by decide +kernel

theorem decodes_positional_ownerForms :
    TypeDefAttribute.codec.Decodes (.array ownerForms) (some ownerAttribute) ∧
      TypeDefAttribute.codec.Decodes (.array [.text "owner", .text "string"])
        (some ownerAttribute) ∧
      TypeDefAttribute.codec.Decodes
        (.object [(some "attributeType", .text "string"), (some "attributeName", .text "owner")])
        (some ownerAttribute) ∧
      TypeDefAttribute.codec.Decodes (.array [.text "owner"]) none ∧
      AttributeTypeDef.codec.Decodes (.array [.text "COLLECTION", .text "guid-tags", .text "tags",
        .null, .object [(some "STRUCT", .object [])]]) (some (.collection tagsDef)) ∧
      PropertyValue.codec.Decodes
        (.object [(some "value", .int 5), (some "type", .object [(some "int", .null)])])
        (some (.int 5)) ∧
      PropertyValue.codec.Decodes (.array [.text "int", .int 5]) (some (.int 5)) := by
  obtain ⟨hrecord, htagged, hvalue, -⟩ := decodes_positional
  have howner := hrecord .typeDefAttribute
  obtain ⟨htags, -⟩ := htagged (.attributeType .collection)
  obtain ⟨-, hforms⟩ := hvalue (v := .int 5)
  obtain ⟨hobject, harray⟩ := hforms (x := .int 5) rfl
  refine ⟨?_, ?_, ?_, ?_, ?_, ?_, harray⟩
  · exact howner.array forms_ownerForms 5 fun i hn hi => absurd hi (Nat.not_lt.2 hn)
  · refine howner.array forms_ownerForms 2 fun i hn hi => ?_
    have hi : i < 5 := hi
    obtain rfl | rfl | rfl : i = 2 ∨ i = 3 ∨ i = 4 := by omega
    · rfl
    · rfl
    · rfl
  · refine howner.object forms_ownerForms
      (fun key => key == "attributeName" || key == "attributeType") ?_ _ (.swap _ _ _)
    intro i key hkey hdrop
    match i with
    | 0 | 1 =>
      cases hkey
      exact absurd hdrop (by decide)
    | 2 | 3 | 4 => rfl
    | _ + 5 => nomatch hkey
  · exact howner.short (n := 1) rfl (by decide)
  · refine htags.array forms_tagsForms 4 fun i hn hi => ?_
    have hi : i < 5 := hi
    obtain rfl : i = 4 := by omega
    rfl
  · exact hobject (t := .object [(some "int", .null)]) rfl _ (.swap _ _ _)

/-! ## Forms that differ -/

/-- An object that spells a link, beside a number greater than all doubles. -/
def unreadableLink : Json :=
  .object [(some "guid", .text "guid-base"), (some "name", .text "Base"),
    (some "rank", .number ⟨false, 1, 0, some 999⟩)]

/-- The forms of the fields of an entity type whose super type is given by that object. -/
def unreadableForms : List Json :=
  [.text "guid-host", .text "Host", .int 1, .text "1.0", .null, unreadableLink, .array []]

/-- Null inside of arrays nested a number of times. -/
def nestedArrays : Nat → Json
  | 0 => .null
  | n + 1 => .array [nestedArrays n]

/-- A list of one entity type with a member beside it, nested as deeply as a list of definitions can
be nested by itself. -/
def deepDefinitions : Json :=
  .array [.object [(some categoryKey, .text "ENTITY_DEF"), (some "guid", .text "guid-host"),
    (some "name", .text "Host"), (some "version", .int 1), (some "versionName", .text "1.0"),
    (some "notes", nestedArrays 125)]]

/-- Not every form of a part can stand in the array: not a type as an object in that of a property
value, not what is unreadable behind a tag, and not what is nested too deeply there. -/
theorem not_decodes_positional :
    (PropertyValue.codec.decode "\x7b\"type\":\x7b\"int\":null\x7d,\"value\":5\x7d" =
        some (.int 5) ∧
      PropertyValue.codec.decode "[\x7b\"int\":null\x7d,5]" = none) ∧
    (EntityDef.codec.decode (Json.array unreadableForms).compact =
        some ⟨"guid-host", "Host", 1, "1.0", none, some ⟨"guid-base", "Base"⟩, []⟩ ∧
      TypeDef.codec.decode (Json.array (.text "ENTITY_DEF" :: unreadableForms)).compact = none) ∧
    (Codec.list TypeDef.codec).decode deepDefinitions.compact =
        some [.entity (.plain "guid-host" "Host")] ∧
      ArchiveTypeStore.codec.decode (Json.array [.null, deepDefinitions, .null]).compact = none := by
  have hobject : Json.parse "\x7b\"type\":\x7b\"int\":null\x7d,\"value\":5\x7d" = some (.object
      [(some "type", .object [(some "int", .null)]), (some "value", .int 5)]) :=
    Json.parse_of_compact (by decide +kernel)
  have harray : Json.parse "[\x7b\"int\":null\x7d,5]" =
      some (.array [.object [(some "int", .null)], .int 5]) :=
    Json.parse_of_compact (by decide +kernel)
  refine ⟨⟨?_, ?_⟩, ⟨?_, ?_⟩, ?_, ?_⟩
  · rw [Codec.decode, hobject]
    rfl
  · rw [Codec.decode, harray]
    rfl
  · exact Codec.decodes_iff.2 rfl _ (Json.parse_render .compact _)
  · exact Codec.decodes_iff.2 (by decide +kernel) _ (Json.parse_render .compact _)
  · exact Codec.decodes_iff.2 (by decide +kernel) _ (Json.parse_render .compact _)
  · exact Codec.decodes_iff.2 (by decide +kernel) _ (Json.parse_render .compact _)

end MetadataArchive
