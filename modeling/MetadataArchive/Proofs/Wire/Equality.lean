import MetadataArchive.Proofs.Codec.Injective
import MetadataArchive.Proofs.Wire.RoundTrip

/-!
# Equality and texts

Two values are equal exactly if their texts are the same once every negative zero in them is written
without its sign. Equality looks at all that a text shows and at nothing else: it is the identity of
values but for that sign.
-/

namespace MetadataArchive

open Codec MetadataArchive.Field

/-! ## Negative zeros without their sign -/

namespace Binary64

/-- Whether a double is the negative zero. -/
def IsNegativeZero (x : Binary64) : Prop :=
  x.rank = 0 ∧ x.negative = true

/-- The double, zero without its sign. -/
def unsigned (x : Binary64) : Binary64 :=
  { x with negative := x.negative && x.rank != 0 }

theorem unsigned_eq_self {x : Binary64} (h : ¬ x.IsNegativeZero) : x.unsigned = x := by
  obtain ⟨negative, rank, hrank⟩ := x
  cases negative with
  | false => rfl
  | true =>
    have hne : rank ≠ 0 := fun hzero => h ⟨hzero, rfl⟩
    simp [unsigned, hne]

end Binary64

/-- The value, zero without its sign. -/
def PropertyValue.unsigned : PropertyValue → PropertyValue
  | float x => float x.unsigned
  | v => v

/-- The properties, zeros without their signs. -/
def InstanceProperties.unsigned (m : InstanceProperties) : InstanceProperties :=
  m.mapValues PropertyValue.unsigned

/-- The classification, zeros without their signs. -/
def Classification.unsigned (c : Classification) : Classification :=
  { c with properties := c.properties.unsigned }

/-- The entity, zeros without their signs. -/
def EntityDetail.unsigned (e : EntityDetail) : EntityDetail :=
  { e with
    properties := e.properties.unsigned
    classifications := e.classifications.map Classification.unsigned }

/-- The relationship, zeros without their signs. -/
def Relationship.unsigned (r : Relationship) : Relationship :=
  { r with properties := r.properties.unsigned }

/-- The store, zeros without their signs. -/
def ArchiveInstanceStore.unsigned (s : ArchiveInstanceStore) : ArchiveInstanceStore where
  entities := s.entities.map (List.map EntityDetail.unsigned)
  relationships := s.relationships.map (List.map Relationship.unsigned)

/-- The archive, zeros without their signs. -/
def TypeArchive.unsigned (a : TypeArchive) : TypeArchive :=
  { a with instanceStore := a.instanceStore.map ArchiveInstanceStore.unsigned }

/-! ## Equality as identity but for the sign of zero -/

/-- Two values are equal exactly if `f` makes them the same. -/
def EqualBy {α : Type} [BEq α] (f : α → α) : Prop :=
  ∀ a b : α, (a == b) = true ↔ f a = f b

section EqualBy

theorem equalBy_id (α : Type) [BEq α] [LawfulBEq α] : EqualBy (id : α → α) :=
  fun _ _ => beq_iff_eq

variable {α : Type} [BEq α] {f : α → α}

theorem equalBy_map (h : EqualBy f) : EqualBy (List.map f) := by
  intro as bs
  induction as generalizing bs with
  | nil => cases bs <;> simp
  | cons a as ih =>
    cases bs with
    | nil => simp
    | cons b bs => rw [List.cons_beq_cons, Bool.and_eq_true, h, ih, List.map_cons, List.map_cons,
        List.cons.injEq]

theorem equalBy_optionMap (h : EqualBy f) : EqualBy (Option.map f) := by
  intro o o'
  match o, o' with
  | none, none => simp
  | none, some b => simp
  | some a, none => simp
  | some a, some b =>
    rw [Option.some_beq_some, h, Option.map_some, Option.map_some, Option.some_inj]

theorem equalBy_mapValues (h : EqualBy f) : EqualBy (StringMap.mapValues f) := by
  have hentry : EqualBy fun e : String × α => (e.1, f e.2) := by
    intro e e'
    show (e.1 == e'.1 && e.2 == e'.2) = true ↔ _
    rw [Bool.and_eq_true, beq_iff_eq, h, Prod.mk.injEq]
  intro m n
  show (m.entries == n.entries) = true ↔ _
  rw [equalBy_map hentry]
  constructor
  · exact fun heq => StringMap.eq_of_entries_eq heq
  · exact fun heq => congrArg StringMap.entries heq

end EqualBy

theorem Binary64.equalBy_unsigned : EqualBy unsigned := by
  intro x y
  obtain ⟨negative, rank, hrank⟩ := x
  obtain ⟨negative', rank', hrank'⟩ := y
  rw [beq_iff, unsigned, unsigned, Binary64.mk.injEq]
  by_cases hzero : rank = 0
  · constructor
    · rintro ⟨rfl, -⟩
      simp [hzero]
    · rintro ⟨-, rfl⟩
      exact ⟨rfl, .inl hzero⟩
  · have hne : (rank != 0) = true := bne_iff_ne.2 hzero
    constructor
    · rintro ⟨rfl, hsign⟩
      exact ⟨congrArg (· && rank != 0) (hsign.resolve_left hzero), rfl⟩
    · rintro ⟨hsign, rfl⟩
      rw [hne, Bool.and_true, Bool.and_true] at hsign
      exact ⟨rfl, .inr hsign⟩

theorem PropertyValue.equalBy_unsigned : EqualBy unsigned := by
  intro v w
  cases v with
  | string s =>
    cases w with
    | string t =>
      show (s == t) = true ↔ string s = string t
      rw [beq_iff_eq, string.injEq]
    | _ => exact iff_of_false (fun h => nomatch h) fun h => nomatch h
  | int i =>
    cases w with
    | int k =>
      show (i == k) = true ↔ int i = int k
      rw [beq_iff_eq, int.injEq]
    | _ => exact iff_of_false (fun h => nomatch h) fun h => nomatch h
  | boolean b =>
    cases w with
    | boolean c =>
      show (b == c) = true ↔ boolean b = boolean c
      rw [beq_iff_eq, boolean.injEq]
    | _ => exact iff_of_false (fun h => nomatch h) fun h => nomatch h
  | float x =>
    cases w with
    | float y =>
      show (x == y) = true ↔ float x.unsigned = float y.unsigned
      rw [Binary64.equalBy_unsigned, float.injEq]
    | _ => exact iff_of_false (fun h => nomatch h) fun h => nomatch h
  | date t =>
    cases w with
    | date u =>
      show (t == u) = true ↔ date t = date u
      rw [beq_iff_eq, date.injEq]
    | _ => exact iff_of_false (fun h => nomatch h) fun h => nomatch h

theorem InstanceProperties.equalBy_unsigned : EqualBy unsigned :=
  equalBy_mapValues PropertyValue.equalBy_unsigned

theorem Classification.equalBy_unsigned : EqualBy unsigned := by
  intro c d
  obtain ⟨name, instanceType, status, properties⟩ := c
  obtain ⟨name', instanceType', status', properties'⟩ := d
  show (name == name' && (instanceType == instanceType' && (status == status' &&
    properties == properties'))) = true ↔ _
  simp only [unsigned, Bool.and_eq_true, beq_iff_eq, mk.injEq]
  rw [InstanceProperties.equalBy_unsigned]

theorem EntityDetail.equalBy_unsigned : EqualBy unsigned := by
  intro e e'
  obtain ⟨guid, instanceType, status, version, properties, classifications⟩ := e
  obtain ⟨guid', instanceType', status', version', properties', classifications'⟩ := e'
  show (guid == guid' && (instanceType == instanceType' && (status == status' &&
    (version == version' && (properties == properties' &&
      classifications == classifications'))))) = true ↔ _
  simp only [unsigned, Bool.and_eq_true, beq_iff_eq, mk.injEq]
  rw [InstanceProperties.equalBy_unsigned, equalBy_map Classification.equalBy_unsigned]

theorem Relationship.equalBy_unsigned : EqualBy unsigned := by
  intro r r'
  obtain ⟨guid, instanceType, status, version, properties, end1, end2⟩ := r
  obtain ⟨guid', instanceType', status', version', properties', end1', end2'⟩ := r'
  show (guid == guid' && (instanceType == instanceType' && (status == status' &&
    (version == version' && (properties == properties' && (end1 == end1' &&
      end2 == end2')))))) = true ↔ _
  simp only [unsigned, Bool.and_eq_true, beq_iff_eq, mk.injEq]
  rw [InstanceProperties.equalBy_unsigned]

theorem ArchiveInstanceStore.equalBy_unsigned : EqualBy unsigned := by
  intro s s'
  obtain ⟨entities, relationships⟩ := s
  obtain ⟨entities', relationships'⟩ := s'
  show (entities == entities' && relationships == relationships') = true ↔ _
  rw [Bool.and_eq_true, equalBy_optionMap (equalBy_map EntityDetail.equalBy_unsigned),
    equalBy_optionMap (equalBy_map Relationship.equalBy_unsigned), unsigned, unsigned, mk.injEq]

theorem TypeArchive.equalBy_unsigned : EqualBy unsigned := by
  intro a a'
  obtain ⟨properties, typeStore, instanceStore⟩ := a
  obtain ⟨properties', typeStore', instanceStore'⟩ := a'
  show (properties == properties' && (typeStore == typeStore' &&
    instanceStore == instanceStore')) = true ↔ _
  simp only [unsigned, Bool.and_eq_true, beq_iff_eq, mk.injEq]
  rw [equalBy_optionMap ArchiveInstanceStore.equalBy_unsigned]

/-! ## Values without negative zeros -/

theorem map_eq_self {α : Type} {f : α → α} {as : List α} (h : ∀ a ∈ as, f a = a) :
    as.map f = as :=
  (List.map_congr_left h).trans as.map_id

theorem optionMap_eq_self {α : Type} {f : α → α} {o : Option (List α)}
    (h : ∀ a ∈ o.getD [], f a = a) : o.map (List.map f) = o := by
  cases o with
  | none => rfl
  | some as => exact congrArg some (map_eq_self h)

theorem PropertyValue.unsigned_eq_self {v : PropertyValue}
    (h : ∀ x ∈ v.doubles, ¬ x.IsNegativeZero) : v.unsigned = v := by
  cases v with
  | float x => exact congrArg float (Binary64.unsigned_eq_self (h x List.mem_cons_self))
  | _ => rfl

theorem InstanceProperties.unsigned_eq_self {m : InstanceProperties}
    (h : ∀ x ∈ m.doubles, ¬ x.IsNegativeZero) : m.unsigned = m := by
  have hentries := List.forall_mem_flatMap.1 h
  refine StringMap.eq_of_entries_eq (map_eq_self fun e he => ?_)
  rw [PropertyValue.unsigned_eq_self (hentries e he)]

theorem Classification.unsigned_eq_self {c : Classification}
    (h : ∀ x ∈ c.doubles, ¬ x.IsNegativeZero) : c.unsigned = c := by
  rw [unsigned, InstanceProperties.unsigned_eq_self h]

theorem EntityDetail.unsigned_eq_self {e : EntityDetail}
    (h : ∀ x ∈ e.doubles, ¬ x.IsNegativeZero) : e.unsigned = e := by
  obtain ⟨hproperties, hclassifications⟩ := List.forall_mem_append.1 h
  have heach := List.forall_mem_flatMap.1 hclassifications
  rw [unsigned, InstanceProperties.unsigned_eq_self hproperties,
    map_eq_self fun c hc => Classification.unsigned_eq_self (heach c hc)]

theorem Relationship.unsigned_eq_self {r : Relationship}
    (h : ∀ x ∈ r.doubles, ¬ x.IsNegativeZero) : r.unsigned = r := by
  rw [unsigned, InstanceProperties.unsigned_eq_self h]

theorem ArchiveInstanceStore.unsigned_eq_self {s : ArchiveInstanceStore}
    (h : ∀ x ∈ s.doubles, ¬ x.IsNegativeZero) : s.unsigned = s := by
  obtain ⟨hentities, hrelationships⟩ := List.forall_mem_append.1 h
  have hentity := List.forall_mem_flatMap.1 hentities
  have hrelationship := List.forall_mem_flatMap.1 hrelationships
  rw [unsigned, optionMap_eq_self fun e he => EntityDetail.unsigned_eq_self (hentity e he),
    optionMap_eq_self fun r hr => Relationship.unsigned_eq_self (hrelationship r hr)]

theorem TypeArchive.unsigned_eq_self {a : TypeArchive}
    (h : ∀ x ∈ a.doubles, ¬ x.IsNegativeZero) : a.unsigned = a := by
  obtain ⟨properties, typeStore, instanceStore⟩ := a
  cases instanceStore with
  | none => rfl
  | some s =>
    have hstore : s.unsigned = s := ArchiveInstanceStore.unsigned_eq_self h
    rw [unsigned, Option.map_some, hstore]

/-! ## Texts of different values -/

/-- The content of a property value shows the value to those who know its type. -/
theorem PropertyValue.eq_of_writeContent_eq {v w : PropertyValue} (hkind : v.kind = w.kind)
    (h : v.writeContent = w.writeContent) : v = w := by
  cases v with
  | string s =>
    cases w with
    | string t => exact congrArg string (restores_string.separates.injective h)
    | _ => nomatch hkind
  | int i =>
    cases w with
    | int k => exact congrArg int (restores_int64.separates.injective h)
    | _ => nomatch hkind
  | boolean b =>
    cases w with
    | boolean c => exact congrArg boolean (restores_bool.separates.injective h)
    | _ => nomatch hkind
  | float x =>
    cases w with
    | float y => exact congrArg float (separates_binary64.injective h)
    | _ => nomatch hkind
  | date t =>
    cases w with
    | date u => exact congrArg date (restores_int64.separates.injective h)
    | _ => nomatch hkind

theorem PropertyValue.separates_codec : PropertyValue.codec.Separates where
  injective v w h := by
    have hmembers : [(some "type", Kind.codec.write v.kind), (some "value", v.writeContent)] =
        [(some "type", Kind.codec.write w.kind), (some "value", w.writeContent)] :=
      Json.object.inj h
    simp only [List.cons.injEq, Prod.mk.injEq, true_and, and_true] at hmembers
    exact eq_of_writeContent_eq (Kind.restores_codec.separates.injective hmembers.1) hmembers.2
  write_ne_null _ h := nomatch h

theorem InstanceProperties.separates_codec : InstanceProperties.codec.Separates :=
  separates_stringMap PropertyValue.separates_codec

theorem InstanceType.separates_codec : InstanceType.codec.Separates :=
  restores_codec.separates

theorem InstanceStatus.separates_codec : InstanceStatus.codec.Separates :=
  restores_codec.separates

theorem EntityProxy.separates_codec : EntityProxy.codec.Separates :=
  restores_codec.separates

theorem Classification.separates_codec : Classification.codec.Separates :=
  record.separates_codec (by decide) <|
    .cons (separates_required restores_string.separates) <|
    .cons (separates_required InstanceType.separates_codec) <|
    .cons (separates_defaulted InstanceStatus.separates_codec) <|
    .cons (separates_mapOrOmitted PropertyValue.separates_codec) .nil

theorem EntityDetail.separates_codec : EntityDetail.codec.Separates :=
  record.separates_codec (by decide) <|
    .cons (separates_required restores_string.separates) <|
    .cons (separates_required InstanceType.separates_codec) <|
    .cons (separates_defaulted InstanceStatus.separates_codec) <|
    .cons (separates_required restores_uint64.separates) <|
    .cons (separates_mapOrOmitted PropertyValue.separates_codec) <|
    .cons (separates_listOrOmitted Classification.separates_codec) .nil

theorem Relationship.separates_codec : Relationship.codec.Separates :=
  record.separates_codec (by decide) <|
    .cons (separates_required restores_string.separates) <|
    .cons (separates_required InstanceType.separates_codec) <|
    .cons (separates_defaulted InstanceStatus.separates_codec) <|
    .cons (separates_required restores_uint64.separates) <|
    .cons (separates_mapOrOmitted PropertyValue.separates_codec) <|
    .cons (separates_required EntityProxy.separates_codec) <|
    .cons (separates_required EntityProxy.separates_codec) .nil

theorem ArchiveInstanceStore.separates_codec : ArchiveInstanceStore.codec.Separates :=
  record.separates_codec (by decide) <|
    .cons (separates_optional (separates_list EntityDetail.separates_codec)) <|
    .cons (separates_optional (separates_list Relationship.separates_codec)) .nil

theorem TypeArchive.separates_codec : TypeArchive.codec.Separates :=
  record.separates_codec (by decide) <|
    .cons (separates_required ArchiveProperties.restores_codec.separates) <|
    .cons (separates_optional ArchiveTypeStore.restores_codec.separates) <|
    .cons (separates_optional ArchiveInstanceStore.separates_codec) .nil

/-! ## All types -/

namespace WireType

/-- Equality of the values of a type. -/
instance instBEqValue : (T : WireType) → BEq T.Value
  | attributeTypeDefCategory => inferInstanceAs (BEq AttributeTypeDefCategory)
  | typeDefCategory => inferInstanceAs (BEq TypeDefCategory)
  | typeDefLink => inferInstanceAs (BEq TypeDefLink)
  | primitiveDefCategory => inferInstanceAs (BEq PrimitiveDefCategory)
  | collectionDefCategory => inferInstanceAs (BEq CollectionDefCategory)
  | primitiveDef => inferInstanceAs (BEq PrimitiveDef)
  | collectionDef => inferInstanceAs (BEq CollectionDef)
  | enumElementDef => inferInstanceAs (BEq EnumElementDef)
  | enumDef => inferInstanceAs (BEq EnumDef)
  | attributeTypeDef => inferInstanceAs (BEq AttributeTypeDef)
  | attributeCardinality => inferInstanceAs (BEq AttributeCardinality)
  | relationshipEndCardinality => inferInstanceAs (BEq RelationshipEndCardinality)
  | propagationRule => inferInstanceAs (BEq PropagationRule)
  | typeDefAttribute => inferInstanceAs (BEq TypeDefAttribute)
  | entityDef => inferInstanceAs (BEq EntityDef)
  | classificationDef => inferInstanceAs (BEq ClassificationDef)
  | relationshipEndDef => inferInstanceAs (BEq RelationshipEndDef)
  | relationshipDef => inferInstanceAs (BEq RelationshipDef)
  | typeDef => inferInstanceAs (BEq TypeDef)
  | typeDefPatch => inferInstanceAs (BEq TypeDefPatch)
  | instanceStatus => inferInstanceAs (BEq InstanceStatus)
  | instanceType => inferInstanceAs (BEq InstanceType)
  | propertyValue => inferInstanceAs (BEq PropertyValue)
  | instanceProperties => inferInstanceAs (BEq InstanceProperties)
  | classification => inferInstanceAs (BEq Classification)
  | entityDetail => inferInstanceAs (BEq EntityDetail)
  | entityProxy => inferInstanceAs (BEq EntityProxy)
  | relationship => inferInstanceAs (BEq Relationship)
  | archiveType => inferInstanceAs (BEq ArchiveType)
  | archiveProperties => inferInstanceAs (BEq ArchiveProperties)
  | archiveTypeStore => inferInstanceAs (BEq ArchiveTypeStore)
  | archiveInstanceStore => inferInstanceAs (BEq ArchiveInstanceStore)
  | typeArchive => inferInstanceAs (BEq TypeArchive)

/-- The value, zeros without their signs. -/
def unsigned : (T : WireType) → T.Value → T.Value
  | propertyValue => PropertyValue.unsigned
  | instanceProperties => InstanceProperties.unsigned
  | classification => Classification.unsigned
  | entityDetail => EntityDetail.unsigned
  | relationship => Relationship.unsigned
  | archiveInstanceStore => ArchiveInstanceStore.unsigned
  | typeArchive => TypeArchive.unsigned
  | _ => id

theorem equalBy_unsigned (T : WireType) : EqualBy T.unsigned := by
  cases T with
  | attributeTypeDefCategory => exact equalBy_id AttributeTypeDefCategory
  | typeDefCategory => exact equalBy_id TypeDefCategory
  | typeDefLink => exact equalBy_id TypeDefLink
  | primitiveDefCategory => exact equalBy_id PrimitiveDefCategory
  | collectionDefCategory => exact equalBy_id CollectionDefCategory
  | primitiveDef => exact equalBy_id PrimitiveDef
  | collectionDef => exact equalBy_id CollectionDef
  | enumElementDef => exact equalBy_id EnumElementDef
  | enumDef => exact equalBy_id EnumDef
  | attributeTypeDef => exact equalBy_id AttributeTypeDef
  | attributeCardinality => exact equalBy_id AttributeCardinality
  | relationshipEndCardinality => exact equalBy_id RelationshipEndCardinality
  | propagationRule => exact equalBy_id PropagationRule
  | typeDefAttribute => exact equalBy_id TypeDefAttribute
  | entityDef => exact equalBy_id EntityDef
  | classificationDef => exact equalBy_id ClassificationDef
  | relationshipEndDef => exact equalBy_id RelationshipEndDef
  | relationshipDef => exact equalBy_id RelationshipDef
  | typeDef => exact equalBy_id TypeDef
  | typeDefPatch => exact equalBy_id TypeDefPatch
  | instanceStatus => exact equalBy_id InstanceStatus
  | instanceType => exact equalBy_id InstanceType
  | propertyValue => exact PropertyValue.equalBy_unsigned
  | instanceProperties => exact InstanceProperties.equalBy_unsigned
  | classification => exact Classification.equalBy_unsigned
  | entityDetail => exact EntityDetail.equalBy_unsigned
  | entityProxy => exact equalBy_id EntityProxy
  | relationship => exact Relationship.equalBy_unsigned
  | archiveType => exact equalBy_id ArchiveType
  | archiveProperties => exact equalBy_id ArchiveProperties
  | archiveTypeStore => exact equalBy_id ArchiveTypeStore
  | archiveInstanceStore => exact ArchiveInstanceStore.equalBy_unsigned
  | typeArchive => exact TypeArchive.equalBy_unsigned

theorem unsigned_eq_self (T : WireType) {v : T.Value}
    (h : ∀ x ∈ T.doubles v, ¬ x.IsNegativeZero) : T.unsigned v = v := by
  cases T with
  | propertyValue => exact PropertyValue.unsigned_eq_self h
  | instanceProperties => exact InstanceProperties.unsigned_eq_self h
  | classification => exact Classification.unsigned_eq_self h
  | entityDetail => exact EntityDetail.unsigned_eq_self h
  | relationship => exact Relationship.unsigned_eq_self h
  | archiveInstanceStore => exact ArchiveInstanceStore.unsigned_eq_self h
  | typeArchive => exact TypeArchive.unsigned_eq_self h
  | _ => rfl

/-- What has no doubles is read back, and so told apart. -/
theorem separates_of_doubles_eq_nil (T : WireType) (h : ∀ v, T.doubles v = []) :
    T.codec.Separates :=
  (T.restores_codec.congr fun v => iff_of_true (by simp [h v]) trivial).separates

theorem separates_codec (T : WireType) : T.codec.Separates := by
  cases T with
  | propertyValue => exact PropertyValue.separates_codec
  | instanceProperties => exact InstanceProperties.separates_codec
  | classification => exact Classification.separates_codec
  | entityDetail => exact EntityDetail.separates_codec
  | relationship => exact Relationship.separates_codec
  | archiveInstanceStore => exact ArchiveInstanceStore.separates_codec
  | typeArchive => exact TypeArchive.separates_codec
  | _ => exact separates_of_doubles_eq_nil _ fun _ => rfl

/-- Two values are equal exactly if their texts are the same once negative zeros are written
without their sign, and exactly if the values themselves are the same then; without negative zeros
they are equal exactly if their texts are the same. So a list that is missing differs from an empty
one, an integer from a date and from a double, and a leap second from every other second. -/
theorem beq_iff_encode_eq :
    (∀ (T : WireType) (v w : T.Value),
      ((v == w) = true ↔ T.codec.encode (T.unsigned v) = T.codec.encode (T.unsigned w)) ∧
        ((v == w) = true ↔ T.unsigned v = T.unsigned w) ∧
        ((∀ x ∈ T.doubles v ++ T.doubles w, ¬ x.IsNegativeZero) →
          ((v == w) = true ↔ T.codec.encode v = T.codec.encode w))) ∧
      (∀ s : ArchiveTypeStore,
        ({ s with attributeTypeDefs := none } == { s with attributeTypeDefs := some [] }) = false ∧
        ({ s with newTypeDefs := none } == { s with newTypeDefs := some [] }) = false ∧
        ({ s with typeDefPatches := none } == { s with typeDefPatches := some [] }) = false) ∧
      (∀ s : ArchiveInstanceStore,
        ({ s with entities := none } == { s with entities := some [] }) = false ∧
        ({ s with relationships := none } == { s with relationships := some [] }) = false) ∧
      (∀ i k x, (PropertyValue.int i == .date k) = false ∧
        (PropertyValue.int i == .float x) = false ∧ (PropertyValue.date k == .float x) = false) ∧
      ∀ (h : ArchiveProperties) (t t' : Timestamp), t.time.second = 60 → t'.time.second ≠ 60 →
        ({ h with creationDate := t } == { h with creationDate := t' }) = false := by
  refine ⟨fun T v w => ⟨?_, T.equalBy_unsigned v w, fun hpositive => ?_⟩, ?_, ?_, ?_, ?_⟩
  · rw [T.equalBy_unsigned, T.separates_codec.encode_injective.eq_iff]
  · obtain ⟨hv, hw⟩ := List.forall_mem_append.1 hpositive
    rw [T.equalBy_unsigned, T.unsigned_eq_self hv, T.unsigned_eq_self hw,
      T.separates_codec.encode_injective.eq_iff]
  · intro s
    refine ⟨beq_false_of_ne fun heq => ?_, beq_false_of_ne fun heq => ?_,
      beq_false_of_ne fun heq => ?_⟩
    · nomatch congrArg ArchiveTypeStore.attributeTypeDefs heq
    · nomatch congrArg ArchiveTypeStore.newTypeDefs heq
    · nomatch congrArg ArchiveTypeStore.typeDefPatches heq
  · exact fun s => ⟨rfl, Bool.and_false _⟩
  · exact fun i k x => ⟨rfl, rfl, rfl⟩
  · intro h t t' hleap hother
    refine beq_false_of_ne fun heq => hother ?_
    have hsame : t = t' := congrArg ArchiveProperties.creationDate heq
    rw [← hsame, hleap]

/-- The double zero with a sign. -/
def signedZero (negative : Bool) : Binary64 :=
  ⟨negative, 0, by decide⟩

theorem beq_iff_encode_eq_signedZero :
    (PropertyValue.float (signedZero true) == .float (signedZero false)) = true ∧
      PropertyValue.codec.encode (.float (signedZero true)) ≠
        PropertyValue.codec.encode (.float (signedZero false)) ∧
      (PropertyValue.int 0 == .float (signedZero false)) = false := by
  obtain ⟨hall, -, -, -, -⟩ := beq_iff_encode_eq
  obtain ⟨-, hsame, -⟩ := hall propertyValue (.float (signedZero true)) (.float (signedZero false))
  obtain ⟨-, -, htext⟩ := hall propertyValue (.int 0) (.float (signedZero false))
  refine ⟨hsame.2 rfl, by decide +kernel, Bool.eq_false_iff.2 fun heq => ?_⟩
  have hpositive : ∀ x ∈ [signedZero false], ¬ x.IsNegativeZero := fun x hx hzero => by
    rw [List.mem_singleton.1 hx] at hzero
    exact Bool.false_ne_true hzero.2
  exact absurd ((htext hpositive).1 heq) (by decide +kernel)

end WireType

end MetadataArchive
