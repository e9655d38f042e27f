import MetadataArchive.Proofs.Wire.Definitions
import MetadataArchive.Wire.Archive

/-!
# Instances and archives restored

An instance is read back from its JSON form exactly if each double among its property values is, and
so is an archive: nothing else in it can be lost.
-/

namespace MetadataArchive

open Codec MetadataArchive.Field

variable {depth : Nat}

/-! ## Doubles in values -/

/-- The doubles in a property value. -/
def PropertyValue.doubles : PropertyValue → List Binary64
  | float x => [x]
  | _ => []

/-- The doubles among property values. -/
def InstanceProperties.doubles (m : InstanceProperties) : List Binary64 :=
  m.toList.flatMap fun e => e.2.doubles

/-- The doubles in a classification. -/
def Classification.doubles (c : Classification) : List Binary64 :=
  c.properties.doubles

/-- The doubles in an entity: its own and those of its classifications. -/
def EntityDetail.doubles (e : EntityDetail) : List Binary64 :=
  e.properties.doubles ++ e.classifications.flatMap Classification.doubles

/-- The doubles in a relationship. -/
def Relationship.doubles (r : Relationship) : List Binary64 :=
  r.properties.doubles

/-- The doubles in a store of instances. -/
def ArchiveInstanceStore.doubles (s : ArchiveInstanceStore) : List Binary64 :=
  (s.entities.getD []).flatMap EntityDetail.doubles ++
    (s.relationships.getD []).flatMap Relationship.doubles

/-- The doubles in an archive. -/
def TypeArchive.doubles (a : TypeArchive) : List Binary64 :=
  a.entities.flatMap EntityDetail.doubles ++ a.relationships.flatMap Relationship.doubles

/-! ## Instances -/

theorem InstanceStatus.restores_codec : InstanceStatus.codec.Restores depth fun _ => True :=
  restores_choice fun a => by cases a <;> rfl

theorem InstanceType.restores_codec : InstanceType.codec.Restores (depth + 1) fun _ => True :=
  (record.restores_codec (by decide) <|
    .cons (restores_required restores_string) <|
    .cons (restores_required restores_string) <|
    .cons (restores_required TypeDefCategory.restores_codec) .nil).congr (by simp)

theorem PropertyValue.Kind.restores_codec :
    PropertyValue.Kind.codec.Restores depth fun _ => True :=
  restores_choice fun a => by cases a <;> rfl

theorem PropertyValue.restores_codec :
    PropertyValue.codec.Restores (depth + 1) fun v => ∀ x ∈ v.doubles, x.ReadsBack := by
  refine restores_typed Kind.restores_codec ?_ ?_
  · intro p v _
    cases v with
    | string s => exact iff_of_true rfl fun _ hx => nomatch hx
    | boolean b => exact iff_of_true rfl fun _ hx => nomatch hx
    | int i =>
      have hread : int64.read p (int64.write i) = some i :=
        (restores_int64.read_write (Nat.zero_le _)).2 trivial
      refine iff_of_true ?_ fun _ hx => nomatch hx
      show (int64.read p (int64.write i)).map int = _
      rw [hread, Option.map_some]
    | date t =>
      have hread : int64.read p (int64.write t) = some t :=
        (restores_int64.read_write (Nat.zero_le _)).2 trivial
      refine iff_of_true ?_ fun _ hx => nomatch hx
      show (int64.read p (int64.write t)).map date = _
      rw [hread, Option.map_some]
    | float x =>
      show (binary64.read p (binary64.write x)).map float = some (float x) ↔ ∀ y ∈ [x], y.ReadsBack
      rw [Option.map_eq_some_iff, List.forall_mem_singleton]
      simp only [float.injEq, exists_eq_right]
      exact restores_binary64.read_write (Nat.zero_le _)
  · intro room v _ hok
    cases v with
    | string s => exact restores_string.readable_write (Nat.zero_le _) trivial
    | boolean b => exact restores_bool.readable_write (Nat.zero_le _) trivial
    | int i => exact restores_int64.readable_write (Nat.zero_le _) trivial
    | date t => exact restores_int64.readable_write (Nat.zero_le _) trivial
    | float x =>
      exact restores_binary64.readable_write (Nat.zero_le _) (hok x List.mem_cons_self)

theorem InstanceProperties.restores_codec :
    InstanceProperties.codec.Restores (depth + 2) fun m => ∀ x ∈ m.doubles, x.ReadsBack :=
  (restores_stringMap PropertyValue.restores_codec).congr fun m => by
    simp only [doubles, List.forall_mem_flatMap]

theorem Classification.restores_codec :
    Classification.codec.Restores (depth + 3) fun c => ∀ x ∈ c.doubles, x.ReadsBack :=
  (record.restores_codec (by decide) <|
    .cons (restores_required restores_string) <|
    .cons (restores_required InstanceType.restores_codec) <|
    .cons (restores_defaulted InstanceStatus.restores_codec) <|
    .cons (restores_mapOrOmitted PropertyValue.restores_codec) .nil).congr fun c => by
      simp only [record, doubles, InstanceProperties.doubles, List.forall_mem_flatMap, true_and,
        and_true]

theorem EntityDetail.restores_codec :
    EntityDetail.codec.Restores (depth + 5) fun e => ∀ x ∈ e.doubles, x.ReadsBack :=
  (record.restores_codec (by decide) <|
    .cons (restores_required restores_string) <|
    .cons (restores_required InstanceType.restores_codec) <|
    .cons (restores_defaulted InstanceStatus.restores_codec) <|
    .cons (restores_required restores_uint64) <|
    .cons (restores_mapOrOmitted PropertyValue.restores_codec) <|
    .cons (restores_listOrOmitted Classification.restores_codec) .nil).congr fun e => by
      simp only [record, doubles, InstanceProperties.doubles, List.forall_mem_append,
        List.forall_mem_flatMap, true_and, and_true]

theorem EntityProxy.restores_codec : EntityProxy.codec.Restores (depth + 2) fun _ => True :=
  (record.restores_codec (by decide) <|
    .cons (restores_required restores_string) <|
    .cons (restores_required InstanceType.restores_codec) .nil).congr (by simp)

theorem Relationship.restores_codec :
    Relationship.codec.Restores (depth + 3) fun r => ∀ x ∈ r.doubles, x.ReadsBack :=
  (record.restores_codec (by decide) <|
    .cons (restores_required restores_string) <|
    .cons (restores_required InstanceType.restores_codec) <|
    .cons (restores_defaulted InstanceStatus.restores_codec) <|
    .cons (restores_required restores_uint64) <|
    .cons (restores_mapOrOmitted PropertyValue.restores_codec) <|
    .cons (restores_required EntityProxy.restores_codec) <|
    .cons (restores_required EntityProxy.restores_codec) .nil).congr fun r => by
      simp only [record, doubles, InstanceProperties.doubles, List.forall_mem_flatMap, true_and,
        and_true]

/-! ## Archives -/

/-- What holds of a list that may be missing. -/
theorem forall_mem_getD_iff {α : Type} {o : Option (List α)} {ok : α → Prop} :
    (∀ a ∈ o.getD [], ok a) ↔ ∀ as, o = some as → ∀ a ∈ as, ok a := by
  cases o with
  | none => simp
  | some as => simp

theorem ArchiveType.restores_codec : ArchiveType.codec.Restores depth fun _ => True :=
  restores_choice fun a => by cases a <;> rfl

theorem ArchiveProperties.restores_codec :
    ArchiveProperties.codec.Restores (depth + 2) fun _ => True :=
  (record.restores_codec (by decide) <|
    .cons (restores_required restores_string) <|
    .cons (restores_required restores_string) <|
    .cons (restores_optional restores_string) <|
    .cons (restores_defaulted ArchiveType.restores_codec) <|
    .cons (restores_optional restores_string) <|
    .cons (restores_optional restores_string) <|
    .cons (restores_required restores_timestamp) <|
    .cons (restores_listOrOmitted restores_string) .nil).congr (by simp)

theorem ArchiveTypeStore.restores_codec :
    ArchiveTypeStore.codec.Restores (depth + 5) fun _ => True :=
  (record.restores_codec (by decide) <|
    .cons (restores_optional (restores_list AttributeTypeDef.restores_codec)) <|
    .cons (restores_optional (restores_list TypeDef.restores_codec)) <|
    .cons (restores_optional (restores_list TypeDefPatch.restores_codec)) .nil).congr (by simp)

theorem ArchiveInstanceStore.restores_codec :
    ArchiveInstanceStore.codec.Restores (depth + 7) fun s => ∀ x ∈ s.doubles, x.ReadsBack :=
  (record.restores_codec (by decide) <|
    .cons (restores_optional (restores_list EntityDetail.restores_codec)) <|
    .cons (restores_optional (restores_list Relationship.restores_codec)) .nil).congr fun s => by
      simp only [record, doubles, List.forall_mem_append, List.forall_mem_flatMap, and_true,
        forall_mem_getD_iff]

/-- The instances of an archive are those of its store, if it has one. -/
theorem TypeArchive.forall_mem_doubles_iff (a : TypeArchive) :
    (∀ x ∈ a.doubles, x.ReadsBack) ↔
      ∀ s, a.instanceStore = some s → ∀ x ∈ s.doubles, x.ReadsBack := by
  obtain ⟨properties, typeStore, instanceStore⟩ := a
  cases instanceStore with
  | none => exact iff_of_true (fun _ hx => nomatch hx) fun _ h => nomatch h
  | some s => simp only [Option.some.injEq, forall_eq']; rfl

theorem TypeArchive.restores_codec :
    TypeArchive.codec.Restores (depth + 8) fun a => ∀ x ∈ a.doubles, x.ReadsBack :=
  (record.restores_codec (by decide) <|
    .cons (restores_required ArchiveProperties.restores_codec) <|
    .cons (restores_optional ArchiveTypeStore.restores_codec) <|
    .cons (restores_optional ArchiveInstanceStore.restores_codec) .nil).congr fun a => by
      simp only [record, forall_mem_doubles_iff, implies_true, true_and, and_true]

end MetadataArchive
