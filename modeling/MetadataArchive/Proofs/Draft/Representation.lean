import Mathlib.Data.List.Pairwise
import MetadataArchive.Proofs.Draft.Accepted
import MetadataArchive.Proofs.Draft.Archive
import MetadataArchive.Proofs.Draft.Lookup

/-!
# How a draft stores its items

A draft keeps more than its items: beside each table the places of the items by key, and in maps of
their own who owns a GUID or a name. All of this is redundant, and after every run all of it agrees.
The positions of a table are the places of its items and no others, the maps have exactly the keys
in use, each with the description of the one item that has it, and an item is pushed only under a
key that is free.
-/

namespace MetadataArchive

/-! ## Maps of owners -/

/-- A map that has the keys of items and no others, and under each the description of its owner:
the one item that has the key. -/
structure NamesOwners (key? : Item → Option String) (items : List Item)
    (owners : StringMap String) : Prop where
  perm_keys : owners.keys.Perm (items.filterMap key?)
  owner : ∀ key ∈ owners.keys, ∃ x, owners.get? key = some x.describe ∧
    ∀ y, y ∈ items ∧ key? y = some key ↔ y = x

/-- Where no key occurs twice, it has one owner. -/
theorem eq_of_nodup_filterMap {α β : Type} {f : α → Option β} {xs : List α} {x y : α} {b : β}
    (hnd : (xs.filterMap f).Nodup) (hx : x ∈ xs) (hy : y ∈ xs) (hfx : f x = some b)
    (hfy : f y = some b) : x = y := by
  have hpairs := List.pairwise_filterMap.1 hnd
  have : Std.Symm fun a a' => ∀ b, f a = some b → ∀ b', f a' = some b' → b ≠ b' :=
    ⟨fun _ _ h b hb b' hb' => (h b' hb' b hb).symm⟩
  by_contra hne
  exact hpairs.forall hx hy hne b hfx b hfy rfl

theorem Owners.namesOwners {key? : Item → Option String} {items : List Item}
    {owners : StringMap String} (h : Owners key? items owners)
    (hnd : (items.filterMap key?).Nodup) : NamesOwners key? items owners where
  perm_keys := (List.perm_ext_iff_of_nodup owners.nodup_keys hnd).2 fun key =>
    StringMap.mem_keys.trans (h.contains_iff key)
  owner key hkey := by
    obtain ⟨owner, howner⟩ := Option.isSome_iff_exists.1 (StringMap.mem_keys.1 hkey)
    obtain ⟨x, hx, hxkey, rfl⟩ := (h key owner).1 howner
    refine ⟨x, howner, fun y => ⟨fun hy => ?_, ?_⟩⟩
    · exact eq_of_nodup_filterMap hnd hy.1 hx hy.2 hxkey
    · rintro rfl
      exact ⟨hx, hxkey⟩

/-! ## Drafts -/

/-- What an item is found by: a definition by its name, an instance by its GUID. A patch is not
found by anything. -/
def Item.key (x : Item) : String :=
  x.key?.getD ""

namespace Draft

/-- The table of the items that a subject is about. -/
def table (d : Draft) : Subject → KeyedTable Item
  | .definition (.attributeType .primitive) => d.primitiveDefs.map .primitiveDef
  | .definition (.attributeType .collection) => d.collectionDefs.map .collectionDef
  | .definition (.attributeType .enum) => d.enumDefs.map .enumDef
  | .definition (.structuralType .entity) => d.entityDefs.map .entityDef
  | .definition (.structuralType .classification) => d.classificationDefs.map .classificationDef
  | .definition (.structuralType .relationship) => d.relationshipDefs.map .relationshipDef
  | .instanceOf .entity => d.entities.map .entity
  | .instanceOf .relationship => d.relationships.map .relationship

/-- A draft whose tables and maps say what its archive lists. The tables list the items of their
kinds and have the positions of these; the maps name the owners of the GUIDs and the names in use;
and an item that is accepted is pushed to its table under a key that was free there. -/
structure Faithful (d : Draft) : Prop where
  toList_table : ∀ subject,
    (d.table subject).toList = d.archive.items.filter fun x => x.kind = subject.itemKind
  positioned : ∀ subject, (d.table subject).Positioned Item.key
  guidOwners : NamesOwners Item.guid? d.archive.items d.identities.guidOwners
  nameOwners : NamesOwners Item.typeName? d.archive.items d.identities.nameOwners
  instanceOwners : NamesOwners Item.instanceGuid? d.archive.items d.instanceOwners
  guidCount_eq : d.identities.guidCount =
    d.typeCount + d.archive.entities.length + d.archive.relationships.length
  key_free : ∀ x d', (d.add x).outcome = .ok d' → ∀ subject, x.kind = subject.itemKind →
    (d.table subject).positions.contains x.key = false ∧
      d'.table subject = (d.table subject).push x.key x

variable {d : Draft}

theorem toList_table (d : Draft) (subject : Subject) :
    (d.table subject).toList = d.itemsOf subject.itemKind := by
  match subject with
  | .definition (.attributeType category) =>
    cases category <;> exact KeyedTable.toList_map _ _
  | .definition (.structuralType category) =>
    cases category <;> exact KeyedTable.toList_map _ _
  | .instanceOf kind => cases kind <;> exact KeyedTable.toList_map _ _

/-- An item is pushed to the table of its kind, and the other tables stay as they are. -/
theorem table_take (d : Draft) (x : Item) (subject : Subject) :
    (d.take x).table subject =
      if x.kind = subject.itemKind then (d.table subject).push x.key x else d.table subject := by
  match subject with
  | .definition (.attributeType category) =>
    cases category <;> cases x <;> simp [take, table, Item.kind, Subject.itemKind, Item.key,
      Item.key?, Item.typeName?, KeyedTable.pushDefinition, Definition.name]
  | .definition (.structuralType category) =>
    cases category <;> cases x <;> simp [take, table, Item.kind, Subject.itemKind, Item.key,
      Item.key?, Item.typeName?, KeyedTable.pushDefinition, Definition.name]
  | .instanceOf kind =>
    cases kind <;> cases x <;> simp [take, table, Item.kind, Subject.itemKind, Item.key,
      Item.key?, Item.typeName?, Item.instanceGuid?]

theorem Indexed.table (h : d.Indexed) (subject : Subject) :
    (d.table subject).Indexed Item.key := by
  match subject with
  | .definition (.attributeType .primitive) => exact h.primitiveDefs.map fun _ => rfl
  | .definition (.attributeType .collection) => exact h.collectionDefs.map fun _ => rfl
  | .definition (.attributeType .enum) => exact h.enumDefs.map fun _ => rfl
  | .definition (.structuralType .entity) => exact h.entityDefs.map fun _ => rfl
  | .definition (.structuralType .classification) => exact h.classificationDefs.map fun _ => rfl
  | .definition (.structuralType .relationship) => exact h.relationshipDefs.map fun _ => rfl
  | .instanceOf .entity => exact h.entities.map fun _ => rfl
  | .instanceOf .relationship => exact h.relationships.map fun _ => rfl

namespace Coherent

/-- Instances are among what has a GUID, so they do not share one either. -/
theorem nodup_instanceGuids (h : d.Coherent) : (d.items.filterMap Item.instanceGuid?).Nodup := by
  rw [← items_archive, TypeArchive.filterMap_instanceGuid?]
  exact h.nodup_guids_archive.of_append_right

/-- As many GUIDs are in use as there are items other than patches. -/
theorem guidCount_eq (h : d.Coherent) : d.identities.guidCount =
    d.typeCount + d.archive.entities.length + d.archive.relationships.length := by
  have hkeys := (h.guidOwners.namesOwners h.compatible.nodup_guids).perm_keys
  rw [← items_archive, TypeArchive.filterMap_guid?] at hkeys
  calc
    d.identities.guidCount = d.identities.guidOwners.keys.length := (StringMap.length_keys _).symm
    _ = d.archive.guids.length := hkeys.length_eq
    _ = d.typeCount + d.archive.entities.length + d.archive.relationships.length := by
      simp [TypeArchive.guids, TypeArchive.instanceGuids, typeCount_eq, Nat.add_assoc]

/-- Tables that find their items before and after an item is taken had no item with its key. -/
theorem key_free (h : d.Coherent) {d' : Draft} {x : Item} (hadd : (d.add x).outcome = .ok d')
    {subject : Subject} (hkind : x.kind = subject.itemKind) :
    (d.table subject).positions.contains x.key = false ∧
      d'.table subject = (d.table subject).push x.key x := by
  obtain ⟨hcheck, rfl⟩ := outcome_add_eq_ok_iff.1 hadd
  have hafter := (h.indexed.take (h.check_eq_ok_iff.1 hcheck).1).table subject
  rw [table_take, if_pos hkind] at hafter ⊢
  exact ⟨(h.indexed.table subject).contains_of_push hafter, rfl⟩

end Coherent

/-- After every run, whatever was accepted and whatever turned away, tables and maps say what the
archive lists. -/
theorem faithful_run (header : ArchiveProperties) (calls : List Item) :
    (run header calls).Faithful := by
  have h := coherent_run header calls
  constructor
  case toList_table =>
    intro subject
    rw [toList_table, items_archive, filter_items]
  case positioned => exact fun subject => (h.indexed.table subject).positioned
  case guidOwners =>
    rw [items_archive]
    exact h.guidOwners.namesOwners h.compatible.nodup_guids
  case nameOwners =>
    rw [items_archive]
    exact h.nameOwners.namesOwners h.compatible.nodup_typeNames
  case instanceOwners =>
    rw [items_archive]
    exact h.instanceOwners.namesOwners h.nodup_instanceGuids
  case guidCount_eq => exact h.guidCount_eq
  case key_free => exact fun _ _ hadd _ hkind => h.key_free hadd hkind

example : ((run epochHeader hostingCalls).table
    (.definition (.structuralType .entity))).positions.toList = [("Host", 0), ("Service", 1)] := by
  decide +kernel

end Draft

end MetadataArchive
