import MetadataArchive.Proofs.Draft.Compatible
import MetadataArchive.Proofs.Draft.Endpoint
import MetadataArchive.Proofs.Draft.Scan
import MetadataArchive.Proofs.Draft.Step
import MetadataArchive.Proofs.Draft.Table

/-!
# Drafts whose indices agree with their items

A draft answers from indices: tables by key, owners by GUID and by name, introduced attributes by
entity type. In a coherent draft all of them say what the items say, and the items can stand
together. Taking an item that fits keeps a draft coherent, so that every run ends in a coherent
draft.
-/

namespace MetadataArchive

/-- A map that has the descriptions of the items that have a key, each under its key. -/
def Owners (key? : Item → Option String) (items : List Item) (owners : StringMap String) : Prop :=
  ∀ key owner, owners.get? key = some owner ↔
    ∃ item ∈ items, key? item = some key ∧ item.describe = owner

namespace Owners

variable {key? : Item → Option String} {items items' : List Item} {item : Item}
  {owners owners' : StringMap String}

theorem nil : Owners key? [] .empty := by
  intro key owner
  simp

/-- One more item under a key that was free. -/
theorem take (h : Owners key? items owners)
    (hfresh : ∀ key, key? item = some key → key ∉ items.filterMap key?)
    (hitems : ∀ x, x ∈ items' ↔ x = item ∨ x ∈ items)
    (howners : ∀ key, owners'.get? key =
      if key? item = some key then some item.describe else owners.get? key) :
    Owners key? items' owners' := by
  intro key owner
  rw [howners]
  by_cases hkey : key? item = some key
  · -- the key was free, so that only the new item has it
    have hother : ∀ x ∈ items, key? x ≠ some key := fun x hx heq =>
      hfresh key hkey (List.mem_filterMap.2 ⟨x, hx, heq⟩)
    rw [if_pos hkey]
    constructor
    · intro h
      exact ⟨item, (hitems item).2 (.inl rfl), hkey, Option.some.inj h⟩
    · intro hex
      obtain ⟨x, hx, hxkey, hdescribe⟩ := hex
      rcases (hitems x).1 hx with rfl | hx
      · rw [hdescribe]
      · exact absurd hxkey (hother x hx)
  · rw [if_neg hkey, h key owner]
    constructor
    · intro hex
      obtain ⟨x, hx, hxkey⟩ := hex
      exact ⟨x, (hitems x).2 (.inr hx), hxkey⟩
    · intro hex
      obtain ⟨x, hx, hxkey, hdescribe⟩ := hex
      rcases (hitems x).1 hx with rfl | hx
      · exact absurd hxkey hkey
      · exact ⟨x, hx, hxkey, hdescribe⟩

/-- The map answers what looking through the items answers. -/
theorem describeFirst_eq (h : Owners key? items owners) (key : String) :
    describeFirst items (fun item => key? item = some key) = owners.get? key :=
  MetadataArchive.describeFirst_eq fun owner => by
    simpa using h key owner

end Owners

namespace Draft

/-- Every table of a draft finds its items, definitions by name and instances by GUID. -/
structure Indexed (d : Draft) : Prop where
  primitiveDefs : d.primitiveDefs.Indexed Definition.name
  collectionDefs : d.collectionDefs.Indexed Definition.name
  enumDefs : d.enumDefs.Indexed Definition.name
  entityDefs : d.entityDefs.Indexed Definition.name
  classificationDefs : d.classificationDefs.Indexed Definition.name
  relationshipDefs : d.relationshipDefs.Indexed Definition.name
  entities : d.entities.Indexed EntityDetail.guid
  relationships : d.relationships.Indexed Relationship.guid

/-- A draft whose indices say what its items say, and whose items can stand together. -/
structure Coherent (d : Draft) : Prop where
  indexed : d.Indexed
  guidOwners : Owners Item.guid? d.items d.identities.guidOwners
  nameOwners : Owners Item.typeName? d.items d.identities.nameOwners
  instanceOwners : Owners Item.instanceGuid? d.items d.instanceOwners
  endpoints : ∀ entityType attributeName,
    d.endpoints.contains entityType attributeName = true ↔
      ∃ item ∈ d.items, attributeName ∈ item.introducedOn entityType
  compatible : Compatible d.items
  endsAmong : ∀ item ∈ d.items, item.EndsAmong d.items

variable {d : Draft} {item : Item}

theorem coherent_empty (header : ArchiveProperties) : (empty header).Coherent where
  indexed := by constructor <;> exact KeyedTable.indexed_empty
  guidOwners := .nil
  nameOwners := .nil
  instanceOwners := .nil
  endpoints entityType attributeName := by
    rw [items_empty]
    simp [empty]
  compatible := by
    rw [items_empty]
    exact .nil
  endsAmong := by
    rw [items_empty]
    simp

/-! ## Taking an item that fits -/

/-- A key that is free among all items is free in every table. -/
theorem key_ne_of_fresh {α : Type} {xs : List α} {x : α} {key? : Item → Option String}
    {keyOf : α → String} (f : α → Item) (hitems : d.itemsOf (f x).kind = xs.map f)
    (hkey : ∀ y, key? (f y) = some (keyOf y)) (hfresh : keyOf x ∉ d.items.filterMap key?) :
    ∀ y ∈ xs, keyOf y ≠ keyOf x := by
  intro y hy heq
  have hmem : f y ∈ d.items := mem_items_of_mem_itemsOf (hitems ▸ List.mem_map_of_mem hy)
  exact hfresh (List.mem_filterMap.2 ⟨f y, hmem, heq ▸ hkey y⟩)

theorem Indexed.take (h : d.Indexed) (hfits : item.Fits d.items) : (d.take item).Indexed := by
  cases item with
  | primitiveDef t =>
    exact { h with
      primitiveDefs := h.primitiveDefs.push
        (key_ne_of_fresh .primitiveDef rfl (fun _ => rfl) (hfits.typeName_fresh _ rfl)) }
  | collectionDef t =>
    exact { h with
      collectionDefs := h.collectionDefs.push
        (key_ne_of_fresh .collectionDef rfl (fun _ => rfl) (hfits.typeName_fresh _ rfl)) }
  | enumDef t =>
    exact { h with
      enumDefs := h.enumDefs.push
        (key_ne_of_fresh .enumDef rfl (fun _ => rfl) (hfits.typeName_fresh _ rfl)) }
  | entityDef t =>
    exact { h with
      entityDefs := h.entityDefs.push
        (key_ne_of_fresh .entityDef rfl (fun _ => rfl) (hfits.typeName_fresh _ rfl)) }
  | classificationDef t =>
    exact { h with
      classificationDefs := h.classificationDefs.push
        (key_ne_of_fresh .classificationDef rfl (fun _ => rfl) (hfits.typeName_fresh _ rfl)) }
  | relationshipDef t =>
    exact { h with
      relationshipDefs := h.relationshipDefs.push
        (key_ne_of_fresh .relationshipDef rfl (fun _ => rfl) (hfits.typeName_fresh _ rfl)) }
  | patch p => exact { h with }
  | entity e =>
    exact { h with
      entities := h.entities.push
        (key_ne_of_fresh .entity rfl (fun _ => rfl) (hfits.guid_fresh _ rfl)) }
  | relationship r =>
    exact { h with
      relationships := h.relationships.push
        (key_ne_of_fresh .relationship rfl (fun _ => rfl) (hfits.guid_fresh _ rfl)) }

/-- The entity types that a relationship type refers to were there before it. -/
theorem endsAmong_take (h : ∀ x ∈ d.items, x.EndsAmong d.items) (hends : item.EndsAmong d.items) :
    ∀ x ∈ (d.take item).items, x.EndsAmong (d.take item).items := by
  intro x hx
  have hsub : ∀ e, .entityDef e ∈ d.items → .entityDef e ∈ (d.take item).items := fun e he =>
    mem_items_take.2 (.inr he)
  rcases mem_items_take.1 hx with rfl | hx
  · exact hends.mono hsub
  · exact (h x hx).mono hsub

theorem Coherent.take (h : d.Coherent) (hfits : item.Fits d.items)
    (hends : item.EndsAmong d.items) : (d.take item).Coherent where
  indexed := h.indexed.take hfits
  guidOwners :=
    h.guidOwners.take hfits.guid_fresh (fun _ => mem_items_take) (guidOwners_take d item)
  nameOwners :=
    h.nameOwners.take hfits.typeName_fresh (fun _ => mem_items_take) (nameOwners_take d item)
  instanceOwners := by
    -- a GUID that no item has is the GUID of no instance
    refine h.instanceOwners.take (fun guid hguid hmem => ?_) (fun _ => mem_items_take)
      (instanceOwners_take d item)
    obtain ⟨x, hx, hxguid⟩ := List.mem_filterMap.1 hmem
    exact hfits.guid_fresh guid (Item.guid?_of_instanceGuid? hguid)
      (List.mem_filterMap.2 ⟨x, hx, Item.guid?_of_instanceGuid? hxguid⟩)
  endpoints entityType attributeName := by
    rw [contains_endpoints_take, h.endpoints]
    simp [mem_items_take]
  compatible := (h.compatible.cons hfits).perm (perm_items_take d item).symm
  endsAmong := endsAmong_take h.endsAmong hends

end Draft

end MetadataArchive
