import Mathlib.Data.List.Perm.Basic
import MetadataArchive.Proofs.Draft.Check

/-!
# What holds of every archive

The archive of a run identifies what it lists: no name and no GUID occurs twice, whatever the kinds
are, and all are well formed. Nor does any entity type expose an attribute twice, be it declared
there or introduced by relationship types.
-/

namespace MetadataArchive

/-- The relationship type that a structural type is, if it is one. -/
def TypeDef.relationship? : TypeDef → Option RelationshipDef
  | relationship t => some t
  | _ => none

/-- Where keys are not repeated, at most one item has a given key. -/
theorem filter_eq_singleton {α β : Type} {f : α → β} {p : α → Bool} {xs : List α} {x : α}
    (hnd : (xs.map f).Nodup) (hx : x ∈ xs) (hp : ∀ y ∈ xs, p y = true ↔ f y = f x) :
    xs.filter p = [x] := by
  have hperm : (xs.filter p).Perm [x] := by
    refine (List.perm_ext_iff_of_nodup (hnd.of_map.filter p) (List.nodup_singleton x)).2 fun y => ?_
    rw [List.mem_filter, List.mem_singleton]
    constructor
    · intro hall
      obtain ⟨hy, hpy⟩ := hall
      exact List.inj_on_of_nodup_map hnd hy hx ((hp y hy).1 hpy)
    · intro heq
      rw [heq]
      exact ⟨hx, (hp x hx).2 rfl⟩
  exact List.perm_singleton.1 hperm

namespace TypeArchive

variable {a : TypeArchive}

/-- The names of all definitions of an archive. -/
def typeNames (a : TypeArchive) : List String :=
  a.attributeTypeDefs.map AttributeTypeDef.name ++ a.newTypeDefs.map TypeDef.name

/-- The GUIDs of all instances of an archive. -/
def instanceGuids (a : TypeArchive) : List String :=
  a.entities.map EntityDetail.guid ++ a.relationships.map Relationship.guid

/-- The GUIDs of all definitions and instances of an archive. -/
def guids (a : TypeArchive) : List String :=
  a.attributeTypeDefs.map AttributeTypeDef.guid ++ a.newTypeDefs.map TypeDef.guid ++ a.instanceGuids

/-- The relationship types of an archive. -/
def relationshipDefs (a : TypeArchive) : List RelationshipDef :=
  a.newTypeDefs.filterMap TypeDef.relationship?

/-- The attributes that an entity type exposes in an archive: those that it declares, and those that
relationship types introduce on it. -/
def visibleAttributes (a : TypeArchive) (e : EntityDef) : List String :=
  e.properties.map TypeDefAttribute.name ++
    a.relationshipDefs.flatMap fun t => t.introducedOn e.name

/-- An archive in which names and GUIDs tell apart what they name. -/
structure Identified (a : TypeArchive) : Prop where
  nodup_typeNames : a.typeNames.Nodup
  typeName_ne : ∀ name ∈ a.typeNames, name ≠ ""
  typeName_isWhitespace : ∀ name ∈ a.typeNames, ∀ c ∈ name.toList, Text.isWhitespace c = false
  nodup_guids : a.guids.Nodup
  instanceGuid_ne : ∀ guid ∈ a.instanceGuids, guid ≠ ""
  nodup_attributeNames : ∀ t ∈ a.newTypeDefs, (t.properties.map TypeDefAttribute.name).Nodup

/-! ## The lists of an archive and its items -/

theorem filterMap_typeName? : a.items.filterMap Item.typeName? = a.typeNames := by
  rw [filterMap_items]
  simp only [AttributeTypeDef.typeName?_item, TypeDef.typeName?_item]
  simp [typeNames, Item.typeName?]

theorem filterMap_guid? : a.items.filterMap Item.guid? = a.guids := by
  rw [filterMap_items]
  simp only [AttributeTypeDef.guid?_item, TypeDef.guid?_item]
  simp [guids, instanceGuids, Item.guid?]

theorem filterMap_instanceGuid? : a.items.filterMap Item.instanceGuid? = a.instanceGuids := by
  rw [filterMap_items]
  simp only [AttributeTypeDef.instanceGuid?_item, TypeDef.instanceGuid?_item]
  simp [instanceGuids, Item.instanceGuid?]

theorem item_mem_items {t : TypeDef} (h : t ∈ a.newTypeDefs) : t.item ∈ a.items := by
  have hmem : t.item ∈ a.newTypeDefs.map TypeDef.item := List.mem_map_of_mem h
  simp [items, hmem]

/-- What relationship types introduce is in sight by their items. -/
theorem sublist_visible (entityType : String) (ts : List TypeDef) :
    ((ts.filterMap TypeDef.relationship?).flatMap fun t => t.introducedOn entityType).Sublist
      (ts.flatMap fun t => t.item.visibleOn entityType) := by
  induction ts with
  | nil => exact .slnil
  | cons t ts ih =>
    cases t with
    | entity e => exact ih.trans (List.sublist_append_right _ _)
    | classification c => exact ih.trans (List.sublist_append_right _ _)
    | relationship r => exact ih.append_left (r.introducedOn entityType)

/-- An entity type exposes nothing twice if the items of the archive show nothing twice there. -/
theorem nodup_visible_of_items {e : EntityDef} (h : .entity e ∈ a.newTypeDefs)
    (hnd : (a.items.flatMap (Item.visibleOn e.name)).Nodup) : (a.visibleAttributes e).Nodup := by
  -- the definition of the entity type put first, what it declares stands where it is listed
  obtain ⟨before, after, hsplit⟩ := List.append_of_mem h
  have hperm : a.newTypeDefs.Perm (.entity e :: (before ++ after)) := by
    rw [hsplit]
    exact List.perm_middle
  have hdefs : (a.newTypeDefs.flatMap fun t => t.item.visibleOn e.name).Nodup := by
    simp only [items, List.flatMap_append, List.flatMap_map] at hnd
    exact (((hnd.of_append_left).of_append_left).of_append_left).of_append_right
  have hfirst : (TypeDef.entity e).item.visibleOn e.name =
      e.properties.map TypeDefAttribute.name := if_pos rfl
  have hrelationships : a.relationshipDefs = (before ++ after).filterMap TypeDef.relationship? := by
    simp [relationshipDefs, hsplit, List.filterMap_cons, TypeDef.relationship?]
  rw [(hperm.flatMap_right _).nodup_iff, List.flatMap_cons, hfirst] at hdefs
  unfold visibleAttributes
  rw [hrelationships]
  exact hdefs.sublist ((sublist_visible e.name _).append_left _)

end TypeArchive

namespace Draft

theorem Coherent.nodup_typeNames_archive {d : Draft} (h : d.Coherent) :
    d.archive.typeNames.Nodup := by
  rw [← TypeArchive.filterMap_typeName?, items_archive]
  exact h.compatible.nodup_typeNames

theorem Coherent.nodup_guids_archive {d : Draft} (h : d.Coherent) : d.archive.guids.Nodup := by
  rw [← TypeArchive.filterMap_guid?, items_archive]
  exact h.compatible.nodup_guids

variable (header : ArchiveProperties) (calls : List Item)

/-! ## The archives of runs -/

/-- Whatever calls are made in whatever order, the archive tells apart what it names. -/
theorem identified_archive : (run header calls).archive.Identified := by
  have h := (coherent_run header calls).compatible
  rw [← items_archive] at h
  have hname : ∀ name ∈ (run header calls).archive.typeNames, IsTypeName name := by
    rw [← TypeArchive.filterMap_typeName?]
    exact h.isTypeName
  constructor
  case nodup_typeNames =>
    rw [← TypeArchive.filterMap_typeName?]
    exact h.nodup_typeNames
  case typeName_ne => exact fun name hmem => (hname name hmem).1
  case typeName_isWhitespace => exact fun name hmem => (hname name hmem).2
  case nodup_guids =>
    rw [← TypeArchive.filterMap_guid?]
    exact h.nodup_guids
  case instanceGuid_ne =>
    rw [← TypeArchive.filterMap_instanceGuid?]
    exact h.instanceGuid_ne
  case nodup_attributeNames =>
    intro t ht
    rw [← TypeDef.attributeNames_item]
    exact h.nodup_attributeNames _ (TypeArchive.item_mem_items ht)

/-- A header made at the beginning of 1970. -/
def epochHeader : ArchiveProperties :=
  .anonymous
    ⟨.firstOfYear 1970, ⟨0, 0, 0, 0, by decide, by decide, by decide, by decide⟩, by decide⟩

/-- An entity type that declares one attribute. -/
def hostDef : EntityDef :=
  (EntityDef.plain "guid-host" "Host").withProperty (.plain "address" "string")

/-- An entity type without attributes. -/
def serviceDef : EntityDef :=
  .plain "guid-service" "Service"

/-- A relationship type between hosts and services, under the given attribute of hosts. -/
def hostingDef (name attributeName : String) : RelationshipDef :=
  .plain ("guid-" ++ name) name (.plain ⟨"guid-host", "Host"⟩ "host")
    (.plain ⟨"guid-service", "Service"⟩ attributeName)

/-- Calls of which the last is turned away, since hosts declare an address. -/
def hostingCalls : List Item :=
  [.entityDef hostDef, .entityDef serviceDef, .relationshipDef (hostingDef "Hosting" "services"),
    .relationshipDef (hostingDef "Addressing" "address")]

/-- Whatever calls are made in whatever order, no entity type exposes an attribute twice. -/
theorem nodup_visibleAttributes {e : EntityDef}
    (h : .entity e ∈ (run header calls).archive.newTypeDefs) :
    ((run header calls).archive.visibleAttributes e).Nodup := by
  apply TypeArchive.nodup_visible_of_items h
  rw [items_archive]
  exact (coherent_run header calls).compatible.nodup_visible e.name

theorem nodup_visibleAttributes_hostDef :
    .entity hostDef ∈ (run epochHeader hostingCalls).archive.newTypeDefs ∧
      ((run epochHeader hostingCalls).archive.visibleAttributes hostDef).Nodup :=
  ⟨by decide +kernel, nodup_visibleAttributes epochHeader hostingCalls (by decide +kernel)⟩

example : (run epochHeader hostingCalls).archive.visibleAttributes hostDef =
    ["address", "services"] := by
  decide +kernel

end Draft

end MetadataArchive
