import Mathlib.Data.List.Flatten
import MetadataArchive.Proofs.Draft.Item

/-!
# Items that can stand together

`Compatible` says which items can stand in one archive as far as names, GUIDs and attributes go. It
does not depend on their order, and taking items away never breaks it. One more item keeps it
exactly if the item fits: what it takes is well formed and not taken yet.
-/

namespace MetadataArchive

/-- Items of which no two take one name, one GUID, or one attribute on one entity type, and each of
which is well formed by itself. -/
structure Compatible (items : List Item) : Prop where
  nodup_typeNames : (items.filterMap Item.typeName?).Nodup
  isTypeName : ∀ name ∈ items.filterMap Item.typeName?, IsTypeName name
  nodup_guids : (items.filterMap Item.guid?).Nodup
  instanceGuid_ne : ∀ guid ∈ items.filterMap Item.instanceGuid?, guid ≠ ""
  nodup_attributeNames : ∀ item ∈ items, item.attributeNames.Nodup
  nodup_visible : ∀ entityType, (items.flatMap (Item.visibleOn entityType)).Nodup

/-- An item that is well formed and takes nothing that is taken among `items`. -/
structure Item.Fits (items : List Item) (item : Item) : Prop where
  isTypeName : ∀ name, item.typeName? = some name → IsTypeName name
  typeName_fresh : ∀ name, item.typeName? = some name → name ∉ items.filterMap Item.typeName?
  guid_fresh : ∀ guid, item.guid? = some guid → guid ∉ items.filterMap Item.guid?
  instanceGuid_ne : ∀ guid, item.instanceGuid? = some guid → guid ≠ ""
  nodup_attributeNames : item.attributeNames.Nodup
  visible_fresh : ∀ entityType, ∀ attributeName ∈ item.visibleOn entityType,
    attributeName ∉ items.flatMap (Item.visibleOn entityType)

theorem Item.nodup_visibleOn {item : Item} (h : item.attributeNames.Nodup) (entityType : String) :
    (item.visibleOn entityType).Nodup := by
  cases item with
  | entityDef t =>
    show (if t.name = entityType then t.properties.map TypeDefAttribute.name else []).Nodup
    split
    · exact h
    · exact List.nodup_nil
  | relationshipDef t => exact t.nodup_introducedOn entityType
  | _ => exact List.nodup_nil

namespace Compatible

variable {items items' : List Item} {item : Item}

theorem nil : Compatible [] where
  nodup_typeNames := List.nodup_nil
  isTypeName := by simp
  nodup_guids := List.nodup_nil
  instanceGuid_ne := by simp
  nodup_attributeNames := by simp
  nodup_visible := by simp

theorem typeName_ne (h : Compatible items) (hmem : item ∈ items) {name : String}
    (hname : item.typeName? = some name) : name ≠ "" :=
  (h.isTypeName name (List.mem_filterMap.2 ⟨item, hmem, hname⟩)).1

theorem perm (h : Compatible items) (hperm : items.Perm items') : Compatible items' where
  nodup_typeNames := (hperm.filterMap _).nodup_iff.1 h.nodup_typeNames
  isTypeName name hname := h.isTypeName name ((hperm.filterMap _).mem_iff.2 hname)
  nodup_guids := (hperm.filterMap _).nodup_iff.1 h.nodup_guids
  instanceGuid_ne guid hguid := h.instanceGuid_ne guid ((hperm.filterMap _).mem_iff.2 hguid)
  nodup_attributeNames item hitem := h.nodup_attributeNames item (hperm.mem_iff.2 hitem)
  nodup_visible entityType := (hperm.flatMap_right _).nodup_iff.1 (h.nodup_visible entityType)

theorem sublist (h : Compatible items) (hsub : items'.Sublist items) : Compatible items' where
  nodup_typeNames := h.nodup_typeNames.sublist (hsub.filterMap _)
  isTypeName name hname := h.isTypeName name ((hsub.filterMap _).subset hname)
  nodup_guids := h.nodup_guids.sublist (hsub.filterMap _)
  instanceGuid_ne guid hguid := h.instanceGuid_ne guid ((hsub.filterMap _).subset hguid)
  nodup_attributeNames item hitem := h.nodup_attributeNames item (hsub.subset hitem)
  nodup_visible entityType := (h.nodup_visible entityType).sublist (hsub.flatMap _)

theorem cons (h : Compatible items) (hfits : item.Fits items) : Compatible (item :: items) where
  nodup_typeNames := by
    cases hname : item.typeName? with
    | none => simpa [List.filterMap_cons, hname] using h.nodup_typeNames
    | some name =>
      rw [List.filterMap_cons_some hname, List.nodup_cons]
      exact ⟨hfits.typeName_fresh name hname, h.nodup_typeNames⟩
  isTypeName name hname := by
    obtain ⟨x, hx, hxname⟩ := List.mem_filterMap.1 hname
    rcases List.mem_cons.1 hx with rfl | hx
    · exact hfits.isTypeName name hxname
    · exact h.isTypeName name (List.mem_filterMap.2 ⟨x, hx, hxname⟩)
  nodup_guids := by
    cases hguid : item.guid? with
    | none => simpa [List.filterMap_cons, hguid] using h.nodup_guids
    | some guid =>
      rw [List.filterMap_cons_some hguid, List.nodup_cons]
      exact ⟨hfits.guid_fresh guid hguid, h.nodup_guids⟩
  instanceGuid_ne guid hguid := by
    obtain ⟨x, hx, hxguid⟩ := List.mem_filterMap.1 hguid
    rcases List.mem_cons.1 hx with rfl | hx
    · exact hfits.instanceGuid_ne guid hxguid
    · exact h.instanceGuid_ne guid (List.mem_filterMap.2 ⟨x, hx, hxguid⟩)
  nodup_attributeNames :=
    List.forall_mem_cons.2 ⟨hfits.nodup_attributeNames, h.nodup_attributeNames⟩
  nodup_visible entityType := by
    rw [List.flatMap_cons, List.nodup_append']
    exact ⟨Item.nodup_visibleOn hfits.nodup_attributeNames entityType,
      h.nodup_visible entityType, hfits.visible_fresh entityType⟩

/-- The first of compatible items fits the others. -/
theorem fits (h : Compatible (item :: items)) : item.Fits items where
  isTypeName name hname :=
    h.isTypeName name (List.mem_filterMap.2 ⟨item, List.mem_cons_self, hname⟩)
  typeName_fresh name hname := by
    have hnd := h.nodup_typeNames
    rw [List.filterMap_cons_some hname, List.nodup_cons] at hnd
    exact hnd.1
  guid_fresh guid hguid := by
    have hnd := h.nodup_guids
    rw [List.filterMap_cons_some hguid, List.nodup_cons] at hnd
    exact hnd.1
  instanceGuid_ne guid hguid :=
    h.instanceGuid_ne guid (List.mem_filterMap.2 ⟨item, List.mem_cons_self, hguid⟩)
  nodup_attributeNames := h.nodup_attributeNames item List.mem_cons_self
  visible_fresh entityType := by
    have hnd := h.nodup_visible entityType
    rw [List.flatMap_cons, List.nodup_append'] at hnd
    exact hnd.2.2

end Compatible

namespace Item

variable {items items' : List Item} {item : Item} {name guid entityType attributeName : String}

/-- What fits some items fits among fewer of them. -/
theorem Fits.of_subset (h : item.Fits items') (hsub : items ⊆ items') : item.Fits items where
  isTypeName := h.isTypeName
  typeName_fresh name hname hmem :=
    h.typeName_fresh name hname (List.filterMap_subset _ hsub hmem)
  guid_fresh guid hguid hmem := h.guid_fresh guid hguid (List.filterMap_subset _ hsub hmem)
  instanceGuid_ne := h.instanceGuid_ne
  nodup_attributeNames := h.nodup_attributeNames
  visible_fresh entityType attributeName hvisible hmem := by
    obtain ⟨x, hx, hxvisible⟩ := List.mem_flatMap.1 hmem
    exact h.visible_fresh entityType attributeName hvisible
      (List.mem_flatMap.2 ⟨x, hsub hx, hxvisible⟩)

/-- Which items there are decides what fits, not their order. -/
theorem Fits.perm (h : item.Fits items) (hperm : items.Perm items') : item.Fits items' :=
  h.of_subset hperm.symm.subset

theorem fits_definition_iff (hname : item.typeName? = some name) (hguid : item.guid? = some guid)
    (hinstance : item.instanceGuid? = none) :
    item.Fits items ↔ (IsTypeName name ∧ name ∉ items.filterMap typeName? ∧
      guid ∉ items.filterMap guid?) ∧ item.attributeNames.Nodup ∧
        ∀ entityType, ∀ attributeName ∈ item.visibleOn entityType,
          attributeName ∉ items.flatMap (visibleOn entityType) := by
  constructor
  · intro h
    exact ⟨⟨h.isTypeName name hname, h.typeName_fresh name hname, h.guid_fresh guid hguid⟩,
      h.nodup_attributeNames, h.visible_fresh⟩
  · intro hall
    obtain ⟨⟨htype, hfresh, hguid'⟩, hattributes, hvisible⟩ := hall
    refine ⟨fun n hn => ?_, fun n hn => ?_, fun g hg => ?_, fun g hg => ?_, hattributes, hvisible⟩
    · rw [← Option.some.inj (hname.symm.trans hn)]
      exact htype
    · rw [← Option.some.inj (hname.symm.trans hn)]
      exact hfresh
    · rw [← Option.some.inj (hguid.symm.trans hg)]
      exact hguid'
    · rw [hinstance] at hg
      cases hg

theorem fits_instance_iff (hinstance : item.instanceGuid? = some guid)
    (hname : item.typeName? = none) (hattributes : item.attributeNames = [])
    (hvisible : ∀ entityType, item.visibleOn entityType = []) :
    item.Fits items ↔ guid ≠ "" ∧ guid ∉ items.filterMap guid? := by
  have hguid := guid?_of_instanceGuid? hinstance
  constructor
  · intro h
    exact ⟨h.instanceGuid_ne guid hinstance, h.guid_fresh guid hguid⟩
  · intro hall
    obtain ⟨hne, hfresh⟩ := hall
    refine ⟨by simp [hname], by simp [hname], fun g hg => ?_, fun g hg => ?_, ?_, ?_⟩
    · rw [← Option.some.inj (hguid.symm.trans hg)]
      exact hfresh
    · rw [← Option.some.inj (hinstance.symm.trans hg)]
      exact hne
    · rw [hattributes]
      exact List.nodup_nil
    · simp [hvisible]

/-- A patch takes nothing. -/
theorem fits_patch (p : TypeDefPatch) : (patch p).Fits items where
  isTypeName := by simp [typeName?]
  typeName_fresh := by simp [typeName?]
  guid_fresh := by simp [guid?]
  instanceGuid_ne := by simp [instanceGuid?]
  nodup_attributeNames := List.nodup_nil
  visible_fresh := by simp [visibleOn]

/-! ## Attributes in sight -/

/-- An attribute in sight on an entity type is introduced there, or the entity type declares it. -/
theorem mem_visible_iff : attributeName ∈ items.flatMap (visibleOn entityType) ↔
    (∃ x ∈ items, attributeName ∈ x.introducedOn entityType) ∨
      ∃ e, entityDef e ∈ items ∧ e.name = entityType ∧ e.declares attributeName = true := by
  rw [List.mem_flatMap]
  constructor
  · intro hex
    obtain ⟨x, hx, hvisible⟩ := hex
    cases x with
    | entityDef e =>
      obtain ⟨hname, hmem⟩ := List.mem_ite_nil_right.1 hvisible
      exact .inr ⟨e, hx, hname, EntityDef.declares_iff.2 hmem⟩
    | relationshipDef t => exact .inl ⟨_, hx, hvisible⟩
    | _ => cases hvisible
  · intro hsight
    rcases hsight with ⟨x, hx, hintroduced⟩ | ⟨e, he, hname, hdeclared⟩
    · cases x with
      | relationshipDef t => exact ⟨_, hx, hintroduced⟩
      | _ => cases hintroduced
    · exact ⟨_, he, List.mem_ite_nil_right.2 ⟨hname, EntityDef.declares_iff.1 hdeclared⟩⟩

/-- Nothing is in sight on an entity type that is not there, as long as relationship types come with
the entity types at their ends. -/
theorem visible_eq_nil (hends : ∀ x ∈ items, x.EndsAmong items)
    (hfresh : entityType ∉ items.filterMap typeName?) :
    items.flatMap (visibleOn entityType) = [] := by
  have hne : ∀ e, entityDef e ∈ items → e.name ≠ entityType := fun e he heq =>
    hfresh (List.mem_filterMap.2 ⟨_, he, congrArg some heq⟩)
  refine List.eq_nil_iff_forall_not_mem.2 fun attributeName hmem => ?_
  rcases mem_visible_iff.1 hmem with ⟨x, hx, hintroduced⟩ | ⟨e, he, hname, -⟩
  · cases x with
    | relationshipDef t =>
      obtain ⟨c, hc, hentity, -⟩ := RelationshipDef.mem_introducedOn.1 hintroduced
      obtain ⟨⟨e1, he1, hn1⟩, e2, he2, hn2⟩ := hends _ hx
      rcases t.entityType_of_mem_claims hc with h | h
      · exact hne e1 he1 (hn1.trans (h.symm.trans hentity))
      · exact hne e2 he2 (hn2.trans (h.symm.trans hentity))
    | _ => cases hintroduced
  · exact hne e he hname

end Item

end MetadataArchive
