import MetadataArchive.Draft.Build
import MetadataArchive.Proofs.Draft.Item

/-!
# The items of a draft and of an archive

The items of a draft, kind by kind in load order, are those that its archive lists from front to
back. Nothing of a draft's archive but its header lies outside this list.
-/

namespace MetadataArchive

/-- The kinds of items in the order in which an archive lists them. -/
def ItemKind.loadOrder : List ItemKind :=
  [.definition (.attributeType .primitive), .definition (.attributeType .collection),
    .definition (.attributeType .enum), .definition (.structuralType .entity),
    .definition (.structuralType .classification), .definition (.structuralType .relationship),
    .patch, .instanceOf .entity, .instanceOf .relationship]

theorem ItemKind.mem_loadOrder (kind : ItemKind) : kind ∈ loadOrder := by
  match kind with
  | .definition (.attributeType category) => cases category <;> decide
  | .definition (.structuralType category) => cases category <;> decide
  | .patch => decide
  | .instanceOf kind => cases kind <;> decide

theorem ItemKind.nodup_loadOrder : loadOrder.Nodup := by
  decide

/-! ## Drafts -/

namespace Draft

/-- The items of a kind in the order in which they were taken. -/
def itemsOf (d : Draft) : ItemKind → List Item
  | .definition (.attributeType .primitive) => d.primitiveDefs.toList.map .primitiveDef
  | .definition (.attributeType .collection) => d.collectionDefs.toList.map .collectionDef
  | .definition (.attributeType .enum) => d.enumDefs.toList.map .enumDef
  | .definition (.structuralType .entity) => d.entityDefs.toList.map .entityDef
  | .definition (.structuralType .classification) =>
    d.classificationDefs.toList.map .classificationDef
  | .definition (.structuralType .relationship) => d.relationshipDefs.toList.map .relationshipDef
  | .patch => d.patches.toList.map .patch
  | .instanceOf .entity => d.entities.toList.map .entity
  | .instanceOf .relationship => d.relationships.toList.map .relationship

/-- The items in load order. -/
def items (d : Draft) : List Item :=
  ItemKind.loadOrder.flatMap d.itemsOf

@[simp]
theorem itemsOf_empty (header : ArchiveProperties) (k : ItemKind) :
    (empty header).itemsOf k = [] := by
  match k with
  | .definition (.attributeType category) => cases category <;> rfl
  | .definition (.structuralType category) => cases category <;> rfl
  | .patch => rfl
  | .instanceOf kind => cases kind <;> rfl

@[simp]
theorem items_empty (header : ArchiveProperties) : (empty header).items = [] :=
  List.flatMap_eq_nil_iff.2 fun k _ => itemsOf_empty header k

theorem kind_of_mem_itemsOf {d : Draft} {k : ItemKind} {item : Item} (h : item ∈ d.itemsOf k) :
    item.kind = k := by
  unfold itemsOf at h
  split at h <;>
  · obtain ⟨x, -, rfl⟩ := List.mem_map.1 h
    rfl

theorem mem_itemsOf_iff {d : Draft} {k : ItemKind} {item : Item} :
    item ∈ d.itemsOf k ↔ item ∈ d.items ∧ item.kind = k := by
  simp only [items, List.mem_flatMap]
  constructor
  · intro h
    exact ⟨⟨k, k.mem_loadOrder, h⟩, kind_of_mem_itemsOf h⟩
  · intro hex
    obtain ⟨⟨k', -, h⟩, rfl⟩ := hex
    rwa [kind_of_mem_itemsOf h]

theorem mem_items_of_mem_itemsOf {d : Draft} {k : ItemKind} {item : Item}
    (h : item ∈ d.itemsOf k) : item ∈ d.items :=
  (mem_itemsOf_iff.1 h).1

theorem entityDef_mem_items {d : Draft} {e : EntityDef} :
    .entityDef e ∈ d.items ↔ e ∈ d.entityDefs.toList := by
  have h : .entityDef e ∈ d.itemsOf (.definition (.structuralType .entity)) ↔
      e ∈ d.entityDefs.toList := by
    simp [itemsOf]
  rw [← h, mem_itemsOf_iff]
  exact (and_iff_left rfl).symm

theorem filter_itemsOf (d : Draft) (k k' : ItemKind) :
    (d.itemsOf k').filter (fun item => item.kind = k) = if k' = k then d.itemsOf k else [] := by
  by_cases h : k' = k
  · subst h
    rw [if_pos rfl, List.filter_eq_self]
    intro item hitem
    simpa using kind_of_mem_itemsOf hitem
  · rw [if_neg h, List.filter_eq_nil_iff]
    intro item hitem
    simpa [kind_of_mem_itemsOf hitem] using h

theorem filter_flatMap_itemsOf (d : Draft) (k : ItemKind) {ks : List ItemKind} (hnd : ks.Nodup) :
    (ks.flatMap d.itemsOf).filter (fun item => item.kind = k) =
      if k ∈ ks then d.itemsOf k else [] := by
  induction ks with
  | nil => rfl
  | cons k' ks ih =>
    obtain ⟨hnot, hnd⟩ := List.nodup_cons.1 hnd
    rw [List.flatMap_cons, List.filter_append, ih hnd, filter_itemsOf]
    by_cases h : k' = k
    · -- the kind is this one, and so none of the others
      subst h
      simp [hnot]
    · simp [h, Ne.symm h]

/-- The items of a kind are found again in the load order. -/
theorem filter_items (d : Draft) (k : ItemKind) :
    d.items.filter (fun item => item.kind = k) = d.itemsOf k :=
  (d.filter_flatMap_itemsOf k ItemKind.nodup_loadOrder).trans (if_pos k.mem_loadOrder)

/-! ## Archives -/

theorem getD_nonempty? {α : Type} (as : List α) : (nonempty? as).getD [] = as := by
  cases as <;> rfl

theorem attributeTypeDefs_archive (d : Draft) :
    d.archive.attributeTypeDefs = d.attributeTypeDefs := by
  unfold TypeArchive.attributeTypeDefs archive typeStore
  split
  · next h _ _ => simpa [h] using getD_nonempty? d.attributeTypeDefs
  · exact getD_nonempty? _

theorem newTypeDefs_archive (d : Draft) : d.archive.newTypeDefs = d.newTypeDefs := by
  unfold TypeArchive.newTypeDefs archive typeStore
  split
  · next _ h _ => simpa [h] using getD_nonempty? d.newTypeDefs
  · exact getD_nonempty? _

theorem typeDefPatches_archive (d : Draft) : d.archive.typeDefPatches = d.patches.toList := by
  unfold TypeArchive.typeDefPatches archive typeStore
  split
  · next _ _ h => simpa [h] using getD_nonempty? d.patches.toList
  · exact getD_nonempty? _

theorem entities_archive (d : Draft) : d.archive.entities = d.entities.toList := by
  unfold TypeArchive.entities archive instanceStore
  split
  · next h _ => simpa [h] using getD_nonempty? d.entities.toList
  · exact getD_nonempty? _

theorem relationships_archive (d : Draft) : d.archive.relationships = d.relationships.toList := by
  unfold TypeArchive.relationships archive instanceStore
  split
  · next _ h => simpa [h] using getD_nonempty? d.relationships.toList
  · exact getD_nonempty? _

/-- The archive has all definitions that are counted. -/
theorem typeCount_eq (d : Draft) :
    d.typeCount = d.archive.attributeTypeDefs.length + d.archive.newTypeDefs.length := by
  simp [attributeTypeDefs_archive, newTypeDefs_archive, attributeTypeDefs, newTypeDefs, typeCount,
    KeyedTable.length_toList, Nat.add_assoc]

/-- Only the header and the items of each kind decide the archive. -/
theorem archive_eq_of_itemsOf_eq {d d' : Draft} (hheader : d.header = d'.header)
    (hitems : ∀ k, d.itemsOf k = d'.itemsOf k) : d.archive = d'.archive := by
  have hmap : ∀ {α : Type} {f : α → Item}, (∀ x y, f x = f y → x = y) →
      ∀ xs ys : List α, xs.map f = ys.map f → xs = ys := fun hf _ _ => (List.map_inj_right hf).1
  have hprimitiveDefs : d.primitiveDefs.toList = d'.primitiveDefs.toList :=
    hmap (fun _ _ => Item.primitiveDef.inj) _ _ (hitems (.definition (.attributeType .primitive)))
  have hcollectionDefs : d.collectionDefs.toList = d'.collectionDefs.toList :=
    hmap (fun _ _ => Item.collectionDef.inj) _ _ (hitems (.definition (.attributeType .collection)))
  have henumDefs : d.enumDefs.toList = d'.enumDefs.toList :=
    hmap (fun _ _ => Item.enumDef.inj) _ _ (hitems (.definition (.attributeType .enum)))
  have hentityDefs : d.entityDefs.toList = d'.entityDefs.toList :=
    hmap (fun _ _ => Item.entityDef.inj) _ _ (hitems (.definition (.structuralType .entity)))
  have hclassificationDefs : d.classificationDefs.toList = d'.classificationDefs.toList :=
    hmap (fun _ _ => Item.classificationDef.inj) _ _
      (hitems (.definition (.structuralType .classification)))
  have hrelationshipDefs : d.relationshipDefs.toList = d'.relationshipDefs.toList :=
    hmap (fun _ _ => Item.relationshipDef.inj) _ _
      (hitems (.definition (.structuralType .relationship)))
  have hpatches : d.patches.toList = d'.patches.toList :=
    hmap (fun _ _ => Item.patch.inj) _ _ (hitems .patch)
  have hentities : d.entities.toList = d'.entities.toList :=
    hmap (fun _ _ => Item.entity.inj) _ _ (hitems (.instanceOf .entity))
  have hrelationships : d.relationships.toList = d'.relationships.toList :=
    hmap (fun _ _ => Item.relationship.inj) _ _ (hitems (.instanceOf .relationship))
  simp only [archive, typeStore, instanceStore, attributeTypeDefs, newTypeDefs, hheader,
    hprimitiveDefs, hcollectionDefs, henumDefs, hentityDefs, hclassificationDefs,
    hrelationshipDefs, hpatches, hentities, hrelationships]

end Draft

/-- The item that an attribute type is. -/
def AttributeTypeDef.item : AttributeTypeDef → Item
  | primitive t => .primitiveDef t
  | collection t => .collectionDef t
  | enum t => .enumDef t

/-- The item that a structural type is. -/
def TypeDef.item : TypeDef → Item
  | entity t => .entityDef t
  | classification t => .classificationDef t
  | relationship t => .relationshipDef t

section

variable (s : AttributeTypeDef) (t : TypeDef)

theorem AttributeTypeDef.typeName?_item : s.item.typeName? = some s.name := by
  cases s <;> rfl

theorem AttributeTypeDef.guid?_item : s.item.guid? = some s.guid := by
  cases s <;> rfl

theorem AttributeTypeDef.instanceGuid?_item : s.item.instanceGuid? = none := by
  cases s <;> rfl

theorem TypeDef.typeName?_item : t.item.typeName? = some t.name := by
  cases t <;> rfl

theorem TypeDef.guid?_item : t.item.guid? = some t.guid := by
  cases t <;> rfl

theorem TypeDef.instanceGuid?_item : t.item.instanceGuid? = none := by
  cases t <;> rfl

theorem TypeDef.attributeNames_item :
    t.item.attributeNames = t.properties.map TypeDefAttribute.name := by
  cases t <;> rfl

end

/-- What an archive lists, from front to back. -/
def TypeArchive.items (a : TypeArchive) : List Item :=
  a.attributeTypeDefs.map AttributeTypeDef.item ++ a.newTypeDefs.map TypeDef.item ++
    a.typeDefPatches.map .patch ++ a.entities.map .entity ++ a.relationships.map .relationship

theorem TypeArchive.filterMap_items {α : Type} (a : TypeArchive) (f : Item → Option α) :
    a.items.filterMap f =
      (a.attributeTypeDefs.filterMap fun t => f t.item) ++
        (a.newTypeDefs.filterMap fun t => f t.item) ++
          (a.typeDefPatches.filterMap fun p => f (.patch p)) ++
            (a.entities.filterMap fun e => f (.entity e)) ++
              a.relationships.filterMap fun r => f (.relationship r) := by
  simp [items, List.filterMap_map]

theorem Draft.items_archive (d : Draft) : d.archive.items = d.items := by
  simp [TypeArchive.items, attributeTypeDefs_archive, newTypeDefs_archive, typeDefPatches_archive,
    entities_archive, relationships_archive, attributeTypeDefs, newTypeDefs, items,
    ItemKind.loadOrder, itemsOf, Function.comp_def, AttributeTypeDef.item, TypeDef.item]

end MetadataArchive
