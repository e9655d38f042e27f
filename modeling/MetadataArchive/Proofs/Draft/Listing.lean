import MetadataArchive.Proofs.Draft.Accepted

/-!
# What an archive lists

An archive lists the items that were accepted, each as it was submitted and no other: kind after
kind, and the items of a kind in the order of the calls. An item that was accepted stays where it is
whatever is called later.
-/

namespace MetadataArchive

/-- Those of some items that are of a kind, in the same order. -/
def ItemKind.among (k : ItemKind) (items : List Item) : List Item :=
  items.filter fun item => item.kind = k

theorem ItemKind.mem_among {k : ItemKind} {items : List Item} {item : Item} :
    item ∈ k.among items ↔ item ∈ items ∧ item.kind = k := by
  simp [among]

/-- An archive with the given items in its lists: every list has the items of its kinds, kind after
kind, and those of a kind in the order given. -/
structure TypeArchive.ListsByKind (a : TypeArchive) (items : List Item) : Prop where
  attributeTypeDefs : a.attributeTypeDefs.map AttributeTypeDef.item =
    (ItemKind.definition (.attributeType .primitive)).among items ++
      (ItemKind.definition (.attributeType .collection)).among items ++
        (ItemKind.definition (.attributeType .enum)).among items
  newTypeDefs : a.newTypeDefs.map TypeDef.item =
    (ItemKind.definition (.structuralType .entity)).among items ++
      (ItemKind.definition (.structuralType .classification)).among items ++
        (ItemKind.definition (.structuralType .relationship)).among items
  typeDefPatches : a.typeDefPatches.map .patch = ItemKind.patch.among items
  entities : a.entities.map .entity = (ItemKind.instanceOf .entity).among items
  relationships : a.relationships.map .relationship = (ItemKind.instanceOf .relationship).among items

namespace Draft

variable {d d' : Draft}

/-! ## Which calls are accepted -/

/-- Later calls are judged by the draft to which the earlier ones led, and change nothing about
these. -/
theorem accepted_append (d : Draft) (earlier later : List Item) :
    d.accepted (earlier ++ later) =
      d.accepted earlier ++ (earlier.foldl tryAdd d).accepted later := by
  induction earlier generalizing d with
  | nil => rfl
  | cons item earlier ih =>
    rw [List.cons_append, List.foldl_cons]
    cases hcheck : d.check item with
    | ok =>
      rw [accepted_cons_of_ok hcheck, accepted_cons_of_ok hcheck, tryAdd_of_check_eq_ok hcheck, ih]
      rfl
    | error r =>
      rw [accepted_cons_of_error hcheck, accepted_cons_of_error hcheck,
        tryAdd_of_check_eq_error hcheck, ih]

theorem accepted_sublist (d : Draft) (calls : List Item) : (d.accepted calls).Sublist calls := by
  induction calls generalizing d with
  | nil => exact .slnil
  | cons item calls ih =>
    cases hcheck : d.check item with
    | ok =>
      rw [accepted_cons_of_ok hcheck]
      exact (ih _).cons_cons item
    | error r =>
      rw [accepted_cons_of_error hcheck]
      exact (ih d).cons item

/-- Patches are always accepted. -/
theorem among_patch_accepted (d : Draft) (calls : List Item) :
    ItemKind.patch.among (d.accepted calls) = ItemKind.patch.among calls := by
  induction calls generalizing d with
  | nil => rfl
  | cons item calls ih =>
    cases hcheck : d.check item with
    | ok =>
      rw [accepted_cons_of_ok hcheck]
      simp only [ItemKind.among, List.filter_cons] at ih ⊢
      rw [ih]
    | error r =>
      have hkind : item.kind ≠ .patch := by
        intro hkind
        cases item <;> cases hkind
        cases hcheck
      rw [accepted_cons_of_error hcheck, ih]
      simp [ItemKind.among, hkind]

/-! ## The items of each kind -/

/-- Where all items are accepted, those of a kind are put behind the ones that were there. -/
theorem itemsOf_of_addAll {items : List Item} (h : d.addAll items = .ok d') (k : ItemKind) :
    d'.itemsOf k = d.itemsOf k ++ k.among items := by
  induction items generalizing d with
  | nil =>
    cases h
    exact (List.append_nil _).symm
  | cons item items ih =>
    obtain ⟨-, hrest⟩ := addAll_cons_eq_ok_iff.1 h
    rw [ih hrest, itemsOf_take]
    by_cases hkind : item.kind = k
    · simp [ItemKind.among, hkind]
    · simp [ItemKind.among, hkind]

variable (header : ArchiveProperties) (calls : List Item)

theorem itemsOf_run (k : ItemKind) :
    (run header calls).itemsOf k = k.among ((empty header).accepted calls) := by
  have h := itemsOf_of_addAll ((empty header).addAll_accepted calls) k
  rwa [itemsOf_empty, List.nil_append] at h

/-- The lists of an archive are the items of its draft. -/
theorem listsByKind_archive {items : List Item} (h : ∀ k, d.itemsOf k = k.among items) :
    d.archive.ListsByKind items where
  attributeTypeDefs := by
    rw [attributeTypeDefs_archive, ← h, ← h, ← h]
    simp [attributeTypeDefs, itemsOf, AttributeTypeDef.item, Function.comp_def]
  newTypeDefs := by
    rw [newTypeDefs_archive, ← h, ← h, ← h]
    simp [newTypeDefs, itemsOf, TypeDef.item, Function.comp_def]
  typeDefPatches := by
    rw [typeDefPatches_archive, ← h]
    rfl
  entities := by
    rw [entities_archive, ← h]
    rfl
  relationships := by
    rw [relationships_archive, ← h]
    rfl

/-- Whatever calls are made in whatever order, the lists of the archive have the accepted items and
nothing else, by kind and in the order of the calls, patches being accepted always. Each accepted
item is listed once, all definitions are counted, and what has been accepted once is not changed by
later calls. -/
theorem listsByKind_run :
    (run header calls).archive.ListsByKind ((empty header).accepted calls) ∧
      (run header calls).archive.typeDefPatches.map .patch = ItemKind.patch.among calls ∧
      (run header calls).archive.items.Perm ((empty header).accepted calls) ∧
      ((empty header).accepted calls).Sublist calls ∧
      (∀ earlier, earlier <+: calls →
        (empty header).accepted earlier <+: (empty header).accepted calls) ∧
      (run header calls).typeCount = (run header calls).archive.attributeTypeDefs.length +
        (run header calls).archive.newTypeDefs.length := by
  have hlists := listsByKind_archive (itemsOf_run header calls)
  refine ⟨hlists, ?_, ?_, (empty header).accepted_sublist calls, ?_, typeCount_eq _⟩
  · rw [hlists.typeDefPatches, among_patch_accepted]
  · rw [items_archive]
    exact perm_items_run header calls
  · intro earlier hearlier
    obtain ⟨later, rfl⟩ := hearlier
    rw [accepted_append]
    exact List.prefix_append _ _

end Draft

end MetadataArchive
