import MetadataArchive.Proofs.Draft.Listing
import MetadataArchive.Proofs.Json.Text
import MetadataArchive.Proofs.Wire.Emission

/-!
# Archives without empty parts

The text of an archive that is built shows what was accepted and no empty part besides: a store or a
list is there exactly if an item was accepted that belongs there, null is nowhere, and no header and
no instance shows a collection without elements.
-/

namespace MetadataArchive

/-! ## Lists that are not empty -/

theorem ne_nil_iff_of_map_eq {α β : Type} {f : α → β} {as : List α} {bs : List β}
    (h : as.map f = bs) : as ≠ [] ↔ ∃ b, b ∈ bs := by
  subst h
  cases as <;> simp

/-- Items of three kinds stand one kind after the other. There is one of them if there is an item of
one of the kinds, which are all of a family. -/
theorem ItemKind.exists_mem_among_iff {α : Type} (kind : α → ItemKind) {x y z : α}
    (hall : ∀ a, a = x ∨ a = y ∨ a = z) {items : List Item} :
    (∃ item, item ∈
        (kind x).among items ++ (kind y).among items ++ (kind z).among items) ↔
      ∃ item ∈ items, ∃ a, item.kind = kind a := by
  simp only [List.mem_append, mem_among]
  constructor
  · rintro ⟨item, (⟨hitem, hkind⟩ | ⟨hitem, hkind⟩) | ⟨hitem, hkind⟩⟩ <;>
      exact ⟨item, hitem, _, hkind⟩
  · rintro ⟨item, hitem, a, hkind⟩
    refine ⟨item, ?_⟩
    rcases hall a with rfl | rfl | rfl
    · exact .inl (.inl ⟨hitem, hkind⟩)
    · exact .inl (.inr ⟨hitem, hkind⟩)
    · exact .inr ⟨hitem, hkind⟩

namespace TypeArchive.ListsByKind

variable {a : TypeArchive} {items : List Item} (h : a.ListsByKind items)

include h

theorem attributeTypeDefs_ne_nil_iff : a.attributeTypeDefs ≠ [] ↔
    ∃ item ∈ items, ∃ category, item.kind = .definition (.attributeType category) := by
  rw [ne_nil_iff_of_map_eq h.attributeTypeDefs]
  exact ItemKind.exists_mem_among_iff (fun category => .definition (.attributeType category))
    fun category => by cases category <;> simp

theorem newTypeDefs_ne_nil_iff : a.newTypeDefs ≠ [] ↔
    ∃ item ∈ items, ∃ category, item.kind = .definition (.structuralType category) := by
  rw [ne_nil_iff_of_map_eq h.newTypeDefs]
  exact ItemKind.exists_mem_among_iff (fun category => .definition (.structuralType category))
    fun category => by cases category <;> simp

theorem typeDefPatches_ne_nil_iff :
    a.typeDefPatches ≠ [] ↔ ∃ item ∈ items, item.kind = .patch := by
  rw [ne_nil_iff_of_map_eq h.typeDefPatches]
  simp only [ItemKind.mem_among]

theorem entities_ne_nil_iff :
    a.entities ≠ [] ↔ ∃ item ∈ items, item.kind = .instanceOf .entity := by
  rw [ne_nil_iff_of_map_eq h.entities]
  simp only [ItemKind.mem_among]

theorem relationships_ne_nil_iff :
    a.relationships ≠ [] ↔ ∃ item ∈ items, item.kind = .instanceOf .relationship := by
  rw [ne_nil_iff_of_map_eq h.relationships]
  simp only [ItemKind.mem_among]

/-- What is not an instance is listed in one of the lists of types. -/
theorem types_ne_nil_iff :
    a.attributeTypeDefs ≠ [] ∨ a.newTypeDefs ≠ [] ∨ a.typeDefPatches ≠ [] ↔
      ∃ item ∈ items, ∀ kind, item.kind ≠ .instanceOf kind := by
  rw [h.attributeTypeDefs_ne_nil_iff, h.newTypeDefs_ne_nil_iff, h.typeDefPatches_ne_nil_iff]
  constructor
  · rintro (⟨item, hitem, _, hkind⟩ | ⟨item, hitem, _, hkind⟩ | ⟨item, hitem, hkind⟩) <;>
      exact ⟨item, hitem, by simp [hkind]⟩
  · rintro ⟨item, hitem, hkind⟩
    cases hitemKind : item.kind with
    | definition kind =>
      cases kind with
      | attributeType category => exact .inl ⟨item, hitem, category, hitemKind⟩
      | structuralType category => exact .inr (.inl ⟨item, hitem, category, hitemKind⟩)
    | patch => exact .inr (.inr ⟨item, hitem, hitemKind⟩)
    | instanceOf kind => exact absurd hitemKind (hkind kind)

theorem instances_ne_nil_iff :
    a.entities ≠ [] ∨ a.relationships ≠ [] ↔
      ∃ item ∈ items, ∃ kind, item.kind = .instanceOf kind := by
  rw [h.entities_ne_nil_iff, h.relationships_ne_nil_iff]
  constructor
  · rintro (⟨item, hitem, hkind⟩ | ⟨item, hitem, hkind⟩) <;> exact ⟨item, hitem, _, hkind⟩
  · rintro ⟨item, hitem, kind, hkind⟩
    cases kind with
    | entity => exact .inl ⟨item, hitem, hkind⟩
    | relationship => exact .inr ⟨item, hitem, hkind⟩

end TypeArchive.ListsByKind

/-! ## Archives whose stores are not empty -/

/-- An archive without empty parts: a list that is there has something in it, and so has a store. -/
structure TypeArchive.Trim (a : TypeArchive) : Prop where
  typeStore_ne : a.typeStore ≠ none ↔
    a.attributeTypeDefs ≠ [] ∨ a.newTypeDefs ≠ [] ∨ a.typeDefPatches ≠ []
  instanceStore_ne : a.instanceStore ≠ none ↔ a.entities ≠ [] ∨ a.relationships ≠ []
  attributeTypeDefs : ∀ s ∈ a.typeStore, s.attributeTypeDefs ≠ none ↔ a.attributeTypeDefs ≠ []
  newTypeDefs : ∀ s ∈ a.typeStore, s.newTypeDefs ≠ none ↔ a.newTypeDefs ≠ []
  typeDefPatches : ∀ s ∈ a.typeStore, s.typeDefPatches ≠ none ↔ a.typeDefPatches ≠ []
  entities : ∀ s ∈ a.instanceStore, s.entities ≠ none ↔ a.entities ≠ []
  relationships : ∀ s ∈ a.instanceStore, s.relationships ≠ none ↔ a.relationships ≠ []

namespace Draft

variable {d : Draft}

theorem nonempty?_ne_none_iff {α : Type} {as : List α} : nonempty? as ≠ none ↔ as ≠ [] := by
  cases as <;> simp [nonempty?]

/-- The store of types is there with all its lists that have something in them, or not at all. -/
theorem typeStore_cases (d : Draft) :
    (d.attributeTypeDefs = [] ∧ d.newTypeDefs = [] ∧ d.patches.toList = []) ∧ d.typeStore = none ∨
      (d.attributeTypeDefs ≠ [] ∨ d.newTypeDefs ≠ [] ∨ d.patches.toList ≠ []) ∧
        d.typeStore = some ⟨nonempty? d.attributeTypeDefs, nonempty? d.newTypeDefs,
          nonempty? d.patches.toList⟩ := by
  unfold typeStore
  generalize d.attributeTypeDefs = attributeTypeDefs
  generalize d.newTypeDefs = newTypeDefs
  generalize d.patches.toList = patches
  cases attributeTypeDefs <;> cases newTypeDefs <;> cases patches <;> simp [nonempty?]

theorem instanceStore_cases (d : Draft) :
    (d.entities.toList = [] ∧ d.relationships.toList = []) ∧ d.instanceStore = none ∨
      (d.entities.toList ≠ [] ∨ d.relationships.toList ≠ []) ∧
        d.instanceStore = some ⟨nonempty? d.entities.toList, nonempty? d.relationships.toList⟩ := by
  unfold instanceStore
  generalize d.entities.toList = entities
  generalize d.relationships.toList = relationships
  cases entities <;> cases relationships <;> simp [nonempty?]

theorem eq_of_mem_typeStore {s : ArchiveTypeStore} (h : s ∈ d.archive.typeStore) :
    s = ⟨nonempty? d.attributeTypeDefs, nonempty? d.newTypeDefs, nonempty? d.patches.toList⟩ := by
  change d.typeStore = some s at h
  rcases d.typeStore_cases with ⟨-, hstore⟩ | ⟨-, hstore⟩
  · simp [hstore] at h
  · rw [hstore] at h
    exact (Option.some.inj h).symm

theorem eq_of_mem_instanceStore {s : ArchiveInstanceStore} (h : s ∈ d.archive.instanceStore) :
    s = ⟨nonempty? d.entities.toList, nonempty? d.relationships.toList⟩ := by
  change d.instanceStore = some s at h
  rcases d.instanceStore_cases with ⟨-, hstore⟩ | ⟨-, hstore⟩
  · simp [hstore] at h
  · rw [hstore] at h
    exact (Option.some.inj h).symm

theorem trim_archive (d : Draft) : d.archive.Trim := by
  constructor
  case typeStore_ne =>
    rw [attributeTypeDefs_archive, newTypeDefs_archive, typeDefPatches_archive]
    show d.typeStore ≠ none ↔ _
    rcases d.typeStore_cases with ⟨hnil, hstore⟩ | ⟨hne, hstore⟩
    · simp [hstore, hnil]
    · exact iff_of_true (by simp [hstore]) hne
  case instanceStore_ne =>
    rw [entities_archive, relationships_archive]
    show d.instanceStore ≠ none ↔ _
    rcases d.instanceStore_cases with ⟨hnil, hstore⟩ | ⟨hne, hstore⟩
    · simp [hstore, hnil]
    · exact iff_of_true (by simp [hstore]) hne
  case attributeTypeDefs =>
    intro s hs
    rw [eq_of_mem_typeStore hs, attributeTypeDefs_archive]
    exact nonempty?_ne_none_iff
  case newTypeDefs =>
    intro s hs
    rw [eq_of_mem_typeStore hs, newTypeDefs_archive]
    exact nonempty?_ne_none_iff
  case typeDefPatches =>
    intro s hs
    rw [eq_of_mem_typeStore hs, typeDefPatches_archive]
    exact nonempty?_ne_none_iff
  case entities =>
    intro s hs
    rw [eq_of_mem_instanceStore hs, entities_archive]
    exact nonempty?_ne_none_iff
  case relationships =>
    intro s hs
    rw [eq_of_mem_instanceStore hs, relationships_archive]
    exact nonempty?_ne_none_iff

end Draft

/-! ## The text of an archive that is built -/

/-- A JSON value that shows an archive of some accepted items and nothing empty besides. -/
structure TypeArchive.TrimlyShownBy (a : TypeArchive) (items : List Item) (j : Json) : Prop where
  nullFree : j.NullFree
  typeStore : j.HasKey "archiveTypeStore" ↔ ∃ item ∈ items, ∀ kind, item.kind ≠ .instanceOf kind
  instanceStore : j.HasKey "archiveInstanceStore" ↔
    ∃ item ∈ items, ∃ kind, item.kind = .instanceOf kind
  attributeTypeDefs : ∀ s ∈ j.under "archiveTypeStore", s.HasKey "attributeTypeDefs" ↔
    ∃ item ∈ items, ∃ category, item.kind = .definition (.attributeType category)
  newTypeDefs : ∀ s ∈ j.under "archiveTypeStore", s.HasKey "newTypeDefs" ↔
    ∃ item ∈ items, ∃ category, item.kind = .definition (.structuralType category)
  typeDefPatches : ∀ s ∈ j.under "archiveTypeStore", s.HasKey "typeDefPatches" ↔
    ∃ item ∈ items, item.kind = .patch
  entities : ∀ s ∈ j.under "archiveInstanceStore", s.HasKey "entities" ↔
    ∃ item ∈ items, item.kind = .instanceOf .entity
  relationships : ∀ s ∈ j.under "archiveInstanceStore", s.HasKey "relationships" ↔
    ∃ item ∈ items, item.kind = .instanceOf .relationship
  header : List.Forall₂ ArchiveProperties.ShownBy [a.properties] (j.under "archiveProperties")
  eachEntity : List.Forall₂ EntityDetail.ShownBy a.entities
    ((j.under "archiveInstanceStore").flatMap (Json.itemsUnder "entities"))
  eachRelationship : List.Forall₂ Relationship.ShownBy a.relationships
    ((j.under "archiveInstanceStore").flatMap (Json.itemsUnder "relationships"))

/-- What is shown for a value that may be missing: one value, or none. -/
theorem forall₂_toList_iff {α β : Type} {R : α → β → Prop} {o : Option α} {bs : List β} :
    List.Forall₂ R o.toList bs ↔ o = none ∧ bs = [] ∨ ∃ a b, o = some a ∧ bs = [b] ∧ R a b := by
  cases o <;> simp [List.forall₂_cons_left_iff, and_comm]

theorem TypeArchive.Trim.trimlyShownBy {a : TypeArchive} {items : List Item} {j : Json}
    (h : a.Trim) (hlists : a.ListsByKind items) (hnull : j.NullFree) (hshown : a.ShownBy j) :
    a.TrimlyShownBy items j := by
  have htypes := forall₂_toList_iff.1 hshown.typeStore
  have hinstances := forall₂_toList_iff.1 hshown.instanceStore
  -- each store that is shown is a store of the archive
  have htypeStore : ∀ j' ∈ j.under "archiveTypeStore", ∃ s ∈ a.typeStore, s.ShownBy j' := by
    rcases htypes with ⟨-, hunder⟩ | ⟨s, j', hs, hunder, hj'⟩
    · simp [hunder]
    · simpa [hunder, hs] using hj'
  have hinstanceStore :
      ∀ j' ∈ j.under "archiveInstanceStore", ∃ s ∈ a.instanceStore, s.ShownBy j' := by
    rcases hinstances with ⟨-, hunder⟩ | ⟨s, j', hs, hunder, hj'⟩
    · simp [hunder]
    · simpa [hunder, hs] using hj'
  constructor
  case nullFree => exact hnull
  case header => exact hshown.properties
  case typeStore =>
    rw [← hlists.types_ne_nil_iff, ← h.typeStore_ne, Json.HasKey]
    rcases htypes with ⟨hs, hunder⟩ | ⟨s, j', hs, hunder, -⟩ <;> simp [hs, hunder]
  case instanceStore =>
    rw [← hlists.instances_ne_nil_iff, ← h.instanceStore_ne, Json.HasKey]
    rcases hinstances with ⟨hs, hunder⟩ | ⟨s, j', hs, hunder, -⟩ <;> simp [hs, hunder]
  case attributeTypeDefs =>
    intro j' hj'
    obtain ⟨s, hs, hshown⟩ := htypeStore j' hj'
    rw [hshown.attributeTypeDefs, h.attributeTypeDefs s hs, hlists.attributeTypeDefs_ne_nil_iff]
  case newTypeDefs =>
    intro j' hj'
    obtain ⟨s, hs, hshown⟩ := htypeStore j' hj'
    rw [hshown.newTypeDefs, h.newTypeDefs s hs, hlists.newTypeDefs_ne_nil_iff]
  case typeDefPatches =>
    intro j' hj'
    obtain ⟨s, hs, hshown⟩ := htypeStore j' hj'
    rw [hshown.typeDefPatches, h.typeDefPatches s hs, hlists.typeDefPatches_ne_nil_iff]
  case entities =>
    intro j' hj'
    obtain ⟨s, hs, hshown⟩ := hinstanceStore j' hj'
    rw [hshown.entities, h.entities s hs, hlists.entities_ne_nil_iff]
  case relationships =>
    intro j' hj'
    obtain ⟨s, hs, hshown⟩ := hinstanceStore j' hj'
    rw [hshown.relationships, h.relationships s hs, hlists.relationships_ne_nil_iff]
  case eachEntity =>
    rw [TypeArchive.entities]
    rcases hinstances with ⟨hs, hunder⟩ | ⟨s, j', hs, hunder, hj'⟩
    · simp [hs, hunder]
    · simpa [hs, hunder] using hj'.eachEntity
  case eachRelationship =>
    rw [TypeArchive.relationships]
    rcases hinstances with ⟨hs, hunder⟩ | ⟨s, j', hs, hunder, hj'⟩
    · simp [hs, hunder]
    · simpa [hs, hunder] using hj'.eachRelationship

namespace Draft

/-- A draft keeps its header. -/
theorem header_run (header : ArchiveProperties) (calls : List Item) :
    (run header calls).header = header :=
  run_induction (P := fun d => d.header = header) rfl
    (fun d item h _ => (header_take d item).trans h) calls

/-- Whatever calls are made in whatever order, the archive has the header of the draft, and its text,
in either layout, is read as a value that shows the accepted items and nothing empty besides. -/
theorem trimlyShownBy_run (header : ArchiveProperties) (calls : List Item) :
    (run header calls).archive.properties = header ∧
      ∃ j, Json.parse (TypeArchive.codec.encode (run header calls).archive) = some j ∧
        Json.parse (TypeArchive.codec.encodePretty (run header calls).archive) = some j ∧
        (run header calls).archive.TrimlyShownBy ((empty header).accepted calls) j :=
  ⟨header_run header calls, _, Json.parse_render .compact _, Json.parse_render (.indented 2) _,
    (trim_archive _).trimlyShownBy (listsByKind_archive (itemsOf_run header calls))
      (TypeArchive.nullFree_codec _) (TypeArchive.shownBy_write _)⟩

end Draft

end MetadataArchive
