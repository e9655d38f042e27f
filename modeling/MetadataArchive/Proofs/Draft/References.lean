import MetadataArchive.Proofs.Draft.Archive
import MetadataArchive.Proofs.Draft.Listing

/-!
# References and the load order

Definitions refer to one another by name. An archive can be loaded from front to back if none of its
definitions refers to a later one. The load order by kinds sees to that for all attributes, for the
entity types of classification types and for the ends of relationship types. It does not for the
rest: collections come before enumerations, though they can have them as arguments, and what is
referred to within a kind comes first only if it was accepted first.
-/

namespace MetadataArchive

/-! ## References -/

namespace Item

/-- The names of the attribute types that a definition refers to. -/
def attributeTypeNames : Item → List String
  | collectionDef t => t.argumentTypes
  | entityDef t => t.properties.map TypeDefAttribute.type
  | classificationDef t => t.properties.map TypeDefAttribute.type
  | relationshipDef t => t.properties.map TypeDefAttribute.type
  | _ => []

/-- The name of the super type of a definition. -/
def superTypeName? : Item → Option String
  | entityDef t => t.superType.map TypeDefLink.name
  | classificationDef t => t.superType.map TypeDefLink.name
  | _ => none

/-- The names of the entity types that a definition is about: those to which a classification may be
attached, and those at the ends of a relationship. -/
def entityTypeNames : Item → List String
  | classificationDef t => t.validEntityDefs.map TypeDefLink.name
  | relationshipDef t => [t.end1.entityType.name, t.end2.entityType.name]
  | _ => []

/-- Whether a definition refers to another one by its name. An attribute type has only references to
attribute types, and no reference to an attribute type leads to a structural type of that name. -/
def RefersTo (x : Item) : Item → Prop
  | primitiveDef t => t.name ∈ x.attributeTypeNames
  | collectionDef t => t.name ∈ x.attributeTypeNames
  | enumDef t => t.name ∈ x.attributeTypeNames
  | entityDef t => x.superTypeName? = some t.name ∨ t.name ∈ x.entityTypeNames
  | classificationDef t => x.superTypeName? = some t.name
  | relationshipDef t => x.superTypeName? = some t.name
  | patch _ | entity _ | relationship _ => False

instance : DecidableRel RefersTo
  | _, primitiveDef _ | _, collectionDef _ | _, enumDef _ => inferInstanceAs (Decidable (_ ∈ _))
  | _, entityDef _ => inferInstanceAs (Decidable (_ ∨ _))
  | _, classificationDef _ | _, relationshipDef _ => inferInstanceAs (Decidable (_ = _))
  | _, patch _ | _, entity _ | _, relationship _ => inferInstanceAs (Decidable False)

/-- Whether a definition refers to one of a kind that is loaded later: a collection to an enumeration
that it has as an argument, or a structural type to a super type that is not of its own kind. -/
def RefersAhead : Item → Item → Prop
  | collectionDef t, enumDef s => s.name ∈ t.argumentTypes
  | entityDef t, classificationDef s => t.superType.map TypeDefLink.name = some s.name
  | entityDef t, relationshipDef s => t.superType.map TypeDefLink.name = some s.name
  | classificationDef t, relationshipDef s => t.superType.map TypeDefLink.name = some s.name
  | _, _ => False

end Item

/-- The kinds of definitions in the order in which they are loaded. -/
def ItemKind.definitionOrder : List ItemKind :=
  [.definition (.attributeType .primitive), .definition (.attributeType .collection),
    .definition (.attributeType .enum), .definition (.structuralType .entity),
    .definition (.structuralType .classification), .definition (.structuralType .relationship)]

/-- Whether all definitions of a kind are loaded before those of another. -/
def ItemKind.LoadedBefore (k k' : ItemKind) : Prop :=
  [k, k'].Sublist definitionOrder

instance : DecidableRel ItemKind.LoadedBefore :=
  fun k k' => inferInstanceAs (Decidable ([k, k'].Sublist ItemKind.definitionOrder))

namespace Item

variable {x y : Item}

theorem kind_mem_definitionOrder (h : x.RefersTo y) : x.kind ∈ ItemKind.definitionOrder := by
  cases x <;> cases y <;>
    simp_all [RefersTo, attributeTypeNames, superTypeName?, entityTypeNames, kind,
      ItemKind.definitionOrder]

/-- To refer ahead is to refer to something of a kind that is loaded later. -/
theorem refersAhead_iff : x.RefersAhead y ↔ x.kind.LoadedBefore y.kind ∧ x.RefersTo y := by
  cases x <;> cases y <;>
    simp +decide [RefersAhead, RefersTo, kind, attributeTypeNames, superTypeName?, entityTypeNames]

end Item

/-! ## Archives -/

namespace TypeArchive

/-- The definitions of an archive, from front to back. -/
def definitions (a : TypeArchive) : List Item :=
  a.attributeTypeDefs.map AttributeTypeDef.item ++ a.newTypeDefs.map TypeDef.item

/-- An archive in which every definition comes after each other definition that it refers to: none
refers to one behind it. -/
def RefersBack (a : TypeArchive) : Prop :=
  a.definitions.Pairwise fun x y => ¬ x.RefersTo y

instance (a : TypeArchive) : Decidable a.RefersBack :=
  inferInstanceAs (Decidable (a.definitions.Pairwise _))

variable {a : TypeArchive} {items : List Item}

theorem ListsByKind.definitions_eq (h : a.ListsByKind items) :
    a.definitions = ItemKind.definitionOrder.flatMap fun k => k.among items := by
  unfold definitions
  rw [h.attributeTypeDefs, h.newTypeDefs]
  simp [ItemKind.definitionOrder]

/-- Within the kinds, none refers to a later one exactly if none does among all items. -/
theorem pairwise_among_iff :
    (∀ k ∈ ItemKind.definitionOrder, (k.among items).Pairwise fun x y => ¬ x.RefersTo y) ↔
      items.Pairwise fun x y => x.kind = y.kind → ¬ x.RefersTo y := by
  constructor
  · intro h
    rw [List.pairwise_iff_forall_sublist]
    intro x y hxy hkind hrefers
    have hpair : [x, y].Sublist (x.kind.among items) := by
      have hfilter := hxy.filter fun item => item.kind = x.kind
      simpa [ItemKind.among, hkind] using hfilter
    have hwithin := h x.kind (Item.kind_mem_definitionOrder hrefers)
    exact List.pairwise_iff_forall_sublist.1 hwithin hpair hrefers
  · intro h k _
    refine (h.filter _).imp_of_mem fun hx hy hrefers => ?_
    exact hrefers ((ItemKind.mem_among.1 hx).2.trans (ItemKind.mem_among.1 hy).2.symm)

/-- From kind to kind, none refers to a later one exactly if none refers ahead. -/
theorem pairwise_definitionOrder_iff :
    (ItemKind.definitionOrder.Pairwise fun k k' =>
        ∀ x ∈ k.among items, ∀ y ∈ k'.among items, ¬ x.RefersTo y) ↔
      ∀ x ∈ items, ∀ y ∈ items, ¬ x.RefersAhead y := by
  rw [List.pairwise_iff_forall_sublist]
  constructor
  · intro h x hx y hy hahead
    obtain ⟨hbefore, hrefers⟩ := Item.refersAhead_iff.1 hahead
    exact h hbefore x (ItemKind.mem_among.2 ⟨hx, rfl⟩) y (ItemKind.mem_among.2 ⟨hy, rfl⟩) hrefers
  · intro h k k' hbefore x hx y hy hrefers
    obtain ⟨hxmem, rfl⟩ := ItemKind.mem_among.1 hx
    obtain ⟨hymem, rfl⟩ := ItemKind.mem_among.1 hy
    exact h x hxmem y hymem (Item.refersAhead_iff.2 ⟨hbefore, hrefers⟩)

theorem ListsByKind.refersBack_iff (h : a.ListsByKind items) : a.RefersBack ↔
    (items.Pairwise fun x y => x.kind = y.kind → ¬ x.RefersTo y) ∧
      ∀ x ∈ items, ∀ y ∈ items, ¬ x.RefersAhead y := by
  unfold RefersBack
  rw [h.definitions_eq, List.pairwise_flatMap, pairwise_among_iff, pairwise_definitionOrder_iff]

end TypeArchive

namespace Draft

/-- The archive of a run has every definition after all others to which it refers, if and only if
none of the accepted items refers to one of its kind that was accepted after it, or to one of a kind
that is loaded later. Attributes, the entity types of classification types and the ends of
relationship types are neither, and so in order always. -/
theorem refersBack_run_iff (header : ArchiveProperties) (calls : List Item) :
    (run header calls).archive.RefersBack ↔
      (((empty header).accepted calls).Pairwise fun x y => x.kind = y.kind → ¬ x.RefersTo y) ∧
        ∀ x ∈ (empty header).accepted calls, ∀ y ∈ (empty header).accepted calls,
          ¬ x.RefersAhead y :=
  (listsByKind_archive (itemsOf_run header calls)).refersBack_iff

/-- An enumeration, and then a collection that has it as its argument. -/
def levelCalls : List Item :=
  [.enumDef ((EnumDef.plain "guid-level" "Level").withElement "LOW"),
    .collectionDef (.plain "guid-levels" "array<Level>" .array ["Level"])]

/-- Even what is added in the order of its references need not be listed so: the collection comes
first, before the enumeration that is its argument. -/
theorem not_refersBack_levelCalls : ¬ (run epochHeader levelCalls).archive.RefersBack := by
  decide +kernel

end Draft

end MetadataArchive
