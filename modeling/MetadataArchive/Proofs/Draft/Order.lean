import MetadataArchive.Proofs.Draft.Accepted
import MetadataArchive.Proofs.Draft.Archive
import MetadataArchive.Proofs.Draft.Replay

/-!
# The order of calls

Whether all of some items are accepted depends on what they are, and on their order only as far as
the entity types at the ends of a relationship type come before it. Put into any other order with
that property, the same items are accepted again, and the archives differ in order alone.
-/

namespace MetadataArchive

theorem Compatible.subperm {items items' : List Item} (h : Compatible items)
    (hsub : items'.Subperm items) : Compatible items' := by
  obtain ⟨items'', hperm, hsub⟩ := hsub
  exact (h.sublist hsub).perm hperm

/-- Two relationship types that introduce an attribute of one name on one entity type. -/
def RelationshipDef.CollidesWith (t t' : RelationshipDef) : Prop :=
  ∃ entityType attributeName,
    attributeName ∈ t.introducedOn entityType ∧ attributeName ∈ t'.introducedOn entityType

theorem Compatible.not_collidesWith {t t' : RelationshipDef}
    (h : Compatible [.relationshipDef t, .relationshipDef t']) : ¬ t.CollidesWith t' := by
  intro hcollides
  obtain ⟨entityType, attributeName, ht, ht'⟩ := hcollides
  have hfresh := h.fits.visible_fresh entityType attributeName ht
  exact hfresh (List.mem_flatMap.2 ⟨.relationshipDef t', List.mem_singleton_self _, ht'⟩)

/-- The items of a kind that an archive lists, from front to back. -/
def TypeArchive.itemsOf (a : TypeArchive) (k : ItemKind) : List Item :=
  a.items.filter fun item => item.kind = k

namespace Draft

variable {header : ArchiveProperties} {items : List Item} {d : Draft}

theorem typeCount_eq_length_typeNames (d : Draft) :
    d.typeCount = (d.items.filterMap Item.typeName?).length := by
  rw [← items_archive, TypeArchive.filterMap_typeName?, typeCount_eq]
  simp [TypeArchive.typeNames]

theorem eq_run_of_addAll (h : (empty header).addAll items = .ok d) : d = run header items :=
  (foldl_tryAdd_of_addAll h).symm

theorem perm_items_of_addAll_empty (h : (empty header).addAll items = .ok d) :
    d.items.Perm items := by
  simpa using perm_items_of_addAll h

/-- What is accepted as a whole: compatible items, among which relationship types come after the
entity types at their ends. -/
theorem exists_addAll_eq_ok_iff : (∃ d, (empty header).addAll items = .ok d) ↔
    Compatible items ∧ EndsPrecede items := by
  constructor
  · intro hex
    obtain ⟨d, hadd⟩ := hex
    refine ⟨?_, fun before item hpre => ?_⟩
    · have hcoherent : d.Coherent := eq_run_of_addAll hadd ▸ coherent_run header items
      exact hcoherent.compatible.perm (perm_items_of_addAll_empty hadd)
    · -- the item passed the check of a draft that had the items before it and no others
      obtain ⟨after, rfl⟩ := hpre
      rw [addAll, List.foldlM_append, Except.bind_eq_ok_iff] at hadd
      obtain ⟨d₁, hadd₁, -⟩ := hadd
      change (empty header).addAll (before ++ [item]) = .ok d₁ at hadd₁
      rw [addAll_append_singleton, Except.bind_eq_ok_iff] at hadd₁
      obtain ⟨d₀, hadd₀, hitem⟩ := hadd₁
      have hcoherent : d₀.Coherent := eq_run_of_addAll hadd₀ ▸ coherent_run header before
      have hcheck : d₀.check item = .ok () := by
        rw [outcome_add] at hitem
        cases hcheck : d₀.check item with
        | ok => rfl
        | error r =>
          rw [hcheck] at hitem
          cases hitem
      exact (hcoherent.check_eq_ok_iff.1 hcheck).2.mono fun e he =>
        (perm_items_of_addAll_empty hadd₀).mem_iff.1 he
  · intro hall
    obtain ⟨hcompatible, hends⟩ := hall
    obtain ⟨d, hadd, -⟩ := exists_addAll_eq_ok header hcompatible hends
    exact ⟨d, hadd⟩

/-- Relationship types that collide are never both accepted, whatever else is called in whatever
order. -/
theorem not_accepted_of_collidesWith {t t' : RelationshipDef} (h : t.CollidesWith t')
    (header : ArchiveProperties) (calls : List Item) :
    ¬ [Item.relationshipDef t, .relationshipDef t'].Subperm ((empty header).accepted calls) := by
  intro hsub
  have hcompatible : Compatible ((empty header).accepted calls) :=
    (coherent_run header calls).compatible.perm (perm_items_run header calls)
  exact (hcompatible.subperm hsub).not_collidesWith h

/-- Items that are all accepted in one order are all accepted in every other order in which the
entity types at the ends of a relationship type still come before it. The two drafts have the same
attributes introduced on every entity type and as many definitions, and their archives list the
same items of every kind, up to order. So no order lets two relationship types pass that collide. -/
theorem addAll_perm {header header' : ArchiveProperties} {items items' : List Item} {d : Draft}
    (hadd : (empty header).addAll items = .ok d) (hperm : items.Perm items')
    (hends : EndsPrecede items') :
    (∃ d', (empty header').addAll items' = .ok d' ∧
      (∀ entityType, d'.endpointAttributes entityType = d.endpointAttributes entityType) ∧
        d'.typeCount = d.typeCount ∧ ∀ k, (d'.archive.itemsOf k).Perm (d.archive.itemsOf k)) ∧
      ∀ t t' : RelationshipDef, t.CollidesWith t' → ∀ header calls,
        ¬ [Item.relationshipDef t, .relationshipDef t'].Subperm
          ((empty header).accepted calls) := by
  refine ⟨?_, fun t t' => not_accepted_of_collidesWith⟩
  have hcompatible : Compatible items' := (exists_addAll_eq_ok_iff.1 ⟨d, hadd⟩).1.perm hperm
  have hcoherent : d.Coherent := eq_run_of_addAll hadd ▸ coherent_run header items
  obtain ⟨d', hadd', -, hcoherent', hperm', -⟩ := exists_addAll_eq_ok header' hcompatible hends
  have hitems : d'.items.Perm d.items :=
    hperm'.trans (hperm.symm.trans (perm_items_of_addAll_empty hadd).symm)
  refine ⟨d', hadd', ?_, ?_, fun k => ?_⟩
  · exact hcoherent'.endpointAttributes_eq hcoherent fun _ => hitems.mem_iff
  · rw [typeCount_eq_length_typeNames, typeCount_eq_length_typeNames]
    exact (hitems.filterMap _).length_eq
  · rw [TypeArchive.itemsOf, TypeArchive.itemsOf, items_archive, items_archive]
    exact hitems.filter _

/-- Entity types of services and hosts, in this order, and a relationship type between them. -/
def serviceFirstItems : List Item :=
  [.entityDef serviceDef, .entityDef hostDef, .relationshipDef (hostingDef "Hosting" "services")]

theorem endsPrecede_serviceFirstItems : EndsPrecede serviceFirstItems := by
  intro before item hpre
  obtain ⟨after, hitems⟩ := hpre
  match before, item with
  | [_, _], .relationshipDef t =>
    simp only [serviceFirstItems, List.cons_append, List.nil_append, List.cons.injEq] at hitems
    obtain ⟨rfl, rfl, ht, -⟩ := hitems
    cases ht
    exact ⟨⟨hostDef, by simp, rfl⟩, serviceDef, by simp, rfl⟩
  | [], .relationshipDef t | [_], .relationshipDef t => simp [serviceFirstItems] at hitems
  | _ :: _ :: _ :: _, .relationshipDef t => simp [serviceFirstItems] at hitems
  | _, .primitiveDef _ | _, .collectionDef _ | _, .enumDef _ | _, .entityDef _
  | _, .classificationDef _ | _, .patch _ | _, .entity _ | _, .relationship _ => trivial

theorem addAll_perm_serviceFirstItems : ∃ d,
    (empty epochHeader).addAll (hostingCalls.take 3) = .ok d ∧
      (hostingCalls.take 3).Perm serviceFirstItems ∧ EndsPrecede serviceFirstItems ∧
        (∃ d', (empty epochHeader).addAll serviceFirstItems = .ok d' ∧
          (∀ entityType, d'.endpointAttributes entityType = d.endpointAttributes entityType) ∧
            d'.typeCount = d.typeCount ∧ ∀ k, (d'.archive.itemsOf k).Perm (d.archive.itemsOf k)) ∧
          (hostingDef "Hosting" "services").CollidesWith (hostingDef "Serving" "services") ∧
            ∀ calls, ¬ [Item.relationshipDef (hostingDef "Hosting" "services"),
              .relationshipDef (hostingDef "Serving" "services")].Subperm
                ((empty epochHeader).accepted calls) := by
  have hadd : (empty epochHeader).addAll (hostingCalls.take 3) =
      .ok (run epochHeader (hostingCalls.take 3)) := rfl
  have hperm : (hostingCalls.take 3).Perm serviceFirstItems := List.Perm.swap _ _ _
  have hcollides :
      (hostingDef "Hosting" "services").CollidesWith (hostingDef "Serving" "services") :=
    ⟨"Host", "services", by decide +kernel, by decide +kernel⟩
  obtain ⟨hex, hnone⟩ := @addAll_perm epochHeader epochHeader _ _ _ hadd hperm
    endsPrecede_serviceFirstItems
  exact ⟨_, hadd, hperm, endsPrecede_serviceFirstItems, hex, hcollides,
    hnone _ _ hcollides epochHeader⟩

end Draft

end MetadataArchive
