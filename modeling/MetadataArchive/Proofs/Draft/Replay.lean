import Mathlib.Data.List.Induction
import MetadataArchive.Proofs.Draft.Check

/-!
# Runs that take everything

Compatible items can be added one after the other, and none is turned away, as long as every
relationship type comes after the entity types at its ends. The order matters for nothing else. What
an archive lists is such items in such an order, so it can be added to a new draft from front to
back, and the draft has the same archive again.
-/

namespace MetadataArchive

/-- A list in which the entity types at the ends of a relationship type come before it. -/
def EndsPrecede (items : List Item) : Prop :=
  ∀ before item, before ++ [item] <+: items → item.EndsAmong before

theorem EndsPrecede.of_isPrefix {items items' : List Item} (h : EndsPrecede items)
    (hpre : items' <+: items) : EndsPrecede items' :=
  fun before item hitem => h before item (hitem.trans hpre)

namespace Draft

variable {d d' : Draft}

/-! ## Adding compatible items -/

theorem addAll_append_singleton (d : Draft) (items : List Item) (item : Item) :
    d.addAll (items ++ [item]) = d.addAll items >>= fun d => (d.add item).outcome := by
  simp [addAll, List.foldlM_append]

/-- Compatible items are all taken, and the draft has these items and no others. -/
theorem exists_addAll_eq_ok (header : ArchiveProperties) {items : List Item}
    (hcompatible : Compatible items) (hends : EndsPrecede items) :
    ∃ d, (empty header).addAll items = .ok d ∧ d.header = header ∧ d.Coherent ∧
      d.items.Perm items ∧ ∀ k, d.itemsOf k = items.filter fun item => item.kind = k := by
  induction items using List.reverseRecOn with
  | nil =>
    refine ⟨empty header, rfl, rfl, coherent_empty header, ?_, fun k => ?_⟩
    · rw [items_empty]
    · rw [itemsOf_empty, List.filter_nil]
  | append_singleton items item ih =>
    obtain ⟨d, hrun, hheader, hcoherent, hperm, hitems⟩ :=
      ih (hcompatible.sublist (List.sublist_append_left _ _))
        (hends.of_isPrefix (List.prefix_append _ _))
    -- the last item fits what was taken before it, and finds its ends there
    have hfits : item.Fits d.items := by
      have hcons : Compatible (item :: items) :=
        hcompatible.perm (List.perm_append_singleton item items)
      exact hcons.fits.perm hperm.symm
    have hamong : item.EndsAmong d.items :=
      (hends items item List.prefix_rfl).mono fun e he => hperm.mem_iff.2 he
    have hcheck : d.check item = .ok () := hcoherent.check_eq_ok_iff.2 ⟨hfits, hamong⟩
    refine ⟨d.take item, ?_, ?_, hcoherent.take hfits hamong, ?_, fun k => ?_⟩
    · rw [addAll_append_singleton, hrun]
      show (d.add item).outcome = _
      rw [outcome_add, hcheck]
      rfl
    · rw [header_take, hheader]
    · calc
        List.Perm (d.take item).items (item :: d.items) := perm_items_take d item
        List.Perm _ (item :: items) := hperm.cons item
        List.Perm _ (items ++ [item]) := (List.perm_append_singleton item items).symm
    · rw [itemsOf_take, hitems, List.filter_append]
      split
      · next hkind => simp [hkind]
      · next hkind => simp [hkind]

/-! ## Adding what an archive lists -/

/-- In load order nothing of an entity type comes after a relationship type. -/
theorem pairwise_items (d : Draft) : d.items.Pairwise fun x y =>
    x.kind = .definition (.structuralType .relationship) →
      y.kind ≠ .definition (.structuralType .entity) := by
  have hkinds : ItemKind.loadOrder.Pairwise fun k k' =>
      k = .definition (.structuralType .relationship) →
        k' ≠ .definition (.structuralType .entity) := by
    decide
  refine List.pairwise_flatMap.2 ⟨fun k _ => ?_, hkinds.imp fun hk x hx y hy => ?_⟩
  · refine List.pairwise_of_forall_mem_list fun x hx y hy hrelationship hentity => ?_
    rw [kind_of_mem_itemsOf hx] at hrelationship
    rw [kind_of_mem_itemsOf hy, hrelationship] at hentity
    cases hentity
  · rw [kind_of_mem_itemsOf hx, kind_of_mem_itemsOf hy]
    exact hk

/-- The load order puts the ends of every relationship type before it. -/
theorem Coherent.endsPrecede (h : d.Coherent) : EndsPrecede d.items := by
  intro before item hpre
  obtain ⟨after, hitems⟩ := hpre
  cases item with
  | relationshipDef t =>
    -- no entity type comes after a relationship type, so that all of them come before it
    have hbefore : ∀ e, .entityDef e ∈ d.items → .entityDef e ∈ before := by
      intro e he
      have hpairwise := d.pairwise_items
      rw [← hitems, List.append_assoc] at he hpairwise
      have hafter := (List.pairwise_cons.1 (List.pairwise_append.1 hpairwise).2.1).1
      rcases List.mem_append.1 he with he | he
      · exact he
      · rcases List.mem_cons.1 he with heq | he
        · cases heq
        · exact absurd rfl (hafter _ he rfl)
    have hmem : .relationshipDef t ∈ d.items := by
      rw [← hitems]
      simp
    exact (h.endsAmong _ hmem).mono hbefore
  | _ => trivial

/-- Coherent drafts with the same items have the same attributes introduced everywhere. -/
theorem Coherent.endpointAttributes_eq (h : d.Coherent) (h' : d'.Coherent)
    (hitems : ∀ item, item ∈ d.items ↔ item ∈ d'.items) (entityType : String) :
    d.endpointAttributes entityType = d'.endpointAttributes entityType := by
  apply EndpointMap.attributesOf_eq_of_contains_iff
  intro attributeName
  rw [h.endpoints, h'.endpoints]
  simp only [hitems]

/-- What the archive of a run lists can be added to a new draft with the same header, from front to
back and all of it. That draft has the same archive, as many definitions, and the same attributes
introduced on every entity type. -/
theorem rebuild_archive (header : ArchiveProperties) (calls : List Item) :
    ∃ d, (empty (run header calls).archive.properties).addAll (run header calls).archive.items =
        .ok d ∧
      d.archive = (run header calls).archive ∧ d.typeCount = (run header calls).typeCount ∧
        ∀ entityType,
          d.endpointAttributes entityType = (run header calls).endpointAttributes entityType := by
  have hrun := coherent_run header calls
  obtain ⟨d, hadd, hheader, hcoherent, hperm, hitems⟩ :=
    exists_addAll_eq_ok (run header calls).header hrun.compatible hrun.endsPrecede
  have harchive : d.archive = (run header calls).archive :=
    archive_eq_of_itemsOf_eq hheader fun k => (hitems k).trans (filter_items _ k)
  refine ⟨d, ?_, harchive, ?_, ?_⟩
  · rw [items_archive]
    exact hadd
  · rw [typeCount_eq, typeCount_eq, harchive]
  · exact hcoherent.endpointAttributes_eq hrun fun _ => hperm.mem_iff

end Draft

end MetadataArchive
