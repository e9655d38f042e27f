import MetadataArchive.Proofs.Draft.EndpointAttributes

/-!
# The links at the ends of relationship types

A relationship type refers to the entity type at each of its ends by a link, which has a GUID and a
name. The name is looked up when the relationship type is added, the GUID never is. So the name of a
link leads to exactly one definition of the archive, an entity type that is listed before; the GUID
is that of the entity type only if it was submitted so.
-/

namespace MetadataArchive

/-- The links to the entity types at the ends of a relationship type. -/
def RelationshipDef.links (t : RelationshipDef) : List TypeDefLink :=
  [t.end1.entityType, t.end2.entityType]

theorem TypeDefLink.of_eq_iff {α : Type} [Definition α] {x : α} {link : TypeDefLink} :
    TypeDefLink.of x = link ↔ Definition.guid x = link.guid ∧ Definition.name x = link.name := by
  cases link
  simp [TypeDefLink.of]

namespace TypeArchive

/-- An archive in which every link at an end of a relationship type is, in both its keys, the link
to exactly one entity type, which is listed before the relationship type. -/
def LinksResolve (a : TypeArchive) : Prop :=
  ∀ t ∈ a.relationshipDefs, ∀ link ∈ t.links,
    ∃! e : EntityDef, [.entity e, .relationship t].Sublist a.newTypeDefs ∧ TypeDefLink.of e = link

/-- What a link at an end of a relationship type leads to in an archive: by its name to an entity
type before the relationship type and to no other definition, and by both keys to the same entity
type or, if the GUID is another one, to none. -/
structure LeadsTo (a : TypeArchive) (t : RelationshipDef) (link : TypeDefLink) (e : EntityDef) :
    Prop where
  named : a.newTypeDefs.filter (fun d => d.name = link.name) = [.entity e]
  not_named : ∀ s ∈ a.attributeTypeDefs, s.name ≠ link.name
  precedes : [.entity e, .relationship t].Sublist a.newTypeDefs
  linked : a.newTypeDefs.filter (fun d => d.link = link) =
    if e.guid = link.guid then [.entity e] else []

theorem LeadsTo.eq_of_name {a : TypeArchive} {t : RelationshipDef} {link : TypeDefLink}
    {e e' : EntityDef} (h : a.LeadsTo t link e) (he' : .entity e' ∈ a.newTypeDefs)
    (hname : e'.name = link.name) : e' = e := by
  have hmem : .entity e' ∈ a.newTypeDefs.filter fun d => d.name = link.name :=
    List.mem_filter.2 ⟨he', decide_eq_true hname⟩
  rw [h.named, List.mem_singleton] at hmem
  exact TypeDef.entity.inj hmem

end TypeArchive

namespace Draft

variable {d : Draft}

/-- Entity types are listed before relationship types. -/
theorem sublist_newTypeDefs {e : EntityDef} {t : RelationshipDef}
    (he : .entity e ∈ d.archive.newTypeDefs) (ht : t ∈ d.archive.relationshipDefs) :
    [.entity e, .relationship t].Sublist d.archive.newTypeDefs := by
  rw [newTypeDefs_archive, newTypeDefs] at he ⊢
  rw [relationshipDefs_archive] at ht
  have hentity : [TypeDef.entity e].Sublist (d.entityDefs.toList.map .entity) :=
    List.singleton_sublist.2 (by simpa using he)
  have hrelationship : [TypeDef.relationship t].Sublist
      (d.relationshipDefs.toList.map .relationship) :=
    List.singleton_sublist.2 (List.mem_map_of_mem ht)
  exact (hentity.trans (List.sublist_append_left _ _)).append hrelationship

/-- An entity type that has the name of a link is where the link leads to. -/
theorem Coherent.leadsTo (h : d.Coherent) {t : RelationshipDef} {link : TypeDefLink} {e : EntityDef}
    (ht : t ∈ d.archive.relationshipDefs) (he : .entity e ∈ d.archive.newTypeDefs)
    (hname : e.name = link.name) : d.archive.LeadsTo t link e := by
  obtain ⟨-, hnd, hapart⟩ := List.nodup_append'.1 h.nodup_typeNames_archive
  have hnamed : d.archive.newTypeDefs.filter (fun d => d.name = link.name) = [.entity e] :=
    filter_eq_singleton hnd he fun y _ => by
      rw [decide_eq_true_iff, ← hname]
      rfl
  constructor
  case named => exact hnamed
  case not_named =>
    intro s hs heq
    refine hapart (List.mem_map_of_mem hs) ?_
    rw [heq, ← hname]
    exact List.mem_map_of_mem he
  case precedes => exact sublist_newTypeDefs he ht
  case linked =>
    -- what has the link has its name, and so is found among what has the name
    have hsplit : (fun d : TypeDef => decide (d.link = link)) =
        fun d => decide (d.guid = link.guid) && decide (d.name = link.name) := by
      funext d
      rw [← Bool.decide_and]
      cases link
      simp [TypeDef.link]
    rw [hsplit, ← List.filter_filter, hnamed]
    by_cases hguid : e.guid = link.guid
    · simp [TypeDef.guid, hguid]
    · simp [TypeDef.guid, hguid]

theorem Coherent.exists_named (h : d.Coherent) {t : RelationshipDef} {link : TypeDefLink}
    (ht : t ∈ d.archive.relationshipDefs) (hlink : link ∈ t.links) :
    ∃ e, .entity e ∈ d.archive.newTypeDefs ∧ e.name = link.name := by
  obtain ⟨h1, h2⟩ := h.hasEntityType_ends ht
  rcases List.mem_pair.1 hlink with rfl | rfl
  · exact h1
  · exact h2

variable (header : ArchiveProperties) (calls : List Item)

/-- Each link at the ends of the relationship types of an archive leads to exactly one entity type,
by its name. Its GUID is listed as it was submitted. -/
theorem existsUnique_leadsTo {t : RelationshipDef} {link : TypeDefLink}
    (ht : t ∈ (run header calls).archive.relationshipDefs) (hlink : link ∈ t.links) :
    ∃! e, (run header calls).archive.LeadsTo t link e := by
  have h := coherent_run header calls
  obtain ⟨e, he, hname⟩ := h.exists_named ht hlink
  have hleads := h.leadsTo ht he hname
  refine ⟨e, hleads, fun e' hleads' => ?_⟩
  have heq : [TypeDef.entity e'] = [.entity e] := hleads'.named.symm.trans hleads.named
  cases heq
  rfl

/-- The links of an archive resolve in both keys exactly if each was submitted with the GUID of the
entity type that it names. -/
theorem linksResolve_run_iff : (run header calls).archive.LinksResolve ↔
    ∀ t ∈ (run header calls).archive.relationshipDefs, ∀ link ∈ t.links,
      ∀ e, (run header calls).archive.LeadsTo t link e → e.guid = link.guid := by
  constructor
  · intro h t ht link hlink e hleads
    obtain ⟨e', ⟨hprecedes, hof⟩, -⟩ := h t ht link hlink
    obtain ⟨hguid, hname⟩ := TypeDefLink.of_eq_iff.1 hof
    rw [← hleads.eq_of_name (hprecedes.subset List.mem_cons_self) hname]
    exact hguid
  · intro h t ht link hlink
    have hcoherent := coherent_run header calls
    obtain ⟨e, he, hname⟩ := hcoherent.exists_named ht hlink
    have hleads := hcoherent.leadsTo ht he hname
    refine ⟨e, ⟨hleads.precedes, TypeDefLink.of_eq_iff.2 ⟨h t ht link hlink e hleads, hname⟩⟩,
      fun e' hall => ?_⟩
    obtain ⟨hprecedes, hof⟩ := hall
    exact hleads.eq_of_name (hprecedes.subset List.mem_cons_self) (TypeDefLink.of_eq_iff.1 hof).2

theorem existsUnique_leadsTo_hostingDef :
    hostingDef "Hosting" "services" ∈ (run epochHeader hostingCalls).archive.relationshipDefs ∧
      ⟨"guid-host", "Host"⟩ ∈ (hostingDef "Hosting" "services").links ∧
        ∃! e, (run epochHeader hostingCalls).archive.LeadsTo (hostingDef "Hosting" "services")
          ⟨"guid-host", "Host"⟩ e :=
  ⟨by decide +kernel, by decide, existsUnique_leadsTo epochHeader hostingCalls (by decide +kernel)
    (by decide)⟩

/-- A relationship type of which one link has the name of an entity type and the GUID of another. -/
def mislinkedDef : RelationshipDef :=
  .plain "guid-hosting" "Hosting" (.plain ⟨"guid-service", "Host"⟩ "host")
    (.plain ⟨"guid-service", "Service"⟩ "services")

/-- Entity types, and a relationship type that is accepted by the names of its links. -/
def mislinkedCalls : List Item :=
  [.entityDef hostDef, .entityDef serviceDef, .relationshipDef mislinkedDef]

/-- A link may have the GUID of another entity type than the one that it names, and then none has
both of its keys. -/
theorem not_linksResolve_mislinkedCalls :
    ¬ (run epochHeader mislinkedCalls).archive.LinksResolve := by
  intro h
  have hnone : ⟨"guid-service", "Host"⟩ ∉
      (run epochHeader mislinkedCalls).archive.newTypeDefs.map TypeDef.link := by
    decide +kernel
  obtain ⟨e, ⟨hprecedes, hlink⟩, -⟩ :=
    h mislinkedDef (by decide +kernel) ⟨"guid-service", "Host"⟩ (by decide)
  refine hnone (hlink ▸ List.mem_map.2 ⟨.entity e, ?_, rfl⟩)
  exact hprecedes.subset List.mem_cons_self

end Draft

end MetadataArchive
