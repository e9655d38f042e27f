import MetadataArchive.Proofs.Draft.Ends

/-!
# Trying again

Items are never given back, so what speaks against an item speaks against it for good: an item that
was turned away is turned away whenever it is tried again. There is one exception. A relationship
type that came before an entity type at one of its ends may be accepted later, but not before all
entity types have been accepted that it lacked.
-/

namespace MetadataArchive

/-- An item that needs an entity type which an archive does not have: a relationship type, for one
of its ends. -/
def Item.Lacks (a : TypeArchive) (name : String) : Item → Prop
  | relationshipDef t =>
    (t.end1.entityType.name = name ∨ t.end2.entityType.name = name) ∧ ¬ a.HasEntityType name
  | _ => False

/-! ## Which reasons are unknown types -/

section

variable {items : List Item} {kind : TypeKind} {name : String}

theorem definitionFault?_ne_unknownType {α : Type} [Definition α] (t : α) :
    definitionFault? items t ≠ some (.unknownType kind name) := by
  simp [definitionFault?, Option.or_eq_some_iff]

/-- Nothing that is unknown speaks against an identity. -/
theorem identityFault?_ne_unknownType (x : Item) :
    x.identityFault? items ≠ some (.unknownType kind name) := by
  cases x <;> simp [Item.identityFault?, definitionFault?_ne_unknownType, attributeFault?,
    instanceFault?, Option.or_eq_some_iff]

namespace TypeArchive

variable {a : TypeArchive}

theorem eq_of_entityTypeFault?_eq_unknownType {entityType : String}
    (h : a.entityTypeFault? entityType = some (.unknownType kind name)) :
    kind = .structuralType .entity ∧ entityType = name ∧ ¬ a.HasEntityType name := by
  unfold entityTypeFault? at h
  by_cases hempty : entityType = ""
  · simp [hempty] at h
  · by_cases hhas : a.HasEntityType entityType
    · simp [hempty, hhas] at h
    · simp only [hempty, hhas, if_false, Option.none_or, Option.some.injEq,
        Rejection.unknownType.injEq] at h
      obtain ⟨rfl, rfl⟩ := h
      exact ⟨rfl, rfl, hhas⟩

/-- What is unknown is an entity type that the relationship type lacks. -/
theorem lacks_of_endsFault?_eq_unknownType {t : RelationshipDef}
    (h : a.endsFault? t = some (.unknownType kind name)) :
    kind = .structuralType .entity ∧ (Item.relationshipDef t).Lacks a name := by
  simp only [endsFault?, Option.or_eq_some_iff, Option.map_eq_some_iff, attributeFault?,
    reduceCtorEq, and_false, exists_false, or_false] at h
  rcases h with h | ⟨-, h⟩
  · obtain ⟨hkind, hname, hnone⟩ := eq_of_entityTypeFault?_eq_unknownType h
    exact ⟨hkind, .inl hname, hnone⟩
  · obtain ⟨hkind, hname, hnone⟩ := eq_of_entityTypeFault?_eq_unknownType h
    exact ⟨hkind, .inr hname, hnone⟩

end TypeArchive

end

namespace Draft

variable {d : Draft} {item : Item}

/-- An entity type that is lacked is the reason why, before anything else is looked at. -/
theorem Coherent.exists_endsFault?_eq_notFound (h : d.Coherent) {t : RelationshipDef}
    (hends : ¬ (Item.relationshipDef t).EndsAmong d.items) :
    ∃ name, (Item.relationshipDef t).Lacks d.archive name ∧ d.archive.endsFault? t =
      some (Subject.notFound (.definition (.structuralType .entity)) name) := by
  rw [TypeArchive.endsFault?, h.entityTypeFault?_eq, h.entityTypeFault?_eq]
  by_cases h1 : d.archive.HasEntityType t.end1.entityType.name
  · by_cases h2 : d.archive.HasEntityType t.end2.entityType.name
    · exact absurd ⟨hasEntityType_archive.1 h1, hasEntityType_archive.1 h2⟩ hends
    · refine ⟨t.end2.entityType.name, ⟨.inr rfl, h2⟩, ?_⟩
      rw [if_pos h1, if_neg h2]
      rfl
  · refine ⟨t.end1.entityType.name, ⟨.inl rfl, h1⟩, ?_⟩
    rw [if_neg h1]
    rfl

/-- An item that fits is turned away only for an entity type that it lacks. -/
theorem Coherent.eq_notFound_of_fits (h : d.Coherent) (hfits : item.Fits d.items) {r : Rejection}
    (hcheck : d.check item = .error r) : ∃ name, item.Lacks d.archive name ∧
      r = Subject.notFound (.definition (.structuralType .entity)) name := by
  have hends : ¬ item.EndsAmong d.items := by
    intro hends
    rw [h.check_eq_ok_iff.2 ⟨hfits, hends⟩] at hcheck
    cases hcheck
  cases item with
  | relationshipDef t =>
    obtain ⟨name, hlacks, hfault⟩ := h.exists_endsFault?_eq_notFound hends
    have hidentity : definitionFault? d.items t = none :=
      definitionFault?_eq_none_iff.2 ((Item.fits_definition_iff rfl rfl rfl).1 hfits).1
    rw [h.check_eq, Item.identityFault?, hidentity] at hcheck
    change d.checkEnds t = .error r at hcheck
    rw [h.checkEnds_eq_verdict, hfault] at hcheck
    exact ⟨name, hlacks, (Except.error.inj hcheck).symm⟩
  | _ => exact absurd trivial hends

/-- Only what an item lacks is unknown. -/
theorem Coherent.lacks_of_check_eq_unknownType (h : d.Coherent) {kind : TypeKind} {name : String}
    (hcheck : d.check item = .error (.unknownType kind name)) :
    kind = .structuralType .entity ∧ item.Lacks d.archive name := by
  rw [h.check_eq] at hcheck
  cases hfault : item.identityFault? d.items with
  | some r =>
    rw [hfault] at hcheck
    rw [Except.error.inj hcheck] at hfault
    exact absurd hfault (identityFault?_ne_unknownType item)
  | none =>
    rw [hfault] at hcheck
    cases item with
    | relationshipDef t =>
      change d.checkEnds t = _ at hcheck
      rw [h.checkEnds_eq_verdict] at hcheck
      cases hends : d.archive.endsFault? t with
      | some r =>
        rw [hends] at hcheck
        rw [Except.error.inj hcheck] at hends
        exact TypeArchive.lacks_of_endsFault?_eq_unknownType hends
      | none =>
        rw [hends] at hcheck
        cases hcheck
    | _ => cases hcheck

/-! ## Later on -/

variable (header : ArchiveProperties) {earlier later : List Item}

/-- Later there are the items of before and those accepted in between. -/
theorem perm_items_run_append (earlier later : List Item) :
    (run header (earlier ++ later)).items.Perm
      ((run header earlier).accepted later ++ (run header earlier).items) := by
  rw [run_append]
  exact perm_items_of_addAll (addAll_accepted _ later)

/-- An item that is accepted later has found what it lacked among what was accepted in between. -/
theorem exists_accepted_of_lacks
    (hends : item.EndsAmong (run header (earlier ++ later)).items) {name : String}
    (hlacks : item.Lacks (run header earlier).archive name) :
    ∃ e, .entityDef e ∈ (run header earlier).accepted later ∧ e.name = name := by
  cases item with
  | relationshipDef t =>
    obtain ⟨hname, hnone⟩ := hlacks
    have hlater : ∃ e, .entityDef e ∈ (run header (earlier ++ later)).items ∧ e.name = name := by
      rcases hname with rfl | rfl
      · exact hends.1
      · exact hends.2
    obtain ⟨e, he, hename⟩ := hlater
    rw [(perm_items_run_append header earlier later).mem_iff, List.mem_append] at he
    refine ⟨e, he.resolve_right fun hbefore => hnone ?_, hename⟩
    exact hasEntityType_archive.2 ⟨e, hbefore, hename⟩
  | _ => exact hlacks.elim

/-- An item that is turned away and later accepted was turned away for an entity type that was
unknown then. -/
theorem eq_unknownType_of_accepted_later {r : Rejection}
    (hcheck : (run header earlier).check item = .error r)
    (hlater : (run header (earlier ++ later)).check item = .ok ()) :
    ∃ name, r = .unknownType (.structuralType .entity) name := by
  have hcoherent := coherent_run header (earlier ++ later)
  obtain ⟨hfits, hends⟩ := hcoherent.check_eq_ok_iff.1 hlater
  have hsub : (run header earlier).items ⊆ (run header (earlier ++ later)).items := fun x hx =>
    (perm_items_run_append header earlier later).mem_iff.2 (List.mem_append_right _ hx)
  obtain ⟨name, hlacks, hr⟩ :=
    (coherent_run header earlier).eq_notFound_of_fits (hfits.of_subset hsub) hcheck
  -- the name of an entity type that was accepted in between is not empty
  obtain ⟨e, he, rfl⟩ := exists_accepted_of_lacks header hends hlacks
  have hmem : .entityDef e ∈ (run header (earlier ++ later)).items :=
    (perm_items_run_append header earlier later).mem_iff.2 (List.mem_append_left _ he)
  exact ⟨e.name, hr.trans (if_neg (hcoherent.compatible.typeName_ne hmem rfl))⟩

/-- A rejection is for good, whatever is called later, unless the reason is a type that is unknown.
This happens to relationship types only, for an entity type at one of their ends, and such a
relationship type is accepted only after every entity type has been that it lacked. -/
theorem rejected_for_good (earlier : List Item) {item : Item} {r : Rejection}
    (h : ((run header earlier).add item).outcome = .error r) :
    ((∀ kind name, r ≠ .unknownType kind name) → ∀ later,
        ∃ r', ((run header (earlier ++ later)).add item).outcome = .error r') ∧
      ∀ kind name, r = .unknownType kind name →
        kind = .structuralType .entity ∧ item.Lacks (run header earlier).archive name ∧
          ∀ later d, ((run header (earlier ++ later)).add item).outcome = .ok d →
            ∀ lacked, item.Lacks (run header earlier).archive lacked →
              ∃ e, .entityDef e ∈ (run header earlier).accepted later ∧ e.name = lacked := by
  rw [outcome_add_eq_error_iff] at h
  constructor
  · intro hknown later
    cases hlater : ((run header (earlier ++ later)).add item).outcome with
    | error r' => exact ⟨r', rfl⟩
    | ok d =>
      obtain ⟨name, hr⟩ :=
        eq_unknownType_of_accepted_later header h (outcome_add_eq_ok_iff.1 hlater).1
      exact absurd hr (hknown _ name)
  · rintro kind name rfl
    obtain ⟨hkind, hlacks⟩ := (coherent_run header earlier).lacks_of_check_eq_unknownType h
    refine ⟨hkind, hlacks, fun later d hlater lacked hlacked => ?_⟩
    have hcheck := (outcome_add_eq_ok_iff.1 hlater).1
    exact exists_accepted_of_lacks header
      ((coherent_run header (earlier ++ later)).check_eq_ok_iff.1 hcheck).2 hlacked

theorem rejected_for_good_hostingDef :
    let hosting := Item.relationshipDef (hostingDef "Hosting" "services")
    let addressing := Item.relationshipDef (hostingDef "Addressing" "address")
    let early := run epochHeader [.entityDef hostDef]
    (early.add hosting).outcome = .error (.unknownType (.structuralType .entity) "Service") ∧
      (∀ later d, ((run epochHeader ([.entityDef hostDef] ++ later)).add hosting).outcome = .ok d →
        ∃ e, .entityDef e ∈ early.accepted later ∧ e.name = "Service") ∧
      ((run epochHeader hostingCalls).add addressing).outcome =
        .error (.duplicateEndpointAttribute "Addressing" "Service" "Host" "host") ∧
      ∀ later, ∃ r, ((run epochHeader (hostingCalls ++ later)).add addressing).outcome = .error r :=
  ⟨rfl,
    fun later d hlater => ((rejected_for_good epochHeader [.entityDef hostDef] rfl).2 _ _ rfl).2.2
      later d hlater "Service" ⟨.inr rfl, by decide +kernel⟩,
    rfl, (rejected_for_good epochHeader hostingCalls rfl).1 nofun⟩

end Draft

end MetadataArchive
