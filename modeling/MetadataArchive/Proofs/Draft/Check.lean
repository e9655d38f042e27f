import MetadataArchive.Proofs.Draft.Coherent

/-!
# What passes the check

On a coherent draft the check of an identity, which asks the indices, gives the verdict of looking
through the items, reason and descriptions included. An item passes the check exactly if it fits
and finds the entity types that it refers to. Every run ends in a coherent draft, so both hold
wherever a run leads.
-/

namespace MetadataArchive

theorem Except.bind_eq_ok_iff {ε α β : Type} {x : Except ε α} {f : α → Except ε β} {b : β} :
    (x >>= f) = .ok b ↔ ∃ a, x = .ok a ∧ f a = .ok b := by
  cases x with
  | error e => exact ⟨fun h => (by cases h), fun ⟨_, h, _⟩ => (by cases h)⟩
  | ok a => exact ⟨fun h => ⟨a, rfl, h⟩, fun ⟨_, h, hf⟩ => (by cases h; exact hf)⟩

theorem Except.map_eq_ok_iff {ε α β : Type} {x : Except ε α} {f : α → β} {b : β} :
    x.map f = .ok b ↔ ∃ a, x = .ok a ∧ f a = b := by
  cases x <;> simp [Except.map]

theorem Except.map_eq_error_iff {ε α β : Type} {x : Except ε α} {f : α → β} {e : ε} :
    x.map f = .error e ↔ x = .error e := by
  cases x <;> simp [Except.map]

/-! ## Looking up -/

/-- The reason for finding nothing under a key: there is no key, or nothing has it. -/
def Subject.notFound (subject : Subject) (key : String) : Rejection :=
  if key = "" then .missingName subject
  else match subject with
    | definition kind => .unknownType kind key
    | instanceOf kind => .unknownInstance kind key

namespace KeyedTable

variable {α : Type} {table : KeyedTable α} {subject : Subject} {key : String}

/-- What is found in a table under a key. The empty key is turned away before the table is asked. -/
def find (table : KeyedTable α) (subject : Subject) (key : String) : Except Rejection α :=
  if key = "" then .error (subject.notFound key)
  else (table.get? key).elim (.error (subject.notFound key)) .ok

theorem find_eq_ok_iff {x : α} :
    table.find subject key = .ok x ↔ key ≠ "" ∧ table.get? key = some x := by
  unfold find
  by_cases hkey : key = ""
  · simp [hkey]
  · cases table.get? key <;> simp [hkey]

theorem eq_notFound_of_find_eq_error {r : Rejection} (h : table.find subject key = .error r) :
    r = subject.notFound key := by
  unfold find at h
  split at h
  · exact (Except.error.inj h).symm
  · cases hget : table.get? key with
    | some x =>
      rw [hget] at h
      cases h
    | none =>
      rw [hget] at h
      exact (Except.error.inj h).symm

end KeyedTable

namespace Draft

theorem outcome_findDefinition {α : Type} [Definition α] (table : KeyedTable α) (name : String) :
    (findDefinition table name).outcome = table.find (.definition (Definition.kind α)) name := by
  simp only [findDefinition, Traced.outcome_bind, Traced.outcome_log, Traced.outcome_ofExcept,
    pure_bind, checkKey, KeyedTable.find, Subject.notFound]
  by_cases hname : name = ""
  · rw [if_pos hname, if_pos hname, if_pos hname]
    rfl
  · rw [if_neg hname, if_neg hname, if_neg hname]
    cases table.get? name <;> rfl

theorem outcome_findInstance {α : Type} (kind : InstanceKind) (table : KeyedTable α)
    (guid : String) :
    (findInstance kind table guid).outcome = table.find (.instanceOf kind) guid := by
  simp only [findInstance, Traced.outcome_bind, Traced.outcome_log, Traced.outcome_ofExcept,
    pure_bind, checkKey, KeyedTable.find, Subject.notFound]
  by_cases hguid : guid = ""
  · rw [if_pos hguid, if_pos hguid, if_pos hguid]
    rfl
  · rw [if_neg hguid, if_neg hguid, if_neg hguid]
    cases table.get? guid <;> rfl

variable {d : Draft} {item : Item}

/-! ## Identities -/

/-- The check of a definition gives the verdict of the scan. Here `f` makes items of definitions,
and `table` has the items of their kind. -/
theorem Coherent.checkDefinition_eq (h : d.Coherent) {α : Type} [Definition α]
    {table : KeyedTable α} (f : α → Item) (hindexed : table.Indexed Definition.name)
    (hitems : d.itemsOf (.definition (Definition.kind α)) = table.toList.map f)
    (hname : ∀ x, (f x).typeName? = some (Definition.name x))
    (hdescribe : ∀ x, (f x).describe = Definition.describe x) (t : α) :
    table.checkDefinition d.identities t = verdict (definitionFault? d.items t) := by
  have hkind : ∀ item, item ∈ d.items ∧ item.kind = .definition (Definition.kind α) ↔
      ∃ x ∈ table.toList, f x = item := fun item => by
    rw [← mem_itemsOf_iff, hitems, List.mem_map]
  have hsame : describeFirst d.items (fun item => item.kind = .definition (Definition.kind α) ∧
      item.typeName? = some (Definition.name t)) =
        (table.get? (Definition.name t)).map Definition.describe := by
    refine describeFirst_eq fun owner => ?_
    simp only [Option.map_eq_some_iff, hindexed.get?_eq_some_iff, decide_eq_true_eq]
    constructor
    · intro hex
      obtain ⟨x, ⟨hx, hxname⟩, rfl⟩ := hex
      obtain ⟨hmem, hxkind⟩ := (hkind (f x)).2 ⟨x, hx, rfl⟩
      exact ⟨f x, hmem, ⟨hxkind, (hname x).trans (congrArg some hxname)⟩, hdescribe x⟩
    · intro hex
      obtain ⟨item, hmem, ⟨hitemkind, hitemname⟩, rfl⟩ := hex
      obtain ⟨x, hx, rfl⟩ := (hkind item).1 ⟨hmem, hitemkind⟩
      exact ⟨x, ⟨hx, Option.some.inj ((hname x).symm.trans hitemname)⟩, (hdescribe x).symm⟩
  have hguid := h.guidOwners.describeFirst_eq (Definition.guid t)
  unfold definitionFault? KeyedTable.checkDefinition checkTypeName IdentityIndex.checkGuid
    IdentityIndex.checkName
  simp only [hsame, hguid]
  by_cases hwell : IsTypeName (Definition.name t)
  · cases hget : table.get? (Definition.name t) with
    | some existing =>
      rw [if_pos hwell, if_pos hwell]
      rfl
    | none =>
      -- no definition of the same kind has the name, so that a definition that has it is of another
      have hother : describeFirst d.items (fun item => item.kind ≠ .definition (Definition.kind α) ∧
          item.typeName? = some (Definition.name t)) =
            d.identities.nameOwners.get? (Definition.name t) := by
        refine describeFirst_eq fun owner => ?_
        rw [h.nameOwners]
        refine exists_congr fun item => and_congr_right fun hmem => and_congr_left fun _ => ?_
        simp only [ne_eq, decide_eq_true_eq, iff_and_self]
        intro hitemname hitemkind
        obtain ⟨x, hx, rfl⟩ := (hkind item).1 ⟨hmem, hitemkind⟩
        exact hindexed.get?_eq_none_iff.1 hget x hx
          (Option.some.inj ((hname x).symm.trans hitemname))
      rw [hother, if_pos hwell, if_pos hwell]
      cases d.identities.guidOwners.get? (Definition.guid t) <;>
        cases d.identities.nameOwners.get? (Definition.name t) <;> rfl
  · rw [if_neg hwell, if_neg hwell]
    rfl

/-- The check of an instance gives the verdict of the scan. -/
theorem Coherent.checkInstance_eq (h : d.Coherent) (kind : InstanceKind)
    (guid description : String) :
    d.checkInstance kind guid description =
      verdict (instanceFault? d.items kind guid description) := by
  unfold instanceFault? checkInstance checkKey IdentityIndex.checkGuid
  simp only [h.instanceOwners.describeFirst_eq guid, h.guidOwners.describeFirst_eq guid]
  by_cases hempty : guid = ""
  · rw [if_pos hempty, if_pos hempty]
    rfl
  · rw [if_neg hempty, if_neg hempty]
    cases d.instanceOwners.get? guid <;> cases d.identities.guidOwners.get? guid <;> rfl

/-- What is checked of an item after its identity: nothing, but for a relationship type its ends. -/
def checkRest (d : Draft) : Item → Except Rejection Unit
  | .relationshipDef t => d.checkEnds t
  | _ => .ok ()

/-- The check of an item gives the verdict of the scan, before it goes on to the rest. -/
theorem Coherent.check_eq (h : d.Coherent) (item : Item) :
    d.check item = verdict (item.identityFault? d.items) >>= fun _ => d.checkRest item := by
  have hok : ∀ x : Except Rejection Unit, x = x >>= fun _ => .ok () := fun x => by
    cases x <;> rfl
  cases item with
  | primitiveDef t =>
    exact (h.checkDefinition_eq .primitiveDef h.indexed.primitiveDefs rfl (fun _ => rfl)
      (fun _ => rfl) t).trans (hok _)
  | collectionDef t =>
    exact (h.checkDefinition_eq .collectionDef h.indexed.collectionDefs rfl (fun _ => rfl)
      (fun _ => rfl) t).trans (hok _)
  | enumDef t =>
    exact (h.checkDefinition_eq .enumDef h.indexed.enumDefs rfl (fun _ => rfl)
      (fun _ => rfl) t).trans (hok _)
  | entityDef t =>
    show d.entityDefs.checkDefinition d.identities t >>= _ = _
    rw [h.checkDefinition_eq .entityDef h.indexed.entityDefs rfl (fun _ => rfl) (fun _ => rfl),
      checkAttributeNames_eq_verdict, ← verdict_or]
    exact hok _
  | classificationDef t =>
    show d.classificationDefs.checkDefinition d.identities t >>= _ = _
    rw [h.checkDefinition_eq .classificationDef h.indexed.classificationDefs rfl (fun _ => rfl)
      (fun _ => rfl), checkAttributeNames_eq_verdict, ← verdict_or]
    exact hok _
  | relationshipDef t =>
    show d.relationshipDefs.checkDefinition d.identities t >>= _ = _
    rw [h.checkDefinition_eq .relationshipDef h.indexed.relationshipDefs rfl (fun _ => rfl)
      (fun _ => rfl)]
    rfl
  | patch p => rfl
  | entity e => exact (h.checkInstance_eq .entity e.guid e.describe).trans (hok _)
  | relationship r => exact (h.checkInstance_eq .relationship r.guid r.describe).trans (hok _)

/-! ## Ends -/

theorem outcome_findDefinition_eq_ok_iff {α : Type} [Definition α] {table : KeyedTable α}
    {name : String} {x : α} : (findDefinition table name).outcome = .ok x ↔
      name ≠ "" ∧ table.get? name = some x := by
  rw [outcome_findDefinition, KeyedTable.find_eq_ok_iff]

/-- Nothing but a name that is empty or unknown keeps a definition from being found. -/
theorem eq_of_outcome_findDefinition_eq_error {α : Type} [Definition α] {table : KeyedTable α}
    {name : String} {r : Rejection} (h : (findDefinition table name).outcome = .error r) :
    r = if name = "" then .missingName (.definition (Definition.kind α))
      else .unknownType (Definition.kind α) name := by
  rw [outcome_findDefinition] at h
  exact KeyedTable.eq_notFound_of_find_eq_error h

section

variable {name entityType attributeName : String} {e : EntityDef}

theorem Coherent.get?_entityDefs_eq_some_iff (h : d.Coherent) :
    d.entityDefs.get? name = some e ↔ .entityDef e ∈ d.items ∧ e.name = name := by
  rw [h.indexed.entityDefs.get?_eq_some_iff, entityDef_mem_items]
  rfl

theorem Coherent.outcome_findEntityDef_eq_ok_iff (h : d.Coherent) :
    (d.findEntityDef name).outcome = .ok e ↔ .entityDef e ∈ d.items ∧ e.name = name := by
  rw [findEntityDef, outcome_findDefinition_eq_ok_iff, h.get?_entityDefs_eq_some_iff]
  apply and_iff_right_of_imp
  intro hall
  obtain ⟨he, rfl⟩ := hall
  exact h.compatible.typeName_ne he rfl

/-- The endpoint map and the table of entity types know together what is in sight. -/
theorem Coherent.not_mem_visible_iff (h : d.Coherent) :
    attributeName ∉ d.items.flatMap (Item.visibleOn entityType) ↔
      d.endpoints.contains entityType attributeName = false ∧
        ∀ e, d.entityDefs.get? entityType = some e → e.declares attributeName = false := by
  rw [Item.mem_visible_iff, not_or, ← h.endpoints, Bool.not_eq_true]
  simp only [h.get?_entityDefs_eq_some_iff, not_exists, not_and, Bool.not_eq_true, and_imp]

end

/-- A relationship type has entity types at its ends and introduces nothing there that is in
sight. -/
theorem Coherent.checkEnds_eq_ok_iff (h : d.Coherent) {t : RelationshipDef} :
    d.checkEnds t = .ok () ↔ (Item.relationshipDef t).EndsAmong d.items ∧
      (t.properties.map TypeDefAttribute.name).Nodup ∧
        ∀ entityType, ∀ attributeName ∈ t.introducedOn entityType,
          attributeName ∉ d.items.flatMap (Item.visibleOn entityType) := by
  have hclaims : (∀ c ∈ t.claims, d.endpoints.contains c.entityType c.attributeName = false ∧
      ∀ e, d.entityDefs.get? c.entityType = some e → e.declares c.attributeName = false) ↔
        ∀ entityType, ∀ attributeName ∈ t.introducedOn entityType,
          attributeName ∉ d.items.flatMap (Item.visibleOn entityType) := by
    simp only [← h.not_mem_visible_iff]
    constructor
    · intro hclaims entityType attributeName hmem
      obtain ⟨c, hc, rfl, rfl⟩ := RelationshipDef.mem_introducedOn.1 hmem
      exact hclaims c hc
    · intro hintroduced c hc
      exact hintroduced _ _ (RelationshipDef.mem_introducedOn.2 ⟨c, hc, rfl, rfl⟩)
  simp only [checkEnds, Except.bind_eq_ok_iff, h.outcome_findEntityDef_eq_ok_iff,
    checkAttributeNames_eq_ok_iff]
  constructor
  · intro hex
    obtain ⟨entity1, h1, entity2, h2, _, hcheck, hnd⟩ := hex
    have hget1 := h.get?_entityDefs_eq_some_iff.2 h1
    have hget2 := h.get?_entityDefs_eq_some_iff.2 h2
    exact ⟨⟨⟨entity1, h1⟩, entity2, h2⟩, hnd,
      hclaims.1 ((EndpointMap.check_eq_ok_iff hget1 hget2).1 hcheck)⟩
  · intro hex
    obtain ⟨⟨⟨entity1, h1⟩, entity2, h2⟩, hnd, hvisible⟩ := hex
    have hget1 := h.get?_entityDefs_eq_some_iff.2 h1
    have hget2 := h.get?_entityDefs_eq_some_iff.2 h2
    exact ⟨entity1, h1, entity2, h2, (),
      (EndpointMap.check_eq_ok_iff hget1 hget2).2 (hclaims.2 hvisible), hnd⟩

/-! ## Items -/

/-- What the check lets pass is what keeps a draft coherent. -/
theorem Coherent.check_eq_ok_iff (h : d.Coherent) :
    d.check item = .ok () ↔ item.Fits d.items ∧ item.EndsAmong d.items := by
  rw [h.check_eq, Except.bind_eq_ok_iff, Unique.exists_iff]
  show verdict _ = .ok () ∧ _ ↔ _
  rw [verdict_eq_ok_iff]
  cases item with
  | primitiveDef t | collectionDef t | enumDef t =>
    rw [Item.fits_definition_iff rfl rfl rfl]
    simp [Item.identityFault?, definitionFault?_eq_none_iff, checkRest, Item.attributeNames,
      Item.visibleOn, Item.EndsAmong, Definition.name, Definition.guid]
  | entityDef t =>
    -- nothing was introduced on the entity type before it was there
    have hvisible : t.name ∉ d.items.filterMap Item.typeName? →
        ∀ entityType, ∀ attributeName ∈ (Item.entityDef t).visibleOn entityType,
          attributeName ∉ d.items.flatMap (Item.visibleOn entityType) := by
      intro hfresh entityType attributeName hmem
      obtain ⟨rfl, -⟩ := List.mem_ite_nil_right.1 hmem
      rw [Item.visible_eq_nil h.endsAmong hfresh]
      exact List.not_mem_nil
    rw [Item.fits_definition_iff rfl rfl rfl, Item.identityFault?, Option.or_eq_none_iff,
      definitionFault?_eq_none_iff, attributeFault?_eq_none_iff]
    constructor
    · intro hall
      obtain ⟨⟨hidentity, hnd⟩, -⟩ := hall
      exact ⟨⟨hidentity, hnd, hvisible hidentity.2.1⟩, trivial⟩
    · intro hall
      obtain ⟨⟨hidentity, hnd, -⟩, -⟩ := hall
      exact ⟨⟨hidentity, hnd⟩, rfl⟩
  | classificationDef t =>
    rw [Item.fits_definition_iff rfl rfl rfl]
    simp [Item.identityFault?, definitionFault?_eq_none_iff, attributeFault?_eq_none_iff, checkRest,
      Item.attributeNames, Item.visibleOn, Item.EndsAmong, Definition.name, Definition.guid]
  | relationshipDef t =>
    rw [Item.fits_definition_iff rfl rfl rfl, Item.identityFault?, definitionFault?_eq_none_iff,
      checkRest, h.checkEnds_eq_ok_iff]
    constructor
    · intro hall
      obtain ⟨hidentity, hends, hnd, hvisible⟩ := hall
      exact ⟨⟨hidentity, hnd, hvisible⟩, hends⟩
    · intro hall
      obtain ⟨⟨hidentity, hnd, hvisible⟩, hends⟩ := hall
      exact ⟨hidentity, hends, hnd, hvisible⟩
  | patch p => exact iff_of_true ⟨rfl, rfl⟩ ⟨Item.fits_patch p, trivial⟩
  | entity x | relationship x =>
    rw [Item.fits_instance_iff rfl rfl rfl (fun _ => rfl)]
    simp [Item.identityFault?, instanceFault?_eq_none_iff, checkRest, Item.EndsAmong]

/-- Every run ends in a coherent draft. -/
theorem coherent_run (header : ArchiveProperties) (calls : List Item) :
    (run header calls).Coherent :=
  run_induction (coherent_empty header)
    (fun _ _ h hcheck => h.take (h.check_eq_ok_iff.1 hcheck).1 (h.check_eq_ok_iff.1 hcheck).2) calls

/-- After a run, looking through what the archive lists says whether an item is turned away because
of its identity, and why. -/
theorem outcome_add_run (header : ArchiveProperties) (calls : List Item) (item : Item) :
    (((run header calls).add item).outcome.map fun _ => ()) =
      verdict (item.identityFault? (run header calls).archive.items) >>= fun _ =>
        (run header calls).checkRest item := by
  rw [outcome_add, items_archive, ← (coherent_run header calls).check_eq]
  cases (run header calls).check item <;> rfl

end Draft

end MetadataArchive
