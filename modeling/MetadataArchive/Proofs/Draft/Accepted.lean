import MetadataArchive.Proofs.Draft.Check

/-!
# Accepted calls

Of the calls of a run only the accepted ones count, since a call that is turned away leaves the draft
as it was. Made on a new draft by themselves, all of them are accepted again and lead to the very
same draft; and whatever the indices of that draft know, they know from an accepted item.
-/

namespace MetadataArchive

/-- A map with the descriptions of items has the keys of these items. -/
theorem Owners.contains_iff {key? : Item → Option String} {items : List Item}
    {owners : StringMap String} (h : Owners key? items owners) (key : String) :
    owners.contains key = true ↔ key ∈ items.filterMap key? := by
  rw [StringMap.contains, Option.isSome_iff_exists, List.mem_filterMap]
  constructor
  · intro hex
    obtain ⟨owner, howner⟩ := hex
    obtain ⟨item, hitem, hkey, -⟩ := (h key owner).1 howner
    exact ⟨item, hitem, hkey⟩
  · intro hex
    obtain ⟨item, hitem, hkey⟩ := hex
    exact ⟨item.describe, (h key _).2 ⟨item, hitem, hkey, rfl⟩⟩

namespace Draft

variable {d d' : Draft}

/-- Those of some items that a draft accepts when they are added one after the other, each to the
draft that the attempts before it left behind. -/
def accepted (d : Draft) : List Item → List Item
  | [] => []
  | item :: calls =>
    let rest := (d.tryAdd item).accepted calls
    match (d.add item).outcome with
    | .ok _ => item :: rest
    | .error _ => rest

/-- A draft that knows the given items and nothing else: its items are these, and no name, no GUID
and no attribute is in use that is not in use by one of them. -/
structure KnowsOnly (d : Draft) (items : List Item) : Prop where
  items_perm : d.items.Perm items
  guids : ∀ guid, d.identities.guidOwners.contains guid = true ↔ guid ∈ items.filterMap Item.guid?
  typeNames : ∀ name,
    d.identities.nameOwners.contains name = true ↔ name ∈ items.filterMap Item.typeName?
  instanceGuids : ∀ guid,
    d.instanceOwners.contains guid = true ↔ guid ∈ items.filterMap Item.instanceGuid?
  endpoints : ∀ entityType attributeName,
    d.endpoints.contains entityType attributeName = true ↔
      ∃ item ∈ items, attributeName ∈ item.introducedOn entityType
  endpoints_isEmpty : d.endpoints.isEmpty = true ↔ ∀ t, .relationshipDef t ∉ items

/-! ## Adding one item after the other -/

theorem accepted_cons_of_ok {item : Item} (h : d.check item = .ok ()) (calls : List Item) :
    d.accepted (item :: calls) = item :: (d.take item).accepted calls := by
  rw [accepted, outcome_add, h, tryAdd_of_check_eq_ok h]
  rfl

theorem accepted_cons_of_error {item : Item} {r : Rejection} (h : d.check item = .error r)
    (calls : List Item) : d.accepted (item :: calls) = d.accepted calls := by
  rw [accepted, outcome_add, h, tryAdd_of_check_eq_error h]
  rfl

theorem addAll_cons (d : Draft) (item : Item) (items : List Item) :
    d.addAll (item :: items) = (d.add item).outcome >>= fun d => d.addAll items :=
  rfl

theorem addAll_cons_eq_ok_iff {item : Item} {items : List Item} :
    d.addAll (item :: items) = .ok d' ↔
      d.check item = .ok () ∧ (d.take item).addAll items = .ok d' := by
  rw [addAll_cons, outcome_add]
  cases d.check item with
  | ok => exact (and_iff_right rfl).symm
  | error r =>
    show Except.error r = .ok d' ↔ _
    simp

/-- Added by themselves, the accepted ones lead where all of them lead. -/
theorem addAll_accepted (d : Draft) (calls : List Item) :
    d.addAll (d.accepted calls) = .ok (calls.foldl tryAdd d) := by
  induction calls generalizing d with
  | nil => rfl
  | cons item calls ih =>
    rw [List.foldl_cons]
    cases hcheck : d.check item with
    | ok =>
      rw [accepted_cons_of_ok hcheck, tryAdd_of_check_eq_ok hcheck]
      exact addAll_cons_eq_ok_iff.2 ⟨hcheck, ih (d.take item)⟩
    | error r =>
      rw [accepted_cons_of_error hcheck, tryAdd_of_check_eq_error hcheck]
      exact ih d

/-- Where all items are accepted, a run of them is no different from adding them. -/
theorem foldl_tryAdd_of_addAll {items : List Item} (h : d.addAll items = .ok d') :
    items.foldl tryAdd d = d' := by
  induction items generalizing d with
  | nil => exact Except.ok.inj h
  | cons item items ih =>
    obtain ⟨hcheck, hrest⟩ := addAll_cons_eq_ok_iff.1 h
    rw [List.foldl_cons, tryAdd_of_check_eq_ok hcheck]
    exact ih hrest

theorem perm_items_of_addAll {items : List Item} (h : d.addAll items = .ok d') :
    d'.items.Perm (items ++ d.items) := by
  induction items generalizing d with
  | nil => exact (congrArg Draft.items (Except.ok.inj h)) ▸ .rfl
  | cons item items ih =>
    obtain ⟨-, hrest⟩ := addAll_cons_eq_ok_iff.1 h
    calc
      List.Perm d'.items (items ++ (d.take item).items) := ih hrest
      List.Perm _ (items ++ item :: d.items) := (perm_items_take d item).append_left _
      List.Perm _ (item :: (items ++ d.items)) := List.perm_middle

/-! ## Runs -/

variable (header : ArchiveProperties) (calls : List Item)

/-- The items of a draft after a run are the accepted ones. -/
theorem perm_items_run : (run header calls).items.Perm ((empty header).accepted calls) := by
  have h := perm_items_of_addAll ((empty header).addAll_accepted calls)
  rwa [items_empty, List.append_nil] at h

/-- An endpoint map is empty as long as there is no relationship type. -/
theorem isEmpty_endpoints_run : (run header calls).endpoints.isEmpty = true ↔
    ∀ t, .relationshipDef t ∉ (run header calls).items := by
  refine run_induction
    (P := fun d => d.endpoints.isEmpty = true ↔ ∀ t, .relationshipDef t ∉ d.items)
    ?_ (fun d item h _ => ?_) calls
  · rw [items_empty]
    exact iff_of_true rfl fun _ => List.not_mem_nil
  · simp only [mem_items_take, not_or, forall_and, ← h]
    cases item with
    | relationshipDef t =>
      show (d.endpoints.claimAll t.claims).isEmpty = true ↔ _
      rw [EndpointMap.isEmpty_claimAll]
      simp [RelationshipDef.claims_ne_nil]
    | _ => simp [take]

theorem knowsOnly_run : (run header calls).KnowsOnly (run header calls).items where
  items_perm := .rfl
  guids := (coherent_run header calls).guidOwners.contains_iff
  typeNames := (coherent_run header calls).nameOwners.contains_iff
  instanceGuids := (coherent_run header calls).instanceOwners.contains_iff
  endpoints := (coherent_run header calls).endpoints
  endpoints_isEmpty := isEmpty_endpoints_run header calls

theorem KnowsOnly.perm {items items' : List Item} (h : d.KnowsOnly items)
    (hperm : items.Perm items') : d.KnowsOnly items' where
  items_perm := h.items_perm.trans hperm
  guids guid := (h.guids guid).trans (hperm.filterMap _).mem_iff
  typeNames name := (h.typeNames name).trans (hperm.filterMap _).mem_iff
  instanceGuids guid := (h.instanceGuids guid).trans (hperm.filterMap _).mem_iff
  endpoints entityType attributeName :=
    (h.endpoints entityType attributeName).trans (by simp only [hperm.mem_iff])
  endpoints_isEmpty := h.endpoints_isEmpty.trans (by simp only [hperm.mem_iff])

/-- Rejected calls leave no trace. An attempt to add an item to any draft leaves behind the draft that
has accepted it, or else, whichever check the item has failed, that draft as it was. So the accepted
calls of a run, made by themselves on a new draft with the same header, are all accepted and lead to
the very draft to which the run led, with all its tables and indices, and nothing that is asked of it
or added to it later tells the two apart. It knows of the accepted items and of nothing else. -/
theorem replay_accepted :
    (empty header).addAll ((empty header).accepted calls) = .ok (run header calls) ∧
      (run header calls).KnowsOnly ((empty header).accepted calls) ∧
      ∀ (d : Draft) (item : Item), d.tryAdd item = (d.add item).valueD d :=
  ⟨(empty header).addAll_accepted calls,
    (knowsOnly_run header calls).perm (perm_items_run header calls), tryAdd_eq_valueD⟩

end Draft

end MetadataArchive
