import MetadataArchive.Proofs.Draft.Archive

/-!
# Either end first

The ends of a relationship type are looked at one after the other, and the reason for turning it
away may depend on which comes first. Whether it is accepted does not, nor does anything later: two
runs in which one relationship type has its ends exchanged give the same verdicts on all other
calls, and their archives differ in this one definition.
-/

namespace MetadataArchive

/-- The relationship type with its ends exchanged. -/
def RelationshipDef.swapped (t : RelationshipDef) : RelationshipDef :=
  { t with end1 := t.end2, end2 := t.end1 }

/-- The second of two archives lists one structural type where the first lists another, and apart
from that they are the same. -/
structure TypeArchive.DiffersIn (a a' : TypeArchive) (t t' : TypeDef) : Prop where
  properties : a'.properties = a.properties
  typeStore : ∃ attributeTypeDefs before after patches,
    a.typeStore = some ⟨attributeTypeDefs, some (before ++ t :: after), patches⟩ ∧
      a'.typeStore = some ⟨attributeTypeDefs, some (before ++ t' :: after), patches⟩
  instanceStore : a'.instanceStore = a.instanceStore

/-- Drafts that are told apart by their archives only, which differ in one structural type. -/
structure Draft.DiffersIn (d d' : Draft) (t t' : TypeDef) : Prop where
  verdict : ∀ item,
    ((d'.add item).outcome.map fun _ => ()) = (d.add item).outcome.map fun _ => ()
  endpointAttributes : ∀ entityType, d'.endpointAttributes entityType = d.endpointAttributes entityType
  archive : d.archive.DiffersIn d'.archive t t'

/-! ## One item in place of another -/

namespace KeyedTable

variable {α : Type} {table : KeyedTable α} {i : Nat} {x y : α} {key : String}

/-- The table with another item in a place, which is found as the one before was. -/
def replace (table : KeyedTable α) (i : Nat) (x : α) : KeyedTable α :=
  { table with items := table.items.setIfInBounds i x }

theorem replace_push (h : i < table.size) :
    (table.replace i x).push key y = (table.push key y).replace i x := by
  have hitems : (table.items.setIfInBounds i x).push y = (table.items.push y).setIfInBounds i x := by
    apply Array.ext'
    have hi : i < table.items.toList.length := by simpa [size] using h
    simp [List.set_append_left _ _ hi]
  simp [push, replace, hitems]

theorem push_replace_size : (table.push key x).replace table.size y = table.push key y := by
  have hitems : (table.items.push x).setIfInBounds table.items.size y = table.items.push y := by
    apply Array.ext'
    simp
  simp [push, replace, size, hitems]

theorem getElem?_push_of_eq_some (h : table.items[i]? = some x) :
    (table.push key y).items[i]? = some x := by
  have hi : i < table.items.size := (Array.getElem?_eq_some_iff.1 h).1
  rw [push, Array.getElem?_push, if_neg hi.ne, h]

theorem map_get?_replace {β : Type} {f : α → β} (h : table.items[i]? = some x) (hf : f x = f y) :
    ((table.replace i y).get? key).map f = (table.get? key).map f := by
  unfold get?
  show ((table.positions.get? key).bind fun j => (table.items.setIfInBounds i y)[j]?).map f = _
  cases table.positions.get? key with
  | none => rfl
  | some j =>
    show ((table.items.setIfInBounds i y)[j]?).map f = (table.items[j]?).map f
    rw [Array.getElem?_setIfInBounds]
    by_cases hj : i = j
    · subst hj
      rw [if_pos rfl, if_pos (Array.getElem?_eq_some_iff.1 h).1, h, Option.map_some, Option.map_some,
        hf]
    · rw [if_neg hj]

/-- Of the definitions in a table the check reads the descriptions. -/
theorem checkDefinition_congr [Definition α] {table' : KeyedTable α} {identities : IdentityIndex}
    (h : (table.get? (Definition.name x)).map Definition.describe =
      (table'.get? (Definition.name x)).map Definition.describe) :
    table.checkDefinition identities x = table'.checkDefinition identities x := by
  unfold checkDefinition
  dsimp only
  cases hget : table.get? (Definition.name x) with
  | none =>
    rw [hget, Option.map_none, eq_comm, Option.map_eq_none_iff] at h
    rw [h]
  | some existing =>
    rw [hget, Option.map_some, eq_comm, Option.map_eq_some_iff] at h
    obtain ⟨existing', hget', hdescribe⟩ := h
    rw [hget']
    dsimp only
    rw [hdescribe]

end KeyedTable

namespace Draft

variable {d : Draft} {i : Nat} {s t : RelationshipDef}

/-- The draft with another relationship type in a place. -/
def replaceRelationshipDef (d : Draft) (i : Nat) (t : RelationshipDef) : Draft :=
  { d with relationshipDefs := d.relationshipDefs.replace i t }

/-- The check does not see the difference between relationship types with one description. -/
theorem check_replaceRelationshipDef (hs : d.relationshipDefs.items[i]? = some s)
    (hdescribe : Definition.describe s = Definition.describe t) (item : Item) :
    (d.replaceRelationshipDef i t).check item = d.check item := by
  cases item with
  | relationshipDef t' =>
    have hidentity : (d.relationshipDefs.replace i t).checkDefinition d.identities t' =
        d.relationshipDefs.checkDefinition d.identities t' :=
      KeyedTable.checkDefinition_congr (KeyedTable.map_get?_replace hs hdescribe)
    show (d.relationshipDefs.replace i t).checkDefinition d.identities t' >>= _ = _
    rw [hidentity]
    rfl
  | _ => rfl

theorem take_replaceRelationshipDef (h : i < d.relationshipDefs.size) (item : Item) :
    (d.replaceRelationshipDef i t).take item = (d.take item).replaceRelationshipDef i t := by
  cases item with
  | relationshipDef t' =>
    simp only [take, replaceRelationshipDef, KeyedTable.pushDefinition, KeyedTable.replace_push h]
  | _ => rfl

theorem getElem?_relationshipDefs_take (h : d.relationshipDefs.items[i]? = some s) (item : Item) :
    (d.take item).relationshipDefs.items[i]? = some s := by
  cases item with
  | relationshipDef t' => exact KeyedTable.getElem?_push_of_eq_some h
  | _ => exact h

/-- Nothing that is called later tells relationship types with one description apart. -/
theorem foldl_tryAdd_replaceRelationshipDef (hs : d.relationshipDefs.items[i]? = some s)
    (hdescribe : Definition.describe s = Definition.describe t) (later : List Item) :
    (later.foldl tryAdd d).relationshipDefs.items[i]? = some s ∧
      later.foldl tryAdd (d.replaceRelationshipDef i t) =
        (later.foldl tryAdd d).replaceRelationshipDef i t := by
  induction later generalizing d with
  | nil => exact ⟨hs, rfl⟩
  | cons item later ih =>
    have hi : i < d.relationshipDefs.size := (Array.getElem?_eq_some_iff.1 hs).1
    have hreplaced := check_replaceRelationshipDef hs hdescribe item
    rw [List.foldl_cons, List.foldl_cons]
    cases hcheck : d.check item with
    | ok =>
      rw [hcheck] at hreplaced
      rw [tryAdd_of_check_eq_ok hcheck, tryAdd_of_check_eq_ok hreplaced,
        take_replaceRelationshipDef hi]
      exact ih (getElem?_relationshipDefs_take hs item)
    | error r =>
      rw [hcheck] at hreplaced
      rw [tryAdd_of_check_eq_error hcheck, tryAdd_of_check_eq_error hreplaced]
      exact ih hs

theorem nonempty?_append_cons {α : Type} (before : List α) (x : α) (after : List α) :
    nonempty? (before ++ x :: after) = some (before ++ x :: after) := by
  cases before <;> rfl

/-- Where a structural type is listed there is a type store. -/
theorem typeStore_of_newTypeDefs_eq {before after : List TypeDef} {x : TypeDef}
    (h : d.newTypeDefs = before ++ x :: after) : d.typeStore =
      some ⟨nonempty? d.attributeTypeDefs, some (before ++ x :: after),
        nonempty? d.patches.toList⟩ := by
  unfold typeStore
  rw [h, nonempty?_append_cons]
  cases nonempty? d.attributeTypeDefs <;> rfl

theorem archive_differsIn (hs : d.relationshipDefs.items[i]? = some s) :
    d.archive.DiffersIn (d.replaceRelationshipDef i t).archive (.relationship s)
      (.relationship t) := by
  let others := d.entityDefs.toList.map TypeDef.entity ++
    d.classificationDefs.toList.map TypeDef.classification
  let before := d.relationshipDefs.toList.take i
  let after := d.relationshipDefs.toList.drop (i + 1)
  have hi : i < d.relationshipDefs.toList.length := (Array.getElem?_eq_some_iff.1 hs).1
  have hdefs : d.relationshipDefs.toList = before ++ s :: after := by
    have hget : d.relationshipDefs.toList[i] = s := (Array.getElem?_eq_some_iff.1 hs).2
    rw [← hget, ← List.drop_eq_getElem_cons hi, List.take_append_drop]
  have hdefs' : (d.replaceRelationshipDef i t).relationshipDefs.toList = before ++ t :: after := by
    show (d.relationshipDefs.items.setIfInBounds i t).toList = _
    rw [Array.toList_setIfInBounds]
    exact (List.set_eq_take_append_cons_drop ..).trans (if_pos hi)
  have hlisted : d.newTypeDefs = (others ++ before.map .relationship) ++
      .relationship s :: after.map .relationship := by
    simp [newTypeDefs, hdefs, others]
  have hlisted' : (d.replaceRelationshipDef i t).newTypeDefs =
      (others ++ before.map .relationship) ++ .relationship t :: after.map .relationship := by
    rw [newTypeDefs, hdefs']
    simp [others, replaceRelationshipDef]
  constructor
  case properties => rfl
  case instanceStore => rfl
  case typeStore =>
    exact ⟨_, _, _, _, typeStore_of_newTypeDefs_eq hlisted, typeStore_of_newTypeDefs_eq hlisted'⟩

theorem differsIn_replaceRelationshipDef (hs : d.relationshipDefs.items[i]? = some s)
    (hdescribe : Definition.describe s = Definition.describe t) :
    d.DiffersIn (d.replaceRelationshipDef i t) (.relationship s) (.relationship t) where
  verdict item := by
    rw [outcome_map_add, outcome_map_add, check_replaceRelationshipDef hs hdescribe]
  endpointAttributes _ := rfl
  archive := archive_differsIn hs

/-! ## Exchanging the ends -/

theorem claims_swapped_perm (t : RelationshipDef) : t.swapped.claims.Perm t.claims := by
  unfold RelationshipDef.claims
  by_cases h : t.end1.entityType.name = t.end2.entityType.name ∧
      t.end1.attributeName = t.end2.attributeName
  · rw [if_pos h, if_pos ⟨h.1.symm, h.2.symm⟩]
    simp only [RelationshipDef.swapped, h.1, h.2]
    exact .rfl
  · rw [if_neg h, if_neg fun h' => h ⟨h'.1.symm, h'.2.symm⟩]
    exact .swap _ _ _

/-- With its ends exchanged the same relationship type is accepted. -/
theorem Coherent.check_swapped_eq_ok_iff (h : d.Coherent) :
    d.check (.relationshipDef t.swapped) = .ok () ↔ d.check (.relationshipDef t) = .ok () := by
  have hintroduced : ∀ entityType attributeName, attributeName ∈ t.swapped.introducedOn entityType ↔
      attributeName ∈ t.introducedOn entityType := by
    intro entityType attributeName
    rw [RelationshipDef.mem_introducedOn_iff, RelationshipDef.mem_introducedOn_iff]
    exact or_comm
  rw [h.check_eq_ok_iff, h.check_eq_ok_iff, Item.fits_definition_iff rfl rfl rfl,
    Item.fits_definition_iff rfl rfl rfl]
  refine and_congr (and_congr Iff.rfl (and_congr Iff.rfl ?_)) and_comm
  exact forall_congr' fun entityType => forall_congr' fun attributeName =>
    imp_congr_left (hintroduced entityType attributeName)

theorem take_swapped (d : Draft) (t : RelationshipDef) : d.take (.relationshipDef t.swapped) =
    (d.take (.relationshipDef t)).replaceRelationshipDef d.relationshipDefs.size t.swapped := by
  simp only [take, replaceRelationshipDef, KeyedTable.pushDefinition, KeyedTable.push_replace_size,
    EndpointMap.claimAll_perm (claims_swapped_perm t)]
  rfl

/-- Whether a relationship type is accepted does not depend on which of its ends comes first. If it
is, then whatever is called later, only its own entry in the archive tells which did; if it is not,
then nothing tells. -/
theorem run_swapped (header : ArchiveProperties) (earlier : List Item) (t : RelationshipDef) :
    ((∃ d, ((run header earlier).add (.relationshipDef t)).outcome = .ok d) ↔
        ∃ d, ((run header earlier).add (.relationshipDef t.swapped)).outcome = .ok d) ∧
      ∀ later,
        let d := run header (earlier ++ .relationshipDef t :: later)
        let d' := run header (earlier ++ .relationshipDef t.swapped :: later)
        ((∃ d, ((run header earlier).add (.relationshipDef t)).outcome = .ok d) →
            d.DiffersIn d' (.relationship t) (.relationship t.swapped)) ∧
          ((¬ ∃ d, ((run header earlier).add (.relationshipDef t)).outcome = .ok d) → d' = d) := by
  have haccepted := (coherent_run header earlier).check_swapped_eq_ok_iff (t := t)
  rw [exists_outcome_add_eq_ok_iff, exists_outcome_add_eq_ok_iff]
  refine ⟨haccepted.symm, fun later => ?_⟩
  dsimp only
  rw [run_append, run_append, List.foldl_cons, List.foldl_cons]
  constructor
  · intro hcheck
    have hs : ((run header earlier).take (.relationshipDef t)).relationshipDefs.items[
        (run header earlier).relationshipDefs.size]? = some t :=
      Array.getElem?_push_size
    rw [tryAdd_of_check_eq_ok hcheck, tryAdd_of_check_eq_ok (haccepted.2 hcheck), take_swapped]
    obtain ⟨hlater, hreplaced⟩ := foldl_tryAdd_replaceRelationshipDef (t := t.swapped) hs rfl later
    rw [hreplaced]
    exact differsIn_replaceRelationshipDef hlater rfl
  · intro hcheck
    rw [tryAdd_of_check_ne_ok hcheck, tryAdd_of_check_ne_ok (mt haccepted.1 hcheck)]

/-- The reason for turning it away may tell. -/
example :
    ((empty epochHeader).add (.relationshipDef (hostingDef "Hosting" "services"))).outcome =
        .error (.unknownType (.structuralType .entity) "Host") ∧
      ((empty epochHeader).add (.relationshipDef (hostingDef "Hosting" "services").swapped)).outcome =
        .error (.unknownType (.structuralType .entity) "Service") :=
  ⟨rfl, rfl⟩

end Draft

end MetadataArchive
