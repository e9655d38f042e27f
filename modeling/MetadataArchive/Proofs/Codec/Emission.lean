import MetadataArchive.Codec.Choice
import MetadataArchive.Codec.Tagged
import MetadataArchive.Proofs.Codec.Grammar

/-!
# What is written and what is left out

Null is nowhere in what a codec writes if it is nowhere in the parts. Of all codecs only that of
values that may be missing writes it, and a field that may be missing is left out instead. What a
record writes under the key of a field is the value of the field, unless the field is left out.
-/

namespace MetadataArchive

/-! ## Parts of values -/

namespace Json

/-- The parts of a value: the value itself, and the parts of what is in it. -/
inductive HasPart (x : Json) : Json → Prop where
  | whole : HasPart x x
  | item {xs : List Json} {y : Json} (hy : y ∈ xs) (h : HasPart x y) : HasPart x (.array xs)
  | member {ms : List Member} {m : Member} (hm : m ∈ ms) (h : HasPart x m.2) :
    HasPart x (.object ms)

/-- A value of which no part is null. -/
def NullFree (j : Json) : Prop :=
  ¬ HasPart .null j

theorem nullFree_bool (b : Bool) : (bool b).NullFree :=
  nofun

theorem nullFree_number (n : Numeral) : (number n).NullFree :=
  nofun

theorem nullFree_text (s : String) : (text s).NullFree :=
  nofun

theorem nullFree_array {xs : List Json} (h : ∀ x ∈ xs, x.NullFree) : (array xs).NullFree := by
  intro hpart
  cases hpart with
  | item hy hpart => exact h _ hy hpart

theorem nullFree_object {ms : List Member} (h : ∀ m ∈ ms, m.2.NullFree) : (object ms).NullFree := by
  intro hpart
  cases hpart with
  | member hm hpart => exact h _ hm hpart

/-! ## Keys of objects -/

/-- The values under a key of an object. Nothing else has any. -/
def under (key : String) : Json → List Json
  | object ms => valuesAt key ms
  | _ => []

/-- An object with a key. -/
def HasKey (key : String) (j : Json) : Prop :=
  j.under key ≠ []

/-- The items of an array. -/
def items : Json → List Json
  | array xs => xs
  | _ => []

/-- The items of the arrays under a key of an object. -/
def itemsUnder (key : String) (j : Json) : List Json :=
  (j.under key).flatMap items

end Json

/-- Null is nowhere in what is written. -/
def Codec.NullFree {α : Type} (c : Codec α) : Prop :=
  ∀ a, (c.write a).NullFree

/-- Null is nowhere in what is written for a field. -/
def Field.NullFree {α : Type} (f : Field α) : Prop :=
  ∀ a, ∀ m ∈ f.member a, m.2.NullFree

/-! ## Codecs -/

namespace Codec

variable {α : Type} {c : Codec α}

theorem nullFree_string : string.NullFree :=
  Json.nullFree_text

theorem nullFree_bool : bool.NullFree :=
  Json.nullFree_bool

theorem nullFree_integer {least greatest : Int} {ofInt : Int → α} {toInt : α → Int} :
    (integer least greatest ofInt toInt).NullFree :=
  fun _ => Json.nullFree_number _

theorem nullFree_binary64 : binary64.NullFree :=
  fun _ => Json.nullFree_number _

theorem nullFree_timestamp : timestamp.NullFree :=
  fun _ => Json.nullFree_text _

theorem nullFree_choice (values : List α) (name : α → String) : (choice values name).NullFree :=
  fun _ => Json.nullFree_text _

theorem nullFree_list (h : c.NullFree) : c.list.NullFree := by
  intro as
  refine Json.nullFree_array fun x hx => ?_
  obtain ⟨a, -, rfl⟩ := List.mem_map.1 hx
  exact h a

theorem nullFree_stringMap (h : c.NullFree) : c.stringMap.NullFree := by
  intro m
  refine Json.nullFree_object fun x hx => ?_
  obtain ⟨y, hy, rfl⟩ := List.mem_map.1 hx
  obtain ⟨e, -, rfl⟩ := List.mem_map.1 hy
  exact h e.2

theorem nullFree_categorized {key : String} {read : String → Place → Json → Option α}
    {write : α → String × List Json.Member} (h : ∀ a, ∀ m ∈ (write a).2, m.2.NullFree) :
    (categorized key read write).NullFree := by
  intro a
  refine Json.nullFree_object fun m hm => ?_
  rcases List.mem_cons.1 hm with rfl | hm
  · exact Json.nullFree_text _
  · exact h a m hm

theorem nullFree_writeTyped {τ : Type} {type : Codec τ} (h : type.NullFree) (t : τ) {value : Json}
    (hvalue : value.NullFree) : (writeTyped type t value).NullFree := by
  refine Json.nullFree_object fun m hm => ?_
  rcases List.mem_cons.1 hm with rfl | hm
  · exact h t
  · rw [List.mem_singleton.1 hm]
    exact hvalue

end Codec

/-! ## Fields -/

namespace Field

variable {α : Type} {c : Codec α} {key : String}

theorem nullFree_of_codec {f : Field α} (h : f.codec.NullFree) : f.NullFree := by
  intro a m hm
  unfold member at hm
  split at hm
  · cases hm
  · rw [List.mem_singleton.1 hm]
    exact h a

theorem nullFree_required (h : c.NullFree) : (required key c).NullFree :=
  nullFree_of_codec h

theorem nullFree_defaulted {value : α} (h : c.NullFree) : (defaulted key c value).NullFree :=
  nullFree_of_codec h

theorem nullFree_listOrOmitted (h : c.NullFree) : (listOrOmitted key c).NullFree :=
  nullFree_of_codec (Codec.nullFree_list h)

theorem nullFree_mapOrOmitted (h : c.NullFree) : (mapOrOmitted key c).NullFree :=
  nullFree_of_codec (Codec.nullFree_stringMap h)

/-- A missing value is left out, and no other is written as null. -/
theorem nullFree_optional (h : c.NullFree) : (optional key c).NullFree := by
  intro o m hm
  cases o with
  | none => cases hm
  | some a =>
    rw [List.mem_singleton.1 hm]
    exact h a

end Field

/-! ## Records -/

theorem Fields.nullFree_of_mem_members {τ : Type} {fs : Fields τ} (h : fs.All Field.NullFree)
    (t : τ) : ∀ m ∈ fs.members t, m.2.NullFree := by
  induction fs with
  | nil => exact fun m hm => nomatch hm
  | cons f fs ih =>
    intro m hm
    rcases List.mem_append.1 hm with hm | hm
    · exact h.1 t.1 m hm
    · exact ih h.2 t.2 m hm

theorem Record.nullFree_of_mem_members {σ : Type} {r : Record σ} (h : r.fields.All Field.NullFree)
    (s : σ) : ∀ m ∈ r.members s, m.2.NullFree :=
  Fields.nullFree_of_mem_members h (r.values s)

theorem Record.nullFree_codec {σ : Type} {r : Record σ} (h : r.fields.All Field.NullFree) :
    r.codec.NullFree :=
  fun s => Json.nullFree_object (r.nullFree_of_mem_members h s)

/-! ## What is under the keys of a record -/

/-- Under the key of each field there is what is written for it, also behind members that have none
of the keys. -/
theorem Fields.allWith_valuesAt {τ : Type} {fs : Fields τ} (hkeys : fs.keys.Nodup) (t : τ)
    {before : List Json.Member} (hbefore : ∀ key ∈ fs.keys, Json.valuesAt key before = []) :
    fs.AllWith (fun f a => Json.valuesAt f.key (before ++ fs.members t) =
      (f.member a).map Prod.snd) t := by
  induction fs generalizing before with
  | nil => trivial
  | cons f fs ih =>
    obtain ⟨a, b⟩ := t
    obtain ⟨hfresh, hrest⟩ := List.nodup_cons.1 hkeys
    constructor
    · show Json.valuesAt f.key (before ++ (cons f fs).members (a, b)) = _
      rw [Json.valuesAt_append, hbefore f.key List.mem_cons_self, List.nil_append,
        valuesAt_members_cons hfresh]
    · simp only [members, ← List.append_assoc]
      refine ih hrest b fun key hkey => ?_
      have hne : ∀ m ∈ f.member a, m.1 ≠ some key := by
        intro m hm heq
        rw [Field.fst_eq_of_mem_member hm, Option.some_inj] at heq
        exact hfresh (heq ▸ hkey)
      rw [Json.valuesAt_append, hbefore key (List.mem_cons_of_mem _ hkey),
        Json.valuesAt_of_forall_ne hne, List.append_nil]

theorem Record.allWith_under {σ : Type} {r : Record σ} (hkeys : r.fields.keys.Nodup) (s : σ) :
    r.fields.AllWith (fun f a => (r.codec.write s).under f.key = (f.member a).map Prod.snd)
      (r.values s) := by
  have hnone : ∀ key ∈ r.fields.keys, Json.valuesAt key [] = [] := fun _ _ => rfl
  exact Fields.allWith_valuesAt hkeys (r.values s) hnone

namespace Field

variable {α : Type} {c : Codec α} {key : String} {j : Json}

theorem hasKey_listOrOmitted {as : List α}
    (h : j.under key = ((listOrOmitted key c).member as).map Prod.snd) :
    j.HasKey key ↔ as ≠ [] := by
  rw [Json.HasKey, h]
  cases as <;> simp [listOrOmitted, member]

theorem hasKey_mapOrOmitted {m : StringMap α}
    (h : j.under key = ((mapOrOmitted key c).member m).map Prod.snd) :
    j.HasKey key ↔ m.toList ≠ [] := by
  rw [Json.HasKey, h]
  simp [mapOrOmitted, member, StringMap.isEmpty, StringMap.toList]

theorem hasKey_optional {o : Option α}
    (h : j.under key = ((optional key c).member o).map Prod.snd) :
    j.HasKey key ↔ o ≠ none := by
  rw [Json.HasKey, h]
  cases o <;> simp [optional, member]

theorem under_optional {o : Option α}
    (h : j.under key = ((optional key c).member o).map Prod.snd) :
    j.under key = o.toList.map c.write := by
  rw [h]
  cases o <;> rfl

theorem itemsUnder_optional {o : Option (List α)}
    (h : j.under key = ((optional key c.list).member o).map Prod.snd) :
    j.itemsUnder key = (o.getD []).map c.write := by
  rw [Json.itemsUnder, under_optional h]
  cases o with
  | none => rfl
  | some as => exact List.append_nil _

theorem itemsUnder_listOrOmitted {as : List α}
    (h : j.under key = ((listOrOmitted key c).member as).map Prod.snd) :
    j.itemsUnder key = as.map c.write := by
  rw [Json.itemsUnder, h]
  cases as with
  | nil => rfl
  | cons a as => exact List.append_nil _

end Field

end MetadataArchive
