import Mathlib.Data.List.Sort
import Mathlib.Data.String.Basic
import MetadataArchive.Collection.StringMap

/-!
# Maps keyed by strings: keys

What a `StringMap` says through its look-ups, it says through its list of keys: a key is listed
exactly if it has a value, the list ascends strictly, and so equal look-ups give equal lists.
-/

namespace MetadataArchive.StringMap

variable {α β : Type}

theorem contains_insert (m : StringMap α) (key key' : String) (value : α) :
    (m.insert key value).contains key' = true ↔ key' = key ∨ m.contains key' = true := by
  unfold contains
  rw [get?_insert]
  split
  · next h => simp [h]
  · next h => simp [h]

@[simp]
theorem isEmpty_insert (m : StringMap α) (key : String) (value : α) :
    (m.insert key value).isEmpty = false := by
  show (insertEntry key value m.entries).isEmpty = false
  cases m.entries with
  | nil => rfl
  | cons e es =>
    rw [insertEntry]
    split
    · rfl
    · split <;> rfl

/-- Putting the same entry in its place once more changes nothing. -/
theorem insertEntry_insertEntry (key : String) (value : α) (es : List (String × α)) :
    insertEntry key value (insertEntry key value es) = insertEntry key value es := by
  induction es with
  | nil => simp [insertEntry]
  | cons e es ih =>
    rw [insertEntry]
    split
    · simp [insertEntry]
    · next hnlt =>
      split
      · simp [insertEntry]
      · next hne => rw [insertEntry, if_neg hnlt, if_neg hne, ih]

theorem eraseEntry_eraseEntry (key : String) (es : List (String × α)) :
    eraseEntry key (eraseEntry key es) = eraseEntry key es := by
  simp [eraseEntry]

/-! ## Keys in order -/

theorem pairwise_keys (m : StringMap α) : m.keys.Pairwise (· < ·) :=
  List.Pairwise.map _ (fun _ _ h => h) m.sorted

theorem nodup_keys (m : StringMap α) : m.keys.Nodup := by
  refine m.pairwise_keys.imp ?_
  rintro key _ hlt rfl
  exact String.lt_irrefl key hlt

theorem length_keys (m : StringMap α) : m.keys.length = m.size :=
  List.length_map _

theorem mem_keys {m : StringMap α} {key : String} : key ∈ m.keys ↔ m.contains key = true := by
  unfold keys contains get?
  induction m.entries with
  | nil => simp
  | cons e es ih =>
    rw [lookup_cons, List.map_cons, List.mem_cons]
    by_cases h : key = e.1
    · simp [h]
    · simp only [h, false_or, if_false]
      exact ih

/-- Keys are listed in one order only, so which keys there are decides the list. -/
theorem keys_eq_of_contains_iff {m : StringMap α} {n : StringMap β}
    (h : ∀ key, m.contains key = true ↔ n.contains key = true) : m.keys = n.keys := by
  apply m.pairwise_keys.eq_of_mem_iff n.pairwise_keys
  intro key
  rw [mem_keys, mem_keys]
  exact h key

/-! ## Maps from their entries -/

theorem insertEntry_of_lt {key : String} {value : α} {es : List (String × α)}
    (h : ∀ e ∈ es, e.1 < key) : insertEntry key value es = es ++ [(key, value)] := by
  induction es with
  | nil => rfl
  | cons e es ih =>
    have hlt : e.1 < key := h e List.mem_cons_self
    have hne : key ≠ e.1 := fun heq => String.lt_irrefl key (heq ▸ hlt)
    rw [insertEntry, if_neg (String.lt_asymm hlt), if_neg hne,
      ih fun f hf => h f (List.mem_cons_of_mem _ hf), List.cons_append]

theorem entries_insertAll {es : List (String × α)} {m : StringMap α}
    (h : (m.entries ++ es).Pairwise fun a b => a.1 < b.1) :
    (m.insertAll es).entries = m.entries ++ es := by
  induction es generalizing m with
  | nil => rw [List.append_nil]; rfl
  | cons e es ih =>
    have hlast : (m.insert e.1 e.2).entries = m.entries ++ [e] :=
      insertEntry_of_lt fun f hf =>
        (List.pairwise_append.1 h).2.2 f hf e List.mem_cons_self
    have hsplit : m.entries ++ e :: es = (m.insert e.1 e.2).entries ++ es := by
      rw [hlast, List.append_assoc, List.singleton_append]
    rw [hsplit] at h ⊢
    exact ih h

/-- Entries in strictly ascending order make up a map as they are. -/
theorem entries_ofList {es : List (String × α)} (h : es.Pairwise fun a b => a.1 < b.1) :
    (ofList es).entries = es :=
  entries_insertAll (m := empty) h

theorem eq_of_entries_eq {m n : StringMap α} (h : m.entries = n.entries) : m = n := by
  cases m
  cases n
  cases h
  rfl

@[simp]
theorem ofList_toList (m : StringMap α) : ofList m.toList = m :=
  eq_of_entries_eq (entries_ofList m.sorted)

/-! ## Equal maps -/

theorem get?_eq_some_iff {m : StringMap α} {key : String} {value : α} :
    m.get? key = some value ↔ (key, value) ∈ m.entries := by
  obtain ⟨entries, hsorted⟩ := m
  show entries.lookup key = some value ↔ (key, value) ∈ entries
  induction entries with
  | nil => simp
  | cons e es ih =>
    obtain ⟨hlt, hsorted⟩ := List.pairwise_cons.1 hsorted
    rw [lookup_cons, List.mem_cons]
    by_cases hkey : key = e.1
    · -- a later entry has a greater key
      have hnot : (key, value) ∉ es := fun hmem =>
        String.lt_irrefl key (by simpa [hkey] using hlt _ hmem)
      rw [if_pos hkey, or_iff_left hnot, Option.some.injEq, Prod.ext_iff, and_iff_right hkey,
        eq_comm]
    · have hne : (key, value) ≠ e := fun heq => hkey (congrArg Prod.fst heq)
      rw [if_neg hkey, or_iff_right hne]
      exact ih hsorted

/-- Maps are equal if their look-ups are. -/
theorem ext_get? {m n : StringMap α} (h : ∀ key, m.get? key = n.get? key) : m = n := by
  have : Std.Antisymm fun a b : String × α => a.1 < b.1 :=
    ⟨fun _ _ hlt hgt => absurd hgt (String.lt_asymm hlt)⟩
  have : Std.Irrefl fun a b : String × α => a.1 < b.1 := ⟨fun _ => String.lt_irrefl _⟩
  refine eq_of_entries_eq (m.sorted.eq_of_mem_iff n.sorted fun e => ?_)
  rw [← get?_eq_some_iff, ← get?_eq_some_iff, h]

theorem insert_insert_self (m : StringMap α) (key : String) (value value' : α) :
    (m.insert key value).insert key value' = m.insert key value' := by
  refine ext_get? fun k => ?_
  rw [get?_insert, get?_insert, get?_insert]
  split <;> rfl

theorem insert_comm (m : StringMap α) {key key' : String} (h : key ≠ key') (value value' : α) :
    (m.insert key value).insert key' value' = (m.insert key' value').insert key value := by
  refine ext_get? fun k => ?_
  simp only [get?_insert]
  by_cases hk : k = key
  · rw [if_pos hk, if_neg (hk ▸ h), if_pos hk]
  · rw [if_neg hk, if_neg hk]

/-! ## Changing all values -/

/-- The map with every value changed. -/
def mapValues (f : α → β) (m : StringMap α) : StringMap β :=
  ⟨m.entries.map fun e => (e.1, f e.2), List.pairwise_map.2 m.sorted⟩

/-! ## The last value given to a key -/

/-- The last value that a list of entries gives a key. -/
def lastValue? (key : String) (es : List (String × α)) : Option α :=
  ((es.filter fun e => e.1 == key).map Prod.snd).getLast?

theorem lastValue?_cons (key : String) (e : String × α) (es : List (String × α)) :
    lastValue? key (e :: es) =
      (lastValue? key es).or (if key = e.1 then some e.2 else none) := by
  unfold lastValue?
  split
  · next h =>
    rw [List.filter_cons_of_pos (by simp [h]), List.map_cons, List.getLast?_cons]
    cases (List.map Prod.snd (es.filter fun e => e.1 == key)).getLast? <;> rfl
  · next h =>
    rw [List.filter_cons_of_neg (by simpa using Ne.symm h), Option.or_none]

/-- Exactly the keys that are given a value have a last one. -/
theorem isSome_lastValue?_iff {key : String} {es : List (String × α)} :
    (lastValue? key es).isSome = true ↔ key ∈ es.map Prod.fst := by
  induction es with
  | nil => simp [lastValue?]
  | cons e es ih =>
    rw [lastValue?_cons, Option.isSome_or, Bool.or_eq_true, ih, List.map_cons, List.mem_cons,
      or_comm]
    split
    · next h => simp [h]
    · next h => simp [h]

theorem get?_insertAll (m : StringMap α) (es : List (String × α)) (key : String) :
    (m.insertAll es).get? key = (lastValue? key es).or (m.get? key) := by
  induction es generalizing m with
  | nil => rfl
  | cons e es ih =>
    show ((m.insert e.1 e.2).insertAll es).get? key = _
    rw [ih, get?_insert, lastValue?_cons, Option.or_assoc]
    split <;> rfl

theorem get?_ofList (es : List (String × α)) (key : String) :
    (ofList es).get? key = lastValue? key es := by
  rw [ofList, get?_insertAll, get?_empty, Option.or_none]

theorem insertAll_append (m : StringMap α) (es es' : List (String × α)) :
    m.insertAll (es ++ es') = (m.insertAll es).insertAll es' :=
  List.foldl_append

/-- Only the last value of each key counts. -/
theorem ofList_congr {es es' : List (String × α)}
    (h : ∀ key, lastValue? key es = lastValue? key es') : ofList es = ofList es' :=
  ext_get? fun key => by rw [get?_ofList, get?_ofList, h]

/-! ## Code points -/

/-- The code points of a key, by which keys are ordered. -/
def codePoints (key : String) : List Nat :=
  key.toList.map Char.toNat

theorem lt_iff_codePoints_lt {key key' : String} :
    key < key' ↔ codePoints key < codePoints key' := by
  rw [String.lt_iff_toList_lt, codePoints, codePoints]
  generalize key.toList = cs
  generalize key'.toList = ds
  induction cs generalizing ds with
  | nil => cases ds <;> simp
  | cons c cs ih =>
    cases ds with
    | nil => simp
    | cons d ds =>
      have hlt : c < d ↔ c.toNat < d.toNat := Iff.rfl
      have heq : c = d ↔ c.toNat = d.toNat := Char.toNat_inj.symm
      rw [List.map_cons, List.map_cons, List.cons_lt_cons_iff, List.cons_lt_cons_iff, ih, hlt, heq]

end MetadataArchive.StringMap
