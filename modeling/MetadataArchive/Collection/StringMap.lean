/-!
# Maps keyed by strings

A `StringMap` keeps its entries in strictly ascending order of keys, by code points. Two maps with
the same content are therefore the same map, and the order in which a map is written is its own.
-/

namespace MetadataArchive

/-- A finite map from strings, as its entries in ascending order of keys. -/
structure StringMap (α : Type) where
  entries : List (String × α)
  sorted : entries.Pairwise fun a b => a.1 < b.1
deriving DecidableEq

/-- A finite set of strings. -/
abbrev StringSet := StringMap Unit

namespace StringMap

variable {α : Type}

instance [BEq α] : BEq (StringMap α) where
  beq m n := m.entries == n.entries

/-- The map without entries. -/
def empty : StringMap α :=
  ⟨[], .nil⟩

instance : Inhabited (StringMap α) where
  default := empty

/-- The entries with one for `key` put in its place, where it replaces an entry with that key. -/
def insertEntry (key : String) (value : α) : List (String × α) → List (String × α)
  | [] => [(key, value)]
  | e :: es =>
    if key < e.1 then (key, value) :: e :: es
    else if key = e.1 then (key, value) :: es
    else e :: insertEntry key value es

/-- The entries without the one for `key`. -/
def eraseEntry (key : String) (es : List (String × α)) : List (String × α) :=
  es.filter fun e => e.1 != key

theorem mem_insertEntry {key : String} {value : α} {e : String × α} {es : List (String × α)}
    (h : e ∈ insertEntry key value es) : e = (key, value) ∨ e ∈ es := by
  induction es with
  | nil => exact .inl (by simpa [insertEntry] using h)
  | cons f es ih =>
    rw [insertEntry] at h
    split at h
    · simpa using h
    · split at h
      · rcases List.mem_cons.1 h with h | h
        · exact .inl h
        · exact .inr (List.mem_cons_of_mem _ h)
      · rcases List.mem_cons.1 h with h | h
        · exact .inr (h ▸ List.mem_cons_self)
        · exact (ih h).imp_right (List.mem_cons_of_mem _)

theorem sorted_insertEntry {key : String} {value : α} {es : List (String × α)}
    (h : es.Pairwise fun a b => a.1 < b.1) :
    (insertEntry key value es).Pairwise fun a b => a.1 < b.1 := by
  induction es with
  | nil => simp [insertEntry]
  | cons e es ih =>
    obtain ⟨he, hes⟩ := List.pairwise_cons.1 h
    rw [insertEntry]
    split
    · next hlt =>
      refine List.pairwise_cons.2 ⟨fun f hf => ?_, h⟩
      rcases List.mem_cons.1 hf with hf | hf
      · exact hf ▸ hlt
      · exact String.lt_trans hlt (he f hf)
    · next hnlt =>
      split
      · next heq => exact List.pairwise_cons.2 ⟨fun f hf => heq ▸ he f hf, hes⟩
      · next hne =>
        refine List.pairwise_cons.2 ⟨fun f hf => ?_, ih hes⟩
        rcases mem_insertEntry hf with hf | hf
        · rw [hf]
          exact Decidable.byContradiction fun hge =>
            hne (String.le_antisymm (String.not_lt.1 hge) (String.not_lt.1 hnlt))
        · exact he f hf

/-- The map with `value` at `key`. -/
def insert (m : StringMap α) (key : String) (value : α) : StringMap α :=
  ⟨insertEntry key value m.entries, sorted_insertEntry m.sorted⟩

/-- The value at a key. -/
def get? (m : StringMap α) (key : String) : Option α :=
  m.entries.lookup key

/-- Whether a key has a value. -/
def contains (m : StringMap α) (key : String) : Bool :=
  (m.get? key).isSome

/-- The entries in ascending order of keys. -/
def toList (m : StringMap α) : List (String × α) :=
  m.entries

/-- The keys in ascending order. -/
def keys (m : StringMap α) : List String :=
  m.entries.map Prod.fst

/-- How many keys have a value. -/
def size (m : StringMap α) : Nat :=
  m.entries.length

/-- Whether no key has a value. -/
def isEmpty (m : StringMap α) : Bool :=
  m.entries.isEmpty

/-- The map with all entries of a list, of which a later one replaces an earlier one. -/
def insertAll (m : StringMap α) (es : List (String × α)) : StringMap α :=
  es.foldl (fun m e => m.insert e.1 e.2) m

/-- The map with the entries of a list, of which a later one replaces an earlier one. -/
def ofList (es : List (String × α)) : StringMap α :=
  empty.insertAll es

/-! ## Looking up after inserting -/

@[simp]
theorem get?_empty (key : String) : (empty : StringMap α).get? key = none :=
  rfl

theorem lookup_cons (key : String) (e : String × α) (es : List (String × α)) :
    (e :: es).lookup key = if key = e.1 then some e.2 else es.lookup key := by
  obtain ⟨key', value⟩ := e
  by_cases h : key = key'
  · simp [h]
  · simp [List.lookup_cons, h, beq_false_of_ne h]

theorem lookup_insertEntry (key key' : String) (value : α) (es : List (String × α)) :
    (insertEntry key value es).lookup key' =
      if key' = key then some value else es.lookup key' := by
  induction es with
  | nil => simp [insertEntry, lookup_cons]
  | cons e es ih =>
    rw [insertEntry]
    split
    · rw [lookup_cons]
    · split
      · next heq => by_cases h : key' = key <;> simp_all [lookup_cons]
      · next hne =>
        by_cases h : key' = key
        · subst h
          simp [lookup_cons, hne, ih]
        · simp [lookup_cons, ih, h]

theorem lookup_eraseEntry (key key' : String) (es : List (String × α)) :
    (eraseEntry key es).lookup key' = if key' = key then none else es.lookup key' := by
  induction es with
  | nil => simp [eraseEntry]
  | cons e es ih =>
    have hcons : eraseEntry key (e :: es) =
        if e.1 = key then eraseEntry key es else e :: eraseEntry key es := by
      by_cases he : e.1 = key <;> simp [eraseEntry, he]
    rw [hcons]
    split
    · next he =>
      rw [ih, lookup_cons]
      by_cases h : key' = key <;> simp [h, he]
    · next he =>
      rw [lookup_cons, ih, lookup_cons]
      by_cases h : key' = key
      · subst h
        simp [Ne.symm he]
      · simp [h]

theorem get?_insert (m : StringMap α) (key key' : String) (value : α) :
    (m.insert key value).get? key' = if key' = key then some value else m.get? key' :=
  lookup_insertEntry key key' value m.entries

end StringMap

end MetadataArchive
