import MetadataArchive.Draft.Table
import MetadataArchive.Proofs.StringMap

/-!
# Tables that find their items

A `KeyedTable` stores positions apart from the items. In an indexed table the two agree: the
position of a key is the place of an item with that key, and every place is the position of its
item's key. Pushing an item under a key that no item has keeps a table indexed. Since no key has two
positions, there are as many positions as items.
-/

namespace MetadataArchive.KeyedTable

variable {α β : Type} {keyOf : α → String} {t : KeyedTable α} {x : α} {key : String}

/-- The table with every item changed, under the same keys. -/
def map (f : α → β) (t : KeyedTable α) : KeyedTable β :=
  ⟨t.positions, t.items.map f⟩

@[simp]
theorem toList_map (f : α → β) (t : KeyedTable α) : (t.map f).toList = t.toList.map f := by
  simp [map, toList]

@[simp]
theorem map_push (f : α → β) (t : KeyedTable α) (key : String) (x : α) :
    (t.push key x).map f = (t.map f).push key (f x) := by
  simp [map, push]

/-- A table whose positions are those of its items, under the keys of these. -/
def Indexed (keyOf : α → String) (t : KeyedTable α) : Prop :=
  ∀ key i, t.positions.get? key = some i ↔ t.items[i]?.map keyOf = some key

/-- A table with one position for each item. It is the place of the item and stands under its key,
and whatever position is stored, an item with that key is found there. -/
structure Positioned (keyOf : α → String) (t : KeyedTable α) : Prop where
  size_positions : t.positions.size = t.items.size
  position : ∀ i, ∀ h : i < t.items.size, t.positions.get? (keyOf t.items[i]) = some i
  in_bounds : ∀ key i, t.positions.get? key = some i →
    ∃ h : i < t.items.size, keyOf t.items[i] = key ∧ t.get? key = some t.items[i]

theorem indexed_empty : (empty : KeyedTable α).Indexed keyOf := by
  intro key i
  simp [empty]

namespace Indexed

theorem get?_eq_some_iff (h : t.Indexed keyOf) :
    t.get? key = some x ↔ x ∈ t.toList ∧ keyOf x = key := by
  simp only [get?, Option.bind_eq_some_iff, toList, Array.mem_toList_iff]
  constructor
  · intro hex
    obtain ⟨i, hi, hx⟩ := hex
    have hkey := (h key i).1 hi
    rw [hx] at hkey
    exact ⟨Array.mem_of_getElem? hx, Option.some.inj hkey⟩
  · intro hall
    obtain ⟨hx, hkey⟩ := hall
    obtain ⟨i, hi⟩ := Array.getElem?_of_mem hx
    exact ⟨i, (h key i).2 (by simp [hi, hkey]), hi⟩

theorem get?_eq_none_iff (h : t.Indexed keyOf) :
    t.get? key = none ↔ ∀ x ∈ t.toList, keyOf x ≠ key := by
  constructor
  · intro hnone x hx hkey
    have hsome := h.get?_eq_some_iff.2 ⟨hx, hkey⟩
    rw [hnone] at hsome
    cases hsome
  · intro hfresh
    cases hget : t.get? key with
    | none => rfl
    | some x =>
      obtain ⟨hx, hkey⟩ := h.get?_eq_some_iff.1 hget
      exact absurd hkey (hfresh x hx)

theorem push (h : t.Indexed keyOf) (hfresh : ∀ y ∈ t.toList, keyOf y ≠ keyOf x) :
    (t.push (keyOf x) x).Indexed keyOf := by
  intro key i
  simp only [KeyedTable.push, StringMap.get?_insert, Array.getElem?_push]
  by_cases hkey : key = keyOf x
  · -- no place but the new one has the key, since no item had it
    subst hkey
    by_cases hi : i = t.items.size
    · simp [hi]
    · have hne : t.items.size ≠ i := fun heq => hi heq.symm
      simp only [if_true, Option.some.injEq, hne, hi, if_false, false_iff]
      intro hold
      obtain ⟨y, hy, hyx⟩ := Option.map_eq_some_iff.1 hold
      exact hfresh y (by simpa [toList] using Array.mem_of_getElem? hy) hyx
  · by_cases hi : i = t.items.size
    · subst hi
      have hnone := h key t.items.size
      simp only [Array.getElem?_size, Option.map_none, reduceCtorEq, iff_false] at hnone
      simp [hkey, hnone, Ne.symm hkey]
    · simpa [hkey, hi] using h key i

theorem map {f : α → β} {keyOf' : β → String} (h : t.Indexed keyOf)
    (hkey : ∀ x, keyOf' (f x) = keyOf x) : (t.map f).Indexed keyOf' := by
  intro key i
  simpa [KeyedTable.map, Function.comp_def, hkey] using h key i

/-! ## One position for each item -/

/-- A key has one position only, so it does not occur at two places. -/
theorem nodup_keys (h : t.Indexed keyOf) : (t.toList.map keyOf).Nodup := by
  refine List.nodup_iff_getElem?_ne_getElem?.2 fun i j hij hj heq => ?_
  have hplace : ∀ k key, (t.toList.map keyOf)[k]? = some key → t.positions.get? key = some k :=
    fun k key hk => (h key k).2 (by simpa [toList] using hk)
  have hkey := List.getElem?_eq_getElem hj
  have hsame : some i = some j := (hplace i _ (heq.trans hkey)).symm.trans (hplace j _ hkey)
  exact Nat.ne_of_lt hij (Option.some.inj hsame)

theorem contains_positions_iff (h : t.Indexed keyOf) (key : String) :
    t.positions.contains key = true ↔ key ∈ t.toList.map keyOf := by
  rw [StringMap.contains, Option.isSome_iff_exists, List.mem_iff_getElem?]
  exact exists_congr fun i => by simpa [toList] using h key i

theorem perm_keys_positions (h : t.Indexed keyOf) :
    t.positions.keys.Perm (t.toList.map keyOf) :=
  (List.perm_ext_iff_of_nodup t.positions.nodup_keys h.nodup_keys).2 fun key =>
    StringMap.mem_keys.trans (h.contains_positions_iff key)

theorem positioned (h : t.Indexed keyOf) : t.Positioned keyOf where
  size_positions := by
    simpa [toList, StringMap.length_keys] using h.perm_keys_positions.length_eq
  position i hi := (h _ i).2 (by simp [hi])
  in_bounds key i hget := by
    obtain ⟨x, hx, hkey⟩ := Option.map_eq_some_iff.1 ((h key i).1 hget)
    obtain ⟨hi, rfl⟩ := Array.getElem?_eq_some_iff.1 hx
    exact ⟨hi, hkey, by simp [get?, hget, hi]⟩

/-- If a table is still indexed after an item was pushed, the key of the item was free. -/
theorem contains_of_push (h : t.Indexed keyOf)
    (hpush : (t.push (keyOf x) x).Indexed keyOf) : t.positions.contains (keyOf x) = false := by
  have hnd := hpush.nodup_keys
  rw [toList_push, List.map_append, List.nodup_append'] at hnd
  rw [← Bool.not_eq_true, h.contains_positions_iff]
  exact fun hmem => hnd.2.2 hmem List.mem_cons_self

end Indexed

end MetadataArchive.KeyedTable
