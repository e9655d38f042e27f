import MetadataArchive.Collection.StringMap

/-!
# Keyed tables

A `KeyedTable` keeps items in the order in which they came and finds them by key. Keys are not taken
from the items: whoever adds one says what its key is, and adds no key twice.
-/

namespace MetadataArchive

/-- Items in the order in which they came, with the position of each by its key. -/
structure KeyedTable (α : Type) where
  positions : StringMap Nat
  items : Array α

namespace KeyedTable

variable {α : Type}

/-- The table without items. -/
def empty : KeyedTable α :=
  ⟨.empty, #[]⟩

/-- The item with a key. -/
def get? (t : KeyedTable α) (key : String) : Option α :=
  (t.positions.get? key).bind fun i => t.items[i]?

/-- The table with one more item, at its end. -/
def push (t : KeyedTable α) (key : String) (item : α) : KeyedTable α :=
  ⟨t.positions.insert key t.items.size, t.items.push item⟩

/-- The items in the order in which they came. -/
def toList (t : KeyedTable α) : List α :=
  t.items.toList

/-- How many items there are. -/
def size (t : KeyedTable α) : Nat :=
  t.items.size

@[simp]
theorem toList_push (t : KeyedTable α) (key : String) (item : α) :
    (t.push key item).toList = t.toList ++ [item] := by
  simp [push, toList]

theorem length_toList (t : KeyedTable α) : t.toList.length = t.size := by
  simp [toList, size]

end KeyedTable

end MetadataArchive
