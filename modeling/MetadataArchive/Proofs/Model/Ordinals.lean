import Mathlib.Data.List.Nodup
import MetadataArchive.Wire.AttributeType

/-!
# Ordinals of enumerations

An element that is added to an enumeration gets the number of elements before it as its ordinal,
whatever ordinals these have. Where all elements came in this way they are numbered from zero, and
no two ordinals are equal. An enumeration that was read from a text may have any ordinals, and then
an element that is added shares one exactly if a number that is given out is among them.
-/

namespace MetadataArchive.EnumDef

/-- The ordinals of the elements, in order. -/
def ordinals (d : EnumDef) : List UInt32 :=
  d.elements.map EnumElementDef.ordinal

/-- A change to an enumeration: one more element, or another default value. -/
inductive Change where
  | element (value : String)
  | defaultValue (ordinal : UInt32)

/-- The value of the element that a change adds. -/
def Change.value? : Change → Option String
  | element value => some value
  | defaultValue _ => none

/-- The enumeration after a change. -/
def change (d : EnumDef) : Change → EnumDef
  | .element value => d.withElement value
  | .defaultValue ordinal => d.withDefaultValue ordinal

/-- The enumeration after some changes, one after the other. -/
def changeAll (d : EnumDef) (changes : List Change) : EnumDef :=
  changes.foldl change d

/-- Elements with the given values, numbered from `n` on. -/
def numberedFrom (n : Nat) (values : List String) : List EnumElementDef :=
  (values.zipIdx n).map fun e => ⟨UInt32.ofNat e.2, e.1, none⟩

variable {n : Nat} {o : UInt32}

theorem map_value_numberedFrom (n : Nat) (values : List String) :
    (numberedFrom n values).map EnumElementDef.value = values := by
  simp [numberedFrom, Function.comp_def]

theorem map_ordinal_numberedFrom (n : Nat) (values : List String) :
    (numberedFrom n values).map EnumElementDef.ordinal =
      (List.range' n values.length).map UInt32.ofNat := by
  simp [numberedFrom, ← List.zipIdx_map_snd, Function.comp_def]

/-! ## What changes add -/

/-- A change puts at most one element at the end, with the number of those before it. -/
theorem elements_change (d : EnumDef) (c : Change) :
    (d.change c).elements = d.elements ++ numberedFrom d.elements.length c.value?.toList := by
  cases c <;> simp [change, withElement, withDefaultValue, Change.value?, numberedFrom]

/-- Changes leave the elements that are there as they are, and number the new ones on from their
count. -/
theorem elements_changeAll (d : EnumDef) (changes : List Change) :
    (d.changeAll changes).elements =
      d.elements ++ numberedFrom d.elements.length (changes.filterMap Change.value?) := by
  induction changes generalizing d with
  | nil => simp [changeAll, numberedFrom]
  | cons c changes ih =>
    show ((d.change c).changeAll changes).elements = _
    rw [ih, elements_change]
    cases c <;> simp [Change.value?, numberedFrom, List.filterMap_cons, List.zipIdx_cons]

theorem length_changeAll (d : EnumDef) (changes : List Change) :
    (d.changeAll changes).elements.length =
      d.elements.length + (changes.filterMap Change.value?).length := by
  simp [elements_changeAll, numberedFrom]

theorem ordinals_changeAll (d : EnumDef) (changes : List Change) :
    (d.changeAll changes).ordinals = d.ordinals ++
      (List.range' d.elements.length (changes.filterMap Change.value?).length).map UInt32.ofNat := by
  rw [ordinals, elements_changeAll, List.map_append, map_ordinal_numberedFrom]
  rfl

/-! ## Which ordinals are given out -/

/-- Below the greatest number of elements, ordinals are the numbers themselves. -/
theorem toNat_of_mem_range' {start i : Nat} (hi : i ∈ List.range' start n)
    (hcount : start + n ≤ UInt32.size) : (UInt32.ofNat i).toNat = i :=
  UInt32.toNat_ofNat_of_lt' (Nat.lt_of_lt_of_le (List.mem_range'_1.1 hi).2 hcount)

theorem mem_map_ofNat_iff {start : Nat} (hcount : start + n ≤ UInt32.size) :
    o ∈ (List.range' start n).map UInt32.ofNat ↔ start ≤ o.toNat ∧ o.toNat < start + n := by
  rw [List.mem_map]
  constructor
  · rintro ⟨i, hi, rfl⟩
    rw [toNat_of_mem_range' hi hcount]
    exact List.mem_range'_1.1 hi
  · intro h
    exact ⟨o.toNat, List.mem_range'_1.2 h, UInt32.ofNat_toNat⟩

theorem nodup_map_ofNat {start : Nat} (hcount : start + n ≤ UInt32.size) :
    ((List.range' start n).map UInt32.ofNat).Nodup := by
  refine List.Nodup.map_on (fun i hi j hj heq => ?_) List.nodup_range'
  rw [← toNat_of_mem_range' hi hcount, heq, toNat_of_mem_range' hj hcount]

/-! ## What becomes of distinct ordinals -/

/-- Where all elements came in by changes, they are numbered from zero. -/
theorem ordinals_changeAll_plain (guid name : String) (changes : List Change) :
    ((plain guid name).changeAll changes).ordinals =
      (List.range (changes.filterMap Change.value?).length).map UInt32.ofNat := by
  rw [ordinals_changeAll, List.range_eq_range']
  rfl

/-- Numbered from zero, elements have distinct ordinals as long as there are ordinals. -/
theorem nodup_ordinals_changeAll_plain (guid name : String) (changes : List Change)
    (hcount : ((plain guid name).changeAll changes).elements.length ≤ UInt32.size) :
    ((plain guid name).changeAll changes).ordinals.Nodup := by
  rw [ordinals_changeAll_plain, List.range_eq_range']
  exact nodup_map_ofNat (by simpa [length_changeAll, plain] using hcount)

/-- Changes leave the elements of an enumeration as they are and put new ones with the given values
behind them. Distinct ordinals stay distinct exactly if none of them is the number of a new
element. -/
theorem nodup_ordinals_changeAll_iff (d : EnumDef) (changes : List Change)
    (hdistinct : d.ordinals.Nodup)
    (hcount : (d.changeAll changes).elements.length ≤ UInt32.size) :
    (∃ added, (d.changeAll changes).elements = d.elements ++ added ∧
        added.map EnumElementDef.value = changes.filterMap Change.value?) ∧
      ((d.changeAll changes).ordinals.Nodup ↔ ∀ o ∈ d.ordinals,
        o.toNat < d.elements.length ∨ (d.changeAll changes).elements.length ≤ o.toNat) := by
  refine ⟨⟨_, elements_changeAll d changes, map_value_numberedFrom _ _⟩, ?_⟩
  rw [length_changeAll] at hcount ⊢
  -- the new ordinals differ among themselves, so that only an old one can be equal to one of them
  rw [ordinals_changeAll, List.nodup_append', and_iff_right hdistinct,
    and_iff_right (nodup_map_ofNat hcount)]
  refine forall_congr' fun o => imp_congr_right fun _ => ?_
  rw [mem_map_ofNat_iff hcount, imp_false]
  omega

/-- An enumeration with a gap in its ordinals. -/
def gappedLevel : EnumDef :=
  ⟨"guid-level", "Level", none, [⟨7, "HIGHEST", none⟩, ⟨0, "LOWEST", none⟩], none⟩

/-- Two more elements and a default value. -/
def levelChanges : List Change :=
  [.element "LOW", .defaultValue 7, .element "HIGH"]

/-- The new elements have the ordinals two and three, which are free. -/
theorem nodup_ordinals_changeAll_iff_gappedLevel :
    gappedLevel.ordinals.Nodup ∧
      (gappedLevel.changeAll levelChanges).elements.length ≤ UInt32.size ∧
        (gappedLevel.changeAll levelChanges).ordinals.Nodup := by
  have hdistinct : gappedLevel.ordinals.Nodup := by decide
  have hcount : (gappedLevel.changeAll levelChanges).elements.length ≤ UInt32.size := by decide
  have hapart : ∀ o ∈ gappedLevel.ordinals, o.toNat < gappedLevel.elements.length ∨
      (gappedLevel.changeAll levelChanges).elements.length ≤ o.toNat :=
    List.forall_mem_cons.2 ⟨.inr (by decide),
      List.forall_mem_cons.2 ⟨.inl (by decide), fun _ h => nomatch h⟩⟩
  exact ⟨hdistinct, hcount,
    (nodup_ordinals_changeAll_iff gappedLevel levelChanges hdistinct hcount).2.2 hapart⟩

/-- An enumeration with one element, whose ordinal is one. -/
def mediumLevelText : String :=
  "\x7b\"guid\":\"guid-level\",\"name\":\"Level\"," ++
    "\"elementDefs\":[\x7b\"ordinal\":1,\"value\":\"MEDIUM\"\x7d]\x7d"

/-- Read from that text, its ordinals are distinct. The next element has the ordinal one as well. -/
theorem not_nodup_ordinals_withElement : ∃ d, codec.decode mediumLevelText = some d ∧
    d.ordinals.Nodup ∧ (d.withElement "HIGH").ordinals = [1, 1] ∧
      ¬ (d.withElement "HIGH").ordinals.Nodup :=
  ⟨⟨"guid-level", "Level", none, [⟨1, "MEDIUM", none⟩], none⟩, by decide +kernel⟩

end MetadataArchive.EnumDef
