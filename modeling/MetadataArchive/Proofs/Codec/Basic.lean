import MetadataArchive.Codec.Basic
import MetadataArchive.Codec.Choice
import MetadataArchive.Proofs.Binary64.Shortest
import MetadataArchive.Proofs.Json.Text
import MetadataArchive.Proofs.StringMap
import MetadataArchive.Proofs.Time.Spelling

/-!
# What codecs restore

A codec restores a value if it reads what it wrote as that value again. All that can stand in the
way is a double: the digits written for it need not be read as the same double. So each codec comes
with a condition on its values that says which of them are restored, exactly.
-/

namespace MetadataArchive

namespace Json

variable {room : Nat}

theorem readableItems_iff {xs : List Json} :
    readableItems room xs = true ↔ ∀ x ∈ xs, x.readable room = true := by
  induction xs with
  | nil => simp [readableItems]
  | cons x xs ih => simp [readableItems, ih]

theorem readableMembers_iff {ms : List Member} :
    readableMembers room ms = true ↔
      ∀ m ∈ ms, m.1.isSome = true ∧ m.2.readable room = true := by
  induction ms with
  | nil => simp [readableMembers]
  | cons m ms ih => simp [readableMembers, ih, and_assoc]

theorem readableMembers_append (ms ms' : List Member) :
    readableMembers room (ms ++ ms') = (readableMembers room ms && readableMembers room ms') := by
  induction ms with
  | nil => rw [List.nil_append, readableMembers, Bool.true_and]
  | cons m ms ih => simp only [List.cons_append, readableMembers, ih, Bool.and_assoc]

@[simp]
theorem readable_text (s : String) : (text s).readable room = true := by
  rw [text, readable, Option.isSome_some]

theorem text_ne_null (s : String) : text s ≠ null :=
  fun h => nomatch h

theorem readable_int {i : Int} (h : i.natAbs < Binary64.significandBound) :
    (int i).readable room = true := by
  rw [int, readable]
  exact Binary64.isSome_ofNumeral_ofInt h

theorem int_ne_null (i : Int) : int i ≠ null :=
  fun h => nomatch h

theorem readable_array {xs : List Json} (h : ∀ x ∈ xs, x.readable room = true) :
    (array xs).readable (room + 1) = true := by
  rw [readable, Nat.add_sub_cancel, readableItems_iff.2 h]
  simp

theorem readable_object {ms : List Member}
    (h : ∀ m ∈ ms, m.1.isSome = true ∧ m.2.readable room = true) :
    (object ms).readable (room + 1) = true := by
  rw [readable, Nat.add_sub_cancel, readableMembers_iff.2 h]
  simp

theorem readable_of_mem_array {xs : List Json} (h : (array xs).readable room = true) {x : Json}
    (hx : x ∈ xs) : x.readable (room - 1) = true := by
  rw [readable, Bool.and_eq_true] at h
  exact readableItems_iff.1 h.2 x hx

theorem readable_of_mem_object {ms : List Member} (h : (object ms).readable room = true)
    {m : Member} (hm : m ∈ ms) : m.2.readable (room - 1) = true := by
  rw [readable, Bool.and_eq_true] at h
  exact (readableMembers_iff.1 h.2 m hm).2

end Json

/-- Where one more container may be nested, its parts have a place with the room that is left. -/
theorem Place.exists_enter {p : Place} {depth : Nat} (h : depth + 1 ≤ p.room) :
    ∃ q, p.enter = some q ∧ depth ≤ q.room :=
  ⟨_, if_pos (by omega), show depth ≤ p.room - 1 by omega⟩

/-- Where `depth` containers may be nested, exactly the values with `ok` are read back from what is
written for them, and those can be looked into. No value is written as null. -/
structure Codec.Restores {α : Type} (c : Codec α) (depth : Nat) (ok : α → Prop) : Prop where
  read_write : ∀ {p : Place} {a : α}, depth ≤ p.room → (c.read p (c.write a) = some a ↔ ok a)
  readable_write : ∀ {room : Nat} {a : α}, depth ≤ room → ok a → (c.write a).readable room = true
  write_ne_null : ∀ a, c.write a ≠ .null

namespace Codec

variable {α β : Type} {c : Codec α} {depth : Nat} {ok ok' : α → Prop}

theorem Restores.congr (h : c.Restores depth ok) (hok : ∀ a, ok a ↔ ok' a) :
    c.Restores depth ok' := by
  have heq : ok = ok' := funext fun a => propext (hok a)
  exact heq ▸ h

/-- A codec whose texts are read back wherever they stand restores every value. -/
theorem restores_of_read_write (hread : ∀ p a, c.read p (c.write a) = some a)
    (hreadable : ∀ room a, (c.write a).readable room = true)
    (hnull : ∀ a, c.write a ≠ .null) : c.Restores depth fun _ => True where
  read_write _ := iff_of_true (hread _ _) trivial
  readable_write _ _ := hreadable _ _
  write_ne_null := hnull

/-! ## Basic types -/

theorem restores_string : string.Restores depth fun _ => True :=
  restores_of_read_write (fun _ _ => rfl) (fun _ s => Json.readable_text s) Json.text_ne_null

theorem restores_bool : bool.Restores depth fun _ => True :=
  restores_of_read_write (fun _ _ => rfl) (fun _ _ => rfl) fun _ h => nomatch h

theorem restores_timestamp : timestamp.Restores depth fun _ => True := by
  refine restores_of_read_write (fun _ t => ?_) (fun _ t => Json.readable_text t.render)
    fun t => Json.text_ne_null t.render
  simp only [timestamp, string, Json.text, Option.bind_some, t.parse_render]

theorem readInt?_int (i : Int) : readInt? (Json.int i) = some i :=
  Numeral.toInt?_ofInt i

/-- Integers are read back if the bounds are kept and are not too large for numbers that are looked
into. -/
theorem restores_integer {least greatest : Int} {ofInt : Int → α} {toInt : α → Int}
    (hleast : -(Binary64.significandBound : Int) < least)
    (hgreatest : greatest < Binary64.significandBound)
    (hbounds : ∀ a, least ≤ toInt a ∧ toInt a ≤ greatest) (hofInt : ∀ a, ofInt (toInt a) = a) :
    (integer least greatest ofInt toInt).Restores depth fun _ => True := by
  refine restores_of_read_write (fun _ a => ?_) (fun _ a => Json.readable_int ?_)
    fun a => Json.int_ne_null (toInt a)
  · simp only [integer]
    rw [readInt?_int, Option.bind_some, if_pos (hbounds a), hofInt]
  · obtain ⟨hle, hge⟩ := hbounds a
    omega

theorem restores_unsigned {size : Nat} {ofNat : Nat → α} {toNat : α → Nat}
    (hsize : size ≤ Binary64.significandBound) (hlt : ∀ a, toNat a < size)
    (hofNat : ∀ a, ofNat (toNat a) = a) :
    (unsigned size ofNat toNat).Restores depth fun _ => True := by
  have hpos : 0 < Binary64.significandBound := by decide
  refine restores_integer (by omega) (by omega) (fun a => ?_) fun a => ?_
  · have hlt := hlt a
    omega
  · rw [Int.toNat_natCast, hofNat]

theorem restores_uint64 : uint64.Restores depth fun _ => True :=
  restores_unsigned (by decide) UInt64.toNat_lt_size fun _ => UInt64.ofNat_toNat

theorem restores_uint32 : uint32.Restores depth fun _ => True :=
  restores_unsigned (by decide) UInt32.toNat_lt_size fun _ => UInt32.ofNat_toNat

theorem restores_int64 : int64.Restores depth fun _ => True :=
  restores_integer (by decide) (by decide) (fun i => ⟨i.minValue_le_toInt, i.toInt_le⟩)
    fun i => i.ofInt_toInt

theorem restores_binary64 : binary64.Restores depth Binary64.ReadsBack where
  read_write _ := Iff.rfl
  readable_write {room x} _ hx := by
    show (Json.number x.toNumeral).readable room = true
    rw [Json.readable, hx]
    rfl
  write_ne_null _ h := nomatch h

theorem restores_choice {values : List α} {name : α → String}
    (h : ∀ a, (values.find? fun b => name b == name a) = some a) :
    (choice values name).Restores depth fun _ => True :=
  restores_of_read_write (fun _ a => h a)
    (fun _ a => Json.readable_text (name a)) fun a => Json.text_ne_null (name a)

/-! ## Lists and maps -/

/-- Parts are read one by one. -/
theorem mapM_eq_some_iff {f : β → Option α} {xs : List β} {as : List α} :
    xs.mapM f = some as ↔ List.Forall₂ (fun x a => f x = some a) xs as := by
  induction xs generalizing as with
  | nil => simp [eq_comm]
  | cons x xs ih =>
    simp only [List.mapM_cons, List.forall₂_cons_left_iff, ← ih, Option.bind_eq_bind,
      Option.bind_eq_some_iff, Option.pure_def, Option.some.injEq]
    constructor
    · rintro ⟨a, ha, as, has, rfl⟩
      exact ⟨a, as, ha, has, rfl⟩
    · rintro ⟨a, as, ha, has, rfl⟩
      exact ⟨a, ha, as, has, rfl⟩

/-- What each part is written as is read part by part. -/
theorem mapM_map_eq_some_iff {f : β → Option α} {g : α → β} {as : List α} :
    (as.map g).mapM f = some as ↔ ∀ a ∈ as, f (g a) = some a := by
  rw [mapM_eq_some_iff, List.forall₂_map_left_iff, List.forall₂_same]

theorem restores_list (h : c.Restores depth ok) :
    c.list.Restores (depth + 1) fun as => ∀ a ∈ as, ok a where
  read_write {p as} hroom := by
    obtain ⟨q, henter, hq⟩ := Place.exists_enter hroom
    show (p.enter.bind fun q => (as.map c.write).mapM (c.read q)) = some as ↔ _
    rw [henter, Option.bind_some, mapM_map_eq_some_iff]
    exact forall₂_congr fun a _ => h.read_write hq
  readable_write {room as} hroom hok := by
    obtain ⟨room, rfl⟩ : ∃ n, room = n + 1 := ⟨room - 1, by omega⟩
    refine Json.readable_array fun x hx => ?_
    obtain ⟨a, ha, rfl⟩ := List.mem_map.1 hx
    exact h.readable_write (by omega) (hok a ha)
  write_ne_null _ h := nomatch h

/-- Reading entries keeps their keys. -/
theorem map_fst_of_mapM_readEntry {p : Place} {ms : List (String × Json)}
    {es : List (String × α)}
    (h : (ms.map fun m => (some m.1, m.2)).mapM (readEntry c p) = some es) :
    es.map Prod.fst = ms.map Prod.fst := by
  rw [mapM_eq_some_iff, List.forall₂_map_left_iff] at h
  induction h with
  | nil => rfl
  | cons hentry _ ih =>
    simp only [readEntry, Option.bind_eq_bind, Option.bind_eq_some_iff, Option.pure_def,
      Option.some.injEq] at hentry
    obtain ⟨key, rfl, a, -, rfl⟩ := hentry
    rw [List.map_cons, List.map_cons, ih]

theorem readEntry_write (p : Place) (e : String × α) :
    readEntry c p (some e.1, c.write e.2) = some e ↔ c.read p (c.write e.2) = some e.2 := by
  obtain ⟨key, a⟩ := e
  simp only [readEntry, Option.bind_eq_bind, Option.bind_some, Option.pure_def,
    Option.bind_eq_some_iff, Option.some.injEq, Prod.mk.injEq, true_and, exists_eq_right]

theorem restores_stringMap (h : c.Restores depth ok) :
    c.stringMap.Restores (depth + 1) fun m => ∀ e ∈ m.toList, ok e.2 where
  read_write {p m} hroom := by
    obtain ⟨q, henter, hq⟩ := Place.exists_enter hroom
    let ms : List (String × Json) := m.toList.map fun e => (e.1, c.write e.2)
    have hms : ms.map (fun m => (some m.1, m.2)) =
        m.toList.map fun e => (some e.1, c.write e.2) := List.map_map
    have hentries : (ms.map fun m => (some m.1, m.2)).mapM (readEntry c q) = some m.toList ↔
        ∀ e ∈ m.toList, ok e.2 := by
      rw [hms, mapM_map_eq_some_iff]
      exact forall₂_congr fun e _ => (readEntry_write q e).trans (h.read_write hq)
    show (p.enter.bind fun q => ((ms.map fun m => (some m.1, m.2)).mapM (readEntry c q)).map
      StringMap.ofList) = some m ↔ _
    rw [henter, Option.bind_some, ← hentries, Option.map_eq_some_iff]
    constructor
    · rintro ⟨es, hes, hofList⟩
      -- the entries read have the keys of the map, so they are in order and make up the map
      have hkeys : es.map Prod.fst = m.toList.map Prod.fst := by
        rw [map_fst_of_mapM_readEntry hes, List.map_map]
        rfl
      have hsorted : es.Pairwise fun a b => a.1 < b.1 := by
        rw [← List.pairwise_map (f := Prod.fst) (R := (· < ·)), hkeys]
        exact m.pairwise_keys
      have hlist : m.toList = es := by
        rw [← hofList]
        exact StringMap.entries_ofList hsorted
      rw [hlist, hes]
    · intro hes
      exact ⟨m.toList, hes, m.ofList_toList⟩
  readable_write {room m} hroom hok := by
    obtain ⟨room, rfl⟩ : ∃ n, room = n + 1 := ⟨room - 1, by omega⟩
    refine Json.readable_object fun x hx => ?_
    rw [List.map_map] at hx
    obtain ⟨e, he, rfl⟩ := List.mem_map.1 hx
    exact ⟨rfl, h.readable_write (by omega) (hok e he)⟩
  write_ne_null _ h := nomatch h

end Codec

end MetadataArchive
