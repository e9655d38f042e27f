import MetadataArchive.Proofs.Codec.Grammar
import MetadataArchive.Proofs.Codec.Rearrangement
import MetadataArchive.Proofs.Wire.Kind

/-!
# Archives around one definition

What an archive is read as, given what it is read as without one of its definitions: the same with
that definition in its place in the list, if the definition is read. It does not matter whether the
archive and its store of types are written as objects or as arrays.
-/

namespace MetadataArchive

/-! ## Amended readings -/

/-- What is read with one part more, given what is read without it and what the part is read as. -/
def amend {α δ : Type} (put : α → δ → α) (whole : Option α) (part : Option δ) : Option α :=
  whole.bind fun a => part.map (put a)

/-- Reading a list with one more item. -/
theorem Codec.mapM_insert {α β : Type} {f : β → Option α} (x : β) (xs ys : List β) :
    (xs ++ x :: ys).mapM f =
      amend (fun as a => as.insertIdx xs.length a) ((xs ++ ys).mapM f) (f x) := by
  induction xs with
  | nil =>
    simp only [List.nil_append, List.mapM_cons]
    cases f x <;> cases ys.mapM f <;> rfl
  | cons y xs ih =>
    simp only [List.cons_append, List.mapM_cons, ih]
    cases f y <;> cases (xs ++ ys).mapM f <;> cases f x <;> rfl

/-! ## Records with a value left open -/

/-- A record written as an object or as an array, with the value of one field left open. -/
inductive Frame where
  | members (before after : List Json.Member)
  | items (before after : List Json)

namespace Frame

/-- The record with a value for the field. -/
def fill : Frame → String → Json → Json
  | members before after, key, j => .object (before ++ (some key, j) :: after)
  | items before after, _, j => .array (before ++ j :: after)

/-- In an array the field with a number has that many items before it. -/
def LeavesOpen : Frame → Nat → Prop
  | members _ _, _ => True
  | items before _, n => before.length = n

end Frame

theorem Json.valuesAt_insert_self (key : String) (j : Json) (before after : List Member) :
    valuesAt key (before ++ (some key, j) :: after) =
      valuesAt key before ++ j :: valuesAt key after := by
  rw [valuesAt_append, valuesAt_cons_self]

theorem Json.valuesAt_insert_of_ne {key key' : String} (h : key' ≠ key) (j : Json)
    (before after : List Member) :
    valuesAt key (before ++ (some key', j) :: after) = valuesAt key (before ++ after) := by
  rw [valuesAt_append, valuesAt_append, valuesAt_cons_of_ne fun heq => h (Option.some.inj heq)]

/-- A field has no second value beside one. -/
theorem Field.readFrom_amend {α δ : Type} {f : Field α} {p : Place} {part : Option δ}
    {put : α → δ → α} {j j' : Json}
    (h : f.codec.read p j' = amend put (f.codec.read p j) part) (before after : List Json) :
    f.readFrom p (before ++ j' :: after) =
      amend put (f.readFrom p (before ++ j :: after)) part := by
  match before, after with
  | [], [] => exact h
  | [], _ :: _ => rfl
  | [_], _ | _ :: _ :: _, _ => rfl

namespace Frame

variable {α β δ : Type} {f : Field α} {fs : Fields β} {F : Frame} {key : String} {p : Place}
  {part : Option δ} {j j' : Json}

/-- What the fields of a record in a frame are read as. -/
def readFields {τ : Type} (fs : Fields τ) (p : Place) : Frame → String → Json → Option τ
  | members before after, key, j => fs.readMembers p (before ++ (some key, j) :: after)
  | items before after, _, j => fs.readItems p (before ++ j :: after)

/-- The value is that of the first field, and no other field looks at it. -/
theorem readFields_amend_first {put : α → δ → α} (hF : F.LeavesOpen 0) (hfresh : f.key ∉ fs.keys)
    (h : f.codec.read p j' = amend put (f.codec.read p j) part) :
    readFields (.cons f fs) p F f.key j' =
      amend (fun t d => (put t.1 d, t.2)) (readFields (.cons f fs) p F f.key j) part := by
  cases F with
  | members before after =>
    have hrest (x : Json) : fs.readMembers p (before ++ (some f.key, x) :: after) =
        fs.readMembers p (before ++ after) :=
      Fields.readMembers_congr fun key hkey =>
        Json.valuesAt_insert_of_ne (fun heq : f.key = key => hfresh (heq ▸ hkey)) x before after
    simp only [readFields, Fields.readMembers, Json.valuesAt_insert_self, hrest,
      Field.readFrom_amend h]
    cases f.readFrom p (Json.valuesAt f.key before ++ j :: Json.valuesAt f.key after) <;>
      cases fs.readMembers p (before ++ after) <;> cases part <;> rfl
  | items before after =>
    obtain rfl := List.length_eq_zero_iff.1 hF
    simp only [readFields, List.nil_append, Fields.readItems, h]
    cases f.codec.read p j <;> cases fs.readItems p after <;> cases part <;> rfl

/-- The value is that of a later field, and the first one does not look at it. -/
theorem readFields_amend_rest {put : β → δ → β} {n : Nat} (hF : F.LeavesOpen (n + 1))
    (hne : key ≠ f.key) (h : ∀ {F : Frame}, F.LeavesOpen n →
      readFields fs p F key j' = amend put (readFields fs p F key j) part) :
    readFields (.cons f fs) p F key j' =
      amend (fun t d => (t.1, put t.2 d)) (readFields (.cons f fs) p F key j) part := by
  cases F with
  | members before after =>
    have hrest : fs.readMembers p (before ++ (some key, j') :: after) =
        amend put (fs.readMembers p (before ++ (some key, j) :: after)) part :=
      h (F := members before after) trivial
    simp only [readFields, Fields.readMembers, Json.valuesAt_insert_of_ne hne, hrest]
    cases f.readFrom p (Json.valuesAt f.key (before ++ after)) <;>
      cases fs.readMembers p (before ++ (some key, j) :: after) <;> cases part <;> rfl
  | items before after =>
    obtain ⟨first, before, rfl⟩ := List.exists_cons_of_length_eq_add_one hF
    have hrest : fs.readItems p (before ++ j' :: after) =
        amend put (fs.readItems p (before ++ j :: after)) part :=
      h (F := items before after) (Nat.succ.inj hF)
    simp only [readFields, List.cons_append, Fields.readItems, hrest]
    cases f.codec.read p first <;> cases fs.readItems p (before ++ j :: after) <;>
      cases part <;> rfl

end Frame

theorem Record.map_ofValues_amend {σ δ : Type} {r : Record σ} {put : r.τ → δ → r.τ}
    {part : Option δ} (t : Option r.τ) :
    (amend put t part).map r.ofValues =
      amend (fun s d => r.ofValues (put (r.values s) d)) (t.map r.ofValues) part := by
  cases t <;> cases part <;> simp [amend, r.values_ofValues]

/-- A record is read with another value for a field as its fields are. -/
theorem Record.read_fill_amend {σ δ : Type} {r : Record σ} {F : Frame} {key : String}
    {p q : Place} (henter : p.enter = some q) {put : r.τ → δ → r.τ} {part : Option δ}
    {j j' : Json}
    (h : F.readFields r.fields q key j' = amend put (F.readFields r.fields q key j) part) :
    r.read p (F.fill key j') =
      amend (fun s d => r.ofValues (put (r.values s) d)) (r.read p (F.fill key j)) part := by
  cases F with
  | members before after =>
    have hall (x : Json) : ((before ++ (some key, x) :: after).all fun m => m.1.isSome) =
        ((before ++ after).all fun m => m.1.isSome) := by
      simp
    simp only [Frame.fill]
    rw [read_object henter, read_object henter, hall, hall]
    split
    · rw [← map_ofValues_amend]
      exact congrArg (Option.map r.ofValues) h
    · rfl
  | items before after =>
    simp only [Frame.fill, read, henter, Option.bind_some]
    rw [← map_ofValues_amend]
    exact congrArg (Option.map r.ofValues) h

theorem Codec.read_nullable_amend {α δ : Type} {c : Codec α} {p : Place} {part : Option δ}
    {put : α → δ → α} {j j' : Json} (hj : j ≠ .null) (hj' : j' ≠ .null)
    (h : c.read p j' = amend put (c.read p j) part) :
    c.nullable.read p j' = amend (fun o d => o.map (put · d)) (c.nullable.read p j) part := by
  rw [read_nullable_of_ne hj, read_nullable_of_ne hj', h]
  cases c.read p j <;> cases part <;> rfl

/-- An item is read a place further in, whatever stands around it. -/
theorem Codec.read_list_insert {α : Type} {c : Codec α} {p q : Place} (henter : p.enter = some q)
    (xs ys : List Json) (x : Json) :
    c.list.read p (.array (xs ++ x :: ys)) =
      amend (fun as a => as.insertIdx xs.length a) (c.list.read p (.array (xs ++ ys)))
        (c.read q x) := by
  show p.enter.bind _ = amend _ (p.enter.bind _) _
  rw [henter, Option.bind_some, Option.bind_some, mapM_insert]

/-! ## Lists of definitions -/

namespace DefinitionList

/-- The key of a list in a store of types. -/
def key : DefinitionList → String
  | attributeTypes => "attributeTypeDefs"
  | structuralTypes => "newTypeDefs"

/-- The number of a list among the fields of a store of types. -/
def number : DefinitionList → Nat
  | attributeTypes => 0
  | structuralTypes => 1

/-- The store with one more definition in a list that it has. -/
def insertIntoStore (n : Nat) : (l : DefinitionList) → ArchiveTypeStore → l.Entry → ArchiveTypeStore
  | attributeTypes, s, d =>
    { s with attributeTypeDefs := s.attributeTypeDefs.map fun ds => ds.insertIdx n d }
  | structuralTypes, s, d => { s with newTypeDefs := s.newTypeDefs.map fun ds => ds.insertIdx n d }

/-- The archive with one more definition in a list that it has. -/
def insertInto (n : Nat) (l : DefinitionList) (a : TypeArchive) (d : l.Entry) : TypeArchive :=
  { a with typeStore := a.typeStore.map fun s => l.insertIntoStore n s d }

end DefinitionList

/-! ## Archives with a definition left open -/

theorem Frame.fill_ne_null (F : Frame) (key : String) (j : Json) : F.fill key j ≠ .null := by
  cases F with
  | members | items => exact fun h => nomatch h

theorem ArchiveTypeStore.read_fill (l : DefinitionList) {F : Frame} (hF : F.LeavesOpen l.number)
    {p q : Place} (henter : p.enter = some q) {xs xs' : List Json} {n : Nat}
    {part : Option l.Entry}
    (h : l.codec.list.read q (.array xs') =
      amend (fun ds d => ds.insertIdx n d) (l.codec.list.read q (.array xs)) part) :
    codec.read p (F.fill l.key (.array xs')) =
      amend (l.insertIntoStore n) (codec.read p (F.fill l.key (.array xs))) part := by
  have hnull (xs : List Json) : Json.array xs ≠ .null := fun heq => nomatch heq
  have hnullable := Codec.read_nullable_amend (hnull xs) (hnull xs') h
  cases l with
  | attributeTypes =>
    exact record.read_fill_amend henter (Frame.readFields_amend_first hF (by decide) hnullable)
  | structuralTypes =>
    exact record.read_fill_amend henter (Frame.readFields_amend_rest hF (by decide)
      fun hF => Frame.readFields_amend_first hF (by decide) hnullable)

/-- The key of the store of types in an archive. -/
def TypeArchive.storeKey : String :=
  "archiveTypeStore"

theorem TypeArchive.read_fill (l : DefinitionList) {F G : Frame} (hF : F.LeavesOpen 1)
    (hG : G.LeavesOpen l.number) {p q q' : Place} (henter : p.enter = some q)
    (henter' : q.enter = some q') {xs xs' : List Json} {n : Nat} {part : Option l.Entry}
    (h : l.codec.list.read q' (.array xs') =
      amend (fun ds d => ds.insertIdx n d) (l.codec.list.read q' (.array xs)) part) :
    codec.read p (F.fill storeKey (G.fill l.key (.array xs'))) =
      amend (l.insertInto n) (codec.read p (F.fill storeKey (G.fill l.key (.array xs)))) part := by
  have hstore := Codec.read_nullable_amend (G.fill_ne_null _ _) (G.fill_ne_null _ _)
    (ArchiveTypeStore.read_fill l hG henter' h)
  exact record.read_fill_amend henter (Frame.readFields_amend_rest hF (by decide)
    fun hF => Frame.readFields_amend_first hF (by decide) hstore)

/-- What stands around one definition of a list in an archive: an archive and a store, each written
as an object or as an array, and the other definitions of the list. -/
structure Surroundings (l : DefinitionList) where
  archive : Frame
  store : Frame
  before : List Json
  after : List Json
  archive_leavesOpen : archive.LeavesOpen 1
  store_leavesOpen : store.LeavesOpen l.number

namespace Surroundings

variable {l : DefinitionList}

/-- The archive with some definitions in the open place. -/
def fill (S : Surroundings l) (xs : List Json) : Json :=
  S.archive.fill TypeArchive.storeKey (S.store.fill l.key (.array (S.before ++ xs ++ S.after)))

/-- The place of a definition in an archive: inside of the archive, the store and the list. -/
def place : Place :=
  ⟨Json.nestingLimit - 3, false⟩

/-- An archive is read as it is without a definition, with that definition where it stands. -/
theorem read_fill (S : Surroundings l) (x : Json) :
    TypeArchive.codec.read .top (S.fill [x]) =
      amend (l.insertInto S.before.length) (TypeArchive.codec.read .top (S.fill []))
        (l.codec.read place x) := by
  rw [fill, fill, List.append_nil, List.append_assoc, List.singleton_append]
  exact TypeArchive.read_fill l S.archive_leavesOpen S.store_leavesOpen rfl rfl
    (Codec.read_list_insert rfl S.before S.after x)

end Surroundings

end MetadataArchive
