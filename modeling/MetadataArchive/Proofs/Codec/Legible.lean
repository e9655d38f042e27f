import MetadataArchive.Proofs.Codec.Grammar
import MetadataArchive.Proofs.Codec.Rearrangement
import MetadataArchive.Proofs.Codec.Tagged

/-!
# Values that can be categorized

The variant of a categorized value is read after the whole value was looked into, and at a place of
its own. This makes no difference for legible values: those in which all that is passed over can be
looked into, and which name enumerations by strings. They are read with a tag put in anywhere as
they are read without one.
-/

namespace MetadataArchive

/-! ## Places -/

namespace Place

variable {p q : Place}

theorem enter_eq_some_iff :
    p.enter = some q ↔ p.room = q.room + 1 ∧ q.categorized = p.categorized := by
  obtain ⟨room, categorized⟩ := p
  obtain ⟨room', categorized'⟩ := q
  simp only [enter]
  split
  · next hpos =>
    simp only [Option.some.injEq, Place.mk.injEq]
    constructor
    · rintro ⟨hroom, hcategorized⟩
      exact ⟨by omega, hcategorized.symm⟩
    · rintro ⟨hroom, hcategorized⟩
      exact ⟨by omega, hcategorized.symm⟩
  · next hzero =>
    simp only [reduceCtorEq, false_iff, not_and]
    intro hroom
    omega

theorem enter_categorize (p : Place) : p.categorize.enter = p.enter.map categorize := by
  by_cases h : 0 < p.room
  · simp [enter, categorize, h]
  · simp [enter, categorize, h]

end Place

/-! ## Fields and their numbers -/

namespace Fields

variable {τ : Type} {fs : Fields τ} {p q : Place}

/-- What is said of all fields is said of each by its number. -/
theorem all_iff_forall_has {P : {α : Type} → Field α → Prop} :
    fs.All P ↔ ∀ {n : Nat} {α : Type} {f : Field α}, fs.Has n f → P f := by
  constructor
  · intro hall n α f hf
    induction hf with
    | first f fs => exact hall.1
    | rest _ _ ih => exact ih hall.2
  · intro h
    induction fs with
    | nil => trivial
    | cons f fs ih => exact ⟨h (.first f fs), ih fun hg => h (.rest f hg)⟩

/-- The key of a field is a key. -/
theorem exists_has_of_mem_keys {key : String} (h : key ∈ fs.keys) :
    ∃ (n : Nat) (α : Type) (f : Field α), fs.Has n f ∧ f.key = key := by
  induction fs with
  | nil => nomatch h
  | cons f fs ih =>
    rcases List.mem_cons.1 h with rfl | h
    · exact ⟨0, _, f, .first f fs, rfl⟩
    · obtain ⟨n, α, g, hg, hkey⟩ := ih h
      exact ⟨n + 1, α, g, .rest f hg, hkey⟩

end Fields

/-! ## Legible values -/

/-- Values in which all that a codec passes over can be looked into, with at most `room` containers
nested, and which name enumerations by strings. Whether the values of fields can be read is left
open. -/
inductive Legible : {α : Type} → Codec α → Nat → Json → Prop where
  | string (room : Nat) (j : Json) : Legible .string room j
  | bool (room : Nat) (j : Json) : Legible .bool room j
  | uint64 (room : Nat) (j : Json) : Legible .uint64 room j
  | uint32 (room : Nat) (j : Json) : Legible .uint32 room j
  | choice {α : Type} (values : List α) (name : α → String) (room : Nat) (s : Option String) :
    Legible (.choice values name) room (.string s)
  | nullable {α : Type} {c : Codec α} {room : Nat} {j : Json} (h : j ≠ .null → Legible c room j) :
    Legible c.nullable room j
  | list {α : Type} {c : Codec α} {room : Nat} {j : Json}
    (items : ∀ xs, j = .array xs → ∀ x ∈ xs, Legible c (room - 1) x) : Legible c.list room j
  | record {σ : Type} {r : Record σ} {room : Nat} {j : Json}
    (members : ∀ ms, j = .object ms → ∀ (n : Nat) (α : Type) (f : Field α), r.fields.Has n f →
      ∀ x ∈ Json.valuesAt f.key ms, Legible f.codec (room - 1) x)
    (others : ∀ ms, j = .object ms → ∀ m ∈ ms, (∀ key ∈ r.fields.keys, m.1 ≠ some key) →
      m.2.readable (room - 1) = true)
    (items : ∀ xs, j = .array xs → ∀ (n : Nat) (α : Type) (f : Field α), r.fields.Has n f →
      ∀ x, xs[n]? = some x → Legible f.codec (room - 1) x) :
    Legible r.codec room j

theorem Legible.object {σ : Type} {r : Record σ} {room : Nat} {ms : List Json.Member}
    (members : r.fields.All fun f => ∀ x ∈ Json.valuesAt f.key ms, Legible f.codec room x)
    (others : ∀ m ∈ ms, (∀ key ∈ r.fields.keys, m.1 ≠ some key) → m.2.readable room = true) :
    Legible r.codec (room + 1) (.object ms) := by
  refine .record ?_ ?_ fun xs heq => nomatch heq
  · intro ms' heq n α f hf
    cases heq
    exact Fields.all_iff_forall_has.1 members hf
  · intro ms' heq
    cases heq
    exact others

/-! ## The same value at a categorized place -/

theorem Codec.mapM_congr {α β : Type} {f g : α → Option β} {xs : List α}
    (h : ∀ x ∈ xs, f x = g x) : xs.mapM f = xs.mapM g := by
  induction xs with
  | nil => rfl
  | cons x xs ih =>
    rw [List.mapM_cons, List.mapM_cons, h x List.mem_cons_self,
      ih fun y hy => h y (List.mem_cons_of_mem _ hy)]

theorem Codec.exists_of_mapM_eq_some {α β : Type} {f : α → Option β} {xs : List α} {ys : List β}
    (h : xs.mapM f = some ys) : ∀ x ∈ xs, ∃ y, f x = some y := by
  have hparts := mapM_eq_some_iff.1 h
  clear h
  induction hparts with
  | nil => exact fun _ hx => nomatch hx
  | cons hfirst _ ih => exact List.forall_mem_cons.2 ⟨⟨_, hfirst⟩, ih⟩

theorem Field.readFrom_congr {α : Type} {f : Field α} {p q : Place} {js : List Json}
    (h : ∀ j ∈ js, f.codec.read p j = f.codec.read q j) : f.readFrom p js = f.readFrom q js := by
  match js with
  | [] => rfl
  | [j] => exact h j List.mem_cons_self
  | _ :: _ :: _ => rfl

namespace Fields

variable {τ : Type} {fs : Fields τ} {p q : Place}

theorem readMembers_congr_place {ms : List Json.Member}
    (h : ∀ (n : Nat) (α : Type) (f : Field α), fs.Has n f → ∀ x ∈ Json.valuesAt f.key ms,
      f.codec.read p x = f.codec.read q x) : fs.readMembers p ms = fs.readMembers q ms := by
  induction fs with
  | nil => rfl
  | cons f fs ih =>
    rw [readMembers, readMembers, Field.readFrom_congr (h _ _ _ (.first f fs)),
      ih fun n α g hg => h _ _ _ (.rest f hg)]

theorem readItems_congr_place {xs : List Json}
    (h : ∀ (n : Nat) (α : Type) (f : Field α), fs.Has n f → ∀ x, xs[n]? = some x →
      f.codec.read p x = f.codec.read q x) : fs.readItems p xs = fs.readItems q xs := by
  induction fs generalizing xs with
  | nil => cases xs <;> rfl
  | cons f fs ih =>
    cases xs with
    | nil => rw [readItems, readItems, ih fun _ _ _ _ _ hx => absurd hx (by simp)]
    | cons x xs =>
      rw [readItems, readItems, h _ _ _ (.first f fs) x rfl,
        ih fun n α g hg y hy => h _ _ _ (.rest f hg) y hy]

end Fields

/-- Where a legible value stands in a categorized one, it is read as it is by itself. -/
theorem Legible.read_categorize {α : Type} {c : Codec α} {room : Nat} {j : Json}
    (h : Legible c room j) (p : Place) : c.read p.categorize j = c.read p j := by
  induction h generalizing p with
  | string | bool => cases ‹Json› <;> rfl
  | uint64 | uint32 => rfl
  | choice values name room s => cases s <;> rfl
  | @nullable α c room j h ih =>
    by_cases hnull : j = .null
    · rw [hnull]
      rfl
    · rw [Codec.read_nullable_of_ne hnull, Codec.read_nullable_of_ne hnull, ih hnull]
  | @list α c room j items ih =>
    cases j with
    | array xs =>
      show p.categorize.enter.bind _ = p.enter.bind _
      rw [Place.enter_categorize, Option.bind_map]
      refine Option.bind_congr fun q _ => Codec.mapM_congr fun x hx => ?_
      exact ih xs rfl x hx q
    | _ => rfl
  | @record σ r room j members others items ihMembers ihItems =>
    cases j with
    | object ms =>
      show p.categorize.enter.bind _ = p.enter.bind _
      rw [Place.enter_categorize, Option.bind_map]
      refine Option.bind_congr fun q _ => ?_
      rw [Function.comp_apply, Fields.readMembers_congr_place fun n α f hf x hx =>
        ihMembers ms rfl n α f hf x hx q]
    | array xs =>
      show p.categorize.enter.bind _ = p.enter.bind _
      rw [Place.enter_categorize, Option.bind_map]
      refine Option.bind_congr fun q _ => ?_
      rw [Function.comp_apply, Fields.readItems_congr_place fun n α f hf x hx =>
        ihItems xs rfl n α f hf x hx q]
    | _ => rfl

/-! ## What is read can be looked into -/

theorem Numeral.eq_ofInt_of_toInt? {n : Numeral} {i : Int} (h : n.toInt? = some i) :
    n = ofInt i := by
  obtain ⟨negative, mantissa, places, exponent⟩ := n
  rw [toInt?] at h
  split at h
  · next hplain =>
    obtain ⟨rfl, rfl, hzero⟩ := hplain
    cases h
    cases negative with
    | false => simp [ofInt]
    | true =>
      have hpos : 0 < mantissa := Nat.pos_of_ne_zero fun hm => hzero ⟨rfl, hm⟩
      simp [ofInt, hpos]
  · cases h

theorem Json.readable_of_readInt? {j : Json} {i : Int} {room : Nat}
    (h : Codec.readInt? j = some i) (hbound : i.natAbs < Binary64.significandBound) :
    j.readable room = true := by
  cases j with
  | number n =>
    rw [Numeral.eq_ofInt_of_toInt? h]
    exact readable_int hbound
  | _ => nomatch h

/-- An integer that is read can be looked into if the bounds are not too large for that. -/
theorem Codec.readable_of_read_integer {α : Type} {least greatest : Int} {ofInt : Int → α}
    {toInt : α → Int} (hleast : -(Binary64.significandBound : Int) < least)
    (hgreatest : greatest < Binary64.significandBound) {p : Place} {j : Json} {a : α} {room : Nat}
    (h : (integer least greatest ofInt toInt).read p j = some a) : j.readable room = true := by
  obtain ⟨i, hi, hread⟩ := Option.bind_eq_some_iff.1 h
  split at hread
  · next hfits =>
    obtain ⟨hle, hge⟩ := hfits
    exact Json.readable_of_readInt? hi (by omega)
  · nomatch hread

namespace Fields

variable {τ : Type} {fs : Fields τ} {p : Place}

theorem Has.exists_read_of_readMembers {n : Nat} {α : Type} {f : Field α} (hf : fs.Has n f)
    {ms : List Json.Member} {t : τ} (h : fs.readMembers p ms = some t) {x : Json}
    (hx : x ∈ Json.valuesAt f.key ms) : ∃ a, f.codec.read p x = some a := by
  have hall := all_iff_forall_has.1 (exists_readMembers_eq_some_iff.1 ⟨t, h⟩) hf
  exact (Field.exists_readFrom_iff.1 hall).2.2 x hx

theorem exists_read_of_readItems {xs : List Json} {t : τ} (h : fs.readItems p xs = some t) :
    ∀ n x, xs[n]? = some x → ∃ (α : Type) (f : Field α) (a : α), fs.Has n f ∧
      f.codec.read p x = some a := by
  induction fs generalizing xs with
  | nil =>
    cases xs with
    | nil => simp
    | cons x xs => nomatch h
  | cons f fs ih =>
    cases xs with
    | nil => simp
    | cons y xs =>
      simp only [readItems, Option.bind_eq_bind, Option.bind_eq_some_iff] at h
      obtain ⟨a, ha, b, hb, -⟩ := h
      intro n x hx
      cases n with
      | zero =>
        cases hx
        exact ⟨_, f, a, .first f fs, ha⟩
      | succ n =>
        obtain ⟨α, g, a, hg, ha⟩ := ih hb n x hx
        exact ⟨α, g, a, .rest f hg, ha⟩

end Fields

/-- A legible value that is read can be looked into. -/
theorem Legible.readable_of_read {α : Type} {c : Codec α} {room : Nat} {j : Json}
    (h : Legible c room j) {p : Place} (hroom : p.room = room) {a : α}
    (hread : c.read p j = some a) : j.readable room = true := by
  induction h generalizing p with
  | string room j =>
    cases j with
    | string s =>
      cases s with
      | none => nomatch hread
      | some s => exact Json.readable_text s
    | _ => nomatch hread
  | bool room j =>
    cases j with
    | bool b => rfl
    | _ => nomatch hread
  | uint64 room j | uint32 room j =>
    exact Codec.readable_of_read_integer (by decide) (by decide) hread
  | choice values name room s =>
    cases s with
    | none => nomatch hread
    | some s => exact Json.readable_text s
  | @nullable α c room j h ih =>
    by_cases hnull : j = .null
    · rw [hnull]
      rfl
    · rw [Codec.read_nullable_of_ne hnull] at hread
      obtain ⟨b, hb, -⟩ := Option.map_eq_some_iff.1 hread
      exact ih hnull hroom hb
  | @list α c room j items ih =>
    cases j with
    | array xs =>
      obtain ⟨q, henter, hread⟩ := Option.bind_eq_some_iff.1 hread
      obtain ⟨hq, -⟩ := Place.enter_eq_some_iff.1 henter
      obtain rfl : room = q.room + 1 := hroom.symm.trans hq
      refine Json.readable_array fun x hx => ?_
      obtain ⟨b, hb⟩ := Codec.exists_of_mapM_eq_some hread x hx
      exact ih xs rfl x hx rfl hb
    | _ => nomatch hread
  | @record σ r room j members others items ihMembers ihItems =>
    cases j with
    | object ms =>
      obtain ⟨q, henter, hread⟩ := Option.bind_eq_some_iff.1 hread
      obtain ⟨hq, -⟩ := Place.enter_eq_some_iff.1 henter
      obtain rfl : room = q.room + 1 := hroom.symm.trans hq
      split at hread
      · next htext =>
        obtain ⟨t, ht, -⟩ := Option.map_eq_some_iff.1 hread
        refine Json.readable_object fun m hm => ⟨List.all_eq_true.1 htext m hm, ?_⟩
        obtain ⟨key, x⟩ := m
        by_cases hother : ∀ key' ∈ r.fields.keys, key ≠ some key'
        · exact others ms rfl _ hm hother
        · -- the member is one of the record, and its value is read as the field
          push Not at hother
          obtain ⟨key', hkey', rfl⟩ := hother
          obtain ⟨n, α, f, hf, rfl⟩ := Fields.exists_has_of_mem_keys hkey'
          have hx := Json.mem_valuesAt.2 hm
          obtain ⟨b, hb⟩ := hf.exists_read_of_readMembers ht hx
          exact ihMembers ms rfl n α f hf x hx rfl hb
      · nomatch hread
    | array xs =>
      obtain ⟨q, henter, hread⟩ := Option.bind_eq_some_iff.1 hread
      obtain ⟨hq, -⟩ := Place.enter_eq_some_iff.1 henter
      obtain rfl : room = q.room + 1 := hroom.symm.trans hq
      obtain ⟨t, ht, -⟩ := Option.map_eq_some_iff.1 hread
      refine Json.readable_array fun x hx => ?_
      obtain ⟨n, hn⟩ := List.getElem?_of_mem hx
      obtain ⟨α, f, b, hf, hb⟩ := Fields.exists_read_of_readItems ht n x hn
      exact ihItems xs rfl n α f hf x hn rfl hb
    | _ => nomatch hread

/-! ## Values with a tag put in -/

namespace Codec

variable {α σ : Type} {key : String} {read : String → Place → Json → Option α}
  {write : α → String × List Json.Member} {p : Place}

/-- With the tag of a variant put in, an object is read as the variant is read from it. -/
theorem read_categorized_insert {c : Codec σ} {variant : σ → α} {tag : String}
    (hread : ∀ q j, read tag q j = (c.read q j).map variant) {before after : List Json.Member}
    (hkey : ∀ m ∈ before ++ after, m.1 ≠ some key)
    (h : Legible c p.room (.object (before ++ after))) :
    (categorized key read write).read p
      (.object (before ++ (some key, Json.text tag) :: after)) =
        (c.read p (.object (before ++ after))).map variant := by
  rw [read_categorized_insertTag tag hkey, hread, h.read_categorize]
  split
  · rfl
  · next hnot =>
    -- what cannot be looked into is not read without the tag either
    cases hvalue : c.read p (.object (before ++ after)) with
    | none => rfl
    | some a => exact absurd (h.readable_of_read rfl hvalue) hnot

/-- An object that does not hold exactly one tag, a string and of a variant, is not read. -/
theorem read_categorized_of_forall_ne {tags : List String}
    (hread : ∀ tag, tag ∉ tags → ∀ q j, read tag q j = none) {ms : List Json.Member}
    (h : ∀ tag ∈ tags, Json.valuesAt key ms ≠ [Json.text tag]) :
    (categorized key read write).read p (.object ms) = none := by
  simp only [categorized, splitTag]
  split
  · split
    · next tag htag =>
      have hnot : tag ∉ tags := fun hmem => h tag hmem htag
      rw [Option.bind_some]
      exact hread tag hnot _ _
    · rfl
  · rfl

end Codec

end MetadataArchive
