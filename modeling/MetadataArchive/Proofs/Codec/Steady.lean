import MetadataArchive.Proofs.Codec.Legible

/-!
# Values that are read wherever they stand

What a record without doubles, maps or tags is read from at one place, it is read from at every
place that has room for it, but for the enumerations that only a categorized place reads. How much
room that takes depends on the record alone.
-/

namespace MetadataArchive

/-- A place covers another for values of some depth if it has room for them and is categorized where
the other is. -/
structure Place.Covers (q p : Place) (depth : Nat) : Prop where
  room : depth ≤ q.room
  categorized : p.categorized = true → q.categorized = true

/-- What is read at some place is read as the same at every place that covers it. -/
def Codec.Steady {α : Type} (c : Codec α) (depth : Nat) : Prop :=
  ∀ ⦃p q : Place⦄ ⦃j : Json⦄ ⦃a : α⦄, q.Covers p depth → c.read p j = some a → c.read q j = some a

section Steady

variable {α : Type} {c : Codec α} {depth : Nat} {p q : Place}

/-- The places of the parts cover one another as the places of the wholes do. -/
theorem Place.Covers.enter (h : q.Covers p (depth + 1)) {p' : Place} (hp' : p.enter = some p') :
    ∃ q', q.enter = some q' ∧ q'.Covers p' depth := by
  obtain ⟨q', hq', hroom⟩ := exists_enter h.room
  refine ⟨q', hq', hroom, ?_⟩
  rw [(enter_eq_some_iff.1 hp').2, (enter_eq_some_iff.1 hq').2]
  exact h.categorized

theorem Field.readFrom_steady {f : Field α} (h : f.codec.Steady depth) (hq : q.Covers p depth)
    {js : List Json} {a : α} (hread : f.readFrom p js = some a) : f.readFrom q js = some a := by
  match js with
  | [] => exact hread
  | [j] => exact h hq hread
  | _ :: _ :: _ => nomatch hread

namespace Fields

variable {τ : Type} {fs : Fields τ}

theorem readMembers_steady (h : fs.All fun f => f.codec.Steady depth) (hq : q.Covers p depth)
    {ms : List Json.Member} {t : τ} (hread : fs.readMembers p ms = some t) :
    fs.readMembers q ms = some t := by
  induction fs with
  | nil => exact hread
  | cons f fs ih =>
    simp only [readMembers, Option.bind_eq_bind, Option.bind_eq_some_iff] at hread ⊢
    obtain ⟨a, ha, b, hb, ht⟩ := hread
    exact ⟨a, Field.readFrom_steady h.1 hq ha, b, ih h.2 hb, ht⟩

theorem readItems_steady (h : fs.All fun f => f.codec.Steady depth) (hq : q.Covers p depth)
    {xs : List Json} {t : τ} (hread : fs.readItems p xs = some t) :
    fs.readItems q xs = some t := by
  induction fs generalizing xs with
  | nil =>
    cases xs with
    | nil => exact hread
    | cons x xs => nomatch hread
  | cons f fs ih =>
    cases xs with
    | nil =>
      simp only [readItems, Option.bind_eq_bind, Option.bind_eq_some_iff] at hread ⊢
      obtain ⟨a, ha, b, hb, ht⟩ := hread
      exact ⟨a, ha, b, ih h.2 hb, ht⟩
    | cons x xs =>
      simp only [readItems, Option.bind_eq_bind, Option.bind_eq_some_iff] at hread ⊢
      obtain ⟨a, ha, b, hb, ht⟩ := hread
      exact ⟨a, h.1 hq ha, b, ih h.2 hb, ht⟩

end Fields

namespace Codec

theorem steady_string : string.Steady depth := by
  intro p q j a _ hread
  cases j with
  | string s => exact hread
  | _ => nomatch hread

theorem steady_bool : bool.Steady depth := by
  intro p q j a _ hread
  cases j with
  | bool b => exact hread
  | _ => nomatch hread

theorem steady_integer {α : Type} {least greatest : Int} {ofInt : Int → α} {toInt : α → Int} :
    (integer least greatest ofInt toInt).Steady depth :=
  fun _ _ _ _ _ hread => hread

theorem isNothing_of_covers (hq : q.Covers p depth) {j : Json} (h : isNothing p j = true) :
    isNothing q j = true := by
  match j with
  | .null => rfl
  | .object [] => exact hq.categorized h
  | .bool _ | .number _ | .string _ | .array _ | .object (_ :: _) => nomatch h

/-- A name alone needs no room, an object with the name for its key does. -/
theorem steady_choice {values : List α} {name : α → String} :
    (choice values name).Steady (depth + 1) := by
  intro p q j a hq hread
  simp only [choice] at hread ⊢
  split at hread
  · exact hread
  · obtain ⟨q', hq', -⟩ := Place.exists_enter hq.room
    split at hread
    · next hnothing =>
      rw [Bool.and_eq_true] at hnothing
      rw [hq', isNothing_of_covers hq hnothing.2]
      exact hread
    · nomatch hread
  · nomatch hread

theorem steady_nullable (h : c.Steady depth) : c.nullable.Steady depth := by
  intro p q j o hq hread
  by_cases hnull : j = .null
  · subst hnull
    exact hread
  · rw [read_nullable_of_ne hnull, Option.map_eq_some_iff] at hread ⊢
    obtain ⟨a, ha, ho⟩ := hread
    exact ⟨a, h hq ha, ho⟩

theorem steady_list (h : c.Steady depth) : c.list.Steady (depth + 1) := by
  intro p q j as hq hread
  cases j with
  | array xs =>
    obtain ⟨p', hp', hread⟩ := Option.bind_eq_some_iff.1 hread
    obtain ⟨q', henter, hq'⟩ := hq.enter hp'
    exact Option.bind_eq_some_iff.2 ⟨q', henter,
      mapM_eq_some_iff.2 ((mapM_eq_some_iff.1 hread).imp fun _ _ => h hq')⟩
  | _ => nomatch hread

end Codec

theorem Record.steady_codec {σ : Type} {r : Record σ}
    (h : r.fields.All fun f => f.codec.Steady depth) : r.codec.Steady (depth + 1) := by
  intro p q j s hq hread
  cases j with
  | object ms =>
    obtain ⟨p', hp', hread⟩ := Option.bind_eq_some_iff.1 hread
    obtain ⟨q', henter, hq'⟩ := hq.enter hp'
    refine Option.bind_eq_some_iff.2 ⟨q', henter, ?_⟩
    split at hread
    · next htext =>
      obtain ⟨t, ht, hs⟩ := Option.map_eq_some_iff.1 hread
      rw [if_pos htext, Fields.readMembers_steady h hq' ht, Option.map_some, hs]
    · nomatch hread
  | array xs =>
    obtain ⟨p', hp', hread⟩ := Option.bind_eq_some_iff.1 hread
    obtain ⟨q', henter, hq'⟩ := hq.enter hp'
    obtain ⟨t, ht, hs⟩ := Option.map_eq_some_iff.1 hread
    refine Option.bind_eq_some_iff.2 ⟨q', henter, ?_⟩
    rw [Fields.readItems_steady h hq' ht, Option.map_some, hs]
  | _ => nomatch hread

/-- Two places with the same tag around them and room enough read alike. -/
theorem Codec.Steady.read_eq (h : c.Steady depth) (hp : depth ≤ p.room) (hq : depth ≤ q.room)
    (hcategorized : p.categorized = q.categorized) (j : Json) : c.read p j = c.read q j :=
  Option.ext fun _ =>
    ⟨h ⟨hq, fun hp => hcategorized ▸ hp⟩, h ⟨hp, fun hq => hcategorized ▸ hq⟩⟩

end Steady

end MetadataArchive
