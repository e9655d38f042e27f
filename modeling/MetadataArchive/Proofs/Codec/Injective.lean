import MetadataArchive.Proofs.Codec.Grammar

/-!
# Values told apart by what is written

A codec separates its values if it writes no two of them alike and none as null. This does not take
reading: a double may be lost when its digits are read, but no two doubles have the same digits.
-/

namespace MetadataArchive

open Function (Injective)

/-- A value has one compact text, and the text has one value. -/
theorem Json.compact_injective : Injective compact := by
  intro v w h
  have hspells := parse_render .compact v
  rw [show v.render .compact = w.render .compact from h, parse_render] at hspells
  exact (Option.some.inj hspells).symm

/-- No two values are written alike, and none is written as null. -/
structure Codec.Separates {α : Type} (c : Codec α) : Prop where
  injective : Injective c.write
  write_ne_null : ∀ a, c.write a ≠ .null

namespace Codec

variable {α : Type} {c : Codec α}

theorem Separates.encode_injective (h : c.Separates) : Injective c.encode :=
  Json.compact_injective.comp h.injective

/-- What is read back differs if what was written does. -/
theorem Restores.separates (h : c.Restores Json.nestingLimit fun _ => True) : c.Separates where
  injective a b heq := by
    have ha : c.read .top (c.write a) = some a := (h.read_write (Nat.le_refl _)).2 trivial
    have hb : c.read .top (c.write b) = some b := (h.read_write (Nat.le_refl _)).2 trivial
    rw [heq, hb] at ha
    exact (Option.some.inj ha).symm
  write_ne_null := h.write_ne_null

/-- The digits of a double are nearest to no other. -/
theorem separates_binary64 : binary64.Separates where
  injective x y h := by
    have hdigits : x.toNumeral = y.toNumeral := Json.number.inj h
    have hnearest := Binary64.nearest_toNumeral x
    rw [hdigits, Binary64.nearest_toNumeral] at hnearest
    exact (Option.some.inj hnearest).symm
  write_ne_null _ h := nomatch h

theorem write_nullable_injective (h : c.Separates) : Injective c.nullable.write := by
  intro o o' heq
  match o, o' with
  | none, none => rfl
  | none, some a => exact absurd heq.symm (h.write_ne_null a)
  | some a, none => exact absurd heq (h.write_ne_null a)
  | some a, some b => exact congrArg some (h.injective heq)

theorem separates_list (h : c.Separates) : c.list.Separates where
  injective _ _ heq := List.map_injective_iff.2 h.injective (Json.array.inj heq)
  write_ne_null _ heq := nomatch heq

theorem separates_stringMap (h : c.Separates) : c.stringMap.Separates where
  injective m n heq := by
    have hentries : m.entries.map (fun e => (some e.1, c.write e.2)) =
        n.entries.map fun e => (some e.1, c.write e.2) := by
      have hmembers := Json.object.inj heq
      rwa [List.map_map, List.map_map] at hmembers
    refine StringMap.eq_of_entries_eq (List.map_injective_iff.2 (fun e e' he => ?_) hentries)
    obtain ⟨hkey, hvalue⟩ := Prod.mk.inj he
    exact Prod.ext (Option.some.inj hkey) (h.injective hvalue)
  write_ne_null _ heq := nomatch heq

end Codec

/-! ## Fields -/

/-- No two values of a field are written alike, be it that one of them is left out. -/
def Field.Separates {α : Type} (f : Field α) : Prop :=
  Injective fun a => (f.member a).map Prod.snd

namespace Field

variable {α : Type} {c : Codec α} {key : String}

/-- A field may leave out one value. -/
theorem separates_of_codec {f : Field α} (h : Injective f.codec.write)
    (homits : ∀ a b, f.omits a = true → f.omits b = true → a = b) : f.Separates := by
  intro a b heq
  simp only [member] at heq
  split at heq
  · next ha =>
    split at heq
    · next hb => exact homits a b ha hb
    · cases heq
  · split at heq
    · cases heq
    · exact h (List.cons.inj heq).1

theorem separates_required (h : c.Separates) : (required key c).Separates :=
  separates_of_codec h.injective fun _ _ h => nomatch h

theorem separates_defaulted {value : α} (h : c.Separates) : (defaulted key c value).Separates :=
  separates_of_codec h.injective fun _ _ h => nomatch h

theorem separates_optional (h : c.Separates) : (optional key c).Separates :=
  separates_of_codec (Codec.write_nullable_injective h) fun _ _ ho ho' => by
    rw [Option.isNone_iff_eq_none.1 ho, Option.isNone_iff_eq_none.1 ho']

theorem separates_listOrOmitted (h : c.Separates) : (listOrOmitted key c).Separates :=
  separates_of_codec (Codec.separates_list h).injective fun _ _ has hbs => by
    rw [List.isEmpty_iff.1 has, List.isEmpty_iff.1 hbs]

theorem separates_mapOrOmitted (h : c.Separates) : (mapOrOmitted key c).Separates :=
  separates_of_codec (Codec.separates_stringMap h).injective fun _ _ hm hn =>
    StringMap.eq_of_entries_eq (by rw [List.isEmpty_iff.1 hm, List.isEmpty_iff.1 hn])

end Field

/-! ## Records -/

theorem Fields.members_injective {τ : Type} {fs : Fields τ} (hkeys : fs.keys.Nodup)
    (h : fs.All Field.Separates) : Injective fs.members := by
  induction fs with
  | nil => exact fun _ _ _ => rfl
  | cons f fs ih =>
    intro t t' heq
    obtain ⟨hfresh, hkeys⟩ := List.nodup_cons.1 hkeys
    have hfirst : t.1 = t'.1 := by
      refine h.1 ?_
      show (f.member t.1).map Prod.snd = (f.member t'.1).map Prod.snd
      rw [← valuesAt_members_cons hfresh t.1 t.2, ← valuesAt_members_cons hfresh t'.1 t'.2]
      exact congrArg (Json.valuesAt f.key) heq
    have hrest : fs.members t.2 = fs.members t'.2 := by
      have happend : f.member t.1 ++ fs.members t.2 = f.member t'.1 ++ fs.members t'.2 := heq
      rw [hfirst] at happend
      exact List.append_cancel_left happend
    exact Prod.ext hfirst (ih hkeys h.2 hrest)

theorem Record.separates_codec {σ : Type} {r : Record σ} (hkeys : r.fields.keys.Nodup)
    (h : r.fields.All Field.Separates) : r.codec.Separates where
  injective s s' heq := by
    have hvalues : r.values s = r.values s' :=
      Fields.members_injective hkeys h (Json.object.inj heq)
    rw [← r.ofValues_values s, hvalues, r.ofValues_values]
  write_ne_null _ heq := nomatch heq

end MetadataArchive
