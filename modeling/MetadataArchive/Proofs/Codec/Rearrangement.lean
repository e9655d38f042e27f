import MetadataArchive.Codec.Tagged
import MetadataArchive.Proofs.Codec.Record

/-!
# Rearranged objects

A record is read the same from objects that differ in the order of their members and in members that
are not its own, and so is everything that has records in it: what a value reads as, it reads as
again once such changes are made anywhere in it where a record is read.
-/

namespace MetadataArchive

/-- The field with a number is `f`. -/
inductive Fields.Has : {τ : Type} → Fields τ → Nat → {α : Type} → Field α → Prop where
  | first {α β : Type} (f : Field α) (fs : Fields β) : Has (cons f fs) 0 f
  | rest {α β γ : Type} (g : Field γ) {fs : Fields β} {n : Nat} {f : Field α} (h : Has fs n f) :
    Has (cons g fs) (n + 1) f

/-- Values that a codec reads where it finds records, with the members of objects in any order and
any others beside them: in the value itself, in the fields of a record, be it an object or an array,
in the items of a list, and in a value that may be missing. -/
inductive Rearranged : {α : Type} → Codec α → Json → Json → Prop where
  | refl {α : Type} (c : Codec α) (j : Json) : Rearranged c j j
  | symm {α : Type} {c : Codec α} {j j' : Json} (h : Rearranged c j j') : Rearranged c j' j
  | trans {α : Type} {c : Codec α} {j j' j'' : Json} (h : Rearranged c j j')
    (h' : Rearranged c j' j'') : Rearranged c j j''
  | order {σ : Type} (r : Record σ) {ms ms' : List Json.Member} (h : ms.Perm ms') :
    Rearranged r.codec (.object ms) (.object ms')
  | unknown {σ : Type} (r : Record σ) {key : String} (hkey : key ∉ r.fields.keys) (j : Json)
    (ms : List Json.Member) : Rearranged r.codec (.object ms) (.object ((some key, j) :: ms))
  | member {σ : Type} {r : Record σ} (hkeys : r.fields.keys.Nodup) {n : Nat} {α : Type}
    {f : Field α} (hf : r.fields.Has n f) {j j' : Json} (h : Rearranged f.codec j j')
    (ms : List Json.Member) :
    Rearranged r.codec (.object ((some f.key, j) :: ms)) (.object ((some f.key, j') :: ms))
  | place {σ : Type} {r : Record σ} {α : Type} {f : Field α} {before : List Json}
    (hf : r.fields.Has before.length f) {j j' : Json} (h : Rearranged f.codec j j')
    (after : List Json) :
    Rearranged r.codec (.array (before ++ j :: after)) (.array (before ++ j' :: after))
  | item {α : Type} {c : Codec α} {j j' : Json} (h : Rearranged c j j') (before after : List Json) :
    Rearranged c.list (.array (before ++ j :: after)) (.array (before ++ j' :: after))
  | present {α : Type} {c : Codec α} {j j' : Json} (h : Rearranged c j j') :
    Rearranged c.nullable j j'

/-! ## Reading the members -/

namespace Json

variable {key : String} {ms ms' : List Member}

theorem perm_valuesAt (h : ms.Perm ms') : (valuesAt key ms).Perm (valuesAt key ms') :=
  (h.filter _).map _

theorem valuesAt_cons_of_ne {m : Member} (h : m.1 ≠ some key) :
    valuesAt key (m :: ms) = valuesAt key ms := by
  rw [valuesAt, List.filter_cons_of_neg (by simpa using h)]
  rfl

theorem valuesAt_cons_self (key : String) (j : Json) (ms : List Member) :
    valuesAt key ((some key, j) :: ms) = j :: valuesAt key ms := by
  rw [valuesAt, List.filter_cons_of_pos (by simp)]
  rfl

theorem mem_valuesAt {j : Json} : j ∈ valuesAt key ms ↔ (some key, j) ∈ ms := by
  simp only [valuesAt, List.mem_map, List.mem_filter, beq_iff_eq]
  constructor
  · rintro ⟨⟨key', j'⟩, ⟨hmem, hkey⟩, rfl⟩
    cases hkey
    exact hmem
  · intro hmem
    exact ⟨_, ⟨hmem, rfl⟩, rfl⟩

end Json

theorem Field.readFrom_perm {α : Type} {f : Field α} {p : Place} {js js' : List Json}
    (h : js.Perm js') : f.readFrom p js = f.readFrom p js' := by
  match js with
  | [] => rw [h.symm.eq_nil]
  | [j] => rw [List.singleton_perm.1 h]
  | _ :: _ :: _ =>
    match js' with
    | [] => exact absurd h.eq_nil (List.cons_ne_nil _ _)
    | [_] => exact absurd (List.perm_singleton.1 h) (by simp)
    | _ :: _ :: _ => rfl

namespace Fields

variable {τ : Type} {fs : Fields τ} {p : Place}

theorem readMembers_perm {ms ms' : List Json.Member} (h : ms.Perm ms') :
    fs.readMembers p ms = fs.readMembers p ms' := by
  induction fs with
  | nil => rfl
  | cons f fs ih => rw [readMembers, readMembers, Field.readFrom_perm (Json.perm_valuesAt h), ih]

theorem readMembers_unknown {key : String} (hkey : key ∉ fs.keys) (j : Json)
    (ms : List Json.Member) : fs.readMembers p ((some key, j) :: ms) = fs.readMembers p ms := by
  refine readMembers_congr fun key' hkey' => Json.valuesAt_cons_of_ne ?_
  rintro ⟨rfl⟩
  exact hkey hkey'

theorem Has.key_mem {n : Nat} {α : Type} {f : Field α} (hf : fs.Has n f) : f.key ∈ fs.keys := by
  induction hf with
  | first f fs => exact List.mem_cons_self
  | rest g _ ih => exact List.mem_cons_of_mem _ ih

/-- Only what a member reads as counts for its field, and no other field looks at it. -/
theorem Has.readMembers_cons {n : Nat} {α : Type} {f : Field α} (hf : fs.Has n f)
    (hkeys : fs.keys.Nodup) {j j' : Json} (h : f.codec.read p j = f.codec.read p j')
    (ms : List Json.Member) :
    fs.readMembers p ((some f.key, j) :: ms) = fs.readMembers p ((some f.key, j') :: ms) := by
  induction hf with
  | first f fs =>
    have hread : f.readFrom p (j :: Json.valuesAt f.key ms) =
        f.readFrom p (j' :: Json.valuesAt f.key ms) := by
      cases Json.valuesAt f.key ms with
      | nil => exact h
      | cons _ _ => rfl
    have hfresh := (List.nodup_cons.1 hkeys).1
    rw [readMembers, readMembers, Json.valuesAt_cons_self, Json.valuesAt_cons_self, hread,
      readMembers_unknown hfresh, readMembers_unknown hfresh]
  | @rest _ _ _ g fs n f hf ih =>
    obtain ⟨hfresh, hkeys⟩ := List.nodup_cons.1 hkeys
    have hne : some f.key ≠ some g.key := by
      intro heq
      exact hfresh (Option.some.inj heq ▸ hf.key_mem)
    rw [readMembers, readMembers, Json.valuesAt_cons_of_ne hne, Json.valuesAt_cons_of_ne hne,
      ih hkeys h]

theorem Has.readItems_append {before : List Json} {α : Type} {f : Field α}
    (hf : fs.Has before.length f) {j j' : Json} (h : f.codec.read p j = f.codec.read p j')
    (after : List Json) :
    fs.readItems p (before ++ j :: after) = fs.readItems p (before ++ j' :: after) := by
  generalize hn : before.length = n at hf
  induction hf generalizing before with
  | first f fs =>
    rw [List.length_eq_zero_iff.1 hn]
    simp only [List.nil_append, readItems, h]
  | rest g _ ih =>
    obtain ⟨x, before, rfl⟩ := List.exists_cons_of_length_eq_add_one hn
    simp only [List.cons_append, readItems]
    rw [ih h (by simpa using hn)]

end Fields

/-! ## Reading what is rearranged -/

/-- Two objects that have texts for keys alike and the same fields are read the same. -/
theorem Record.read_object_congr {σ : Type} {r : Record σ} {ms ms' : List Json.Member}
    (hfields : ∀ q, r.fields.readMembers q ms = r.fields.readMembers q ms')
    (hkeys : (ms.all fun m => m.1.isSome) = ms'.all fun m => m.1.isSome) (p : Place) :
    r.read p (.object ms) = r.read p (.object ms') := by
  simp only [read, hkeys, hfields]

theorem Codec.read_nullable_of_ne {α : Type} {c : Codec α} {p : Place} {j : Json} (h : j ≠ .null) :
    c.nullable.read p j = (c.read p j).map some := by
  cases j with
  | null => exact absurd rfl h
  | _ => rfl

namespace Rearranged

variable {α : Type} {c : Codec α} {j j' : Json}

theorem eq_null_iff (h : Rearranged c j j') : j = .null ↔ j' = .null := by
  induction h with
  | refl => rfl
  | symm _ ih => exact ih.symm
  | trans _ _ ih ih' => exact ih.trans ih'
  | present _ ih => exact ih
  | order | unknown | member | place | item => simp

/-- Rearranging changes nothing about what is read. -/
theorem read_eq (h : Rearranged c j j') (p : Place) : c.read p j = c.read p j' := by
  induction h generalizing p with
  | refl => rfl
  | symm _ ih => exact (ih p).symm
  | trans _ _ ih ih' => exact (ih p).trans (ih' p)
  | order r hperm =>
    exact Record.read_object_congr (fun q => Fields.readMembers_perm hperm) hperm.all_eq p
  | unknown r hkey j ms =>
    exact Record.read_object_congr (fun q => (Fields.readMembers_unknown hkey j ms).symm) rfl p
  | member hkeys hf h ms ih =>
    -- the value is read a place further in, which the induction is generalized for
    exact Record.read_object_congr (fun q => hf.readMembers_cons hkeys (ih q) ms) rfl p
  | place hf h after ih =>
    show p.enter.bind _ = p.enter.bind _
    refine Option.bind_congr fun q _ => ?_
    rw [hf.readItems_append (ih q)]
  | item h before after ih =>
    show p.enter.bind _ = p.enter.bind _
    refine Option.bind_congr fun q _ => ?_
    rw [List.mapM_append, List.mapM_append, List.mapM_cons, List.mapM_cons, ih q]
  | @present _ _ j j' h ih =>
    -- null is a value that is missing, and nothing else can be rearranged to it
    by_cases hnull : j = .null
    · rw [hnull, h.eq_null_iff.1 hnull]
    · have hnull' : j' ≠ .null := fun heq => hnull (h.eq_null_iff.2 heq)
      rw [Codec.read_nullable_of_ne hnull, Codec.read_nullable_of_ne hnull', ih p]

end Rearranged

/-! ## Reading typed values -/

theorem Json.valuesAt_eq_singleton_iff {key : String} {ms ms' : List Member} (h : ms.Perm ms')
    {j : Json} : valuesAt key ms = [j] ↔ valuesAt key ms' = [j] := by
  constructor
  · intro hj
    exact List.perm_singleton.1 (hj ▸ (perm_valuesAt h).symm)
  · intro hj
    exact List.perm_singleton.1 (hj ▸ perm_valuesAt h)

/-- The type and the value may come in either order, with other members anywhere. -/
theorem Codec.readTyped_perm {α τ : Type} {type : Codec τ} {value : τ → Place → Json → Option α}
    {p : Place} {ms ms' : List Json.Member} (h : ms.Perm ms') :
    readTyped type value p (.object ms) = readTyped type value p (.object ms') := by
  simp only [readTyped, h.all_eq]
  refine Option.bind_congr fun q _ => ?_
  split
  · split
    · next t v htype hvalue =>
      rw [(Json.valuesAt_eq_singleton_iff h).1 htype, (Json.valuesAt_eq_singleton_iff h).1 hvalue]
    · next hnot =>
      split
      · next t v htype hvalue =>
        exact absurd ((Json.valuesAt_eq_singleton_iff h).2 hvalue)
          (hnot t v ((Json.valuesAt_eq_singleton_iff h).2 htype))
      · rfl
  · rfl

end MetadataArchive
