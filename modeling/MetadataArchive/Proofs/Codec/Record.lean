import MetadataArchive.Codec.Record
import MetadataArchive.Proofs.Codec.Basic

/-!
# What records restore

A record restores a value if each of its fields does. A field that writing leaves out is restored by
what stands for it when it is missing, so the two must agree; a field that is written is found again
because no other field has its key.
-/

namespace MetadataArchive

variable {α σ : Type} {depth : Nat}

/-! ## Values under a key -/

namespace Json

variable {key : String} {ms ms' : List Member}

theorem valuesAt_append : valuesAt key (ms ++ ms') = valuesAt key ms ++ valuesAt key ms' := by
  rw [valuesAt, List.filter_append, List.map_append]
  rfl

theorem valuesAt_of_forall_eq (h : ∀ m ∈ ms, m.1 = some key) :
    valuesAt key ms = ms.map Prod.snd := by
  rw [valuesAt, List.filter_eq_self.2 fun m hm => beq_iff_eq.2 (h m hm)]

theorem valuesAt_of_forall_ne (h : ∀ m ∈ ms, m.1 ≠ some key) : valuesAt key ms = [] := by
  rw [valuesAt, List.filter_eq_nil_iff.2 fun m hm => by simpa using h m hm, List.map_nil]

end Json

/-! ## One field -/

namespace Field

/-- What is written for a field, if anything is, is read back exactly for the values with `ok`. -/
structure Restores (f : Field α) (depth : Nat) (ok : α → Prop) : Prop where
  read_member : ∀ {p : Place} {a : α}, depth ≤ p.room →
    (f.readFrom p ((f.member a).map Prod.snd) = some a ↔ ok a)
  readable_member : ∀ {room : Nat} {a : α}, depth ≤ room → ok a →
    ∀ m ∈ f.member a, m.2.readable room = true

variable {c : Codec α} {key : String} {ok : α → Prop}

theorem fst_eq_of_mem_member {f : Field α} {a : α} {m : Json.Member} (h : m ∈ f.member a) :
    m.1 = some f.key := by
  unfold member at h
  split at h
  · nomatch h
  · rw [List.mem_singleton.1 h]

/-- A field is restored if leaving it out agrees with what it is when it is missing. -/
theorem restores_of_codec {f : Field α} (h : f.codec.Restores depth ok)
    (hagrees : ∀ a, f.omits a = true → f.absent = some a ∧ ok a) : f.Restores depth ok where
  read_member {p a} hroom := by
    cases homits : f.omits a with
    | true =>
      obtain ⟨habsent, hok⟩ := hagrees a homits
      rw [member, homits]
      exact iff_of_true habsent hok
    | false =>
      have hmember : f.member a = [(some f.key, f.codec.write a)] := by
        rw [member, homits]
        rfl
      rw [hmember]
      exact h.read_write hroom
  readable_member {room a} hroom hok m hm := by
    unfold member at hm
    split at hm
    · nomatch hm
    · rw [List.mem_singleton.1 hm]
      exact h.readable_write hroom hok

theorem restores_required (h : c.Restores depth ok) : (required key c).Restores depth ok :=
  restores_of_codec h fun _ h => nomatch h

theorem restores_defaulted {value : α} (h : c.Restores depth ok) :
    (defaulted key c value).Restores depth ok :=
  restores_of_codec h fun _ h => nomatch h

theorem restores_listOrOmitted (h : c.Restores depth ok) :
    (listOrOmitted key c).Restores (depth + 1) fun as => ∀ a ∈ as, ok a := by
  refine restores_of_codec (Codec.restores_list h) fun as homits => ?_
  cases List.isEmpty_iff.1 homits
  exact ⟨rfl, fun a ha => nomatch ha⟩

theorem restores_mapOrOmitted (h : c.Restores depth ok) :
    (mapOrOmitted key c).Restores (depth + 1) fun m => ∀ e ∈ m.toList, ok e.2 := by
  refine restores_of_codec (Codec.restores_stringMap h) fun m homits => ?_
  have hempty : m = .empty := StringMap.eq_of_entries_eq (List.isEmpty_iff.1 homits)
  subst hempty
  exact ⟨rfl, fun e he => nomatch he⟩

/-- A value is not written as null, so it is told from a missing one. -/
theorem restores_optional (h : c.Restores depth ok) :
    (optional key c).Restores depth fun o => ∀ a, o = some a → ok a where
  read_member {p o} hroom := by
    cases o with
    | none => exact iff_of_true rfl fun _ h => nomatch h
    | some a =>
      have hread : c.nullable.read p (c.write a) = (c.read p (c.write a)).map some := by
        simp only [Codec.nullable]
        split
        · next hnull => exact absurd hnull (h.write_ne_null a)
        · rfl
      show c.nullable.read p (c.write a) = some (some a) ↔ _
      rw [hread]
      simp [h.read_write hroom]
  readable_member {room o} hroom hok m hm := by
    cases o with
    | none => nomatch hm
    | some a =>
      rw [List.mem_singleton.1 hm]
      exact h.readable_write hroom (hok a rfl)

end Field

/-! ## All fields -/

namespace Fields

/-- Every field restores exactly the values with its condition; `ok` is all conditions together. -/
inductive Each (depth : Nat) : {τ : Type} → Fields τ → (τ → Prop) → Prop where
  | nil : Each depth nil fun _ => True
  | cons {α β : Type} {f : Field α} {fs : Fields β} {ok : α → Prop} {okRest : β → Prop}
      (first : f.Restores depth ok) (rest : Each depth fs okRest) :
      Each depth (cons f fs) fun t => ok t.1 ∧ okRest t.2

variable {τ : Type} {fs : Fields τ} {ok : τ → Prop}

theorem fst_of_mem_members {t : τ} {m : Json.Member} (h : m ∈ fs.members t) :
    ∃ key ∈ fs.keys, m.1 = some key := by
  induction fs with
  | nil => nomatch h
  | cons f fs ih =>
    obtain ⟨a, b⟩ := t
    rw [members] at h
    rcases List.mem_append.1 h with h | h
    · exact ⟨f.key, List.mem_cons_self, Field.fst_eq_of_mem_member h⟩
    · obtain ⟨key, hkey, hm⟩ := ih h
      exact ⟨key, List.mem_cons_of_mem _ hkey, hm⟩

theorem isSome_of_mem_members {t : τ} {m : Json.Member} (h : m ∈ fs.members t) :
    m.1.isSome = true := by
  obtain ⟨key, -, hm⟩ := fst_of_mem_members h
  rw [hm]
  rfl

theorem fst_ne_of_mem_members {key : String} (hkey : key ∉ fs.keys) {t : τ} {m : Json.Member}
    (h : m ∈ fs.members t) : m.1 ≠ some key := by
  obtain ⟨key', hkey', hm⟩ := fst_of_mem_members h
  rw [hm]
  rintro ⟨rfl⟩
  exact hkey hkey'

theorem readMembers_congr {p : Place} {ms ms' : List Json.Member}
    (h : ∀ key ∈ fs.keys, Json.valuesAt key ms = Json.valuesAt key ms') :
    fs.readMembers p ms = fs.readMembers p ms' := by
  induction fs with
  | nil => rfl
  | cons f fs ih =>
    rw [readMembers, readMembers, h f.key List.mem_cons_self,
      ih fun key hkey => h key (List.mem_cons_of_mem _ hkey)]

/-- Under the key of a field there is what is written for that field, and nothing else. -/
theorem valuesAt_members_cons {α β : Type} {f : Field α} {fs : Fields β} (hfresh : f.key ∉ fs.keys)
    (a : α) (b : β) :
    Json.valuesAt f.key ((cons f fs).members (a, b)) = (f.member a).map Prod.snd := by
  rw [members, Json.valuesAt_append, Json.valuesAt_of_forall_eq fun _ => Field.fst_eq_of_mem_member,
    Json.valuesAt_of_forall_ne fun _ => fst_ne_of_mem_members hfresh, List.append_nil]

theorem Each.read_members {p : Place} {t : τ} (h : Each depth fs ok) (hkeys : fs.keys.Nodup)
    (hroom : depth ≤ p.room) : fs.readMembers p (fs.members t) = some t ↔ ok t := by
  induction h with
  | nil => exact iff_of_true rfl trivial
  | @cons _ _ f fs okFirst okRest first _ ih =>
    obtain ⟨a, b⟩ := t
    obtain ⟨hfresh, hrest⟩ := List.nodup_cons.1 hkeys
    have hothers : fs.readMembers p (f.member a ++ fs.members b) =
        fs.readMembers p (fs.members b) := by
      refine readMembers_congr fun key hkey => ?_
      rw [Json.valuesAt_append, Json.valuesAt_of_forall_ne, List.nil_append]
      rintro m hm heq
      rw [Field.fst_eq_of_mem_member hm, Option.some_inj] at heq
      exact hfresh (heq ▸ hkey)
    show _ ↔ okFirst a ∧ okRest b
    rw [readMembers, valuesAt_members_cons hfresh, members, hothers, ← first.read_member hroom,
      ← ih hrest]
    simp only [Option.bind_eq_bind, Option.bind_eq_some_iff, Option.pure_def, Option.some.injEq,
      Prod.mk.injEq]
    constructor
    · rintro ⟨a', ha, b', hb, rfl, rfl⟩
      exact ⟨ha, hb⟩
    · rintro ⟨ha, hb⟩
      exact ⟨a, ha, b, hb, rfl, rfl⟩

theorem Each.readable_members {room : Nat} {t : τ} (h : Each depth fs ok) (hroom : depth ≤ room)
    (hok : ok t) : ∀ m ∈ fs.members t, m.2.readable room = true := by
  induction h with
  | nil => exact fun m hm => nomatch hm
  | cons first _ ih =>
    intro m hm
    rcases List.mem_append.1 hm with hm | hm
    · exact first.readable_member hroom hok.1 m hm
    · exact ih hok.2 m hm

end Fields

/-! ## Records -/

namespace Record

variable {r : Record σ} {ok : r.τ → Prop}

theorem values_eq_iff {s : σ} {t : r.τ} : r.ofValues t = s ↔ t = r.values s := by
  constructor
  · rintro rfl
    exact (r.values_ofValues t).symm
  · rintro rfl
    exact r.ofValues_values s

/-- A record restores a value if its fields do. -/
theorem restores_codec (hkeys : r.fields.keys.Nodup) (h : r.fields.Each depth ok) :
    r.codec.Restores (depth + 1) fun s => ok (r.values s) where
  read_write {p s} hroom := by
    obtain ⟨q, henter, hq⟩ := Place.exists_enter hroom
    have hall : ((r.members s).all fun m => m.1.isSome) = true :=
      List.all_eq_true.2 fun m hm => Fields.isSome_of_mem_members hm
    show (p.enter.bind fun q => if (r.members s).all fun m => m.1.isSome then
      (r.fields.readMembers q (r.members s)).map r.ofValues else none) = some s ↔ _
    rw [henter, Option.bind_some, if_pos hall, Option.map_eq_some_iff,
      ← h.read_members hkeys hq]
    simp only [values_eq_iff, exists_eq_right]
    rfl
  readable_write {room s} hroom hok := by
    obtain ⟨room, rfl⟩ : ∃ n, room = n + 1 := ⟨room - 1, by omega⟩
    refine Json.readable_object fun m hm => ⟨Fields.isSome_of_mem_members hm, ?_⟩
    exact h.readable_members (by omega) hok m hm
  write_ne_null _ h := nomatch h

/-- A record that restores every value reads it from its members. -/
theorem read_members (h : r.codec.Restores depth fun _ => True) {p : Place}
    (hroom : depth ≤ p.room) (s : σ) : r.read p (.object (r.members s)) = some s :=
  (h.read_write hroom).2 trivial

end Record

end MetadataArchive
