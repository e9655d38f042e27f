import MetadataArchive.Proofs.Codec.Grammar
import MetadataArchive.Proofs.Codec.Rearrangement

/-!
# Records from field values in order

What spells the values of a record's fields one by one spells the record: as the array of them, as
that array without a tail of default values, and as the object that names them, in any order and
without any of the default values. An array that is too long or too short for the required fields
is not read. The fields of every record that is read can be spelled so.
-/

namespace MetadataArchive

/-! ## Spelling field values -/

namespace Fields

/-- JSON values that are read at a place as the values of the fields, one for each in order. -/
inductive Spells (p : Place) : {τ : Type} → Fields τ → τ → List Json → Prop where
  | nil : Spells p nil () []
  | cons {α β : Type} {f : Field α} {fs : Fields β} {a : α} {b : β} {j : Json} {js : List Json}
    (first : f.codec.read p j = some a) (rest : Spells p fs b js) :
    Spells p (cons f fs) (a, b) (j :: js)

/-- Whether the value of the field with a number is the one that stands for a missing member. -/
def IsDefault : {τ : Type} → Fields τ → τ → Nat → Prop
  | _, nil, (), _ => False
  | _, cons f _, (a, _), 0 => f.absent = some a
  | _, cons _ fs, (_, b), n + 1 => fs.IsDefault b n

/-- The members that name JSON values by the keys of the fields in order, those to be kept. -/
def named {τ : Type} (fs : Fields τ) (keep : String → Bool) (js : List Json) : List Json.Member :=
  ((fs.keys.zip js).filter fun e => keep e.1).map fun e => (some e.1, e.2)

variable {τ : Type} {fs : Fields τ} {p : Place} {t : τ} {js : List Json}

theorem fst_of_mem_named {keep : String → Bool} {m : Json.Member} (h : m ∈ fs.named keep js) :
    ∃ key ∈ fs.keys, m.1 = some key := by
  obtain ⟨e, he, rfl⟩ := List.mem_map.1 h
  exact ⟨e.1, (List.of_mem_zip (List.mem_of_mem_filter he)).1, rfl⟩

theorem snd_mem_of_mem_named {keep : String → Bool} {m : Json.Member}
    (h : m ∈ fs.named keep js) : m.2 ∈ js := by
  obtain ⟨e, he, rfl⟩ := List.mem_map.1 h
  exact (List.of_mem_zip (List.mem_of_mem_filter he)).2

section

variable {α β : Type} {f : Field α} {rest : Fields β} {keep : String → Bool} {j : Json}

theorem named_cons_of_keep (h : keep f.key = true) :
    (cons f rest).named keep (j :: js) = (some f.key, j) :: rest.named keep js := by
  simp [named, keys, h]

theorem named_cons_of_drop (h : keep f.key = false) :
    (cons f rest).named keep (j :: js) = rest.named keep js := by
  simp [named, keys, h]

end

/-! ## Arrays -/

theorem readItems_nil_of_isDefault (hlength : fs.keys.length = js.length)
    (h : ∀ i, i < js.length → fs.IsDefault t i) : fs.readItems p [] = some t := by
  induction fs generalizing js with
  | nil => rfl
  | cons f fs ih =>
    obtain ⟨j, js, rfl⟩ := List.exists_cons_of_length_eq_add_one hlength.symm
    have hfirst : f.absent = some t.1 := h 0 (Nat.zero_lt_succ _)
    have hrest : fs.readItems p [] = some t.2 :=
      ih (Nat.succ.inj hlength) fun i hi => h (i + 1) (Nat.succ_lt_succ hi)
    rw [readItems, hfirst, hrest]
    rfl

theorem Spells.length_eq (h : fs.Spells p t js) : fs.keys.length = js.length := by
  induction h with
  | nil => rfl
  | cons _ _ ih => exact congrArg Nat.succ ih

/-- Values that are read with none missing are those that spell the fields. -/
theorem spells_of_readItems (hlength : fs.keys.length = js.length)
    (h : fs.readItems p js = some t) : fs.Spells p t js := by
  induction fs generalizing js with
  | nil =>
    obtain rfl := List.length_eq_zero_iff.1 hlength.symm
    exact .nil
  | cons f fs ih =>
    obtain ⟨j, js, rfl⟩ := List.exists_cons_of_length_eq_add_one hlength.symm
    simp only [readItems, Option.bind_eq_bind, Option.bind_eq_some_iff, Option.pure_def,
      Option.some.injEq] at h
    obtain ⟨a, ha, b, hb, rfl⟩ := h
    exact .cons ha (ih (Nat.succ.inj hlength) hb)

/-- The values in order are read back, also without a tail of default values. -/
theorem Spells.readItems_take (h : fs.Spells p t js) {n : Nat}
    (hdefault : ∀ i, n ≤ i → i < js.length → fs.IsDefault t i) :
    fs.readItems p (js.take n) = some t := by
  induction h generalizing n with
  | nil =>
    rw [List.take_nil]
    rfl
  | cons first rest ih =>
    cases n with
    | zero =>
      exact readItems_nil_of_isDefault (Spells.cons first rest).length_eq
        fun i hi => hdefault i (Nat.zero_le i) hi
    | succ n =>
      have hrest := ih fun i hn hi => hdefault (i + 1) (Nat.succ_le_succ hn) (Nat.succ_lt_succ hi)
      rw [List.take_succ_cons, readItems, first, hrest]
      rfl

theorem readItems_eq_none_of_lt (h : fs.keys.length < js.length) :
    fs.readItems p js = none := by
  induction fs generalizing js with
  | nil =>
    cases js with
    | nil => nomatch h
    | cons j js => rfl
  | cons f fs ih =>
    cases js with
    | nil => nomatch h
    | cons j js =>
      rw [readItems, ih (Nat.lt_of_succ_lt_succ h)]
      cases f.codec.read p j <;> rfl

/-- A required field that has no item is not made up for. -/
theorem Follows.readItems_eq_none {grammar : List (String × Presence)} (h : fs.Follows grammar)
    {n : Nat} {key : String} (hrequired : grammar[n]? = some (key, .required))
    (hshort : js.length ≤ n) : fs.readItems p js = none := by
  induction h generalizing n js with
  | nil => simp at hrequired
  | @cons _ _ f fs presence grammar first rest ih =>
    cases js with
    | nil =>
      cases n with
      | zero =>
        cases hrequired
        rw [readItems, first.1]
        rfl
      | succ n =>
        have hrest : fs.readItems p [] = none := ih hrequired (Nat.zero_le n)
        rw [readItems, hrest]
        cases f.absent <;> rfl
    | cons j js =>
      cases n with
      | zero => exact absurd hshort (Nat.not_succ_le_zero _)
      | succ n =>
        rw [readItems, ih hrequired (Nat.le_of_succ_le_succ hshort)]
        cases f.codec.read p j <;> rfl

/-! ## Objects -/

/-- The values by their keys are read back, also without any that are default values. -/
theorem Spells.readMembers_named (h : fs.Spells p t js) (hkeys : fs.keys.Nodup)
    {keep : String → Bool}
    (hdefault : ∀ i key, fs.keys[i]? = some key → keep key = false → fs.IsDefault t i) :
    fs.readMembers p (fs.named keep js) = some t := by
  induction h with
  | nil => rfl
  | @cons _ _ f fs a b j js first rest ih =>
    obtain ⟨hfresh, hkeys⟩ := List.nodup_cons.1 hkeys
    have hrest := ih hkeys fun i key hkey hdrop => hdefault (i + 1) key hkey hdrop
    have hnone : Json.valuesAt f.key (fs.named keep js) = [] := by
      refine Json.valuesAt_of_forall_ne fun m hm heq => ?_
      obtain ⟨key, hkey, hm⟩ := fst_of_mem_named hm
      cases hm.symm.trans heq
      exact hfresh hkey
    cases hkeep : keep f.key with
    | true =>
      rw [named_cons_of_keep hkeep, readMembers, Json.valuesAt_cons_self, hnone,
        readMembers_unknown hfresh, hrest, Field.readFrom, first]
      rfl
    | false =>
      have habsent : f.absent = some a := hdefault 0 f.key rfl hkeep
      rw [named_cons_of_drop hkeep, readMembers, hnone, hrest, Field.readFrom, habsent]
      rfl

end Fields

/-! ## What is read can be spelled -/

/-- The value that stands for a missing member is spelled by some JSON value with a property. -/
def Field.AbsentSpelled {α : Type} (f : Field α) (p : Place) (P : Json → Prop) : Prop :=
  ∀ a, f.absent = some a → ∃ j, f.codec.read p j = some a ∧ P j

theorem Field.absentSpelled_required {α : Type} {f : Field α} {p : Place} {P : Json → Prop}
    (h : f.absent = none) : f.AbsentSpelled p P :=
  fun _ ha => nomatch h.symm.trans ha

theorem Field.absentSpelled_of_write {α : Type} {f : Field α} {p : Place} {P : Json → Prop} {a : α}
    (h : f.absent = some a) (hread : f.codec.read p (f.codec.write a) = some a)
    (hwrite : P (f.codec.write a)) : f.AbsentSpelled p P := by
  intro b hb
  cases h.symm.trans hb
  exact ⟨_, hread, hwrite⟩

theorem Field.exists_read_of_readFrom {α : Type} {f : Field α} {p : Place} {P : Json → Prop}
    (habsent : f.AbsentSpelled p P) {js : List Json} (hjs : ∀ j ∈ js, P j) {a : α}
    (h : f.readFrom p js = some a) : ∃ j, f.codec.read p j = some a ∧ P j := by
  match js with
  | [] => exact habsent a h
  | [j] => exact ⟨j, h, hjs j List.mem_cons_self⟩
  | _ :: _ :: _ => nomatch h

namespace Fields

variable {τ : Type} {fs : Fields τ} {p : Place} {P : Json → Prop} {t : τ}

theorem exists_spells_of_readMembers (habsent : fs.All fun f => f.AbsentSpelled p P)
    {ms : List Json.Member} (hms : ∀ m ∈ ms, P m.2) (h : fs.readMembers p ms = some t) :
    ∃ js, fs.Spells p t js ∧ ∀ j ∈ js, P j := by
  induction fs with
  | nil => exact ⟨[], .nil, fun _ hj => nomatch hj⟩
  | cons f fs ih =>
    simp only [readMembers, Option.bind_eq_bind, Option.bind_eq_some_iff, Option.pure_def,
      Option.some.injEq] at h
    obtain ⟨a, ha, b, hb, rfl⟩ := h
    obtain ⟨j, hj, hfirst⟩ := Field.exists_read_of_readFrom habsent.1
      (fun j hj => hms _ (Json.mem_valuesAt.1 hj)) ha
    obtain ⟨js, hjs, hrest⟩ := ih habsent.2 hb
    exact ⟨j :: js, .cons hj hjs, List.forall_mem_cons.2 ⟨hfirst, hrest⟩⟩

theorem exists_spells_of_readItems (habsent : fs.All fun f => f.AbsentSpelled p P)
    {xs : List Json} (hxs : ∀ x ∈ xs, P x) (h : fs.readItems p xs = some t) :
    ∃ js, fs.Spells p t js ∧ ∀ j ∈ js, P j := by
  induction fs generalizing xs with
  | nil => exact ⟨[], .nil, fun _ hj => nomatch hj⟩
  | cons f fs ih =>
    cases xs with
    | nil =>
      simp only [readItems, Option.bind_eq_bind, Option.bind_eq_some_iff, Option.pure_def,
        Option.some.injEq] at h
      obtain ⟨a, ha, b, hb, rfl⟩ := h
      obtain ⟨j, hj, hfirst⟩ := habsent.1 a ha
      obtain ⟨js, hjs, hrest⟩ := ih habsent.2 hxs hb
      exact ⟨j :: js, .cons hj hjs, List.forall_mem_cons.2 ⟨hfirst, hrest⟩⟩
    | cons x xs =>
      simp only [readItems, Option.bind_eq_bind, Option.bind_eq_some_iff, Option.pure_def,
        Option.some.injEq] at h
      obtain ⟨a, ha, b, hb, rfl⟩ := h
      obtain ⟨hfirst, hxs⟩ := List.forall_mem_cons.1 hxs
      obtain ⟨js, hjs, hrest⟩ := ih habsent.2 hxs hb
      exact ⟨x :: js, .cons ha hjs, List.forall_mem_cons.2 ⟨hfirst, hrest⟩⟩

end Fields

/-! ## Records -/

namespace Record

variable {σ : Type} {r : Record σ} {p q : Place} {v : σ} {js : List Json}

theorem read_take (henter : p.enter = some q) (h : r.fields.Spells q (r.values v) js) {n : Nat}
    (hdefault : ∀ i, n ≤ i → i < js.length → r.fields.IsDefault (r.values v) i) :
    r.read p (.array (js.take n)) = some v := by
  rw [read, henter, Option.bind_some, h.readItems_take hdefault, Option.map_some,
    r.ofValues_values]

theorem read_named (henter : p.enter = some q) (h : r.fields.Spells q (r.values v) js)
    (hkeys : r.fields.keys.Nodup) {keep : String → Bool}
    (hdefault : ∀ i key, r.fields.keys[i]? = some key → keep key = false →
      r.fields.IsDefault (r.values v) i)
    {ms : List Json.Member} (hms : ms.Perm (r.fields.named keep js)) :
    r.read p (.object ms) = some v := by
  refine (read_object_eq_some_iff henter).2 ⟨fun m hm => ?_, ?_⟩
  · obtain ⟨key, -, hkey⟩ := Fields.fst_of_mem_named (hms.mem_iff.1 hm)
    rw [hkey]
    exact Option.some_ne_none key
  · rw [Fields.readMembers_perm hms]
    exact h.readMembers_named hkeys hdefault

/-- The parts of a record that is read, and what its missing members stand for, spell its fields. -/
theorem exists_spells_of_read (henter : p.enter = some q) {P : Json → Prop}
    (habsent : r.fields.All fun f => f.AbsentSpelled q P) {j : Json}
    (hobject : ∀ ms, j = .object ms → ∀ m ∈ ms, P m.2)
    (harray : ∀ xs, j = .array xs → ∀ x ∈ xs, P x) (h : r.read p j = some v) :
    ∃ js, r.fields.Spells q (r.values v) js ∧ ∀ j ∈ js, P j := by
  cases j with
  | object ms =>
    obtain ⟨-, hms⟩ := (read_object_eq_some_iff henter).1 h
    exact Fields.exists_spells_of_readMembers habsent (hobject ms rfl) hms
  | array xs =>
    rw [read, henter, Option.bind_some, Option.map_eq_some_iff] at h
    obtain ⟨t, ht, rfl⟩ := h
    rw [r.values_ofValues]
    exact Fields.exists_spells_of_readItems habsent (harray xs rfl) ht
  | _ => cases h

theorem read_array_eq_none (h : ∀ q, r.fields.readItems q js = none) (p : Place) :
    r.read p (.array js) = none := by
  rw [read]
  cases p.enter with
  | none => rfl
  | some q => rw [Option.bind_some, h q, Option.map_none]

end Record

end MetadataArchive
