import MetadataArchive.Proofs.Codec.Record

/-!
# Which objects a record reads

A record reads an object exactly if each of its keys is there at most once, the keys of required
fields are there, and every value under a key reads as the field. All else in the object is passed
over, but its keys must have a text. Each field is then what its own member reads as, or what stands
for a missing member.
-/

namespace MetadataArchive

/-- Whether a field must be there, may be missing or null, or may be missing but not null. -/
inductive Presence where
  | required
  | optional
  | defaulted
deriving DecidableEq

/-- What the presence of a field says about a missing member and about null. -/
def Field.HasPresence {α : Type} (f : Field α) : Presence → Prop
  | .required => f.absent = none ∧ ∀ p, f.codec.read p .null = none
  | .optional => ∃ a, f.absent = some a ∧ ∀ p, f.codec.read p .null = some a
  | .defaulted => (∃ a, f.absent = some a) ∧ ∀ p, f.codec.read p .null = none

namespace Fields

/-- What is said of a field holds of every field. -/
def All (P : {α : Type} → Field α → Prop) {τ : Type} : Fields τ → Prop
  | nil => True
  | cons f fs => P f ∧ fs.All P

/-- What is said of a field and its value holds of every field. -/
def AllWith (P : {α : Type} → Field α → α → Prop) {τ : Type} : Fields τ → τ → Prop
  | nil, () => True
  | cons f fs, (a, b) => P f a ∧ fs.AllWith P b

/-- Fields with the keys and presences of a list, in the same order. -/
inductive Follows : {τ : Type} → Fields τ → List (String × Presence) → Prop where
  | nil : Follows nil []
  | cons {α β : Type} {f : Field α} {fs : Fields β} {presence : Presence}
    {grammar : List (String × Presence)} (first : f.HasPresence presence)
    (rest : Follows fs grammar) : Follows (cons f fs) ((f.key, presence) :: grammar)

/-- Members that are read at a place as fields with the keys and presences of a list: no key occurs
twice, no required one is missing, every value under a key reads as the field, and null is there for
optional fields only. -/
structure Accepts {τ : Type} (fs : Fields τ) (grammar : List (String × Presence)) (p : Place)
    (ms : List Json.Member) : Prop where
  once : ∀ entry ∈ grammar, (Json.valuesAt entry.1 ms).length ≤ 1
  present : ∀ key, (key, .required) ∈ grammar → Json.valuesAt key ms ≠ []
  reads : fs.All fun f => ∀ j ∈ Json.valuesAt f.key ms, ∃ a, f.codec.read p j = some a
  nulls : ∀ key presence, (key, presence) ∈ grammar → .null ∈ Json.valuesAt key ms →
    presence = .optional

end Fields

/-! ## One field -/

namespace Field

variable {α : Type} {f : Field α} {p : Place} {js : List Json}

theorem readFrom_eq_some_iff {a : α} : f.readFrom p js = some a ↔
    js.length ≤ 1 ∧ (js = [] → f.absent = some a) ∧ ∀ j ∈ js, f.codec.read p j = some a := by
  match js with
  | [] => simp [readFrom]
  | [j] => simp [readFrom]
  | _ :: _ :: _ => simp [readFrom]

theorem exists_readFrom_iff : (∃ a, f.readFrom p js = some a) ↔
    js.length ≤ 1 ∧ (f.absent = none → js ≠ []) ∧ ∀ j ∈ js, ∃ a, f.codec.read p j = some a := by
  match js with
  | [] => simp [readFrom, Option.ne_none_iff_exists']
  | [j] => simp [readFrom]
  | _ :: _ :: _ => simp [readFrom]

/-- Only required fields cannot be missing. -/
theorem HasPresence.absent_eq_none_iff {presence : Presence} (h : f.HasPresence presence) :
    f.absent = none ↔ presence = .required := by
  cases presence with
  | required => simp [h.1]
  | optional =>
    obtain ⟨a, habsent, -⟩ := h
    simp [habsent]
  | defaulted =>
    obtain ⟨⟨a, habsent⟩, -⟩ := h
    simp [habsent]

/-- Only optional fields can be null. -/
theorem HasPresence.eq_optional {presence : Presence} (h : f.HasPresence presence) {a : α}
    (hnull : f.codec.read p .null = some a) : presence = .optional := by
  cases presence with
  | required => simp [h.2] at hnull
  | optional => rfl
  | defaulted => simp [h.2] at hnull

end Field

/-! ## All fields -/

namespace Fields

variable {τ : Type} {fs : Fields τ} {grammar : List (String × Presence)} {p : Place}
  {ms : List Json.Member}

theorem All.nil {P : {α : Type} → Field α → Prop} : Fields.nil.All P :=
  trivial

theorem All.cons {α β : Type} {P : {α : Type} → Field α → Prop} {f : Field α} {fs : Fields β}
    (first : P f) (rest : fs.All P) : (Fields.cons f fs).All P :=
  ⟨first, rest⟩

theorem all_and {P Q : {α : Type} → Field α → Prop} :
    (fs.All fun f => P f ∧ Q f) ↔ fs.All P ∧ fs.All Q := by
  induction fs with
  | nil => simp [All]
  | cons f fs ih =>
    simp only [All, ih]
    exact and_and_and_comm

theorem AllWith.imp {P Q : {α : Type} → Field α → α → Prop}
    (hPQ : ∀ {α : Type} {f : Field α} {a : α}, P f a → Q f a) {t : τ} (h : fs.AllWith P t) :
    fs.AllWith Q t := by
  induction fs with
  | nil => trivial
  | cons f fs ih => exact ⟨hPQ h.1, ih h.2⟩

section

variable {α β : Type} {f : Field α} {rest : Fields β}

theorem Follows.required (habsent : f.absent = none) (hnull : ∀ p, f.codec.read p .null = none)
    (h : rest.Follows grammar) : (Fields.cons f rest).Follows ((f.key, .required) :: grammar) :=
  .cons ⟨habsent, hnull⟩ h

theorem Follows.optional {a : α} (habsent : f.absent = some a)
    (hnull : ∀ p, f.codec.read p .null = some a) (h : rest.Follows grammar) :
    (Fields.cons f rest).Follows ((f.key, .optional) :: grammar) :=
  .cons ⟨a, habsent, hnull⟩ h

theorem Follows.defaulted {a : α} (habsent : f.absent = some a)
    (hnull : ∀ p, f.codec.read p .null = none) (h : rest.Follows grammar) :
    (Fields.cons f rest).Follows ((f.key, .defaulted) :: grammar) :=
  .cons ⟨⟨a, habsent⟩, hnull⟩ h

end

/-- What the presence of a field decides is said of all fields by their keys and presences. -/
theorem Follows.all_iff (h : fs.Follows grammar) {P : {α : Type} → Field α → Prop}
    {Q : String × Presence → Prop}
    (hPQ : ∀ {α : Type} {f : Field α} {presence : Presence}, f.HasPresence presence →
      (P f ↔ Q (f.key, presence))) : fs.All P ↔ ∀ entry ∈ grammar, Q entry := by
  induction h with
  | nil => simp [All]
  | cons first _ ih => simp only [All, List.forall_mem_cons, hPQ first, ih]

theorem Follows.forall_of_all (h : fs.Follows grammar) {P : {α : Type} → Field α → Prop}
    {Q : String × Presence → Prop}
    (hPQ : ∀ {α : Type} {f : Field α} {presence : Presence}, f.HasPresence presence →
      P f → Q (f.key, presence)) (hall : fs.All P) : ∀ entry ∈ grammar, Q entry := by
  induction h with
  | nil => simp
  | cons first _ ih => exact List.forall_mem_cons.2 ⟨hPQ first hall.1, ih hall.2⟩

theorem readMembers_eq_some_iff {t : τ} : fs.readMembers p ms = some t ↔
    fs.AllWith (fun f a => f.readFrom p (Json.valuesAt f.key ms) = some a) t := by
  induction fs with
  | nil => simp [readMembers, AllWith]
  | cons f fs ih =>
    obtain ⟨a, b⟩ := t
    simp [readMembers, AllWith, ← ih, Option.bind_eq_some_iff]

theorem exists_readMembers_eq_some_iff : (∃ t, fs.readMembers p ms = some t) ↔
    fs.All fun f => ∃ a, f.readFrom p (Json.valuesAt f.key ms) = some a := by
  induction fs with
  | nil => simp [readMembers, All]
  | cons f fs ih =>
    rw [All, ← ih]
    simp [readMembers, Option.bind_eq_some_iff]

theorem Follows.exists_readMembers_iff (h : fs.Follows grammar) :
    (∃ t, fs.readMembers p ms = some t) ↔ fs.Accepts grammar p ms := by
  have honce : (fs.All fun f => (Json.valuesAt f.key ms).length ≤ 1) ↔
      ∀ entry ∈ grammar, (Json.valuesAt entry.1 ms).length ≤ 1 := h.all_iff fun _ => Iff.rfl
  have hpresent : (fs.All fun f => f.absent = none → Json.valuesAt f.key ms ≠ []) ↔
      ∀ entry ∈ grammar, entry.2 = .required → Json.valuesAt entry.1 ms ≠ [] :=
    h.all_iff fun hf => by rw [hf.absent_eq_none_iff]
  rw [exists_readMembers_eq_some_iff]
  simp only [Field.exists_readFrom_iff]
  rw [all_and, all_and, honce, hpresent]
  constructor
  · intro hall
    obtain ⟨honce, hpresent, hreads⟩ := hall
    constructor
    case once => exact honce
    case present => exact fun key hkey => hpresent _ hkey rfl
    case reads => exact hreads
    case nulls =>
      intro key presence hkey
      refine h.forall_of_all (Q := fun entry => .null ∈ Json.valuesAt entry.1 ms →
        entry.2 = .optional) (fun hf hreads hnull => ?_) hreads _ hkey
      -- null is read as the field, as every value under the key is
      obtain ⟨a, ha⟩ := hreads _ hnull
      exact hf.eq_optional ha
  · intro haccepts
    refine ⟨haccepts.once, fun entry hentry hrequired => ?_, haccepts.reads⟩
    obtain ⟨key, presence⟩ := entry
    cases hrequired
    exact haccepts.present key hentry

end Fields

/-! ## Records -/

namespace Record

variable {σ : Type} {r : Record σ} {grammar : List (String × Presence)} {p q : Place}
  {ms : List Json.Member}

theorem read_object (henter : p.enter = some q) : r.read p (.object ms) =
    if ms.all fun m => m.1.isSome then (r.fields.readMembers q ms).map r.ofValues else none := by
  rw [read, henter, Option.bind_some]

theorem read_object_eq_some_iff (henter : p.enter = some q) {s : σ} :
    r.read p (.object ms) = some s ↔
      (∀ m ∈ ms, m.1 ≠ none) ∧ r.fields.readMembers q ms = some (r.values s) := by
  have hall : (ms.all fun m => m.1.isSome) = true ↔ ∀ m ∈ ms, m.1 ≠ none := by
    simp [Option.isSome_iff_ne_none]
  rw [read_object henter, ← hall]
  split
  · next htext => simp [values_eq_iff, htext]
  · next htext => simp [htext]

/-- A record reads the objects that keep to its grammar and have texts for keys. -/
theorem exists_read_object_iff (h : r.fields.Follows grammar) (henter : p.enter = some q) :
    (∃ s, r.read p (.object ms) = some s) ↔
      (∀ m ∈ ms, m.1 ≠ none) ∧ r.fields.Accepts grammar q ms := by
  simp only [read_object_eq_some_iff henter, exists_and_left, ← h.exists_readMembers_iff]
  refine and_congr_right fun _ => ⟨fun hex => ?_, fun hex => ?_⟩
  · obtain ⟨s, hs⟩ := hex
    exact ⟨_, hs⟩
  · obtain ⟨t, ht⟩ := hex
    exact ⟨r.ofValues t, by rw [ht, r.values_ofValues]⟩

/-- Each field of a record that is read is what its own member reads as, or what stands for it when
there is none. -/
theorem values_of_read_object (henter : p.enter = some q) {s : σ}
    (h : r.read p (.object ms) = some s) : r.fields.AllWith
      (fun f a => (Json.valuesAt f.key ms = [] → f.absent = some a) ∧
        ∀ j ∈ Json.valuesAt f.key ms, f.codec.read q j = some a) (r.values s) := by
  have hmembers := ((read_object_eq_some_iff henter).1 h).2
  exact (Fields.readMembers_eq_some_iff.1 hmembers).imp fun hread =>
    (Field.readFrom_eq_some_iff.1 hread).2

end Record

end MetadataArchive
