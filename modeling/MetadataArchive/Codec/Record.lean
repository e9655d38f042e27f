import MetadataArchive.Codec.Basic

/-!
# Records

A record type is described by the list of its fields: their keys, their codecs, and what a field is
when its member is missing. Such a description reads records from objects, in any order of keys and
beside unknown members, reads them from arrays of the field values in order, and writes them as
objects.
-/

namespace MetadataArchive

/-- One field of a record. -/
structure Field (α : Type) where
  key : String
  codec : Codec α
  /-- The value of a field whose member is missing; `none` for a field that must be there. -/
  absent : Option α
  /-- Whether writing leaves the field out; it may only where `absent` puts the value back. -/
  omits : α → Bool

namespace Field

variable {α : Type}

/-- A field that must be there. -/
def required (key : String) (codec : Codec α) : Field α :=
  ⟨key, codec, none, fun _ => false⟩

/-- A field that is left out when it has no value. -/
def optional (key : String) (codec : Codec α) : Field (Option α) :=
  ⟨key, codec.nullable, some none, Option.isNone⟩

/-- A field that may be missing but is always written. -/
def defaulted (key : String) (codec : Codec α) (value : α) : Field α :=
  ⟨key, codec, some value, fun _ => false⟩

/-- A list that is left out when it is empty. -/
def listOrOmitted (key : String) (codec : Codec α) : Field (List α) :=
  ⟨key, codec.list, some [], List.isEmpty⟩

/-- A map that is left out when it is empty. -/
def mapOrOmitted (key : String) (codec : Codec α) : Field (StringMap α) :=
  ⟨key, codec.stringMap, some .empty, StringMap.isEmpty⟩

/-- Reads a field from the values that an object holds under its key: at most one. -/
def readFrom (f : Field α) (p : Place) : List Json → Option α
  | [] => f.absent
  | [j] => f.codec.read p j
  | _ => none

/-- The member of a field, unless it is left out. -/
def member (f : Field α) (a : α) : List Json.Member :=
  if f.omits a then [] else [(some f.key, f.codec.write a)]

end Field

/-- The fields of a record, in their order; the second type is that of their values together. -/
inductive Fields : Type → Type 1 where
  | nil : Fields Unit
  | cons {α β : Type} (first : Field α) (rest : Fields β) : Fields (α × β)

namespace Fields

/-- The keys of the fields. -/
def keys {τ : Type} : Fields τ → List String
  | nil => []
  | cons f fs => f.key :: fs.keys

/-- Reads the fields from the members of an object. -/
def readMembers {τ : Type} (p : Place) (ms : List Json.Member) : Fields τ → Option τ
  | nil => some ()
  | cons f fs => do
    let a ← f.readFrom p (Json.valuesAt f.key ms)
    let b ← fs.readMembers p ms
    return (a, b)

/-- Reads the fields from the items of an array: one for each, but for a tail of fields that may be
missing. -/
def readItems {τ : Type} (p : Place) : Fields τ → List Json → Option τ
  | nil, [] => some ()
  | nil, _ :: _ => none
  | cons f fs, [] => do
    let a ← f.absent
    let b ← fs.readItems p []
    return (a, b)
  | cons f fs, j :: js => do
    let a ← f.codec.read p j
    let b ← fs.readItems p js
    return (a, b)

/-- The members written for the fields. -/
def members {τ : Type} : Fields τ → τ → List Json.Member
  | nil, () => []
  | cons f fs, (a, b) => f.member a ++ fs.members b

end Fields

/-- A description of a record type by its fields. -/
structure Record (σ : Type) where
  {τ : Type}
  fields : Fields τ
  ofValues : τ → σ
  values : σ → τ
  ofValues_values : ∀ s, ofValues (values s) = s := by intros; rfl
  values_ofValues : ∀ t, values (ofValues t) = t := by intros; rfl

namespace Record

variable {σ : Type}

/-- Reads a record. The keys of an object must have a text even where they are unknown. -/
def read (r : Record σ) (p : Place) : Json → Option σ
  | .object ms => p.enter.bind fun p =>
    if ms.all fun m => m.1.isSome then (r.fields.readMembers p ms).map r.ofValues else none
  | .array js => p.enter.bind fun p => (r.fields.readItems p js).map r.ofValues
  | _ => none

/-- The members written for a record. -/
def members (r : Record σ) (s : σ) : List Json.Member :=
  r.fields.members (r.values s)

/-- The codec of a record type. -/
def codec (r : Record σ) : Codec σ where
  read := r.read
  write s := .object (r.members s)

end Record

end MetadataArchive
