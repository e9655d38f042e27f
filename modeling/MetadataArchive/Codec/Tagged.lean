import MetadataArchive.Codec.Record

/-!
# Tagged values

Two ways to tell the variants of a type apart. A *categorized* value is a record with one more
member, the tag. A *typed* value is an object of two members, the type and the value. The first kind
is looked into as a whole before its fields are read, so everything in it, known or not, must be
readable.
-/

namespace MetadataArchive.Codec

variable {α : Type}

/-- A tag and what is left of a value without it: the member with the given key of an object, or the
first item of an array. -/
def splitTag (key : String) : Json → Option (String × Json)
  | .object ms =>
    match Json.valuesAt key ms with
    | [.string (some tag)] => some (tag, .object (ms.filter fun m => m.1 != some key))
    | _ => none
  | .array (.string (some tag) :: js) => some (tag, .array js)
  | _ => none

/-- The codec of a type whose variants are records with a tag in front: `read` reads the variant
with a tag, `write` gives a value's tag and members. -/
def categorized (key : String) (read : String → Place → Json → Option α)
    (write : α → String × List Json.Member) : Codec α where
  read p j :=
    if j.readable p.room then
      (splitTag key j).bind fun (tag, body) => read tag p.categorize body
    else
      none
  write a :=
    let (tag, ms) := write a
    .object ((some key, Json.text tag) :: ms)

/-- Reads a type and the value that goes with it: from an object that holds each once, beside
unknown members, or from an array of the two, in which only a string can be the type. -/
def readTyped {τ : Type} (type : Codec τ) (value : τ → Place → Json → Option α) (p : Place)
    (j : Json) : Option α := do
  let p ← p.enter
  match j with
  | .object ms =>
    if ms.all fun m => m.1.isSome then
      match Json.valuesAt "type" ms, Json.valuesAt "value" ms with
      | [t], [v] => (type.read p t).bind fun t => value t p v
      | _, _ => none
    else
      none
  | .array [.string t, v] => (type.read p (.string t)).bind fun t => value t p v
  | _ => none

/-- The object written for a value with its type. -/
def writeTyped {τ : Type} (type : Codec τ) (t : τ) (value : Json) : Json :=
  Json.ofMembers [("type", type.write t), ("value", value)]

end MetadataArchive.Codec
