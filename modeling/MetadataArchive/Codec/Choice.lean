import MetadataArchive.Codec.Basic

/-!
# Enumerations

A value of an enumeration is written as its name. It is read from the name, or from an object with
the name as its only key and nothing as the value: null, or inside a value with a category tag also
an empty object.
-/

namespace MetadataArchive.Codec

variable {α : Type}

/-- Whether a value stands for nothing beside the name of an enumeration's value. -/
def isNothing (p : Place) : Json → Bool
  | .null => true
  | .object [] => p.categorized
  | _ => false

/-- The codec of an enumeration with the given values and names. -/
def choice (values : List α) (name : α → String) : Codec α where
  read
    | _, .string (some s) => values.find? fun a => name a == s
    | p, .object [(some s, j)] =>
      if p.enter.isSome && isNothing p j then values.find? fun a => name a == s else none
    | _, _ => none
  write a := Json.text (name a)

end MetadataArchive.Codec
