import MetadataArchive.Binary64.Reading

/-!
# What can be looked into

A reader that skips a value asks no more of it than the grammar does. One that looks into every part
of it needs more: text for each string and key, a double near each number, and a limit to nesting.
-/

namespace MetadataArchive.Json

/-- How many arrays and objects may be nested in a value that is looked into. -/
def nestingLimit : Nat :=
  127

mutual

/-- Whether every part of a value can be looked into, with at most `room` containers nested. -/
def readable (room : Nat) : Json → Bool
  | .null => true
  | .bool _ => true
  | .number n => (Binary64.ofNumeral n).isSome
  | .string s => s.isSome
  | .array xs => 0 < room && readableItems (room - 1) xs
  | .object ms => 0 < room && readableMembers (room - 1) ms

/-- Whether every item can be looked into. -/
def readableItems (room : Nat) : List Json → Bool
  | [] => true
  | x :: xs => readable room x && readableItems room xs

/-- Whether every key and value can be looked into. -/
def readableMembers (room : Nat) : List Member → Bool
  | [] => true
  | (key, x) :: ms => key.isSome && readable room x && readableMembers room ms

end

end MetadataArchive.Json
