import MetadataArchive.Binary64.Shortest
import MetadataArchive.Collection.StringMap
import MetadataArchive.Json.Readable
import MetadataArchive.Json.Reader
import MetadataArchive.Json.Writer
import MetadataArchive.Time.Spelling

/-!
# Codecs

A `Codec` says how values of a type are written as JSON and which JSON reads as which value. Reading
depends on where the value stands: on how many more containers may be nested there, and on whether
it stands inside a value with a category tag. Here are the codecs of the basic types; records,
enumerations and tagged values have modules of their own.
-/

namespace MetadataArchive

/-- Where a value stands in a text. -/
structure Place where
  /-- How many arrays and objects may still be nested here. -/
  room : Nat
  /-- Whether the value stands inside one with a category tag. -/
  categorized : Bool

namespace Place

/-- The place of a whole text. -/
def top : Place :=
  ⟨Json.nestingLimit, false⟩

/-- The place of the parts of an array or object at this place, if one more may be nested. -/
def enter (p : Place) : Option Place :=
  if 0 < p.room then some { p with room := p.room - 1 } else none

/-- The same place, inside a value with a category tag. -/
def categorize (p : Place) : Place :=
  { p with categorized := true }

end Place

/-- How values of a type are read from and written as JSON. -/
structure Codec (α : Type) where
  read : Place → Json → Option α
  write : α → Json

namespace Codec

variable {α : Type}

/-- The value that a text spells, if it is JSON that reads as a value of the type. -/
def decode (c : Codec α) (s : String) : Option α :=
  (Json.parse s).bind (c.read .top)

/-- The text of a value. -/
def encode (c : Codec α) (a : α) : String :=
  (c.write a).compact

/-- The text of a value with two blanks a level. -/
def encodePretty (c : Codec α) (a : α) : String :=
  (c.write a).pretty

/-- Strings that have a text. -/
def string : Codec String where
  read
    | _, .string s => s
    | _, _ => none
  write := Json.text

/-- Truth values. -/
def bool : Codec Bool where
  read
    | _, .bool b => some b
    | _, _ => none
  write := .bool

/-- The integer that a value spells, if it is a number spelled as an integer. -/
def readInt? : Json → Option Int
  | .number n => n.toInt?
  | _ => none

/-- Integers from the least to the greatest of a type, spelled as integers. -/
def integer (least greatest : Int) (ofInt : Int → α) (toInt : α → Int) : Codec α where
  read _ j := (readInt? j).bind fun i =>
    if least ≤ i ∧ i ≤ greatest then some (ofInt i) else none
  write a := Json.int (toInt a)

/-- Natural numbers below the size of a type. -/
def unsigned (size : Nat) (ofNat : Nat → α) (toNat : α → Nat) : Codec α :=
  integer 0 (size - 1) (fun i => ofNat i.toNat) fun a => toNat a

/-- Unsigned integers of 64 bits. -/
def uint64 : Codec UInt64 :=
  unsigned UInt64.size .ofNat UInt64.toNat

/-- Unsigned integers of 32 bits. -/
def uint32 : Codec UInt32 :=
  unsigned UInt32.size .ofNat UInt32.toNat

/-- Signed integers of 64 bits. -/
def int64 : Codec Int64 :=
  integer Int64.minValue.toInt Int64.maxValue.toInt .ofInt Int64.toInt

/-- Finite doubles, from any number that is not too large. -/
def binary64 : Codec Binary64 where
  read
    | _, .number n => Binary64.ofNumeral n
    | _, _ => none
  write x := .number x.toNumeral

/-- Timestamps, as strings that spell them. -/
def timestamp : Codec Timestamp where
  read p j := (string.read p j).bind Timestamp.parse
  write t := Json.text t.render

/-- Lists, as arrays. -/
def list (c : Codec α) : Codec (List α) where
  read
    | p, .array xs => p.enter.bind fun p => xs.mapM (c.read p)
    | _, _ => none
  write as := .array (as.map c.write)

/-- Values that may be missing, which is written and read as null. -/
def nullable (c : Codec α) : Codec (Option α) where
  read
    | _, .null => some none
    | p, j => (c.read p j).map some
  write
    | some a => c.write a
    | none => .null

/-- The entry that a member of an object stands for. -/
def readEntry (c : Codec α) (p : Place) (m : Json.Member) : Option (String × α) := do
  let key ← m.1
  let value ← c.read p m.2
  return (key, value)

/-- Maps keyed by strings, as objects in ascending order of keys. Of the values under a repeated key
each must read, and the last one counts. -/
def stringMap (c : Codec α) : Codec (StringMap α) where
  read
    | p, .object ms => p.enter.bind fun p => (ms.mapM (readEntry c p)).map StringMap.ofList
    | _, _ => none
  write m := Json.ofMembers (m.toList.map fun e => (e.1, c.write e.2))

end Codec

end MetadataArchive
