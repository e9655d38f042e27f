import MetadataArchive.Json.Quoted
import MetadataArchive.Json.Numeral

/-!
# Writing JSON

`Json.render` writes a value in one of two layouts: without any blank, or with every item and member
on a line of its own. The layouts differ in blanks only.
-/

namespace MetadataArchive.Json

/-- How the parts of a value are set apart. -/
inductive Layout where
  /-- No blanks at all. -/
  | compact
  /-- One item or member a line, indented by `width` blanks a level; a blank after each colon. -/
  | indented (width : Nat)
deriving DecidableEq

namespace Layout

/-- What stands before an item, a member or a closing bracket `depth` levels deep. -/
def gap : Layout → Nat → List Char
  | compact, _ => []
  | indented width, depth => '\n' :: List.replicate (width * depth) ' '

/-- What stands between a key and its value. -/
def colon : Layout → List Char
  | compact => [':']
  | indented _ => [':', ' ']

end Layout

mutual

/-- Writes a value that stands `depth` levels deep in front of `rest`. -/
def write (l : Layout) (depth : Nat) : Json → List Char → List Char
  | .null, rest => 'n' :: 'u' :: 'l' :: 'l' :: rest
  | .bool true, rest => 't' :: 'r' :: 'u' :: 'e' :: rest
  | .bool false, rest => 'f' :: 'a' :: 'l' :: 's' :: 'e' :: rest
  | .number n, rest => n.write rest
  | .string s, rest => Quoted.write s rest
  | .array [], rest => '[' :: ']' :: rest
  | .array (x :: xs), rest =>
    '[' :: (l.gap (depth + 1) ++
      write l (depth + 1) x (writeItems l (depth + 1) xs (l.gap depth ++ ']' :: rest)))
  | .object [], rest => '{' :: '}' :: rest
  | .object ((key, x) :: ms), rest =>
    '{' :: (l.gap (depth + 1) ++ Quoted.write key (l.colon ++
      write l (depth + 1) x (writeMembers l (depth + 1) ms (l.gap depth ++ '}' :: rest))))

/-- Writes the items after the first. -/
def writeItems (l : Layout) (depth : Nat) : List Json → List Char → List Char
  | [], rest => rest
  | x :: xs, rest => ',' :: (l.gap depth ++ write l depth x (writeItems l depth xs rest))

/-- Writes the members after the first. -/
def writeMembers (l : Layout) (depth : Nat) : List Member → List Char → List Char
  | [], rest => rest
  | (key, x) :: ms, rest =>
    ',' :: (l.gap depth ++ Quoted.write key (l.colon ++
      write l depth x (writeMembers l depth ms rest)))

end

/-- The text of a value in a layout. -/
def render (l : Layout) (v : Json) : String :=
  String.ofList (v.write l 0 [])

/-- The text of a value without blanks. -/
def compact (v : Json) : String :=
  v.render .compact

/-- The text of a value with two blanks a level. -/
def pretty (v : Json) : String :=
  v.render (.indented 2)

end MetadataArchive.Json
