/-!
# Paths

A path is a text; names stand between its slashes. Paths are the same if they have the same
components, which leaves out empty names and names `.`, but for a `.` at the start.
-/

namespace MetadataArchive

/-- A path in a file tree. -/
structure Path where
  text : String

namespace Path

/-- The parts of a text between slashes, empty ones included. -/
def splitSlashes : List Char → List (List Char)
  | [] => [[]]
  | c :: cs =>
    if c = '/' then [] :: splitSlashes cs
    else
      match splitSlashes cs with
      | [] => [[c]]
      | part :: parts => (c :: part) :: parts

/-- The names in a path, among them `.` and `..`. -/
def names (p : Path) : List String :=
  ((splitSlashes p.text.toList).filter fun part => !part.isEmpty).map String.ofList

/-- Whether a path starts at the root of the tree. -/
def isRooted (p : Path) : Bool :=
  p.text.toList.head? == some '/'

/-- Whether a path ends with a slash, and so can only name a directory. -/
def endsWithSlash (p : Path) : Bool :=
  p.text.toList.getLast? == some '/'

/-- What a path is compared by. A slash stands for the root. -/
def components (p : Path) : List String :=
  let kept := fun name : String => name != "."
  if p.isRooted then "/" :: p.names.filter kept
  else
    match p.names with
    | [] => []
    | name :: names => name :: names.filter kept

/-- The beginnings of a path that end with a name, where `before` was taken already. -/
def waypointsAfter (before : List Char) : List (List Char) → List Path
  | [] => []
  | part :: parts =>
    let here := before ++ '/' :: part
    if part = [] ∨ part = ['.'] then waypointsAfter here parts
    else ⟨String.ofList here⟩ :: waypointsAfter here parts

/-- The beginnings of a path that end with one of its components, the shortest first: paths to the
directories on the way and, last, to where the path leads. The root is none of them. -/
def waypoints (p : Path) : List Path :=
  match splitSlashes p.text.toList with
  | [] => []
  | first :: parts =>
    if first = [] then waypointsAfter first parts
    else ⟨String.ofList first⟩ :: waypointsAfter first parts

/-- The path to the directory around that to which a path leads, unless it has no more than one
component. -/
def parent? (p : Path) : Option Path :=
  p.waypoints.dropLast.getLast?

/-- Whether two paths have the same components. -/
instance : BEq Path where
  beq p q := p.components == q.components

end Path

end MetadataArchive
