import MetadataArchive.Files.Path
import MetadataArchive.Files.Tree

/-!
# File systems

A file system is a file tree together with limits on paths. An operation follows a path name by name
from the top directory and fails for one of a few causes; one that fails changes nothing. Nothing
here concerns permissions, links or limits of space.
-/

namespace MetadataArchive

/-- How long names and paths may be, in bytes of UTF-8; `none` where there is no limit. -/
structure FileLimits where
  nameSize : Option Nat
  pathSize : Option Nat
deriving DecidableEq

namespace FileLimits

/-- No limits. -/
def unlimited : FileLimits :=
  ⟨none, none⟩

/-- Names of up to 255 bytes and paths of up to 4095. -/
def usual : FileLimits :=
  ⟨some 255, some 4095⟩

/-- Whether a text is longer than a limit. -/
def exceeds (text : String) : Option Nat → Bool
  | some size => size < text.utf8ByteSize
  | none => false

end FileLimits

/-- Why an operation on a file system fails. -/
inductive FileError where
  | notFound
  | alreadyExists
  | notADirectory
  | isADirectory
  | nameTooLong
  /-- No path holds the character U+0000. -/
  | nulInPath
deriving DecidableEq

/-- The text of a failure. -/
def FileError.message : FileError → String
  | notFound => "No such file or directory (os error 2)"
  | alreadyExists => "File exists (os error 17)"
  | notADirectory => "Not a directory (os error 20)"
  | isADirectory => "Is a directory (os error 21)"
  | nameTooLong => "File name too long (os error 36)"
  | nulInPath => "file name contained an unexpected NUL byte"

/-- A file tree, and the limits on the paths in it. -/
structure FileSystem where
  limits : FileLimits
  top : FileTree

/-- A way from the top of a tree: the names taken, the last one first, each with what it names. -/
abbrev Trail := List (String × FileTree)

/-- The place where a way ends. -/
def Trail.location (w : Trail) : Location :=
  (w.map Prod.fst).reverse

namespace FileSystem

/-- The file system without files. -/
def empty (limits : FileLimits) : FileSystem :=
  ⟨limits, .empty⟩

/-! ## Following paths -/

/-- Turns a text away that cannot be a path. -/
def checkPath (s : FileSystem) (p : Path) : Except FileError Unit :=
  if '\x00' ∈ p.text.toList then .error .nulInPath
  else if FileLimits.exceeds p.text s.limits.pathSize then .error .nameTooLong
  else .ok ()

/-- What a way leads to. -/
def reached (s : FileSystem) : Trail → FileTree
  | [] => s.top
  | (_, t) :: _ => t

/-- The entry under a name, of a directory with the entries given. -/
def entry? (s : FileSystem) (entries : List (String × FileTree)) (name : String) :
    Except FileError (Option FileTree) :=
  if FileLimits.exceeds name s.limits.nameSize then .error .nameTooLong
  else .ok (entries.lookup name)

/-- Follows one more name. -/
def step (s : FileSystem) (w : Trail) (name : String) : Except FileError Trail :=
  match s.reached w with
  | .file _ => .error .notADirectory
  | .directory entries =>
    if name = "." then .ok w
    else if name = ".." then .ok w.tail
    else
      match s.entry? entries name with
      | .ok (some t) => .ok ((name, t) :: w)
      | .ok none => .error .notFound
      | .error e => .error e

/-- Follows names from the top. -/
def follow (s : FileSystem) (names : List String) : Except FileError Trail :=
  names.foldlM s.step []

/-- What the last name of a path refers to: a place in a directory, with what is there, or a
directory as such. -/
inductive Target where
  | entry (place : Location) (found : Option FileTree)
  | whole

/-- What a path refers to, for operations that make or remove an entry. -/
def target (s : FileSystem) (p : Path) : Except FileError Target := do
  s.checkPath p
  match p.names.getLast? with
  | none => if p.isRooted then .ok .whole else .error .notFound
  | some name =>
    let w ← s.follow p.names.dropLast
    match s.reached w with
    | .file _ => .error .notADirectory
    | .directory entries =>
      if name = "." ∨ name = ".." then .ok .whole
      else return .entry (w.location ++ [name]) (← s.entry? entries name)

/-! ## Looking -/

/-- What a path leads to. -/
def find (s : FileSystem) (p : Path) : Except FileError FileTree := do
  s.checkPath p
  if p.text = "" then
    .error .notFound
  else
    match s.reached (← s.follow p.names) with
    | .file content => if p.endsWithSlash then .error .notADirectory else .ok (.file content)
    | .directory entries => .ok (.directory entries)

/-- Whether a path leads to anything. -/
def contains (s : FileSystem) (p : Path) : Bool :=
  match s.find p with
  | .ok _ => true
  | .error _ => false

/-- Whether a path leads to a directory. -/
def isDirectory (s : FileSystem) (p : Path) : Bool :=
  match s.find p with
  | .ok (.directory _) => true
  | _ => false

/-- The content of the file that a path leads to. -/
def read (s : FileSystem) (p : Path) : Except FileError ByteArray := do
  match ← s.find p with
  | .file content => .ok content
  | .directory _ => .error .isADirectory

/-! ## Changing -/

/-- The file system with something else at a place, or nothing there. -/
def replace (s : FileSystem) (place : Location) (new : Option FileTree) : FileSystem :=
  { s with top := s.top.replace new place }

/-- Removes a file. -/
def remove (s : FileSystem) (p : Path) : Except FileError FileSystem := do
  match ← s.target p with
  | .whole => .error .isADirectory
  | .entry _ none => .error .notFound
  | .entry _ (some (.directory _)) => .error .isADirectory
  | .entry place (some (.file _)) =>
    if p.endsWithSlash then .error .notADirectory else .ok (s.replace place none)

/-- Makes a directory. -/
def makeDirectory (s : FileSystem) (p : Path) : Except FileError FileSystem := do
  match ← s.target p with
  | .whole => .error .alreadyExists
  | .entry _ (some _) => .error .alreadyExists
  | .entry place none => .ok (s.replace place (some .empty))

/-- Makes a file with a content, or gives a file another content. -/
def write (s : FileSystem) (p : Path) (content : ByteArray) : Except FileError FileSystem := do
  match ← s.target p with
  | .whole => .error .isADirectory
  | .entry _ (some (.directory _)) => .error .isADirectory
  | .entry place (some (.file _)) =>
    if p.endsWithSlash then .error .notADirectory
    else .ok (s.replace place (some (.file content)))
  | .entry place none =>
    if p.endsWithSlash then .error .isADirectory
    else .ok (s.replace place (some (.file content)))

/-- Makes a directory unless there is one; tells the file system after it and whether it failed. -/
def ensureDirectory (s : FileSystem) (p : Path) : FileSystem × Except FileError Unit :=
  match s.makeDirectory p with
  | .ok s => (s, .ok ())
  | .error e => if s.isDirectory p then (s, .ok ()) else (s, .error e)

/-- Makes the first of the directories given and, where they are missing, the others, which lie
around it from the inside out. Directories that were made stay when a later one fails. -/
def ensureDirectories (s : FileSystem) : List Path → FileSystem × Except FileError Unit
  | [] => (s, .ok ())
  | p :: outer =>
    match s.ensureDirectory p with
    | (_, .error .notFound) =>
      match s.ensureDirectories outer with
      | (s, .ok ()) => s.ensureDirectory p
      | (s, .error e) => (s, .error e)
    | done => done

/-- Makes the directory that a path leads to, and those on the way where they are missing. -/
def makeDirectories (s : FileSystem) (p : Path) : FileSystem × Except FileError Unit :=
  if p.text = "" then (s, .ok ()) else s.ensureDirectories (p :: p.waypoints.dropLast.reverse)

end FileSystem

end MetadataArchive
