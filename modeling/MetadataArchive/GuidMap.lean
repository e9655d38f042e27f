import MetadataArchive.Codec.Basic
import MetadataArchive.Files.System
import MetadataArchive.Log

/-!
# GUID maps

A `GuidMap` remembers which GUID was given to which id, so that building an archive again gives the
same GUIDs. It is kept in a file, as an object of strings, and belongs to the path of that file. A
map without entries has no file.
-/

namespace MetadataArchive

/-! ## Fresh GUIDs -/

/-- A supply of GUIDs that were given to nothing yet, and how many were drawn. -/
structure GuidSupply where
  guid : Nat → String
  drawn : Nat

/-- The next GUID, and the supply after it was drawn. -/
def GuidSupply.draw (s : GuidSupply) : String × GuidSupply :=
  (s.guid s.drawn, { s with drawn := s.drawn + 1 })

/-! ## Maps -/

/-- The GUIDs given to ids, and the path where they are kept. -/
structure GuidMap where
  path : Path
  guids : StringMap String

/-- What is done with GUID maps and logged. -/
inductive GuidMapEvent where
  | loaded (path : Path) (entries : Nat)
  | removing (path : Path)
  | saved (path : Path) (entries : Nat)

/-- The line in the log for an event. -/
def GuidMapEvent.entry : GuidMapEvent → LogEntry
  | loaded path entries =>
    ⟨"loaded GUID map", [("path", .text path.text), ("entries", .int entries)]⟩
  | removing path => ⟨"removing empty GUID map", [("path", .text path.text)]⟩
  | saved path entries =>
    ⟨"saved GUID map", [("path", .text path.text), ("entries", .int entries)]⟩

/-- What went wrong with the file of a map. -/
inductive GuidMapError where
  | reading (path : Path)
  | parsing (path : Path)
  | removing (path : Path)
  | writing (path : Path)
  | makingDirectories (cause : FileError)

/-- The text of an error. -/
def GuidMapError.message : GuidMapError → String
  | reading path => "reading GUID map " ++ path.text
  | parsing path => "parsing GUID map " ++ path.text
  | removing path => "removing GUID map " ++ path.text
  | writing path => "writing GUID map " ++ path.text
  | makingDirectories cause => cause.message

namespace GuidMap

/-- Maps are equal if their paths have the same components and they give the same GUIDs. -/
instance : BEq GuidMap where
  beq m n := m.path == n.path && m.guids == n.guids

/-- How many ids have a GUID. -/
def size (m : GuidMap) : Nat :=
  m.guids.size

/-- Whether no id has a GUID. -/
def isEmpty (m : GuidMap) : Bool :=
  m.guids.isEmpty

/-- The codec of the content of a map. -/
def codec : Codec (StringMap String) :=
  .stringMap .string

/-- The GUID of an id. An id that has none is given a fresh one. -/
def guidFor (m : GuidMap) (supply : GuidSupply) (id : String) : String × GuidMap × GuidSupply :=
  match m.guids.get? id with
  | some guid => (guid, m, supply)
  | none =>
    let (guid, supply) := supply.draw
    (guid, { m with guids := m.guids.insert id guid }, supply)

/-! ## Files -/

/-- The content of the file at a path, empty if there is nothing at it. -/
def readGuids (s : FileSystem) (path : Path) : Except GuidMapError (StringMap String) :=
  if s.contains path then
    match s.read path with
    | .error _ => .error (.reading path)
    | .ok content =>
      match String.fromUTF8? content with
      | none => .error (.reading path)
      | some text =>
        match codec.decode text with
        | some guids => .ok guids
        | none => .error (.parsing path)
  else
    .ok .empty

/-- Loads the map at a path. -/
def load (s : FileSystem) (path : Path) : Except GuidMapError GuidMap × List GuidMapEvent :=
  match readGuids s path with
  | .ok guids => (.ok ⟨path, guids⟩, [.loaded path guids.size])
  | .error e => (.error e, [])

/-- Removes the file at a path, if there is one. -/
def removeFile (s : FileSystem) (path : Path) : FileSystem × Except GuidMapError Unit :=
  match s.remove path with
  | .ok s => (s, .ok ())
  | .error .notFound => (s, .ok ())
  | .error _ => (s, .error (.removing path))

/-- Makes the directories around the file at a path. -/
def makeParents (s : FileSystem) (path : Path) : FileSystem × Except FileError Unit :=
  match path.parent? with
  | some parent => s.makeDirectories parent
  | none => (s, .ok ())

/-- Writes a file, after making the directories around it. -/
def writeFile (s : FileSystem) (path : Path) (text : String) :
    FileSystem × Except GuidMapError Unit :=
  match makeParents s path with
  | (s, .error e) => (s, .error (.makingDirectories e))
  | (s, .ok ()) =>
    match s.write path text.toUTF8 with
    | .ok s => (s, .ok ())
    | .error _ => (s, .error (.writing path))

/-- Saves a map at its path. -/
def save (m : GuidMap) (s : FileSystem) :
    FileSystem × Except GuidMapError Unit × List GuidMapEvent :=
  if m.isEmpty then
    let (s, result) := removeFile s m.path
    (s, result, [.removing m.path])
  else
    match writeFile s m.path (codec.encodePretty m.guids) with
    | (s, .ok ()) => (s, .ok (), [.saved m.path m.size])
    | (s, .error e) => (s, .error e, [])

end GuidMap

end MetadataArchive
