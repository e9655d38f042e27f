import MetadataArchive.Collection.StringMap
import MetadataArchive.Draft.Rejection

/-!
# Identities in use

GUIDs are unique among all definitions and instances of an archive, and names among all definitions.
An `IdentityIndex` knows which are taken, and the one-line description of the item that has each.
-/

namespace MetadataArchive

/-- The GUIDs and names in use, each with the description of its owner. -/
structure IdentityIndex where
  guidOwners : StringMap String
  nameOwners : StringMap String
deriving DecidableEq

namespace IdentityIndex

/-- The index in which nothing is taken. -/
def empty : IdentityIndex :=
  ⟨.empty, .empty⟩

/-- Turns an item away whose GUID is taken. -/
def checkGuid (x : IdentityIndex) (guid duplicate : String) : Except Rejection Unit :=
  match x.guidOwners.get? guid with
  | some existing => .error (.duplicateGuid guid existing duplicate)
  | none => .ok ()

/-- Turns a definition away whose name is taken. -/
def checkName (x : IdentityIndex) (name duplicate : String) : Except Rejection Unit :=
  match x.nameOwners.get? name with
  | some existing => .error (.duplicateTypeName name existing duplicate)
  | none => .ok ()

/-- The index with the GUID of an instance taken. -/
def recordInstance (x : IdentityIndex) (guid owner : String) : IdentityIndex :=
  { x with guidOwners := x.guidOwners.insert guid owner }

/-- The index with the GUID and the name of a definition taken. -/
def recordDefinition (x : IdentityIndex) (guid name owner : String) : IdentityIndex :=
  ⟨x.guidOwners.insert guid owner, x.nameOwners.insert name owner⟩

/-- How many GUIDs are taken. -/
def guidCount (x : IdentityIndex) : Nat :=
  x.guidOwners.size

end IdentityIndex

end MetadataArchive
