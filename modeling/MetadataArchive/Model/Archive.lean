import MetadataArchive.Model.AttributeType
import MetadataArchive.Model.Instance
import MetadataArchive.Model.TypeDef
import MetadataArchive.Time.Timestamp

/-!
# Archives

An archive is a header, the type definitions it brings, and the instances it brings. Lists that an
archive does not bring are missing rather than empty, and so is a store without lists; both forms
can be read and are different values.
-/

namespace MetadataArchive

/-- What an archive is for. -/
inductive ArchiveType where
  | contentPack
  | metadataExport
  | repositoryBackup
deriving DecidableEq

/-- The type of an archive that states none. -/
def ArchiveType.default : ArchiveType :=
  contentPack

/-- The header of an archive. -/
structure ArchiveProperties where
  guid : String
  name : String
  description : Option String
  archiveType : ArchiveType
  originatorName : Option String
  originatorLicense : Option String
  creationDate : Timestamp
  dependsOnArchives : List String
deriving DecidableEq

namespace ArchiveProperties

/-- The header of an archive made at a given time, without any optional part. -/
def plain (guid name : String) (now : Timestamp) : ArchiveProperties :=
  ⟨guid, name, none, .default, none, none, now, []⟩

/-- The header of an archive without identity, made at a given time. -/
def anonymous (now : Timestamp) : ArchiveProperties :=
  plain "" "" now

/-- The same header with a description. -/
def withDescription (h : ArchiveProperties) (description : String) : ArchiveProperties :=
  { h with description := some description }

/-- The same header with a type of archive. -/
def withArchiveType (h : ArchiveProperties) (archiveType : ArchiveType) : ArchiveProperties :=
  { h with archiveType }

/-- The same header with the name of an originator. -/
def withOriginator (h : ArchiveProperties) (name : String) : ArchiveProperties :=
  { h with originatorName := some name }

/-- The same header with the terms on which the originator gives the archive. -/
def withOriginatorLicense (h : ArchiveProperties) (license : String) : ArchiveProperties :=
  { h with originatorLicense := some license }

/-- The same header with a creation date. -/
def withCreationDate (h : ArchiveProperties) (creationDate : Timestamp) : ArchiveProperties :=
  { h with creationDate }

/-- The same header with one more archive whose types it refers to. -/
def dependsOn (h : ArchiveProperties) (guid : String) : ArchiveProperties :=
  { h with dependsOnArchives := h.dependsOnArchives ++ [guid] }

end ArchiveProperties

/-- The type definitions that an archive brings, in the order in which they are loaded. -/
structure ArchiveTypeStore where
  attributeTypeDefs : Option (List AttributeTypeDef)
  newTypeDefs : Option (List TypeDef)
  typeDefPatches : Option (List TypeDefPatch)
deriving DecidableEq

/-- The store without lists. -/
def ArchiveTypeStore.empty : ArchiveTypeStore :=
  ⟨none, none, none⟩

/-- The instances that an archive brings, in the order in which they are loaded. -/
structure ArchiveInstanceStore where
  entities : Option (List EntityDetail)
  relationships : Option (List Relationship)
deriving BEq

/-- The store without lists. -/
def ArchiveInstanceStore.empty : ArchiveInstanceStore :=
  ⟨none, none⟩

/-- An archive. -/
structure TypeArchive where
  properties : ArchiveProperties
  typeStore : Option ArchiveTypeStore
  instanceStore : Option ArchiveInstanceStore
deriving BEq

namespace TypeArchive

/-- The attribute types of an archive. -/
def attributeTypeDefs (a : TypeArchive) : List AttributeTypeDef :=
  (a.typeStore.bind ArchiveTypeStore.attributeTypeDefs).getD []

/-- The structural types of an archive. -/
def newTypeDefs (a : TypeArchive) : List TypeDef :=
  (a.typeStore.bind ArchiveTypeStore.newTypeDefs).getD []

/-- The patches of an archive. -/
def typeDefPatches (a : TypeArchive) : List TypeDefPatch :=
  (a.typeStore.bind ArchiveTypeStore.typeDefPatches).getD []

/-- The entities of an archive. -/
def entities (a : TypeArchive) : List EntityDetail :=
  (a.instanceStore.bind ArchiveInstanceStore.entities).getD []

/-- The relationships of an archive. -/
def relationships (a : TypeArchive) : List Relationship :=
  (a.instanceStore.bind ArchiveInstanceStore.relationships).getD []

end TypeArchive

end MetadataArchive
