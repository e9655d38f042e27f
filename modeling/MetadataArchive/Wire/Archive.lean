import MetadataArchive.Model.Archive
import MetadataArchive.Wire.AttributeType
import MetadataArchive.Wire.Instance
import MetadataArchive.Wire.TypeDef

/-!
# The JSON form of archives
-/

namespace MetadataArchive

namespace ArchiveType

/-- The written name of a type of archives. -/
def tag : ArchiveType → String
  | contentPack => "CONTENT_PACK"
  | metadataExport => "METADATA_EXPORT"
  | repositoryBackup => "REPOSITORY_BACKUP"

/-- The types of archives, by their written names. -/
def codec : Codec ArchiveType :=
  .choice [contentPack, metadataExport, repositoryBackup] tag

end ArchiveType

namespace ArchiveProperties

/-- Headers, by their fields. -/
def record : Record ArchiveProperties where
  fields :=
    .cons (.required "archiveGuid" .string) <|
    .cons (.required "archiveName" .string) <|
    .cons (.optional "archiveDescription" .string) <|
    .cons (.defaulted "archiveType" ArchiveType.codec .default) <|
    .cons (.optional "originatorName" .string) <|
    .cons (.optional "originatorLicense" .string) <|
    .cons (.required "creationDate" .timestamp) <|
    .cons (.listOrOmitted "dependsOnArchives" .string) .nil
  ofValues := fun (guid, name, description, archiveType, originatorName, originatorLicense,
      creationDate, dependsOnArchives, ()) =>
    ⟨guid, name, description, archiveType, originatorName, originatorLicense, creationDate,
      dependsOnArchives⟩
  values h :=
    (h.guid, h.name, h.description, h.archiveType, h.originatorName, h.originatorLicense,
      h.creationDate, h.dependsOnArchives, ())

/-- The codec of headers. -/
def codec : Codec ArchiveProperties :=
  record.codec

end ArchiveProperties

namespace ArchiveTypeStore

/-- Stores of types, by their fields. -/
def record : Record ArchiveTypeStore where
  fields :=
    .cons (.optional "attributeTypeDefs" (.list AttributeTypeDef.codec)) <|
    .cons (.optional "newTypeDefs" (.list TypeDef.codec)) <|
    .cons (.optional "typeDefPatches" (.list TypeDefPatch.codec)) .nil
  ofValues := fun (attributeTypeDefs, newTypeDefs, typeDefPatches, ()) =>
    ⟨attributeTypeDefs, newTypeDefs, typeDefPatches⟩
  values s := (s.attributeTypeDefs, s.newTypeDefs, s.typeDefPatches, ())

/-- The codec of stores of types. -/
def codec : Codec ArchiveTypeStore :=
  record.codec

end ArchiveTypeStore

namespace ArchiveInstanceStore

/-- Stores of instances, by their fields. -/
def record : Record ArchiveInstanceStore where
  fields :=
    .cons (.optional "entities" (.list EntityDetail.codec)) <|
    .cons (.optional "relationships" (.list Relationship.codec)) .nil
  ofValues := fun (entities, relationships, ()) => ⟨entities, relationships⟩
  values s := (s.entities, s.relationships, ())

/-- The codec of stores of instances. -/
def codec : Codec ArchiveInstanceStore :=
  record.codec

end ArchiveInstanceStore

namespace TypeArchive

/-- Archives, by their fields. -/
def record : Record TypeArchive where
  fields :=
    .cons (.required "archiveProperties" ArchiveProperties.codec) <|
    .cons (.optional "archiveTypeStore" ArchiveTypeStore.codec) <|
    .cons (.optional "archiveInstanceStore" ArchiveInstanceStore.codec) .nil
  ofValues := fun (properties, typeStore, instanceStore, ()) =>
    ⟨properties, typeStore, instanceStore⟩
  values a := (a.properties, a.typeStore, a.instanceStore, ())

/-- The codec of archives. -/
def codec : Codec TypeArchive :=
  record.codec

end TypeArchive

end MetadataArchive
