import MetadataArchive.Draft.Build
import MetadataArchive.Draft.Instance
import MetadataArchive.Draft.Registration
import MetadataArchive.GuidMap
import MetadataArchive.Proofs.Draft.Accepted
import MetadataArchive.Proofs.Draft.Archive
import MetadataArchive.Proofs.Draft.Emission
import MetadataArchive.Proofs.Draft.EndpointAttributes
import MetadataArchive.Proofs.Draft.Instances
import MetadataArchive.Proofs.Draft.Links
import MetadataArchive.Proofs.Draft.Log
import MetadataArchive.Proofs.Draft.Lookup
import MetadataArchive.Proofs.Draft.Order
import MetadataArchive.Proofs.Draft.References
import MetadataArchive.Proofs.Draft.Replay
import MetadataArchive.Proofs.Draft.Representation
import MetadataArchive.Proofs.Draft.Retry
import MetadataArchive.Proofs.Draft.Symmetry
import MetadataArchive.Proofs.Draft.Verdicts
import MetadataArchive.Proofs.GuidMap.Regeneration
import MetadataArchive.Proofs.GuidMap.Reload
import MetadataArchive.Proofs.Model.Ordinals
import MetadataArchive.Proofs.Wire.CreationDate
import MetadataArchive.Proofs.Wire.Equality
import MetadataArchive.Proofs.Wire.Properties
import MetadataArchive.Wire.Archive
