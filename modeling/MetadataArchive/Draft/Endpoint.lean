import MetadataArchive.Collection.StringMap
import MetadataArchive.Draft.Rejection
import MetadataArchive.Model.TypeDef

/-!
# Attributes introduced by relationship types

A relationship type introduces an attribute on the entity type at each of its ends: the one that is
named at the other end. An `EndpointMap` collects these attributes by entity type. No entity type
may expose an attribute twice, be it declared or introduced.
-/

namespace MetadataArchive

/-- The attributes that relationship types introduce, by entity type. -/
structure EndpointMap where
  attributes : StringMap StringSet
deriving DecidableEq

/-- An attribute that a relationship type introduces on one entity type, by which it refers to
another. -/
structure EndpointClaim where
  entityType : String
  otherEntityType : String
  attributeName : String
deriving DecidableEq

/-- The rejection of a relationship type because of one of its claims. -/
def EndpointClaim.collision (c : EndpointClaim) (relationship : String) : Rejection :=
  .duplicateEndpointAttribute relationship c.entityType c.otherEntityType c.attributeName

/-- The attributes that a relationship type introduces. One that joins an entity type with itself
under one name introduces a single attribute. -/
def RelationshipDef.claims (d : RelationshipDef) : List EndpointClaim :=
  let type1 := d.end1.entityType.name
  let type2 := d.end2.entityType.name
  if type1 = type2 ∧ d.end1.attributeName = d.end2.attributeName then
    [⟨type1, type2, d.end1.attributeName⟩]
  else
    [⟨type1, type2, d.end2.attributeName⟩, ⟨type2, type1, d.end1.attributeName⟩]

namespace EndpointMap

/-- The map before any relationship type is there. -/
def empty : EndpointMap :=
  ⟨.empty⟩

/-- The attributes introduced on an entity type, as a set. -/
def attributeSet (m : EndpointMap) (entityType : String) : StringSet :=
  (m.attributes.get? entityType).getD .empty

/-- Whether an attribute is introduced on an entity type. -/
def contains (m : EndpointMap) (entityType attributeName : String) : Bool :=
  (m.attributeSet entityType).contains attributeName

/-- The attributes introduced on an entity type, in ascending order. -/
def attributesOf (m : EndpointMap) (entityType : String) : List String :=
  (m.attributeSet entityType).keys

/-- Whether no attribute is introduced anywhere. -/
def isEmpty (m : EndpointMap) : Bool :=
  m.attributes.isEmpty

/-- The map with one more attribute. -/
def claim (m : EndpointMap) (c : EndpointClaim) : EndpointMap :=
  ⟨m.attributes.insert c.entityType ((m.attributeSet c.entityType).insert c.attributeName ())⟩

/-- The map with all attributes of a list of claims. -/
def claimAll (m : EndpointMap) (cs : List EndpointClaim) : EndpointMap :=
  cs.foldl claim m

/-- Turns a relationship type away that introduces an attribute on an entity type which has it
already: introduced by another relationship type, or else declared. The entity types at its ends are
given. -/
def check (m : EndpointMap) (d : RelationshipDef) (entity1 entity2 : EntityDef) :
    Except Rejection Unit :=
  match d.claims.find? fun c => m.contains c.entityType c.attributeName with
  | some c => .error (c.collision d.name)
  | none =>
    let receiver (c : EndpointClaim) : EntityDef :=
      if c.entityType = d.end1.entityType.name then entity1 else entity2
    match d.claims.find? fun c => (receiver c).declares c.attributeName with
    | some c => .error (c.collision d.name)
    | none => .ok ()

end EndpointMap

end MetadataArchive
