import Mathlib.Data.List.Find
import Mathlib.Data.List.Perm.Basic
import MetadataArchive.Proofs.Draft.Scan
import MetadataArchive.Proofs.StringMap

/-!
# What an endpoint map contains

Claiming attributes adds exactly these to an `EndpointMap`. A relationship type passes the check if
none of the attributes that it claims is in the map or declared by the entity type that receives it.
-/

namespace MetadataArchive.EndpointMap

variable {m : EndpointMap} {entityType attributeName : String}

@[simp]
theorem contains_empty : empty.contains entityType attributeName = false :=
  rfl

theorem contains_claim (c : EndpointClaim) :
    (m.claim c).contains entityType attributeName = true ↔
      (c.entityType = entityType ∧ c.attributeName = attributeName) ∨
        m.contains entityType attributeName = true := by
  unfold contains claim attributeSet
  rw [StringMap.get?_insert]
  by_cases h : entityType = c.entityType
  · subst h
    simp [StringMap.contains_insert, @eq_comm _ attributeName]
  · simp [h, Ne.symm h]

theorem contains_claimAll (cs : List EndpointClaim) :
    (m.claimAll cs).contains entityType attributeName = true ↔
      (∃ c ∈ cs, c.entityType = entityType ∧ c.attributeName = attributeName) ∨
        m.contains entityType attributeName = true := by
  induction cs generalizing m with
  | nil => simp [claimAll]
  | cons c cs ih =>
    show ((m.claim c).claimAll cs).contains entityType attributeName = true ↔ _
    rw [ih, contains_claim]
    simp only [List.mem_cons, exists_eq_or_imp]
    exact or_left_comm.trans or_assoc.symm

theorem attributeSet_claim (c : EndpointClaim) : (m.claim c).attributeSet entityType =
    if entityType = c.entityType then (m.attributeSet entityType).insert c.attributeName ()
    else m.attributeSet entityType := by
  unfold claim attributeSet
  rw [StringMap.get?_insert]
  split
  · next h => rw [h, Option.getD_some]
  · rfl

/-- Claims may be made in any order. -/
theorem claim_comm (m : EndpointMap) (c c' : EndpointClaim) :
    (m.claim c).claim c' = (m.claim c').claim c := by
  have hclaim : ∀ (n : EndpointMap) (c : EndpointClaim), n.claim c =
      ⟨n.attributes.insert c.entityType ((n.attributeSet c.entityType).insert c.attributeName ())⟩ :=
    fun _ _ => rfl
  rw [hclaim (m.claim c), hclaim (m.claim c'), attributeSet_claim, attributeSet_claim, hclaim m,
    hclaim m]
  by_cases htype : c.entityType = c'.entityType
  · -- both go to one set, where it does not matter either which comes first
    have hset : ∀ s : StringSet, (s.insert c.attributeName ()).insert c'.attributeName () =
        (s.insert c'.attributeName ()).insert c.attributeName () := by
      intro s
      by_cases hattribute : c.attributeName = c'.attributeName
      · rw [hattribute]
      · exact s.insert_comm hattribute () ()
    rw [if_pos htype.symm, if_pos htype, htype, StringMap.insert_insert_self,
      StringMap.insert_insert_self, hset]
  · rw [if_neg (Ne.symm htype), if_neg htype, StringMap.insert_comm _ htype]

theorem claimAll_perm {cs cs' : List EndpointClaim} (h : cs.Perm cs') :
    m.claimAll cs = m.claimAll cs' := by
  have : RightCommutative claim := ⟨claim_comm⟩
  exact h.foldl_eq m

theorem attributesOf_eq_of_contains_iff {n : EndpointMap}
    (h : ∀ attributeName, m.contains entityType attributeName = true ↔
      n.contains entityType attributeName = true) :
    m.attributesOf entityType = n.attributesOf entityType :=
  StringMap.keys_eq_of_contains_iff h

/-- A map with claims in it is not empty. -/
theorem isEmpty_claimAll (cs : List EndpointClaim) :
    (m.claimAll cs).isEmpty = true ↔ cs = [] ∧ m.isEmpty = true := by
  induction cs generalizing m with
  | nil => simp [claimAll]
  | cons c cs ih =>
    show ((m.claim c).claimAll cs).isEmpty = true ↔ _
    have hclaim : (m.claim c).isEmpty = false := StringMap.isEmpty_insert _ _ _
    simp [ih, hclaim]

/-! ## The check -/

/-- The check gives the verdict on the first claim to an attribute in the map, or else on the first
to an attribute that is declared. Here `find` gives the entity type of a name, as long as it gives
those at the ends. -/
theorem check_eq_verdict {t : RelationshipDef} {entity1 entity2 : EntityDef}
    {find : String → Option EntityDef} (h1 : find t.end1.entityType.name = some entity1)
    (h2 : find t.end2.entityType.name = some entity2) :
    m.check t entity1 entity2 = verdict
      (((t.claims.find? fun c => m.contains c.entityType c.attributeName).or
        (t.claims.find? fun c => (find c.entityType).any fun e => e.declares c.attributeName)).map
          fun c => c.collision t.name) := by
  -- the entity type that a claim is held against is the one it names
  have hreceiver : ∀ c ∈ t.claims, find c.entityType =
      some (if c.entityType = t.end1.entityType.name then entity1 else entity2) := by
    intro c hc
    split
    · next h => rw [h, h1]
    · next h => rw [(t.entityType_of_mem_claims hc).resolve_left h, h2]
  have hdeclared : (t.claims.find? fun c =>
      (if c.entityType = t.end1.entityType.name then entity1 else entity2).declares
        c.attributeName) =
          t.claims.find? fun c => (find c.entityType).any fun e => e.declares c.attributeName :=
    List.find?_congr fun c hc => by rw [hreceiver c hc, Option.any_some]
  unfold check
  dsimp only
  rw [hdeclared]
  cases t.claims.find? fun c => m.contains c.entityType c.attributeName with
  | some c => rfl
  | none =>
    cases t.claims.find? fun c => (find c.entityType).any fun e => e.declares c.attributeName <;>
      rfl

theorem check_eq_ok_iff {t : RelationshipDef} {entity1 entity2 : EntityDef}
    {find : String → Option EntityDef} (h1 : find t.end1.entityType.name = some entity1)
    (h2 : find t.end2.entityType.name = some entity2) :
    m.check t entity1 entity2 = .ok () ↔ ∀ c ∈ t.claims,
      m.contains c.entityType c.attributeName = false ∧
        ∀ e, find c.entityType = some e → e.declares c.attributeName = false := by
  rw [check_eq_verdict h1 h2, verdict_eq_ok_iff, Option.map_eq_none_iff, Option.or_eq_none_iff,
    List.find?_eq_none, List.find?_eq_none, ← forall₂_and]
  refine forall₂_congr fun c _ => ?_
  rw [Bool.not_eq_true, Bool.not_eq_true, Option.any_eq_false]

end MetadataArchive.EndpointMap
