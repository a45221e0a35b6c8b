/-
  Fedservice.Entity.Function.TrustChainPolicy

  `TrustChainPolicy` (entity/function/policy.py): the policies of a chain of
  statements are gathered from the trust anchor down and applied to what the
  leaf says about itself.

  Where the combined policy has no metadata of its own, `apply_policy` works on
  the dictionary it is given, which is the one inside the leaf's statement; so
  the trust chain is the state here, its statements included.
-/

import Fedservice.Entity.Function.PolicySemantics

namespace Fedservice.Entity.Function

open Fedservice.Lib Fedservice.Py Fedservice.EntityStatement

variable {Key : Type} (ho : HashOrder)

/-! ## gather_policies -/

/-- What a statement says about an entity type; missing parts are empty. -/
def ruleOf (s : Statement Key) (entityType : String) : Rule where
  metadataPolicy := (s.metadataPolicy.bind (·.lookup entityType)).getD ∅
  metadata := (s.metadata.bind (·.lookup entityType)).getD ∅

/-- Some claim is in both parts of a rule. -/
def claimInBoth (rule : Rule) : Bool :=
  rule.metadataPolicy.keys.any (fun claim => decide (claim ∈ rule.metadata))

/-- The loop of `gather_policies` over the statements below the first. -/
def gatherLoop (entityType : String) : Rule → List (Statement Key) → Except Exc Rule
  | rule, [] => .ok rule
  | rule, es :: rest => do
      let subPolicy := ruleOf es entityType
      if subPolicy.metadataPolicy.isEmpty && subPolicy.metadata.isEmpty then
        -- nothing said about the type
        gatherLoop entityType rule rest
      else if claimInBoth subPolicy then
        throw (.policyError
          [.lit "Claim appearing both in metadata and metadata_policy not allowed"])
      else do
        gatherLoop entityType (← combine ho rule subPolicy) rest

/-- `gather_policies`. -/
def gatherPolicies (chain : List (Statement Key)) (entityType : String) : Except Exc Rule :=
  match chain with
  | [] => .error .indexError
  | es :: rest => gatherLoop ho entityType (ruleOf es entityType) rest

/-! ## apply_policy -/

/-- The second half of `apply_policy`, on the dictionary that is the state. -/
def applyRulePolicy (metadataPolicy : MetadataPolicy) : EStateM Exc Metadata Metadata := do
  if metadataPolicy.isEmpty then get
  else do
    applyMetadataPolicy ho metadataPolicy constructEvaluationSequence
    get

/-- `apply_policy`: the state is the metadata it is given. -/
def applyPolicy (policy : Rule) : EStateM Exc Metadata Metadata :=
  if policy.metadata.isEmpty then applyRulePolicy ho policy.metadataPolicy
  else
    -- a copy is made, the dictionary that was given stays as it is
    fun metadata =>
      match applyRulePolicy ho policy.metadataPolicy (policy.metadata.update metadata) with
      | .ok m _ => .ok m metadata
      | .error e _ => .error e metadata

/-! ## TrustChainPolicy -/

/-- `verified_chain[-1]['metadata'][entity_type]`, where it exists. -/
def leafMetadata (entityType : String) (trustChain : TrustChain Key) : Option Metadata :=
  (trustChain.verifiedChain.getLast?.bind (·.metadata)).bind (·.lookup entityType)

/-- The trust chain with that dictionary changed. -/
def setLeafMetadata (entityType : String) (metadata : Metadata) (trustChain : TrustChain Key) :
    TrustChain Key :=
  match trustChain.verifiedChain.getLast? with
  | none => trustChain
  | some leaf => { trustChain with
      verifiedChain := trustChain.verifiedChain.dropLast ++
        [{ leaf with metadata := leaf.metadata.map (·.insert entityType metadata) }] }

/-- `_policy`. -/
def trustChainPolicy (entityType : String) : EStateM Exc (TrustChain Key) (Option Metadata) := do
  let trustChain ← get
  let combinedPolicy ← lift (gatherPolicies ho trustChain.verifiedChain.dropLast entityType)
  match leafMetadata entityType trustChain with
  | none => return none  -- the `KeyError`
  | some metadata => do
      -- apply the combined metadata policies on the metadata
      set { trustChain with
        combinedPolicy := trustChain.combinedPolicy.insert entityType combinedPolicy }
      let m ← zoom (fun _ => metadata) (setLeafMetadata entityType) (applyPolicy ho combinedPolicy)
      return some m

/-- `trust_chain.metadata[entity_type] = self._policy(trust_chain, entity_type)`. -/
def policyFor (entityType : String) : EStateM Exc (TrustChain Key) Unit := do
  let metadata ← trustChainPolicy ho entityType
  modify (fun trustChain =>
    { trustChain with metadata := trustChain.metadata.set entityType metadata })

/-- The loop over the entity types of the leaf. -/
def policyForAll : List String → EStateM Exc (TrustChain Key) Unit
  | [] => pure ()
  | entityType :: rest => do
      policyFor ho entityType
      policyForAll rest

/-- `TrustChainPolicy.__call__`. -/
def TrustChainPolicy.call (entityType : String) : EStateM Exc (TrustChain Key) Unit := do
  let trustChain ← get
  if trustChain.verifiedChain.length > 1 then
    if entityType ≠ "" then policyFor ho entityType
    -- all entity types that the leaf has metadata of
    else match trustChain.verifiedChain.getLast?.bind (·.metadata) with
      | none => throw (.keyError "metadata")
      | some metadata => policyForAll ho metadata.keys
  else match trustChain.verifiedChain with
    | [] => throw .indexError
    | es :: _ => match es.metadata with
        | none => throw (.keyError "metadata")
        | some metadata => do
            let m ← lift (item metadata entityType)
            set { trustChain with
              metadata := .plain m
              combinedPolicy := trustChain.combinedPolicy.insert entityType {} }

/-- `apply_policies`. -/
def applyPolicies : List (TrustChain Key) → Except Exc (List (TrustChain Key))
  | [] => .ok []
  | trustChain :: rest =>
      match TrustChainPolicy.call ho "" trustChain with
      | .error e _ => .error e
      | .ok _ processed => do return processed :: (← applyPolicies rest)

end Fedservice.Entity.Function
