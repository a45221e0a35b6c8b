/-
  Fedservice.Entity.Server.Resolve

  `Resolve` (entity/server/resolve.py): the metadata of an entity below a trust anchor,
  and the statements they come from.  Who trusts the same anchor is meant to find the
  same metadata in these statements.
-/

import Fedservice.Entity.FailingBranches
import Fedservice.Entity.Function.CachedTree
import Fedservice.Entity.Function.PolicyOnTop

namespace Fedservice.Entity.Server.Resolve

open Fedservice.Lib Fedservice.Py Fedservice.EntityStatement Fedservice.Crypto
  Fedservice.Entity.Function

variable {Jar Key : Type}

/-! ## process_request -/

/-- A resolve request.  One without an anchor or a subject gets no further. -/
structure ResolveRequest where
  sub : EntityId
  anchor : EntityId
  type : Option String := none

/-- The answer, but for its keys and times.  The packer leaves empty metadata out. -/
structure ResolveResponse (Key : Type) where
  iss : EntityId
  sub : EntityId
  metadata : ChainMetadata
  trustChain : List (Option (Token Key))

/-- The metadata that are asked for. -/
def answerMetadata (type : Option String) (metadata : ChainMetadata) : Except Exc ChainMetadata :=
  match type with
  | some entityType => do
      return .byType (Dict.ofList [(entityType, ← metadata.item entityType)])
  | none => return metadata

variable [KeyStore Jar Key] [DecidableEq Key] (ho : HashOrder) (env : CollectorEnv Key)

/-- `process_request` of the entity `entityId`. -/
def processRequest (entityId : EntityId) (request : ResolveRequest) (withTaEc : Bool) :
    EStateM Exc (FederationState Jar Key) (ResolveResponse Key) := do
  -- verified trust chains with policy adjusted metadata
  let (chains, leafEc) ← inCollector
    (collectTrustChains env request.sub (.text "") request.anchor)
  let verified ← inKeyjar
    (verifyTrustChains (leafEc.toList.map (fun config => .jws config.jws)) chains)
  let trustChains ← lift (applyPolicies ho verified)
  match trustChains.find? (fun trustChain => trustChain.anchor = request.anchor) with
  | none => throw (.attributeError "metadata")  -- `None` is no trust chain
  | some chain => do
      let metadata ← lift (answerMetadata request.type chain.metadata)
      let trustChain ← inCollector (getChain env chain.issPath request.anchor withTaEc)
      return {
        iss := entityId
        sub := request.sub
        metadata := metadata
        trustChain := trustChain }

/-- The statements of an answer, from the top down.  What is missing is no JWS. -/
def fromTheTop (trustChain : List (Option (Token Key))) : List (Token Key) :=
  trustChain.reverse.map (·.getD (.text ""))

/-- Another party verifies the reversed trust chain and applies the policies. -/
def recheck (trustChain : List (Option (Token Key))) :
    EStateM Exc Jar (List (TrustChain Key)) := do
  let trustChains ← verifyTrustChains [] [fromTheTop trustChain]
  lift (applyPolicies ho trustChains)

/-- The metadata are equal, of the type that was asked for or of all types. -/
def SameMetadata (type : Option String) (answered obtained : ChainMetadata) : Prop :=
  ∀ entityType, (∀ t ∈ type, t = entityType) →
    Option.Rel (Option.Rel SameClaims) (answered.item entityType).toOption
      (obtained.item entityType).toOption

/-- A party with these keys obtains exactly one trust chain from the answer, with the anchor
    and the metadata of the answer. -/
def Rechecks (party : Jar) (request : ResolveRequest) (answer : ResolveResponse Key) : Prop :=
  ∃ trustChain jar, recheck ho answer.trustChain party = .ok [trustChain] jar ∧
    trustChain.anchor = request.anchor ∧
    SameMetadata request.type answer.metadata trustChain.metadata

variable {ho} {env}

/-! ## Verifying a list of JWSs -/

end Fedservice.Entity.Server.Resolve
