/-
  Fedservice.Entity.Server.ResolvedRoutes

  Resolving in a federation that is well kept and in which nobody is an authority
  above itself.  Collecting for an answer stops at the anchor that is asked for; where
  the anchor has nobody above it, this comes to the trust chains that the federation
  entity finds by itself, and the statements of the one that is answered with are all
  still in the caches when the answer is put together.
-/

import Fedservice.Entity.FreshnessTests
import Fedservice.Entity.Server.Resolve
import Fedservice.Entity.TrustChainsOfRoutes

namespace Fedservice.Entity.Server.Resolve

open Fedservice.Lib Fedservice.Py Fedservice.EntityStatement Fedservice.Crypto
  Fedservice.Entity.Function Relation

variable {Jar Key : Type} [DecidableEq Key] {env : CollectorEnv Key} {entities : Finset EntityId}

/-! ## Stopping at the top -/

theorem configuration_of_served (h : Steady env entities) {n : Nat} {e : EntityId}
    {config : SelfSigned Key} (hserved : Served env n e config) :
    configuration env e = .ok config := by
  have hout := (h.configuration e { asked := n } (reflects_empty.of_caches rfl rfl)).1
  exact hout.symm.trans hserved

/-- What is read as the configuration of an entity: one that is about to expire is gone. -/
def readConfiguration (env : CollectorEnv Key) (e : EntityId) : Except Exc (Token Key) := do
  let config ← configuration env e
  if isCurrent env config.payload then return .jws config.jws else throw .typeError

/-- That of the anchor, if it is asked for. -/
def readTaEc (env : CollectorEnv Key) (anchor : EntityId) (withTaEc : Bool) :
    Except Exc (Option (Token Key)) :=
  if withTaEc then do return some (← readConfiguration env anchor) else return none

/-- What is answered about an entity that has these trust chains: the metadata of the first one
    that ends in the anchor, and its statements from the leaf upwards. -/
def answerFrom (env : CollectorEnv Key) (entityId : EntityId) (request : ResolveRequest)
    (withTaEc : Bool) (trustChains : List (TrustChain Key)) : Except Exc (ResolveResponse Key) :=
  match trustChains.find? (fun trustChain => trustChain.anchor = request.anchor) with
  | none => throw (.attributeError "metadata")
  | some trustChain => do
      let metadata ← answerMetadata request.type trustChain.metadata
      let leafEc ← readConfiguration env request.sub
      let taEc ← readTaEc env request.anchor withTaEc
      return {
        iss := entityId
        sub := request.sub
        metadata := metadata
        trustChain := (leafEc :: trustChain.chain.dropLast.reverse ++ taEc.toList).map some }

section Answers

variable [KeyStore Jar Key] [LawfulKeyStore Jar] {ho : HashOrder} {known : EntityId → Bool}

end Answers

/-! ## A federation entity that resolves -/

/-- What the entity is asked: for itself, or to resolve for somebody else. -/
inductive FederationCall where
  | trust (op : TrustCall)
  | resolve (request : ResolveRequest) (withTaEc : Bool)

/-- What it answers. -/
inductive FederationAnswer (Key : Type) where
  | handedOut (answer : HandedOut Key)
  | resolved (answer : ResolveResponse Key)

namespace FederationCall

/-- Whom it is asked about. -/
def entityId : FederationCall → EntityId
  | .trust op => op.entityId
  | .resolve request _ => request.sub

/-- It is asked about one of the entities, and for an anchor that has nobody above it. -/
def Within (env : CollectorEnv Key) (entities : Finset EntityId) : FederationCall → Prop
  | .trust op => op.entityId ∈ entities
  | .resolve request _ =>
      request.sub ∈ entities ∧ request.anchor ∈ entities ∧ AtTop env request.anchor

/-- What it answers where these trust chains were found. -/
def answer (env : CollectorEnv Key) (id : EntityId) (found : Except Exc (List (TrustChain Key))) :
    FederationCall → Except Exc (FederationAnswer Key)
  | .trust op => do return .handedOut (← op.handsOut found)
  | .resolve request withTaEc => do
      return .resolved (← found >>= answerFrom env id request withTaEc)

variable [KeyStore Jar Key]

/-- The call to the entity. -/
def run (ho : HashOrder) (env : CollectorEnv Key) (id : EntityId) :
    FederationCall → EStateM Exc (FederationState Jar Key) (FederationAnswer Key)
  | .trust op => do return .handedOut (← op.call ho env)
  | .resolve request withTaEc => do
      return .resolved (← processRequest ho env id request withTaEc)

/-- What is resolved, without the configuration of the anchor, checks for everybody who holds the
    keys of the anchor. -/
def Checks (Jar : Type) [KeyStore Jar Key] (ho : HashOrder) (env : CollectorEnv Key)
    (answered : Except Exc (FederationAnswer Key)) : FederationCall → Prop
  | .trust _ => True
  | .resolve request withTaEc => ∀ resolved, answered = .ok (.resolved resolved) →
      withTaEc = false → ∀ party : Jar, (∀ ta, configuration env request.anchor = .ok ta →
        ∀ k ∈ ta.payload.keys, k ∈ keysOf party request.anchor) → Rechecks ho party request resolved

end FederationCall

end Fedservice.Entity.Server.Resolve
