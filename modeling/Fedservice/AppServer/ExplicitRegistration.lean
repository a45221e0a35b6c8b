/-
  Fedservice.AppServer.ExplicitRegistration

  `Registration.process_request` of OIDC and of OAuth2 (appserver/oidc/registration.py,
  appserver/oauth2/registration.py).  Each of them first works out from a
  self-signed request what is to be registered, then has it registered, and
  answers with a statement about what was.

  The registration step of the OAuth2 endpoint is a parameter here.
-/

import Fedservice.AppServer.Server
import Fedservice.EntityStatement.SaveTrustChains

namespace Fedservice.AppServer

open Fedservice.Lib Fedservice.Py Fedservice.EntityStatement Fedservice.Crypto Fedservice.Entity
  Fedservice.Entity.Function

variable {Jar Key : Type} (env : ServerEnv Key)

/-! ## What is to be registered -/

/-- What `process_request` has worked out when it comes to registering. -/
structure Prepared (Key : Type) where
  payload : Statement Key
  opponentEntityType : String
  /-- The ID of the trust anchor of the chain that was picked. -/
  anchor : EntityId
  request : Metadata

/-- `set(payload['metadata'].keys()).difference(own).pop()`. -/
def opponentEntityType (own : List String) (payload : Statement Key) : Except Exc String :=
  match payload.metadata with
  | none => .error (.keyError "metadata")
  | some metadata =>
      match env.ho.arrange (metadata.keys.filter (fun entityType => entityType ∉ own)) with
      | [] => .error (.keyError "pop from an empty set")
      | entityType :: _ => .ok entityType

/-- `payload["metadata"][entity_type]`. -/
def publishedMetadata (payload : Statement Key) (entityType : String) : Except Exc Metadata :=
  match payload.metadata with
  | none => .error (.keyError "metadata")
  | some metadata => item metadata entityType

/-- The registration request of OIDC for some metadata of an entity. -/
def openidRequest (sub : EntityId) (metadata : Metadata) : Except Exc Metadata := do
  let req ← env.construct .registrationRequest metadata
  return req.insert "client_id" (.str sub)

/-- `save_trust_chains(context, trust_chains)`. -/
def saveServerTrustChains (trustChains : List (TrustChain Key)) :
    EStateM Exc (Server Jar Key) Unit := do
  let st ← get
  let kept ← lift (saveTrustChains trustChains st.trustChain)
  set { st with trustChain := kept }

/-! ## The answer -/

/-- The claims of the statement that answers a request, but for those that are
    the server's own. -/
structure ResponseStatement where
  sub : EntityId
  aud : EntityId
  trustAnchorId : EntityId
  entityType : String
  metadata : Metadata

/-- A dictionary without some keys. -/
def without (claims : List String) (metadata : Metadata) : Metadata :=
  claims.foldl (fun m claim => m.erase claim) metadata

/-- The last part of `process_request`: the request without the claims in
    `unsent`, then the response arguments, then without those in `unchanged`. -/
def answerWith (unsent unchanged : List String) (prepared : Prepared Key)
    (responseArgs : Metadata) : ResponseStatement where
  sub := prepared.payload.iss
  aud := prepared.payload.iss
  trustAnchorId := prepared.anchor
  entityType := prepared.opponentEntityType
  metadata := without unchanged ((without unsent prepared.request).update responseArgs)

variable [KeyStore Jar Key] [DecidableEq Key]

/-! ## process_request -/

/-- The first part of `process_request` of the OIDC endpoint.  The request is
    built with the metadata in the payload. -/
def oidcPrepare (request : Token Key) : EStateM Exc (Server Jar Key) (Prepared Key) := do
  let config ← inServerCollector (verifySelfSignedSignature env.collector request)
  let payload := config.payload
  let entityType ← lift (opponentEntityType env ["federation_entity"] payload)
  -- collect trust chains
  let trustChains ← inFederation (getVerifiedTrustChains env.ho env.collector payload.sub)
  saveServerTrustChains trustChains
  let trustChain ← lift (pickTrustChain env.trPriority trustChains)
  setTrustChainAnchor trustChain.anchor
  let metadata ← lift (publishedMetadata payload entityType)
  let req ← lift (openidRequest env payload.sub metadata)
  return ⟨payload, entityType, trustChain.anchor, req⟩

/-- The trust chains of the OAuth2 endpoint: collected for the request, which is
    also the statement at their end. -/
def oauth2RequestChains (sub : EntityId) (request : Token Key) :
    EStateM Exc (FederationState Jar Key) (List (TrustChain Key)) := do
  let (chains, _) ← inCollector (collectTrustChains env.collector sub request)
  let trustChains ← inKeyjar (verifyTrustChains [request] chains)
  lift (applyPolicies env.ho trustChains)

/-- The first part of `process_request` of the OAuth2 endpoint.  The request is
    built with the metadata of the trust chain. -/
def oauth2Prepare (request : Token Key) : EStateM Exc (Server Jar Key) (Prepared Key) := do
  let config ← inServerCollector (verifySelfSignedSignature env.collector request)
  let payload := config.payload
  let entityType ← lift
    (opponentEntityType env ["federation_entity", "trust_mark_issuer"] payload)
  -- collect trust chains
  let trustChains ← inFederation (oauth2RequestChains env payload.sub request)
  let trustChain ← lift (pickTrustChain env.trPriority trustChains)
  setTrustChainAnchor trustChain.anchor
  let metadata ← lift (chainMetadata entityType .typeError trustChain)
  let req ← lift (env.construct .oauthClientMetadata metadata)
  return ⟨payload, entityType, trustChain.anchor, req⟩

/-- `Registration.process_request` of OIDC, `newId` being what the caller passes:
    the ID that was registered and the statement that answers, or `none` where
    the library refused the request. -/
def oidcProcessRequest (request : Token Key) (newId : Option Bool) :
    EStateM Exc (Server Jar Key) (Option (EntityId × ResponseStatement)) := do
  let prepared ← oidcPrepare env request
  let response ← nonFedProcessRequest env prepared.request newId
  return response.map (fun (id, args) => (id,
    answerWith ["jwks", "jwks_uri", "signed_jwks_uri"] ["application_type", "redirect_uris"]
      prepared args))

/-- `Registration.process_request` of OAuth2, `step2ProcessRequest` doing the
    registration. -/
def oauth2ProcessRequest
    (step2ProcessRequest : Metadata → EStateM Exc (Server Jar Key) (Option (EntityId × Metadata)))
    (request : Token Key) :
    EStateM Exc (Server Jar Key) (Option (EntityId × ResponseStatement)) := do
  let prepared ← oauth2Prepare env request
  let response ← step2ProcessRequest prepared.request
  return response.map (fun (id, args) => (id,
    answerWith [] ["application_type", "jwks", "redirect_uris"] prepared args))

end Fedservice.AppServer
