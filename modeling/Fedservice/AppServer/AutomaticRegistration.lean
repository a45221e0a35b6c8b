/-
  Fedservice.AppServer.AutomaticRegistration

  `do_automatic_registration` of the authorization endpoints of OIDC and OAuth2
  and of the endpoint for pushed authorization requests (appserver/oidc/authorization.py,
  appserver/oauth2/authorization.py, appserver/oauth2/pushed_authorization.py).

  The three are copies of one procedure that differ in a few places; these are
  the fields of `Endpoint`.
-/

import Fedservice.AppServer.Server

namespace Fedservice.AppServer

open Fedservice.Lib Fedservice.Py Fedservice.EntityStatement Fedservice.Crypto Fedservice.Entity
  Fedservice.Entity.Function

variable {Jar Key : Type} [KeyStore Jar Key] [DecidableEq Key] (env : ServerEnv Key)

/-! ## The trust chains of a client -/

/-- The chain that came with the request, verified.  The client sends it with
    its own statement first. -/
def verifyProvided (providedTrustChain : List (Token Key)) :
    EStateM Exc (FederationState Jar Key) (List (TrustChain Key)) :=
  -- the trust anchor's statement comes first
  inKeyjar (verifyTrustChains [] [providedTrustChain.reverse])

/-- The trust chains as the OIDC endpoint and the one for pushed requests get them. -/
def trustChainsFor (clientEntityId : EntityId) (providedTrustChain : List (Token Key)) :
    EStateM Exc (FederationState Jar Key) (List (TrustChain Key)) :=
  if providedTrustChain ≠ [] then do
    let trustChains ← verifyProvided providedTrustChain
    lift (applyPolicies env.ho trustChains)
  else getVerifiedTrustChains env.ho env.collector clientEntityId

/-- The trust chains as the OAuth2 endpoint gets them. -/
def oauth2TrustChainsFor (entityId : EntityId) (providedTrustChain : List (Token Key)) :
    EStateM Exc (FederationState Jar Key) (List (TrustChain Key)) := do
  let trustChains ←
    if providedTrustChain ≠ [] then verifyProvided providedTrustChain
    else do
      let (chains, signedEntityConfiguration) ← inCollector (collectTrustChains env.collector entityId)
      inKeyjar (verifyTrustChains
        (signedEntityConfiguration.toList.map (fun config => .jws config.jws)) chains)
  lift (applyPolicies env.ho trustChains)

/-! ## The endpoints -/

/-- What an endpoint does its own way. -/
structure Endpoint (Jar Key : Type) where
  trustChains : EntityId → List (Token Key) →
    EStateM Exc (FederationState Jar Key) (List (TrustChain Key))
  /-- What is noted about the chains in the federation entity. -/
  note : EntityId → List (TrustChain Key) → TrustChain Key →
    FederationState Jar Key → FederationState Jar Key
  /-- The entity type of the client. -/
  clientType : String
  importKeys : TrustChain Key → EntityId → EStateM Exc (Server Jar Key) Unit
  message : MessageClass
  /-- The unit whose registration endpoint is used. -/
  unit : String
  /-- The `new_id` that is passed on. -/
  newId : Option Bool

omit [KeyStore Jar Key] [DecidableEq Key] in
/-- The key import of the OIDC endpoint.  Unlike `import_client_keys` it imports
    a JWKS whatever it is. -/
def importOpenidClientKeys (trustChain : TrustChain Key) (clientEntityId : EntityId) :
    EStateM Exc (Server Jar Key) Unit :=
  if "openid_provider" ∈ env.units then do
    let metadata ← lift (chainMetadata "openid_relying_party" (.attributeError "get") trustChain)
    -- get_verified_jwks finds no keys for a signed_jwks_uri yet
    if (getClaim metadata "signed_jwks_uri").truthy then pure ()
    else if (getClaim metadata "jwks_uri").truthy then
      addUrl clientEntityId (getClaim metadata "jwks_uri")
    else importClientJwks env (getClaim metadata "jwks") clientEntityId
  else pure ()

omit [KeyStore Jar Key] [DecidableEq Key] in
/-- The key import of the two OAuth2 endpoints. -/
def importOauthClientKeys (trustChain : TrustChain Key) (entityId : EntityId) :
    EStateM Exc (Server Jar Key) Unit := do
  let metadata ← lift (chainMetadata "oauth_client" (.attributeError "get") trustChain)
  importClientKeys env metadata entityId

/-- The authorization endpoint of OIDC. -/
def oidcAuthorization : Endpoint Jar Key where
  trustChains := trustChainsFor env
  note clientEntityId trustChains _ := storeTrustChains clientEntityId trustChains
  clientType := "openid_relying_party"
  importKeys := importOpenidClientKeys env
  message := .registrationRequest
  unit := "openid_provider"
  newId := some env.newClientId

/-- The authorization endpoint of OAuth2. -/
def oauth2Authorization : Endpoint Jar Key where
  trustChains := oauth2TrustChainsFor env
  note _ _ trustChain st := { st with trustChainAnchor := some trustChain.anchor }
  clientType := "oauth_client"
  importKeys := importOauthClientKeys env
  message := .oauthClientMetadata
  unit := "oauth_authorization_server"
  newId := some env.newClientId

/-- The endpoint for pushed authorization requests.  Its `new_client_id` is the
    empty string, so it passes no `new_id` on. -/
def pushedAuthorization : Endpoint Jar Key where
  trustChains := trustChainsFor env
  note _ _ trustChain st := { st with trustChainAnchor := some trustChain.anchor }
  clientType := "oauth_client"
  importKeys := importOauthClientKeys env
  message := .federationOauthClientMetadata
  unit := "oauth_authorization_server"
  newId := none

/-! ## do_automatic_registration -/

variable (endpoint : Endpoint Jar Key)

omit [KeyStore Jar Key] [DecidableEq Key] in
/-- The second half of `do_automatic_registration`: keys and metadata of the
    chain that was picked go under the client's ID. -/
def registerFromChain (clientEntityId : EntityId) (trustChain : TrustChain Key) :
    EStateM Exc (Server Jar Key) (Option EntityId) := do
  endpoint.importKeys trustChain clientEntityId
  let metadata ← lift (chainMetadata endpoint.clientType .typeError trustChain)
  let request ← lift (env.construct endpoint.message metadata)
  -- the ID the client goes by, whoever the chain is about
  let request := request.insert "client_id" (.str clientEntityId)
  if endpoint.unit ∉ env.units then throw (.keyError endpoint.unit)
  else do
    let response ← nonFedProcessRequest env request endpoint.newId
    return response.map (·.1)

omit [KeyStore Jar Key] [DecidableEq Key] in
/-- `do_automatic_registration`. -/
def doAutomaticRegistration (clientEntityId : EntityId) (providedTrustChain : List (Token Key)) :
    EStateM Exc (Server Jar Key) (Option EntityId) := do
  let trustChains ← inFederation (endpoint.trustChains clientEntityId providedTrustChain)
  match trustChains with
  | [] => throw .noTrustedChains
  | trustChain :: _ => do
      -- pick one of the possible
      modify (fun st => { st with
        federation := endpoint.note clientEntityId trustChains trustChain st.federation })
      registerFromChain env endpoint clientEntityId trustChain

end Fedservice.AppServer
