/-
  Fedservice.AppServer.RegisteredClients

  What a server comes to keep over a run of requests, to all its registration endpoints
  and in any order.  Anybody may ask for anything, and hand in any trust chain; every
  record of the client database, every key imported for a client and every trust chain
  saved goes back, by a trust chain, to the keys that the server had at the start.
-/

import Fedservice.AppServer.ClientBinding
import Fedservice.AppServer.ClientRegistrationSetup
import Fedservice.AppServer.ExplicitRegistration
import Fedservice.Entity.OwnConfigurations
import Fedservice.EntityStatement.TrustChainStore

namespace Fedservice.AppServer

open Fedservice.Lib Fedservice.Py Fedservice.EntityStatement Fedservice.Crypto Fedservice.Entity
  Fedservice.Entity.Function

variable {Jar Key : Type} [KeyStore Jar Key] [DecidableEq Key]

/-! ## Requests -/

/-- What a server may be asked to do: to authenticate a client or to look for its keys,
    which registers it if need be, to register one on its own request, or to find out about
    an entity. -/
inductive ServerRequest (Key : Type) where
  | clientAuthentication (kind : EndpointKind) (clientId : EntityId)
      (trustChain : List (Token Key))
  | findClientKeys (kind : EndpointKind) (iss : EntityId)
  | oidcRegistration (request : Token Key) (newId : Option Bool)
  | oauth2Registration (request : Token Key) (newId setSecret : Bool) (reserved : List EntityId)
  | federation (op : TrustCall)

/-- The tokens that come with a request. -/
def ServerRequest.tokens : ServerRequest Key → List (Token Key)
  | .clientAuthentication _ _ trustChain => trustChain
  | .findClientKeys _ _ => []
  | .oidcRegistration request _ => [request]
  | .oauth2Registration request _ _ _ => [request]
  | .federation _ => []

/-- `client_authentication` of an endpoint.  The library, which in the end authenticates the
    client, writes nothing here. -/
def EndpointKind.clientAuthentication (lib : RegistrationLib) (env : ServerEnv Key)
    (kind : EndpointKind) (clientId : EntityId) (trustChain : List (Token Key)) :
    EStateM Exc (Server Jar Key) (Dict Json) :=
  match kind with
  | .oidcAuthorization =>
      oidcClientAuthentication lib env (kind.endpoint env) (fun _ _ => return ∅) clientId trustChain
  | .oauth2Authorization | .pushedAuthorization =>
      AppServer.clientAuthentication lib env (kind.endpoint env) (fun _ _ => return ∅) clientId
        trustChain

/-- The statement came from a server that was asked, or with one of the requests. -/
def Received (env : ServerEnv Key) (requests : List (ServerRequest Key))
    (s : SignedStatement Key) : Prop :=
  Answers env.collector s ∨ ∃ request ∈ requests, .jws s ∈ request.tokens

/-! ## Where records and keys come from -/

section Grounds

variable (lib : RegistrationLib) (env : ServerEnv Key) (jar₀ : Jar)
  (requests : List (ServerRequest Key))

/-- A trust chain of statements that were received, which goes back to the roots. -/
def Grounded (tc : TrustChain Key) : Prop :=
  Credible env.ho jar₀ (Received env requests) tc

/-- Metadata of a client, by a trust chain that goes back to the roots and is one of `P`. -/
def Attested (P : TrustChain Key → Prop) (entityType : String) (metadata : Metadata) : Prop :=
  ∃ tc, Grounded env jar₀ requests tc ∧ P tc ∧
    tc.metadata.item entityType = .ok (some metadata)

omit [KeyStore Jar Key] in
/-- The trust chain was handed in under the client's ID, the leaf's statement first, or it
    ends with an entity configuration that was served for that ID. -/
def ForClient (clientId : EntityId) (tc : TrustChain Key) : Prop :=
  (∃ kind trustChain, .clientAuthentication kind clientId trustChain ∈ requests ∧
    tc.chain = trustChain.reverse) ∨
  EndsWithServed env.collector clientId tc

/-- A record of a client that was registered automatically, and the ID the library gave it. -/
def AutomaticFrom (id clientId : EntityId) (record : Metadata) : Prop :=
  ∃ (kind : EndpointKind) (metadata request : Metadata),
    Attested env jar₀ requests (ForClient env requests clientId)
      (kind.endpoint env : Endpoint Jar Key).clientType metadata ∧
    env.construct (kind.endpoint env : Endpoint Jar Key).message metadata = .ok request ∧
    record = request.insert "client_id" (.str clientId) ∧
    ∃ clients args, env.registrar.answer (kind.endpoint env : Endpoint Jar Key).newId record
      clients = some (id, args)

/-- What the OAuth2 endpoint makes of a request before it stores anything: the metadata are
    those of a trust chain that ends with the request. -/
def PreparedFrom (newId setSecret : Bool) (prepared : Metadata) (clientId : EntityId) : Prop :=
  ∃ token reserved entityType metadata request ids,
    .oauth2Registration token newId setSecret reserved ∈ requests ∧
    Attested env jar₀ requests (fun tc => tc.chain.getLast? = some token) entityType metadata ∧
    env.construct .oauthClientMetadata metadata = .ok request ∧
    prepareRegistration lib env.ho request newId reserved ids = .ok (prepared, clientId)

/-- How a record may get into the client database under an ID. -/
inductive RecordFrom : EntityId → Metadata → Prop
  | automatic {id clientId : EntityId} {record : Metadata}
      (origin : AutomaticFrom env jar₀ requests id clientId record) : RecordFrom id record
  /-- The record is put under the ID that the client gave too, and tells it. -/
  | alsoKnownAs {id clientId other : EntityId} {record : Metadata}
      (origin : AutomaticFrom env jar₀ requests id clientId record) (different : id ≠ clientId)
      (under : other = id ∨ other = clientId) :
      RecordFrom other (record.insert "entity_id" (.str clientId))
  /-- The metadata are what the request says; the chain is one of its subject, and only has
      to be there. -/
  | oidc {id : EntityId} {s : SignedStatement Key} {newId : Option Bool} {tc : TrustChain Key}
      {entityType : String} {metadata request : Metadata}
      (made : .oidcRegistration (.jws s) newId ∈ requests) (own : s.signer ∈ s.payload.keys)
      (chain : Grounded env jar₀ requests tc)
      (subject : EndsWithServed env.collector s.payload.sub tc)
      (published : publishedMetadata s.payload entityType = .ok metadata)
      (construct : openidRequest env s.payload.sub metadata = .ok request)
      (answer : ∃ clients args, env.registrar.answer newId request clients = some (id, args)) :
      RecordFrom id request
  /-- The record that is stored before the request has been checked. -/
  | provisional {newId setSecret : Bool} {prepared : Metadata} {clientId : EntityId}
      (prepare : PreparedFrom lib env jar₀ requests newId setSecret prepared clientId) :
      RecordFrom clientId (provisionalRecord lib clientId newId setSecret)
  | oauth2 {newId setSecret : Bool} {prepared cinfo : Metadata} {clientId : EntityId}
      (prepare : PreparedFrom lib env jar₀ requests newId setSecret prepared clientId)
      (checked : checkedRecord lib prepared
        (withClaims ["redirect_uris", "policy_uri", "logo_uri", "tos_uri"] prepared
          (provisionalRecord lib clientId newId setSecret)) = .ok cinfo) :
      RecordFrom clientId cinfo

/-- The keys that metadata or a request point to. -/
def keySources (information : Metadata) : List KeySource :=
  [.url (getClaim information "jwks_uri"), .jwks (getClaim information "jwks")]

/-- How keys may be imported for a client. -/
inductive ImportFrom : EntityId × KeySource → Prop
  | metadata {clientId : EntityId} {source : KeySource} {entityType : String} {metadata : Metadata}
      (attested : Attested env jar₀ requests (ForClient env requests clientId) entityType metadata)
      (listed : source ∈ keySources metadata) : ImportFrom (clientId, source)
  | request {newId setSecret : Bool} {clientId : EntityId} {source : KeySource}
      {prepared : Metadata}
      (prepare : PreparedFrom lib env jar₀ requests newId setSecret prepared clientId)
      (listed : source ∈ keySources prepared) : ImportFrom (clientId, source)
  | secret {newId : Bool} {clientId : EntityId} {prepared : Metadata}
      (prepare : PreparedFrom lib env jar₀ requests newId true prepared clientId) :
      ImportFrom (clientId, .symmetric (lib.secret clientId))

omit [KeyStore Jar Key] [DecidableEq Key] in
/-- All chains that `save_trust_chains` keeps meet `P`. -/
def AllSaved (P : TrustChain Key → Prop) (kept : TrustChainStore Key) : Prop :=
  ∀ leaf anchor tc, slot kept leaf anchor = some tc → P tc

/-- What the federation entity of the server holds. -/
def GroundedState (fe : FederationState Jar Key) : Prop :=
  RootedState env.ho jar₀ (Received env requests) fe ∧
    OwnConfigurations env.collector fe.collector

/-- All that the server keeps is accounted for. -/
structure Accounted (st : Server Jar Key) : Prop where
  federation : GroundedState env jar₀ requests st.federation
  saved : AllSaved (Grounded env jar₀ requests) st.trustChain
  clients : ∀ id record, st.clients.lookup id = some record →
    RecordFrom lib env jar₀ requests id record
  imports : ∀ entry ∈ st.keyImports, ImportFrom lib env jar₀ requests entry

end Grounds

variable {lib : RegistrationLib} {env : ServerEnv Key} {jar₀ : Jar}
  {requests : List (ServerRequest Key)}

/-- One more record that is. -/
theorem Accounted.stored {st : Server Jar Key} (h : Accounted lib env jar₀ requests st)
    {id : EntityId} {record : Metadata} (hrecord : RecordFrom lib env jar₀ requests id record) :
    Accounted lib env jar₀ requests (stored id record st) := by
  refine ⟨h.federation, h.saved, fun id' record' hlookup => ?_, h.imports⟩
  rcases Dict.lookup_insert_eq_some.mp hlookup with ⟨rfl, rfl⟩ | ⟨-, hbefore⟩
  · exact hrecord
  · exact h.clients id' record' hbefore

variable {kind : EndpointKind} {clientId : EntityId} {provided : List (Token Key)}
  {tc : TrustChain Key}

section Provided

variable (hmade : provided ≠ [] → ∃ kind, .clientAuthentication kind clientId provided ∈ requests)

include hmade

end Provided

section Setup

variable {token : Token Key} {newId setSecret : Bool} {reserved : List EntityId}
  {entityType : String} {metadata request : Metadata}
  (hmade : .oauth2Registration token newId setSecret reserved ∈ requests)
  (hattested : Attested env jar₀ requests (fun tc => tc.chain.getLast? = some token) entityType
    metadata)
  (hrequest : env.construct .oauthClientMetadata metadata = .ok request)

include hmade hattested hrequest

end Setup

/-! ## Runs -/

end Fedservice.AppServer
