/-
  Fedservice.AppServer.Server

  A server in a federation (appserver/__init__.py): the federation entity next
  to the protocol server, whose clients and client keys registration adds to.

  Registration proper belongs to the protocol library, as do the classes that
  requests are built with and the import of keys; they are parameters.
-/

import Fedservice.Entity.FederationEntity

namespace Fedservice.AppServer

open Fedservice.Lib Fedservice.Py Fedservice.EntityStatement Fedservice.Crypto Fedservice.Entity
  Fedservice.Entity.Function

/-! ## The protocol library -/

/-- The message classes that registration requests are built with. -/
inductive MessageClass where
  /-- `idpyoidc.message.oidc.RegistrationRequest` -/
  | registrationRequest
  /-- `idpyoidc.message.oauth2.OauthClientMetadata` -/
  | oauthClientMetadata
  /-- `fedservice.message.OauthClientMetadata` -/
  | federationOauthClientMetadata
deriving DecidableEq

/-- `process_request` of the registration endpoint of the library.  It answers
    with the arguments of the response, or with an error; what it registers it
    registers under the client ID in the response, and that is the one in the
    request where it is told to make no new one. -/
structure Registrar where
  /-- The response to a request, for the `new_id` passed and the clients known. -/
  answer : Option Bool → Metadata → Dict Metadata → Option (EntityId × Metadata)
  keepsId : ∀ {request : Metadata} {clients : Dict Metadata} {id : EntityId} {args : Metadata},
    answer (some false) request clients = some (id, args) →
      request.lookup "client_id" = some (.str id)

/-- The configuration of a server and what it uses of libraries. -/
structure ServerEnv (Key : Type) where
  collector : CollectorEnv Key
  ho : HashOrder := .insertion
  /-- `context.tr_priority` -/
  trPriority : List EntityId := []
  /-- The names of the units in the topmost unit. -/
  units : List String := ["federation_entity", "openid_provider", "oauth_authorization_server"]
  /-- `new_client_id` of an authorization endpoint. -/
  newClientId : Bool := false
  /-- `cls(**metadata)` -/
  construct : MessageClass → Metadata → Except Exc Metadata
  /-- What `import_jwks` raises for a JWKS, if it does. -/
  importJwksRaises : Json → Option Exc := fun _ => none
  registrar : Registrar

/-! ## The state -/

/-- Where the keys of a client are taken from. -/
inductive KeySource where
  | url (jwksUri : Json)
  | jwks (jwks : Json)
  | symmetric (secret : String)
deriving DecidableEq

/-- The state of a server: the federation entity, the keys imported for clients
    and under which ID, the client database, and the trust chains that
    `save_trust_chains` keeps by leaf and trust anchor. -/
structure Server (Jar Key : Type) where
  federation : FederationState Jar Key
  keyImports : List (EntityId × KeySource) := []
  clients : Dict Metadata := ∅
  trustChain : Dict (Dict (TrustChain Key)) := ∅

variable {Jar Key : Type}

/-- Run something on the federation entity. -/
def inFederation {α : Type} (m : EStateM Exc (FederationState Jar Key) α) :
    EStateM Exc (Server Jar Key) α :=
  zoom (·.federation) (fun fe st => { st with federation := fe }) m

theorem inFederation_eq_ok {α : Type} {m : EStateM Exc (FederationState Jar Key) α} {a : α}
    {st st' : Server Jar Key} :
    inFederation m st = .ok a st' ↔
      ∃ fe, m st.federation = .ok a fe ∧ st' = { st with federation := fe } :=
  zoom_eq_ok

/-- Run something on the collector of the federation entity. -/
def inServerCollector {α : Type} (m : EStateM Exc (CollectorState Key) α) :
    EStateM Exc (Server Jar Key) α :=
  inFederation (inCollector m)

/-- `federation_entity.trust_chain_anchor = anchor`. -/
def setTrustChainAnchor (anchor : EntityId) : EStateM Exc (Server Jar Key) Unit :=
  modify (fun st => { st with federation := { st.federation with
    trustChainAnchor := some anchor } })

/-- `trust_chain.metadata[entity_type]`, used as a dictionary; `unusable` is
    raised where it is `None`. -/
def chainMetadata (entityType : String) (unusable : Exc) (trustChain : TrustChain Key) :
    Except Exc Metadata := do
  match ← trustChain.metadata.item entityType with
  | none => throw unusable
  | some metadata => return metadata

theorem chainMetadata_eq_ok {entityType : String} {unusable : Exc} {tc : TrustChain Key}
    {metadata : Metadata} :
    chainMetadata entityType unusable tc = .ok metadata ↔
      tc.metadata.item entityType = .ok (some metadata) := by
  unfold chainMetadata
  rw [except_bind_eq_ok]
  constructor
  · rintro ⟨found, hfound, h⟩
    cases found with
    | none => simp at h
    | some m => rw [hfound, except_pure_eq_ok.mp h]
  · exact fun h => ⟨some metadata, h, rfl⟩

/-! ## Client keys -/

/-- `keyjar.add_url(entity_id, jwks_uri)`. -/
def addUrl (entityId : EntityId) (jwksUri : Json) : EStateM Exc (Server Jar Key) Unit :=
  modify (fun st => { st with keyImports := st.keyImports ++ [(entityId, .url jwksUri)] })

variable (env : ServerEnv Key)

/-- `import_jwks(keyjar, jwks, entity_id)`. -/
def importClientJwks (jwks : Json) (entityId : EntityId) : EStateM Exc (Server Jar Key) Unit :=
  match env.importJwksRaises jwks with
  | some e => throw e
  | none => modify (fun st => { st with keyImports := st.keyImports ++ [(entityId, .jwks jwks)] })

/-- `information.get(claim)`. -/
def getClaim (information : Metadata) (claim : String) : Json :=
  (information.lookup claim).getD .null

/-- `import_client_keys`. -/
def importClientKeys (information : Metadata) (entityId : EntityId) :
    EStateM Exc (Server Jar Key) Unit :=
  if (getClaim information "signed_jwks_uri").truthy then pure ()
  else if (getClaim information "jwks_uri").truthy then
    addUrl entityId (getClaim information "jwks_uri")
  else if (getClaim information "jwks").truthy then
    importClientJwks env (getClaim information "jwks") entityId
  else pure ()

/-! ## Registration -/

/-- `non_fed_process_request`: the library registers the client.  The claim
    `net_id` that the OIDC endpoint adds where `new_id` is missing is none the
    library knows, so `new_id` stays missing. -/
def nonFedProcessRequest (request : Metadata) (newId : Option Bool) :
    EStateM Exc (Server Jar Key) (Option (EntityId × Metadata)) := do
  let st ← get
  match env.registrar.answer newId request st.clients with
  | none => return none
  | some (id, args) => do
      set { st with clients := st.clients.insert id request }
      return some (id, args)

/-- What is registered is stored as it is. -/
theorem nonFedProcessRequest_eq_ok {request args : Metadata} {newId : Option Bool} {id : EntityId}
    {st st' : Server Jar Key}
    (h : nonFedProcessRequest env request newId st = .ok (some (id, args)) st') :
    env.registrar.answer newId request st.clients = some (id, args) ∧
      st' = { st with clients := st.clients.insert id request } := by
  unfold nonFedProcessRequest at h
  rw [bind_of_ok (get_apply st)] at h
  cases hanswer : env.registrar.answer newId request st.clients with
  | none => simp [hanswer] at h
  | some p =>
      obtain ⟨id', args'⟩ := p
      simp only [hanswer] at h
      rw [bind_of_ok (set_apply st _), pure_apply] at h
      obtain ⟨hp, rfl⟩ := EStateM.Result.ok.inj h
      obtain ⟨rfl, rfl⟩ := Prod.mk.inj (Option.some.inj hp)
      exact ⟨rfl, rfl⟩

/-! ## A server to run -/

/-- A library that makes a new client ID unless it is told not to. -/
def freshIdRegistrar : Registrar where
  answer newId request _ :=
    match newId, request.lookup "client_id" with
    | some false, some (.str id) => some (id, ∅)
    | some false, _ => none
    | _, _ => some ("new-client", ∅)
  keepsId := by
    intro request clients id args h
    split at h <;> simp_all

/-- A server on a web, where the clock stands still and the libraries accept
    everything. -/
def serverEnvOn (web : String → HttpResponse Nat) : ServerEnv Nat where
  collector := {
    trustAnchors := ["https://ta.org"]
    now := fun _ => 0
    httpc := fun _ url => web url
    request := fun location _ _ => location }
  construct _ metadata := .ok metadata
  registrar := freshIdRegistrar

/-- A server that has met nobody but its trust anchor. -/
def freshServer : Server (AssocJar Nat) Nat where
  federation := { keyjar := ⟨[("https://ta.org", [1])]⟩ }

end Fedservice.AppServer
