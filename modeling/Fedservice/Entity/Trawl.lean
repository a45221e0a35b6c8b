/-
  Fedservice.Entity.Trawl

  `get_metadata` of the collector, `FederationEntity.trawl` and what they go
  through: the requests of the federation client (entity/client) and
  `get_verified_endpoint` (entity/function/trust_anchor.py).  What the client library
  makes of the text of a successful response is part of the world.

  With the federation entity goes a record of what has been read from the
  configuration cache to be used as an entity configuration.
-/

import Fedservice.Entity.FederationEntity

namespace Fedservice.Entity

open Fedservice.Lib Fedservice.Py Fedservice.EntityStatement Fedservice.Crypto
  Fedservice.Entity.Function

variable {Jar Key : Type}

/-! ## Reads of the configuration cache -/

section Reads

variable [DecidableEq Key] (env : CollectorEnv Key)

/-- What `collect_branch` reads to be used, from the state given, where `treeReads` is
    for the next level. -/
def branchReads
    (treeReads : EntityId → Option (Statement Key) → List EntityId → CollectorState Key →
      List (Option (CachedConfig Key)))
    (entity authority : EntityId) (seen : List EntityId) (st : CollectorState Key) :
    List (Option (CachedConfig Key)) :=
  if entity = authority && decide (entity ∈ env.trustAnchors) then []
  else match getEntityStatementFor env entity authority st with
    | .ok (some entityStatement) st₁ =>
        if !tokenTruthy entityStatement then []
        else match configCacheItem env authority st₁ with
          | .ok read st₂ =>
              read :: treeReads authority (read.map (·.payload)) (seen ++ [authority]) st₂
          | .error _ _ => []
    | _ => []

/-- What the loop of `collect_tree` reads. -/
def superiorsReads
    (collectTree : EntityId → Option (Statement Key) → List EntityId →
      EStateM Exc (CollectorState Key) (Function.Tree Key))
    (treeReads : EntityId → Option (Statement Key) → List EntityId → CollectorState Key →
      List (Option (CachedConfig Key)))
    (entityId : EntityId) (seen : List EntityId) :
    List EntityId → CollectorState Key → List (Option (CachedConfig Key))
  | [], _ => []
  | authority :: rest, st =>
      branchReads env treeReads entityId authority seen st ++
        match collectBranch env collectTree entityId authority seen st with
        | .ok _ st₁ => superiorsReads collectTree treeReads entityId seen rest st₁
        | .error _ _ => []

/-- What `collect_tree` reads. -/
def treeReads (stopAt : EntityId) : Nat → EntityId → Option (Statement Key) → List EntityId →
    CollectorState Key → List (Option (CachedConfig Key))
  | 0, _, _, _, _ => []
  | depth + 1, entityId, entityConfiguration, seen, st =>
      match entityConfiguration with
      | none => []
      | some config =>
          match config.authorityHints with
          | none => []
          | some hints =>
              if config.iss = stopAt then []
              else superiorsReads env (collectTree env stopAt depth) (treeReads stopAt depth)
                entityId seen hints st

/-- What `__call__` reads. -/
def callReads (entityId : EntityId) (seen : List EntityId) (stopAt : EntityId)
    (st : CollectorState Key) : List (Option (CachedConfig Key)) :=
  match leafConfiguration env entityId st with
  | .ok (some config) st₁ =>
      treeReads env stopAt env.recursionLimit entityId (some config.payload) seen st₁
  | _ => []

end Reads

/-- A federation entity with a record of what has been read from the configuration
    cache to be used. -/
structure Traced (Jar Key : Type) where
  federation : FederationState Jar Key
  reads : List (Option (CachedConfig Key)) := []

/-- Run something on the federation entity, given what it reads to be used. -/
def tracing {α : Type} (reads : CollectorState Key → List (Option (CachedConfig Key)))
    (m : EStateM Exc (FederationState Jar Key) α) : EStateM Exc (Traced Jar Key) α := do
  modify fun t => { t with reads := t.reads ++ reads t.federation.collector }
  zoom (·.federation) (fun federation t => { t with federation := federation }) m

theorem tracing_apply {α : Type} (reads : CollectorState Key → List (Option (CachedConfig Key)))
    (m : EStateM Exc (FederationState Jar Key) α) (t : Traced Jar Key) :
    tracing reads m t =
      match m t.federation with
      | .ok a st => .ok a ⟨st, t.reads ++ reads t.federation.collector⟩
      | .error e st => .error e ⟨st, t.reads ++ reads t.federation.collector⟩ := by
  have hmodify : (modify fun t => { t with reads := t.reads ++ reads t.federation.collector } :
      EStateM Exc (Traced Jar Key) PUnit) t =
        .ok ⟨⟩ ⟨t.federation, t.reads ++ reads t.federation.collector⟩ := rfl
  rw [tracing, bind_of_ok hmodify]
  unfold zoom
  cases m t.federation <;> rfl

/-- Run something that reads nothing to be used. -/
def inFederation {α : Type} (m : EStateM Exc (FederationState Jar Key) α) :
    EStateM Exc (Traced Jar Key) α :=
  zoom (·.federation) (fun federation t => { t with federation := federation }) m

/-- Run something without keeping a record of what it reads. -/
def untraced {α : Type} (m : EStateM Exc (Traced Jar Key) α) :
    EStateM Exc (FederationState Jar Key) α := fun fe =>
  match m ⟨fe, []⟩ with
  | .ok a t => .ok a t.federation
  | .error e t => .error e t.federation

/-- `self.config_cache[entity_id]`, to be used as an entity configuration: indexing a
    `None` raises. -/
def usedConfig (env : CollectorEnv Key) (entityId : EntityId) :
    EStateM Exc (Traced Jar Key) (CachedConfig Key) := do
  let read ← inFederation (inCollector (configCacheItem env entityId))
  modify fun t => { t with reads := t.reads ++ [read] }
  match read with
  | none => throw .typeError
  | some config => return config

/-! ## get_metadata -/

/-- `statement_is_expired`. -/
def statementIsExpired (env : CollectorEnv Key) (statement : Statement Key) :
    EStateM Exc (CollectorState Key) Bool := do
  let now ← utcTimeSansFrac env
  return decide (statement.exp < now)

/-- `_ec["metadata"]`. -/
def metadataOf (ec : Statement Key) : Except Exc (Dict Metadata) :=
  match ec.metadata with
  | none => .error (.keyError "metadata")
  | some metadata => .ok metadata

section Entity

variable [KeyStore Jar Key] [DecidableEq Key] (ho : HashOrder) (env : CollectorEnv Key)

omit [KeyStore Jar Key] [DecidableEq Key] in
/-- The first half of `get_metadata`: the cached configuration, unless it has expired. -/
def cachedMetadataConfig (entityId : EntityId) :
    EStateM Exc (Traced Jar Key) (Option (CachedConfig Key)) := do
  let t ← get
  if entityId ∈ t.federation.collector.configCache then do
    let ec ← usedConfig env entityId
    if ← inFederation (inCollector (statementIsExpired env ec.payload)) then return none
    else return some ec
  else return none

/-- `TrustChainCollector.get_metadata`. -/
def getMetadata (entityId : EntityId) : EStateM Exc (Traced Jar Key) (Dict Metadata) := do
  match ← cachedMetadataConfig env entityId with
  | some ec => inFederation (lift (metadataOf ec.payload))
  | none => do
      let (chains, _) ← tracing (callReads env entityId [] "")
        (inCollector (collectTrustChains env entityId))
      let _ ← inFederation (inKeyjar (verifyTrustChains [] chains))
      let ec ← usedConfig env entityId
      inFederation (lift (metadataOf ec.payload))

/-! ## The requests of the federation client -/

/-- `service.parse_response`: what the client library makes of the text of a successful
    response from an entity, given the keys held and the content type. -/
abbrev ParseResponse (Key α : Type) : Type :=
  EntityId → (EntityId → List Key) → Option String → Token Key → Except Exc α

/-- The configuration of the client and the library functions it calls. -/
structure ClientEnv (Key : Type) where
  trPriority : List EntityId := []
  entityStatement : ParseResponse Key (Statement Key)
  entityConfiguration : ParseResponse Key (Statement Key)
  list : ParseResponse Key (List EntityId)

/-- What `service_request` returns: what was parsed, `{"http_response": resp}` or an error
    message. -/
inductive Reply (α : Type) where
  | parsed (a : α)
  | httpResponse
  | errorMessage

/-- What a loop over a reply to `list` goes through: of a dictionary it takes the keys. -/
def Reply.ids : Reply (List EntityId) → List EntityId
  | .parsed ids => ids
  | .httpResponse => ["http_response"]
  | .errorMessage => ["error", "error_description"]

/-- `SUCCESSFUL`. -/
def successful : List Nat := [200, 201, 202, 203, 204, 205, 206]

omit [KeyStore Jar Key] [DecidableEq Key] in
/-- `get_response` and `parse_request_response`. -/
def getResponse {α : Type} (parse : Option String → Token Key → Except Exc α) :
    HttpResponse Key → Except Exc (Reply α)
  | .connectionError => throw .connectionError
  | .reply status contentType text =>
      if 300 ≤ status ∧ status < 400 then return .httpResponse
      else if 400 ≤ status then return .errorMessage
      else if status ∈ successful then do return .parsed (← parse contentType text)
      else throw .oidcServiceError

variable (client : ClientEnv Key)

omit [DecidableEq Key] in
/-- `service_request`, of a request to an entity. -/
def serviceRequest {α : Type} (parse : ParseResponse Key α) (issuer : EntityId) (url : String) :
    EStateM Exc (Traced Jar Key) (Reply α) := do
  let resp ← inFederation (inCollector (httpGet env url))
  let t ← get
  lift (getResponse (parse issuer (keysOf t.federation.keyjar)) resp)

omit [DecidableEq Key] in
/-- `client.do_request("entity_statement", issuer=issuer, subject=subject)`. -/
def requestEntityStatement (issuer subject : EntityId) :
    EStateM Exc (Traced Jar Key) (Reply (Statement Key)) := do
  let ec ← usedConfig env issuer
  let metadata ← lift (metadataOf ec.payload)
  let fe ← lift (item metadata "federation_entity")
  let fetchEndpoint ← lift (item fe "federation_fetch_endpoint")
  if !fetchEndpoint.truthy then throw (.attributeError "Missing endpoint")
  else match fetchEndpoint with
    | .str location =>
        serviceRequest env client.entityStatement issuer (env.request location issuer subject)
    | _ => throw .typeError

omit [DecidableEq Key] in
/-- `client.do_request("entity_configuration", entity_id=entity_id)`: what is parsed is
    put in the cache of the collector under its issuer. -/
def requestEntityConfiguration (entityId : EntityId) :
    EStateM Exc (Traced Jar Key) (Reply (Statement Key)) := do
  let url ← lift (Client.getRequestParameters env.rootIssuer entityId false)
  match ← serviceRequest env client.entityConfiguration entityId url with
  | .parsed response => do
      inFederation (inCollector (configCacheSet response.iss (.message response)))
      return .parsed response
  | reply => return reply

/-- `get_verified_trust_anchor_statement`. -/
def getVerifiedTrustAnchorStatement (entityId : EntityId) :
    EStateM Exc (FederationState Jar Key) (Statement Key) := do
  let ec ← inCollector (getEntityConfiguration env entityId)
  match factory ec with
  | none => throw (.attributeError "jwt")
  | some jwt => do
      let st ← get
      lift (verifyCompact (getJwtVerifyKeys st.keyjar jwt) jwt)

omit [KeyStore Jar Key] [DecidableEq Key] in
/-- `metadata["federation_entity"].get(endpoint_name)`, where there are such metadata. -/
def endpointIn (federationEntity : Except Exc Metadata) (endpointName : String) : Json :=
  match federationEntity with
  | .ok fe => (fe.lookup endpointName).getD .null
  | .error _ => .null

/-- `get_verified_endpoint`. -/
def getVerifiedEndpoint (entityId : EntityId) (endpointName : String) :
    EStateM Exc (Traced Jar Key) Json :=
  if entityId ∈ env.trustAnchors then do
    let res ← inFederation (getVerifiedTrustAnchorStatement env entityId)
    return endpointIn (metadataOf res >>= (item · "federation_entity")) endpointName
  else do
    let trustChains ← tracing (callReads env entityId [] "") (getVerifiedTrustChains ho env entityId)
    let trustChain ← lift (pickTrustChain client.trPriority trustChains)
    match trustChain.metadata.item "federation_entity" with
    | .ok none => throw (.attributeError "get")
    | .ok (some fe) => return endpointIn (.ok fe) endpointName
    | .error e => return endpointIn (.error e) endpointName

/-- An argument of `list`. -/
inductive ListArg where
  | text (s : String)
  | flag (b : Bool)

/-- `bool(val)`. -/
def ListArg.truthy : ListArg → Bool
  | .text s => s != ""
  | .flag b => b

/-- `str(val)`. -/
def ListArg.str : ListArg → String
  | .text s => s
  | .flag b => if b then "True" else "False"

omit [KeyStore Jar Key] [DecidableEq Key] in
/-- The URL of a `list` request; a URL without a scheme is refused by the HTTP client. -/
def listUrl (endpoint : Json) (args : List (String × ListArg)) : Except Exc String := do
  let endpoint ← match endpoint with
    | .str location => pure location
    | .null => pure "None"
    | _ => throw (.valueError [.lit "Invalid URL"])
  let qpart := (args.filter fun arg => arg.2.truthy).map fun arg => (arg.1, arg.2.str)
  return if qpart.isEmpty then endpoint else s!"{endpoint}?{urlencode qpart}"

/-- `client.do_request("list", entity_id=entity_id, ..)`, to be iterated over. -/
def requestList (entityId : EntityId) (args : List (String × ListArg)) :
    EStateM Exc (Traced Jar Key) (List EntityId) := do
  let endpoint ← getVerifiedEndpoint ho env client entityId "federation_list_endpoint"
  let url ← lift (listUrl endpoint args)
  let reply ← serviceRequest env client.list entityId url
  return reply.ids

/-! ## trawl -/

/-- The entity configuration that `trawl` looks at. -/
def trawlConfiguration (superior subordinate : EntityId) :
    EStateM Exc (Traced Jar Key) (Statement Key) := do
  let t ← get
  if subordinate ∈ t.federation.collector.configCache then do
    let ec ← usedConfig env subordinate
    return ec.payload
  else do
    match ← requestEntityStatement env client superior subordinate with
    | .parsed es =>
        -- add subjects key/-s to keyjar
        match es.jwks with
        | none => throw (.keyError "jwks")
        | some jwks => do
            inFederation (inKeyjar (modify fun keyjar => KeyStore.addKb keyjar es.sub jwks))
            match ← requestEntityConfiguration env client subordinate with
            | .parsed ec => return ec
            | _ => throw (.keyError "metadata")
    | _ => throw (.keyError "jwks")

/-- The loop of `trawl` over the intermediates, given `trawl` for the next level. -/
def trawlIntermediates (trawl : EntityId → EStateM Exc (Traced Jar Key) (List EntityId))
    (issuers : List EntityId) : List EntityId → EStateM Exc (Traced Jar Key) (List EntityId)
  | [] => return issuers
  | entityId :: rest => do
      let ids ← trawl entityId
      trawlIntermediates trawl (issuers ++ ids) rest

/-- `FederationEntity.trawl`, to the depth given. -/
def trawl (entityType : String) : Nat → EntityId → EntityId →
    EStateM Exc (Traced Jar Key) (List EntityId)
  | 0, _, _ => throw .recursionError
  | depth + 1, superior, subordinate => do
      let ec ← trawlConfiguration env client superior subordinate
      let metadata ← lift (metadataOf ec)
      let issuers := if entityType ∈ metadata then [ec.sub] else []
      let fe ← lift (item metadata "federation_entity")
      if "federation_list_endpoint" ∉ fe then return issuers
      else do
        -- all subordinates that are of a specific entity_type
        let addedIssuers ← requestList ho env client subordinate [("entity_type", .text entityType)]
        -- all subordinates that are intermediates
        let intermediates ← requestList ho env client subordinate [("intermediate", .flag true)]
        trawlIntermediates (trawl entityType depth subordinate) (issuers ++ addedIssuers)
          intermediates

end Entity

end Fedservice.Entity
