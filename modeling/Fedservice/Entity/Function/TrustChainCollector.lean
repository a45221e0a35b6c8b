/-
  Fedservice.Entity.Function.TrustChainCollector

  `TrustChainCollector` (entity/function/trust_chain_collector.py): the superiors
  of an entity are collected level by level, from the web and from two caches.

  The state are the caches and a count of what has happened so far in the
  outside world (a reading of the clock, a request to a server), so that the
  clock may advance and a server may answer differently each time it is asked.
-/

import Fedservice.Crypto.KeyJar
import Fedservice.Entity.Client.EntityConfiguration

namespace Fedservice.Entity.Function

open Fedservice.Lib Fedservice.Py Fedservice.EntityStatement Fedservice.Crypto
  Fedservice.Entity.Client

variable {Key : Type}

/-! ## The outside world -/

/-- What comes of a request for a document. -/
inductive HttpResponse (Key : Type) where
  | connectionError
  | reply (status : Nat) (contentType : Option String) (text : Token Key)

/-- The configuration of the collector, the world around it, and the library
    functions it calls. -/
structure CollectorEnv (Key : Type) where
  trustAnchors : List EntityId
  allowedDelta : Int := 300
  /-- The issuer of the topmost unit, for requests that name nobody. -/
  rootIssuer : Option EntityId := none
  /-- How deep `collect_tree` may call itself. -/
  recursionLimit : Nat := 1000
  /-- The clock, when it is the n-th thing asked. -/
  now : Nat → Int
  /-- `httpc("GET", url)`, when it is the n-th thing asked. -/
  httpc : Nat → String → HttpResponse Key
  /-- `Message(iss=issuer, sub=subject).request(location)`. -/
  request : String → EntityId → EntityId → String
  /-- What `JWT.unpack` finds wrong with a payload, whoever signed it. -/
  unpackRejects : Int → Statement Key → Option Exc := fun _ _ => none

/-! ## Self-signed statements -/

/-- A statement that is signed with a key it lists itself. -/
structure SelfSigned (Key : Type) where
  jws : SignedStatement Key
  own : jws.signer ∈ jws.payload.keys

/-- The payload of a self-signed statement. -/
def SelfSigned.payload (config : SelfSigned Key) : Statement Key := config.jws.payload

/-- `bool(token)`: a text may be empty. -/
def tokenTruthy : Token Key → Bool
  | .jws _ => true
  | .text raw => raw != ""

/-! ## The caches -/

/-- An entry of the configuration cache: what the collector puts there is the
    verified payload with the token under `_jws`, what the entity configuration
    service puts there is a message, which is no `dict`. -/
inductive CachedConfig (Key : Type) where
  | dict (config : SelfSigned Key)
  | message (payload : Statement Key)

/-- The entity configuration in a cache entry. -/
def CachedConfig.payload : CachedConfig Key → Statement Key
  | .dict config => config.payload
  | .message payload => payload

/-- An entry of the cache of entity statements: a token or its expiry time. -/
inductive CachedStatement (Key : Type) where
  | jwt (token : Token Key)
  | exp (time : Int)

/-- A cache entry taken for a token.  A number is none, and is false if it is 0;
    that is all that is ever asked of it. -/
def CachedStatement.asToken : CachedStatement Key → Token Key
  | .jwt token => token
  | .exp time => .text (if time = 0 then "" else toString time)

/-- The state of the collector. -/
structure CollectorState (Key : Type) where
  configCache : Dict (CachedConfig Key) := ∅
  entityStatementCache : Dict (CachedStatement Key) := ∅
  asked : Nat := 0

/-- `cache_key`. -/
def cacheKey (authority entity : EntityId) : String := s!"{authority}!!{entity}"

/-- `time_key`. -/
def timeKey (authority entity : EntityId) : String := s!"{authority}!exp!{entity}"

variable (env : CollectorEnv Key)

/-- `utc_time_sans_frac()`. -/
def utcTimeSansFrac : EStateM Exc (CollectorState Key) Int := do
  let st ← get
  set { st with asked := st.asked + 1 }
  return env.now st.asked

/-- `httpc("GET", url)`. -/
def httpGet (url : String) : EStateM Exc (CollectorState Key) (HttpResponse Key) := do
  let st ← get
  set { st with asked := st.asked + 1 }
  return env.httpc st.asked url

/-- `self.config_cache[entity_id]`, which is `ESCache.__getitem__`. -/
def configCacheItem (entityId : EntityId) :
    EStateM Exc (CollectorState Key) (Option (CachedConfig Key)) := do
  let st ← get
  match st.configCache.lookup entityId with
  | none => return none
  | some (.message payload) => return some (.message payload)  -- the age is not looked at
  | some (.dict config) => do
      -- verify that the statement is recent enough
      let now ← utcTimeSansFrac env
      if now < config.payload.exp - env.allowedDelta then return some (.dict config)
      else do
        modify (fun st => { st with configCache := st.configCache.erase entityId })
        return none

/-- `self.config_cache[entity_id] = config`. -/
def configCacheSet (entityId : EntityId) (config : CachedConfig Key) :
    EStateM Exc (CollectorState Key) Unit :=
  modify (fun st => { st with configCache := st.configCache.insert entityId config })

/-! ## Documents -/

/-- `get_document`. -/
def getDocument (url : String) : EStateM Exc (CollectorState Key) (Token Key) := do
  match ← httpGet env url with
  | .connectionError => throw .connectionError
  | .reply status contentType text =>
      if status = 200 then
        -- a wrong type is only logged, but the header has to be there
        match contentType with
        | none => throw (.keyError "content-type")
        | some _ => return text
      else if status = 404 then
        throw (.missingPage [.lit "No such page: '", .val (.str url), .lit "'"])
      else throw .failedConfigurationRetrieval

/-- `get_entity_configuration`. -/
def getEntityConfiguration (entityId : EntityId) :
    EStateM Exc (CollectorState Key) (Token Key) := do
  let url ← lift (getRequestParameters env.rootIssuer entityId false)
  tryCatch (getDocument env url) fun
    | .missingPage _ => do
        -- if tenant involved
        let tenantUrl ← lift (getRequestParameters env.rootIssuer entityId true)
        if tenantUrl ≠ url then getDocument env tenantUrl
        else throw (.missingPage [.lit "No such page: '", .val (.str tenantUrl), .lit "'"])
    | e => throw e

/-- `get_entity_statement`. -/
def getEntityStatement (fetchEndpoint : Json) (issuer subject : EntityId) :
    EStateM Exc (CollectorState Key) (Token Key) :=
  match fetchEndpoint with
  | .str location => getDocument env (env.request location issuer subject)
  | _ => throw .typeError

/-- `unverified_entity_statement`. -/
def unverifiedEntityStatement (signedJwt : Token Key) : Except Exc (SignedStatement Key) :=
  match signedJwt with
  | .jws s => .ok s
  | .text raw => .error (.valueError [.lit "Not a proper signed JWT: ", .val (.str raw)])

/-- `JWT(key_jar).unpack(token)` for a key jar that holds, for the issuer of the
    statement, the keys it lists itself. -/
def unpackSelfSigned [DecidableEq Key] (s : SignedStatement Key) :
    EStateM Exc (CollectorState Key) (SelfSigned Key) :=
  if h : s.signer ∈ s.payload.keys then do
    let now ← utcTimeSansFrac env
    match env.unpackRejects now s.payload with
    | some e => throw e
    | none => return ⟨s, h⟩
  else throw .badSignature

/-- `verify_self_signed_signature`. -/
def verifySelfSignedSignature [DecidableEq Key] (statement : Token Key) :
    EStateM Exc (CollectorState Key) (SelfSigned Key) := do
  let s ← lift (unverifiedEntityStatement statement)
  match s.payload.jwks with
  | none => throw (.keyError "jwks")
  | some _ => unpackSelfSigned env s

theorem unpackSelfSigned_eq_ok [DecidableEq Key] {s : SignedStatement Key}
    {config : SelfSigned Key} {st st' : CollectorState Key}
    (h : unpackSelfSigned env s st = .ok config st') : config.jws = s := by
  unfold unpackSelfSigned at h
  by_cases hown : s.signer ∈ s.payload.keys
  · rw [dif_pos hown] at h
    obtain ⟨now, st₁, -, h⟩ := bind_eq_ok.mp h
    cases hreject : env.unpackRejects now s.payload with
    | some e => simp [hreject] at h
    | none =>
        simp only [hreject, pure_apply, EStateM.Result.ok.injEq] at h
        rw [← h.1]
  · simp [dif_neg hown] at h

/-- What is returned is the token that was given, which is a JWS. -/
theorem verifySelfSignedSignature_eq_ok [DecidableEq Key] {statement : Token Key}
    {config : SelfSigned Key} {st st' : CollectorState Key}
    (h : verifySelfSignedSignature env statement st = .ok config st') :
    statement = .jws config.jws := by
  unfold verifySelfSignedSignature at h
  obtain ⟨s, st₁, hunverified, h⟩ := bind_eq_ok.mp h
  cases statement with
  | text raw => exact absurd (lift_eq_ok.mp hunverified).1 (by simp [unverifiedEntityStatement])
  | jws s' =>
      obtain rfl := Except.ok.inj (lift_eq_ok.mp hunverified).1
      cases hjwks : s'.payload.jwks with
      | none => simp [hjwks] at h
      | some jwks =>
          simp only [hjwks] at h
          rw [unpackSelfSigned_eq_ok env h]

/-- `get_endpoint`. -/
def getEndpoint (endpointType : String) (config : Statement Key) : Except Exc Json := do
  match config.metadata with
  | none => throw (.keyError "metadata")
  | some metadata => do
      let fe ← item metadata "federation_entity"
      return (fe.lookup s!"federation_{endpointType}_endpoint").getD .null

variable [DecidableEq Key]

/-- `get_federation_fetch_endpoint`. -/
def getFederationFetchEndpoint (intermediate : EntityId) :
    EStateM Exc (CollectorState Key) Json := do
  let entityConfig ← configCacheItem env intermediate
  let known ←
    match entityConfig with
    | some config => lift (getEndpoint "fetch" config.payload)
    | none => pure .null
  if known.truthy then return known
  else do
    let signedEntityConfig ← getEntityConfiguration env intermediate
    let config ← verifySelfSignedSignature env signedEntityConfig
    let fedFetchEndpoint ← lift (getEndpoint "fetch" config.payload)
    -- update cache
    configCacheSet intermediate (.dict config)
    return fedFetchEndpoint

/-! ## Entity statements -/

omit [DecidableEq Key] in
/-- The first half of `_get_entity_statement`: the cached statement, if there is
    one and it is not too old. -/
def cachedEntityStatement (entity authority : EntityId) :
    EStateM Exc (CollectorState Key) (Option (Token Key)) := do
  let st ← get
  match st.entityStatementCache.lookup (cacheKey authority entity) with
  | none => return none
  | some entityStatement => do
      let now ← utcTimeSansFrac env
      match st.entityStatementCache.lookup (timeKey authority entity) with
      | some (.exp exp) =>
          if now > exp - env.allowedDelta then do
            modify (fun st => { st with
              entityStatementCache := (st.entityStatementCache.erase
                (cacheKey authority entity)).erase (timeKey authority entity) })
            return none
          else return some entityStatement.asToken
      | _ => throw .typeError

/-- The second half of `_get_entity_statement`: the authority is asked. -/
def fetchEntityStatement (entity authority : EntityId) :
    EStateM Exc (CollectorState Key) (Option (Token Key)) := do
  let fedFetchEndpoint ← getFederationFetchEndpoint env authority
  if !fedFetchEndpoint.truthy then return none
  else do
    let entityStatement ← getEntityStatement env fedFetchEndpoint authority entity
    let statement ← lift (unverifiedEntityStatement entityStatement)
    modify (fun st => { st with
      entityStatementCache := (st.entityStatementCache.insert (cacheKey authority entity)
        (.jwt entityStatement)).insert (timeKey authority entity) (.exp statement.payload.exp) })
    return some entityStatement

/-- `_get_entity_statement`. -/
def getEntityStatementFor (entity authority : EntityId) :
    EStateM Exc (CollectorState Key) (Option (Token Key)) := do
  match ← cachedEntityStatement env entity authority with
  | some entityStatement => return some entityStatement
  | none => fetchEntityStatement env entity authority

/-! ## The tree of superiors -/

/-- A dictionary of superiors in the order it is walked; an authority is blocked
    where its branch is `None`. -/
inductive Tree (Key : Type) where
  | empty
  | blocked (authority : EntityId) (others : Tree Key)
  | branch (authority : EntityId) (statement : Token Key) (superiors : Tree Key)
      (others : Tree Key)

/-- `superior[authority] = branch`: in its place, or at the end. -/
def Tree.set (authority : EntityId) (value : Option (Token Key × Tree Key)) :
    Tree Key → Tree Key
  | .empty =>
      match value with
      | none => .blocked authority .empty
      | some (statement, superiors) => .branch authority statement superiors .empty
  | .blocked a others =>
      if a = authority then
        match value with
        | none => .blocked authority others
        | some (statement, superiors) => .branch authority statement superiors others
      else .blocked a (others.set authority value)
  | .branch a s above others =>
      if a = authority then
        match value with
        | none => .blocked authority others
        | some (statement, superiors) => .branch authority statement superiors others
      else .branch a s above (others.set authority value)

/-- Whether the dictionary has no entry. -/
def Tree.isEmpty : Tree Key → Bool
  | .empty => true
  | _ => false

/-- `collect_branch`, given `collect_tree` for the next level. -/
def collectBranch
    (collectTree : EntityId → Option (Statement Key) → List EntityId →
      EStateM Exc (CollectorState Key) (Tree Key))
    (entity authority : EntityId) (seen : List EntityId) :
    EStateM Exc (CollectorState Key) (Option (Token Key × Tree Key)) :=
  if entity = authority && decide (entity ∈ env.trustAnchors) then return none
  else do
    match ← getEntityStatementFor env entity authority with
    | none => return none
    | some entityStatement =>
        if !tokenTruthy entityStatement then return none
        else do
          -- what fetching the statement has left in the cache
          let entityConfiguration ← configCacheItem env authority
          let superiors ← collectTree authority (entityConfiguration.map (·.payload))
            (seen ++ [authority])
          return some (entityStatement, superiors)

/-- The loop of `collect_tree` over the authority hints.  That an authority has
    been seen before is only logged. -/
def collectSuperiors
    (collectTree : EntityId → Option (Statement Key) → List EntityId →
      EStateM Exc (CollectorState Key) (Tree Key))
    (entityId : EntityId) (seen : List EntityId) (superior : Tree Key) :
    List EntityId → EStateM Exc (CollectorState Key) (Tree Key)
  | [] => return superior
  | authority :: rest => do
      let branch ← collectBranch env collectTree entityId authority seen
      collectSuperiors collectTree entityId seen (superior.set authority branch) rest

/-- `collect_tree`, to the depth given. -/
def collectTree (stopAt : EntityId) : Nat → EntityId → Option (Statement Key) → List EntityId →
    EStateM Exc (CollectorState Key) (Tree Key)
  | 0, _, _, _ => throw .recursionError
  | depth + 1, entityId, entityConfiguration, seen =>
      match entityConfiguration with
      | none => throw .typeError  -- `in` on `None`
      | some config =>
          match config.authorityHints with
          | none => return .empty  -- no authority for this entity
          | some hints =>
              if config.iss = stopAt then return .empty
              else collectSuperiors env (collectTree stopAt depth) entityId seen .empty hints

/-! ## Collecting from the leaf up -/

omit [DecidableEq Key] in
/-- `too_old`. -/
def tooOld (statement : Statement Key) : EStateM Exc (CollectorState Key) Bool := do
  let now ← utcTimeSansFrac env
  return decide (now ≥ statement.exp + env.allowedDelta)

/-- The first part of `__call__`: the entity configuration of the leaf, or `none`
    where nothing is published. -/
def leafConfiguration (entityId : EntityId) :
    EStateM Exc (CollectorState Key) (Option (SelfSigned Key)) := do
  let st ← get
  let cached ←
    match st.configCache.lookup entityId with
    | none => pure none
    | some entityConfig => do
        if ← tooOld env entityConfig.payload then pure none
        else
          match entityConfig with
          | .dict config => pure (some config)
          | .message _ => throw (.attributeError "_jws")
  match cached with
  | some config => return some config
  | none => do
      let signedEntityConfig ← getEntityConfiguration env entityId
      if !tokenTruthy signedEntityConfig then return none
      else do
        let config ← verifySelfSignedSignature env signedEntityConfig
        -- update cache
        configCacheSet entityId (.dict config)
        return some config

/-- `TrustChainCollector.__call__`: the tree of superiors and the entity
    configuration of the leaf. -/
def TrustChainCollector.call (entityId : EntityId) (seen : List EntityId) (stopAt : EntityId) :
    EStateM Exc (CollectorState Key) (Option (Tree Key × SelfSigned Key)) := do
  match ← leafConfiguration env entityId with
  | none => return none
  | some config => do
      let tree ← collectTree env stopAt env.recursionLimit entityId (some config.payload) seen
      return some (tree, config)

/-! ## What has been collected -/

omit [DecidableEq Key] in
/-- `self.config_cache[entity_id]['_jws']`. -/
def cachedConfigurationJws (entityId : EntityId) :
    EStateM Exc (CollectorState Key) (Token Key) := do
  match ← configCacheItem env entityId with
  | none => throw .typeError  -- `None` has no items
  | some (.dict config) => return .jws config.jws
  | some (.message _) => throw (.keyError "_jws")

omit [DecidableEq Key] in
/-- `get_chain`: from the leaf's entity configuration up, perhaps to that of the trust
    anchor.  The age of an entity statement is not looked at, and one that is not there
    is `None`. -/
def getChain (issPath : List EntityId) (trustAnchor : EntityId) (withTaEc : Bool) :
    EStateM Exc (CollectorState Key) (List (Option (Token Key))) :=
  match issPath with
  | [] => throw .indexError
  | leaf :: above => do
      let leafEc ← cachedConfigurationJws env leaf
      let st ← get
      let statements := List.zipWith (fun entity authority =>
        (st.entityStatementCache.lookup (cacheKey authority entity)).map (·.asToken))
        issPath above
      if withTaEc then
        let taEc ← cachedConfigurationJws env trustAnchor
        return some leafEc :: statements ++ [some taEc]
      else return some leafEc :: statements

end Fedservice.Entity.Function
