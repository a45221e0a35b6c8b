/-
  Fedservice.AppServer.ClientRegistrationSetup

  The registration step of the OAuth2 endpoint: `client_registration_setup`,
  `do_client_registration` and `step2_process_request` (appserver/oauth2/registration.py), and
  `client_authentication` of the authorization endpoints (appserver/oauth2/authorization.py,
  also in appserver/oauth2/pushed_authorization.py, and appserver/oidc/authorization.py),
  which asks the same client database.

  A request that is refused leaves by a response with an error or by an exception.
-/

import Fedservice.AppServer.AutomaticRegistration
import Fedservice.Py.Url

namespace Fedservice.AppServer

open Fedservice.Lib Fedservice.Py Fedservice.EntityStatement Fedservice.Crypto Fedservice.Entity
  Fedservice.Entity.Function

variable {Jar Key : Type}

/-! ## Refusals -/

/-- The `error_description` of a response: a text, or the one of an exception. -/
inductive Description where
  | text (message : Message)
  | exception (e : Exc)
deriving DecidableEq

/-- How a request is refused: with a `ResponseMessage`, or by an exception. -/
inductive Refusal where
  | response (error : String) (description : Description)
  | raised (e : Exc)
deriving DecidableEq

/-- What `request.verify()` raises. -/
inductive VerifyError where
  /-- a `MessageException` or `ValueError` with its arguments -/
  | invalid (e : Exc) (args : List String)
  | other (e : Exc)

/-- `raise`. -/
def raising {σ α : Type} (m : EStateM Exc σ α) : EStateM Refusal σ α := fun s =>
  match m s with
  | .ok a s' => .ok a s'
  | .error e s' => .error (.raised e) s'

/-- The same, without a state. -/
def attempt {α : Type} : Except Exc α → Except Refusal α :=
  Except.mapError .raised

/-! ## The protocol library -/

/-- What registration uses of the protocol library and its configuration, and what is
    drawn or read from a clock. -/
structure RegistrationLib where
  verify : Metadata → Except VerifyError Unit
  rmBlanks : Metadata → Metadata
  /-- `context.claims.register2preferred` -/
  register2preferred : Dict String
  /-- `context.provider_info` -/
  providerInfo : Metadata
  /-- `context.claims.registration_response.c_param`: whether a claim is a list. -/
  registrationResponse : Dict Bool
  clientIdGenerator : List EntityId → Except Exc EntityId
  clientSalt : String
  now : Int
  secret : EntityId → String
  clientSecretExpires : Bool := true
  clientSecretExpiresIn : Int := 2592000
  splitUri : String → Except Exc (String × Option Json)
  verifyUrl : Json → Json → Except Exc Bool
  alg2keytype : Json → Except Exc (Option String)
  /-- Whether the key jar has a signing key of a type, for an algorithm, of the server. -/
  getSigningKey : Option String → Json → Except Exc Bool
  /-- What `keyjar.key_summary(client_id)` raises for the keys imported so far. -/
  keySummary : List (EntityId × KeySource) → EntityId → Except Exc Unit
  /-- The keys of `response_cls.c_param`. -/
  responseParams : List String
  combUri : Metadata → Except Exc Metadata
  /-- `response_cls(**args)` -/
  responseCls : Metadata → Except Exc Metadata
  addSymmetric : EntityId → String → Except Exc Unit
  sync : Except Exc Unit
  newCookie : Json → Except Exc Unit

variable (lib : RegistrationLib) (env : ServerEnv Key) (ho : HashOrder)

/-! ## filter_client_request -/

/-- `match_claim`. -/
def matchClaim (claim : String) (val : Json) : Except Exc (Option Json) := do
  -- use my defaults
  let myKey := (lib.register2preferred.lookup claim).getD claim
  match lib.providerInfo.lookup myKey with
  | none => return some val
  | some own =>
      match lib.registrationResponse.lookup claim with
      | none => return none  -- something I don't know anything about
      | some isList =>
          if !own.truthy then return none
          else if isList then
            match val with
            | .str s => return if ← Json.isIn (.str s) own then some val else none
            | _ => do
                let both := (← own.toSet).inter (← val.toSet)
                if both.isEmpty then throw (.capabilitiesMisMatch myKey)
                else return some (listOf ho both)
          else if own.isList then return if ← Json.isIn val own then some val else none
          else return if val.eqv own then some val else none

/-- `filter_client_request`, of the items of a request. -/
def filterClientRequest : List (String × Json) → Except Exc Metadata
  | [] => return ∅
  | (key, val) :: rest => do
      let kept ←
        if key ∉ lib.register2preferred then pure (some val)
        else do
          -- a claim that is not supported is left out
          let found ← matchClaim lib ho key val
          pure (found.filter (·.truthy))
      let args ← filterClientRequest rest
      return kept.elim args (args.insert key)

/-! ## verify_redirect_uris -/

/-- `urlparse`, of a claim of a request. -/
def urlparseClaim (uri : Json) : Except Exc (String × ParseResult) :=
  match uri with
  | .str s => do return (s, ← urlparse s)
  | _ => .error .typeError

/-- Whether a redirect URI is acceptable: if it has a custom scheme, or the message of the
    error. -/
def redirectUriCustom (nativeClient mustHttps : Bool) (p : ParseResult) :
    Except Exc Bool :=
  if nativeClient then
    if p.scheme ∉ ["http", "https"] then return true  -- custom scheme
    else if p.scheme = "http" ∧ p.hostname ∈ [some "localhost", some "127.0.0.1"] then return false
    else .error (.invalidRedirectUri
      [.lit "Redirect_uri must use custom scheme or http and localhost"])
  else if mustHttps ∧ p.scheme ≠ "https" then
    .error (.invalidRedirectUri [.lit "None https redirect_uri not allowed"])
  else if p.scheme ∉ ["http", "https"] then
    .error (.invalidRedirectUri [.lit "Custom redirect_uri not allowed for web client"])
  else if p.fragment ≠ "" then
    .error (.invalidRedirectUri [.lit "redirect_uri contains fragment"])
  else return false

/-- The loop over the redirect URIs. -/
def verifiedRedirectUris (nativeClient mustHttps : Bool) :
    List Json → Except Exc (List Json)
  | [] => return []
  | uri :: rest => do
      let (s, p) ← urlparseClaim uri
      let verified ←
        if ← redirectUriCustom nativeClient mustHttps p then
          -- can not verify a custom scheme
          pure (.arr [uri, .obj []])
        else do
          let (base, query) ← lib.splitUri s
          match query with
          | some query => pure (.arr [.str base, if query.truthy then query else .obj []])
          | none => pure (.arr [.str base, .obj []])
      return verified :: (← verifiedRedirectUris nativeClient mustHttps rest)

/-- `verify_redirect_uris`. -/
def verifyRedirectUris (request : Metadata) : Except Exc Json := do
  let clientType := (request.lookup "application_type").getD (.str "web")
  let mustHttps := clientType.eqv (.str "web") &&
    !((request.lookup "response_types").any (·.eqv (.arr [.str "code"])))
  match (← item request "redirect_uris").iter? with
  | none => throw .typeError
  | some uris =>
      return .arr (← verifiedRedirectUris lib (clientType.eqv (.str "native")) mustHttps uris)

/-! ## do_client_registration -/

/-- `_cinfo` with the claims of the request that are not ignored. -/
def withClaims (ignore : List String) (request cinfo : Metadata) : Metadata :=
  request.entries.foldl (fun cinfo e => if e.1 ∉ ignore then cinfo.insert e.1 e.2 else cinfo) cinfo

/-- `return error_cls(error=.., error_description=..)`. -/
def refuse {α : Type} (error : String) (message : Message) : Except Refusal α :=
  .error (.response error (.text message))

/-- `post_logout_redirect_uri`. -/
def addPostLogoutRedirectUri (request cinfo : Metadata) : Except Refusal Metadata :=
  if !(getClaim request "post_logout_redirect_uri").truthy then return cinfo
  else do
    let (s, p) ← attempt (urlparseClaim (getClaim request "post_logout_redirect_uri"))
    if p.fragment ≠ "" then
      refuse "invalid_configuration_parameter"
        [.lit "post_logout_redirect_uri contains fragment"]
    else do
      let (base, query) ← attempt (lib.splitUri s)
      return cinfo.insert "post_logout_redirect_uri" (.arr [.str base, query.getD .null])

/-- `redirect_uris`. -/
def addRedirectUris (request cinfo : Metadata) : Except Refusal Metadata :=
  if "redirect_uris" ∉ request then return cinfo
  else match verifyRedirectUris lib request with
    | .ok ruri => return cinfo.insert "redirect_uris" ruri
    | .error (.invalidRedirectUri message) => refuse "invalid_redirect_uri" message
    | .error e => .error (.raised e)

/-- The loop over the request URIs: base and fragment. -/
def requestUris : List Json → Except Refusal (List Json)
  | [] => return []
  | uri :: rest => do
      let (s, p) ← attempt (urlparseClaim uri)
      if p.query ≠ "" then
        refuse "invalid_configuration_parameter" [.lit "request_uris contains query part"]
      else do
        -- store base and fragment
        let parts := if p.fragment ≠ "" then (s.splitOn "#").map Json.str else [uri, .str ""]
        return .arr parts :: (← requestUris rest)

/-- `request_uris`. -/
def addRequestUris (request cinfo : Metadata) : Except Refusal Metadata :=
  match request.lookup "request_uris" with
  | none => return cinfo
  | some uris =>
      match uris.iter? with
      | none => .error (.raised .typeError)
      | some uris => do return cinfo.insert "request_uris" (.arr (← requestUris uris))

/-- The loop over the URLs that the redirect URIs have to vouch for. -/
def addInformationUrls (request : Metadata) : List String → Metadata → Except Refusal Metadata
  | [], cinfo => return cinfo
  | claim :: rest, cinfo =>
      match request.lookup claim with
      | none => addInformationUrls request rest cinfo
      | some url => do
          let redirectUris ← attempt (item cinfo "redirect_uris")
          if ← attempt (lib.verifyUrl url redirectUris) then
            addInformationUrls request rest (cinfo.insert claim url)
          else
            refuse "invalid_configuration_parameter" [.lit claim, .lit " pointed to illegal URL"]

/-- Whether there is support and a key for a signing algorithm. -/
def signingAlgSupported (claim : String) (alg : Json) : Except Exc Bool := do
  match getClaim lib.providerInfo (← item lib.register2preferred claim) with
  | .null => return false
  | support =>
      if ← Json.isIn alg support then
        let ktyp ← lib.alg2keytype alg
        -- do I have this type of key
        if ktyp ∈ [some "none", some "oct"] then return true
        else lib.getSigningKey ktyp alg
      else return true

/-- The loop over the signing algorithms: those without support or key are deleted. -/
def dropUnsupportedAlgs (request : Metadata) : List String → Metadata → Except Refusal Metadata
  | [], cinfo => return cinfo
  | claim :: rest, cinfo =>
      match request.lookup claim with
      | none => dropUnsupportedAlgs request rest cinfo
      | some alg => do
          if ← attempt (signingAlgSupported lib claim alg) then
            dropUnsupportedAlgs request rest cinfo
          else if claim ∉ cinfo then .error (.raised (.keyError claim))
          else dropUnsupportedAlgs request rest (cinfo.erase claim)

/-- What `do_client_registration` makes of the record. -/
def checkedRecord (request cinfo : Metadata) : Except Refusal Metadata := do
  let cinfo ← addPostLogoutRedirectUri lib request cinfo
  let cinfo ← addRedirectUris lib request cinfo
  let cinfo ← addRequestUris request cinfo
  let cinfo ← addInformationUrls lib request ["policy_uri", "logo_uri", "tos_uri"] cinfo
  -- do I have the necessary keys
  dropUnsupportedAlgs lib request
    ["id_token_signed_response_alg", "userinfo_signed_response_alg"] cinfo

/-- `do_client_registration`. -/
def doClientRegistration (request : Metadata) (clientId : EntityId) (ignore : List String) :
    EStateM Refusal (Server Jar Key) Metadata := do
  let st ← get
  let cinfo ← lift (attempt (item st.clients clientId))
  let cinfo ← lift (checkedRecord lib request (withClaims ignore request cinfo))
  raising (importClientKeys env request clientId)
  let st ← get
  lift (attempt (lib.keySummary st.keyImports clientId))
  return cinfo

/-! ## client_registration_setup -/

/-- `request.verify()`. -/
def verifyRequest (request : Metadata) : Except Refusal Unit :=
  match lib.verify request with
  | .ok () => return ()
  | .error (.other e) => .error (.raised e)
  | .error (.invalid e args) =>
      .error (.response
        (if args[1]? = some "initiate_login_uri" then "invalid_client_claims"
          else "invalid_configuration_request")
        (.exception e))

/-- The request, filtered. -/
def supportedRequest (request : Metadata) : Except Refusal Metadata :=
  match filterClientRequest lib ho ((lib.rmBlanks request).entries.map fun e => (e.1, e.2)) with
  | .ok request => return request
  | .error (.capabilitiesMisMatch claim) =>
      refuse "invalid_request" [.lit "Don't support proposed ", .lit claim]
  | .error e => .error (.raised e)

/-- The request and the ID to register it under. -/
def chooseClientId (request : Metadata) (newId : Bool) (reservedClientId known : List EntityId) :
    Except Refusal (Metadata × EntityId) :=
  if newId then do
    let reserved := if reservedClientId.isEmpty then known else reservedClientId
    let clientId ← attempt (lib.clientIdGenerator reserved)
    return (request.erase "client_id", clientId)
  else match getClaim request "client_id" with
    | .str clientId =>
        if clientId = "" then .error (.raised (.valueError [.lit "Missing client_id"]))
        else return (request, clientId)
    | other =>
        if other.truthy then .error (.raised .typeError)
        else .error (.raised (.valueError [.lit "Missing client_id"]))

/-- From `request.verify()` to the choice of an ID: the request as it is used from there on,
    and the ID. -/
def prepareRegistration (request : Metadata) (newId : Bool)
    (reservedClientId known : List EntityId) : Except Refusal (Metadata × EntityId) := do
  verifyRequest lib request
  let request ← supportedRequest lib ho request
  chooseClientId lib request newId reservedClientId known

/-- `client_secret_expiration_time`. -/
def clientSecretExpirationTime : Int :=
  if !lib.clientSecretExpires then 0 else lib.now + lib.clientSecretExpiresIn

/-- `add_client_secret`. -/
def addClientSecret (cinfo : Metadata) (clientId : EntityId) : Metadata :=
  let cinfo := cinfo.insert "client_secret" (.str (lib.secret clientId))
  if clientSecretExpirationTime lib ≠ 0 then
    cinfo.insert "client_secret_expires_at" (.num (clientSecretExpirationTime lib))
  else cinfo

/-- The record that is stored before the request is looked at more closely. -/
def provisionalRecord (clientId : EntityId) (newId setSecret : Bool) : Metadata :=
  let cinfo := Dict.ofList [("client_id", .str clientId), ("client_salt", .str lib.clientSalt)]
  let cinfo := if newId then cinfo.insert "client_id_issued_at" (.num lib.now) else cinfo
  if setSecret then addClientSecret lib cinfo clientId else cinfo

/-- The response to a registration. -/
def registrationResponse (cinfo : Metadata) : Except Refusal Metadata := do
  let args := cinfo.entries.filter fun e => decide (e.1 ∈ lib.responseParams)
  let args ← attempt (lib.combUri (Dict.ofList (args.map fun e => (e.1, e.2))))
  attempt (lib.responseCls args)

/-- A server with one more client. -/
def stored (clientId : EntityId) (cinfo : Metadata) (st : Server Jar Key) : Server Jar Key :=
  { st with clients := st.clients.insert clientId cinfo }

/-- `_context.cdb[client_id] = cinfo`. -/
def storeClient (clientId : EntityId) (cinfo : Metadata) : EStateM Refusal (Server Jar Key) Unit :=
  modify (stored clientId cinfo)

/-- Add the `client_secret`, if there is one, as a symmetric key to the key jar. -/
def addSymmetricKey (clientId : EntityId) (setSecret : Bool) :
    EStateM Refusal (Server Jar Key) Unit :=
  if setSecret ∧ lib.secret clientId ≠ "" then do
    lift (attempt (lib.addSymmetric clientId (lib.secret clientId)))
    modify fun st => { st with
      keyImports := st.keyImports ++ [(clientId, .symmetric (lib.secret clientId))] }
  else pure ()

/-- From `do_client_registration` on, but for storing: the final record and the response. -/
def completeRegistration (request : Metadata) (clientId : EntityId) (setSecret : Bool) :
    EStateM Refusal (Server Jar Key) (Metadata × Metadata) := do
  let cinfo ← doClientRegistration lib env request clientId
    ["redirect_uris", "policy_uri", "logo_uri", "tos_uri"]
  let response ← lift (registrationResponse lib cinfo)
  addSymmetricKey lib clientId setSecret
  return (cinfo, response)

/-- `client_registration_setup`. -/
def clientRegistrationSetup (request : Metadata) (newId setSecret : Bool)
    (reservedClientId : List EntityId) : EStateM Refusal (Server Jar Key) Metadata := do
  let st ← get
  let (request, clientId) ← lift
    (prepareRegistration lib ho request newId reservedClientId st.clients.keys)
  storeClient clientId (provisionalRecord lib clientId newId setSecret)
  let (cinfo, response) ← completeRegistration lib env request clientId setSecret
  storeClient clientId cinfo
  -- not all databases can be sync'ed
  lift (attempt lib.sync)
  return response

/-- What `step2_process_request` returns. -/
inductive Step2Response where
  | error (error : String) (description : Description)
  /-- the response of the registration, where that has an `error` itself -/
  | asItIs (response : Metadata)
  | created (response : Metadata)

/-- `step2_process_request`. -/
def step2ProcessRequest (request : Metadata) (newId setSecret : Bool) (reserved : List EntityId) :
    EStateM Exc (Server Jar Key) Step2Response := fun st =>
  match clientRegistrationSetup lib env ho request newId setSecret reserved st with
  | .error (.response error description) st' => .ok (.error error description) st'
  | .error (.raised e) st' => .ok (.error "invalid_configuration_request" (.exception e)) st'
  | .ok response st' =>
      if "error" ∈ response then .ok (.asItIs response) st'
      else lift (do
        lib.newCookie (← item response "client_id")
        return Step2Response.created response) st'

/-! ## client_authentication -/

section Authentication

-- the library authenticates a client, given what else it is known as
variable (endpoint : Endpoint Jar Key)
  (authenticate : EntityId → Option EntityId → EStateM Exc (Server Jar Key) (Dict Json))

/-- The answer to a client that is not known. -/
def unauthorizedClient : Dict Json :=
  Dict.ofList [("error", .str "unauthorized_client"), ("error_description", .str "Unknown client")]

/-- `_context.cdb[_cid] = client_info`, where the record gets the entity ID in both places. -/
def alsoKnownAs (registered cid : EntityId) : EStateM Exc (Server Jar Key) Unit := do
  let st ← get
  let clientInfo ← lift (item st.clients registered)
  let clientInfo := clientInfo.insert "entity_id" (.str cid)
  set { st with clients := (st.clients.insert registered clientInfo).insert cid clientInfo }

/-- `client_authentication` for a client that is not registered. -/
def registerAndAuthenticate (cid : EntityId) (trustChain : List (Token Key)) :
    EStateM Exc (Server Jar Key) (Dict Json) := do
  let supported := getClaim lib.providerInfo "client_registration_types_supported"
  if ← lift (Json.isIn (.str "automatic") supported) then
    -- try the federation way
    match ← doAutomaticRegistration env endpoint cid trustChain with
    | none => return unauthorizedClient
    | some registeredClientId =>
        if registeredClientId ≠ cid then do
          alsoKnownAs registeredClientId cid
          authenticate registeredClientId (some cid)
        else authenticate cid none
  else return unauthorizedClient

/-- `client_authentication`, of a request with a client ID and perhaps a trust chain. -/
def clientAuthentication (cid : EntityId) (trustChain : List (Token Key)) :
    EStateM Exc (Server Jar Key) (Dict Json) := do
  let st ← get
  -- if this is a registered client then this should return some info
  match st.clients.lookup cid with
  | some _ => authenticate cid none
  | none => registerAndAuthenticate lib env endpoint authenticate cid trustChain

/-- `client_authentication` of the OIDC endpoint, which has a default for
    `client_registration_types_supported`: where that is missing, no type is supported. -/
def oidcClientAuthentication (cid : EntityId) (trustChain : List (Token Key)) :
    EStateM Exc (Server Jar Key) (Dict Json) := do
  let st ← get
  match st.clients.lookup cid with
  | some _ => authenticate cid none
  | none =>
      if "client_registration_types_supported" ∈ lib.providerInfo then
        registerAndAuthenticate lib env endpoint authenticate cid trustChain
      else return unauthorizedClient

/-! ## Leaving no client behind -/

/-- Equal records. -/
def SameRecord (record record' : Metadata) : Prop :=
  ∀ claim, record.lookup claim = record'.lookup claim

/-- The client database is what it was, so that a client which was not registered is still
    registered first when it turns up. -/
structure LeavesNoClient (st st' : Server Jar Key) : Prop where
  clients : ∀ id, Option.Rel SameRecord (st.clients.lookup id) (st'.clients.lookup id)
  notMistaken : ∀ cid trustChain, st.clients.lookup cid = none →
    clientAuthentication lib env endpoint authenticate cid trustChain st' =
      registerAndAuthenticate lib env endpoint authenticate cid trustChain st'

/-- A registration that is refused leaves no client behind, by itself or as a step of
    `step2_process_request`. -/
def RefusedWithoutTrace (request : Metadata) (newId setSecret : Bool) (reserved : List EntityId)
    (st : Server Jar Key) : Prop :=
  ∀ e st', clientRegistrationSetup lib env ho request newId setSecret reserved st = .error e st' →
    LeavesNoClient lib env endpoint authenticate st st' ∧
      LeavesNoClient lib env endpoint authenticate st
        (finalState (step2ProcessRequest lib env ho request newId setSecret reserved st))

end Authentication

/-! ## When that is so -/

/-- The record is in the client database, under the ID. -/
def AlreadyThere (st : Server Jar Key) (clientId : EntityId) (record : Metadata) : Prop :=
  ∃ found, st.clients.lookup clientId = some found ∧ SameRecord found record

/-- The request passes all checks that come after the provisional record is stored, and
    `cinfo` is the final one. -/
structure PassesChecks (prepared : Metadata) (clientId : EntityId) (newId setSecret : Bool)
    (st : Server Jar Key) (cinfo : Metadata) : Prop where
  claims : checkedRecord lib prepared
    (withClaims ["redirect_uris", "policy_uri", "logo_uri", "tos_uri"] prepared
      (provisionalRecord lib clientId newId setSecret)) = .ok cinfo
  keys : ∃ st', importClientKeys env prepared clientId
      (stored clientId (provisionalRecord lib clientId newId setSecret) st) = .ok () st' ∧
    lib.keySummary st'.keyImports clientId = .ok ()
  response : ∃ response, registrationResponse lib cinfo = .ok response
  secret : setSecret = true → lib.secret clientId ≠ "" →
    lib.addSymmetric clientId (lib.secret clientId) = .ok ()

/-- Once there is an ID, the request passes all further checks, or the record that is left
    behind is there already: the provisional one where a check fails, the final one where the
    database cannot be sync'ed. -/
def NothingToLeave (request : Metadata) (newId setSecret : Bool) (reserved : List EntityId)
    (st : Server Jar Key) : Prop :=
  ∀ prepared clientId,
    prepareRegistration lib ho request newId reserved st.clients.keys = .ok (prepared, clientId) →
      (∃ cinfo, PassesChecks lib env prepared clientId newId setSecret st cinfo ∧
        (lib.sync = .ok () ∨ AlreadyThere st clientId cinfo)) ∨
      (¬ ∃ cinfo, PassesChecks lib env prepared clientId newId setSecret st cinfo) ∧
        AlreadyThere st clientId (provisionalRecord lib clientId newId setSecret)

/-! ## What is left behind -/

variable {lib env ho} {endpoint : Endpoint Jar Key}
  {authenticate : EntityId → Option EntityId → EStateM Exc (Server Jar Key) (Dict Json)}

theorem attempt_eq_ok {α : Type} {x : Except Exc α} {a : α} : attempt x = .ok a ↔ x = .ok a := by
  cases x <;> simp [attempt, Except.mapError]

theorem raising_eq_ok {σ α : Type} {m : EStateM Exc σ α} {a : α} {s s' : σ} :
    raising m s = .ok a s' ↔ m s = .ok a s' := by
  unfold raising
  cases m s <;> simp

theorem finalState_raising {σ α : Type} (m : EStateM Exc σ α) (s : σ) :
    finalState (raising m s) = finalState (m s) := by
  unfold raising
  cases m s <;> rfl

/-- Who is not in the database is not mistaken for a registered client. -/
theorem clientAuthentication_of_unknown {cid : EntityId} {st : Server Jar Key}
    (hunknown : st.clients.lookup cid = none) (trustChain : List (Token Key)) :
    clientAuthentication lib env endpoint authenticate cid trustChain st =
      registerAndAuthenticate lib env endpoint authenticate cid trustChain st := by
  rw [clientAuthentication, bind_of_ok (get_apply st), hunknown]

/-- Where one record has been stored, no client is left behind exactly if it was there. -/
theorem leavesNoClient_iff {clientId : EntityId} {record : Metadata} {st st' : Server Jar Key}
    (hstored : ∀ id, st'.clients.lookup id =
      if id = clientId then some record else st.clients.lookup id) :
    LeavesNoClient lib env endpoint authenticate st st' ↔ AlreadyThere st clientId record := by
  constructor
  · intro h
    have hnow : st'.clients.lookup clientId = some record := by
      rw [hstored, if_pos rfl]
    rcases Dict.rel_cases (h.clients clientId) with
      ⟨-, hno⟩ | ⟨found, record', hfound, hrecord, hsame⟩
    · rw [hnow] at hno
      exact absurd hno (by simp)
    · obtain rfl := Option.some.inj (hnow.symm.trans hrecord)
      exact ⟨found, hfound, hsame⟩
  · rintro ⟨found, hfound, hsame⟩
    have hclients : ∀ id, Option.Rel SameRecord (st.clients.lookup id) (st'.clients.lookup id) := by
      intro id
      rw [hstored]
      split_ifs with hid
      · rw [hid, hfound]
        exact .some hsame
      · exact Dict.rel_refl (fun _ _ => rfl) _
    refine ⟨hclients, fun cid trustChain hunknown => ?_⟩
    rcases Dict.rel_cases (hclients cid) with ⟨-, hcid⟩ | ⟨found', _, hcid, -, -⟩
    · exact clientAuthentication_of_unknown hcid trustChain
    · rw [hunknown] at hcid
      exact absurd hcid (by simp)

/-- The keys of a client do not go into the client database. -/
theorem clients_importClientKeys (information : Metadata) (entityId : EntityId)
    (st : Server Jar Key) :
    (finalState (importClientKeys env information entityId st)).clients = st.clients := by
  unfold importClientKeys importClientJwks addUrl
  split_ifs
  · rfl
  · rfl
  · cases env.importJwksRaises (getClaim information "jwks") <;> rfl
  · rfl

/-- From there on only the keys change. -/
theorem clients_doClientRegistration (request : Metadata) (clientId : EntityId)
    (ignore : List String) (st : Server Jar Key) :
    (finalState (doClientRegistration lib env request clientId ignore st)).clients =
      st.clients := by
  rw [doClientRegistration, bind_of_ok (get_apply st)]
  cases hitem : attempt (item st.clients clientId) with
  | error e => rfl
  | ok cinfo =>
  rw [bind_of_ok (lift_ok cinfo st)]
  cases hrecord : checkedRecord lib request (withClaims ignore request cinfo) with
  | error e => rfl
  | ok record =>
  rw [bind_of_ok (lift_ok record st)]
  have hkeys := @clients_importClientKeys _ _ env request clientId st
  rw [← finalState_raising] at hkeys
  cases himport : raising (importClientKeys env request clientId) st with
  | error e st₁ =>
      rw [himport] at hkeys
      rw [bind_of_error himport]
      exact hkeys
  | ok value st₁ =>
      rw [himport] at hkeys
      rw [bind_of_ok himport, bind_of_ok (get_apply st₁)]
      cases hsummary : attempt (lib.keySummary st₁.keyImports clientId) <;> exact hkeys

theorem clients_completeRegistration (request : Metadata) (clientId : EntityId) (setSecret : Bool)
    (st : Server Jar Key) :
    (finalState (completeRegistration lib env request clientId setSecret st)).clients =
      st.clients := by
  have hregister := @clients_doClientRegistration _ _ lib env request clientId
    ["redirect_uris", "policy_uri", "logo_uri", "tos_uri"] st
  rw [completeRegistration]
  cases hdo : doClientRegistration lib env request clientId
      ["redirect_uris", "policy_uri", "logo_uri", "tos_uri"] st with
  | error e st₁ =>
      rw [hdo] at hregister
      rw [bind_of_error hdo]
      exact hregister
  | ok cinfo st₁ =>
      rw [hdo] at hregister
      rw [bind_of_ok hdo]
      cases hresponse : registrationResponse lib cinfo with
      | error e => exact hregister
      | ok response =>
          rw [bind_of_ok (lift_ok response st₁)]
          unfold addSymmetricKey
          split_ifs with hsecret
          · cases attempt (lib.addSymmetric clientId (lib.secret clientId)) <;> exact hregister
          · exact hregister

theorem doClientRegistration_eq_ok {request cinfo : Metadata} {clientId : EntityId}
    {ignore : List String} {st st' : Server Jar Key} :
    doClientRegistration lib env request clientId ignore st = .ok cinfo st' ↔
      ∃ found, st.clients.lookup clientId = some found ∧
        checkedRecord lib request (withClaims ignore request found) = .ok cinfo ∧
        importClientKeys env request clientId st = .ok () st' ∧
        lib.keySummary st'.keyImports clientId = .ok () := by
  constructor
  · intro h
    obtain ⟨st₀, st₀', hget, h₁⟩ := bind_eq_ok.mp h
    obtain ⟨rfl, rfl⟩ := EStateM.Result.ok.inj hget
    obtain ⟨found, st₁, hitem, h₂⟩ := bind_eq_ok.mp h₁
    obtain ⟨hfound, rfl⟩ := lift_eq_ok.mp hitem
    obtain ⟨record, st₂, hlift, h₃⟩ := bind_eq_ok.mp h₂
    obtain ⟨hrecord, rfl⟩ := lift_eq_ok.mp hlift
    obtain ⟨⟨⟩, st₃, himport, h₄⟩ := bind_eq_ok.mp h₃
    obtain ⟨st₄, st₄', hget', h₅⟩ := bind_eq_ok.mp h₄
    obtain ⟨rfl, rfl⟩ := EStateM.Result.ok.inj hget'
    obtain ⟨⟨⟩, st₅, hlift', h₆⟩ := bind_eq_ok.mp h₅
    obtain ⟨hsummary, rfl⟩ := lift_eq_ok.mp hlift'
    obtain ⟨rfl, rfl⟩ := EStateM.Result.ok.inj h₆
    exact ⟨found, item_eq_ok.mp (attempt_eq_ok.mp hfound), hrecord, raising_eq_ok.mp himport,
      attempt_eq_ok.mp hsummary⟩
  · rintro ⟨found, hfound, hrecord, himport, hsummary⟩
    rw [doClientRegistration, bind_of_ok (get_apply st), attempt_eq_ok.mpr (item_eq_ok.mpr hfound),
      bind_of_ok (lift_ok found st), hrecord, bind_of_ok (lift_ok cinfo st),
      bind_of_ok (raising_eq_ok.mpr himport), bind_of_ok (get_apply st'),
      attempt_eq_ok.mpr hsummary]
    rfl

theorem addSymmetricKey_eq_ok {clientId : EntityId} {setSecret : Bool} {st : Server Jar Key} :
    (∃ st', addSymmetricKey lib clientId setSecret st = .ok () st') ↔
      (setSecret = true → lib.secret clientId ≠ "" →
        lib.addSymmetric clientId (lib.secret clientId) = .ok ()) := by
  unfold addSymmetricKey
  split_ifs with hsecret
  · constructor
    · rintro ⟨st', h⟩ - -
      obtain ⟨⟨⟩, st₁, hadd, -⟩ := bind_eq_ok.mp h
      exact attempt_eq_ok.mp (lift_eq_ok.mp hadd).1
    · intro h
      rw [h hsecret.1 hsecret.2]
      exact ⟨_, rfl⟩
  · exact ⟨fun _ hset hne => absurd ⟨hset, hne⟩ hsecret, fun _ => ⟨st, rfl⟩⟩

/-- The rest of the registration goes through exactly if the request passes all checks. -/
theorem completeRegistration_eq_ok {prepared : Metadata} {clientId : EntityId}
    {newId setSecret : Bool} {st : Server Jar Key} {cinfo : Metadata} :
    (∃ response st', completeRegistration lib env prepared clientId setSecret
        (stored clientId (provisionalRecord lib clientId newId setSecret) st) =
          .ok (cinfo, response) st') ↔
      PassesChecks lib env prepared clientId newId setSecret st cinfo := by
  have hprovisional : (stored clientId (provisionalRecord lib clientId newId setSecret) st).clients.lookup
      clientId = some (provisionalRecord lib clientId newId setSecret) := AList.lookup_insert _
  constructor
  · rintro ⟨response, st', h⟩
    obtain ⟨cinfo', st₁, hdo, h₁⟩ := bind_eq_ok.mp h
    obtain ⟨response', st₂, hlift, h₂⟩ := bind_eq_ok.mp h₁
    obtain ⟨hresponse, rfl⟩ := lift_eq_ok.mp hlift
    obtain ⟨⟨⟩, st₃, hsecret, h₃⟩ := bind_eq_ok.mp h₂
    obtain ⟨hpair, -⟩ := EStateM.Result.ok.inj h₃
    obtain ⟨rfl, rfl⟩ := Prod.mk.inj hpair
    obtain ⟨found, hfound, hrecord, himport, hsummary⟩ := doClientRegistration_eq_ok.mp hdo
    obtain rfl := Option.some.inj (hprovisional.symm.trans hfound)
    exact ⟨hrecord, ⟨_, himport, hsummary⟩, ⟨_, hresponse⟩, addSymmetricKey_eq_ok.mp ⟨st₃, hsecret⟩⟩
  · rintro ⟨hrecord, ⟨st₁, himport, hsummary⟩, ⟨response, hresponse⟩, hsecret⟩
    obtain ⟨st₂, hadd⟩ := (@addSymmetricKey_eq_ok _ _ _ _ _ st₁).mpr hsecret
    refine ⟨response, st₂, ?_⟩
    rw [completeRegistration, bind_of_ok (doClientRegistration_eq_ok.mpr
      ⟨_, hprovisional, hrecord, himport, hsummary⟩), hresponse, bind_of_ok (lift_ok response st₁),
      bind_of_ok hadd]
    rfl

/-- `step2_process_request` leaves what a refused registration leaves. -/
theorem finalState_step2ProcessRequest {request : Metadata} {newId setSecret : Bool}
    {reserved : List EntityId} {st st' : Server Jar Key} {e : Refusal}
    (h : clientRegistrationSetup lib env ho request newId setSecret reserved st = .error e st') :
    finalState (step2ProcessRequest lib env ho request newId setSecret reserved st) = st' := by
  rw [step2ProcessRequest, h]
  cases e <;> rfl

theorem refusedWithoutTrace_of_error {request : Metadata} {newId setSecret : Bool}
    {reserved : List EntityId} {st st' : Server Jar Key} {e : Refusal}
    (h : clientRegistrationSetup lib env ho request newId setSecret reserved st = .error e st') :
    RefusedWithoutTrace lib env ho endpoint authenticate request newId setSecret reserved st ↔
      LeavesNoClient lib env endpoint authenticate st st' := by
  constructor
  · exact fun hall => (hall e st' h).1
  · intro hleaves e' st'' h'
    obtain ⟨-, rfl⟩ := EStateM.Result.error.inj (h.symm.trans h')
    exact ⟨hleaves, by rwa [finalState_step2ProcessRequest h]⟩

/-- What happens once there is an ID. -/
theorem clientRegistrationSetup_of_prepared {request prepared : Metadata} {clientId : EntityId}
    {newId setSecret : Bool} {reserved : List EntityId} {st : Server Jar Key}
    (hprepare : prepareRegistration lib ho request newId reserved st.clients.keys =
      .ok (prepared, clientId)) :
    clientRegistrationSetup lib env ho request newId setSecret reserved st =
      (completeRegistration lib env prepared clientId setSecret >>= fun completed => do
        storeClient clientId completed.1
        lift (attempt lib.sync)
        return completed.2)
        (stored clientId (provisionalRecord lib clientId newId setSecret) st) := by
  rw [clientRegistrationSetup, bind_of_ok (get_apply st), hprepare, bind_of_ok (lift_ok _ st)]
  exact bind_of_ok rfl

/-- Where a check fails, the provisional record stays. -/
theorem refusedWithoutTrace_of_fails {request prepared : Metadata} {clientId : EntityId}
    {newId setSecret : Bool} {reserved : List EntityId} {st st₁ : Server Jar Key} {e : Refusal}
    (hprepare : prepareRegistration lib ho request newId reserved st.clients.keys =
      .ok (prepared, clientId))
    (hcomplete : completeRegistration lib env prepared clientId setSecret
      (stored clientId (provisionalRecord lib clientId newId setSecret) st) = .error e st₁) :
    RefusedWithoutTrace lib env ho endpoint authenticate request newId setSecret reserved st ↔
      AlreadyThere st clientId (provisionalRecord lib clientId newId setSecret) := by
  have hsetup : clientRegistrationSetup lib env ho request newId setSecret reserved st =
      .error e st₁ := by
    rw [clientRegistrationSetup_of_prepared hprepare, bind_of_error hcomplete]
  have hstored : ∀ id, st₁.clients.lookup id =
      if id = clientId then some (provisionalRecord lib clientId newId setSecret)
      else st.clients.lookup id := by
    intro id
    have hclients := @clients_completeRegistration _ _ lib env prepared clientId
      setSecret (stored clientId (provisionalRecord lib clientId newId setSecret) st)
    rw [hcomplete, finalState_error] at hclients
    rw [hclients]
    exact Dict.lookup_insert' ..
  rw [refusedWithoutTrace_of_error hsetup, leavesNoClient_iff hstored]

/-- Where all checks are passed, only a database that cannot be sync'ed is in the way, and then
    the final record stays. -/
theorem refusedWithoutTrace_of_passes {request prepared : Metadata} {clientId : EntityId}
    {newId setSecret : Bool} {reserved : List EntityId} {st st₁ : Server Jar Key}
    {cinfo response : Metadata}
    (hprepare : prepareRegistration lib ho request newId reserved st.clients.keys =
      .ok (prepared, clientId))
    (hcomplete : completeRegistration lib env prepared clientId setSecret
      (stored clientId (provisionalRecord lib clientId newId setSecret) st) =
        .ok (cinfo, response) st₁) :
    RefusedWithoutTrace lib env ho endpoint authenticate request newId setSecret reserved st ↔
      lib.sync = .ok () ∨ AlreadyThere st clientId cinfo := by
  have hsetup : clientRegistrationSetup lib env ho request newId setSecret reserved st =
      (lift (attempt lib.sync) >>= fun _ => pure response) (stored clientId cinfo st₁) := by
    rw [clientRegistrationSetup_of_prepared hprepare, bind_of_ok hcomplete]
    exact bind_of_ok rfl
  cases hsync : lib.sync with
  | ok value =>
      have hok : clientRegistrationSetup lib env ho request newId setSecret reserved st =
          .ok response (stored clientId cinfo st₁) := by
        rw [hsetup, hsync]
        rfl
      refine ⟨fun _ => .inl rfl, fun _ e st' h => ?_⟩
      exact absurd (hok.symm.trans h) (by simp)
  | error e =>
      -- the record was complete when the database could not be synchronised
      have herror : clientRegistrationSetup lib env ho request newId setSecret reserved st =
          .error (.raised e) (stored clientId cinfo st₁) := by
        rw [hsetup, hsync]
        rfl
      have hstored : ∀ id, (stored clientId cinfo st₁).clients.lookup id =
          if id = clientId then some cinfo else st.clients.lookup id := by
        intro id
        have hclients := @clients_completeRegistration _ _ lib env prepared clientId
          setSecret (stored clientId (provisionalRecord lib clientId newId setSecret) st)
        rw [hcomplete, finalState_ok] at hclients
        show (st₁.clients.insert clientId cinfo).lookup id = _
        rw [Dict.lookup_insert', hclients]
        split_ifs with hid
        · rfl
        · exact AList.lookup_insert_ne hid
      rw [refusedWithoutTrace_of_error herror, leavesNoClient_iff hstored]
      simp

/-- Once there is an ID, what has to hold is about the request as it is used from there on. -/
theorem nothingToLeave_of_prepared {request prepared : Metadata} {clientId : EntityId}
    {newId setSecret : Bool} {reserved : List EntityId} {st : Server Jar Key}
    (hprepare : prepareRegistration lib ho request newId reserved st.clients.keys =
      .ok (prepared, clientId)) :
    NothingToLeave lib env ho request newId setSecret reserved st ↔
      (∃ cinfo, PassesChecks lib env prepared clientId newId setSecret st cinfo ∧
        (lib.sync = .ok () ∨ AlreadyThere st clientId cinfo)) ∨
      (¬ ∃ cinfo, PassesChecks lib env prepared clientId newId setSecret st cinfo) ∧
        AlreadyThere st clientId (provisionalRecord lib clientId newId setSecret) := by
  constructor
  · exact fun h => h prepared clientId hprepare
  · intro h prepared' clientId' hprepare'
    obtain ⟨rfl, rfl⟩ := Prod.mk.inj (Except.ok.inj (hprepare.symm.trans hprepare'))
    exact h

/-- A registration that is refused leaves no client behind exactly if it is refused before a
    record is stored, or there is nothing new to leave. -/
theorem refused_without_trace_iff (request : Metadata) (newId setSecret : Bool)
    (reserved : List EntityId) (st : Server Jar Key) :
    RefusedWithoutTrace lib env ho endpoint authenticate request newId setSecret reserved st ↔
      NothingToLeave lib env ho request newId setSecret reserved st := by
  cases hprepare : prepareRegistration lib ho request newId reserved st.clients.keys with
  | error e =>
      have hsetup : clientRegistrationSetup lib env ho request newId setSecret reserved st =
          .error e st := by
        rw [clientRegistrationSetup, bind_of_ok (get_apply st), hprepare]
        exact bind_of_error (lift_error e st)
      rw [refusedWithoutTrace_of_error hsetup]
      constructor
      · intro _ prepared clientId hok
        exact absurd (hprepare.symm.trans hok) (by simp)
      · intro _
        exact ⟨fun id => Dict.rel_refl (fun _ _ => rfl) _, fun cid trustChain hunknown =>
          clientAuthentication_of_unknown hunknown trustChain⟩
  | ok both =>
  obtain ⟨prepared, clientId⟩ := both
  rw [nothingToLeave_of_prepared hprepare]
  cases hcomplete : completeRegistration lib env prepared clientId setSecret
      (stored clientId (provisionalRecord lib clientId newId setSecret) st) with
  | error e st₁ =>
      -- the provisional record is what is left
      have hfails : ¬ ∃ cinfo, PassesChecks lib env prepared clientId newId setSecret st cinfo := by
        rintro ⟨cinfo, hpasses⟩
        obtain ⟨response, st', hok⟩ := completeRegistration_eq_ok.mpr hpasses
        exact absurd (hcomplete.symm.trans hok) (by simp)
      rw [refusedWithoutTrace_of_fails hprepare hcomplete]
      constructor
      · exact fun h => .inr ⟨hfails, h⟩
      · rintro (⟨cinfo, hpasses, -⟩ | ⟨-, h⟩)
        · exact absurd ⟨cinfo, hpasses⟩ hfails
        · exact h
  | ok completed st₁ =>
      obtain ⟨cinfo, response⟩ := completed
      have hpasses := completeRegistration_eq_ok.mp ⟨response, st₁, hcomplete⟩
      rw [refusedWithoutTrace_of_passes hprepare hcomplete]
      constructor
      · exact fun h => .inl ⟨cinfo, hpasses, h⟩
      · rintro (⟨cinfo', hpasses', h⟩ | ⟨hfails, -⟩)
        · obtain rfl := Except.ok.inj (hpasses.claims.symm.trans hpasses'.claims)
          exact h
        · exact absurd ⟨cinfo, hpasses⟩ hfails

/-! ## A refused redirect URI -/

/-- A library that takes everything as it is. -/
def plainLib : RegistrationLib where
  verify _ := .ok ()
  rmBlanks request := request
  register2preferred := ∅
  providerInfo := ∅
  registrationResponse := ∅
  clientIdGenerator _ := .ok "new-client"
  clientSalt := "salt"
  now := 100
  secret _ := "secret"
  splitUri uri := .ok (uri, none)
  verifyUrl _ _ := .ok true
  alg2keytype _ := .ok none
  getSigningKey _ _ := .ok true
  keySummary _ _ := .ok ()
  responseParams := ["client_id"]
  combUri args := .ok args
  responseCls args := .ok args
  addSymmetric _ _ := .ok ()
  sync := .ok ()
  newCookie _ := .ok ()

/-- A request of a web client with a redirect URI without TLS. -/
def plainHttpRequest : Metadata :=
  Dict.ofList [("client_id", .str "https://rp.org"),
    ("redirect_uris", .arr [.str "http://rp.org/cb"])]

/-- The request is refused, and the client is in the database. -/
theorem refused_request_leaves_client :
    ¬ ∀ (lib : RegistrationLib) (env : ServerEnv Nat) (ho : HashOrder)
      (endpoint : Endpoint (AssocJar Nat) Nat)
      (authenticate : EntityId → Option EntityId →
        EStateM Exc (Server (AssocJar Nat) Nat) (Dict Json))
      (request : Metadata) (newId setSecret : Bool) (reserved : List EntityId)
      (st : Server (AssocJar Nat) Nat),
      RefusedWithoutTrace lib env ho endpoint authenticate request newId setSecret reserved st := by
  intro hall
  let env := serverEnvOn fun _ => .reply 404 none (.text "")
  have hrefused : outcome (clientRegistrationSetup plainLib env .insertion plainHttpRequest false true
      [] freshServer) = .error (.response "invalid_redirect_uri"
        (.text [.lit "None https redirect_uri not allowed"])) := by decide +kernel
  have hleft : ((finalState (clientRegistrationSetup plainLib env .insertion plainHttpRequest false
      true [] freshServer)).clients.lookup "https://rp.org").isSome = true := by decide +kernel
  obtain ⟨st', herror⟩ := outcome_eq_error.mp hrefused
  have hclean := (hall plainLib env .insertion (oauth2Authorization env) (fun _ _ => pure ∅)
    plainHttpRequest false true [] freshServer _ st' herror).1.clients "https://rp.org"
  rw [herror, finalState_error] at hleft
  obtain ⟨record, hrecord⟩ := Option.isSome_iff_exists.mp hleft
  rw [hrecord] at hclean
  exact absurd hclean (by simp [freshServer])

end Fedservice.AppServer
