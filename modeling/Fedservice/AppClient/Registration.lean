/-
  Fedservice.AppClient.Registration

  `parse_federation_registration_response` of the OAuth2 and of the OIDC client
  (appclient/oauth2/registration.py, appclient/oidc/registration.py), for a client
  without a metadata verifier: the response of a server to a registration request.
  The two clients differ in how they verify their own trust chain and in what they
  take from it.
-/

import Fedservice.Entity.StandingChains

namespace Fedservice.AppClient

open Fedservice.Lib Fedservice.Py Fedservice.EntityStatement Fedservice.Crypto Fedservice.Entity
  Fedservice.Entity.Function

variable {Jar Key Resp : Type}

/-! ## The client -/

/-- The configuration of a client. -/
structure AppClientEnv (Key : Type) where
  collector : CollectorEnv Key
  ho : HashOrder := .insertion
  entityId : EntityId

/-- A client: its federation entity, and `registration_response` of its context. -/
structure Client (Jar Key Resp : Type) where
  federation : FederationState Jar Key
  registrationResponse : Option Resp := none

/-- A registration response: a statement of the server, which may name a trust anchor. -/
structure RegistrationResponse (Key : Type) where
  jws : Token Key
  trustAnchorId : Option EntityId := none

/-- Run something on the federation entity. -/
def inFederation {α : Type} (m : EStateM Exc (FederationState Jar Key) α) :
    EStateM Exc (Client Jar Key Resp) α :=
  zoom (·.federation) (fun fe st => { st with federation := fe }) m

/-- `payload.get("metadata")`, where it is not empty. -/
def sentMetadata (payload : Statement Key) : Option (Dict Metadata) :=
  payload.metadata.filter (fun metadata => !metadata.isEmpty)

/-- `trust_chain.verified_chain[-1]['metadata'] = metadata`. -/
def replaceMetadata (metadata : Dict Metadata) (trustChain : TrustChain Key) : TrustChain Key :=
  match trustChain.verifiedChain.getLast? with
  | none => trustChain
  | some leaf => { trustChain with verifiedChain :=
      trustChain.verifiedChain.dropLast ++ [{ leaf with metadata := some metadata }] }

variable [KeyStore Jar Key] [DecidableEq Key] (env : AppClientEnv Key)

/-! ## parse_federation_registration_response -/

/-- `_signature_verifies`, in both clients. -/
def signatureVerifies (entityId trustAnchor : EntityId) :
    EStateM Exc (FederationState Jar Key) Bool := do
  let (chains, _) ← inCollector
    (collectTrustChains env.collector entityId (.text "") trustAnchor)
  if chains.isEmpty then return false
  else do
    -- that no chain verifies makes no difference: only an exception would
    let _ ← inKeyjar (verifyTrustChains [] chains)
    return true

omit [DecidableEq Key] in
/-- The trust anchor the server chose, if it is one to trust. -/
def chosenAnchor (response : RegistrationResponse Key) : Except Exc EntityId :=
  match response.trustAnchorId with
  | none => .error (.keyError "trust_anchor_id")
  | some anchor =>
      if anchor ∈ env.collector.trustAnchors then .ok anchor
      else .error (.valueError [.lit "Trust anchor I don't trust"])

/-- The first part of `parse_federation_registration_response`, in both clients: the
    payload of the response and the trust anchor that it names. -/
def checkedResponse (response : RegistrationResponse Key) :
    EStateM Exc (FederationState Jar Key) (SelfSigned Key × EntityId) := do
  let config ← inCollector (verifySelfSignedSignature env.collector response.jws)
  -- do I trust the TA the OP chose?
  let trustAnchor ← lift (chosenAnchor env response)
  -- the package has no metadata verifier to ask instead;
  -- verify the signature on the response from the OP
  if !(← signatureVerifies env config.payload.iss trustAnchor) then
    throw (.signatureFailure [.lit "Could not verify signature"])
  else return (config, trustAnchor)

omit [KeyStore Jar Key] [DecidableEq Key] in
/-- The last part: what is taken from the one trust chain is the response to store. -/
def storeResponse (registered : TrustChain Key → Except Exc Resp) (trustAnchor : EntityId) :
    List (TrustChain Key) → EStateM Exc (Client Jar Key Resp) Resp
  | [trustChain] => do
      let resp ← lift (registered trustChain)
      modify (fun st => { st with registrationResponse := some resp })
      return resp
  | _ => throw (.systemError [.lit "More then one chain ending in ", .val (.str trustAnchor)])

/-- `parse_federation_registration_response`, with `ownChains` for the trust chains from
    the client itself and `registered` for what is taken from its chain. -/
def parseFederationRegistrationResponse
    (ownChains : Token Key → EntityId →
      EStateM Exc (FederationState Jar Key) (List (TrustChain Key)))
    (registered : Statement Key → TrustChain Key → Except Exc Resp)
    (response : RegistrationResponse Key) : EStateM Exc (Client Jar Key Resp) Resp := do
  let checked ← inFederation (checkedResponse env response)
  let trustChains ← inFederation (ownChains response.jws checked.2)
  storeResponse (registered checked.1.payload) checked.2 trustChains

/-! ## The two clients -/

/-- The trust chain from the OAuth2 client itself, which may end in any trust anchor. -/
def oauth2OwnChains : Token Key → EntityId →
    EStateM Exc (FederationState Jar Key) (List (TrustChain Key)) :=
  fun _ _ => getVerifiedTrustChains env.ho env.collector env.entityId

omit [DecidableEq Key] in
/-- The metadata of the chain, adjusted again for those that the server sent. -/
def oauth2Registered (payload : Statement Key) (trustChain : TrustChain Key) :
    Except Exc ChainMetadata :=
  match sentMetadata payload with
  | none => .ok trustChain.metadata
  | some metadata => do
      let trustChains ← applyPolicies env.ho [replaceMetadata metadata trustChain]
      match trustChains with
      | [] => throw .indexError
      | trustChain :: _ => return trustChain.metadata

/-- `parse_federation_registration_response` of OAuth2. -/
def oauth2Parse (response : RegistrationResponse Key) :
    EStateM Exc (Client Jar Key ChainMetadata) ChainMetadata :=
  parseFederationRegistrationResponse env (oauth2OwnChains env) (oauth2Registered env) response

/-- The trust chain from the RP to the trust anchor, where the response stands for its
    entity configuration. -/
def oidcOwnChains (response : Token Key) (trustAnchor : EntityId) :
    EStateM Exc (FederationState Jar Key) (List (TrustChain Key)) := do
  let (chains, _) ← inCollector
    (collectTrustChains env.collector env.entityId (.text "") trustAnchor)
  inKeyjar (verifyTrustChains [response] chains)

omit [DecidableEq Key] in
/-- The metadata of the chain for a relying party, once adjusted. -/
def oidcRegistered (payload : Statement Key) (trustChain : TrustChain Key) :
    Except Exc (Option Metadata) := do
  let trustChain := match sentMetadata payload with
    | none => trustChain
    | some metadata => replaceMetadata metadata trustChain
  let trustChains ← applyPolicies env.ho [trustChain]
  match trustChains with
  | [] => throw .indexError
  | trustChain :: _ => trustChain.metadata.item "openid_relying_party"

/-- `parse_federation_registration_response` of OIDC. -/
def oidcParse (response : RegistrationResponse Key) :
    EStateM Exc (Client Jar Key (Option Metadata)) (Option Metadata) :=
  parseFederationRegistrationResponse env (oidcOwnChains env) (oidcRegistered env) response

/-! ## What a response should be accepted for -/

section Claims

/-- The chains that are collected for the issuer of a self-signed response, up to the trust
    anchor that it names. -/
structure CollectedFor (response : RegistrationResponse Key) (fe : FederationState Jar Key)
    (config : SelfSigned Key) (anchor : EntityId) (chains : List (List (Token Key)))
    (collector : CollectorState Key) : Prop where
  names : response.trustAnchorId = some anchor
  collected : ∃ leafEc collector₁,
    verifySelfSignedSignature env.collector response.jws fe.collector = .ok config collector₁ ∧
      collectTrustChains env.collector config.payload.iss (.text "") anchor [] collector₁ =
        .ok (chains, leafEc) collector

/-- A trust chain of an entity, from the anchor, whose last statement lists a key for it. -/
def Attests (trustChain : TrustChain Key) (iss anchor : EntityId) (k : Key) : Prop :=
  trustChain.anchor = anchor ∧
    ∃ s ∈ trustChain.verifiedChain.getLast?, s.sub = iss ∧ k ∈ s.keys

/-- The response is signed with a key that a verified trust chain of its issuer attests,
    and the chain ends in the trust anchor that the response names. -/
def SignedByAttestedKey (response : RegistrationResponse Key) (fe : FederationState Jar Key) :
    Prop :=
  ∃ config anchor chains collector, CollectedFor env response fe config anchor chains collector ∧
    ∃ trustChains jar, verifyTrustChains [] chains fe.keyjar = .ok trustChains jar ∧
      ∃ trustChain ∈ trustChains,
        Attests trustChain config.payload.iss anchor config.jws.signer

/-- What is accepted is signed by an attested key, and stored; anything else raises, and
    what was stored stays. -/
structure AcceptsOnlyAttested
    (parse : RegistrationResponse Key → EStateM Exc (Client Jar Key Resp) Resp)
    (response : RegistrationResponse Key) (st : Client Jar Key Resp) : Prop where
  accepted : ∀ resp st', parse response st = .ok resp st' →
    st'.registrationResponse = some resp ∧ SignedByAttestedKey env response st.federation
  raised : ∀ e st', parse response st = .error e st' →
    st'.registrationResponse = st.registrationResponse

/-- The client accepts a response. -/
def Accepts (parse : RegistrationResponse Key → EStateM Exc (Client Jar Key Resp) Resp)
    (response : RegistrationResponse Key) (st : Client Jar Key Resp) : Prop :=
  ∃ resp st', parse response st = .ok resp st'

/-! ## What a response should be checked for -/

/-- What the collector finds for the issuer of a response, up to a trust anchor, when the
    response has been checked with the keys it lists itself. -/
def foundForIssuer (s : SignedStatement Key) (anchor : EntityId) (fe : FederationState Jar Key) :
    Except Exc (List (List (Token Key)) × Option (SelfSigned Key)) :=
  outcome (collectTrustChains env.collector s.payload.iss (.text "") anchor []
    (finalState (verifySelfSignedSignature env.collector (.jws s) fe.collector)))

/-- Among the statements that are found for the issuer there is a list that stands, starts
    with a statement of the anchor, and ends with one about the issuer that lists the key
    which the response is signed with. -/
def IssuerAttested (chains : List (List (Token Key))) (jar : Jar) (anchor : EntityId)
    (s : SignedStatement Key) : Prop :=
  ∃ ts, StandsAmong [] chains jar ts ∧ (payloads ts).head?.map (·.iss) = some anchor ∧
    ∃ last ∈ (payloads ts).getLast?, last.sub = s.payload.iss ∧ s.signer ∈ last.keys

end Claims

variable {env}

omit [KeyStore Jar Key] in
theorem CollectedFor.unique {response : RegistrationResponse Key} {fe : FederationState Jar Key}
    {config config' : SelfSigned Key} {anchor anchor' : EntityId}
    {chains chains' : List (List (Token Key))} {collector collector' : CollectorState Key}
    (h : CollectedFor env response fe config anchor chains collector)
    (h' : CollectedFor env response fe config' anchor' chains' collector') :
    config = config' ∧ anchor = anchor' ∧ chains = chains' ∧ collector = collector' := by
  obtain ⟨hnames, leafEc, col, hself, hcollect⟩ := h
  obtain ⟨hnames', leafEc', col', hself', hcollect'⟩ := h'
  rw [hnames, Option.some.injEq] at hnames'
  rw [hself, EStateM.Result.ok.injEq] at hself'
  obtain ⟨rfl, rfl⟩ := hself'
  rw [← hnames', hcollect, EStateM.Result.ok.injEq, Prod.mk.injEq] at hcollect'
  exact ⟨rfl, hnames', hcollect'.1.1, hcollect'.2⟩

/-! ## Verified chains and their statements -/

/-- Some of the verified chains attests a key exactly if one of the lists that stand does. -/
theorem attests_iff {chains : List (List (Token Key))} {jar jar' : Jar}
    {trustChains : List (TrustChain Key)} {s : SignedStatement Key} {anchor : EntityId}
    (h : verifyTrustChains [] chains jar = .ok trustChains jar') :
    (∃ trustChain ∈ trustChains, Attests trustChain s.payload.iss anchor s.signer) ↔
      IssuerAttested chains jar anchor s := by
  constructor
  · rintro ⟨trustChain, hmem, hanchor, hlast⟩
    obtain ⟨ts, hstands, rfl⟩ := (mem_verifyTrustChains_iff h).mp hmem
    refine ⟨ts, hstands, ?_, hlast⟩
    obtain ⟨first, rest, hfirst⟩ := List.exists_cons_of_ne_nil hstands.nonempty
    rw [trustChainOf, hfirst] at hanchor
    rw [hfirst, ← hanchor]
    rfl
  · rintro ⟨ts, hstands, hhead, hlast⟩
    refine ⟨trustChainOf ts, (mem_verifyTrustChains_iff h).mpr ⟨ts, hstands, rfl⟩, ?_, hlast⟩
    rw [trustChainOf, hhead, Option.getD_some]

/-! ## What the clients do -/

/-- `_signature_verifies` looks for chains and lets the verifier go over them; what comes
    of that makes no difference. -/
theorem signatureVerifies_eq_ok {iss anchor : EntityId} {fe fe' : FederationState Jar Key} :
    signatureVerifies env iss anchor fe = .ok true fe' ↔
      ∃ chains leafEc collector, collectTrustChains env.collector iss (.text "") anchor []
          fe.collector = .ok (chains, leafEc) collector ∧ chains ≠ [] ∧
        ∃ trustChains jar, verifyTrustChains [] chains fe.keyjar = .ok trustChains jar ∧
          fe' = { fe with collector := collector, keyjar := jar } := by
  constructor
  · intro h
    obtain ⟨⟨chains, leafEc⟩, fe₁, hcollected, h⟩ := bind_eq_ok.mp h
    obtain ⟨collector, hcollect, rfl⟩ := inCollector_eq_ok.mp hcollected
    by_cases hempty : chains.isEmpty = true
    · simp only [if_pos hempty] at h
      exact absurd h (by simp)
    · simp only [if_neg hempty] at h
      obtain ⟨trustChains, fe₂, hverified, h⟩ := bind_eq_ok.mp h
      obtain ⟨jar, hverify, rfl⟩ := inKeyjar_eq_ok.mp hverified
      obtain ⟨-, rfl⟩ := EStateM.Result.ok.inj h
      refine ⟨chains, leafEc, collector, hcollect, ?_, trustChains, jar, hverify, rfl⟩
      rintro rfl
      exact hempty rfl
  · rintro ⟨chains, leafEc, collector, hcollect, hne, trustChains, jar, hverify, rfl⟩
    have hempty : ¬ chains.isEmpty = true := by rwa [List.isEmpty_iff]
    have hverified : inKeyjar (verifyTrustChains [] chains) { fe with collector := collector } =
        .ok trustChains { fe with collector := collector, keyjar := jar } :=
      inKeyjar_of_ok hverify
    rw [signatureVerifies, bind_of_ok (inCollector_of_ok hcollect)]
    simp only [if_neg hempty]
    rw [bind_of_ok hverified]
    rfl

omit [DecidableEq Key] in
theorem chosenAnchor_eq_ok {response : RegistrationResponse Key} {anchor : EntityId} :
    chosenAnchor env response = .ok anchor ↔
      response.trustAnchorId = some anchor ∧ anchor ∈ env.collector.trustAnchors := by
  unfold chosenAnchor
  cases response.trustAnchorId with
  | none => simp
  | some named =>
      by_cases htrusted : named ∈ env.collector.trustAnchors
      · simp only [if_pos htrusted, Except.ok.injEq, Option.some.injEq]
        constructor
        · rintro rfl
          exact ⟨rfl, htrusted⟩
        · exact fun h => h.1
      · simp only [if_neg htrusted, reduceCtorEq, Option.some.injEq, false_iff]
        rintro ⟨rfl, hin⟩
        exact htrusted hin

theorem checkedResponse_eq_ok {response : RegistrationResponse Key} {fe fe' : FederationState Jar Key}
    {config : SelfSigned Key} {anchor : EntityId} :
    checkedResponse env response fe = .ok (config, anchor) fe' ↔
      ∃ chains collector, CollectedFor env response fe config anchor chains collector ∧
        anchor ∈ env.collector.trustAnchors ∧ chains ≠ [] ∧
        ∃ trustChains jar, verifyTrustChains [] chains fe.keyjar = .ok trustChains jar ∧
          fe' = { fe with collector := collector, keyjar := jar } := by
  constructor
  · intro h
    obtain ⟨config', fe₁, hown, h⟩ := bind_eq_ok.mp h
    obtain ⟨collector₁, hself, rfl⟩ := inCollector_eq_ok.mp hown
    obtain ⟨anchor', fe₂, hchosen, h⟩ := bind_eq_ok.mp h
    obtain ⟨hanchor, rfl⟩ := lift_eq_ok.mp hchosen
    obtain ⟨verifies, fe₃, hverifies, h⟩ := bind_eq_ok.mp h
    cases verifies with
    | false => exact absurd h (by simp)
    | true =>
        obtain ⟨heq, rfl⟩ := EStateM.Result.ok.inj h
        obtain ⟨rfl, rfl⟩ := Prod.mk.inj heq
        obtain ⟨hnames, htrusted⟩ := chosenAnchor_eq_ok.mp hanchor
        obtain ⟨chains, leafEc, collector, hcollect, hne, trustChains, jar, hverify, rfl⟩ :=
          signatureVerifies_eq_ok.mp hverifies
        exact ⟨chains, collector, ⟨hnames, leafEc, collector₁, hself, hcollect⟩, htrusted, hne,
          trustChains, jar, hverify, rfl⟩
  · rintro ⟨chains, collector, ⟨hnames, leafEc, collector₁, hself, hcollect⟩, htrusted, hne,
      trustChains, jar, hverify, rfl⟩
    have hverifies : signatureVerifies env config.payload.iss anchor
        { fe with collector := collector₁ } =
          .ok true { fe with collector := collector, keyjar := jar } :=
      signatureVerifies_eq_ok.mpr
        ⟨chains, leafEc, collector, hcollect, hne, trustChains, jar, hverify, rfl⟩
    have hchosen : chosenAnchor env response = .ok anchor :=
      chosenAnchor_eq_ok.mpr ⟨hnames, htrusted⟩
    rw [checkedResponse, bind_of_ok (inCollector_of_ok hself), hchosen,
      bind_of_ok (lift_ok anchor _), bind_of_ok hverifies]
    rfl

omit [KeyStore Jar Key] [DecidableEq Key] in
/-- Only the client stores a response. -/
theorem registrationResponse_inFederation {α : Type} (m : EStateM Exc (FederationState Jar Key) α)
    (st : Client Jar Key Resp) :
    (finalState (inFederation m st)).registrationResponse = st.registrationResponse := by
  unfold inFederation zoom
  cases m st.federation <;> rfl

variable
  {ownChains : Token Key → EntityId → EStateM Exc (FederationState Jar Key) (List (TrustChain Key))}
  {registered : Statement Key → TrustChain Key → Except Exc Resp}

omit [KeyStore Jar Key] [DecidableEq Key] in
theorem inFederation_eq_ok {α : Type} {m : EStateM Exc (FederationState Jar Key) α} {a : α}
    {st st' : Client Jar Key Resp} :
    inFederation m st = .ok a st' ↔
      ∃ fe, m st.federation = .ok a fe ∧ st' = { st with federation := fe } :=
  zoom_eq_ok

omit [KeyStore Jar Key] [DecidableEq Key] in
theorem storeResponse_eq_ok {take : TrustChain Key → Except Exc Resp} {anchor : EntityId}
    {trustChains : List (TrustChain Key)} {resp : Resp} {st st' : Client Jar Key Resp} :
    storeResponse take anchor trustChains st = .ok resp st' ↔
      ∃ own, trustChains = [own] ∧ take own = .ok resp ∧
        st' = { st with registrationResponse := some resp } := by
  constructor
  · intro h
    rcases trustChains with _ | ⟨own, _ | ⟨second, rest⟩⟩
    · exact absurd h (by simp [storeResponse])
    · obtain ⟨resp', st₁, htaken, hstore⟩ := bind_eq_ok.mp h
      obtain ⟨htake, rfl⟩ := lift_eq_ok.mp htaken
      obtain ⟨rfl, rfl⟩ := EStateM.Result.ok.inj hstore
      exact ⟨own, rfl, htake, rfl⟩
    · exact absurd h (by simp [storeResponse])
  · rintro ⟨own, rfl, htake, rfl⟩
    rw [storeResponse, htake]
    rfl

omit [KeyStore Jar Key] [DecidableEq Key] in
theorem storeResponse_eq_error {take : TrustChain Key → Except Exc Resp} {anchor : EntityId}
    {trustChains : List (TrustChain Key)} {e : Exc} {st st' : Client Jar Key Resp}
    (h : storeResponse take anchor trustChains st = .error e st') : st' = st := by
  rcases trustChains with _ | ⟨own, _ | ⟨second, rest⟩⟩
  · exact (EStateM.Result.error.inj h).2.symm
  · rw [storeResponse] at h
    cases htake : take own with
    | error e' =>
        rw [htake, bind_of_error (lift_error e' st)] at h
        exact (EStateM.Result.error.inj h).2.symm
    | ok resp =>
        rw [htake, bind_of_ok (lift_ok resp st)] at h
        exact nomatch h
  · exact (EStateM.Result.error.inj h).2.symm

/-- All that happens when a response is accepted. -/
theorem parse_eq_ok {response : RegistrationResponse Key} {resp : Resp}
    {st st' : Client Jar Key Resp} :
    parseFederationRegistrationResponse env ownChains registered response st = .ok resp st' ↔
      ∃ config anchor fe own fe', checkedResponse env response st.federation =
          .ok (config, anchor) fe ∧ ownChains response.jws anchor fe = .ok [own] fe' ∧
        registered config.payload own = .ok resp ∧
        st' = { federation := fe', registrationResponse := some resp } := by
  constructor
  · intro h
    obtain ⟨⟨config, anchor⟩, st₁, hchecked, h⟩ := bind_eq_ok.mp h
    obtain ⟨fe, hcheck, rfl⟩ := inFederation_eq_ok.mp hchecked
    obtain ⟨trustChains, st₂, hown, h⟩ := bind_eq_ok.mp h
    obtain ⟨fe', hchains, rfl⟩ := inFederation_eq_ok.mp hown
    obtain ⟨own, rfl, hregistered, rfl⟩ := storeResponse_eq_ok.mp h
    exact ⟨config, anchor, fe, own, fe', hcheck, hchains, hregistered, rfl⟩
  · rintro ⟨config, anchor, fe, own, fe', hcheck, hchains, hregistered, rfl⟩
    have hown : inFederation (ownChains response.jws anchor) { st with federation := fe } =
        .ok [own] { st with federation := fe' } :=
      inFederation_eq_ok.mpr ⟨fe', hchains, rfl⟩
    rw [parseFederationRegistrationResponse,
      bind_of_ok (inFederation_eq_ok.mpr ⟨fe, hcheck, rfl⟩), bind_of_ok hown]
    exact storeResponse_eq_ok.mpr ⟨own, rfl, hregistered, rfl⟩

omit [KeyStore Jar Key] [DecidableEq Key] in
theorem accepts_of_isOk {parse : RegistrationResponse Key → EStateM Exc (Client Jar Key Resp) Resp}
    {response : RegistrationResponse Key} {st : Client Jar Key Resp}
    (h : (outcome (parse response st)).isOk = true) : Accepts parse response st := by
  cases hparse : parse response st with
  | error e st' =>
      rw [hparse] at h
      exact absurd h (by simp [Except.isOk, Except.toBool])
  | ok resp st' => exact ⟨resp, st', hparse⟩

/-- Where it raises, what was stored stays. -/
theorem parse_eq_error {response : RegistrationResponse Key} {e : Exc} {st st' : Client Jar Key Resp}
    (h : parseFederationRegistrationResponse env ownChains registered response st = .error e st') :
    st'.registrationResponse = st.registrationResponse := by
  have hchecked := registrationResponse_inFederation (checkedResponse env response) st
  unfold parseFederationRegistrationResponse at h
  cases hcheck : inFederation (checkedResponse env response) st with
  | error e₁ st₁ =>
      -- each of the three parts leaves alone what was stored, up to the one that stores
      rw [bind_of_error hcheck] at h
      obtain ⟨-, rfl⟩ := EStateM.Result.error.inj h
      rwa [hcheck] at hchecked
  | ok checked st₁ =>
      rw [hcheck, finalState_ok] at hchecked
      rw [bind_of_ok hcheck] at h
      have hown := registrationResponse_inFederation (ownChains response.jws checked.2) st₁
      cases hchains : inFederation (ownChains response.jws checked.2) st₁ with
      | error e₂ st₂ =>
          rw [bind_of_error hchains] at h
          obtain ⟨-, rfl⟩ := EStateM.Result.error.inj h
          rw [hchains] at hown
          exact hown.trans hchecked
      | ok trustChains st₂ =>
          rw [hchains, finalState_ok] at hown
          rw [bind_of_ok hchains] at h
          rw [storeResponse_eq_error h]
          exact hown.trans hchecked

/-- A response that is not accepted raises, and nothing is stored. -/
theorem acceptsOnlyAttested_of_not_accepts {response : RegistrationResponse Key}
    {st : Client Jar Key Resp}
    (h : ¬ Accepts (parseFederationRegistrationResponse env ownChains registered) response st) :
    AcceptsOnlyAttested env (parseFederationRegistrationResponse env ownChains registered)
      response st :=
  ⟨fun resp st' hparse => absurd ⟨resp, st', hparse⟩ h, fun _ _ => parse_eq_error⟩

/-- A response that is accepted is stored, and signed by an attested key exactly if what is
    found for its issuer attests the key. -/
theorem acceptsOnlyAttested_iff {response : RegistrationResponse Key} {st : Client Jar Key Resp}
    (h : Accepts (parseFederationRegistrationResponse env ownChains registered) response st) :
    ∃ s anchor chains leafEc, response.jws = .jws s ∧ response.trustAnchorId = some anchor ∧
      foundForIssuer env s anchor st.federation = .ok (chains, leafEc) ∧
      (AcceptsOnlyAttested env (parseFederationRegistrationResponse env ownChains registered)
          response st ↔ IssuerAttested chains st.federation.keyjar anchor s) := by
  obtain ⟨resp, st', hparse⟩ := h
  obtain ⟨config, anchor, fe, own, fe', hcheck, -, -, hstored⟩ := parse_eq_ok.mp hparse
  obtain ⟨chains, collector, hcollected, -, -, trustChains, jar, hverify, -⟩ :=
    checkedResponse_eq_ok.mp hcheck
  obtain ⟨hnames, leafEc, collector₁, hself, hcollect⟩ := hcollected
  have hjws : response.jws = .jws config.jws := verifySelfSignedSignature_eq_ok _ hself
  have hfound : foundForIssuer env config.jws anchor st.federation = .ok (chains, leafEc) := by
    rw [foundForIssuer, ← hjws, hself, finalState_ok, outcome_eq_ok]
    exact ⟨collector, hcollect⟩
  refine ⟨config.jws, anchor, chains, leafEc, hjws, hnames, hfound, ?_, ?_⟩
  · intro haccepts
    obtain ⟨-, config', anchor', chains', collector', hcollected', tcs, jar', hverify', hattests⟩ :=
      haccepts.accepted resp st' hparse
    -- both speak of the same run of the collector
    obtain ⟨rfl, rfl, rfl, rfl⟩ := hcollected'.unique ⟨hnames, leafEc, collector₁, hself, hcollect⟩
    exact (attests_iff hverify').mp hattests
  · refine fun hattested => ⟨fun resp' st'' hparse' => ?_, fun _ _ => parse_eq_error⟩
    obtain ⟨rfl, rfl⟩ := EStateM.Result.ok.inj (hparse.symm.trans hparse')
    refine ⟨by rw [hstored], config, anchor, chains, collector,
      ⟨hnames, leafEc, collector₁, hself, hcollect⟩, trustChains, jar, hverify, ?_⟩
    exact (attests_iff hverify).mpr hattested

omit [KeyStore Jar Key] in
/-- In a steady federation what is found for an issuer is what is published. -/
theorem foundForIssuer_of_steady {entities : Finset EntityId} (h : Steady env.collector entities)
    {fe : FederationState Jar Key} (hfe : Reflects env.collector entities fe.collector)
    {s : SignedStatement Key} (hiss : s.payload.iss ∈ entities) (anchor : EntityId) :
    foundForIssuer env s anchor fe = publishedChains env.collector anchor s.payload.iss :=
  (h.yieldsPublishedChains hiss anchor _
    ((h.verifySelfSignedSignature (.jws s)).yields fe.collector hfe).2).1

/-- A client accepts only what an attested key has signed: always where it does not accept,
    and otherwise exactly if the statements that the collector finds for the issuer attest the
    key.  In a steady federation these are the ones that are published. -/
structure AttestedExactly (env : AppClientEnv Key)
    (parse : RegistrationResponse Key → EStateM Exc (Client Jar Key Resp) Resp) : Prop where
  refused : ∀ response st, ¬ Accepts parse response st →
    AcceptsOnlyAttested env parse response st
  accepted : ∀ response st, Accepts parse response st →
    ∃ s anchor chains leafEc, response.jws = .jws s ∧ response.trustAnchorId = some anchor ∧
      foundForIssuer env s anchor st.federation = .ok (chains, leafEc) ∧
      (AcceptsOnlyAttested env parse response st ↔
        IssuerAttested chains st.federation.keyjar anchor s)
  published : ∀ entities, Steady env.collector entities → ∀ response st,
    Reflects env.collector entities st.federation.collector → Accepts parse response st →
      ∃ s anchor, response.jws = .jws s ∧ response.trustAnchorId = some anchor ∧
        (s.payload.iss ∈ entities →
          ∃ chains leafEc, publishedChains env.collector anchor s.payload.iss =
              .ok (chains, leafEc) ∧
            (AcceptsOnlyAttested env parse response st ↔
              IssuerAttested chains st.federation.keyjar anchor s))

theorem attestedExactly_parse : AttestedExactly env
    (parseFederationRegistrationResponse env ownChains registered) where
  refused _ _ := acceptsOnlyAttested_of_not_accepts
  accepted _ _ := acceptsOnlyAttested_iff
  published entities hsteady response st hst haccepts := by
    obtain ⟨s, anchor, chains, leafEc, hjws, hnames, hfound, hiff⟩ :=
      acceptsOnlyAttested_iff haccepts
    refine ⟨s, anchor, hjws, hnames, fun hiss => ⟨chains, leafEc, ?_, hiff⟩⟩
    rw [← foundForIssuer_of_steady hsteady hst hiss, hfound]

/-- Both clients accept only what an attested key has signed exactly as long as the
    statements found for the issuer of what they accept attest the key. -/
theorem registration_response_attested_iff (env : AppClientEnv Key) :
    AttestedExactly env
        (oauth2Parse env : _ → EStateM Exc (Client Jar Key ChainMetadata) ChainMetadata) ∧
      AttestedExactly env
        (oidcParse env : _ → EStateM Exc (Client Jar Key (Option Metadata)) (Option Metadata)) :=
  ⟨attestedExactly_parse, attestedExactly_parse⟩

/-! ## A response signed by somebody else -/

/-- A server and a client below a trust anchor. -/
def serverAndClient : List (String × SignedStatement Nat) :=
  [("https://ta.org/.well-known/openid-federation",
    ⟨{ iss := "https://ta.org", sub := "https://ta.org", exp := 1000, jwks := some [1]
       metadata := some (withFetchEndpoint "https://ta.org/fetch") }, 1⟩),
   ("https://op.org/.well-known/openid-federation",
    ⟨{ iss := "https://op.org", sub := "https://op.org", exp := 1000, jwks := some [2]
       authorityHints := some ["https://ta.org"] }, 2⟩),
   ("https://rp.org/.well-known/openid-federation",
    ⟨{ iss := "https://rp.org", sub := "https://rp.org", exp := 1000, jwks := some [3]
       authorityHints := some ["https://ta.org"]
       metadata := some (Dict.ofList [("oauth_client", ∅)]) }, 3⟩),
   ("https://ta.org/fetch?https://op.org",
    ⟨{ iss := "https://ta.org", sub := "https://op.org", exp := 1000, jwks := some [2] }, 1⟩),
   ("https://ta.org/fetch?https://rp.org",
    ⟨{ iss := "https://ta.org", sub := "https://rp.org", exp := 1000, jwks := some [3] }, 1⟩)]

/-- The client, which knows the trust anchor. -/
def clientEnv : AppClientEnv Nat where
  collector := onPages ["https://ta.org"] serverAndClient
  entityId := "https://rp.org"

theorem steady_serverAndClient :
    Steady clientEnv.collector {"https://rp.org", "https://op.org", "https://ta.org"} := by
  refine steady_onPages (fun e he config hconfig => ?_) (by unfold CacheKeysApart; decide)
  simp only [Finset.mem_insert, Finset.mem_singleton] at he
  rcases he with rfl | rfl | rfl <;> obtain rfl := Except.ok.inj hconfig <;> decide

/-- A response that the server has signed. -/
def honestResponse : RegistrationResponse Nat where
  jws := .jws ⟨{ iss := "https://op.org", sub := "https://rp.org", exp := 1000, jwks := some [2]
                 metadata := some (Dict.ofList
                  [("oauth_client", Dict.ofList [("client_id", .str "https://rp.org")])]) }, 2⟩
  trustAnchorId := some "https://ta.org"

/-- The OAuth2 client accepts it, and rightly so. -/
theorem honest_response_accepted :
    Accepts (oauth2Parse clientEnv) honestResponse
        ({ federation := trustsTa } : Client (AssocJar Nat) Nat ChainMetadata) ∧
      AcceptsOnlyAttested clientEnv (oauth2Parse clientEnv) honestResponse
        ({ federation := trustsTa } : Client (AssocJar Nat) Nat ChainMetadata) := by
  have haccepts : Accepts (oauth2Parse clientEnv) honestResponse
      ({ federation := trustsTa } : Client (AssocJar Nat) Nat ChainMetadata) :=
    accepts_of_isOk (by decide +kernel)
  obtain ⟨s, anchor, hs, hanchor, hpublished⟩ :=
    (registration_response_attested_iff clientEnv).1.published _ steady_serverAndClient
      honestResponse { federation := trustsTa } reflects_empty haccepts
  obtain rfl := Token.jws.inj hs
  obtain rfl := Option.some.inj hanchor
  obtain ⟨chains, leafEc, hfound, hiff⟩ := hpublished (by decide)
  obtain ⟨rfl, rfl⟩ := Prod.mk.inj (Except.ok.inj hfound)
  refine ⟨haccepts, hiff.mpr ⟨_, ⟨[], _, [], rfl, rfl, ⟨⟨_, _, rfl⟩, ?_, by decide⟩⟩, rfl, _, rfl, rfl,
    by decide⟩⟩
  -- the one statement that is found is signed with the anchor's key
  exact signedFromAbove_cons.mpr ⟨by decide, signedFromAbove_nil⟩

/-- A response in the server's name that somebody else has signed, with a key it lists. -/
def forgedResponse : RegistrationResponse Nat where
  jws := .jws ⟨{ iss := "https://op.org", sub := "https://rp.org", exp := 1000, jwks := some [9]
                 metadata := some (Dict.ofList
                  [("oauth_client", Dict.ofList [("client_id", .str "https://evil.org")])]) }, 9⟩
  trustAnchorId := some "https://ta.org"

/-- The OAuth2 client accepts it. -/
theorem forged_response_accepted :
    ¬ ∀ (env : AppClientEnv Nat) response (st : Client (AssocJar Nat) Nat ChainMetadata),
      AcceptsOnlyAttested env (oauth2Parse env) response st := by
  intro hall
  obtain ⟨resp, st', hparse⟩ : Accepts (oauth2Parse clientEnv) forgedResponse
      ({ federation := trustsTa } : Client (AssocJar Nat) Nat ChainMetadata) :=
    accepts_of_isOk (by decide +kernel)
  obtain ⟨-, config, anchor, chains, collector, ⟨hnames, leafEc, collector₁, hself, hcollect⟩,
    trustChains, jar, hverify, trustChain, hmem, -, s, hs, -, hkey⟩ :=
      (hall clientEnv forgedResponse { federation := trustsTa }).accepted resp st' hparse
  -- the one chain that is collected is the server's own, and it lists another key
  obtain ⟨rfl, rfl⟩ := EStateM.Result.ok.inj hself
  obtain rfl := Option.some.inj hnames
  obtain ⟨hchains, -⟩ := EStateM.Result.ok.inj hcollect
  obtain ⟨rfl, -⟩ := Prod.mk.inj hchains
  obtain ⟨rfl, -⟩ := EStateM.Result.ok.inj hverify
  obtain rfl := List.mem_singleton.mp hmem
  obtain rfl := Option.some.inj hs
  exact absurd hkey (by decide)

end Fedservice.AppClient
