/-
  Fedservice.AppServer.AttestedMetadata

  What explicit registration registers.  The OIDC endpoint verifies trust chains
  for the subject of a request and then registers what the request says; the
  OAuth2 endpoint registers what the policies make of a chain that ends with
  the request.
-/

import Fedservice.AppServer.ExplicitRegistration
import Fedservice.Entity.StandingChains

namespace Fedservice.AppServer

open Fedservice.Lib Fedservice.Py Fedservice.EntityStatement Fedservice.Crypto Fedservice.Entity
  Fedservice.Entity.Function

variable {Jar Key : Type} [KeyStore Jar Key] [DecidableEq Key] {env : ServerEnv Key}

/-! ## The two preparations -/

/-- The trust chains that the OIDC endpoint gets for a request. -/
def oidcRequestChains (env : ServerEnv Key) (request : Token Key) :
    EStateM Exc (Server Jar Key) (List (TrustChain Key)) := do
  let config ← inServerCollector (verifySelfSignedSignature env.collector request)
  inFederation (getVerifiedTrustChains env.ho env.collector config.payload.sub)

/-- What the OIDC endpoint is about to register is built with the metadata that
    the request has for the type; the chains decide on the anchor only. -/
theorem oidcPrepare_eq_ok {request : Token Key} {prepared : Prepared Key}
    {st st' : Server Jar Key} (h : oidcPrepare env request st = .ok prepared st') :
    ∃ s tcs st₁ raw, request = .jws s ∧ oidcRequestChains env request st = .ok tcs st₁ ∧
      opponentEntityType env ["federation_entity"] s.payload = .ok prepared.opponentEntityType ∧
      publishedMetadata s.payload prepared.opponentEntityType = .ok raw ∧
      openidRequest env s.payload.sub raw = .ok prepared.request := by
  unfold oidcPrepare at h
  obtain ⟨config, st₁, hconfig, h⟩ := bind_eq_ok.mp h
  obtain ⟨entityType, st₂, htype, h⟩ := bind_eq_ok.mp h
  obtain ⟨tcs, st₃, hchains, h⟩ := bind_eq_ok.mp h
  obtain ⟨_, st₄, -, h⟩ := bind_eq_ok.mp h
  obtain ⟨tc, st₅, -, h⟩ := bind_eq_ok.mp h
  obtain ⟨_, st₆, -, h⟩ := bind_eq_ok.mp h
  obtain ⟨raw, st₇, hraw, h⟩ := bind_eq_ok.mp h
  obtain ⟨req, st₈, hreq, h⟩ := bind_eq_ok.mp h
  obtain ⟨rfl, -⟩ := EStateM.Result.ok.inj h
  -- the step that works out the type leaves the state alone, so the chains are
  -- collected right after the signature has been checked
  obtain ⟨hopponent, rfl⟩ := lift_eq_ok.mp htype
  refine ⟨config.jws, tcs, st₃, raw, ?_, ?_, hopponent, (lift_eq_ok.mp hraw).1,
    (lift_eq_ok.mp hreq).1⟩
  · obtain ⟨fe, hfe, -⟩ := inFederation_eq_ok.mp hconfig
    obtain ⟨c, hc, -⟩ := inCollector_eq_ok.mp hfe
    exact verifySelfSignedSignature_eq_ok _ hc
  · rw [oidcRequestChains, bind_of_ok hconfig, hchains]

/-- `tc` is a trust chain for the subject of a self-signed request that was
    verified, and processed, with the request at its end. -/
def EndsWithRequest (env : ServerEnv Key) (fe : FederationState Jar Key) (request : Token Key)
    (tc : TrustChain Key) : Prop :=
  ∃ config c chains leafEc c',
    verifySelfSignedSignature env.collector request fe.collector = .ok config c ∧
    collectTrustChains env.collector config.payload.sub request "" [] c =
      .ok (chains, leafEc) c' ∧
    TrustedFrom env.ho [request] chains fe.keyjar tc

/-- What the OAuth2 endpoint is about to register is built with the metadata of
    a chain that ends with the request. -/
theorem oauth2Prepare_eq_ok {request : Token Key} {prepared : Prepared Key}
    {st st' : Server Jar Key} (h : oauth2Prepare env request st = .ok prepared st') :
    ∃ tc metadata, EndsWithRequest env st.federation request tc ∧
      tc.metadata.item prepared.opponentEntityType = .ok (some metadata) ∧
      env.construct .oauthClientMetadata metadata = .ok prepared.request := by
  unfold oauth2Prepare at h
  obtain ⟨config, st₁, hconfig, h⟩ := bind_eq_ok.mp h
  obtain ⟨entityType, st₂, htype, h⟩ := bind_eq_ok.mp h
  obtain ⟨tcs, st₃, hchains, h⟩ := bind_eq_ok.mp h
  obtain ⟨tc, st₄, hpick, h⟩ := bind_eq_ok.mp h
  obtain ⟨_, st₅, -, h⟩ := bind_eq_ok.mp h
  obtain ⟨metadata, st₆, hmetadata, h⟩ := bind_eq_ok.mp h
  obtain ⟨req, st₇, hreq, h⟩ := bind_eq_ok.mp h
  obtain ⟨rfl, -⟩ := EStateM.Result.ok.inj h
  obtain ⟨-, rfl⟩ := lift_eq_ok.mp htype
  -- down to the collector and the key jar that the chains were made with
  obtain ⟨fe, hfe, rfl⟩ := inFederation_eq_ok.mp hconfig
  obtain ⟨c, hc, rfl⟩ := inCollector_eq_ok.mp hfe
  obtain ⟨fe', hfe', -⟩ := inFederation_eq_ok.mp hchains
  unfold oauth2RequestChains at hfe'
  obtain ⟨⟨chains, leafEc⟩, fe₁, hcollect, hfe'⟩ := bind_eq_ok.mp hfe'
  obtain ⟨verified, fe₂, hverify, hpolicy⟩ := bind_eq_ok.mp hfe'
  obtain ⟨c', hcollected, rfl⟩ := inCollector_eq_ok.mp hcollect
  obtain ⟨jar, hverified, rfl⟩ := inKeyjar_eq_ok.mp hverify
  have htrusted := trustedFrom_of_mem hverified (lift_eq_ok.mp hpolicy).1 tc
    (mem_of_pickTrustChain (lift_eq_ok.mp hpick).1)
  have hitem := chainMetadata_eq_ok.mp (lift_eq_ok.mp hmetadata).1
  exact ⟨tc, metadata, ⟨config, c, chains, leafEc, c', hc, hcollected, htrusted⟩, hitem,
    (lift_eq_ok.mp hreq).1⟩

/-! ## Attested registration -/

omit [KeyStore Jar Key] [DecidableEq Key] in
/-- A list ends with a statement about an entity, below another one about it that lists a
    key. -/
def AttestsKey (ts : List (Token Key)) (sub : EntityId) (key : Key) : Prop :=
  ∃ above superior leaf, payloads ts = above ++ [superior, leaf] ∧
    leaf.sub = sub ∧ superior.sub = sub ∧ key ∈ superior.keys

/-- A trust chain attests a key for an entity, and `metadata` is what it has for a type. -/
structure AttestedBy (tc : TrustChain Key) (sub : EntityId) (entityType : String)
    (metadata : Metadata) (key : Key) : Prop where
  key : AttestsKey tc.chain sub key
  metadata : tc.metadata.item entityType = .ok (some metadata)

/-- The OIDC endpoint registers a client under the subject of the request. -/
def RegistersSubject (env : ServerEnv Key) (st : Server Jar Key) (s : SignedStatement Key)
    (newId : Option Bool) : Prop :=
  ∃ response st', oidcProcessRequest env (.jws s) newId st =
    .ok (some (s.payload.sub, response)) st'

/-- What is registered then is what the policies have made of the metadata in a verified
    chain, which attests the key that signed the request. -/
def RegistersAttested (env : ServerEnv Key) (st : Server Jar Key) (s : SignedStatement Key)
    (newId : Option Bool) : Prop :=
  ∀ response st', oidcProcessRequest env (.jws s) newId st =
      .ok (some (s.payload.sub, response)) st' →
    ∃ tcs st₁ tc metadata req, oidcRequestChains env (.jws s) st = .ok tcs st₁ ∧ tc ∈ tcs ∧
      AttestedBy tc s.payload.sub response.entityType metadata s.signer ∧
      openidRequest env s.payload.sub metadata = .ok req ∧
      st'.clients.lookup s.payload.sub = some req

/-- Among the statements that are found for the subject of a request there is a list that
    stands, with the configuration at its end, and attests the key that signed the request,
    and the metadata in the request are as good as what the policies in the list make of
    those in the configuration. -/
def RequestAttested (env : ServerEnv Key) (chains : List (List (Token Key)))
    (leafEc : Option (SelfSigned Key)) (jar : Jar) (s : SignedStatement Key) : Prop :=
  ∃ ts entityType raw metadata,
    StandsAmong (leafTokens leafEc) chains jar ts ∧
    AttestsKey ts s.payload.sub s.signer ∧
    opponentEntityType env ["federation_entity"] s.payload = .ok entityType ∧
    publishedMetadata s.payload entityType = .ok raw ∧
    PolicyAdjusted env.ho (payloads ts) entityType metadata ∧
    openidRequest env s.payload.sub metadata = openidRequest env s.payload.sub raw

/-- What the collector finds for the subject of a request, when it has checked it. -/
def foundForRequest (env : ServerEnv Key) (st : Server Jar Key) (s : SignedStatement Key) :
    Except Exc (List (List (Token Key)) × Option (SelfSigned Key)) :=
  foundFor env.collector s.payload.sub
    (finalState (verifySelfSignedSignature env.collector (.jws s) st.federation.collector))

/-- What the OIDC endpoint stores under the subject of a request. -/
theorem oidcProcessRequest_eq_ok {s : SignedStatement Key} {newId : Option Bool} {id : EntityId}
    {response : ResponseStatement} {st st' : Server Jar Key}
    (h : oidcProcessRequest env (.jws s) newId st = .ok (some (id, response)) st') :
    ∃ tcs st₁ raw req, oidcRequestChains env (.jws s) st = .ok tcs st₁ ∧
      opponentEntityType env ["federation_entity"] s.payload = .ok response.entityType ∧
      publishedMetadata s.payload response.entityType = .ok raw ∧
      openidRequest env s.payload.sub raw = .ok req ∧ st'.clients.lookup id = some req := by
  unfold oidcProcessRequest at h
  obtain ⟨prepared, st₁, hprepare, h⟩ := bind_eq_ok.mp h
  obtain ⟨answer, st₂, hanswer, h⟩ := bind_eq_ok.mp h
  cases answer with
  | none => simp at h  -- the library refused the request
  | some p =>
      obtain ⟨id', args⟩ := p
      simp only [Option.map_some, pure_apply, EStateM.Result.ok.injEq, Option.some.injEq,
        Prod.mk.injEq] at h
      obtain ⟨⟨rfl, rfl⟩, rfl⟩ := h
      obtain ⟨s', tcs, st₃, raw, hs, hchains, htype, hraw, hreq⟩ := oidcPrepare_eq_ok hprepare
      obtain rfl := Token.jws.inj hs
      obtain ⟨-, rfl⟩ := nonFedProcessRequest_eq_ok env hanswer
      exact ⟨tcs, st₃, raw, prepared.request, hchains, htype, hraw, hreq, AList.lookup_insert _⟩

omit [DecidableEq Key] in
/-- What a trust chain attests, told from the list that it was made from. -/
theorem attestedBy_iff {ho : HashOrder} {ts : List (Token Key)} {tc : TrustChain Key}
    (h : TrustChainPolicy.call ho "" (trustChainOf ts) = .ok () tc) {sub : EntityId}
    {entityType : String} {metadata : Metadata} {key : Key} :
    AttestedBy tc sub entityType metadata key ↔
      AttestsKey ts sub key ∧ PolicyAdjusted ho (payloads ts) entityType metadata := by
  have hchain : tc.chain = ts := (processed_of_call rfl h).evidence.chain
  -- a list that attests a key has a superior in it
  have hadjusted : AttestsKey ts sub key →
      (tc.metadata.item entityType = .ok (some metadata) ↔
        PolicyAdjusted ho (payloads ts) entityType metadata) := by
    rintro ⟨above, superior, leaf, hsplit, -⟩
    refine item_iff_policyAdjusted rfl ?_ h
    show 1 < (payloads ts).length
    rw [hsplit, List.length_append, List.length_cons, List.length_singleton]
    omega
  constructor
  · rintro ⟨hkey, hmetadata⟩
    rw [hchain] at hkey
    exact ⟨hkey, (hadjusted hkey).mp hmetadata⟩
  · rintro ⟨hkey, hmetadata⟩
    exact ⟨by rwa [hchain], (hadjusted hkey).mpr hmetadata⟩

/-- What the chains for a request attest, told from what is found for its subject. -/
theorem attested_iff_of_oidcRequestChains {s : SignedStatement Key} {tcs : List (TrustChain Key)}
    {st st' : Server Jar Key} (h : oidcRequestChains env (.jws s) st = .ok tcs st') :
    ∃ chains leafEc, foundForRequest env st s = .ok (chains, leafEc) ∧
      ∀ sub entityType metadata key, (∃ tc ∈ tcs, AttestedBy tc sub entityType metadata key) ↔
        ∃ ts, StandsAmong (leafTokens leafEc) chains st.federation.keyjar ts ∧
          AttestsKey ts sub key ∧ PolicyAdjusted env.ho (payloads ts) entityType metadata := by
  obtain ⟨config, st₁, hconfig, hchains⟩ := bind_eq_ok.mp h
  obtain ⟨fe, hfe, rfl⟩ := inFederation_eq_ok.mp hconfig
  obtain ⟨c, hself, rfl⟩ := inCollector_eq_ok.mp hfe
  obtain rfl := Token.jws.inj (verifySelfSignedSignature_eq_ok _ hself)
  obtain ⟨fe', hverified, -⟩ := inFederation_eq_ok.mp hchains
  obtain ⟨chains, leafEc, hfound, -⟩ := exists_getVerifiedTrustChains_iff.mp ⟨tcs, fe', hverified⟩
  refine ⟨chains, leafEc, ?_, fun sub entityType metadata key =>
    (of_getVerifiedTrustChains hverified hfound).2 fun ts tc _ h => attestedBy_iff h⟩
  rw [foundForRequest, hself, finalState_ok]
  exact hfound

/-- What the OIDC endpoint registers is attested exactly when the request is, by what is
    found for its subject. -/
theorem registersAttested_iff {st : Server Jar Key} {s : SignedStatement Key}
    {newId : Option Bool} (h : RegistersSubject env st s newId) :
    ∃ chains leafEc, foundForRequest env st s = .ok (chains, leafEc) ∧
      (RegistersAttested env st s newId ↔
        RequestAttested env chains leafEc st.federation.keyjar s) := by
  obtain ⟨response, st', hrun⟩ := h
  obtain ⟨tcs, st₁, raw, req, hchains, htype, hraw, hreq, hstored⟩ := oidcProcessRequest_eq_ok hrun
  obtain ⟨chains, leafEc, hfound, hattests⟩ := attested_iff_of_oidcRequestChains hchains
  refine ⟨chains, leafEc, hfound, ?_, ?_⟩
  · -- both are built for the same type, and what is stored decides between them
    intro h
    obtain ⟨tcs', st₁', tc, metadata, req', hchains', htc, hattested, hreq', hstored'⟩ :=
      h response st' hrun
    obtain ⟨rfl, rfl⟩ := EStateM.Result.ok.inj (hchains.symm.trans hchains')
    obtain ⟨ts, hstands, hkey, hadjusted⟩ := (hattests _ _ _ _).mp ⟨tc, htc, hattested⟩
    refine ⟨ts, response.entityType, raw, metadata, hstands, hkey, htype, hraw, hadjusted, ?_⟩
    rw [hreq', hreq, Option.some.inj (hstored'.symm.trans hstored)]
  · rintro ⟨ts, entityType, raw', metadata, hstands, hkey, htype', hraw', hadjusted, hsame⟩
      response' st'' hrun'
    obtain ⟨hresponse, rfl⟩ := EStateM.Result.ok.inj (hrun.symm.trans hrun')
    obtain ⟨-, rfl⟩ := Prod.mk.inj (Option.some.inj hresponse)
    obtain rfl : response.entityType = entityType := Except.ok.inj (htype.symm.trans htype')
    obtain rfl : raw = raw' := Except.ok.inj (hraw.symm.trans hraw')
    obtain ⟨tc, htc, hattested⟩ := (hattests _ _ _ _).mpr ⟨ts, hstands, hkey, hadjusted⟩
    exact ⟨tcs, st₁, tc, metadata, req, hchains, htc, hattested, hsame.trans hreq, hstored⟩

omit [KeyStore Jar Key] in
/-- In a steady federation what is found for a request is what is published. -/
theorem foundForRequest_of_steady {entities : Finset EntityId}
    (h : Steady env.collector entities) {st : Server Jar Key}
    (hst : Reflects env.collector entities st.federation.collector) {s : SignedStatement Key}
    (hsub : s.payload.sub ∈ entities) :
    foundForRequest env st s = publishedChains env.collector "" s.payload.sub :=
  (h.yieldsPublishedChains hsub "" _
    ((h.verifySelfSignedSignature (.jws s)).yields st.federation.collector hst).2).1

/-- What the OIDC endpoint registers is attested exactly when the request is: by the
    statements that the collector finds for its subject, which in a steady federation are
    those that are published.  The OAuth2 endpoint registers the policy output of a chain that
    ends with the request. -/
theorem oidc_registers_attested_iff (env : ServerEnv Key) :
    (∀ (st : Server Jar Key) (s : SignedStatement Key) (newId : Option Bool),
      RegistersSubject env st s newId →
        ∃ chains leafEc, foundForRequest env st s = .ok (chains, leafEc) ∧
          (RegistersAttested env st s newId ↔
            RequestAttested env chains leafEc st.federation.keyjar s)) ∧
    (∀ (entities : Finset EntityId), Steady env.collector entities →
      ∀ (st : Server Jar Key), Reflects env.collector entities st.federation.collector →
      ∀ (s : SignedStatement Key) (newId : Option Bool), s.payload.sub ∈ entities →
        RegistersSubject env st s newId →
        ∃ chains leafEc, publishedChains env.collector "" s.payload.sub = .ok (chains, leafEc) ∧
          (RegistersAttested env st s newId ↔
            RequestAttested env chains leafEc st.federation.keyjar s)) ∧
      ∀ (step2ProcessRequest : Metadata →
          EStateM Exc (Server Jar Key) (Option (EntityId × Metadata)))
        (st st' : Server Jar Key) (request : Token Key) (id : EntityId)
        (response : ResponseStatement),
        oauth2ProcessRequest env step2ProcessRequest request st = .ok (some (id, response)) st' →
        ∃ tc metadata req args st₁, EndsWithRequest env st.federation request tc ∧
          tc.metadata.item response.entityType = .ok (some metadata) ∧
          env.construct .oauthClientMetadata metadata = .ok req ∧
          step2ProcessRequest req st₁ = .ok (some (id, args)) st' := by
  refine ⟨fun st s newId => registersAttested_iff, ?_, ?_⟩
  · intro entities hsteady st hst s newId hsub hregisters
    rw [← foundForRequest_of_steady hsteady hst hsub]
    exact registersAttested_iff hregisters
  · intro step2ProcessRequest st st' request id response h
    unfold oauth2ProcessRequest at h
    obtain ⟨prepared, st₁, hprepare, h⟩ := bind_eq_ok.mp h
    obtain ⟨answer, st₂, hanswer, h⟩ := bind_eq_ok.mp h
    cases answer with
    | none => simp at h
    | some p =>
        obtain ⟨id', args⟩ := p
        simp only [Option.map_some, pure_apply, EStateM.Result.ok.injEq, Option.some.injEq,
          Prod.mk.injEq] at h
        obtain ⟨⟨rfl, rfl⟩, rfl⟩ := h
        obtain ⟨tc, metadata, hends, hitem, hreq⟩ := oauth2Prepare_eq_ok hprepare
        exact ⟨tc, metadata, prepared.request, args, st₁, hends, hitem, hreq, hanswer⟩

/-! ## A request that nobody attests -/

/-- A trust anchor with a fetch endpoint and a client below it, on the web; the
    anchor decides on the subject type of its clients. -/
def webOfTwo (url : String) : HttpResponse Nat :=
  let entityStatement (s : SignedStatement Nat) : HttpResponse Nat :=
    .reply 200 (some "application/entity-statement+jwt") (.jws s)
  if url = "https://rp.org/.well-known/openid-federation" then
    entityStatement ⟨{
      iss := "https://rp.org", sub := "https://rp.org", exp := 1000, jwks := some [2]
      authorityHints := some ["https://ta.org"]
      metadata := some (Dict.ofList [("openid_relying_party",
        Dict.ofList [("subject_type", .str "pairwise")])]) }, 2⟩
  else if url = "https://ta.org/.well-known/openid-federation" then
    entityStatement ⟨{
      iss := "https://ta.org", sub := "https://ta.org", exp := 1000, jwks := some [1]
      metadata := some (Dict.ofList [("federation_entity",
        Dict.ofList [("federation_fetch_endpoint", .str "https://ta.org/fetch")])]) }, 1⟩
  else if url = "https://ta.org/fetch" then
    entityStatement ⟨{
      iss := "https://ta.org", sub := "https://rp.org", exp := 1000, jwks := some [2]
      metadataPolicy := some (Dict.ofList [("openid_relying_party",
        Dict.ofList [("subject_type", Dict.ofList [("value", .str "pairwise")])])]) }, 1⟩
  else .reply 404 none (.text "")

theorem steady_webOfTwo :
    Steady (serverEnvOn webOfTwo).collector {"https://rp.org", "https://ta.org"} where
  httpc _ _ := rfl
  unpackRejects _ _ := rfl
  current _ _ _ _ _ := rfl
  closed := by
    intro e he config hconfig
    simp only [Finset.mem_insert, Finset.mem_singleton] at he
    rcases he with rfl | rfl
    · obtain rfl := Except.ok.inj hconfig
      decide
    · obtain rfl := Except.ok.inj hconfig
      decide
  apart := by
    unfold CacheKeysApart
    decide

/-- A request of the client, with the metadata it publishes and signed with its key. -/
def honestRequest : SignedStatement Nat :=
  ⟨{ iss := "https://rp.org", sub := "https://rp.org", exp := 1000, jwks := some [2]
     metadata := some (Dict.ofList [("openid_relying_party",
       Dict.ofList [("subject_type", .str "pairwise")])]) }, 2⟩

/-- The published chain attests the key, and its policy leaves the metadata as they are. -/
theorem honest_request_attested :
    RegistersAttested (serverEnvOn webOfTwo) freshServer honestRequest (some false) := by
  have hregisters : RegistersSubject (serverEnvOn webOfTwo) freshServer honestRequest
      (some false) := ⟨_, _, rfl⟩
  obtain ⟨chains, leafEc, hfound, hiff⟩ :=
    (oidc_registers_attested_iff (serverEnvOn webOfTwo)).2.1 _ steady_webOfTwo freshServer
      reflects_empty honestRequest (some false) (by decide) hregisters
  obtain ⟨rfl, rfl⟩ := Prod.mk.inj (Except.ok.inj hfound)
  refine hiff.mpr ⟨_, "openid_relying_party", _, _,
    ⟨[], _, [], rfl, rfl, ⟨⟨_, _, rfl⟩, ?_, by decide⟩⟩, ⟨[], _, _, rfl, rfl, rfl, by decide⟩,
    rfl, rfl, ⟨_, _, _, rfl, rfl, rfl⟩, rfl⟩
  -- the anchor's key is held, and the anchor lists the client's
  exact signedFromAbove_cons.mpr
    ⟨by decide, signedFromAbove_cons.mpr ⟨by decide, signedFromAbove_nil⟩⟩

/-- A request about the client, with metadata of somebody else's choice and
    signed with a key of theirs. -/
def forgedRequest : SignedStatement Nat :=
  ⟨{ iss := "https://rp.org", sub := "https://rp.org", exp := 1000, jwks := some [9]
     metadata := some (Dict.ofList [("openid_relying_party",
       Dict.ofList [("subject_type", .str "public")])]) }, 9⟩

/-- The request is registered, and no chain attests its key or its metadata. -/
theorem forged_request_registered :
    ¬ ∀ (env : ServerEnv Nat) (st : Server (AssocJar Nat) Nat) (s : SignedStatement Nat)
      (newId : Option Bool), RegistersAttested env st s newId := by
  intro h
  obtain ⟨response, st', hrun⟩ : ∃ response st',
      oidcProcessRequest (serverEnvOn webOfTwo) (.jws forgedRequest) (some false) freshServer =
        .ok (some ("https://rp.org", response)) st' := ⟨_, _, rfl⟩
  obtain ⟨tcs, st₁, tc, metadata, req, hchains, htc, hattested, -⟩ :=
    h (serverEnvOn webOfTwo) freshServer forgedRequest (some false) response st' hrun
  obtain ⟨above, superior, leaf, hsplit, -, -, hkey⟩ := hattested.key
  -- nobody lists the key that the request is signed with
  have hnot : (match oidcRequestChains (serverEnvOn webOfTwo) (.jws forgedRequest) freshServer with
      | .ok tcs _ => tcs.all (fun tc => (payloads tc.chain).all (fun s => decide (9 ∉ s.keys)))
      | .error _ _ => false) = true := by decide
  rw [hchains] at hnot
  have hall := List.all_eq_true.mp (List.all_eq_true.mp hnot tc htc) superior
    (by rw [hsplit]; simp)
  exact of_decide_eq_true hall hkey

end Fedservice.AppServer
