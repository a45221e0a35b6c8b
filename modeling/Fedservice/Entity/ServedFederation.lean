/-
  Fedservice.Entity.ServedFederation

  A federation of hosts: every entity publishes a configuration, by its endpoint or
  by the view of its web application, and the authorities have `Fetch` endpoints with
  the entities registered that list them.  The endpoints write into their registries
  and may be asked by anybody at any time.  What the hosts serve is nevertheless a
  well kept federation, so that whoever asks them for trust chains finds the routes
  along the superiors that the hosts are configured with.
-/

import Fedservice.Entity.Server.EntityConfiguration
import Fedservice.Entity.Server.FetchAnswers
import Fedservice.Entity.TrustChainsOfRoutes

namespace Fedservice.Entity

open Fedservice.Lib Fedservice.Py Fedservice.EntityStatement Fedservice.Crypto
  Fedservice.Entity.Client Fedservice.Entity.Function Fedservice.Entity.Server Relation

/-! ## The web -/

/-- What a URL leads to. -/
inductive Delivery where
  | configuration (e : EntityId)
  | fetch (a : EntityId) (request : FetchRequest)

/-- Hosts, the keys that they sign with, the URLs at which they are found, and a party that
    asks them.  Nobody is asked to speak in the name of somebody else. -/
structure Web (Key : Type) where
  host : EntityId → Host
  signer : EntityId → Key
  reader : Reader Key
  /-- The party that asks, but for the clock and the web. -/
  client : CollectorEnv Key
  time : Int
  deliver : String → Option Delivery
  itself : ∀ url a request, deliver url = some (.fetch a request) →
    (host a).fetchEnv.issuer request = a

/-- The requests that each authority had before something is asked for. -/
abbrev Earlier := EntityId → List FetchRequest

namespace Web

variable {Key : Type} (web : Web Key)

/-- What becomes of an outcome: an error is reported in a page. -/
def respond (contentType : String) (errorStatus : Nat) :
    Except Exc (SignedStatement Key) → HttpResponse Key
  | .ok s => .reply 200 (some contentType) (.jws s)
  | .error _ => .reply errorStatus (some "text/html; charset=utf-8") (.text "")

/-- How an entity configuration is served.  `service_endpoint` reports what is raised in an
    endpoint, in the view nothing is caught. -/
def respondConfiguration : WellKnown → Except Exc (SignedStatement Key) → HttpResponse Key
  | .entityConfiguration => respond "application/entity-statement+jwt; charset=utf-8" 400
  | .wkof => respond "application/jose; charset=UTF-8" 500

/-- The entity configuration that a host serves. -/
def serveConfiguration (e : EntityId) : Except Exc (SignedStatement Key) := do
  pack web.reader web.time (web.signer e) (← (web.host e).ownWords)

/-- The statement that the fetch endpoint of a host serves, after some requests. -/
def serveFetch (earlier : Earlier) (a : EntityId) (request : FetchRequest) :
    Except Exc (SignedStatement Key) := do
  let env := (web.host a).fetchEnv
  let before : FetchState := ⟨(web.host a).subordinate, (web.host a).policy⟩
  pack web.reader web.time (web.signer a)
    (← outcome (processRequest env request (runState (processRequest env) before (earlier a))))

/-- What is found at a URL. -/
def answer (earlier : Earlier) (url : String) : HttpResponse Key :=
  match web.deliver url with
  | none => .reply 404 (some "text/html; charset=utf-8") (.text "")
  | some (.configuration e) =>
      respondConfiguration (web.host e).wellKnown (web.serveConfiguration e)
  | some (.fetch a request) =>
      respond "application/entity-statement+jwt" 400 (web.serveFetch earlier a request)

/-- The party on this web, where authorities have had these requests before the n-th thing is
    asked for. -/
def among (earlier : Nat → Earlier) : CollectorEnv Key :=
  { web.client with
    now := fun _ => web.time
    httpc := fun n url => web.answer (earlier n) url }

/-- The party on a web where nobody else asks for anything, and nothing is written. -/
def alone : CollectorEnv Key := web.among fun _ _ => []

/-- The earlier requests name the authority they are sent to, or nobody. -/
def Undisturbed (earlier : Nat → Earlier) : Prop :=
  ∀ n a, ∀ request ∈ earlier n a, (web.host a).fetchEnv.issuer request = a

variable {web}

theorem respondConfiguration_ok (wellKnown : WellKnown) (s : SignedStatement Key) :
    ∃ contentType, respondConfiguration wellKnown (.ok s) =
      .reply 200 (some contentType) (.jws s) := by
  cases wellKnown <;> exact ⟨_, rfl⟩

/-- Whatever authorities were asked before, they answer as if nothing had been asked. -/
theorem serveFetch_eq {earlier : Earlier} {a : EntityId}
    (hearlier : ∀ request ∈ earlier a, (web.host a).fetchEnv.issuer request = a)
    {request : FetchRequest} (hrequest : (web.host a).fetchEnv.issuer request = a) :
    web.serveFetch earlier a request = web.serveFetch (fun _ => []) a request := by
  have hstart : AsAsked (web.host a).subordinate (web.host a).policy (fun _ => a)
      ⟨(web.host a).subordinate, (web.host a).policy⟩ := ⟨rfl, fun _ => Or.inl rfl⟩
  have hreached := (run_invariant_of_mem (AsAsked _ _ fun _ => a)
    (fun request hmem _ hst => hst.processRequest (web.host a).fetchEnv
      fun _ _ => hearlier request hmem) hstart).1
  rw [serveFetch, (hreached.processRequest (web.host a).fetchEnv fun _ _ => hrequest).2]
  rfl

/-- The web is the same for a party that is not alone. -/
theorem among_eq_alone {earlier : Nat → Earlier} (h : web.Undisturbed earlier) :
    web.among earlier = web.alone := by
  have hanswer : ∀ n url, web.answer (earlier n) url = web.answer (fun _ => []) url := by
    intro n url
    unfold answer
    cases hdeliver : web.deliver url with
    | none => rfl
    | some delivery =>
        cases delivery with
        | configuration e => rfl
        | fetch a request =>
            simp only
            rw [serveFetch_eq (h n a) (web.itself url a request hdeliver)]
  unfold alone among
  simp only [hanswer]

/-! ## Hosts that keep a federation -/

variable (web)

/-- The entity configuration of an entity is where it is looked for: at the root of its host,
    or else where that of a tenant is. -/
def Located (e : EntityId) : Prop :=
  ∃ url, getRequestParameters web.client.rootIssuer e false = .ok url ∧
    (web.deliver url = some (.configuration e) ∨
      web.deliver url = none ∧ ∃ tenantUrl,
        getRequestParameters web.client.rootIssuer e true = .ok tenantUrl ∧ tenantUrl ≠ url ∧
          web.deliver tenantUrl = some (.configuration e))

/-- An authority has a fetch endpoint, where the entity is registered with its keys. -/
structure Subordinate (a e : EntityId) : Prop where
  endpoint : ∃ location,
    (web.host a).serverMetadata.lookup "federation_fetch_endpoint" = some (.str location) ∧
      location ≠ "" ∧ web.deliver (web.client.request location a e) =
        some (.fetch a { iss := some a, sub := some e })
  registered : ∃ record, (web.host a).subordinate.lookup e = some record ∧
    Registered (web.host a).policy record e (web.host e).exportJwks

/-- The hosts are set up as a federation in which the entities have these superiors. -/
structure Kept (entities : Finset EntityId) (superiors : EntityId → List EntityId) : Prop where
  entityId : ∀ e ∈ entities, (web.host e).context.entityId = e ∧ e ≠ ""
  configured : ∀ e ∈ entities, Configured (web.host e) (superiors e)
  located : ∀ e ∈ entities, web.Located e
  ownKey : ∀ e ∈ entities, web.signer e ∈ web.reader.keys (web.host e).exportJwks
  lifetime : ∀ e ∈ entities,
    0 < (web.host e).lifetime ∧ web.client.allowedDelta < (web.host e).lifetime
  accepted : ∀ s : Statement Key, web.time < s.exp → web.client.unpackRejects web.time s = none
  closed : ∀ e ∈ entities, ∀ a ∈ superiors e, a ∈ entities ∧ e ≠ a
  subordinate : ∀ e ∈ entities, ∀ a ∈ superiors e, web.Subordinate a e
  apart : CacheKeysApart entities

/-- The entity configuration that an entity serves. -/
structure Serves (superiors : EntityId → List EntityId) (e : EntityId) (s : SignedStatement Key) :
    Prop where
  iss : s.payload.iss = e
  sub : s.payload.sub = e
  signer : s.signer = web.signer e
  jwks : s.payload.jwks = some (web.reader.keys (web.host e).exportJwks)
  hints : s.payload.authorityHints.getD [] = superiors e
  exp : s.payload.exp = web.time + (web.host e).lifetime
  endpoint : getEndpoint "fetch" s.payload =
    .ok (((web.host e).serverMetadata.lookup "federation_fetch_endpoint").getD .null)

variable {web} {entities : Finset EntityId} {superiors : EntityId → List EntityId}

/-- What is said in a payload about the fetch endpoint. -/
theorem getEndpoint_ofPayload {reader : Reader Key} {iss : EntityId} {exp : Int} {payload : Record}
    {metadata federation : Dict Json}
    (hpayload : payload.lookup "metadata" = some (dictJson metadata))
    (hfederation : metadata.lookup "federation_entity" = some (dictJson federation)) :
    getEndpoint "fetch" (Statement.ofPayload reader iss exp payload) =
      .ok ((federation.lookup "federation_fetch_endpoint").getD .null) := by
  obtain ⟨read, hread⟩ : ∃ read, dictOf (dictOf some) (dictJson metadata) = some read := ⟨_, rfl⟩
  have hlookup := lookup_of_dictOf hread "federation_entity"
  obtain ⟨fe, hfe⟩ : ∃ fe, dictOf some (dictJson federation) = some fe := ⟨_, rfl⟩
  rw [hfederation, Option.bind_some, hfe] at hlookup
  have hendpoint := lookup_of_dictOf hfe "federation_fetch_endpoint"
  have hmetadata : (Statement.ofPayload reader iss exp payload).metadata = some read := by
    rw [Statement.ofPayload, hpayload, Option.bind_some, hread]
  unfold getEndpoint
  simp only [hmetadata, item, hlookup, except_ok_bind]
  change Except.ok ((fe.lookup "federation_fetch_endpoint").getD .null) = _
  rw [hendpoint]
  cases federation.lookup "federation_fetch_endpoint" <;> rfl

theorem Kept.serveConfiguration (h : web.Kept entities superiors) {e : EntityId}
    (he : e ∈ entities) :
    ∃ s, web.serveConfiguration e = .ok s ∧ web.Serves superiors e s := by
  obtain ⟨statement, hstatement, hdescribes⟩ := (h.configured e he).ownWords
  obtain ⟨hid, -⟩ := h.entityId e he
  obtain ⟨metadata, hmetadata, hfederation⟩ := hdescribes.metadata
  have hpositive := (h.lifetime e he).1
  have hpack := @pack_of_lifetime _ web.reader web.time (web.signer e) statement
    (web.host e).lifetime hdescribes.lifetime (by omega)
  refine ⟨_, by rw [Web.serveConfiguration, hstatement]; exact hpack, ?_⟩
  exact {
    iss := hdescribes.iss.trans hid
    sub := by simp only [Statement.ofPayload, hdescribes.sub, hid]
    signer := rfl
    jwks := by simp only [Statement.ofPayload, hdescribes.jwks, Option.map_some]
    hints := hdescribes.hints
    exp := rfl
    endpoint := by
      rw [getEndpoint_ofPayload hmetadata hfederation, AList.lookup_erase_ne (by decide),
        AList.lookup_erase_ne (by decide), AList.lookup_erase_ne (by decide)] }

/-! ## What a party finds that asks -/

/-- A page that is there. -/
theorem getDocument_of_reply {env : CollectorEnv Key} {url contentType : String}
    {token : Token Key} {st : CollectorState Key}
    (h : env.httpc st.asked url = .reply 200 (some contentType) token) :
    getDocument env url st = .ok token { st with asked := st.asked + 1 } := by
  have hget : httpGet env url st = .ok (.reply 200 (some contentType) token)
      { st with asked := st.asked + 1 } := by rw [← h]; rfl
  rw [getDocument, bind_of_ok hget]
  rfl

/-- A page that is not there. -/
theorem getDocument_of_missing {env : CollectorEnv Key} {url : String} {contentType : Option String}
    {token : Token Key} {st : CollectorState Key}
    (h : env.httpc st.asked url = .reply 404 contentType token) :
    getDocument env url st = .error (.missingPage [.lit "No such page: '", .val (.str url), .lit "'"])
      { st with asked := st.asked + 1 } := by
  have hget : httpGet env url st = .ok (.reply 404 contentType token)
      { st with asked := st.asked + 1 } := by rw [← h]; rfl
  rw [getDocument, bind_of_ok hget]
  rfl

/-- A statement that is signed with a key it lists, and with which nothing else is wrong. -/
theorem verifySelfSignedSignature_of_own [DecidableEq Key] {env : CollectorEnv Key}
    {s : SignedStatement Key} {jwks : List Key} {st : CollectorState Key}
    (hown : s.signer ∈ s.payload.keys) (hjwks : s.payload.jwks = some jwks)
    (haccepted : env.unpackRejects (env.now st.asked) s.payload = none) :
    verifySelfSignedSignature env (.jws s) st = .ok ⟨s, hown⟩ { st with asked := st.asked + 1 } := by
  have hunverified : (lift (unverifiedEntityStatement (.jws s)) :
      EStateM Exc (CollectorState Key) (SignedStatement Key)) st = .ok s st := rfl
  have hclock : utcTimeSansFrac env st = .ok (env.now st.asked) { st with asked := st.asked + 1 } :=
    rfl
  unfold verifySelfSignedSignature
  rw [bind_of_ok hunverified]
  simp only [hjwks]
  rw [unpackSelfSigned, dif_pos hown, bind_of_ok hclock, haccepted]
  rfl

theorem Kept.document (h : web.Kept entities superiors) {e : EntityId} (he : e ∈ entities)
    {s : SignedStatement Key} (hserved : web.serveConfiguration e = .ok s) :
    document web.alone e = .ok (.jws s) := by
  obtain ⟨contentType, htype⟩ := respondConfiguration_ok (web.host e).wellKnown s
  have hpage : ∀ {url : String}, web.deliver url = some (.configuration e) → ∀ n,
      (web.alone).httpc n url = .reply 200 (some contentType) (.jws s) := by
    intro url hdeliver n
    have hanswer : web.answer (fun _ => []) url =
        respondConfiguration (web.host e).wellKnown (web.serveConfiguration e) := by
      rw [answer, hdeliver]
    rw [hserved, htype] at hanswer
    exact hanswer
  obtain ⟨url, hurl, hfound⟩ := h.located e he
  have hasked : (lift (getRequestParameters (web.alone).rootIssuer e false) :
      EStateM Exc (CollectorState Key) String) {} = .ok url {} := by
    rw [show getRequestParameters (web.alone).rootIssuer e false = .ok url from hurl]
    rfl
  unfold Function.document getEntityConfiguration
  rw [bind_of_ok hasked]
  rcases hfound with hdeliver | ⟨hnone, tenantUrl, htenant, hne, hdeliver⟩
  · rw [tryCatch_of_ok (getDocument_of_reply (hpage hdeliver _))]
    rfl
  · have hmissing : (web.alone).httpc 0 url =
        .reply 404 (some "text/html; charset=utf-8") (.text "") := by
      change web.answer (fun _ => []) url = _
      rw [answer, hnone]
    rw [tryCatch_of_error (getDocument_of_missing hmissing)]
    simp only
    have hasked' : ∀ st : CollectorState Key,
        lift (getRequestParameters (web.alone).rootIssuer e true) st = .ok tenantUrl st := by
      intro st
      rw [show getRequestParameters (web.alone).rootIssuer e true = .ok tenantUrl from htenant]
      rfl
    rw [bind_of_ok (hasked' _), if_pos hne, getDocument_of_reply (hpage hdeliver _)]
    rfl

variable [DecidableEq Key]

theorem Kept.configuration (h : web.Kept entities superiors) {e : EntityId} (he : e ∈ entities) :
    ∃ config, configuration web.alone e = .ok config ∧ web.Serves superiors e config.jws := by
  obtain ⟨s, hserved, hs⟩ := h.serveConfiguration he
  have hpositive := (h.lifetime e he).1
  have hown : s.signer ∈ s.payload.keys := by
    rw [hs.signer, Statement.keys, hs.jwks]
    exact h.ownKey e he
  have haccepted : web.client.unpackRejects web.time s.payload = none :=
    h.accepted s.payload (by rw [hs.exp]; omega)
  refine ⟨⟨s, hown⟩, ?_, hs⟩
  have hverify : verifySelfSignedSignature web.alone (.jws s) {} = .ok ⟨s, hown⟩ { asked := 1 } :=
    verifySelfSignedSignature_of_own hown hs.jwks haccepted
  rw [Function.configuration, h.document he hserved, except_ok_bind, selfSigned, hverify]
  rfl

omit [DecidableEq Key] in
/-- What an authority serves about an entity that it is superior to. -/
theorem Kept.serveFetch (h : web.Kept entities superiors) {e a : EntityId} (he : e ∈ entities)
    (ha : a ∈ superiors e) :
    ∃ s, web.serveFetch (fun _ => []) a { iss := some a, sub := some e } = .ok s ∧
      s.payload.iss = a ∧ s.payload.sub = e ∧ s.signer = web.signer a ∧
      s.payload.keys = web.reader.keys (web.host e).exportJwks := by
  obtain ⟨⟨location, -, -, hdeliver⟩, record, hlookup, hregistered⟩ := h.subordinate e he a ha
  have hrecord : record ≠ ∅ := by
    rintro rfl
    exact absurd hregistered.jwks (by simp)
  have hissuer : (web.host a).fetchEnv.issuer { iss := some a, sub := some e } = a :=
    web.itself _ a _ hdeliver
  have hrequest : ({ iss := some a, sub := some e } : FetchRequest).sub = some e := rfl
  have hlookup' : (FetchState.mk (web.host a).subordinate (web.host a).policy).subordinate.lookup e =
      some record := hlookup
  have hanswer := (processRequest_apply (web.host a).fetchEnv hrequest (h.entityId e he).2
    (by rw [hissuer]; exact (h.closed e he a ha).2) hlookup' hrecord).1
  obtain ⟨statement, hstatement, hiss, hsub, hjwks, n, hlifetime⟩ :=
    @Registered.statementAbout (web.host a).fetchEnv _ a e record _ hregistered
  obtain ⟨exp, hpack⟩ := exists_pack web.reader web.time (web.signer a) hlifetime
  refine ⟨⟨.ofPayload web.reader statement.iss exp statement.payload, web.signer a⟩, ?_, hiss, ?_,
    rfl, ?_⟩
  · rw [Web.serveFetch, runState_nil, hanswer, hissuer, hstatement]
    exact hpack
  · simp only [Statement.ofPayload, hsub]
  · rw [Statement.keys]
    simp only [Statement.ofPayload, hjwks, Option.map_some, Option.getD_some]

/-- What an authority is heard to say about an entity that it is superior to. -/
theorem Kept.statementAbout (h : web.Kept entities superiors) {e a : EntityId} (he : e ∈ entities)
    (ha : a ∈ superiors e) :
    ∃ s location, Function.statementAbout web.alone e a = .ok (some (.jws s)) ∧
      fetchEndpoint web.alone a = .ok (.str location) ∧ location ≠ "" ∧
      view web.alone (.str location) a e = .ok (.jws s) ∧
      s.payload.iss = a ∧ s.payload.sub = e ∧ s.signer = web.signer a ∧
      s.payload.keys = web.reader.keys (web.host e).exportJwks := by
  obtain ⟨config, hconfig, hserves⟩ := h.configuration (h.closed e he a ha).1
  obtain ⟨⟨location, hlocation, hlocated, hdeliver⟩, -⟩ := h.subordinate e he a ha
  obtain ⟨s, hserved, hs⟩ := h.serveFetch he ha
  have hview : view web.alone (.str location) a e = .ok (.jws s) := by
    have hpage : (web.alone).httpc 0 ((web.alone).request location a e) =
        .reply 200 (some "application/entity-statement+jwt") (.jws s) := by
      change web.answer (fun _ => []) (web.client.request location a e) = _
      rw [answer, hdeliver]
      simp only [hserved]
      rfl
    rw [view, getEntityStatement, getDocument_of_reply hpage]
    rfl
  have hendpoint : fetchEndpoint web.alone a = .ok (.str location) := by
    have hgiven := hserves.endpoint
    rw [hlocation, Option.getD_some] at hgiven
    rw [fetchEndpoint, hconfig, except_ok_bind]
    exact hgiven
  refine ⟨s, location, ?_, hendpoint, hlocated, hview, hs⟩
  rw [Function.statementAbout, hendpoint, except_ok_bind, if_neg (by simpa [Json.truthy]), hview]
  rfl

/-- The superiors that an entity is found to list are those that its host is configured with. -/
theorem Kept.lists_iff (h : web.Kept entities superiors) {e : EntityId} (he : e ∈ entities)
    {a : EntityId} : Lists web.alone "" e a ↔ a ∈ superiors e := by
  obtain ⟨config, hconfig, hserves⟩ := h.configuration he
  have hhints : Hints "" config.payload a ↔ a ∈ superiors e := by
    have hiss : config.payload.iss ≠ "" := by
      rw [show config.payload.iss = e from hserves.iss]
      exact (h.entityId e he).2
    have hsuperiors : config.payload.authorityHints.getD [] = superiors e := hserves.hints
    rw [Hints, hsuperiors]
    exact ⟨fun hhints => hhints.2, fun ha => ⟨hiss, ha⟩⟩
  constructor
  · rintro ⟨config', hconfig', hlists⟩
    obtain rfl := Except.ok.inj (hconfig.symm.trans hconfig')
    exact hhints.mp hlists
  · exact fun ha => ⟨config, hconfig, hhints.mpr ha⟩

/-- What the hosts serve is a well kept federation. -/
theorem Kept.wellKept (h : web.Kept entities superiors) : WellKept web.alone entities where
  httpc _ _ := rfl
  unpackRejects _ _ := rfl
  current _ _ _ _ _ := rfl
  closed e he config hconfig a ha := by
    obtain ⟨config', hconfig', hserves⟩ := h.configuration he
    obtain rfl := Except.ok.inj (hconfig.symm.trans hconfig')
    have hhints : config.payload.authorityHints.getD [] = superiors e := hserves.hints
    exact (h.closed e he a (hhints ▸ ha)).1
  apart := h.apart
  publishes e he := by
    obtain ⟨config, hconfig, -⟩ := h.configuration he
    exact ⟨config, hconfig⟩
  answers e he config hconfig a ha _ := by
    obtain ⟨own, hown, hserves⟩ := h.configuration he
    obtain rfl := Except.ok.inj (hconfig.symm.trans hown)
    have hhints : config.payload.authorityHints.getD [] = superiors e := hserves.hints
    rw [hhints] at ha
    obtain ⟨above, habove, hserves'⟩ := h.configuration (h.closed e he a ha).1
    obtain ⟨s, location, -, hendpoint, hlocated, hview, -⟩ := h.statementAbout he ha
    refine ⟨above, location, s, habove, ?_, ?_, hlocated, hview⟩
    · have hlifetime := (h.lifetime a (h.closed e he a ha).1).2
      have hexp : above.payload.exp = web.time + (web.host a).lifetime := hserves'.exp
      rw [isCurrent, decide_eq_true_eq, hexp]
      change web.time < web.time + (web.host a).lifetime - web.client.allowedDelta
      omega
    · rw [fetchEndpoint, habove, except_ok_bind] at hendpoint
      exact hendpoint
  named e he config hconfig := by
    obtain ⟨config', hconfig', hserves⟩ := h.configuration he
    obtain rfl := Except.ok.inj (hconfig.symm.trans hconfig')
    exact ⟨hserves.iss, hserves.sub⟩
  speaks e he a hlists s hs := by
    have ha := (h.lists_iff he).mp hlists
    obtain ⟨s', -, hsaid, -, -, -, hiss, hsub, hsigner, hkeys⟩ := h.statementAbout he ha
    obtain rfl := Option.some.inj (hs.symm.trans (said_of_statementAbout hsaid))
    refine ⟨hiss, hsub, fun config hconfig => ?_, fun config hconfig k hk => ?_⟩
    · obtain ⟨config', hconfig', hserves⟩ := h.configuration (h.closed e he a ha).1
      obtain rfl := Except.ok.inj (hconfig.symm.trans hconfig')
      have hjwks : config.payload.jwks = _ := hserves.jwks
      rw [hsigner, Statement.keys, hjwks, Option.getD_some]
      exact h.ownKey a (h.closed e he a ha).1
    · obtain ⟨config', hconfig', hserves⟩ := h.configuration he
      obtain rfl := Except.ok.inj (hconfig.symm.trans hconfig')
      have hjwks : config.payload.jwks = _ := hserves.jwks
      rw [Statement.keys, hjwks, Option.getD_some] at hk
      rwa [hkeys]

end Web

/-! ## What is found in a federation of hosts -/

variable {Jar Key : Type} [KeyStore Jar Key] [LawfulKeyStore Jar] [DecidableEq Key]

/-- What is found for an entity is what there is along the routes over the superiors that the
    hosts are configured with. -/
def FollowsSuperiors (ho : HashOrder) (known : EntityId → Bool) (web : Web Key)
    (superiors : EntityId → List EntityId) (e : EntityId)
    (found : Except Exc (List (TrustChain Key))) : Prop :=
  ∃ config routes, web.Serves superiors e config.jws ∧ routes.Nodup ∧
    (∀ route, route ∈ routes ↔ Route (fun x a => a ∈ superiors x) e route) ∧
    found = trustChainsAlong ho known web.alone e config routes

/-- In whatever order trust chains and metadata are asked for, and whatever else the authorities
    are asked for meanwhile, every answer follows from how the hosts are set up. -/
theorem served_answers_follow_superiors {ho : HashOrder} {web : Web Key}
    {entities : Finset EntityId} {superiors : EntityId → List EntityId}
    (h : web.Kept entities superiors) (hdeep : entities.card ≤ web.client.recursionLimit)
    (hcycle : ∀ e ∈ entities, NoCycleFrom (fun x a => a ∈ superiors x) e)
    {earlier : Nat → Earlier} (hearlier : web.Undisturbed earlier)
    {st : FederationState Jar Key} (hcaches : st.collector = {}) (hstore : st.trustChain = ∅)
    (hjar : ∀ t ∈ entities, superiors t = [] → KeyStore.contains st.keyjar t = true →
      ∀ k ∈ web.reader.keys (web.host t).exportJwks, k ∈ keysOf st.keyjar t)
    {ops : List TrustCall} (hops : ∀ op ∈ ops, op.entityId ∈ entities) :
    RunMeets (TrustCall.call ho (web.among earlier))
      (fun st' op => ∃ found,
        FollowsSuperiors ho (KeyStore.contains st.keyjar) web superiors op.entityId found ∧
          outcome (op.call ho (web.among earlier) st') = op.handsOut found) st ops := by
  have hclosed : ∀ e ∈ (entities : Set EntityId), ∀ a, Lists web.alone "" e a →
      a ∈ superiors e ∧ a ∈ (entities : Set EntityId) := fun e he a hlists =>
    ⟨(h.lists_iff he).mp hlists, (h.closed e he a ((h.lists_iff he).mp hlists)).1⟩
  have hroute : ∀ e ∈ entities, ∀ route, Route (Lists web.alone "") e route ↔
      Route (fun x a => a ∈ superiors x) e route := by
    intro e he route
    constructor
    · exact Route.of_agree (fun x hx a => h.lists_iff hx) (fun x hx a hlists => (hclosed x hx a hlists).2)
        (Finset.mem_coe.mpr he)
    · exact Route.of_agree (fun x hx a => (h.lists_iff hx).symm) (fun x hx a ha => (h.closed x hx a ha).1)
        (Finset.mem_coe.mpr he)
  have hfollows : ∀ e ∈ entities, ∀ found,
      FollowsRoutes ho (KeyStore.contains st.keyjar) web.alone e found →
        FollowsSuperiors ho (KeyStore.contains st.keyjar) web superiors e found := by
    rintro e he found ⟨config, routes, hconfig, hnodup, hroutes, hfound⟩
    obtain ⟨config', hconfig', hserves⟩ := h.configuration he
    obtain rfl := Except.ok.inj (hconfig.symm.trans hconfig')
    exact ⟨config, routes, hserves, hnodup,
      fun route => (hroutes route).trans (hroute e he route), hfound⟩
  -- the key jar holds, of those with nobody above them, the keys that their hosts export
  have hstart : Settled ho (KeyStore.contains st.keyjar) web.alone entities st := by
    refine settled_of_start (hcaches ▸ reflects_empty) hstore fun t ht htop =>
      ⟨rfl, fun hknown config hconfig k hk => ?_⟩
    obtain ⟨config', hconfig', hserves⟩ := h.configuration ht
    obtain rfl := Except.ok.inj (hconfig.symm.trans hconfig')
    have hnobody : superiors t = [] := List.eq_nil_iff_forall_not_mem.mpr fun a ha =>
      htop a ((h.lists_iff ht).mpr ha)
    have hjwks : config.payload.jwks = _ := hserves.jwks
    rw [Statement.keys, hjwks, Option.getD_some] at hk
    exact hjar t ht hnobody hknown k hk
  -- what others ask the hosts for makes no difference: it is a run on a well kept federation
  rw [Web.among_eq_alone hearlier]
  refine (run_invariant_of_mem
    (fun st' => Settled ho (KeyStore.contains st.keyjar) web.alone entities st')
    (fun op hop st' hst' => ?_) hstart).2
  have he := hops op hop
  have hcycle' : NoCycleFrom (Lists web.alone "") op.entityId :=
    (hcycle _ he).mono_on (Finset.mem_coe.mpr he) hclosed
  obtain ⟨hout, hleft⟩ := yields_call h.wellKept hdeep he hcycle' st' hst'
  exact ⟨hleft, _, hfollows _ he _ (followsRoutes_trustChainsOf h.wellKept.toAnswering hdeep he
    (h.wellKept.publishes _ he) hcycle'), hout⟩

/-! ## Three hosts -/

/-- A trust anchor with a web application, an intermediate that is a part of a combo, and a
    provider that both of them have registered. -/
def threeHosts : EntityId → Host
  | "https://ta.org" => {
      context := {
        entityId := "https://ta.org"
        authorityHints := .callable (.ok (.arr [])) }
      exportJwks := .arr [.num 1]
      serverMetadata := Dict.ofList [("federation_fetch_endpoint", .str "https://ta.org/fetch")]
      wellKnown := .wkof
      subordinate := (Finmap.singleton "https://im.org"
        (keysAndTypes (.arr [.num 2]) ["federation_entity"])).insert "https://op.org"
          (keysAndTypes (.arr [.num 3]) ["openid_provider"])
      policy := Finmap.singleton "openid_provider" (Finmap.singleton "metadata_policy"
        (.obj [("subject_types_supported", .obj [("value", .arr [.str "pairwise"])])])) }
  | "https://im.org" => {
      context := {
        entityId := "https://im.org"
        authorityHints := .value (.arr [.str "https://ta.org"]) }
      exportJwks := .arr [.num 2]
      serverMetadata := Dict.ofList [("federation_fetch_endpoint", .str "https://im.org/fetch")]
      combo := some {
        parts := [("federation_entity", some fun entityType => .ok (FederationEntity.getMetadata
            (Dict.ofList [("federation_fetch_endpoint", .str "https://im.org/fetch")]) entityType)),
          ("openid_relying_party", some fun entityType => .ok (Dict.ofList [(entityType, .obj [])])),
          ("oauth_authorization_server", some fun entityType =>
            .ok (Dict.ofList [(entityType, .obj [])]))]
        nodup := by decide }
      subordinate := Finmap.singleton "https://op.org"
        (keysAndTypes (.arr [.num 3]) ["openid_provider"]) }
  | e => {
      context := {
        entityId := e
        authorityHints := .value (.arr [.str "https://im.org", .str "https://ta.org"]) }
      exportJwks := .arr [.num 3]
      serverMetadata := ∅ }

/-- Where the hosts are found. -/
def threeHostsPages : List (String × Delivery) :=
  [("https://ta.org/.well-known/openid-federation", .configuration "https://ta.org"),
   ("https://im.org/.well-known/openid-federation", .configuration "https://im.org"),
   ("https://op.org/.well-known/openid-federation", .configuration "https://op.org"),
   ("https://ta.org/fetch?iss=https://ta.org&sub=https://im.org",
    .fetch "https://ta.org" { iss := some "https://ta.org", sub := some "https://im.org" }),
   ("https://ta.org/fetch?iss=https://ta.org&sub=https://op.org",
    .fetch "https://ta.org" { iss := some "https://ta.org", sub := some "https://op.org" }),
   ("https://im.org/fetch?iss=https://im.org&sub=https://op.org",
    .fetch "https://im.org" { iss := some "https://im.org", sub := some "https://op.org" })]

/-- The keys in a list of numbers. -/
def numberedKeys : Json → List Nat
  | .arr xs => xs.filterMap fun | .num n => some n.toNat | _ => none
  | _ => []

/-- The web of these hosts. -/
def threeHostsWeb : Web Nat where
  host := threeHosts
  signer e := if e = "https://ta.org" then 1 else if e = "https://im.org" then 2 else 3
  reader := { keys := numberedKeys, trustMark := fun _ => none }
  client := {
    trustAnchors := ["https://ta.org"]
    now := fun _ => 0
    httpc := fun _ _ => .connectionError
    request := fun location iss sub => s!"{location}?iss={iss}&sub={sub}" }
  time := 100
  deliver url := threeHostsPages.lookup url
  itself := by
    intro url a request h
    obtain ⟨before, after, hpages, -⟩ := List.lookup_eq_some_iff.mp h
    have hmem : (url, Delivery.fetch a request) ∈ threeHostsPages := by
      rw [hpages]
      exact List.mem_append_right _ (List.mem_cons_self ..)
    simp only [threeHostsPages, List.mem_cons, Prod.mk.injEq, Delivery.fetch.injEq, reduceCtorEq,
      and_false, false_or, List.not_mem_nil, or_false] at hmem
    rcases hmem with ⟨-, rfl, rfl⟩ | ⟨-, rfl, rfl⟩ | ⟨-, rfl, rfl⟩ <;> rfl

/-- The superiors that these hosts are configured with. -/
def threeHostsSuperiors : EntityId → List EntityId
  | "https://op.org" => ["https://im.org", "https://ta.org"]
  | "https://im.org" => ["https://ta.org"]
  | _ => []

theorem kept_threeHosts : threeHostsWeb.Kept twoWaysUpEntities threeHostsSuperiors where
  entityId e he := by
    simp only [twoWaysUpEntities, Finset.mem_insert, Finset.mem_singleton] at he
    rcases he with rfl | rfl | rfl <;> exact ⟨rfl, by decide⟩
  configured e he := by
    simp only [twoWaysUpEntities, Finset.mem_insert, Finset.mem_singleton] at he
    rcases he with rfl | rfl | rfl
    · exact ⟨rfl, ⟨_, rfl⟩, ⟨_, rfl⟩, by rintro c ⟨⟩, by rintro ⟨⟩⟩
    · refine ⟨rfl, ⟨_, rfl⟩, ⟨_, rfl⟩, ?_, by rintro ⟨⟩⟩
      rintro c ⟨⟩ t getMetadata hpart hne d hd
      simp only [List.mem_cons, Prod.mk.injEq, Option.some.injEq, List.not_mem_nil,
        or_false] at hpart
      rcases hpart with ⟨rfl, -⟩ | ⟨rfl, rfl⟩ | ⟨rfl, rfl⟩
      · exact absurd rfl hne
      · obtain rfl := Except.ok.inj hd
        decide
      · obtain rfl := Except.ok.inj hd
        decide
    · exact ⟨rfl, ⟨_, rfl⟩, ⟨_, rfl⟩, by rintro c ⟨⟩, by rintro - - path ⟨⟩⟩
  located e he := by
    simp only [twoWaysUpEntities, Finset.mem_insert, Finset.mem_singleton] at he
    rcases he with rfl | rfl | rfl <;> exact ⟨_, rfl, Or.inl rfl⟩
  ownKey e he := by
    simp only [twoWaysUpEntities, Finset.mem_insert, Finset.mem_singleton] at he
    rcases he with rfl | rfl | rfl <;> decide
  lifetime e he := by
    simp only [twoWaysUpEntities, Finset.mem_insert, Finset.mem_singleton] at he
    rcases he with rfl | rfl | rfl <;> decide
  accepted _ _ := rfl
  closed e he := by
    simp only [twoWaysUpEntities, Finset.mem_insert, Finset.mem_singleton] at he
    rcases he with rfl | rfl | rfl <;> decide
  subordinate e he a ha := by
    simp only [twoWaysUpEntities, Finset.mem_insert, Finset.mem_singleton] at he
    rcases he with rfl | rfl | rfl
    · simp only [threeHostsSuperiors, List.mem_cons, List.not_mem_nil, or_false] at ha
      rcases ha with rfl | rfl <;>
        exact ⟨⟨_, rfl, by decide, rfl⟩, _, rfl, registered_keysAndTypes rfl⟩
    · simp only [threeHostsSuperiors, List.mem_cons, List.not_mem_nil, or_false] at ha
      obtain rfl := ha
      exact ⟨⟨_, rfl, by decide, rfl⟩, _, rfl, registered_keysAndTypes rfl⟩
    · exact absurd ha List.not_mem_nil
  apart := by
    unfold CacheKeysApart
    decide

/-- Every superior is a level up. -/
theorem noCycleFrom_threeHosts {e : EntityId} (he : e ∈ twoWaysUpEntities) :
    NoCycleFrom (fun x a => a ∈ threeHostsSuperiors x) e := by
  let level (e : EntityId) : Nat :=
    if e = "https://op.org" then 2 else if e = "https://im.org" then 1 else 0
  refine noCycleFrom_of_level level (fun x hx a ha => ?_) he
  simp only [twoWaysUpEntities, Finset.mem_insert, Finset.mem_singleton] at hx
  rcases hx with rfl | rfl | rfl
  · simp only [threeHostsSuperiors, List.mem_cons, List.not_mem_nil, or_false] at ha
    rcases ha with rfl | rfl <;> decide
  · simp only [threeHostsSuperiors, List.mem_cons, List.not_mem_nil, or_false] at ha
    obtain rfl := ha
    decide
  · exact absurd ha List.not_mem_nil

/-- Somebody else asks the trust anchor about the provider first. -/
theorem served_answers_follow_superiors_threeHosts :
    RunMeets (TrustCall.call .insertion
        (threeHostsWeb.among fun _ a =>
          if a = "https://ta.org" then [{ sub := some "https://op.org" }] else []))
      (fun st' op => ∃ found,
        FollowsSuperiors .insertion (KeyStore.contains (trustsTa).keyjar) threeHostsWeb
            threeHostsSuperiors op.entityId found ∧
          outcome (op.call .insertion
            (threeHostsWeb.among fun _ a =>
              if a = "https://ta.org" then [{ sub := some "https://op.org" }] else []) st') =
            op.handsOut found) trustsTa
      [.getVerifiedMetadata "https://op.org", .getTrustChains "https://im.org"] := by
  refine served_answers_follow_superiors kept_threeHosts (by decide)
    (fun _ he => noCycleFrom_threeHosts he) (fun n a request hrequest => ?_) rfl rfl ?_ (by decide)
  · by_cases ha : a = "https://ta.org"
    · rw [if_pos ha, List.mem_singleton] at hrequest
      rw [hrequest, ha]
      rfl
    · rw [if_neg ha] at hrequest
      exact absurd hrequest List.not_mem_nil
  · intro t ht hnobody hknown k hk
    simp only [twoWaysUpEntities, Finset.mem_insert, Finset.mem_singleton] at ht
    rcases ht with rfl | rfl | rfl
    · exact absurd hknown (by decide)
    · exact absurd hknown (by decide)
    · revert k
      decide

end Fedservice.Entity
