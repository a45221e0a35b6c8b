/-
  Fedservice.Entity.TrawlRequests

  What the requests of a trawl come to, in a federation at one point in time.
  There are entities whose trust chains the collector can collect: their
  configurations it keeps itself.  Of the others the federation client learns
  from whoever is above them; what it learns it leaves in the same cache, as a
  message, which the collector cannot work with.  Collecting for the one kind
  never touches what is kept of the other (`Undisturbed`), so that a party which
  is acquainted with the entities of a trawl (`Acquainted`) stays so.
-/

import Fedservice.Entity.Trawl
import Fedservice.Entity.TrustChainsOfRoutes

namespace Fedservice.Entity

open Fedservice.Lib Fedservice.Py Fedservice.EntityStatement Fedservice.Crypto
  Fedservice.Entity.Function

variable {Jar Key : Type}

/-! ## What collecting leaves alone -/

section Undisturbed

variable [DecidableEq Key] {env : CollectorEnv Key} {C : Finset EntityId}
  {start st : CollectorState Key}

/-- Since `start` only configurations of `C` were written or evicted, and none that is current
    was evicted. -/
structure Undisturbed (env : CollectorEnv Key) (C : Finset EntityId)
    (start st : CollectorState Key) : Prop where
  configs : ∀ e ∈ C, ∀ entry, st.configCache.lookup e = some entry →
    ∃ config, entry = .dict config ∧ configuration env e = .ok config
  others : ∀ e, e ∉ C → st.configCache.lookup e = start.configCache.lookup e
  stays : ∀ e ∈ C, e ∈ start.configCache →
    (∀ config, configuration env e = .ok config → isCurrent env config.payload = true) →
    e ∈ st.configCache

/-- In a steady federation what is served is what is published. -/
theorem configuration_of_served (h : Steady env C) {n : Nat} {e : EntityId}
    {config : SelfSigned Key} (hserved : Served env n e config) :
    configuration env e = .ok config := by
  have hasks : Asks (fetchConfiguration env e) (configuration env e) :=
    (h.getEntityConfiguration e).bind fun token _ => h.verifySelfSignedSignature token
  rw [← hasks.outcome_eq { asked := n }]
  exact hserved

theorem cacheInvariant_undisturbed (h : Steady env C) :
    CacheInvariant env (· ∈ C) (· ∈ C) (Undisturbed env C start) where
  asked _ _ _ hst := ⟨hst.configs, hst.others, hst.stays⟩
  store st₁ st e config he _ hserved _ hst := by
    refine ⟨fun e' he' entry hentry => ?_, fun e' he' => ?_, fun e' he' hin hcurrent => ?_⟩
    · rcases Dict.lookup_insert_eq_some.mp hentry with ⟨rfl, rfl⟩ | ⟨-, hentry⟩
      · exact ⟨config, rfl, configuration_of_served h hserved⟩
      · exact hst.configs e' he' entry hentry
    · have hne : e' ≠ e := fun heq => he' (heq ▸ he)
      exact (AList.lookup_insert_ne hne).trans (hst.others e' he')
    · exact (AList.mem_insert _).mpr (Or.inr (hst.stays e' he' hin hcurrent))
  evict st e config he hlookup hstale hst := by
    refine ⟨fun e' he' entry hentry => ?_, fun e' he' => ?_, fun e' he' hin hcurrent => ?_⟩
    · by_cases hsame : e' = e
      · rw [hsame, AList.lookup_erase] at hentry
        exact absurd hentry (by simp)
      · rw [AList.lookup_erase_ne hsame] at hentry
        exact hst.configs e' he' entry hentry
    · have hne : e' ≠ e := fun heq => he' (heq ▸ he)
      exact (AList.lookup_erase_ne hne).trans (hst.others e' he')
    · refine AList.mem_erase.mpr ⟨?_, hst.stays e' he' hin hcurrent⟩
      -- what is evicted is what is published, and it is not current
      rintro rfl
      obtain ⟨config', heq, hconfig⟩ := hst.configs e' he _ hlookup
      obtain rfl := CachedConfig.dict.inj heq
      have hsteady := h.current st.asked e' he config hconfig
      rw [decide_eq_false hstale, hcurrent config hconfig] at hsteady
      exact absurd hsteady (by simp)
  remember _ _ _ _ _ _ _ _ _ _ hst := ⟨hst.configs, hst.others, hst.stays⟩
  forget _ _ _ _ _ hst := ⟨hst.configs, hst.others, hst.stays⟩
  listed st e entry he hst hlookup a ha := by
    obtain ⟨config, rfl, hconfig⟩ := hst.configs e he entry hlookup
    exact h.closed e he config hconfig a ha
  subject _ ha := ha

theorem Undisturbed.refl (hst : Reflects env C st) : Undisturbed env C st st :=
  ⟨hst.configs, fun _ _ => rfl, fun _ _ hin _ => hin⟩

theorem ensures_collectTrustChains_undisturbed (h : Steady env C) {e : EntityId} (he : e ∈ C) :
    Ensures (Undisturbed env C start) (collectTrustChains env e) (fun _ => True) :=
  (cacheInvariant_undisturbed h).collectTrustChains he

end Undisturbed

/-! ## What verifying leaves alone -/

section Verifying

variable [KeyStore Jar Key] [DecidableEq Key]

/-- What was held is held. -/
def HoldsStill (before after : Jar) : Prop :=
  ∀ id, ∀ k ∈ keysOf before id, k ∈ keysOf after id

theorem ensures_verifyTrustChains_holds {before : Jar} (entityStatements : List (Token Key))
    (chains : List (List (Token Key))) :
    Ensures (HoldsStill before) (verifyTrustChains entityStatements chains) (fun _ => True) := by
  induction chains with
  | nil => exact ensures_pure trivial
  | cons c chains ih =>
      have hcall : Ensures (HoldsStill before) (TrustChainVerifier.call (c ++ entityStatements))
          (fun _ => True) := by
        refine fun jar hjar => ⟨fun id k hk => ?_, fun _ _ _ => trivial⟩
        rw [finalState_call]
        exact mem_keysOf_call.mpr (Or.inl (hjar id k hk))
      exact hcall.bind fun _ _ => ih.bind fun _ _ => ensures_pure trivial

/-- What collecting and verifying leaves alone. -/
structure LeavesAlone (env : CollectorEnv Key) (C : Finset EntityId)
    (before after : FederationState Jar Key) : Prop where
  caches : Undisturbed env C before.collector after.collector
  keyjar : HoldsStill before.keyjar after.keyjar

theorem ensures_getVerifiedTrustChains_leavesAlone {ho : HashOrder} {env : CollectorEnv Key}
    {C : Finset EntityId} (h : Steady env C) {before : FederationState Jar Key} {e : EntityId}
    (he : e ∈ C) :
    Ensures (LeavesAlone env C before) (getVerifiedTrustChains ho env e) (fun _ => True) := by
  have hcollect : Ensures (LeavesAlone env C before)
      (inCollector (collectTrustChains env e)) (fun _ => True) :=
    (ensures_collectTrustChains_undisturbed h he).zoom_within (fun _ hst => hst.caches)
      fun _ _ hc hst => ⟨hc, hst.keyjar⟩
  refine hcollect.bind fun found _ => ?_
  obtain ⟨chains, leafEc⟩ := found
  by_cases hnone : chains.length = 0
  · simp only [if_pos hnone]
    exact ensures_pure trivial
  · simp only [if_neg hnone]
    have hverify : Ensures (LeavesAlone env C before)
        (inKeyjar (verifyTrustChains (leafEc.toList.map fun config => .jws config.jws) chains))
        (fun _ => True) :=
      (ensures_verifyTrustChains_holds _ chains).zoom_within (fun _ hst => hst.keyjar)
        fun _ _ hjar hst => ⟨hst.caches, hjar⟩
    exact hverify.bind fun _ _ => ensures_lift fun _ _ => trivial

end Verifying

/-! ## Being acquainted with the entities of a trawl -/

section Acquainted

variable [KeyStore Jar Key] [DecidableEq Key] {ho : HashOrder} {env : CollectorEnv Key}
  {client : ClientEnv Key} {C : Finset EntityId} {known : EntityId → Bool}
  {Met : EntityId → Prop} {published : EntityId → Statement Key} {A : EntityId → Prop}

/-- The trust chains of the entities of `C` can be collected, and those of them that are met
    publish what they are said to publish. -/
structure Collectible (env : CollectorEnv Key) (C : Finset EntityId) (Met : EntityId → Prop)
    (published : EntityId → Statement Key) : Prop extends WellKept env C where
  deep : C.card ≤ env.recursionLimit
  acyclic : ∀ e ∈ C, NoCycleFrom (Lists env "") e
  own : ∀ e ∈ C, Met e → ∀ config, configuration env e = .ok config →
    config.payload = published e ∧ isCurrent env config.payload = true

/-- What is in the caches is what is published: by entities of `C`, as the collector puts it
    there, and by others that are met, as messages.  The keys of those that are met are in the
    key jar, unless nothing is known of them.  The entities in `A` are in the configuration
    cache. -/
structure Acquainted (env : CollectorEnv Key) (C : Finset EntityId) (known : EntityId → Bool)
    (Met : EntityId → Prop) (published : EntityId → Statement Key) (A : EntityId → Prop)
    (st : FederationState Jar Key) : Prop where
  caches : Reflects env C st.collector
  tops : KnowsTops env C known st.keyjar
  messages : ∀ e, Met e → e ∉ C → ∀ entry, st.collector.configCache.lookup e = some entry →
    entry = .message (published e)
  held : ∀ e, Met e → e ∈ C ∨ e ∈ st.collector.configCache →
    ∀ k ∈ (published e).keys, k ∈ keysOf st.keyjar e
  met : ∀ e, A e → Met e
  cached : ∀ e, A e → e ∈ st.collector.configCache

/-- Being acquainted with fewer. -/
theorem Acquainted.mono {B : EntityId → Prop} {st : FederationState Jar Key}
    (h : Acquainted env C known Met published A st) (hsub : ∀ e, B e → A e) :
    Acquainted env C known Met published B st :=
  ⟨h.caches, h.tops, h.messages, h.held, fun e he => h.met e (hsub e he),
    fun e he => h.cached e (hsub e he)⟩

/-- Asking makes no difference. -/
theorem Acquainted.asked {st : FederationState Jar Key}
    (h : Acquainted env C known Met published A st) (n : Nat) :
    Acquainted env C known Met published A
      { st with collector := { st.collector with asked := n } } :=
  ⟨h.caches.of_caches rfl rfl, h.tops, h.messages, h.held, h.met, h.cached⟩

/-- Collecting and verifying makes none either. -/
theorem Acquainted.leftAlone (hC : Collectible env C Met published)
    {before after : FederationState Jar Key} (h : Acquainted env C known Met published A before)
    (hcaches : Reflects env C after.collector) (htops : KnowsTops env C known after.keyjar)
    (halone : LeavesAlone env C before after) :
    Acquainted env C known Met published A after where
  caches := hcaches
  tops := htops
  messages e hmet hout entry hentry := by
    rw [halone.caches.others e hout] at hentry
    exact h.messages e hmet hout entry hentry
  held e hmet hin k hk := by
    refine halone.keyjar e k (h.held e hmet ?_ k hk)
    by_cases hC : e ∈ C
    · exact Or.inl hC
    · right
      rw [Dict.mem_iff_lookup, ← halone.caches.others e hC, ← Dict.mem_iff_lookup]
      exact hin.resolve_left hC
  met := h.met
  cached e he := by
    have hbefore := h.cached e he
    by_cases hin : e ∈ C
    · exact halone.caches.stays e hin hbefore fun config hconfig =>
        (hC.own e hin (h.met e he) config hconfig).2
    · rw [Dict.mem_iff_lookup, halone.caches.others e hin, ← Dict.mem_iff_lookup]
      exact hbefore

/-- The trust chains of an entity whose trust chains can be collected. -/
theorem yields_getVerifiedTrustChains_acquainted [LawfulKeyStore Jar]
    (hC : Collectible env C Met published) {e : EntityId} (he : e ∈ C) :
    Yields (fun st : FederationState Jar Key => Acquainted env C known Met published A st)
      (getVerifiedTrustChains ho env e) (trustChainsOf ho known env e) := by
  intro st hst
  have hyields : Yields (fun st : FederationState Jar Key =>
      Reflects env C st.collector ∧ KnowsTops env C known st.keyjar)
      (getVerifiedTrustChains ho env e) (trustChainsOf ho known env e) :=
    yields_getVerifiedTrustChains_within hC.toWellKept hC.deep he (hC.acyclic e he)
      (fun _ hst => hst.1) (fun _ hst => hst.2) (fun _ _ hc hst => ⟨hc, hst.2⟩)
      fun _ _ hj hst => ⟨hst.1, hj⟩
  obtain ⟨hout, hcaches, htops⟩ := hyields st ⟨hst.caches, hst.tops⟩
  have halone : LeavesAlone env C st (finalState (getVerifiedTrustChains ho env e st)) :=
    (ensures_getVerifiedTrustChains_leavesAlone hC.toSteady he st
      ⟨.refl hst.caches, fun _ _ hk => hk⟩).1
  exact ⟨hout, hst.leftAlone hC hcaches htops halone⟩

end Acquainted

/-! ## The list endpoint -/

section Requests

variable [KeyStore Jar Key] [DecidableEq Key] {ho : HashOrder} {env : CollectorEnv Key}
  {client : ClientEnv Key} {C : Finset EntityId} {known : EntityId → Bool}
  {Met : EntityId → Prop} {published : EntityId → Statement Key} {A : EntityId → Prop}

omit [KeyStore Jar Key] [DecidableEq Key] in
/-- What the federation entity comes to, it comes to with a record of what is read as well. -/
theorem yields_tracing {α : Type} {m : EStateM Exc (FederationState Jar Key) α} {r : Except Exc α}
    {Inv : FederationState Jar Key → Prop} (h : Yields Inv m r)
    (reads : CollectorState Key → List (Option (CachedConfig Key))) :
    Yields (fun t : Traced Jar Key => Inv t.federation) (tracing reads m) r := by
  intro t ht
  have hm := h t.federation ht
  rw [tracing_apply]
  cases hrun : m t.federation with
  | ok a st =>
      rw [hrun] at hm
      exact hm
  | error err st =>
      rw [hrun] at hm
      exact hm

omit [KeyStore Jar Key] [DecidableEq Key] in
theorem yields_inFederation {α : Type} {m : EStateM Exc (FederationState Jar Key) α}
    {r : Except Exc α} {Inv : FederationState Jar Key → Prop} (h : Yields Inv m r) :
    Yields (fun t : Traced Jar Key => Inv t.federation) (inFederation m) r :=
  h.zoom (fun _ ht => ht) fun _ _ hst _ => hst

/-- The endpoint of an entity, as it follows from what is published: by a trust anchor itself,
    and for others from the trust chain that is picked. -/
def publishedEndpoint (ho : HashOrder) (known : EntityId → Bool) (env : CollectorEnv Key)
    (client : ClientEnv Key) (e : EntityId) (endpointName : String) : Except Exc Json :=
  if e ∈ env.trustAnchors then do
    let config ← configuration env e
    return endpointIn (metadataOf config.payload >>= (item · "federation_entity")) endpointName
  else do
    let trustChains ← trustChainsOf ho known env e
    let trustChain ← pickTrustChain client.trPriority trustChains
    match trustChain.metadata.item "federation_entity" with
    | .ok none => throw (.attributeError "get")
    | .ok (some fe) => return endpointIn (.ok fe) endpointName
    | .error err => return endpointIn (.error err) endpointName

/-- The list endpoint of the entity answers the request with the IDs. -/
def AnswersList (ho : HashOrder) (known : EntityId → Bool) (env : CollectorEnv Key)
    (client : ClientEnv Key) (e : EntityId) (args : List (String × ListArg))
    (ids : List EntityId) : Prop :=
  ∃ endpoint url, publishedEndpoint ho known env client e "federation_list_endpoint" = .ok endpoint ∧
    listUrl endpoint args = .ok url ∧
    ∀ n held, getResponse (client.list e held) (env.httpc n url) = .ok (.parsed ids)

/-- What a trust anchor says of itself. -/
theorem yields_getVerifiedTrustAnchorStatement (hsteady : Steady env C) {e : EntityId} (he : A e)
    {config : SelfSigned Key} (hconfig : configuration env e = .ok config)
    (hpublished : config.payload = published e) (hnamed : (published e).iss = e) :
    Yields (fun st : FederationState Jar Key => Acquainted env C known Met published A st)
      (getVerifiedTrustAnchorStatement env e) (.ok config.payload) := by
  intro st hst
  obtain ⟨token, hdocument, hself⟩ := except_bind_eq_ok.mp hconfig
  obtain ⟨st', hverified⟩ := outcome_eq_ok.mp hself
  obtain rfl := verifySelfSignedSignature_eq_ok env hverified
  obtain ⟨n, hn⟩ := hsteady.getEntityConfiguration e st.collector
  rw [hdocument] at hn
  have hkeys : config.jws.signer ∈ getJwtVerifyKeys st.keyjar config.jws := by
    have hheld := hst.held e (hst.met e he) (Or.inr (hst.cached e he)) config.jws.signer
    rw [← hpublished] at hheld hnamed
    unfold getJwtVerifyKeys
    rw [show config.jws.payload.iss = e from hnamed]
    exact hheld config.own
  unfold getVerifiedTrustAnchorStatement
  rw [bind_of_ok (inCollector_of_ok hn), factory_jws]
  simp only
  rw [bind_of_ok (get_apply _), verifyCompact_eq_ok.mpr ⟨hkeys, rfl⟩]
  exact ⟨rfl, hst.asked n⟩

theorem yields_getVerifiedEndpoint [LawfulKeyStore Jar] (hC : Collectible env C Met published)
    {e : EntityId} (he : A e)
    (hanchor : e ∈ env.trustAnchors → ∃ config, configuration env e = .ok config ∧
      config.payload = published e ∧ (published e).iss = e)
    (hcollected : e ∉ env.trustAnchors → e ∈ C) (endpointName : String) :
    Yields (fun t : Traced Jar Key => Acquainted env C known Met published A t.federation)
      (getVerifiedEndpoint ho env client e endpointName)
      (publishedEndpoint ho known env client e endpointName) := by
  unfold getVerifiedEndpoint publishedEndpoint
  by_cases hin : e ∈ env.trustAnchors
  · rw [if_pos hin, if_pos hin]
    obtain ⟨config, hconfig, hpublished, hnamed⟩ := hanchor hin
    rw [hconfig, except_ok_bind]
    exact (yields_inFederation (yields_getVerifiedTrustAnchorStatement hC.toSteady he hconfig
      hpublished hnamed)).bind_ok (yields_pure _)
  · rw [if_neg hin, if_neg hin]
    refine (yields_tracing (yields_getVerifiedTrustChains_acquainted hC (hcollected hin)) _).bind
      fun trustChains _ => ?_
    refine (yields_lift _).bind fun trustChain _ => ?_
    cases trustChain.metadata.item "federation_entity" with
    | error err => exact yields_pure _
    | ok fe =>
        cases fe with
        | none => exact yields_throw _
        | some fe => exact yields_pure _

omit [DecidableEq Key] in
/-- A request that is answered in every state of the kind. -/
theorem serviceRequest_apply {α : Type} (parse : ParseResponse Key α) (issuer : EntityId)
    (url : String) (t : Traced Jar Key) :
    serviceRequest env parse issuer url t =
      lift (getResponse (parse issuer (keysOf t.federation.keyjar))
        (env.httpc t.federation.collector.asked url))
        { t with federation := { t.federation with
            collector := { t.federation.collector with
              asked := t.federation.collector.asked + 1 } } } := rfl

/-- The subordinates that are listed. -/
theorem yields_requestList [LawfulKeyStore Jar] (hC : Collectible env C Met published)
    {e : EntityId} (he : A e)
    (hanchor : e ∈ env.trustAnchors → ∃ config, configuration env e = .ok config ∧
      config.payload = published e ∧ (published e).iss = e)
    (hcollected : e ∉ env.trustAnchors → e ∈ C) {args : List (String × ListArg)}
    {ids : List EntityId} (hlist : AnswersList ho known env client e args ids) :
    Yields (fun t : Traced Jar Key => Acquainted env C known Met published A t.federation)
      (requestList ho env client e args) (.ok ids) := by
  obtain ⟨endpoint, url, hendpoint, hurl, hanswer⟩ := hlist
  have hverified : Yields (fun t : Traced Jar Key =>
      Acquainted env C known Met published A t.federation)
      (getVerifiedEndpoint ho env client e "federation_list_endpoint") (.ok endpoint) := by
    rw [← hendpoint]
    exact yields_getVerifiedEndpoint hC he hanchor hcollected _
  refine hverified.bind_ok ?_
  rw [hurl]
  refine (yields_lift _).bind_ok ?_
  have hrequest : Yields (fun t : Traced Jar Key =>
      Acquainted env C known Met published A t.federation)
      (serviceRequest env client.list e url) (.ok (.parsed ids)) := by
    intro t ht
    rw [serviceRequest_apply, hanswer]
    exact ⟨rfl, ht.asked _⟩
  exact hrequest.bind_ok (yields_pure _)

/-- For a message in the configuration cache no trust chain can be collected. -/
theorem yields_requestList_of_message {e : EntityId} (he : A e) (hout : e ∉ C)
    (hanchor : e ∉ env.trustAnchors)
    (hyoung : ∀ n, env.now n < (published e).exp + env.allowedDelta)
    (args : List (String × ListArg)) :
    Yields (fun t : Traced Jar Key => Acquainted env C known Met published A t.federation)
      (requestList ho env client e args) (.error (.attributeError "_jws")) := by
  have hchains : Yields (fun st : FederationState Jar Key =>
      Acquainted env C known Met published A st)
      (getVerifiedTrustChains ho env e) (.error (.attributeError "_jws")) := by
    intro st hst
    obtain ⟨entry, hlookup⟩ := Dict.mem_iff_lookup.mp (hst.cached e he)
    obtain rfl := hst.messages e (hst.met e he) hout entry hlookup
    -- the message is not too old, so it is not fetched again, and has no `_jws`
    have hclock : tooOld env (published e) st.collector =
        .ok false { st.collector with asked := st.collector.asked + 1 } := by
      have hnot : ¬ env.now st.collector.asked ≥ (published e).exp + env.allowedDelta :=
        not_le.mpr (hyoung _)
      rw [← decide_eq_false hnot]
      rfl
    have hleaf : leafConfiguration env e st.collector = .error (.attributeError "_jws")
        { st.collector with asked := st.collector.asked + 1 } := by
      unfold leafConfiguration
      rw [bind_of_ok (get_apply _), hlookup]
      exact bind_of_ok hclock
    have hcollect : collectTrustChains env e (.text "") "" [] st.collector =
        .error (.attributeError "_jws")
          { st.collector with asked := st.collector.asked + 1 } := by
      unfold collectTrustChains
      refine bind_of_error ?_
      exact bind_of_error hleaf
    unfold getVerifiedTrustChains
    rw [bind_of_error (inCollector_of_error hcollect)]
    exact ⟨rfl, hst.asked _⟩
  have hendpoint : Yields (fun t : Traced Jar Key =>
      Acquainted env C known Met published A t.federation)
      (getVerifiedEndpoint ho env client e "federation_list_endpoint")
      (.error (.attributeError "_jws")) := by
    unfold getVerifiedEndpoint
    rw [if_neg hanchor]
    exact (yields_tracing hchains _).bind_error
  exact hendpoint.bind_error

end Requests

/-! ## The configuration that a trawl looks at -/

section Configurations

variable [KeyStore Jar Key] [DecidableEq Key] {env : CollectorEnv Key} {client : ClientEnv Key}
  {C : Finset EntityId} {known : EntityId → Bool} {Met : EntityId → Prop}
  {published : EntityId → Statement Key} {A : EntityId → Prop}

/-- What the client is told of `e`: by `sup`, at its fetch endpoint, the keys of `e`, and by `e`
    its configuration, if the keys are held that these are signed with. -/
structure Tells (env : CollectorEnv Key) (client : ClientEnv Key)
    (published : EntityId → Statement Key) (sup e : EntityId) : Prop where
  statement : ∃ metadata fe location es jwks, (published sup).metadata = some metadata ∧
    metadata.lookup "federation_entity" = some fe ∧
    fe.lookup "federation_fetch_endpoint" = some (.str location) ∧ location ≠ "" ∧
    es.sub = e ∧ es.jwks = some jwks ∧ (∀ k ∈ (published e).keys, k ∈ jwks) ∧
    ∀ n held, (∀ k ∈ (published sup).keys, k ∈ held sup) →
      getResponse (client.entityStatement sup held) (env.httpc n (env.request location sup e)) =
        .ok (.parsed es)
  configuration : ∃ url, Client.getRequestParameters env.rootIssuer e false = .ok url ∧
    ∀ n held, (∀ k ∈ (published e).keys, k ∈ held e) →
      getResponse (client.entityConfiguration e held) (env.httpc n url) =
        .ok (.parsed (published e))
  named : (published e).iss = e

/-- A federation entity that has asked something more. -/
def Traced.later (t : Traced Jar Key) (n : Nat) (reads : List (Option (CachedConfig Key))) :
    Traced Jar Key :=
  ⟨{ t.federation with collector := { t.federation.collector with asked := n } }, reads⟩

/-- The configuration of an entity that is in the cache. -/
theorem exists_usedConfig (hC : Collectible env C Met published) {e : EntityId} (he : A e)
    {t : Traced Jar Key} (ht : Acquainted env C known Met published A t.federation) :
    ∃ entry n reads, entry.payload = published e ∧ usedConfig env e t = .ok entry (t.later n reads) := by
  obtain ⟨entry, hlookup⟩ := Dict.mem_iff_lookup.mp (ht.cached e he)
  have hused : ∀ entry n, configCacheItem env e t.federation.collector =
      .ok (some entry) { t.federation.collector with asked := n } →
      usedConfig env e t = .ok entry (t.later n (t.reads ++ [some entry])) := by
    intro entry n hread
    have hin : inFederation (inCollector (configCacheItem env e)) t =
        .ok (some entry) (t.later n t.reads) := by
      unfold inFederation inCollector zoom
      rw [hread]
      rfl
    unfold usedConfig
    rw [bind_of_ok hin]
    rfl
  by_cases hin : e ∈ C
  · obtain ⟨config, rfl, hconfig⟩ := ht.caches.configs e hin entry hlookup
    obtain ⟨hpublished, hcurrent⟩ := hC.own e hin (ht.met e he) config hconfig
    -- what is published is current, whatever the time
    have hfresh : env.now t.federation.collector.asked <
        config.payload.exp - env.allowedDelta := by
      rw [← hC.current t.federation.collector.asked e hin config hconfig] at hcurrent
      exact of_decide_eq_true hcurrent
    refine ⟨.dict config, t.federation.collector.asked + 1, _, hpublished, hused _ _ ?_⟩
    have hclock : utcTimeSansFrac env t.federation.collector =
        .ok (env.now t.federation.collector.asked)
          { t.federation.collector with asked := t.federation.collector.asked + 1 } := rfl
    unfold configCacheItem
    rw [bind_of_ok (get_apply _), hlookup]
    simp only
    rw [bind_of_ok hclock, if_pos hfresh]
    rfl
  · obtain rfl := ht.messages e (ht.met e he) hin entry hlookup
    refine ⟨.message (published e), t.federation.collector.asked, _, rfl, hused _ _ ?_⟩
    unfold configCacheItem
    rw [bind_of_ok (get_apply _), hlookup]
    rfl

/-- The keys of others make no difference to the tops of `C`. -/
theorem knowsTops_addKb [LawfulKeyStore Jar] (h : WellKept env C) {jar : Jar}
    (hjar : KnowsTops env C known jar) {e : EntityId} (hout : e ∉ C) (ks : List Key) :
    KnowsTops env C known (KeyStore.addKb jar e ks) := by
  intro t ht htop
  obtain ⟨hknown, hkeys⟩ := hjar t ht htop
  have hkeys' : known t = true → ∀ config, Function.configuration env t = .ok config →
      ∀ k ∈ config.payload.keys, k ∈ keysOf (KeyStore.addKb jar e ks) t :=
    fun hyes config hconfig k hk => mem_keysOf_addKb.mpr (Or.inl (hkeys hyes config hconfig k hk))
  refine ⟨?_, hkeys'⟩
  cases hcase : known t with
  | true =>
      obtain ⟨config, hconfig⟩ := h.publishes t ht
      exact contains_of_mem_keysOf (hkeys' hcase config hconfig _ config.own)
  | false =>
      rw [hcase] at hknown
      by_contra hyes
      rw [Bool.not_eq_false] at hyes
      rcases LawfulKeyStore.contains_addKb hyes with hbefore | rfl
      · exact absurd (hknown.symm.trans hbefore) Bool.false_ne_true
      · exact hout ht

/-- Being told the keys of an entity. -/
theorem Acquainted.addKb [LawfulKeyStore Jar] (hC : WellKept env C) {st : FederationState Jar Key}
    (h : Acquainted env C known Met published A st) {e : EntityId} (hout : e ∉ C) (ks : List Key) :
    Acquainted env C known Met published A
      { st with keyjar := KeyStore.addKb st.keyjar e ks } where
  caches := h.caches
  tops := knowsTops_addKb hC h.tops hout ks
  messages := h.messages
  held e' hmet hin k hk := mem_keysOf_addKb.mpr (Or.inl (h.held e' hmet hin k hk))
  met := h.met
  cached := h.cached

/-- Being told the configuration of an entity whose keys are held. -/
theorem Acquainted.told {st : FederationState Jar Key}
    (h : Acquainted env C known Met published A st) {e : EntityId} (hout : e ∉ C) (hmet : Met e)
    (hheld : ∀ k ∈ (published e).keys, k ∈ keysOf st.keyjar e) :
    Acquainted env C known Met published (fun x => A x ∨ x = e)
      { st with collector := { st.collector with
          configCache := st.collector.configCache.insert e (.message (published e)) } } where
  caches := by
    refine ⟨fun e' he' entry hentry => ?_, h.caches.statements, fun a ha e' he' config hc hconfig
      hcurrent => ?_⟩
    · rcases Dict.lookup_insert_eq_some.mp hentry with ⟨rfl, -⟩ | ⟨-, hentry⟩
      · exact absurd he' hout
      · exact h.caches.configs e' he' entry hentry
    · exact (AList.mem_insert _).mpr (Or.inr (h.caches.known a ha e' he' config hc hconfig hcurrent))
  tops := h.tops
  messages e' hmet' hout' entry hentry := by
    rcases Dict.lookup_insert_eq_some.mp hentry with ⟨rfl, rfl⟩ | ⟨-, hentry⟩
    · rfl
    · exact h.messages e' hmet' hout' entry hentry
  held e' hmet' hin k hk := by
    rcases hin with hin | hin
    · exact h.held e' hmet' (Or.inl hin) k hk
    · rcases (AList.mem_insert _).mp hin with rfl | hin
      · exact hheld k hk
      · exact h.held e' hmet' (Or.inr hin) k hk
  met x hx := by
    rcases hx with hx | rfl
    · exact h.met x hx
    · exact hmet
  cached x hx := by
    refine (AList.mem_insert _).mpr ?_
    rcases hx with hx | rfl
    · exact Or.inr (h.cached x hx)
    · exact Or.inl rfl

/-- The statement about an entity that the client is told. -/
theorem exists_requestEntityStatement (hC : Collectible env C Met published) {sup e : EntityId}
    (hsup : A sup) (htells : Tells env client published sup e) {t : Traced Jar Key}
    (ht : Acquainted env C known Met published A t.federation) :
    ∃ es jwks n reads, requestEntityStatement env client sup e t =
        .ok (.parsed es) (t.later n reads) ∧
      es.sub = e ∧ es.jwks = some jwks ∧ ∀ k ∈ (published e).keys, k ∈ jwks := by
  obtain ⟨metadata, fe, location, es, jwks, hmetadata, hfe, hlocation, hsome, hsub, hjwks, hkeys,
    hanswer⟩ := htells.statement
  obtain ⟨entry, n, reads, hpayload, hused⟩ := exists_usedConfig hC hsup ht
  have hmetadataOf : metadataOf entry.payload = .ok metadata := by
    rw [hpayload, metadataOf, hmetadata]
  have hheld : ∀ k ∈ (published sup).keys, k ∈ keysOf t.federation.keyjar sup :=
    ht.held sup (ht.met sup hsup) (Or.inr (ht.cached sup hsup))
  have htruthy : (!(Json.str location).truthy) = false := by simpa [Json.truthy] using hsome
  refine ⟨es, jwks, n + 1, reads, ?_, hsub, hjwks, hkeys⟩
  unfold requestEntityStatement
  rw [bind_of_ok hused, hmetadataOf, bind_of_ok (lift_ok _ _), item_eq_ok.mpr hfe,
    bind_of_ok (lift_ok _ _), item_eq_ok.mpr hlocation, bind_of_ok (lift_ok _ _), htruthy]
  have hanswer' := hanswer (t.later n reads).federation.collector.asked
    (keysOf (t.later n reads).federation.keyjar) hheld
  simp only [Bool.false_eq_true, if_false]
  rw [serviceRequest_apply, hanswer']
  rfl

/-- The configuration that `trawl` looks at, and afterwards it is in the cache. -/
theorem trawlConfiguration_of_acquainted [LawfulKeyStore Jar]
    (hC : Collectible env C Met published) {sup e : EntityId} (hasked : A sup ∨ A e)
    (hmet : Met e) (hcollected : e ∈ C → A e)
    (htells : ¬ A e → Tells env client published sup e) {t : Traced Jar Key}
    (ht : Acquainted env C known Met published A t.federation) :
    ∃ t', trawlConfiguration env client sup e t = .ok (published e) t' ∧
      Acquainted env C known Met published (fun x => A x ∨ x = e) t'.federation := by
  unfold trawlConfiguration
  rw [bind_of_ok (get_apply t)]
  by_cases hin : e ∈ t.federation.collector.configCache
  · -- kept from earlier
    have ht' : Acquainted env C known Met published (fun x => A x ∨ x = e) t.federation := by
      refine ⟨ht.caches, ht.tops, ht.messages, ht.held, fun x hx => ?_, fun x hx => ?_⟩
      · rcases hx with hx | rfl
        · exact ht.met x hx
        · exact hmet
      · rcases hx with hx | rfl
        · exact ht.cached x hx
        · exact hin
    obtain ⟨entry, n, reads, hpayload, hused⟩ := exists_usedConfig hC (Or.inr rfl) ht'
    rw [if_pos hin, bind_of_ok hused, hpayload]
    exact ⟨_, rfl, ht'.asked n⟩
  · rw [if_neg hin]
    have hout : e ∉ C := fun hC' => hin (ht.cached e (hcollected hC'))
    have hnew : ¬ A e := fun he => hin (ht.cached e he)
    have hsup : A sup := hasked.resolve_right hnew
    obtain ⟨es, jwks, n, reads, hstatement, hsub, hjwks, hkeys⟩ :=
      exists_requestEntityStatement hC hsup (htells hnew) ht
    obtain ⟨url, hurl, hanswer⟩ := (htells hnew).configuration
    -- the keys are learnt before the configuration is asked for
    have hlearnt := (ht.asked n).addKb hC.toWellKept hout jwks
    have hheld : ∀ k ∈ (published e).keys,
        k ∈ keysOf (KeyStore.addKb t.federation.keyjar e jwks) e :=
      fun k hk => mem_keysOf_addKb.mpr (Or.inr ⟨rfl, hkeys k hk⟩)
    let t₁ : Traced Jar Key := ⟨{ (t.later n reads).federation with
      keyjar := KeyStore.addKb t.federation.keyjar e jwks }, reads⟩
    have hadd : inFederation (inKeyjar
        (modify fun keyjar => KeyStore.addKb keyjar es.sub jwks)) (t.later n reads) =
          .ok ⟨⟩ t₁ := by
      rw [hsub]
      rfl
    have hresponse : serviceRequest env client.entityConfiguration e url t₁ =
        .ok (.parsed (published e)) (t₁.later (n + 1) reads) := by
      rw [serviceRequest_apply, hanswer _ _ hheld]
      rfl
    have hconfiguration : requestEntityConfiguration env client e t₁ =
        .ok (.parsed (published e)) ⟨{ (t₁.later (n + 1) reads).federation with
          collector := { (t₁.later (n + 1) reads).federation.collector with
            configCache := t.federation.collector.configCache.insert e
              (.message (published e)) } }, reads⟩ := by
      unfold requestEntityConfiguration
      rw [hurl, bind_of_ok (lift_ok _ _), bind_of_ok hresponse]
      simp only [(htells hnew).named]
      rfl
    rw [bind_of_ok hstatement]
    simp only [hjwks]
    rw [bind_of_ok hadd, bind_of_ok hconfiguration]
    exact ⟨_, rfl, (hlearnt.asked (n + 1)).told hout hmet hheld⟩

omit [DecidableEq Key] in
/-- Where neither is in the cache there is no configuration to ask at. -/
theorem trawlConfiguration_of_unknown {sup e : EntityId} {t : Traced Jar Key}
    (hsup : sup ∉ t.federation.collector.configCache)
    (he : e ∉ t.federation.collector.configCache) :
    outcome (trawlConfiguration env client sup e t) = .error .typeError := by
  have hread : inFederation (inCollector (configCacheItem env sup)) t = .ok none t := by
    unfold inFederation inCollector zoom configCacheItem
    rw [bind_of_ok (get_apply _), AList.lookup_eq_none.mpr hsup]
    rfl
  unfold trawlConfiguration requestEntityStatement usedConfig
  rw [bind_of_ok (get_apply t), if_neg he]
  simp only [bind_assoc]
  rw [bind_of_ok hread]
  rfl

end Configurations

end Fedservice.Entity
