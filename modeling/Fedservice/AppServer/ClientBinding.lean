/-
  Fedservice.AppServer.ClientBinding

  Whose metadata and keys automatic registration puts under a client ID.  The
  trust chain that is used is the first one verified, its leaf the statement the
  client hands in or the one its ID leads to, and nothing compares the subject
  of that statement with the client ID.
-/

import Fedservice.AppServer.AutomaticRegistration
import Fedservice.Entity.VerifiedTrustChains

namespace Fedservice.AppServer

open Fedservice.Lib Fedservice.Py Fedservice.EntityStatement Fedservice.Crypto Fedservice.Entity
  Fedservice.Entity.Function

variable {Jar Key : Type} [KeyStore Jar Key] [DecidableEq Key] {env : ServerEnv Key}

/-! ## The three endpoints -/

/-- The implementations of `do_automatic_registration`. -/
inductive EndpointKind where
  | oidcAuthorization
  | oauth2Authorization
  | pushedAuthorization
deriving DecidableEq

/-- The endpoint of a kind. -/
def EndpointKind.endpoint (env : ServerEnv Key) : EndpointKind → Endpoint Jar Key
  | .oidcAuthorization => AppServer.oidcAuthorization env
  | .oauth2Authorization => AppServer.oauth2Authorization env
  | .pushedAuthorization => AppServer.pushedAuthorization env

/-- The OAuth2 endpoint goes its own way to the trust chains, and gets the same. -/
theorem oauth2TrustChainsFor_eq (id : EntityId) (provided : List (Token Key)) :
    (oauth2TrustChainsFor env id provided : EStateM Exc (FederationState Jar Key) _) =
      trustChainsFor env id provided := by
  funext fe
  unfold oauth2TrustChainsFor trustChainsFor
  by_cases hprovided : provided ≠ []
  · simp only [if_pos hprovided]
  · simp only [if_neg hprovided, getVerifiedTrustChains]
    cases hcollect : (inCollector (collectTrustChains env.collector id) fe :
        EStateM.Result _ (FederationState Jar Key) _) with
    | error e fe' => rw [bind_of_error hcollect, bind_of_error hcollect]
    | ok p fe' =>
        obtain ⟨chains, leafEc⟩ := p
        rw [bind_of_ok hcollect, bind_of_ok hcollect]
        by_cases hlen : chains.length = 0
        · -- no chains, and nothing to verify or to process
          obtain rfl := List.eq_nil_of_length_eq_zero hlen
          rfl
        · simp only [if_neg hlen]

theorem endpoint_trustChains_eq (kind : EndpointKind) (id : EntityId)
    (provided : List (Token Key)) :
    (kind.endpoint env).trustChains id provided =
      (trustChainsFor env id provided : EStateM Exc (FederationState Jar Key) _) := by
  cases kind with
  | oidcAuthorization => rfl
  | oauth2Authorization => exact oauth2TrustChainsFor_eq id provided
  | pushedAuthorization => rfl

/-! ## The leaf of the chain that is used -/

/-- The statement a client is known by: the one it hands in first, or, where it
    hands in none, the entity configuration its ID leads to. -/
def clientStatement (env : ServerEnv Key) (fe : FederationState Jar Key) (id : EntityId)
    (provided : List (Token Key)) : Option (Statement Key) :=
  if provided ≠ [] then (payloads provided).head?
  else match leafConfiguration env.collector id fe.collector with
    | .ok (some config) _ => some config.payload
    | _ => none

omit [KeyStore Jar Key] [DecidableEq Key] in
theorem payloads_reverse (ts : List (Token Key)) : payloads ts.reverse = (payloads ts).reverse := by
  rw [payloads, payloads, List.filterMap_reverse, List.map_reverse]

/-- The one chain is the reversed list, so its last JWS is the first one sent. -/
theorem chain_of_provided {provided : List (Token Key)} {verified tcs : List (TrustChain Key)}
    {jar jar' : Jar} (hverify : verifyTrustChains [] [provided.reverse] jar = .ok verified jar')
    (hpolicy : applyPolicies env.ho verified = .ok tcs) :
    ∀ tc ∈ tcs, tc.chain = provided.reverse ∧ ∃ jar₁ : Jar, Trusted env.ho jar₁ tc := by
  intro tc htc
  obtain ⟨before, c, after, res, jar₁, hsplit, -, hchain, htrusted⟩ :=
    trustedFrom_of_mem hverify hpolicy tc htc
  have hc : provided.reverse = c := by
    cases before with
    | nil => exact (List.cons.inj hsplit).1
    | cons b before => simp at hsplit
  rw [List.append_nil, ← hc] at hchain
  exact ⟨hchain, jar₁, htrusted⟩

/-- The leaf of every chain is the subject of that statement. -/
theorem leafSubject_of_trustChainsFor {id : EntityId} {provided : List (Token Key)}
    {tcs : List (TrustChain Key)} {fe fe' : FederationState Jar Key}
    (h : trustChainsFor env id provided fe = .ok tcs fe') :
    ∀ tc ∈ tcs, leafSubject tc = (clientStatement env fe id provided).map (·.sub) := by
  intro tc htc
  unfold trustChainsFor at h
  unfold clientStatement
  by_cases hprovided : provided ≠ []
  · rw [if_pos hprovided] at h ⊢
    obtain ⟨verified, fe₁, hverify, hlift⟩ := bind_eq_ok.mp h
    obtain ⟨jar, hverified, -⟩ := inKeyjar_eq_ok.mp hverify
    obtain ⟨hchain, jar₁, htrusted⟩ := chain_of_provided hverified (lift_eq_ok.mp hlift).1 tc htc
    rw [htrusted.leaf, hchain, payloads_reverse, List.getLast?_reverse]
  · -- every collected chain ends with the entity configuration
    rw [if_neg hprovided] at h ⊢
    obtain ⟨c, config, c₁, jar, hchain, hleaf, htrusted⟩ := getVerifiedTrustChains_eq_ok h tc htc
    rw [leafSubject_of_chain htrusted hchain, hleaf]
    rfl

/-! ## Registering under an ID -/

omit [KeyStore Jar Key] [DecidableEq Key] in
/-- The keys imported under an ID. -/
def keysUnder (st : Server Jar Key) (id : EntityId) : List KeySource :=
  (st.keyImports.filter (fun entry => entry.1 = id)).map (·.2)

omit [KeyStore Jar Key] [DecidableEq Key] in
/-- Metadata or keys have been put under an ID. -/
def RegisteredUnder (id : EntityId) (st st' : Server Jar Key) : Prop :=
  st'.clients.lookup id ≠ st.clients.lookup id ∨ keysUnder st' id ≠ keysUnder st id

/-- The call of `do_automatic_registration` registers something under the
    client's ID. -/
def Registers (env : ServerEnv Key) (kind : EndpointKind) (st : Server Jar Key) (id : EntityId)
    (provided : List (Token Key)) : Prop :=
  RegisteredUnder id st
    (finalState (doAutomaticRegistration env (kind.endpoint env) id provided st))

/-- The subject of the leaf of the trust chain that is used is the client's ID. -/
def BoundToChain (env : ServerEnv Key) (kind : EndpointKind) (st : Server Jar Key)
    (id : EntityId) (provided : List (Token Key)) : Prop :=
  ∃ tc rest fe', (kind.endpoint env).trustChains id provided st.federation = .ok (tc :: rest) fe' ∧
    leafSubject tc = some id

omit [KeyStore Jar Key] [DecidableEq Key] in
theorem not_registeredUnder_federation {id : EntityId} {st : Server Jar Key}
    {fe : FederationState Jar Key} : ¬ RegisteredUnder id st { st with federation := fe } := by
  rintro (h | h)
  · exact h rfl
  · exact h rfl

/-- Nothing is registered without a trust chain. -/
theorem trustChain_of_registers {kind : EndpointKind} {st : Server Jar Key} {id : EntityId}
    {provided : List (Token Key)} (h : Registers env kind st id provided) :
    ∃ tc rest fe', (kind.endpoint env).trustChains id provided st.federation =
      .ok (tc :: rest) fe' := by
  unfold Registers doAutomaticRegistration at h
  cases hchains : (kind.endpoint env).trustChains id provided st.federation with
  | error e fe' =>
      -- only the federation entity has changed by then
      have hfed : inFederation ((kind.endpoint env).trustChains id provided) st =
          .error e { st with federation := fe' } := by
        simp only [inFederation, zoom, hchains]
      rw [bind_of_error hfed] at h
      exact absurd h not_registeredUnder_federation
  | ok tcs fe' =>
      have hfed : inFederation ((kind.endpoint env).trustChains id provided) st =
          .ok tcs { st with federation := fe' } :=
        inFederation_eq_ok.mpr ⟨fe', hchains, rfl⟩
      cases tcs with
      | nil =>
          -- `NoTrustedChains`
          rw [bind_of_ok hfed] at h
          exact absurd h not_registeredUnder_federation
      | cons tc rest => exact ⟨tc, rest, fe', rfl⟩

/-- Whichever the endpoint, the leaf of the chain it picks is the client's statement. -/
theorem leafSubject_of_endpoint {kind : EndpointKind} {id : EntityId}
    {provided : List (Token Key)} {tc : TrustChain Key} {rest : List (TrustChain Key)}
    {fe fe' : FederationState Jar Key}
    (h : (kind.endpoint env).trustChains id provided fe = .ok (tc :: rest) fe') :
    leafSubject tc = (clientStatement env fe id provided).map (·.sub) := by
  rw [endpoint_trustChains_eq] at h
  exact leafSubject_of_trustChainsFor h tc (List.mem_cons_self ..)

/-- What is registered under a client's ID comes from a chain whose leaf is that
    client exactly when the statement it is known by is about it. -/
theorem automatic_registration_bound_iff {kind : EndpointKind} {st : Server Jar Key}
    {id : EntityId} {provided : List (Token Key)} (h : Registers env kind st id provided) :
    BoundToChain env kind st id provided ↔
      (clientStatement env st.federation id provided).map (·.sub) = some id := by
  constructor
  · rintro ⟨tc, rest, fe', hchains, hsub⟩
    rw [← leafSubject_of_endpoint hchains, hsub]
  · intro hid
    obtain ⟨tc, rest, fe', hchains⟩ := trustChain_of_registers h
    exact ⟨tc, rest, fe', hchains, by rw [leafSubject_of_endpoint hchains, hid]⟩

/-! ## A client with its own chain, and another one's -/

/-- What a client says about itself. -/
def clientMetadata : Metadata := Dict.ofList [("jwks", .obj [("keys", .arr [.num 2])])]

/-- A trust chain of a client, the client's own statement first. -/
def clientChain : List (Token Nat) :=
  [.jws ⟨{ iss := "https://rp.org", sub := "https://rp.org", jwks := some [2],
           metadata := some (Dict.ofList
             [("openid_relying_party", clientMetadata), ("oauth_client", clientMetadata)]) }, 2⟩,
   .jws ⟨{ iss := "https://ta.org", sub := "https://rp.org", jwks := some [2] }, 1⟩]

/-- A server that nobody answers. -/
def lonelyEnv : ServerEnv Nat := serverEnvOn (fun _ => .connectionError)

/-- Under the client's own ID the chain puts the client's own keys. -/
theorem own_chain_bound :
    BoundToChain lonelyEnv .oidcAuthorization freshServer "https://rp.org" clientChain :=
  (automatic_registration_bound_iff (Or.inr (by decide))).mpr (by decide)

/-- The chain of one client, handed in under another client's ID, puts its keys
    under that ID, whichever endpoint is asked. -/
theorem chain_of_another_registered :
    ¬ ∃ kind : EndpointKind, ∀ (env : ServerEnv Nat) (st : Server (AssocJar Nat) Nat)
      (id : EntityId) (provided : List (Token Nat)),
      Registers env kind st id provided → BoundToChain env kind st id provided := by
  rintro ⟨kind, h⟩
  have hregisters : Registers lonelyEnv kind freshServer "https://victim.org" clientChain := by
    refine Or.inr ?_
    cases kind <;> decide
  -- the subject of the leaf is that of the statement handed in first
  obtain ⟨tc, rest, fe', hchains, hsub⟩ := h _ _ _ _ hregisters
  rw [leafSubject_of_endpoint hchains] at hsub
  exact absurd hsub (by decide)

end Fedservice.AppServer
