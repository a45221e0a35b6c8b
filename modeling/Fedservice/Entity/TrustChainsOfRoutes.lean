/-
  Fedservice.Entity.TrustChainsOfRoutes

  What a federation entity finds in a federation that is well kept and in which
  nobody is an authority above itself: for each route along the authority hints, up
  to an entity whose keys it holds, one trust chain.  The caches, the keys that were
  learnt and the chains that were kept on the way to other answers make no difference.
-/

import Fedservice.Entity.Function.RouteVerification
import Fedservice.Entity.TrustChainExpiry

namespace Fedservice.Entity

open Fedservice.Lib Fedservice.Py Fedservice.EntityStatement Fedservice.Crypto
  Fedservice.Entity.Function Relation

variable {Jar Key : Type} [KeyStore Jar Key] [DecidableEq Key]

/-! ## What follows from what is published -/

/-- The trust chains of the routes that are accepted, with the policies applied. -/
def trustChainsAlong (ho : HashOrder) (known : EntityId → Bool) (env : CollectorEnv Key)
    (e : EntityId) (config : SelfSigned Key) (routes : List (List EntityId)) :
    Except Exc (List (TrustChain Key)) := do
  let accepted ← keepEach (accepts known env e config) routes
  applyPolicies ho (accepted.map (trustChainAlong env e config))

/-- What there is to be found for an entity: the chains of its tree of superiors. -/
def trustChainsOf (ho : HashOrder) (known : EntityId → Bool) (env : CollectorEnv Key)
    (e : EntityId) : Except Exc (List (TrustChain Key)) := do
  let config ← configuration env e
  let tree ← superiors env "" env.recursionLimit e (some config.payload)
  trustChainsAlong ho known env e config tree.routes

/-- What is found for an entity is what there is along its routes, each taken once. -/
def FollowsRoutes (ho : HashOrder) (known : EntityId → Bool) (env : CollectorEnv Key)
    (e : EntityId) (found : Except Exc (List (TrustChain Key))) : Prop :=
  ∃ config routes, configuration env e = .ok config ∧ routes.Nodup ∧
    (∀ route, route ∈ routes ↔ Route (Lists env "") e route) ∧
    found = trustChainsAlong ho known env e config routes

/-- What a call hands out of what is found. -/
def TrustCall.handsOut (found : Except Exc (List (TrustChain Key))) :
    TrustCall → Except Exc (HandedOut Key)
  | .getTrustChains _ => do return .trustChains (← found)
  | .getVerifiedMetadata _ => do return .metadata ((← found).head?.map (·.metadata))

/-! ## Collecting and verifying -/

section Collecting

variable {ho : HashOrder} {env : CollectorEnv Key} {entities : Finset EntityId}
  {known : EntityId → Bool} {stopAt : EntityId}

omit [KeyStore Jar Key] in
/-- The tree of superiors of an entity that is not above itself: there are enough levels for
    it if there are as many as entities. -/
theorem exists_superiors (h : Answering env entities) (hdeep : entities.card ≤ env.recursionLimit)
    {e : EntityId} (he : e ∈ entities) (hcycle : NoCycleFrom (Lists env stopAt) e)
    {config : SelfSigned Key} (hconfig : configuration env e = .ok config) :
    ∃ tree, superiors env stopAt env.recursionLimit e (some config.payload) = .ok tree := by
  have hbounded := h.boundedDepth stopAt
  have hcycle' : NoCycleFrom (Refers env stopAt) e := hcycle.mono fun _ _ hrefers => hrefers.1
  obtain ⟨config', tree, hconfig', htree⟩ := hbounded.mono hdeep he
    (hbounded.succeeds_card hcycle' he fun _ _ => trivial)
  obtain rfl := Except.ok.inj (hconfig.symm.trans hconfig')
  exact ⟨tree, htree⟩

omit [KeyStore Jar Key] in
/-- The chains that are collected, from caches that hold what is published. -/
theorem yields_collectTrustChains (h : Answering env entities) {e : EntityId} (he : e ∈ entities)
    {config : SelfSigned Key} (hconfig : configuration env e = .ok config)
    {tree : Function.Tree Key}
    (htree : superiors env stopAt env.recursionLimit e (some config.payload) = .ok tree) :
    Yields (Reflects env entities) (collectTrustChains env e (.text "") stopAt)
      (.ok (tree2chains tree, some config)) := by
  have hcollected : collected env stopAt e = .ok (some (tree, config)) := by
    rw [collected, leaf_of_configuration hconfig, except_ok_bind]
    simp only [htree, except_ok_bind]
    rfl
  have hcollect : Yields (Reflects env entities) (collectFor env e (.text "") stopAt [])
      (.ok (some (tree, config))) := by
    have hcall := h.toSteady.call he [] stopAt
    rw [hcollected] at hcall
    exact hcall
  unfold collectTrustChains
  refine hcollect.bind_ok ?_
  by_cases hempty : tree.isEmpty = true
  · have hnone : tree2chains tree = [] := by
      cases tree with
      | empty => rfl
      | _ => exact absurd hempty (by simp [Tree.isEmpty])
    simp only [if_pos hempty, hnone]
    exact yields_pure _
  · simp only [if_neg hempty]
    exact yields_pure _

variable [LawfulKeyStore Jar]

/-- The chains that are verified, one after the other in the same key jar. -/
theorem yields_verifyTrustChains (h : WellKept env entities) {e : EntityId} (he : e ∈ entities)
    (hcycle : NoCycleFrom (Lists env "") e) {config : SelfSigned Key}
    (hconfig : configuration env e = .ok config) {routes : List (List EntityId)}
    (hroutes : ∀ route ∈ routes, Route (Lists env "") e route) :
    Yields (fun jar : Jar => KnowsTops env entities known jar)
      (verifyTrustChains [.jws config.jws]
        (routes.map fun route => (saidAlong env e route).map .jws))
      (do
        let accepted ← keepEach (accepts known env e config) routes
        return accepted.map (trustChainAlong env e config)) := by
  induction routes with
  | nil => exact yields_pure []
  | cons route routes ih =>
      have hhere : Yields (fun jar : Jar => KnowsTops env entities known jar)
          (TrustChainVerifier.call ((saidAlong env e route).map .jws ++ [.jws config.jws])) _ :=
        h.call he hcycle hconfig (hroutes route (List.mem_cons_self ..))
      have hrest := ih fun r hr => hroutes r (List.mem_cons_of_mem route hr)
      have hboth := hhere.bind fun trustChain _ =>
        hrest.bind fun res _ => yields_pure (trustChain.toList ++ res)
      -- the verdict on the first route and those on the others are the verdicts on all
      cases haccept : accepts known env e config route with
      | error err =>
          rw [haccept] at hboth
          rw [keepEach, haccept]
          exact hboth
      | ok accepted =>
          rw [haccept] at hboth
          rw [keepEach, haccept]
          cases hkept : keepEach (accepts known env e config) routes with
          | error err =>
              rw [hkept] at hboth
              exact hboth
          | ok kept =>
              rw [hkept] at hboth
              cases accepted <;> exact hboth

/-- The caches hold what is published, the key jar knows the same tops as in the beginning, and
    the chains that are kept are those that there are. -/
structure Settled (ho : HashOrder) (known : EntityId → Bool) (env : CollectorEnv Key)
    (entities : Finset EntityId) (st : FederationState Jar Key) : Prop where
  collector : Reflects env entities st.collector
  keyjar : KnowsTops env entities known st.keyjar
  kept : ∀ e ∈ entities, ∀ tcs, st.trustChain.lookup e = some tcs →
    trustChainsOf ho known env e = .ok tcs

omit [LawfulKeyStore Jar] in
theorem settled_of_start {st : FederationState Jar Key}
    (hcaches : Reflects env entities st.collector) (hstore : st.trustChain = ∅)
    (hjar : KnowsTops env entities known st.keyjar) : Settled ho known env entities st := by
  refine ⟨hcaches, hjar, fun e _ tcs hlookup => ?_⟩
  rw [hstore] at hlookup
  exact absurd hlookup (by simp)

omit [KeyStore Jar Key] [LawfulKeyStore Jar] in
/-- What there is to be found is what there is along the routes. -/
theorem followsRoutes_trustChainsOf (h : Answering env entities)
    (hdeep : entities.card ≤ env.recursionLimit) {e : EntityId} (he : e ∈ entities)
    (hpublishes : ∃ config, configuration env e = .ok config)
    (hcycle : NoCycleFrom (Lists env "") e) :
    FollowsRoutes ho known env e (trustChainsOf ho known env e) := by
  obtain ⟨config, hconfig⟩ := hpublishes
  obtain ⟨tree, htree⟩ := exists_superiors h hdeep he hcycle hconfig
  refine ⟨config, tree.routes, hconfig, nodup_routes h he hcycle hconfig htree,
    fun route => mem_routes_iff h he hcycle hconfig htree, ?_⟩
  rw [trustChainsOf, hconfig, except_ok_bind, htree, except_ok_bind]

/-- Verifying what was collected and applying the policies, for the routes of the tree. -/
theorem yields_trustChainsAlong (h : WellKept env entities) {e : EntityId} (he : e ∈ entities)
    (hcycle : NoCycleFrom (Lists env "") e) {config : SelfSigned Key}
    (hconfig : configuration env e = .ok config) {routes : List (List EntityId)}
    (hroutes : ∀ route ∈ routes, Route (Lists env "") e route)
    {Inv : FederationState Jar Key → Prop}
    (hjar : ∀ st, Inv st → KnowsTops env entities known st.keyjar)
    (hput : ∀ jar st, KnowsTops env entities known jar → Inv st → Inv { st with keyjar := jar }) :
    Yields Inv
      (do
        let trustChains ← inKeyjar (verifyTrustChains [.jws config.jws]
          (routes.map fun route => (saidAlong env e route).map .jws))
        lift (applyPolicies ho trustChains))
      (trustChainsAlong ho known env e config routes) := by
  have hverify : Yields Inv (inKeyjar (verifyTrustChains [.jws config.jws]
      (routes.map fun route => (saidAlong env e route).map .jws))) (do
        let accepted ← keepEach (accepts known env e config) routes
        return accepted.map (trustChainAlong env e config)) :=
    (yields_verifyTrustChains h he hcycle hconfig hroutes).zoom hjar hput
  have hspec : trustChainsAlong ho known env e config routes = (do
      let accepted ← keepEach (accepts known env e config) routes
      return accepted.map (trustChainAlong env e config)) >>= applyPolicies ho := by
    unfold trustChainsAlong
    cases keepEach (accepts known env e config) routes <;> rfl
  rw [hspec]
  exact hverify.bind fun trustChains _ => yields_lift (applyPolicies ho trustChains)

/-- `get_verified_trust_chains`, in states whose caches hold what is published and whose key jar
    knows the tops. -/
theorem yields_getVerifiedTrustChains_within (h : WellKept env entities)
    (hdeep : entities.card ≤ env.recursionLimit) {e : EntityId} (he : e ∈ entities)
    (hcycle : NoCycleFrom (Lists env "") e) {Inv : FederationState Jar Key → Prop}
    (hcaches : ∀ st, Inv st → Reflects env entities st.collector)
    (hjar : ∀ st, Inv st → KnowsTops env entities known st.keyjar)
    (hcollected : ∀ c st, Reflects env entities c → Inv st → Inv { st with collector := c })
    (hlearnt : ∀ jar st, KnowsTops env entities known jar → Inv st →
      Inv { st with keyjar := jar }) :
    Yields Inv (getVerifiedTrustChains ho env e) (trustChainsOf ho known env e) := by
  obtain ⟨config, hconfig⟩ := h.publishes e he
  obtain ⟨tree, htree⟩ := exists_superiors h.toAnswering hdeep he hcycle hconfig
  have hroutes : ∀ route ∈ tree.routes, Route (Lists env "") e route := fun route hroute =>
    (mem_routes_iff h.toAnswering he hcycle hconfig htree).mp hroute
  have hchains := tree2chains_eq_map_routes h.toAnswering he hcycle hconfig htree
  have hfound : trustChainsOf ho known env e =
      trustChainsAlong ho known env e config tree.routes := by
    rw [trustChainsOf, hconfig, except_ok_bind, htree, except_ok_bind]
  have hcollect : Yields Inv (inCollector (collectTrustChains env e))
      (.ok (tree2chains tree, some config)) :=
    (yields_collectTrustChains h.toAnswering he hconfig htree).zoom hcaches hcollected
  rw [hfound]
  unfold getVerifiedTrustChains
  refine hcollect.bind_ok ?_
  by_cases hnone : (tree2chains tree).length = 0
  · -- nobody above it: no route
    have hempty : tree.routes = [] := by
      rw [hchains, List.length_map] at hnone
      exact List.length_eq_zero_iff.mp hnone
    simp only [if_pos hnone, hempty]
    exact yields_pure []
  · have hverify : Yields Inv _ (trustChainsAlong ho known env e config tree.routes) :=
      yields_trustChainsAlong h he hcycle hconfig hroutes hjar hlearnt
    rw [← hchains] at hverify
    simp only [if_neg hnone]
    exact hverify

/-- `get_verified_trust_chains`, whatever was asked before. -/
theorem yields_getVerifiedTrustChains (h : WellKept env entities)
    (hdeep : entities.card ≤ env.recursionLimit) {e : EntityId} (he : e ∈ entities)
    (hcycle : NoCycleFrom (Lists env "") e) :
    Yields (fun st : FederationState Jar Key => Settled ho known env entities st)
      (getVerifiedTrustChains ho env e) (trustChainsOf ho known env e) :=
  yields_getVerifiedTrustChains_within h hdeep he hcycle (fun _ hst => hst.collector)
    (fun _ hst => hst.keyjar) (fun _ _ hc hst => ⟨hc, hst.keyjar, hst.kept⟩)
    fun _ _ hj hst => ⟨hst.collector, hj, hst.kept⟩

/-- `get_trust_chains`: what is kept, or what is found and then kept. -/
theorem yields_getTrustChains (h : WellKept env entities)
    (hdeep : entities.card ≤ env.recursionLimit) {e : EntityId} (he : e ∈ entities)
    (hcycle : NoCycleFrom (Lists env "") e) :
    Yields (fun st : FederationState Jar Key => Settled ho known env entities st)
      (getTrustChains ho env e) (trustChainsOf ho known env e) := by
  intro st hst
  rw [getTrustChains_apply]
  cases hlookup : st.trustChain.lookup e with
  | some kept => exact ⟨(hst.kept e he kept hlookup).symm, hst⟩
  | none =>
      obtain ⟨hout, hleft⟩ := yields_getVerifiedTrustChains h hdeep he hcycle st hst
      cases hverified : getVerifiedTrustChains ho env e st with
      | error err st₁ =>
          rw [hverified] at hout hleft
          exact ⟨hout, hleft⟩
      | ok tcs st₁ =>
          rw [hverified] at hout hleft
          refine ⟨hout, ?_⟩
          rw [outcome_ok] at hout
          simp only [finalState_ok] at hleft ⊢
          by_cases hempty : tcs.isEmpty = true
          · rw [if_pos hempty]
            exact hleft
          · rw [if_neg hempty]
            refine ⟨hleft.collector, hleft.keyjar, fun e' he' tcs' hlookup' => ?_⟩
            rcases Dict.lookup_insert_eq_some.mp hlookup' with ⟨rfl, rfl⟩ | ⟨-, hbefore⟩
            · exact hout.symm
            · exact hleft.kept e' he' tcs' hbefore

/-- Step: a call hands out what there is to be found. -/
theorem yields_call (h : WellKept env entities) (hdeep : entities.card ≤ env.recursionLimit)
    {op : TrustCall} (he : op.entityId ∈ entities)
    (hcycle : NoCycleFrom (Lists env "") op.entityId) :
    Yields (fun st : FederationState Jar Key => Settled ho known env entities st)
      (op.call ho env) (op.handsOut (trustChainsOf ho known env op.entityId)) := by
  have hget : Yields (fun st : FederationState Jar Key => Settled ho known env entities st) _ _ :=
    yields_getTrustChains h hdeep he hcycle
  cases op with
  | getTrustChains e => exact hget.bind fun tcs _ => yields_pure _
  | getVerifiedMetadata e =>
      rw [TrustCall.call, getVerifiedMetadata_eq, bind_assoc]
      exact hget.bind fun tcs _ => yields_pure _

/-- Run: in whatever order trust chains and metadata of the entities are asked for, every
    answer follows from what is published. -/
theorem answers_follow_routes (h : WellKept env entities)
    (hdeep : entities.card ≤ env.recursionLimit)
    (hcycle : ∀ e ∈ entities, NoCycleFrom (Lists env "") e) {st : FederationState Jar Key}
    (hcaches : Reflects env entities st.collector) (hstore : st.trustChain = ∅)
    (hjar : KnowsTops env entities (KeyStore.contains st.keyjar) st.keyjar)
    {ops : List TrustCall} (hops : ∀ op ∈ ops, op.entityId ∈ entities) :
    RunMeets (TrustCall.call ho env)
      (fun st' op => ∃ found, FollowsRoutes ho (KeyStore.contains st.keyjar) env op.entityId found ∧
        outcome (op.call ho env st') = op.handsOut found) st ops := by
  refine (run_invariant_of_mem
    (fun st' => Settled ho (KeyStore.contains st.keyjar) env entities st')
    (fun op hop st' hst' => ?_) (settled_of_start hcaches hstore hjar)).2
  have he := hops op hop
  obtain ⟨hout, hleft⟩ := yields_call h hdeep he (hcycle _ he) st' hst'
  exact ⟨hleft, _, followsRoutes_trustChainsOf h.toAnswering hdeep he (h.publishes _ he)
    (hcycle _ he), hout⟩

end Collecting

/-! ## Two routes to a trust anchor -/

theorem speaksOf_twoWaysUp {e a : EntityId} {s : SignedStatement Nat}
    (hpair : (e, a) ∈ twoWaysUpHints)
    (hs : said (onPages ["https://ta.org"] twoWaysUp) e a = some s) :
    SpeaksOf (onPages ["https://ta.org"] twoWaysUp) a e s := by
  simp only [twoWaysUpHints, List.mem_cons, List.not_mem_nil, or_false, Prod.mk.injEq] at hpair
  rcases hpair with ⟨rfl, rfl⟩ | ⟨rfl, rfl⟩ | ⟨rfl, rfl⟩ <;> obtain rfl := Option.some.inj hs <;>
    refine ⟨by decide, by decide, fun config hconfig => ?_, fun config hconfig => ?_⟩ <;>
    obtain rfl := Except.ok.inj hconfig <;> decide

theorem wellKept_twoWaysUp :
    WellKept (onPages ["https://ta.org"] twoWaysUp) twoWaysUpEntities where
  toAnswering := answering_twoWaysUp
  named e he config hconfig := by
    simp only [twoWaysUpEntities, Finset.mem_insert, Finset.mem_singleton] at he
    rcases he with rfl | rfl | rfl <;> obtain rfl := Except.ok.inj hconfig <;> decide
  speaks e he a hlists s hs := by
    obtain ⟨config, hconfig, -, ha⟩ := hlists
    exact speaksOf_twoWaysUp (mem_twoWaysUpHints he hconfig ha) hs

/-- Of this federation only the trust anchor is known. -/
theorem knowsTops_twoWaysUp :
    KnowsTops (onPages ["https://ta.org"] twoWaysUp) twoWaysUpEntities
      (KeyStore.contains (trustsTa).keyjar) (trustsTa).keyjar := by
  refine fun t ht _ => ⟨rfl, fun hknown config hconfig k hk => ?_⟩
  simp only [twoWaysUpEntities, Finset.mem_insert, Finset.mem_singleton] at ht
  rcases ht with rfl | rfl | rfl
  · exact absurd hknown (by decide)
  · exact absurd hknown (by decide)
  · obtain rfl := Except.ok.inj hconfig
    obtain rfl := List.mem_singleton.mp hk
    decide

theorem answers_follow_routes_twoWaysUp :
    RunMeets (TrustCall.call .insertion (onPages ["https://ta.org"] twoWaysUp))
      (fun st' op => ∃ found, FollowsRoutes .insertion (KeyStore.contains (trustsTa).keyjar)
          (onPages ["https://ta.org"] twoWaysUp) op.entityId found ∧
        outcome (op.call .insertion (onPages ["https://ta.org"] twoWaysUp) st') =
          op.handsOut found) trustsTa
      [.getVerifiedMetadata "https://op.org", .getTrustChains "https://im.org",
        .getTrustChains "https://op.org"] :=
  answers_follow_routes wellKept_twoWaysUp (by decide) (fun _ he => noCycleFrom_twoWaysUp he)
    reflects_empty rfl knowsTops_twoWaysUp (by decide)

/-- Both routes are followed, the longer one first. -/
example : (outcome (getTrustChains .insertion (onPages ["https://ta.org"] twoWaysUp)
    "https://op.org" trustsTa)).toOption.map (·.map (·.issPath)) =
      some [["https://op.org", "https://im.org", "https://ta.org"],
        ["https://op.org", "https://ta.org"]] := by
  decide +kernel

end Fedservice.Entity
