/-
  Fedservice.Entity.OwnConfigurations

  Whose entity configuration a trust chain ends with.  Over any run of a federation
  entity, a configuration is filed under an ID only if it was served for that ID, so the
  trust chains that are collected for an ID end with what its own server has answered;
  that the answer is about the ID is not checked.
-/

import Fedservice.Entity.FreshnessTests
import Fedservice.Entity.RootedTrust

namespace Fedservice.Entity

open Fedservice.Lib Fedservice.Py Fedservice.EntityStatement Fedservice.Crypto
  Fedservice.Entity.Function

variable {Jar Key : Type} [KeyStore Jar Key] [DecidableEq Key] {ho : HashOrder}
  {env : CollectorEnv Key}

/-! ## What looking trust chains up does to the caches -/

section Keeping

variable {Ids Subjects : EntityId → Prop} {Inv : CollectorState Key → Prop} {e : EntityId}

/-- Verifying chains and applying the policies to them does nothing to them. -/
theorem ensures_verifiedChains_caches (entityStatements : List (Token Key))
    (chains : List (List (Token Key))) :
    Ensures (fun st : FederationState Jar Key => Inv st.collector)
      (inKeyjar (verifyTrustChains entityStatements chains) >>= fun tcs =>
        lift (applyPolicies ho tcs)) (fun _ => True) := by
  have hverify : Ensures (fun st : FederationState Jar Key => Inv st.collector)
      (inKeyjar (verifyTrustChains entityStatements chains)) (fun _ => True) := by
    refine ensures_zoom ?_ _
    exact fun _ _ hst => hst
  exact hverify.bind fun _ _ => ensures_lift fun _ _ => trivial

theorem ensures_getVerifiedTrustChains_caches (h : CacheInvariant env Ids Subjects Inv)
    (he : Ids e) :
    Ensures (fun st : FederationState Jar Key => Inv st.collector)
      (getVerifiedTrustChains ho env e) (fun _ => True) := by
  have hcollect : Ensures (fun st : FederationState Jar Key => Inv st.collector)
      (inCollector (collectTrustChains env e)) (fun _ => True) :=
    (h.collectTrustChains he).zoom fun _ _ => rfl
  refine hcollect.bind fun p _ => ?_
  obtain ⟨chains, leafEc⟩ := p
  by_cases hlen : chains.length = 0
  · simp only [if_pos hlen]
    exact ensures_pure trivial
  · simp only [if_neg hlen]
    exact ensures_verifiedChains_caches _ _

theorem ensures_getTrustChains_caches (h : CacheInvariant env Ids Subjects Inv) (he : Ids e) :
    Ensures (fun st : FederationState Jar Key => Inv st.collector) (getTrustChains ho env e)
      (fun _ => True) := by
  refine ensures_get.bind fun st _ => ?_
  cases st.trustChain.lookup e with
  | some kept => exact ensures_pure trivial
  | none =>
      refine (ensures_getVerifiedTrustChains_caches h he).bind fun made _ => ?_
      by_cases hempty : made.isEmpty = true
      · rw [if_pos hempty]
        exact ensures_pure trivial
      · rw [if_neg hempty]
        refine Ensures.bind (ensures_modify ?_) fun _ (_ : True) => ensures_pure trivial
        exact fun _ hst => hst

end Keeping

/-! ## Configurations of their own -/

/-- What is filed under an ID was served for that ID. -/
def OwnConfigurations (env : CollectorEnv Key) (st : CollectorState Key) : Prop :=
  ∀ e config, st.configCache.lookup e = some (.dict config) → ∃ n, Served env n e config

/-- The trust chain ends with an entity configuration that was served for the ID. -/
def EndsWithServed (env : CollectorEnv Key) (e : EntityId) (tc : TrustChain Key) : Prop :=
  ∃ n config, Served env n e config ∧ tc.chain.getLast? = some (.jws config.jws)

theorem cacheInvariant_ownConfigurations :
    CacheInvariant env (fun _ => True) (fun _ => True) (OwnConfigurations env) where
  asked _ _ _ hst := hst
  store st₁ _ e config _ _ hserved _ hst e' config' hlookup := by
    rcases Dict.lookup_insert_eq_some.mp hlookup with ⟨rfl, hsame⟩ | ⟨-, hbefore⟩
    · rw [CachedConfig.dict.inj hsame]
      exact ⟨st₁.asked, hserved⟩
    · exact hst e' config' hbefore
  evict _ _ _ _ _ _ hst e' config' hlookup :=
    hst e' config' (Dict.lookup_erase_eq_some.mp hlookup).2
  remember _ _ _ _ _ _ _ _ _ _ hst := hst
  forget _ _ _ _ _ hst := hst
  listed _ _ _ _ _ _ _ _ := trivial
  subject _ _ := trivial

/-- The configuration that a leaf is looked up with was served for it. -/
theorem OwnConfigurations.served {st st' : CollectorState Key} (h : OwnConfigurations env st)
    {e : EntityId} {config : SelfSigned Key}
    (hleaf : leafConfiguration env e st = .ok (some config) st') : ∃ n, Served env n e config := by
  have hkept : Ensures (OwnConfigurations env) (leafConfiguration env e) _ :=
    cacheInvariant_ownConfigurations.leafConfiguration trivial
  exact hkept.of_ok h hleaf e config (lookup_of_leafConfiguration hleaf)

end Fedservice.Entity
