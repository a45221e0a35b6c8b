/-
  Fedservice.Entity.VerifiedTrustChains

  Where the trust chains that a federation entity works with come from: each was
  verified from a list of tokens, in the state of the key jar that the lists
  before it left, and has then been processed.  The list of a collected chain
  ends with the entity configuration of the leaf.
-/

import Fedservice.Entity.FederationEntity
import Fedservice.Entity.Function.KeyAdditions
import Fedservice.Entity.Function.PolicyApplication

namespace Fedservice.Entity

open Fedservice.Lib Fedservice.Py Fedservice.EntityStatement Fedservice.Crypto
  Fedservice.Entity.Function

variable {Jar Key : Type} [KeyStore Jar Key] [DecidableEq Key] {ho : HashOrder}
  {env : CollectorEnv Key}

/-! ## The statements behind a trust chain -/

omit [DecidableEq Key] in
/-- The payloads of the JWSs in a list of tokens. -/
def payloads (ts : List (Token Key)) : List (Statement Key) :=
  (ts.filterMap factory).map (·.payload)

omit [KeyStore Jar Key] [DecidableEq Key] in
/-- The subject of the statement at the end of a trust chain. -/
def leafSubject (tc : TrustChain Key) : Option EntityId :=
  tc.verifiedChain.getLast?.map (·.sub)

/-- What is known of a trust chain that was verified with the keys of `jar` and
    processed, in terms of the tokens it was made from. -/
structure Trusted (ho : HashOrder) (jar : Jar) (tc : TrustChain Key) : Prop where
  signed : SignedFromAbove jar (tc.chain.filterMap factory)
  restrictions : meetsRestrictions (payloads tc.chain) = .ok true
  superiors : tc.verifiedChain.dropLast = (payloads tc.chain).dropLast
  leaf : leafSubject tc = (payloads tc.chain).getLast?.map (·.sub)
  adjusted : 1 < (payloads tc.chain).length → ∀ entityType metadata,
    tc.metadata.item entityType = .ok (some metadata) →
      PolicyAdjusted ho (payloads tc.chain) entityType metadata

theorem trusted_of_call {ts : List (Token Key)} {tc₀ tc : TrustChain Key} {jar jar' : Jar}
    (hcall : TrustChainVerifier.call ts jar = .ok (some tc₀) jar')
    (hpolicy : TrustChainPolicy.call ho "" tc₀ = .ok () tc) :
    tc.chain = ts ∧ Trusted ho jar tc := by
  obtain ⟨hverified, -, hchain, -, -, hfresh⟩ := call_eq_some hcall
  -- the verifier's statements are those of the tokens, and the policies only touch
  -- the metadata of the last one
  have hprocessed := processed_of_call hfresh hpolicy
  have hts : tc.chain = ts := hprocessed.evidence.chain.trans hchain
  have hves : tc₀.verifiedChain = payloads tc.chain := by rw [hts]; exact hverified.payloads
  refine ⟨hts, ?_, ?_, ?_, ?_, ?_⟩
  · rw [hts]
    exact hverified.signed
  · rw [← hves]
    exact hverified.restrictions
  · rw [← hves]
    exact hprocessed.evidence.superiors
  · rw [← hves]
    exact hprocessed.evidence.leaf
  · rw [← hves]
    exact hprocessed.adjusted

/-! ## verify_trust_chains -/

/-- `tc` is what verifying one of the lists of tokens gives, after those before it. -/
def VerifiedFrom (entityStatements : List (Token Key)) (chains : List (List (Token Key)))
    (jar : Jar) (tc : TrustChain Key) : Prop :=
  ∃ before c after res jar₁ jar₂, chains = before ++ c :: after ∧
    verifyTrustChains entityStatements before jar = .ok res jar₁ ∧
    TrustChainVerifier.call (c ++ entityStatements) jar₁ = .ok (some tc) jar₂

theorem verifiedFrom_of_mem {entityStatements : List (Token Key)}
    {chains : List (List (Token Key))} {tcs : List (TrustChain Key)} {jar jar' : Jar}
    (h : verifyTrustChains entityStatements chains jar = .ok tcs jar') :
    ∀ tc ∈ tcs, VerifiedFrom entityStatements chains jar tc := by
  -- each chain finds the key jar as the chains before it left it
  induction chains generalizing jar jar' tcs with
  | nil =>
      obtain ⟨rfl, -⟩ := EStateM.Result.ok.inj h
      exact fun tc htc => absurd htc List.not_mem_nil
  | cons c chains ih =>
      obtain ⟨trustChain, jar₁, hcall, hrest⟩ := bind_eq_ok.mp h
      obtain ⟨res, jar₂, hres, hpure⟩ := bind_eq_ok.mp hrest
      obtain ⟨rfl, -⟩ := EStateM.Result.ok.inj hpure
      intro tc htc
      rcases List.mem_append.mp htc with hhere | hlater
      · obtain rfl := Option.mem_toList.mp hhere
        exact ⟨[], c, chains, [], jar, jar₁, rfl, rfl, hcall⟩
      · obtain ⟨before, c', after, res', jar₃, jar₄, rfl, hbefore, hcall'⟩ := ih hres tc hlater
        refine ⟨c :: before, c', after, trustChain.toList ++ res', jar₃, jar₄, rfl, ?_, hcall'⟩
        rw [verifyTrustChains, bind_of_ok hcall, bind_of_ok hbefore, pure_apply]

/-- Verifying some chains and then others. -/
theorem verifyTrustChains_append {entityStatements : List (Token Key)}
    {before after : List (List (Token Key))} {tcs : List (TrustChain Key)} {jar jar' : Jar}
    (h : verifyTrustChains entityStatements (before ++ after) jar = .ok tcs jar') :
    ∃ res jar₁ res', verifyTrustChains entityStatements before jar = .ok res jar₁ ∧
      verifyTrustChains entityStatements after jar₁ = .ok res' jar' ∧ tcs = res ++ res' := by
  induction before generalizing jar tcs with
  | nil => exact ⟨[], jar, tcs, rfl, h, rfl⟩
  | cons c before ih =>
      obtain ⟨trustChain, jar₁, hcall, hrest⟩ := bind_eq_ok.mp h
      obtain ⟨both, jar₂, hboth, hpure⟩ := bind_eq_ok.mp hrest
      obtain ⟨rfl, rfl⟩ := EStateM.Result.ok.inj hpure
      obtain ⟨res, jar₃, res', hbefore, hafter, rfl⟩ := ih hboth
      refine ⟨trustChain.toList ++ res, jar₃, res', ?_, hafter, (List.append_assoc ..).symm⟩
      rw [verifyTrustChains, bind_of_ok hcall, bind_of_ok hbefore, pure_apply]

/-- `tc` was verified from one of the collected chains with the statements
    appended, with the keys that the chains before it left, and processed. -/
def TrustedFrom (ho : HashOrder) (entityStatements : List (Token Key))
    (chains : List (List (Token Key))) (jar : Jar) (tc : TrustChain Key) : Prop :=
  ∃ before c after res jar₁, chains = before ++ c :: after ∧
    verifyTrustChains entityStatements before jar = .ok res jar₁ ∧
    tc.chain = c ++ entityStatements ∧ Trusted ho jar₁ tc

/-- The trust chains that are verified and processed, and where they come from. -/
theorem trustedFrom_of_mem {entityStatements : List (Token Key)}
    {chains : List (List (Token Key))} {tcs tcs' : List (TrustChain Key)} {jar jar' : Jar}
    (hverify : verifyTrustChains entityStatements chains jar = .ok tcs jar')
    (hpolicy : applyPolicies ho tcs = .ok tcs') :
    ∀ tc ∈ tcs', TrustedFrom ho entityStatements chains jar tc := by
  intro tc htc
  obtain ⟨tc₀, htc₀, hprocess⟩ := call_of_mem_applyPolicies hpolicy tc htc
  obtain ⟨before, c, after, res, jar₁, jar₂, hsplit, hbefore, hcall⟩ :=
    verifiedFrom_of_mem hverify tc₀ htc₀
  exact ⟨before, c, after, res, jar₁, hsplit, hbefore, trusted_of_call hcall hprocess⟩

/-! ## The keys they are verified with -/

omit [DecidableEq Key] in
theorem heldOrListed_mono {jar : Jar} {listed listed' : List (SignedStatement Key)}
    {id : EntityId} {k : Key} (h : HeldOrListed jar listed id k)
    (hsub : ∀ s ∈ listed, s ∈ listed') : HeldOrListed jar listed' id k :=
  h.imp_right fun ⟨s, hs, hsub', hk⟩ => ⟨s, hsub s hs, hsub', hk⟩

/-- What the key jar holds after a verification, also one that raises, it held before or
    the statements list. -/
theorem heldOrListed_of_verifyTrustChain {ts : List (Token Key)} {jar : Jar} {id : EntityId}
    {k : Key} (h : k ∈ keysOf (finalState (verifyTrustChain ts jar)) id) :
    HeldOrListed jar (ts.filterMap factory) id k := by
  rcases mem_keysOf_call.mp h with h | ⟨a, ha, rfl, rfl⟩
  · exact Or.inl h
  · obtain ⟨-, upto, s, rest, hsplit, -, hunder, -, hk, -⟩ := mem_callAdditions.mp ha
    refine Or.inr ⟨s, ?_, hunder.symm, hk⟩
    rw [hsplit]
    exact List.mem_append_right upto (List.mem_cons_self ..)

theorem finalState_call (ts : List (Token Key)) (jar : Jar) :
    finalState (TrustChainVerifier.call ts jar) = finalState (verifyTrustChain ts jar) := by
  unfold TrustChainVerifier.call
  cases hverify : verifyTrustChain ts jar with
  | error e jar' => rw [bind_of_error hverify, finalState_error, finalState_error]
  | ok ves jar' =>
      rw [bind_of_ok hverify, finalState_ok]
      cases ves <;> rfl

/-- The same for all the chains that are verified in a row. -/
theorem heldOrListed_of_verifyTrustChains {entityStatements : List (Token Key)}
    {chains : List (List (Token Key))} {jar : Jar} {id : EntityId} {k : Key}
    (h : k ∈ keysOf (finalState (verifyTrustChains entityStatements chains jar)) id) :
    HeldOrListed jar ((chains.flatMap (· ++ entityStatements)).filterMap factory) id k := by
  induction chains generalizing jar with
  | nil => exact Or.inl h
  | cons c chains ih =>
      rw [List.flatMap_cons, List.filterMap_append]
      have hhere : ∀ {k},
          k ∈ keysOf (finalState (TrustChainVerifier.call (c ++ entityStatements) jar)) id →
          HeldOrListed jar ((c ++ entityStatements).filterMap factory ++
            (chains.flatMap (· ++ entityStatements)).filterMap factory) id k := by
        intro k hk
        rw [finalState_call] at hk
        exact heldOrListed_mono (heldOrListed_of_verifyTrustChain hk) fun s hs =>
          List.mem_append_left _ hs
      rw [verifyTrustChains] at h
      cases hcall : TrustChainVerifier.call (c ++ entityStatements) jar with
      | error e jar₁ =>
          rw [bind_of_error hcall] at h
          rw [hcall] at hhere
          exact hhere h
      | ok trustChain jar₁ =>
          rw [bind_of_ok hcall, finalState_bind_pure] at h
          rw [hcall] at hhere
          rcases ih h with hheld | ⟨s, hs, hsub, hk⟩
          · exact hhere hheld
          · exact Or.inr ⟨s, List.mem_append_right _ hs, hsub, hk⟩

/-! ## Collected chains -/

omit [KeyStore Jar Key] in
/-- Where chains were collected without an entity configuration at hand, the one
    that comes with them is the one that is kept or published. -/
theorem collectTrustChains_eq_ok {entityId : EntityId} {chains : List (List (Token Key))}
    {leafEc : Option (SelfSigned Key)} {st st' : CollectorState Key}
    (h : collectTrustChains env entityId (.text "") "" [] st = .ok (chains, leafEc) st') :
    chains = [] ∨ ∃ config st₁, leafConfiguration env entityId st = .ok (some config) st₁ ∧
      leafEc = some config := by
  unfold collectTrustChains at h
  obtain ⟨collected, st₁, hcollect, h⟩ := bind_eq_ok.mp h
  cases collected with
  | none =>
      simp only [pure_apply, EStateM.Result.ok.injEq, Prod.mk.injEq] at h
      exact Or.inl h.1.1.symm
  | some p =>
      obtain ⟨tree, config⟩ := p
      simp only [collectFor, tokenTruthy, bne_self_eq_false, Bool.false_eq_true, ↓reduceIte,
        TrustChainCollector.call] at hcollect
      obtain ⟨leaf, st₂, hleaf, hcollect⟩ := bind_eq_ok.mp hcollect
      cases leaf with
      | none => simp at hcollect  -- nothing published, nothing collected
      | some config' =>
          obtain ⟨tree', st₃, -, hpure⟩ := bind_eq_ok.mp hcollect
          simp only [pure_apply, EStateM.Result.ok.injEq, Option.some.injEq, Prod.mk.injEq] at hpure
          obtain ⟨⟨-, rfl⟩, -⟩ := hpure
          refine Or.inr ⟨config', st₂, hleaf, ?_⟩
          by_cases hempty : tree.isEmpty = true
          · simp only [hempty, if_true, pure_apply, EStateM.Result.ok.injEq, Prod.mk.injEq] at h
            exact h.1.2.symm
          · simp only [hempty, Bool.false_eq_true, if_false, pure_apply, EStateM.Result.ok.injEq,
              Prod.mk.injEq] at h
            exact h.1.2.symm

/-- The trust chains of an entity: each was made from a collected chain with the
    entity configuration that is kept or published at its end. -/
theorem getVerifiedTrustChains_eq_ok {entityId : EntityId} {tcs : List (TrustChain Key)}
    {st st' : FederationState Jar Key}
    (h : getVerifiedTrustChains ho env entityId st = .ok tcs st') :
    ∀ tc ∈ tcs, ∃ c config c₁, ∃ jar : Jar, tc.chain = c ++ [.jws config.jws] ∧
      leafConfiguration env entityId st.collector = .ok (some config) c₁ ∧ Trusted ho jar tc := by
  intro tc htc
  unfold getVerifiedTrustChains at h
  obtain ⟨⟨chains, leafEc⟩, st₁, hcollect, h⟩ := bind_eq_ok.mp h
  obtain ⟨collector, hchains, rfl⟩ := inCollector_eq_ok.mp hcollect
  by_cases hlen : chains.length = 0
  · -- no chain, no trust chain
    simp only [hlen, if_true, pure_apply, EStateM.Result.ok.injEq] at h
    rw [← h.1] at htc
    exact absurd htc List.not_mem_nil
  · simp only [hlen, if_false] at h
    rcases collectTrustChains_eq_ok hchains with rfl | ⟨config, c₁, hleaf, rfl⟩
    · exact absurd rfl hlen
    · obtain ⟨verified, st₂, hverify, h⟩ := bind_eq_ok.mp h
      obtain ⟨jar, hverified, rfl⟩ := inKeyjar_eq_ok.mp hverify
      obtain ⟨hpolicy, -⟩ := lift_eq_ok.mp h
      obtain ⟨before, c, after, res, jar₁, -, -, hchain, htrusted⟩ :=
        trustedFrom_of_mem hverified hpolicy tc htc
      exact ⟨c, config, c₁, jar₁, hchain, hleaf, htrusted⟩

/-! ## The keys they list -/

omit [KeyStore Jar Key] [DecidableEq Key] in
/-- Of the statements of a trust chain the policies only touch the metadata. -/
theorem map_verifiedChain_of_call {α : Type} {f : Statement Key → α}
    (hf : ∀ s metadata, f { s with metadata := metadata } = f s) {tc₀ tc : TrustChain Key}
    {entityType : String} (h : TrustChainPolicy.call ho entityType tc₀ = .ok () tc) :
    tc.verifiedChain.map f = tc₀.verifiedChain.map f := by
  have hinv : PolicyInvariant (fun tc : TrustChain Key =>
      tc.verifiedChain.map f = tc₀.verifiedChain.map f) := by
    refine ⟨fun _ _ htc => htc, fun _ _ htc => htc, fun tc entityType metadata htc => ?_⟩
    unfold setLeafMetadata
    cases hlast : tc.verifiedChain.getLast? with
    | none => exact htc
    | some leaf =>
        rw [← htc]
        nth_rewrite 2 [← List.dropLast_append_getLast? leaf hlast]
        rw [List.map_append, List.map_append]
        simp only [List.map_cons, List.map_nil, hf]
  exact hinv.of_call rfl h

omit [KeyStore Jar Key] [DecidableEq Key] in
/-- The keys that a trust chain lists for its subjects are no policy's business. -/
theorem listedKeys_of_call {tc₀ tc : TrustChain Key} {entityType : String}
    (h : TrustChainPolicy.call ho entityType tc₀ = .ok () tc) :
    tc.verifiedChain.map (fun s => (s.sub, s.keys)) =
      tc₀.verifiedChain.map (fun s => (s.sub, s.keys)) :=
  map_verifiedChain_of_call (fun _ _ => rfl) h

omit [DecidableEq Key] in
/-- The leaf of such a chain is the subject of that configuration. -/
theorem leafSubject_of_chain {tc : TrustChain Key} {jar : Jar} {c : List (Token Key)}
    {s : SignedStatement Key} (h : Trusted ho jar tc) (hchain : tc.chain = c ++ [.jws s]) :
    leafSubject tc = some s.payload.sub := by
  rw [h.leaf, hchain]
  simp [payloads]

end Fedservice.Entity
