/-
  Fedservice.Entity.KeptKeys

  Entities that have kept their keys to themselves, and over which nobody has a hold who
  has not.  Whatever a federation entity looks up, and whatever trust marks it verifies, for
  them it comes to hold own keys only; and a trust mark that it accepts in their name is
  signed with one.
-/

import Fedservice.Entity.OwnConfigurations
import Fedservice.Entity.Server.Who

namespace Fedservice.Entity

open Fedservice.Lib Fedservice.Py Fedservice.EntityStatement Fedservice.Crypto
  Fedservice.Entity.Function Relation

variable {Jar Key : Type}

/-! ## Whose word counts -/

/-- The entity has an own key that was stolen, or is spoken about, with a stolen key, in the
    name of one that is lost. -/
inductive Lost (known : SignedStatement Key → Prop) (own : EntityId → Key → Prop)
    (stolen : Key → Prop) : EntityId → Prop where
  | robbed {id k} (hown : own id k) (hstolen : stolen k) : Lost known own stolen id
  | under {s} (hknown : known s) (hiss : Lost known own stolen s.payload.iss)
      (hstolen : stolen s.signer) : Lost known own stolen s.payload.sub

/-- What can be relied on as long as a key is not stolen: nobody else has it, and it only
    signs statements that list own keys of their subjects. -/
structure KeysKept (known : SignedStatement Key → Prop) (own : EntityId → Key → Prop)
    (stolen : Key → Prop) : Prop where
  apart : ∀ id id' k, own id k → own id' k → ¬ stolen k → id = id'
  lists : ∀ s, known s → ¬ stolen s.signer → ∀ k ∈ s.payload.keys, own s.payload.sub k

/-- The key is an own key of the entity, unless that is lost. -/
def OwnUnlessLost (known : SignedStatement Key → Prop) (own : EntityId → Key → Prop)
    (stolen : Key → Prop) (id : EntityId) (k : Key) : Prop :=
  Lost known own stolen id ∨ own id k

variable {known : SignedStatement Key → Prop} {own : EntityId → Key → Prop} {stolen : Key → Prop}
  {s : SignedStatement Key}

/-- With a stolen key only the lost speak. -/
theorem OwnUnlessLost.lost {id : EntityId} {k : Key} (h : OwnUnlessLost known own stolen id k)
    (hstolen : stolen k) : Lost known own stolen id :=
  h.elim (fun hlost => hlost) fun hown => .robbed hown hstolen

section Statements

variable (hkept : KeysKept known own stolen) (hknown : known s)
  (hsigner : OwnUnlessLost known own stolen s.payload.iss s.signer)

include hkept hknown hsigner

/-- A statement speaks for its subject. -/
theorem KeysKept.listed {k : Key} (hk : k ∈ s.payload.keys) :
    OwnUnlessLost known own stolen s.payload.sub k := by
  by_cases hstolen : stolen s.signer
  · exact Or.inl (.under hknown (hsigner.lost hstolen) hstolen)
  · exact Or.inr (hkept.lists s hknown hstolen k hk)

/-- And one that lists the key it is signed with, for its issuer too. -/
theorem KeysKept.selfSigned (hself : s.signer ∈ s.payload.keys) {k : Key}
    (hk : k ∈ s.payload.keys) : OwnUnlessLost known own stolen s.payload.iss k := by
  by_cases hstolen : stolen s.signer
  · exact Or.inl (hsigner.lost hstolen)
  · refine hsigner.imp_right fun hown => ?_
    -- whoever's key it is, it is the subject's
    rw [hkept.apart _ _ _ hown (hkept.lists s hknown hstolen _ hself) hstolen]
    exact hkept.lists s hknown hstolen k hk

end Statements

variable [KeyStore Jar Key]

/-- The key jar holds own keys for all that are not lost. -/
def HoldsOwn (known : SignedStatement Key → Prop) (own : EntityId → Key → Prop)
    (stolen : Key → Prop) (jar : Jar) : Prop :=
  ∀ id k, k ∈ keysOf jar id → OwnUnlessLost known own stolen id k

/-- A way from what it holds leads to such keys only. -/
theorem HoldsOwn.of_rooted {jar : Jar} (h : HoldsOwn known own stolen jar)
    (hkept : KeysKept known own stolen) {id : EntityId} {k : Key} (hrooted : Rooted jar known id k) :
    OwnUnlessLost known own stolen id k := by
  obtain ⟨root, hroot, hway⟩ := hrooted
  have hall : ∀ p : Holding Key, ReflTransGen (Vouches known) root p →
      OwnUnlessLost known own stolen p.1 p.2 := by
    intro p hp
    induction hp with
    | refl => exact h root.1 root.2 hroot
    | tail _ hstep ih =>
        obtain ⟨s, hknown, rfl, hsub, hk⟩ := hstep
        rw [← hsub]
        exact hkept.listed hknown ih hk
  exact hall (id, k) hway

/-! ## Trust chains -/

/-- What is known of a trust chain that was verified with such keys. -/
structure SoundChain (known : SignedStatement Key → Prop) (own : EntityId → Key → Prop)
    (stolen : Key → Prop) (tc : TrustChain Key) : Prop where
  statements : ∀ s ∈ tc.chain.filterMap factory, known s
  signers : ∀ s ∈ tc.chain.filterMap factory,
    OwnUnlessLost known own stolen s.payload.iss s.signer
  keys : tc.verifiedChain.map (·.keys) = (payloads tc.chain).map (·.keys)
  issuers : tc.issPath = ((payloads tc.chain).map (·.iss)).reverse

variable [DecidableEq Key] {ho : HashOrder} {env : CollectorEnv Key}

omit [KeyStore Jar Key] [DecidableEq Key] in
/-- Keys and issuers are no policy's business. -/
theorem SoundChain.of_call {tc₀ tc : TrustChain Key} (h : SoundChain known own stolen tc₀)
    (hpolicy : TrustChainPolicy.call ho "" tc₀ = .ok () tc) : SoundChain known own stolen tc := by
  have hchain := chain_of_call hpolicy
  have hkeys := congrArg (List.map Prod.snd) (listedKeys_of_call hpolicy)
  rw [List.map_map, List.map_map] at hkeys
  refine ⟨?_, ?_, ?_, ?_⟩
  · rw [hchain]
    exact h.statements
  · rw [hchain]
    exact h.signers
  · rw [hchain]
    exact Eq.trans hkeys h.keys
  · rw [hchain, issPath_of_call hpolicy]
    exact h.issuers

/-- Verifying chains of known statements keeps the key jar so. -/
theorem KeysKept.verifiesTo (hkept : KeysKept known own stolen) :
    VerifiesTo ho known (HoldsOwn known own stolen : Jar → Prop) (SoundChain known own stolen) := by
  intro entityStatements chains hes hchains jar hjar
  -- all that is found and learnt is rooted in the keys that the key jar holds by then
  have hverify : Ensures (RootedJar jar known) (verifyTrustChains entityStatements chains)
      (fun tcs => ∀ tc ∈ tcs, VerifiedRooted jar known tc) := ensures_verifyTrustChains hes hchains
  obtain ⟨hrooted, htcs⟩ := hverify jar fun _ _ hk => rooted_of_held hk
  refine ⟨fun id k hk => hjar.of_rooted hkept (hrooted id k hk), ?_⟩
  intro tcs jar' heq tc₀ htc₀ tc hpolicy
  obtain ⟨ts, jar₁, jar₂, hts, hjar₁, hcall⟩ := htcs tcs jar' heq tc₀ htc₀
  obtain ⟨hverified, -, hchain₀, -, hpath, -⟩ := call_eq_some hcall
  obtain ⟨rfl, htrusted⟩ := trusted_of_call hcall hpolicy
  have hknown : ∀ s ∈ tc.chain.filterMap factory, known s :=
    fun s hs => known_of_mem_filterMap hts hs
  have hsound : SoundChain known own stolen tc₀ := by
    refine ⟨?_, ?_, ?_, ?_⟩
    · rw [hchain₀]
      exact hknown
    · rw [hchain₀]
      exact fun s hs => hjar.of_rooted hkept (hjar₁.signed htrusted.signed hknown s hs)
    · rw [hchain₀, hverified.payloads, payloads]
    · rw [hchain₀, hpath, hverified.payloads, payloads]
  exact hsound.of_call hpolicy

/-! ## Metadata -/

section Metadata

variable {Keys : Jar → Prop} {Chain : TrustChain Key → Prop}

omit [KeyStore Jar Key] [DecidableEq Key] in
/-- The record of what is read is nobody's business. -/
theorem ensures_untraced {α : Type} {Inv : FederationState Jar Key → Prop}
    {m : EStateM Exc (Traced Jar Key) α} {Post : α → Prop}
    (h : Ensures (fun t => Inv t.federation) m Post) : Ensures Inv (untraced m) Post := by
  intro fe hfe
  obtain ⟨hinv, hpost⟩ := h ⟨fe, []⟩ hfe
  unfold untraced
  cases hm : m ⟨fe, []⟩ with
  | ok a t =>
      rw [hm] at hinv
      refine ⟨hinv, fun b fe' heq => ?_⟩
      obtain ⟨rfl, -⟩ := EStateM.Result.ok.inj heq
      exact hpost a t hm
  | error e t =>
      rw [hm] at hinv
      exact ⟨hinv, fun _ _ heq => absurd heq (by simp)⟩

omit [KeyStore Jar Key] [DecidableEq Key] in
theorem ensures_record {Inv : FederationState Jar Key → Prop}
    (reads : Traced Jar Key → List (Option (CachedConfig Key))) :
    Ensures (fun t => Inv t.federation)
      (modify (fun t => { t with reads := reads t }) : EStateM Exc (Traced Jar Key) PUnit)
      (fun _ => True) :=
  ensures_modify fun _ ht => ht

omit [KeyStore Jar Key] [DecidableEq Key] in
theorem ensures_usedConfig_keeps (entityId : EntityId) :
    Ensures (fun t : Traced Jar Key => Keeps known Keys Chain t.federation)
      (usedConfig env entityId) (fun _ => True) := by
  have hread : Ensures (fun t : Traced Jar Key => Keeps known Keys Chain t.federation)
      (inFederation (inCollector (configCacheItem env entityId))) (fun _ => True) := by
    refine Ensures.zoom (fun _ _ => rfl) fun st hst => ?_
    exact ⟨(ensures_inCollector_keeps (ensures_configCacheItem_known entityId) st hst).1,
      fun _ _ _ => trivial⟩
  refine hread.bind fun read _ => ?_
  refine (ensures_record _).bind fun _ _ => ?_
  cases read with
  | none => exact ensures_throw _
  | some config => exact ensures_pure trivial

section Caches

variable {Ids Subjects : EntityId → Prop} {Inv : CollectorState Key → Prop} {e : EntityId}

omit [KeyStore Jar Key] in
theorem ensures_usedConfig_caches (h : CacheInvariant env Ids Subjects Inv) (he : Ids e) :
    Ensures (fun t : Traced Jar Key => Inv t.federation.collector) (usedConfig env e)
      (fun _ => True) := by
  have hread : Ensures (fun t : Traced Jar Key => Inv t.federation.collector)
      (inFederation (inCollector (configCacheItem env e))) (fun _ => True) := by
    have hitem : Ensures Inv (configCacheItem env e) (fun _ => True) :=
      (h.configCacheItem he).mono fun _ _ => trivial
    have hcollector : Ensures (fun st : FederationState Jar Key => Inv st.collector)
        (inCollector (configCacheItem env e)) (fun _ => True) := hitem.zoom fun _ _ => rfl
    exact hcollector.zoom fun _ _ => rfl
  refine hread.bind fun read _ => ?_
  refine ensures_modify ?_ |>.bind fun _ (_ : True) => ?_
  · exact fun _ ht => ht
  · cases read with
    | none => exact ensures_throw _
    | some config => exact ensures_pure trivial

/-- Looking metadata up does no more to the caches than collecting trust chains. -/
theorem ensures_getMetadata_caches (h : CacheInvariant env Ids Subjects Inv) (he : Ids e) :
    Ensures (fun st : FederationState Jar Key => Inv st.collector)
      (untraced (getMetadata env e)) (fun _ => True) := by
  have hcached : Ensures (fun t : Traced Jar Key => Inv t.federation.collector)
      (cachedMetadataConfig env e) (fun _ => True) := by
    refine ensures_get.bind fun t _ => ?_
    by_cases hmem : e ∈ t.federation.collector.configCache
    · rw [if_pos hmem]
      refine (ensures_usedConfig_caches h he).bind fun ec _ => ?_
      have hexpired : Ensures Inv (statementIsExpired env ec.payload) (fun _ => True) :=
        ((onlyAsks_utcTimeSansFrac env).ensures h.asked).bind fun _ _ => ensures_pure trivial
      have hcollector : Ensures (fun st : FederationState Jar Key => Inv st.collector)
          (inCollector (statementIsExpired env ec.payload)) (fun _ => True) :=
        hexpired.zoom fun _ _ => rfl
      have hclock : Ensures (fun t : Traced Jar Key => Inv t.federation.collector)
          (inFederation (inCollector (statementIsExpired env ec.payload))) (fun _ => True) :=
        hcollector.zoom fun _ _ => rfl
      refine hclock.bind fun expired _ => ?_
      cases expired with
      | true => exact ensures_pure trivial
      | false => exact ensures_pure trivial
    · rw [if_neg hmem]
      exact ensures_pure trivial
  have hall : Ensures (fun t : Traced Jar Key => Inv t.federation.collector) (getMetadata env e)
      (fun _ => True) := by
    refine hcached.bind fun found _ => ?_
    cases found with
    | some ec =>
        have hmetadata : Ensures (fun st : FederationState Jar Key => Inv st.collector)
            (lift (metadataOf ec.payload)) (fun _ => True) := ensures_lift fun _ _ => trivial
        exact hmetadata.zoom fun _ _ => rfl
    | none =>
        -- what is in the cache will not do, and the chains are collected and verified
        have hcollector : Ensures (fun st : FederationState Jar Key => Inv st.collector)
            (inCollector (collectTrustChains env e)) (fun _ => True) :=
          (h.collectTrustChains he).zoom fun _ _ => rfl
        have hcollect : Ensures (fun t : Traced Jar Key => Inv t.federation.collector)
            (tracing (callReads env e [] "") (inCollector (collectTrustChains env e)))
            (fun _ => True) := by
          refine Ensures.bind (ensures_modify ?_) fun _ (_ : True) => hcollector.zoom fun _ _ => rfl
          exact fun _ ht => ht
        refine hcollect.bind fun p _ => ?_
        obtain ⟨chains, leafEc⟩ := p
        have hkeyjar : Ensures (fun st : FederationState Jar Key => Inv st.collector)
            (inKeyjar (verifyTrustChains [] chains)) (fun _ => True) := by
          refine ensures_zoom ?_ _
          exact fun _ _ hst => hst
        have hverify : Ensures (fun t : Traced Jar Key => Inv t.federation.collector)
            (inFederation (inKeyjar (verifyTrustChains [] chains))) (fun _ => True) :=
          hkeyjar.zoom fun _ _ => rfl
        refine hverify.bind fun _ _ => ?_
        refine (ensures_usedConfig_caches h he).bind fun ec _ => ?_
        have hmetadata : Ensures (fun st : FederationState Jar Key => Inv st.collector)
            (lift (metadataOf ec.payload)) (fun _ => True) := ensures_lift fun _ _ => trivial
        exact hmetadata.zoom fun _ _ => rfl
  exact ensures_untraced hall

end Caches

variable (hverifies : VerifiesTo ho known Keys Chain) (hanswers : ∀ s, Answers env s → known s)

include hverifies hanswers

theorem ensures_getMetadata_keeps (entityId : EntityId) :
    Ensures (fun t : Traced Jar Key => Keeps known Keys Chain t.federation)
      (getMetadata env entityId) (fun _ => True) := by
  have hcached : Ensures (fun t : Traced Jar Key => Keeps known Keys Chain t.federation)
      (cachedMetadataConfig env entityId) (fun _ => True) := by
    refine ensures_get.bind fun t _ => ?_
    by_cases hmem : entityId ∈ t.federation.collector.configCache
    · rw [if_pos hmem]
      refine (ensures_usedConfig_keeps entityId).bind fun ec _ => ?_
      have hclock : Ensures (fun t : Traced Jar Key => Keeps known Keys Chain t.federation)
          (inFederation (inCollector (statementIsExpired env ec.payload))) (fun _ => True) :=
        (ensures_inCollector_keeps (ensures_utcTimeSansFrac.bind fun _ _ =>
          ensures_pure trivial)).zoom fun _ _ => rfl
      refine hclock.bind fun expired _ => ?_
      cases expired with
      | true => exact ensures_pure trivial
      | false => exact ensures_pure trivial
    · rw [if_neg hmem]
      exact ensures_pure trivial
  refine hcached.bind fun found _ => ?_
  cases found with
  | some ec => exact (ensures_lift fun _ _ => trivial).zoom fun _ _ => rfl
  | none =>
      have hcollect : Ensures (fun t : Traced Jar Key => Keeps known Keys Chain t.federation)
          (tracing (callReads env entityId [] "") (inCollector (collectTrustChains env entityId)))
          (fun p => ∀ c ∈ p.1, ∀ t ∈ c, KnownToken known t) := by
        refine (ensures_record _).bind fun _ _ => ?_
        refine Ensures.zoom (fun _ _ => rfl) (ensures_inCollector_keeps ?_)
        refine fun st hst => ?_
        obtain ⟨hinv, hpost⟩ := ensures_collectTrustChains_known hanswers entityId
          (knownToken_text "") "" [] st hst
        exact ⟨hinv, fun p st' heq => (hpost p st' heq).1⟩
      refine hcollect.bind fun p hp => ?_
      obtain ⟨chains, leafEc⟩ := p
      -- no configuration is verified with the chains here
      have hverify : Ensures (fun t : Traced Jar Key => Keeps known Keys Chain t.federation)
          (inFederation (inKeyjar (verifyTrustChains [] chains))) (fun _ => True) := by
        refine Ensures.zoom (fun _ _ => rfl) (ensures_inKeyjar_keeps fun jar hjar => ?_)
        exact ⟨(hverifies [] chains (fun t ht => absurd ht List.not_mem_nil) hp jar hjar).1,
          fun _ _ _ => trivial⟩
      refine hverify.bind fun _ _ => ?_
      refine (ensures_usedConfig_keeps entityId).bind fun ec _ => ?_
      exact (ensures_lift fun _ _ => trivial).zoom fun _ _ => rfl

end Metadata

/-! ## Trust marks -/

section Marks

/-- The state of a federation entity that holds own keys for all that are not lost. -/
def OwnState (known : SignedStatement Key → Prop) (own : EntityId → Key → Prop)
    (stolen : Key → Prop) : FederationState Jar Key → Prop :=
  Keeps known (HoldsOwn known own stolen) (SoundChain known own stolen)

/-- A trust chain that ends with a self-signed statement. -/
structure SoundToLeaf (known : SignedStatement Key → Prop) (own : EntityId → Key → Prop)
    (stolen : Key → Prop) (tc : TrustChain Key) : Prop extends SoundChain known own stolen tc where
  leaf : ∃ c, ∃ config : SelfSigned Key, tc.chain = c ++ [.jws config.jws]

omit [KeyStore Jar Key] [DecidableEq Key] in
/-- What is taken from its end are keys of the issuer there. -/
theorem SoundToLeaf.leafKeys {tc : TrustChain Key} (h : SoundToLeaf known own stolen tc)
    (hkept : KeysKept known own stolen) {leaf : Statement Key} {leafId : EntityId}
    (hleaf : tc.verifiedChain.getLast? = some leaf) (hid : tc.issPath.head? = some leafId) :
    ∀ k ∈ leaf.keys, OwnUnlessLost known own stolen leafId k := by
  obtain ⟨c, config, hchain⟩ := h.leaf
  have hmem : config.jws ∈ tc.chain.filterMap factory := by
    rw [hchain]
    simp
  have hpayloads : payloads tc.chain = payloads c ++ [config.payload] := by
    rw [hchain, payloads, List.filterMap_append, List.map_append]
    rfl
  have hkeys : leaf.keys = config.payload.keys := by
    have hlast := congrArg List.getLast? h.keys
    rw [hpayloads, List.map_append, List.map_cons, List.map_nil, List.getLast?_concat,
      List.getLast?_map, hleaf] at hlast
    exact Option.some.inj hlast
  have hiss : leafId = config.payload.iss := by
    rw [h.issuers, hpayloads, List.map_append, List.map_cons, List.map_nil,
      List.reverse_concat, List.head?_cons] at hid
    exact (Option.some.inj hid).symm
  intro k hk
  rw [hkeys] at hk
  rw [hiss]
  exact hkept.selfSigned (h.statements _ hmem) (h.signers _ hmem) config.own hk

variable {env : WhoEnv Key} (hkept : KeysKept known own stolen)
  (hanswers : ∀ s, Answers env.collector s → known s)

omit hkept hanswers

omit [DecidableEq Key] in
include hkept in
theorem ensures_verificationKeys (iss : EntityId) {trustChains : List (TrustChain Key)}
    (hchains : ∀ tc ∈ trustChains, SoundToLeaf known own stolen tc) :
    Ensures (OwnState known own stolen : FederationState Jar Key → Prop)
      (verificationKeys env.toTrustMarkEnv iss trustChains)
      (fun keys => ∀ k ∈ keys, OwnUnlessLost known own stolen iss k) := by
  refine ensures_get.bind fun fe hfe => ?_
  by_cases hheld : (!(keysOf fe.keyjar iss).isEmpty) = true
  · rw [if_pos hheld]
    exact ensures_pure fun k hk => hfe.keys iss k hk
  · -- no keys are held, and those at the end of the first chain are imported
    rw [if_neg hheld]
    have hpolicies : Ensures (OwnState known own stolen : FederationState Jar Key → Prop)
        (lift (applyPolicies env.ho trustChains)) (fun tcs => ∀ tc ∈ tcs,
          SoundToLeaf known own stolen tc) := by
      refine ensures_lift fun tcs hpolicy tc htc => ?_
      obtain ⟨tc₀, htc₀, hprocess⟩ := call_of_mem_applyPolicies hpolicy tc htc
      refine ⟨(hchains tc₀ htc₀).toSoundChain.of_call hprocess, ?_⟩
      rw [chain_of_call hprocess]
      exact (hchains tc₀ htc₀).leaf
    refine hpolicies.bind fun tcs htcs => ?_
    cases tcs with
    | nil => exact ensures_throw _
    | cons tc rest =>
        simp only [List.head?_cons, Option.bind_some]
        cases hleaf : tc.verifiedChain.getLast? with
        | none => exact ensures_throw _
        | some leaf =>
            cases hid : tc.issPath.head? with
            | none => exact ensures_throw _
            | some leafId =>
                have hown := (htcs tc (List.mem_cons_self ..)).leafKeys hkept hleaf hid
                have hjwks : Ensures (OwnState known own stolen : FederationState Jar Key → Prop)
                    (lift (claimItem "jwks" leaf.jwks))
                    (fun jwks => ∀ k ∈ jwks, OwnUnlessLost known own stolen leafId k) := by
                  refine ensures_lift fun jwks hjwks k hk => hown k ?_
                  rw [Statement.keys, claimItem_eq_ok.mp hjwks]
                  exact hk
                refine hjwks.bind fun jwks hjwks => ?_
                have hjar : HoldsOwn known own stolen (KeyStore.addKb fe.keyjar leafId jwks) := by
                  intro id k hk
                  rcases mem_keysOf_addKb.mp hk with hbefore | ⟨rfl, hadded⟩
                  · exact hfe.keys id k hbefore
                  · exact hjwks k hadded
                exact (ensures_set ⟨hfe.caches, hjar, hfe.chains⟩).bind fun _ _ =>
                  ensures_pure (hjar iss)

include hkept hanswers

theorem ensures_getVerifiedTrustChains_own (e : EntityId) :
    Ensures (OwnState known own stolen : FederationState Jar Key → Prop)
      (getVerifiedTrustChains env.ho env.collector e)
      (fun tcs => ∀ tc ∈ tcs, SoundToLeaf known own stolen tc) := by
  intro fe hfe
  obtain ⟨hkeeps, hsound⟩ := ensures_getVerifiedTrustChains_keeps hkept.verifiesTo hanswers e fe hfe
  refine ⟨hkeeps, fun tcs fe' heq tc htc => ⟨hsound tcs fe' heq tc htc, ?_⟩⟩
  obtain ⟨c, config, -, -, hchain, -⟩ := getVerifiedTrustChains_eq_ok heq tc htc
  exact ⟨c, config, hchain⟩

theorem ensures_dealWithDelegation (trustMark : TrustMark Key) (trustAnchor : EntityId) :
    Ensures (OwnState known own stolen : FederationState Jar Key → Prop)
      (dealWithDelegation env.toTrustMarkEnv trustMark trustAnchor) (fun _ => True) := by
  unfold dealWithDelegation
  cases trustMark.delegation with
  | none => exact ensures_pure trivial
  | some delegation =>
      have hverify : Ensures (OwnState known own stolen : FederationState Jar Key → Prop)
          (verifyDelegation env.toTrustMarkEnv trustMark delegation trustAnchor)
          (fun _ => True) := by
        have hverifies : VerifiesTo env.ho known (HoldsOwn known own stolen : Jar → Prop)
            (SoundChain known own stolen) := hkept.verifiesTo
        refine (ensures_untraced (ensures_getMetadata_keeps hverifies hanswers trustAnchor)).bind
          fun metadata _ => ?_
        refine (ensures_lift fun _ _ => trivial).bind fun fe (_ : True) => ?_
        refine (ensures_lift fun _ _ => trivial).bind fun id (_ : True) => ?_
        exact ensures_lift fun _ _ => trivial
      exact hverify.bind fun _ _ => ensures_pure trivial

/-- The mark was signed by its issuer, unless that is lost. -/
def Authentic (known : SignedStatement Key → Prop) (own : EntityId → Key → Prop)
    (stolen : Key → Prop) (trustMark : SignedTrustMark Key) : Prop :=
  ∃ iss, trustMark.payload.iss = some iss ∧ OwnUnlessLost known own stolen iss trustMark.signer

/-- What the verifier returns is the content of a mark that was signed by its issuer. -/
theorem ensures_trustMarkVerifier_call (trustMark : Option (SignedTrustMark Key))
    (trustAnchor : EntityId) :
    Ensures (OwnState known own stolen : FederationState Jar Key → Prop)
      (TrustMarkVerifier.call env.toTrustMarkEnv trustMark trustAnchor)
      (fun verified => ∀ mark ∈ verified, ∃ jws, trustMark = some jws ∧ mark = jws.payload ∧
        Authentic known own stolen jws) := by
  cases trustMark with
  | none => exact ensures_throw _
  | some jws =>
      have hclock : Ensures (OwnState known own stolen : FederationState Jar Key → Prop)
          (inCollector (utcTimeSansFrac env.collector)) (fun _ => True) :=
        ensures_inCollector_keeps ensures_utcTimeSansFrac
      have hmessage : Ensures (OwnState known own stolen : FederationState Jar Key → Prop)
          (verifyMessage env.toTrustMarkEnv jws.payload) (fun _ => True) := by
        refine hclock.bind fun now _ => ?_
        cases env.messageRejects now jws.payload with
        | none => exact ensures_pure trivial
        | some e => exact ensures_throw e
      refine hmessage.bind fun _ _ => ?_
      have hexpired : Ensures (OwnState known own stolen : FederationState Jar Key → Prop)
          (markIsExpired env.toTrustMarkEnv jws.payload) (fun _ => True) :=
        hclock.bind fun _ _ => ensures_pure trivial
      refine hexpired.bind fun expired _ => ?_
      cases expired with
      | true => exact ensures_pure fun mark hmark => nomatch hmark
      | false =>
      refine (ensures_dealWithDelegation hkept hanswers jws.payload trustAnchor).bind fun _ _ => ?_
      have hiss : Ensures (OwnState known own stolen : FederationState Jar Key → Prop)
          (lift (claimItem "iss" jws.payload.iss)) (fun iss => jws.payload.iss = some iss) :=
        ensures_lift fun iss hiss => claimItem_eq_ok.mp hiss
      refine hiss.bind fun iss hiss => ?_
      refine (ensures_getVerifiedTrustChains_own hkept hanswers iss).bind fun tcs htcs => ?_
      by_cases hempty : tcs.isEmpty = true
      · rw [if_pos hempty]
        exact ensures_pure fun mark hmark => nomatch hmark
      · rw [if_neg hempty]
        by_cases hanchor : trustAnchor ∉ tcs.map (·.anchor)
        · rw [if_pos hanchor]
          exact ensures_pure fun mark hmark => nomatch hmark
        · rw [if_neg hanchor]
          refine (ensures_verificationKeys hkept iss htcs).bind fun keys hkeys => ?_
          by_cases hsigner : jws.signer ∈ keys
          · -- the one way out with a payload
            rw [if_pos hsigner]
            refine ensures_pure fun mark hmark => ?_
            obtain rfl := Option.mem_some.mp hmark
            exact ⟨jws, rfl, rfl, iss, hiss, hkeys _ hsigner⟩
          · rw [if_neg hsigner]
            exact ensures_pure fun mark hmark => nomatch hmark

omit [KeyStore Jar Key] [DecidableEq Key] hkept hanswers in
/-- Asking a status endpoint leaves everything as it is. -/
theorem ensures_checkWithTrustMarkIssuer (tmiTrustChain : TrustChain Key)
    (verified : TrustMark Key) {Keys : Jar → Prop} {Chain : TrustChain Key → Prop} :
    Ensures (Keeps known Keys Chain) (checkWithTrustMarkIssuer env tmiTrustChain verified)
      (fun _ => True) := by
  refine (ensures_lift fun _ _ => trivial).bind fun sub (_ : True) => ?_
  refine (ensures_lift fun _ _ => trivial).bind fun id (_ : True) => ?_
  refine (ensures_lift fun _ _ => trivial).bind fun fe (_ : True) => ?_
  cases fe with
  | none => exact ensures_throw _
  | some fe =>
      refine (ensures_lift fun _ _ => trivial).bind fun endpoint (_ : True) => ?_
      have hrequest : Ensures (Keeps known Keys Chain)
          (requestTrustMarkStatus env ⟨endpoint, sub, id⟩) (fun _ => True) := by
        unfold requestTrustMarkStatus
        split
        · exact ensures_throw _
        · refine ensures_inCollector_keeps (ensures_get.bind fun st hst => ?_)
          exact (ensures_set ⟨hst.configurations, hst.statements⟩).bind fun _ _ =>
            ensures_lift fun _ _ => trivial
      exact hrequest.bind fun _ _ => ensures_pure trivial

/-- And so is what `verify_trust_mark` returns. -/
theorem ensures_verifyTrustMark (trustMark : Option (SignedTrustMark Key))
    (checkWithIssuer : Bool) :
    Ensures (OwnState known own stolen : FederationState Jar Key → Prop)
      (verifyTrustMark env trustMark checkWithIssuer)
      (fun verified => ∀ mark ∈ verified, ∃ jws, trustMark = some jws ∧ mark = jws.payload ∧
        Authentic known own stolen jws) := by
  cases trustMark with
  | none => exact ensures_throw _
  | some jws =>
      refine (ensures_lift fun _ _ => trivial).bind fun iss (_ : True) => ?_
      refine (ensures_getTrustChains_keeps hkept.verifiesTo hanswers iss).bind fun tcs _ => ?_
      cases tcs with
      | nil => exact ensures_pure fun mark hmark => nomatch hmark
      | cons tmiTrustChain rest =>
          refine (ensures_trustMarkVerifier_call hkept hanswers (some jws)
            tmiTrustChain.anchor).bind fun verified hverified => ?_
          by_cases hcheck : checkWithIssuer = true
          · rw [if_pos hcheck]
            cases verified with
            | none => exact ensures_throw _
            | some mark =>
                refine (ensures_checkWithTrustMarkIssuer tmiTrustChain mark).bind fun active _ => ?_
                cases active with
                | true => exact ensures_pure hverified
                | false => exact ensures_pure fun mark hmark => nomatch hmark
          · rw [if_neg hcheck]
            exact ensures_pure hverified

end Marks

end Fedservice.Entity
