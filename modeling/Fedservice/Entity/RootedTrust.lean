/-
  Fedservice.Entity.RootedTrust

  What the trust in a key goes back to.  Servers may answer with anything at any time, and
  nothing is asked of whoever signs: a key that a federation entity comes to hold for
  somebody, or to verify a statement with, is at the end of a way of statements that
  servers answered with, each signed with a key that the one before it lists, and the
  first with a key that was there from the start.
-/

import Fedservice.Entity.Function.KnownStatements
import Fedservice.Entity.TrustChainExpiry
import Fedservice.Lib.Acyclic

namespace Fedservice.Entity

open Fedservice.Lib Fedservice.Py Fedservice.EntityStatement Fedservice.Crypto
  Fedservice.Entity.Function Relation

variable {Jar Key : Type}

/-! ## Ways of statements -/

/-- A key and the entity that it is taken to belong to. -/
abbrev Holding (Key : Type) := EntityId × Key

/-- A statement that is known is signed with the first key in the name of its entity, and
    lists the second key for the entity of that. -/
def Vouches (known : SignedStatement Key → Prop) (p q : Holding Key) : Prop :=
  ∃ s, known s ∧ (s.payload.iss, s.signer) = p ∧ s.payload.sub = q.1 ∧ q.2 ∈ s.payload.keys

variable [KeyStore Jar Key]

/-- There is a way to the key from one that the key jar holds. -/
def Rooted (jar : Jar) (known : SignedStatement Key → Prop) (id : EntityId) (k : Key) : Prop :=
  ∃ root : Holding Key, root.2 ∈ keysOf jar root.1 ∧ ReflTransGen (Vouches known) root (id, k)

variable {jar₀ jar jar' : Jar} {known : SignedStatement Key → Prop}

theorem rooted_of_held {id : EntityId} {k : Key} (h : k ∈ keysOf jar id) :
    Rooted jar known id k :=
  ⟨(id, k), h, .refl⟩

theorem Rooted.listed {s : SignedStatement Key} {k : Key}
    (h : Rooted jar known s.payload.iss s.signer) (hknown : known s) (hk : k ∈ s.payload.keys) :
    Rooted jar known s.payload.sub k := by
  obtain ⟨root, hroot, hway⟩ := h
  exact ⟨root, hroot, hway.tail ⟨s, hknown, rfl, rfl, hk⟩⟩

/-- The keys in a key jar are rooted in what another one held. -/
def RootedJar (jar₀ : Jar) (known : SignedStatement Key → Prop) (jar : Jar) : Prop :=
  ∀ id k, k ∈ keysOf jar id → Rooted jar₀ known id k

/-! ## Verifying -/

variable [DecidableEq Key]

theorem RootedJar.learn (h : RootedJar jar₀ known jar) {s : SignedStatement Key} (hknown : known s)
    (hsigner : Rooted jar₀ known s.payload.iss s.signer) :
    RootedJar jar₀ known (learn jar s.payload) := by
  intro id k hk
  rcases mem_keysOf_learn.mp hk with hheld | ⟨rfl, hlisted⟩
  · exact h id k hheld
  · exact hsigner.listed hknown hlisted

/-- What is signed from above is signed with rooted keys. -/
theorem RootedJar.signed (h : RootedJar jar₀ known jar) {stmts : List (SignedStatement Key)}
    (hsigned : SignedFromAbove jar stmts) (hknown : ∀ s ∈ stmts, known s) :
    ∀ s ∈ stmts, Rooted jar₀ known s.payload.iss s.signer := by
  -- from the top down: what a statement lists is rooted once its signer is
  induction stmts generalizing jar with
  | nil => exact fun s hs => absurd hs List.not_mem_nil
  | cons first rest ih =>
      obtain ⟨hsigner, hrest⟩ := signedFromAbove_cons.mp hsigned
      have hfirst := h _ _ hsigner
      have hknown' := hknown first (List.mem_cons_self ..)
      intro s hs
      rcases List.mem_cons.mp hs with rfl | hs
      · exact hfirst
      · exact ih (h.learn hknown' hfirst) hrest
          (fun u hu => hknown u (List.mem_cons_of_mem first hu)) s hs

/-- Verifying a chain of known statements adds rooted keys only, whether it is accepted or
    not. -/
theorem ensures_verifyTrustChain {ts : List (Token Key)} (hts : ∀ t ∈ ts, KnownToken known t) :
    Ensures (RootedJar jar₀ known) (verifyTrustChain ts) (fun _ => True) := by
  refine fun jar h => ⟨fun id k hk => ?_, fun _ _ _ => trivial⟩
  rcases mem_keysOf_call.mp hk with hheld | ⟨a, ha, rfl, rfl⟩
  · exact h id k hheld
  · obtain ⟨-, upto, s, rest, hsplit, hreached, hunder, -, hlisted, -⟩ := mem_callAdditions.mp ha
    have hknown : ∀ u ∈ upto ++ s :: rest, known u := by
      rw [← hsplit]
      exact fun u hu => known_of_mem_filterMap hts hu
    have hsigner := h.signed hreached.signed (fun u hu => hknown u (by
      rcases List.mem_append.mp hu with hu | hu
      · exact List.mem_append_left _ hu
      · rw [List.mem_singleton.mp hu]
        exact List.mem_append_right _ (List.mem_cons_self ..))) s (by simp)
    rw [hunder]
    exact hsigner.listed (hknown s (by simp)) hlisted

/-- What is known of a trust chain that goes back to what `jar₀` held: what it is made of,
    what its statements are signed with, and how its verified statements and its metadata
    come from them. -/
structure Credible (ho : HashOrder) (jar₀ : Jar) (known : SignedStatement Key → Prop)
    (tc : TrustChain Key) : Prop where
  statements : ∀ s ∈ tc.chain.filterMap factory, known s
  rooted : ∀ s ∈ tc.chain.filterMap factory, Rooted jar₀ known s.payload.iss s.signer
  restrictions : meetsRestrictions (payloads tc.chain) = .ok true
  superiors : tc.verifiedChain.dropLast = (payloads tc.chain).dropLast
  leaf : leafSubject tc = (payloads tc.chain).getLast?.map (·.sub)
  adjusted : 1 < (payloads tc.chain).length → ∀ entityType metadata,
    tc.metadata.item entityType = .ok (some metadata) →
      PolicyAdjusted ho (payloads tc.chain) entityType metadata

/-- A trust chain that was verified with keys that are rooted. -/
def VerifiedRooted (jar₀ : Jar) (known : SignedStatement Key → Prop) (tc : TrustChain Key) : Prop :=
  ∃ ts jar jar', (∀ t ∈ ts, KnownToken known t) ∧ RootedJar jar₀ known jar ∧
    TrustChainVerifier.call ts jar = .ok (some tc) jar'

theorem VerifiedRooted.credible {ho : HashOrder} {tc₀ tc : TrustChain Key}
    (h : VerifiedRooted jar₀ known tc₀) (hpolicy : TrustChainPolicy.call ho "" tc₀ = .ok () tc) :
    Credible ho jar₀ known tc := by
  obtain ⟨ts, jar, jar', hts, hjar, hcall⟩ := h
  obtain ⟨rfl, htrusted⟩ := trusted_of_call hcall hpolicy
  have hknown : ∀ s ∈ tc.chain.filterMap factory, known s :=
    fun s hs => known_of_mem_filterMap hts hs
  exact ⟨hknown, hjar.signed htrusted.signed hknown, htrusted.restrictions, htrusted.superiors,
    htrusted.leaf, htrusted.adjusted⟩

theorem ensures_verifyTrustChains {entityStatements : List (Token Key)}
    {chains : List (List (Token Key))} (hes : ∀ t ∈ entityStatements, KnownToken known t)
    (hchains : ∀ c ∈ chains, ∀ t ∈ c, KnownToken known t) :
    Ensures (RootedJar jar₀ known) (verifyTrustChains entityStatements chains)
      (fun tcs => ∀ tc ∈ tcs, VerifiedRooted jar₀ known tc) := by
  induction chains with
  | nil => exact ensures_pure fun tc htc => absurd htc List.not_mem_nil
  | cons c chains ih =>
      have hts : ∀ t ∈ c ++ entityStatements, KnownToken known t := by
        intro t ht
        rcases List.mem_append.mp ht with ht | ht
        · exact hchains c (List.mem_cons_self ..) t ht
        · exact hes t ht
      have hcall : Ensures (RootedJar jar₀ known) (TrustChainVerifier.call (c ++ entityStatements))
          (fun made => ∀ tc ∈ made, VerifiedRooted jar₀ known tc) := by
        refine fun jar hjar => ⟨?_, fun made jar' heq tc htc => ?_⟩
        · rw [finalState_call]
          exact (ensures_verifyTrustChain hts jar hjar).1
        · rw [Option.mem_def.mp htc] at heq
          exact ⟨_, jar, jar', hts, hjar, heq⟩
      refine hcall.bind fun made hmade => ?_
      refine (ih fun c' hc' => hchains c' (List.mem_cons_of_mem c hc')).bind fun res hres => ?_
      refine ensures_pure fun tc htc => ?_
      rcases List.mem_append.mp htc with htc | htc
      · exact hmade tc (Option.mem_toList.mp htc)
      · exact hres tc htc

/-! ## The federation entity -/

variable {ho : HashOrder} {env : CollectorEnv Key}

/-- What a federation entity has in its caches is known, and its key jar and the trust chains
    that it keeps are as they should be. -/
structure Keeps (known : SignedStatement Key → Prop) (Keys : Jar → Prop)
    (Chain : TrustChain Key → Prop) (st : FederationState Jar Key) : Prop where
  caches : CachesKnown known st.collector
  keys : Keys st.keyjar
  chains : ∀ e tcs, st.trustChain.lookup e = some tcs → ∀ tc ∈ tcs, Chain tc

/-- Verifying chains of known statements leaves the key jar as it should be, and what the
    policies make of the results are trust chains as they should be. -/
def VerifiesTo (ho : HashOrder) (known : SignedStatement Key → Prop) (Keys : Jar → Prop)
    (Chain : TrustChain Key → Prop) : Prop :=
  ∀ entityStatements chains, (∀ t ∈ entityStatements, KnownToken known t) →
    (∀ c ∈ chains, ∀ t ∈ c, KnownToken known t) →
    Ensures Keys (verifyTrustChains entityStatements chains)
      (fun tcs => ∀ tc₀ ∈ tcs, ∀ tc, TrustChainPolicy.call ho "" tc₀ = .ok () tc → Chain tc)

section Keeping

variable {Keys : Jar → Prop} {Chain : TrustChain Key → Prop}

omit [KeyStore Jar Key] [DecidableEq Key] in
theorem ensures_inCollector_keeps {α : Type} {m : EStateM Exc (CollectorState Key) α}
    {Post : α → Prop} (h : Ensures (CachesKnown known) m Post) :
    Ensures (Keeps known Keys Chain) (inCollector m) Post :=
  h.zoom_within (fun _ hst => hst.caches) fun _ _ hc hst => ⟨hc, hst.keys, hst.chains⟩

omit [KeyStore Jar Key] [DecidableEq Key] in
theorem ensures_inKeyjar_keeps {α : Type} {m : EStateM Exc Jar α} {Post : α → Prop}
    (h : Ensures Keys m Post) : Ensures (Keeps known Keys Chain) (inKeyjar m) Post :=
  h.zoom_within (fun _ hst => hst.keys) fun _ _ hjar hst => ⟨hst.caches, hjar, hst.chains⟩

variable (hverifies : VerifiesTo ho known Keys Chain) (hanswers : ∀ s, Answers env s → known s)

include hverifies

/-- The policies make trust chains as they should be of what known statements verify to. -/
theorem ensures_verifiedChains_keeps {entityStatements : List (Token Key)}
    {chains : List (List (Token Key))} (hes : ∀ t ∈ entityStatements, KnownToken known t)
    (hchains : ∀ c ∈ chains, ∀ t ∈ c, KnownToken known t) :
    Ensures (Keeps known Keys Chain)
      (inKeyjar (verifyTrustChains entityStatements chains) >>= fun tcs =>
        lift (applyPolicies ho tcs)) (fun tcs => ∀ tc ∈ tcs, Chain tc) := by
  refine (ensures_inKeyjar_keeps (hverifies _ _ hes hchains)).bind fun tcs htcs => ?_
  refine ensures_lift fun tcs' hpolicy tc htc => ?_
  obtain ⟨tc₀, htc₀, hprocess⟩ := call_of_mem_applyPolicies hpolicy tc htc
  exact htcs tc₀ htc₀ tc hprocess

include hanswers

theorem ensures_getVerifiedTrustChains_keeps (e : EntityId) :
    Ensures (Keeps known Keys Chain) (getVerifiedTrustChains ho env e)
      (fun tcs => ∀ tc ∈ tcs, Chain tc) := by
  have hcollect := ensures_collectTrustChains_known hanswers e (knownToken_text "") "" []
  refine (ensures_inCollector_keeps hcollect).bind fun p hp => ?_
  obtain ⟨chains, leafEc⟩ := p
  by_cases hlen : chains.length = 0
  · simp only [if_pos hlen]
    exact ensures_pure fun tc htc => absurd htc List.not_mem_nil
  · simp only [if_neg hlen]
    have hes : ∀ t ∈ leafEc.toList.map (fun config => Token.jws config.jws), KnownToken known t := by
      intro t ht
      obtain ⟨config, hconfig, rfl⟩ := List.mem_map.mp ht
      exact knownToken_jws.mpr (hp.2 config (Option.mem_toList.mp hconfig))
    exact ensures_verifiedChains_keeps hverifies hes hp.1

theorem ensures_getTrustChains_keeps (e : EntityId) :
    Ensures (Keeps known Keys Chain) (getTrustChains ho env e) (fun tcs => ∀ tc ∈ tcs, Chain tc) := by
  refine ensures_get.bind fun st hst => ?_
  cases hlookup : st.trustChain.lookup e with
  | some tcs => exact ensures_pure (hst.chains e tcs hlookup)
  | none =>
      refine (ensures_getVerifiedTrustChains_keeps hverifies hanswers e).bind fun tcs htcs => ?_
      by_cases hempty : tcs.isEmpty = true
      · rw [if_pos hempty]
        exact ensures_pure fun tc htc => absurd htc List.not_mem_nil
      · rw [if_neg hempty]
        have hstore : Ensures (Keeps known Keys Chain) (modify (storeTrustChains e tcs) :
            EStateM Exc (FederationState Jar Key) PUnit) (fun _ => True) := by
          refine ensures_modify fun st hst => ⟨hst.caches, hst.keys, fun e' tcs' h => ?_⟩
          rcases Dict.lookup_insert_eq_some.mp h with ⟨-, rfl⟩ | ⟨-, hbefore⟩
          · exact htcs
          · exact hst.chains e' tcs' hbefore
        exact hstore.bind fun _ _ => ensures_pure htcs

omit [KeyStore Jar Key] [DecidableEq Key] hverifies hanswers in
/-- What is handed out: trust chains, or the metadata of one. -/
def HandsOut (Chain : TrustChain Key → Prop) : HandedOut Key → Prop
  | .trustChains tcs => ∀ tc ∈ tcs, Chain tc
  | .metadata found => ∀ metadata ∈ found, ∃ tc, Chain tc ∧ tc.metadata = metadata

theorem ensures_call_keeps (op : TrustCall) :
    Ensures (Keeps known Keys Chain) (op.call ho env) (HandsOut Chain) := by
  cases op with
  | getTrustChains e =>
      exact (ensures_getTrustChains_keeps hverifies hanswers e).bind fun tcs htcs =>
        ensures_pure htcs
  | getVerifiedMetadata e =>
      have hmetadata : Ensures (Keeps known Keys Chain) (getVerifiedMetadata ho env e)
          (fun found => ∀ metadata ∈ found, ∃ tc, Chain tc ∧ tc.metadata = metadata) := by
        rw [getVerifiedMetadata_eq]
        refine (ensures_getTrustChains_keeps hverifies hanswers e).bind fun tcs htcs => ?_
        refine ensures_pure fun metadata hmetadata => ?_
        obtain ⟨tc, htc, rfl⟩ := Option.mem_map.mp hmetadata
        exact ⟨tc, htcs tc (List.mem_of_mem_head? htc), rfl⟩
      exact hmetadata.bind fun _ h => ensures_pure h

end Keeping

/-- What a federation entity has in its caches is known, its keys are rooted, and the trust
    chains that it keeps go back to the roots. -/
def RootedState (ho : HashOrder) (jar₀ : Jar) (known : SignedStatement Key → Prop) :
    FederationState Jar Key → Prop :=
  Keeps known (RootedJar jar₀ known) (Credible ho jar₀ known)

omit [DecidableEq Key] in
theorem rootedState_start : RootedState ho jar known ({ keyjar := jar } : FederationState Jar Key) :=
  ⟨cachesKnown_empty, fun _ _ h => rooted_of_held h, fun e tcs h => by simp at h⟩

theorem verifiesTo_rooted : VerifiesTo ho known (RootedJar jar₀ known) (Credible ho jar₀ known) := by
  intro entityStatements chains hes hchains jar hjar
  obtain ⟨hkept, htcs⟩ := ensures_verifyTrustChains hes hchains jar hjar
  exact ⟨hkept, fun tcs jar' heq tc₀ htc₀ tc hpolicy => (htcs tcs jar' heq tc₀ htc₀).credible hpolicy⟩

/-- What is handed out goes back to the roots; metadata are those of a trust chain. -/
def CredibleAnswer (ho : HashOrder) (jar₀ : Jar) (known : SignedStatement Key → Prop) :
    HandedOut Key → Prop :=
  HandsOut (Credible ho jar₀ known)

/-! ## Runs -/

theorem rootedState_run (ho : HashOrder) (env : CollectorEnv Key) (jar : Jar)
    (ops : List TrustCall) :
    RootedState ho jar (Answers env)
      (runState (TrustCall.call ho env) { keyjar := jar } ops) :=
  Ensures.runState (fun op => ensures_call_keeps verifiesTo_rooted (fun _ h => h) op)
    rootedState_start ops

theorem credible_of_mem_run {jar : Jar} {ops : List TrustCall} {handed : HandedOut Key}
    {st' : FederationState Jar Key}
    (h : .ok handed st' ∈ runOutcomes (TrustCall.call ho env) { keyjar := jar } ops) :
    CredibleAnswer ho jar (Answers env) handed :=
  Ensures.runOutcomes rootedState_start
    (fun op _ => ensures_call_keeps verifiesTo_rooted (fun _ h => h) op) h

/-- Whatever the servers answer and whatever is asked for in what order: every key that a
    federation entity ends up with, and every key that a statement of a trust chain it
    works with is signed with, goes back to a key it had at the start. -/
theorem trust_is_rooted (ho : HashOrder) (env : CollectorEnv Key) (jar : Jar)
    (ops : List TrustCall) :
    RootedState ho jar (Answers env)
        (runState (TrustCall.call ho env) { keyjar := jar } ops) ∧
      ∀ handed st', .ok handed st' ∈ runOutcomes (TrustCall.call ho env) { keyjar := jar } ops →
        CredibleAnswer ho jar (Answers env) handed :=
  ⟨rootedState_run ho env jar ops, fun _ _ hmem => credible_of_mem_run hmem⟩

/-! ## Stolen keys -/

/-- The key is below an own key of an entity that has been stolen: from that one on, all
    statements on the way are signed with stolen keys. -/
def BelowStolen (jar : Jar) (known : SignedStatement Key → Prop)
    (own : EntityId → Key → Prop) (stolen : Key → Prop) (id : EntityId) (k : Key) : Prop :=
  ∃ victim key, Rooted jar known victim key ∧ own victim key ∧ stolen key ∧
    TransGen (fun p q => Vouches known p q ∧ stolen p.2) (victim, key) (id, k)

omit [DecidableEq Key] in
/-- Where the keys at the start are the own keys of their entities, and whoever has kept a
    key secret only lists own keys of others with it, it takes a stolen key to pass off a
    wrong one. -/
theorem Rooted.own_or_belowStolen {own : EntityId → Key → Prop} {stolen : Key → Prop}
    (hstart : ∀ id k, k ∈ keysOf jar id → own id k)
    (hhonest : ∀ s, known s → ¬ stolen s.signer → ∀ k ∈ s.payload.keys, own s.payload.sub k)
    {id : EntityId} {k : Key} (h : Rooted jar known id k) :
    own id k ∨ BelowStolen jar known own stolen id k := by
  by_cases hown : own id k
  · exact Or.inl hown
  · obtain ⟨root, hroot, hway⟩ := h
    -- the last own key on the way, from which somebody lists a wrong one
    obtain ⟨⟨victim, key⟩, q, hbefore, hvictim, hleave, hq, hafter⟩ :=
      exists_last_of_reflTransGen (P := fun p : Holding Key => own p.1 p.2) hway
        (hstart root.1 root.2 hroot) hown
    have hstolen : ∀ p q : Holding Key, Vouches known p q → ¬ own q.1 q.2 → stolen p.2 := by
      rintro p q ⟨s, hs, rfl, hsub, hk⟩ hwrong
      by_contra hkept
      exact hwrong (hsub ▸ hhonest s hs hkept q.2 hk)
    refine Or.inr ⟨victim, key, ⟨root, hroot, hbefore⟩, hvictim, hstolen _ _ hleave hq, ?_⟩
    refine TransGen.head' ⟨hleave, hstolen _ _ hleave hq⟩ ?_
    exact ReflTransGen.mono (fun a b hab => ⟨hab.1, hstolen a b hab.1 hab.2.2⟩) _ _ hafter

/-- All statements behind what is handed out are signed with keys that meet `P`, by their
    issuers. -/
def SignedWith (P : EntityId → Key → Prop) : HandedOut Key → Prop
  | .trustChains tcs => ∀ tc ∈ tcs, ∀ s ∈ tc.chain.filterMap factory, P s.payload.iss s.signer
  | .metadata found => ∀ metadata ∈ found, ∃ tc : TrustChain Key, tc.metadata = metadata ∧
      ∀ s ∈ tc.chain.filterMap factory, P s.payload.iss s.signer

/-- Where honest entities list own keys of others, a federation entity that starts from own
    keys takes a wrong key for somebody's, or a statement that its issuer did not sign,
    only below an entity whose own key was stolen. -/
theorem harm_stays_below_stolen (ho : HashOrder) (env : CollectorEnv Key) {jar : Jar}
    {own : EntityId → Key → Prop} {stolen : Key → Prop}
    (hstart : ∀ id k, k ∈ keysOf jar id → own id k)
    (hhonest : ∀ s, Answers env s → ¬ stolen s.signer →
      ∀ k ∈ s.payload.keys, own s.payload.sub k) (ops : List TrustCall) :
    (∀ id k, k ∈ keysOf (runState (TrustCall.call ho env) { keyjar := jar } ops).keyjar id →
      own id k ∨ BelowStolen jar (Answers env) own stolen id k) ∧
    ∀ handed st', .ok handed st' ∈ runOutcomes (TrustCall.call ho env) { keyjar := jar } ops →
      SignedWith (fun id k => own id k ∨ BelowStolen jar (Answers env) own stolen id k) handed := by
  have hkeys := (rootedState_run ho env jar ops).keys
  refine ⟨fun id k hk => (hkeys id k hk).own_or_belowStolen hstart hhonest, ?_⟩
  intro handed st' hmem
  have hcredible := credible_of_mem_run hmem
  cases handed with
  | trustChains tcs =>
      exact fun tc htc s hs => ((hcredible tc htc).rooted s hs).own_or_belowStolen hstart hhonest
  | metadata found =>
      intro metadata hmetadata
      obtain ⟨tc, htc, hsame⟩ := hcredible metadata hmetadata
      exact ⟨tc, hsame, fun s hs => (htc.rooted s hs).own_or_belowStolen hstart hhonest⟩

/-- A leaf below an intermediate whose key somebody has stolen, and used it to list a key of
    their own for the leaf. -/
def belowStolenKey : List (String × SignedStatement Nat) :=
  [("https://op.org/.well-known/openid-federation",
    ⟨{ iss := "https://op.org", sub := "https://op.org", exp := 1000, jwks := some [9]
       authorityHints := some ["https://im.org"]
       metadata := some (Dict.ofList [("openid_provider", ∅)]) }, 9⟩),
   ("https://im.org/.well-known/openid-federation",
    ⟨{ iss := "https://im.org", sub := "https://im.org", exp := 1000, jwks := some [2]
       authorityHints := some ["https://ta.org"]
       metadata := some (withFetchEndpoint "https://im.org/fetch") }, 2⟩),
   ("https://ta.org/.well-known/openid-federation",
    ⟨{ iss := "https://ta.org", sub := "https://ta.org", exp := 1000, jwks := some [1]
       metadata := some (withFetchEndpoint "https://ta.org/fetch") }, 1⟩),
   ("https://im.org/fetch?https://op.org",
    ⟨{ iss := "https://im.org", sub := "https://op.org", exp := 1000, jwks := some [9] }, 2⟩),
   ("https://ta.org/fetch?https://im.org",
    ⟨{ iss := "https://ta.org", sub := "https://im.org", exp := 1000, jwks := some [2] }, 1⟩)]

/-- What is on the pages is all that the servers answer with. -/
theorem mem_of_answers_onPages {trustAnchors : List EntityId}
    {pages : List (String × SignedStatement Nat)} {s : SignedStatement Nat}
    (h : Answers (onPages trustAnchors pages) s) : s ∈ pages.map (·.2) := by
  obtain ⟨n, url, status, contentType, hreply⟩ := h
  unfold onPages at hreply
  cases hpage : pages.lookup url with
  | none => simp [hpage] at hreply
  | some s' =>
      simp only [hpage, HttpResponse.reply.injEq, Token.jws.injEq] at hreply
      obtain ⟨-, -, rfl⟩ := hreply
      obtain ⟨before, after, hsplit, -⟩ := List.lookup_eq_some_iff.mp hpage
      rw [hsplit]
      simp

/-- The keys that these entities have made for themselves. -/
def ownKeys (id : EntityId) (k : Nat) : Prop :=
  (id, k) ∈ [("https://ta.org", 1), ("https://im.org", 2), ("https://op.org", 3)]

theorem harm_stays_below_stolen_belowStolenKey :
    9 ∈ keysOf (runState (TrustCall.call .insertion (onPages ["https://ta.org"] belowStolenKey))
        trustsTa [.getTrustChains "https://op.org"]).keyjar "https://op.org" ∧
      BelowStolen trustsTa.keyjar (Answers (onPages ["https://ta.org"] belowStolenKey)) ownKeys
        (fun k => k ∈ [2, 9]) "https://op.org" 9 := by
  have hlearnt : 9 ∈ keysOf (runState (TrustCall.call .insertion
      (onPages ["https://ta.org"] belowStolenKey)) trustsTa
        [.getTrustChains "https://op.org"]).keyjar "https://op.org" := by decide +kernel
  have hstart : ∀ id k, k ∈ keysOf trustsTa.keyjar id → ownKeys id k := by
    intro id k hk
    obtain ⟨b, hb, rfl, hk⟩ := AssocJar.mem_keys.mp hk
    obtain rfl := List.mem_singleton.mp hb
    obtain rfl := List.mem_singleton.mp hk
    unfold ownKeys
    decide
  have hpages : ∀ s ∈ belowStolenKey.map (·.2), s.signer ∉ [2, 9] →
      ∀ k ∈ s.payload.keys, ownKeys s.payload.sub k := by
    unfold ownKeys
    decide
  have hharm := @harm_stays_below_stolen _ _ _ _ .insertion
    (onPages ["https://ta.org"] belowStolenKey) trustsTa.keyjar ownKeys (fun k => k ∈ [2, 9]) hstart
    (fun s hs => hpages s (mem_of_answers_onPages hs)) [.getTrustChains "https://op.org"]
  refine ⟨hlearnt, (hharm.1 _ _ hlearnt).resolve_left ?_⟩
  unfold ownKeys
  decide

end Fedservice.Entity
