/-
  Fedservice.Entity.Function.KnownStatements

  Where the signed statements come from that the collector hands on: whatever the
  servers do and however time goes, all that gets into the caches, into a tree of
  superiors and into the chains are statements that a server has answered with.
-/

import Fedservice.Entity.Function.CachedTree

namespace Fedservice.Entity.Function

open Fedservice.Lib Fedservice.Py Fedservice.EntityStatement

variable {Key : Type}

/-! ## What is known -/

/-- A server answers with the statement, at some time and to some request. -/
def Answers (env : CollectorEnv Key) (s : SignedStatement Key) : Prop :=
  ∃ n url status contentType, env.httpc n url = .reply status contentType (.jws s)

/-- A token that is no JWS, or one of the statements known. -/
def KnownToken (known : SignedStatement Key → Prop) (token : Token Key) : Prop :=
  ∀ s, token = .jws s → known s

theorem knownToken_jws {known : SignedStatement Key → Prop} {s : SignedStatement Key} :
    KnownToken known (.jws s) ↔ known s := by
  constructor
  · exact fun h => h s rfl
  · intro h s' heq
    obtain rfl := Token.jws.inj heq
    exact h

theorem knownToken_text {known : SignedStatement Key → Prop} (raw : String) :
    KnownToken known (.text raw) :=
  fun _ heq => nomatch heq

/-- What is taken from a list of known tokens is known. -/
theorem known_of_mem_filterMap {known : SignedStatement Key → Prop} {ts : List (Token Key)}
    (h : ∀ t ∈ ts, KnownToken known t) {s : SignedStatement Key} (hs : s ∈ ts.filterMap factory) :
    known s := by
  obtain ⟨t, ht, hfactory⟩ := List.mem_filterMap.mp hs
  cases t with
  | jws s' =>
      rw [factory_jws, Option.some.injEq] at hfactory
      exact h _ ht s (by rw [hfactory])
  | text raw => exact absurd hfactory (by simp)

/-- The statements in the caches are known. -/
structure CachesKnown (known : SignedStatement Key → Prop) (st : CollectorState Key) : Prop where
  configurations : ∀ e config, st.configCache.lookup e = some (.dict config) → known config.jws
  statements : ∀ key token, st.entityStatementCache.lookup key = some (.jwt token) →
    KnownToken known token

theorem cachesKnown_empty {known : SignedStatement Key → Prop} :
    CachesKnown known ({} : CollectorState Key) :=
  ⟨fun e config h => by simp at h, fun key token h => by simp at h⟩

variable {known : SignedStatement Key → Prop} {env : CollectorEnv Key}

/-! ## Trees and chains -/

/-- The statements of the tree are known. -/
def KnownTree (known : SignedStatement Key → Prop) (e : EntityId) (t : Tree Key) : Prop :=
  Throughout (fun _ _ token => KnownToken known token) e t

/-- Going up through statements that are known. -/
theorem knownToken_of_upwards {e : EntityId} {up : List (EntityId × Token Key)}
    (h : Upwards (fun _ _ token => KnownToken known token) e up) :
    ∀ p ∈ up, KnownToken known p.2 := by
  induction up generalizing e with
  | nil => exact fun _ hp => absurd hp List.not_mem_nil
  | cons q up ih =>
      intro p hp
      rcases List.mem_cons.mp hp with rfl | hp
      · exact h.1
      · exact ih h.2 p hp

/-- The tokens of the chains of a tree are those of the tree. -/
theorem KnownTree.tree2chains {e : EntityId} {t : Tree Key} (h : KnownTree known e t) :
    ∀ c ∈ tree2chains t, ∀ token ∈ c, KnownToken known token := by
  intro c hc token htoken
  rw [tree2chains_eq] at hc
  obtain ⟨chain, hchain, rfl⟩ := List.mem_map.mp hc
  obtain ⟨p, hp, rfl⟩ := List.mem_map.mp htoken
  exact knownToken_of_upwards (h.chain hchain) p (List.mem_reverse.mpr hp)

/-! ## Asking the servers -/

/-- Asking does not write, and what it comes to may be known for a reason of its own. -/
theorem OnlyAsks.cachesKnown {α : Type} {m : EStateM Exc (CollectorState Key) α} (h : OnlyAsks m)
    {Post : α → Prop} (hpost : ∀ st a st', m st = .ok a st' → Post a) :
    Ensures (CachesKnown known) m Post := by
  have hkept : Ensures (CachesKnown known) m (fun _ => True) :=
    h.ensures fun st n _ hst => ⟨hst.configurations, hst.statements⟩
  exact fun st hst => ⟨(hkept st hst).1, fun a st' heq => hpost st a st' heq⟩

section Asking

variable (hanswers : ∀ s, Answers env s → known s)

include hanswers

theorem known_of_getDocument {url : String} {st st' : CollectorState Key} {token : Token Key}
    (h : getDocument env url st = .ok token st') : KnownToken known token := by
  unfold getDocument at h
  obtain ⟨response, st₁, hget, h⟩ := bind_eq_ok.mp h
  obtain ⟨hresponse, -⟩ := EStateM.Result.ok.inj hget
  cases response with
  | connectionError => simp at h
  | reply status contentType text =>
      by_cases hfound : status = 200
      · simp only [if_pos hfound] at h
        cases contentType with
        | none => simp at h
        | some typ =>
            simp only [pure_apply, EStateM.Result.ok.injEq] at h
            obtain ⟨rfl, -⟩ := h
            rintro s rfl
            exact hanswers s ⟨_, url, status, some typ, hresponse⟩
      · simp only [if_neg hfound] at h
        by_cases hmissing : status = 404
        · simp [if_pos hmissing] at h
        · simp [if_neg hmissing] at h

theorem ensures_getDocument (url : String) :
    Ensures (CachesKnown known) (getDocument env url) (KnownToken known) :=
  (onlyAsks_getDocument env url).cachesKnown fun _ _ _ h => known_of_getDocument hanswers h

theorem ensures_getEntityConfiguration (e : EntityId) :
    Ensures (CachesKnown known) (getEntityConfiguration env e) (KnownToken known) := by
  refine (onlyAsks_getEntityConfiguration env e).cachesKnown fun st token st' h => ?_
  unfold getEntityConfiguration at h
  obtain ⟨url, st₁, hurl, h⟩ := bind_eq_ok.mp h
  cases hdocument : getDocument env url st₁ with
  | ok token' st₂ =>
      rw [tryCatch_of_ok hdocument] at h
      obtain ⟨rfl, -⟩ := EStateM.Result.ok.inj h
      exact known_of_getDocument hanswers hdocument
  | error err st₂ =>
      rw [tryCatch_of_error hdocument] at h
      cases err with
      | missingPage message =>
          -- the same entity under the URL of a tenant
          obtain ⟨tenantUrl, st₃, -, h⟩ := bind_eq_ok.mp h
          by_cases hsame : tenantUrl ≠ url
          · rw [if_pos hsame] at h
            exact known_of_getDocument hanswers h
          · simp [if_neg hsame] at h
      | _ => simp at h

theorem ensures_getEntityStatement (location : Json) (a e : EntityId) :
    Ensures (CachesKnown known) (getEntityStatement env location a e) (KnownToken known) := by
  cases location with
  | str url => exact ensures_getDocument hanswers _
  | _ => exact ensures_throw _

variable [DecidableEq Key]

omit hanswers in
/-- A signature is checked on the statement at hand. -/
theorem ensures_verifySelfSignedSignature {token : Token Key} (htoken : KnownToken known token) :
    Ensures (CachesKnown known) (verifySelfSignedSignature env token)
      (fun config => known config.jws) :=
  (onlyAsks_verifySelfSignedSignature env token).cachesKnown fun _ config _ h =>
    htoken config.jws (verifySelfSignedSignature_eq_ok env h)

omit hanswers [DecidableEq Key] in
theorem ensures_utcTimeSansFrac :
    Ensures (CachesKnown known) (utcTimeSansFrac env) (fun _ => True) :=
  (onlyAsks_utcTimeSansFrac env).cachesKnown fun _ _ _ _ => trivial

/-! ## The configuration cache -/

omit hanswers [DecidableEq Key] in
theorem ensures_configCacheSet (e : EntityId) {config : SelfSigned Key} (h : known config.jws) :
    Ensures (CachesKnown known) (configCacheSet e (.dict config)) (fun _ => True) := by
  refine ensures_modify fun st hst => ⟨fun e' config' hlookup => ?_, hst.statements⟩
  rcases Dict.lookup_insert_eq_some.mp hlookup with ⟨-, heq⟩ | ⟨-, hbefore⟩
  · obtain rfl := CachedConfig.dict.inj heq
    exact h
  · exact hst.configurations e' config' hbefore

omit hanswers [DecidableEq Key] in
theorem ensures_configCacheItem_known (e : EntityId) :
    Ensures (CachesKnown known) (configCacheItem env e)
      (fun read => ∀ config, read = some (.dict config) → known config.jws) := by
  refine ensures_get.bind fun st hst => ?_
  cases hlookup : st.configCache.lookup e with
  | none => exact ensures_pure fun _ heq => nomatch heq
  | some entry =>
      cases entry with
      | message payload => exact ensures_pure fun _ heq => nomatch heq
      | dict config =>
          refine ensures_utcTimeSansFrac.bind fun now _ => ?_
          by_cases hfresh : now < config.payload.exp - env.allowedDelta
          · simp only [if_pos hfresh]
            refine ensures_pure fun config' heq => ?_
            obtain rfl := CachedConfig.dict.inj (Option.some.inj heq)
            exact hst.configurations e config hlookup
          · simp only [if_neg hfresh]
            refine (ensures_modify fun st hst => ⟨fun e' config' hkept => ?_, hst.statements⟩).bind
              fun _ (_ : True) => ensures_pure fun _ heq => nomatch heq
            exact hst.configurations e' config' (Dict.lookup_erase_eq_some.mp hkept).2

theorem ensures_getFederationFetchEndpoint_known (a : EntityId) :
    Ensures (CachesKnown known) (getFederationFetchEndpoint env a) (fun _ => True) := by
  refine (ensures_configCacheItem_known a).bind fun entry _ => ?_
  have hrest : ∀ known' : Json, Ensures (CachesKnown known) (if known'.truthy then pure known'
      else getEntityConfiguration env a >>= fun signedEntityConfig =>
        verifySelfSignedSignature env signedEntityConfig >>= fun config =>
        lift (getEndpoint "fetch" config.payload) >>= fun fedFetchEndpoint =>
        configCacheSet a (.dict config) >>= fun _ => pure fedFetchEndpoint) (fun _ => True) := by
    intro known'
    by_cases htruthy : known'.truthy = true
    · rw [if_pos htruthy]
      exact ensures_pure trivial
    · rw [if_neg htruthy]
      refine (ensures_getEntityConfiguration hanswers a).bind fun token htoken => ?_
      refine (ensures_verifySelfSignedSignature htoken).bind fun config hconfig => ?_
      refine (ensures_lift fun _ _ => trivial).bind fun endpoint (_ : True) => ?_
      exact (ensures_configCacheSet a hconfig).bind fun _ _ => ensures_pure trivial
  cases entry with
  | none => exact hrest .null
  | some config => exact (ensures_lift fun _ _ => trivial).bind fun _ (_ : True) => hrest _

/-! ## Entity statements -/

omit hanswers [DecidableEq Key] in
theorem ensures_cachedEntityStatement_known (e a : EntityId) :
    Ensures (CachesKnown known) (cachedEntityStatement env e a)
      (fun found => ∀ token ∈ found, KnownToken known token) := by
  refine ensures_get.bind fun st hst => ?_
  cases hlookup : st.entityStatementCache.lookup (cacheKey a e) with
  | none => exact ensures_pure fun _ h => nomatch h
  | some entry =>
      refine ensures_utcTimeSansFrac.bind fun now _ => ?_
      cases st.entityStatementCache.lookup (timeKey a e) with
      | none => exact ensures_throw _
      | some time =>
          cases time with
          | jwt token => exact ensures_throw _
          | exp exp =>
              by_cases hold : now > exp - env.allowedDelta
              · simp only [if_pos hold]
                refine (ensures_modify fun st hst => ⟨hst.configurations, fun key token h => ?_⟩).bind
                  fun _ (_ : True) => ensures_pure fun _ h => nomatch h
                have hbefore := (Dict.lookup_erase_eq_some.mp h).2
                exact hst.statements key token (Dict.lookup_erase_eq_some.mp hbefore).2
              · simp only [if_neg hold]
                refine ensures_pure fun token htoken => ?_
                obtain rfl := Option.mem_some.mp htoken
                cases entry with
                | jwt token => exact hst.statements _ token hlookup
                -- a time that is taken for a token is no statement
                | exp time => exact knownToken_text _

theorem ensures_fetchEntityStatement_known (e a : EntityId) :
    Ensures (CachesKnown known) (fetchEntityStatement env e a)
      (fun found => ∀ token ∈ found, KnownToken known token) := by
  refine (ensures_getFederationFetchEndpoint_known hanswers a).bind fun endpoint _ => ?_
  by_cases htruthy : (!endpoint.truthy) = true
  · rw [if_pos htruthy]
    exact ensures_pure fun _ h => nomatch h
  · rw [if_neg htruthy]
    refine (ensures_getEntityStatement hanswers endpoint a e).bind fun token htoken => ?_
    refine (ensures_lift fun _ _ => trivial).bind fun statement (_ : True) => ?_
    refine Ensures.bind (ensures_modify fun st hst => ⟨hst.configurations, ?_⟩)
      fun _ (_ : True) => ensures_pure fun token' htoken' => ?_
    · -- what is new is the token, under one of the two names
      intro key token' h
      rcases Dict.lookup_insert_eq_some.mp h with ⟨-, heq⟩ | ⟨-, h⟩
      · exact absurd heq (by simp)
      · rcases Dict.lookup_insert_eq_some.mp h with ⟨-, heq⟩ | ⟨-, hbefore⟩
        · obtain rfl := CachedStatement.jwt.inj heq
          exact htoken
        · exact hst.statements key token' hbefore
    · obtain rfl := Option.mem_some.mp htoken'
      exact htoken

theorem ensures_getEntityStatementFor_known (e a : EntityId) :
    Ensures (CachesKnown known) (getEntityStatementFor env e a)
      (fun found => ∀ token ∈ found, KnownToken known token) := by
  refine (ensures_cachedEntityStatement_known e a).bind fun cached hcached => ?_
  cases cached with
  | some token => exact ensures_pure hcached
  | none => exact ensures_fetchEntityStatement_known hanswers e a

/-! ## The tree of superiors -/

theorem ensures_collectBranch_known
    {collectTree : EntityId → Option (Statement Key) → List EntityId →
      EStateM Exc (CollectorState Key) (Tree Key)}
    (hlevel : ∀ a config seen, Ensures (CachesKnown known) (collectTree a config seen)
      (KnownTree known a))
    (e a : EntityId) (seen : List EntityId) :
    Ensures (CachesKnown known) (collectBranch env collectTree e a seen)
      (fun branch => ∀ s above, branch = some (s, above) →
        KnownToken known s ∧ KnownTree known a above) := by
  unfold collectBranch
  by_cases hself : (e = a && decide (e ∈ env.trustAnchors)) = true
  · rw [if_pos hself]
    exact ensures_pure fun _ _ heq => nomatch heq
  · rw [if_neg hself]
    refine (ensures_getEntityStatementFor_known hanswers e a).bind fun found hfound => ?_
    cases found with
    | none => exact ensures_pure fun _ _ heq => nomatch heq
    | some token =>
        by_cases htruthy : (!tokenTruthy token) = true
        · simp only [if_pos htruthy]
          exact ensures_pure fun _ _ heq => nomatch heq
        · simp only [if_neg htruthy]
          refine (ensures_configCacheItem_known a).bind fun read _ => ?_
          refine (hlevel a _ _).bind fun above habove => ensures_pure fun s above' heq => ?_
          obtain ⟨rfl, rfl⟩ := Prod.mk.inj (Option.some.inj heq)
          exact ⟨hfound token rfl, habove⟩

theorem ensures_collectSuperiors_known
    {collectTree : EntityId → Option (Statement Key) → List EntityId →
      EStateM Exc (CollectorState Key) (Tree Key)}
    (hlevel : ∀ a config seen, Ensures (CachesKnown known) (collectTree a config seen)
      (KnownTree known a))
    (e : EntityId) (seen : List EntityId) {superior : Tree Key} (h : KnownTree known e superior)
    (hints : List EntityId) :
    Ensures (CachesKnown known) (collectSuperiors env collectTree e seen superior hints)
      (KnownTree known e) := by
  induction hints generalizing superior with
  | nil => exact ensures_pure h
  | cons a rest ih =>
      refine (ensures_collectBranch_known hanswers hlevel e a seen).bind fun branch hbranch => ?_
      exact ih (h.set hbranch)

theorem ensures_collectTree_known (stopAt : EntityId) (depth : Nat) (e : EntityId)
    (config : Option (Statement Key)) (seen : List EntityId) :
    Ensures (CachesKnown known) (collectTree env stopAt depth e config seen)
      (KnownTree known e) := by
  induction depth generalizing e config seen with
  | zero => exact ensures_throw _
  | succ depth ih =>
      unfold collectTree
      cases config with
      | none => exact ensures_throw _
      | some config =>
          cases hhints : config.authorityHints with
          | none =>
              simp only [hhints]
              exact ensures_pure (throughout_empty e)
          | some hints =>
              simp only [hhints]
              by_cases hstop : config.iss = stopAt
              · rw [if_pos hstop]
                exact ensures_pure (throughout_empty e)
              · rw [if_neg hstop]
                exact ensures_collectSuperiors_known hanswers ih e seen (throughout_empty e) hints

/-! ## The chains -/

theorem ensures_leafConfiguration_known (e : EntityId) :
    Ensures (CachesKnown known) (leafConfiguration env e)
      (fun found => ∀ config ∈ found, known config.jws) := by
  have hfetch : Ensures (CachesKnown known) (getEntityConfiguration env e >>= fun signed =>
      if !tokenTruthy signed then pure none
      else verifySelfSignedSignature env signed >>= fun config =>
        configCacheSet e (.dict config) >>= fun _ => pure (some config))
      (fun found => ∀ config ∈ found, known config.jws) := by
    refine (ensures_getEntityConfiguration hanswers e).bind fun token htoken => ?_
    by_cases htruthy : (!tokenTruthy token) = true
    · rw [if_pos htruthy]
      exact ensures_pure fun _ h => nomatch h
    · rw [if_neg htruthy]
      refine (ensures_verifySelfSignedSignature htoken).bind fun config hconfig => ?_
      refine (ensures_configCacheSet e hconfig).bind fun _ _ => ensures_pure fun config' h => ?_
      obtain rfl := Option.mem_some.mp h
      exact hconfig
  refine ensures_get.bind fun st hst => ?_
  cases hlookup : st.configCache.lookup e with
  | none => exact hfetch
  | some entry =>
      have hclock : Ensures (CachesKnown known) (tooOld env entry.payload) (fun _ => True) :=
        ensures_utcTimeSansFrac.bind fun _ _ => ensures_pure trivial
      refine hclock.bind fun old _ => ?_
      cases old with
      | true => exact hfetch
      | false =>
          cases entry with
          | message payload => exact ensures_throw _
          | dict config =>
              refine ensures_pure fun config' h => ?_
              obtain rfl := Option.mem_some.mp h
              exact hst.configurations e config hlookup

/-- What `collect_trust_chains` comes to is made of known statements, if the entity
    configuration that it may be given is one. -/
theorem ensures_collectTrustChains_known (e : EntityId) {token : Token Key}
    (htoken : KnownToken known token) (stopAt : EntityId) (hints : List EntityId) :
    Ensures (CachesKnown known) (collectTrustChains env e token stopAt hints)
      (fun p => (∀ c ∈ p.1, ∀ token ∈ c, KnownToken known token) ∧
        ∀ config ∈ p.2, known config.jws) := by
  have hcollect : Ensures (CachesKnown known) (collectFor env e token stopAt hints)
      (fun found => ∀ p ∈ found, KnownTree known e p.1 ∧ known p.2.jws) := by
    unfold collectFor
    by_cases hgiven : tokenTruthy token = true
    · rw [if_pos hgiven]
      have hverify : Ensures (CachesKnown known) (verifySelfSignedToken env token)
          (fun config => known config.jws) := by
        cases token with
        | text raw => exact ensures_throw _
        -- for a JWS the two functions of that name are one
        | jws s => exact ensures_verifySelfSignedSignature htoken
      refine hverify.bind fun config hconfig => ?_
      refine (ensures_collectTree_known hanswers stopAt _ e _ _).bind fun tree htree => ?_
      refine ensures_pure fun p hp => ?_
      obtain rfl := Option.mem_some.mp hp
      exact ⟨htree, hconfig⟩
    · rw [if_neg hgiven]
      refine (ensures_leafConfiguration_known hanswers e).bind fun found hfound => ?_
      cases found with
      | none => exact ensures_pure fun _ h => nomatch h
      | some config =>
          refine (ensures_collectTree_known hanswers stopAt _ e _ _).bind fun tree htree => ?_
          refine ensures_pure fun p hp => ?_
          obtain rfl := Option.mem_some.mp hp
          exact ⟨htree, hfound config rfl⟩
  refine hcollect.bind fun found hfound => ?_
  cases found with
  | none => exact ensures_pure ⟨fun _ h => absurd h List.not_mem_nil, fun _ h => nomatch h⟩
  | some p =>
      obtain ⟨tree, config⟩ := p
      obtain ⟨htree, hconfig⟩ := hfound _ rfl
      have hleaf : ∀ config' ∈ some config, known config'.jws := by
        intro config' h
        obtain rfl := Option.mem_some.mp h
        exact hconfig
      by_cases hempty : tree.isEmpty = true
      · simp only [hempty, if_true]
        exact ensures_pure ⟨fun _ h => absurd h List.not_mem_nil, hleaf⟩
      · simp only [hempty, Bool.false_eq_true, if_false]
        exact ensures_pure ⟨htree.tree2chains, hleaf⟩

end Asking

end Fedservice.Entity.Function
