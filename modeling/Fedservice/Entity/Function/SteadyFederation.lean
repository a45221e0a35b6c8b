/-
  Fedservice.Entity.Function.SteadyFederation

  A federation at one point in time: the servers answer the same whenever they
  are asked, and nothing they publish expires while the collector is at work.
  Caches that hold what is published stay so whatever is asked, and `collect_tree`
  then computes the tree of superiors that is published.
-/

import Fedservice.Entity.Function.ConfigCache
import Mathlib.Data.Finset.Insert

namespace Fedservice.Entity.Function

open Fedservice.Lib Fedservice.Py Fedservice.EntityStatement Fedservice.Entity.Client

variable {Key : Type}

/-! ## A steady federation -/

/-- The cache keys of entities do not get into each other's way. -/
def CacheKeysApart (entities : Finset EntityId) : Prop :=
  ∀ a ∈ entities, ∀ e ∈ entities, ∀ a' ∈ entities, ∀ e' ∈ entities,
    (cacheKey a e = cacheKey a' e' → a = a' ∧ e = e') ∧
    (timeKey a e = timeKey a' e' → a = a' ∧ e = e') ∧ cacheKey a e ≠ timeKey a' e'

/-- The servers of the entities answer the same whenever they are asked, what they
    publish does not expire meanwhile, and nobody refers to anybody else. -/
structure Steady [DecidableEq Key] (env : CollectorEnv Key) (entities : Finset EntityId) :
    Prop where
  httpc : ∀ n url, env.httpc n url = env.httpc 0 url
  unpackRejects : ∀ n config,
    env.unpackRejects (env.now n) config = env.unpackRejects (env.now 0) config
  current : ∀ n, ∀ e ∈ entities, ∀ config, configuration env e = .ok config →
    decide (env.now n < config.payload.exp - env.allowedDelta) = isCurrent env config.payload
  closed : ∀ e ∈ entities, ∀ config, configuration env e = .ok config →
    ∀ a ∈ config.payload.authorityHints.getD [], a ∈ entities
  apart : CacheKeysApart entities

/-- The caches hold what is published: this is kept by everything the collector
    does, and empty caches do. -/
structure Reflects [DecidableEq Key] (env : CollectorEnv Key) (entities : Finset EntityId)
    (st : CollectorState Key) : Prop where
  configs : ∀ e ∈ entities, ∀ entry, st.configCache.lookup e = some entry →
    ∃ config, entry = .dict config ∧ configuration env e = .ok config
  statements : ∀ a ∈ entities, ∀ e ∈ entities, ∀ entry,
    st.entityStatementCache.lookup (cacheKey a e) = some entry →
      ∃ token exp, entry = .jwt token ∧ statementAbout env e a = .ok (some token) ∧
        st.entityStatementCache.lookup (timeKey a e) = some (.exp exp)
  known : ∀ a ∈ entities, ∀ e ∈ entities, ∀ config,
    (st.entityStatementCache.lookup (cacheKey a e)).isSome → configuration env a = .ok config →
      isCurrent env config.payload = true → a ∈ st.configCache

/-! ## Asking -/

/-- A computation that asks around, comes to `r` and leaves the caches alone. -/
def Asks {α : Type} (m : EStateM Exc (CollectorState Key) α) (r : Except Exc α) : Prop :=
  ∀ st, ∃ n, m st = lift r { st with asked := n }

theorem Asks.outcome_eq {α : Type} {m : EStateM Exc (CollectorState Key) α} {r : Except Exc α}
    (h : Asks m r) (st : CollectorState Key) : outcome (m st) = r := by
  obtain ⟨n, hm⟩ := h st
  rw [hm, outcome_lift]

/-- What it comes to is what it comes to when it is run. -/
theorem Asks.self {α : Type} {m : EStateM Exc (CollectorState Key) α} {r : Except Exc α}
    (h : Asks m r) (st : CollectorState Key) : Asks m (outcome (m st)) := by
  rw [h.outcome_eq]
  exact h

theorem asks_lift {α : Type} (r : Except Exc α) :
    Asks (lift r : EStateM Exc (CollectorState Key) α) r :=
  fun st => ⟨st.asked, rfl⟩

theorem asks_throw {α : Type} (e : Exc) :
    Asks (throw e : EStateM Exc (CollectorState Key) α) (.error e) :=
  fun st => ⟨st.asked, rfl⟩

theorem Asks.bind {α β : Type} {m : EStateM Exc (CollectorState Key) α} {r : Except Exc α}
    {f : α → EStateM Exc (CollectorState Key) β} {g : α → Except Exc β} (hm : Asks m r)
    (hf : ∀ a, r = .ok a → Asks (f a) (g a)) : Asks (m >>= f) (r >>= g) := by
  intro st
  obtain ⟨n, hst⟩ := hm st
  cases r with
  | ok a =>
      obtain ⟨n', hst'⟩ := hf a rfl { st with asked := n }
      exact ⟨n', by rw [bind_of_ok hst, hst']; rfl⟩
  | error e => exact ⟨n, by rw [bind_of_error hst]; rfl⟩

theorem Asks.tryCatch {α : Type} {m : EStateM Exc (CollectorState Key) α} {r : Except Exc α}
    {f : Exc → EStateM Exc (CollectorState Key) α} {g : Exc → Except Exc α} (hm : Asks m r)
    (hf : ∀ e, Asks (f e) (g e)) : Asks (tryCatch m f) (tryCatch r g) := by
  intro st
  obtain ⟨n, hst⟩ := hm st
  cases r with
  | ok a => exact ⟨n, tryCatch_of_ok hst⟩
  | error e =>
      obtain ⟨n', hst'⟩ := hf e { st with asked := n }
      exact ⟨n', (tryCatch_of_error hst).trans hst'⟩

/-- Something comes of asking twice if it does of each. -/
theorem exists_asks_bind {α β : Type} {m : EStateM Exc (CollectorState Key) α}
    {f : α → EStateM Exc (CollectorState Key) β} (hm : ∃ r, Asks m r)
    (hf : ∀ a, ∃ r, Asks (f a) r) : ∃ r, Asks (m >>= f) r := by
  obtain ⟨r, hr⟩ := hm
  choose g hg using hf
  exact ⟨r >>= g, hr.bind fun a _ => hg a⟩

theorem exists_asks_tryCatch {α : Type} {m : EStateM Exc (CollectorState Key) α}
    {f : Exc → EStateM Exc (CollectorState Key) α} (hm : ∃ r, Asks m r)
    (hf : ∀ e, ∃ r, Asks (f e) r) : ∃ r, Asks (tryCatch m f) r := by
  obtain ⟨r, hr⟩ := hm
  choose g hg using hf
  exact ⟨tryCatch r g, hr.tryCatch hg⟩

/-- Reading the clock makes no difference to what comes after it, if that does not
    look at the time. -/
theorem asks_of_clock {α : Type} {env : CollectorEnv Key}
    {f : Int → EStateM Exc (CollectorState Key) α} {r : Except Exc α}
    (hf : ∀ n, Asks (f (env.now n)) r) : Asks (utcTimeSansFrac env >>= f) r := by
  intro st
  have hclock : utcTimeSansFrac env st = .ok (env.now st.asked) { st with asked := st.asked + 1 } :=
    rfl
  rw [bind_of_ok hclock]
  exact hf st.asked { st with asked := st.asked + 1 }

section Asking

variable [DecidableEq Key] {env : CollectorEnv Key} {entities : Finset EntityId}

theorem Steady.getDocument (h : Steady env entities) (url : String) :
    Asks (getDocument env url) (outcome (getDocument env url {})) := by
  intro st
  refine ⟨st.asked + 1, ?_⟩
  have hget : ∀ st : CollectorState Key, httpGet env url st =
      .ok (env.httpc 0 url) { st with asked := st.asked + 1 } := by
    intro st
    rw [← h.httpc st.asked url]
    rfl
  unfold Function.getDocument
  rw [bind_of_ok (hget st), bind_of_ok (hget {})]
  cases env.httpc 0 url with
  | connectionError => rfl
  | reply status contentType text =>
      by_cases hfound : status = 200
      · cases contentType <;> simp [hfound]
      · by_cases hmissing : status = 404 <;> simp [hfound, hmissing]

theorem Steady.getEntityConfiguration (h : Steady env entities) (e : EntityId) :
    Asks (getEntityConfiguration env e) (document env e) := by
  -- at most two documents are asked for, at URLs that the ID gives
  have hasks : ∃ r, Asks (Function.getEntityConfiguration env e) r := by
    refine exists_asks_bind ⟨_, asks_lift _⟩ fun url => ?_
    refine exists_asks_tryCatch ⟨_, h.getDocument url⟩ fun err => ?_
    cases err with
    | missingPage message =>
        refine exists_asks_bind ⟨_, asks_lift _⟩ fun tenantUrl => ?_
        by_cases hsame : tenantUrl ≠ url
        · rw [if_pos hsame]
          exact ⟨_, h.getDocument tenantUrl⟩
        · rw [if_neg hsame]
          exact ⟨_, asks_throw _⟩
    | _ => exact ⟨_, asks_throw _⟩
  obtain ⟨r, hr⟩ := hasks
  exact hr.self {}

theorem Steady.getEntityStatement (h : Steady env entities) (location : Json) (a e : EntityId) :
    Asks (getEntityStatement env location a e) (view env location a e) := by
  unfold view
  cases location with
  | str url => exact h.getDocument _
  | _ => exact asks_throw _

theorem Steady.unpackSelfSigned (h : Steady env entities) (s : SignedStatement Key) :
    Asks (unpackSelfSigned env s) (outcome (unpackSelfSigned env s {})) := by
  unfold Function.unpackSelfSigned
  by_cases hown : s.signer ∈ s.payload.keys
  · simp only [dif_pos hown]
    cases hrejects : env.unpackRejects (env.now 0) s.payload with
    | some err =>
        refine @Asks.self _ _ _ (.error err) (asks_of_clock fun n => ?_) {}
        rw [h.unpackRejects n, hrejects]
        exact asks_throw err
    | none =>
        refine @Asks.self _ _ _ (.ok ⟨s, hown⟩) (asks_of_clock fun n => ?_) {}
        rw [h.unpackRejects n, hrejects]
        exact asks_lift (.ok _)
  · simp only [dif_neg hown]
    exact asks_throw _

theorem Steady.verifySelfSignedSignature (h : Steady env entities) (statement : Token Key) :
    Asks (verifySelfSignedSignature env statement) (selfSigned env statement) := by
  have hasks : ∃ r, Asks (Function.verifySelfSignedSignature env statement) r := by
    refine exists_asks_bind ⟨_, asks_lift _⟩ fun s => ?_
    cases s.payload.jwks with
    | none => exact ⟨_, asks_throw _⟩
    | some jwks => exact ⟨_, h.unpackSelfSigned s⟩
  obtain ⟨r, hr⟩ := hasks
  exact hr.self {}

theorem Steady.verifySelfSignedToken (h : Steady env entities) (token : Token Key) :
    Asks (verifySelfSignedToken env token) (outcome (verifySelfSignedToken env token {})) := by
  unfold Function.verifySelfSignedToken
  cases hfactory : factory token with
  | none => exact asks_throw _
  | some s =>
      cases hjwks : s.payload.jwks with
      | none =>
          simp only [hjwks]
          exact asks_throw _
      | some jwks =>
          simp only [hjwks]
          exact h.unpackSelfSigned s

end Asking

/-! ## The caches of a steady federation -/

section Caches

variable [DecidableEq Key] {env : CollectorEnv Key} {entities : Finset EntityId}

/-- The caches are all that matters. -/
theorem Reflects.of_caches {st st' : CollectorState Key} (h : Reflects env entities st)
    (hconfigs : st'.configCache = st.configCache)
    (hstatements : st'.entityStatementCache = st.entityStatementCache) :
    Reflects env entities st' := by
  refine ⟨?_, ?_, ?_⟩
  · rw [hconfigs]
    exact h.configs
  · rw [hstatements]
    exact h.statements
  · rw [hconfigs, hstatements]
    exact h.known

/-- Empty caches reflect everything. -/
theorem reflects_empty : Reflects env entities ({} : CollectorState Key) := by
  refine ⟨?_, ?_, ?_⟩
  · intro e _ entry hentry
    exact absurd hentry (by simp)
  · intro a _ e _ entry hentry
    exact absurd hentry (by simp)
  · intro a _ e _ config hcached
    exact absurd hcached (by simp)

theorem Asks.yields {α : Type} {m : EStateM Exc (CollectorState Key) α} {r : Except Exc α}
    (h : Asks m r) : Yields (Reflects env entities) m r := by
  intro st hst
  obtain ⟨n, hm⟩ := h st
  rw [hm, outcome_lift, finalState_lift]
  exact ⟨rfl, hst.of_caches rfl rfl⟩

/-- Reading the configuration cache: what is read is what is published, and it is
    found if it was there and is current. -/
theorem Steady.configCacheItem (h : Steady env entities) {e : EntityId} (he : e ∈ entities)
    {st : CollectorState Key} (hst : Reflects env entities st) :
    ∃ entry st', configCacheItem env e st = .ok entry st' ∧ Reflects env entities st' ∧
      st'.entityStatementCache = st.entityStatementCache ∧
      (entry = none ∨ ∃ config, entry = some (.dict config) ∧ e ∈ st'.configCache ∧
        configuration env e = .ok config ∧ isCurrent env config.payload = true) ∧
      (∀ config, e ∈ st.configCache → configuration env e = .ok config →
        isCurrent env config.payload = true → entry = some (.dict config)) := by
  unfold Function.configCacheItem
  rw [bind_of_ok (get_apply st)]
  cases hlookup : st.configCache.lookup e with
  | none =>
      refine ⟨none, st, rfl, hst, rfl, Or.inl rfl, fun config hmem => ?_⟩
      exact absurd hmem (AList.lookup_eq_none.mp hlookup)
  | some entry =>
      obtain ⟨config, rfl, hconfig⟩ := hst.configs e he entry hlookup
      have hclock : utcTimeSansFrac env st =
          .ok (env.now st.asked) { st with asked := st.asked + 1 } := rfl
      simp only
      rw [bind_of_ok hclock]
      have hcurrent := h.current st.asked e he config hconfig
      by_cases hfresh : env.now st.asked < config.payload.exp - env.allowedDelta
      · -- fresh: it stays
        rw [if_pos hfresh]
        rw [decide_eq_true hfresh] at hcurrent
        refine ⟨_, _, rfl, hst.of_caches rfl rfl, rfl,
          Or.inr ⟨config, rfl, Dict.mem_iff_lookup.mpr ⟨_, hlookup⟩, hconfig, hcurrent.symm⟩, ?_⟩
        intro config' _ hconfig' _
        rw [hconfig] at hconfig'
        rw [Except.ok.inj hconfig']
      · -- stale: it goes, but nothing that is current goes with it
        rw [if_neg hfresh]
        rw [decide_eq_false hfresh] at hcurrent
        refine ⟨none, _, rfl, ⟨?_, hst.statements, ?_⟩, rfl, Or.inl rfl, ?_⟩
        · intro e' he' entry' hentry'
          refine hst.configs e' he' entry' ?_
          by_cases hsame : e' = e
          · rw [hsame, AList.lookup_erase] at hentry'
            exact absurd hentry' (by simp)
          · rwa [AList.lookup_erase_ne hsame] at hentry'
        · intro a ha e' he' config' hcached hconfig' hcurrent'
          have hne : a ≠ e := by
            rintro rfl
            rw [hconfig, Except.ok.injEq] at hconfig'
            rw [← hconfig', ← hcurrent] at hcurrent'
            exact absurd hcurrent' (by simp)
          have hmem := hst.known a ha e' he' config' hcached hconfig' hcurrent'
          exact AList.mem_erase.mpr ⟨hne, hmem⟩
        · intro config' _ hconfig' hcurrent'
          rw [hconfig, Except.ok.injEq] at hconfig'
          rw [← hconfig', ← hcurrent] at hcurrent'
          exact absurd hcurrent' (by simp)

/-- Writing to it what is published. -/
theorem Reflects.configCacheSet {e : EntityId} {config : SelfSigned Key}
    (hconfig : configuration env e = .ok config) {st : CollectorState Key}
    (hst : Reflects env entities st) :
    Reflects env entities
      { st with configCache := st.configCache.insert e (.dict config) } := by
  refine ⟨?_, hst.statements, ?_⟩
  · intro e' he' entry hentry
    rcases Dict.lookup_insert_eq_some.mp hentry with ⟨rfl, rfl⟩ | ⟨-, hentry⟩
    · exact ⟨config, rfl, hconfig⟩
    · exact hst.configs e' he' entry hentry
  · intro a ha e' he' config' hcached hconfig' hcurrent'
    exact (AList.mem_insert _).mpr (Or.inr (hst.known a ha e' he' config' hcached hconfig' hcurrent'))

/-- Fetching a configuration and checking it. -/
theorem Steady.configuration (h : Steady env entities) (e : EntityId) :
    Yields (Reflects env entities)
      (Function.getEntityConfiguration env e >>= Function.verifySelfSignedSignature env)
      (configuration env e) :=
  Asks.yields ((h.getEntityConfiguration e).bind fun t _ => h.verifySelfSignedSignature t)

/-- The second half of `get_federation_fetch_endpoint`. -/
theorem yields_updateCache {a : EntityId} {config : SelfSigned Key}
    (hconfig : configuration env a = .ok config) :
    Yields (Reflects env entities)
      (lift (getEndpoint "fetch" config.payload) >>= fun fedFetchEndpoint =>
        Function.configCacheSet a (.dict config) >>= fun _ => pure fedFetchEndpoint)
      (getEndpoint "fetch" config.payload) := by
  intro st hst
  cases hendpoint : getEndpoint "fetch" config.payload with
  | error e => exact ⟨rfl, hst⟩
  | ok endpoint => exact ⟨rfl, hst.configCacheSet hconfig⟩

/-- `get_federation_fetch_endpoint`. -/
theorem Steady.getFederationFetchEndpoint (h : Steady env entities) {a : EntityId}
    (ha : a ∈ entities) :
    Yields (Reflects env entities) (getFederationFetchEndpoint env a) (fetchEndpoint env a) := by
  intro st hst
  obtain ⟨entry, st₁, hread, hst₁, -, hentry, -⟩ := h.configCacheItem ha hst
  -- what is asked for when the cache does not help
  have hfetch : Yields (Reflects env entities) _ (fetchEndpoint env a) :=
    (h.configuration a).bind fun config hconfig => yields_updateCache hconfig
  rw [bind_assoc] at hfetch
  unfold Function.getFederationFetchEndpoint
  rw [bind_of_ok hread]
  rcases hentry with rfl | ⟨config, rfl, -, hconfig, -⟩
  · exact hfetch st₁ hst₁
  · have hendpoint : fetchEndpoint env a = getEndpoint "fetch" config.payload := by
      rw [fetchEndpoint, hconfig]
      rfl
    simp only [CachedConfig.payload]
    cases hknown : getEndpoint "fetch" config.payload with
    | error e =>
        rw [hendpoint, hknown]
        exact ⟨rfl, hst₁⟩
    | ok known =>
        rw [bind_of_ok (lift_ok known st₁)]
        by_cases htruthy : known.truthy = true
        · rw [if_pos htruthy, hendpoint, hknown]
          exact ⟨rfl, hst₁⟩
        · rw [if_neg htruthy]
          exact hfetch st₁ hst₁

/-- The statement of one authority about one entity is dropped from the cache. -/
theorem Reflects.forget (hapart : CacheKeysApart entities) {a e : EntityId} (ha : a ∈ entities)
    (he : e ∈ entities) {st : CollectorState Key} (hst : Reflects env entities st) :
    Reflects env entities { st with entityStatementCache :=
      (st.entityStatementCache.erase (cacheKey a e)).erase (timeKey a e) } := by
  -- what is found afterwards was there before, and so was its time
  have hkept : ∀ a' ∈ entities, ∀ e' ∈ entities, ∀ entry,
      ((st.entityStatementCache.erase (cacheKey a e)).erase (timeKey a e)).lookup
        (cacheKey a' e') = some entry →
      st.entityStatementCache.lookup (cacheKey a' e') = some entry ∧
        ((st.entityStatementCache.erase (cacheKey a e)).erase (timeKey a e)).lookup
          (timeKey a' e') = st.entityStatementCache.lookup (timeKey a' e') := by
    intro a' ha' e' he' entry hentry
    obtain ⟨-, htime, -⟩ := hapart a' ha' e' he' a ha e he
    obtain ⟨-, -, hcross'⟩ := hapart a ha e he a' ha' e' he'
    obtain ⟨-, hentry⟩ := Dict.lookup_erase_eq_some.mp hentry
    obtain ⟨hsame, hentry⟩ := Dict.lookup_erase_eq_some.mp hentry
    have hother : timeKey a' e' ≠ timeKey a e := by
      intro heq
      obtain ⟨rfl, rfl⟩ := htime heq
      exact hsame rfl
    refine ⟨hentry, ?_⟩
    rw [Dict.lookup_erase', if_neg hother, Dict.lookup_erase', if_neg (Ne.symm hcross')]
  refine ⟨hst.configs, ?_, ?_⟩
  · intro a' ha' e' he' entry hentry
    obtain ⟨hbefore, htime⟩ := hkept a' ha' e' he' entry hentry
    simp only [htime]
    exact hst.statements a' ha' e' he' entry hbefore
  · intro a' ha' e' he' config hcached
    obtain ⟨entry, hentry⟩ := Option.isSome_iff_exists.mp hcached
    refine hst.known a' ha' e' he' config ?_
    rw [(hkept a' ha' e' he' entry hentry).1]
    rfl

/-- What an authority says about an entity is put into the cache, with its time. -/
theorem Reflects.remember (hapart : CacheKeysApart entities) {a e : EntityId} (ha : a ∈ entities)
    (he : e ∈ entities) {token : Token Key} (hsaid : statementAbout env e a = .ok (some token))
    {st : CollectorState Key} (hknown : a ∈ st.configCache) (exp : Int)
    (hst : Reflects env entities st) :
    Reflects env entities { st with
      entityStatementCache := (st.entityStatementCache.insert (cacheKey a e)
        (.jwt token)).insert (timeKey a e) (.exp exp) } := by
  refine ⟨hst.configs, ?_, ?_⟩
  · intro a' ha' e' he' entry hentry
    obtain ⟨hcache, htime, hcross⟩ := hapart a' ha' e' he' a ha e he
    obtain ⟨-, -, hcross'⟩ := hapart a ha e he a' ha' e' he'
    rw [Dict.lookup_insert', if_neg hcross] at hentry
    rcases Dict.lookup_insert_eq_some.mp hentry with ⟨hsame, rfl⟩ | ⟨hsame, hentry⟩
    · obtain ⟨rfl, rfl⟩ := hcache hsame
      refine ⟨token, exp, rfl, hsaid, ?_⟩
      simp only [AList.lookup_insert]
    · have hother : timeKey a' e' ≠ timeKey a e := by
        intro heq
        obtain ⟨rfl, rfl⟩ := htime heq
        exact hsame rfl
      simp only [Dict.lookup_insert', if_neg hother, if_neg (Ne.symm hcross')]
      exact hst.statements a' ha' e' he' entry hentry
  · intro a' ha' e' he' config hcached hconfig hcurrent
    obtain ⟨hcache, -, hcross⟩ := hapart a' ha' e' he' a ha e he
    simp only [Dict.lookup_insert', if_neg hcross] at hcached
    by_cases hsame : cacheKey a' e' = cacheKey a e
    · rw [(hcache hsame).1]
      exact hknown
    · rw [if_neg hsame] at hcached
      exact hst.known a' ha' e' he' config hcached hconfig hcurrent

/-- Reading the cache of entity statements: what is read is what the authority says. -/
theorem Steady.cachedEntityStatement (h : Steady env entities) {a e : EntityId}
    (ha : a ∈ entities) (he : e ∈ entities) {st : CollectorState Key}
    (hst : Reflects env entities st) :
    ∃ cached st', cachedEntityStatement env e a st = .ok cached st' ∧ Reflects env entities st' ∧
      (cached = none ∨ ∃ token, cached = some token ∧
        statementAbout env e a = .ok (some token) ∧
        (st'.entityStatementCache.lookup (cacheKey a e)).isSome) := by
  unfold Function.cachedEntityStatement
  rw [bind_of_ok (get_apply st)]
  cases hlookup : st.entityStatementCache.lookup (cacheKey a e) with
  | none => exact ⟨none, st, rfl, hst, Or.inl rfl⟩
  | some entry =>
      obtain ⟨token, exp, rfl, hsaid, htime⟩ := hst.statements a ha e he entry hlookup
      have hclock : utcTimeSansFrac env st =
          .ok (env.now st.asked) { st with asked := st.asked + 1 } := rfl
      have hst₁ : Reflects env entities { st with asked := st.asked + 1 } := hst.of_caches rfl rfl
      simp only
      rw [bind_of_ok hclock]
      simp only [htime]
      by_cases hold : env.now st.asked > exp - env.allowedDelta
      · -- too old: it goes, and its time with it
        rw [if_pos hold]
        exact ⟨none, _, rfl, hst₁.forget h.apart ha he, Or.inl rfl⟩
      · rw [if_neg hold]
        refine ⟨_, _, rfl, hst₁, Or.inr ⟨token, rfl, hsaid, ?_⟩⟩
        rw [hlookup]
        rfl

/-- Asking the authority, and keeping its answer. -/
theorem Steady.fetchEntityStatement (h : Steady env entities) {a e : EntityId}
    (ha : a ∈ entities) (he : e ∈ entities) {st : CollectorState Key}
    (hst : Reflects env entities st) :
    outcome (fetchEntityStatement env e a st) = statementAbout env e a ∧
      Reflects env entities (finalState (fetchEntityStatement env e a st)) ∧
      ∀ token st', fetchEntityStatement env e a st = .ok (some token) st' →
        (st'.entityStatementCache.lookup (cacheKey a e)).isSome := by
  obtain ⟨hlocation, hst₁⟩ := h.getFederationFetchEndpoint ha st hst
  unfold Function.fetchEntityStatement
  cases hendpoint : Function.getFederationFetchEndpoint env a st with
  | error err st₁ =>
      rw [hendpoint] at hlocation hst₁
      rw [bind_of_error hendpoint, statementAbout, ← hlocation]
      exact ⟨rfl, hst₁, fun token st' heq => absurd heq (by simp)⟩
  | ok location st₁ =>
      have hmem := mem_of_getFederationFetchEndpoint hendpoint
      rw [hendpoint] at hlocation hst₁
      have hsaid : statementAbout env e a =
          if !location.truthy then .ok none
          else view env location a e >>= fun entityStatement =>
            unverifiedEntityStatement entityStatement >>= fun _ => .ok (some entityStatement) := by
        rw [statementAbout, ← hlocation]
        rfl
      rw [bind_of_ok hendpoint, hsaid]
      by_cases htruthy : (!location.truthy) = true
      · rw [if_pos htruthy, if_pos htruthy]
        exact ⟨rfl, hst₁, fun token st' heq => absurd heq (by simp)⟩
      · rw [if_neg htruthy] at hsaid ⊢
        rw [if_neg htruthy]
        obtain ⟨n, hview⟩ := h.getEntityStatement location a e st₁
        cases hdocument : view env location a e with
        | error err =>
            rw [hdocument] at hview
            rw [bind_of_error hview]
            exact ⟨rfl, hst₁.of_caches rfl rfl, fun token st' heq => absurd heq (by simp)⟩
        | ok token =>
            rw [hdocument, except_ok_bind] at hsaid
            rw [hdocument] at hview
            rw [bind_of_ok hview, except_ok_bind]
            cases hunverified : unverifiedEntityStatement token with
            | error err =>
                rw [bind_of_error (lift_error err _)]
                exact ⟨rfl, hst₁.of_caches rfl rfl, fun token st' heq => absurd heq (by simp)⟩
            | ok statement =>
                rw [hunverified, except_ok_bind] at hsaid
                have hst₂ : Reflects env entities { st₁ with asked := n } :=
                  hst₁.of_caches rfl rfl
                have hmem₂ : a ∈ ({ st₁ with asked := n } : CollectorState Key).configCache := hmem
                refine ⟨rfl, hst₂.remember h.apart ha he hsaid hmem₂ statement.payload.exp, ?_⟩
                intro token' st' heq
                obtain ⟨-, rfl⟩ := EStateM.Result.ok.inj heq
                obtain ⟨-, -, hcross⟩ := h.apart a ha e he a ha e he
                simp only [Dict.lookup_insert', if_neg hcross, if_true, Option.isSome_some]

/-- `_get_entity_statement`. -/
theorem Steady.getEntityStatementFor (h : Steady env entities) {a e : EntityId}
    (ha : a ∈ entities) (he : e ∈ entities) {st : CollectorState Key}
    (hst : Reflects env entities st) :
    outcome (getEntityStatementFor env e a st) = statementAbout env e a ∧
      Reflects env entities (finalState (getEntityStatementFor env e a st)) ∧
      ∀ token st', getEntityStatementFor env e a st = .ok (some token) st' →
        (st'.entityStatementCache.lookup (cacheKey a e)).isSome := by
  obtain ⟨cached, st₁, hread, hst₁, hcached⟩ := h.cachedEntityStatement ha he hst
  unfold Function.getEntityStatementFor
  rw [bind_of_ok hread]
  rcases hcached with rfl | ⟨token, rfl, hsaid, hsome⟩
  · exact h.fetchEntityStatement ha he hst₁
  · refine ⟨hsaid.symm, hst₁, ?_⟩
    intro token' st' heq
    obtain ⟨-, rfl⟩ := EStateM.Result.ok.inj heq
    exact hsome

end Caches

/-! ## What the collector finds -/

section Collecting

variable [DecidableEq Key] {env : CollectorEnv Key} {entities : Finset EntityId}

/-- One level of `collect_tree`, given that the next one is as it should be. -/
theorem Steady.collectBranch (h : Steady env entities)
    {collectTree : EntityId → Option (Statement Key) → List EntityId →
      EStateM Exc (CollectorState Key) (Tree Key)}
    {above : EntityId → Option (Statement Key) → Except Exc (Tree Key)}
    (hlevel : ∀ a ∈ entities, ∀ config, (∀ c ∈ config, ∀ b ∈ c.authorityHints.getD [], b ∈ entities) →
      ∀ seen, Yields (Reflects env entities) (collectTree a config seen) (above a config))
    {a e : EntityId} (ha : a ∈ entities) (he : e ∈ entities) (seen : List EntityId) :
    Yields (Reflects env entities) (collectBranch env collectTree e a seen)
      (branch env above e a) := by
  unfold Function.collectBranch branch
  by_cases hself : (e = a && decide (e ∈ env.trustAnchors)) = true
  · rw [if_pos hself, if_pos hself]
    exact yields_pure _
  · rw [if_neg hself, if_neg hself]
    intro st hst
    obtain ⟨hsaid, hst₁, hcached⟩ := h.getEntityStatementFor ha he hst
    cases hget : Function.getEntityStatementFor env e a st with
    | error err st₁ =>
        rw [hget] at hsaid hst₁
        rw [bind_of_error hget, ← hsaid]
        exact ⟨rfl, hst₁⟩
    | ok found st₁ =>
        rw [hget, outcome_ok] at hsaid
        rw [hget, finalState_ok] at hst₁
        rw [bind_of_ok hget, ← hsaid, except_ok_bind]
        cases found with
        | none => exact ⟨rfl, hst₁⟩
        | some token =>
            obtain ⟨⟨config, hconfig⟩, s, rfl⟩ := statementAbout_eq_some hsaid.symm
            obtain ⟨entry, st₂, hread, hst₂, -, hentry, hfound⟩ := h.configCacheItem ha hst₁
            -- the configuration is still there exactly if it is current
            have hkept : entry.map (·.payload) =
                if isCurrent env config.payload then some config.payload else none := by
              by_cases hcurrent : isCurrent env config.payload = true
              · have hmem := hst₁.known a ha e he config (hcached _ _ hget) hconfig hcurrent
                rw [if_pos hcurrent, hfound config hmem hconfig hcurrent]
                rfl
              · rw [if_neg hcurrent]
                rcases hentry with rfl | ⟨config', -, -, hconfig', hcurrent'⟩
                · rfl
                · rw [hconfig, Except.ok.injEq] at hconfig'
                  exact absurd (hconfig' ▸ hcurrent') hcurrent
            have hnext : ∀ c ∈ entry.map (·.payload), ∀ b ∈ c.authorityHints.getD [],
                b ∈ entities := by
              intro c hc
              rw [hkept] at hc
              obtain ⟨-, heq⟩ := Option.ite_none_right_eq_some.mp hc
              obtain rfl := Option.some.inj heq
              exact h.closed a ha config hconfig
            simp only [tokenTruthy, Bool.not_true, Bool.false_eq_true, if_false]
            rw [bind_of_ok hread, hconfig, except_ok_bind, ← hkept]
            exact ((hlevel a ha _ hnext (seen ++ [a])).bind
              fun tree _ => yields_pure (some (Token.jws s, tree))) st₂ hst₂

/-- The loop over the authority hints. -/
theorem Steady.collectSuperiors {collectTree : EntityId → Option (Statement Key) →
      List EntityId → EStateM Exc (CollectorState Key) (Tree Key)}
    {branchOf : EntityId → Except Exc (Option (Token Key × Tree Key))} {e : EntityId}
    {seen : List EntityId} {hints : List EntityId}
    (hbranch : ∀ a ∈ hints,
      Yields (Reflects env entities) (Function.collectBranch env collectTree e a seen) (branchOf a))
    (superior : Tree Key) :
    Yields (Reflects env entities) (collectSuperiors env collectTree e seen superior hints)
      (growTree branchOf superior hints) := by
  induction hints generalizing superior with
  | nil => exact yields_pure superior
  | cons a rest ih =>
      have hhere := hbranch a (List.mem_cons_self ..)
      exact hhere.bind fun value _ =>
        ih (fun b hb => hbranch b (List.mem_cons_of_mem a hb)) (superior.set a value)

/-- `collect_tree` computes the tree of superiors that is published. -/
theorem Steady.collectTree (h : Steady env entities) (stopAt : EntityId) (depth : Nat)
    {e : EntityId} (he : e ∈ entities) {config : Option (Statement Key)}
    (hconfig : ∀ c ∈ config, ∀ a ∈ c.authorityHints.getD [], a ∈ entities)
    (seen : List EntityId) :
    Yields (Reflects env entities) (collectTree env stopAt depth e config seen)
      (superiors env stopAt depth e config) := by
  induction depth generalizing e config seen with
  | zero => exact yields_throw _
  | succ depth ih =>
      unfold Function.collectTree superiors
      cases config with
      | none => exact yields_throw _
      | some c =>
          cases hhints : c.authorityHints with
          | none =>
              simp only [hhints]
              exact yields_pure _
          | some hints =>
              simp only [hhints]
              by_cases hstop : c.iss = stopAt
              · rw [if_pos hstop, if_pos hstop]
                exact yields_pure _
              · rw [if_neg hstop, if_neg hstop]
                refine Steady.collectSuperiors (fun a ha => ?_) .empty
                have hmem : a ∈ entities := hconfig c rfl a (by rw [hhints]; exact ha)
                exact h.collectBranch (fun b hb config' hconfig' seen' => ih hb hconfig' seen')
                  hmem he seen

/-- The entity configuration of the leaf. -/
theorem Steady.leafConfiguration (h : Steady env entities) {e : EntityId} (he : e ∈ entities) :
    Yields (Reflects env entities) (leafConfiguration env e) (leaf env e) := by
  have hfetch : Yields (Reflects env entities)
      (Function.getEntityConfiguration env e >>= fun signedEntityConfig =>
        if !tokenTruthy signedEntityConfig then pure none
        else Function.verifySelfSignedSignature env signedEntityConfig >>= fun config =>
          Function.configCacheSet e (.dict config) >>= fun _ => pure (some config))
      (leaf env e) := by
    refine (h.getEntityConfiguration e).yields.bind fun token hdocument => ?_
    by_cases htruthy : (!tokenTruthy token) = true
    · rw [if_pos htruthy, if_pos htruthy]
      exact yields_pure none
    · rw [if_neg htruthy, if_neg htruthy]
      refine (h.verifySelfSignedSignature token).yields.bind fun config hsigned st hst => ?_
      have hconfig : Function.configuration env e = .ok config := by
        rw [Function.configuration, hdocument, except_ok_bind, hsigned]
      exact ⟨rfl, hst.configCacheSet hconfig⟩
  intro st hst
  unfold Function.leafConfiguration
  rw [bind_of_ok (get_apply st)]
  cases hlookup : st.configCache.lookup e with
  | none => exact hfetch st hst
  | some entry =>
      obtain ⟨config, rfl, hconfig⟩ := hst.configs e he entry hlookup
      have hst₁ : Reflects env entities { st with asked := st.asked + 1 } := hst.of_caches rfl rfl
      have hclock : tooOld env config.payload st =
          .ok (decide (env.now st.asked ≥ config.payload.exp + env.allowedDelta))
            { st with asked := st.asked + 1 } := rfl
      simp only [CachedConfig.payload]
      rw [bind_of_ok hclock]
      by_cases hold : env.now st.asked ≥ config.payload.exp + env.allowedDelta
      · -- the same is found again
        simp only [decide_eq_true hold, if_true]
        exact hfetch _ hst₁
      · simp only [decide_eq_false hold, Bool.false_eq_true, if_false]
        rw [leaf_of_configuration hconfig]
        exact ⟨rfl, hst₁⟩

/-- What a leaf has is its entity configuration. -/
theorem configuration_of_leaf {e : EntityId} {config : SelfSigned Key}
    (hleaf : leaf env e = .ok (some config)) : configuration env e = .ok config := by
  obtain ⟨token, hdocument, hleaf⟩ := except_bind_eq_ok.mp hleaf
  by_cases htruthy : (!tokenTruthy token) = true
  · rw [if_pos htruthy] at hleaf
    exact absurd (except_pure_eq_ok.mp hleaf) (by simp)
  · rw [if_neg htruthy] at hleaf
    obtain ⟨config', hsigned, hleaf⟩ := except_bind_eq_ok.mp hleaf
    obtain rfl := Option.some.inj (except_pure_eq_ok.mp hleaf)
    rw [configuration, hdocument, except_ok_bind, hsigned]

/-- A leaf that has something published lists entities of the federation. -/
theorem Steady.closed_of_leaf (h : Steady env entities) {e : EntityId} (he : e ∈ entities)
    {config : SelfSigned Key} (hleaf : leaf env e = .ok (some config)) :
    ∀ a ∈ config.payload.authorityHints.getD [], a ∈ entities :=
  h.closed e he config (configuration_of_leaf hleaf)

/-- `TrustChainCollector.__call__`. -/
theorem Steady.call (h : Steady env entities) {e : EntityId} (he : e ∈ entities)
    (seen : List EntityId) (stopAt : EntityId) :
    Yields (Reflects env entities) (TrustChainCollector.call env e seen stopAt)
      (collected env stopAt e) := by
  refine (h.leafConfiguration he).bind fun found hleaf => ?_
  cases found with
  | none => exact yields_pure none
  | some config =>
      have hclosed : ∀ c ∈ some config.payload, ∀ a ∈ c.authorityHints.getD [], a ∈ entities := by
        simpa using h.closed_of_leaf he hleaf
      exact (h.collectTree stopAt env.recursionLimit he hclosed seen).bind
        fun tree _ => yields_pure (some (tree, config))

/-- `collect_trust_chains`, of an entity whose configuration is not at hand. -/
theorem Steady.yieldsPublishedChains (h : Steady env entities) {e : EntityId} (he : e ∈ entities)
    (stopAt : EntityId) :
    Yields (Reflects env entities) (collectTrustChains env e (.text "") stopAt)
      (publishedChains env stopAt e) := by
  have hcollect : Yields (Reflects env entities) (collectFor env e (.text "") stopAt [])
      (collected env stopAt e) := h.call he [] stopAt
  refine hcollect.bind fun found _ => ?_
  cases found with
  | none => exact yields_pure _
  | some p =>
      obtain ⟨tree, config⟩ := p
      cases tree <;> exact yields_pure _

/-- The configuration that the superiors are collected for: the published one, or a
    given one with other authority hints. -/
def collectedFor (signedEntityConfiguration : Token Key) (authorityHints : List EntityId)
    (config : SelfSigned Key) : Statement Key :=
  if tokenTruthy signedEntityConfiguration then withAuthorityHints config.payload authorityHints
  else config.payload

/-- A tree that is collected is the tree of superiors. -/
theorem Steady.superiors_of_collectFor (h : Steady env entities) {e : EntityId}
    (he : e ∈ entities) {token : Token Key} {stopAt : EntityId} {hints : List EntityId}
    {tree : Tree Key} {config : SelfSigned Key}
    (hlisted : ∀ a ∈ (collectedFor token hints config).authorityHints.getD [], a ∈ entities)
    {st st' : CollectorState Key} (hst : Reflects env entities st)
    (hcollect : collectFor env e token stopAt hints st = .ok (some (tree, config)) st') :
    superiors env stopAt env.recursionLimit e (some (collectedFor token hints config)) =
      .ok tree := by
  unfold collectFor at hcollect
  unfold collectedFor at hlisted ⊢
  by_cases htoken : tokenTruthy token = true
  · rw [if_pos htoken] at hcollect hlisted ⊢
    obtain ⟨config', st₁, hverify, hcollect⟩ := bind_eq_ok.mp hcollect
    obtain ⟨tree', st₂, htree, hpure⟩ := bind_eq_ok.mp hcollect
    obtain ⟨heq, rfl⟩ := EStateM.Result.ok.inj hpure
    obtain ⟨rfl, rfl⟩ := Prod.mk.inj (Option.some.inj heq)
    have hst₁ : Reflects env entities st₁ := by
      have hkept := ((h.verifySelfSignedToken token).yields st hst).2
      rwa [hverify] at hkept
    have hclosed : ∀ c ∈ some (withAuthorityHints config'.payload hints),
        ∀ a ∈ c.authorityHints.getD [], a ∈ entities := by
      simpa using hlisted
    have hyields := h.collectTree stopAt env.recursionLimit he hclosed [] st₁ hst₁
    rw [htree] at hyields
    exact hyields.1.symm
  · rw [if_neg htoken] at hcollect ⊢
    have hyields := h.call he [] stopAt st hst
    rw [hcollect] at hyields
    obtain ⟨found, hleaf, hcollected⟩ := except_bind_eq_ok.mp hyields.1.symm
    cases found with
    | none => exact absurd (except_pure_eq_ok.mp hcollected) (by simp)
    | some config' =>
        obtain ⟨tree', htree, hcollected⟩ := except_bind_eq_ok.mp hcollected
        obtain ⟨rfl, rfl⟩ := Prod.mk.inj (Option.some.inj (except_pure_eq_ok.mp hcollected))
        exact htree

end Collecting

/-- Pages that do not change, under a clock that stands still. -/
theorem steady_onPages {entities : Finset EntityId} {trustAnchors : List EntityId}
    {pages : List (String × SignedStatement Nat)}
    (hclosed : ∀ e ∈ entities, ∀ config, configuration (onPages trustAnchors pages) e = .ok config →
      ∀ a ∈ config.payload.authorityHints.getD [], a ∈ entities)
    (hapart : CacheKeysApart entities) : Steady (onPages trustAnchors pages) entities where
  httpc _ _ := rfl
  unpackRejects _ _ := rfl
  current _ _ _ _ _ := rfl
  closed := hclosed
  apart := hapart

end Fedservice.Entity.Function
