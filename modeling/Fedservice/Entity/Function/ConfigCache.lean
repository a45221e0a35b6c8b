/-
  Fedservice.Entity.Function.ConfigCache

  What gets into the configuration cache.  A configuration is filed under the ID
  it was asked for; that it is signed with a key it lists itself is all that is
  checked, so it is the servers that decide whether it is about that ID.
-/

import Fedservice.Entity.Function.Federation

namespace Fedservice.Entity.Function

open Fedservice.Lib Fedservice.Py Fedservice.EntityStatement Fedservice.Entity.Client

variable {Key : Type}

/-! ## Asking the world -/

/-- A computation that only asks the world: what it comes to, and how much it asks,
    depends on how much has been asked before, and it leaves the caches alone. -/
def OnlyAsks {α : Type} (m : EStateM Exc (CollectorState Key) α) : Prop :=
  ∃ (r : Nat → Except Exc α) (next : Nat → Nat), (∀ n, n ≤ next n) ∧
    ∀ st, m st = lift (r st.asked) { st with asked := next st.asked }

theorem onlyAsks_lift {α : Type} (x : Except Exc α) :
    OnlyAsks (lift x : EStateM Exc (CollectorState Key) α) :=
  ⟨fun _ => x, fun n => n, fun n => n.le_refl, fun _ => rfl⟩

theorem onlyAsks_throw {α : Type} (e : Exc) :
    OnlyAsks (throw e : EStateM Exc (CollectorState Key) α) :=
  ⟨fun _ => .error e, fun n => n, fun n => n.le_refl, fun _ => rfl⟩

theorem OnlyAsks.bind {α β : Type} {m : EStateM Exc (CollectorState Key) α}
    {f : α → EStateM Exc (CollectorState Key) β} (hm : OnlyAsks m) (hf : ∀ a, OnlyAsks (f a)) :
    OnlyAsks (m >>= f) := by
  obtain ⟨r, next, hnext, hm⟩ := hm
  choose r' next' hnext' hf using hf
  refine ⟨fun n => match r n with
      | .ok a => r' a (next n)
      | .error e => .error e,
    fun n => match r n with
      | .ok a => next' a (next n)
      | .error _ => next n, fun n => ?_, fun st => ?_⟩
  · cases hr : r n with
    | ok a =>
        simp only [hr]
        exact (hnext n).trans (hnext' a _)
    | error e =>
        simp only [hr]
        exact hnext n
  have hst := hm st
  cases hr : r st.asked with
  | ok a =>
      rw [hr, lift_ok] at hst
      rw [bind_of_ok hst, hf]
      simp only [hr]
  | error e =>
      rw [hr, lift_error] at hst
      rw [bind_of_error hst]
      simp only [hr, lift_error]

theorem OnlyAsks.tryCatch {α : Type} {m : EStateM Exc (CollectorState Key) α}
    {f : Exc → EStateM Exc (CollectorState Key) α} (hm : OnlyAsks m) (hf : ∀ e, OnlyAsks (f e)) :
    OnlyAsks (tryCatch m f) := by
  obtain ⟨r, next, hnext, hm⟩ := hm
  choose r' next' hnext' hf using hf
  refine ⟨fun n => match r n with
      | .ok a => .ok a
      | .error e => r' e (next n),
    fun n => match r n with
      | .ok _ => next n
      | .error e => next' e (next n), fun n => ?_, fun st => ?_⟩
  · cases hr : r n with
    | ok a =>
        simp only [hr]
        exact hnext n
    | error e =>
        simp only [hr]
        exact (hnext n).trans (hnext' e _)
  have hst := hm st
  cases hr : r st.asked with
  | ok a =>
      rw [hr, lift_ok] at hst
      rw [tryCatch_of_ok hst]
      simp only [hr, lift_ok]
  | error e =>
      rw [hr, lift_error] at hst
      rw [tryCatch_of_error hst, hf]
      simp only [hr]

/-- It keeps what does not depend on how much has been asked. -/
theorem OnlyAsks.ensures {α : Type} {m : EStateM Exc (CollectorState Key) α} (h : OnlyAsks m)
    {Inv : CollectorState Key → Prop}
    (hasked : ∀ st n, st.asked ≤ n → Inv st → Inv { st with asked := n }) :
    Ensures Inv m (fun _ => True) := by
  obtain ⟨r, next, hnext, hm⟩ := h
  refine fun st hst => ⟨?_, fun _ _ _ => trivial⟩
  rw [hm, finalState_lift]
  exact hasked st _ (hnext _) hst

/-- What it comes to does not depend on the caches. -/
theorem OnlyAsks.outcome_eq {α : Type} {m : EStateM Exc (CollectorState Key) α} (h : OnlyAsks m)
    (st : CollectorState Key) : outcome (m st) = outcome (m { asked := st.asked }) := by
  obtain ⟨r, next, -, hm⟩ := h
  rw [hm, hm, outcome_lift, outcome_lift]

/-- The caches are as they were, and something may have been asked. -/
theorem OnlyAsks.of_ok {α : Type} {m : EStateM Exc (CollectorState Key) α} (h : OnlyAsks m)
    {st st' : CollectorState Key} {a : α} (hok : m st = .ok a st') :
    ∃ n, st.asked ≤ n ∧ st' = { st with asked := n } := by
  obtain ⟨r, next, hnext, hm⟩ := h
  rw [hm] at hok
  exact ⟨next st.asked, hnext _, (lift_eq_ok.mp hok).2⟩

variable (env : CollectorEnv Key)

theorem onlyAsks_utcTimeSansFrac : OnlyAsks (utcTimeSansFrac env) :=
  ⟨fun n => .ok (env.now n), fun n => n + 1, fun n => n.le_succ, fun _ => rfl⟩

theorem onlyAsks_getDocument (url : String) : OnlyAsks (getDocument env url) := by
  have hget : OnlyAsks (httpGet env url) :=
    ⟨fun n => .ok (env.httpc n url), fun n => n + 1, fun n => n.le_succ, fun _ => rfl⟩
  refine hget.bind fun response => ?_
  cases response with
  | connectionError => exact onlyAsks_throw _
  | reply status contentType text =>
      by_cases hfound : status = 200
      · simp only [if_pos hfound]
        cases contentType with
        | none => exact onlyAsks_throw _
        | some typ => exact onlyAsks_lift (.ok text)
      · simp only [if_neg hfound]
        by_cases hmissing : status = 404
        · rw [if_pos hmissing]
          exact onlyAsks_throw _
        · rw [if_neg hmissing]
          exact onlyAsks_throw _

theorem onlyAsks_getEntityConfiguration (e : EntityId) :
    OnlyAsks (getEntityConfiguration env e) := by
  refine (onlyAsks_lift _).bind fun url => (onlyAsks_getDocument env url).tryCatch fun err => ?_
  cases err with
  | missingPage message =>
      refine (onlyAsks_lift _).bind fun tenantUrl => ?_
      by_cases hsame : tenantUrl ≠ url
      · rw [if_pos hsame]
        exact onlyAsks_getDocument env tenantUrl
      · rw [if_neg hsame]
        exact onlyAsks_throw _
  | _ => exact onlyAsks_throw _

/-- Who has been answered has asked. -/
theorem asked_lt_of_getDocument {url : String} {token : Token Key}
    {st st' : CollectorState Key} (h : getDocument env url st = .ok token st') :
    st.asked < st'.asked := by
  obtain ⟨response, st₁, hget, hdocument⟩ := bind_eq_ok.mp h
  obtain ⟨-, rfl⟩ := EStateM.Result.ok.inj hget
  cases response with
  | connectionError => exact absurd hdocument (by simp)
  | reply status contentType text =>
      by_cases hfound : status = 200
      · simp only [if_pos hfound] at hdocument
        cases contentType with
        | none => exact absurd hdocument (by simp)
        | some typ =>
            obtain ⟨-, rfl⟩ := EStateM.Result.ok.inj hdocument
            exact Nat.lt_succ_self _
      · simp only [if_neg hfound] at hdocument
        by_cases hmissing : status = 404 <;> simp [hmissing] at hdocument

theorem asked_lt_of_getEntityConfiguration {e : EntityId} {token : Token Key}
    {st st' : CollectorState Key} (h : getEntityConfiguration env e st = .ok token st') :
    st.asked < st'.asked := by
  obtain ⟨url, st₁, hurl, hdocument⟩ := bind_eq_ok.mp h
  obtain ⟨-, rfl⟩ := lift_eq_ok.mp hurl
  cases hfirst : getDocument env url st₁ with
  | ok token' st₂ =>
      rw [tryCatch_of_ok hfirst] at hdocument
      obtain ⟨-, rfl⟩ := EStateM.Result.ok.inj hdocument
      exact asked_lt_of_getDocument env hfirst
  | error err st₂ =>
      -- nothing was there, and the tenant was asked
      rw [tryCatch_of_error hfirst] at hdocument
      have hasked : st₁.asked ≤ st₂.asked := by
        obtain ⟨r, next, hnext, hasks⟩ := onlyAsks_getDocument env url
        have hfinal := congrArg finalState (hasks st₁)
        rw [hfirst, finalState_error, finalState_lift] at hfinal
        rw [hfinal]
        exact hnext st₁.asked
      cases err with
      | missingPage message =>
          obtain ⟨tenantUrl, st₃, htenant, hpage⟩ := bind_eq_ok.mp hdocument
          obtain ⟨-, rfl⟩ := lift_eq_ok.mp htenant
          by_cases hsame : tenantUrl ≠ url
          · rw [if_pos hsame] at hpage
            exact hasked.trans_lt (asked_lt_of_getDocument env hpage)
          · rw [if_neg hsame] at hpage
            exact absurd hpage (by simp)
      | _ => exact absurd hdocument (by simp)

theorem onlyAsks_getEntityStatement (location : Json) (a e : EntityId) :
    OnlyAsks (getEntityStatement env location a e) := by
  cases location with
  | str url => exact onlyAsks_getDocument env _
  | _ => exact onlyAsks_throw _

variable [DecidableEq Key]

theorem onlyAsks_verifySelfSignedSignature (statement : Token Key) :
    OnlyAsks (verifySelfSignedSignature env statement) := by
  refine (onlyAsks_lift _).bind fun s => ?_
  cases s.payload.jwks with
  | none => exact onlyAsks_throw _
  | some jwks =>
      unfold unpackSelfSigned
      by_cases hown : s.signer ∈ s.payload.keys
      · simp only [dif_pos hown]
        refine (onlyAsks_utcTimeSansFrac env).bind fun now => ?_
        cases env.unpackRejects now s.payload with
        | some err => exact onlyAsks_throw err
        | none => exact onlyAsks_lift (.ok _)
      · simp only [dif_neg hown]
        exact onlyAsks_throw _

/-! ## What is written -/

/-- Fetching the entity configuration of an entity and checking it. -/
def fetchConfiguration (e : EntityId) : EStateM Exc (CollectorState Key) (SelfSigned Key) := do
  verifySelfSignedSignature env (← getEntityConfiguration env e)

theorem onlyAsks_fetchConfiguration (e : EntityId) : OnlyAsks (fetchConfiguration env e) :=
  (onlyAsks_getEntityConfiguration env e).bind (onlyAsks_verifySelfSignedSignature env)

/-- The servers hand a self-signed configuration out for an entity, when asked as the
    n-th thing. -/
def Served (n : Nat) (e : EntityId) (config : SelfSigned Key) : Prop :=
  outcome (fetchConfiguration env e { asked := n }) = .ok config

variable {env}

/-- Who has verified something has looked at the clock. -/
theorem asked_lt_of_verifySelfSignedSignature {token : Token Key} {config : SelfSigned Key}
    {st st' : CollectorState Key} (h : verifySelfSignedSignature env token st = .ok config st') :
    st.asked < st'.asked := by
  obtain ⟨s, st₁, hs, hunpack⟩ := bind_eq_ok.mp h
  obtain ⟨-, rfl⟩ := lift_eq_ok.mp hs
  cases hjwks : s.payload.jwks with
  | none => simp [hjwks] at hunpack
  | some jwks =>
      simp only [hjwks] at hunpack
      unfold unpackSelfSigned at hunpack
      by_cases hown : s.signer ∈ s.payload.keys
      · rw [dif_pos hown] at hunpack
        obtain ⟨now, st₂, hclock, hunpack⟩ := bind_eq_ok.mp hunpack
        obtain ⟨-, rfl⟩ := EStateM.Result.ok.inj hclock
        cases hrejects : env.unpackRejects now s.payload with
        | some err => simp [hrejects] at hunpack
        | none =>
            simp only [hrejects] at hunpack
            obtain ⟨-, rfl⟩ := EStateM.Result.ok.inj hunpack
            exact Nat.lt_succ_self _
      · simp [dif_neg hown] at hunpack

/-- What is fetched was served, and the caches are as they were. -/
theorem fetchConfiguration_eq_ok {e : EntityId} {config : SelfSigned Key}
    {st st' : CollectorState Key} (h : fetchConfiguration env e st = .ok config st') :
    Served env st.asked e config ∧ ∃ n, st.asked < n ∧ st' = { st with asked := n } := by
  constructor
  · rw [Served, ← (onlyAsks_fetchConfiguration env e).outcome_eq, h, outcome_ok]
  · obtain ⟨n, -, rfl⟩ := (onlyAsks_fetchConfiguration env e).of_ok h
    obtain ⟨token, st₁, hdocument, hverify⟩ := bind_eq_ok.mp h
    obtain ⟨m, hm, rfl⟩ := (onlyAsks_getEntityConfiguration env e).of_ok hdocument
    exact ⟨n, hm.trans_lt (asked_lt_of_verifySelfSignedSignature hverify), rfl⟩

omit [DecidableEq Key] in
/-- What is got is what is on the page of the entity. -/
theorem token_of_getEntityConfiguration {n : Nat} {e : EntityId} {url contentType : String}
    {token page : Token Key} (hurl : getRequestParameters env.rootIssuer e false = .ok url)
    (hpage : env.httpc n url = .reply 200 (some contentType) page)
    (h : outcome (getEntityConfiguration env e { asked := n }) = .ok token) : token = page := by
  obtain ⟨st', hdocument⟩ := outcome_eq_ok.mp h
  have hget : getDocument env url { asked := n } = .ok page { asked := n + 1 } := by
    have hresponse : httpGet env url { asked := n } =
        .ok (.reply 200 (some contentType) page) { asked := n + 1 } := by
      rw [← hpage]
      rfl
    unfold getDocument
    rw [bind_of_ok hresponse]
    rfl
  unfold getEntityConfiguration at hdocument
  rw [hurl, bind_of_ok (lift_ok url _), tryCatch_of_ok hget] at hdocument
  exact (EStateM.Result.ok.inj hdocument).1.symm

/-- What is handed out is what is on the page of the entity. -/
theorem jws_of_served {n : Nat} {e : EntityId} {url contentType : String} {s : SignedStatement Key}
    {config : SelfSigned Key} (hurl : getRequestParameters env.rootIssuer e false = .ok url)
    (hpage : env.httpc n url = .reply 200 (some contentType) (.jws s))
    (h : Served env n e config) : config.jws = s := by
  obtain ⟨st', hfetch⟩ := outcome_eq_ok.mp h
  obtain ⟨token, st₁, hdocument, hverify⟩ := bind_eq_ok.mp hfetch
  have htoken : token = .jws s := by
    refine token_of_getEntityConfiguration hurl hpage ?_
    rw [hdocument, outcome_ok]
  rw [verifySelfSignedSignature_eq_ok env hverify] at htoken
  exact Token.jws.inj htoken

/-- An entry of the configuration cache that was found there when it was current, or
    that has been served; `Inv` held when that was. -/
def Vouched (env : CollectorEnv Key) (Inv : CollectorState Key → Prop) (st : CollectorState Key)
    (a : EntityId) (entry : CachedConfig Key) : Prop :=
  ∀ config, entry = .dict config → ∃ st₁ : CollectorState Key, Inv st₁ ∧ st₁.asked < st.asked ∧
    ((st₁.configCache.lookup a = some (.dict config) ∧
      env.now st₁.asked < config.payload.exp - env.allowedDelta) ∨
    Served env st₁.asked a config)

/-- What the collector does with the configurations of `Ids`, and with statements about
    `Subjects`, keeps an invariant if questions do, storing what has been served, evicting
    what is stale, and what it does with entity statements; and if it does not lead to
    other entities. -/
structure CacheInvariant (env : CollectorEnv Key) (Ids Subjects : EntityId → Prop)
    (Inv : CollectorState Key → Prop) : Prop where
  asked : ∀ st n, st.asked ≤ n → Inv st → Inv { st with asked := n }
  store : ∀ st₁ st e config, Ids e → Inv st₁ → Served env st₁.asked e config →
    st₁.asked < st.asked → Inv st →
    Inv { st with configCache := st.configCache.insert e (.dict config) }
  evict : ∀ st e config, Ids e → st.configCache.lookup e = some (.dict config) →
    ¬ env.now st.asked < config.payload.exp - env.allowedDelta → Inv st →
      Inv { st with asked := st.asked + 1, configCache := st.configCache.erase e }
  remember : ∀ st a e token exp entry, Ids a → Subjects e →
    st.configCache.lookup a = some entry → Vouched env Inv st a entry → Inv st →
    Inv { st with entityStatementCache := (st.entityStatementCache.insert (cacheKey a e)
      (.jwt token)).insert (timeKey a e) (.exp exp) }
  forget : ∀ st a e, Ids a → Subjects e → Inv st →
    Inv { st with entityStatementCache := (st.entityStatementCache.erase
      (cacheKey a e)).erase (timeKey a e) }
  listed : ∀ st e entry, Ids e → Inv st → st.configCache.lookup e = some entry →
    ∀ a ∈ entry.payload.authorityHints.getD [], Ids a
  subject : ∀ a, Ids a → Subjects a

variable {Ids Subjects : EntityId → Prop} {Inv : CollectorState Key → Prop}

/-- A configuration that does not lead to other entities. -/
def ListsOnly (Ids : EntityId → Prop) (config : Statement Key) : Prop :=
  ∀ a ∈ config.authorityHints.getD [], Ids a

theorem CacheInvariant.configCacheItem (h : CacheInvariant env Ids Subjects Inv) {e : EntityId}
    (he : Ids e) :
    Ensures Inv (configCacheItem env e) (fun read => ∀ entry ∈ read, ListsOnly Ids entry.payload) := by
  intro st hst
  unfold Function.configCacheItem
  rw [bind_of_ok (get_apply st)]
  cases hlookup : st.configCache.lookup e with
  | none =>
      refine ⟨hst, fun read st' heq entry hentry => ?_⟩
      obtain ⟨rfl, -⟩ := EStateM.Result.ok.inj heq
      exact absurd hentry (by simp)
  | some found =>
      have hlisted := h.listed st e found he hst hlookup
      cases found with
      | message payload =>
          refine ⟨hst, fun read st' heq entry hentry => ?_⟩
          obtain ⟨rfl, -⟩ := EStateM.Result.ok.inj heq
          obtain rfl := Option.mem_some.mp hentry
          exact hlisted
      | dict config =>
          have hclock : utcTimeSansFrac env st =
              .ok (env.now st.asked) { st with asked := st.asked + 1 } := rfl
          simp only
          rw [bind_of_ok hclock]
          by_cases hfresh : env.now st.asked < config.payload.exp - env.allowedDelta
          · rw [if_pos hfresh]
            refine ⟨h.asked st _ (Nat.le_succ _) hst, fun read st' heq entry hentry => ?_⟩
            obtain ⟨rfl, -⟩ := EStateM.Result.ok.inj heq
            obtain rfl := Option.mem_some.mp hentry
            exact hlisted
          · rw [if_neg hfresh]
            refine ⟨h.evict st e config he hlookup hfresh hst, fun read st' heq entry hentry => ?_⟩
            obtain ⟨rfl, -⟩ := EStateM.Result.ok.inj heq
            exact absurd hentry (by simp)

/-- What is found in the cache stays there, and was current when it was found. -/
theorem vouched_of_configCacheItem {e : EntityId} {entry : CachedConfig Key}
    {st st' : CollectorState Key} (hst : Inv st)
    (h : configCacheItem env e st = .ok (some entry) st') :
    st'.configCache.lookup e = some entry ∧ st.asked ≤ st'.asked ∧
      Vouched env Inv st' e entry := by
  unfold configCacheItem at h
  rw [bind_of_ok (get_apply st)] at h
  cases hlookup : st.configCache.lookup e with
  | none => simp [hlookup] at h
  | some found =>
      rw [hlookup] at h
      cases found with
      | message payload =>
          obtain ⟨heq, rfl⟩ := EStateM.Result.ok.inj h
          obtain rfl := Option.some.inj heq
          exact ⟨hlookup, le_refl _, fun _ heq => absurd heq (by simp)⟩
      | dict config =>
          have hclock : utcTimeSansFrac env st =
              .ok (env.now st.asked) { st with asked := st.asked + 1 } := rfl
          simp only at h
          rw [bind_of_ok hclock] at h
          by_cases hfresh : env.now st.asked < config.payload.exp - env.allowedDelta
          · rw [if_pos hfresh] at h
            obtain ⟨heq, rfl⟩ := EStateM.Result.ok.inj h
            obtain rfl := Option.some.inj heq
            refine ⟨hlookup, Nat.le_succ _, fun config' heq => ?_⟩
            obtain rfl := CachedConfig.dict.inj heq
            exact ⟨st, hst, Nat.lt_succ_self _, Or.inl ⟨hlookup, hfresh⟩⟩
          · rw [if_neg hfresh] at h
            obtain ⟨heq, -⟩ := EStateM.Result.ok.inj h
            exact absurd heq (by simp)

/-- Fetching a configuration and, if nothing goes wrong in between, storing it. -/
theorem CacheInvariant.fetch (h : CacheInvariant env Ids Subjects Inv) {e : EntityId} (he : Ids e)
    {α β : Type}
    {check : SelfSigned Key → Except Exc α} {result : SelfSigned Key → α → β} :
    Ensures Inv (fetchConfiguration env e >>= fun config => lift (check config) >>= fun a =>
      configCacheSet e (.dict config) >>= fun _ => pure (result config a)) (fun _ => True) := by
  intro st hst
  refine ⟨?_, fun _ _ _ => trivial⟩
  have hkept := ((onlyAsks_fetchConfiguration env e).ensures h.asked st hst).1
  cases hfetch : fetchConfiguration env e st with
  | error err st₁ =>
      rw [bind_of_error hfetch]
      rwa [hfetch] at hkept
  | ok config st₁ =>
      rw [hfetch, finalState_ok] at hkept
      obtain ⟨hserved, n, hn, rfl⟩ := fetchConfiguration_eq_ok hfetch
      rw [bind_of_ok hfetch]
      -- only a configuration that passed everything is written
      cases hcheck : check config with
      | error err =>
          rw [bind_of_error (lift_error err _)]
          exact hkept
      | ok a =>
          rw [bind_of_ok (lift_ok a _)]
          exact h.store st _ e config he hst hserved hn hkept

theorem CacheInvariant.getFederationFetchEndpoint (h : CacheInvariant env Ids Subjects Inv) {a : EntityId}
    (ha : Ids a) :
    Ensures Inv (getFederationFetchEndpoint env a) (fun _ => True) := by
  refine (h.configCacheItem ha).bind fun entry _ => ?_
  have hrest : ∀ known : Json, Ensures Inv (if known.truthy then pure known
      else getEntityConfiguration env a >>= fun signedEntityConfig =>
        verifySelfSignedSignature env signedEntityConfig >>= fun config =>
        lift (getEndpoint "fetch" config.payload) >>= fun fedFetchEndpoint =>
        configCacheSet a (.dict config) >>= fun _ => pure fedFetchEndpoint) (fun _ => True) := by
    intro known
    by_cases htruthy : known.truthy = true
    · rw [if_pos htruthy]
      exact ensures_pure trivial
    · rw [if_neg htruthy, ← bind_assoc]
      exact h.fetch ha
  cases entry with
  | none => exact hrest .null
  | some config => exact (ensures_lift fun _ _ => trivial).bind fun known _ => hrest known

/-- The configuration of an authority is in the cache once its fetch endpoint is known. -/
theorem CacheInvariant.vouched_of_getFederationFetchEndpoint
    (h : CacheInvariant env Ids Subjects Inv) {a : EntityId} (ha : Ids a) {endpoint : Json}
    {st st' : CollectorState Key} (hst : Inv st)
    (hrun : Function.getFederationFetchEndpoint env a st = .ok endpoint st') :
    ∃ entry, st'.configCache.lookup a = some entry ∧ Vouched env Inv st' a entry := by
  have hupdated : ∀ st₂, Inv st₂ → (do
      let signedEntityConfig ← getEntityConfiguration env a
      let config ← verifySelfSignedSignature env signedEntityConfig
      let fedFetchEndpoint ← lift (getEndpoint "fetch" config.payload)
      configCacheSet a (.dict config)
      return fedFetchEndpoint) st₂ = .ok endpoint st' →
      ∃ entry, st'.configCache.lookup a = some entry ∧ Vouched env Inv st' a entry := by
    intro st₂ hst₂ hfetch
    obtain ⟨token, st₃, hdocument, hfetch⟩ := bind_eq_ok.mp hfetch
    obtain ⟨config, st₄, hverify, hfetch⟩ := bind_eq_ok.mp hfetch
    obtain ⟨endpoint', st₅, hendpoint, hstored⟩ := bind_eq_ok.mp hfetch
    obtain ⟨-, rfl⟩ := lift_eq_ok.mp hendpoint
    obtain ⟨rfl, rfl⟩ := EStateM.Result.ok.inj hstored
    obtain ⟨hserved, n, hn, rfl⟩ :=
      fetchConfiguration_eq_ok (bind_eq_ok.mpr ⟨token, st₃, hdocument, hverify⟩)
    refine ⟨.dict config, AList.lookup_insert _, fun config' heq => ?_⟩
    obtain rfl := CachedConfig.dict.inj heq
    exact ⟨st₂, hst₂, hn, Or.inr hserved⟩
  obtain ⟨entry, st₁, hread, hrun⟩ := bind_eq_ok.mp hrun
  have hst₁ := (h.configCacheItem ha).of_ok hst hread
  cases entry with
  | none => exact hupdated st₁ hst₁ hrun
  | some entry =>
      obtain ⟨hlookup, -, hvouched⟩ := vouched_of_configCacheItem hst hread
      obtain ⟨known, st₂, hknown, hrest⟩ := bind_eq_ok.mp hrun
      obtain rfl := (lift_eq_ok.mp hknown).2
      by_cases htruthy : known.truthy = true
      · simp only [if_pos htruthy, pure_apply, EStateM.Result.ok.injEq] at hrest
        rw [← hrest.2]
        exact ⟨entry, hlookup, hvouched⟩
      · simp only [if_neg htruthy] at hrest
        exact hupdated _ hst₁ hrest

/-- What is always so is kept. -/
theorem cacheInvariant_true :
    CacheInvariant env (fun _ => True) (fun _ => True) (fun _ => True) where
  asked _ _ _ _ := trivial
  store _ _ _ _ _ _ _ _ _ := trivial
  evict _ _ _ _ _ _ _ := trivial
  remember _ _ _ _ _ _ _ _ _ _ _ := trivial
  forget _ _ _ _ _ _ := trivial
  listed _ _ _ _ _ _ _ _ := trivial
  subject _ _ := trivial

theorem mem_of_getFederationFetchEndpoint {a : EntityId} {endpoint : Json}
    {st st' : CollectorState Key}
    (h : Function.getFederationFetchEndpoint env a st = .ok endpoint st') :
    a ∈ st'.configCache := by
  obtain ⟨entry, hentry, -⟩ :=
    cacheInvariant_true.vouched_of_getFederationFetchEndpoint trivial trivial h
  exact Dict.mem_iff_lookup.mpr ⟨entry, hentry⟩

/-- An entry stays vouched for while more is asked. -/
theorem Vouched.later {st st' : CollectorState Key} {a : EntityId} {entry : CachedConfig Key}
    (h : Vouched env Inv st a entry) (hasked : st.asked ≤ st'.asked) :
    Vouched env Inv st' a entry := by
  intro config heq
  obtain ⟨st₁, hst₁, hlt, hhow⟩ := h config heq
  exact ⟨st₁, hst₁, hlt.trans_le hasked, hhow⟩

/-! ## The collector -/

theorem CacheInvariant.cachedEntityStatement (h : CacheInvariant env Ids Subjects Inv) {e a : EntityId}
    (he : Subjects e) (ha : Ids a) :
    Ensures Inv (cachedEntityStatement env e a) (fun _ => True) := by
  intro st hst
  refine ⟨?_, fun _ _ _ => trivial⟩
  unfold Function.cachedEntityStatement
  rw [bind_of_ok (get_apply st)]
  cases hlookup : st.entityStatementCache.lookup (cacheKey a e) with
  | none => exact hst
  | some entry =>
      have hclock : utcTimeSansFrac env st =
          .ok (env.now st.asked) { st with asked := st.asked + 1 } := rfl
      have hst₁ := h.asked st _ (Nat.le_succ _) hst
      simp only
      rw [bind_of_ok hclock]
      cases htime : st.entityStatementCache.lookup (timeKey a e) with
      | none => exact hst₁
      | some time =>
          cases time with
          | jwt token => exact hst₁
          | exp exp =>
              by_cases hold : env.now st.asked > exp - env.allowedDelta
              · simp only [if_pos hold]
                exact h.forget _ a e ha he hst₁
              · simp only [if_neg hold]
                exact hst₁

theorem CacheInvariant.fetchEntityStatement (h : CacheInvariant env Ids Subjects Inv) {e a : EntityId}
    (he : Subjects e) (ha : Ids a) :
    Ensures Inv (fetchEntityStatement env e a) (fun _ => True) := by
  intro st hst
  refine ⟨?_, fun _ _ _ => trivial⟩
  have hkept := (h.getFederationFetchEndpoint ha st hst).1
  unfold Function.fetchEntityStatement
  cases hendpoint : Function.getFederationFetchEndpoint env a st with
  | error err st₁ =>
      rw [bind_of_error hendpoint]
      rwa [hendpoint] at hkept
  | ok endpoint st₁ =>
      obtain ⟨entry, hentry, hvouched⟩ := h.vouched_of_getFederationFetchEndpoint ha hst hendpoint
      rw [hendpoint, finalState_ok] at hkept
      rw [bind_of_ok hendpoint]
      by_cases htruthy : (!endpoint.truthy) = true
      · rw [if_pos htruthy]
        exact hkept
      · rw [if_neg htruthy]
        have hasks := onlyAsks_getEntityStatement env endpoint a e
        have hkept₁ := (hasks.ensures h.asked st₁ hkept).1
        cases hview : getEntityStatement env endpoint a e st₁ with
        | error err st₂ =>
            rw [bind_of_error hview]
            rwa [hview] at hkept₁
        | ok token st₂ =>
            rw [hview, finalState_ok] at hkept₁
            rw [bind_of_ok hview]
            obtain ⟨n, hn, rfl⟩ := hasks.of_ok hview
            cases hunverified : unverifiedEntityStatement token with
            | error err =>
                rw [bind_of_error (lift_error err _)]
                exact hkept₁
            | ok statement =>
                rw [bind_of_ok (lift_ok statement _)]
                exact h.remember _ a e token statement.payload.exp entry ha he hentry
                  (hvouched.later hn) hkept₁

theorem CacheInvariant.getEntityStatementFor (h : CacheInvariant env Ids Subjects Inv) {e a : EntityId}
    (he : Subjects e) (ha : Ids a) :
    Ensures Inv (getEntityStatementFor env e a) (fun _ => True) := by
  refine (h.cachedEntityStatement he ha).bind fun cached _ => ?_
  cases cached with
  | some token => exact ensures_pure trivial
  | none => exact h.fetchEntityStatement he ha

theorem CacheInvariant.collectBranch (h : CacheInvariant env Ids Subjects Inv)
    {collectTree : EntityId → Option (Statement Key) → List EntityId →
      EStateM Exc (CollectorState Key) (Tree Key)}
    (hlevel : ∀ a config seen, Ids a → (∀ c ∈ config, ListsOnly Ids c) →
      Ensures Inv (collectTree a config seen) (fun _ => True))
    {e a : EntityId} (he : Subjects e) (ha : Ids a) (seen : List EntityId) :
    Ensures Inv (collectBranch env collectTree e a seen) (fun _ => True) := by
  unfold Function.collectBranch
  by_cases hself : (e = a && decide (e ∈ env.trustAnchors)) = true
  · rw [if_pos hself]
    exact ensures_pure trivial
  · rw [if_neg hself]
    refine (h.getEntityStatementFor he ha).bind fun found _ => ?_
    cases found with
    | none => exact ensures_pure trivial
    | some token =>
        by_cases htruthy : (!tokenTruthy token) = true
        · simp only [if_pos htruthy]
          exact ensures_pure trivial
        · simp only [if_neg htruthy]
          refine (h.configCacheItem ha).bind fun read hread => ?_
          have hlists : ∀ c ∈ read.map (·.payload), ListsOnly Ids c := by
            rintro c hc
            obtain ⟨entry, hentry, rfl⟩ := Option.mem_map.mp hc
            exact hread entry hentry
          exact (hlevel a _ _ ha hlists).bind fun tree _ => ensures_pure trivial

theorem CacheInvariant.collectSuperiors (h : CacheInvariant env Ids Subjects Inv)
    {collectTree : EntityId → Option (Statement Key) → List EntityId →
      EStateM Exc (CollectorState Key) (Tree Key)}
    (hlevel : ∀ a config seen, Ids a → (∀ c ∈ config, ListsOnly Ids c) →
      Ensures Inv (collectTree a config seen) (fun _ => True))
    {e : EntityId} (he : Subjects e) (seen : List EntityId) (superior : Tree Key)
    {hints : List EntityId} (hhints : ∀ a ∈ hints, Ids a) :
    Ensures Inv (collectSuperiors env collectTree e seen superior hints) (fun _ => True) := by
  induction hints generalizing superior with
  | nil => exact ensures_pure trivial
  | cons a rest ih =>
      exact (h.collectBranch hlevel he (hhints a (List.mem_cons_self ..)) seen).bind fun branch _ =>
        ih (superior.set a branch) fun b hb => hhints b (List.mem_cons_of_mem a hb)

theorem CacheInvariant.collectTree (h : CacheInvariant env Ids Subjects Inv) (stopAt : EntityId)
    (depth : Nat) (e : EntityId) (config : Option (Statement Key)) (seen : List EntityId)
    (he : Subjects e) (hconfig : ∀ c ∈ config, ListsOnly Ids c) :
    Ensures Inv (collectTree env stopAt depth e config seen) (fun _ => True) := by
  induction depth generalizing e config seen with
  | zero => exact ensures_throw _
  | succ depth ih =>
      unfold Function.collectTree
      cases config with
      | none => exact ensures_throw _
      | some config =>
          cases hhints : config.authorityHints with
          | none =>
              simp only [hhints]
              exact ensures_pure trivial
          | some hints =>
              simp only [hhints]
              by_cases hstop : config.iss = stopAt
              · rw [if_pos hstop]
                exact ensures_pure trivial
              · rw [if_neg hstop]
                -- the next level is reached through the hints alone
                have hlists : ∀ a ∈ hints, Ids a := by
                  intro a ha
                  exact hconfig config rfl a (by rw [hhints]; exact ha)
                exact h.collectSuperiors
                  (fun a config seen ha hc => ih a config seen (h.subject a ha) hc) he seen .empty
                  hlists

/-- A leaf's configuration that is fetched, checked and stored. -/
theorem CacheInvariant.fetchLeaf (h : CacheInvariant env Ids Subjects Inv) {e : EntityId} (he : Ids e) :
    Ensures Inv (getEntityConfiguration env e >>= fun signedEntityConfig =>
      if !tokenTruthy signedEntityConfig then pure none
      else verifySelfSignedSignature env signedEntityConfig >>= fun config =>
        configCacheSet e (.dict config) >>= fun _ => pure (some config))
      (fun found => ∀ c ∈ found, ListsOnly Ids c.payload) := by
  intro st hst
  have hasks := onlyAsks_getEntityConfiguration env e
  have hkept := (hasks.ensures h.asked st hst).1
  cases hdocument : getEntityConfiguration env e st with
  | error err st₁ =>
      rw [bind_of_error hdocument]
      rw [hdocument] at hkept
      exact ⟨hkept, fun _ _ heq => absurd heq (by simp)⟩
  | ok token st₁ =>
      rw [hdocument, finalState_ok] at hkept
      rw [bind_of_ok hdocument]
      by_cases htruthy : (!tokenTruthy token) = true
      · rw [if_pos htruthy]
        refine ⟨hkept, fun found st' heq c hc => ?_⟩
        obtain ⟨rfl, -⟩ := EStateM.Result.ok.inj heq
        exact absurd hc (by simp)
      · rw [if_neg htruthy]
        have hkept₁ := ((onlyAsks_verifySelfSignedSignature env token).ensures h.asked st₁ hkept).1
        cases hverify : verifySelfSignedSignature env token st₁ with
        | error err st₂ =>
            rw [bind_of_error hverify]
            rw [hverify] at hkept₁
            exact ⟨hkept₁, fun _ _ heq => absurd heq (by simp)⟩
        | ok config st₂ =>
            rw [hverify, finalState_ok] at hkept₁
            rw [bind_of_ok hverify]
            obtain ⟨hserved, n, hn, rfl⟩ :=
              fetchConfiguration_eq_ok (bind_eq_ok.mpr ⟨token, st₁, hdocument, hverify⟩)
            -- it has passed its own signature, and is written as it was served
            have hstored := h.store st _ e config he hst hserved hn hkept₁
            refine ⟨hstored, fun found st' heq c hc => ?_⟩
            obtain ⟨rfl, -⟩ := EStateM.Result.ok.inj heq
            obtain rfl := Option.mem_some.mp hc
            exact h.listed _ e _ he hstored (AList.lookup_insert _)

theorem CacheInvariant.leafConfiguration (h : CacheInvariant env Ids Subjects Inv) {e : EntityId}
    (he : Ids e) :
    Ensures Inv (leafConfiguration env e) (fun found => ∀ c ∈ found, ListsOnly Ids c.payload) := by
  intro st hst
  unfold Function.leafConfiguration
  rw [bind_of_ok (get_apply st)]
  cases hlookup : st.configCache.lookup e with
  | none => exact h.fetchLeaf he st hst
  | some entry =>
      have hclock : tooOld env entry.payload st =
          .ok (decide (env.now st.asked ≥ entry.payload.exp + env.allowedDelta))
            { st with asked := st.asked + 1 } := rfl
      have hst₁ := h.asked st _ (Nat.le_succ _) hst
      simp only
      rw [bind_of_ok hclock]
      by_cases hold : env.now st.asked ≥ entry.payload.exp + env.allowedDelta
      · simp only [decide_eq_true hold, if_true]
        exact h.fetchLeaf he _ hst₁
      -- young enough: only a verified entry is taken, a bare message has no JWS
      · simp only [decide_eq_false hold, Bool.false_eq_true, if_false]
        have hlisted := h.listed st e entry he hst hlookup
        cases entry with
        | dict config =>
            refine ⟨hst₁, fun found st' heq c hc => ?_⟩
            obtain ⟨rfl, -⟩ := EStateM.Result.ok.inj heq
            obtain rfl := Option.mem_some.mp hc
            exact hlisted
        | message payload => exact ⟨hst₁, fun _ _ heq => nomatch heq⟩

theorem CacheInvariant.call (h : CacheInvariant env Ids Subjects Inv) {e : EntityId} (he : Ids e)
    (seen : List EntityId) (stopAt : EntityId) :
    Ensures Inv (TrustChainCollector.call env e seen stopAt) (fun _ => True) := by
  refine (h.leafConfiguration he).bind fun found hfound => ?_
  cases found with
  | none => exact ensures_pure trivial
  | some config =>
      have hlists : ∀ c ∈ some config.payload, ListsOnly Ids c := by
        rintro c hc
        obtain rfl := Option.mem_some.mp hc
        exact hfound config rfl
      exact (h.collectTree stopAt env.recursionLimit e _ seen (h.subject e he) hlists).bind fun tree _ =>
        ensures_pure trivial

theorem CacheInvariant.collectTrustChains (h : CacheInvariant env Ids Subjects Inv) {e : EntityId}
    (he : Ids e) : Ensures Inv (collectTrustChains env e) (fun _ => True) := by
  refine (h.call he [] "" : Ensures Inv _ _).bind fun found _ => ?_
  cases found with
  | none => exact ensures_pure trivial
  | some p =>
      obtain ⟨tree, config⟩ := p
      cases tree <;> exact ensures_pure trivial

end Fedservice.Entity.Function
