/-
  Fedservice.Entity.Function.ConfigIdentity

  Whether a configuration in the cache is about the ID it is filed under.  The
  collector does not look: it is in every state of a run if the servers hand out,
  for each ID that the run comes to, nothing self-signed but what is about that ID,
  and otherwise there is a run among these IDs that breaks it.
-/

import Fedservice.Entity.Function.ConfigCache

namespace Fedservice.Entity.Function

open Fedservice.Lib Fedservice.Py Fedservice.EntityStatement Fedservice.Entity.Client

variable {Key : Type} [DecidableEq Key]

/-- Every dictionary in the configuration cache is by and about the ID it is under. -/
def KeyedByIdentity (st : CollectorState Key) : Prop :=
  ∀ e config, st.configCache.lookup e = some (.dict config) →
    config.payload.iss = e ∧ config.payload.sub = e

/-- An operation of the collector. -/
inductive CollectorOp where
  | call (entityId : EntityId) (seen : List EntityId) (stopAt : EntityId)
  | collectBranch (entity authority : EntityId) (seen : List EntityId) (stopAt : EntityId)
  | getFederationFetchEndpoint (intermediate : EntityId)

/-- The operation, as far as the caches are concerned. -/
def CollectorOp.run (env : CollectorEnv Key) : CollectorOp → EStateM Exc (CollectorState Key) Unit
  | .call entityId seen stopAt => do
      let _ ← TrustChainCollector.call env entityId seen stopAt
  | .collectBranch entity authority seen stopAt => do
      let _ ← Function.collectBranch env (collectTree env stopAt env.recursionLimit) entity
        authority seen
  | .getFederationFetchEndpoint intermediate => do
      let _ ← Function.getFederationFetchEndpoint env intermediate

/-- The IDs whose configurations the operation begins with. -/
def CollectorOp.names : CollectorOp → List EntityId
  | .call entityId _ _ => [entityId]
  | .collectBranch _ authority _ _ => [authority]
  | .getFederationFetchEndpoint intermediate => [intermediate]

/-- The IDs that the operations can come to from a state: those they name, and the
    authority hints of configurations of such IDs that are in the cache or that are
    handed out from then on. -/
inductive ComesTo (env : CollectorEnv Key) (st : CollectorState Key) (ops : List CollectorOp) :
    EntityId → Prop
  | named {op : CollectorOp} {e : EntityId} : op ∈ ops → e ∈ op.names → ComesTo env st ops e
  | cached {e a : EntityId} {entry : CachedConfig Key} : ComesTo env st ops e →
      st.configCache.lookup e = some entry → a ∈ entry.payload.authorityHints.getD [] →
      ComesTo env st ops a
  | served {e a : EntityId} {n : Nat} {config : SelfSigned Key} : ComesTo env st ops e →
      st.asked ≤ n → Served env n e config → a ∈ config.payload.authorityHints.getD [] →
      ComesTo env st ops a

/-- From the `n`-th question on the servers hand out, for these IDs, nothing self-signed
    but what is about the ID. -/
def ServesOwn (env : CollectorEnv Key) (n : Nat) (Ids : EntityId → Prop) : Prop :=
  ∀ m, n ≤ m → ∀ e, Ids e → ∀ config, Served env m e config →
    config.payload.iss = e ∧ config.payload.sub = e

variable {env : CollectorEnv Key}

/-- Operations on these IDs keep what the collector keeps. -/
theorem CacheInvariant.run {Ids : EntityId → Prop} {Inv : CollectorState Key → Prop}
    (h : CacheInvariant env Ids (fun _ => True) Inv) (op : CollectorOp)
    (hnames : ∀ e ∈ op.names, Ids e) : Ensures Inv (op.run env) (fun _ => True) := by
  cases op with
  | call entityId seen stopAt =>
      have hid := hnames entityId (List.mem_singleton_self _)
      exact (h.call hid seen stopAt).bind fun _ _ => ensures_pure trivial
  | collectBranch entity authority seen stopAt =>
      have hid := hnames authority (List.mem_singleton_self _)
      have hbranch : Ensures Inv (Function.collectBranch env (Function.collectTree env stopAt
          env.recursionLimit) entity authority seen) (fun _ => True) :=
        h.collectBranch (fun a config seen _ hlists =>
          h.collectTree stopAt env.recursionLimit a config seen trivial hlists) trivial hid seen
      exact hbranch.bind fun _ _ => ensures_pure trivial
  | getFederationFetchEndpoint intermediate =>
      have hid := hnames intermediate (List.mem_singleton_self _)
      exact (h.getFederationFetchEndpoint hid).bind fun _ _ => ensures_pure trivial

/-- A cache keyed by identity, in a run from `st`, that leads to the IDs reached only. -/
structure KeyedWithin (env : CollectorEnv Key) (st : CollectorState Key) (ops : List CollectorOp)
    (st' : CollectorState Key) : Prop where
  keyed : KeyedByIdentity st'
  asked : st.asked ≤ st'.asked
  listed : ∀ e, ComesTo env st ops e → ∀ entry, st'.configCache.lookup e = some entry →
    ∀ a ∈ entry.payload.authorityHints.getD [], ComesTo env st ops a

/-- Only storing can break it. -/
theorem cacheInvariant_keyedWithin {st : CollectorState Key} {ops : List CollectorOp}
    (h : ServesOwn env st.asked (ComesTo env st ops)) :
    CacheInvariant env (ComesTo env st ops) (fun _ => True) (KeyedWithin env st ops) where
  asked _ _ hn hst := { hst with asked := hst.asked.trans hn }
  store st₁ st' e config he hst₁ hserved _ hst := by
    refine ⟨?_, hst.asked, ?_⟩
    · intro e' config' hlookup
      rcases Dict.lookup_insert_eq_some.mp hlookup with ⟨rfl, hentry⟩ | ⟨-, hlookup⟩
      · obtain rfl := CachedConfig.dict.inj hentry
        exact h st₁.asked hst₁.asked e' he config' hserved
      · exact hst.keyed e' config' hlookup
    · intro e' he' entry hlookup a ha
      rcases Dict.lookup_insert_eq_some.mp hlookup with ⟨rfl, rfl⟩ | ⟨-, hlookup⟩
      · exact ComesTo.served he' hst₁.asked hserved ha
      · exact hst.listed e' he' entry hlookup a ha
  evict st' e config _ _ _ hst := by
    refine ⟨fun e' config' hlookup => ?_, hst.asked.trans (Nat.le_succ _),
      fun e' he' entry hlookup => ?_⟩
    · exact hst.keyed e' config' (Dict.lookup_erase_eq_some.mp hlookup).2
    · exact hst.listed e' he' entry (Dict.lookup_erase_eq_some.mp hlookup).2
  remember _ _ _ _ _ _ _ _ _ _ hst := ⟨hst.keyed, hst.asked, hst.listed⟩
  forget _ _ _ _ _ hst := ⟨hst.keyed, hst.asked, hst.listed⟩
  listed _ e entry he hst hlookup := hst.listed e he entry hlookup
  subject _ _ := trivial

/-- A run keeps the cache keyed where the servers answer so for the IDs it comes to. -/
theorem keyedByIdentity_runState {st : CollectorState Key} (hst : KeyedByIdentity st)
    {ops : List CollectorOp} (h : ServesOwn env st.asked (ComesTo env st ops)) :
    KeyedByIdentity (runState (CollectorOp.run env) st ops) := by
  have hstart : KeyedWithin env st ops st :=
    ⟨hst, le_refl _, fun _ he _ hlookup _ ha => ComesTo.cached he hlookup ha⟩
  -- each operation of the list names IDs that are reached
  have hrun : ∀ ops' : List CollectorOp, (∀ op ∈ ops', op ∈ ops) → ∀ st',
      KeyedWithin env st ops st' → KeyedWithin env st ops (runState (CollectorOp.run env) st' ops') := by
    intro ops'
    induction ops' with
    | nil => exact fun _ _ hst' => hst'
    | cons op rest ih =>
        intro hops st' hst'
        have hnames : ∀ e ∈ op.names, ComesTo env st ops e :=
          fun e he => ComesTo.named (hops op (List.mem_cons_self ..)) he
        have hstep := ((cacheInvariant_keyedWithin h).run op hnames st' hst').1
        exact ih (fun op' hop' => hops op' (List.mem_cons_of_mem _ hop')) _ hstep
  exact (hrun ops (fun _ hop => hop) st hstart).keyed

/-- What is served is stored by a call that is to stop at its issuer. -/
theorem lookup_of_served {n : Nat} {e : EntityId} {config : SelfSigned Key}
    (h : Served env n e config) :
    (finalState ((CollectorOp.call e [] config.payload.iss).run env
      { asked := n })).configCache.lookup e = some (.dict config) := by
  obtain ⟨st', hfetch⟩ := outcome_eq_ok.mp h
  obtain ⟨token, st₁, hdocument, hverify⟩ := bind_eq_ok.mp hfetch
  obtain ⟨-, m, -, rfl⟩ := fetchConfiguration_eq_ok hfetch
  obtain rfl := verifySelfSignedSignature_eq_ok env hverify
  have hstored : (getEntityConfiguration env e >>= fun signedEntityConfig =>
      if !tokenTruthy signedEntityConfig then pure none
      else verifySelfSignedSignature env signedEntityConfig >>= fun config =>
        configCacheSet e (.dict config) >>= fun _ => pure (some config)) { asked := n } =
      .ok (some config)
        { asked := m, configCache := (∅ : Dict (CachedConfig Key)).insert e (.dict config) } := by
    rw [bind_of_ok hdocument]
    simp only [tokenTruthy, Bool.not_true, Bool.false_eq_true, if_false]
    rw [bind_of_ok hverify]
    rfl
  have hleaf : leafConfiguration env e { asked := n } = _ := hstored
  -- the collector stops there, or has no room to go on
  have htree : ∃ r, collectTree env config.payload.iss env.recursionLimit e (some config.payload) []
      { asked := m, configCache := (∅ : Dict (CachedConfig Key)).insert e (.dict config) } =
        lift r { asked := m, configCache := (∅ : Dict (CachedConfig Key)).insert e (.dict config) } := by
    cases env.recursionLimit with
    | zero => exact ⟨.error .recursionError, rfl⟩
    | succ depth =>
        unfold collectTree
        cases hhints : config.payload.authorityHints with
        | none => exact ⟨.ok .empty, by simp [hhints]⟩
        | some hints => exact ⟨.ok .empty, by simp [hhints]⟩
  obtain ⟨r, htree⟩ := htree
  have hcall : finalState (TrustChainCollector.call env e [] config.payload.iss { asked := n }) =
      { asked := m, configCache := (∅ : Dict (CachedConfig Key)).insert e (.dict config) } := by
    unfold TrustChainCollector.call
    rw [bind_of_ok hleaf]
    simp only
    cases r with
    | ok tree => rw [bind_of_ok htree, pure_apply, finalState_ok]
    | error err => rw [bind_of_error htree, finalState_error]
  rw [CollectorOp.run, finalState_bind_pure, hcall, AList.lookup_insert]

/-- What a call for a reached ID comes to, where nothing is cached, is reached. -/
theorem comesTo_of_call {st : CollectorState Key} {ops : List CollectorOp} {n : Nat}
    {e : EntityId} {seen : List EntityId} {stopAt : EntityId} (hn : st.asked ≤ n)
    (he : ComesTo env st ops e) {a : EntityId}
    (ha : ComesTo env { asked := n } [.call e seen stopAt] a) : ComesTo env st ops a := by
  induction ha with
  | named hop hid =>
      obtain rfl := List.mem_singleton.mp hop
      obtain rfl := List.mem_singleton.mp hid
      exact he
  | cached _ hlookup _ _ => exact absurd hlookup (by simp)
  | served _ hm hserved hhint ih => exact ih.served (hn.trans hm) hserved hhint

/-- A run from a state, and every later run that comes to no other IDs, has only
    configurations in the cache that are about the IDs they are under, exactly if from
    then on the servers hand out nothing else for these IDs. -/
theorem config_cache_keyed_iff (st : CollectorState Key) (ops : List CollectorOp) :
    (∀ st' ops', st.asked ≤ st'.asked → KeyedByIdentity st' →
      (∀ e, ComesTo env st' ops' e → ComesTo env st ops e) →
        KeyedByIdentity (runState (CollectorOp.run env) st' ops')) ↔
      ServesOwn env st.asked (ComesTo env st ops) := by
  constructor
  · intro hall n hn e he config hserved
    have hempty : KeyedByIdentity ({ asked := n } : CollectorState Key) := by
      intro e' config' hlookup
      exact absurd hlookup (by simp)
    exact hall _ [.call e [] config.payload.iss] hn hempty (fun a ha => comesTo_of_call hn he ha)
      e config (lookup_of_served hserved)
  · intro hserves st' ops' hasked hst' hreached
    exact keyedByIdentity_runState hst' fun m hm e he config hserved =>
      hserves m (hasked.trans hm) e (hreached e he) config hserved

/-! ## A tenant and its host -/

/-- A host that publishes its own configuration, and a tenant that publishes one further
    down. -/
def tenantOfHost : List (String × SignedStatement Nat) :=
  [("https://host.org/.well-known/openid-federation",
    ⟨{ iss := "https://host.org", sub := "https://host.org", exp := 1000, jwks := some [1] }, 1⟩),
   ("https://host.org/tenant/.well-known/openid-federation",
    ⟨{ iss := "https://host.org/tenant", sub := "https://host.org/tenant", exp := 1000
       jwks := some [2] }, 2⟩)]

/-- The tenant is asked for, and the configuration of the host is filed under its ID. -/
theorem host_configuration_under_tenant :
    ¬ ∀ (env : CollectorEnv Nat) (ops : List CollectorOp),
      KeyedByIdentity (runState (CollectorOp.run env) {} ops) := by
  intro hall
  have hkeyed := hall (onPages [] tenantOfHost) [.call "https://host.org/tenant" [] ""]
    "https://host.org/tenant" _ rfl
  exact absurd hkeyed.1 (by decide)

/-- Runs that come to the host alone keep the cache keyed, with the same pages. -/
theorem config_cache_keyed_iff_host :
    KeyedByIdentity (runState (CollectorOp.run (onPages [] tenantOfHost)) {}
      [.call "https://host.org" [] "", .getFederationFetchEndpoint "https://host.org"]) := by
  have hown : ∀ n config, Served (onPages [] tenantOfHost) n "https://host.org" config →
      config.payload = tenantOfHost[0].2.payload :=
    fun n config hserved => congrArg SelfSigned.payload (Except.ok.inj hserved).symm
  have hreached : ∀ e, ComesTo (onPages [] tenantOfHost) {}
      [.call "https://host.org" [] "", .getFederationFetchEndpoint "https://host.org"] e →
        e = "https://host.org" := by
    intro e he
    induction he with
    | named hop hid =>
        rcases List.mem_pair.mp hop with rfl | rfl
        · exact List.mem_singleton.mp hid
        · exact List.mem_singleton.mp hid
    | cached _ hlookup _ _ => exact absurd hlookup (by simp)
    | @served _ _ n config _ _ hserved hhint ih =>
        obtain rfl := ih
        rw [hown n config hserved] at hhint
        exact absurd hhint List.not_mem_nil
  refine (config_cache_keyed_iff {} _).mpr (fun m _ e he config hserved => ?_) {} _ (le_refl _)
    (fun _ _ hlookup => absurd hlookup (by simp)) (fun _ he => he)
  obtain rfl := hreached e he
  rw [hown m config hserved]
  exact ⟨rfl, rfl⟩

end Fedservice.Entity.Function
