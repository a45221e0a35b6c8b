/-
  Fedservice.Entity.FreshnessTests

  The three tests for the age of a cached entity configuration: the cache serves
  it up to a margin before it expires, `too_old` lets it pass up to a margin after
  that, and `statement_is_expired` knows no margin.  `__call__` reads the cache
  through `get`, which does not test, and `too_old`.
-/

import Fedservice.Entity.Function.ConfigCache
import Fedservice.Entity.Trawl

namespace Fedservice.Entity

open Fedservice.Lib Fedservice.Py Fedservice.EntityStatement Fedservice.Entity.Function

variable {Key : Type} [DecidableEq Key]

/-! ## Starting from the cache -/

/-- `__call__` goes on from the configuration in the cache: it has it after one look at
    the clock, and nobody was asked for it. -/
def StartsFromCache (env : CollectorEnv Key) (st : CollectorState Key) (entityId : EntityId)
    (config : SelfSigned Key) : Prop :=
  leafConfiguration env entityId st = .ok (some config) { st with asked := st.asked + 1 }

variable {env : CollectorEnv Key} {st : CollectorState Key} {e : EntityId}

/-- Verifying what was fetched takes a look at the clock of its own. -/
theorem asked_of_verifySelfSignedSignature {token : Token Key} {config : SelfSigned Key}
    {st' : CollectorState Key} (h : verifySelfSignedSignature env token st = .ok config st') :
    st.asked < st'.asked := by
  unfold verifySelfSignedSignature at h
  obtain ⟨s, st₁, hunverified, hrest⟩ := bind_eq_ok.mp h
  obtain ⟨-, rfl⟩ := lift_eq_ok.mp hunverified
  cases hjwks : s.payload.jwks with
  | none => simp [hjwks] at hrest
  | some jwks =>
      simp only [hjwks, unpackSelfSigned] at hrest
      by_cases hown : s.signer ∈ s.payload.keys
      · rw [dif_pos hown] at hrest
        obtain ⟨now, st₂, hclock, hunpack⟩ := bind_eq_ok.mp hrest
        obtain ⟨-, rfl⟩ := EStateM.Result.ok.inj hclock
        cases hreject : env.unpackRejects now s.payload with
        | some err => simp [hreject] at hunpack
        | none =>
            simp only [hreject, pure_apply, EStateM.Result.ok.injEq] at hunpack
            rw [← hunpack.2]
            exact Nat.lt_succ_self _
      · simp [dif_neg hown] at hrest

/-- The rest of `__call__`'s first part, where the cache is not used. -/
def fetchLeafConfiguration (env : CollectorEnv Key) (entityId : EntityId) :
    EStateM Exc (CollectorState Key) (Option (SelfSigned Key)) := do
  let signedEntityConfig ← getEntityConfiguration env entityId
  if !tokenTruthy signedEntityConfig then return none
  else do
    let config ← verifySelfSignedSignature env signedEntityConfig
    configCacheSet entityId (.dict config)
    return some config

/-- What was fetched is in the cache, and the clock has gone on. -/
theorem fetchLeafConfiguration_eq_ok {config : SelfSigned Key} {st' : CollectorState Key}
    (h : fetchLeafConfiguration env e st = .ok (some config) st') :
    st.asked < st'.asked ∧ st'.configCache.lookup e = some (.dict config) := by
  obtain ⟨token, st₁, hdocument, h⟩ := bind_eq_ok.mp h
  obtain ⟨n, hn, rfl⟩ := (onlyAsks_getEntityConfiguration env e).of_ok hdocument
  by_cases htruthy : (!tokenTruthy token) = true
  · rw [if_pos htruthy] at h
    exact absurd (EStateM.Result.ok.inj h).1 (by simp)
  · rw [if_neg htruthy] at h
    obtain ⟨config', st₂, hverify, h⟩ := bind_eq_ok.mp h
    have hasked := asked_of_verifySelfSignedSignature hverify
    obtain ⟨hconfig, rfl⟩ := EStateM.Result.ok.inj h
    obtain rfl := Option.some.inj hconfig
    exact ⟨Nat.lt_of_le_of_lt hn hasked, AList.lookup_insert _⟩

/-- The first part of `__call__` by what is in the cache. -/
theorem leafConfiguration_eq (env : CollectorEnv Key) (st : CollectorState Key) (e : EntityId) :
    leafConfiguration env e st =
      match st.configCache.lookup e with
      | none => fetchLeafConfiguration env e st
      | some entry =>
          if env.now st.asked ≥ entry.payload.exp + env.allowedDelta then
            fetchLeafConfiguration env e { st with asked := st.asked + 1 }
          else
            match entry with
            | .dict config => .ok (some config) { st with asked := st.asked + 1 }
            | .message _ => .error (.attributeError "_jws") { st with asked := st.asked + 1 } := by
  unfold leafConfiguration
  rw [bind_of_ok (get_apply st)]
  cases st.configCache.lookup e with
  | none => rfl
  | some entry =>
      have hclock : tooOld env entry.payload st =
          .ok (decide (env.now st.asked ≥ entry.payload.exp + env.allowedDelta))
            { st with asked := st.asked + 1 } := rfl
      simp only
      rw [bind_of_ok hclock]
      by_cases hold : env.now st.asked ≥ entry.payload.exp + env.allowedDelta
      · rw [if_pos hold, decide_eq_true hold]
        rfl
      · rw [if_neg hold, decide_eq_false hold]
        cases entry <;> rfl

/-- The configuration of the leaf is in the cache once it has been looked up. -/
theorem lookup_of_leafConfiguration {config : SelfSigned Key}
    {st' : CollectorState Key} (h : leafConfiguration env e st = .ok (some config) st') :
    st'.configCache.lookup e = some (.dict config) := by
  rw [leafConfiguration_eq] at h
  cases hlookup : st.configCache.lookup e with
  | none =>
      rw [hlookup] at h
      exact (fetchLeafConfiguration_eq_ok h).2
  | some entry =>
      simp only [hlookup] at h
      by_cases hold : env.now st.asked ≥ entry.payload.exp + env.allowedDelta
      · rw [if_pos hold] at h
        exact (fetchLeafConfiguration_eq_ok h).2
      · rw [if_neg hold] at h
        cases entry with
        | dict kept =>
            obtain ⟨hsame, rfl⟩ := EStateM.Result.ok.inj h
            rw [← Option.some.inj hsame]
            exact hlookup
        | message payload => exact absurd h (by simp)

/-- What `__call__` starts from: a verified configuration that is not older than the
    margin after its end. -/
theorem startsFromCache_iff {config : SelfSigned Key} :
    StartsFromCache env st e config ↔ st.configCache.lookup e = some (.dict config) ∧
      env.now st.asked < config.payload.exp + env.allowedDelta := by
  rw [StartsFromCache, leafConfiguration_eq]
  cases hlookup : st.configCache.lookup e with
  | none =>
      constructor
      · -- nothing is written to the cache by looking at the clock
        intro h
        have hnow := (fetchLeafConfiguration_eq_ok h).2
        rw [hlookup] at hnow
        exact absurd hnow (by simp)
      · rintro ⟨h, -⟩
        exact absurd h (by simp)
  | some entry =>
      simp only
      by_cases hold : env.now st.asked ≥ entry.payload.exp + env.allowedDelta
      · rw [if_pos hold]
        constructor
        · intro h
          exact absurd (fetchLeafConfiguration_eq_ok h).1 (Nat.lt_irrefl _)
        · rintro ⟨h, hyoung⟩
          obtain rfl := Option.some.inj h
          exact absurd hold (not_le.mpr hyoung)
      · rw [if_neg hold]
        cases entry with
        | message payload => simp
        | dict config' =>
            simp only [EStateM.Result.ok.injEq, Option.some.injEq, and_true, CachedConfig.dict.injEq]
            constructor
            · rintro rfl
              exact ⟨rfl, not_le.mp hold⟩
            · rintro ⟨rfl, -⟩
              rfl

/-! ## The tests together -/

/-- What `__call__` starts from is current by the other tests at the same time: it has
    not expired, the cache still serves it, and so the leaf of what is returned has not
    expired either. -/
structure FreshnessAgrees (env : CollectorEnv Key) (st : CollectorState Key) (e : EntityId) :
    Prop where
  current : ∀ config, StartsFromCache env st e config →
    ∃ st', statementIsExpired env config.payload st = .ok false st'
  served : ∀ config, StartsFromCache env st e config →
    ∃ st', configCacheItem env e st = .ok (some (.dict config)) st'
  leaf : ∀ config, StartsFromCache env st e config → ∀ seen stopAt tree leaf st',
    TrustChainCollector.call env e seen stopAt st = .ok (some (tree, leaf)) st' →
      env.now st.asked ≤ leaf.payload.exp

omit [DecidableEq Key] in
/-- The cache serves a verified configuration up to the margin before its end. -/
theorem configCacheItem_eq_dict_iff {config : SelfSigned Key}
    (hlookup : st.configCache.lookup e = some (.dict config)) :
    (∃ st', configCacheItem env e st = .ok (some (.dict config)) st') ↔
      env.now st.asked < config.payload.exp - env.allowedDelta := by
  have hclock : utcTimeSansFrac env st =
      .ok (env.now st.asked) { st with asked := st.asked + 1 } := rfl
  unfold configCacheItem
  rw [bind_of_ok (get_apply st)]
  simp only [hlookup]
  rw [bind_of_ok hclock]
  by_cases hserved : env.now st.asked < config.payload.exp - env.allowedDelta
  · rw [if_pos hserved]
    exact ⟨fun _ => hserved, fun _ => ⟨_, rfl⟩⟩
  · rw [if_neg hserved]
    constructor
    · rintro ⟨st', h⟩
      exact absurd (EStateM.Result.ok.inj h).1 (by simp)
    · exact fun h => absurd h hserved

/-- The tests agree exactly where the verified configuration in the cache, if there is
    one, is not within the margin before or after its end. -/
theorem freshnessAgrees_iff (env : CollectorEnv Key) (st : CollectorState Key) (e : EntityId) :
    FreshnessAgrees env st e ↔
      ∀ config, st.configCache.lookup e = some (.dict config) →
        env.now st.asked < config.payload.exp - env.allowedDelta ∨
          config.payload.exp + env.allowedDelta ≤ env.now st.asked := by
  constructor
  · intro h config hlookup
    by_cases hyoung : env.now st.asked < config.payload.exp + env.allowedDelta
    · have hserved := h.served config (startsFromCache_iff.mpr ⟨hlookup, hyoung⟩)
      exact Or.inl ((configCacheItem_eq_dict_iff hlookup).mp hserved)
    · exact Or.inr (not_lt.mp hyoung)
  · intro h
    -- what a call starts from passes all three tests, or none
    have hbefore : ∀ config, StartsFromCache env st e config →
        st.configCache.lookup e = some (.dict config) ∧
        env.now st.asked < config.payload.exp - env.allowedDelta ∧
        env.now st.asked ≤ config.payload.exp := by
      intro config hstart
      obtain ⟨hlookup, hyoung⟩ := startsFromCache_iff.mp hstart
      rcases h config hlookup with hserved | hgone
      · exact ⟨hlookup, hserved, by omega⟩
      · omega
    refine ⟨fun config hstart => ?_, fun config hstart => ?_, ?_⟩
    · obtain ⟨-, -, hcurrent⟩ := hbefore config hstart
      have hexpired : statementIsExpired env config.payload st =
          .ok (decide (config.payload.exp < env.now st.asked))
            { st with asked := st.asked + 1 } := rfl
      rw [hexpired, decide_eq_false (not_lt.mpr hcurrent)]
      exact ⟨_, rfl⟩
    · obtain ⟨hlookup, hserved, -⟩ := hbefore config hstart
      exact (configCacheItem_eq_dict_iff hlookup).mpr hserved
    · intro config hstart seen stopAt tree leaf st' hcall
      obtain ⟨-, -, hcurrent⟩ := hbefore config hstart
      unfold TrustChainCollector.call at hcall
      rw [bind_of_ok hstart] at hcall
      obtain ⟨tree', st₁, -, hreturn⟩ := bind_eq_ok.mp hcall
      obtain ⟨hpair, -⟩ := EStateM.Result.ok.inj hreturn
      obtain ⟨-, rfl⟩ := Prod.mk.inj (Option.some.inj hpair)
      exact hcurrent

/-! ## A leaf that has expired -/

/-- An entity configuration that ends at 50. -/
def endsAtFifty : SelfSigned Nat :=
  ⟨⟨{ iss := "https://op.org", sub := "https://op.org", exp := 50, jwks := some [3] }, 3⟩, by decide⟩

/-- At 100 it is what the collector starts from and returns. -/
theorem expired_leaf_returned :
    ¬ ∀ (env : CollectorEnv Nat) (st : CollectorState Nat) (e : EntityId),
      0 ≤ env.allowedDelta → FreshnessAgrees env st e := by
  intro h
  have hagrees := h (onPages [] [])
    { configCache := Dict.ofList [("https://op.org", .dict endsAtFifty)] } "https://op.org"
    (by decide)
  have hcurrent := hagrees.leaf endsAtFifty rfl [] "" .empty endsAtFifty _ rfl
  exact absurd hcurrent (by decide)

end Fedservice.Entity
