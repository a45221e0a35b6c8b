/-
  Fedservice.Entity.CacheLifetimes

  Configurations and entity statements are cached for lifetimes of their own, and
  reading the configuration cache drops what is about to expire.  Whether what is read
  to be used is there is a matter of each call: of what the caches hold before it, of
  the clock while it lasts, and of what is handed out meanwhile (`CallLasts`).  Between
  the calls of a run configurations and statements expire, and are fetched again.
-/

import Fedservice.Entity.Function.SteadyFederation
import Fedservice.Entity.Trawl
import Mathlib.Data.Finset.Lattice.Fold

namespace Fedservice.Entity

open Fedservice.Lib Fedservice.Py Fedservice.EntityStatement Fedservice.Crypto
  Fedservice.Entity.Function

variable {Jar Key : Type} [DecidableEq Key]

/-! ## While a call lasts -/

/-- A call: the questions from the `opens`-th to before the `closes`-th, a set of entities
    that it does not lead out of, and those among them that it trawls. -/
structure Span where
  opens : Nat
  closes : Nat
  entities : EntityId → Prop
  trawled : EntityId → Prop := fun _ => False

section Lasts

variable (env : CollectorEnv Key) (span : Span)

/-- From the `n`-th question to the end of the call the entry is not about to expire; a
    message never is. -/
def Lasts (n : Nat) (entry : CachedConfig Key) : Prop :=
  ∀ config, entry = .dict config → ∀ m, n ≤ m → m < span.closes →
    env.now m < config.payload.exp - env.allowedDelta

/-- From the `n`-th question to the end of the call the entry is about to expire. -/
def IsStale (n : Nat) (entry : CachedConfig Key) : Prop :=
  ∃ config, entry = .dict config ∧ ∀ m, n ≤ m → m < span.closes →
    ¬ env.now m < config.payload.exp - env.allowedDelta

/-- There is an entry for the entity, which lasts. -/
def There (st : CollectorState Key) (a : EntityId) : Prop :=
  ∃ entry, st.configCache.lookup a = some entry ∧ Lasts env span st.asked entry

/-- A cached statement with this expiry time is used at some moment of the call, if it is
    read then. -/
def Usable (n : Nat) (exp : Int) : Prop :=
  ∃ m, n ≤ m ∧ m < span.closes ∧ ¬ env.now m > exp - env.allowedDelta

/-- What is handed out during the call stays current until its end; what is handed out
    from then on does not lead out of the entities. -/
structure Lasting : Prop where
  served : ∀ n, span.opens ≤ n → n < span.closes → ∀ e, span.entities e → ∀ config,
    Served env n e config → Lasts env span n (.dict config)
  closed : ∀ n, span.opens ≤ n → ∀ e, span.entities e → ∀ config, Served env n e config →
    ListsOnly span.entities config.payload
  apart : ∀ some : Finset EntityId, (∀ e ∈ some, span.entities e) → CacheKeysApart some
  trawled : ∀ e, span.trawled e → span.entities e

/-- The caches during the call: what they hold of the entities lasts or is stale (and lasts,
    if it is trawled); the authorities of statements that will be used are there; and so
    are those of `S`. -/
structure Lives (S : EntityId → Prop) (start : Nat) (st : CollectorState Key) : Prop where
  opened : span.opens ≤ start
  since : start ≤ st.asked
  listed : ∀ e, span.entities e → ∀ entry, st.configCache.lookup e = some entry →
    ListsOnly span.entities entry.payload
  settled : st.asked ≤ span.closes → ∀ e, span.entities e → ∀ entry,
    st.configCache.lookup e = some entry → Lasts env span st.asked entry ∨
      (¬ span.trawled e ∧ IsStale env span st.asked entry)
  known : st.asked ≤ span.closes → ∀ a e, span.entities a → span.entities e → ∀ exp,
    (st.entityStatementCache.lookup (cacheKey a e)).isSome →
    st.entityStatementCache.lookup (timeKey a e) = some (.exp exp) →
    Usable env span st.asked exp → There env span st a
  kept : st.asked ≤ span.closes → ∀ a, S a → There env span st a

end Lasts

variable {env : CollectorEnv Key} {span : Span} {S : EntityId → Prop} {start : Nat}

omit [DecidableEq Key] in
theorem Lasts.later {n n' : Nat} {entry : CachedConfig Key} (h : Lasts env span n entry)
    (hn : n ≤ n') : Lasts env span n' entry :=
  fun config heq m hm => h config heq m (hn.trans hm)

omit [DecidableEq Key] in
theorem IsStale.later {n n' : Nat} {entry : CachedConfig Key} (h : IsStale env span n entry)
    (hn : n ≤ n') : IsStale env span n' entry := by
  obtain ⟨config, heq, hstale⟩ := h
  exact ⟨config, heq, fun m hm => hstale m (hn.trans hm)⟩

omit [DecidableEq Key] in
/-- More may be asked, and something else be cached. -/
theorem There.of_lookup {st st' : CollectorState Key} {a : EntityId} (h : There env span st a)
    (hasked : st.asked ≤ st'.asked)
    (hlookup : st'.configCache.lookup a = st.configCache.lookup a) : There env span st' a := by
  obtain ⟨entry, hentry, hlasts⟩ := h
  exact ⟨entry, hlookup.trans hentry, hlasts.later hasked⟩

omit [DecidableEq Key] in
/-- An entry that lasts is stored, for the entity or another one. -/
theorem There.insert {st : CollectorState Key} {a e : EntityId} {entry : CachedConfig Key}
    (h : There env span st a) (hlasts : Lasts env span st.asked entry) :
    There env span { st with configCache := st.configCache.insert e entry } a := by
  by_cases hsame : a = e
  · rw [hsame]
    exact ⟨entry, AList.lookup_insert _, hlasts⟩
  · exact h.of_lookup (le_refl _) (AList.lookup_insert_ne hsame)

omit [DecidableEq Key] in
/-- What is stored is there. -/
theorem Lives.settled_insert {st : CollectorState Key} {e : EntityId} {entry : CachedConfig Key}
    (hst : Lives env span S start st) (hN : st.asked ≤ span.closes)
    (hlasts : Lasts env span st.asked entry) {e' : EntityId} (he' : span.entities e')
    {entry' : CachedConfig Key} (hlookup : (st.configCache.insert e entry).lookup e' = some entry') :
    Lasts env span st.asked entry' ∨ (¬ span.trawled e' ∧ IsStale env span st.asked entry') := by
  rcases Dict.lookup_insert_eq_some.mp hlookup with ⟨-, rfl⟩ | ⟨-, hlookup⟩
  · exact Or.inl hlasts
  · exact hst.settled hN e' he' entry' hlookup

/-- The entry for an authority that is vouched for lasts. -/
theorem Lasting.there_of_vouched (h : Lasting env span) {st : CollectorState Key}
    (hN : st.asked ≤ span.closes) {a : EntityId} (ha : span.entities a)
    {entry : CachedConfig Key} (hentry : st.configCache.lookup a = some entry)
    (hvouched : Vouched env (Lives env span S start) st a entry) : There env span st a := by
  refine ⟨entry, hentry, fun config heq => ?_⟩
  obtain ⟨st₁, hst₁, hlt, hhow⟩ := hvouched config heq
  have hN₁ := hlt.trans_le hN
  rcases hhow with ⟨hlookup, hfresh⟩ | hserved
  · -- it was current at a moment of the call, so it was not stale
    rcases hst₁.settled hN₁.le a ha _ hlookup with hlasts | ⟨-, config', heq', hstale⟩
    · exact hlasts.later hlt.le config rfl
    · obtain rfl := CachedConfig.dict.inj heq'
      exact absurd hfresh (hstale st₁.asked (le_refl _) hN₁)
  · exact (h.served st₁.asked (hst₁.opened.trans hst₁.since) hN₁ a ha config hserved).later hlt.le
      config rfl

/-- What the collector does keeps it so. -/
theorem Lasting.cacheInvariant (h : Lasting env span) :
    CacheInvariant env span.entities span.entities (Lives env span S start) where
  asked st n hn hst := by
    refine ⟨hst.opened, hst.since.trans hn, hst.listed, fun hN e he entry hlookup => ?_,
      fun hN a e ha he exp hcached htime husable => ?_, fun hN a ha => ?_⟩
    · rcases hst.settled (hn.trans hN) e he entry hlookup with hlasts | ⟨hnot, hstale⟩
      · exact Or.inl (hlasts.later hn)
      · exact Or.inr ⟨hnot, hstale.later hn⟩
    · obtain ⟨m, hm, hlast, huse⟩ := husable
      exact (hst.known (hn.trans hN) a e ha he exp hcached htime
        ⟨m, hn.trans hm, hlast, huse⟩).of_lookup hn rfl
    · exact (hst.kept (hn.trans hN) a ha).of_lookup hn rfl
  store st₁ st e config he hst₁ hserved hlt hst := by
    have hlasts : st.asked ≤ span.closes → Lasts env span st.asked (.dict config) := fun hN =>
      (h.served st₁.asked (hst₁.opened.trans hst₁.since) (hlt.trans_le hN) e he config
        hserved).later hlt.le
    refine ⟨hst.opened, hst.since, ?_, fun hN e' he' entry hlookup =>
      hst.settled_insert hN (hlasts hN) he' hlookup, ?_, fun hN a ha =>
      (hst.kept hN a ha).insert (hlasts hN)⟩
    · intro e' he' entry hlookup
      rcases Dict.lookup_insert_eq_some.mp hlookup with ⟨rfl, rfl⟩ | ⟨-, hlookup⟩
      · exact h.closed st₁.asked (hst₁.opened.trans hst₁.since) e' he' config hserved
      · exact hst.listed e' he' entry hlookup
    · intro hN a e' ha he' exp hcached htime husable
      exact (hst.known hN a e' ha he' exp hcached htime husable).insert (hlasts hN)
  evict st e config he hlookup hpast hst := by
    -- what lasts is not evicted
    have hkeep : st.asked + 1 ≤ span.closes → ∀ a, There env span st a →
        There env span { st with asked := st.asked + 1, configCache := st.configCache.erase e } a := by
      intro hN a hthere
      have hne : a ≠ e := by
        rintro rfl
        obtain ⟨entry, hentry, hlasts⟩ := hthere
        obtain rfl := Option.some.inj (hlookup.symm.trans hentry)
        exact hpast (hlasts config rfl st.asked (le_refl _) hN)
      exact hthere.of_lookup (Nat.le_succ _) (AList.lookup_erase_ne hne)
    refine ⟨hst.opened, hst.since.trans (Nat.le_succ _), ?_, ?_, ?_, fun hN a ha =>
      hkeep hN a (hst.kept (Nat.le_of_succ_le hN) a ha)⟩
    · intro e' he' entry hentry
      exact hst.listed e' he' entry (Dict.lookup_erase_eq_some.mp hentry).2
    · intro hN e' he' entry hentry
      rcases hst.settled (Nat.le_of_succ_le hN) e' he' entry
        (Dict.lookup_erase_eq_some.mp hentry).2 with hlasts | ⟨hnot, hstale⟩
      · exact Or.inl (hlasts.later (Nat.le_succ _))
      · exact Or.inr ⟨hnot, hstale.later (Nat.le_succ _)⟩
    · rintro hN a e' ha he' exp hcached htime ⟨m, hm, hlast, huse⟩
      exact hkeep hN a (hst.known (Nat.le_of_succ_le hN) a e' ha he' exp hcached htime
        ⟨m, (Nat.le_succ _).trans hm, hlast, huse⟩)
  remember st a e token exp entry ha he hentry hvouched hst := by
    refine ⟨hst.opened, hst.since, hst.listed, hst.settled, ?_, hst.kept⟩
    intro hN a' e' ha' he' exp' hcached htime husable
    have hpair : ∀ x ∈ ({a, e, a', e'} : Finset EntityId), span.entities x := by
      intro x hx
      simp only [Finset.mem_insert, Finset.mem_singleton] at hx
      rcases hx with rfl | rfl | rfl | rfl <;> assumption
    obtain ⟨hkey, htimes, hcross⟩ := h.apart _ hpair a' (by simp) e' (by simp) a (by simp) e (by simp)
    obtain ⟨-, -, hcross'⟩ := h.apart _ hpair a (by simp) e (by simp) a' (by simp) e' (by simp)
    by_cases hsame : a' = a
    · rw [hsame]
      exact h.there_of_vouched hN ha hentry hvouched
    · -- another authority: its statement and time were there before
      rw [Dict.lookup_insert', if_neg hcross, Dict.lookup_insert',
        if_neg fun heq => hsame (hkey heq).1] at hcached
      rw [Dict.lookup_insert', if_neg fun heq => hsame (htimes heq).1, Dict.lookup_insert',
        if_neg fun heq => hcross' heq.symm] at htime
      exact hst.known hN a' e' ha' he' exp' hcached htime husable
  forget st a e ha he hst := by
    refine ⟨hst.opened, hst.since, hst.listed, hst.settled, ?_, hst.kept⟩
    intro hN a' e' ha' he' exp' hcached htime husable
    have hbefore : ∀ {k entry}, ((st.entityStatementCache.erase (cacheKey a e)).erase
        (timeKey a e)).lookup k = some entry → st.entityStatementCache.lookup k = some entry :=
      fun hentry => (Dict.lookup_erase_eq_some.mp (Dict.lookup_erase_eq_some.mp hentry).2).2
    obtain ⟨entry, hentry⟩ := Option.isSome_iff_exists.mp hcached
    exact hst.known hN a' e' ha' he' exp'
      (Option.isSome_iff_exists.mpr ⟨entry, hbefore hentry⟩) (hbefore htime) husable
  listed st e entry he hst hlookup := hst.listed e he entry hlookup
  subject _ ha := ha

omit [DecidableEq Key] in
/-- The count can be taken from any later point on. -/
theorem Lives.restart {st : CollectorState Key} (h : Lives env span S start st) :
    Lives env span S st.asked st :=
  { h with opened := h.opened.trans h.since, since := le_refl _ }

omit [DecidableEq Key] in
theorem Lives.weaken {S' : EntityId → Prop} {st : CollectorState Key}
    (h : Lives env span S start st) (hsub : ∀ a, S' a → S a) :
    Lives env span S' start st :=
  { h with kept := fun hN a ha => h.kept hN a (hsub a ha) }

omit [DecidableEq Key] in
/-- Only so much has been asked before. -/
theorem asked_le_of_ensures {α : Type} {m : EStateM Exc (CollectorState Key) α}
    {Post : α → Prop}
    (hm : ∀ start, Ensures (Lives env span S start) m Post) {st : CollectorState Key}
    (hst : Lives env span S start st) : st.asked ≤ (finalState (m st)).asked :=
  (hm st.asked st hst.restart).1.since

/-! ## Reading what is there -/

omit [DecidableEq Key] in
/-- What is there and lasts is found when it is read. -/
theorem There.read_ne_none {a : EntityId} {st st' : CollectorState Key}
    (hthere : st.asked ≤ span.closes → There env span st a)
    {read : Option (CachedConfig Key)} (hread : configCacheItem env a st = .ok read st')
    (hN : st'.asked ≤ span.closes) : read ≠ none := by
  unfold configCacheItem at hread
  rw [bind_of_ok (get_apply st)] at hread
  cases hlookup : st.configCache.lookup a with
  | none =>
      rw [hlookup] at hread
      obtain ⟨-, rfl⟩ := EStateM.Result.ok.inj hread
      obtain ⟨entry, hentry, -⟩ := hthere hN
      exact absurd (hlookup.symm.trans hentry) (by simp)
  | some found =>
      rw [hlookup] at hread
      cases found with
      | message payload =>
          obtain ⟨rfl, -⟩ := EStateM.Result.ok.inj hread
          simp
      | dict config =>
          have hclock : utcTimeSansFrac env st =
              .ok (env.now st.asked) { st with asked := st.asked + 1 } := rfl
          simp only at hread
          rw [bind_of_ok hclock] at hread
          by_cases hfresh : env.now st.asked < config.payload.exp - env.allowedDelta
          · rw [if_pos hfresh] at hread
            obtain ⟨rfl, -⟩ := EStateM.Result.ok.inj hread
            simp
          · rw [if_neg hfresh] at hread
            obtain ⟨-, rfl⟩ := EStateM.Result.ok.inj hread
            obtain ⟨entry, hentry, hlasts⟩ := hthere (Nat.le_of_succ_le hN)
            obtain rfl := Option.some.inj (hlookup.symm.trans hentry)
            exact absurd (hlasts config rfl st.asked (le_refl _) hN) hfresh

/-- The authority of a statement is there, once the statement is. -/
theorem Lasting.there_of_getEntityStatementFor (h : Lasting env span) {a e : EntityId}
    (ha : span.entities a) (he : span.entities e) {st st' : CollectorState Key}
    (hst : Lives env span S start st) {token : Token Key}
    (hget : getEntityStatementFor env e a st = .ok (some token) st')
    (hN : st'.asked ≤ span.closes) : There env span st' a := by
  obtain ⟨cached, st₁, hcached, hget⟩ := bind_eq_ok.mp hget
  cases cached with
  | some found =>
      -- the statement was cached, and young enough to be used
      obtain ⟨-, rfl⟩ := EStateM.Result.ok.inj hget
      unfold cachedEntityStatement at hcached
      rw [bind_of_ok (get_apply st)] at hcached
      cases hlookup : st.entityStatementCache.lookup (cacheKey a e) with
      | none => simp [hlookup] at hcached
      | some entry =>
          have hclock : utcTimeSansFrac env st =
              .ok (env.now st.asked) { st with asked := st.asked + 1 } := rfl
          rw [hlookup] at hcached
          simp only at hcached
          rw [bind_of_ok hclock] at hcached
          cases htime : st.entityStatementCache.lookup (timeKey a e) with
          | none => simp [htime] at hcached
          | some time =>
              cases time with
              | jwt token' => simp [htime] at hcached
              | exp exp =>
                  rw [htime] at hcached
                  by_cases hold : env.now st.asked > exp - env.allowedDelta
                  · simp only [if_pos hold] at hcached
                    obtain ⟨heq, -⟩ := EStateM.Result.ok.inj hcached
                    exact absurd heq (by simp)
                  · simp only [if_neg hold] at hcached
                    obtain ⟨-, rfl⟩ := EStateM.Result.ok.inj hcached
                    have hsome : (st.entityStatementCache.lookup (cacheKey a e)).isSome := by
                      rw [hlookup]
                      rfl
                    exact (hst.known (Nat.le_of_succ_le hN) a e ha he exp hsome htime
                      ⟨st.asked, le_refl _, hN, hold⟩).of_lookup (Nat.le_succ _) rfl
  | none =>
      -- it was fetched, after the fetch endpoint had been looked up
      obtain ⟨endpoint, st₂, hendpoint, hget⟩ := bind_eq_ok.mp hget
      have hst₁ := (h.cacheInvariant.cachedEntityStatement he ha).of_ok hst hcached
      obtain ⟨entry, hentry, hvouched⟩ :=
        h.cacheInvariant.vouched_of_getFederationFetchEndpoint ha hst₁ hendpoint
      by_cases htruthy : (!endpoint.truthy) = true
      · rw [if_pos htruthy] at hget
        obtain ⟨heq, -⟩ := EStateM.Result.ok.inj hget
        exact absurd heq (by simp)
      · rw [if_neg htruthy] at hget
        obtain ⟨answer, st₃, hview, hget⟩ := bind_eq_ok.mp hget
        obtain ⟨n, hn, rfl⟩ := (onlyAsks_getEntityStatement env endpoint a e).of_ok hview
        obtain ⟨statement, st₄, hunverified, hget⟩ := bind_eq_ok.mp hget
        obtain ⟨-, rfl⟩ := lift_eq_ok.mp hunverified
        obtain ⟨-, rfl⟩ := EStateM.Result.ok.inj hget
        exact (h.there_of_vouched (hn.trans hN) ha hentry hvouched).of_lookup hn rfl

/-- One level of `collect_tree`, given that the next one is as it should be. -/
theorem Lasting.branchReads_ne_none (h : Lasting env span)
    {collectTree : EntityId → Option (Statement Key) → List EntityId →
      EStateM Exc (CollectorState Key) (Function.Tree Key)}
    {reads : EntityId → Option (Statement Key) → List EntityId → CollectorState Key →
      List (Option (CachedConfig Key))}
    (hkeeps : ∀ start a config seen, span.entities a →
      (∀ c ∈ config, ListsOnly span.entities c) →
        Ensures (Lives env span S start) (collectTree a config seen) (fun _ => True))
    (hlevel : ∀ a config seen st, span.entities a → (∀ c ∈ config, ListsOnly span.entities c) →
      Lives env span S start st → (finalState (collectTree a config seen st)).asked ≤ span.closes →
        ∀ r ∈ reads a config seen st, r ≠ none)
    {e a : EntityId} (he : span.entities e) (ha : span.entities a) (seen : List EntityId)
    {st : CollectorState Key} (hst : Lives env span S start st)
    (hN : (finalState (collectBranch env collectTree e a seen st)).asked ≤ span.closes) :
    ∀ r ∈ branchReads env reads e a seen st, r ≠ none := by
  unfold branchReads
  unfold collectBranch at hN
  by_cases hself : (e = a && decide (e ∈ env.trustAnchors)) = true
  · rw [if_pos hself]
    exact fun r hr => absurd hr List.not_mem_nil
  · rw [if_neg hself] at hN ⊢
    have hst₁ := (h.cacheInvariant.getEntityStatementFor he ha st hst).1
    cases hget : getEntityStatementFor env e a st with
    | error err st₁ => exact fun r hr => absurd hr List.not_mem_nil
    | ok found st₁ =>
        rw [hget, finalState_ok] at hst₁
        rw [bind_of_ok hget] at hN
        cases found with
        | none => exact fun r hr => absurd hr List.not_mem_nil
        | some token =>
            by_cases htruthy : (!tokenTruthy token) = true
            · simp only [if_pos htruthy]
              exact fun r hr => absurd hr List.not_mem_nil
            · simp only [if_neg htruthy] at hN ⊢
              have hitem := h.cacheInvariant.configCacheItem ha st₁ hst₁
              cases hread : configCacheItem env a st₁ with
              | error err st₂ => exact fun r hr => absurd hr List.not_mem_nil
              | ok read st₂ =>
                  rw [hread] at hitem
                  obtain ⟨hst₂, hlisted⟩ := hitem
                  rw [bind_of_ok hread, finalState_bind_pure] at hN
                  have hlists : ∀ c ∈ read.map (·.payload), ListsOnly span.entities c := by
                    intro c hc
                    obtain ⟨entry, hentry, rfl⟩ := Option.mem_map.mp hc
                    exact hlisted read st₂ rfl entry hentry
                  have hnext := asked_le_of_ensures
                    (fun start => hkeeps start a _ (seen ++ [a]) ha hlists) hst₂
                  intro r hr
                  rcases List.mem_cons.mp hr with rfl | hr
                  · -- where there is a statement, the configuration of the authority is there
                    exact There.read_ne_none (h.there_of_getEntityStatementFor ha he hst hget)
                      hread (hnext.trans hN)
                  · -- one level up
                    exact hlevel a _ _ st₂ ha hlists hst₂ hN r hr

/-- The loop over the authority hints. -/
theorem Lasting.superiorsReads_ne_none (h : Lasting env span)
    {collectTree : EntityId → Option (Statement Key) → List EntityId →
      EStateM Exc (CollectorState Key) (Function.Tree Key)}
    {reads : EntityId → Option (Statement Key) → List EntityId → CollectorState Key →
      List (Option (CachedConfig Key))}
    (hkeeps : ∀ start a config seen, span.entities a →
      (∀ c ∈ config, ListsOnly span.entities c) →
        Ensures (Lives env span S start) (collectTree a config seen) (fun _ => True))
    (hlevel : ∀ a config seen st, span.entities a → (∀ c ∈ config, ListsOnly span.entities c) →
      Lives env span S start st → (finalState (collectTree a config seen st)).asked ≤ span.closes →
        ∀ r ∈ reads a config seen st, r ≠ none)
    {e : EntityId} (he : span.entities e) (seen : List EntityId) (superior : Function.Tree Key)
    {hints : List EntityId} (hhints : ∀ a ∈ hints, span.entities a) {st : CollectorState Key}
    (hst : Lives env span S start st)
    (hN : (finalState (collectSuperiors env collectTree e seen superior hints st)).asked ≤ span.closes) :
    ∀ r ∈ superiorsReads env collectTree reads e seen hints st, r ≠ none := by
  induction hints generalizing superior st with
  | nil => exact fun r hr => absurd hr List.not_mem_nil
  | cons a rest ih =>
      have ha := hhints a (List.mem_cons_self ..)
      have hrest : ∀ b ∈ rest, span.entities b := fun b hb => hhints b (List.mem_cons_of_mem a hb)
      have hbranch := h.cacheInvariant.collectBranch (fun b config seen' hb hc =>
        hkeeps start b config seen' hb hc) he ha seen st hst
      rw [collectSuperiors] at hN
      rw [superiorsReads]
      intro r hr
      cases hrun : collectBranch env collectTree e a seen st with
      | error err st₁ =>
          -- the reads end with those of the branch that raised
          rw [bind_of_error hrun] at hN
          rw [hrun, List.append_nil] at hr
          refine h.branchReads_ne_none hkeeps hlevel he ha seen hst ?_ r hr
          rwa [hrun]
      | ok branch st₁ =>
          rw [hrun, finalState_ok] at hbranch
          rw [bind_of_ok hrun] at hN
          have hnext := asked_le_of_ensures (fun start => h.cacheInvariant.collectSuperiors
            (fun b config seen' hb hc => hkeeps start b config seen' hb hc) he seen
            (superior.set a branch) hrest) hbranch.1
          rw [hrun] at hr
          rcases List.mem_append.mp hr with hr | hr
          · refine h.branchReads_ne_none hkeeps hlevel he ha seen hst ?_ r hr
            rw [hrun]
            exact hnext.trans hN
          · exact ih (superior.set a branch) hrest hbranch.1 hN r hr

/-- All that `collect_tree` reads to be used is there. -/
theorem Lasting.treeReads_ne_none (h : Lasting env span) (stopAt : EntityId) (depth : Nat)
    {e : EntityId} (he : span.entities e) {config : Option (Statement Key)}
    (hconfig : ∀ c ∈ config, ListsOnly span.entities c) (seen : List EntityId)
    {st : CollectorState Key} (hst : Lives env span S start st)
    (hN : (finalState (collectTree env stopAt depth e config seen st)).asked ≤ span.closes) :
    ∀ r ∈ treeReads env stopAt depth e config seen st, r ≠ none := by
  induction depth generalizing e config seen st with
  | zero => exact fun r hr => absurd hr List.not_mem_nil
  | succ depth ih =>
      unfold treeReads
      unfold collectTree at hN
      cases config with
      | none => exact fun r hr => absurd hr List.not_mem_nil
      | some config =>
          cases hhints : config.authorityHints with
          | none =>
              simp only [hhints]
              exact fun r hr => absurd hr List.not_mem_nil
          | some hints =>
              simp only [hhints] at hN ⊢
              by_cases hstop : config.iss = stopAt
              · rw [if_pos hstop]
                exact fun r hr => absurd hr List.not_mem_nil
              · rw [if_neg hstop] at hN ⊢
                have hlists : ∀ a ∈ hints, span.entities a := by
                  intro a ha
                  exact hconfig config rfl a (by rw [hhints]; exact ha)
                exact h.superiorsReads_ne_none
                  (fun start a config' seen' ha hc =>
                    h.cacheInvariant.collectTree stopAt depth a config' seen' ha hc)
                  (fun a config' seen' st' ha hc hst' hN' => ih ha hc seen' hst' hN')
                  he seen .empty hlists hst hN

/-- All that `__call__` reads to be used is there. -/
theorem Lasting.callReads_ne_none (h : Lasting env span) {e : EntityId} (he : span.entities e)
    (seen : List EntityId) (stopAt : EntityId) {st : CollectorState Key}
    (hst : Lives env span S start st)
    (hN : (finalState (TrustChainCollector.call env e seen stopAt st)).asked ≤ span.closes) :
    ∀ r ∈ callReads env e seen stopAt st, r ≠ none := by
  unfold callReads
  unfold TrustChainCollector.call at hN
  have hleaf := h.cacheInvariant.leafConfiguration he st hst
  cases hrun : leafConfiguration env e st with
  | error err st₁ => exact fun r hr => absurd hr List.not_mem_nil
  | ok found st₁ =>
      rw [hrun] at hleaf
      obtain ⟨hst₁, hlisted⟩ := hleaf
      rw [bind_of_ok hrun] at hN
      cases found with
      | none => exact fun r hr => absurd hr List.not_mem_nil
      | some config =>
          simp only at hN ⊢
          rw [finalState_bind_pure] at hN
          have hlists : ∀ c ∈ some config.payload, ListsOnly span.entities c := by
            intro c hc
            obtain rfl := Option.mem_some.mp hc
            exact hlisted _ st₁ rfl config rfl
          exact h.treeReads_ne_none stopAt env.recursionLimit he hlists seen hst₁ hN

/-! ## With the record of what has been read -/

/-- During the call, all that has been read to be used was there. -/
structure TracedLives (env : CollectorEnv Key) (span : Span) (S : EntityId → Prop) (start : Nat)
    (t : Traced Jar Key) : Prop where
  lives : Lives env span S start t.federation.collector
  reads : t.federation.collector.asked ≤ span.closes → ∀ r ∈ t.reads, r ≠ none

omit [DecidableEq Key] in
theorem TracedLives.weaken {S' : EntityId → Prop} {t : Traced Jar Key}
    (h : TracedLives env span S start t) (hsub : ∀ a, S' a → S a) :
    TracedLives env span S' start t :=
  ⟨h.lives.weaken hsub, h.reads⟩

omit [DecidableEq Key] in
/-- What is there may be counted on from then on. -/
theorem TracedLives.keep {a : EntityId} {t : Traced Jar Key}
    (h : TracedLives env span S start t)
    (hthere : t.federation.collector.asked ≤ span.closes →
      There env span t.federation.collector a) :
    TracedLives env span (fun b => S b ∨ b = a) start t := by
  refine ⟨{ h.lives with kept := fun hN b hb => ?_ }, h.reads⟩
  rcases hb with hb | rfl
  · exact h.lives.kept hN b hb
  · exact hthere hN

/-- A computation of the federation entity that treats the caches as the collector does,
    and `Post` holds of what it returns. -/
def KeepsCaches {α : Type} (env : CollectorEnv Key) (span : Span)
    (m : EStateM Exc (FederationState Jar Key) α) (Post : α → Prop) : Prop :=
  ∀ S start, Ensures (fun st => Lives env span S start st.collector) m Post

omit [DecidableEq Key] in
theorem keepsCaches_inCollector {α : Type} {m : EStateM Exc (CollectorState Key) α}
    {Post : α → Prop} (hm : ∀ S start, Ensures (Lives env span S start) m Post) :
    KeepsCaches env span (inCollector m : EStateM Exc (FederationState Jar Key) α) Post :=
  fun S start => (hm S start).zoom fun _ _ => rfl

omit [DecidableEq Key] in
theorem keepsCaches_inKeyjar {α : Type} (m : EStateM Exc Jar α) :
    KeepsCaches env span (inKeyjar m : EStateM Exc (FederationState Jar Key) α)
      (fun _ => True) := by
  intro S start st hst
  refine ⟨?_, fun _ _ _ => trivial⟩
  unfold inKeyjar zoom
  cases m st.keyjar <;> exact hst

omit [DecidableEq Key] in
theorem KeepsCaches.bind {α β : Type} {m : EStateM Exc (FederationState Jar Key) α}
    {P : α → Prop} {f : α → EStateM Exc (FederationState Jar Key) β} {Q : β → Prop}
    (hm : KeepsCaches env span m P) (hf : ∀ a, P a → KeepsCaches env span (f a) Q) :
    KeepsCaches env span (m >>= f) Q :=
  fun S start => (hm S start).bind fun a ha => hf a ha S start

omit [DecidableEq Key] in
theorem keepsCaches_lift {α : Type} (x : Except Exc α) :
    KeepsCaches env span (lift x : EStateM Exc (FederationState Jar Key) α)
      (fun _ => True) :=
  fun _ _ => ensures_lift fun _ _ => trivial

omit [DecidableEq Key] in
/-- No less has been asked after it. -/
theorem KeepsCaches.asked_le {α : Type} {m : EStateM Exc (FederationState Jar Key) α}
    {Post : α → Prop} (hm : KeepsCaches env span m Post) {st : FederationState Jar Key}
    (hst : Lives env span S start st.collector) :
    st.collector.asked ≤ (finalState (m st)).collector.asked :=
  (hm S st.collector.asked st hst.restart).1.since

omit [DecidableEq Key] in
/-- Running something, after what it reads has been recorded. -/
theorem ensures_tracing {α : Type} {m : EStateM Exc (FederationState Jar Key) α}
    {Post : α → Prop} (hm : KeepsCaches env span m Post)
    {reads : CollectorState Key → List (Option (CachedConfig Key))}
    (hreads : ∀ st : FederationState Jar Key, Lives env span S start st.collector →
      (finalState (m st)).collector.asked ≤ span.closes → ∀ r ∈ reads st.collector, r ≠ none) :
    Ensures (TracedLives env span S start) (tracing reads m) Post := by
  intro t ht
  have hlives := hm S start t.federation ht.lives
  have hasked := hm.asked_le ht.lives
  have hall := hreads t.federation ht.lives
  have hreturn := tracing_apply reads m t
  cases hrun : m t.federation with
  | error err st =>
      rw [hrun] at hlives hasked hall hreturn
      rw [hreturn]
      refine ⟨⟨hlives.1, fun hN r hr => ?_⟩, fun _ _ heq => absurd heq (by simp)⟩
      rcases List.mem_append.mp hr with hr | hr
      · exact ht.reads (hasked.trans hN) r hr
      · exact hall hN r hr
  | ok a st =>
      rw [hrun] at hlives hasked hall hreturn
      rw [hreturn]
      refine ⟨⟨hlives.1, fun hN r hr => ?_⟩, fun b t' heq => ?_⟩
      · rcases List.mem_append.mp hr with hr | hr
        · exact ht.reads (hasked.trans hN) r hr
        · exact hall hN r hr
      · obtain ⟨rfl, -⟩ := EStateM.Result.ok.inj heq
        exact hlives.2 a st rfl

omit [DecidableEq Key] in
theorem ensures_inFederation {α : Type} {m : EStateM Exc (FederationState Jar Key) α}
    {Post : α → Prop} (hm : KeepsCaches env span m Post) :
    Ensures (TracedLives env span S start) (inFederation m) Post := by
  intro t ht
  have hnothing : Ensures (TracedLives env span S start) (tracing (fun _ => []) m) Post :=
    ensures_tracing hm fun _ _ _ r hr => absurd hr List.not_mem_nil
  have hsame : tracing (fun _ => []) m t = inFederation m t := by
    rw [tracing_apply, List.append_nil]
    unfold inFederation zoom
    cases m t.federation <;> rfl
  rw [← hsame]
  exact hnothing t ht

/-- Reading what may be counted on. -/
theorem Lasting.ensures_usedConfig (h : Lasting env span) {a : EntityId}
    (ha : span.entities a) (hS : S a) :
    Ensures (TracedLives env span S start)
      (usedConfig env a : EStateM Exc (Traced Jar Key) (CachedConfig Key)) (fun _ => True) := by
  intro t ht
  refine ⟨?_, fun _ _ _ => trivial⟩
  have hitem := (h.cacheInvariant.configCacheItem ha t.federation.collector ht.lives).1
  have hasked := (h.cacheInvariant.configCacheItem ha t.federation.collector ht.lives.restart).1.since
  unfold usedConfig
  cases hread : configCacheItem env a t.federation.collector with
  | error err st =>
      rw [hread] at hitem hasked
      have hin : inFederation (inCollector (configCacheItem env a)) t =
          .error err { t with federation := { t.federation with collector := st } } := by
        simp only [inFederation, inCollector, zoom, hread]
      rw [bind_of_error hin]
      exact ⟨hitem, fun hN => ht.reads (hasked.trans hN)⟩
  | ok read st =>
      rw [hread] at hitem hasked
      have hin : inFederation (inCollector (configCacheItem env a)) t =
          .ok read { t with federation := { t.federation with collector := st } } := by
        simp only [inFederation, inCollector, zoom, hread]
      rw [bind_of_ok hin]
      have hall : TracedLives env span S start
          { t with
            federation := { t.federation with collector := st }, reads := t.reads ++ [read] } := by
        refine ⟨hitem, fun hN r hr => ?_⟩
        rcases List.mem_append.mp hr with hr | hr
        · exact ht.reads (hasked.trans hN) r hr
        · rw [List.mem_singleton.mp hr]
          exact There.read_ne_none (fun hN => ht.lives.kept hN a hS) hread hN
      cases read <;> exact hall

/-! ## get_metadata -/

/-- What is published about the entity during the call is not empty. -/
def Published (env : CollectorEnv Key) (span : Span) (e : EntityId) : Prop :=
  ∀ n, span.opens ≤ n → n < span.closes → ∀ token,
    outcome (getEntityConfiguration env e { asked := n }) = .ok token → tokenTruthy token = true

/-- The configuration of the leaf is there once it has been fetched. -/
theorem Lasting.there_of_leafConfiguration (h : Lasting env span) {e : EntityId}
    (he : span.entities e) (hpublished : Published env span e) {st st' : CollectorState Key}
    (hst : Lives env span S start st) (hnone : st.configCache.lookup e = none)
    {found : Option (SelfSigned Key)} (hleaf : leafConfiguration env e st = .ok found st')
    (hN : st'.asked ≤ span.closes) : There env span st' e ∧ found ≠ none := by
  have hopened := hst.opened.trans hst.since
  have hfetch : (getEntityConfiguration env e >>= fun signedEntityConfig =>
      if !tokenTruthy signedEntityConfig then pure none
      else verifySelfSignedSignature env signedEntityConfig >>= fun config =>
        configCacheSet e (.dict config) >>= fun _ => pure (some config)) st = .ok found st' := by
    unfold leafConfiguration at hleaf
    rw [bind_of_ok (get_apply st), hnone] at hleaf
    exact hleaf
  obtain ⟨token, st₂, hdocument, hrun⟩ := bind_eq_ok.mp hfetch
  have hout : outcome (getEntityConfiguration env e { asked := st.asked }) = .ok token := by
    rw [← (onlyAsks_getEntityConfiguration env e).outcome_eq, hdocument, outcome_ok]
  have hlt := asked_lt_of_getEntityConfiguration env hdocument
  obtain ⟨n, hn, rfl⟩ := (onlyAsks_getEntityConfiguration env e).of_ok hdocument
  by_cases htruthy : (!tokenTruthy token) = true
  · rw [if_pos htruthy] at hrun
    obtain ⟨-, rfl⟩ := EStateM.Result.ok.inj hrun
    have hfull := hpublished st.asked hopened (hlt.trans_le hN) token hout
    rw [hfull] at htruthy
    exact absurd htruthy (by simp)
  · rw [if_neg htruthy] at hrun
    obtain ⟨config, st₃, hverify, hrun⟩ := bind_eq_ok.mp hrun
    obtain ⟨hserved, m, hm, rfl⟩ :=
      fetchConfiguration_eq_ok (bind_eq_ok.mpr ⟨token, _, hdocument, hverify⟩)
    obtain ⟨rfl, rfl⟩ := EStateM.Result.ok.inj hrun
    refine ⟨⟨.dict config, AList.lookup_insert _, ?_⟩, by simp⟩
    exact (h.served st.asked hopened (hm.trans_le hN) e he config hserved).later hm.le

/-- After chains have been collected for an entity that was not cached, its configuration
    is there. -/
theorem Lasting.there_of_collectTrustChains (h : Lasting env span) {e : EntityId}
    (he : span.entities e) (hpublished : Published env span e) {st st' : CollectorState Key}
    (hst : Lives env span S start st) (hnone : st.configCache.lookup e = none)
    {found : List (List (Token Key)) × Option (SelfSigned Key)}
    (hrun : collectTrustChains env e (.text "") "" [] st = .ok found st')
    (hN : st'.asked ≤ span.closes) : There env span st' e := by
  obtain ⟨collected, st₁, hcollect, hrun⟩ := bind_eq_ok.mp hrun
  have hst₁ : st₁ = st' := by
    cases collected with
    | none => exact (EStateM.Result.ok.inj hrun).2
    | some p =>
        obtain ⟨tree, config⟩ := p
        cases tree <;> exact (EStateM.Result.ok.inj hrun).2
  obtain rfl := hst₁
  have hcall : TrustChainCollector.call env e [] "" st = .ok collected st₁ := hcollect
  obtain ⟨leaf, st₂, hleaf, hcall⟩ := bind_eq_ok.mp hcall
  have hkept := h.cacheInvariant.leafConfiguration he st hst
  rw [hleaf] at hkept
  obtain ⟨hst₂, hlisted⟩ := hkept
  cases leaf with
  | none =>
      obtain ⟨-, rfl⟩ := EStateM.Result.ok.inj hcall
      exact absurd rfl (h.there_of_leafConfiguration he hpublished hst hnone hleaf hN).2
  | some config =>
      obtain ⟨tree, st₃, htree, hcall⟩ := bind_eq_ok.mp hcall
      obtain ⟨-, rfl⟩ := EStateM.Result.ok.inj hcall
      have hlists : ∀ c ∈ some config.payload, ListsOnly span.entities c := by
        intro c hc
        obtain rfl := Option.mem_some.mp hc
        exact hlisted _ st₂ rfl config rfl
      -- it stays there while the superiors are collected
      have hst₂' : Lives env span (fun b => S b ∨ b = e) start st₂ := by
        refine { hst₂ with kept := fun hN b hb => ?_ }
        rcases hb with hb | rfl
        · exact hst₂.kept hN b hb
        · exact (h.there_of_leafConfiguration he hpublished hst hnone hleaf hN).1
      have hst₃ := (h.cacheInvariant.collectTree "" env.recursionLimit e _ [] he hlists).of_ok hst₂'
        htree
      exact hst₃.kept hN e (Or.inr rfl)

section Operations

variable [KeyStore Jar Key] {ho : HashOrder} {client : ClientEnv Key}

omit [KeyStore Jar Key] in
theorem Lasting.keepsCaches_collectTrustChains (h : Lasting env span) {e : EntityId}
    (he : span.entities e) : KeepsCaches env span
      (inCollector (collectTrustChains env e) : EStateM Exc (FederationState Jar Key) _)
      (fun _ => True) := by
  exact keepsCaches_inCollector fun _ _ => h.cacheInvariant.collectTrustChains he

omit [KeyStore Jar Key] in
/-- What collecting chains reads. -/
theorem Lasting.collectReads_ne_none (h : Lasting env span) {e : EntityId}
    (he : span.entities e) {st : CollectorState Key} (hst : Lives env span S start st)
    (hN : (finalState (collectTrustChains env e (.text "") "" [] st)).asked ≤ span.closes) :
    ∀ r ∈ callReads env e [] "" st, r ≠ none := by
  refine h.callReads_ne_none he [] "" hst ?_
  have hsame : finalState (collectTrustChains env e (.text "") "" [] st) =
      finalState (TrustChainCollector.call env e [] "" st) := by
    have hcollect : collectFor env e (.text "") "" [] st =
        TrustChainCollector.call env e [] "" st := rfl
    unfold collectTrustChains
    cases hrun : TrustChainCollector.call env e [] "" st with
    | error err st₁ =>
        rw [bind_of_error (hcollect.trans hrun)]
        rfl
    | ok found st₁ =>
        rw [bind_of_ok (hcollect.trans hrun)]
        cases found with
        | none => rfl
        | some p =>
            obtain ⟨tree, config⟩ := p
            cases tree <;> rfl
  rwa [← hsame]

omit [KeyStore Jar Key] in
/-- `get_metadata`, where the configuration may be counted on. -/
theorem Lasting.ensures_cachedMetadataConfig (h : Lasting env span) {e : EntityId}
    (he : span.entities e) (hS : S e) :
    Ensures (TracedLives env span S start)
      (cachedMetadataConfig env e : EStateM Exc (Traced Jar Key) _) (fun _ => True) := by
  intro t ht
  refine ⟨?_, fun _ _ _ => trivial⟩
  unfold cachedMetadataConfig
  rw [bind_of_ok (get_apply t)]
  by_cases hmem : e ∈ t.federation.collector.configCache
  · rw [if_pos hmem]
    have hclock : ∀ statement : Statement Key, KeepsCaches env span
        (inCollector (statementIsExpired env statement) :
          EStateM Exc (FederationState Jar Key) Bool) (fun _ => True) := by
      intro statement
      have hasks : OnlyAsks (statementIsExpired env statement) :=
        (onlyAsks_utcTimeSansFrac env).bind fun now => onlyAsks_lift (.ok _)
      exact keepsCaches_inCollector fun S start => hasks.ensures h.cacheInvariant.asked
    have hrest : Ensures (TracedLives env span S start)
        (usedConfig env e >>= fun ec =>
          inFederation (inCollector (statementIsExpired env ec.payload)) >>= fun expired =>
            if expired = true then pure none else pure (some ec) :
          EStateM Exc (Traced Jar Key) (Option (CachedConfig Key))) (fun _ => True) := by
      refine (h.ensures_usedConfig he hS).bind fun ec _ => ?_
      refine (ensures_inFederation (hclock ec.payload)).bind fun expired _ => ?_
      cases expired <;> exact ensures_pure trivial
    exact (hrest t ht).1
  · rw [if_neg hmem]
    exact ht

omit [KeyStore Jar Key] in
theorem Lasting.ensures_collecting (h : Lasting env span) {e : EntityId}
    (he : span.entities e) :
    Ensures (TracedLives env span S start)
      (tracing (callReads env e [] "") (inCollector (collectTrustChains env e)) :
        EStateM Exc (Traced Jar Key) _) (fun _ => True) := by
  refine ensures_tracing (h.keepsCaches_collectTrustChains he) fun st hst hN => ?_
  refine h.collectReads_ne_none he hst ?_
  unfold inCollector zoom at hN
  cases hrun : collectTrustChains env e (.text "") "" [] st.collector <;>
    rw [hrun] at hN <;> exact hN

/-- The second half of `get_metadata`, once the chains have been collected. -/
theorem Lasting.ensures_metadataAfter (h : Lasting env span) {e : EntityId}
    (he : span.entities e) (hS : S e) (chains : List (List (Token Key))) :
    Ensures (TracedLives env span S start)
      (inFederation (inKeyjar (verifyTrustChains [] chains)) >>= fun _ =>
        usedConfig env e >>= fun ec => inFederation (lift (metadataOf ec.payload)) :
        EStateM Exc (Traced Jar Key) (Dict Metadata)) (fun _ => True) := by
  refine (ensures_inFederation (keepsCaches_inKeyjar _)).bind fun _ _ => ?_
  refine (h.ensures_usedConfig he hS).bind fun ec _ => ?_
  exact ensures_inFederation (keepsCaches_lift _)

/-- `get_metadata`, where the configuration may be counted on. -/
theorem Lasting.ensures_getMetadata (h : Lasting env span) {e : EntityId}
    (he : span.entities e) (hS : S e) :
    Ensures (TracedLives env span S start)
      (getMetadata env e : EStateM Exc (Traced Jar Key) _) (fun _ => True) := by
  refine (h.ensures_cachedMetadataConfig he hS).bind fun cached _ => ?_
  cases cached with
  | some ec => exact ensures_inFederation (keepsCaches_lift _)
  | none => exact (h.ensures_collecting he).bind fun found _ => h.ensures_metadataAfter he hS found.1

/-- `get_metadata`: what is cached of the entity lasts, or something is published. -/
theorem Lasting.getMetadata (h : Lasting env span) {e : EntityId} (he : span.entities e)
    (hpublished : Published env span e) {t : Traced Jar Key} (ht : TracedLives env span S start t)
    (hlasts : t.federation.collector.asked ≤ span.closes → ∀ entry,
      t.federation.collector.configCache.lookup e = some entry →
        Lasts env span t.federation.collector.asked entry) :
    TracedLives env span S start (finalState (getMetadata env e t)) := by
  cases hlookup : t.federation.collector.configCache.lookup e with
  | some entry =>
      have hkept := ht.keep (a := e) fun hN => ⟨entry, hlookup, hlasts hN entry hlookup⟩
      exact (h.ensures_getMetadata he (Or.inr rfl) t hkept).1.weaken fun _ => Or.inl
  | none =>
      have hcached : cachedMetadataConfig env e t = .ok none t := by
        unfold cachedMetadataConfig
        rw [bind_of_ok (get_apply t), if_neg (AList.lookup_eq_none.mp hlookup)]
        rfl
      unfold Entity.getMetadata
      rw [bind_of_ok hcached]
      have hcollect := (h.ensures_collecting he t ht).1
      simp only
      cases hrun : (tracing (callReads env e [] "") (inCollector (collectTrustChains env e)) :
          EStateM Exc (Traced Jar Key) _) t with
      | error err t₁ =>
          rw [bind_of_error hrun]
          rwa [hrun] at hcollect
      | ok found t₁ =>
          rw [hrun, finalState_ok] at hcollect
          rw [bind_of_ok hrun]
          -- the configuration has been fetched, for the read that follows
          have hthere : t₁.federation.collector.asked ≤ span.closes →
              There env span t₁.federation.collector e := by
            intro hN
            rw [tracing_apply] at hrun
            cases hfound : (inCollector (collectTrustChains env e) :
                EStateM Exc (FederationState Jar Key) _) t.federation with
            | error err st => simp [hfound] at hrun
            | ok found' st =>
                rw [hfound] at hrun
                obtain ⟨-, rfl⟩ := EStateM.Result.ok.inj hrun
                obtain ⟨c, hcollected, rfl⟩ := inCollector_eq_ok.mp hfound
                exact h.there_of_collectTrustChains he hpublished ht.lives hlookup hcollected hN
          exact (h.ensures_metadataAfter he (Or.inr rfl) found.1 t₁ (hcollect.keep hthere)).1.weaken
            fun _ => Or.inl

/-! ## trawl -/

/-- What the client is told of the entities that are trawled: their configurations are about
    them, and it is led to no others. -/
structure KnownAnswers (env : CollectorEnv Key) (client : ClientEnv Key) (span : Span) : Prop where
  own : ∀ n, span.opens ≤ n → ∀ e, span.trawled e → ∀ url,
    Client.getRequestParameters env.rootIssuer e false = .ok url → ∀ held response,
      getResponse (client.entityConfiguration e held) (env.httpc n url) = .ok (.parsed response) →
        response.iss = e ∧ ListsOnly span.entities response
  lists : ∀ n, span.opens ≤ n → ∀ e, span.trawled e → ∀ url held reply,
    getResponse (client.list e held) (env.httpc n url) = .ok reply →
      ∀ id ∈ reply.ids, span.trawled id

/-- A request of the client. -/
theorem Lasting.ensures_serviceRequest (h : Lasting env span) {α : Type}
    (parse : ParseResponse Key α) (issuer : EntityId) (url : String) :
    Ensures (TracedLives env span S start)
      (serviceRequest env parse issuer url : EStateM Exc (Traced Jar Key) (Reply α))
      (fun reply => ∃ n held, span.opens ≤ n ∧
        getResponse (parse issuer held) (env.httpc n url) = .ok reply) := by
  intro t ht
  have hasked := h.cacheInvariant.asked t.federation.collector _ (Nat.le_succ _) ht.lives
  have hget : (inFederation (inCollector (httpGet env url)) :
      EStateM Exc (Traced Jar Key) (HttpResponse Key)) t =
        .ok (env.httpc t.federation.collector.asked url)
          { t with federation := { t.federation with
            collector := { t.federation.collector with
              asked := t.federation.collector.asked + 1 } } } := rfl
  unfold serviceRequest
  rw [bind_of_ok hget, bind_of_ok (get_apply _)]
  refine ⟨?_, fun reply t' heq => ?_⟩
  · rw [finalState_lift]
    exact ⟨hasked, fun hN => ht.reads ((Nat.le_succ _).trans hN)⟩
  · exact ⟨t.federation.collector.asked, _, ht.lives.opened.trans ht.lives.since,
      (lift_eq_ok.mp heq).1⟩

/-- The statement of a trust anchor about itself. -/
theorem Lasting.keepsCaches_getVerifiedTrustAnchorStatement (h : Lasting env span)
    (e : EntityId) : KeepsCaches env span
      (getVerifiedTrustAnchorStatement env e : EStateM Exc (FederationState Jar Key) _)
      (fun _ => True) := by
  have hasks := onlyAsks_getEntityConfiguration env e
  refine (keepsCaches_inCollector fun S start => hasks.ensures h.cacheInvariant.asked).bind
    fun ec _ => ?_
  intro S start st hst
  refine ⟨?_, fun _ _ _ => trivial⟩
  cases hfactory : factory ec with
  | none => exact hst
  | some jwt =>
      simp only
      rw [bind_of_ok (get_apply st), finalState_lift]
      exact hst

/-- What verifying and processing does to the caches. -/
theorem keepsCaches_verified (chains : List (List (Token Key)))
    (leafEc : Option (SelfSigned Key)) : KeepsCaches env span
      (if chains.length = 0 then pure []
        else inKeyjar (verifyTrustChains (leafEc.toList.map fun config => .jws config.jws) chains)
          >>= fun trustChains => lift (applyPolicies ho trustChains) :
        EStateM Exc (FederationState Jar Key) (List (TrustChain Key))) (fun _ => True) := by
  by_cases hnone : chains.length = 0
  · rw [if_pos hnone]
    exact fun _ _ => ensures_pure trivial
  · rw [if_neg hnone]
    exact (keepsCaches_inKeyjar _).bind fun _ _ => keepsCaches_lift _

theorem Lasting.keepsCaches_getVerifiedTrustChains (h : Lasting env span) {e : EntityId}
    (he : span.entities e) : KeepsCaches env span
      (getVerifiedTrustChains ho env e : EStateM Exc (FederationState Jar Key) _)
      (fun _ => True) := by
  exact (h.keepsCaches_collectTrustChains he).bind fun found _ =>
    keepsCaches_verified found.1 found.2

theorem Lasting.ensures_getVerifiedTrustChains (h : Lasting env span) {e : EntityId}
    (he : span.entities e) :
    Ensures (TracedLives env span S start)
      (tracing (callReads env e [] "") (getVerifiedTrustChains ho env e) :
        EStateM Exc (Traced Jar Key) _) (fun _ => True) := by
  refine ensures_tracing (h.keepsCaches_getVerifiedTrustChains he) fun st hst hN => ?_
  refine h.collectReads_ne_none he hst ?_
  -- what comes after the collection asks for nothing less
  have hcollect := h.keepsCaches_collectTrustChains he S start st hst
  unfold getVerifiedTrustChains at hN
  cases hrun : collectTrustChains env e (.text "") "" [] st.collector with
  | error err c =>
      rwa [bind_of_error (inCollector_of_error hrun)] at hN
  | ok found c =>
      have hin : inCollector (collectTrustChains env e) st =
          .ok found { st with collector := c } := inCollector_of_ok hrun
      rw [hin] at hcollect
      rw [bind_of_ok hin] at hN
      exact ((keepsCaches_verified found.1 found.2).asked_le hcollect.1).trans hN

theorem Lasting.ensures_getVerifiedEndpoint (h : Lasting env span) {e : EntityId}
    (he : span.entities e) (endpointName : String) :
    Ensures (TracedLives env span S start)
      (getVerifiedEndpoint ho env client e endpointName : EStateM Exc (Traced Jar Key) _)
      (fun _ => True) := by
  unfold getVerifiedEndpoint
  by_cases hanchor : e ∈ env.trustAnchors
  · rw [if_pos hanchor]
    exact (ensures_inFederation (h.keepsCaches_getVerifiedTrustAnchorStatement e)).bind
      fun _ _ => ensures_pure trivial
  · rw [if_neg hanchor]
    refine (h.ensures_getVerifiedTrustChains he).bind fun trustChains _ => ?_
    have hpick : Ensures (TracedLives env span S start)
        (lift (pickTrustChain client.trPriority trustChains) : EStateM Exc (Traced Jar Key) _)
        (fun _ => True) := ensures_lift fun _ _ => trivial
    refine hpick.bind fun trustChain _ => ?_
    cases trustChain.metadata.item "federation_entity" with
    | error err => exact ensures_pure trivial
    | ok found =>
        cases found with
        | none => exact ensures_throw _
        | some fe => exact ensures_pure trivial

/-- The subordinates that are listed. -/
theorem Lasting.ensures_requestList (h : Lasting env span)
    (hanswers : KnownAnswers env client span) {e : EntityId} (he : span.trawled e)
    (args : List (String × ListArg)) :
    Ensures (TracedLives env span S start)
      (requestList ho env client e args : EStateM Exc (Traced Jar Key) _)
      (fun ids => ∀ id ∈ ids, span.trawled id) := by
  refine (h.ensures_getVerifiedEndpoint (h.trawled e he) _).bind fun endpoint _ => ?_
  have hurl : Ensures (TracedLives env span S start)
      (lift (listUrl endpoint args) : EStateM Exc (Traced Jar Key) _) (fun _ => True) :=
    ensures_lift fun _ _ => trivial
  refine hurl.bind fun url _ => (h.ensures_serviceRequest client.list e url).bind fun reply hreply => ?_
  obtain ⟨n, held, hn, hreply⟩ := hreply
  exact ensures_pure (hanswers.lists n hn e he url held reply hreply)

/-- The statement that is asked of a superior whose configuration is there. -/
theorem Lasting.ensures_requestEntityStatement (h : Lasting env span) {a : EntityId}
    (ha : span.entities a) (hS : S a) (e : EntityId) :
    Ensures (TracedLives env span S start)
      (requestEntityStatement env client a e : EStateM Exc (Traced Jar Key) _)
      (fun _ => True) := by
  refine (h.ensures_usedConfig ha hS).bind fun ec _ => ?_
  have hmetadata : Ensures (TracedLives env span S start)
      (lift (metadataOf ec.payload) : EStateM Exc (Traced Jar Key) _) (fun _ => True) :=
    ensures_lift fun _ _ => trivial
  refine hmetadata.bind fun metadata _ => ?_
  have hfe : Ensures (TracedLives env span S start)
      (lift (item metadata "federation_entity") : EStateM Exc (Traced Jar Key) _)
      (fun _ => True) := ensures_lift fun _ _ => trivial
  refine hfe.bind fun fe _ => ?_
  have hendpoint : Ensures (TracedLives env span S start)
      (lift (item fe "federation_fetch_endpoint") : EStateM Exc (Traced Jar Key) _)
      (fun _ => True) := ensures_lift fun _ _ => trivial
  refine hendpoint.bind fun endpoint _ => ?_
  by_cases htruthy : (!endpoint.truthy) = true
  · rw [if_pos htruthy]
    exact ensures_throw _
  · rw [if_neg htruthy]
    cases endpoint with
    | str location =>
        intro t ht
        exact ⟨(h.ensures_serviceRequest client.entityStatement a _ t ht).1, fun _ _ _ => trivial⟩
    | _ => exact ensures_throw _

omit [DecidableEq Key] in
/-- A configuration from the client is put in the cache. -/
theorem Lives.storeMessage {e : EntityId} {response : Statement Key}
    (hlists : ListsOnly span.entities response) {st : CollectorState Key}
    (hst : Lives env span S start st) :
    Lives env span (fun b => S b ∨ b = e) start
      { st with configCache := st.configCache.insert e (.message response) } := by
  have hlasts : Lasts env span st.asked (.message response) :=
    fun _ heq => absurd heq (by simp)
  refine ⟨hst.opened, hst.since, ?_, fun hN e' he' entry hlookup =>
    hst.settled_insert hN hlasts he' hlookup, ?_, ?_⟩
  · intro e' he' entry hlookup
    rcases Dict.lookup_insert_eq_some.mp hlookup with ⟨-, rfl⟩ | ⟨-, hlookup⟩
    · exact hlists
    · exact hst.listed e' he' entry hlookup
  · intro hN a e' ha he' exp hcached htime husable
    exact (hst.known hN a e' ha he' exp hcached htime husable).insert hlasts
  · intro hN b hb
    rcases hb with hb | rfl
    · exact (hst.kept hN b hb).insert hlasts
    · exact ⟨_, AList.lookup_insert _, hlasts⟩

omit [KeyStore Jar Key] [DecidableEq Key] in
theorem TracedLives.storeMessage {e : EntityId} {response : Statement Key}
    (hlists : ListsOnly span.entities response) {t : Traced Jar Key}
    (ht : TracedLives env span S start t) :
    TracedLives env span (fun b => S b ∨ b = e) start
      (finalState (inFederation (inCollector (configCacheSet e (.message response))) t)) :=
  ⟨ht.lives.storeMessage hlists, ht.reads⟩

/-- What is known once a configuration has been looked at or asked for: it is there. -/
def LeavesKnown {α : Type} (env : CollectorEnv Key) (span : Span) (S : EntityId → Prop)
    (start : Nat) (e : EntityId)
    (r : EStateM.Result Exc (Traced Jar Key) α) : Prop :=
  TracedLives env span S start (finalState r) ∧
    ∀ a t, r = .ok a t → TracedLives env span (fun b => S b ∨ b = e) start t

theorem Lasting.requestEntityConfiguration (h : Lasting env span)
    (hanswers : KnownAnswers env client span) {e : EntityId} (he : span.trawled e)
    {t : Traced Jar Key} (ht : TracedLives env span S start t) :
    TracedLives env span S start (finalState (requestEntityConfiguration env client e t)) ∧
      ∀ response t', requestEntityConfiguration env client e t = .ok (.parsed response) t' →
        TracedLives env span (fun b => S b ∨ b = e) start t' := by
  unfold Entity.requestEntityConfiguration
  cases hurl : Client.getRequestParameters env.rootIssuer e false with
  | error err =>
      rw [bind_of_error (lift_error err t)]
      exact ⟨ht, fun _ _ heq => absurd heq (by simp)⟩
  | ok url =>
      rw [bind_of_ok (lift_ok url t)]
      obtain ⟨ht₁, hpost⟩ := h.ensures_serviceRequest client.entityConfiguration e url t ht
      cases hrun : serviceRequest env client.entityConfiguration e url t with
      | error err t₁ =>
          rw [hrun] at ht₁
          rw [bind_of_error hrun]
          exact ⟨ht₁, fun _ _ heq => absurd heq (by simp)⟩
      | ok reply t₁ =>
          rw [hrun, finalState_ok] at ht₁
          obtain ⟨n, held, hn, hreply⟩ := hpost reply t₁ hrun
          rw [bind_of_ok hrun]
          cases reply with
          | parsed response =>
              obtain ⟨rfl, hlists⟩ := hanswers.own n hn e he url hurl held response hreply
              have hstored := ht₁.storeMessage (e := response.iss) hlists
              refine ⟨hstored.weaken fun _ => Or.inl, fun response' t' heq => ?_⟩
              obtain ⟨-, rfl⟩ := EStateM.Result.ok.inj heq
              exact hstored
          | httpResponse => exact ⟨ht₁, fun _ _ heq => absurd (EStateM.Result.ok.inj heq).1 (by simp)⟩
          | errorMessage => exact ⟨ht₁, fun _ _ heq => absurd (EStateM.Result.ok.inj heq).1 (by simp)⟩

/-- What is trawled lasts, if it is cached. -/
theorem Lasting.there_of_trawled (h : Lasting env span) {e : EntityId} (he : span.trawled e)
    {st : CollectorState Key} (hst : Lives env span S start st) (hmem : e ∈ st.configCache)
    (hN : st.asked ≤ span.closes) : There env span st e := by
  obtain ⟨entry, hentry⟩ := Dict.mem_iff_lookup.mp hmem
  rcases hst.settled hN e (h.trawled e he) entry hentry with hlasts | ⟨hnot, -⟩
  · exact ⟨entry, hentry, hlasts⟩
  · exact absurd he hnot

theorem Lasting.trawlConfiguration (h : Lasting env span)
    (hanswers : KnownAnswers env client span) {superior subordinate : EntityId}
    (hsup : span.entities superior) (hsub : span.trawled subordinate) {t : Traced Jar Key}
    (ht : TracedLives env span S start t)
    (hthere : subordinate ∈ t.federation.collector.configCache ∨ S superior) :
    LeavesKnown env span S start subordinate
      (trawlConfiguration env client superior subordinate t) := by
  unfold Entity.trawlConfiguration
  rw [bind_of_ok (get_apply t)]
  by_cases hmem : subordinate ∈ t.federation.collector.configCache
  · -- it is in the cache, and lasts
    rw [if_pos hmem]
    have hread : Ensures (TracedLives env span (fun b => S b ∨ b = subordinate) start)
        (usedConfig env subordinate >>= fun ec => pure ec.payload :
          EStateM Exc (Traced Jar Key) (Statement Key)) (fun _ => True) :=
      (h.ensures_usedConfig (h.trawled _ hsub) (Or.inr rfl)).bind fun _ _ => ensures_pure trivial
    have hkept := (hread t (ht.keep (h.there_of_trawled hsub ht.lives hmem))).1
    refine ⟨hkept.weaken fun _ => Or.inl, fun a t' heq => ?_⟩
    rwa [heq, finalState_ok] at hkept
  · -- the superior is asked, whose configuration is there
    rw [if_neg hmem]
    have hS : S superior := hthere.resolve_left hmem
    have hask : TracedLives env span S start
        (finalState (requestEntityStatement env client superior subordinate t)) :=
      (h.ensures_requestEntityStatement hsup hS subordinate t ht).1
    cases hrun : requestEntityStatement env client superior subordinate t with
    | error err t₁ =>
        rw [hrun] at hask
        rw [bind_of_error hrun]
        exact ⟨hask, fun _ _ heq => absurd heq (by simp)⟩
    | ok reply t₁ =>
        rw [hrun, finalState_ok] at hask
        rw [bind_of_ok hrun]
        cases reply with
        | httpResponse => exact ⟨hask, fun _ _ heq => absurd heq (by simp)⟩
        | errorMessage => exact ⟨hask, fun _ _ heq => absurd heq (by simp)⟩
        | parsed es =>
            cases hjwks : es.jwks with
            | none =>
                simp only [hjwks]
                exact ⟨hask, fun _ _ heq => absurd heq (by simp)⟩
            | some jwks =>
                -- keys do not matter to the caches
                have hkeys : (inFederation (inKeyjar (modify fun keyjar =>
                    KeyStore.addKb keyjar es.sub jwks)) : EStateM Exc (Traced Jar Key) PUnit) t₁ =
                    .ok ⟨⟩ { t₁ with federation := { t₁.federation with
                      keyjar := KeyStore.addKb t₁.federation.keyjar es.sub jwks } } := rfl
                simp only [hjwks]
                rw [bind_of_ok hkeys]
                obtain ⟨ht₂, hparsed⟩ := h.requestEntityConfiguration hanswers hsub
                  (t := { t₁ with federation := { t₁.federation with
                      keyjar := KeyStore.addKb t₁.federation.keyjar es.sub jwks } })
                  ⟨hask.lives, hask.reads⟩
                cases hconfig : Entity.requestEntityConfiguration env client subordinate
                    { t₁ with federation := { t₁.federation with
                      keyjar := KeyStore.addKb t₁.federation.keyjar es.sub jwks } } with
                | error err t₂ =>
                    rw [hconfig] at ht₂
                    rw [bind_of_error hconfig]
                    exact ⟨ht₂, fun _ _ heq => absurd heq (by simp)⟩
                | ok reply t₂ =>
                    rw [hconfig, finalState_ok] at ht₂
                    rw [bind_of_ok hconfig]
                    cases reply with
                    | parsed ec =>
                        refine ⟨ht₂, fun a t' heq => ?_⟩
                        obtain ⟨-, rfl⟩ := EStateM.Result.ok.inj heq
                        exact hparsed ec _ hconfig
                    | httpResponse => exact ⟨ht₂, fun _ _ heq => absurd heq (by simp)⟩
                    | errorMessage => exact ⟨ht₂, fun _ _ heq => absurd heq (by simp)⟩

omit [KeyStore Jar Key] [DecidableEq Key] in
/-- The loop over the intermediates keeps what each of its calls keeps. -/
theorem ensures_trawlIntermediates {Inv : Traced Jar Key → Prop}
    {trawlOne : EntityId → EStateM Exc (Traced Jar Key) (List EntityId)} {ids : List EntityId}
    (hone : ∀ id ∈ ids, Ensures Inv (trawlOne id) (fun _ => True)) (issuers : List EntityId) :
    Ensures Inv (trawlIntermediates trawlOne issuers ids) (fun _ => True) := by
  induction ids generalizing issuers with
  | nil => exact ensures_pure trivial
  | cons id rest ih =>
      obtain ⟨hstep, hrest⟩ := List.forall_mem_cons.mp hone
      exact hstep.bind fun ids' _ => ih hrest (issuers ++ ids')

/-- `trawl`, from a superior whose configuration is there. -/
theorem Lasting.trawl (h : Lasting env span) (hanswers : KnownAnswers env client span)
    (entityType : String) (depth : Nat) {superior subordinate : EntityId}
    (hsup : span.entities superior) (hsub : span.trawled subordinate) {t : Traced Jar Key}
    (ht : TracedLives env span S start t)
    (hthere : subordinate ∈ t.federation.collector.configCache ∨ S superior) :
    TracedLives env span S start
      (finalState (trawl ho env client entityType depth superior subordinate t)) := by
  induction depth generalizing S superior subordinate t with
  | zero => exact ht
  | succ depth ih =>
      unfold Entity.trawl
      obtain ⟨ht₁, hknown⟩ := h.trawlConfiguration hanswers hsup hsub ht hthere
      cases hrun : Entity.trawlConfiguration env client superior subordinate t with
      | error err t₁ =>
          rw [hrun] at ht₁
          rw [bind_of_error hrun]
          exact ht₁
      | ok ec t₁ =>
          rw [bind_of_ok hrun]
          -- below, the subordinate is the superior, and its configuration is there
          have hbelow : ∀ id, span.trawled id →
              Ensures (TracedLives env span (fun b => S b ∨ b = subordinate) start)
                (Entity.trawl ho env client entityType depth subordinate id :
                  EStateM Exc (Traced Jar Key) (List EntityId)) (fun _ => True) :=
            fun id hid t' ht' =>
              ⟨ih (h.trawled _ hsub) hid ht' (Or.inr (Or.inr rfl)), fun _ _ _ => trivial⟩
          have hlift : ∀ {α : Type} (x : Except Exc α),
              Ensures (TracedLives env span (fun b => S b ∨ b = subordinate) start)
                (lift x : EStateM Exc (Traced Jar Key) α) (fun _ => True) :=
            fun _ => ensures_lift fun _ _ => trivial
          have hrest : Ensures (TracedLives env span (fun b => S b ∨ b = subordinate) start)
              (lift (metadataOf ec) >>= fun metadata =>
                lift (item metadata "federation_entity") >>= fun fe =>
                if "federation_list_endpoint" ∉ fe then
                  pure (if entityType ∈ metadata then [ec.sub] else [])
                else requestList ho env client subordinate [("entity_type", .text entityType)] >>=
                  fun addedIssuers =>
                    requestList ho env client subordinate [("intermediate", .flag true)] >>=
                      fun intermediates => trawlIntermediates
                        (Entity.trawl ho env client entityType depth subordinate)
                        ((if entityType ∈ metadata then [ec.sub] else []) ++ addedIssuers)
                        intermediates :
                EStateM Exc (Traced Jar Key) (List EntityId)) (fun _ => True) := by
            refine (hlift _).bind fun metadata _ => (hlift _).bind fun fe _ => ?_
            by_cases hlist : "federation_list_endpoint" ∉ fe
            · rw [if_pos hlist]
              exact ensures_pure trivial
            · rw [if_neg hlist]
              refine (h.ensures_requestList hanswers hsub _).bind fun addedIssuers _ => ?_
              refine (h.ensures_requestList hanswers hsub _).bind fun intermediates hids => ?_
              exact ensures_trawlIntermediates (fun id hid => hbelow id (hids id hid)) _
          exact (hrest t₁ (hknown ec t₁ hrun)).1.weaken fun _ => Or.inl

/-! ## Runs -/

/-- A call of the collector or of `trawl`. -/
inductive CacheOp where
  | call (entityId : EntityId) (seen : List EntityId) (stopAt : EntityId)
  | collectBranch (entity authority : EntityId) (seen : List EntityId) (stopAt : EntityId)
  | getMetadata (entityId : EntityId)
  | trawl (superior subordinate : EntityId) (entityType : String)

/-- The call, as far as the caches are concerned. -/
def CacheOp.run (ho : HashOrder) (env : CollectorEnv Key) (client : ClientEnv Key) :
    CacheOp → EStateM Exc (Traced Jar Key) Unit
  | .call entityId seen stopAt => do
      let _ ← tracing (callReads env entityId seen stopAt)
        (inCollector (TrustChainCollector.call env entityId seen stopAt))
  | .collectBranch entity authority seen stopAt => do
      let _ ← tracing
        (branchReads env (treeReads env stopAt env.recursionLimit) entity authority seen)
        (inCollector (Function.collectBranch env (collectTree env stopAt env.recursionLimit)
          entity authority seen))
  | .getMetadata entityId => do
      let _ ← Entity.getMetadata env entityId
  | .trawl superior subordinate entityType => do
      let _ ← Entity.trawl ho env client entityType env.recursionLimit superior subordinate

/-- What a call asks of the caches it begins with, beyond what all calls do. -/
def CacheOp.Ready (env : CollectorEnv Key) (client : ClientEnv Key) (span : Span)
    (st : CollectorState Key) : CacheOp → Prop
  | .call entityId _ _ => span.entities entityId
  | .collectBranch entity authority _ _ => span.entities entity ∧ span.entities authority
  | .getMetadata entityId => span.entities entityId ∧ Published env span entityId ∧
      ∀ entry, st.configCache.lookup entityId = some entry → Lasts env span st.asked entry
  | .trawl superior subordinate _ => span.entities superior ∧ span.trawled subordinate ∧
      (subordinate ∈ st.configCache ∨ There env span st superior) ∧ KnownAnswers env client span

/-- The condition on a call.  Of what is cached about its entities before it, configurations
    last until its end or are stale from its beginning (and last, if they are trawled), and
    the authorities of statements that are young enough to be used have configurations that
    last; and what is handed out meanwhile lasts. -/
structure CallLasts (ho : HashOrder) (env : CollectorEnv Key) (client : ClientEnv Key)
    (span : Span) (t : Traced Jar Key) (op : CacheOp) : Prop where
  opens : span.opens = t.federation.collector.asked
  closes : span.closes = (finalState (op.run ho env client t)).federation.collector.asked
  lasting : Lasting env span
  listed : ∀ e, span.entities e → ∀ entry, t.federation.collector.configCache.lookup e = some entry →
    ListsOnly span.entities entry.payload
  settled : ∀ e, span.entities e → ∀ entry,
    t.federation.collector.configCache.lookup e = some entry →
      Lasts env span span.opens entry ∨ (¬ span.trawled e ∧ IsStale env span span.opens entry)
  known : ∀ a e, span.entities a → span.entities e → ∀ exp,
    (t.federation.collector.entityStatementCache.lookup (cacheKey a e)).isSome →
    t.federation.collector.entityStatementCache.lookup (timeKey a e) = some (.exp exp) →
    Usable env span span.opens exp → There env span t.federation.collector a
  ready : op.Ready env client span t.federation.collector

/-- The caches that a call begins with. -/
theorem CallLasts.lives {t : Traced Jar Key} {op : CacheOp}
    (h : CallLasts ho env client span t op) :
    Lives env span (fun _ => False) span.opens t.federation.collector := by
  refine ⟨le_refl _, h.opens.le, h.listed, fun _ e he entry hlookup => ?_,
    fun _ a e ha he exp hcached htime husable => ?_, fun _ _ => False.elim⟩
  · have hsettled := h.settled e he entry hlookup
    rwa [h.opens] at hsettled
  · rw [← h.opens] at husable
    exact h.known a e ha he exp hcached htime husable

/-- One call. -/
theorem Lasting.run (h : Lasting env span) (op : CacheOp) {t : Traced Jar Key}
    (ht : TracedLives env span S start t) (hready : op.Ready env client span t.federation.collector) :
    TracedLives env span S start (finalState (op.run ho env client t)) := by
  cases op with
  | call entityId seen stopAt =>
      rw [CacheOp.run, finalState_bind_pure]
      have hcall : Ensures (TracedLives env span S start)
          (tracing (callReads env entityId seen stopAt)
            (inCollector (TrustChainCollector.call env entityId seen stopAt)) :
            EStateM Exc (Traced Jar Key) _) (fun _ => True) := by
        refine ensures_tracing (keepsCaches_inCollector fun S start =>
          h.cacheInvariant.call hready seen stopAt) fun st hst hN => ?_
        refine h.callReads_ne_none hready seen stopAt hst ?_
        rwa [finalState_inCollector] at hN
      exact (hcall t ht).1
  | collectBranch entity authority seen stopAt =>
      obtain ⟨hentity, hauthority⟩ := hready
      rw [CacheOp.run, finalState_bind_pure]
      have hbranch : Ensures (TracedLives env span S start)
          (tracing (branchReads env (treeReads env stopAt env.recursionLimit) entity authority seen)
            (inCollector (Function.collectBranch env (collectTree env stopAt env.recursionLimit)
              entity authority seen)) : EStateM Exc (Traced Jar Key) _) (fun _ => True) := by
        refine ensures_tracing (keepsCaches_inCollector fun S start =>
          h.cacheInvariant.collectBranch (h.cacheInvariant.collectTree stopAt env.recursionLimit)
            hentity hauthority seen) fun st hst hN => ?_
        refine h.branchReads_ne_none
          (fun start => h.cacheInvariant.collectTree stopAt env.recursionLimit)
          (fun a config seen' st' ha hc hst' hN' =>
            h.treeReads_ne_none stopAt env.recursionLimit ha hc seen' hst' hN')
          hentity hauthority seen hst ?_
        rwa [finalState_inCollector] at hN
      exact (hbranch t ht).1
  | getMetadata entityId =>
      obtain ⟨he, hpublished, hlasts⟩ := hready
      rw [CacheOp.run, finalState_bind_pure]
      exact h.getMetadata he hpublished ht fun _ => hlasts
  | trawl superior subordinate entityType =>
      obtain ⟨hsup, hsub, hthere, hanswers⟩ := hready
      rw [CacheOp.run, finalState_bind_pure]
      -- it begins with the configuration of the subordinate, or with that of the superior
      rcases hthere with hthere | hthere
      · exact h.trawl hanswers entityType env.recursionLimit hsup hsub ht (Or.inl hthere)
      · exact (h.trawl hanswers entityType env.recursionLimit hsup hsub
          (ht.keep fun _ => hthere) (Or.inr (Or.inr rfl))).weaken fun _ => Or.inl

/-- One call that begins with such caches reads nothing that is not there. -/
theorem CallLasts.reads_ne_none {t : Traced Jar Key} {op : CacheOp}
    (h : CallLasts ho env client span t op) (ht : ∀ r ∈ t.reads, r ≠ none) :
    ∀ r ∈ (finalState (op.run ho env client t)).reads, r ≠ none :=
  (h.lasting.run op ⟨h.lives, fun _ => ht⟩ h.ready).reads h.closes.ge

/-- In a run of calls each of which begins with such caches, what is read from the cache to be
    used is there. -/
theorem used_config_is_there {t : Traced Jar Key} (ht : ∀ r ∈ t.reads, r ≠ none)
    (ops : List CacheOp)
    (hcalls : RunMeets (CacheOp.run ho env client)
      (fun t op => ∃ span, CallLasts ho env client span t op) t ops) :
    ∀ r ∈ (runState (CacheOp.run ho env client) t ops).reads, r ≠ none := by
  refine (run_invariant (Q := fun _ _ => True) (fun t : Traced Jar Key => ∀ r ∈ t.reads, r ≠ none)
    (fun t op ht hcall => ?_) ops ht hcalls).1
  obtain ⟨span, hcall⟩ := hcall
  exact ⟨hcall.reads_ne_none ht, trivial⟩

end Operations

/-! ## An authority that vanishes -/

/-- A leaf below an authority, whose configuration and what it says about the leaf expire. -/
def belowAuthority (configExp statementExp : Int) : List (String × SignedStatement Nat) :=
  [("https://op.org/.well-known/openid-federation",
    ⟨{ iss := "https://op.org", sub := "https://op.org", exp := 1000, jwks := some [3]
       authorityHints := some ["https://im.org"] }, 3⟩),
   ("https://im.org/.well-known/openid-federation",
    ⟨{ iss := "https://im.org", sub := "https://im.org", exp := configExp, jwks := some [2]
       metadata := some (withFetchEndpoint "https://im.org/fetch") }, 2⟩),
   ("https://im.org/fetch?https://op.org",
    ⟨{ iss := "https://im.org", sub := "https://op.org", exp := statementExp, jwks := some [3] },
      2⟩)]

/-- A client library that makes nothing of any response. -/
def noAnswers : ClientEnv Nat where
  entityStatement _ _ _ _ := .error (.valueError [])
  entityConfiguration _ _ _ _ := .error (.valueError [])
  list _ _ _ _ := .error (.valueError [])

/-- The leaf is asked for twice: by the second time the configuration of the authority is
    gone, and what it said about the leaf is still fresh. -/
theorem evicted_authority_used :
    ¬ ∀ (env : CollectorEnv Nat) (ops : List CacheOp),
      (∀ m n, m ≤ n → env.now m ≤ env.now n) →
        ∀ r ∈ (runState (CacheOp.run .insertion env noAnswers)
          { federation := { keyjar := (⟨[]⟩ : AssocJar Nat) } } ops).reads, r ≠ none := by
  intro hall
  have hclock : ∀ m n : Nat, m ≤ n →
      (if m < 6 then 100 else 200 : Int) ≤ if n < 6 then 100 else 200 := by
    intro m n hmn
    by_cases hn : n < 6
    · rw [if_pos hn, if_pos (by omega)]
    · rw [if_neg hn]
      by_cases hm : m < 6
      · rw [if_pos hm]
        decide
      · rw [if_neg hm]
  have hnone := hall
    { onPages [] (belowAuthority 450 1000) with now := fun n => if n < 6 then 100 else 200 }
    [.call "https://op.org" [] "", .call "https://op.org" [] ""] hclock
  -- the first call finds the authority, the second one does not
  exact hnone none (List.mem_cons_of_mem _ (List.mem_singleton_self _)) rfl

/-- The authority renews its configuration, and what it says about the leaf, before they are
    about to expire: from the sixth question on it is later, and the new ones are served. -/
def renewed : CollectorEnv Nat :=
  { onPages [] (belowAuthority 450 440) with
    now := fun n => if n < 6 then 100 else 200
    httpc := fun n url =>
      if n < 6 then (onPages [] (belowAuthority 450 440)).httpc n url
      else (onPages [] (belowAuthority 1000 1000)).httpc n url }

/-- The two entities. -/
def IsRenewed (e : EntityId) : Prop := e = "https://op.org" ∨ e = "https://im.org"

theorem renewed_now {n : Nat} {exp : Int}
    (h : exp = 1000 ∨ (exp = 450 ∧ n < 6)) : renewed.now n < exp - renewed.allowedDelta := by
  show (if n < 6 then 100 else 200 : Int) < exp - 300
  rcases h with rfl | ⟨rfl, hn⟩
  · by_cases hn : n < 6
    · rw [if_pos hn]
      decide
    · rw [if_neg hn]
      decide
  · rw [if_pos hn]
    decide

/-- What is handed out about them. -/
theorem renewed_served {n : Nat} {e : EntityId} (he : IsRenewed e) {config : SelfSigned Nat}
    (h : Served renewed n e config) :
    (config.payload.exp = 1000 ∨ (config.payload.exp = 450 ∧ n < 6)) ∧
      ListsOnly IsRenewed config.payload := by
  have hop : ∀ m, renewed.httpc m "https://op.org/.well-known/openid-federation" =
      .reply 200 (some "application/entity-statement+jwt") (.jws (belowAuthority 450 440)[0].2) := by
    intro m
    by_cases hm : m < 6
    · exact if_pos hm
    · exact if_neg hm
  rcases he with rfl | rfl
  · rw [SelfSigned.payload, jws_of_served rfl (hop n) h]
    exact ⟨Or.inl rfl, fun a ha => Or.inr (List.mem_singleton.mp ha)⟩
  · by_cases hn : n < 6
    · have him : renewed.httpc n "https://im.org/.well-known/openid-federation" = .reply 200
          (some "application/entity-statement+jwt") (.jws (belowAuthority 450 440)[1].2) :=
        if_pos hn
      rw [SelfSigned.payload, jws_of_served rfl him h]
      exact ⟨Or.inr ⟨rfl, hn⟩, fun a ha => absurd ha List.not_mem_nil⟩
    · have him : renewed.httpc n "https://im.org/.well-known/openid-federation" = .reply 200
          (some "application/entity-statement+jwt") (.jws (belowAuthority 1000 1000)[1].2) :=
        if_neg hn
      rw [SelfSigned.payload, jws_of_served rfl him h]
      exact ⟨Or.inl rfl, fun a ha => absurd ha List.not_mem_nil⟩

/-- Before the sixth question or after it nothing is handed out that expires. -/
theorem renewed_lasting {opens closes : Nat} (h : closes ≤ 6 ∨ 6 ≤ opens) :
    Lasting renewed ⟨opens, closes, IsRenewed, fun _ => False⟩ where
  served n hopens hcloses e he config hserved := by
    intro config' heq m hm hlast
    obtain rfl := CachedConfig.dict.inj heq
    refine renewed_now ((renewed_served he hserved).1.imp id fun ⟨hexp, hn⟩ => ⟨hexp, ?_⟩)
    simp only at hopens hlast
    omega
  closed n _ e he config hserved := (renewed_served he hserved).2
  apart some hsome := by
    have hboth : CacheKeysApart {"https://op.org", "https://im.org"} := by
      unfold CacheKeysApart
      decide
    have hin : ∀ e ∈ some, e ∈ ({"https://op.org", "https://im.org"} : Finset EntityId) := by
      intro e he
      rcases hsome e he with rfl | rfl <;> decide
    exact fun a ha e he a' ha' e' he' =>
      hboth a (hin a ha) e (hin e he) a' (hin a' ha') e' (hin e' he')
  trawled _ := False.elim

theorem renewed_lasts {span : Span} {n : Nat} {entry : CachedConfig Nat}
    (hexp : entry.payload.exp = 1000) : Lasts renewed span n entry := by
  rintro config rfl m - -
  exact renewed_now (Or.inl hexp)

/-- Somebody who knows nothing yet. -/
def knowsNothing : Traced (AssocJar Nat) Nat := { federation := { keyjar := ⟨[]⟩ } }

/-- By the second call the authority's configuration is about to expire and is dropped; so is
    what it said about the leaf, and both are fetched again. -/
theorem used_config_is_there_renewed :
    none ∉ (runState (CacheOp.run .insertion renewed noAnswers) knowsNothing
      [.call "https://op.org" [] "", .call "https://op.org" [] "",
        .getMetadata "https://im.org"]).reads := by
  have hfirst : CallLasts .insertion renewed noAnswers ⟨0, 6, IsRenewed, fun _ => False⟩
      knowsNothing (.call "https://op.org" [] "") :=
    { opens := rfl
      closes := by decide +kernel
      lasting := renewed_lasting (Or.inl (le_refl 6))
      listed := fun _ _ _ hlookup => absurd hlookup (by simp [knowsNothing])
      settled := fun _ _ _ hlookup => absurd hlookup (by simp [knowsNothing])
      known := fun _ _ _ _ _ hcached => absurd hcached (by simp [knowsNothing])
      ready := Or.inl rfl }
  have hsecond : CallLasts .insertion renewed noAnswers ⟨6, 13, IsRenewed, fun _ => False⟩
      (finalState ((CacheOp.call "https://op.org" [] "").run .insertion renewed noAnswers
        knowsNothing)) (.call "https://op.org" [] "") := by
    refine ⟨by decide +kernel, by decide +kernel, renewed_lasting (Or.inr (le_refl 6)), ?_, ?_, ?_,
      Or.inl rfl⟩
    · rintro e (rfl | rfl) entry hlookup
      · obtain rfl := Option.some.inj hlookup
        exact fun a ha => Or.inr (List.mem_singleton.mp ha)
      · obtain rfl := Option.some.inj hlookup
        exact fun a ha => absurd ha List.not_mem_nil
    · rintro e (rfl | rfl) entry hlookup
      · obtain rfl := Option.some.inj hlookup
        exact Or.inl (renewed_lasts rfl)
      · obtain rfl := Option.some.inj hlookup
        refine Or.inr ⟨id, _, rfl, fun m hm _ => ?_⟩
        show ¬ (if m < 6 then 100 else 200 : Int) < 450 - 300
        rw [if_neg (Nat.not_lt.mpr hm)]
        decide
    · rintro a e (rfl | rfl) (rfl | rfl) exp hcached htime ⟨m, hm, -, husable⟩
      · exact absurd hcached (by decide +kernel)
      · exact absurd hcached (by decide +kernel)
      · obtain rfl := CachedStatement.exp.inj (Option.some.inj htime)
        have hnow : renewed.now m = 200 := if_neg (Nat.not_lt.mpr hm)
        rw [hnow] at husable
        exact absurd (by decide) husable
      · exact absurd hcached (by decide +kernel)
  have hthird : CallLasts .insertion renewed noAnswers ⟨13, 15, IsRenewed, fun _ => False⟩
      (runState (CacheOp.run .insertion renewed noAnswers) knowsNothing
        [.call "https://op.org" [] "", .call "https://op.org" [] ""])
      (.getMetadata "https://im.org") := by
    refine ⟨by decide +kernel, by decide +kernel, renewed_lasting (Or.inr (by decide)), ?_, ?_, ?_,
      Or.inr rfl, ?_, ?_⟩
    · rintro e (rfl | rfl) entry hlookup
      · obtain rfl := Option.some.inj hlookup
        exact fun a ha => Or.inr (List.mem_singleton.mp ha)
      · obtain rfl := Option.some.inj hlookup
        exact fun a ha => absurd ha List.not_mem_nil
    · rintro e (rfl | rfl) entry hlookup
      · obtain rfl := Option.some.inj hlookup
        exact Or.inl (renewed_lasts rfl)
      · obtain rfl := Option.some.inj hlookup
        exact Or.inl (renewed_lasts rfl)
    · rintro a e (rfl | rfl) (rfl | rfl) exp hcached - -
      · exact absurd hcached (by decide +kernel)
      · exact absurd hcached (by decide +kernel)
      · exact ⟨_, rfl, renewed_lasts rfl⟩
      · exact absurd hcached (by decide +kernel)
    · intro n hn _ token htoken
      have hpage : renewed.httpc n "https://im.org/.well-known/openid-federation" = .reply 200
          (some "application/entity-statement+jwt") (.jws (belowAuthority 1000 1000)[1].2) :=
        if_neg (Nat.not_lt.mpr (le_trans (by decide) hn))
      rw [token_of_getEntityConfiguration rfl hpage htoken]
      rfl
    · intro entry hlookup
      obtain rfl := Option.some.inj hlookup
      exact renewed_lasts rfl
  have hcalls : RunMeets (CacheOp.run .insertion renewed noAnswers)
      (fun t op => ∃ span, CallLasts .insertion renewed noAnswers span t op) knowsNothing
      [.call "https://op.org" [] "", .call "https://op.org" [] "",
        .getMetadata "https://im.org"] :=
    ⟨⟨_, hfirst⟩, ⟨_, hsecond⟩, ⟨_, hthird⟩, trivial⟩
  exact fun hin =>
    used_config_is_there (fun _ hr => absurd hr List.not_mem_nil) _ hcalls none hin rfl

end Fedservice.Entity
