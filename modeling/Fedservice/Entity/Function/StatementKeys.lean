/-
  Fedservice.Entity.Function.StatementKeys

  The cache of entity statements holds, under keys that are concatenated from two
  entity IDs, statements and the times they expire.  `Clash` says for which pairs
  of IDs two keys read the same, in terms of the IDs (`keysApart_iff`).  In a run
  of `_get_entity_statement` over pairs without a clash every entry of the cache
  was fetched for the pair it is found under, and has its own time with it.
-/

import Fedservice.Entity.Function.CachedTree

namespace Fedservice.Entity.Function

open Fedservice.Lib Fedservice.Py Fedservice.EntityStatement

variable {Key : Type}

/-! ## Keys that read the same -/

/-- An authority, and an entity that it is asked about. -/
structure Pair where
  authority : EntityId
  entity : EntityId
deriving DecidableEq

def Pair.cacheKey (p : Pair) : String := Function.cacheKey p.authority p.entity

def Pair.timeKey (p : Pair) : String := Function.timeKey p.authority p.entity

/-- The second authority is the first one with `x` behind it, and the first entity is
    the second one with `y` before it. -/
def Shifted (x y : String) (p q : Pair) : Prop :=
  q.authority = p.authority ++ x ∧ p.entity = y ++ q.entity

/-- There is also a text that stands behind the `x` of the second authority and before
    the `y` of the first entity. -/
def Regrouped (x y : String) (p q : Pair) : Prop :=
  ∃ v, q.authority = p.authority ++ x ++ v ∧ p.entity = v ++ y ++ q.entity

/-- One key of `p`, with `sep` between its IDs, reads like one of `q`: `p.authority`
    is the shorter one, and the separators overlap or not. -/
inductive Clash (p q : Pair) : Prop
  | cacheOverlap (h : Shifted "!" "!" p q)
  | cache (h : Regrouped "!!" "!!" p q)
  | timeOverlap (h : Shifted "!exp" "exp!" p q)
  | time (h : Regrouped "!exp!" "!exp!" p q)
  | cacheTimeOverlap (h : Shifted "!" "exp!" p q)
  | cacheTime (h : Regrouped "!!" "!exp!" p q)
  | timeCacheOverlap (h : Shifted "!exp" "!" p q)
  | timeCache (h : Regrouped "!exp!" "!!" p q)

/-- The keys of pairs do not get into each other's way. -/
def KeysApart (p q : Pair) : Prop :=
  (p.cacheKey = q.cacheKey → p = q) ∧ (p.timeKey = q.timeKey → p = q) ∧ p.cacheKey ≠ q.timeKey

theorem Pair.cacheKey_toList (p : Pair) :
    p.cacheKey.toList = p.authority.toList ++ ("!!".toList ++ p.entity.toList) := by
  show (p.authority ++ "!!" ++ p.entity).toList = _
  rw [String.toList_append, String.toList_append, List.append_assoc]

theorem Pair.timeKey_toList (p : Pair) :
    p.timeKey.toList = p.authority.toList ++ ("!exp!".toList ++ p.entity.toList) := by
  show (p.authority ++ "!exp!" ++ p.entity).toList = _
  rw [String.toList_append, String.toList_append, List.append_assoc]

theorem shifted_iff {x y : String} {p q : Pair} :
    Shifted x y p q ↔ q.authority.toList = p.authority.toList ++ x.toList ∧
      p.entity.toList = y.toList ++ q.entity.toList := by
  simp only [Shifted, ← String.toList_inj, String.toList_append]

theorem regrouped_iff {x y : String} {p q : Pair} :
    Regrouped x y p q ↔ ∃ v, q.authority.toList = p.authority.toList ++ (x.toList ++ v) ∧
      p.entity.toList = v ++ (y.toList ++ q.entity.toList) := by
  simp only [Regrouped, ← String.toList_inj, String.toList_append, List.append_assoc]
  constructor
  · rintro ⟨v, h⟩
    exact ⟨v.toList, h⟩
  · rintro ⟨v, h⟩
    exact ⟨String.ofList v, by rwa [String.toList_ofList]⟩

/-! Where a separator and a text begin with a word and another separator, that word
    is empty, or part of the first separator, or all of it and more. -/

theorem cache_cache_split {e e' w : List Char} :
    "!!".toList ++ e = w ++ ("!!".toList ++ e') ↔
      (w = [] ∧ e = e') ∨ (w = "!".toList ∧ e = "!".toList ++ e') ∨
        ∃ v, w = "!!".toList ++ v ∧ e = v ++ ("!!".toList ++ e') := by
  rcases w with _ | ⟨c₁, _ | ⟨c₂, v⟩⟩ <;> simp [@eq_comm Char '!', and_assoc]

theorem time_time_split {e e' w : List Char} :
    "!exp!".toList ++ e = w ++ ("!exp!".toList ++ e') ↔
      (w = [] ∧ e = e') ∨ (w = "!exp".toList ∧ e = "exp!".toList ++ e') ∨
        ∃ v, w = "!exp!".toList ++ v ∧ e = v ++ ("!exp!".toList ++ e') := by
  rcases w with _ | ⟨c₁, _ | ⟨c₂, _ | ⟨c₃, _ | ⟨c₄, _ | ⟨c₅, v⟩⟩⟩⟩⟩
  · simp
  · simp
  · simp
  · simp
  · simp [@eq_comm Char '!', @eq_comm Char 'e', @eq_comm Char 'x', @eq_comm Char 'p', and_assoc]
  · simp [@eq_comm Char '!', @eq_comm Char 'e', @eq_comm Char 'x', @eq_comm Char 'p', and_assoc]

theorem cache_time_split {e e' w : List Char} :
    "!!".toList ++ e = w ++ ("!exp!".toList ++ e') ↔
      (w = "!".toList ∧ e = "exp!".toList ++ e') ∨
        ∃ v, w = "!!".toList ++ v ∧ e = v ++ ("!exp!".toList ++ e') := by
  rcases w with _ | ⟨c₁, _ | ⟨c₂, v⟩⟩ <;> simp [@eq_comm Char '!', and_assoc]

theorem time_cache_split {e e' w : List Char} :
    "!exp!".toList ++ e = w ++ ("!!".toList ++ e') ↔
      (w = "!exp".toList ∧ e = "!".toList ++ e') ∨
        ∃ v, w = "!exp!".toList ++ v ∧ e = v ++ ("!!".toList ++ e') := by
  rcases w with _ | ⟨c₁, _ | ⟨c₂, _ | ⟨c₃, _ | ⟨c₄, _ | ⟨c₅, v⟩⟩⟩⟩⟩
  · simp
  · simp
  · simp
  · simp
  · simp [@eq_comm Char '!', @eq_comm Char 'e', @eq_comm Char 'x', @eq_comm Char 'p', and_assoc]
  · simp [@eq_comm Char '!', @eq_comm Char 'e', @eq_comm Char 'x', @eq_comm Char 'p', and_assoc]

/-! When two keys are the same: the pairs are, or one authority is longer. -/

theorem exists_split_iff {x y sep sep' : String} {p q : Pair} :
    (∃ w, q.authority.toList = p.authority.toList ++ w ∧
      ((w = x.toList ∧ p.entity.toList = y.toList ++ q.entity.toList) ∨
        ∃ v, w = sep.toList ++ v ∧ p.entity.toList = v ++ (sep'.toList ++ q.entity.toList))) ↔
    Shifted x y p q ∨ Regrouped sep sep' p q := by
  rw [shifted_iff, regrouped_iff]
  constructor
  · rintro ⟨w, hw, ⟨rfl, he⟩ | ⟨v, rfl, he⟩⟩
    · exact Or.inl ⟨hw, he⟩
    · exact Or.inr ⟨v, hw, he⟩
  · rintro (⟨hw, he⟩ | ⟨v, hw, he⟩)
    · exact ⟨_, hw, Or.inl ⟨rfl, he⟩⟩
    · exact ⟨_, hw, Or.inr ⟨v, rfl, he⟩⟩

/-- The same, where the word may also be empty. -/
theorem exists_split_or_eq_iff {x y sep sep' : String} {p q : Pair} :
    (∃ w, q.authority.toList = p.authority.toList ++ w ∧
      ((w = [] ∧ p.entity.toList = q.entity.toList) ∨
        (w = x.toList ∧ p.entity.toList = y.toList ++ q.entity.toList) ∨
        ∃ v, w = sep.toList ++ v ∧ p.entity.toList = v ++ (sep'.toList ++ q.entity.toList))) ↔
    p = q ∨ Shifted x y p q ∨ Regrouped sep sep' p q := by
  have hsame : (q.authority.toList = p.authority.toList ++ [] ∧
      p.entity.toList = q.entity.toList) ↔ p = q := by
    rw [List.append_nil, String.toList_inj, String.toList_inj]
    constructor
    · rintro ⟨ha, he⟩
      cases p
      cases q
      simp_all
    · rintro rfl
      exact ⟨rfl, rfl⟩
  rw [← exists_split_iff, ← hsame]
  constructor
  · rintro ⟨w, hw, ⟨rfl, he⟩ | h⟩
    · exact Or.inl ⟨hw, he⟩
    · exact Or.inr ⟨w, hw, h⟩
  · rintro (⟨hw, he⟩ | ⟨w, hw, h⟩)
    · exact ⟨[], hw, Or.inl ⟨rfl, he⟩⟩
    · exact ⟨w, hw, Or.inr h⟩

theorem cacheKey_eq_iff {p q : Pair} :
    p.cacheKey = q.cacheKey ↔ (p = q ∨ Shifted "!" "!" p q ∨ Regrouped "!!" "!!" p q) ∨
      (q = p ∨ Shifted "!" "!" q p ∨ Regrouped "!!" "!!" q p) := by
  rw [← String.toList_inj, Pair.cacheKey_toList, Pair.cacheKey_toList, List.append_eq_append_iff]
  simp only [cache_cache_split, exists_split_or_eq_iff]

theorem timeKey_eq_iff {p q : Pair} :
    p.timeKey = q.timeKey ↔ (p = q ∨ Shifted "!exp" "exp!" p q ∨ Regrouped "!exp!" "!exp!" p q) ∨
      (q = p ∨ Shifted "!exp" "exp!" q p ∨ Regrouped "!exp!" "!exp!" q p) := by
  rw [← String.toList_inj, Pair.timeKey_toList, Pair.timeKey_toList, List.append_eq_append_iff]
  simp only [time_time_split, exists_split_or_eq_iff]

theorem cacheKey_eq_timeKey_iff {p q : Pair} :
    p.cacheKey = q.timeKey ↔ (Shifted "!" "exp!" p q ∨ Regrouped "!!" "!exp!" p q) ∨
      (Shifted "!exp" "!" q p ∨ Regrouped "!exp!" "!!" q p) := by
  rw [← String.toList_inj, Pair.cacheKey_toList, Pair.timeKey_toList, List.append_eq_append_iff]
  simp only [cache_time_split, time_cache_split, exists_split_iff]

/-- The authority of one of two pairs that clash is longer. -/
theorem Shifted.ne {x y : String} {p q : Pair} (h : Shifted x y p q) (hx : x ≠ "") : p ≠ q := by
  rintro rfl
  have hlen := congrArg String.length h.1
  rw [String.length_append] at hlen
  exact hx (String.length_eq_zero_iff.mp (by omega))

theorem Regrouped.ne {x y : String} {p q : Pair} (h : Regrouped x y p q) (hx : x ≠ "") :
    p ≠ q := by
  rintro rfl
  obtain ⟨v, hv, -⟩ := h
  have hlen := congrArg String.length hv
  rw [String.length_append, String.length_append] at hlen
  exact hx (String.length_eq_zero_iff.mp (by omega))

/-- The keys of the pairs of a run are apart exactly where no two of them clash. -/
theorem keysApart_iff {calls : List Pair} :
    (∀ p ∈ calls, ∀ q ∈ calls, KeysApart p q) ↔ ∀ p ∈ calls, ∀ q ∈ calls, ¬ Clash p q := by
  constructor
  · intro hapart p hp q hq hclash
    obtain ⟨hcache, htime, hcross⟩ := hapart p hp q hq
    obtain ⟨-, -, hcross'⟩ := hapart q hq p hp
    cases hclash with
    | cacheOverlap h =>
        exact h.ne (by decide) (hcache (cacheKey_eq_iff.mpr (Or.inl (Or.inr (Or.inl h)))))
    | cache h => exact h.ne (by decide) (hcache (cacheKey_eq_iff.mpr (Or.inl (Or.inr (Or.inr h)))))
    | timeOverlap h =>
        exact h.ne (by decide) (htime (timeKey_eq_iff.mpr (Or.inl (Or.inr (Or.inl h)))))
    | time h => exact h.ne (by decide) (htime (timeKey_eq_iff.mpr (Or.inl (Or.inr (Or.inr h)))))
    | cacheTimeOverlap h => exact hcross (cacheKey_eq_timeKey_iff.mpr (Or.inl (Or.inl h)))
    | cacheTime h => exact hcross (cacheKey_eq_timeKey_iff.mpr (Or.inl (Or.inr h)))
    | timeCacheOverlap h => exact hcross' (cacheKey_eq_timeKey_iff.mpr (Or.inr (Or.inl h)))
    | timeCache h => exact hcross' (cacheKey_eq_timeKey_iff.mpr (Or.inr (Or.inr h)))
  · intro hclash p hp q hq
    have hpq := hclash p hp q hq
    have hqp := hclash q hq p hp
    refine ⟨fun h => ?_, fun h => ?_, fun h => ?_⟩
    · rcases cacheKey_eq_iff.mp h with (heq | h | h) | (heq | h | h)
      · exact heq
      · exact absurd (.cacheOverlap h) hpq
      · exact absurd (.cache h) hpq
      · exact heq.symm
      · exact absurd (.cacheOverlap h) hqp
      · exact absurd (.cache h) hqp
    · rcases timeKey_eq_iff.mp h with (heq | h | h) | (heq | h | h)
      · exact heq
      · exact absurd (.timeOverlap h) hpq
      · exact absurd (.time h) hpq
      · exact heq.symm
      · exact absurd (.timeOverlap h) hqp
      · exact absurd (.time h) hqp
    · rcases cacheKey_eq_timeKey_iff.mp h with (h | h) | (h | h)
      · exact hpq (.cacheTimeOverlap h)
      · exact hpq (.cacheTime h)
      · exact hqp (.timeCacheOverlap h)
      · exact hqp (.timeCache h)

/-! ## A call -/

/-- The cache without the entries of a pair. -/
def forgetPair (p : Pair) (cache : Dict (CachedStatement Key)) : Dict (CachedStatement Key) :=
  (cache.erase p.cacheKey).erase p.timeKey

/-- The cache with a statement for a pair and the time it expires. -/
def keepStatement (p : Pair) (s : SignedStatement Key) (cache : Dict (CachedStatement Key)) :
    Dict (CachedStatement Key) :=
  (cache.insert p.cacheKey (.jwt (.jws s))).insert p.timeKey (.exp s.payload.exp)

theorem lookup_forgetPair (p : Pair) (cache : Dict (CachedStatement Key)) (key : String) :
    (forgetPair p cache).lookup key =
      if key = p.timeKey then none else if key = p.cacheKey then none else cache.lookup key := by
  rw [forgetPair, Dict.lookup_erase', Dict.lookup_erase']

theorem lookup_keepStatement (p : Pair) (s : SignedStatement Key)
    (cache : Dict (CachedStatement Key)) (key : String) :
    (keepStatement p s cache).lookup key =
      if key = p.timeKey then some (.exp s.payload.exp)
      else if key = p.cacheKey then some (.jwt (.jws s)) else cache.lookup key := by
  rw [keepStatement, Dict.lookup_insert', Dict.lookup_insert']

variable [DecidableEq Key] (env : CollectorEnv Key)

/-- `_get_entity_statement` for a pair. -/
def statementFor (p : Pair) : EStateM Exc (CollectorState Key) (Option (Token Key)) :=
  getEntityStatementFor env p.entity p.authority

/-- The call for a pair finds nothing it can use in the cache, asks the authority, and
    returns what that says. -/
def Fetches (st : CollectorState Key) (p : Pair) (s : SignedStatement Key) : Prop :=
  ∃ mid st', cachedEntityStatement env p.entity p.authority st = .ok none mid ∧
    fetchEntityStatement env p.entity p.authority mid = .ok (some (.jws s)) st'

variable {env}

omit [DecidableEq Key] in
/-- What reading the cache does to it: nothing, or the entries of the pair go. -/
theorem cachedEntityStatement_cases (p : Pair) (st : CollectorState Key) :
    ((finalState (cachedEntityStatement env p.entity p.authority st)).entityStatementCache =
        st.entityStatementCache ∨
      (finalState (cachedEntityStatement env p.entity p.authority st)).entityStatementCache =
        forgetPair p st.entityStatementCache) ∧
    ∀ token st', cachedEntityStatement env p.entity p.authority st = .ok (some token) st' →
      ∃ entry, st.entityStatementCache.lookup p.cacheKey = some entry ∧ token = entry.asToken := by
  unfold cachedEntityStatement
  rw [bind_of_ok (get_apply st)]
  cases hlookup : st.entityStatementCache.lookup (cacheKey p.authority p.entity) with
  | none => exact ⟨Or.inl rfl, fun _ _ h => absurd h (by simp)⟩
  | some entry =>
      have hclock : utcTimeSansFrac env st =
          .ok (env.now st.asked) { st with asked := st.asked + 1 } := rfl
      simp only
      rw [bind_of_ok hclock]
      cases st.entityStatementCache.lookup (timeKey p.authority p.entity) with
      | none => exact ⟨Or.inl rfl, fun _ _ h => absurd h (by simp)⟩
      | some time =>
          cases time with
          | jwt token => exact ⟨Or.inl rfl, fun _ _ h => absurd h (by simp)⟩
          | exp exp =>
              by_cases hold : env.now st.asked > exp - env.allowedDelta
              · simp only [if_pos hold]
                refine ⟨Or.inr rfl, fun token st' h => ?_⟩
                exact absurd (EStateM.Result.ok.inj h).1 (by simp)
              · simp only [if_neg hold]
                refine ⟨Or.inl rfl, fun token st' h => ⟨entry, hlookup, ?_⟩⟩
                exact (Option.some.inj (EStateM.Result.ok.inj h).1).symm

/-- What asking the authority does to the cache: nothing, or its statement is kept. -/
theorem fetchEntityStatement_cases (p : Pair) (st : CollectorState Key) :
    ((finalState (fetchEntityStatement env p.entity p.authority st)).entityStatementCache =
        st.entityStatementCache ∧
      ∀ token st', fetchEntityStatement env p.entity p.authority st ≠ .ok (some token) st') ∨
    ∃ s st', fetchEntityStatement env p.entity p.authority st = .ok (some (.jws s)) st' ∧
      st'.entityStatementCache = keepStatement p s st.entityStatementCache := by
  have hkept :=
    (@ensures_getFederationFetchEndpoint _ _ env st.entityStatementCache p.authority st rfl).1
  unfold fetchEntityStatement
  cases hendpoint : getFederationFetchEndpoint env p.authority st with
  | error err st₁ =>
      rw [bind_of_error hendpoint]
      rw [hendpoint] at hkept
      exact Or.inl ⟨hkept, fun _ _ h => absurd h (by simp)⟩
  | ok endpoint st₁ =>
      rw [hendpoint, finalState_ok] at hkept
      rw [bind_of_ok hendpoint]
      by_cases htruthy : (!endpoint.truthy) = true
      · rw [if_pos htruthy]
        exact Or.inl ⟨hkept, fun _ _ h => absurd h (by simp)⟩
      · rw [if_neg htruthy]
        have hasks := onlyAsks_getEntityStatement env endpoint p.authority p.entity
        cases hview : getEntityStatement env endpoint p.authority p.entity st₁ with
        | error err st₂ =>
            rw [bind_of_error hview]
            have hensures : Ensures (fun st' => st'.entityStatementCache = st.entityStatementCache)
                (getEntityStatement env endpoint p.authority p.entity) (fun _ => True) :=
              hasks.ensures fun _ _ _ h => h
            have hsame := (hensures st₁ hkept).1
            rw [hview] at hsame
            exact Or.inl ⟨hsame, fun _ _ h => absurd h (by simp)⟩
        | ok token st₂ =>
            obtain ⟨n, -, rfl⟩ := hasks.of_ok hview
            rw [bind_of_ok hview]
            cases token with
            | text raw =>
                -- what is no JWS is not kept
                rw [unverifiedEntityStatement, bind_of_error (lift_error _ _)]
                exact Or.inl ⟨hkept, fun _ _ h => absurd h (by simp)⟩
            | jws s =>
                rw [unverifiedEntityStatement, bind_of_ok (lift_ok s _)]
                refine Or.inr ⟨s, _, rfl, ?_⟩
                rw [← hkept]
                rfl

/-- All that a call for a pair can do: it fetches a statement and keeps it, or what it
    returns, if anything, is in the cache, of which it forgets the pair's at most. -/
theorem statementFor_cases (p : Pair) (st : CollectorState Key) :
    (∃ s st', statementFor env p st = .ok (some (.jws s)) st' ∧ Fetches env st p s ∧
      ∀ key, st'.entityStatementCache.lookup key =
        (keepStatement p s st.entityStatementCache).lookup key) ∨
    ((finalState (statementFor env p st)).entityStatementCache = st.entityStatementCache ∨
      (finalState (statementFor env p st)).entityStatementCache =
        forgetPair p st.entityStatementCache) ∧
    ∀ token st', statementFor env p st = .ok (some token) st' →
      ∃ entry, st.entityStatementCache.lookup p.cacheKey = some entry ∧
        token = entry.asToken := by
  obtain ⟨hcache, hfound⟩ := cachedEntityStatement_cases p st
  unfold statementFor getEntityStatementFor
  cases hcached : cachedEntityStatement env p.entity p.authority st with
  | error err mid =>
      rw [hcached] at hcache
      rw [bind_of_error hcached]
      exact Or.inr ⟨hcache, fun _ _ h => absurd h (by simp)⟩
  | ok cached mid =>
      rw [hcached, finalState_ok] at hcache
      rw [bind_of_ok hcached]
      cases cached with
      | some token =>
          refine Or.inr ⟨hcache, fun token' st' h => ?_⟩
          obtain rfl := Option.some.inj (EStateM.Result.ok.inj h).1
          exact hfound token mid hcached
      | none =>
          -- nothing usable in the cache
          rcases fetchEntityStatement_cases p mid with
            ⟨hsame, hnone⟩ | ⟨s, st', hfetch, hkept⟩
          · refine Or.inr ⟨?_, fun token st' h => absurd h (hnone token st')⟩
            rwa [hsame]
          · refine Or.inl ⟨s, st', hfetch, ⟨mid, st', hcached, hfetch⟩, fun key => ?_⟩
            rw [hkept, lookup_keepStatement, lookup_keepStatement]
            rcases hcache with hcache | hcache
            · rw [hcache]
            · -- the entries that went are written anew
              rw [hcache, lookup_forgetPair]
              by_cases htime : key = p.timeKey
              · rw [if_pos htime, if_pos htime]
              · by_cases hkey : key = p.cacheKey
                · rw [if_neg htime, if_pos hkey, if_neg htime, if_pos hkey]
                · rw [if_neg htime, if_neg hkey, if_neg htime, if_neg hkey, if_neg htime,
                    if_neg hkey]

/-! ## A run -/

variable (env)

/-- What the cache holds for a pair after the calls `before` was fetched by one of them
    for this pair, and its time is held with it. -/
def Held (start : CollectorState Key) (before : List Pair) (q : Pair) : Prop :=
  ∀ entry, (runState (statementFor env) start before).entityStatementCache.lookup q.cacheKey =
      some entry →
    ∃ earlier later s, before = earlier ++ q :: later ∧
      Fetches env (runState (statementFor env) start earlier) q s ∧ entry = .jwt (.jws s) ∧
      (runState (statementFor env) start before).entityStatementCache.lookup q.timeKey =
        some (.exp s.payload.exp)

variable {env}

/-- The state of a collector after the calls so far. -/
theorem runState_concat {start : CollectorState Key} {before : List Pair} {p : Pair} :
    runState (statementFor env) start (before ++ [p]) =
      finalState (statementFor env p (runState (statementFor env) start before)) := by
  rw [runState_append, runState_cons, runState_nil]

/-- An entry that a call leaves alone, with its time, keeps its origin. -/
theorem Held.keep {start : CollectorState Key} {before : List Pair} {p q : Pair}
    (h : Held env start before q)
    (hentry : ∀ key ∈ [q.cacheKey, q.timeKey],
      (runState (statementFor env) start (before ++ [p])).entityStatementCache.lookup key =
        (runState (statementFor env) start before).entityStatementCache.lookup key) :
    Held env start (before ++ [p]) q := by
  intro entry hfound
  rw [hentry q.cacheKey (by simp)] at hfound
  obtain ⟨earlier, later, s, rfl, hfetched, rfl, htime⟩ := h entry hfound
  refine ⟨earlier, later ++ [p], s, by rw [List.append_assoc, List.cons_append], hfetched, rfl, ?_⟩
  rw [hentry q.timeKey (by simp), htime]

/-- Keys of another pair are other keys. -/
theorem KeysApart.ne_of_mem {p q : Pair} (hqp : KeysApart q p) (hpq : KeysApart p q)
    (hsame : q.cacheKey ≠ p.cacheKey) {key : String} (hkey : key ∈ [q.cacheKey, q.timeKey]) :
    key ≠ p.cacheKey ∧ key ≠ p.timeKey := by
  rcases List.mem_pair.mp hkey with rfl | rfl
  · exact ⟨hsame, hqp.2.2⟩
  · exact ⟨Ne.symm hpq.2.2, fun heq => hsame (by rw [hqp.2.1 heq])⟩

/-- Step: a call for another pair, or for the same one, keeps that so. -/
theorem Held.step {start : CollectorState Key} {before : List Pair} {p q : Pair}
    (hqp : KeysApart q p) (hpq : KeysApart p q) (h : Held env start before q) :
    Held env start (before ++ [p]) q := by
  have hstate := @runState_concat _ _ env start before p
  rcases statementFor_cases p (runState (statementFor env) start before) with
    ⟨s, st', hcall, hfetch, hcache⟩ | ⟨hcache | hcache, -⟩
  · -- a statement was fetched and is kept
    rw [hcall, finalState_ok] at hstate
    by_cases hsame : q.cacheKey = p.cacheKey
    · obtain rfl := hqp.1 hsame
      intro entry hentry
      rw [hstate, hcache, lookup_keepStatement, if_neg hqp.2.2, if_pos rfl,
        Option.some.injEq] at hentry
      refine ⟨before, [], s, rfl, hfetch, hentry.symm, ?_⟩
      rw [hstate, hcache, lookup_keepStatement, if_pos rfl]
    · refine h.keep (fun key hkey => ?_)
      obtain ⟨hcacheKey, htimeKey⟩ := hqp.ne_of_mem hpq hsame hkey
      rw [hstate, hcache, lookup_keepStatement, if_neg htimeKey, if_neg hcacheKey]
  · exact h.keep (fun key _ => by rw [hstate, hcache])
  · -- the pair was forgotten
    by_cases hsame : q.cacheKey = p.cacheKey
    · intro entry hentry
      rw [hstate, hcache, lookup_forgetPair, if_neg hqp.2.2, if_pos hsame] at hentry
      exact absurd hentry (by simp)
    · refine h.keep (fun key hkey => ?_)
      obtain ⟨hcacheKey, htimeKey⟩ := hqp.ne_of_mem hpq hsame hkey
      rw [hstate, hcache, lookup_forgetPair, if_neg htimeKey, if_neg hcacheKey]

/-- Run: whatever the calls are, as long as keys are apart, each entry belongs to its
    pair throughout. -/
theorem held_run {start : CollectorState Key} (hstart : start.entityStatementCache = ∅)
    {before : List Pair} {q : Pair} (hapart : ∀ p ∈ before, KeysApart q p ∧ KeysApart p q) :
    Held env start before q := by
  induction before using List.reverseRecOn with
  | nil =>
      intro entry hentry
      rw [runState_nil, hstart] at hentry
      simp at hentry
  | append_singleton before p ih =>
      obtain ⟨hqp, hpq⟩ := hapart p (by simp)
      exact (ih fun p' hp' => hapart p' (List.mem_append_left _ hp')).step hqp hpq

variable (env)

/-- In a run of calls what is returned for a pair was fetched by a call for it, what is
    found in the cache for a pair is a statement and its own time, and the keys of
    pairs are apart. -/
structure StatementsBelong (start : CollectorState Key) (calls : List Pair) : Prop where
  returned : ∀ before p after, calls = before ++ p :: after → ∀ token st',
    statementFor env p (runState (statementFor env) start before) = .ok (some token) st' →
      ∃ earlier later s, before ++ [p] = earlier ++ p :: later ∧ token = .jws s ∧
        Fetches env (runState (statementFor env) start earlier) p s
  consulted : ∀ before p after, calls = before ++ p :: after → ∀ entry,
    (runState (statementFor env) start before).entityStatementCache.lookup p.cacheKey =
        some entry →
      ∃ s, entry = .jwt (.jws s) ∧
        (runState (statementFor env) start before).entityStatementCache.lookup p.timeKey =
          some (.exp s.payload.exp)
  apart : ∀ p ∈ calls, ∀ q ∈ calls, KeysApart p q

/-- A collector that has no statements yet keeps them apart in a run exactly where no
    two of the pairs it is asked for clash. -/
theorem statementsBelong_iff (configCache : Dict (CachedConfig Key)) (asked : Nat)
    (calls : List Pair) :
    StatementsBelong env { configCache := configCache, asked := asked } calls ↔
      ∀ p ∈ calls, ∀ q ∈ calls, ¬ Clash p q := by
  constructor
  · exact fun h => keysApart_iff.mp h.apart
  · intro hclash
    have hapart := keysApart_iff.mpr hclash
    have hheld : ∀ before p after, calls = before ++ p :: after →
        Held env { configCache := configCache, asked := asked } before p := by
      rintro before p after rfl
      refine held_run rfl fun q hq => ?_
      have hp : p ∈ before ++ p :: after := by simp
      exact ⟨hapart p hp q (List.mem_append_left _ hq), hapart q (List.mem_append_left _ hq) p hp⟩
    refine ⟨fun before p after hsplit token st' hcall => ?_,
      fun before p after hsplit entry hentry => ?_, hapart⟩
    · rcases @statementFor_cases _ _ env p _ with
        ⟨s, st₁, hfetched, hfetch, -⟩ | ⟨-, hcached⟩
      · obtain ⟨htoken, -⟩ := EStateM.Result.ok.inj (hfetched.symm.trans hcall)
        exact ⟨before, [], s, rfl, (Option.some.inj htoken).symm, hfetch⟩
      · obtain ⟨entry, hentry, rfl⟩ := hcached token st' hcall
        obtain ⟨earlier, later, s, hbefore, hfetch, rfl, -⟩ :=
          hheld before p after hsplit entry hentry
        refine ⟨earlier, later ++ [p], s, ?_, rfl, hfetch⟩
        rw [hbefore, List.append_assoc, List.cons_append]
    · obtain ⟨-, -, s, -, -, hs, htime⟩ := hheld before p after hsplit entry hentry
      exact ⟨s, hs, htime⟩

/-! ## Three pairs that clash -/

/-- An entity whose ID has both separators in its path: under the cache key of -/
def sameCacheKey : Pair :=
  ⟨"https://ta.org/f", "https://im.org/!exp!https://rp.org/!!https://op.org"⟩

/-- an authority whose ID has them, -/
def clashing : Pair := ⟨"https://ta.org/f!!https://im.org/!exp!https://rp.org/", "https://op.org"⟩

/-- under whose time key is another pair. -/
def sameTimeKey : Pair :=
  ⟨"https://ta.org/f!!https://im.org/", "https://rp.org/!exp!https://op.org"⟩

/-- What the first authority says about the first entity. -/
def saidFirst : SignedStatement Nat :=
  ⟨{ iss := sameCacheKey.authority, sub := sameCacheKey.entity, exp := 1000 }, 1⟩

/-- What is published about two of the pairs, by authorities with one fetch endpoint. -/
def clashingPages : List (String × SignedStatement Nat) :=
  [("https://ta.org/fetch?https://im.org/!exp!https://rp.org/!!https://op.org", saidFirst),
   ("https://ta.org/fetch?https://rp.org/!exp!https://op.org",
    ⟨{ iss := sameTimeKey.authority, sub := sameTimeKey.entity, exp := 2000 }, 2⟩)]

/-- The configurations of those authorities, met already. -/
def clashingAuthorities : Dict (CachedConfig Nat) :=
  let endpoint := withFetchEndpoint "https://ta.org/fetch"
  Dict.ofList
    [(sameCacheKey.authority, .message
      { iss := sameCacheKey.authority, sub := sameCacheKey.authority, exp := 3000
        metadata := some endpoint }),
     (sameTimeKey.authority, .message
      { iss := sameTimeKey.authority, sub := sameTimeKey.authority, exp := 3000
        metadata := some endpoint })]

/-- Asked for the third pair, the collector returns the statement it fetched for the
    first one, after a look at the time of the second one. -/
theorem other_pair_returned :
    ¬ ∀ (env : CollectorEnv Nat) (configCache : Dict (CachedConfig Nat)) (calls : List Pair),
      StatementsBelong env { configCache := configCache } calls := by
  intro h
  have hbelong := h (onPages [] clashingPages) clashingAuthorities
    [sameCacheKey, sameTimeKey, clashing]
  obtain ⟨earlier, later, s, hsplit, -, mid, -, hcached, -⟩ :=
    hbelong.returned [sameCacheKey, sameTimeKey] clashing [] rfl (.jws saidFirst) _ rfl
  rcases earlier with _ | ⟨x, _ | ⟨y, _ | ⟨z, rest⟩⟩⟩
  · exact absurd (List.cons.inj hsplit).1 (by decide)
  · exact absurd (List.cons.inj (List.cons.inj hsplit).2).1 (by decide)
  · -- the call itself does not fetch anything
    have hx := (List.cons.inj hsplit).1
    have hy := (List.cons.inj (List.cons.inj hsplit).2).1
    rw [← hx, ← hy] at hcached
    have hfound : ∃ st, cachedEntityStatement (onPages [] clashingPages) clashing.entity
        clashing.authority (runState (statementFor (onPages [] clashingPages))
          { configCache := clashingAuthorities } [sameCacheKey, sameTimeKey]) =
        .ok (some (.jws saidFirst)) st := ⟨_, rfl⟩
    obtain ⟨st, hst⟩ := hfound
    exact absurd (EStateM.Result.ok.inj (hst.symm.trans hcached)).1 (by simp)
  · have hlen := congrArg List.length hsplit
    simp at hlen

end Fedservice.Entity.Function
