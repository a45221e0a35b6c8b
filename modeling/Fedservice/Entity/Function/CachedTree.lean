/-
  Fedservice.Entity.Function.CachedTree

  Once a tree of superiors has been collected, every statement in it is in the cache
  under the authority that was asked and the entity it was asked about: one that was
  too old was fetched again, and what happens on other branches does not touch it.
-/

import Fedservice.Entity.Function.CompleteChains

namespace Fedservice.Entity.Function

open Fedservice.Lib Fedservice.Py Fedservice.EntityStatement

variable {Key : Type}

/-! ## Properties of all statements of a tree -/

/-- Every statement of a tree of superiors of `e` meets `R`, with the authority it is
    from and the entity that was asked about. -/
inductive Throughout (R : EntityId → EntityId → Token Key → Prop) : EntityId → Tree Key → Prop
  | intro {e : EntityId} {t : Tree Key}
      (here : ∀ a s above, (a, some (s, above)) ∈ t.entries → R a e s)
      (above : ∀ a s above, (a, some (s, above)) ∈ t.entries → Throughout R a above) :
      Throughout R e t

theorem throughout_empty {R : EntityId → EntityId → Token Key → Prop} (e : EntityId) :
    Throughout R e .empty :=
  .intro (fun _ _ _ hmem => absurd hmem List.not_mem_nil)
    (fun _ _ _ hmem => absurd hmem List.not_mem_nil)

theorem Throughout.mono {R R' : EntityId → EntityId → Token Key → Prop} {e : EntityId}
    {t : Tree Key} (h : Throughout R e t) (himp : ∀ a e s, R a e s → R' a e s) :
    Throughout R' e t := by
  induction h with
  | intro here _ ih => exact .intro (fun a s above hmem => himp _ _ _ (here a s above hmem)) ih

/-- One more branch. -/
theorem Throughout.set {R : EntityId → EntityId → Token Key → Prop} {e a : EntityId}
    {t : Tree Key} {value : Option (Token Key × Tree Key)} (h : Throughout R e t)
    (hvalue : ∀ s above, value = some (s, above) → R a e s ∧ Throughout R a above) :
    Throughout R e (t.set a value) := by
  have hentry : ∀ b s above, (b, some (s, above)) ∈ (t.set a value).entries →
      R b e s ∧ Throughout R b above := by
    intro b s above hmem
    rcases Tree.mem_of_mem_entries_set hmem with heq | hbefore
    · obtain ⟨rfl, hsome⟩ := Prod.mk.inj heq
      exact hvalue s above hsome.symm
    · cases h with
      | intro here habove => exact ⟨here b s above hbefore, habove b s above hbefore⟩
  exact .intro (fun b s above hmem => (hentry b s above hmem).1)
    (fun b s above hmem => (hentry b s above hmem).2)

/-- Going up from an entity, from one authority to the next. -/
def Upwards (R : EntityId → EntityId → Token Key → Prop) :
    EntityId → List (EntityId × Token Key) → Prop
  | _, [] => True
  | e, (a, s) :: up => R a e s ∧ Upwards R a up

theorem Upwards.mono {R R' : EntityId → EntityId → Token Key → Prop} {e : EntityId}
    {up : List (EntityId × Token Key)} (h : Upwards R e up)
    (himp : ∀ a e s, R a e s → R' a e s) : Upwards R' e up := by
  induction up generalizing e with
  | nil => trivial
  | cons p up ih => exact ⟨himp _ _ _ h.1, ih h.2⟩

/-- The chains of a tree go up through it. -/
theorem Throughout.chain {R : EntityId → EntityId → Token Key → Prop} {e : EntityId}
    {t : Tree Key} (h : Throughout R e t) {c : List (EntityId × Token Key)} (hc : c ∈ t.chains) :
    Upwards R e c.reverse := by
  induction h generalizing c with
  | intro here _ ih =>
      rcases Tree.mem_chains.mp hc with ⟨a, -, rfl⟩ | ⟨a, s, above, hmem, hthrough⟩
      · trivial
      · have hhere := here a s above hmem
        rcases mem_chainsThrough.mp hthrough with ⟨-, rfl⟩ | ⟨upper, hupper, rfl⟩
        · exact ⟨hhere, trivial⟩
        · rw [List.reverse_append, List.reverse_singleton]
          exact ⟨hhere, ih a s above hmem hupper⟩

/-! ## What the collector leaves alone -/

variable [DecidableEq Key] {env : CollectorEnv Key} {entities : Finset EntityId}

omit [DecidableEq Key] in
theorem ensures_configCacheItem (cache : Dict (CachedStatement Key)) (e : EntityId) :
    Ensures (fun st => st.entityStatementCache = cache) (configCacheItem env e)
      (fun _ => True) := by
  refine ensures_get.bind fun st hst => ?_
  cases st.configCache.lookup e with
  | none => exact ensures_pure trivial
  | some entry =>
      cases entry with
      | message payload => exact ensures_pure trivial
      | dict config =>
          have hclock : Ensures (fun st => st.entityStatementCache = cache) (utcTimeSansFrac env)
              (fun _ => True) := (onlyAsks_utcTimeSansFrac env).ensures fun _ _ _ h => h
          refine hclock.bind fun now _ => ?_
          by_cases hfresh : now < config.payload.exp - env.allowedDelta
          · simp only [if_pos hfresh]
            exact ensures_pure trivial
          · simp only [if_neg hfresh]
            refine Ensures.bind (ensures_modify ?_) fun _ (_ : True) => ensures_pure trivial
            exact fun _ h => h

/-- Looking for a fetch endpoint does not touch the statements. -/
theorem ensures_getFederationFetchEndpoint (cache : Dict (CachedStatement Key)) (a : EntityId) :
    Ensures (fun st => st.entityStatementCache = cache) (getFederationFetchEndpoint env a)
      (fun _ => True) := by
  have hasks : ∀ {α : Type} {m : EStateM Exc (CollectorState Key) α}, OnlyAsks m →
      Ensures (fun st => st.entityStatementCache = cache) m (fun _ => True) :=
    fun h => h.ensures fun _ _ _ h => h
  refine (ensures_configCacheItem cache a).bind fun entry _ => ?_
  -- an endpoint that is missing or empty is looked up in a configuration fetched anew
  have hrest : ∀ known : Json, Ensures (fun st => st.entityStatementCache = cache)
      (if known.truthy then pure known
      else getEntityConfiguration env a >>= fun signedEntityConfig =>
        verifySelfSignedSignature env signedEntityConfig >>= fun config =>
        lift (getEndpoint "fetch" config.payload) >>= fun fedFetchEndpoint =>
        configCacheSet a (.dict config) >>= fun _ => pure fedFetchEndpoint) (fun _ => True) := by
    intro known
    by_cases htruthy : known.truthy = true
    · rw [if_pos htruthy]
      exact ensures_pure trivial
    · rw [if_neg htruthy]
      refine (hasks (onlyAsks_getEntityConfiguration env a)).bind fun token _ => ?_
      refine (hasks (onlyAsks_verifySelfSignedSignature env token)).bind fun config _ => ?_
      refine (ensures_lift fun _ _ => trivial).bind fun endpoint (_ : True) => ?_
      refine Ensures.bind (ensures_modify ?_) fun _ (_ : True) => ensures_pure trivial
      exact fun _ h => h
  cases entry with
  | none => exact hrest .null
  | some config => exact (ensures_lift fun _ _ => trivial).bind fun known (_ : True) => hrest known

section OtherKey

variable {a e : EntityId} {key : String} (hcache : key ≠ cacheKey a e) (htime : key ≠ timeKey a e)
  (entry : Option (CachedStatement Key))

include hcache htime

end OtherKey

/-! ## What the collector leaves behind -/

/-- A statement of the tree is in the cache, under the names of two entities. -/
def Cached (entities : Finset EntityId) (st : CollectorState Key) (a e : EntityId)
    (_ : Token Key) : Prop :=
  a ∈ entities ∧ e ∈ entities ∧ (st.entityStatementCache.lookup (cacheKey a e)).isSome

/-- The statements that were in the cache still are. -/
def StillCached (entities : Finset EntityId) (st st' : CollectorState Key) : Prop :=
  ∀ a e s, Cached entities st a e s → Cached entities st' a e s

omit [DecidableEq Key] in
theorem StillCached.refl (st : CollectorState Key) : StillCached entities st st :=
  fun _ _ _ h => h

omit [DecidableEq Key] in
theorem StillCached.trans {st₁ st₂ st₃ : CollectorState Key} (h : StillCached entities st₁ st₂)
    (h' : StillCached entities st₂ st₃) : StillCached entities st₁ st₃ :=
  fun a e s hin => h' a e s (h a e s hin)

section Level

variable {collectTree : EntityId → Option (Statement Key) → List EntityId →
  EStateM Exc (CollectorState Key) (Tree Key)}

end Level

/-- What is read as a configuration is the one that is published. -/
theorem Steady.cachedConfigurationJws (h : Steady env entities)
    {e : EntityId} (he : e ∈ entities) {st st' : CollectorState Key} {token : Token Key}
    (hst : Reflects env entities st)
    (hread : Function.cachedConfigurationJws env e st = .ok token st') :
    Reflects env entities st' ∧ st'.entityStatementCache = st.entityStatementCache ∧
      ∃ config, Function.configuration env e = .ok config ∧ token = .jws config.jws := by
  obtain ⟨entry, st₁, hentry, hst₁, hsame, hcases, -⟩ := h.configCacheItem he hst
  unfold Function.cachedConfigurationJws at hread
  rw [bind_of_ok hentry] at hread
  rcases hcases with rfl | ⟨config, rfl, -, hconfig, -⟩
  · exact absurd hread (by simp)
  · obtain ⟨rfl, rfl⟩ := EStateM.Result.ok.inj hread
    exact ⟨hst₁, hsame, config, hconfig, rfl⟩

end Fedservice.Entity.Function
