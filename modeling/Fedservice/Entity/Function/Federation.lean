/-
  Fedservice.Entity.Function.Federation

  A federation as it is published: entity configurations, fetch endpoints, what
  an authority says about an entity, and the tree of superiors of an entity as a
  function of these, without caches and without an order of questions.
-/

import Fedservice.Entity.Function.CollectTrustChains

namespace Fedservice.Entity.Function

open Fedservice.Lib Fedservice.Py Fedservice.EntityStatement Fedservice.Entity.Client

variable {Key : Type}

/-! ## What is published -/

section Published

variable (env : CollectorEnv Key)

/-- What comes of fetching the entity configuration of an entity. -/
def document (entityId : EntityId) : Except Exc (Token Key) :=
  outcome (getEntityConfiguration env entityId {})

/-- What comes of asking at a fetch endpoint what an authority says about an entity. -/
def view (fetchEndpoint : Json) (authority entity : EntityId) : Except Exc (Token Key) :=
  outcome (getEntityStatement env fetchEndpoint authority entity {})

/-- Whether the configuration cache still gives an entity configuration out. -/
def isCurrent (config : Statement Key) : Bool := decide (env.now 0 < config.exp - env.allowedDelta)

variable [DecidableEq Key]

/-- A token checked with the keys it lists itself. -/
def selfSigned (statement : Token Key) : Except Exc (SelfSigned Key) :=
  outcome (verifySelfSignedSignature env statement {})

/-- The entity configuration an entity publishes. -/
def configuration (entityId : EntityId) : Except Exc (SelfSigned Key) := do
  selfSigned env (← document env entityId)

/-- The entity configuration of a leaf, which may also have nothing there. -/
def leaf (entityId : EntityId) : Except Exc (Option (SelfSigned Key)) := do
  let signedEntityConfig ← document env entityId
  if !tokenTruthy signedEntityConfig then return none
  else return some (← selfSigned env signedEntityConfig)

/-- The fetch endpoint of an authority, which need not have one. -/
def fetchEndpoint (authority : EntityId) : Except Exc Json := do
  getEndpoint "fetch" (← configuration env authority).payload

/-- What an authority says about an entity, if it has a fetch endpoint. -/
def statementAbout (entity authority : EntityId) : Except Exc (Option (Token Key)) := do
  let fedFetchEndpoint ← fetchEndpoint env authority
  if !fedFetchEndpoint.truthy then return none
  else do
    let entityStatement ← view env fedFetchEndpoint authority entity
    let _ ← unverifiedEntityStatement entityStatement
    return some entityStatement

/-! ## The tree of superiors as a function of what is published -/

/-- The branch of an authority, given the superiors of the next level. -/
def branch (superiors : EntityId → Option (Statement Key) → Except Exc (Tree Key))
    (entity authority : EntityId) : Except Exc (Option (Token Key × Tree Key)) :=
  if entity = authority && decide (entity ∈ env.trustAnchors) then return none
  else do
    match ← statementAbout env entity authority with
    | none => return none
    | some entityStatement => do
        let config ← configuration env authority
        -- what is about to expire is gone from the cache when it is read again
        let kept := if isCurrent env config.payload then some config.payload else none
        return some (entityStatement, ← superiors authority kept)

omit [DecidableEq Key] in
/-- A tree with a branch for each of the authorities, added in order. -/
def growTree (branchOf : EntityId → Except Exc (Option (Token Key × Tree Key)))
    (superior : Tree Key) : List EntityId → Except Exc (Tree Key)
  | [] => return superior
  | authority :: rest => do growTree branchOf (superior.set authority (← branchOf authority)) rest

/-- The tree of superiors, to the depth given. -/
def superiors (stopAt : EntityId) : Nat → EntityId → Option (Statement Key) →
    Except Exc (Tree Key)
  | 0, _, _ => throw .recursionError
  | depth + 1, entityId, entityConfiguration =>
      match entityConfiguration with
      | none => throw .typeError
      | some config =>
          match config.authorityHints with
          | none => return .empty
          | some hints =>
              if config.iss = stopAt then return .empty
              else growTree (branch env (superiors stopAt depth) entityId) .empty hints

/-- The tree that is collected for an entity, and its entity configuration. -/
def collected (stopAt entityId : EntityId) : Except Exc (Option (Tree Key × SelfSigned Key)) := do
  match ← leaf env entityId with
  | none => return none
  | some config => do
      let tree ← superiors env stopAt env.recursionLimit entityId (some config.payload)
      return some (tree, config)

/-- The lists of statements that are collected for an entity, and its entity
    configuration. -/
def publishedChains (stopAt entityId : EntityId) :
    Except Exc (List (List (Token Key)) × Option (SelfSigned Key)) := do
  match ← collected env stopAt entityId with
  | none => return ([], none)
  | some (tree, config) => return (tree2chains tree, some config)

/-- A branch with something in it: the authority was asked and said something, and it has the
    superiors that go with its configuration. -/
theorem branch_eq_some {env : CollectorEnv Key}
    {superiors : EntityId → Option (Statement Key) → Except Exc (Tree Key)}
    {e a : EntityId} {s : Token Key} {above : Tree Key}
    (h : branch env superiors e a = .ok (some (s, above))) :
    ¬ (e = a ∧ e ∈ env.trustAnchors) ∧ statementAbout env e a = .ok (some s) ∧
      ∃ config, configuration env a = .ok config ∧
        superiors a (if isCurrent env config.payload then some config.payload else none) =
          .ok above := by
  unfold branch at h
  by_cases hself : (e = a && decide (e ∈ env.trustAnchors)) = true
  · rw [if_pos hself] at h
    exact absurd (except_pure_eq_ok.mp h) (by simp)
  · rw [if_neg hself] at h
    obtain ⟨found, hsaid, h⟩ := except_bind_eq_ok.mp h
    cases found with
    | none => exact absurd (except_pure_eq_ok.mp h) (by simp)
    | some token =>
        obtain ⟨config, hconfig, h⟩ := except_bind_eq_ok.mp h
        obtain ⟨tree, htree, h⟩ := except_bind_eq_ok.mp h
        obtain ⟨rfl, rfl⟩ := Prod.mk.inj (Option.some.inj (except_pure_eq_ok.mp h))
        exact ⟨by simpa using hself, hsaid, config, hconfig, htree⟩

/-- What is published as a configuration is a JWS, and what a leaf would use. -/
theorem leaf_of_configuration {env : CollectorEnv Key} {e : EntityId} {config : SelfSigned Key}
    (h : configuration env e = .ok config) : leaf env e = .ok (some config) := by
  obtain ⟨token, hdocument, hsigned⟩ := except_bind_eq_ok.mp h
  obtain ⟨st, hverify⟩ := outcome_eq_ok.mp hsigned
  obtain rfl := verifySelfSignedSignature_eq_ok env hverify
  rw [leaf, hdocument, except_ok_bind, hsigned]
  rfl

/-- An authority that says something publishes a configuration, and what it says is
    a JWS. -/
theorem statementAbout_eq_some {env : CollectorEnv Key} {e a : EntityId} {token : Token Key}
    (h : statementAbout env e a = .ok (some token)) :
    (∃ config, configuration env a = .ok config) ∧ ∃ s, token = .jws s := by
  obtain ⟨location, hlocation, h⟩ := except_bind_eq_ok.mp h
  obtain ⟨config, hconfig, -⟩ := except_bind_eq_ok.mp hlocation
  refine ⟨⟨config, hconfig⟩, ?_⟩
  by_cases htruthy : (!location.truthy) = true
  · rw [if_pos htruthy] at h
    exact absurd (except_pure_eq_ok.mp h) (by simp)
  · rw [if_neg htruthy] at h
    obtain ⟨answer, -, h⟩ := except_bind_eq_ok.mp h
    obtain ⟨statement, hunverified, h⟩ := except_bind_eq_ok.mp h
    obtain rfl := Option.some.inj (except_pure_eq_ok.mp h)
    cases answer with
    | jws s => exact ⟨s, rfl⟩
    | text raw => exact absurd hunverified (by simp [unverifiedEntityStatement])

end Published

/-! ## A web of fixed pages -/

/-- A collector on a web of pages that do not change, under a clock that stands
    still; a fetch endpoint has a page for each entity it is asked about. -/
def onPages (trustAnchors : List EntityId) (pages : List (String × SignedStatement Nat)) :
    CollectorEnv Nat where
  trustAnchors := trustAnchors
  now _ := 100
  httpc _ url :=
    match pages.lookup url with
    | some s => .reply 200 (some "application/entity-statement+jwt") (.jws s)
    | none => .reply 404 none (.text "")
  request location _ subject := s!"{location}?{subject}"

/-- The metadata of an entity with a fetch endpoint. -/
def withFetchEndpoint (location : String) : Dict Metadata :=
  Dict.ofList [("federation_entity", Dict.ofList [("federation_fetch_endpoint", .str location)])]

end Fedservice.Entity.Function
