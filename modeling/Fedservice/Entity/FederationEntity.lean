/-
  Fedservice.Entity.FederationEntity

  `FederationEntity` (entity/__init__.py) and the functions of
  entity/function/__init__.py that go through it: its collector, the one key jar
  that its verifier works on, and the trust chains it keeps.
-/

import Fedservice.Entity.Function.CollectTrustChains
import Fedservice.Entity.Function.TrustChainPolicy
import Fedservice.Entity.Function.Verifier

namespace Fedservice.Entity

open Fedservice.Lib Fedservice.Py Fedservice.EntityStatement Fedservice.Crypto
  Fedservice.Entity.Function

variable {Jar Key : Type}

/-- The state of a federation entity. -/
structure FederationState (Jar Key : Type) where
  collector : CollectorState Key := {}
  keyjar : Jar
  trustChain : Dict (List (TrustChain Key)) := ∅
  /-- `trust_chain_anchor`, which the registration endpoints set. -/
  trustChainAnchor : Option EntityId := none

/-- Run something on the collector. -/
def inCollector {α : Type} (m : EStateM Exc (CollectorState Key) α) :
    EStateM Exc (FederationState Jar Key) α :=
  zoom (·.collector) (fun c st => { st with collector := c }) m

/-- Run something on the key jar. -/
def inKeyjar {α : Type} (m : EStateM Exc Jar α) : EStateM Exc (FederationState Jar Key) α :=
  zoom (·.keyjar) (fun jar st => { st with keyjar := jar }) m

theorem inCollector_eq_ok {α : Type} {m : EStateM Exc (CollectorState Key) α} {a : α}
    {st st' : FederationState Jar Key} :
    inCollector m st = .ok a st' ↔
      ∃ c, m st.collector = .ok a c ∧ st' = { st with collector := c } :=
  zoom_eq_ok

theorem inKeyjar_eq_ok {α : Type} {m : EStateM Exc Jar α} {a : α}
    {st st' : FederationState Jar Key} :
    inKeyjar m st = .ok a st' ↔ ∃ jar, m st.keyjar = .ok a jar ∧ st' = { st with keyjar := jar } :=
  zoom_eq_ok

theorem inCollector_of_ok {α : Type} {m : EStateM Exc (CollectorState Key) α} {a : α}
    {st : FederationState Jar Key} {c : CollectorState Key} (h : m st.collector = .ok a c) :
    inCollector m st = .ok a { st with collector := c } :=
  zoom_of_ok h

theorem inCollector_of_error {α : Type} {m : EStateM Exc (CollectorState Key) α} {e : Exc}
    {st : FederationState Jar Key} {c : CollectorState Key} (h : m st.collector = .error e c) :
    inCollector m st = .error e { st with collector := c } :=
  zoom_of_error h

theorem inKeyjar_of_ok {α : Type} {m : EStateM Exc Jar α} {a : α}
    {st : FederationState Jar Key} {jar : Jar} (h : m st.keyjar = .ok a jar) :
    inKeyjar m st = .ok a { st with keyjar := jar } :=
  zoom_of_ok h

theorem inKeyjar_of_error {α : Type} {m : EStateM Exc Jar α} {e : Exc}
    {st : FederationState Jar Key} {jar : Jar} (h : m st.keyjar = .error e jar) :
    inKeyjar m st = .error e { st with keyjar := jar } :=
  zoom_of_error h

theorem finalState_inCollector {α : Type} (m : EStateM Exc (CollectorState Key) α)
    (st : FederationState Jar Key) :
    finalState (inCollector m st) = { st with collector := finalState (m st.collector) } := by
  unfold inCollector zoom
  cases m st.collector <;> rfl

variable [KeyStore Jar Key] [DecidableEq Key] (ho : HashOrder) (env : CollectorEnv Key)

/-- `get_verified_trust_chains`. -/
def getVerifiedTrustChains (entityId : EntityId) :
    EStateM Exc (FederationState Jar Key) (List (TrustChain Key)) := do
  let (chains, leafEc) ← inCollector (collectTrustChains env entityId)
  if chains.length = 0 then return []
  else do
    let trustChains ← inKeyjar
      (verifyTrustChains (leafEc.toList.map (fun config => .jws config.jws)) chains)
    lift (applyPolicies ho trustChains)

omit [KeyStore Jar Key] [DecidableEq Key] in
/-- `pick_trust_chain`. -/
def pickTrustChain (trPriority : List EntityId) (trustChains : List (TrustChain Key)) :
    Except Exc (TrustChain Key) :=
  match trustChains with
  | [trustChain] => .ok trustChain
  | _ =>
      -- go by priority
      match trPriority.findSome? (fun fid => trustChains.find? (fun tc => tc.anchor = fid)) with
      | some trustChain => .ok trustChain
      | none =>
          match trustChains with
          | [] => .error .indexError
          | trustChain :: _ => .ok trustChain

omit [KeyStore Jar Key] [DecidableEq Key] in
theorem mem_of_pickTrustChain {trPriority : List EntityId} {trustChains : List (TrustChain Key)}
    {tc : TrustChain Key} (h : pickTrustChain trPriority trustChains = .ok tc) :
    tc ∈ trustChains := by
  unfold pickTrustChain at h
  split at h
  · obtain rfl := Except.ok.inj h
    exact List.mem_singleton_self _
  · split at h
    · rename_i trustChain hfound
      obtain rfl := Except.ok.inj h
      obtain ⟨fid, -, hfind⟩ := List.exists_of_findSome?_eq_some hfound
      exact List.mem_of_find?_eq_some hfind
    · split at h
      · simp at h
      · obtain rfl := Except.ok.inj h
        exact List.mem_cons_self ..

omit [KeyStore Jar Key] [DecidableEq Key] in
/-- `store_trust_chains`. -/
def storeTrustChains (entityId : EntityId) (chains : List (TrustChain Key))
    (st : FederationState Jar Key) : FederationState Jar Key :=
  { st with trustChain := st.trustChain.insert entityId chains }

/-- `get_trust_chains`. -/
def getTrustChains (entityId : EntityId) :
    EStateM Exc (FederationState Jar Key) (List (TrustChain Key)) := do
  let st ← get
  match st.trustChain.lookup entityId with
  | some trustChains => return trustChains
  | none => do
      let trustChains ← getVerifiedTrustChains ho env entityId
      if trustChains.isEmpty then return []
      else do
        modify (storeTrustChains entityId trustChains)
        return trustChains

/-- `get_verified_metadata`. -/
def getVerifiedMetadata (entityId : EntityId) :
    EStateM Exc (FederationState Jar Key) (Option ChainMetadata) := do
  let st ← get
  let trustChains ←
    match st.trustChain.lookup entityId with
    | some trustChains => pure trustChains
    | none => do
        let trustChains ← getVerifiedTrustChains ho env entityId
        if !trustChains.isEmpty then modify (storeTrustChains entityId trustChains)
        pure trustChains
  return trustChains.head?.map (·.metadata)

/-- A party that has the keys of the trust anchor. -/
def trustsTa : FederationState (AssocJar Nat) Nat where
  keyjar := ⟨[("https://ta.org", [1])]⟩

end Fedservice.Entity
