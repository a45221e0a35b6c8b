/-
  Fedservice.Entity.TrustMarkVerifier

  `TrustMarkVerifier` (entity/function/trust_mark_verifier.py): whether a trust mark was
  issued by somebody in the federation.  A mark may carry a delegation, with which the
  owner of its identifier has put the issuer in charge.
-/

import Fedservice.Entity.Function.Federation
import Fedservice.Entity.Trawl
import Fedservice.Entity.VerifiedTrustChains

namespace Fedservice.Entity

open Fedservice.Lib Fedservice.Py Fedservice.EntityStatement Fedservice.Crypto
  Fedservice.Entity.Function

variable {Jar Key : Type}

/-! ## The verifier and what it uses -/

/-- The verifier and what it uses of libraries: `TrustMark.verify` at a time, and how keys are
    taken from a JWKS. -/
structure TrustMarkEnv (Key : Type) where
  collector : CollectorEnv Key
  ho : HashOrder := .insertion
  messageRejects : Int → TrustMark Key → Option Exc := fun _ _ => none
  importJwks : Json → Except Exc (List Key)

/-- `trust_mark[claim]`. -/
def claimItem {α : Type} (claim : String) : Option α → Except Exc α
  | some value => .ok value
  | none => .error (.keyError claim)

/-- `value[key]`, for a JSON value. -/
def jsonItem (value : Json) (key : String) : Except Exc Json :=
  match asDict value with
  | some d => item d key
  | none => .error .typeError

variable [KeyStore Jar Key] [DecidableEq Key] (env : TrustMarkEnv Key)

/-! ## verify_delegation -/

/-- `TrustChainCollector.get_metadata`. -/
def collectorMetadata (entityId : EntityId) :
    EStateM Exc (FederationState Jar Key) (Dict Metadata) :=
  untraced (getMetadata env.collector entityId)

omit [KeyStore Jar Key] in
/-- What the trust anchor's metadata say about the delegation of a trust mark ID. -/
def checkDelegation (metadata : Metadata) (id : String) (delegation : Option (Delegation Key)) :
    Except Exc Bool := do
  if !(← Json.isIn (.str id) (← item metadata "trust_mark_issuers")) then return false
  else if !(← Json.isIn (.str id) (← item metadata "trust_mark_owners")) then return false
  else do
    let tmOwnerInfo ← jsonItem (← item metadata "trust_mark_owners") id
    let jwks ← jsonItem tmOwnerInfo "jwks"
    let owner ← jsonItem tmOwnerInfo "sub"
    let keys ← env.importJwks jwks
    match delegation with
    | none => throw (.attributeError "jwt")
    | some jws =>
        -- the keys are held for the owner, and for nobody else
        if jws.iss.map Json.str = some owner ∧ jws.signer ∈ keys then return true
        else throw .badSignature

/-- `verify_delegation`: `False` for the `None` of a trust mark ID that is not listed. -/
def verifyDelegation (trustMark : TrustMark Key) (delegation : Option (Delegation Key))
    (trustAnchorId : EntityId) : EStateM Exc (FederationState Jar Key) Bool := do
  let metadata ← collectorMetadata env trustAnchorId
  let taFeMetadata ← lift (item metadata "federation_entity")
  let id ← lift (claimItem "id" trustMark.id)
  lift (checkDelegation env taFeMetadata id delegation)

/-! ## TrustMarkVerifier -/

omit [KeyStore Jar Key] [DecidableEq Key] in
/-- `_trust_mark.verify()`. -/
def verifyMessage (trustMark : TrustMark Key) : EStateM Exc (FederationState Jar Key) Unit := do
  let now ← inCollector (utcTimeSansFrac env.collector)
  match env.messageRejects now trustMark with
  | some e => throw e
  | none => return ()

omit [KeyStore Jar Key] [DecidableEq Key] in
/-- `statement_is_expired(_trust_mark)`. -/
def markIsExpired (trustMark : TrustMark Key) : EStateM Exc (FederationState Jar Key) Bool := do
  let now ← inCollector (utcTimeSansFrac env.collector)
  return trustMark.exp.any (fun exp => decide (exp < now))

/-- A delegation is verified, but what comes of that is only logged. -/
def dealWithDelegation (trustMark : TrustMark Key) (trustAnchor : EntityId) :
    EStateM Exc (FederationState Jar Key) Unit :=
  match trustMark.delegation with
  | none => pure ()
  | some delegation => do
      -- a `False` or `None` is logged as a warning, and the verification goes on
      let _ ← verifyDelegation env trustMark delegation trustAnchor

/-- The keys to verify the mark with: those in the key jar, or those that the leaf of the
    first trust chain lists. -/
def verificationKeys (iss : EntityId) (trustChains : List (TrustChain Key)) :
    EStateM Exc (FederationState Jar Key) (List Key) := do
  let fe ← get
  -- these may be keys that no chain to the trust anchor attests
  if !(keysOf fe.keyjar iss).isEmpty then return keysOf fe.keyjar iss
  else do
    let trustChains ← lift (applyPolicies env.ho trustChains)
    match trustChains.head?.bind (·.verifiedChain.getLast?),
        trustChains.head?.bind (·.issPath.head?) with
    | some leaf, some leafId => do
        let jwks ← lift (claimItem "jwks" leaf.jwks)
        let keyjar := KeyStore.addKb fe.keyjar leafId jwks
        set { fe with keyjar := keyjar }
        return keysOf keyjar iss
    | _, _ => throw .indexError

/-- `TrustMarkVerifier.__call__`, of a token that is a JWS or not. -/
def TrustMarkVerifier.call (trustMark : Option (SignedTrustMark Key)) (trustAnchor : EntityId) :
    EStateM Exc (FederationState Jar Key) (Option (TrustMark Key)) :=
  match trustMark with
  | none => throw (.attributeError "jwt")
  | some jws => do
      -- verify that everything that should be there, are there
      verifyMessage env jws.payload
      if ← markIsExpired env jws.payload then return none
      else do
        dealWithDelegation env jws.payload trustAnchor
        let iss ← lift (claimItem "iss" jws.payload.iss)
        let trustChains ← getVerifiedTrustChains env.ho env.collector iss
        if trustChains.isEmpty then return none
        else if trustAnchor ∉ trustChains.map (·.anchor) then return none
        else do
          let keys ← verificationKeys env iss trustChains
          return if jws.signer ∈ keys then some jws.payload else none

/-! ## What an accepted trust mark should be checked for -/

section Claims

omit [KeyStore Jar Key] in
/-- The delegation verifies with the keys that the anchor's metadata list for the owner of
    the trust mark ID, and the ID is listed in both places. -/
def DelegationVerifies (metadata : Metadata) (id : String) (delegation : Option (Delegation Key)) :
    Prop :=
  ∃ issuers owners tmOwnerInfo jwks owner keys jws,
    metadata.lookup "trust_mark_issuers" = some issuers ∧
    metadata.lookup "trust_mark_owners" = some owners ∧
    Json.isIn (.str id) issuers = .ok true ∧ Json.isIn (.str id) owners = .ok true ∧
    jsonItem owners id = .ok tmOwnerInfo ∧ jsonItem tmOwnerInfo "jwks" = .ok jwks ∧
    jsonItem tmOwnerInfo "sub" = .ok owner ∧ env.importJwks jwks = .ok keys ∧
    delegation = some jws ∧ jws.iss.map Json.str = some owner ∧ jws.signer ∈ keys

/-- The mark carries no delegation, or the one it carries verifies with the metadata of the
    anchor. -/
def DelegationChecked (trustMark : TrustMark Key) (trustAnchor : EntityId)
    (fe fe' : FederationState Jar Key) : Prop :=
  (trustMark.delegation = none ∧ fe' = fe) ∨
    ∃ delegation metadata taFeMetadata id, trustMark.delegation = some delegation ∧
      collectorMetadata env trustAnchor fe = .ok metadata fe' ∧
      metadata.lookup "federation_entity" = some taFeMetadata ∧ trustMark.id = some id ∧
      DelegationVerifies env taFeMetadata id delegation

omit [KeyStore Jar Key] [DecidableEq Key] in
/-- A trust chain to the anchor, one of whose statements lists a key for the issuer. -/
def ChainAttests (trustChains : List (TrustChain Key)) (trustAnchor iss : EntityId) (k : Key) :
    Prop :=
  ∃ trustChain ∈ trustChains, trustChain.anchor = trustAnchor ∧
    ∃ s ∈ trustChain.verifiedChain, s.sub = iss ∧ k ∈ s.keys

/-- The mark has not expired, a delegation verifies, and a verified trust chain of the issuer
    to the anchor attests the key that it is signed with. -/
def FullyChecked (jws : SignedTrustMark Key) (trustAnchor : EntityId)
    (fe : FederationState Jar Key) : Prop :=
  ∃ fe₁ fe₂ fe₃ iss trustChains,
    markIsExpired env jws.payload (finalState (verifyMessage env jws.payload fe)) =
      .ok false fe₁ ∧
    DelegationChecked env jws.payload trustAnchor fe₁ fe₂ ∧ jws.payload.iss = some iss ∧
    getVerifiedTrustChains env.ho env.collector iss fe₂ = .ok trustChains fe₃ ∧
    ChainAttests trustChains trustAnchor iss jws.signer

/-- What is not fully checked is answered with `None`. -/
def ReturnsOnlyChecked (trustMark : Option (SignedTrustMark Key)) (trustAnchor : EntityId)
    (fe : FederationState Jar Key) : Prop :=
  outcome (TrustMarkVerifier.call env trustMark trustAnchor fe) = .ok none ∨
    ∃ jws, trustMark = some jws ∧ FullyChecked env jws trustAnchor fe

end Claims

variable {env}

theorem claimItem_eq_ok {α : Type} {claim : String} {found : Option α} {value : α} :
    claimItem claim found = .ok value ↔ found = some value := by
  cases found <;> simp [claimItem]

omit [KeyStore Jar Key] in
/-- The check of a delegation gives `True` exactly if it verifies. -/
theorem checkDelegation_eq_ok {metadata : Metadata} {id : String}
    {delegation : Option (Delegation Key)} :
    checkDelegation env metadata id delegation = .ok true ↔
      DelegationVerifies env metadata id delegation := by
  constructor
  · intro h
    obtain ⟨issuers, hissuers, h⟩ := except_bind_eq_ok.mp h
    obtain ⟨inIssuers, hinIssuers, h⟩ := except_bind_eq_ok.mp h
    cases inIssuers with
    | false => simp at h
    | true =>
    obtain ⟨owners, howners, h⟩ := except_bind_eq_ok.mp h
    obtain ⟨inOwners, hinOwners, h⟩ := except_bind_eq_ok.mp h
    cases inOwners with
    | false => simp at h
    | true =>
    -- the owners are looked up a second time
    obtain ⟨owners', howners', h⟩ := except_bind_eq_ok.mp h
    obtain rfl := Except.ok.inj (howners.symm.trans howners')
    obtain ⟨tmOwnerInfo, hinfo, h⟩ := except_bind_eq_ok.mp h
    obtain ⟨jwks, hjwks, h⟩ := except_bind_eq_ok.mp h
    obtain ⟨owner, howner, h⟩ := except_bind_eq_ok.mp h
    obtain ⟨keys, hkeys, h⟩ := except_bind_eq_ok.mp h
    cases delegation with
    | none => simp at h
    | some jws =>
        simp only at h
        split_ifs at h with hsigned
        exact ⟨issuers, owners, tmOwnerInfo, jwks, owner, keys, jws, item_eq_ok.mp hissuers,
          item_eq_ok.mp howners, hinIssuers, hinOwners, hinfo, hjwks, howner, hkeys, rfl,
          hsigned.1, hsigned.2⟩
  · rintro ⟨issuers, owners, tmOwnerInfo, jwks, owner, keys, jws, hissuers, howners, hinIssuers,
      hinOwners, hinfo, hjwks, howner, hkeys, rfl, hiss, hsigner⟩
    rw [checkDelegation, item_eq_ok.mpr hissuers, item_eq_ok.mpr howners, except_ok_bind,
      hinIssuers, except_ok_bind, except_ok_bind, hinOwners, except_ok_bind, except_ok_bind,
      hinfo, except_ok_bind, hjwks, except_ok_bind, howner, except_ok_bind, hkeys,
      except_ok_bind]
    show (if jws.iss.map Json.str = some owner ∧ jws.signer ∈ keys then _ else _) = _
    rw [if_pos ⟨hiss, hsigner⟩]
    rfl

end Fedservice.Entity
