/-
  Fedservice.Entity.CheckedTrustMarks

  When the verifier of trust marks returns only what is fully checked, told from the
  mark, the keys that are held and what is found for its issuer and its trust anchor.
-/

import Fedservice.Entity.FreshnessTests
import Fedservice.Entity.StandingChains
import Fedservice.Entity.TrustMarkVerifier

namespace Fedservice.Entity

open Fedservice.Lib Fedservice.Py Fedservice.EntityStatement Fedservice.Crypto
  Fedservice.Entity.Function

variable {Jar Key : Type} [KeyStore Jar Key] [DecidableEq Key]

/-! ## What a verification goes by -/

/-- What there is when a mark is verified: two readings of the clock, the metadata of the
    trust anchor, the statements that are found for an entity, and the keys that these are
    verified with. -/
structure MarkSetting (Jar Key : Type) where
  verifiedAt : Int
  expiryAt : Int
  anchorMetadata : Except Exc (Dict Metadata)
  found : EntityId → Except Exc (List (List (Token Key)) × Option (SelfSigned Key))
  keyjar : Jar

section Condition

variable (env : TrustMarkEnv Key)

omit [KeyStore Jar Key] [DecidableEq Key] in
/-- The clock has been read twice. -/
def clockRead (fe : FederationState Jar Key) : FederationState Jar Key :=
  { fe with collector := { fe.collector with asked := fe.collector.asked + 2 } }

/-- The metadata of the trust anchor have been looked up, where there is a delegation. -/
def anchorLookedUp (trustMark : TrustMark Key) (trustAnchor : EntityId)
    (fe : FederationState Jar Key) : FederationState Jar Key :=
  match trustMark.delegation with
  | none => clockRead fe
  | some _ => finalState (collectorMetadata env trustAnchor (clockRead fe))

/-- The setting of a call. -/
def markSetting (trustMark : TrustMark Key) (trustAnchor : EntityId)
    (fe : FederationState Jar Key) : MarkSetting Jar Key where
  verifiedAt := env.collector.now fe.collector.asked
  expiryAt := env.collector.now (fe.collector.asked + 1)
  anchorMetadata := outcome (collectorMetadata env trustAnchor (clockRead fe))
  found iss := foundFor env.collector iss (anchorLookedUp env trustMark trustAnchor fe).collector
  keyjar := (anchorLookedUp env trustMark trustAnchor fe).keyjar

/-! ## What should be looked at -/

omit [KeyStore Jar Key] [DecidableEq Key] in
/-- The mark has expired. -/
def ExpiredAt (now : Int) (trustMark : TrustMark Key) : Prop := ∃ exp ∈ trustMark.exp, exp < now

omit [KeyStore Jar Key] [DecidableEq Key] in
/-- A delegation, if there is one, is as wanted given the anchor's metadata and the ID. -/
def DelegationMeets (trustMark : TrustMark Key) (anchorMetadata : Except Exc (Dict Metadata))
    (Want : Metadata → String → Option (Delegation Key) → Prop) : Prop :=
  ∀ delegation ∈ trustMark.delegation, ∃ metadata taFeMetadata id,
    anchorMetadata = .ok metadata ∧ metadata.lookup "federation_entity" = some taFeMetadata ∧
      trustMark.id = some id ∧ Want taFeMetadata id delegation

/-- One of the lists that stand starts with a statement of the anchor. -/
def LeadsTo (chains : List (List (Token Key))) (leafEc : Option (SelfSigned Key)) (jar : Jar)
    (trustAnchor : EntityId) : Prop :=
  ∃ ts, StandsAmong (leafTokens leafEc) chains jar ts ∧
    (payloads ts).head?.map (·.iss) = some trustAnchor

/-- One of these lists a key for the issuer. -/
def AttestedAmong (chains : List (List (Token Key))) (leafEc : Option (SelfSigned Key)) (jar : Jar)
    (trustAnchor iss : EntityId) (k : Key) : Prop :=
  ∃ ts, StandsAmong (leafTokens leafEc) chains jar ts ∧
    (payloads ts).head?.map (·.iss) = some trustAnchor ∧
      ∃ s ∈ payloads ts, s.sub = iss ∧ k ∈ s.keys

omit [KeyStore Jar Key] [DecidableEq Key] in
/-- The policies go through on a list, and on what they have made of it. -/
def PoliciesTwice (ho : HashOrder) (ts : List (Token Key)) : Prop :=
  ∃ once twice, TrustChainPolicy.call ho "" (trustChainOf ts) = .ok () once ∧
    TrustChainPolicy.call ho "" once = .ok () twice

/-- The key that a mark is signed with.  If keys are held for the issuer or listed by what is
    found, it is none of them unless a chain to the anchor lists it and the delegation
    verifies.  If there are none, the policies go through once more, and it is not among the
    keys that the entity configuration lists, if that is one of the issuer. -/
structure KeysAttested (chains : List (List (Token Key))) (leafEc : Option (SelfSigned Key))
    (jar : Jar) (trustAnchor iss : EntityId) (delegated : Prop) (k : Key) : Prop where
  known : k ∈ keysOf jar iss ∨ ListedAmong (leafTokens leafEc) chains jar iss k →
    delegated ∧ AttestedAmong chains leafEc jar trustAnchor iss k
  unknown : (∀ k', ¬ (k' ∈ keysOf jar iss ∨ ListedAmong (leafTokens leafEc) chains jar iss k')) →
    (∀ ts, StandsAmong (leafTokens leafEc) chains jar ts → PoliciesTwice env.ho ts) ∧
      ∀ config ∈ leafEc, config.payload.iss = iss → k ∉ config.payload.keys

/-- The verification of a mark raises nothing, and where it gets to the end what it does not
    look at is as it should be. -/
def NothingOverlooked (jws : SignedTrustMark Key) (trustAnchor : EntityId)
    (setting : MarkSetting Jar Key) : Prop :=
  env.messageRejects setting.verifiedAt jws.payload = none ∧
    (¬ ExpiredAt setting.expiryAt jws.payload →
      DelegationMeets jws.payload setting.anchorMetadata (fun metadata id delegation =>
        ∃ verdict, checkDelegation env metadata id delegation = .ok verdict) ∧
      ∃ iss chains leafEc, jws.payload.iss = some iss ∧ setting.found iss = .ok (chains, leafEc) ∧
        AllGoThrough env.ho (leafTokens leafEc) chains setting.keyjar ∧
        (LeadsTo chains leafEc setting.keyjar trustAnchor →
          KeysAttested env chains leafEc setting.keyjar trustAnchor iss
            (DelegationMeets jws.payload setting.anchorMetadata (DelegationVerifies env))
            jws.signer))

/-- A mark is in order: it has not expired, its delegation verifies, and a chain of its issuer
    to the anchor lists the key that it is signed with. -/
def InOrder (jws : SignedTrustMark Key) (trustAnchor : EntityId)
    (setting : MarkSetting Jar Key) : Prop :=
  ¬ ExpiredAt setting.expiryAt jws.payload ∧
    DelegationMeets jws.payload setting.anchorMetadata (DelegationVerifies env) ∧
    ∃ iss chains leafEc, jws.payload.iss = some iss ∧ setting.found iss = .ok (chains, leafEc) ∧
      AllGoThrough env.ho (leafTokens leafEc) chains setting.keyjar ∧
      AttestedAmong chains leafEc setting.keyjar trustAnchor iss jws.signer

/-- Nothing is overlooked, or `TrustMark.verify` raises on a mark that is in order. -/
def ChecksSuffice (jws : SignedTrustMark Key) (trustAnchor : EntityId)
    (setting : MarkSetting Jar Key) : Prop :=
  NothingOverlooked env jws trustAnchor setting ∨
    (∃ e, env.messageRejects setting.verifiedAt jws.payload = some e) ∧
      InOrder env jws trustAnchor setting

end Condition

variable {env : TrustMarkEnv Key}

/-! ## The steps of the verification -/

omit [KeyStore Jar Key] [DecidableEq Key] in
theorem verifyMessage_apply (trustMark : TrustMark Key) (fe : FederationState Jar Key) :
    verifyMessage env trustMark fe =
      match env.messageRejects (env.collector.now fe.collector.asked) trustMark with
      | some e => .error e
          { fe with collector := { fe.collector with asked := fe.collector.asked + 1 } }
      | none => .ok ()
          { fe with collector := { fe.collector with asked := fe.collector.asked + 1 } } := by
  have hclock : inCollector (utcTimeSansFrac env.collector) fe =
      .ok (env.collector.now fe.collector.asked)
        { fe with collector := { fe.collector with asked := fe.collector.asked + 1 } } := rfl
  rw [verifyMessage, bind_of_ok hclock]
  cases env.messageRejects (env.collector.now fe.collector.asked) trustMark <;> rfl

omit [KeyStore Jar Key] [DecidableEq Key] in
/-- Whether the mark has expired is asked right after its message has been verified. -/
theorem markIsExpired_apply (trustMark : TrustMark Key) (fe : FederationState Jar Key) :
    markIsExpired env trustMark (finalState (verifyMessage env trustMark fe)) =
      .ok (trustMark.exp.any fun exp => decide (exp < env.collector.now (fe.collector.asked + 1)))
        (clockRead fe) := by
  rw [verifyMessage_apply]
  cases env.messageRejects (env.collector.now fe.collector.asked) trustMark <;> rfl

omit [KeyStore Jar Key] [DecidableEq Key] in
theorem expiredAt_iff {now : Int} {trustMark : TrustMark Key} :
    ExpiredAt now trustMark ↔ (trustMark.exp.any fun exp => decide (exp < now)) = true := by
  cases hexp : trustMark.exp <;> simp [ExpiredAt, hexp]

omit [KeyStore Jar Key] [DecidableEq Key] in
/-- The message library accepts the mark, -/
theorem verifyMessage_of_accepted {trustMark : TrustMark Key} {fe : FederationState Jar Key}
    (h : env.messageRejects (env.collector.now fe.collector.asked) trustMark = none) :
    verifyMessage env trustMark fe = .ok () (finalState (verifyMessage env trustMark fe)) := by
  rw [verifyMessage_apply, h]
  rfl

omit [KeyStore Jar Key] [DecidableEq Key] in
/-- which has not expired then. -/
theorem markIsExpired_of_fresh {trustMark : TrustMark Key} {fe : FederationState Jar Key}
    (h : ¬ ExpiredAt (env.collector.now (fe.collector.asked + 1)) trustMark) :
    markIsExpired env trustMark (finalState (verifyMessage env trustMark fe)) =
      .ok false (clockRead fe) := by
  rw [expiredAt_iff, Bool.not_eq_true] at h
  rw [markIsExpired_apply, h]

/-- A mark that has expired is answered with `None` at once. -/
theorem outcome_of_expired {jws : SignedTrustMark Key} {trustAnchor : EntityId}
    {fe : FederationState Jar Key}
    (hmessage : env.messageRejects (env.collector.now fe.collector.asked) jws.payload = none)
    (hexpired : ExpiredAt (env.collector.now (fe.collector.asked + 1)) jws.payload) :
    outcome (TrustMarkVerifier.call env (some jws) trustAnchor fe) = .ok none := by
  have hexp : markIsExpired env jws.payload (finalState (verifyMessage env jws.payload fe)) =
      .ok true (clockRead fe) := by
    rw [markIsExpired_apply, expiredAt_iff.mp hexpired]
  rw [TrustMarkVerifier.call, bind_of_ok (verifyMessage_of_accepted hmessage), bind_of_ok hexp]
  rfl

/-- A delegation is checked with the metadata of the anchor, and nothing else changes. -/
theorem verifyDelegation_eq_ok {trustMark : TrustMark Key} {delegation : Option (Delegation Key)}
    {trustAnchor : EntityId} {verdict : Bool} {fe fe' : FederationState Jar Key} :
    verifyDelegation env trustMark delegation trustAnchor fe = .ok verdict fe' ↔
      ∃ metadata taFeMetadata id, collectorMetadata env trustAnchor fe = .ok metadata fe' ∧
        metadata.lookup "federation_entity" = some taFeMetadata ∧ trustMark.id = some id ∧
        checkDelegation env taFeMetadata id delegation = .ok verdict := by
  constructor
  · intro h
    obtain ⟨metadata, fe₁, hget, hrest⟩ := bind_eq_ok.mp h
    obtain ⟨taFeMetadata, fe₂, hfe, hrest'⟩ := bind_eq_ok.mp hrest
    obtain ⟨hitem, rfl⟩ := lift_eq_ok.mp hfe
    obtain ⟨id, fe₃, hid, hlast⟩ := bind_eq_ok.mp hrest'
    obtain ⟨hclaim, rfl⟩ := lift_eq_ok.mp hid
    obtain ⟨hcheck, rfl⟩ := lift_eq_ok.mp hlast
    exact ⟨metadata, taFeMetadata, id, hget, item_eq_ok.mp hitem, claimItem_eq_ok.mp hclaim, hcheck⟩
  · rintro ⟨metadata, taFeMetadata, id, hget, hfe, hid, hcheck⟩
    rw [verifyDelegation, bind_of_ok hget, item_eq_ok.mpr hfe, bind_of_ok (lift_ok _ fe'), hid]
    show lift (checkDelegation env taFeMetadata id delegation) fe' = .ok verdict fe'
    rw [hcheck]
    rfl

/-- When a delegation is dealt with, and the state that this leaves. -/
theorem dealWithDelegation_eq_ok {trustMark : TrustMark Key} {trustAnchor : EntityId}
    {fe fe' : FederationState Jar Key} :
    dealWithDelegation env trustMark trustAnchor (clockRead fe) = .ok () fe' ↔
      fe' = anchorLookedUp env trustMark trustAnchor fe ∧
        DelegationMeets trustMark (markSetting env trustMark trustAnchor fe).anchorMetadata
          (fun metadata id delegation =>
            ∃ verdict, checkDelegation env metadata id delegation = .ok verdict) := by
  unfold dealWithDelegation anchorLookedUp DelegationMeets markSetting
  cases trustMark.delegation with
  | none => simp [eq_comm]
  | some delegation =>
      simp only [Option.mem_def, Option.some.injEq, forall_eq']
      constructor
      · intro h
        obtain ⟨verdict, fe₁, hverify, h⟩ := bind_eq_ok.mp h
        obtain ⟨-, rfl⟩ := EStateM.Result.ok.inj h
        obtain ⟨metadata, taFeMetadata, id, hget, hfe, hid, hcheck⟩ :=
          verifyDelegation_eq_ok.mp hverify
        rw [hget]
        exact ⟨rfl, metadata, taFeMetadata, id, rfl, hfe, hid, verdict, hcheck⟩
      · rintro ⟨rfl, metadata, taFeMetadata, id, hmetadata, hfe, hid, verdict, hcheck⟩
        obtain ⟨fe₁, hget⟩ := outcome_eq_ok.mp hmetadata
        rw [hget, finalState_ok]
        exact bind_of_ok (verifyDelegation_eq_ok.mpr
          ⟨metadata, taFeMetadata, id, hget, hfe, hid, hcheck⟩)

/-- Whether a delegation verifies, told from the metadata of the anchor. -/
theorem delegationChecked_iff {trustMark : TrustMark Key} {trustAnchor : EntityId}
    {fe fe' : FederationState Jar Key} :
    DelegationChecked env trustMark trustAnchor (clockRead fe) fe' ↔
      fe' = anchorLookedUp env trustMark trustAnchor fe ∧
        DelegationMeets trustMark (markSetting env trustMark trustAnchor fe).anchorMetadata
          (DelegationVerifies env) := by
  unfold DelegationChecked anchorLookedUp DelegationMeets markSetting
  cases trustMark.delegation with
  | none => simp
  | some delegation =>
      simp only [reduceCtorEq, false_and, false_or, Option.some.injEq, Option.mem_def, forall_eq']
      constructor
      · rintro ⟨delegation', metadata, taFeMetadata, id, rfl, hget, hfe, hid, hverifies⟩
        rw [hget]
        exact ⟨rfl, metadata, taFeMetadata, id, rfl, hfe, hid, hverifies⟩
      · rintro ⟨rfl, metadata, taFeMetadata, id, hmetadata, hfe, hid, hverifies⟩
        obtain ⟨fe₁, hget⟩ := outcome_eq_ok.mp hmetadata
        rw [hget]
        exact ⟨delegation, metadata, taFeMetadata, id, rfl, rfl, hfe, hid, hverifies⟩

/-! ## The trust chains of the issuer -/

section Chains

variable {iss trustAnchor : EntityId} {trustChains : List (TrustChain Key)}
  {fe fe' : FederationState Jar Key} {chains : List (List (Token Key))}
  {leafEc : Option (SelfSigned Key)}

omit [KeyStore Jar Key] [DecidableEq Key] in
theorem anchor_trustChainOf {ts : List (Token Key)} (hne : payloads ts ≠ []) :
    (trustChainOf ts).anchor = trustAnchor ↔
      (payloads ts).head?.map (·.iss) = some trustAnchor := by
  obtain ⟨first, rest, hfirst⟩ := List.exists_cons_of_ne_nil hne
  simp [trustChainOf, hfirst]

/-- Whether one ends in the anchor. -/
theorem leadsTo_iff
    (h : getVerifiedTrustChains env.ho env.collector iss fe = .ok trustChains fe')
    (hfound : foundFor env.collector iss fe.collector = .ok (chains, leafEc)) :
    trustAnchor ∈ trustChains.map (·.anchor) ↔ LeadsTo chains leafEc fe.keyjar trustAnchor := by
  rw [List.mem_map, LeadsTo]
  refine (of_getVerifiedTrustChains h hfound).2 fun ts tc hne hcall => ?_
  rw [(processed_of_call rfl hcall).evidence.anchor, anchor_trustChainOf hne]

/-- Whether one that ends in the anchor lists a key for the issuer. -/
theorem chainAttests_iff {k : Key}
    (h : getVerifiedTrustChains env.ho env.collector iss fe = .ok trustChains fe')
    (hfound : foundFor env.collector iss fe.collector = .ok (chains, leafEc)) :
    ChainAttests trustChains trustAnchor iss k ↔
      AttestedAmong chains leafEc fe.keyjar trustAnchor iss k := by
  refine (of_getVerifiedTrustChains h hfound).2 fun ts tc hne hcall => ?_
  rw [(processed_of_call rfl hcall).evidence.anchor, anchor_trustChainOf hne]
  -- the policies leave alone who a statement is about, and the keys it lists
  have hlisted : tc.verifiedChain.map (fun s => (s.sub, s.keys)) =
      (payloads ts).map (fun s => (s.sub, s.keys)) := listedKeys_of_call hcall
  have hmem : ∀ stmts : List (Statement Key), (∃ s ∈ stmts, s.sub = iss ∧ k ∈ s.keys) ↔
      ∃ p ∈ stmts.map (fun s => (s.sub, s.keys)), p.1 = iss ∧ k ∈ p.2 := by
    simp
  rw [hmem, hlisted, ← hmem]

/-- The keys that are held for the issuer afterwards. -/
theorem mem_keysOf_iff {k : Key}
    (h : getVerifiedTrustChains env.ho env.collector iss fe = .ok trustChains fe')
    (hfound : foundFor env.collector iss fe.collector = .ok (chains, leafEc))
    (hall : AllGoThrough env.ho (leafTokens leafEc) chains fe.keyjar) :
    k ∈ keysOf fe'.keyjar iss ↔
      k ∈ keysOf fe.keyjar iss ∨ ListedAmong (leafTokens leafEc) chains fe.keyjar iss k := by
  rw [(of_getVerifiedTrustChains h hfound).1, mem_keysOf_keyjarAfter hall]

omit [DecidableEq Key] in
/-- Where keys are held for the issuer they are the ones to verify with. -/
theorem verificationKeys_of_mem {k : Key} (h : k ∈ keysOf fe.keyjar iss) :
    verificationKeys env iss trustChains fe = .ok (keysOf fe.keyjar iss) fe := by
  have hne : (keysOf fe.keyjar iss).isEmpty = false := by
    rw [List.isEmpty_eq_false_iff]
    exact List.ne_nil_of_mem h
  rw [verificationKeys, bind_of_ok (get_apply fe), hne]
  rfl

omit [KeyStore Jar Key] [DecidableEq Key] in
/-- The end of a trust chain: who has made the last statement, and the keys it lists. -/
def endOf (tc : TrustChain Key) : Option (Option (List Key)) × Option EntityId :=
  (tc.verifiedChain.getLast?.map (·.jwks), tc.issPath.head?)

omit [KeyStore Jar Key] [DecidableEq Key] in
theorem endOf_of_call {tc₀ tc : TrustChain Key} (h : TrustChainPolicy.call env.ho "" tc₀ = .ok () tc) :
    endOf tc = endOf tc₀ := by
  have hjwks : tc.verifiedChain.map (·.jwks) = tc₀.verifiedChain.map (·.jwks) :=
    map_verifiedChain_of_call (fun _ _ => rfl) h
  rw [endOf, endOf, ← List.getLast?_map, ← List.getLast?_map, hjwks, issPath_of_call h]

omit [KeyStore Jar Key] [DecidableEq Key] in
theorem endOf_trustChainOf {c : List (Token Key)} {config : SelfSigned Key} :
    endOf (trustChainOf (c ++ [.jws config.jws])) =
      (some config.payload.jwks, some config.payload.iss) := by
  simp [endOf, trustChainOf, payloads, SelfSigned.payload]

omit [DecidableEq Key] in
/-- Otherwise it is what the leaf of the first chain lists, once the policies have gone
    through again. -/
theorem verificationKeys_of_applied {config : SelfSigned Key} {applied : List (TrustChain Key)}
    (hnone : keysOf fe.keyjar iss = []) (hne : trustChains ≠ [])
    (hend : ∀ tc ∈ trustChains, endOf tc = (some config.payload.jwks, some config.payload.iss))
    (happlied : applyPolicies env.ho trustChains = .ok applied) :
    verificationKeys env iss trustChains fe =
      .ok (keysOf (KeyStore.addKb fe.keyjar config.payload.iss config.payload.keys) iss)
        { fe with keyjar :=
            KeyStore.addKb fe.keyjar config.payload.iss config.payload.keys } := by
  obtain ⟨first, rest, rfl⟩ := List.exists_cons_of_ne_nil hne
  -- the first chain, processed again, ends with the same configuration
  rw [applyPolicies] at happlied
  cases hcall : TrustChainPolicy.call env.ho "" first with
  | error e again => simp [hcall] at happlied
  | ok u again =>
      simp only [hcall] at happlied
      obtain ⟨others, hothers, hpure⟩ := except_bind_eq_ok.mp happlied
      obtain rfl := except_pure_eq_ok.mp hpure
      have hlast : endOf again = (some config.payload.jwks, some config.payload.iss) := by
        rw [endOf_of_call hcall, hend first (List.mem_cons_self ..)]
      obtain ⟨hjwks, hpath⟩ := Prod.mk.inj hlast
      obtain ⟨leaf, hleaf, hlisted⟩ := Option.map_eq_some_iff.mp hjwks
      obtain ⟨jwks, hkeys⟩ : ∃ jwks, config.payload.jwks = some jwks := by
        refine Option.ne_none_iff_exists'.mp fun hmissing => ?_
        have hown : config.jws.signer ∈ config.payload.keys := config.own
        rw [Statement.keys, hmissing] at hown
        exact absurd hown (by simp)
      have hget : config.payload.keys = jwks := by rw [Statement.keys, hkeys]; rfl
      rw [hkeys] at hlisted
      have happly : applyPolicies env.ho (first :: rest) = .ok (again :: others) := by
        rw [applyPolicies, hcall]
        show (applyPolicies env.ho rest >>= fun rest => pure (again :: rest)) = _
        rw [hothers]
        rfl
      rw [verificationKeys, bind_of_ok (get_apply fe), hnone, happly, hget]
      simp only [List.isEmpty_nil, Bool.not_true, Bool.false_eq_true, if_false]
      rw [bind_of_ok (lift_ok _ fe)]
      simp only [List.head?_cons, Option.bind_some, hleaf, hpath]
      rw [hlisted]
      rfl

omit [DecidableEq Key] in
/-- So there is something to verify with exactly if the policies go through again, and what
    the leaf lists counts if it is the issuer that says so. -/
theorem verificationKeys_of_none {config : SelfSigned Key} {k : Key}
    (hnone : keysOf fe.keyjar iss = []) (hne : trustChains ≠ [])
    (hend : ∀ tc ∈ trustChains, endOf tc = (some config.payload.jwks, some config.payload.iss)) :
    (∃ keys fe', verificationKeys env iss trustChains fe = .ok keys fe' ∧ k ∉ keys) ↔
      (∀ tc ∈ trustChains, ∃ twice, TrustChainPolicy.call env.ho "" tc = .ok () twice) ∧
        (config.payload.iss = iss → k ∉ config.payload.keys) := by
  have hmem : k ∈ keysOf (KeyStore.addKb fe.keyjar config.payload.iss config.payload.keys) iss ↔
      config.payload.iss = iss ∧ k ∈ config.payload.keys := by
    rw [mem_keysOf_addKb, hnone, eq_comm]
    simp
  rw [← exists_applyPolicies_iff, ← not_and, ← hmem]
  constructor
  · rintro ⟨keys, fe', hkeys, hnot⟩
    have happlied : ∃ applied, applyPolicies env.ho trustChains = .ok applied := by
      rw [verificationKeys, bind_of_ok (get_apply fe), hnone] at hkeys
      obtain ⟨applied, fe₁, hlift, -⟩ := bind_eq_ok.mp hkeys
      exact ⟨applied, (lift_eq_ok.mp hlift).1⟩
    obtain ⟨applied, happlied⟩ := happlied
    rw [verificationKeys_of_applied hnone hne hend happlied] at hkeys
    obtain ⟨rfl, -⟩ := EStateM.Result.ok.inj hkeys
    exact ⟨⟨applied, happlied⟩, hnot⟩
  · rintro ⟨⟨applied, happlied⟩, hnot⟩
    exact ⟨_, _, verificationKeys_of_applied hnone hne hend happlied, hnot⟩

/-- Whatever is found for the issuer comes with its entity configuration, which all the trust
    chains end with. -/
theorem endOf_of_getVerifiedTrustChains
    (h : getVerifiedTrustChains env.ho env.collector iss fe = .ok trustChains fe')
    (hfound : foundFor env.collector iss fe.collector = .ok (chains, leafEc)) :
    ∀ tc ∈ trustChains, ∃ config, leafEc = some config ∧
      endOf tc = (some config.payload.jwks, some config.payload.iss) := by
  intro tc htc
  have hconfig : ∃ config, leafEc = some config := by
    obtain ⟨c, hcollect⟩ := outcome_eq_ok.mp hfound
    rcases collectTrustChains_eq_ok hcollect with rfl | ⟨config, -, -, hconfig⟩
    · obtain ⟨ts, ⟨before, c', after, hsplit, -⟩, -⟩ := ((of_getVerifiedTrustChains h hfound).2
        (P := fun _ => True) (Q := fun _ => True) fun _ _ _ _ => Iff.rfl).mp ⟨tc, htc, trivial⟩
      exact absurd hsplit (by simp)
    · exact ⟨config, hconfig⟩
  obtain ⟨config, rfl⟩ := hconfig
  refine ⟨config, rfl, ?_⟩
  by_contra hend
  obtain ⟨ts, ⟨before, c, after, -, rfl, -⟩, hts⟩ := ((of_getVerifiedTrustChains h hfound).2
    (P := fun tc => ¬ endOf tc = (some config.payload.jwks, some config.payload.iss))
    (Q := fun ts => ¬ endOf (trustChainOf ts) = (some config.payload.jwks, some config.payload.iss))
    fun ts tc _ hcall => by rw [endOf_of_call hcall]).mp ⟨tc, htc, hend⟩
  exact hts endOf_trustChainOf

/-- Whether the policies go through again. -/
theorem policiesTwice_iff
    (h : getVerifiedTrustChains env.ho env.collector iss fe = .ok trustChains fe')
    (hfound : foundFor env.collector iss fe.collector = .ok (chains, leafEc)) :
    (∀ tc ∈ trustChains, ∃ twice, TrustChainPolicy.call env.ho "" tc = .ok () twice) ↔
      ∀ ts, StandsAmong (leafTokens leafEc) chains fe.keyjar ts → PoliciesTwice env.ho ts := by
  have hiff := (of_getVerifiedTrustChains h hfound).2
    (P := fun tc => ¬ ∃ twice, TrustChainPolicy.call env.ho "" tc = .ok () twice)
    (Q := fun ts => ¬ PoliciesTwice env.ho ts) fun ts tc _ hcall => by
      rw [not_iff_not, PoliciesTwice]
      constructor
      · rintro ⟨twice, htwice⟩
        exact ⟨tc, twice, hcall, htwice⟩
      · rintro ⟨once, twice, honce, htwice⟩
        obtain ⟨-, rfl⟩ := EStateM.Result.ok.inj (hcall.symm.trans honce)
        exact ⟨twice, htwice⟩
  rw [← not_iff_not]
  push Not at hiff ⊢
  exact hiff

/-- What there is to verify with, once a trust chain ends in the anchor: the key is none of
    those that are known, and where none is known the rest goes well. -/
theorem verificationKeys_iff {k : Key}
    (h : getVerifiedTrustChains env.ho env.collector iss fe = .ok trustChains fe')
    (hfound : foundFor env.collector iss fe.collector = .ok (chains, leafEc))
    (hall : AllGoThrough env.ho (leafTokens leafEc) chains fe.keyjar) (hne : trustChains ≠ []) :
    (∃ keys fe'', verificationKeys env iss trustChains fe' = .ok keys fe'' ∧ k ∉ keys) ↔
      ¬ (k ∈ keysOf fe.keyjar iss ∨ ListedAmong (leafTokens leafEc) chains fe.keyjar iss k) ∧
        ((∀ k', ¬ (k' ∈ keysOf fe.keyjar iss ∨
            ListedAmong (leafTokens leafEc) chains fe.keyjar iss k')) →
          (∀ ts, StandsAmong (leafTokens leafEc) chains fe.keyjar ts → PoliciesTwice env.ho ts) ∧
            ∀ config ∈ leafEc, config.payload.iss = iss → k ∉ config.payload.keys) := by
  simp only [← mem_keysOf_iff h hfound hall]
  by_cases hknown : ∃ k', k' ∈ keysOf fe'.keyjar iss
  · -- the keys that are held are those that count
    obtain ⟨k', hk'⟩ := hknown
    rw [verificationKeys_of_mem hk']
    constructor
    · rintro ⟨keys, fe'', hkeys, hnot⟩
      obtain ⟨rfl, -⟩ := EStateM.Result.ok.inj hkeys
      exact ⟨hnot, fun hnone => absurd hk' (hnone k')⟩
    · rintro ⟨hnot, -⟩
      exact ⟨_, _, rfl, hnot⟩
  · -- nothing to verify with but what is imported
    have hnone : keysOf fe'.keyjar iss = [] :=
      List.eq_nil_iff_forall_not_mem.mpr fun k' hk' => hknown ⟨k', hk'⟩
    obtain ⟨first, hfirst⟩ := List.exists_mem_of_ne_nil trustChains hne
    obtain ⟨config, rfl, -⟩ := endOf_of_getVerifiedTrustChains h hfound first hfirst
    have hend : ∀ tc ∈ trustChains,
        endOf tc = (some config.payload.jwks, some config.payload.iss) := by
      intro tc htc
      obtain ⟨config', heq, hend⟩ := endOf_of_getVerifiedTrustChains h hfound tc htc
      obtain rfl := Option.some.inj heq
      exact hend
    rw [verificationKeys_of_none hnone hne hend, policiesTwice_iff h hfound, hnone]
    simp

end Chains

/-! ## The verdict -/

section Verdict

variable {jws : SignedTrustMark Key} {trustAnchor : EntityId} {fe : FederationState Jar Key}

/-- When the verifier answers `None` on a mark that has not expired. -/
theorem call_eq_none_iff {fe₁ fe₂ : FederationState Jar Key}
    (hmessage : verifyMessage env jws.payload fe = .ok () fe₁)
    (hfresh : markIsExpired env jws.payload fe₁ = .ok false fe₂) :
    outcome (TrustMarkVerifier.call env (some jws) trustAnchor fe) = .ok none ↔
      ∃ fe₃ fe₄ iss trustChains,
        dealWithDelegation env jws.payload trustAnchor fe₂ = .ok () fe₃ ∧
        jws.payload.iss = some iss ∧
        getVerifiedTrustChains env.ho env.collector iss fe₃ = .ok trustChains fe₄ ∧
        (trustAnchor ∈ trustChains.map (·.anchor) →
          ∃ keys fe', verificationKeys env iss trustChains fe₄ = .ok keys fe' ∧
            jws.signer ∉ keys) := by
  rw [TrustMarkVerifier.call, bind_of_ok hmessage, bind_of_ok hfresh, outcome_eq_ok]
  simp only [Bool.false_eq_true, if_false]
  constructor
  · rintro ⟨fe', h⟩
    obtain ⟨⟨⟩, fe₃, hdealt, hrest⟩ := bind_eq_ok.mp h
    obtain ⟨iss, fe₃', hlift, hrest'⟩ := bind_eq_ok.mp hrest
    obtain ⟨hiss, rfl⟩ := lift_eq_ok.mp hlift
    obtain ⟨trustChains, fe₄, hchains, hend⟩ := bind_eq_ok.mp hrest'
    refine ⟨fe₃', fe₄, iss, trustChains, hdealt, claimItem_eq_ok.mp hiss, hchains, ?_⟩
    intro hanchor
    have hne : trustChains.isEmpty = false := by
      rw [List.isEmpty_eq_false_iff]
      rintro rfl
      exact absurd hanchor List.not_mem_nil
    rw [hne, if_neg Bool.false_ne_true, if_neg (not_not_intro hanchor)] at hend
    obtain ⟨keys, fe₅, hkeys, hreturn⟩ := bind_eq_ok.mp hend
    refine ⟨keys, fe₅, hkeys, fun hsigner => ?_⟩
    -- a mark that verifies is returned
    rw [if_pos hsigner] at hreturn
    exact absurd (EStateM.Result.ok.inj hreturn).1 (by simp)
  · rintro ⟨fe₃, fe₄, iss, trustChains, hdealt, hiss, hchains, hkeys⟩
    rw [bind_of_ok hdealt, claimItem_eq_ok.mpr hiss, bind_of_ok (lift_ok iss fe₃),
      bind_of_ok hchains]
    -- no chain, none to the anchor, or a signature that does not verify
    cases hempty : trustChains.isEmpty with
    | true => exact ⟨fe₄, rfl⟩
    | false =>
    by_cases hanchor : trustAnchor ∈ trustChains.map (·.anchor)
    · obtain ⟨keys, fe', hok, hsigner⟩ := hkeys hanchor
      refine ⟨fe', ?_⟩
      rw [if_neg Bool.false_ne_true, if_neg (not_not_intro hanchor), bind_of_ok hok,
        if_neg hsigner]
      rfl
    · refine ⟨fe₄, ?_⟩
      rw [if_neg Bool.false_ne_true, if_pos hanchor]
      rfl

/-- A mark is fully checked exactly if it is in order. -/
theorem fullyChecked_iff :
    FullyChecked env jws trustAnchor fe ↔
      InOrder env jws trustAnchor (markSetting env jws.payload trustAnchor fe) := by
  constructor
  · rintro ⟨fe₁, fe₂, fe₃, iss, trustChains, hfresh, hdelegated, hiss, hchains, hattests⟩
    obtain ⟨hexpired, rfl⟩ :=
      EStateM.Result.ok.inj ((markIsExpired_apply jws.payload fe).symm.trans hfresh)
    obtain ⟨rfl, hverifies⟩ := delegationChecked_iff.mp hdelegated
    obtain ⟨chains, leafEc, hfound, hall⟩ :=
      exists_getVerifiedTrustChains_iff.mp ⟨trustChains, fe₃, hchains⟩
    refine ⟨fun hexp => ?_, hverifies, iss, chains, leafEc, hiss, hfound, hall,
      (chainAttests_iff hchains hfound).mp hattests⟩
    rw [expiredAt_iff] at hexp
    exact absurd (hexp.symm.trans hexpired) (by simp)
  · rintro ⟨hfresh, hverifies, iss, chains, leafEc, hiss, hfound, hall, hattests⟩
    obtain ⟨trustChains, fe₃, hchains⟩ :=
      exists_getVerifiedTrustChains_iff.mpr ⟨chains, leafEc, hfound, hall⟩
    refine ⟨clockRead fe, anchorLookedUp env jws.payload trustAnchor fe, fe₃, iss, trustChains, ?_,
      delegationChecked_iff.mpr ⟨rfl, hverifies⟩, hiss, hchains,
      (chainAttests_iff hchains hfound).mpr hattests⟩
    exact markIsExpired_of_fresh hfresh

/-- Nothing is wrong with a key that a chain to the anchor lists, as it is known then. -/
theorem KeysAttested.of_attested {chains : List (List (Token Key))}
    {leafEc : Option (SelfSigned Key)} {jar : Jar} {iss : EntityId} {delegated : Prop} {k : Key}
    (hdelegated : delegated) (h : AttestedAmong chains leafEc jar trustAnchor iss k) :
    KeysAttested env chains leafEc jar trustAnchor iss delegated k := by
  refine ⟨fun _ => ⟨hdelegated, h⟩, fun hnone => ?_⟩
  obtain ⟨ts, hstands, -, s, hs, rfl, hk⟩ := h
  exact absurd (Or.inr (listedAmong_of_standsAmong hstands hs hk)) (hnone k)

/-- When the verifier answers `None` on a mark that is accepted as a message and has not
    expired. -/
theorem outcome_eq_none_iff {setting : MarkSetting Jar Key}
    (hsetting : setting = markSetting env jws.payload trustAnchor fe)
    (hmessage : env.messageRejects setting.verifiedAt jws.payload = none)
    (hfresh : ¬ ExpiredAt setting.expiryAt jws.payload) :
    outcome (TrustMarkVerifier.call env (some jws) trustAnchor fe) = .ok none ↔
      DelegationMeets jws.payload setting.anchorMetadata (fun metadata id delegation =>
        ∃ verdict, checkDelegation env metadata id delegation = .ok verdict) ∧
      ∃ iss chains leafEc, jws.payload.iss = some iss ∧ setting.found iss = .ok (chains, leafEc) ∧
        AllGoThrough env.ho (leafTokens leafEc) chains setting.keyjar ∧
        (LeadsTo chains leafEc setting.keyjar trustAnchor →
          ¬ (jws.signer ∈ keysOf setting.keyjar iss ∨
            ListedAmong (leafTokens leafEc) chains setting.keyjar iss jws.signer) ∧
          ((∀ k, ¬ (k ∈ keysOf setting.keyjar iss ∨
              ListedAmong (leafTokens leafEc) chains setting.keyjar iss k)) →
            (∀ ts, StandsAmong (leafTokens leafEc) chains setting.keyjar ts →
              PoliciesTwice env.ho ts) ∧
              ∀ config ∈ leafEc, config.payload.iss = iss →
                jws.signer ∉ config.payload.keys)) := by
  subst hsetting
  have hverify := verifyMessage_of_accepted hmessage
  have hexpired := markIsExpired_of_fresh hfresh
  have hne : ∀ trustChains : List (TrustChain Key), trustAnchor ∈ trustChains.map (·.anchor) →
      trustChains ≠ [] := by
    rintro trustChains hanchor rfl
    exact absurd hanchor List.not_mem_nil
  rw [call_eq_none_iff hverify hexpired]
  constructor
  · rintro ⟨fe₃, fe₄, iss, trustChains, hdealt, hiss, hchains, hkeys⟩
    obtain ⟨rfl, hmeets⟩ := dealWithDelegation_eq_ok.mp hdealt
    obtain ⟨chains, leafEc, hfound, hall⟩ :=
      exists_getVerifiedTrustChains_iff.mp ⟨trustChains, fe₄, hchains⟩
    refine ⟨hmeets, iss, chains, leafEc, hiss, hfound, hall, fun hleads => ?_⟩
    have hanchor := (leadsTo_iff hchains hfound).mpr hleads
    exact (verificationKeys_iff hchains hfound hall (hne _ hanchor)).mp (hkeys hanchor)
  · rintro ⟨hmeets, iss, chains, leafEc, hiss, hfound, hall, hkeys⟩
    obtain ⟨trustChains, fe₄, hchains⟩ :=
      exists_getVerifiedTrustChains_iff.mpr ⟨chains, leafEc, hfound, hall⟩
    refine ⟨_, fe₄, iss, trustChains, dealWithDelegation_eq_ok.mpr ⟨rfl, hmeets⟩, hiss, hchains,
      fun hanchor => ?_⟩
    exact (verificationKeys_iff hchains hfound hall (hne _ hanchor)).mpr
      (hkeys ((leadsTo_iff hchains hfound).mp hanchor))

/-- Only what is fully checked is returned exactly if nothing is overlooked, or the message
    library raises on a mark that is in order. -/
theorem returnsOnlyChecked_iff_of_setting :
    ReturnsOnlyChecked env (some jws) trustAnchor fe ↔
      ChecksSuffice env jws trustAnchor (markSetting env jws.payload trustAnchor fe) := by
  have hchecked : ReturnsOnlyChecked env (some jws) trustAnchor fe ↔
      outcome (TrustMarkVerifier.call env (some jws) trustAnchor fe) = .ok none ∨
        InOrder env jws trustAnchor (markSetting env jws.payload trustAnchor fe) := by
    rw [← fullyChecked_iff]
    simp [ReturnsOnlyChecked]
  rw [hchecked, ChecksSuffice, NothingOverlooked]
  generalize hsetting : markSetting env jws.payload trustAnchor fe = setting
  cases hmessage : env.messageRejects setting.verifiedAt jws.payload with
  | some e =>
      -- the library raises before anything is looked at
      have hraise : ∃ fe', TrustMarkVerifier.call env (some jws) trustAnchor fe = .error e fe' := by
        refine ⟨finalState (verifyMessage env jws.payload fe), bind_of_error ?_⟩
        rw [← hsetting] at hmessage
        have hsome : env.messageRejects (env.collector.now fe.collector.asked) jws.payload =
            some e := hmessage
        rw [verifyMessage_apply, hsome]
        rfl
      obtain ⟨fe', hraise⟩ := hraise
      simp [hraise]
  | none =>
      by_cases hexpired : ExpiredAt setting.expiryAt jws.payload
      · have hnone : outcome (TrustMarkVerifier.call env (some jws) trustAnchor fe) = .ok none := by
          subst hsetting
          exact outcome_of_expired hmessage hexpired
        simp [hnone, hexpired]
      · rw [outcome_eq_none_iff hsetting.symm hmessage hexpired]
        simp only [reduceCtorEq, exists_false, false_and, or_false, true_and, hexpired,
          not_false_eq_true, forall_true_left]
        constructor
        · rintro (⟨hmeets, iss, chains, leafEc, hiss, hfound, hall, hkeys⟩ |
            ⟨-, hverifies, iss, chains, leafEc, hiss, hfound, hall, hattests⟩)
          · refine ⟨hmeets, iss, chains, leafEc, hiss, hfound, hall, fun hleads => ?_⟩
            obtain ⟨hnot, hrest⟩ := hkeys hleads
            exact ⟨fun hknown => absurd hknown hnot, hrest⟩
          · refine ⟨fun delegation hmem => ?_, iss, chains, leafEc, hiss, hfound, hall, fun _ =>
              .of_attested hverifies hattests⟩
            obtain ⟨metadata, taFeMetadata, id, hmetadata, hfe, hid, hdelegated⟩ :=
              hverifies delegation hmem
            exact ⟨metadata, taFeMetadata, id, hmetadata, hfe, hid, true,
              checkDelegation_eq_ok.mpr hdelegated⟩
        · rintro ⟨hmeets, iss, chains, leafEc, hiss, hfound, hall, hkeys⟩
          by_cases hknown : LeadsTo chains leafEc setting.keyjar trustAnchor ∧
              (jws.signer ∈ keysOf setting.keyjar iss ∨
                ListedAmong (leafTokens leafEc) chains setting.keyjar iss jws.signer)
          · -- only a key that is known has the mark returned
            right
            obtain ⟨hdelegated, hattests⟩ := (hkeys hknown.1).known hknown.2
            exact ⟨hexpired, hdelegated, iss, chains, leafEc, hiss, hfound, hall, hattests⟩
          · left
            rw [not_and] at hknown
            exact ⟨hmeets, iss, chains, leafEc, hiss, hfound, hall, fun hleads =>
              ⟨hknown hleads, (hkeys hleads).unknown⟩⟩

end Verdict

/-! ## A federation that answers the same throughout -/

/-- A trust anchor publishes a configuration that is in force, and has no superiors. -/
structure AnchorPublishes (env : CollectorEnv Key) (trustAnchor : EntityId)
    (config : SelfSigned Key) : Prop where
  published : configuration env trustAnchor = .ok config
  current : isCurrent env config.payload = true
  top : config.payload.authorityHints = none
  deep : env.recursionLimit ≠ 0

/-- The setting that such a federation makes for a call. -/
def publishedSetting (env : TrustMarkEnv Key) (config : SelfSigned Key)
    (fe : FederationState Jar Key) : MarkSetting Jar Key where
  verifiedAt := env.collector.now fe.collector.asked
  expiryAt := env.collector.now (fe.collector.asked + 1)
  anchorMetadata := metadataOf config.payload
  found := publishedChains env.collector ""
  keyjar := fe.keyjar

section Published

variable {entities : Finset EntityId} {trustAnchor : EntityId} {config : SelfSigned Key}

omit [KeyStore Jar Key] in
/-- The configuration of the anchor is read from the cache, if it is there. -/
theorem usedConfig_of_published (h : Steady env.collector entities) (hmem : trustAnchor ∈ entities)
    (hanchor : AnchorPublishes env.collector trustAnchor config) {t : Traced Jar Key}
    (ht : Reflects env.collector entities t.federation.collector)
    (hcached : trustAnchor ∈ t.federation.collector.configCache) :
    ∃ c reads, usedConfig env.collector trustAnchor t =
        .ok (.dict config) ⟨{ t.federation with collector := c }, reads⟩ ∧
      Reflects env.collector entities c := by
  obtain ⟨entry, c, hread, hc, -, -, hfound⟩ := h.configCacheItem hmem ht
  obtain rfl := hfound config hcached hanchor.published hanchor.current
  have hused : inFederation (inCollector (configCacheItem env.collector trustAnchor)) t =
      .ok (some (.dict config)) { t with federation := { t.federation with collector := c } } :=
    zoom_of_ok (inCollector_of_ok hread)
  exact ⟨c, t.reads ++ [some (.dict config)], by rw [usedConfig, bind_of_ok hused]; rfl, hc⟩

/-- Nothing is found above the anchor, and its configuration is in the cache then. -/
theorem collectTrustChains_of_published (h : Steady env.collector entities)
    (hmem : trustAnchor ∈ entities)
    (hanchor : AnchorPublishes env.collector trustAnchor config) {st : CollectorState Key}
    (hst : Reflects env.collector entities st) :
    ∃ st', collectTrustChains env.collector trustAnchor (.text "") "" [] st =
        .ok ([], some config) st' ∧
      Reflects env.collector entities st' ∧ trustAnchor ∈ st'.configCache := by
  obtain ⟨hleaf, hinv⟩ := h.leafConfiguration hmem st hst
  rw [leaf_of_configuration hanchor.published, outcome_eq_ok] at hleaf
  obtain ⟨st', hleaf⟩ := hleaf
  rw [hleaf, finalState_ok] at hinv
  refine ⟨st', ?_, hinv, Dict.mem_iff_lookup.mpr ⟨_, lookup_of_leafConfiguration hleaf⟩⟩
  obtain ⟨depth, hdepth⟩ := Nat.exists_eq_succ_of_ne_zero hanchor.deep
  have htree : collectTree env.collector "" env.collector.recursionLimit trustAnchor
      (some config.payload) [] st' = .ok .empty st' := by
    rw [hdepth, collectTree]
    simp only [hanchor.top]
    rfl
  have hcall : collectFor env.collector trustAnchor (.text "") "" [] st =
      .ok (some (.empty, config)) st' := by
    show TrustChainCollector.call env.collector trustAnchor [] "" st = _
    rw [TrustChainCollector.call, bind_of_ok hleaf]
    simp only
    rw [bind_of_ok htree]
    rfl
  rw [collectTrustChains, bind_of_ok hcall]
  rfl

omit [KeyStore Jar Key] [DecidableEq Key] in
/-- What a look-up that has found the configuration comes to. -/
theorem inFederation_lift {α : Type} (r : Except Exc α) (t : Traced Jar Key) :
    (inFederation (lift r) : EStateM Exc (Traced Jar Key) α) t = lift r t := by
  cases r <;> rfl

/-- The second half of `get_metadata`: the configuration has to be looked up. -/
theorem lookedUp_of_published (h : Steady env.collector entities) (hmem : trustAnchor ∈ entities)
    (hanchor : AnchorPublishes env.collector trustAnchor config) {t : Traced Jar Key}
    (ht : Reflects env.collector entities t.federation.collector) :
    ∃ c reads, (do
        let (chains, _) ← tracing (callReads env.collector trustAnchor [] "")
          (inCollector (collectTrustChains env.collector trustAnchor))
        let _ ← inFederation (inKeyjar (verifyTrustChains [] chains))
        let ec ← usedConfig env.collector trustAnchor
        inFederation (lift (metadataOf ec.payload)) :
          EStateM Exc (Traced Jar Key) (Dict Metadata)) t =
        lift (metadataOf config.payload) ⟨{ t.federation with collector := c }, reads⟩ ∧
      Reflects env.collector entities c := by
  obtain ⟨st', hcollect, hst', hcached⟩ := collectTrustChains_of_published h hmem hanchor ht
  have htraced : tracing (callReads env.collector trustAnchor [] "")
      (inCollector (collectTrustChains env.collector trustAnchor)) t =
        .ok ([], some config) ⟨{ t.federation with collector := st' },
          t.reads ++ callReads env.collector trustAnchor [] "" t.federation.collector⟩ := by
    rw [tracing_apply, inCollector_of_ok hcollect]
  obtain ⟨c, reads, hused, hc⟩ := usedConfig_of_published h hmem hanchor
    (t := ⟨{ t.federation with collector := st' },
      t.reads ++ callReads env.collector trustAnchor [] "" t.federation.collector⟩) hst' hcached
  refine ⟨c, reads, ?_, hc⟩
  have hverify : ∀ t : Traced Jar Key, inFederation (inKeyjar (verifyTrustChains [] [])) t =
      .ok [] t := fun _ => rfl
  rw [bind_of_ok htraced]
  simp only
  rw [bind_of_ok (hverify _), bind_of_ok hused, inFederation_lift]
  rfl

omit [KeyStore Jar Key] in
/-- The first half: what is in the cache is the published configuration. -/
theorem cachedMetadataConfig_of_published (h : Steady env.collector entities)
    (hmem : trustAnchor ∈ entities)
    (hanchor : AnchorPublishes env.collector trustAnchor config) {t : Traced Jar Key}
    (ht : Reflects env.collector entities t.federation.collector) :
    ∃ found c reads, cachedMetadataConfig env.collector trustAnchor t =
        .ok found ⟨{ t.federation with collector := c }, reads⟩ ∧
      Reflects env.collector entities c ∧ (found = none ∨ found = some (.dict config)) := by
  rw [cachedMetadataConfig, bind_of_ok (get_apply t)]
  by_cases hcached : trustAnchor ∈ t.federation.collector.configCache
  · obtain ⟨c, reads, hused, hc⟩ := usedConfig_of_published h hmem hanchor ht hcached
    have hclock : ∀ t : Traced Jar Key, inFederation (inCollector (statementIsExpired env.collector
        (CachedConfig.dict config).payload)) t =
          .ok (decide (config.payload.exp < env.collector.now t.federation.collector.asked))
            { t with federation := { t.federation with collector :=
              { t.federation.collector with asked := t.federation.collector.asked + 1 } } } :=
      fun _ => rfl
    have hasked : Reflects env.collector entities { c with asked := c.asked + 1 } :=
      hc.of_caches rfl rfl
    rw [if_pos hcached, bind_of_ok hused, bind_of_ok (hclock _)]
    by_cases hexpired : config.payload.exp < env.collector.now c.asked
    · rw [if_pos (decide_eq_true hexpired)]
      exact ⟨none, _, reads, rfl, hasked, Or.inl rfl⟩
    · rw [if_neg (by simp [hexpired])]
      exact ⟨some (.dict config), _, reads, rfl, hasked, Or.inr rfl⟩
  · rw [if_neg hcached]
    exact ⟨none, t.federation.collector, t.reads, rfl, ht, Or.inl rfl⟩

/-- The metadata of the anchor are the published ones, and no keys are learnt. -/
theorem collectorMetadata_of_published (h : Steady env.collector entities)
    (hmem : trustAnchor ∈ entities)
    (hanchor : AnchorPublishes env.collector trustAnchor config) {fe : FederationState Jar Key}
    (hfe : Reflects env.collector entities fe.collector) :
    ∃ c, collectorMetadata env trustAnchor fe =
        lift (metadataOf config.payload) { fe with collector := c } ∧
      Reflects env.collector entities c := by
  have hget : ∃ c reads, getMetadata env.collector trustAnchor ⟨fe, []⟩ =
      lift (metadataOf config.payload) ⟨{ fe with collector := c }, reads⟩ ∧
        Reflects env.collector entities c := by
    obtain ⟨found, c, reads, hcached, hc, rfl | rfl⟩ :=
      cachedMetadataConfig_of_published h hmem hanchor (t := ⟨fe, []⟩) hfe
    · -- it has to be looked up
      obtain ⟨c', reads', hlooked, hc'⟩ := lookedUp_of_published h hmem hanchor
        (t := ⟨{ fe with collector := c }, reads⟩) hc
      exact ⟨c', reads', by rw [getMetadata, bind_of_ok hcached]; exact hlooked, hc'⟩
    · refine ⟨c, reads, ?_, hc⟩
      rw [getMetadata, bind_of_ok hcached]
      exact inFederation_lift _ _
  obtain ⟨c, reads, hget, hc⟩ := hget
  refine ⟨c, ?_, hc⟩
  rw [collectorMetadata, untraced, hget]
  cases metadataOf config.payload <;> rfl

/-- What counts of what is found is what is found for the issuer of the mark. -/
theorem checksSuffice_congr {jws : SignedTrustMark Key} {setting setting' : MarkSetting Jar Key}
    (hsame : setting' = { setting with found := setting'.found })
    (hfound : ∀ iss ∈ jws.payload.iss, setting'.found iss = setting.found iss) :
    ChecksSuffice env jws trustAnchor setting' ↔ ChecksSuffice env jws trustAnchor setting := by
  rw [hsame]
  cases hiss : jws.payload.iss with
  | none => simp [ChecksSuffice, NothingOverlooked, InOrder, hiss]
  | some iss => simp [ChecksSuffice, NothingOverlooked, InOrder, hiss, hfound iss hiss]

/-- Such a federation is all that the setting of a call depends on. -/
theorem checksSuffice_of_published (h : Steady env.collector entities)
    (hmem : trustAnchor ∈ entities)
    (hanchor : AnchorPublishes env.collector trustAnchor config) {jws : SignedTrustMark Key}
    {fe : FederationState Jar Key} (hfe : Reflects env.collector entities fe.collector)
    (hiss : ∀ iss ∈ jws.payload.iss, iss ∈ entities) :
    ChecksSuffice env jws trustAnchor (markSetting env jws.payload trustAnchor fe) ↔
      ChecksSuffice env jws trustAnchor (publishedSetting env config fe) := by
  have hclock : Reflects env.collector entities (clockRead fe).collector := hfe.of_caches rfl rfl
  obtain ⟨c, hget, hc⟩ := collectorMetadata_of_published h hmem hanchor hclock
  have hlooked : Reflects env.collector entities
      (anchorLookedUp env jws.payload trustAnchor fe).collector ∧
      (anchorLookedUp env jws.payload trustAnchor fe).keyjar = fe.keyjar := by
    unfold anchorLookedUp
    cases jws.payload.delegation with
    | none => exact ⟨hclock, rfl⟩
    | some delegation =>
        simp only [hget, finalState_lift]
        exact ⟨hc, rfl⟩
  refine checksSuffice_congr ?_ fun iss hmark => ?_
  · rw [markSetting, publishedSetting, hget, outcome_lift, hlooked.2]
  · exact (h.yieldsPublishedChains (hiss iss hmark) "" _ hlooked.1).1

end Published

/-- A mark is returned only if it is fully checked, and `None` otherwise, exactly if the checks
    suffice in the setting of the call.  In a federation that answers the same throughout this
    is made of what is published and of the keys that were held before. -/
theorem returnsOnlyChecked_iff (env : TrustMarkEnv Key) :
    (∀ (trustMark : Option (SignedTrustMark Key)) (trustAnchor : EntityId)
        (fe : FederationState Jar Key),
      ReturnsOnlyChecked env trustMark trustAnchor fe ↔
        ∃ jws, trustMark = some jws ∧
          ChecksSuffice env jws trustAnchor (markSetting env jws.payload trustAnchor fe)) ∧
    ∀ entities, Steady env.collector entities → ∀ trustAnchor ∈ entities, ∀ config,
      AnchorPublishes env.collector trustAnchor config →
      ∀ (jws : SignedTrustMark Key) (fe : FederationState Jar Key),
        Reflects env.collector entities fe.collector → (∀ iss ∈ jws.payload.iss, iss ∈ entities) →
        (ReturnsOnlyChecked env (some jws) trustAnchor fe ↔
          ChecksSuffice env jws trustAnchor (publishedSetting env config fe)) := by
  refine ⟨fun trustMark trustAnchor fe => ?_, fun entities h trustAnchor hmem config hanchor jws fe
    hfe hiss => ?_⟩
  · cases trustMark with
    | none => simp [ReturnsOnlyChecked, TrustMarkVerifier.call]
    | some jws => simp [returnsOnlyChecked_iff_of_setting]
  · rw [returnsOnlyChecked_iff_of_setting, checksSuffice_of_published h hmem hanchor hfe hiss]

/-! ## A delegation that the anchor has heard of -/

/-- An issuer of trust marks below an anchor that lists an owner for one of them. -/
def markOwner : List (String × SignedStatement Nat) :=
  [("https://ta.org/.well-known/openid-federation",
    ⟨{ iss := "https://ta.org", sub := "https://ta.org", exp := 1000, jwks := some [1]
       metadata := some (Dict.ofList
        [("federation_entity", Dict.ofList
          [("federation_fetch_endpoint", .str "https://ta.org/fetch"),
           ("trust_mark_issuers", .obj [("https://refeds.org/sirtfi", .arr [])]),
           ("trust_mark_owners", .obj [("https://refeds.org/sirtfi", .obj
             [("sub", .str "https://refeds.org"), ("jwks", .obj [])])])])]) }, 1⟩),
   ("https://tmi.org/.well-known/openid-federation",
    ⟨{ iss := "https://tmi.org", sub := "https://tmi.org", exp := 1000, jwks := some [2]
       authorityHints := some ["https://ta.org"]
       metadata := some (Dict.ofList [("federation_entity", ∅)]) }, 2⟩),
   ("https://ta.org/fetch?https://tmi.org",
    ⟨{ iss := "https://ta.org", sub := "https://tmi.org", exp := 1000, jwks := some [2] }, 1⟩)]

/-- A verifier in that federation; the owner's key set has one key. -/
def ownerEnv : TrustMarkEnv Nat where
  collector := onPages ["https://ta.org"] markOwner
  importJwks := fun _ => .ok [7]

/-- A trust mark of the issuer, with a delegation of the owner. -/
def delegatedMark : SignedTrustMark Nat where
  payload :=
    { iss := some "https://tmi.org", sub := some "https://rp.org"
      id := some "https://refeds.org/sirtfi"
      delegation := some (some ⟨some "https://refeds.org", 7⟩) }
  signer := 2

theorem steady_markOwner :
    Steady ownerEnv.collector {"https://tmi.org", "https://ta.org"} := by
  refine steady_onPages (fun e he config hconfig => ?_) (by unfold CacheKeysApart; decide)
  simp only [Finset.mem_insert, Finset.mem_singleton] at he
  rcases he with rfl | rfl <;> obtain rfl := Except.ok.inj hconfig <;> decide

/-- It is returned, and it is fully checked. -/
theorem delegated_mark_checked :
    (outcome (TrustMarkVerifier.call ownerEnv (some delegatedMark) "https://ta.org"
      (trustsTa : FederationState (AssocJar Nat) Nat))).toOption.join.isSome = true ∧
    ReturnsOnlyChecked ownerEnv (some delegatedMark) "https://ta.org"
      (trustsTa : FederationState (AssocJar Nat) Nat) := by
  refine ⟨by decide +kernel, ?_⟩
  obtain ⟨config, hconfig⟩ : ∃ config, configuration ownerEnv.collector "https://ta.org" =
      .ok config := ⟨_, rfl⟩
  have hanchor : AnchorPublishes ownerEnv.collector "https://ta.org" config := by
    obtain rfl := Except.ok.inj hconfig
    exact ⟨rfl, by decide, rfl, by decide⟩
  refine ((returnsOnlyChecked_iff ownerEnv).2 _ steady_markOwner "https://ta.org" (by decide) config
    hanchor delegatedMark trustsTa reflects_empty (by simp [delegatedMark])).mpr (Or.inl ⟨rfl, ?_⟩)
  obtain rfl := Except.ok.inj hconfig
  refine fun _ => ⟨fun delegation hmem => ?_, "https://tmi.org", _, _, rfl, rfl,
    allGoThrough_iff.mpr ⟨_, _, _, rfl, rfl⟩, fun _ =>
      .of_attested (fun delegation hmem => ?_) ?_⟩
  · obtain rfl := Option.some.inj hmem
    exact ⟨_, _, _, rfl, rfl, rfl, true, rfl⟩
  · obtain rfl := Option.some.inj hmem
    exact ⟨_, _, _, rfl, rfl, rfl, checkDelegation_eq_ok.mp rfl⟩
  -- the anchor lists the key that the mark is signed with
  · refine ⟨_, ⟨[], _, [], rfl, rfl, ⟨⟨_, _, rfl⟩, ?_, by decide⟩⟩, rfl, _, List.mem_cons_self ..,
      rfl, by decide⟩
    exact signedFromAbove_cons.mpr
      ⟨by decide, signedFromAbove_cons.mpr ⟨by decide, signedFromAbove_nil⟩⟩

/-! ## A delegation that nobody has heard of -/

/-- An issuer of trust marks below an anchor that lists no trust marks. -/
def markIssuer : List (String × SignedStatement Nat) :=
  [("https://ta.org/.well-known/openid-federation",
    ⟨{ iss := "https://ta.org", sub := "https://ta.org", exp := 1000, jwks := some [1]
       metadata := some (Dict.ofList
        [("federation_entity", Dict.ofList
          [("federation_fetch_endpoint", .str "https://ta.org/fetch"),
           ("trust_mark_issuers", .obj [])])]) }, 1⟩),
   ("https://tmi.org/.well-known/openid-federation",
    ⟨{ iss := "https://tmi.org", sub := "https://tmi.org", exp := 1000, jwks := some [2]
       authorityHints := some ["https://ta.org"]
       metadata := some (Dict.ofList [("federation_entity", ∅)]) }, 2⟩),
   ("https://ta.org/fetch?https://tmi.org",
    ⟨{ iss := "https://ta.org", sub := "https://tmi.org", exp := 1000, jwks := some [2] }, 1⟩)]

/-- A verifier in that federation. -/
def markEnv : TrustMarkEnv Nat where
  collector := onPages ["https://ta.org"] markIssuer
  importJwks := fun _ => .ok []

/-- A trust mark of the issuer, with a delegation that anybody could have signed. -/
def unlistedMark : SignedTrustMark Nat where
  payload :=
    { iss := some "https://tmi.org", sub := some "https://rp.org"
      id := some "https://refeds.org/sirtfi"
      delegation := some (some ⟨some "https://evil.org", 9⟩) }
  signer := 2

/-- The mark is accepted: that its delegation does not verify is only logged. -/
theorem unlisted_delegation_accepted :
    ¬ ∀ (env : TrustMarkEnv Nat) (trustMark : Option (SignedTrustMark Nat)) (trustAnchor : EntityId)
      (fe : FederationState (AssocJar Nat) Nat), ReturnsOnlyChecked env trustMark trustAnchor fe := by
  intro hall
  have haccepted : (outcome (TrustMarkVerifier.call markEnv (some unlistedMark) "https://ta.org"
      (trustsTa : FederationState (AssocJar Nat) Nat))).toOption.join.isSome = true := by
    decide +kernel
  rcases hall markEnv (some unlistedMark) "https://ta.org" trustsTa with hnone | hchecked
  · rw [hnone] at haccepted
    exact absurd haccepted (by simp [Except.toOption])
  · obtain ⟨jws, hjws, fe₁, fe₂, fe₃, iss, trustChains, hfresh, hdelegated, -⟩ := hchecked
    obtain rfl := Option.some.inj hjws
    obtain ⟨-, rfl⟩ := EStateM.Result.ok.inj hfresh
    -- the trust anchor has no `trust_mark_owners` for the delegation to verify with
    rcases hdelegated with ⟨hnone, -⟩ | ⟨delegation, metadata, taFeMetadata, id, -, hget, hfe, -,
      issuers, owners, tmOwnerInfo, jwks, owner, keys, jws', -, howners, -⟩
    · exact absurd hnone (by simp [unlistedMark])
    · obtain ⟨rfl, -⟩ := EStateM.Result.ok.inj hget
      obtain rfl := Option.some.inj hfe
      have hnone : (none : Option Json) = some owners := howners
      exact absurd hnone (by simp)

end Fedservice.Entity
