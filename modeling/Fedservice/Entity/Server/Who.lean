/-
  Fedservice.Entity.Server.Who

  `Who` (entity/server/who.py): which of the entities below a trust anchor issue a type of
  credential and hold a trust mark, and `FederationEntity.verify_trust_mark`, which it
  relies on.
-/

import Fedservice.Entity.TrustMarkVerifier
import Mathlib.Data.List.Dedup

namespace Fedservice.Entity

open Fedservice.Lib Fedservice.Py Fedservice.EntityStatement Fedservice.Crypto
  Fedservice.Entity.Function

variable {Jar Key : Type}

/-! ## verify_trust_mark -/

/-- The request of the `trust_mark_status` service. -/
structure StatusRequest where
  fetchEndpoint : Json
  sub : EntityId
  trustMarkId : String

/-- What the endpoint works with: the verifier of trust marks, the client and what the
    status endpoints of issuers answer to the n-th thing asked. -/
structure WhoEnv (Key : Type) extends TrustMarkEnv Key where
  client : ClientEnv Key
  trustMarkStatus : Nat → StatusRequest → Except Exc (Dict Json)
  entityId : EntityId
  entityType : String := "credential_issuer"
  credentialType : String := "PersonIdentificationData"
  trustMarkId : String := "http://dc4eu.example.com/PersonIdentificationData/se"

variable [KeyStore Jar Key] [DecidableEq Key] (env : WhoEnv Key)

omit [KeyStore Jar Key] [DecidableEq Key] in
/-- `self.do_request("trust_mark_status", ..)`. -/
def requestTrustMarkStatus (request : StatusRequest) :
    EStateM Exc (FederationState Jar Key) (Dict Json) :=
  if !request.fetchEndpoint.truthy then throw (.attributeError "fetch_endpoint")
  else inCollector do
    let st ← get
    set { st with asked := st.asked + 1 }
    lift (env.trustMarkStatus st.asked request)

omit [KeyStore Jar Key] [DecidableEq Key] in
/-- Whether the trust mark is still valid according to its issuer. -/
def checkWithTrustMarkIssuer (tmiTrustChain : TrustChain Key) (verified : TrustMark Key) :
    EStateM Exc (FederationState Jar Key) Bool := do
  let sub ← lift (claimItem "sub" verified.sub)
  let id ← lift (claimItem "id" verified.id)
  match ← lift (tmiTrustChain.metadata.item "federation_entity") with
  | none => throw .typeError
  | some fe => do
      let endpoint ← lift (item fe "federation_trust_mark_status_endpoint")
      let resp ← requestTrustMarkStatus env ⟨endpoint, sub, id⟩
      return (resp.lookup "active").any (·.eqv (.bool true))

/-- `verify_trust_mark`, of a token that is a JWS or not. -/
def verifyTrustMark (trustMark : Option (SignedTrustMark Key)) (checkWithIssuer : Bool) :
    EStateM Exc (FederationState Jar Key) (Option (TrustMark Key)) :=
  match trustMark with
  | none => throw (.attributeError "jwt")
  | some jws => do
      let iss ← lift (claimItem "iss" jws.payload.iss)
      match ← getTrustChains env.ho env.collector iss with
      | [] => return none
      | tmiTrustChain :: _ => do
          -- verifies the signature of the trust mark
          let verified ← TrustMarkVerifier.call env.toTrustMarkEnv (some jws) tmiTrustChain.anchor
          if checkWithIssuer then
            match verified with
            | none => throw .typeError  -- `None` has no `sub`
            | some mark => do
                if ← checkWithTrustMarkIssuer env tmiTrustChain mark then return some mark
                else return none
          else return verified

namespace Server.Who

/-! ## The candidates -/

/-- `message.WhoRequest`. -/
structure WhoRequest where
  entityType : Option String := none
  credentialType : Option String := none
  trustMarkId : Option String := none

/-- The subordinates of the trust anchor. -/
def subordinates (trustAnchor : EntityId) :
    EStateM Exc (FederationState Jar Key) (List EntityId) :=
  if trustAnchor ≠ "" ∧ trustAnchor = env.entityId then
    -- list my subordinates
    untraced (requestList env.ho env.collector env.client env.entityId [])
  else if trustAnchor ≠ "" then
    -- check that it's a TA I trust, and ask it for its subordinates
    if trustAnchor ∉ env.collector.trustAnchors then
      throw (.noTrustedClaims [.lit "Got a Trust anchor I don't trust"])
    else untraced (requestList env.ho env.collector env.client trustAnchor [])
  else throw (.attributeError "Missing trust anchor specification")

/-- The entities of a type at or below the subordinates. -/
def servers (entityType : String) :
    List EntityId → EStateM Exc (FederationState Jar Key) (List EntityId)
  | [] => return []
  | entityId :: rest => do
      let here ← untraced (trawl env.ho env.collector env.client entityType
        env.collector.recursionLimit env.entityId entityId)
      let others ← servers entityType rest
      return here ++ others

/-- Whether one of the `credentials_supported` is of the type. -/
def supports (credentialType : String) : List Json → Except Exc Bool
  | [] => return false
  | cs :: rest => do
      let definition ← jsonItem cs "credential_definition"
      if ← Json.isIn (.str credentialType) (← jsonItem definition "type") then return true
      else supports credentialType rest

/-- `_metadata['openid_credential_issuer']["credentials_supported"]`, iterated over. -/
def credentialsSupported (metadata : Option ChainMetadata) : Except Exc (List Json) :=
  match metadata with
  | none => .error .typeError
  | some metadata => do
      match ← metadata.item "openid_credential_issuer" with
      | none => throw .typeError
      | some issuer =>
          match (← item issuer "credentials_supported").iter? with
          | none => throw .typeError
          | some supported => return supported

/-- Those that support the credential type. -/
def withCredential (credentialType : String) :
    List EntityId → EStateM Exc (FederationState Jar Key) (List EntityId)
  | [] => return []
  | eid :: rest => do
      let metadata ← getVerifiedMetadata env.ho env.collector eid
      let supported ← lift (credentialsSupported metadata)
      let found ← lift (supports credentialType supported)
      let others ← withCredential credentialType rest
      return if found then eid :: others else others

/-- The keys of `_srv`. -/
def candidates (request : WhoRequest) (trustAnchor : EntityId) :
    EStateM Exc (FederationState Jar Key) (List EntityId) := do
  let listResp ← subordinates env trustAnchor
  let found ← servers env (request.entityType.getD env.entityType) listResp
  let credentialType := request.credentialType.getD env.credentialType
  if credentialType ≠ "" then withCredential env credentialType (env.ho.arrange found.dedup)
  else return []

/-! ## Those with the trust mark -/

/-- The loop over the trust marks of one candidate. -/
def namedFor (tmId : String) (eid : EntityId) : List (Option (SignedTrustMark Key)) →
    EStateM Exc (FederationState Jar Key) (List EntityId)
  | [] => return []
  | mark :: marks => do
      match ← verifyTrustMark env mark true with
      -- what the verifier doesn't accept is `None`, and the loop goes on to read its ID
      | none => throw (.attributeError "get")
      | some verified => do
          let others ← namedFor tmId eid marks
          return if verified.id = some tmId then eid :: others else others

/-- The trust marks in the entity configuration at the end of the first trust chain;
    `none` where there is no chain. -/
def publishedMarks (eid : EntityId) :
    EStateM Exc (FederationState Jar Key) (Option (List (Option (SignedTrustMark Key)))) := do
  match ← getTrustChains env.ho env.collector eid with
  | [] => return none
  | trustChain :: _ =>
      match trustChain.verifiedChain.getLast? with
      | none => throw .indexError
      | some ec => return some (ec.trustMarks.getD [])

/-- The loop over the candidates; `none` where it returns that it couldn't collect trust
    chains. -/
def serversToUse (tmId : String) :
    List EntityId → EStateM Exc (FederationState Jar Key) (Option (List EntityId))
  | [] => return some []
  | eid :: rest => do
      match ← publishedMarks env eid with
      | none => return none
      | some marks => do
          let named ← namedFor env tmId eid marks
          match ← serversToUse tmId rest with
          | none => return none
          | some others => return some (named ++ others)

/-- `Who.process_request`: the `entities_to_use`, or `none` for the answer with status
    400. -/
def processRequest (request : WhoRequest) (trustAnchor : EntityId) :
    EStateM Exc (FederationState Jar Key) (Option (List EntityId)) := do
  let srv ← candidates env request trustAnchor
  let tmId := request.trustMarkId.getD env.trustMarkId
  if tmId ≠ "" then serversToUse env tmId srv
  else return some srv

/-! ## Who should be named -/

/-- The marks that `verify_trust_mark` accepts, one after the other. -/
def acceptedMarks :
    List (Option (SignedTrustMark Key)) → EStateM Exc (FederationState Jar Key) (List (TrustMark Key))
  | [] => return []
  | mark :: marks => do
      let accepted ← tryCatch (verifyTrustMark env mark true) (fun _ => return none)
      let others ← acceptedMarks marks
      return accepted.toList ++ others

/-- For each candidate the marks it publishes that are accepted, whatever becomes of the
    other ones. -/
def verdicts :
    List EntityId → EStateM Exc (FederationState Jar Key) (List (EntityId × List (TrustMark Key)))
  | [] => return []
  | eid :: rest => do
      let marks ← tryCatch (publishedMarks env eid) (fun _ => return none)
      let accepted ← acceptedMarks env (marks.getD [])
      let others ← verdicts rest
      return (eid, accepted) :: others

/-- Exactly the candidates are named, each once, that publish an accepted mark with the ID
    asked for and issued to them. -/
def NamesRightfulHolders (request : WhoRequest) (trustAnchor : EntityId)
    (fe : FederationState Jar Key) : Prop :=
  ∀ srv fe₁, candidates env request trustAnchor fe = .ok srv fe₁ →
    request.trustMarkId.getD env.trustMarkId ≠ "" →
      ∃ toUse given fe₂, outcome (processRequest env request trustAnchor fe) = .ok (some toUse) ∧
        verdicts env srv fe₁ = .ok given fe₂ ∧ toUse.Nodup ∧
        ∀ eid, eid ∈ toUse ↔ ∃ marks, (eid, marks) ∈ given ∧ ∃ mark ∈ marks,
          mark.id = some (request.trustMarkId.getD env.trustMarkId) ∧ mark.sub = some eid

/-! ## When they are -/

/-- All the marks verify. -/
def verifyEach :
    List (Option (SignedTrustMark Key)) → EStateM Exc (FederationState Jar Key) (List (TrustMark Key))
  | [] => return []
  | mark :: marks => do
      match ← verifyTrustMark env mark true with
      | none => throw (.attributeError "get")
      | some verified => do
          let others ← verifyEach marks
          return verified :: others

/-- All the candidates have trust chains, and all the marks they publish verify. -/
inductive AllVerify : List EntityId → FederationState Jar Key →
    List (EntityId × List (TrustMark Key)) → FederationState Jar Key → Prop where
  | nil (fe) : AllVerify [] fe [] fe
  | cons {eid marks verified rest given fe fe₁ fe₂ fe₃}
      (hpublished : publishedMarks env eid fe = .ok (some marks) fe₁)
      (hverify : verifyEach env marks fe₁ = .ok verified fe₂)
      (hrest : AllVerify rest fe₂ given fe₃) :
      AllVerify (eid :: rest) fe ((eid, verified) :: given) fe₃

omit [KeyStore Jar Key] [DecidableEq Key] in
/-- Of the marks of a candidate at most one has the ID asked for, and it is issued to the
    candidate. -/
def OneAndItsOwn (tmId : String) (eid : EntityId) (verified : List (TrustMark Key)) : Prop :=
  verified.filter (·.id = some tmId) = [] ∨
    ∃ mark, verified.filter (·.id = some tmId) = [mark] ∧ mark.sub = some eid

/-- Every candidate has trust chains, every mark verifies, and none is borrowed or repeated. -/
def EveryMarkInOrder (request : WhoRequest) (trustAnchor : EntityId)
    (fe : FederationState Jar Key) : Prop :=
  ∀ srv fe₁, candidates env request trustAnchor fe = .ok srv fe₁ →
    request.trustMarkId.getD env.trustMarkId ≠ "" →
      ∃ given fe₂, AllVerify env srv fe₁ given fe₂ ∧
        ∀ p ∈ given, OneAndItsOwn (request.trustMarkId.getD env.trustMarkId) p.1 p.2

variable {env}

/-! ## What a run names -/

omit [KeyStore Jar Key] [DecidableEq Key] in
/-- A candidate is named for each of its marks with the ID. -/
def namesOf (tmId : String) (p : EntityId × List (TrustMark Key)) : List EntityId :=
  (p.2.filter (·.id = some tmId)).map fun _ => p.1

theorem namedFor_eq_ok {tmId : String} {eid : EntityId}
    {marks : List (Option (SignedTrustMark Key))} {named : List EntityId}
    {fe fe' : FederationState Jar Key} :
    namedFor env tmId eid marks fe = .ok named fe' ↔
      ∃ verified, verifyEach env marks fe = .ok verified fe' ∧
        named = namesOf tmId (eid, verified) := by
  induction marks generalizing fe fe' named with
  | nil =>
      simp only [namedFor, verifyEach, pure_apply, EStateM.Result.ok.injEq]
      exact ⟨fun h => ⟨[], ⟨rfl, h.2⟩, h.1.symm⟩, fun ⟨verified, h, hnamed⟩ =>
        ⟨by rw [hnamed, ← h.1]; rfl, h.2⟩⟩
  | cons mark marks ih =>
      rw [namedFor, verifyEach]
      constructor
      · intro h
        obtain ⟨found, fe₁, hmark, h₁⟩ := bind_eq_ok.mp h
        cases found with
        | none => exact absurd h₁ (by simp)
        | some verified =>
        obtain ⟨others, fe₂, hothers, h₂⟩ := bind_eq_ok.mp h₁
        obtain ⟨rest, hrest, rfl⟩ := ih.mp hothers
        obtain ⟨rfl, rfl⟩ := EStateM.Result.ok.inj h₂
        refine ⟨verified :: rest, ?_, ?_⟩
        · rw [bind_of_ok hmark]
          exact bind_of_ok hrest
        · by_cases hid : verified.id = some tmId <;> simp [namesOf, hid]
      · rintro ⟨all, h, rfl⟩
        obtain ⟨found, fe₁, hmark, h₁⟩ := bind_eq_ok.mp h
        cases found with
        | none => exact absurd h₁ (by simp)
        | some verified =>
        obtain ⟨rest, fe₂, hrest, h₂⟩ := bind_eq_ok.mp h₁
        obtain ⟨rfl, rfl⟩ := EStateM.Result.ok.inj h₂
        rw [bind_of_ok hmark]
        simp only
        rw [bind_of_ok (ih.mpr ⟨rest, hrest, rfl⟩)]
        by_cases hid : verified.id = some tmId <;> simp [namesOf, hid]

/-- The candidates are gone through to the end exactly if all of them have trust chains and
    all their marks verify. -/
theorem serversToUse_eq_some {tmId : String} {srv toUse : List EntityId}
    {fe fe' : FederationState Jar Key} :
    serversToUse env tmId srv fe = .ok (some toUse) fe' ↔
      ∃ given, AllVerify env srv fe given fe' ∧ toUse = given.flatMap (namesOf tmId) := by
  induction srv generalizing fe toUse with
  | nil =>
      constructor
      · intro h
        obtain ⟨hnil, rfl⟩ := EStateM.Result.ok.inj h
        exact ⟨[], .nil fe, (Option.some.inj hnil).symm⟩
      · rintro ⟨given, hall, rfl⟩
        cases hall
        rfl
  | cons eid rest ih =>
      rw [serversToUse]
      constructor
      · intro h
        obtain ⟨published, fe₁, hpublished, h₁⟩ := bind_eq_ok.mp h
        cases published with
        | none => exact absurd (EStateM.Result.ok.inj h₁).1 (by simp)
        | some marks =>
        obtain ⟨named, fe₂, hnamed, h₂⟩ := bind_eq_ok.mp h₁
        obtain ⟨others, fe₃, hothers, h₃⟩ := bind_eq_ok.mp h₂
        cases others with
        | none => exact absurd (EStateM.Result.ok.inj h₃).1 (by simp)
        | some others =>
        obtain ⟨hsome, rfl⟩ := EStateM.Result.ok.inj h₃
        obtain rfl := Option.some.inj hsome
        obtain ⟨verified, hverify, rfl⟩ := namedFor_eq_ok.mp hnamed
        obtain ⟨given, hall, rfl⟩ := ih.mp hothers
        exact ⟨(eid, verified) :: given, .cons hpublished hverify hall, rfl⟩
      · rintro ⟨given, hall, rfl⟩
        cases hall with
        -- the loop ends early for nobody, so it names what each one's marks say
        | cons hpublished hverify hrest =>
            rw [bind_of_ok hpublished]
            simp only
            rw [bind_of_ok (namedFor_eq_ok.mpr ⟨_, hverify, rfl⟩),
              bind_of_ok (ih.mpr ⟨_, hrest, rfl⟩)]
            rfl

/-- The IDs that go with the marks are the candidates. -/
theorem AllVerify.map_fst {srv : List EntityId} {given : List (EntityId × List (TrustMark Key))}
    {fe fe' : FederationState Jar Key} (h : AllVerify env srv fe given fe') :
    given.map (·.1) = srv := by
  induction h with
  | nil => rfl
  | cons _ _ _ ih => rw [List.map_cons, ih]

/-- Marks that all verify are all accepted. -/
theorem acceptedMarks_of_verifyEach {marks : List (Option (SignedTrustMark Key))}
    {verified : List (TrustMark Key)} {fe fe' : FederationState Jar Key}
    (h : verifyEach env marks fe = .ok verified fe') :
    acceptedMarks env marks fe = .ok verified fe' := by
  induction marks generalizing fe verified with
  | nil => exact h
  | cons mark marks ih =>
      obtain ⟨found, fe₁, hmark, h₁⟩ := bind_eq_ok.mp h
      cases found with
      | none => exact absurd h₁ (by simp)
      | some first =>
      obtain ⟨others, fe₂, hothers, h₂⟩ := bind_eq_ok.mp h₁
      obtain ⟨rfl, rfl⟩ := EStateM.Result.ok.inj h₂
      rw [acceptedMarks, bind_of_ok (tryCatch_of_ok hmark), bind_of_ok (ih hothers)]
      rfl

theorem AllVerify.verdicts {srv : List EntityId} {given : List (EntityId × List (TrustMark Key))}
    {fe fe' : FederationState Jar Key} (h : AllVerify env srv fe given fe') :
    Who.verdicts env srv fe = .ok given fe' := by
  induction h with
  | nil => rfl
  | cons hpublished hverify _ ih =>
      rw [Who.verdicts, bind_of_ok (tryCatch_of_ok hpublished), Option.getD_some,
        bind_of_ok (acceptedMarks_of_verifyEach hverify), bind_of_ok ih]
      rfl

theorem withCredential_sublist {credentialType : String} {eids srv : List EntityId}
    {fe fe' : FederationState Jar Key}
    (h : withCredential env credentialType eids fe = .ok srv fe') : srv.Sublist eids := by
  induction eids generalizing fe fe' srv with
  | nil =>
      obtain ⟨rfl, -⟩ := EStateM.Result.ok.inj h
      exact .slnil
  | cons eid rest ih =>
      obtain ⟨metadata, fe₁, -, h₁⟩ := bind_eq_ok.mp h
      obtain ⟨supported, fe₂, -, h₂⟩ := bind_eq_ok.mp h₁
      obtain ⟨found, fe₃, -, h₃⟩ := bind_eq_ok.mp h₂
      obtain ⟨others, fe₄, hothers, h₄⟩ := bind_eq_ok.mp h₃
      obtain ⟨rfl, -⟩ := EStateM.Result.ok.inj h₄
      cases found with
      | false => exact (ih hothers).cons eid
      | true => exact (ih hothers).cons_cons eid

/-- No candidate comes twice. -/
theorem nodup_of_candidates {request : WhoRequest} {trustAnchor : EntityId} {srv : List EntityId}
    {fe fe' : FederationState Jar Key} (h : candidates env request trustAnchor fe = .ok srv fe') :
    srv.Nodup := by
  obtain ⟨listResp, fe₁, -, h₁⟩ := bind_eq_ok.mp h
  obtain ⟨found, fe₂, -, h₂⟩ := bind_eq_ok.mp h₁
  split_ifs at h₂ with htype
  · have hdistinct := env.ho.nodup_arrange found.nodup_dedup
    exact hdistinct.sublist (withCredential_sublist h₂)
  · obtain ⟨rfl, -⟩ := EStateM.Result.ok.inj h₂
    exact List.nodup_nil

/-! ## When the names are right -/

omit [KeyStore Jar Key] [DecidableEq Key] in
theorem mem_namesOf {tmId : String} {p : EntityId × List (TrustMark Key)} {eid : EntityId} :
    eid ∈ namesOf tmId p ↔ (∃ mark ∈ p.2, mark.id = some tmId) ∧ p.1 = eid := by
  rw [namesOf, List.mem_map]
  constructor
  · rintro ⟨mark, hmark, heid⟩
    obtain ⟨hin, hid⟩ := List.mem_filter.mp hmark
    exact ⟨⟨mark, hin, of_decide_eq_true hid⟩, heid⟩
  · rintro ⟨⟨mark, hin, hid⟩, heid⟩
    exact ⟨mark, List.mem_filter.mpr ⟨hin, decide_eq_true hid⟩, heid⟩

omit [DecidableEq Key] in
/-- A candidate that is named once, and as a holder of one of its marks, has at most one mark
    with the ID, which is its own. -/
theorem oneAndItsOwn_of_named {tmId : String} {given : List (EntityId × List (TrustMark Key))}
    (hdistinct : (given.map (·.1)).Nodup) {p : EntityId × List (TrustMark Key)} (hp : p ∈ given)
    (honce : (namesOf tmId p).Nodup)
    (hholds : p.1 ∈ given.flatMap (namesOf tmId) → ∃ marks, (p.1, marks) ∈ given ∧
      ∃ mark ∈ marks, mark.id = some tmId ∧ mark.sub = some p.1) : OneAndItsOwn tmId p.1 p.2 := by
  cases hfilter : p.2.filter (·.id = some tmId) with
  | nil => exact .inl hfilter
  | cons mark marks =>
      have hmark : mark ∈ p.2.filter (·.id = some tmId) := by
        rw [hfilter]
        exact List.mem_cons_self ..
      obtain ⟨hin, hid⟩ := List.mem_filter.mp hmark
      -- a second mark would name the candidate again
      rw [namesOf, hfilter, List.map_cons, List.nodup_cons] at honce
      obtain rfl : marks = [] := by
        cases marks with
        | nil => rfl
        | cons other marks => exact absurd (List.mem_cons_self ..) honce.1
      right
      refine ⟨mark, hfilter, ?_⟩
      have hnamed : p.1 ∈ given.flatMap (namesOf tmId) :=
        List.mem_flatMap.mpr ⟨p, hp, mem_namesOf.mpr ⟨⟨mark, hin, of_decide_eq_true hid⟩, rfl⟩⟩
      obtain ⟨marks', hgiven, mark', hin', hid', hsub⟩ := hholds hnamed
      have hp' : (p.1, marks') = p := List.inj_on_of_nodup_map hdistinct hgiven hp rfl
      have hsame : mark' ∈ p.2.filter (·.id = some tmId) := by
        rw [← hp']
        exact List.mem_filter.mpr ⟨hin', decide_eq_true hid'⟩
      rw [hfilter, List.mem_singleton] at hsame
      rw [← hsame]
      exact hsub

omit [DecidableEq Key] in
/-- Where every candidate has at most one mark with the ID, they are named once, -/
theorem nodup_named {tmId : String} {given : List (EntityId × List (TrustMark Key))}
    (hdistinct : (given.map (·.1)).Nodup) (hown : ∀ p ∈ given, OneAndItsOwn tmId p.1 p.2) :
    (given.flatMap (namesOf tmId)).Nodup := by
  refine List.nodup_flatMap.mpr ⟨fun p hp => ?_, ?_⟩
  · rcases hown p hp with hnone | ⟨mark, hone, -⟩
    -- within one candidate, and between two of them
    · rw [namesOf, hnone]
      exact List.nodup_nil
    · rw [namesOf, hone]
      exact List.nodup_singleton _
  · refine (List.pairwise_map.mp hdistinct).imp fun hne => ?_
    intro eid hleft hright
    exact hne ((mem_namesOf.mp hleft).2.trans (mem_namesOf.mp hright).2.symm)

omit [DecidableEq Key] in
/-- and where that is their own, those are named that hold one. -/
theorem mem_named_iff {tmId : String} {given : List (EntityId × List (TrustMark Key))}
    (hown : ∀ p ∈ given, OneAndItsOwn tmId p.1 p.2) (eid : EntityId) :
    eid ∈ given.flatMap (namesOf tmId) ↔
      ∃ marks, (eid, marks) ∈ given ∧
        ∃ mark ∈ marks, mark.id = some tmId ∧ mark.sub = some eid := by
  rw [List.mem_flatMap]
  constructor
  · rintro ⟨p, hp, hnamed⟩
    obtain ⟨⟨mark, hin, hid⟩, rfl⟩ := mem_namesOf.mp hnamed
    have hfilter : mark ∈ p.2.filter (·.id = some tmId) :=
      List.mem_filter.mpr ⟨hin, decide_eq_true hid⟩
    rcases hown p hp with hnone | ⟨mark', hone, hsub⟩
    · rw [hnone] at hfilter
      exact absurd hfilter List.not_mem_nil
    · rw [hone, List.mem_singleton] at hfilter
      exact ⟨p.2, hp, mark, hin, hid, by rw [hfilter, hsub]⟩
  · rintro ⟨marks, hgiven, mark, hin, hid, -⟩
    exact ⟨(eid, marks), hgiven, mem_namesOf.mpr ⟨⟨mark, hin, hid⟩, rfl⟩⟩

omit [DecidableEq Key] in
/-- Each rightful holder is named once, and nobody else, exactly if every candidate with marks
    of the ID has one, which is its own. -/
theorem names_rightful_iff {tmId : String} {given : List (EntityId × List (TrustMark Key))}
    (hdistinct : (given.map (·.1)).Nodup) :
    ((given.flatMap (namesOf tmId)).Nodup ∧ ∀ eid, eid ∈ given.flatMap (namesOf tmId) ↔
      ∃ marks, (eid, marks) ∈ given ∧ ∃ mark ∈ marks, mark.id = some tmId ∧ mark.sub = some eid) ↔
      ∀ p ∈ given, OneAndItsOwn tmId p.1 p.2 := by
  constructor
  · rintro ⟨hnodup, hmem⟩ p hp
    have honce : (namesOf tmId p).Nodup := (List.nodup_flatMap.mp hnodup).1 p hp
    exact oneAndItsOwn_of_named hdistinct hp honce (hmem p.1).mp
  · intro hown
    exact ⟨nodup_named hdistinct hown, mem_named_iff hown⟩

/-- The rightful holders are named exactly if every mark of every candidate is in order. -/
theorem names_rightful_holders_iff (request : WhoRequest) (trustAnchor : EntityId)
    (fe : FederationState Jar Key) :
    NamesRightfulHolders env request trustAnchor fe ↔
      EveryMarkInOrder env request trustAnchor fe := by
  unfold NamesRightfulHolders EveryMarkInOrder
  refine forall₄_congr fun srv fe₁ hsrv htm => ?_
  -- from the candidates on
  have hloop : processRequest env request trustAnchor fe =
      serversToUse env (request.trustMarkId.getD env.trustMarkId) srv fe₁ := by
    rw [processRequest, bind_of_ok hsrv]
    exact congrFun (if_pos htm) fe₁
  rw [hloop]
  constructor
  · rintro ⟨toUse, given, fe₂, hout, hverdicts, hnodup, hmem⟩
    obtain ⟨fe₃, hok⟩ := outcome_eq_ok.mp hout
    obtain ⟨given', hall, rfl⟩ := serversToUse_eq_some.mp hok
    -- where the loop gets to the end, the verdicts are what it has seen
    obtain ⟨rfl, rfl⟩ := EStateM.Result.ok.inj (hverdicts.symm.trans hall.verdicts)
    have hdistinct : (given.map (·.1)).Nodup := by
      rw [hall.map_fst]
      exact nodup_of_candidates hsrv
    exact ⟨given, fe₂, hall, (names_rightful_iff hdistinct).mp ⟨hnodup, hmem⟩⟩
  · rintro ⟨given, fe₂, hall, hown⟩
    have hdistinct : (given.map (·.1)).Nodup := by
      rw [hall.map_fst]
      exact nodup_of_candidates hsrv
    obtain ⟨hnodup, hmem⟩ := (names_rightful_iff hdistinct).mpr hown
    refine ⟨_, given, fe₂, ?_, hall.verdicts, hnodup, hmem⟩
    exact outcome_eq_ok.mpr ⟨fe₂, serversToUse_eq_some.mpr ⟨given, hall, rfl⟩⟩

/-! ## A borrowed trust mark -/

/-- A trust anchor, and an issuer of trust marks below it. -/
def anchorAndIssuer : List (String × SignedStatement Nat) :=
  [("https://ta.org/.well-known/openid-federation",
    ⟨{ iss := "https://ta.org", sub := "https://ta.org", exp := 1000, jwks := some [1]
       metadata := some (Dict.ofList
        [("federation_entity", Dict.ofList
          [("federation_fetch_endpoint", .str "https://ta.org/fetch"),
           ("federation_list_endpoint", .str "https://ta.org/list")])]) }, 1⟩),
   ("https://tmi.org/.well-known/openid-federation",
    ⟨{ iss := "https://tmi.org", sub := "https://tmi.org", exp := 1000, jwks := some [2]
       authorityHints := some ["https://ta.org"]
       metadata := some (Dict.ofList
        [("federation_entity", Dict.ofList
          [("federation_trust_mark_status_endpoint", .str "https://tmi.org/status")])]) }, 2⟩),
   ("https://ta.org/fetch?https://tmi.org",
    ⟨{ iss := "https://ta.org", sub := "https://tmi.org", exp := 1000, jwks := some [2] }, 1⟩)]

/-- The anchor lists one subordinate, and all trust marks are active. -/
def whoEnv : WhoEnv Nat where
  collector :=
    { onPages ["https://ta.org"] anchorAndIssuer with
      httpc := fun n url =>
        if url = "https://ta.org/list" then
          .reply 200 (some "application/json") (.text "[\"https://ci.org\"]")
        else (onPages ["https://ta.org"] anchorAndIssuer).httpc n url }
  importJwks := fun _ => .ok []
  client :=
    { entityStatement := fun _ _ _ _ => .error (.valueError [])
      entityConfiguration := fun _ _ _ _ => .error (.valueError [])
      list := fun _ _ _ _ => .ok ["https://ci.org"] }
  trustMarkStatus := fun _ _ => .ok (Dict.ofList [("active", .bool true)])
  entityId := "https://who.org"

/-- The entity configuration of a credential issuer, with a trust mark that was issued to
    somebody else. -/
def borrower : Statement Nat where
  iss := "https://ci.org"
  sub := "https://ci.org"
  exp := 1000
  jwks := some [3]
  metadata := some (Dict.ofList [("federation_entity", ∅), ("credential_issuer", ∅)])
  trustMarks := some [some ⟨{ iss := some "https://tmi.org", sub := some "https://other.org"
                              id := some "https://refeds.org/sirtfi" }, 2⟩]

/-- The credential issuer is known: its entity configuration and its trust chain are kept. -/
def knowsBorrower : FederationState (AssocJar Nat) Nat :=
  { (trustsTa : FederationState (AssocJar Nat) Nat) with
    collector := { configCache := Dict.ofList [("https://ci.org", .message borrower)] }
    trustChain := Dict.ofList [("https://ci.org",
      [{ anchor := "https://ta.org", verifiedChain := [borrower]
         metadata := .byType (Dict.ofList [("openid_credential_issuer", some (Dict.ofList
          [("credentials_supported", .arr [.obj [("credential_definition",
            .obj [("type", .arr [.str "PersonIdentificationData"])])]])]))]) }])] }

/-- It is asked who has the trust mark. -/
def whoHasSirtfi : WhoRequest where
  trustMarkId := some "https://refeds.org/sirtfi"

/-- The borrower is named. -/
theorem borrower_named :
    ¬ ∀ (env : WhoEnv Nat) request trustAnchor (fe : FederationState (AssocJar Nat) Nat),
      NamesRightfulHolders env request trustAnchor fe := by
  intro hall
  have hcandidates : (outcome (candidates whoEnv whoHasSirtfi "https://ta.org"
      knowsBorrower)).toOption = some ["https://ci.org"] := by decide +kernel
  have hnamed : (outcome (processRequest whoEnv whoHasSirtfi "https://ta.org"
      knowsBorrower)).toOption = some (some ["https://ci.org"]) := by decide +kernel
  have hgiven : (outcome (verdicts whoEnv ["https://ci.org"] (finalState (candidates whoEnv
      whoHasSirtfi "https://ta.org" knowsBorrower)))).toOption.map (fun given =>
        given.map fun p => p.2.map (·.sub)) = some [[some "https://other.org"]] := by decide +kernel
  cases hsrv : candidates whoEnv whoHasSirtfi "https://ta.org" knowsBorrower with
  | error e fe₁ =>
      rw [hsrv] at hcandidates
      exact absurd hcandidates (by simp [Except.toOption])
  | ok srv fe₁ =>
      rw [hsrv] at hcandidates hgiven
      obtain rfl := Option.some.inj hcandidates
      obtain ⟨toUse, given, fe₂, hout, hverdicts, -, hmem⟩ :=
        hall whoEnv whoHasSirtfi "https://ta.org" knowsBorrower _ fe₁ hsrv (by decide)
      rw [hout] at hnamed
      obtain rfl := Option.some.inj (Option.some.inj hnamed)
      rw [finalState_ok, hverdicts] at hgiven
      have hsubs : given.map (fun p => p.2.map (·.sub)) = [[some "https://other.org"]] :=
        Option.some.inj hgiven
      -- its one mark is accepted, but for somebody else
      obtain ⟨marks, hin, mark, hmark, -, hsub⟩ := (hmem "https://ci.org").mp (by simp)
      have hlist := List.mem_map_of_mem (f := fun p => p.2.map (·.sub)) hin
      rw [hsubs, List.mem_singleton] at hlist
      have hothers : some "https://ci.org" ∈ [some "https://other.org"] := by
        rw [← hlist, ← hsub]
        exact List.mem_map_of_mem hmark
      exact absurd hothers (by decide)

end Server.Who

end Fedservice.Entity
