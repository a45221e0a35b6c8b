/-
  Fedservice.TrustMarkEntity.Lifecycle

  Trust marks from end to end: an issuer creates marks and tells at its status endpoint what
  has become of them, and a federation entity somewhere else verifies what it is shown.
  Whoever answers on the web, and in whatever order things happen: a mark that is accepted
  in the name of an issuer over whose keys nobody has a hold is one that it created.
-/

import Fedservice.Entity.KeptKeys
import Fedservice.Entity.OwnConfigurations
import Fedservice.TrustMarkEntity.Entity

namespace Fedservice.TrustMarkEntity

open Fedservice.Lib Fedservice.Py Fedservice.EntityStatement Fedservice.Crypto
  Fedservice.Entity Fedservice.Entity.Function

variable {Jar Key : Type}

/-! ## The issuer -/

/-- An issuer of trust marks. -/
structure TrustMarkIssuer where
  entityId : EntityId
  trustMarkSpecification : Dict TrustMarkSpecification
  statusEndpoint : String

/-- `JWT.pack`, of what `create_trust_mark` has put in the database. -/
def TrustMarkIssuer.pack (issuer : TrustMarkIssuer) (content : TmInfo)
    (delegation : Option (Option (Delegation Key))) (signer : Key) : SignedTrustMark Key where
  payload :=
    { iss := some issuer.entityId, sub := some content.sub, id := some content.id
      exp := content.exp, delegation := delegation }
  signer := signer

/-- A value that went through a query: an empty one does not get there. -/
def fromQuery (value : String) : Option String := if value = "" then none else some value

/-- What the client of the status endpoint gets. -/
def statusResponse (db : FileDB) (now : Int) (request : StatusRequest) : Except Exc (Dict Json) := do
  let active ← trustMarkStatus db now
    { sub := fromQuery request.sub, trustMarkId := fromQuery request.trustMarkId }
  return if active then Dict.ofList [("active", .bool true)]
    else Dict.ofList [("error", .str "not_found")]

/-- The world of somebody who verifies trust marks, the issuer at its endpoint included. -/
def TrustMarkIssuer.at (issuer : TrustMarkIssuer) (db : FileDB) (now : Int) (env : WhoEnv Key) :
    WhoEnv Key :=
  { env with
    trustMarkStatus := fun n request =>
      if request.fetchEndpoint = .str issuer.statusEndpoint then statusResponse db now request
      else env.trustMarkStatus n request }

/-! ## Issuing and verifying -/

/-- The database of the issuer, the marks it has created, and the one who verifies. -/
structure MarkState (Jar Key : Type) where
  issued : FileDB
  created : List (SignedTrustMark Key) := []
  verifier : FederationState Jar Key

/-- Run something at the issuer. -/
def inIssued {α : Type} (m : EStateM Exc FileDB α) : EStateM Exc (MarkState Jar Key) α :=
  zoom (·.issued) (fun issued st => { st with issued := issued }) m

/-- Run something at the one who verifies. -/
def inVerifier {α : Type} (m : EStateM Exc (FederationState Jar Key) α) :
    EStateM Exc (MarkState Jar Key) α :=
  zoom (·.verifier) (fun verifier st => { st with verifier := verifier }) m

/-- What happens: a mark is created, the one who verifies looks something up, or is shown a
    mark when it is that late at the issuer. -/
inductive MarkOp (Key : Type) where
  | create (call : CreateCall) (delegation : Option (Option (Delegation Key)))
      (signer : Key)
  | lookUp (op : TrustCall)
  | verify (trustMark : Option (SignedTrustMark Key)) (checkWithIssuer : Bool) (now : Int)

variable [KeyStore Jar Key] [DecidableEq Key] (issuer : TrustMarkIssuer) (env : WhoEnv Key)

/-- One of these, and the mark that is accepted. -/
def MarkOp.run : MarkOp Key → EStateM Exc (MarkState Jar Key) (Option (TrustMark Key))
  | .create call delegation signer => do
      let content ← inIssued (createTrustMark issuer.trustMarkSpecification call)
      modify fun st => { st with created := st.created ++ [issuer.pack content delegation signer] }
      return none
  | .lookUp op => do
      let _ ← inVerifier (op.call env.ho env.collector)
      return none
  | .verify trustMark checkWithIssuer now => do
      let st ← get
      inVerifier (verifyTrustMark (issuer.at st.issued now env) trustMark checkWithIssuer)

/-! ## What is asked meanwhile -/

section Asked

variable {env} {n : Nat}

omit [KeyStore Jar Key] [DecidableEq Key] in
/-- No less has been asked. -/
def Asked (n : Nat) (fe : FederationState Jar Key) : Prop :=
  n ≤ fe.collector.asked

theorem cacheInvariant_asked {env : CollectorEnv Key} :
    CacheInvariant env (fun _ => True) (fun _ => True) (fun st => n ≤ st.asked) where
  asked _ _ hlater hst := hst.trans hlater
  store _ _ _ _ _ _ _ _ hst := hst
  evict _ _ _ _ _ _ hst := hst.trans (Nat.le_succ _)
  remember _ _ _ _ _ _ _ _ _ _ hst := hst
  forget _ _ _ _ _ hst := hst
  listed _ _ _ _ _ _ _ _ := trivial
  subject _ _ := trivial

theorem ensures_getTrustChains_asked (e : EntityId) :
    Ensures (Asked n : FederationState Jar Key → Prop)
      (getTrustChains env.ho env.collector e) (fun _ => True) :=
  ensures_getTrustChains_caches cacheInvariant_asked trivial

theorem ensures_dealWithDelegation_asked (trustMark : TrustMark Key) (trustAnchor : EntityId) :
    Ensures (Asked n : FederationState Jar Key → Prop)
      (dealWithDelegation env.toTrustMarkEnv trustMark trustAnchor) (fun _ => True) := by
  unfold dealWithDelegation
  cases trustMark.delegation with
  | none => exact ensures_pure trivial
  | some delegation =>
      have hmetadata : Ensures (Asked n : FederationState Jar Key → Prop)
          (collectorMetadata env.toTrustMarkEnv trustAnchor) (fun _ => True) :=
        ensures_getMetadata_caches cacheInvariant_asked trivial
      have hverify : Ensures (Asked n : FederationState Jar Key → Prop)
          (verifyDelegation env.toTrustMarkEnv trustMark delegation trustAnchor)
          (fun _ => True) := by
        refine hmetadata.bind fun metadata _ => ?_
        refine (ensures_lift fun _ _ => trivial).bind fun fe (_ : True) => ?_
        refine (ensures_lift fun _ _ => trivial).bind fun id (_ : True) => ?_
        exact ensures_lift fun _ _ => trivial
      exact hverify.bind fun _ _ => ensures_pure trivial

omit [DecidableEq Key] in
theorem ensures_verificationKeys_asked (iss : EntityId) (tcs : List (TrustChain Key)) :
    Ensures (Asked n : FederationState Jar Key → Prop)
      (verificationKeys env.toTrustMarkEnv iss tcs) (fun _ => True) := by
  refine ensures_get.bind fun fe hfe => ?_
  by_cases hheld : (!(keysOf fe.keyjar iss).isEmpty) = true
  · rw [if_pos hheld]
    exact ensures_pure trivial
  · rw [if_neg hheld]
    refine (ensures_lift fun _ _ => trivial).bind fun tcs' (_ : True) => ?_
    split
    · refine (ensures_lift fun _ _ => trivial).bind fun jwks (_ : True) => ?_
      refine Ensures.bind (ensures_set ?_) fun _ (_ : True) => ensures_pure trivial
      exact hfe
    · exact ensures_throw _

/-- The verifier once it has looked at the clock. -/
theorem ensures_verifier_asked (jws : SignedTrustMark Key) (trustAnchor : EntityId) :
    Ensures (Asked n : FederationState Jar Key → Prop) (do
        dealWithDelegation env.toTrustMarkEnv jws.payload trustAnchor
        let iss ← lift (claimItem "iss" jws.payload.iss)
        let trustChains ← getVerifiedTrustChains env.ho env.collector iss
        if trustChains.isEmpty then return none
        else if trustAnchor ∉ trustChains.map (·.anchor) then return none
        else do
          let keys ← verificationKeys env.toTrustMarkEnv iss trustChains
          return if jws.signer ∈ keys then some jws.payload else none) (fun _ => True) := by
  refine (ensures_dealWithDelegation_asked jws.payload trustAnchor).bind fun _ _ => ?_
  refine (ensures_lift fun _ _ => trivial).bind fun iss (_ : True) => ?_
  have hchains : Ensures (Asked n : FederationState Jar Key → Prop)
      (getVerifiedTrustChains env.ho env.collector iss) (fun _ => True) :=
    ensures_getVerifiedTrustChains_caches cacheInvariant_asked trivial
  refine hchains.bind fun tcs _ => ?_
  by_cases hempty : tcs.isEmpty = true
  · rw [if_pos hempty]
    exact ensures_pure trivial
  · rw [if_neg hempty]
    by_cases hanchor : trustAnchor ∉ tcs.map (·.anchor)
    · rw [if_pos hanchor]
      exact ensures_pure trivial
    · rw [if_neg hanchor]
      exact (ensures_verificationKeys_asked iss tcs).bind fun _ _ => ensures_pure trivial

omit [KeyStore Jar Key] [DecidableEq Key] in
theorem ensures_checkWithTrustMarkIssuer_asked (tmiTrustChain : TrustChain Key)
    (verified : TrustMark Key) :
    Ensures (Asked n : FederationState Jar Key → Prop)
      (checkWithTrustMarkIssuer env tmiTrustChain verified) (fun _ => True) := by
  refine (ensures_lift fun _ _ => trivial).bind fun sub (_ : True) => ?_
  refine (ensures_lift fun _ _ => trivial).bind fun id (_ : True) => ?_
  refine (ensures_lift fun _ _ => trivial).bind fun fe (_ : True) => ?_
  cases fe with
  | none => exact ensures_throw _
  | some fe =>
      refine (ensures_lift fun _ _ => trivial).bind fun endpoint (_ : True) => ?_
      have hrequest : Ensures (Asked n : FederationState Jar Key → Prop)
          (requestTrustMarkStatus env ⟨endpoint, sub, id⟩) (fun _ => True) := by
        unfold requestTrustMarkStatus
        split
        · exact ensures_throw _
        · have hask : Ensures (fun st : CollectorState Key => n ≤ st.asked) (do
              let st ← get
              set { st with asked := st.asked + 1 }
              lift (env.trustMarkStatus st.asked ⟨endpoint, sub, id⟩)) (fun _ => True) := by
            refine ensures_get.bind fun st hst => ?_
            refine Ensures.bind (ensures_set ?_) fun _ (_ : True) => ensures_lift fun _ _ => trivial
            exact Nat.le_succ_of_le hst
          exact hask.zoom fun _ _ => rfl
      exact hrequest.bind fun _ _ => ensures_pure trivial

end Asked

/-! ## What verify_trust_mark has seen to -/

section Verified

variable {issuer} {env} {fe fe' : FederationState Jar Key} {mark : TrustMark Key}

/-- The clock that is read for a mark that the verifier returns has not passed its time, and
    more is asked after that. -/
theorem fresh_of_trustMarkVerifier_call {jws : SignedTrustMark Key} {trustAnchor : EntityId}
    (h : TrustMarkVerifier.call env.toTrustMarkEnv (some jws) trustAnchor fe =
      .ok (some mark) fe') :
    Asked (fe.collector.asked + 2) fe' ∧
      ∀ exp, jws.payload.exp = some exp → env.collector.now (fe.collector.asked + 1) ≤ exp := by
  obtain ⟨⟨⟩, fe₁, hmessage, h⟩ := bind_eq_ok.mp h
  have hasked : fe₁.collector.asked = fe.collector.asked + 1 := by
    obtain ⟨now, fe₂, hclock, hreject⟩ := bind_eq_ok.mp hmessage
    obtain ⟨-, rfl⟩ := EStateM.Result.ok.inj hclock
    cases hrejects : env.messageRejects now jws.payload with
    | some e =>
        simp only [hrejects] at hreject
        exact absurd hreject (by simp)
    | none =>
        simp only [hrejects] at hreject
        obtain ⟨-, rfl⟩ := EStateM.Result.ok.inj hreject
        rfl
  obtain ⟨expired, fe₂, hexpired, h⟩ := bind_eq_ok.mp h
  obtain ⟨rfl, rfl⟩ := EStateM.Result.ok.inj hexpired
  rw [hasked] at h
  by_cases hpast : jws.payload.exp.any
      (fun exp => decide (exp < env.collector.now (fe.collector.asked + 1))) = true
  · -- it would have been answered with `None`
    rw [if_pos hpast] at h
    exact absurd (EStateM.Result.ok.inj h).1 (by simp)
  · rw [if_neg hpast] at h
    constructor
    · refine (ensures_verifier_asked jws trustAnchor).of_ok ?_ h
      show fe.collector.asked + 2 ≤ fe.collector.asked + 1 + 1
      exact le_refl _
    · intro exp hexp
      rw [hexp] at hpast
      simpa using hpast

omit [KeyStore Jar Key] [DecidableEq Key] in
/-- The endpoint in the metadata of the trust chain has answered that the mark is active. -/
theorem active_of_checkWithTrustMarkIssuer {tmiTrustChain : TrustChain Key}
    (h : checkWithTrustMarkIssuer env tmiTrustChain mark fe = .ok true fe') :
    ∃ sub id metadata endpoint n response, mark.sub = some sub ∧ mark.id = some id ∧
      tmiTrustChain.metadata.item "federation_entity" = .ok (some metadata) ∧
      metadata.lookup "federation_trust_mark_status_endpoint" = some endpoint ∧
      env.trustMarkStatus n ⟨endpoint, sub, id⟩ = .ok response ∧
      (response.lookup "active").any (·.eqv (.bool true)) = true := by
  obtain ⟨sub, fe₁, hsub, h⟩ := bind_eq_ok.mp h
  obtain ⟨id, fe₂, hid, h⟩ := bind_eq_ok.mp h
  obtain ⟨found, fe₃, hfound, h⟩ := bind_eq_ok.mp h
  cases found with
  | none => exact absurd h (by simp)
  | some metadata =>
      obtain ⟨endpoint, fe₄, hendpoint, h⟩ := bind_eq_ok.mp h
      obtain ⟨response, fe₅, hresponse, h⟩ := bind_eq_ok.mp h
      obtain ⟨hactive, -⟩ := EStateM.Result.ok.inj h
      unfold requestTrustMarkStatus at hresponse
      by_cases hmissing : (!endpoint.truthy) = true
      · rw [if_pos hmissing] at hresponse
        exact absurd hresponse (by simp)
      · rw [if_neg hmissing] at hresponse
        obtain ⟨c, hask, -⟩ := inCollector_eq_ok.mp hresponse
        obtain ⟨st, c₁, hget, hask⟩ := bind_eq_ok.mp hask
        obtain ⟨-, c₂, -, hask⟩ := bind_eq_ok.mp hask
        exact ⟨sub, id, metadata, endpoint, st.asked, response,
          claimItem_eq_ok.mp (lift_eq_ok.mp hsub).1, claimItem_eq_ok.mp (lift_eq_ok.mp hid).1,
          (lift_eq_ok.mp hfound).1, item_eq_ok.mp (lift_eq_ok.mp hendpoint).1,
          (lift_eq_ok.mp hask).1, hactive⟩

/-- A mark that is accepted: trust chains of its issuer were found, the verifier has returned
    it, and, where it was to be checked, the issuer has said that it is active. -/
theorem verifyTrustMark_eq_some {jws : SignedTrustMark Key} {checkWithIssuer : Bool}
    (h : verifyTrustMark env (some jws) checkWithIssuer fe = .ok (some mark) fe') :
    ∃ iss tmiTrustChain rest fe₁ fe₂, jws.payload.iss = some iss ∧
      getTrustChains env.ho env.collector iss fe = .ok (tmiTrustChain :: rest) fe₁ ∧
      TrustMarkVerifier.call env.toTrustMarkEnv (some jws) tmiTrustChain.anchor fe₁ =
        .ok (some mark) fe₂ ∧
      (checkWithIssuer = true →
        checkWithTrustMarkIssuer env tmiTrustChain mark fe₂ = .ok true fe') ∧
      (checkWithIssuer = false → fe' = fe₂) := by
  obtain ⟨iss, fe₀, hlift, hrest⟩ := bind_eq_ok.mp h
  obtain ⟨hiss, rfl⟩ := lift_eq_ok.mp hlift
  obtain ⟨tcs, fe₁, hchains, hrest⟩ := bind_eq_ok.mp hrest
  cases tcs with
  | nil => exact absurd (EStateM.Result.ok.inj hrest).1 (by simp)
  | cons tmiTrustChain rest =>
      obtain ⟨verified, fe₂, hverified, hrest⟩ := bind_eq_ok.mp hrest
      refine ⟨iss, tmiTrustChain, rest, fe₁, fe₂, claimItem_eq_ok.mp hiss, hchains, ?_⟩
      by_cases hcheck : checkWithIssuer = true
      · rw [if_pos hcheck] at hrest
        cases verified with
        | none => exact absurd hrest (by simp)
        | some mark' =>
            obtain ⟨active, fe₃, hactive, hrest⟩ := bind_eq_ok.mp hrest
            cases active with
            | false => exact absurd (EStateM.Result.ok.inj hrest).1 (by simp)
            | true =>
                obtain ⟨hsame, rfl⟩ := EStateM.Result.ok.inj hrest
                obtain rfl := Option.some.inj hsame
                exact ⟨hverified, fun _ => hactive, fun hc => absurd hcheck (by simp [hc])⟩
      · rw [if_neg hcheck] at hrest
        obtain ⟨rfl, rfl⟩ := EStateM.Result.ok.inj hrest
        exact ⟨hverified, fun hc => absurd hc hcheck, fun _ => rfl⟩

/-- The clock has been read in between, and the mark has not expired by it. -/
theorem fresh_of_verifyTrustMark {jws : SignedTrustMark Key} {checkWithIssuer : Bool}
    (h : verifyTrustMark env (some jws) checkWithIssuer fe = .ok (some mark) fe') :
    ∃ n, fe.collector.asked ≤ n ∧ n < fe'.collector.asked ∧
      ∀ exp, jws.payload.exp = some exp → env.collector.now n ≤ exp := by
  obtain ⟨iss, tmiTrustChain, rest, fe₁, fe₂, -, hchains, hcall, hchecked, hsame⟩ :=
    verifyTrustMark_eq_some h
  have hbefore : Asked fe.collector.asked fe₁ :=
    (ensures_getTrustChains_asked iss).of_ok (le_refl fe.collector.asked) hchains
  obtain ⟨hafter, hfresh⟩ := fresh_of_trustMarkVerifier_call hcall
  have hend : Asked (fe₁.collector.asked + 2) fe' := by
    cases checkWithIssuer with
    | false =>
        rw [hsame rfl]
        exact hafter
    | true =>
        exact (ensures_checkWithTrustMarkIssuer_asked tmiTrustChain mark).of_ok hafter
          (hchecked rfl)
  exact ⟨fe₁.collector.asked + 1, Nat.le_succ_of_le hbefore, hend, hfresh⟩

end Verified

/-! ## From end to end -/

/-- A mark in the name of the issuer that is signed with an own key of it is one that it has
    created: nobody else can sign with it, and it signs no other marks. -/
def MarkOp.Unforged (own : EntityId → Key → Prop) (st : MarkState Jar Key) : MarkOp Key → Prop
  | .verify (some trustMark) _ _ => trustMark.payload.iss = some issuer.entityId →
      own issuer.entityId trustMark.signer → trustMark ∈ st.created
  | _ => True

/-- The first trust chain of the issuer tells where its status endpoint is. -/
def StatusEndpointFound (fe : FederationState Jar Key) : Prop :=
  ∃ tmiTrustChain rest fe' metadata,
    getTrustChains env.ho env.collector issuer.entityId fe = .ok (tmiTrustChain :: rest) fe' ∧
    tmiTrustChain.metadata.item "federation_entity" = .ok (some metadata) ∧
    metadata.lookup "federation_trust_mark_status_endpoint" = some (.str issuer.statusEndpoint)

/-- The issuer has created the mark, lists its subject, and, if it was found to be asked,
    reports it active; and by the clock of the one who verifies, read while that is done, it
    has not expired. -/
structure RightlyAccepted (st st' : MarkState Jar Key) (trustMark : Option (SignedTrustMark Key))
    (mark : TrustMark Key) (checkWithIssuer : Bool) (now : Int) : Prop where
  created : ∃ jws ∈ st.created, trustMark = some jws ∧ mark = jws.payload
  listed : ∃ id sub, mark.id = some id ∧ mark.sub = some sub ∧ Listed st.issued now id sub ∧
    (checkWithIssuer = true → StatusEndpointFound issuer env st.verifier →
      ReportedActive st.issued now id sub)
  fresh : ∃ n, st.verifier.collector.asked ≤ n ∧ n < st'.verifier.collector.asked ∧
    ∀ exp, mark.exp = some exp → env.collector.now n ≤ exp

/-- A mark in the name of the issuer is accepted rightly. -/
def MarkOp.AcceptsRightly (st : MarkState Jar Key) : MarkOp Key → Prop
  | .verify trustMark checkWithIssuer now => ∀ mark st',
      MarkOp.run issuer env (.verify trustMark checkWithIssuer now) st = .ok (some mark) st' →
      mark.iss = some issuer.entityId →
        RightlyAccepted issuer env st st' trustMark mark checkWithIssuer now
  | _ => True

/-- The database has a record of the mark. -/
def Recorded (db : FileDB) (trustMark : SignedTrustMark Key) : Prop :=
  ∃ lines tmInfo, trustMark.payload.id = some tmInfo.id ∧
    trustMark.payload.sub = some tmInfo.sub ∧ db.lines tmInfo.id = .ok lines ∧ tmInfo ∈ lines

section Runs

variable {issuer} {env} {known : SignedStatement Key → Prop} {own : EntityId → Key → Prop}
  {stolen : Key → Prop}

/-- The one who verifies holds own keys for all that are not lost, and there is a record of
    each mark. -/
structure MarksRecorded (known : SignedStatement Key → Prop) (own : EntityId → Key → Prop)
    (stolen : Key → Prop) (st : MarkState Jar Key) : Prop where
  verifier : OwnState known own stolen st.verifier
  recorded : ∀ trustMark ∈ st.created, Recorded st.issued trustMark

omit [KeyStore Jar Key] [DecidableEq Key] in
/-- Records stay. -/
theorem Recorded.createTrustMark {db : FileDB} {trustMark : SignedTrustMark Key}
    (h : Recorded db trustMark) (specifications : Dict TrustMarkSpecification)
    (call : CreateCall) :
    Recorded (finalState (createTrustMark specifications call db)) trustMark := by
  obtain ⟨lines, tmInfo, hid, hsub, hlines, hmem⟩ := h
  exact ⟨_, tmInfo, hid, hsub, (lines_createTrustMark db call tmInfo.id).2 lines hlines,
    List.mem_append_left _ hmem⟩

omit [KeyStore Jar Key] [DecidableEq Key] in
/-- And a mark that is created is recorded. -/
theorem recorded_of_createTrustMark {db db' : FileDB} {call : CreateCall} {content : TmInfo}
    (h : createTrustMark issuer.trustMarkSpecification call db = .ok content db')
    (delegation : Option (Option (Delegation Key))) (signer : Key) :
    Recorded db' (issuer.pack content delegation signer) := by
  unfold createTrustMark at h
  cases hspec : issuer.trustMarkSpecification.lookup call.id with
  | none =>
      rw [hspec] at h
      exact absurd h (by simp)
  | some specification =>
      rw [hspec] at h
      simp only at h
      rw [bind_of_ok (get_apply db)] at h
      obtain ⟨added, db₁, hlift, hset⟩ := bind_eq_ok.mp h
      obtain ⟨hadd, -⟩ := lift_eq_ok.mp hlift
      obtain ⟨rfl, rfl⟩ := EStateM.Result.ok.inj hset
      obtain ⟨file, hfile, hpure⟩ := except_bind_eq_ok.mp hadd
      have hlines : db.lines (markContent specification call).id =
          .ok ((db.files.lookup file).getD []) := by
        rw [FileDB.lines, hfile]
        rfl
      have hadded := (lines_add hadd (markContent specification call).id).2 _ hlines
      rw [if_pos rfl] at hadded
      exact ⟨_, _, rfl, rfl, hadded, List.mem_append_right _ (List.mem_singleton_self _)⟩

variable (hkept : KeysKept known own stolen) (hanswers : ∀ s, Answers env.collector s → known s)

include hkept hanswers

/-- Where the issuer tells its own, only what the client is told is different. -/
theorem ensures_verifyTrustMark_at (db : FileDB) (now : Int)
    (trustMark : Option (SignedTrustMark Key)) (checkWithIssuer : Bool) :
    Ensures (OwnState known own stolen : FederationState Jar Key → Prop)
      (verifyTrustMark (issuer.at db now env) trustMark checkWithIssuer)
      (fun verified => ∀ mark ∈ verified, ∃ jws, trustMark = some jws ∧ mark = jws.payload ∧
        Authentic known own stolen jws) := by
  have hat : ∀ s, Answers (issuer.at db now env).collector s → known s := hanswers
  exact ensures_verifyTrustMark hkept hat trustMark checkWithIssuer

/-- Step: whatever happens, it stays so. -/
theorem ensures_run (op : MarkOp Key) :
    Ensures (MarksRecorded known own stolen) (op.run issuer env : EStateM Exc (MarkState Jar Key) _)
      (fun _ => True) := by
  cases op with
  | create call delegation signer =>
      intro st hst
      refine ⟨?_, fun _ _ _ => trivial⟩
      rw [MarkOp.run]
      have hstays : ∀ trustMark ∈ st.created, Recorded
          (finalState (createTrustMark issuer.trustMarkSpecification call st.issued)) trustMark :=
        fun trustMark hmem => (hst.recorded trustMark hmem).createTrustMark _ call
      cases hcreate : createTrustMark issuer.trustMarkSpecification call st.issued with
      | error e db' =>
          -- nothing is created, and what is recorded stays
          have hissued : inIssued (createTrustMark issuer.trustMarkSpecification call) st =
              .error e { st with issued := db' } := zoom_of_error hcreate
          rw [hcreate, finalState_error] at hstays
          rw [bind_of_error hissued]
          exact ⟨hst.verifier, hstays⟩
      | ok content db' =>
          have hissued : inIssued (createTrustMark issuer.trustMarkSpecification call) st =
              .ok content { st with issued := db' } := zoom_of_ok hcreate
          rw [hcreate, finalState_ok] at hstays
          rw [bind_of_ok hissued]
          refine ⟨hst.verifier, fun trustMark hmem => ?_⟩
          rcases List.mem_append.mp hmem with hbefore | hnew
          · exact hstays trustMark hbefore
          · rw [List.mem_singleton.mp hnew]
            exact recorded_of_createTrustMark hcreate delegation signer
  | lookUp op =>
      have hverifies : VerifiesTo env.ho known (HoldsOwn known own stolen : Jar → Prop)
          (SoundChain known own stolen) := hkept.verifiesTo
      have hcall : Ensures (MarksRecorded known own stolen)
          (inVerifier (op.call env.ho env.collector)) (HandsOut (SoundChain known own stolen)) :=
        (ensures_call_keeps hverifies hanswers op).zoom_within (fun _ hst => hst.verifier)
          fun _ _ hfe hst => ⟨hfe, hst.recorded⟩
      exact hcall.bind fun _ _ => ensures_pure trivial
  | verify trustMark checkWithIssuer now =>
      refine ensures_get.bind fun st _ => ?_
      intro st' hst'
      refine ⟨?_, fun _ _ _ => trivial⟩
      exact ((ensures_verifyTrustMark_at hkept hanswers st.issued now trustMark
        checkWithIssuer).zoom_within (fun _ hst => hst.verifier) (fun _ _ hfe hst =>
          ⟨hfe, hst.recorded⟩) st' hst').1

omit [KeyStore Jar Key] [DecidableEq Key] hkept hanswers in
/-- The answer of the status endpoint says no more than the endpoint. -/
theorem reportedActive_of_statusResponse {db : FileDB} {now : Int} {endpoint : Json}
    {sub : EntityId} {id : String} {response : Dict Json}
    (h : statusResponse db now ⟨endpoint, sub, id⟩ = .ok response)
    (hactive : (response.lookup "active").any (·.eqv (.bool true)) = true) :
    ReportedActive db now id sub := by
  obtain ⟨active, hstatus, hresponse⟩ := except_bind_eq_ok.mp h
  have hresponse := except_pure_eq_ok.mp hresponse
  cases active with
  | false =>
      rw [← hresponse] at hactive
      exact absurd hactive (by decide)
  | true =>
      by_cases hsub : sub = ""
      · simp only [fromQuery, if_pos hsub] at hstatus
        exact absurd (Except.ok.inj hstatus) (by simp)
      · by_cases hid : id = ""
        · simp only [fromQuery, if_neg hsub, if_pos hid] at hstatus
          exact absurd (Except.ok.inj hstatus) (by simp)
        · rw [fromQuery, fromQuery, if_neg hsub, if_neg hid] at hstatus
          exact hstatus

/-- Step: what is accepted now is accepted rightly. -/
theorem acceptsRightly_of_marksRecorded (hown : ¬ Lost known own stolen issuer.entityId)
    {st : MarkState Jar Key} (hst : MarksRecorded known own stolen st) {op : MarkOp Key}
    (hunforged : op.Unforged issuer own st) : op.AcceptsRightly issuer env st := by
  cases op with
  | create call delegation signer => exact trivial
  | lookUp op => exact trivial
  | verify trustMark checkWithIssuer now =>
      intro mark st' hrun hiss
      obtain ⟨st₁, st₂, hget, hrun⟩ := bind_eq_ok.mp hrun
      obtain ⟨rfl, rfl⟩ := EStateM.Result.ok.inj hget
      obtain ⟨fe', hverify, rfl⟩ := zoom_eq_ok.mp hrun
      obtain ⟨jws, rfl, rfl, iss, hjws, hauthentic⟩ := (ensures_verifyTrustMark_at hkept hanswers
        st.issued now trustMark checkWithIssuer st.verifier hst.verifier).2 _ fe' hverify mark rfl
      obtain rfl : iss = issuer.entityId := Option.some.inj (hjws.symm.trans hiss)
      have hcreated := hunforged hiss (hauthentic.resolve_left hown)
      obtain ⟨lines, tmInfo, hid, hsub, hlines, hmem⟩ := hst.recorded jws hcreated
      obtain ⟨iss, tmiTrustChain, rest, fe₁, fe₂, hjws', hchains, hcall, hchecked, -⟩ :=
        verifyTrustMark_eq_some hverify
      obtain rfl : iss = issuer.entityId := Option.some.inj (hjws'.symm.trans hiss)
      refine ⟨⟨jws, hcreated, rfl, rfl⟩, ⟨tmInfo.id, tmInfo.sub, hid, hsub, ?_, ?_⟩, ?_⟩
      · exact (listed_iff hlines).mpr (List.mem_map_of_mem hmem)
      · rintro hcheck ⟨tmiTrustChain', rest', fe₃, metadata, hchains', hmetadata, hfound⟩
        obtain ⟨sub, id, metadata', endpoint, n, response, hsub', hid', hmetadata', hendpoint,
          hresponse, hactive⟩ := active_of_checkWithTrustMarkIssuer (hchecked hcheck)
        -- it is the endpoint that the trust chain tells
        obtain ⟨hsame, -⟩ := EStateM.Result.ok.inj (hchains.symm.trans hchains')
        obtain ⟨rfl, -⟩ := List.cons.inj hsame
        obtain rfl := Option.some.inj (Except.ok.inj (hmetadata'.symm.trans hmetadata))
        obtain rfl := Option.some.inj (hendpoint.symm.trans hfound)
        obtain rfl := Option.some.inj (hsub'.symm.trans hsub)
        obtain rfl := Option.some.inj (hid'.symm.trans hid)
        have hasked : (issuer.at st.issued now env).trustMarkStatus n
            ⟨.str issuer.statusEndpoint, tmInfo.sub, tmInfo.id⟩ =
              statusResponse st.issued now ⟨.str issuer.statusEndpoint, tmInfo.sub, tmInfo.id⟩ :=
          if_pos rfl
        rw [hasked] at hresponse
        exact reportedActive_of_statusResponse hresponse hactive
      · obtain ⟨n, hbefore, hafter, hexp⟩ := fresh_of_verifyTrustMark hverify
        exact ⟨n, hbefore, hafter, hexp⟩

end Runs

/-- Run: whatever servers answer, and however marks are created, looked up and verified in
    between: where own keys are all there is to begin with, a mark that is accepted in the name
    of an issuer over which no stolen key has a hold is one that the issuer has created before. -/
theorem accepted_marks_were_created (issuer : TrustMarkIssuer) (env : WhoEnv Key) {jar : Jar}
    {own : EntityId → Key → Prop} {stolen : Key → Prop}
    (hstart : ∀ id k, k ∈ keysOf jar id → own id k)
    (hkept : KeysKept (Answers env.collector) own stolen)
    (hown : ¬ Lost (Answers env.collector) own stolen issuer.entityId) (db : FileDB)
    (ops : List (MarkOp Key))
    (hunforged : RunMeets (MarkOp.run issuer env) (MarkOp.Unforged issuer own)
      { issued := db, verifier := { keyjar := jar } } ops) :
    RunMeets (MarkOp.run issuer env) (MarkOp.AcceptsRightly issuer env)
      { issued := db, verifier := { keyjar := jar } } ops := by
  have hverifier : OwnState (Answers env.collector) own stolen
      ({ keyjar := jar } : FederationState Jar Key) :=
    ⟨cachesKnown_empty, fun id k hk => Or.inr (hstart id k hk), fun e tcs h => by simp at h⟩
  refine (run_invariant (MarksRecorded (Answers env.collector) own stolen) ?_ ops
    ⟨hverifier, fun _ h => absurd h List.not_mem_nil⟩ hunforged).2
  intro st op hst hmeets
  exact ⟨(ensures_run hkept (fun _ h => h) op st hst).1,
    acceptsRightly_of_marksRecorded hkept (fun _ h => h) hown hst hmeets⟩

/-- An anchor, and an issuer of trust marks below it that tells where its status endpoint is. -/
def markFederation : List (String × SignedStatement Nat) :=
  [("https://ta.org/.well-known/openid-federation",
    ⟨{ iss := "https://ta.org", sub := "https://ta.org", exp := 1000, jwks := some [1]
       metadata := some (withFetchEndpoint "https://ta.org/fetch") }, 1⟩),
   ("https://tmi.org/.well-known/openid-federation",
    ⟨{ iss := "https://tmi.org", sub := "https://tmi.org", exp := 1000, jwks := some [2]
       authorityHints := some ["https://ta.org"]
       metadata := some (Dict.ofList [("federation_entity", Dict.ofList
        [("federation_trust_mark_status_endpoint", .str "https://tmi.org/status")])]) }, 2⟩),
   ("https://ta.org/fetch?https://tmi.org",
    ⟨{ iss := "https://ta.org", sub := "https://tmi.org", exp := 1000, jwks := some [2] }, 1⟩)]

/-- Somebody who verifies trust marks there. -/
def markVerifier : WhoEnv Nat where
  collector := onPages ["https://ta.org"] markFederation
  importJwks := fun _ => .ok []
  client :=
    { entityStatement := fun _ _ _ _ => .error .badSignature
      entityConfiguration := fun _ _ _ _ => .error .badSignature
      list := fun _ _ _ _ => .ok [] }
  trustMarkStatus := fun _ _ => .ok ∅
  entityId := "https://rp.org"

/-- The issuer. -/
def sirtfiIssuer : TrustMarkIssuer where
  entityId := "https://tmi.org"
  trustMarkSpecification := Dict.ofList [("https://refeds.org/sirtfi", { lifetime := 100 })]
  statusEndpoint := "https://tmi.org/status"

/-- A mark is created, and verified. -/
def createdAndShown : List (MarkOp Nat) :=
  [.create { id := "https://refeds.org/sirtfi", sub := "https://rp.org", now := 0 } none 2,
   .verify (some (sirtfiIssuer.pack { id := "https://refeds.org/sirtfi", sub := "https://rp.org"
                                      iat := 0, exp := some 100 } none 2)) true 10]

/-- The keys that the two have made for themselves. -/
def markKeys (id : EntityId) (k : Nat) : Prop :=
  (id, k) ∈ [("https://ta.org", 1), ("https://tmi.org", 2)]

theorem accepted_marks_were_created_sirtfi :
    RunMeets (MarkOp.run sirtfiIssuer markVerifier)
        (MarkOp.AcceptsRightly sirtfiIssuer markVerifier)
        ⟨{ config := Dict.ofList [("https://refeds.org/sirtfi", "file")] }, [], trustsTa⟩
        createdAndShown ∧
      (runOutcomes (MarkOp.run sirtfiIssuer markVerifier)
        ⟨{ config := Dict.ofList [("https://refeds.org/sirtfi", "file")] }, [], trustsTa⟩
        createdAndShown).map (fun r => (outcome r).toOption.join.isSome) = [false, true] := by
  have hstart : ∀ id k, k ∈ keysOf (⟨[("https://ta.org", [1])]⟩ : AssocJar Nat) id →
      markKeys id k := by
    intro id k hk
    obtain ⟨b, hb, rfl, hk⟩ := AssocJar.mem_keys.mp hk
    obtain rfl := List.mem_singleton.mp hb
    obtain rfl := List.mem_singleton.mp hk
    unfold markKeys
    decide
  have hlists : ∀ s ∈ markFederation.map (·.2), ∀ k ∈ s.payload.keys,
      markKeys s.payload.sub k := by
    unfold markKeys
    decide
  have hkept : KeysKept (Answers markVerifier.collector) markKeys (fun _ => False) := by
    refine ⟨fun id id' k h h' _ => ?_, fun s hs _ => hlists s (mem_of_answers_onPages hs)⟩
    simp only [markKeys, List.mem_cons, Prod.mk.injEq, List.not_mem_nil, or_false] at h h'
    rcases h with ⟨rfl, rfl⟩ | ⟨rfl, rfl⟩
    · exact (h'.resolve_right fun h => absurd h.2 (by decide)).1.symm
    · exact (h'.resolve_left fun h => absurd h.2 (by decide)).1.symm
  have hown : ∀ id, ¬ Lost (Answers markVerifier.collector) markKeys (fun _ => False) id := by
    intro id hlost
    cases hlost with
    | robbed _ hstolen => exact hstolen
    | under _ _ hstolen => exact hstolen
  refine ⟨accepted_marks_were_created sirtfiIssuer markVerifier hstart hkept (hown _) _ _ ?_,
    ?_⟩
  · exact ⟨trivial, fun _ _ => List.mem_singleton.mpr rfl, trivial⟩
  · decide +kernel

end Fedservice.TrustMarkEntity
