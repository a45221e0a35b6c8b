/-
  Fedservice.Entity.Server.Fetch

  `Fetch` (entity/server/fetch.py), with a dictionary of subordinates.  What is
  signed for a subordinate is meant to follow from its record, the policies and who
  the server is; `process_request` works on the record itself, and takes the issuer
  from the request.
-/

import Fedservice.EntityStatement.Create

namespace Fedservice.Entity.Server

open Fedservice.Lib Fedservice.Py Fedservice.EntityStatement

/-! ## The server -/

/-- The configuration of the server. -/
structure FetchEnv where
  entityId : EntityId
  /-- What `get_metadata` of the entity gives. -/
  metadata : Json := .null
  authorityHints : Json := .null
  /-- `keyjar.export_jwks()` -/
  exportJwks : Json := .null

/-- Records or policies, by name. -/
abbrev Registry := Finmap (fun _ : String => Record)

/-- The subordinates and the policy table of the server. -/
structure FetchState where
  subordinate : Registry := ∅
  policy : Registry := ∅

/-- A fetch request. -/
structure FetchRequest where
  iss : Option EntityId := none
  sub : Option EntityId := none

/-! ## process_request -/

/-- The policies for entity types, put together by the loop. -/
structure TypePolicies where
  metadata : Dict Json := ∅
  metadataPolicy : Dict Json := ∅

/-- `_policy[typ].update({entity_type: _et_policy[typ]})`, if there is something. -/
def addTypePolicy (typ entityType : String) (policy : Record) (collected : Dict Json) : Dict Json :=
  match policy.lookup typ with
  | some value => collected.update (Dict.ofList [(entityType, value)])
  | none => collected

/-- The loop over the entity types. -/
def typePolicies (policies : Registry) : List Json → TypePolicies → Except Exc TypePolicies
  | [], collected => .ok collected
  | entityType :: rest, collected =>
      match entityType with
      | .str name =>
          match policies.lookup name with
          | none => typePolicies policies rest collected
          | some policy =>
              if policy = ∅ then typePolicies policies rest collected
              else typePolicies policies rest {
                metadata := addTypePolicy "metadata" name policy collected.metadata
                metadataPolicy :=
                  addTypePolicy "metadata_policy" name policy collected.metadataPolicy }
      | other =>
          -- no policy has such a name, and some values cannot be looked up
          if other.hashable then typePolicies policies rest collected else .error .typeError

/-- A dictionary as a JSON value. -/
def dictJson (d : Dict Json) : Json := .obj (d.entries.map (fun e => (e.1, e.2)))

/-- The policy for the entity types of a record, if they have any. -/
def entityTypePolicy (policies : Registry) (entityTypes : Json) : Except Exc (Option Record) :=
  match entityTypes.iter? with
  | none => .error .typeError
  | some types => do
      let collected ← typePolicies policies types {}
      if collected.metadata.isEmpty && collected.metadataPolicy.isEmpty then return none
      else return some ((Finmap.singleton "metadata" (dictJson collected.metadata)).insert
        "metadata_policy" (dictJson collected.metadataPolicy))

/-- The entity specific policy, unless it is empty. -/
def specificPolicy (policies : Registry) (sub : EntityId) : Option Record :=
  (policies.lookup sub).filter fun policy => policy ≠ ∅

/-- `_response[..] = ..` on the record that is registered. -/
def FetchState.setRecord (sub : EntityId) (record : Record) (st : FetchState) : FetchState :=
  { st with subordinate := st.subordinate.insert sub record }

variable (env : FetchEnv)

/-- The issuer that a request asks for. -/
def FetchEnv.issuer (request : FetchRequest) : EntityId :=
  match request.iss with
  | some iss => if iss = "" then env.entityId else iss
  | none => env.entityId

/-- The statement of the server about itself. -/
def ownStatement : Except Exc UnsignedStatement :=
  createEntityStatement env.exportJwks env.entityId env.entityId
    ((Finmap.singleton "metadata" env.metadata).insert "authority_hints" env.authorityHints)

/-- `if not 'authority_hints' in _response: _response["authority_hints"] = [_issuer]` -/
def addIssuer (issuer sub : EntityId) (response : Record) : EStateM Exc FetchState Record :=
  if "authority_hints" ∈ response then return response
  else do
    -- if nothing specified add myself
    let hinted := response.insert "authority_hints" (.arr [.str issuer])
    modify (·.setRecord sub hinted)
    return hinted

/-- The policy part of `process_request`. -/
def addPolicy (sub : EntityId) (response : Record) : EStateM Exc FetchState Record := do
  let st ← get
  match specificPolicy st.policy sub with
  | some policy => do
      modify (·.setRecord sub (policy ∪ response))  -- the response is the record itself
      return policy ∪ response
  | none =>
      match response.lookup "entity_types" with
      | none => return response
      | some entityTypes => do
          -- from here on the response is a copy
          match ← lift (entityTypePolicy st.policy entityTypes) with
          | none => return response.erase "entity_types"
          | some policy => return policy ∪ response.erase "entity_types"

/-- `process_request`. -/
def processRequest (request : FetchRequest) : EStateM Exc FetchState UnsignedStatement := do
  let issuer := env.issuer request
  let sub := request.sub.getD ""
  if sub = "" ∨ sub = issuer then lift (ownStatement env)
  else do
    let st ← get
    match st.subordinate.lookup sub with
    | none => throw (.unknownEntity sub)
    | some record =>
        if record = ∅ then throw (.unknownEntity sub)
        else do
          let response ← addIssuer issuer sub record
          let response ← addPolicy sub response
          lift (createEntityStatement env.exportJwks issuer sub response)

/-! ## What a statement is meant to follow from -/

/-- The record with the issuer as its superior, if it names none. -/
def hinted (issuer : EntityId) (record : Record) : Record :=
  if "authority_hints" ∈ record then record
  else record.insert "authority_hints" (.arr [.str issuer])

/-- The record with the policies added. -/
def withPolicies (policies : Registry) (sub : EntityId) (record : Record) : Except Exc Record :=
  match specificPolicy policies sub with
  | some policy => .ok (policy ∪ record)
  | none =>
      match record.lookup "entity_types" with
      | none => .ok record
      | some entityTypes => do
          return ((← entityTypePolicy policies entityTypes).getD ∅) ∪ record.erase "entity_types"

/-- The statement of an issuer about a subordinate with that record. -/
def statementAbout (policies : Registry) (issuer sub : EntityId) (record : Record) :
    Except Exc UnsignedStatement := do
  createEntityStatement env.exportJwks issuer sub
    (← withPolicies policies sub (hinted issuer record))

/-- What a server says about a subordinate, by its record, the policy table and the
    server's own ID. -/
def asRegistered (policies : Registry) (sub : EntityId) (record : Record) :
    Except Exc UnsignedStatement :=
  if sub = "" ∨ sub = env.entityId then ownStatement env
  else statementAbout env policies env.entityId sub record

/-- What becomes of the record. -/
def recordAfter (policies : Registry) (issuer sub : EntityId) (record : Record) : Record :=
  ((specificPolicy policies sub).getD ∅) ∪ hinted issuer record

/-! ## What process_request does -/

theorem setRecord_of_lookup {st : FetchState} {sub : EntityId} {record : Record}
    (h : st.subordinate.lookup sub = some record) : st.setRecord sub record = st := by
  have hsame : st.subordinate.insert sub record = st.subordinate := by
    refine Finmap.ext_lookup fun name => ?_
    by_cases hname : name = sub
    · rw [hname, Finmap.lookup_insert, h]
    · rw [Finmap.lookup_insert_of_ne _ hname]
  rw [FetchState.setRecord, hsame]

theorem setRecord_setRecord (st : FetchState) (sub : EntityId) (record record' : Record) :
    (st.setRecord sub record).setRecord sub record' = st.setRecord sub record' := by
  rw [FetchState.setRecord, FetchState.setRecord, FetchState.setRecord, Finmap.insert_insert]

theorem addIssuer_apply {issuer sub : EntityId} {record : Record} {st : FetchState}
    (h : st.subordinate.lookup sub = some record) :
    addIssuer issuer sub record st =
      .ok (hinted issuer record) (st.setRecord sub (hinted issuer record)) := by
  unfold addIssuer hinted
  by_cases hhints : "authority_hints" ∈ record
  · rw [if_pos hhints, if_pos hhints, setRecord_of_lookup h]
    rfl
  · rw [if_neg hhints, if_neg hhints]
    rfl

/-- The claims that are returned, and the record that is left. -/
theorem addPolicy_apply {sub : EntityId} {record : Record} {st : FetchState}
    (h : st.subordinate.lookup sub = some record) :
    outcome (addPolicy sub record st) = withPolicies st.policy sub record ∧
      finalState (addPolicy sub record st) =
        st.setRecord sub (((specificPolicy st.policy sub).getD ∅) ∪ record) := by
  unfold addPolicy withPolicies
  rw [bind_of_ok (get_apply st)]
  cases hspecific : specificPolicy st.policy sub with
  | some policy => exact ⟨rfl, rfl⟩
  | none =>
      rw [Option.getD_none, Finmap.empty_union, setRecord_of_lookup h]
      cases htypes : record.lookup "entity_types" with
      | none => exact ⟨rfl, rfl⟩
      | some entityTypes =>
          simp only
          cases hpolicy : entityTypePolicy st.policy entityTypes with
          | error e => exact ⟨rfl, rfl⟩
          | ok found =>
              rw [bind_of_ok (lift_ok found st)]
              cases found with
              | none => exact ⟨congrArg Except.ok Finmap.empty_union.symm, rfl⟩
              | some policy => exact ⟨rfl, rfl⟩

/-- A request about a subordinate: the statement, and the registry that is left. -/
theorem processRequest_apply {request : FetchRequest} {sub : EntityId} {record : Record}
    {st : FetchState} (hsub : request.sub = some sub) (hne : sub ≠ "")
    (hother : sub ≠ env.issuer request) (hlookup : st.subordinate.lookup sub = some record)
    (hrecord : record ≠ ∅) :
    outcome (processRequest env request st) =
        statementAbout env st.policy (env.issuer request) sub record ∧
      finalState (processRequest env request st) =
        st.setRecord sub (recordAfter st.policy (env.issuer request) sub record) := by
  have hget : (get : EStateM Exc FetchState FetchState) st = .ok st st := rfl
  unfold processRequest
  rw [hsub, Option.getD_some, if_neg (not_or.mpr ⟨hne, hother⟩), bind_of_ok hget]
  simp only [hlookup, if_neg hrecord]
  rw [bind_of_ok (addIssuer_apply hlookup)]
  have hhinted : (st.setRecord sub (hinted (env.issuer request) record)).subordinate.lookup sub =
      some (hinted (env.issuer request) record) := Finmap.lookup_insert _
  obtain ⟨hout, hstate⟩ := addPolicy_apply hhinted
  rw [setRecord_setRecord] at hstate
  unfold statementAbout
  have hpolicy : (st.setRecord sub (hinted (env.issuer request) record)).policy = st.policy := rfl
  rw [hpolicy] at hout hstate
  cases hadd : addPolicy sub (hinted (env.issuer request) record)
      (st.setRecord sub (hinted (env.issuer request) record)) with
  | error e st₁ =>
      rw [hadd] at hout hstate
      rw [bind_of_error hadd, ← hout]
      exact ⟨rfl, hstate⟩
  | ok response st₁ =>
      rw [hadd] at hout hstate
      rw [bind_of_ok hadd, ← hout, outcome_lift, finalState_lift]
      exact ⟨rfl, hstate⟩

/-- Other requests leave the registry alone. -/
theorem processRequest_other {request : FetchRequest} {st : FetchState}
    (h : ∀ sub record, request.sub = some sub → sub ≠ "" → sub ≠ env.issuer request →
      st.subordinate.lookup sub = some record → record = ∅) :
    finalState (processRequest env request st) = st := by
  have hget : (get : EStateM Exc FetchState FetchState) st = .ok st st := rfl
  unfold processRequest
  by_cases hself : request.sub.getD "" = "" ∨ request.sub.getD "" = env.issuer request
  · rw [if_pos hself, finalState_lift]
  · rw [if_neg hself, bind_of_ok hget]
    cases hlookup : st.subordinate.lookup (request.sub.getD "") with
    | none => rfl
    | some record =>
        cases hsub : request.sub with
        | none =>
            rw [hsub] at hself
            exact absurd (Or.inl rfl) hself
        | some sub =>
            rw [hsub, Option.getD_some] at hself hlookup
            obtain ⟨hne, hother⟩ := not_or.mp hself
            have hempty : record = ∅ := h sub record hsub hne hother hlookup
            simp only [if_pos hempty]
            rfl

/-! ## Runs -/

/-- A request, or a change of the policy table. -/
inductive FetchOp where
  | fetch (request : FetchRequest)
  | changePolicy (policy : Registry)

def FetchOp.run : FetchOp → EStateM Exc FetchState (Option UnsignedStatement)
  | .fetch request => do
      return some (← processRequest env request)
  | .changePolicy policy => do
      modify fun st => { st with policy := policy }
      return none

/-- The answer to a request about a registered subordinate is as registered, and the
    registry is left as it was. -/
def ObeysRegistry (registry : Registry) (st : FetchState) : FetchOp → Prop
  | .fetch request =>
      (finalState (processRequest env request st)).subordinate = registry ∧
        ∀ sub record, request.sub = some sub → registry.lookup sub = some record → record ≠ ∅ →
          outcome (processRequest env request st) = asRegistered env st.policy sub record
  | .changePolicy _ => True

/-- Nothing can be signed for the subordinate: its claims or the policies for it collide
    with the parameters of `create_entity_statement`, or its entity types are none. -/
def Unsignable (policies : Registry) (sub : EntityId) (record : Record) : Prop :=
  ∀ claims, withPolicies policies sub record = .ok claims → ∃ name ∈ ownParameters, name ∈ claims

/-- A request about a registered subordinate that asks for no other issuer, where the
    record names its superiors and there is no policy for it that says anything new. -/
def FetchOp.InOrder (registry : Registry) (st : FetchState) : FetchOp → Prop
  | .fetch request => ∀ sub record, request.sub = some sub → registry.lookup sub = some record →
      record ≠ ∅ → sub ≠ "" →
        if sub = env.entityId then env.issuer request = env.entityId
        else env.issuer request ≠ sub ∧ "authority_hints" ∈ record ∧
          (∀ policy, st.policy.lookup sub = some policy → policy ∪ record = record) ∧
          (env.issuer request = env.entityId ∨ Unsignable st.policy sub record)
  | .changePolicy _ => True

/-- The record is left as it is. -/
theorem recordAfter_eq_iff {policies : Registry} {issuer sub : EntityId} {record : Record} :
    recordAfter policies issuer sub record = record ↔ "authority_hints" ∈ record ∧
      ∀ policy, policies.lookup sub = some policy → policy ∪ record = record := by
  have hspecific : ∀ r : Record, (specificPolicy policies sub).getD ∅ ∪ r =
      (policies.lookup sub).getD ∅ ∪ r := by
    intro r
    unfold specificPolicy
    cases policies.lookup sub with
    | none => rfl
    | some policy =>
        by_cases hempty : policy = ∅
        · simp [Option.filter, hempty]
        · simp [Option.filter, hempty]
  unfold recordAfter
  rw [hspecific]
  by_cases hhints : "authority_hints" ∈ record
  · rw [hinted, if_pos hhints]
    cases policies.lookup sub with
    | none => simp [hhints, Finmap.empty_union]
    | some policy => simp [hhints]
  · refine ⟨fun heq => absurd ?_ hhints, fun h => absurd h.1 hhints⟩
    rw [← heq, Finmap.mem_union, hinted, if_neg hhints]
    exact Or.inr (Finmap.mem_insert.mpr (Or.inl rfl))

/-- Whether the issuer makes a difference. -/
theorem statementAbout_eq_iff {policies : Registry} {issuer sub : EntityId} {record : Record}
    (hhints : "authority_hints" ∈ record) :
    statementAbout env policies issuer sub record =
        statementAbout env policies env.entityId sub record ↔
      issuer = env.entityId ∨ Unsignable policies sub record := by
  unfold statementAbout Unsignable
  rw [hinted, hinted, if_pos hhints, if_pos hhints]
  cases hclaims : withPolicies policies sub record with
  | error e => simp
  | ok claims =>
      simp only [except_ok_bind, Except.ok.injEq, forall_eq']
      constructor
      · intro heq
        cases hown : createEntityStatement env.exportJwks env.entityId sub claims with
        | error e => exact Or.inr (createEntityStatement_eq_error_iff.mp hown).2
        | ok statement =>
            rw [hown] at heq
            have hissuer := createEntityStatement_iss heq
            exact Or.inl (hissuer.symm.trans (createEntityStatement_iss hown))
      · rintro (rfl | hcollides)
        · rfl
        · have hraises : ∀ iss, createEntityStatement env.exportJwks iss sub claims =
              .error .typeError := fun _ => createEntityStatement_eq_error_iff.mpr ⟨rfl, hcollides⟩
          rw [hraises, hraises]

/-- What the server says about itself it says about nobody else. -/
theorem ownStatement_eq_ok : ∃ statement, ownStatement env = .ok statement ∧
    statement.iss = env.entityId ∧ statement.payload.lookup "sub" = some (.str env.entityId) := by
  cases hown : ownStatement env with
  | error e =>
      obtain ⟨-, name, hname, hmem⟩ := createEntityStatement_eq_error_iff.mp hown
      rw [Finmap.mem_insert, Finmap.mem_singleton] at hmem
      rcases hmem with rfl | rfl
      · exact absurd hname (by decide)
      · exact absurd hname (by decide)
  | ok statement =>
      exact ⟨statement, rfl, createEntityStatement_iss hown, createEntityStatement_sub hown⟩

theorem statementAbout_eq_ok {policies : Registry} {issuer sub : EntityId} {record : Record}
    {statement : UnsignedStatement}
    (h : statementAbout env policies issuer sub record = .ok statement) :
    statement.iss = issuer ∧ statement.payload.lookup "sub" = some (.str sub) := by
  obtain ⟨claims, -, hcreate⟩ := except_bind_eq_ok.mp h
  exact ⟨createEntityStatement_iss hcreate, createEntityStatement_sub hcreate⟩

/-- A request about a registered subordinate that names it as the issuer as well. -/
theorem obeysRegistry_self_iff {registry : Registry} {st : FetchState}
    (hst : st.subordinate = registry) {request : FetchRequest} {sub : EntityId} {record : Record}
    (hself : processRequest env request st = lift (ownStatement env) st) (hne : sub ≠ "") :
    (finalState (processRequest env request st)).subordinate = registry ∧
        outcome (processRequest env request st) = asRegistered env st.policy sub record ↔
      sub = env.entityId := by
  rw [hself, finalState_lift, outcome_lift, asRegistered]
  by_cases hown : sub = env.entityId
  · rw [if_pos (Or.inr hown)]
    exact ⟨fun _ => hown, fun _ => ⟨hst, rfl⟩⟩
  · rw [if_neg (not_or.mpr ⟨hne, hown⟩)]
    refine ⟨fun ⟨_, heq⟩ => absurd ?_ hown, fun h => absurd h hown⟩
    -- the answer is about the server, and not about the subordinate
    obtain ⟨statement, hok, -, habout⟩ := ownStatement_eq_ok env
    rw [hok, eq_comm] at heq
    have hsub := (statementAbout_eq_ok env heq).2
    rw [habout, Option.some.injEq, Json.str.injEq] at hsub
    exact hsub.symm

/-- A request about a registered subordinate that names another issuer, or none. -/
theorem obeysRegistry_other_iff {registry : Registry} {st : FetchState}
    (hst : st.subordinate = registry) {request : FetchRequest} {sub : EntityId} {record : Record}
    (hsub : request.sub = some sub) (hne : sub ≠ "") (hother : sub ≠ env.issuer request)
    (hlookup : registry.lookup sub = some record) (hrecord : record ≠ ∅) :
    (finalState (processRequest env request st)).subordinate = registry ∧
        outcome (processRequest env request st) = asRegistered env st.policy sub record ↔
      sub ≠ env.entityId ∧ "authority_hints" ∈ record ∧
        (∀ policy, st.policy.lookup sub = some policy → policy ∪ record = record) ∧
        (env.issuer request = env.entityId ∨ Unsignable st.policy sub record) := by
  rw [← hst] at hlookup
  obtain ⟨hout, hstate⟩ := processRequest_apply env hsub hne hother hlookup hrecord
  rw [hout, hstate, asRegistered]
  by_cases hown : sub = env.entityId
  · rw [if_pos (Or.inr hown)]
    refine ⟨fun ⟨_, heq⟩ => absurd ?_ hother, fun h => absurd hown h.1⟩
    -- the server is asked for a statement of another issuer about itself
    obtain ⟨statement, hok, hiss, -⟩ := ownStatement_eq_ok env
    rw [hok] at heq
    rw [hown, ← hiss]
    exact (statementAbout_eq_ok env heq).1
  · rw [if_neg (not_or.mpr ⟨hne, hown⟩)]
    have hsame : (st.setRecord sub (recordAfter st.policy (env.issuer request) sub
        record)).subordinate = registry ↔
          recordAfter st.policy (env.issuer request) sub record = record := by
      rw [← hst]
      constructor
      · intro heq
        have hkept := Finmap.lookup_insert st.subordinate (b := recordAfter st.policy
          (env.issuer request) sub record) (a := sub)
        rw [FetchState.setRecord] at heq
        simp only at heq
        rw [heq, hlookup, Option.some.injEq] at hkept
        exact hkept.symm
      · intro heq
        rw [heq, setRecord_of_lookup hlookup]
    rw [hsame, recordAfter_eq_iff]
    constructor
    · rintro ⟨⟨hhints, hpolicy⟩, heq⟩
      exact ⟨hown, hhints, hpolicy, (statementAbout_eq_iff env hhints).mp heq⟩
    · rintro ⟨-, hhints, hpolicy, hissuer⟩
      exact ⟨⟨hhints, hpolicy⟩, (statementAbout_eq_iff env hhints).mpr hissuer⟩

theorem forall_registered_iff {registry : Registry} {request : FetchRequest} {sub : EntityId}
    {record : Record} (hsub : request.sub = some sub) (hlookup : registry.lookup sub = some record)
    {P : EntityId → Record → Prop} :
    (∀ sub record, request.sub = some sub → registry.lookup sub = some record → P sub record) ↔
      P sub record := by
  refine ⟨fun h => h sub record hsub hlookup, fun h sub' record' hsub' hlookup' => ?_⟩
  obtain rfl := Option.some.inj (hsub.symm.trans hsub')
  obtain rfl := Option.some.inj (hlookup.symm.trans hlookup')
  exact h

/-- Step: a request obeys the registry exactly when it is in order. -/
theorem obeysRegistry_iff {registry : Registry} {st : FetchState}
    (hst : st.subordinate = registry) (op : FetchOp) :
    ObeysRegistry env registry st op ↔ op.InOrder env registry st := by
  cases op with
  | changePolicy policy => exact Iff.rfl
  | fetch request =>
      by_cases hregistered : ∃ sub record, request.sub = some sub ∧
          registry.lookup sub = some record ∧ record ≠ ∅ ∧ sub ≠ ""
      · obtain ⟨sub, record, hsub, hlookup, hrecord, hne⟩ := hregistered
        have hobeys : ObeysRegistry env registry st (.fetch request) ↔
            (finalState (processRequest env request st)).subordinate = registry ∧
              outcome (processRequest env request st) = asRegistered env st.policy sub record := by
          rw [ObeysRegistry, forall_registered_iff hsub hlookup, imp_iff_right hrecord]
        have horder : FetchOp.InOrder env registry st (.fetch request) ↔
            if sub = env.entityId then env.issuer request = env.entityId
            else env.issuer request ≠ sub ∧ "authority_hints" ∈ record ∧
              (∀ policy, st.policy.lookup sub = some policy → policy ∪ record = record) ∧
              (env.issuer request = env.entityId ∨ Unsignable st.policy sub record) := by
          rw [FetchOp.InOrder, forall_registered_iff hsub hlookup, imp_iff_right hrecord,
            imp_iff_right hne]
        rw [hobeys, horder]
        by_cases hself : sub = env.issuer request
        · -- answered with the server's own statement
          have hrun : processRequest env request st = lift (ownStatement env) st := by
            unfold processRequest
            rw [hsub, Option.getD_some, if_pos (Or.inr hself)]
          rw [obeysRegistry_self_iff env hst hrun hne]
          by_cases hown : sub = env.entityId
          · rw [if_pos hown, ← hself]
          · rw [if_neg hown]
            exact ⟨fun h => absurd h hown, fun h => absurd hself.symm h.1⟩
        · rw [obeysRegistry_other_iff env hst hsub hne hself hlookup hrecord]
          by_cases hown : sub = env.entityId
          · rw [if_pos hown, ← hown]
            exact ⟨fun h => absurd rfl h.1, fun h => absurd h.symm hself⟩
          · rw [if_neg hown]
            exact and_congr_left fun _ => ⟨fun _ h => hself h.symm, fun _ => hown⟩
      · -- nothing is asked about a registered subordinate
        refine ⟨fun _ sub record hsub hlookup hrecord hne => ?_, fun _ => ⟨?_, ?_⟩⟩
        · exact absurd ⟨sub, record, hsub, hlookup, hrecord, hne⟩ hregistered
        · have hsame : finalState (processRequest env request st) = st := by
            refine processRequest_other env fun sub record hsub hne _ hlookup => ?_
            by_contra hrecord
            exact hregistered ⟨sub, record, hsub, hst ▸ hlookup, hrecord, hne⟩
          rw [hsame, hst]
        · intro sub record hsub hlookup hrecord
          have hempty : sub = "" := by
            by_contra hne
            exact hregistered ⟨sub, record, hsub, hlookup, hrecord, hne⟩
          unfold processRequest asRegistered
          rw [hsub, Option.getD_some, if_pos (Or.inl hempty), if_pos (Or.inl hempty), outcome_lift]

/-- In a run of requests, with changes of the policies in between, every answer is as
    registered and the registry is left alone if and only if each request is in order. -/
theorem fetch_obeys_registry_iff (registry policies : Registry) (ops : List FetchOp) :
    RunMeets (FetchOp.run env) (ObeysRegistry env registry) ⟨registry, policies⟩ ops ↔
      RunMeets (FetchOp.run env) (FetchOp.InOrder env registry) ⟨registry, policies⟩ ops := by
  refine runMeets_iff_of_invariant (fun st => st.subordinate = registry)
    (fun st op hst => obeysRegistry_iff env hst op) (fun st op hst hobeys => ?_) rfl ops
  cases op with
  | fetch request =>
      rw [FetchOp.run, finalState_bind_pure]
      exact hobeys.1
  | changePolicy policy => exact hst

/-- A subordinate with nothing but a key. -/
def oneSubordinate : Registry :=
  Finmap.singleton "https://op.org" (Finmap.singleton "jwks" (.obj [("keys", .arr [])]))

/-- The issuer that was asked for once is a superior of the subordinate from then on. -/
theorem asked_issuer_stays :
    ¬ ∀ (env : FetchEnv) (registry policies : Registry) (ops : List FetchOp),
      RunMeets (FetchOp.run env) (ObeysRegistry env registry) ⟨registry, policies⟩ ops := by
  intro hall
  obtain ⟨-, ⟨-, hsecond⟩, -⟩ := hall { entityId := "https://ta.org" } oneSubordinate ∅
    [.fetch { iss := some "https://other.org", sub := some "https://op.org" },
      .fetch { sub := some "https://op.org" }]
  have hanswer := hsecond "https://op.org" _ rfl rfl (by decide)
  have hhints := congrArg (fun answer => (answer.toOption.bind fun statement =>
    statement.payload.lookup "authority_hints")) hanswer
  exact absurd hhints (by decide)

end Fedservice.Entity.Server
