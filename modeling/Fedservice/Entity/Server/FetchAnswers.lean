/-
  Fedservice.Entity.Server.FetchAnswers

  `Fetch` writes the hints and the policy that it adds for a subordinate into the
  record that is registered.  Adding them again changes nothing: under one policy
  table, and as long as nobody asks for two issuers of statements about the same
  subordinate, every answer is the one that the registry gave before any request.
-/

import Fedservice.Entity.Server.Fetch

namespace Fedservice.Entity.Server

open Fedservice.Lib Fedservice.Py Fedservice.EntityStatement

variable (env : FetchEnv) {registry policies : Registry} {issuer sub : EntityId} {record : Record}

/-! ## Adding hints and policies twice -/

theorem hinted_recordAfter (issuer' : EntityId) :
    hinted issuer' (recordAfter policies issuer sub record) =
      recordAfter policies issuer sub record := by
  have hhints : "authority_hints" ∈ recordAfter policies issuer sub record := by
    rw [recordAfter, Finmap.mem_union, hinted]
    by_cases hhints : "authority_hints" ∈ record
    · rw [if_pos hhints]
      exact Or.inr hhints
    · rw [if_neg hhints]
      exact Or.inr (Finmap.mem_insert.mpr (Or.inl rfl))
  rw [hinted, if_pos hhints]

theorem recordAfter_ne_empty : recordAfter policies issuer sub record ≠ ∅ := by
  intro hempty
  have hhinted := @hinted_recordAfter policies issuer sub record issuer
  rw [hempty, hinted, if_neg (Finmap.notMem_empty)] at hhinted
  exact Finmap.notMem_empty (hhinted ▸ Finmap.mem_insert.mpr (Or.inl rfl))

theorem union_union (policy record : Record) : policy ∪ (policy ∪ record) = policy ∪ record := by
  refine Finmap.ext_lookup fun name => ?_
  by_cases hname : name ∈ policy
  · rw [Finmap.lookup_union_left hname, Finmap.lookup_union_left hname]
  · rw [Finmap.lookup_union_right hname]

/-- The policies are there already, or are looked up by what the record still says. -/
theorem withPolicies_recordAfter :
    withPolicies policies sub (recordAfter policies issuer sub record) =
      withPolicies policies sub (hinted issuer record) := by
  unfold withPolicies recordAfter
  cases specificPolicy policies sub with
  | none => rw [Option.getD_none, Finmap.empty_union]
  | some policy =>
      simp only [Option.getD_some, union_union]

theorem recordAfter_recordAfter :
    recordAfter policies issuer sub (recordAfter policies issuer sub record) =
      recordAfter policies issuer sub record := by
  refine recordAfter_eq_iff.mpr ⟨?_, fun policy hpolicy => ?_⟩
  · by_contra hhints
    have hhinted := @hinted_recordAfter policies issuer sub record issuer
    rw [hinted, if_neg hhints] at hhinted
    exact hhints (hhinted ▸ Finmap.mem_insert.mpr (Or.inl rfl))
  · unfold recordAfter specificPolicy
    rw [hpolicy]
    by_cases hempty : policy = ∅
    · rw [hempty, Finmap.empty_union]
    · rw [Option.filter_some, decide_eq_true hempty, if_pos rfl, Option.getD_some, union_union]

/-- The statement that follows from a record follows from what becomes of it. -/
theorem statementAbout_recordAfter :
    statementAbout env policies issuer sub (recordAfter policies issuer sub record) =
      statementAbout env policies issuer sub record := by
  rw [statementAbout, hinted_recordAfter, withPolicies_recordAfter]
  rfl

/-- Where nothing is registered about the subject, or an empty record, the answer does not
    come from the registry. -/
theorem outcome_processRequest_other {request : FetchRequest} {st : FetchState}
    (h : ∀ sub record, request.sub = some sub → sub ≠ "" → sub ≠ env.issuer request →
      st.subordinate.lookup sub = some record → record = ∅) :
    outcome (processRequest env request st) =
      if request.sub.getD "" = "" ∨ request.sub.getD "" = env.issuer request then ownStatement env
      else .error (.unknownEntity (request.sub.getD "")) := by
  have hget : (get : EStateM Exc FetchState FetchState) st = .ok st st := rfl
  unfold processRequest
  by_cases hself : request.sub.getD "" = "" ∨ request.sub.getD "" = env.issuer request
  · rw [if_pos hself, if_pos hself, outcome_lift]
  · rw [if_neg hself, if_neg hself, bind_of_ok hget]
    obtain ⟨hne, hother⟩ := not_or.mp hself
    cases hsub : request.sub with
    | none =>
        rw [hsub] at hne
        exact absurd rfl hne
    | some sub =>
        rw [hsub, Option.getD_some] at hne hother
        rw [Option.getD_some]
        cases hlookup : st.subordinate.lookup sub with
        | none => rfl
        | some record =>
            simp only [if_pos (h sub record hsub hne hother hlookup)]
            rfl

/-! ## Runs -/

/-- Each record is as it was registered, or as a request leaves it. -/
structure AsAsked (registry policies : Registry) (issuerOf : EntityId → EntityId)
    (st : FetchState) : Prop where
  policy : st.policy = policies
  records : ∀ sub, st.subordinate.lookup sub = registry.lookup sub ∨
    ∃ record, registry.lookup sub = some record ∧ record ≠ ∅ ∧
      st.subordinate.lookup sub = some (recordAfter policies (issuerOf sub) sub record)

/-- Step: the answer is that of the registry, and the records stay as they are asked for. -/
theorem AsAsked.processRequest {issuerOf : EntityId → EntityId} {request : FetchRequest}
    (hissuer : ∀ sub, request.sub = some sub → env.issuer request = issuerOf sub)
    {st : FetchState} (hst : AsAsked registry policies issuerOf st) :
    AsAsked registry policies issuerOf (finalState (processRequest env request st)) ∧
      outcome (processRequest env request st) =
        outcome (processRequest env request ⟨registry, policies⟩) := by
  obtain ⟨rfl, hrecords⟩ := hst
  by_cases hregistered : ∃ sub record, request.sub = some sub ∧ sub ≠ "" ∧
      sub ≠ env.issuer request ∧ registry.lookup sub = some record ∧ record ≠ ∅
  · obtain ⟨sub, record, hsub, hne, hother, hlookup, hrecord⟩ := hregistered
    have hfirst := (processRequest_apply env hsub hne hother
      (show (FetchState.mk registry st.policy).subordinate.lookup sub = some record from hlookup)
      hrecord).1
    rw [hfirst, hissuer sub hsub]
    have hother' : sub ≠ issuerOf sub := hissuer sub hsub ▸ hother
    -- the record as registered, or as the first request left it
    rcases hrecords sub with hsame | ⟨record', hlookup', -, hafter⟩
    · obtain ⟨hout, hleft⟩ := processRequest_apply env hsub hne hother (hsame.trans hlookup) hrecord
      rw [hout, hleft, hissuer sub hsub]
      refine ⟨⟨rfl, fun sub' => ?_⟩, rfl⟩
      by_cases hsub' : sub' = sub
      · rw [hsub']
        exact Or.inr ⟨record, hlookup, hrecord, Finmap.lookup_insert _⟩
      · rw [FetchState.setRecord, Finmap.lookup_insert_of_ne _ hsub']
        exact hrecords sub'
    · obtain rfl := Option.some.inj (hlookup.symm.trans hlookup')
      obtain ⟨hout, hleft⟩ := processRequest_apply env hsub hne hother hafter recordAfter_ne_empty
      rw [hout, hleft, hissuer sub hsub, statementAbout_recordAfter, recordAfter_recordAfter,
        setRecord_of_lookup hafter]
      exact ⟨⟨rfl, hrecords⟩, rfl⟩
  · -- nothing is asked about a registered subordinate
    have hnone : ∀ sub record, request.sub = some sub → sub ≠ "" → sub ≠ env.issuer request →
        st.subordinate.lookup sub = some record →
          record = ∅ := by
      intro sub record hsub hne hother hlookup
      rcases hrecords sub with hsame | ⟨record', hlookup', hrecord', -⟩
      · rw [hlookup] at hsame
        by_contra hrecord
        exact hregistered ⟨sub, record, hsub, hne, hother, hsame.symm, hrecord⟩
      · exact absurd ⟨sub, record', hsub, hne, hother, hlookup', hrecord'⟩ hregistered
    rw [processRequest_other env hnone]
    refine ⟨⟨rfl, hrecords⟩, ?_⟩
    rw [outcome_processRequest_other env hnone,
      outcome_processRequest_other env fun sub record hsub hne hother hlookup => ?_]
    by_contra hrecord
    exact hregistered ⟨sub, record, hsub, hne, hother, hlookup, hrecord⟩

/-- Run: requests that agree on who speaks about whom are all answered as if each was the
    first. -/
theorem fetch_answers_as_first (registry policies : Registry) {issuerOf : EntityId → EntityId}
    {requests : List FetchRequest}
    (hissuer : ∀ request ∈ requests, ∀ sub, request.sub = some sub →
      env.issuer request = issuerOf sub) :
    RunMeets (processRequest env)
      (fun st request => outcome (processRequest env request st) =
        outcome (processRequest env request ⟨registry, policies⟩)) ⟨registry, policies⟩ requests :=
  (run_invariant_of_mem (AsAsked registry policies issuerOf)
    (fun request hrequest _ hst => hst.processRequest env (hissuer request hrequest))
    ⟨rfl, fun _ => Or.inl rfl⟩).2

/-- Two subordinates: about one there is a policy, the other is of a type that there is a
    policy for. -/
def twoSubordinates : Registry :=
  oneSubordinate.insert "https://rp.org"
    (Finmap.singleton "entity_types" (.arr [.str "openid_relying_party"]))

def twoPolicies : Registry :=
  (Finmap.singleton "https://op.org"
    (Finmap.singleton "metadata_policy" (.obj [("openid_provider", .obj [])]))).insert
    "openid_relying_party"
      (Finmap.singleton "metadata" (.obj [("contacts", .arr [.str "ops@rp.org"])]))

/-- The policy about one of the subordinates is written into its record, and what is asked
    for afterwards is answered as before. -/
theorem fetch_answers_as_first_twoSubordinates :
    RunMeets (processRequest { entityId := "https://ta.org" })
      (fun st request => outcome (processRequest { entityId := "https://ta.org" } request st) =
        outcome (processRequest { entityId := "https://ta.org" } request
          ⟨twoSubordinates, twoPolicies⟩))
      ⟨twoSubordinates, twoPolicies⟩ [{ sub := some "https://op.org" },
        { sub := some "https://rp.org" },
        { iss := some "https://ta.org", sub := some "https://op.org" }, {}] ∧
    ((runState (processRequest { entityId := "https://ta.org" }) ⟨twoSubordinates, twoPolicies⟩
      [{ sub := some "https://op.org" }]).subordinate.lookup "https://op.org").bind
        (·.lookup "metadata_policy") = some (.obj [("openid_provider", .obj [])]) :=
  ⟨@fetch_answers_as_first { entityId := "https://ta.org" } twoSubordinates twoPolicies
    (fun _ => "https://ta.org") _ (by simp [FetchEnv.issuer]), by rfl⟩

/-! ## What is said about an entity that is registered -/

/-- The claims that say who a statement is about, with which keys and for how long. -/
def identityClaims : List String := ["iss", "sub", "key_jar", "include_jwks", "jwks", "lifetime"]

/-- An entity is registered with its keys, and the policies keep off who it is. -/
structure Registered (policies : Registry) (record : Record) (sub : EntityId) (jwks : Json) :
    Prop where
  names : ∀ name ∈ ["iss", "sub", "key_jar", "include_jwks"], name ∉ record
  jwks : record.lookup "jwks" = some jwks
  lifetime : ∀ v, record.lookup "lifetime" = some v → ∃ n, v = .num n
  entityTypes : ∀ v, record.lookup "entity_types" = some v →
    ∃ types : List String, v = .arr (types.map .str)
  policy : ∀ policy, policies.lookup sub = some policy →
    ∀ name ∈ policy, name ∉ identityClaims

/-- What `get_info` prints about an entity, to be registered with its superiors. -/
def keysAndTypes (jwks : Json) (entityTypes : List String) : Record :=
  (Finmap.singleton "jwks" jwks).insert "entity_types" (.arr (entityTypes.map .str))

theorem registered_keysAndTypes {jwks : Json} {entityTypes : List String}
    (h : policies.lookup sub = none) :
    Registered policies (keysAndTypes jwks entityTypes) sub jwks where
  names name hname hmem := by
    rw [keysAndTypes, Finmap.mem_insert, Finmap.mem_singleton] at hmem
    rcases hmem with rfl | rfl <;> exact absurd hname (by decide)
  jwks := by
    rw [keysAndTypes, Finmap.lookup_insert_of_ne _ (by decide), Finmap.lookup_singleton_eq]
  lifetime v hlookup := by
    have hmem : "lifetime" ∈ keysAndTypes jwks entityTypes := Finmap.mem_of_lookup_eq_some hlookup
    rw [keysAndTypes, Finmap.mem_insert, Finmap.mem_singleton] at hmem
    rcases hmem with hmem | hmem <;> exact absurd hmem (by decide)
  entityTypes v hlookup := by
    rw [keysAndTypes, Finmap.lookup_insert, Option.some.injEq] at hlookup
    exact ⟨entityTypes, hlookup.symm⟩
  policy policy hlookup := absurd (h.symm.trans hlookup) (by simp)

/-- The loop over entity types that are texts gets through. -/
theorem exists_typePolicies (policies : Registry) (types : List String) (collected : TypePolicies) :
    ∃ collected', typePolicies policies (types.map .str) collected = .ok collected' := by
  induction types generalizing collected with
  | nil => exact ⟨collected, rfl⟩
  | cons name types ih =>
      rw [List.map_cons, typePolicies]
      cases policies.lookup name with
      | none => exact ih collected
      | some policy =>
          by_cases hpolicy : policy = ∅
          · simp only [if_pos hpolicy]
            exact ih collected
          · simp only [if_neg hpolicy]
            exact ih _

/-- The policy for entity types is about metadata. -/
theorem exists_entityTypePolicy (policies : Registry) (types : List String) :
    ∃ policy, entityTypePolicy policies (.arr (types.map .str)) = .ok policy ∧
      ∀ name ∈ policy.getD ∅, name ∉ identityClaims := by
  obtain ⟨collected, hcollected⟩ := exists_typePolicies policies types {}
  unfold entityTypePolicy
  simp only [Json.iter?, hcollected, except_ok_bind]
  by_cases hempty : (collected.metadata.isEmpty && collected.metadataPolicy.isEmpty) = true
  · rw [if_pos hempty]
    exact ⟨none, rfl, fun name hmem => absurd hmem Finmap.notMem_empty⟩
  · rw [if_neg hempty]
    refine ⟨_, rfl, fun name hmem => ?_⟩
    rw [Option.getD_some, Finmap.mem_insert, Finmap.mem_singleton] at hmem
    rcases hmem with rfl | rfl <;> decide

/-- Adding the policies leaves who the entity is. -/
theorem Registered.withPolicies {jwks : Json} (h : Registered policies record sub jwks) :
    ∃ claims, Server.withPolicies policies sub (hinted issuer record) = .ok claims ∧
      ∀ name ∈ identityClaims, claims.lookup name = record.lookup name := by
  have hhinted : ∀ name, name ≠ "authority_hints" →
      (hinted issuer record).lookup name = record.lookup name := by
    intro name hne
    unfold hinted
    by_cases hhints : "authority_hints" ∈ record
    · rw [if_pos hhints]
    · rw [if_neg hhints, Finmap.lookup_insert_of_ne _ hne]
  have hunion : ∀ policy claims : Record, (∀ name ∈ policy, name ∉ identityClaims) →
      ∀ name ∈ identityClaims, (policy ∪ claims).lookup name = claims.lookup name :=
    fun policy claims hpolicy name hname =>
      Finmap.lookup_union_right fun hmem => hpolicy name hmem hname
  have hne : ∀ name ∈ identityClaims, name ≠ "authority_hints" ∧ name ≠ "entity_types" := by decide
  unfold Server.withPolicies
  cases hspecific : specificPolicy policies sub with
  | some policy =>
      refine ⟨_, rfl, fun name hname => ?_⟩
      rw [hunion policy _ (h.policy policy (Option.filter_eq_some_iff.mp hspecific).1) name hname,
        hhinted name (hne name hname).1]
  | none =>
      cases htypes : (hinted issuer record).lookup "entity_types" with
      | none => exact ⟨_, rfl, fun name hname => hhinted name (hne name hname).1⟩
      | some v =>
          rw [hhinted _ (by decide)] at htypes
          obtain ⟨types, rfl⟩ := h.entityTypes v htypes
          obtain ⟨policy, hpolicy, hnames⟩ := exists_entityTypePolicy policies types
          refine ⟨_, by simp only [hpolicy]; rfl, fun name hname => ?_⟩
          rw [hunion _ _ hnames name hname, Finmap.lookup_erase_ne (hne name hname).2,
            hhinted name (hne name hname).1]

/-- What is said about an entity that is registered: who says it about whom, with the keys of the
    entity. -/
theorem Registered.statementAbout {jwks : Json} (h : Registered policies record sub jwks) :
    ∃ statement, Server.statementAbout env policies issuer sub record = .ok statement ∧
      statement.iss = issuer ∧ statement.payload.lookup "sub" = some (.str sub) ∧
      statement.payload.lookup "jwks" = some jwks ∧ ∃ n, statement.lifetime = .num n := by
  obtain ⟨claims, hclaims, hsame⟩ := @Registered.withPolicies policies issuer sub record jwks h
  have hnot : ∀ name ∈ ["iss", "sub", "key_jar", "include_jwks"], name ∉ claims := by
    intro name hname
    have hidentity : name ∈ identityClaims := by
      revert name
      decide
    rw [← Finmap.lookup_eq_none, hsame name hidentity, Finmap.lookup_eq_none]
    exact h.names name hname
  have hown : ∀ name ∈ ownParameters, name ∉ claims := by
    intro name hname
    refine hnot name ?_
    revert name
    decide
  have hcreate := @createEntityStatement_of_claims env.exportJwks issuer sub claims hown
    (hnot "include_jwks" (by decide))
  refine ⟨_, by rw [Server.statementAbout, hclaims]; exact hcreate, rfl,
    createEntityStatement_sub hcreate, ?_, ?_⟩
  · rw [hsame "jwks" (by decide), h.jwks]
    exact Finmap.lookup_insert _
  · rw [hsame "lifetime" (by decide)]
    cases hlifetime : record.lookup "lifetime" with
    | none => exact ⟨86400, rfl⟩
    | some v => exact h.lifetime v hlifetime

end Fedservice.Entity.Server
