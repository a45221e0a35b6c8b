/-
  Fedservice.Entity.Server.List

  `List` (entity/server/list.py): the subordinates of a server, or those of them that
  a request asks for.  Filters are meant to narrow the answer down; what the tests for
  them accept is put together instead, and in `filter` a later test overrules an
  earlier one.
-/

import Fedservice.EntityStatement.Create
import Fedservice.Lib.UpdateEach
import Mathlib.Data.List.Dedup

namespace Fedservice.Entity.Server.ListEndpoint

open Fedservice.Lib Fedservice.Py Fedservice.EntityStatement

/-! ## The server -/

/-- A trust mark of a subordinate, by its id. -/
structure TrustMark where
  id : String

/-- The configuration that a subordinate publishes about itself. -/
structure SubordinateConf where
  metadata : Option (Dict Record) := none
  trustMarks : Option (List TrustMark) := none

/-- The endpoint: the subordinates that are registered, how their configurations are fetched
    and how they are unpacked with the keys of subordinates. -/
structure ListEnv (Token : Type) where
  extended : Bool := false
  subordinate : Dict Record
  getEntityConfiguration : EntityId → Except Exc Token
  unpack : List (EntityId × Json) → Token → Except Exc SubordinateConf

/-- A list request. -/
structure ListRequest where
  entityType : Option String := none
  intermediate : Option Json := none
  trustMarked : Option Json := none
  trustMarkId : Option String := none
  clientId : Option String := none
  authenticated : Option Json := none

/-- `request.keys()` -/
def ListRequest.keys (request : ListRequest) : List String :=
  [("entity_type", request.entityType.isSome), ("intermediate", request.intermediate.isSome),
    ("trust_marked", request.trustMarked.isSome), ("trust_mark_id", request.trustMarkId.isSome),
    ("client_id", request.clientId.isSome),
    ("authenticated", request.authenticated.isSome)].filterMap
      (fun e => if e.2 then some e.1 else none)

/-- `"trust_marked" in request or "trust_mark_id" in request` -/
def ListRequest.asksForTrustMarks (request : ListRequest) : Bool :=
  request.trustMarked.isSome || request.trustMarkId.isSome

/-- What is answered: ids, or ids with configurations. -/
inductive ListAnswer where
  | ids (entityIds : List EntityId)
  | configurations (subordinateConf : Dict SubordinateConf)

/-- The ids in an answer. -/
def ListAnswer.entityIds : ListAnswer → List EntityId
  | .ids entityIds => entityIds
  | .configurations subordinateConf => subordinateConf.keys

/-! ## filter -/

/-- `key in d and d[key]` -/
def flagged (flag : Option Json) : Bool := flag.any Json.truthy

/-- `if entity_type: if entity_type in conf['metadata']` -/
def hasType (entityType : String) (conf : SubordinateConf) : Except Exc Bool :=
  if entityType = "" then .ok false
  else
    match conf.metadata with
    | none => .error (.keyError "metadata")
    | some metadata => .ok (decide (entityType ∈ metadata))

/-- Whether `filter` matches a configuration. -/
def matched (entityType trustMarkId : String) (trustMarked : Option Json)
    (conf : SubordinateConf) : Except Exc Bool := do
  let typed ← hasType entityType conf
  -- what was found of the type is overruled
  let marked := if flagged trustMarked then conf.trustMarks.isSome else typed
  if trustMarkId = "" then return marked
  else
    match conf.trustMarks with
    | none => .error .typeError  -- `None` cannot be iterated over
    | some trustMarks => return trustMarks.any (fun trustMark => trustMark.id = trustMarkId)

/-- `filter(subordinates=subordinates, **request)` -/
def filter (subordinates : Dict SubordinateConf) (request : ListRequest) :
    Except Exc (List EntityId) := do
  let kept ← keepEach (fun e => matched (request.entityType.getD "")
    (request.trustMarkId.getD "") request.trustMarked e.2) subordinates.entries
  return kept.map (·.1)

/-! ## collect_subordinates -/

/-- `conf[key]`, of a record. -/
def claim (record : Record) (key : String) : Except Exc Json :=
  match record.lookup key with
  | some value => .ok value
  | none => .error (.keyError key)

variable {Token : Type} (env : ListEnv Token)

/-- The loop of `collect_subordinates`.  All keys go into one key jar. -/
def collectLoop : List (Sigma fun _ : EntityId => Record) → List (EntityId × Json) →
    Dict SubordinateConf → Except Exc (Dict SubordinateConf)
  | [], _, sub => .ok sub
  | ⟨entityId, conf⟩ :: rest, keyjar, sub => do
      let entityConfiguration ← env.getEntityConfiguration entityId
      let keyjar := keyjar ++ [(entityId, ← claim conf "jwks")]
      let ec ← env.unpack keyjar entityConfiguration
      collectLoop rest keyjar (sub.insert entityId ec)

/-- `collect_subordinates`, with a configuration for every subordinate. -/
def collectSubordinates : Except Exc (Dict SubordinateConf) :=
  collectLoop env env.subordinate.entries [] ∅

/-! ## process_request -/

/-- Whether a record matches a request, as far as the registration says. -/
def registeredMatch (request : ListRequest) (item : Record) : Except Exc Bool :=
  if flagged request.intermediate && flagged (item.lookup "intermediate") then .ok true
  else
    match request.entityType with
    | some entityType => do Json.isIn (.str entityType) (← claim item "entity_type")
    | none => .ok false

/-- The configurations, if trust marks are asked for. -/
def requestedConf (request : ListRequest) : Except Exc (Option (Dict SubordinateConf)) :=
  if request.asksForTrustMarks then some <$> collectSubordinates env else .ok none

/-- The ids that `filter` adds, if trust marks are asked for. -/
def filterRequested (request : ListRequest) :
    Option (Dict SubordinateConf) → Except Exc (List EntityId)
  | some subordinateConf => filter subordinateConf request
  | none => .ok []

/-- `json.dumps` of the ids, with their configurations in the extended mode. -/
def answerWith (entityIds : List EntityId) : Option (Dict SubordinateConf) → Except Exc ListAnswer
  | some subordinateConf =>
      if env.extended && !subordinateConf.isEmpty then
        .configurations <$> Dict.insertEach id (item subordinateConf) entityIds ∅
      else .ok (.ids entityIds)
  | none => .ok (.ids entityIds)

/-- `process_request` -/
def processRequest (ho : HashOrder) (request : ListRequest) : Except Exc ListAnswer :=
  if request.keys.all (fun key => ["client_id", "authenticated"].contains key) then
    .ok (.ids env.subordinate.keys)
  else do
    let registered ← keepEach (fun e => registeredMatch request e.2) env.subordinate.entries
    let subordinateConf ← requestedConf env request
    let filtered ← filterRequested request subordinateConf
    let matchedEntityIds := ho.arrange (registered.map (·.1) ++ filtered).dedup
    answerWith env matchedEntityIds subordinateConf

variable {env} {ho : HashOrder} {request : ListRequest} {collected : Dict SubordinateConf}

/-! ## What the parts return -/

/-- There is a configuration for each key that was there and each id of the loop. -/
theorem mem_of_collectLoop {l : List (Sigma fun _ : EntityId => Record)}
    {keyjar : List (EntityId × Json)} {sub sub' : Dict SubordinateConf}
    (h : collectLoop env l keyjar sub = .ok sub') (id : EntityId) :
    id ∈ sub' ↔ id ∈ l.map (·.1) ∨ id ∈ sub := by
  induction l generalizing keyjar sub with
  | nil =>
      obtain rfl := Except.ok.inj h
      simp
  | cons e l ih =>
      obtain ⟨entityConfiguration, -, h⟩ := except_bind_eq_ok.mp h
      obtain ⟨jwks, -, h⟩ := except_bind_eq_ok.mp h
      obtain ⟨ec, -, h⟩ := except_bind_eq_ok.mp h
      rw [ih h, AList.mem_insert, List.map_cons, List.mem_cons]
      tauto

/-- What is collected are configurations of the subordinates. -/
theorem mem_collectSubordinates (h : collectSubordinates env = .ok collected) (id : EntityId) :
    id ∈ collected ↔ id ∈ env.subordinate := by
  rw [mem_of_collectLoop h, or_iff_left (AList.notMem_empty id)]
  exact AList.mem_keys.symm

/-- What `filter` returns, -/
theorem mem_of_filter {subordinates : Dict SubordinateConf} {kept : List EntityId}
    (h : filter subordinates request = .ok kept) (id : EntityId) :
    id ∈ kept ↔ ∃ conf, subordinates.lookup id = some conf ∧
      matched (request.entityType.getD "") (request.trustMarkId.getD "") request.trustMarked conf =
        .ok true := by
  obtain ⟨entries, hkept, h⟩ := except_bind_eq_ok.mp h
  obtain rfl := except_pure_eq_ok.mp h
  exact Dict.mem_keys_of_keepEach hkept id

/-- and it does exactly if no configuration makes it fail. -/
theorem exists_filter_iff {subordinates : Dict SubordinateConf} :
    (∃ kept, filter subordinates request = .ok kept) ↔
      ∀ id conf, subordinates.lookup id = some conf → ∃ b,
        matched (request.entityType.getD "") (request.trustMarkId.getD "") request.trustMarked
          conf = .ok b := by
  rw [← Dict.exists_keepEach_entries_iff]
  constructor
  · rintro ⟨kept, h⟩
    obtain ⟨entries, hkept, -⟩ := except_bind_eq_ok.mp h
    exact ⟨entries, hkept⟩
  · rintro ⟨entries, hkept⟩
    exact ⟨_, except_bind_eq_ok.mpr ⟨entries, hkept, rfl⟩⟩

/-- In both modes the ids are answered. -/
theorem exists_answerWith {ids : List EntityId} {subordinateConf : Option (Dict SubordinateConf)}
    (hids : ∀ conf, subordinateConf = some conf → ∀ id ∈ ids, id ∈ conf) :
    ∃ answer, answerWith env ids subordinateConf = .ok answer ∧
      ∀ id, id ∈ answer.entityIds ↔ id ∈ ids := by
  cases subordinateConf with
  | none => exact ⟨.ids ids, rfl, fun _ => Iff.rfl⟩
  | some conf =>
      unfold answerWith
      by_cases hextended : (env.extended && !conf.isEmpty) = true
      · simp only [if_pos hextended]
        have hvalues : ∀ i ∈ ids, ∃ v, item conf i = .ok v := by
          intro i hi
          obtain ⟨v, hv⟩ := Dict.mem_iff_lookup.mp (hids conf rfl i hi)
          exact ⟨v, item_eq_ok.mpr hv⟩
        obtain ⟨d, hd⟩ := (@Dict.exists_insertEach_iff _ _ _ id _ _ ∅).mpr hvalues
        obtain ⟨hall, hframe⟩ := Dict.insertEach_eq_ok Function.injective_id hd
        refine ⟨.configurations d, by rw [hd]; rfl, fun i => ?_⟩
        rw [ListAnswer.entityIds, ← AList.mem_keys]
        constructor
        · intro hi
          by_contra hnot
          rw [Dict.mem_iff_lookup, hframe i (fun j hj h => hnot (h ▸ hj))] at hi
          simp at hi
        · intro hi
          obtain ⟨v, -, hv⟩ := hall i hi
          exact Dict.mem_iff_lookup.mpr ⟨v, hv⟩
      · simp only [if_neg hextended]
        exact ⟨.ids ids, rfl, fun _ => Iff.rfl⟩

/-! ## What the filters ask for -/

/-- A subordinate satisfies every filter of a request.  What type it is and whether it is an
    intermediate is known from the registration, its trust marks from its configuration. -/
structure Satisfies (request : ListRequest) (record : Record) (conf : SubordinateConf) : Prop where
  entityType : ∀ t, request.entityType = some t →
    ∃ types, record.lookup "entity_type" = some types ∧ types.Holds (.str t)
  intermediate : flagged request.intermediate = true →
    flagged (record.lookup "intermediate") = true
  trustMarked : flagged request.trustMarked = true → conf.trustMarks ≠ none
  trustMarkId : ∀ markId, request.trustMarkId = some markId →
    ∃ trustMarks, conf.trustMarks = some trustMarks ∧ ∃ mark ∈ trustMarks, mark.id = markId

/-- The configurations of the subordinates: those that are collected, if the request asks for
    trust marks, and nobody asks for them otherwise. -/
structure Collected (env : ListEnv Token) (request : ListRequest)
    (collected : Dict SubordinateConf) : Prop where
  ids : ∀ id, id ∈ collected ↔ id ∈ env.subordinate
  asked : request.asksForTrustMarks = true → collectSubordinates env = .ok collected

/-- Whatever is asked for, what `collect_subordinates` returns is that. -/
theorem collected_of_eq_ok (h : collectSubordinates env = .ok collected) :
    Collected env request collected :=
  ⟨mem_collectSubordinates h, fun _ => h⟩

/-- What is registered and what was collected for a subordinate. -/
def IsSubordinate (env : ListEnv Token) (collected : Dict SubordinateConf) (id : EntityId)
    (record : Record) (conf : SubordinateConf) : Prop :=
  env.subordinate.lookup id = some record ∧ collected.lookup id = some conf

/-- The request is answered without exception with exactly the subordinates that satisfy
    every filter. -/
def AnswersExactly (env : ListEnv Token) (ho : HashOrder) (request : ListRequest)
    (collected : Dict SubordinateConf) : Prop :=
  ∃ answer, processRequest env ho request = .ok answer ∧ ∀ id, id ∈ answer.entityIds ↔
    ∃ record conf, IsSubordinate env collected id record conf ∧ Satisfies request record conf

/-! ## What the tests let through -/

/-- One of the tests lets a subordinate through.  Of those of `filter` only the last one
    that the request is for counts. -/
inductive LetThrough (request : ListRequest) (record : Record) (conf : SubordinateConf) : Prop
  | intermediate (hasked : flagged request.intermediate = true)
      (h : flagged (record.lookup "intermediate") = true)
  | entityType {t : String} {types : Json} (hasked : request.entityType = some t)
      (htypes : record.lookup "entity_type" = some types)
      (h : Json.isIn (.str t) types = .ok true)
  | trustMarkId {markId : String} {trustMarks : List TrustMark}
      (hasked : request.trustMarkId = some markId) (hmarkId : markId ≠ "")
      (hmarks : conf.trustMarks = some trustMarks) (h : ∃ mark ∈ trustMarks, mark.id = markId)
  | trustMarked (hasked : flagged request.trustMarked = true)
      (hmarkId : request.trustMarkId.getD "" = "") (h : conf.trustMarks ≠ none)
  | metadata {t : String} {metadata : Dict Record} (hflag : request.asksForTrustMarks = true)
      (hmarked : flagged request.trustMarked = false)
      (hmarkId : request.trustMarkId.getD "" = "") (hasked : request.entityType = some t)
      (ht : t ≠ "") (hmetadata : conf.metadata = some metadata) (h : t ∈ metadata)

/-- The registration decides about the type of an entity without an exception. -/
def TypeReadable (request : ListRequest) (record : Record) : Prop :=
  (flagged request.intermediate = true ∧ flagged (record.lookup "intermediate") = true) ∨
    request.entityType = none ∨
    ∃ types values, record.lookup "entity_type" = some types ∧ types.iter? = some values

/-- The configuration has the claims that the request makes `filter` look at. -/
structure ClaimsThere (request : ListRequest) (conf : SubordinateConf) : Prop where
  metadata : ∀ t, request.entityType = some t → t ≠ "" → conf.metadata ≠ none
  trustMarks : ∀ markId, request.trustMarkId = some markId → markId ≠ "" → conf.trustMarks ≠ none

/-- `in` finds a string in whatever can be walked. -/
theorem exists_isIn_str_iff {t : String} {container : Json} :
    (∃ b, Json.isIn (.str t) container = .ok b) ↔ ∃ values, container.iter? = some values := by
  cases container <;> simp [Json.isIn, Json.iter?, Json.hashable]

/-- What holds a string is found by `in`. -/
theorem isIn_of_holds {t : String} {container : Json} (h : container.Holds (.str t)) :
    Json.isIn (.str t) container = .ok true := by
  obtain ⟨y, hy, hnorm⟩ := h
  cases container with
  | arr xs =>
      rw [Json.isIn, Except.ok.injEq, List.any_eq_true]
      exact ⟨y, hy, Json.eqv_iff.mpr hnorm⟩
  | str s =>
      obtain rfl := List.mem_singleton.mp hy
      obtain rfl : s = t := by simpa [Json.norm] using hnorm
      rw [Json.isIn, Except.ok.injEq, Json.isSubstring, List.any_eq_true]
      exact ⟨s.toList, by simp, by simp⟩
  | null => exact absurd (List.mem_singleton.mp hy ▸ hnorm) (by simp [Json.norm])
  | bool b => exact absurd (List.mem_singleton.mp hy ▸ hnorm) (by simp [Json.norm])
  | num n => exact absurd (List.mem_singleton.mp hy ▸ hnorm) (by simp [Json.norm])
  | obj fields => exact absurd (List.mem_singleton.mp hy ▸ hnorm) (by simp [Json.norm])

theorem claim_eq_ok {record : Record} {key : String} {value : Json} :
    claim record key = .ok value ↔ record.lookup key = some value := by
  unfold claim
  cases record.lookup key <;> simp

/-- The test on the registration, -/
theorem registeredMatch_eq_true_iff {record : Record} :
    registeredMatch request record = .ok true ↔
      (flagged request.intermediate = true ∧ flagged (record.lookup "intermediate") = true) ∨
        ∃ t types, request.entityType = some t ∧ record.lookup "entity_type" = some types ∧
          Json.isIn (.str t) types = .ok true := by
  unfold registeredMatch
  by_cases hboth : (flagged request.intermediate && flagged (record.lookup "intermediate")) = true
  · rw [if_pos hboth]
    exact ⟨fun _ => Or.inl (Bool.and_eq_true_iff.mp hboth), fun _ => rfl⟩
  · rw [if_neg hboth, or_iff_right (fun h => hboth (Bool.and_eq_true_iff.mpr h))]
    cases request.entityType with
    | none => simp
    | some t =>
        simp only [except_bind_eq_ok, claim_eq_ok, Option.some.injEq]
        constructor
        · rintro ⟨types, htypes, h⟩
          exact ⟨t, types, rfl, htypes, h⟩
        · rintro ⟨t', types, rfl, htypes, h⟩
          exact ⟨types, htypes, h⟩

/-- which raises nothing exactly if the type can be read. -/
theorem exists_registeredMatch_iff {record : Record} :
    (∃ b, registeredMatch request record = .ok b) ↔ TypeReadable request record := by
  unfold registeredMatch TypeReadable
  by_cases hboth : (flagged request.intermediate && flagged (record.lookup "intermediate")) = true
  · rw [if_pos hboth]
    exact ⟨fun _ => Or.inl (Bool.and_eq_true_iff.mp hboth), fun _ => ⟨true, rfl⟩⟩
  · rw [if_neg hboth, or_iff_right (fun h => hboth (Bool.and_eq_true_iff.mpr h))]
    cases request.entityType with
    | none => exact ⟨fun _ => Or.inl rfl, fun _ => ⟨false, rfl⟩⟩
    | some t =>
        simp only [except_bind_eq_ok, claim_eq_ok, reduceCtorEq, false_or]
        constructor
        · rintro ⟨b, types, htypes, h⟩
          obtain ⟨values, hvalues⟩ := exists_isIn_str_iff.mp ⟨b, h⟩
          exact ⟨types, values, htypes, hvalues⟩
        · rintro ⟨types, values, htypes, hvalues⟩
          obtain ⟨b, h⟩ := exists_isIn_str_iff.mpr ⟨values, hvalues⟩
          exact ⟨b, types, htypes, h⟩

theorem hasType_eq_ok {t : String} {conf : SubordinateConf} {b : Bool} :
    hasType t conf = .ok b ↔ (t = "" ∧ b = false) ∨
      (t ≠ "" ∧ ∃ metadata, conf.metadata = some metadata ∧ b = decide (t ∈ metadata)) := by
  unfold hasType
  by_cases ht : t = ""
  · simp [ht, eq_comm]
  · cases conf.metadata <;> simp [ht, eq_comm]

/-- A trust mark id that is not empty is in the request. -/
theorem exists_trustMarkId (h : request.trustMarkId.getD "" ≠ "") :
    ∃ markId, request.trustMarkId = some markId ∧ markId ≠ "" := by
  cases hid : request.trustMarkId with
  | none => exact absurd (by rw [hid]; rfl) h
  | some markId =>
      rw [hid, Option.getD_some] at h
      exact ⟨markId, rfl, h⟩

/-- `filter` gets through a configuration exactly if it has the claims that are looked at. -/
theorem exists_matched_iff {conf : SubordinateConf} :
    (∃ b, matched (request.entityType.getD "") (request.trustMarkId.getD "") request.trustMarked
      conf = .ok b) ↔ ClaimsThere request conf := by
  have htyped : (∃ typed, hasType (request.entityType.getD "") conf = .ok typed) ↔
      ∀ t, request.entityType = some t → t ≠ "" → conf.metadata ≠ none := by
    unfold hasType
    cases request.entityType with
    | none => simp
    | some t =>
        by_cases ht : t = ""
        · simp [ht]
        · cases conf.metadata <;> simp [ht]
  constructor
  · rintro ⟨b, h⟩
    obtain ⟨typed, hty, h⟩ := except_bind_eq_ok.mp h
    refine ⟨htyped.mp ⟨typed, hty⟩, ?_⟩
    intro markId hmarkId hne hnone
    simp [hmarkId, hne, hnone] at h
  · rintro ⟨hmetadata, hmarks⟩
    obtain ⟨typed, hty⟩ := htyped.mpr hmetadata
    unfold matched
    rw [hty, except_ok_bind]
    by_cases hmarkId : request.trustMarkId.getD "" = ""
    · exact ⟨_, by rw [if_pos hmarkId]; rfl⟩
    · obtain ⟨markId, hsome, hne⟩ := exists_trustMarkId hmarkId
      obtain ⟨trustMarks, htrustMarks⟩ := Option.ne_none_iff_exists'.mp (hmarks markId hsome hne)
      exact ⟨_, by rw [if_neg hmarkId, htrustMarks]; rfl⟩

/-- Where nothing is raised, a match is what the last test that the request is for says. -/
theorem matched_eq_true_iff {conf : SubordinateConf} {typed : Bool}
    (htyped : hasType (request.entityType.getD "") conf = .ok typed) :
    matched (request.entityType.getD "") (request.trustMarkId.getD "") request.trustMarked conf =
        .ok true ↔
      if request.trustMarkId.getD "" = "" then
        if flagged request.trustMarked then conf.trustMarks ≠ none else typed = true
      else ∃ trustMarks, conf.trustMarks = some trustMarks ∧
        ∃ mark ∈ trustMarks, mark.id = request.trustMarkId.getD "" := by
  unfold matched
  rw [htyped, except_ok_bind]
  by_cases hmarkId : request.trustMarkId.getD "" = ""
  · rw [if_pos hmarkId, if_pos hmarkId, except_pure_eq_ok]
    by_cases hflag : flagged request.trustMarked = true
    · rw [if_pos hflag, if_pos hflag, Option.isSome_iff_ne_none]
    · rw [if_neg hflag, if_neg hflag]
  · rw [if_neg hmarkId, if_neg hmarkId]
    cases conf.trustMarks with
    | none => simp
    | some trustMarks => simp

/-- A flag that is set is in the request. -/
theorem isSome_of_flagged {flag : Option Json} (h : flagged flag = true) : flag.isSome = true := by
  cases flag with
  | none => simp [flagged] at h
  | some value => rfl

/-- What `filter` matches is let through. -/
theorem letThrough_of_matched {record : Record} {conf : SubordinateConf}
    (hasks : request.asksForTrustMarks = true)
    (h : matched (request.entityType.getD "") (request.trustMarkId.getD "") request.trustMarked
      conf = .ok true) : LetThrough request record conf := by
  obtain ⟨typed, hty, -⟩ := except_bind_eq_ok.mp h
  rw [matched_eq_true_iff hty] at h
  by_cases hmarkId : request.trustMarkId.getD "" = ""
  · rw [if_pos hmarkId] at h
    by_cases hflag : flagged request.trustMarked = true
    · rw [if_pos hflag] at h
      exact .trustMarked hflag hmarkId h
    · rw [if_neg hflag] at h
      obtain ⟨-, hfalse⟩ | ⟨ht, metadata, hmetadata, hmem⟩ := hasType_eq_ok.mp hty
      · exact absurd (h.symm.trans hfalse) (by simp)
      · obtain ⟨t, hasked⟩ : ∃ t, request.entityType = some t :=
          Option.ne_none_iff_exists'.mp (fun hnone => ht (by rw [hnone]; rfl))
        rw [hasked, Option.getD_some] at ht hmem
        exact .metadata hasks (Bool.eq_false_iff.mpr hflag) hmarkId hasked ht hmetadata
          (decide_eq_true_iff.mp (hmem.symm.trans h))
  · rw [if_neg hmarkId] at h
    obtain ⟨trustMarks, hmarks, h⟩ := h
    obtain ⟨markId, hsome, hne⟩ := exists_trustMarkId hmarkId
    rw [hsome, Option.getD_some] at h
    exact .trustMarkId hsome hne hmarks h

/-- What is let through is matched by one of the loops, where nothing is raised. -/
theorem matched_of_letThrough {record : Record} {conf : SubordinateConf}
    (hclaims : request.asksForTrustMarks = true → ClaimsThere request conf)
    (h : LetThrough request record conf) :
    registeredMatch request record = .ok true ∨
      (request.asksForTrustMarks = true ∧
        matched (request.entityType.getD "") (request.trustMarkId.getD "") request.trustMarked
          conf = .ok true) := by
  have htyped : request.asksForTrustMarks = true →
      ∃ typed, hasType (request.entityType.getD "") conf = .ok typed := by
    intro hasks
    obtain ⟨b, hb⟩ := exists_matched_iff.mpr (hclaims hasks)
    obtain ⟨typed, hty, -⟩ := except_bind_eq_ok.mp hb
    exact ⟨typed, hty⟩
  cases h with
  | intermediate hasked h => exact Or.inl (registeredMatch_eq_true_iff.mpr (Or.inl ⟨hasked, h⟩))
  | entityType hasked htypes h =>
      exact Or.inl (registeredMatch_eq_true_iff.mpr (Or.inr ⟨_, _, hasked, htypes, h⟩))
  | @trustMarkId markId trustMarks hasked hne hmarks h =>
      have hasks : request.asksForTrustMarks = true := by
        simp [ListRequest.asksForTrustMarks, hasked]
      obtain ⟨typed, hty⟩ := htyped hasks
      refine Or.inr ⟨hasks, (matched_eq_true_iff hty).mpr ?_⟩
      rw [hasked, Option.getD_some, if_neg hne]
      exact ⟨trustMarks, hmarks, h⟩
  | trustMarked hasked hmarkId h =>
      have hasks : request.asksForTrustMarks = true := by
        simp [ListRequest.asksForTrustMarks, isSome_of_flagged hasked]
      obtain ⟨typed, hty⟩ := htyped hasks
      refine Or.inr ⟨hasks, (matched_eq_true_iff hty).mpr ?_⟩
      rw [if_pos hmarkId, if_pos hasked]
      exact h
  | metadata hasks hmarked hmarkId hasked ht hmetadata h =>
      obtain ⟨typed, hty⟩ := htyped hasks
      refine Or.inr ⟨hasks, (matched_eq_true_iff hty).mpr ?_⟩
      rw [if_pos hmarkId, if_neg (by simp [hmarked])]
      rw [hasked, Option.getD_some, hasType, if_neg ht, hmetadata] at hty
      simpa [h] using hty.symm

/-- What the tests let through, where nothing is raised. -/
theorem letThrough_iff {record : Record} {conf : SubordinateConf}
    (hclaims : request.asksForTrustMarks = true → ClaimsThere request conf) :
    LetThrough request record conf ↔ registeredMatch request record = .ok true ∨
      (request.asksForTrustMarks = true ∧
        matched (request.entityType.getD "") (request.trustMarkId.getD "") request.trustMarked
          conf = .ok true) := by
  refine ⟨matched_of_letThrough hclaims, ?_⟩
  rintro (h | ⟨hasks, h⟩)
  · rcases registeredMatch_eq_true_iff.mp h with ⟨hasked, h⟩ | ⟨t, types, hasked, htypes, h⟩
    · exact .intermediate hasked h
    · exact .entityType hasked htypes h
  · exact letThrough_of_matched hasks h

/-! ## process_request as a whole -/

/-- No filter is supplied. -/
def Unfiltered (request : ListRequest) : Prop :=
  request.entityType = none ∧ request.intermediate = none ∧ request.trustMarked = none ∧
    request.trustMarkId = none

/-- The first test of `process_request`. -/
theorem keys_all_iff :
    (request.keys.all (fun key => ["client_id", "authenticated"].contains key)) = true ↔
      Unfiltered request := by
  obtain ⟨entityType, intermediate, trustMarked, trustMarkId, clientId, authenticated⟩ := request
  cases entityType <;> cases intermediate <;> cases trustMarked <;> cases trustMarkId <;>
    cases clientId <;> cases authenticated <;> simp [ListRequest.keys, Unfiltered]

/-- The configurations are what was collected, if they are asked for. -/
theorem requestedConf_eq (hcollect : Collected env request collected) :
    requestedConf env request =
      .ok (if request.asksForTrustMarks then some collected else none) := by
  unfold requestedConf
  by_cases hasks : request.asksForTrustMarks = true
  · rw [if_pos hasks, if_pos hasks, hcollect.asked hasks]
    rfl
  · rw [if_neg hasks, if_neg hasks]

/-- The ids that `filter` adds to an answer, -/
theorem mem_of_filterRequested {filtered : List EntityId}
    (h : filterRequested request (if request.asksForTrustMarks then some collected else none) =
      .ok filtered) (id : EntityId) :
    id ∈ filtered ↔ request.asksForTrustMarks = true ∧ ∃ conf, collected.lookup id = some conf ∧
      matched (request.entityType.getD "") (request.trustMarkId.getD "") request.trustMarked conf =
        .ok true := by
  cases hasks : request.asksForTrustMarks with
  | false =>
      rw [hasks] at h
      obtain rfl := Except.ok.inj h
      simp
  | true =>
      rw [hasks] at h
      rw [mem_of_filter h id, eq_self, true_and]

/-- and when there are some. -/
theorem exists_filterRequested_iff :
    (∃ filtered, filterRequested request
        (if request.asksForTrustMarks then some collected else none) = .ok filtered) ↔
      (request.asksForTrustMarks = true → ∀ id conf, collected.lookup id = some conf →
        ClaimsThere request conf) := by
  cases hasks : request.asksForTrustMarks with
  | false => exact ⟨fun _ h => absurd h Bool.false_ne_true, fun _ => ⟨[], rfl⟩⟩
  | true =>
      have hfilter := @exists_filter_iff request collected
      simp only [exists_matched_iff] at hfilter
      exact hfilter.trans ⟨fun h _ => h, fun h => h rfl⟩

/-- No filter, no choice. -/
theorem processRequest_of_unfiltered (h : Unfiltered request) :
    processRequest env ho request = .ok (.ids env.subordinate.keys) :=
  if_pos (keys_all_iff.mpr h)

/-- Both loops got to their end, and what was found is answered. -/
structure Found (env : ListEnv Token) (request : ListRequest) (collected : Dict SubordinateConf)
    (registered : List (Sigma fun _ : EntityId => Record)) (filtered : List EntityId) : Prop where
  registered : keepEach (fun e => registeredMatch request e.2) env.subordinate.entries =
    .ok registered
  filtered : filterRequested request (if request.asksForTrustMarks then some collected else none) =
    .ok filtered

variable {registered : List (Sigma fun _ : EntityId => Record)} {filtered : List EntityId}

/-- What is found is of subordinates. -/
theorem Found.mem_collected (hcollect : Collected env request collected)
    (h : Found env request collected registered filtered) {id : EntityId}
    (hid : id ∈ registered.map (·.1) ∨ id ∈ filtered) : id ∈ collected := by
  rcases hid with hid | hid
  · obtain ⟨record, hrecord, -⟩ := (Dict.mem_keys_of_keepEach h.registered id).mp hid
    exact (hcollect.ids id).mpr (Dict.mem_iff_lookup.mpr ⟨record, hrecord⟩)
  · obtain ⟨-, conf, hconf, -⟩ := (mem_of_filterRequested h.filtered id).mp hid
    exact Dict.mem_iff_lookup.mpr ⟨conf, hconf⟩

/-- With a filter it answers what is found. -/
theorem processRequest_of_found (hfilter : ¬ Unfiltered request)
    (hcollect : Collected env request collected)
    (h : Found env request collected registered filtered) :
    ∃ answer, processRequest env ho request = .ok answer ∧
      ∀ id, id ∈ answer.entityIds ↔ id ∈ registered.map (·.1) ∨ id ∈ filtered := by
  have hmem : ∀ id, id ∈ ho.arrange (registered.map (·.1) ++ filtered).dedup ↔
      id ∈ registered.map (·.1) ∨ id ∈ filtered := by
    intro id
    rw [HashOrder.mem_arrange, List.mem_dedup, List.mem_append]
  obtain ⟨answer, hanswer, hids⟩ := @exists_answerWith _ env
    (ho.arrange (registered.map (·.1) ++ filtered).dedup)
    (if request.asksForTrustMarks then some collected else none) (by
      intro conf hconf id hid
      by_cases hasks : request.asksForTrustMarks = true
      · rw [if_pos hasks] at hconf
        obtain rfl := Option.some.inj hconf
        exact h.mem_collected hcollect ((hmem id).mp hid)
      · rw [if_neg hasks] at hconf
        exact absurd hconf (by simp))
  refine ⟨answer, ?_, fun id => (hids id).trans (hmem id)⟩
  unfold processRequest
  rw [if_neg (fun hkeys => hfilter (keys_all_iff.mp hkeys)), h.registered, except_ok_bind,
    requestedConf_eq hcollect, except_ok_bind, h.filtered, except_ok_bind]
  exact hanswer

/-- And it answers only then. -/
theorem found_of_processRequest (hfilter : ¬ Unfiltered request)
    (hcollect : Collected env request collected) {answer : ListAnswer}
    (h : processRequest env ho request = .ok answer) :
    ∃ registered filtered, Found env request collected registered filtered := by
  unfold processRequest at h
  rw [if_neg (fun hkeys => hfilter (keys_all_iff.mp hkeys))] at h
  obtain ⟨registered, hregistered, h⟩ := except_bind_eq_ok.mp h
  rw [requestedConf_eq hcollect, except_ok_bind] at h
  obtain ⟨filtered, hfiltered, -⟩ := except_bind_eq_ok.mp h
  exact ⟨registered, filtered, hregistered, hfiltered⟩

/-- The loops get to their end exactly if no subordinate makes a test fail. -/
theorem exists_found_iff :
    (∃ registered filtered, Found env request collected registered filtered) ↔
      (∀ id record, env.subordinate.lookup id = some record → TypeReadable request record) ∧
        (request.asksForTrustMarks = true → ∀ id conf, collected.lookup id = some conf →
          ClaimsThere request conf) := by
  have hregistered := @Dict.exists_keepEach_entries_iff _ _ (registeredMatch request)
    env.subordinate
  simp only [exists_registeredMatch_iff] at hregistered
  rw [← hregistered, ← exists_filterRequested_iff]
  exact ⟨fun ⟨registered, filtered, h⟩ => ⟨⟨registered, h.registered⟩, filtered, h.filtered⟩,
    fun ⟨⟨registered, hr⟩, filtered, hf⟩ => ⟨registered, filtered, hr, hf⟩⟩

/-- What is found is what the tests let through. -/
theorem Found.mem_iff (hcollect : Collected env request collected)
    (h : Found env request collected registered filtered) {id : EntityId} :
    id ∈ registered.map (·.1) ∨ id ∈ filtered ↔
      ∃ record conf, IsSubordinate env collected id record conf ∧
        LetThrough request record conf := by
  have hclaims := (exists_found_iff.mp ⟨registered, filtered, h⟩).2
  rw [Dict.mem_keys_of_keepEach h.registered, mem_of_filterRequested h.filtered]
  constructor
  · intro hid
    obtain ⟨conf, hconf⟩ : ∃ conf, collected.lookup id = some conf :=
      Dict.mem_iff_lookup.mp (h.mem_collected hcollect (by
        rwa [Dict.mem_keys_of_keepEach h.registered, mem_of_filterRequested h.filtered]))
    obtain ⟨record, hrecord⟩ : ∃ record, env.subordinate.lookup id = some record :=
      Dict.mem_iff_lookup.mp ((hcollect.ids id).mp
        (Dict.mem_iff_lookup.mpr ⟨conf, hconf⟩))
    refine ⟨record, conf, ⟨hrecord, hconf⟩,
      (letThrough_iff (fun hasks => hclaims hasks id conf hconf)).mpr ?_⟩
    rcases hid with ⟨record', hrecord', hmatch⟩ | ⟨hasks, conf', hconf', hmatch⟩
    · obtain rfl := Option.some.inj (hrecord.symm.trans hrecord')
      exact Or.inl hmatch
    · obtain rfl := Option.some.inj (hconf.symm.trans hconf')
      exact Or.inr ⟨hasks, hmatch⟩
  · rintro ⟨record, conf, ⟨hrecord, hconf⟩, hlet⟩
    rcases (letThrough_iff (fun hasks => hclaims hasks id conf hconf)).mp hlet with
      hmatch | ⟨hasks, hmatch⟩
    · exact Or.inl ⟨record, hrecord, hmatch⟩
    · exact Or.inr ⟨hasks, conf, hconf, hmatch⟩

/-! ## Filters that narrow -/

/-- A filter for something is supplied. -/
def Effective (request : ListRequest) : Prop :=
  request.entityType ≠ none ∨ flagged request.intermediate = true ∨
    flagged request.trustMarked = true ∨ ∃ markId, request.trustMarkId = some markId ∧ markId ≠ ""

/-- The filters of a request agree about the subordinates. -/
structure FiltersAgree (env : ListEnv Token) (request : ListRequest)
    (collected : Dict SubordinateConf) : Prop where
  /-- Nothing that is looked at is missing. -/
  readable : ∀ id record, env.subordinate.lookup id = some record → TypeReadable request record
  claims : request.asksForTrustMarks = true → ∀ id conf, collected.lookup id = some conf →
    ClaimsThere request conf
  /-- Whom the test for one filter lets through satisfies the others too. -/
  agree : ∀ id record conf, IsSubordinate env collected id record conf →
    LetThrough request record conf → Satisfies request record conf
  /-- There is a filter for something, or nobody to answer. -/
  effective : Effective request ∨ ∀ id record conf,
    IsSubordinate env collected id record conf → ¬ Satisfies request record conf

/-- A filter for something lets through whom it is for. -/
theorem letThrough_of_satisfies {record : Record} {conf : SubordinateConf}
    (heffective : Effective request) (h : Satisfies request record conf) :
    LetThrough request record conf := by
  by_cases hmarkId : ∃ markId, request.trustMarkId = some markId ∧ markId ≠ ""
  · obtain ⟨markId, hasked, hne⟩ := hmarkId
    obtain ⟨trustMarks, hmarks, hmark⟩ := h.trustMarkId markId hasked
    exact .trustMarkId hasked hne hmarks hmark
  · rcases heffective with htype | hasked | hasked | hasked
    · obtain ⟨t, hasked⟩ := Option.ne_none_iff_exists'.mp htype
      obtain ⟨types, htypes, hholds⟩ := h.entityType t hasked
      exact .entityType hasked htypes (isIn_of_holds hholds)
    · exact .intermediate hasked (h.intermediate hasked)
    · have hempty : request.trustMarkId.getD "" = "" :=
        not_not.mp (fun hne => hmarkId (exists_trustMarkId hne))
      exact .trustMarked hasked hempty (h.trustMarked hasked)
    · exact absurd hasked hmarkId

/-- Without one nobody is let through. -/
theorem effective_of_letThrough {record : Record} {conf : SubordinateConf}
    (h : LetThrough request record conf) : Effective request := by
  cases h with
  | intermediate hasked _ => exact Or.inr (Or.inl hasked)
  | entityType hasked _ _ => exact Or.inl (by simp [hasked])
  | trustMarkId hasked hne _ _ => exact Or.inr (Or.inr (Or.inr ⟨_, hasked, hne⟩))
  | trustMarked hasked _ _ => exact Or.inr (Or.inr (Or.inl hasked))
  | metadata _ _ _ hasked _ _ _ => exact Or.inl (by simp [hasked])

/-- An id has one record and one configuration. -/
theorem IsSubordinate.exists_iff {id : EntityId} {record : Record} {conf : SubordinateConf}
    {P : Record → SubordinateConf → Prop} (hsub : IsSubordinate env collected id record conf) :
    (∃ record conf, IsSubordinate env collected id record conf ∧ P record conf) ↔
      P record conf := by
  constructor
  · rintro ⟨record', conf', ⟨hrecord, hconf⟩, h⟩
    obtain rfl := Option.some.inj (hsub.1.symm.trans hrecord)
    obtain rfl := Option.some.inj (hsub.2.symm.trans hconf)
    exact h
  · exact fun h => ⟨record, conf, hsub, h⟩

/-- Without a filter everybody is answered, and there is nothing to satisfy. -/
theorem answersExactly_of_unfiltered (hcollect : Collected env request collected)
    (h : Unfiltered request) : AnswersExactly env ho request collected := by
  refine ⟨_, processRequest_of_unfiltered h, fun id => ?_⟩
  obtain ⟨htype, hintermediate, hmarked, hmarkId⟩ := h
  rw [ListAnswer.entityIds, ← AList.mem_keys]
  constructor
  · intro hid
    obtain ⟨record, hrecord⟩ := Dict.mem_iff_lookup.mp hid
    obtain ⟨conf, hconf⟩ := Dict.mem_iff_lookup.mp ((hcollect.ids id).mpr hid)
    refine ⟨record, conf, ⟨hrecord, hconf⟩, ?_, ?_, ?_, ?_⟩
    · simp [htype]
    · simp [hintermediate, flagged]
    · simp [hmarked, flagged]
    · simp [hmarkId]
  · rintro ⟨record, conf, ⟨hrecord, -⟩, -⟩
    exact Dict.mem_iff_lookup.mpr ⟨record, hrecord⟩

/-- With a filter the answer is exact if nothing is raised and the tests let through exactly
    who satisfies the filters. -/
theorem answersExactly_iff_letThrough (hcollect : Collected env request collected)
    (hfilter : ¬ Unfiltered request) :
    AnswersExactly env ho request collected ↔
      (∃ registered filtered, Found env request collected registered filtered) ∧
        ∀ id record conf, IsSubordinate env collected id record conf →
          (LetThrough request record conf ↔ Satisfies request record conf) := by
  constructor
  · rintro ⟨answer, hanswer, hexact⟩
    obtain ⟨registered, filtered, hfound⟩ := found_of_processRequest hfilter hcollect hanswer
    obtain ⟨answer', hanswer', hids⟩ :=
      @processRequest_of_found _ _ ho _ _ _ _ hfilter hcollect hfound
    obtain rfl := Except.ok.inj (hanswer.symm.trans hanswer')
    refine ⟨⟨registered, filtered, hfound⟩, fun id record conf hsub => ?_⟩
    have hsame := ((hfound.mem_iff hcollect).symm.trans (hids id).symm).trans (hexact id)
    rwa [hsub.exists_iff, hsub.exists_iff] at hsame
  · rintro ⟨⟨registered, filtered, hfound⟩, hsame⟩
    obtain ⟨answer, hanswer, hids⟩ :=
      @processRequest_of_found _ _ ho _ _ _ _ hfilter hcollect hfound
    refine ⟨answer, hanswer, fun id => ?_⟩
    rw [hids id, hfound.mem_iff hcollect]
    refine exists_congr fun record => exists_congr fun conf => ?_
    exact and_congr_right (fun hsub => hsame id record conf hsub)

/-- Exactly the subordinates that satisfy every filter are answered if there is no filter, or
    all of them agree. -/
theorem answersExactly_iff (hcollect : Collected env request collected) :
    AnswersExactly env ho request collected ↔
      Unfiltered request ∨ FiltersAgree env request collected := by
  by_cases hunfiltered : Unfiltered request
  · exact ⟨fun _ => Or.inl hunfiltered,
      fun _ => answersExactly_of_unfiltered hcollect hunfiltered⟩
  · rw [or_iff_right hunfiltered, answersExactly_iff_letThrough hcollect hunfiltered,
      exists_found_iff]
    constructor
    · rintro ⟨⟨hreadable, hclaims⟩, hsame⟩
      refine ⟨hreadable, hclaims, fun id record conf hsub => (hsame id record conf hsub).mp, ?_⟩
      by_cases heffective : Effective request
      · exact Or.inl heffective
      · refine Or.inr fun id record conf hsub hsatisfies => heffective ?_
        exact effective_of_letThrough ((hsame id record conf hsub).mpr hsatisfies)
    · intro h
      refine ⟨⟨h.readable, h.claims⟩, fun id record conf hsub => ⟨h.agree id record conf hsub, ?_⟩⟩
      intro hsatisfies
      have heffective := h.effective.resolve_right
        (fun hnobody => hnobody id record conf hsub hsatisfies)
      exact letThrough_of_satisfies heffective hsatisfies

/-! ## Two providers -/

/-- A provider that is an intermediate as well, -/
def hubId : EntityId := "https://hub.example.org"

/-- and one that is not. -/
def opId : EntityId := "https://op.example.org"

/-- The record of a provider. -/
def providerRecord : Record :=
  (Finmap.singleton "jwks" (.obj [])).insert "entity_type" (.arr [.str "openid_provider"])

/-- The endpoint that has both of them, without trust marks. -/
def twoProviders : ListEnv Unit where
  subordinate := Dict.ofList [(opId, providerRecord),
    (hubId, providerRecord.insert "intermediate" (.bool true))]
  getEntityConfiguration := fun _ => .ok ()
  unpack := fun _ _ => .ok {}

/-- What it collects. -/
def twoProvidersConf : Dict SubordinateConf := Dict.ofList [(hubId, {}), (opId, {})]

/-- Who asks for intermediates gets the one, -/
def intermediates : ListRequest := { intermediate := some (.str "True") }

/-- and who asks for providers among them gets the other one too. -/
def intermediateProviders : ListRequest :=
  { intermediates with entityType := some "openid_provider" }

theorem added_filter_adds :
    collectSubordinates twoProviders = .ok twoProvidersConf ∧
      processRequest twoProviders .insertion intermediates = .ok (.ids [hubId]) ∧
      processRequest twoProviders .insertion intermediateProviders = .ok (.ids [hubId, opId]) ∧
      ¬ AnswersExactly twoProviders .insertion intermediateProviders twoProvidersConf := by
  refine ⟨by rfl, by rfl, by rfl, ?_⟩
  rintro ⟨answer, hanswer, hexact⟩
  have hids : processRequest twoProviders .insertion intermediateProviders =
    .ok (.ids [hubId, opId]) := by rfl
  obtain rfl := Except.ok.inj (hanswer.symm.trans hids)
  obtain ⟨record, conf, ⟨hrecord, -⟩, hsatisfies⟩ :=
    (hexact opId).mp (by simp [ListAnswer.entityIds])
  have hnot : flagged (record.lookup "intermediate") = false := by
    obtain rfl := Option.some.inj (hrecord.symm.trans (show _ = some providerRecord by rfl))
    rfl
  have hflag := hsatisfies.intermediate (by rfl)
  rw [hnot] at hflag
  exact Bool.false_ne_true hflag

theorem answersExactly_iff_twoProviders :
    collectSubordinates twoProviders = .ok twoProvidersConf ∧
      (AnswersExactly twoProviders .insertion intermediates twoProvidersConf ↔
        Unfiltered intermediates ∨ FiltersAgree twoProviders intermediates twoProvidersConf) :=
  ⟨by rfl, answersExactly_iff (collected_of_eq_ok (by rfl))⟩

/-! ## Adding filters -/

/-- A request has the filters of another one, and maybe more. -/
structure FewerFilters (request request' : ListRequest) : Prop where
  entityType : ∀ t, request.entityType = some t → request'.entityType = some t
  intermediate : ∀ flag, request.intermediate = some flag → request'.intermediate = some flag
  trustMarked : ∀ flag, request.trustMarked = some flag → request'.trustMarked = some flag
  trustMarkId : ∀ markId, request.trustMarkId = some markId → request'.trustMarkId = some markId

theorem flagged_mono {flag flag' : Option Json}
    (hflag : ∀ value, flag = some value → flag' = some value) (h : flagged flag = true) :
    flagged flag' = true := by
  obtain ⟨value, hvalue⟩ := Option.isSome_iff_exists.mp (isSome_of_flagged h)
  rw [hflag value hvalue, ← hvalue]
  exact h

/-- Who satisfies all filters satisfies some of them. -/
theorem Satisfies.mono {request' : ListRequest} {record : Record} {conf : SubordinateConf}
    (hfewer : FewerFilters request request') (h : Satisfies request' record conf) :
    Satisfies request record conf where
  entityType := fun t ht => h.entityType t (hfewer.entityType t ht)
  intermediate := fun hflag => h.intermediate (flagged_mono hfewer.intermediate hflag)
  trustMarked := fun hflag => h.trustMarked (flagged_mono hfewer.trustMarked hflag)
  trustMarkId := fun markId hid => h.trustMarkId markId (hfewer.trustMarkId markId hid)

/-- Between two requests that are answered exactly, a filter that is added adds nobody. -/
theorem entityIds_subset {request' : ListRequest} {answer answer' : ListAnswer}
    (hfewer : FewerFilters request request') (h : AnswersExactly env ho request collected)
    (h' : AnswersExactly env ho request' collected)
    (hanswer : processRequest env ho request = .ok answer)
    (hanswer' : processRequest env ho request' = .ok answer') :
    answer'.entityIds ⊆ answer.entityIds := by
  intro id hid
  obtain ⟨_, hprocess, hexact⟩ := h
  obtain rfl := Except.ok.inj (hanswer.symm.trans hprocess)
  obtain ⟨_, hprocess', hexact'⟩ := h'
  obtain rfl := Except.ok.inj (hanswer'.symm.trans hprocess')
  obtain ⟨record, conf, hsub, hsatisfies⟩ := (hexact' id).mp hid
  exact (hexact id).mpr ⟨record, conf, hsub, hsatisfies.mono hfewer⟩

end Fedservice.Entity.Server.ListEndpoint
