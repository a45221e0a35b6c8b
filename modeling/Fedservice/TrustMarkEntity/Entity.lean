/-
  Fedservice.TrustMarkEntity.Entity

  `TrustMarkEntity` (trust_mark_entity/entity.py) with a `FileDB`, and the endpoints at which
  others ask what it has issued (trust_mark_entity/server): the list of the subjects
  of a trust mark ID and the status of one mark.
-/

import Fedservice.TrustMarkEntity.FileDB

namespace Fedservice.TrustMarkEntity

open Fedservice.Lib Fedservice.Py Fedservice.EntityStatement

/-! ## create_trust_mark -/

/-- What is specified for a trust mark ID: claims of the marks, as far as the database looks at
    them, and how long a mark is good for, if that is limited. -/
structure TrustMarkSpecification where
  exp : Option Int := none
  lifetime : Int := 0

/-- A call of `create_trust_mark`: its arguments, among them claims that go into the mark as they
    are, and when it is made. -/
structure CreateCall where
  id : String
  sub : EntityId
  now : Int
  iat : Option Int := none
  exp : Option Int := none

/-- The content of a mark. -/
def markContent (specification : TrustMarkSpecification) (call : CreateCall) : TmInfo where
  id := call.id
  sub := call.sub
  iat := call.iat.getD call.now
  exp := call.exp.or
    (if specification.lifetime ≠ 0 then some (call.now + specification.lifetime)
      else specification.exp)

variable (specifications : Dict TrustMarkSpecification)

/-- `create_trust_mark`: what is packed. -/
def createTrustMark (call : CreateCall) : EStateM Exc FileDB TmInfo := do
  match specifications.lookup call.id with
  | none => throw (.valueError [.lit "Unknown trust mark ID"])
  | some specification => do
      let db ← get
      set (← lift (db.add (markContent specification call)))
      return markContent specification call

/-! ## The endpoints -/

/-- The list of the subjects, if there is an answer. -/
def entityList (db : FileDB) (now : Int) (trustMarkId : String) (sub : EntityId) :
    Except Exc (Option (List EntityId)) :=
  if sub ≠ "" then do
    return if ← db.find now trustMarkId sub 0 then some [sub] else none
  else return some (db.list trustMarkId "")

/-- A request to the list endpoint, and an answer of it. -/
structure TrustMarkListRequest where
  sub : Option EntityId := none
  trustMarkId : Option String := none

inductive TrustMarkListAnswer where
  | foo (sub : EntityId)
  | subjects (list : List EntityId)
  | notFound

/-- `TrustMarkList.process_request`. -/
def trustMarkList (db : FileDB) (now : Int) (request : TrustMarkListRequest) :
    Except Exc TrustMarkListAnswer :=
  match request.sub, request.trustMarkId with
  | some sub, some trustMarkId => do
      return if ← db.find now trustMarkId sub 0 then .foo sub else .notFound
  | none, some trustMarkId => do
      match ← entityList db now trustMarkId "" with
      | some (x :: xs) => return .subjects (x :: xs)
      | _ => return .notFound
  -- without an ID there is nothing to look up
  | _, none => return .notFound

/-- A request to the status endpoint; a mark that comes along is unpacked already. -/
structure TrustMarkStatusRequest where
  trustMark : Option (Except Exc (String × EntityId)) := none
  sub : Option EntityId := none
  trustMarkId : Option String := none
  id : Option String := none

/-- `TrustMarkStatus.process_request`: whether the mark is active. -/
def trustMarkStatus (db : FileDB) (now : Int) (request : TrustMarkStatusRequest) :
    Except Exc Bool :=
  match request.trustMark with
  | some unpacked => do
      let (id, sub) ← unpacked
      db.find now id sub 0
  | none =>
      match request.sub with
      | none => return false
      | some sub =>
          -- an empty ID is as good as none
          let id := (request.trustMarkId.or request.id).getD ""
          if id ≠ "" then db.find now id sub 0 else return false

/-! ## List and status -/

/-- The subject is in the answer to a request for the list of an ID. -/
def Listed (db : FileDB) (now : Int) (trustMarkId : String) (sub : EntityId) : Prop :=
  ∃ list, trustMarkList db now { trustMarkId := some trustMarkId } = .ok (.subjects list) ∧
    sub ∈ list

/-- The mark of the subject is reported active. -/
def ReportedActive (db : FileDB) (now : Int) (trustMarkId : String) (sub : EntityId) : Prop :=
  trustMarkStatus db now { sub := some sub, trustMarkId := some trustMarkId } = .ok true

/-- The database after some marks have been created. -/
def afterCalls (db : FileDB) (calls : List CreateCall) : FileDB :=
  runState (createTrustMark specifications) db calls

/-- The marks that the calls put into the file of an ID: those of IDs that are specified and have a
    file. -/
def issuedInto (config : Dict String) (trustMarkId : String) (calls : List CreateCall) :
    List TmInfo :=
  calls.filterMap fun call =>
    if call.id ∈ config ∧ config.lookup call.id = config.lookup trustMarkId then
      (specifications.lookup call.id).map (markContent · call)
    else none

/-- Neither the last record of the subject nor one that was issued later has expired. -/
def NoneExpiredSince (now : Int) (sub : EntityId) (lines : List TmInfo) : Prop :=
  ∀ tmi, lines.reverse.find? (isMatch sub 0) = some tmi → tmi.expired now = false ∧
    ∀ later ∈ lines.reverse.takeWhile (fun tmi => !isMatch sub 0 tmi), later.expired now = false

variable {specifications}

/-- A call adds the content of the mark, if the database takes it. -/
theorem finalState_createTrustMark (db : FileDB) (call : CreateCall) :
    finalState (createTrustMark specifications call db) =
      ((specifications.lookup call.id).bind fun specification =>
        (db.add (markContent specification call)).toOption).getD db := by
  unfold createTrustMark
  cases specifications.lookup call.id with
  | none => rfl
  | some specification =>
      -- the database is replaced only if it takes the mark
      simp only [Option.bind_some]
      rw [bind_of_ok (get_apply db)]
      cases db.add (markContent specification call) <;> rfl

/-- A database takes a mark exactly if it knows the ID. -/
theorem add_eq_error {db : FileDB} {tmInfo : TmInfo} (hid : tmInfo.id ∉ db.config) :
    (db.add tmInfo).toOption = none := by
  rw [FileDB.add, item, AList.lookup_eq_none.mpr hid]
  rfl

/-- What a call leaves in the file of an ID. -/
theorem lines_createTrustMark (db : FileDB) (call : CreateCall) (trustMarkId : String) :
    (finalState (createTrustMark specifications call db)).config = db.config ∧
      ∀ lines, db.lines trustMarkId = .ok lines →
        (finalState (createTrustMark specifications call db)).lines trustMarkId =
          .ok (lines ++ issuedInto specifications db.config trustMarkId [call]) := by
  rw [finalState_createTrustMark]
  by_cases hid : call.id ∈ db.config
  · cases hspec : specifications.lookup call.id with
    | none => exact ⟨rfl, fun lines hlines => by simpa [issuedInto, hspec] using hlines⟩
    | some specification =>
        obtain ⟨db', hadd⟩ : ∃ db', db.add (markContent specification call) = .ok db' := by
          obtain ⟨file, hfile⟩ := Dict.mem_iff_lookup.mp hid
          rw [FileDB.add, markContent, item_eq_ok.mpr hfile]
          exact ⟨_, rfl⟩
        obtain ⟨hconfig, hadded⟩ := lines_add hadd trustMarkId
        rw [Option.bind_some, hadd]
        refine ⟨hconfig, fun lines hlines => ?_⟩
        show db'.lines trustMarkId = _
        rw [hadded lines hlines]
        by_cases hsame : db.config.lookup call.id = db.config.lookup trustMarkId
        · simp [issuedInto, markContent, hid, hsame, hspec]
        · simp [issuedInto, markContent, hsame]
  · have hnone : (specifications.lookup call.id).bind (fun specification =>
        (db.add (markContent specification call)).toOption) = none := by
      cases specifications.lookup call.id with
      | none => rfl
      | some specification => exact add_eq_error hid
    rw [hnone]
    exact ⟨rfl, fun lines hlines => by simpa [issuedInto, hid] using hlines⟩

/-- What the calls leave in the file of an ID. -/
theorem lines_afterCalls (calls : List CreateCall) (db : FileDB) (trustMarkId : String) :
    (afterCalls specifications db calls).config = db.config ∧
      ∀ lines, db.lines trustMarkId = .ok lines →
        (afterCalls specifications db calls).lines trustMarkId =
          .ok (lines ++ issuedInto specifications db.config trustMarkId calls) := by
  induction calls generalizing db with
  | nil =>
      refine ⟨rfl, fun lines hlines => ?_⟩
      rw [issuedInto, List.filterMap_nil, List.append_nil]
      exact hlines
  | cons call rest ih =>
      obtain ⟨hconfig, hlines⟩ := lines_createTrustMark db call
        trustMarkId
      -- the names of the files never change, so what the rest adds is told by the ones at the start
      obtain ⟨hconfig', hlines'⟩ := ih (finalState (createTrustMark specifications call db))
      refine ⟨hconfig'.trans hconfig, fun lines hread => ?_⟩
      have hrest := hlines' _ (hlines lines hread)
      rw [hconfig, List.append_assoc] at hrest
      have hsplit : issuedInto specifications db.config trustMarkId (call :: rest) =
          issuedInto specifications db.config trustMarkId [call] ++
            issuedInto specifications db.config trustMarkId rest := by
        rw [issuedInto, issuedInto, issuedInto, ← List.filterMap_append]
        rfl
      rw [hsplit]
      exact hrest

/-- Who is on the list: everybody for whom a mark was ever issued. -/
theorem listed_iff {db : FileDB} {now : Int} {trustMarkId : String} {sub : EntityId}
    {lines : List TmInfo} (hlines : db.lines trustMarkId = .ok lines) :
    Listed db now trustMarkId sub ↔ sub ∈ lines.map (·.sub) := by
  have hmem : sub ∈ db.list trustMarkId "" ↔ sub ∈ lines.map (·.sub) := by
    rw [mem_list hlines]
    simp
  have hall : entityList db now trustMarkId "" = .ok (some (db.list trustMarkId "")) :=
    if_neg (not_not_intro rfl)
  rw [← hmem, Listed, trustMarkList]
  simp only [hall, except_ok_bind]
  cases db.list trustMarkId "" with
  | nil =>
      constructor
      · rintro ⟨list, hanswer, -⟩
        exact absurd (except_pure_eq_ok.mp hanswer) (by simp)
      · exact fun hin => absurd hin List.not_mem_nil
  | cons x xs =>
      constructor
      · rintro ⟨list, hanswer, hin⟩
        obtain rfl := TrustMarkListAnswer.subjects.inj (except_pure_eq_ok.mp hanswer)
        exact hin
      · exact fun hin => ⟨x :: xs, rfl, hin⟩

/-- Whose mark is reported active. -/
theorem reportedActive_iff {db : FileDB} {now : Int} {trustMarkId : String} {sub : EntityId}
    {lines : List TmInfo} (hlines : db.lines trustMarkId = .ok lines) :
    ReportedActive db now trustMarkId sub ↔
      trustMarkId ≠ "" ∧ findIn now sub 0 lines.reverse = true := by
  by_cases hid : trustMarkId = ""
  · have hinactive : trustMarkStatus db now { sub := some sub, trustMarkId := some trustMarkId } =
        .ok false := if_neg (not_not_intro hid)
    rw [ReportedActive, hinactive]
    simp [hid]
  · have hfind : trustMarkStatus db now { sub := some sub, trustMarkId := some trustMarkId } =
        db.find now trustMarkId sub 0 := if_pos hid
    rw [ReportedActive, hfind, FileDB.find, hlines, except_ok_bind, except_pure_eq_ok]
    exact ⟨fun h => ⟨hid, h⟩, fun h => h.2⟩

/-- Nothing is said about an ID that is not known. -/
theorem nothing_about_unknown {db : FileDB} {trustMarkId : String} {e : Exc}
    (hunknown : db.lines trustMarkId = .error e) (now : Int) (sub : EntityId) :
    ¬ Listed db now trustMarkId sub ∧ ¬ ReportedActive db now trustMarkId sub := by
  constructor
  · rintro ⟨list, hanswer, -⟩
    have hempty : db.list trustMarkId "" = [] := by rw [FileDB.list, hunknown]
    have hall : entityList db now trustMarkId "" = .ok (some (db.list trustMarkId "")) :=
      if_neg (not_not_intro rfl)
    simp only [trustMarkList, hall, hempty, except_ok_bind] at hanswer
    exact absurd (except_pure_eq_ok.mp hanswer) (by simp)
  · intro hactive
    by_cases hid : trustMarkId = ""
    · have hinactive : trustMarkStatus db now { sub := some sub, trustMarkId := some trustMarkId } =
          .ok false := if_neg (not_not_intro hid)
      exact absurd (Except.ok.inj (hinactive.symm.trans hactive)) Bool.false_ne_true
    · have hfind : trustMarkStatus db now { sub := some sub, trustMarkId := some trustMarkId } =
          db.find now trustMarkId sub 0 := if_pos hid
      rw [ReportedActive, hfind, FileDB.find, hunknown] at hactive
      exact absurd hactive (by simp)

/-- After any calls and at any time, the list and the status of a subject agree exactly if, for a
    subject on the list, the ID is not empty and none of the marks has expired that have been
    issued since the last one of the subject, which is one of them. -/
theorem list_and_status_agree_iff (specifications : Dict TrustMarkSpecification) (db : FileDB)
    (calls : List CreateCall) (now : Int) (trustMarkId : String) (sub : EntityId) :
    (Listed (afterCalls specifications db calls) now trustMarkId sub ↔
      ReportedActive (afterCalls specifications db calls) now trustMarkId sub) ↔
      ∀ lines, db.lines trustMarkId = .ok lines →
        sub ∈ (lines ++ issuedInto specifications db.config trustMarkId calls).map (·.sub) →
          trustMarkId ≠ "" ∧ NoneExpiredSince now sub
            (lines ++ issuedInto specifications db.config trustMarkId calls) := by
  obtain ⟨hconfig, hafter⟩ := lines_afterCalls calls db trustMarkId
  cases hlines : db.lines trustMarkId with
  | error e =>
      -- there is no such ID
      have hunknown : trustMarkId ∉ db.config := by
        intro hid
        obtain ⟨file, hfile⟩ := Dict.mem_iff_lookup.mp hid
        rw [FileDB.lines, item_eq_ok.mpr hfile] at hlines
        exact absurd hlines (by simp [pure, Except.pure])
      have herror : (afterCalls specifications db calls).lines trustMarkId =
          .error (.keyError trustMarkId) := by
        rw [FileDB.lines, hconfig, item, AList.lookup_eq_none.mpr hunknown]
        rfl
      obtain ⟨hlisted, hactive⟩ := nothing_about_unknown herror now sub
      simp [hlisted, hactive]
  | ok lines =>
      have hread := hafter lines hlines
      -- being active implies being on the list, so only the other direction is a condition
      rw [listed_iff hread, reportedActive_iff hread, findIn, scan_eq_true_iff]
      constructor
      · intro h lines' heq hin
        obtain rfl := Except.ok.inj heq
        obtain ⟨hid, last, hlast, hfresh, hlater⟩ := h.mp hin
        refine ⟨hid, fun tmi htmi => ?_⟩
        obtain rfl := Option.some.inj (hlast.symm.trans htmi)
        exact ⟨hfresh, hlater⟩
      · intro h
        constructor
        · intro hin
          obtain ⟨hid, hnone⟩ := h lines rfl hin
          obtain ⟨tmi, htmi, hsub⟩ := List.mem_map.mp hin
          have hmatch : isMatch sub 0 tmi = true := by simp [isMatch, hsub]
          obtain ⟨last, hlast⟩ := Option.isSome_iff_exists.mp
            (List.find?_isSome.mpr ⟨tmi, List.mem_reverse.mpr htmi, hmatch⟩)
          exact ⟨hid, last, hlast, hnone last hlast⟩
        · rintro ⟨hid, last, hlast, -⟩
          -- whoever is active has a record, and so is on the list
          have hmatch : isMatch sub 0 last = true := List.find?_some hlast
          have hsub : sub = last.sub := of_decide_eq_true (Bool.and_eq_true_iff.mp hmatch).1
          rw [hsub]
          exact List.mem_map.mpr ⟨last, List.mem_reverse.mp (List.mem_of_find?_eq_some hlast), rfl⟩

/-- A mark that has expired is still on the list. -/
theorem expired_mark_listed :
    ¬ ∀ (specifications : Dict TrustMarkSpecification) (db : FileDB) (calls : List CreateCall)
      (now : Int) (trustMarkId : String) (sub : EntityId),
      Listed (afterCalls specifications db calls) now trustMarkId sub ↔
        ReportedActive (afterCalls specifications db calls) now trustMarkId sub := by
  intro hall
  have h := hall (Dict.ofList [("tm", { lifetime := 10 })]) { config := Dict.ofList [("tm", "file")] }
    [{ id := "tm", sub := "https://rp.org", now := 0 }] 11 "tm" "https://rp.org"
  have hactive : ReportedActive _ _ _ _ := h.mp ⟨_, rfl, List.mem_cons_self ..⟩
  exact absurd hactive (by unfold ReportedActive; decide)

end Fedservice.TrustMarkEntity
