/-
  Fedservice.TrustMarkEntity.FileDB

  `FileDB` (trust_mark_entity/__init__.py): a file for each trust mark ID, with a line
  for each trust mark that has been issued, the last one at the end.  Two IDs may
  share a file.

  A record has the claims that the database looks at.  The clock stands still while
  a file is read.
-/

import Fedservice.EntityStatement.Statement
import Fedservice.Lib.Scan

namespace Fedservice.TrustMarkEntity

open Fedservice.Lib Fedservice.Py Fedservice.EntityStatement

/-! ## The database -/

/-- What is kept of a trust mark. -/
structure TmInfo where
  id : String
  sub : EntityId
  iat : Int
  exp : Option Int := none
deriving DecidableEq

/-- The names of the files by trust mark ID, and the lines of the files. -/
structure FileDB where
  config : Dict String
  files : Dict (List TmInfo) := ∅

/-- The lines of the file of a trust mark ID; a file that is not there is made empty to
    begin with. -/
def FileDB.lines (db : FileDB) (trustMarkId : String) : Except Exc (List TmInfo) := do
  let file ← item db.config trustMarkId
  return (db.files.lookup file).getD []

/-- `add`. -/
def FileDB.add (db : FileDB) (tmInfo : TmInfo) : Except Exc FileDB := do
  let file ← item db.config tmInfo.id
  -- adds a line at the end of the file
  return { db with files := db.files.insert file ((db.files.lookup file).getD [] ++ [tmInfo]) }

/-- `_match`: an `iat` of 0 is none. -/
def isMatch (sub : EntityId) (iat : Int) (tmi : TmInfo) : Bool :=
  decide (sub = tmi.sub) && (decide (iat = 0) || decide (iat = tmi.iat))

/-- Whether a record has expired. -/
def TmInfo.expired (now : Int) (tmi : TmInfo) : Bool := tmi.exp.any (fun exp => decide (exp < now))

/-- The loop of `find`, over the last issued first. -/
def findIn (now : Int) (sub : EntityId) (iat : Int) (newestFirst : List TmInfo) : Bool :=
  scan (TmInfo.expired now) (isMatch sub iat) newestFirst

/-- `find`. -/
def FileDB.find (db : FileDB) (now : Int) (trustMarkId : String) (sub : EntityId) (iat : Int) :
    Except Exc Bool := do
  return findIn now sub iat (← db.lines trustMarkId).reverse

/-- The loop of `list`. -/
def listIn (sub : EntityId) : List TmInfo → List EntityId → List EntityId
  | [], res => res
  | tmi :: rest, res =>
      listIn sub rest
        (if tmi.sub ∉ res ∧ (sub = "" ∨ tmi.sub = sub) then res ++ [tmi.sub] else res)

/-- `list`: nothing for an ID that is not known. -/
def FileDB.list (db : FileDB) (trustMarkId : String) (sub : EntityId) : List EntityId :=
  match db.lines trustMarkId with
  | .ok lines => listIn sub lines.reverse []
  | .error _ => []

/-! ## What the operations give -/

theorem lines_add {db db' : FileDB} {tmInfo : TmInfo} (h : db.add tmInfo = .ok db')
    (trustMarkId : String) :
    db'.config = db.config ∧ ∀ lines, db.lines trustMarkId = .ok lines →
      db'.lines trustMarkId = .ok (if db.config.lookup tmInfo.id = db.config.lookup trustMarkId
        then lines ++ [tmInfo] else lines) := by
  obtain ⟨file, hfile, hpure⟩ := except_bind_eq_ok.mp h
  obtain rfl := except_pure_eq_ok.mp hpure
  rw [item_eq_ok] at hfile
  refine ⟨rfl, fun lines hlines => ?_⟩
  obtain ⟨file', hfile', hread⟩ := except_bind_eq_ok.mp hlines
  rw [item_eq_ok] at hfile'
  obtain rfl := except_pure_eq_ok.mp hread
  rw [FileDB.lines, item_eq_ok.mpr hfile', hfile, hfile', except_ok_bind, Dict.lookup_insert']
  -- two IDs may share the file
  by_cases hsame : file = file'
  · subst hsame
    rw [if_pos rfl, if_pos rfl]
    rfl
  · rw [if_neg (Ne.symm hsame), if_neg fun heq => hsame (Option.some.inj heq)]
    rfl

theorem mem_listIn {sub x : EntityId} {newestFirst : List TmInfo} {res : List EntityId} :
    x ∈ listIn sub newestFirst res ↔
      x ∈ res ∨ x ∈ newestFirst.map (·.sub) ∧ (sub = "" ∨ x = sub) := by
  induction newestFirst generalizing res with
  | nil => simp [listIn]
  | cons tmi rest ih =>
      rw [listIn, ih, List.map_cons, List.mem_cons]
      -- a subject that is listed already is not listed again
      by_cases hnew : tmi.sub ∉ res ∧ (sub = "" ∨ tmi.sub = sub)
      · rw [if_pos hnew, List.mem_append, List.mem_singleton]
        constructor
        · rintro ((hres | rfl) | ⟨hin, hsub⟩)
          · exact .inl hres
          · exact .inr ⟨.inl rfl, hnew.2⟩
          · exact .inr ⟨.inr hin, hsub⟩
        · rintro (hres | ⟨rfl | hin, hsub⟩)
          · exact .inl (.inl hres)
          · exact .inl (.inr rfl)
          · exact .inr ⟨hin, hsub⟩
      · rw [if_neg hnew]
        constructor
        · rintro (hres | ⟨hin, hsub⟩)
          · exact .inl hres
          · exact .inr ⟨.inr hin, hsub⟩
        · rintro (hres | ⟨rfl | hin, hsub⟩)
          · exact .inl hres
          · exact .inl (Classical.not_not.mp fun hnot => hnew ⟨hnot, hsub⟩)
          · exact .inr ⟨hin, hsub⟩

/-- Who is on the list: everybody with a record, or the one asked for. -/
theorem mem_list {db : FileDB} {trustMarkId : String} {sub x : EntityId} {lines : List TmInfo}
    (hlines : db.lines trustMarkId = .ok lines) :
    x ∈ db.list trustMarkId sub ↔ x ∈ lines.map (·.sub) ∧ (sub = "" ∨ x = sub) := by
  simp [FileDB.list, hlines, mem_listIn]

/-! ## Answers about one subject -/

/-- The records about a subject, in their order. -/
def recordsAbout (sub : EntityId) (lines : List TmInfo) : List TmInfo :=
  lines.filter fun tmi => decide (sub = tmi.sub)

/-- Two logs with the same records about a subject give the same answer about it. -/
def ConcernsOnlySubject (db db' : FileDB) (now : Int) (trustMarkId : String) (sub : EntityId)
    (iat : Int) : Prop :=
  ∀ lines lines', db.lines trustMarkId = .ok lines → db'.lines trustMarkId = .ok lines' →
    recordsAbout sub lines = recordsAbout sub lines' →
      db.find now trustMarkId sub iat = db'.find now trustMarkId sub iat

/-- By the records about the subject alone its mark is active: the last one that matches has not
    expired, nor has one that was issued later. -/
def ActiveByItself (now : Int) (sub : EntityId) (iat : Int) (records : List TmInfo) : Prop :=
  ∃ tmi, records.reverse.find? (isMatch sub iat) = some tmi ∧ tmi.expired now = false ∧
    ∀ later ∈ records.reverse.takeWhile (fun tmi => !isMatch sub iat tmi),
      later.expired now = false

/-- A mark of somebody else was issued later than the last one of the subject that matches, and
    has expired. -/
def Overtaken (now : Int) (sub : EntityId) (iat : Int) (lines : List TmInfo) : Prop :=
  ∃ later ∈ lines.reverse.takeWhile (fun tmi => !isMatch sub iat tmi),
    later.sub ≠ sub ∧ later.expired now = true

theorem findIn_eq_true_iff {now : Int} {sub : EntityId} {iat : Int} {lines : List TmInfo} :
    findIn now sub iat lines.reverse = true ↔
      ActiveByItself now sub iat (recordsAbout sub lines) ∧ ¬ Overtaken now sub iat lines := by
  -- the loop stops at the first record that matches or has expired, and it matches only the
  -- subject's
  have hkeep : ∀ tmi, isMatch sub iat tmi = true → decide (sub = tmi.sub) = true := fun tmi h =>
    (Bool.and_eq_true_iff.mp h).1
  rw [findIn, scan_eq_true_iff_filter hkeep, scan_eq_true_iff, ActiveByItself, recordsAbout,
    List.filter_reverse]
  refine and_congr_right fun _ => ?_
  rw [Overtaken]
  constructor
  · rintro h ⟨later, hin, hsub, hexpired⟩
    have hfresh := h later hin (decide_eq_false (Ne.symm hsub))
    rw [hexpired] at hfresh
    exact Bool.noConfusion hfresh
  · intro h later hin hsub
    cases hexpired : later.expired now with
    | false => rfl
    | true => exact absurd ⟨later, hin, Ne.symm (of_decide_eq_false hsub), hexpired⟩ h

/-- Two logs with the same records about a subject give the same answer about it exactly if its
    mark is not active by itself anyway, or is overtaken by an expired one of somebody else in
    both of them or in neither. -/
theorem concerns_only_subject_iff (db db' : FileDB) (now : Int) (trustMarkId : String)
    (sub : EntityId) (iat : Int) :
    ConcernsOnlySubject db db' now trustMarkId sub iat ↔
      ∀ lines lines', db.lines trustMarkId = .ok lines → db'.lines trustMarkId = .ok lines' →
        recordsAbout sub lines = recordsAbout sub lines' →
          ActiveByItself now sub iat (recordsAbout sub lines) →
            (Overtaken now sub iat lines ↔ Overtaken now sub iat lines') := by
  unfold ConcernsOnlySubject
  refine forall₅_congr fun lines lines' hlines hlines' hsame => ?_
  rw [FileDB.find, FileDB.find, hlines, hlines']
  show Except.ok _ = Except.ok _ ↔ _
  rw [Except.ok.injEq, Bool.eq_iff_iff, findIn_eq_true_iff, findIn_eq_true_iff, ← hsame]
  tauto

/-- Somebody's mark is active until somebody else's, issued later, expires. -/
theorem expiry_of_another_mark :
    ¬ ∀ (db db' : FileDB) (now : Int) (trustMarkId : String) (sub : EntityId) (iat : Int),
      ConcernsOnlySubject db db' now trustMarkId sub iat := by
  intro hall
  have hsame := hall
    { config := Dict.ofList [("tm", "file")]
      files := Dict.ofList [("file", [⟨"tm", "https://rp.org", 1, none⟩])] }
    { config := Dict.ofList [("tm", "file")]
      files := Dict.ofList [("file",
        [⟨"tm", "https://rp.org", 1, none⟩, ⟨"tm", "https://other.org", 2, some 3⟩])] }
    4 "tm" "https://rp.org" 0 _ _ rfl rfl rfl
  exact absurd hsame (by decide)

end Fedservice.TrustMarkEntity
