/-
  Fedservice.TrustMarkEntity.SimpleDB

  `SimpleDB` (trust_mark_entity/__init__.py), the database that is used where none is
  configured: a dictionary of dictionaries, by trust mark ID and subject.  And how
  far it can take the place of a `FileDB`.
-/

import Fedservice.TrustMarkEntity.FileDB

namespace Fedservice.TrustMarkEntity

open Fedservice.Lib Fedservice.Py Fedservice.EntityStatement

/-! ## The database -/

/-- `SimpleDB`. -/
structure SimpleDB where
  db : Dict (Dict TmInfo) := ∅

/-- `add`: a dictionary has no `append`. -/
def SimpleDB.add (simple : SimpleDB) (tmInfo : TmInfo) : Except Exc SimpleDB :=
  if tmInfo.id ∈ simple.db then .error (.attributeError "append")
  else .ok ⟨simple.db.insert tmInfo.id (Dict.ofList [(tmInfo.sub, tmInfo)])⟩

/-- `list`: the keys of the dictionary that is returned, if there is one. -/
def SimpleDB.list (simple : SimpleDB) (trustMarkId : String) (sub : EntityId) :
    Except Exc (Option (List EntityId)) :=
  if sub ≠ "" then do
    let marks ← item simple.db trustMarkId
    return if sub ∈ marks then some [sub] else none
  else return (simple.db.lookup trustMarkId).map (·.keys)

/-- `find`. -/
def SimpleDB.find (simple : SimpleDB) (trustMarkId : String) (sub : EntityId) (iat : Int) :
    Except Exc Bool := do
  let marks ← item simple.db trustMarkId
  return (marks.lookup sub).any fun tmi => iat = 0 || iat = tmi.iat

/-! ## Adding a sequence of marks -/

/-- `add`, for each of the marks. -/
def SimpleDB.addAll (simple : SimpleDB) : List TmInfo → Except Exc SimpleDB
  | [] => .ok simple
  | tmInfo :: rest => do (← simple.add tmInfo).addAll rest

/-- `add`, for each of the marks. -/
def FileDB.addAll (db : FileDB) : List TmInfo → Except Exc FileDB
  | [] => .ok db
  | tmInfo :: rest => do (← db.add tmInfo).addAll rest

/-- The databases answer alike, whatever is asked about an ID that is known, and whenever. -/
structure AnswerAlike (simple : SimpleDB) (db : FileDB) : Prop where
  find : ∀ id ∈ db.config, ∀ now sub iat, simple.find id sub iat = db.find now id sub iat
  list : ∀ id ∈ db.config, ∀ sub, ∃ subjects, simple.list id sub = .ok subjects ∧
    ∀ x, x ∈ subjects.getD [] ↔ x ∈ db.list id sub

/-- Starting empty, both databases accept the same sequences of marks with IDs that are known,
    and answer alike afterwards. -/
def Interchangeable (config : Dict String) (marks : List TmInfo) : Prop :=
  (∀ tmInfo ∈ marks, tmInfo.id ∈ config) →
    ((∃ simple, SimpleDB.addAll {} marks = .ok simple) ↔
      ∃ db, FileDB.addAll { config } marks = .ok db) ∧
    ∀ simple db, SimpleDB.addAll {} marks = .ok simple →
      FileDB.addAll { config } marks = .ok db → AnswerAlike simple db

/-! ## When they are interchangeable -/

/-- There is one mark for every ID, those of IDs that share a file are for one subject and from
    the same time, and the last one in each file does not expire. -/
structure OneMarkEach (config : Dict String) (marks : List TmInfo) : Prop where
  distinct : (marks.map (·.id)).Nodup
  every : ∀ id ∈ config, id ∈ marks.map (·.id)
  shared : ∀ tmi ∈ marks, ∀ tmi' ∈ marks, config.lookup tmi.id = config.lookup tmi'.id →
    tmi.sub = tmi'.sub ∧ tmi.iat = tmi'.iat
  unlimited : ∀ before tmi after, marks = before ++ tmi :: after → tmi.exp ≠ none →
    ∃ tmi' ∈ after, config.lookup tmi'.id = config.lookup tmi.id

/-! ## What the databases hold after a sequence of marks -/

/-- A `FileDB` takes every mark with an ID it knows, -/
theorem addAll_fileDB {db : FileDB} {marks : List TmInfo}
    (hknown : ∀ tmInfo ∈ marks, tmInfo.id ∈ db.config) :
    ∃ db', db.addAll marks = .ok db' := by
  induction marks generalizing db with
  | nil => exact ⟨db, rfl⟩
  | cons tmInfo rest ih =>
      obtain ⟨hid, hrest⟩ := List.forall_mem_cons.mp hknown
      obtain ⟨file, hfile⟩ := Dict.mem_iff_lookup.mp hid
      have hadd : ∃ db₁, db.add tmInfo = .ok db₁ ∧ db₁.config = db.config := by
        rw [FileDB.add, item_eq_ok.mpr hfile]
        exact ⟨_, rfl, rfl⟩
      obtain ⟨db₁, hdb₁, hconfig⟩ := hadd
      obtain ⟨db', hdb'⟩ := @ih db₁ (by rwa [hconfig])
      exact ⟨db', except_bind_eq_ok.mpr ⟨db₁, hdb₁, hdb'⟩⟩

/-- and has them at the end of their files. -/
theorem lines_addAll {db db' : FileDB} {marks : List TmInfo} (h : db.addAll marks = .ok db') :
    db'.config = db.config ∧ ∀ id lines, db.lines id = .ok lines →
      db'.lines id = .ok (lines ++ marks.filter fun tmi =>
        decide (db.config.lookup tmi.id = db.config.lookup id)) := by
  induction marks generalizing db with
  | nil =>
      obtain rfl := Except.ok.inj h
      exact ⟨rfl, fun id lines hlines => by simpa using hlines⟩
  | cons tmInfo rest ih =>
      obtain ⟨db₁, hadd, hrest⟩ := except_bind_eq_ok.mp h
      obtain ⟨hconfig', hlines'⟩ := ih hrest
      refine ⟨hconfig'.trans (lines_add hadd "").1, fun id lines hlines => ?_⟩
      obtain ⟨hconfig, hadded⟩ := lines_add hadd id
      rw [hlines' id _ (hadded lines hlines), hconfig, List.filter_cons]
      by_cases hsame : db.config.lookup tmInfo.id = db.config.lookup id
      · simp [hsame]
      · simp [hsame]

/-- A `SimpleDB` takes one mark for an ID, -/
theorem addAll_simpleDB {simple : SimpleDB} {marks : List TmInfo} :
    (∃ simple', simple.addAll marks = .ok simple') ↔
      (marks.map (·.id)).Nodup ∧ ∀ tmi ∈ marks, tmi.id ∉ simple.db := by
  induction marks generalizing simple with
  | nil => simp [SimpleDB.addAll]
  | cons tmInfo rest ih =>
      rw [SimpleDB.addAll, SimpleDB.add]
      -- what is under an ID that is there is a dictionary, and has no `append`
      by_cases hin : tmInfo.id ∈ simple.db
      · rw [if_pos hin]
        simp [hin]
      · rw [if_neg hin, except_ok_bind, ih, List.map_cons, List.nodup_cons, List.forall_mem_cons]
        simp only [AList.mem_insert, not_or]
        constructor
        · rintro ⟨hnodup, hnew⟩
          refine ⟨⟨fun hmem => ?_, hnodup⟩, hin, fun tmi htmi => (hnew tmi htmi).2⟩
          obtain ⟨tmi, htmi, heq⟩ := List.mem_map.mp hmem
          exact (hnew tmi htmi).1 heq
        · rintro ⟨⟨hnew, hnodup⟩, -, hrest⟩
          exact ⟨hnodup, fun tmi htmi =>
            ⟨fun heq => hnew (List.mem_map.mpr ⟨tmi, htmi, heq⟩), hrest tmi htmi⟩⟩

/-- and has it under its subject. -/
theorem lookup_addAll {simple simple' : SimpleDB} {marks : List TmInfo}
    (h : simple.addAll marks = .ok simple') (id : String) :
    simple'.db.lookup id =
      ((marks.find? fun tmi => decide (tmi.id = id)).map fun tmi =>
        Dict.ofList [(tmi.sub, tmi)]).or (simple.db.lookup id) := by
  induction marks generalizing simple with
  | nil =>
      obtain rfl := Except.ok.inj h
      rfl
  | cons tmInfo rest ih =>
      obtain ⟨simple₁, hadd, hrest⟩ := except_bind_eq_ok.mp h
      unfold SimpleDB.add at hadd
      split_ifs at hadd with hin
      obtain rfl := Except.ok.inj hadd
      rw [ih hrest, Dict.lookup_insert']
      by_cases hid : tmInfo.id = id
      · subst hid
        -- no later mark has the ID
        have hlater : (rest.find? fun tmi => decide (tmi.id = tmInfo.id)) = none := by
          refine List.find?_eq_none.mpr fun tmi htmi heq => ?_
          have hnew := (addAll_simpleDB.mp ⟨simple', hrest⟩).2 tmi htmi
          rw [of_decide_eq_true heq] at hnew
          exact hnew (AList.mem_insert _ |>.mpr (.inl rfl))
        simp [hlater]
      · simp [hid, Ne.symm hid]

/-! ## The answers -/

variable {config : Dict String} {marks : List TmInfo} {simple : SimpleDB} {db : FileDB}

/-- The lines that the marks leave in the file of an ID. -/
def linesOf (config : Dict String) (marks : List TmInfo) (id : String) : List TmInfo :=
  marks.filter fun tmi => decide (config.lookup tmi.id = config.lookup id)

theorem lines_of_addAll (hdb : FileDB.addAll { config } marks = .ok db) {id : String}
    (hid : id ∈ config) : db.lines id = .ok (linesOf config marks id) := by
  obtain ⟨file, hfile⟩ := Dict.mem_iff_lookup.mp hid
  have hempty : (FileDB.mk config ∅).lines id = .ok [] := by
    rw [FileDB.lines, item_eq_ok.mpr hfile]
    rfl
  rw [(lines_addAll hdb).2 id [] hempty]
  rfl

/-- What a `SimpleDB` answers about an ID with one mark. -/
theorem simple_of_lookup {tmi : TmInfo} {id : String}
    (hlookup : simple.db.lookup id = some (Dict.ofList [(tmi.sub, tmi)])) (sub : EntityId) :
    (∀ iat, simple.find id sub iat = .ok (isMatch sub iat tmi)) ∧
      ∃ subjects, simple.list id sub = .ok subjects ∧
        ∀ x, x ∈ subjects.getD [] ↔ x = tmi.sub ∧ (sub = "" ∨ x = sub) := by
  have hone : (Dict.ofList [(tmi.sub, tmi)]).lookup sub = if sub = tmi.sub then some tmi else none :=
    Dict.lookup_insert' ..
  constructor
  · intro iat
    rw [SimpleDB.find, item_eq_ok.mpr hlookup, except_ok_bind, hone, isMatch]
    by_cases hsub : sub = tmi.sub
    · rw [if_pos hsub, decide_eq_true hsub]
      rfl
    · rw [if_neg hsub, decide_eq_false hsub]
      rfl
  · unfold SimpleDB.list
    -- for one subject its own mark is looked up, otherwise all of them are there
    split_ifs with hall
    · rw [item_eq_ok.mpr hlookup, except_ok_bind]
      have hmem : sub ∈ Dict.ofList [(tmi.sub, tmi)] ↔ sub = tmi.sub := by
        rw [← AList.lookup_isSome, hone]
        split_ifs with hsub <;> simp [hsub]
      refine ⟨_, rfl, fun x => ?_⟩
      by_cases hsub : sub = tmi.sub
      · rw [if_pos (hmem.mpr hsub), Option.getD_some, List.mem_singleton, hsub]
        tauto
      · rw [if_neg (mt hmem.mp hsub), Option.getD_none]
        constructor
        · exact fun hx => absurd hx List.not_mem_nil
        · rintro ⟨rfl, hnone | heq⟩
          · exact absurd hnone hall
          · exact absurd heq.symm hsub
    · refine ⟨_, rfl, fun x => ?_⟩
      rw [hlookup]
      have hkeys : (Dict.ofList [(tmi.sub, tmi)]).keys = [tmi.sub] := rfl
      have hnone : sub = "" := Classical.not_not.mp hall
      simp [hkeys, hnone]

/-- After the last mark of a file nothing more goes into it. -/
theorem linesOf_append_last {before after : List TmInfo} {last : TmInfo} {id : String}
    (hfile : config.lookup last.id = config.lookup id)
    (hlater : ∀ later ∈ after, config.lookup later.id ≠ config.lookup id) :
    linesOf config (before ++ last :: after) id = linesOf config before id ++ [last] := by
  have hnil : after.filter (fun tmi => decide (config.lookup tmi.id = config.lookup id)) = [] :=
    List.filter_eq_nil_iff.mpr fun later hin => by simpa using hlater later hin
  rw [linesOf, List.filter_append, List.filter_cons, if_pos (decide_eq_true hfile), hnil]
  rfl

/-- The last mark of a file, and what is in the file before it. -/
theorem exists_last_line {tmi : TmInfo} (htmi : tmi ∈ marks) :
    ∃ before last after, marks = before ++ last :: after ∧
      config.lookup last.id = config.lookup tmi.id ∧
      (∀ later ∈ after, config.lookup later.id ≠ config.lookup tmi.id) ∧
      linesOf config marks tmi.id = linesOf config before tmi.id ++ [last] := by
  cases hlast : marks.reverse.find? (fun other =>
      decide (config.lookup other.id = config.lookup tmi.id)) with
  | none =>
      have hnot := List.find?_eq_none.mp hlast tmi (List.mem_reverse.mpr htmi)
      exact absurd (decide_eq_true rfl) hnot
  | some last =>
      obtain ⟨hfile, later, earlier, hsplit, hnone⟩ := List.find?_eq_some_iff_append.mp hlast
      have hmarks : marks = earlier.reverse ++ last :: later.reverse := by
        rw [← List.reverse_reverse marks, hsplit]
        simp
      have hafter : ∀ other ∈ later.reverse, config.lookup other.id ≠ config.lookup tmi.id := by
        intro other hother
        have hno := hnone other (List.mem_reverse.mp hother)
        simpa using hno
      have hlast : config.lookup last.id = config.lookup tmi.id := of_decide_eq_true hfile
      refine ⟨earlier.reverse, last, later.reverse, hmarks, hlast, hafter, ?_⟩
      rw [hmarks, linesOf_append_last hlast hafter]

/-- A file of marks for one subject and from the same time, the last of which does not expire. -/
theorem findIn_of_alike {now iat : Int} {sub : EntityId} {last : TmInfo} {earlier : List TmInfo}
    (hlast : last.exp = none)
    (halike : ∀ tmi ∈ earlier, tmi.sub = last.sub ∧ tmi.iat = last.iat) :
    findIn now sub iat (earlier ++ [last]).reverse = isMatch sub iat last := by
  have hfresh : last.expired now = false := by rw [TmInfo.expired, hlast, Option.any_none]
  rw [List.reverse_append, List.reverse_singleton, List.singleton_append, findIn, scan_cons, hfresh]
  cases hmatch : isMatch sub iat last with
  | true => rfl
  | false =>
      refine scan_eq_false fun tmi htmi => ?_
      -- the ones before it are for the same subject and time, so they do not match either
      obtain ⟨hsub, hiat⟩ := halike tmi (List.mem_reverse.mp htmi)
      rw [isMatch, hsub, hiat]
      exact hmatch

/-- At some time nothing has expired yet. -/
theorem exists_before_expiry (lines : List TmInfo) :
    ∃ now, ∀ tmi ∈ lines, tmi.expired now = false := by
  induction lines with
  | nil => exact ⟨0, fun _ h => absurd h List.not_mem_nil⟩
  | cons tmi rest ih =>
      obtain ⟨now, hnow⟩ := ih
      refine ⟨min now (tmi.exp.getD 0), List.forall_mem_cons.mpr ⟨?_, fun other hother => ?_⟩⟩
      · cases hexp : tmi.exp with
        | none => simp [TmInfo.expired, hexp]
        | some exp => simp [TmInfo.expired, hexp]
      · have hfresh := hnow other hother
        cases hexp : other.exp with
        | none => simp [TmInfo.expired, hexp]
        | some exp =>
            simp only [TmInfo.expired, hexp, Option.any_some, decide_eq_false_iff_not] at hfresh ⊢
            omega

/-- What a `SimpleDB` has under the ID of a mark. -/
theorem lookup_of_mem (hsimple : SimpleDB.addAll {} marks = .ok simple) {tmi : TmInfo}
    (htmi : tmi ∈ marks) : simple.db.lookup tmi.id = some (Dict.ofList [(tmi.sub, tmi)]) := by
  have hdistinct := (addAll_simpleDB.mp ⟨simple, hsimple⟩).1
  cases hfind : marks.find? fun other => decide (other.id = tmi.id) with
  | none => exact absurd (decide_eq_true rfl) (List.find?_eq_none.mp hfind tmi htmi)
  | some other =>
      have hsame : other.id = tmi.id := by simpa using List.find?_some hfind
      rw [lookup_addAll hsimple, hfind,
        List.inj_on_of_nodup_map hdistinct (List.mem_of_find?_eq_some hfind) htmi hsame]
      rfl

/-- The mark of an ID in both databases, where there is one mark each: the marks of its file
    are for the same subject and from the same time, and the last one does not expire. -/
theorem mark_of_oneMarkEach (hone : OneMarkEach config marks)
    (hsimple : SimpleDB.addAll {} marks = .ok simple)
    (hdb : FileDB.addAll { config } marks = .ok db) {id : String} (hid : id ∈ config) :
    ∃ tmi earlier last, simple.db.lookup id = some (Dict.ofList [(tmi.sub, tmi)]) ∧
      db.lines id = .ok (earlier ++ [last]) ∧ last.exp = none ∧
      ∀ line ∈ earlier ++ [last], line.sub = tmi.sub ∧ line.iat = tmi.iat := by
  obtain ⟨tmi, htmi, rfl⟩ := List.mem_map.mp (hone.every id hid)
  obtain ⟨before, last, after, hmarks, hfile, hlater, hlines⟩ := @exists_last_line config _ _ htmi
  refine ⟨tmi, linesOf config before tmi.id, last, lookup_of_mem hsimple htmi, ?_, ?_, ?_⟩
  · rw [lines_of_addAll hdb hid, hlines]
  · by_contra hexp
    obtain ⟨other, hother, hsame⟩ := hone.unlimited before last after hmarks hexp
    exact hlater other hother (hsame.trans hfile)
  · intro line hline
    rw [← hlines] at hline
    obtain ⟨hin, hsame⟩ := List.mem_filter.mp hline
    exact hone.shared line hin tmi htmi (of_decide_eq_true hsame)

/-- After one mark each the databases answer alike. -/
theorem answersAlike_of_oneMarkEach (hone : OneMarkEach config marks)
    (hsimple : SimpleDB.addAll {} marks = .ok simple)
    (hdb : FileDB.addAll { config } marks = .ok db) : AnswerAlike simple db := by
  have hconfig : db.config = config := (lines_addAll hdb).1
  constructor
  · intro id hid now sub iat
    obtain ⟨tmi, earlier, last, hlookup, hlines, hexp, halike⟩ :=
      mark_of_oneMarkEach hone hsimple hdb (hconfig ▸ hid)
    obtain ⟨hearlier, hlast⟩ := List.forall_mem_append.mp halike
    obtain ⟨hsub, hiat⟩ := hlast last (List.mem_singleton_self last)
    have hfind := @findIn_of_alike now iat sub _ _ hexp fun line hline => by
      rw [hsub, hiat]
      exact hearlier line hline
    rw [(simple_of_lookup hlookup sub).1 iat, FileDB.find, hlines, except_ok_bind, hfind, isMatch,
      isMatch, hsub, hiat]
    rfl
  · intro id hid sub
    obtain ⟨tmi, earlier, last, hlookup, hlines, hexp, halike⟩ :=
      mark_of_oneMarkEach hone hsimple hdb (hconfig ▸ hid)
    obtain ⟨subjects, hlist, hsubjects⟩ := (simple_of_lookup hlookup sub).2
    refine ⟨subjects, hlist, fun x => ?_⟩
    rw [hsubjects, mem_list hlines]
    refine and_congr_left fun _ => ?_
    rw [List.mem_map]
    constructor
    · rintro rfl
      exact ⟨last, by simp, (halike last (by simp)).1⟩
    · rintro ⟨line, hline, rfl⟩
      exact (halike line hline).1

/-- Where the databases answer alike, there is a mark for every ID, -/
theorem AnswerAlike.every (h : AnswerAlike simple db)
    (hsimple : SimpleDB.addAll {} marks = .ok simple)
    (hdb : FileDB.addAll { config } marks = .ok db) {id : String} (hid : id ∈ config) :
    id ∈ marks.map (·.id) := by
  by_contra hnot
  have hnone : simple.db.lookup id = none := by
    have hfind : marks.find? (fun tmi => decide (tmi.id = id)) = none :=
      List.find?_eq_none.mpr fun tmi htmi heq =>
        hnot (List.mem_map.mpr ⟨tmi, htmi, of_decide_eq_true heq⟩)
    rw [lookup_addAll hsimple, hfind]
    rfl
  have hconfig : db.config = config := (lines_addAll hdb).1
  have hfind := h.find id (hconfig ▸ hid) 0 "" 0
  -- the one raises where the other has an empty file
  have hraises : simple.find id "" 0 = .error (.keyError id) := by
    rw [SimpleDB.find, item, hnone]
    rfl
  rw [hraises, FileDB.find, lines_of_addAll hdb hid] at hfind
  exact absurd hfind (by simp [bind, Except.bind, pure, Except.pure])

/-- marks that share a file are for one subject and from the same time, -/
theorem AnswerAlike.shared (h : AnswerAlike simple db)
    (hsimple : SimpleDB.addAll {} marks = .ok simple)
    (hdb : FileDB.addAll { config } marks = .ok db)
    (hknown : ∀ tmi ∈ marks, tmi.id ∈ config) {tmi tmi' : TmInfo} (htmi : tmi ∈ marks)
    (htmi' : tmi' ∈ marks) (hfile : config.lookup tmi.id = config.lookup tmi'.id) :
    tmi.sub = tmi'.sub ∧ (tmi.iat ≠ 0 → tmi.iat = tmi'.iat) := by
  have hconfig : db.config = config := (lines_addAll hdb).1
  have hlines := lines_of_addAll hdb (hknown tmi' htmi')
  have hin : tmi ∈ linesOf config marks tmi'.id := List.mem_filter.mpr ⟨htmi, decide_eq_true hfile⟩
  have hid : tmi'.id ∈ db.config := hconfig ▸ hknown tmi' htmi'
  have hlookup := lookup_of_mem hsimple htmi'
  have hsub : tmi.sub = tmi'.sub := by
    obtain ⟨subjects, hlist, hsubjects⟩ := h.list tmi'.id hid ""
    obtain ⟨subjects', hlist', hsubjects'⟩ := (simple_of_lookup hlookup "").2
    obtain rfl := Except.ok.inj (hlist.symm.trans hlist')
    have hlisted := (hsubjects tmi.sub).mpr
      ((mem_list hlines).mpr ⟨List.mem_map.mpr ⟨tmi, hin, rfl⟩, .inl rfl⟩)
    exact ((hsubjects' tmi.sub).mp hlisted).1
  refine ⟨hsub, fun hne => ?_⟩
  obtain ⟨now, hnow⟩ := exists_before_expiry (linesOf config marks tmi'.id)
  have hfind := h.find tmi'.id hid now tmi.sub tmi.iat
  have hmatch : isMatch tmi.sub tmi.iat tmi = true := by simp [isMatch]
  -- nothing has expired, so that the file has an answer
  have hfound : findIn now tmi.sub tmi.iat (linesOf config marks tmi'.id).reverse = true := by
    rw [findIn, scan_eq_true_iff]
    cases hfirst : (linesOf config marks tmi'.id).reverse.find? (isMatch tmi.sub tmi.iat) with
    | none =>
        have hnot := List.find?_eq_none.mp hfirst tmi (List.mem_reverse.mpr hin)
        exact absurd hmatch hnot
    | some first =>
        refine ⟨first, rfl, hnow first ?_, fun line hline => hnow line ?_⟩
        · exact List.mem_reverse.mp (List.mem_of_find?_eq_some hfirst)
        · exact List.mem_reverse.mp ((List.takeWhile_prefix _).subset hline)
  rw [(simple_of_lookup hlookup tmi.sub).1, FileDB.find, hlines, except_ok_bind, hfound] at hfind
  have hmatch' : isMatch tmi.sub tmi.iat tmi' = true := Except.ok.inj hfind
  simpa [isMatch, hsub, hne] using hmatch'

/-- and the last mark in a file does not expire. -/
theorem AnswerAlike.unlimited (h : AnswerAlike simple db)
    (hsimple : SimpleDB.addAll {} marks = .ok simple)
    (hdb : FileDB.addAll { config } marks = .ok db)
    (hknown : ∀ tmi ∈ marks, tmi.id ∈ config) {before after : List TmInfo} {tmi : TmInfo}
    (hmarks : marks = before ++ tmi :: after) (hexp : tmi.exp ≠ none) :
    ∃ tmi' ∈ after, config.lookup tmi'.id = config.lookup tmi.id := by
  by_contra hnone
  have hlast : ∀ later ∈ after, config.lookup later.id ≠ config.lookup tmi.id := fun later hin heq =>
    hnone ⟨later, hin, heq⟩
  have htmi : tmi ∈ marks := by
    rw [hmarks]
    simp
  have hconfig : db.config = config := (lines_addAll hdb).1
  obtain ⟨exp, hexp⟩ := Option.ne_none_iff_exists'.mp hexp
  have hfind := h.find tmi.id (hconfig ▸ hknown tmi htmi) (exp + 1) tmi.sub 0
  have hlines : linesOf config marks tmi.id = linesOf config before tmi.id ++ [tmi] := by
    rw [hmarks, linesOf_append_last rfl hlast]
  have hexpired : tmi.expired (exp + 1) = true := by
    rw [TmInfo.expired, hexp, Option.any_some, decide_eq_true_eq]
    exact Int.lt_succ exp
  rw [(simple_of_lookup (lookup_of_mem hsimple htmi) tmi.sub).1, FileDB.find,
    lines_of_addAll hdb (hknown tmi htmi), hlines, except_ok_bind, List.reverse_append,
    List.reverse_singleton, List.singleton_append, findIn, scan_cons, hexpired] at hfind
  have hmatch : isMatch tmi.sub 0 tmi = false := Except.ok.inj hfind
  simp [isMatch] at hmatch

/-- The databases are interchangeable exactly on sequences with one mark each. -/
theorem interchangeable_iff (config : Dict String) (marks : List TmInfo) :
    Interchangeable config marks ↔
      ((∀ tmInfo ∈ marks, tmInfo.id ∈ config) → OneMarkEach config marks) := by
  refine forall_congr' fun hknown => ?_
  constructor
  · rintro ⟨haccept, halike⟩
    obtain ⟨db, hdb⟩ := @addAll_fileDB { config } _ hknown
    obtain ⟨simple, hsimple⟩ := haccept.mpr ⟨db, hdb⟩
    have h := halike simple db hsimple hdb
    refine ⟨(addAll_simpleDB.mp ⟨simple, hsimple⟩).1, fun id hid => h.every hsimple hdb hid, ?_,
      fun before tmi after => h.unlimited hsimple hdb hknown⟩
    intro tmi htmi tmi' htmi' hfile
    obtain ⟨hsub, hiat⟩ := h.shared hsimple hdb hknown htmi htmi' hfile
    obtain ⟨-, hiat'⟩ := h.shared hsimple hdb hknown htmi' htmi hfile.symm
    refine ⟨hsub, ?_⟩
    by_cases hzero : tmi.iat = 0
    · by_cases hzero' : tmi'.iat = 0
      · rw [hzero, hzero']
      · exact (hiat' hzero').symm
    · exact hiat hzero
  · intro hone
    refine ⟨⟨fun _ => addAll_fileDB hknown, fun _ => addAll_simpleDB.mpr ⟨hone.distinct, ?_⟩⟩,
      fun simple db => answersAlike_of_oneMarkEach hone⟩
    exact fun tmi _ => AList.notMem_empty tmi.id

/-- A `SimpleDB` does not take a second mark for an ID. -/
theorem second_subject_refused :
    ¬ ∀ (config : Dict String) (marks : List TmInfo), Interchangeable config marks := by
  intro hall
  obtain ⟨haccept, -⟩ := hall (Dict.ofList [("tm", "file")])
    [⟨"tm", "https://rp.org", 1, none⟩, ⟨"tm", "https://other.org", 2, none⟩] (by decide)
  obtain ⟨simple, hsimple⟩ := haccept.mpr ⟨_, rfl⟩
  exact absurd (addAll_simpleDB.mp ⟨simple, hsimple⟩).1 (by decide)

end Fedservice.TrustMarkEntity
