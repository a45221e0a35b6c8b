/-
  Fedservice.EntityStatement.Create

  `create_entity_statement` (entity_statement/create.py): what is packed and
  signed for a subject, from a record of claims.  The times of a statement and its
  signature are the packer's.

  Records are finite maps: two of them are equal exactly when the dictionaries are.
-/

import Fedservice.EntityStatement.Statement
import Mathlib.Data.Finmap

namespace Fedservice.EntityStatement

open Fedservice.Lib Fedservice.Py

/-- The claims that are registered for an entity, or a policy that is. -/
abbrev Record := Finmap (fun _ : String => Json)

/-- What the packer is given, for whom and for how long. -/
structure UnsignedStatement where
  iss : EntityId
  lifetime : Json
  payload : Record

/-- The parameters of `create_entity_statement` that a caller passes by themselves. -/
def ownParameters : List String := ["iss", "sub", "key_jar"]

/-- The other parameters of `create_entity_statement`. -/
def otherParameters : List String :=
  ["metadata", "metadata_policy", "authority_hints", "lifetime", "aud", "include_jwks",
    "constraints"]

/-- `if arg: msg[name] = arg`. -/
def addClaim (args : Record) (msg : Record) (name : String) : Record :=
  match args.lookup name with
  | some value => if value.truthy then msg.insert name value else msg
  | none => msg

/-- What `**kwargs` gets. -/
def keywordArguments (args : Record) : Record :=
  otherParameters.foldl (fun kwargs name => kwargs.erase name) args

/-- The message, but for the keys. -/
def messageOf (sub : EntityId) (args : Record) : Record :=
  keywordArguments args ∪
    ["metadata", "metadata_policy", "authority_hints", "aud", "constraints"].foldl (addClaim args)
      (Finmap.singleton "sub" (.str sub))

/-- `create_entity_statement(iss=iss, sub=sub, key_jar=key_jar, **args)`, where the key
    jar exports the keys given. -/
def createEntityStatement (exportJwks : Json) (iss sub : EntityId) (args : Record) :
    Except Exc UnsignedStatement :=
  if ownParameters.any fun name => decide (name ∈ args) then
    .error .typeError  -- got multiple values for keyword argument
  else
    let msg := messageOf sub args
    let includeJwks := (args.lookup "include_jwks").getD (.bool true)
    .ok {
      iss := iss
      lifetime := (args.lookup "lifetime").getD (.num 86400)
      payload :=
        if includeJwks.truthy then
          -- the public signing keys of the subject
          msg.insert "jwks" ((args.lookup "jwks").getD exportJwks)
        else msg }

/-! ## Who a statement is from and about -/

/-- A statement is made unless a claim collides with a parameter. -/
theorem createEntityStatement_eq_error_iff {exportJwks : Json} {iss sub : EntityId}
    {args : Record} {e : Exc} :
    createEntityStatement exportJwks iss sub args = .error e ↔
      e = .typeError ∧ ∃ name ∈ ownParameters, name ∈ args := by
  unfold createEntityStatement
  by_cases hany : (ownParameters.any fun name => decide (name ∈ args)) = true
  · rw [if_pos hany, Except.error.injEq, eq_comm]
    obtain ⟨name, hname, hmem⟩ := List.any_eq_true.mp hany
    exact ⟨fun he => ⟨he, name, hname, of_decide_eq_true hmem⟩, fun he => he.1⟩
  · rw [if_neg hany]
    refine ⟨fun h => absurd h (by simp), fun ⟨_, name, hname, hmem⟩ => absurd ?_ hany⟩
    exact List.any_eq_true.mpr ⟨name, hname, decide_eq_true hmem⟩

theorem createEntityStatement_iss {exportJwks : Json} {iss sub : EntityId} {args : Record}
    {statement : UnsignedStatement}
    (h : createEntityStatement exportJwks iss sub args = .ok statement) : statement.iss = iss := by
  unfold createEntityStatement at h
  by_cases hany : (ownParameters.any fun name => decide (name ∈ args)) = true
  · rw [if_pos hany] at h
    exact absurd h (by simp)
  · rw [if_neg hany, Except.ok.injEq] at h
    rw [← h]

theorem lookup_addClaim_ne {args msg : Record} {name claim : String} (h : claim ≠ name) :
    (addClaim args msg name).lookup claim = msg.lookup claim := by
  unfold addClaim
  cases args.lookup name with
  | none => rfl
  | some value =>
      by_cases htruthy : value.truthy = true
      · simp only [if_pos htruthy]
        exact Finmap.lookup_insert_of_ne _ h
      · simp only [if_neg htruthy]

theorem createEntityStatement_sub {exportJwks : Json} {iss sub : EntityId} {args : Record}
    {statement : UnsignedStatement}
    (h : createEntityStatement exportJwks iss sub args = .ok statement) :
    statement.payload.lookup "sub" = some (.str sub) := by
  unfold createEntityStatement at h
  by_cases hany : (ownParameters.any fun name => decide (name ∈ args)) = true
  · rw [if_pos hany] at h
    exact absurd h (by simp)
  · have hnot : "sub" ∉ args := fun hmem =>
      hany (List.any_eq_true.mpr ⟨"sub", by decide, decide_eq_true hmem⟩)
    have hkwargs : "sub" ∉ keywordArguments args := by
      unfold keywordArguments otherParameters
      simp only [List.foldl_cons, List.foldl_nil, Finmap.mem_erase, not_and]
      intro _ _ _ _ _ _ _
      exact hnot
    have hmsg : (messageOf sub args).lookup "sub" = some (.str sub) := by
      unfold messageOf
      rw [Finmap.lookup_union_right hkwargs]
      simp only [List.foldl_cons, List.foldl_nil]
      rw [lookup_addClaim_ne (by decide), lookup_addClaim_ne (by decide),
        lookup_addClaim_ne (by decide), lookup_addClaim_ne (by decide),
        lookup_addClaim_ne (by decide), Finmap.lookup_singleton_eq]
    rw [if_neg hany, Except.ok.injEq] at h
    rw [← h]
    simp only
    by_cases hjwks : ((args.lookup "include_jwks").getD (.bool true)).truthy = true
    · rw [if_pos hjwks, Finmap.lookup_insert_of_ne _ (by decide), hmsg]
    · rw [if_neg hjwks, hmsg]

/-! ## What a statement says -/

theorem createEntityStatement_of_claims {exportJwks : Json} {iss sub : EntityId} {args : Record}
    (hown : ∀ name ∈ ownParameters, name ∉ args) (hinclude : "include_jwks" ∉ args) :
    createEntityStatement exportJwks iss sub args = .ok {
      iss := iss
      lifetime := (args.lookup "lifetime").getD (.num 86400)
      payload := (messageOf sub args).insert "jwks" ((args.lookup "jwks").getD exportJwks) } := by
  have hany : ¬ (ownParameters.any fun name => decide (name ∈ args)) = true := by
    intro hany
    obtain ⟨name, hname, hmem⟩ := List.any_eq_true.mp hany
    exact hown name hname (of_decide_eq_true hmem)
  rw [createEntityStatement, if_neg hany, Finmap.lookup_eq_none.mpr hinclude]
  rfl

theorem mem_foldl_erase {names : List String} {args : Record} {name : String} :
    name ∈ names.foldl (fun kwargs name => kwargs.erase name) args ↔
      name ∈ args ∧ name ∉ names := by
  induction names generalizing args with
  | nil => simp
  | cons other names ih =>
      rw [List.foldl_cons, ih, Finmap.mem_erase, List.mem_cons, not_or]
      exact ⟨fun h => ⟨h.1.2, h.1.1, h.2⟩, fun h => ⟨⟨h.2.1, h.1⟩, h.2.2⟩⟩

theorem lookup_addClaim_self {args msg : Record} {name : String} :
    (addClaim args msg name).lookup name =
      ((args.lookup name).filter (·.truthy)).or (msg.lookup name) := by
  unfold addClaim
  cases args.lookup name with
  | none => rfl
  | some value =>
      cases htruthy : value.truthy with
      | false => simp [Option.filter, htruthy]
      | true => simp [Option.filter, htruthy]

/-- Of the claims that are passed as parameters of their own, the message has those that are not
    empty. -/
theorem lookup_messageOf {sub : EntityId} {args : Record} {name : String}
    (hname : name ∈ ["metadata", "metadata_policy", "authority_hints", "aud", "constraints"]) :
    (messageOf sub args).lookup name = (args.lookup name).filter (·.truthy) := by
  have hother : name ∈ otherParameters := by
    have hall : ∀ name ∈ ["metadata", "metadata_policy", "authority_hints", "aud", "constraints"],
      name ∈ otherParameters := by decide
    exact hall name hname
  have hkwargs : name ∉ keywordArguments args := fun hmem => (mem_foldl_erase.mp hmem).2 hother
  have hsub : name ≠ "sub" := by
    rintro rfl
    exact absurd hname (by decide)
  have hsingle : (Finmap.singleton "sub" (.str sub) : Record).lookup name = none :=
    Finmap.lookup_eq_none.mpr fun hmem => hsub (Finmap.mem_singleton _ _ _ |>.mp hmem)
  have hclaims : ∀ (names : List String) (msg : Record), names.Nodup →
      (names.foldl (addClaim args) msg).lookup name =
        if name ∈ names then ((args.lookup name).filter (·.truthy)).or (msg.lookup name)
        else msg.lookup name := by
    intro names
    induction names with
    | nil => exact fun msg _ => rfl
    | cons other names ih =>
        intro msg hnodup
        obtain ⟨hnew, hnodup⟩ := List.nodup_cons.mp hnodup
        rw [List.foldl_cons, ih _ hnodup]
        by_cases hother : name = other
        · rw [← hother, if_neg (hother ▸ hnew), if_pos (List.mem_cons_self ..),
            lookup_addClaim_self]
        · rw [lookup_addClaim_ne hother]
          simp only [List.mem_cons, hother, false_or]
  rw [messageOf, Finmap.lookup_union_right hkwargs, hclaims _ _ (by decide), if_pos hname, hsingle,
    Option.or_none]

end Fedservice.EntityStatement
