/-
  Fedservice.EntityStatement.Pack

  Signing: `JWT(key_jar=.., iss=.., lifetime=..).pack(payload)`, which belongs to the
  crypto library and puts issuer and times in, and the payload as those see it who
  parse the token again.  How keys and trust marks are parsed is a parameter.
-/

import Fedservice.EntityStatement.Create

namespace Fedservice.EntityStatement

open Fedservice.Lib Fedservice.Py

/-! ## Reading JSON -/

/-- A list of texts. -/
def strings? : Json → Option (List String)
  | .arr xs => xs.mapM fun | .str s => some s | _ => none
  | _ => none

/-- A number. -/
def int? : Json → Option Int
  | .num n => some n
  | _ => none

/-- A dictionary of values that are read in the same way; what cannot be read is not there. -/
def dictOf {α : Type} (read : Json → Option α) : Json → Option (Dict α)
  | .obj fields =>
      some (Dict.ofList (fields.filterMap fun e => (read e.2).map fun v => (e.1, v)))
  | _ => none

theorem strings?_arr (xs : List String) : strings? (.arr (xs.map .str)) = some xs := by
  rw [strings?]
  induction xs with
  | nil => rfl
  | cons x xs ih => rw [List.map_cons, List.mapM_cons, ih]; rfl

/-- What is found in a dictionary that is read from the JSON of one. -/
theorem lookup_of_dictOf {α : Type} {read : Json → Option α} {d : Dict Json} {d' : Dict α}
    (h : dictOf read (.obj (d.entries.map fun e => (e.1, e.2))) = some d') (k : String) :
    d'.lookup k = (d.lookup k).bind read := by
  obtain rfl := Option.some.inj h
  rw [List.filterMap_map]
  exact Dict.lookup_ofList_filterMap read d k

/-! ## Reading a payload -/

/-- How keys and trust marks are parsed. -/
structure Reader (Key : Type) where
  keys : Json → List Key
  trustMark : Json → Option (SignedTrustMark Key)

/-- `message.NamingConstraints`, from its JSON. -/
def NamingConstraints.ofJson (json : Json) : Option NamingConstraints := do
  let d ← asDict json
  return {
    permitted := (d.lookup "permitted").bind strings?
    excluded := (d.lookup "excluded").bind strings? }

/-- `message.Constraints`, from its JSON. -/
def Constraints.ofJson (json : Json) : Option Constraints := do
  let d ← asDict json
  return {
    maxPathLength := (d.lookup "max_path_length").bind int?
    namingConstraints := (d.lookup "naming_constraints").bind NamingConstraints.ofJson }

/-- A payload with issuer and expiry time, as the statement it is. -/
def Statement.ofPayload {Key : Type} (reader : Reader Key) (iss : EntityId) (exp : Int)
    (payload : Record) : Statement Key where
  iss := iss
  sub := match payload.lookup "sub" with
    | some (.str sub) => sub
    | _ => ""
  exp := exp
  jwks := (payload.lookup "jwks").map reader.keys
  authorityHints := (payload.lookup "authority_hints").bind strings?
  metadata := (payload.lookup "metadata").bind (dictOf (dictOf some))
  metadataPolicy := (payload.lookup "metadata_policy").bind (dictOf (dictOf (dictOf some)))
  constraints := (payload.lookup "constraints").bind Constraints.ofJson
  trustMarks := match payload.lookup "trust_marks" with
    | some (.arr trustMarks) => some (trustMarks.map reader.trustMark)
    | _ => none

/-! ## Signing -/

/-- The number of seconds that a lifetime stands for. -/
def seconds? : Json → Option Int
  | .num n => some n
  | .bool b => some (if b then 1 else 0)
  | _ => none

/-- `JWT(..).pack(payload)`, at the time and with the key given. -/
def pack {Key : Type} (reader : Reader Key) (now : Int) (signer : Key)
    (statement : UnsignedStatement) : Except Exc (SignedStatement Key) :=
  if statement.lifetime.truthy then
    match seconds? statement.lifetime with
    | some n => .ok ⟨.ofPayload reader statement.iss (now + n) statement.payload, signer⟩
    | none => .error .typeError
  else
    -- the payload may have an expiry time of its own
    let exp := ((statement.payload.lookup "exp").bind int?).getD 0
    .ok ⟨.ofPayload reader statement.iss exp statement.payload, signer⟩

theorem pack_of_lifetime {Key : Type} {reader : Reader Key} {now : Int} {signer : Key}
    {statement : UnsignedStatement} {n : Int} (hlifetime : statement.lifetime = .num n)
    (hn : n ≠ 0) :
    pack reader now signer statement =
      .ok ⟨.ofPayload reader statement.iss (now + n) statement.payload, signer⟩ := by
  have htruthy : statement.lifetime.truthy = true := by
    rw [hlifetime]
    exact bne_iff_ne.mpr hn
  rw [pack, if_pos htruthy, hlifetime]
  rfl

/-- A statement whose lifetime is a number is signed, and expires at some time. -/
theorem exists_pack {Key : Type} (reader : Reader Key) (now : Int) (signer : Key)
    {statement : UnsignedStatement} {n : Int} (hlifetime : statement.lifetime = .num n) :
    ∃ exp, pack reader now signer statement =
      .ok ⟨.ofPayload reader statement.iss exp statement.payload, signer⟩ := by
  by_cases hn : n = 0
  · refine ⟨((statement.payload.lookup "exp").bind int?).getD 0, ?_⟩
    rw [pack, hlifetime, hn]
    rfl
  · exact ⟨now + n, pack_of_lifetime hlifetime hn⟩

end Fedservice.EntityStatement
