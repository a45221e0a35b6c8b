/-
  Fedservice.Entity.Context

  `FederationContext` (entity/context.py): the settings of a federation entity that
  may be a value, the name of a file or a function, and the statements it makes
  about itself.
-/

import Fedservice.EntityStatement.Create

namespace Fedservice.Entity

open Fedservice.Lib Fedservice.Py Fedservice.EntityStatement

/-- A setting: a value, or a function that gives one. -/
inductive Setting where
  | value (v : Json)
  | callable (call : Except Exc Json)

/-- The truth value of a setting; functions are true. -/
def Setting.truthy : Setting → Bool
  | .value v => v.truthy
  | .callable _ => true

/-- The federation context, and the files its settings may name. -/
structure FederationContext where
  entityId : EntityId
  defaultLifetime : Int := 86400
  authorityHints : Setting := .value (.arr [])
  trustMarks : Setting := .value (.arr [])
  /-- `json.loads(open(path).read())` -/
  readFile : String → Except Exc Json := fun _ => .error (.systemError [.lit "No such file"])

namespace FederationContext

variable (context : FederationContext)

/-- What a setting comes to: a value of the right kind is taken as it is, a text is the name
    of a file. -/
def getSetting (isKind : Json → Bool) (name : String) : Setting → Except Exc Json
  | .callable call => call
  | .value (.str path) => context.readFile path
  | .value v => if isKind v then .ok v else .error (.valueError [.lit name])

/-- `get_authority_hints`. -/
def getAuthorityHints : Except Exc Json :=
  context.getSetting Json.isList "authority_hints" context.authorityHints

/-- `get_trust_marks`. -/
def getTrustMarks : Except Exc Json :=
  match context.trustMarks with
  | .value .null => .ok (.arr [])
  | trustMarks => context.getSetting Json.isList "trust_marks" trustMarks

/-! ## create_entity_statement -/

/-- The parameters that `FederationContext.create_entity_statement` names itself, besides
    those of `create_entity_statement`. -/
def namedParameters : List String :=
  ["metadata", "metadata_policy", "authority_hints", "lifetime", "jwks"]

/-- What `create_entity_statement` of the context gets in `**kwargs`, with the keys put in
    place. -/
def keyArguments (args : Record) : Record :=
  let kwargs := namedParameters.foldl (fun kwargs name => kwargs.erase name) args
  let jwks := (args.lookup "jwks").getD .null
  if jwks.truthy then kwargs.insert "jwks" jwks
  else
    match kwargs.lookup "keys" with
    | some keys => (kwargs.insert "jwks" (.obj [("keys", keys)])).erase "keys"
    | none => kwargs

/-- `FederationContext.create_entity_statement(iss, sub, **args)`, where the key jar exports the
    keys given. -/
def createEntityStatement (exportJwks : Json) (iss sub : EntityId) (args : Record) :
    Except Exc UnsignedStatement := do
  let kwargs := keyArguments args
  let given := (args.lookup "authority_hints").getD .null
  let hints := if given.truthy then .value given else context.authorityHints
  let lifetime := (args.lookup "lifetime").getD (.num 0)
  let lifetime := if lifetime.truthy then lifetime else .num context.defaultLifetime
  let trustMarks ← context.getTrustMarks
  let kwargs := if trustMarks.truthy then kwargs.insert "trust_marks" trustMarks else kwargs
  let kwargs := ((kwargs.insert "metadata" ((args.lookup "metadata").getD .null)).insert
    "metadata_policy" ((args.lookup "metadata_policy").getD .null)).insert "lifetime" lifetime
  match hints with
  | .value v =>
      EntityStatement.createEntityStatement exportJwks iss sub (kwargs.insert "authority_hints" v)
  | .callable call => do
      let statement ← EntityStatement.createEntityStatement exportJwks iss sub kwargs
      -- a function is called, and what it gives is taken even if it is empty
      return { statement with payload := statement.payload.insert "authority_hints" (← call) }

end FederationContext

end Fedservice.Entity
