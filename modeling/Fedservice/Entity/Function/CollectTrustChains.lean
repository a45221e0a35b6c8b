/-
  Fedservice.Entity.Function.CollectTrustChains

  `tree2chains` and `collect_trust_chains` (entity/function/__init__.py): the
  paths through the collected tree of superiors, each from the top down to the
  statement about the leaf.
-/

import Fedservice.Entity.Function.TrustChainCollector

namespace Fedservice.Entity.Function

open Fedservice.Lib Fedservice.Py Fedservice.EntityStatement

variable {Key : Type}

/-! ## tree2chains -/

/-- `tree2chains`.  A blocked branch gives an empty list. -/
def tree2chains : Tree Key → List (List (Token Key))
  | .empty => []
  | .blocked _ others => [] :: tree2chains others
  | .branch _ statement superiors others =>
      if superiors.isEmpty then [statement] :: tree2chains others
      else (tree2chains superiors).map (· ++ [statement]) ++ tree2chains others

/-! ## collect_trust_chains -/

variable (env : CollectorEnv Key) [DecidableEq Key]

/-- `verify_self_signed_signature` of this module, which differs from the one of
    the collector in what is raised for a token that is no JWS. -/
def verifySelfSignedToken (token : Token Key) :
    EStateM Exc (CollectorState Key) (SelfSigned Key) :=
  match factory token with
  | none => throw (.attributeError "jwt")
  | some s =>
      match s.payload.jwks with
      | none => throw (.keyError "jwks")
      | some _ => unpackSelfSigned env s

/-- `entity_configuration["authority_hints"] = authority_hints`, if there are any. -/
def withAuthorityHints (config : Statement Key) (authorityHints : List EntityId) :
    Statement Key :=
  if authorityHints.isEmpty then config else { config with authorityHints := some authorityHints }

/-- The tree of superiors of an entity and the entity configuration it was
    collected for: the one given, if one is, or the one that is published. -/
def collectFor (entityId : EntityId) (signedEntityConfiguration : Token Key) (stopAt : EntityId)
    (authorityHints : List EntityId) :
    EStateM Exc (CollectorState Key) (Option (Tree Key × SelfSigned Key)) :=
  if tokenTruthy signedEntityConfiguration then do
    let config ← verifySelfSignedToken env signedEntityConfiguration
    let tree ← collectTree env stopAt env.recursionLimit entityId
      (some (withAuthorityHints config.payload authorityHints)) []
    return some (tree, config)
  else TrustChainCollector.call env entityId [] stopAt

/-- `collect_trust_chains`. -/
def collectTrustChains (entityId : EntityId) (signedEntityConfiguration : Token Key := .text "")
    (stopAt : EntityId := "") (authorityHints : List EntityId := []) :
    EStateM Exc (CollectorState Key) (List (List (Token Key)) × Option (SelfSigned Key)) := do
  match ← collectFor env entityId signedEntityConfiguration stopAt authorityHints with
  | none => return ([], none)
  | some (tree, config) =>
      if tree.isEmpty then return ([], some config)
      else return (tree2chains tree, some config)

end Fedservice.Entity.Function
