/-
  Fedservice.EntityStatement.SaveTrustChains

  `chains2dict` (entity_statement/statement.py) and `save_trust_chains`
  (__init__.py): trust chains kept by leaf and trust anchor.
-/

import Fedservice.EntityStatement.Statement

namespace Fedservice.EntityStatement

open Fedservice.Lib Fedservice.Py

variable {Key : Type}

/-- The body of the loop of `chains2dict`: of two chains with one anchor the
    shorter is kept, and the first of two of one length. -/
def addChain (res : Dict (TrustChain Key)) (trustChain : TrustChain Key) :
    Dict (TrustChain Key) :=
  match res.lookup trustChain.anchor with
  | some kept =>
      if trustChain.verifiedChain.length < kept.verifiedChain.length then
        res.insert trustChain.anchor trustChain
      else res
  | none => res.insert trustChain.anchor trustChain

/-- `chains2dict`. -/
def chains2dict (trustChains : List (TrustChain Key)) : Dict (TrustChain Key) :=
  trustChains.foldl addChain ∅

/-- The loop of `save_trust_chains`. -/
def saveEach (kept : Dict (Dict (TrustChain Key))) :
    List (EntityId × TrustChain Key) → Except Exc (Dict (Dict (TrustChain Key)))
  | [] => .ok kept
  | (ta, tc) :: rest =>
      match tc.issPath with
      | [] => .error .indexError
      | ent :: _ => saveEach (kept.insert ent (((kept.lookup ent).getD ∅).insert ta tc)) rest

/-- `save_trust_chains`. -/
def saveTrustChains (trustChains : List (TrustChain Key)) (kept : Dict (Dict (TrustChain Key))) :
    Except Exc (Dict (Dict (TrustChain Key))) :=
  saveEach kept ((chains2dict trustChains).entries.map (fun e => (e.1, e.2)))

end Fedservice.EntityStatement
