/-
  Fedservice.EntityStatement.Statement

  Entity statements as the functions of the trust chain machinery see them, the
  tokens they travel in, and `TrustChain` (entity_statement/statement.py).

  A payload is the parsed JSON of an entity statement: the claims that every
  entity statement has to carry (message.EntityStatement) are fields, the ones
  the code treats as possibly absent are optional.
-/

import Fedservice.Py.Exc

namespace Fedservice.EntityStatement

open Fedservice.Lib Fedservice.Py

/-- An entity identifier. -/
abbrev EntityId := String

/-- The metadata of one entity type: claims and their values. -/
abbrev Metadata := Dict Json

/-- The policy for one claim: operator names and their values. -/
abbrev ClaimPolicy := Dict Json

/-- The policy for one entity type, by claim. -/
abbrev MetadataPolicy := Dict ClaimPolicy

/-- A claim policy as the JSON object it is, for messages and key lookups. -/
def ClaimPolicy.toJson (policy : ClaimPolicy) : Json :=
  .obj (policy.entries.map (fun e => (e.1, e.2)))

/-! ## Trust marks -/

/-- A delegation of a trust mark: who signed it, and in whose name. -/
structure Delegation (Key : Type) where
  iss : Option EntityId
  signer : Key

/-- The payload of a trust mark.  A delegation is parsed here, and `none` where it is no
    JWS. -/
structure TrustMark (Key : Type) where
  iss : Option EntityId := none
  sub : Option EntityId := none
  id : Option String := none
  exp : Option Int := none
  delegation : Option (Option (Delegation Key)) := none

/-- A signed trust mark. -/
structure SignedTrustMark (Key : Type) where
  payload : TrustMark Key
  signer : Key

/-! ## Statements -/

/-- `message.NamingConstraints`. -/
structure NamingConstraints where
  permitted : Option (List EntityId) := none
  excluded : Option (List EntityId) := none

/-- `message.Constraints`. -/
structure Constraints where
  maxPathLength : Option Int := none
  namingConstraints : Option NamingConstraints := none

/-- The payload of an entity statement. -/
structure Statement (Key : Type) where
  iss : EntityId
  sub : EntityId
  exp : Int := 0
  jwks : Option (List Key) := none
  authorityHints : Option (List EntityId) := none
  metadata : Option (Dict Metadata) := none
  metadataPolicy : Option (Dict MetadataPolicy) := none
  constraints : Option Constraints := none
  /-- Trust marks are parsed here, and `none` where they are no JWS. -/
  trustMarks : Option (List (Option (SignedTrustMark Key))) := none

/-- The keys a statement lists for its subject. -/
def Statement.keys {Key : Type} (s : Statement Key) : List Key := s.jwks.getD []

/-- A signed statement: the payload and the key the signature was made with. -/
structure SignedStatement (Key : Type) where
  payload : Statement Key
  signer : Key

/-- What is handed around as a signed statement: a JWS, or some other text. -/
inductive Token (Key : Type) where
  | jws (s : SignedStatement Key)
  | text (raw : String)

/-- `cryptojwt.jws.jws.factory`: the parsed token, if it is a JWS. -/
def factory {Key : Type} : Token Key → Option (SignedStatement Key)
  | .jws s => some s
  | .text _ => none

@[simp] theorem factory_jws {Key : Type} (s : SignedStatement Key) :
    factory (.jws s) = some s := rfl

@[simp] theorem factory_text {Key : Type} (raw : String) :
    factory (.text raw : Token Key) = none := rfl

/-! ## Trust chains -/

/-- What was gathered from the superiors about one entity type. -/
structure Rule where
  metadataPolicy : MetadataPolicy := ∅
  metadata : Metadata := ∅

/-- The metadata of a trust chain: by entity type, where an entry is `none` when
    the leaf was found to have no metadata of that type; or, for a chain of one
    statement, the metadata of one type in its place. -/
inductive ChainMetadata where
  | byType (metadata : Dict (Option Metadata))
  | plain (metadata : Metadata)

/-- A JSON value used as a dictionary; `none` where it is not one. -/
def asDict : Json → Option (Dict Json)
  | .obj fields => some (Dict.ofList fields)
  | _ => none

/-- `trust_chain.metadata[entity_type]`. -/
def ChainMetadata.item (metadata : ChainMetadata) (entityType : String) :
    Except Exc (Option Metadata) :=
  match metadata with
  | .byType d => Py.item d entityType
  | .plain d => do return asDict (← Py.item d entityType)

/-- `trust_chain.metadata[entity_type] = value`. -/
def ChainMetadata.set (metadata : ChainMetadata) (entityType : String)
    (value : Option Metadata) : ChainMetadata :=
  match metadata with
  | .byType d => .byType (d.insert entityType value)
  | .plain d => .plain (d.insert entityType
      (value.elim .null (fun m => .obj (m.entries.map (fun e => (e.1, e.2))))))

/-- `TrustChain`. -/
structure TrustChain (Key : Type) where
  anchor : EntityId := ""
  chain : List (Token Key) := []
  combinedPolicy : Dict Rule := ∅
  exp : Int := 0
  issPath : List EntityId := []
  metadata : ChainMetadata := .byType ∅
  verifiedChain : List (Statement Key) := []

/-- `TrustChain.is_expired`, by the time given. -/
def TrustChain.isExpired {Key : Type} (now : Int) (trustChain : TrustChain Key) : Bool :=
  decide (trustChain.exp < now)

end Fedservice.EntityStatement
