/-
  Fedservice.EntityStatement.Constraints

  entity_statement/constraints.py: path length and naming constraints, and
  `meets_restrictions`, which walks a verified chain from the trust anchor's
  statement down to the leaf's.

  The running lists of permitted and excluded names are `None` in the source
  until a statement sets them; `None` and the empty list are told apart nowhere
  in it, so the empty list stands for both.
-/

import Fedservice.EntityStatement.Statement

namespace Fedservice.EntityStatement

open Fedservice.Lib Fedservice.Py

variable {Key : Type}

/-! ## Path length -/

/-- `calculate_path_length`. -/
def calculatePathLength (constraints : Constraints) (currentMaxPathLength : Int)
    (maxAssigned : Bool) : Int :=
  match constraints.maxPathLength with
  | none => if maxAssigned then currentMaxPathLength - 1 else 0
  | some maxLen =>
      if maxAssigned then
        let newCurrent := currentMaxPathLength - 1
        if maxLen < newCurrent then maxLen else newCurrent
      else maxLen

/-! ## Names -/

/-- A label of a host name: what stands between two dots. -/
abbrev Label := List Char

/-- `remove_scheme`. -/
def removeScheme (url : String) : Except Exc (List Char) :=
  if "https://".toList.isPrefixOf url.toList then .ok (url.toList.drop 8)
  else if "http://".toList.isPrefixOf url.toList then .ok (url.toList.drop 7)
  else .error (.valueError [.lit "Wrong scheme: %s", .val (.str url)])

/-- The loop of `more_specific` over the labels, the last ones first. -/
def compareLabels : List (Label × Label) → Bool
  | [] => true
  | (x, y) :: rest => if x ≠ y then y = [] else compareLabels rest

/-- `more_specific`. -/
def moreSpecific (a b : EntityId) : Except Exc Bool := do
  let aPart := (← removeScheme a).splitOn '.'
  let bPart := (← removeScheme b).splitOn '.'
  if aPart.length ≥ bPart.length then
    return compareLabels (aPart.reverse.zip bPart.reverse)
  else return false

/-! ## Naming constraints -/

/-- The entries of `new` that refine `old`, in the inner loop of `update_specs`. -/
def refinements (old : EntityId) : List EntityId → Except Exc (List EntityId)
  | [] => .ok []
  | new :: rest => do
      let refines ← moreSpecific new old
      let more ← refinements old rest
      return if refines then new :: more else more

/-- `update_specs`: each old entry is replaced by the new ones that refine it. -/
def updateSpecs (newConstraints : List EntityId) :
    List EntityId → Except Exc (List EntityId)
  | [] => .ok []
  | old :: rest => do
      let replaced ← refinements old newConstraints
      let updated ← updateSpecs newConstraints rest
      return (if replaced.isEmpty then [old] else replaced) ++ updated

/-- The running lists of names. -/
structure NamingState where
  permitted : List EntityId := []
  excluded : List EntityId := []

/-- The body of the loop of `add_constraints` for one key. -/
def addConstraint (key : String) (new : Option (List EntityId)) (running : List EntityId) :
    Except Exc (List EntityId) :=
  if running.isEmpty then
    match new with
    | some names => .ok (if names.isEmpty then running else names)
    | none => .ok running
  else
    match new with
    | none => .error (.keyError key)
    | some names => if names.isEmpty then .ok running else updateSpecs names running

/-- `add_constraints`. -/
def addConstraints (newConstraints : NamingConstraints) (namingConstraints : NamingState) :
    Except Exc NamingState := do
  let permitted ← addConstraint "permitted" newConstraints.permitted namingConstraints.permitted
  let excluded ← addConstraint "excluded" newConstraints.excluded namingConstraints.excluded
  return ⟨permitted, excluded⟩

/-- `update_naming_constraints`. -/
def updateNamingConstraints (constraints : Constraints) (namingConstraints : NamingState) :
    Except Exc NamingState :=
  match constraints.namingConstraints with
  | none => .ok namingConstraints
  | some new => addConstraints new namingConstraints

/-- The loop of `excluded` and `permitted`: some entry is matched. -/
def matchesSome (subjectId : EntityId) : List EntityId → Except Exc Bool
  | [] => .ok false
  | entry :: rest => do
      if ← moreSpecific subjectId entry then return true else matchesSome subjectId rest

/-- `excluded`. -/
def excluded (subjectId : EntityId) (excludedIds : List EntityId) : Except Exc Bool :=
  matchesSome subjectId excludedIds

/-- `permitted`. -/
def permitted (subjectId : EntityId) (permittedId : List EntityId) : Except Exc Bool :=
  matchesSome subjectId permittedId

/-- The two checks of a subject against the running lists. -/
def checkNames (naming : NamingState) (sub : EntityId) : Except Exc Bool := do
  -- if explicitly excluded return False
  if !naming.excluded.isEmpty && (← excluded sub naming.excluded) then return false
  -- If there is a list of permitted it must be in there
  if !naming.permitted.isEmpty && !(← permitted sub naming.permitted) then return false
  return true

/-! ## meets_restrictions -/

/-- What the loop of `meets_restrictions` carries from statement to statement. -/
structure RestrictionState where
  currentMaxPathLength : Int := 0
  maxAssigned : Bool := false
  naming : NamingState := {}

/-- The body of the loop: the state for the next statement, or `none` where the
    function returns `False`.  A statement without constraints is skipped. -/
def restrictionStep (st : RestrictionState) (statement : Statement Key) :
    Except Exc (Option RestrictionState) :=
  match statement.constraints with
  | none => .ok (some st)
  | some constraints => do
      let current := calculatePathLength constraints st.currentMaxPathLength st.maxAssigned
      if current < 0 then return none
      else do
        let naming ← updateNamingConstraints constraints st.naming
        if ← checkNames naming statement.sub then
          return some { st with currentMaxPathLength := current, naming := naming }
        else return none

/-- The loop over all statements but the last. -/
def restrictionLoop (st : RestrictionState) :
    List (Statement Key) → Except Exc (Option RestrictionState)
  | [] => .ok (some st)
  | statement :: rest => do
      match ← restrictionStep st statement with
      | none => return none
      | some st' => restrictionLoop st' rest

/-- `meets_restrictions`. -/
def meetsRestrictions (trustChain : List (Statement Key)) : Except Exc Bool := do
  match ← restrictionLoop {} trustChain.dropLast with
  | none => return false
  | some st =>
      -- Now check the leaf entity
      match trustChain.getLast? with
      | none => throw .indexError
      | some leaf => checkNames st.naming leaf.sub

end Fedservice.EntityStatement
