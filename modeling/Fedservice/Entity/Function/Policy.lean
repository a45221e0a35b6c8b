/-
  Fedservice.Entity.Function.Policy

  entity/function/policy.py: combining the claim policies of a superior and a
  subordinate, combining what a chain of statements says about an entity type,
  and applying the result to the metadata of the leaf.
-/

import Fedservice.Entity.Function.PolicyOperator

namespace Fedservice.Entity.Function

open Fedservice.Lib Fedservice.Py Fedservice.EntityStatement

variable (ho : HashOrder)

/-! ## Merging the values of one operator -/

/-- `combine_subset_of`. -/
def combineSubsetOf (s1 s2 : Json) : Except Exc Json := do
  return listOf ho ((← s1.toSet).inter (← s2.toSet))

/-- `combine_superset_of`. -/
def combineSupersetOf (s1 s2 : Json) : Except Exc Json := do
  return listOf ho ((← s1.toSet).inter (← s2.toSet))

/-- `combine_one_of`. -/
def combineOneOf (s1 s2 : Json) : Except Exc Json := do
  return listOf ho ((← s1.toSet).inter (← s2.toSet))

/-- `combine_add`. -/
def combineAdd (s1 s2 : Json) : Except Exc Json := do
  return listOf ho ((← s1.asSet).union (← s2.asSet))

/-- `POLICY_FUNCTIONS`. -/
def policyFunctions : List OperatorKind :=
  [.subsetOf, .supersetOf, .oneOf, .add, .value, .default, .essential]

/-- `OP2FUNC`. -/
def op2func : OperatorKind → Json → Json → Except Exc Json
  | .subsetOf => combineSubsetOf ho
  | .supersetOf => combineSupersetOf ho
  | .oneOf => combineOneOf ho
  | .add => combineAdd ho
  | k => fun _ _ => .error (.keyError k.name)

/-- The value of an operator that only one side has, if either has it. -/
def onlyOne (superior child : Option Json) : Except Exc Json :=
  match superior, child with
  | some s, _ => .ok s
  | none, some c => .ok c
  | none, none => .ok .null

/-- `do_sub_one_super_add`. -/
def doSubOneSuperAdd (superior child : ClaimPolicy) (policy : OperatorKind) : Except Exc Json :=
  match superior.lookup policy.name, child.lookup policy.name with
  | some s, some c => do
      let comb ← op2func ho policy s c
      if comb.truthy then return comb
      else throw (.policyError [.lit "Value sets doesn't overlap"])
  | s, c => onlyOne s c

/-- `do_value`. -/
def doValue (superior child : ClaimPolicy) (policy : OperatorKind) : Except Exc Json :=
  match superior.lookup policy.name, child.lookup policy.name with
  | some s, some c =>
      if s.eqv c then .ok s else .error (.policyError [.lit "Not allowed to combine values"])
  | s, c => onlyOne s c

/-- `do_default`: a child's default can not override a superiors. -/
def doDefault (superior child : ClaimPolicy) (policy : OperatorKind) : Except Exc Json :=
  match superior.lookup policy.name, child.lookup policy.name with
  | some s, some c =>
      if s.eqv c then .ok s else .error (.policyError [.lit "Not allowed to change default"])
  | s, c => onlyOne s c

/-- `do_essential`: a child can make it true if a superior has stated false. -/
def doEssential (superior child : ClaimPolicy) (policy : OperatorKind) : Except Exc Json :=
  match superior.lookup policy.name, child.lookup policy.name with
  -- but not the other way around: a superior's true stays
  | some s, some c => .ok (if !s.truthy && c.truthy then .bool true else s)
  | s, c => onlyOne s c

/-- `DO_POLICY`. -/
def doPolicy : OperatorKind → ClaimPolicy → ClaimPolicy → OperatorKind → Except Exc Json
  | .add | .supersetOf | .subsetOf | .oneOf => doSubOneSuperAdd ho
  | .value => doValue
  | .default => doDefault
  | .essential => doEssential

/-! ## combine_claim_policy -/

/-- The operators of a claim policy that are known. -/
def knownOperators (policy : ClaimPolicy) : List OperatorKind :=
  policyFunctions.filter (fun k => decide (k.name ∈ policy))

/-- A set of operators, for comparison with a set display. -/
def isOperatorSet (ops display : List OperatorKind) : Bool :=
  ops.all (fun k => decide (k ∈ display)) && display.all (fun k => decide (k ∈ ops))

/-- Names of operators, as they are shown in a message. -/
def showOperators (ops : List OperatorKind) : Json := .arr (ops.map (fun k => .str k.name))

/-- `rule[policy] = DO_POLICY[policy](superior, child, policy)` for each operator. -/
def mergeOperators (superior child : ClaimPolicy) (combPolicy : List OperatorKind) :
    Except Exc ClaimPolicy :=
  Dict.insertEach OperatorKind.name (fun policy => doPolicy ho policy superior child policy)
    combPolicy ∅

/-- `set(a).difference(set(b))`, raising `message` unless it is empty. -/
def requireWithin (a b : Except Exc JsonSet) (message : String) : Except Exc Unit := do
  if ((← a).sdiff (← b)).isEmpty then return ()
  else throw (.policyError [.lit message])

/-- The conflicts that are looked for in a combined rule. -/
def checkRule (combPolicy : List OperatorKind) (rule : ClaimPolicy) : Except Exc Unit := do
  let setOf (k : OperatorKind) : Except Exc JsonSet := do (← item rule k.name).toSet
  if isOperatorSet combPolicy [.supersetOf, .subsetOf] then
    requireWithin (setOf .supersetOf) (setOf .subsetOf)
      "superset_of not a super set of subset_of"
  else if isOperatorSet combPolicy [.supersetOf, .subsetOf, .default] then
    requireWithin (setOf .supersetOf) (setOf .subsetOf)
      "superset_of not a super set of subset_of"
    requireWithin (setOf .default) (setOf .subsetOf) "default not a sub set of subset_of"
    requireWithin (setOf .supersetOf) (setOf .default) "default not a super set of subset_of"
  else if isOperatorSet combPolicy [.subsetOf, .default] then
    requireWithin (setOf .default) (setOf .subsetOf) "default not a sub set of subset_of"
  else if isOperatorSet combPolicy [.supersetOf, .default] then
    requireWithin (setOf .supersetOf) (setOf .default) "default not a super set of subset_of"
  else if isOperatorSet combPolicy [.oneOf, .default] then
    let dflt ← item rule OperatorKind.default.name
    requireWithin dflt.asSet (setOf .oneOf) "default not a super set of one_of"
  else if isOperatorSet combPolicy [.subsetOf, .add] then
    requireWithin (setOf .add) (setOf .subsetOf) "\"add\" not a subset of \"subset\""
  else if isOperatorSet combPolicy [.supersetOf, .add] then
    requireWithin (setOf .supersetOf) (setOf .add) "\"add\" not a superset of \"superset\""
  else return ()

/-- The branch of `combine_claim_policy` for a superior that sets a value: an
    exact value can not be restricted. -/
def combineUnderValue (superior child : ClaimPolicy) (childSet : List OperatorKind) :
    Except Exc ClaimPolicy := do
  if childSet.isEmpty then return superior
  else if OperatorKind.essential ∈ childSet then
    if childSet.length = 1 then
      return Dict.ofList [("value", ← item superior "value"), ("essential", ← item child "essential")]
    else throw (.policyError [.lit "value can only be combined with essential, not ",
      .val (showOperators childSet)])
  else if OperatorKind.value ∈ childSet then
    if !(← item child "value").eqv (← item superior "value") then
      throw (.policyError [.lit "Child can not set another value then superior"])
    else return superior
  else throw (.policyError [.lit "Not allowed combination of policies: ",
    .val superior.toJson, .lit " + ", .val child.toJson])

/-- `essential` can only go from False to True. -/
def checkEssential (superior child : ClaimPolicy) : Except Exc Unit :=
  if "essential" ∈ superior ∧ "essential" ∈ child then do
    let s ← item superior "essential"
    let c ← item child "essential"
    if !s.eqv c && decide (c = .bool false) then
      throw (.policyError [.lit "Essential can not go from True to False"])
    else return ()
  else return ()

/-- `one_of` stands alone among the operators on sets. -/
def checkOneOf (combPolicy : List OperatorKind) : Except Exc Unit :=
  if OperatorKind.oneOf ∈ combPolicy ∧
      (OperatorKind.subsetOf ∈ combPolicy ∨ OperatorKind.supersetOf ∈ combPolicy) then
    throw (.policyError [.lit "one_of can not be combined with subset_of/superset_of"])
  else return ()

/-- `combine_claim_policy`. -/
def combineClaimPolicy (superior child : ClaimPolicy) : Except Exc ClaimPolicy :=
  -- weed out everything I don't recognize
  let superiorSet := knownOperators superior
  let childSet := knownOperators child
  if OperatorKind.value ∈ superiorSet then
    -- an exact value can not be restricted
    combineUnderValue superior child childSet
  else do
    checkEssential superior child
    let combPolicy := policyFunctions.filter
      (fun k => decide (k ∈ superiorSet) || decide (k ∈ childSet))
    checkOneOf combPolicy
    let rule ← mergeOperators ho superior child (ho.arrange combPolicy)
    checkRule combPolicy rule
    return rule

/-! ## Combining metadata and metadata policies -/

/-- `combine_metadata`. -/
def combineMetadata (superiorMetadata subordinateMetadata : Metadata) : Except Exc Metadata :=
  if subordinateMetadata.isEmpty then .ok superiorMetadata
  else
    let overlap := ho.arrange
      (subordinateMetadata.keys.filter (fun k => decide (k ∈ superiorMetadata)))
    if overlap.any (fun k =>
        match superiorMetadata.lookup k, subordinateMetadata.lookup k with
        | some v, some w => !v.eqv w
        | _, _ => false) then
      .error (.policyError
        [.lit "A subordinate is not allowed to set a value different from the superiors"])
    else .ok (superiorMetadata.update subordinateMetadata)

/-- The policies of the claims that appear both in superior and child. -/
def combineCommon (supPolicy subPolicy : MetadataPolicy) (claims : List String) :
    Except Exc MetadataPolicy :=
  Dict.insertEach id
    (fun claim => do combineClaimPolicy ho (← item supPolicy claim) (← item subPolicy claim))
    claims ∅

/-- Copy the entries of `source` for the claims given. -/
def copyClaims (source : MetadataPolicy) (claims : List String) (metadataPolicy : MetadataPolicy) :
    Except Exc MetadataPolicy :=
  Dict.insertEach id (fun claim => item source claim) claims metadataPolicy

/-- `combine`. -/
def combine (superior subordinate : Rule) : Except Exc Rule := do
  let metadata ← combineMetadata ho superior.metadata subordinate.metadata
  let superior := if metadata.isEmpty then superior else { superior with metadata := metadata }
  if subordinate.metadataPolicy.isEmpty then return superior
  else
    let supPolicy := superior.metadataPolicy
    let subPolicy := subordinate.metadataPolicy
    -- appears both in superior and child
    let both ← combineCommon ho supPolicy subPolicy
      (ho.arrange (supPolicy.keys.filter (fun c => decide (c ∈ subPolicy))))
    -- only in super
    let supers ← copyClaims supPolicy
      (ho.arrange (supPolicy.keys.filter (fun c => decide (c ∉ subPolicy)))) both
    -- only if child
    let all ← copyClaims subPolicy
      (ho.arrange (subPolicy.keys.filter (fun c => decide (c ∉ supPolicy)))) supers
    return { superior with metadataPolicy := all }

/-! ## Applying a metadata policy -/

/-- `op_place`: the first index from `index` on with an operator of that name. -/
def opPlace (operatorName : String) (policyOperators : List PolicyOperator) (index : Nat) :
    Option Nat :=
  search (policyOperators.drop index) index
where
  search : List PolicyOperator → Nat → Option Nat
    | [], _ => none
    | operator :: rest, i => if operator.name = operatorName then some i else search rest (i + 1)

/-- The `while True` loop over the operators for one claim, from index `i`. -/
def applyOperators (policyOperators : List PolicyOperator) (claim : String)
    (claimPolicy : ClaimPolicy) : Nat → Nat → EStateM Exc Metadata Unit
  | 0, _ => throw .outOfFuel
  | fuel + 1, i =>
      let advance : EStateM Exc Metadata Unit :=
        if i + 1 ≥ policyOperators.length then pure ()
        else applyOperators policyOperators claim claimPolicy fuel (i + 1)
      match policyOperators[i]? with
      | none => throw .indexError
      | some policyOp =>
          if policyOp.name ∈ claimPolicy then do
            let next ← policyOp.call ho claim claimPolicy
            if next ≠ "" then
              match opPlace next policyOperators i with
              | some j => applyOperators policyOperators claim claimPolicy fuel j
              | none => throw .typeError  -- the next index would be None
            else advance
          else advance

/-- The loop of `apply_metadata_policy` over the claims there is a policy for. -/
def applyClaims (policyOperators : List PolicyOperator) (metadataPolicy : MetadataPolicy) :
    List String → EStateM Exc Metadata Unit
  | [] => pure ()
  | claim :: rest => do
      applyOperators ho policyOperators claim ((metadataPolicy.lookup claim).getD ∅)
        policyOperators.length 0
      applyClaims policyOperators metadataPolicy rest

/-- `apply_metadata_policy`: the state is the metadata dictionary, which the
    source changes in place (also when it then raises). -/
def applyMetadataPolicy (metadataPolicy : MetadataPolicy)
    (policyOperators : List PolicyOperator) : EStateM Exc Metadata Unit :=
  applyClaims ho policyOperators metadataPolicy (ho.arrange metadataPolicy.keys)

end Fedservice.Entity.Function
