/-
  Fedservice.Entity.Function.PolicyOperator

  entity/function/policy_operator.py: the seven operators of a claim policy.

  An operator of the source reads `metadata[claim]` and `metadata_policy[claim]`
  and may assign to `metadata[claim]`.  Here it is given the slot (the claim's
  value, if it has one) and says what it assigns and which operator it names as
  the next one; `PolicyOperator.call` performs the assignment.
-/

import Fedservice.Lib.ExState
import Fedservice.EntityStatement.Statement

namespace Fedservice.Entity.Function

open Fedservice.Lib Fedservice.Py Fedservice.EntityStatement

/-! ## The operators -/

/-- The operators that are known. -/
inductive OperatorKind where
  | value
  | add
  | default
  | oneOf
  | subsetOf
  | supersetOf
  | essential
deriving DecidableEq

namespace OperatorKind

/-- `PolicyOperator.name`. -/
def name : OperatorKind → String
  | value => "value"
  | add => "add"
  | default => "default"
  | oneOf => "one_of"
  | subsetOf => "subset_of"
  | supersetOf => "superset_of"
  | essential => "essential"

/-- `PolicyOperator.default_next`. -/
def defaultNext : OperatorKind → String
  | value => "essential"
  | add => "default"
  | default => "one_of"
  | oneOf => "essential"
  | subsetOf => "superset_of"
  | supersetOf => "essential"
  | essential => ""

theorem name_injective : Function.Injective name := by
  intro a b h
  cases a <;> cases b <;> first | rfl | exact absurd h (by decide)

end OperatorKind

/-- `POLICY_APPLICATION_ORDER`. -/
def policyApplicationOrder : List OperatorKind :=
  [.value, .add, .default, .oneOf, .subsetOf, .supersetOf, .essential]

/-- An operator object: what it does and the operator it names as the next. -/
structure PolicyOperator where
  kind : OperatorKind
  next : String

/-- `PolicyOperator.__init__`. -/
def PolicyOperator.init (kind : OperatorKind) (next : String := "") : PolicyOperator :=
  ⟨kind, if next = "" then kind.defaultNext else next⟩

/-- `PolicyOperator.name`. -/
def PolicyOperator.name (o : PolicyOperator) : String := o.kind.name

/-- What an operator does: the value it assigns to the claim, if it assigns
    one, and what it returns (`""` for `None`). -/
structure OpResult where
  assign : Option Json := none
  next : String := ""

/-- `union`. -/
def union (val1 val2 : Json) : Except Exc JsonSet := do
  let base ← val1.asSet
  let ext ← val2.asSet
  return base.union ext

variable (ho : HashOrder)

/-- `Value.__call__`: value overrides everything. -/
def Value.call (next : String) (param : Json) : Except Exc OpResult :=
  .ok { assign := some param, next := next }

/-- `OneOf.__call__`. -/
def OneOf.call (next : String) (param : Json) : Option Json → Except Exc OpResult
  | none => .ok {}
  | some v =>
      if v.isList then .ok {}  -- "Should not be"
      else do
        if ← v.isIn param then return { next := next }
        else throw (.policyError [.val v, .lit " not among ", .val param])

/-- `Add.__call__`. -/
def Add.call (param : Json) : Option Json → Except Exc OpResult
  | some v => do return { assign := some (listOf ho (← union v param)) }
  | none => .ok { assign := some param }

/-- `Default.__call__`. -/
def Default.call (param : Json) : Option Json → Except Exc OpResult
  | some _ => .ok {}
  | none => .ok { assign := some param }

/-- `SubsetOf.__call__`.  For a value that is not a list the source looks it up
    among the operator names of the policy, not in the operator's own list. -/
def SubsetOf.call (policy : ClaimPolicy) (param : Json) : Option Json → Except Exc OpResult
  | none => .ok {}
  | some v =>
      if v.isList then do
        let val := (← param.toSet).inter (← v.toSet)
        if val.isEmpty then
          throw (.policyError [.val v, .lit " not subset of ", .val param])
        else return { assign := some (listOf ho val) }
      else do
        if ← v.isIn policy.toJson then
          if v.truthy then
            match v.iter? with
            | some xs => return { assign := some (.arr xs) }
            | none => throw .typeError
          else throw (.policyError [.val v, .lit " not subset of ", .val param])
        else throw (.policyError [.val v, .lit " not in allowed subset: ", .val policy.toJson])

/-- `SupersetOf.__call__`. -/
def SupersetOf.call (param : Json) : Option Json → Except Exc OpResult
  | none => .ok {}
  | some v => do
      if ((← param.toSet).sdiff (← v.toSet)).isEmpty then return {}
      else throw (.policyError [.val v, .lit " not superset of ", .val param])

/-- `Essential.__call__`. -/
def Essential.call (claim : String) (param : Json) : Option Json → Except Exc OpResult
  | some _ => .ok {}
  | none =>
      if param.eqv (.bool true) then
        throw (.policyError [.lit "Essential value missing for ", .val (.str claim)])
      else .ok {}

/-- What an operator does with the slot of a claim. -/
def PolicyOperator.onSlot (o : PolicyOperator) (claim : String) (policy : ClaimPolicy)
    (slot : Option Json) : Except Exc OpResult := do
  let param ← item policy o.name
  match o.kind with
  | .value => Value.call o.next param
  | .add => Add.call ho param slot
  | .default => Default.call param slot
  | .oneOf => OneOf.call o.next param slot
  | .subsetOf => SubsetOf.call ho policy param slot
  | .supersetOf => SupersetOf.call param slot
  | .essential => Essential.call claim param slot

/-- `PolicyOperator.__call__`: act on `metadata[claim]`. -/
def PolicyOperator.call (o : PolicyOperator) (claim : String) (policy : ClaimPolicy) :
    EStateM Exc Metadata String := do
  let metadata ← get
  let r ← lift (o.onSlot ho claim policy (metadata.lookup claim))
  match r.assign with
  | none => pure ()
  | some v => set (metadata.insert claim v)
  return r.next

/-- `construct_evaluation_sequence`. -/
def constructEvaluationSequence : List PolicyOperator :=
  policyApplicationOrder.map (fun kind => PolicyOperator.init kind)

end Fedservice.Entity.Function
