import Mathlib.Data.List.Infix
import Mathlib.Data.String.Basic
import McpFlow.Bindings.Value
import McpFlow.Workflow.StepConfig

/-!
# Predicates at run time

`RuntimePredicateEvaluator`: AND and OR stop at the first child that decides them, a comparison
resolves both operands and checks them before it compares. The resolver of bindings is a parameter
of the evaluator, as in the constructor of the source.
-/

namespace McpFlow

open Workflow (PlanBinding Predicate)

/-- What the resolution of a binding can raise. -/
inductive BindingFailure where
  | appError (e : AppError)
  | valueError
deriving DecidableEq

/-- `resolve_binding` with `missing_ok`; `none` is `MISSING`. -/
abbrev BindingResolver := PlanBinding → Except BindingFailure (Option RuntimeValue)

/-- `PREDICATE_OPERAND_MISSING`. -/
def operandMissing : AppError :=
  ⟨"PREDICATE_OPERAND_MISSING", "Predicate binary operand resolved to MISSING."⟩

/-- `PREDICATE_EVALUATION_FAILED`. -/
def evaluationFailed (message : String) : AppError := ⟨"PREDICATE_EVALUATION_FAILED", message⟩

/-- `is_secret_ref_value`. -/
def isSecretRefValue : RuntimeValue → Bool
  | .obj members => members.length == 2 &&
    (match members.lookup "kind" with
      | some (.str kind) => kind == "SECRET_REF"
      | _ => false) &&
    (match members.lookup "secret_id" with
      | some (.str text) => (UUID.parse? text).isSome
      | _ => false)
  | _ => false

/-- The binding is a `PlanSecretRefBinding`. -/
def isSecretRefBinding : PlanBinding → Bool
  | .secretRef _ => true
  | _ => false

/-! ### Operators -/

/-- `_ordered_compare` on comparable operands. -/
def orderedOn {α : Type} [LinearOrder α] (op : String) (left right : α) : Except AppError Bool :=
  if op = "gt" then .ok (decide (right < left))
  else if op = "gte" then .ok (decide (right ≤ left))
  else if op = "lt" then .ok (decide (left < right))
  else if op = "lte" then .ok (decide (left ≤ right))
  else .error (evaluationFailed "Unsupported ordered op.")

/-- `_ordered_compare`; a number that passed the checks has a value. -/
def orderedCompare (op : String) (left right : RuntimeValue) : Except AppError Bool :=
  if left.isNumber && right.isNumber then do
    rejectNonFiniteNumber left
    rejectNonFiniteNumber right
    orderedOn op (left.number?.getD 0) (right.number?.getD 0)
  else match left, right with
    | .str a, .str b => orderedOn op a b
    | _, _ => .error (typeMismatch "Ordered compare requires number↔number or string↔string.")

/-- The operator of a comparison on checked operands. -/
def compareValues (op : String) (left right : RuntimeValue) : Except AppError Bool :=
  if op = "eq" then jsonStrictEqual left right
  else if op = "ne" then (jsonStrictEqual left right).map (!·)
  else if op = "gt" ∨ op = "gte" ∨ op = "lt" ∨ op = "lte" then orderedCompare op left right
  else if op = "in" then match right with
    | .arr items => items.anyM fun item => jsonStrictEqual left item
    | _ => .error (typeMismatch "`in` right operand must be an array.")
  else if op = "contains" then match left, right with
    | .str text, .str part => .ok (decide (part.toList <:+: text.toList))
    | .arr items, right => items.anyM fun item => jsonStrictEqual item right
    | _, _ => .error (typeMismatch "`contains` allows string⊃string or array⊃value.")
  else .error (evaluationFailed "Unsupported comparison op.")

/-- The checks of resolved operands, and the operator. -/
def compareOperands (op : String) (left right : Option RuntimeValue) : Except AppError Bool :=
  match left, right with
  | some left, some right =>
    if isSecretRefValue left || isSecretRefValue right then
      .error (typeMismatch "SECRET_REF values cannot be used in binary Predicate comparisons.")
    else do
      rejectNonFiniteNumber left
      rejectNonFiniteNumber right
      compareValues op left right
  | _, _ => .error operandMissing

/-! ### The tree -/

section Eval

variable (resolve : BindingResolver)

/-- `_resolve_operand`. -/
def resolveOperand (binding : PlanBinding) : Except BindingFailure (Option RuntimeValue) :=
  match resolve binding with
  | .error (.appError e) =>
    if e.code ∈ ["PREDICATE_OPERAND_MISSING", "PREDICATE_TYPE_MISMATCH",
        "PREDICATE_EVALUATION_FAILED"] then .error (.appError e)
    else .error (.appError (evaluationFailed e.message))
  | result => result

/-- `_eval_unary`. -/
def evalUnary (op : String) (operand : PlanBinding) : Except BindingFailure Bool :=
  if isSecretRefBinding operand then
    if op = "exists" then .ok true
    else if op = "is_null" then .ok false
    else .error (.appError
      (typeMismatch "SECRET_REF is unsupported for this Predicate operator."))
  else do
    let value ← resolveOperand resolve operand
    if op = "exists" then return value.isSome
    else if op = "is_null" then return value matches some .null
    else .error (.appError (evaluationFailed "Unsupported unary op."))

/-- `_eval_comparison`. -/
def evalComparison (op : String) (left right : PlanBinding) : Except BindingFailure Bool :=
  if isSecretRefBinding left || isSecretRefBinding right then
    .error (.appError
      (typeMismatch "SECRET_REF cannot be used in binary Predicate comparisons."))
  else do
    let left ← resolveOperand resolve left
    let right ← resolveOperand resolve right
    (compareOperands op left right).mapError .appError

mutual
/-- `_eval`. -/
def evalPredicate : Predicate → Except BindingFailure Bool
  | .logical op children => if op = "and" then evalAnd children else evalOr children
  | .not child => do return !(← evalPredicate child)
  | .unary op operand => evalUnary resolve op operand
  | .comparison op left right => evalComparison resolve op left right

/-- The children of an AND. -/
def evalAnd : List Predicate → Except BindingFailure Bool
  | [] => .ok true
  | child :: children => do
    if !(← evalPredicate child) then return false
    evalAnd children

/-- The children of an OR. -/
def evalOr : List Predicate → Except BindingFailure Bool
  | [] => .ok false
  | child :: children => do
    if ← evalPredicate child then return true
    evalOr children
end

end Eval

end McpFlow
