import McpFlow.Workflow.Plan

/-!
# Bindings, predicates and step configs

The typed forms of the `config` and the `when` of a plan step. A binding is told apart by `kind`, a
predicate by `op`. The reader of predicates follows the JSON value: it reads every member both as a
predicate and as a list of predicates, and the operator picks what it needs.
-/

namespace McpFlow.Workflow

open Json
open Json.Value (str? object nullable dict)

/-! ### Bindings -/

/-- `PlanBindingValue`. -/
inductive PlanBinding where
  | literal (value : Value)
  | secretRef (secretId : UUID)
  | planInput (path : String)
  | stepOutput (stepId path : String)
  | executionContext (path : String)
  | loopContext (path : String)
deriving DecidableEq

/-- The reference tokens of a JSON pointer after its first slash: not empty, with the escapes `~0`
and `~1` only. -/
def pointerTokens (nonempty : Bool) : List Char → Bool
  | [] => nonempty
  | '/' :: cs => nonempty && pointerTokens false cs
  | '~' :: '0' :: cs => pointerTokens true cs
  | '~' :: '1' :: cs => pointerTokens true cs
  | '~' :: _ => false
  | '#' :: _ => false
  | _ :: cs => pointerTokens true cs

/-- `is_valid_json_pointer_subset`. -/
def isValidJsonPointerSubset (path : String) : Bool :=
  match path.toList with
  | ['/'] => true
  | '/' :: cs => pointerTokens false cs
  | _ => false

/-- `_require_json_pointer`. -/
def readPath (j : Value) : Option String :=
  j.str?.bind fun s => if isValidJsonPointerSubset s then some s else none

namespace PlanBinding

/-- The four kinds with a path take no other member. -/
def readPathKind (kind : String → PlanBinding) (j : Value) : Option PlanBinding :=
  if j.forbidsExtra ["kind", "path"] then (j.field "path" readPath).map kind else none

/-- `parse_plan_binding_value`. -/
def read (c : Coercion) (j : Value) : Option PlanBinding :=
  match (j.get? "kind").bind str? with
  | some "LITERAL" =>
    if j.forbidsExtra ["kind", "value"] then (j.get? "value").map literal else none
  | some "SECRET_REF" =>
    if j.forbidsExtra ["kind", "secret_id"] then (j.field "secret_id" c.uuid).map secretRef
    else none
  | some "PLAN_INPUT" => readPathKind planInput j
  | some "STEP_OUTPUT" =>
    if j.forbidsExtra ["kind", "step_id", "path"] then do
      let stepId ← j.field "step_id" readNonBlank
      let path ← j.field "path" readPath
      return stepOutput stepId path
    else none
  | some "EXECUTION_CONTEXT" => readPathKind executionContext j
  | some "LOOP_CONTEXT" => readPathKind loopContext j
  | _ => none

/-- The binding is a `PlanLoopContextBinding`. -/
def isLoopContext : PlanBinding → Bool
  | loopContext _ => true
  | _ => false

end PlanBinding

/-! ### Predicates -/

/-- `Predicate`; `op` is the stored operator. -/
inductive Predicate where
  | comparison (op : String) (left right : PlanBinding)
  | unary (op : String) (operand : PlanBinding)
  | not (child : Predicate)
  | logical (op : String) (children : List Predicate)

namespace Predicate

/-- The operators of `ComparisonPredicate`. -/
def comparisonOps : List String := ["eq", "ne", "gt", "gte", "lt", "lte", "in", "contains"]

/-- The operators of `UnaryPredicate`. -/
def unaryOps : List String := ["exists", "is_null"]

/-- The operators of `LogicalPredicate`. -/
def logicalOps : List String := ["and", "or"]

/-- A value read as a predicate and as a list of predicates. -/
structure Reading where
  predicate : Option Predicate
  list : Option (List Predicate)

/-- An object whose members have been read. -/
def ofMembers (c : Coercion) (j : Value) (readings : List (String × Reading)) : Option Predicate :=
  (j.get? "op").bind str? |>.bind fun op =>
    if op ∈ comparisonOps then
      if j.forbidsExtra ["op", "left", "right"] then do
        let left ← j.field "left" (PlanBinding.read c)
        let right ← j.field "right" (PlanBinding.read c)
        return comparison op left right
      else none
    else if op ∈ unaryOps then
      if j.forbidsExtra ["op", "operand"] then
        (j.field "operand" (PlanBinding.read c)).map (unary op)
      else none
    else if op = "not" then
      if j.forbidsExtra ["op", "child"] then
        ((readings.lookup "child").bind Reading.predicate).map not
      else none
    else if op ∈ logicalOps then
      if j.forbidsExtra ["op", "children"] then
        match (readings.lookup "children").bind Reading.list with
        | some (p :: ps) => some (logical op (p :: ps))
        | _ => none
      else none
    else none

mutual
/-- Both readings of a value. -/
def reading (c : Coercion) : Value → Reading
  | .obj ms => ⟨ofMembers c (.obj ms) (readingMembers c ms), none⟩
  | .arr items => ⟨none, readingItems c items⟩
  | _ => ⟨none, none⟩

/-- The items of a list of predicates. -/
def readingItems (c : Coercion) : List Value → Option (List Predicate)
  | [] => some []
  | v :: vs => (reading c v).predicate.bind fun p => (readingItems c vs).map (p :: ·)

/-- The members of an object. -/
def readingMembers (c : Coercion) : List (String × Value) → List (String × Reading)
  | [] => []
  | (k, v) :: ms => (k, reading c v) :: readingMembers c ms
end

/-- `parse_predicate`. -/
def read (c : Coercion) (j : Value) : Option Predicate := (reading c j).predicate

mutual
/-- `iter_plan_bindings_in_predicate`. -/
def bindings : Predicate → List PlanBinding
  | comparison _ left right => [left, right]
  | unary _ operand => [operand]
  | not child => child.bindings
  | logical _ children => bindingsList children

/-- The bindings of several predicates. -/
def bindingsList : List Predicate → List PlanBinding
  | [] => []
  | p :: ps => p.bindings ++ bindingsList ps
end

end Predicate

/-! ### Configs -/

/-- `ComplexToolStepConfigV1`. -/
structure ComplexToolStepConfig where
  toolVersionId : UUID
  bindings : List (String × PlanBinding)

/-- `parse_complex_tool_step_config`. -/
def ComplexToolStepConfig.read (c : Coercion) (j : Value) : Option ComplexToolStepConfig :=
  if j.forbidsExtra ["tool_version_id", "bindings"] then do
    let toolVersionId ← j.field "tool_version_id" c.uuid
    let bindings ← j.field "bindings" (dict (PlanBinding.read c))
    return ⟨toolVersionId, bindings⟩
  else none

/-- The texts of `JoinPolicy`. -/
def joinPolicies : List (String × JoinPolicy) :=
  [("ALL_SUCCESS", .allSuccess), ("ALL_COMPLETE", .allComplete), ("ANY_SUCCESS", .anySuccess)]

/-- `parse_join_step_config`. -/
def readJoinStepConfig (j : Value) : Option JoinPolicy :=
  if j.forbidsExtra ["policy"] then j.field "policy" (readEnum joinPolicies) else none

/-- `parse_approval_step_config`. -/
def readApprovalStepConfig (c : Coercion) (j : Value) : Option UUID :=
  if j.forbidsExtra ["approval_policy_id"] then j.field "approval_policy_id" c.uuid else none

/-- `parse_condition_step_config`. -/
def readConditionStepConfig (c : Coercion) (j : Value) : Option Predicate :=
  if j.forbidsExtra ["predicate"] then j.field "predicate" (Predicate.read c) else none

/-- The texts of `LoopMode`. -/
def loopModes : List (String × LoopMode) := [("FOR_EACH", .forEach), ("WHILE", .while)]

/-- `_mode_fields`. -/
def modeFields (mode : LoopMode) (collection : Option PlanBinding)
    (predicate : Option Predicate) : Bool :=
  match mode with
  | .forEach => collection.isSome && predicate.isNone
  | .while => predicate.isSome && collection.isNone

/-- `LoopStepConfigV1`, with the checks of its validators. -/
structure LoopStepConfig where
  mode : LoopMode
  maxIterations : ℕ
  bodyStepIds : List String
  collection : Option PlanBinding
  predicate : Option Predicate
  maxIterations_pos : 1 ≤ maxIterations
  bodyStepIds_ne_nil : bodyStepIds ≠ []
  bodyStepIds_nodup : bodyStepIds.Nodup
  mode_fields : modeFields mode collection predicate = true

/-- `parse_loop_step_config`. -/
def LoopStepConfig.read (c : Coercion) (j : Value) : Option LoopStepConfig :=
  if j.forbidsExtra ["mode", "max_iterations", "body_step_ids", "collection", "predicate"] then do
    let mode ← j.field "mode" (readEnum loopModes)
    let maxIterations ← j.field "max_iterations" (readPos c)
    let bodyStepIds ← j.field "body_step_ids" (Value.list str?)
    let collection ← j.fieldD "collection" (nullable (PlanBinding.read c)) none
    let predicate ← j.fieldD "predicate" (nullable (Predicate.read c)) none
    if h : bodyStepIds ≠ [] ∧ bodyStepIds.Nodup ∧ bodyStepIds.all Text.nonBlank = true ∧
        modeFields mode collection predicate = true then
      return ⟨mode, maxIterations, bodyStepIds, collection, predicate, one_le_readPos maxIterations, h.1, h.2.1,
        h.2.2.2⟩
    else none
  else none

/-- The config of a step, read as the step type asks. -/
inductive ParsedConfig where
  | tool (cfg : ComplexToolStepConfig)
  | condition (predicate : Predicate)
  | join (policy : JoinPolicy)
  | approval (approvalPolicyId : UUID)
  | loop (cfg : LoopStepConfig)

/-- The parser of a step type. -/
def PlanStep.parseConfig (c : Coercion) (s : PlanStep) : Option ParsedConfig :=
  match s.type with
  | .tool => (ComplexToolStepConfig.read c s.config.1).map .tool
  | .condition => (readConditionStepConfig c s.config.1).map .condition
  | .join => (readJoinStepConfig s.config.1).map .join
  | .approval => (readApprovalStepConfig c s.config.1).map .approval
  | .loop => (LoopStepConfig.read c s.config.1).map .loop

end McpFlow.Workflow
