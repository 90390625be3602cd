import McpFlow.Domain.Plan
import McpFlow.Library.Schema

/-!
# Plan documents

`ExecutionPlanV1` as a workflow author writes it and as it is stored: a JSON object in which the
`config` and the `when` of a step are objects of their own. `Plan.modelValidate` reads it, extra
members are forbidden at every level, and `Plan.modelDump` writes it back with every field.
-/

namespace McpFlow.Workflow

open Json
open Json.Value (str? object nullable dict)

/-- `PlanSource`. -/
inductive PlanSource where
  | agent (agentVersionId : UUID)
  | workflow (workflowId : UUID)
  | manualToolTest (mcpToolId mcpToolVersionId : UUID)
deriving DecidableEq

/-- `PlanInputDefinition`. -/
structure PlanInputDefinition where
  type : String
  required : Bool
  secret : Bool
deriving DecidableEq

/-- `PlanLimits`, each at least 1. -/
@[ext]
structure PlanLimits where
  maxSteps : ℕ
  maxDurationSeconds : ℕ
  maxParallelism : ℕ
  maxLoopIterations : ℕ
  maxSteps_pos : 1 ≤ maxSteps
  maxDurationSeconds_pos : 1 ≤ maxDurationSeconds
  maxParallelism_pos : 1 ≤ maxParallelism
  maxLoopIterations_pos : 1 ≤ maxLoopIterations

instance : DecidableEq PlanLimits := fun _ _ => decidable_of_iff _ PlanLimits.ext_iff.symm

/-- A JSON object. -/
abbrev JsonObject := { v : Value // v.isObj = true }

/-- `ExecutionPlanStep`; `when` is `null` when there is none. -/
@[ext]
structure PlanStep where
  id : String
  name : String
  type : AuthorableStepType
  required : Bool
  dependsOn : List String
  when : Option JsonObject
  timeoutSeconds : ℕ
  onError : PlanOnError
  config : JsonObject
  id_nonBlank : Text.nonBlank id = true
  name_nonBlank : Text.nonBlank name = true
  timeoutSeconds_pos : 1 ≤ timeoutSeconds

instance : DecidableEq PlanStep := fun _ _ => decidable_of_iff _ PlanStep.ext_iff.symm

/-- `ExecutionPlanV1` with unparsed configs. Its `schema_version` is `"1.0"` and the
`success_policy` of its completion `"ALL_REQUIRED"`. -/
@[ext]
structure Plan where
  goal : String
  source : PlanSource
  inputs : List (String × PlanInputDefinition)
  limits : PlanLimits
  steps : List PlanStep
  responseStepIds : List String
  goal_nonBlank : Text.nonBlank goal = true

instance : DecidableEq Plan := fun _ _ => decidable_of_iff _ Plan.ext_iff.symm

/-! ### Reading -/

/-- A text of an enumeration. -/
def readEnum {α : Type} (values : List (String × α)) (j : Value) : Option α :=
  j.str?.bind fun s => values.lookup s

/-- A text that is not blank. -/
def readNonBlank (j : Value) : Option { s : String // Text.nonBlank s = true } :=
  j.str?.bind fun s => if h : Text.nonBlank s = true then some ⟨s, h⟩ else none

/-- An integer of at least 1. -/
def readPos (c : Coercion) (j : Value) : Option { n : ℕ // 1 ≤ n } :=
  (c.int j).bind fun i => if h : 1 ≤ i.toNat then some ⟨i.toNat, h⟩ else none

theorem one_le_readPos (n : { n : ℕ // 1 ≤ n }) : 1 ≤ n.val := n.property

/-- The literal text. -/
def readLiteral (text : String) (j : Value) : Option Unit :=
  if j.str? = some text then some () else none

/-- The texts of `AuthorableStepType`. -/
def stepTypes : List (String × AuthorableStepType) :=
  AuthorableStepType.all.map fun t => (t.value, t)

/-- The texts of `PlanOnError`. -/
def onErrors : List (String × PlanOnError) :=
  [("FAIL_EXECUTION", .failExecution), ("MARK_PARTIAL", .markPartial), ("CONTINUE", .continue)]

namespace PlanSource

/-- The union is discriminated by `type`, which must be written. -/
def read (c : Coercion) (j : Value) : Option PlanSource :=
  match (j.get? "type").bind str? with
  | some "AGENT" =>
    if j.forbidsExtra ["type", "agent_version_id"] then
      (j.field "agent_version_id" c.uuid).map agent
    else none
  | some "WORKFLOW" =>
    if j.forbidsExtra ["type", "workflow_id"] then (j.field "workflow_id" c.uuid).map workflow
    else none
  | some "MANUAL_TOOL_TEST" =>
    if j.forbidsExtra ["type", "mcp_tool_id", "mcp_tool_version_id"] then do
      let toolId ← j.field "mcp_tool_id" c.uuid
      let versionId ← j.field "mcp_tool_version_id" c.uuid
      return manualToolTest toolId versionId
    else none
  | _ => none

/-- `model_dump`. -/
def dump : PlanSource → Value
  | agent v => .obj [("type", .str "AGENT"), ("agent_version_id", .str v.toString)]
  | workflow w => .obj [("type", .str "WORKFLOW"), ("workflow_id", .str w.toString)]
  | manualToolTest t v => .obj [("type", .str "MANUAL_TOOL_TEST"),
      ("mcp_tool_id", .str t.toString), ("mcp_tool_version_id", .str v.toString)]

end PlanSource

namespace PlanInputDefinition

/-- The members of an input definition. -/
def fields : List String := ["type", "required", "secret"]

/-- `model_validate`; `secret` may be left out. -/
def read (c : Coercion) (j : Value) : Option PlanInputDefinition :=
  if j.forbidsExtra fields then do
    let type ← j.field "type" str?
    let required ← j.field "required" c.bool
    let secret ← j.fieldD "secret" c.bool false
    return ⟨type, required, secret⟩
  else none

/-- `model_dump`. -/
def dump (d : PlanInputDefinition) : Value :=
  .obj [("type", .str d.type), ("required", .bool d.required), ("secret", .bool d.secret)]

end PlanInputDefinition

namespace PlanLimits

/-- The members of the limits. -/
def fields : List String :=
  ["max_steps", "max_duration_seconds", "max_parallelism", "max_loop_iterations"]

/-- `model_validate`. -/
def read (c : Coercion) (j : Value) : Option PlanLimits :=
  if j.forbidsExtra fields then do
    let maxSteps ← j.field "max_steps" (readPos c)
    let maxDurationSeconds ← j.field "max_duration_seconds" (readPos c)
    let maxParallelism ← j.field "max_parallelism" (readPos c)
    let maxLoopIterations ← j.field "max_loop_iterations" (readPos c)
    return ⟨maxSteps, maxDurationSeconds, maxParallelism, maxLoopIterations, maxSteps.2,
      maxDurationSeconds.2, maxParallelism.2, maxLoopIterations.2⟩
  else none

/-- `model_dump`. -/
def dump (l : PlanLimits) : Value :=
  .obj [("max_steps", .int l.maxSteps), ("max_duration_seconds", .int l.maxDurationSeconds),
    ("max_parallelism", .int l.maxParallelism), ("max_loop_iterations", .int l.maxLoopIterations)]

end PlanLimits

/-- The stored text of an `on_error`. -/
def onErrorValue : PlanOnError → String
  | .failExecution => "FAIL_EXECUTION"
  | .markPartial => "MARK_PARTIAL"
  | .continue => "CONTINUE"

namespace PlanStep

/-- The members of a step. -/
def fields : List String :=
  ["id", "name", "type", "required", "depends_on", "when", "timeout_seconds", "on_error", "config"]

/-- `model_validate`; `when` may be left out. -/
def read (c : Coercion) (j : Value) : Option PlanStep :=
  if j.forbidsExtra fields then do
    let id ← j.field "id" readNonBlank
    let name ← j.field "name" readNonBlank
    let type ← j.field "type" (readEnum stepTypes)
    let required ← j.field "required" c.bool
    let dependsOn ← j.field "depends_on" (Value.list str?)
    let when ← j.fieldD "when" (nullable object) none
    let timeoutSeconds ← j.field "timeout_seconds" (readPos c)
    let onError ← j.field "on_error" (readEnum onErrors)
    let config ← j.field "config" object
    return ⟨id, name, type, required, dependsOn, when, timeoutSeconds, onError, config, id.2,
      name.2, timeoutSeconds.2⟩
  else none

/-- `model_dump`. -/
def dump (s : PlanStep) : Value :=
  .obj [("id", .str s.id), ("name", .str s.name), ("type", .str s.type.value),
    ("required", .bool s.required), ("depends_on", .arr (s.dependsOn.map .str)),
    ("when", (s.when.map Subtype.val).getD .null), ("timeout_seconds", .int s.timeoutSeconds),
    ("on_error", .str (onErrorValue s.onError)), ("config", s.config.1)]

end PlanStep

/-- `PlanCompletion`. -/
def readCompletion (j : Value) : Option (List String) :=
  if j.forbidsExtra ["success_policy", "response_step_ids"] then do
    j.field "success_policy" (readLiteral "ALL_REQUIRED")
    j.field "response_step_ids" (Value.list str?)
  else none

namespace Plan

/-- The members of a plan. -/
def fields : List String :=
  ["schema_version", "goal", "source", "inputs", "limits", "steps", "completion"]

/-- `ExecutionPlanV1.model_validate`. -/
def modelValidate (c : Coercion) (j : Value) : Option Plan :=
  if j.forbidsExtra fields then do
    j.field "schema_version" (readLiteral "1.0")
    let goal ← j.field "goal" readNonBlank
    let source ← j.field "source" (PlanSource.read c)
    let inputs ← j.field "inputs" (dict (PlanInputDefinition.read c))
    let limits ← j.field "limits" (PlanLimits.read c)
    let steps ← j.field "steps" (Value.list (PlanStep.read c))
    let responseStepIds ← j.field "completion" readCompletion
    return ⟨goal, source, inputs, limits, steps, responseStepIds, goal.2⟩
  else none

/-- `model_dump(mode="json")`. -/
def modelDump (p : Plan) : Value :=
  .obj [("schema_version", .str "1.0"), ("goal", .str p.goal), ("source", p.source.dump),
    ("inputs", .obj (p.inputs.map fun i => (i.1, i.2.dump))), ("limits", p.limits.dump),
    ("steps", .arr (p.steps.map PlanStep.dump)),
    ("completion", .obj [("success_policy", .str "ALL_REQUIRED"),
      ("response_step_ids", .arr (p.responseStepIds.map .str))])]

end Plan

end McpFlow.Workflow
