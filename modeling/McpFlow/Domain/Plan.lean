import McpFlow.Domain.Enums
import McpFlow.Library.Json
import McpFlow.Library.Text
import McpFlow.Library.Uuid

/-!
# Execution Plan v1

The immutable plan of an Execution. A step keeps its `config` parsed: the five config schemas
have disjoint required fields and forbid extra ones, so a stored config is valid for at most one
of them, and a config of another kind than the step type asks for fails to parse. Predicates and
bindings stay JSON; their evaluation is a parameter of the engine.
-/

namespace McpFlow

/-- LOOP step config. The fields after `predicate` are the checks of its validators. -/
structure LoopStepConfigV1 where
  mode : LoopMode
  maxIterations : ℕ
  bodyStepIds : List String
  collection : Option Json.Value
  predicate : Option Json.Value
  maxIterations_pos : 1 ≤ maxIterations
  bodyStepIds_ne_nil : bodyStepIds ≠ []
  bodyStepIds_nodup : bodyStepIds.Nodup
  mode_fields : match mode with
    | .forEach => collection.isSome ∧ predicate = none
    | .while => predicate.isSome ∧ collection = none
deriving DecidableEq

/-- A parsed step config. -/
inductive StepConfig where
  | tool (toolVersionId : UUID) (bindings : List (String × Json.Value))
  | condition (predicate : Json.Value)
  | join (policy : JoinPolicy)
  | approval (approvalPolicyId : UUID)
  | loop (cfg : LoopStepConfigV1)
deriving DecidableEq

/-- A step of an Execution Plan; `id` is not blank and `timeout_seconds` is at least 1. -/
structure ExecutionPlanStep where
  id : String
  type : AuthorableStepType
  required : Bool
  dependsOn : List String
  when : Option Json.Value
  timeoutSeconds : ℕ
  onError : PlanOnError
  config : StepConfig
  id_nonBlank : Text.nonBlank id = true
  timeoutSeconds_pos : 1 ≤ timeoutSeconds
deriving DecidableEq

/-- Execution Plan limits, each at least 1. -/
structure PlanLimits where
  maxSteps : ℕ
  maxParallelism : ℕ
  maxLoopIterations : ℕ
  maxSteps_pos : 1 ≤ maxSteps
  maxParallelism_pos : 1 ≤ maxParallelism
  maxLoopIterations_pos : 1 ≤ maxLoopIterations
deriving DecidableEq

/-- The limits with these values, where they are at least 1. -/
def PlanLimits.ofNat (maxSteps maxParallelism maxLoopIterations : ℕ) : PlanLimits where
  maxSteps := max 1 maxSteps
  maxParallelism := max 1 maxParallelism
  maxLoopIterations := max 1 maxLoopIterations
  maxSteps_pos := Nat.le_max_left 1 maxSteps
  maxParallelism_pos := Nat.le_max_left 1 maxParallelism
  maxLoopIterations_pos := Nat.le_max_left 1 maxLoopIterations

theorem one_le_thirty : 1 ≤ 30 := by decide

/-- Execution Plan v1, with the fields the engine reads. -/
structure ExecutionPlanV1 where
  limits : PlanLimits
  steps : List ExecutionPlanStep
deriving DecidableEq

end McpFlow
