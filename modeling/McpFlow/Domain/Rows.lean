import McpFlow.Domain.Plan

/-!
# Persisted rows

The rows of one Execution, with the columns that the engine reads. Column constraints of the
schema (a digest is 64 lowercase hexadecimal digits, `required_approvals >= 1`, ...) are fields
of the row, so a row that breaks one cannot be written. Instants are counted in microseconds.
-/

namespace McpFlow

/-- An instant. -/
abbrev Time := ℕ

/-- `executions`. -/
structure Execution where
  id : UUID
  sourceType : ExecutionSourceType
  triggerType : ExecutionTriggerType
  requesterId : UUID
  agentVersionId : Option UUID
  workflowVersionId : Option UUID
  scheduleOccurrenceId : Option UUID
  status : ExecutionStatus
  planSnapshot : ExecutionPlanV1
  planHash : Sha256Hex
  errorCode : Option String
  queuedAt : Option Time
  startedAt : Option Time
  finishedAt : Option Time
  cancelRequestedAt : Option Time
  cancelRequestedBy : Option UUID
  workerId : Option String
  leaseToken : Option UUID
  leaseExpiresAt : Option Time
  heartbeatAt : Option Time
deriving DecidableEq

/-- One evaluated gate of a WHILE LOOP. -/
structure GateEntry where
  nextIterationNo : ℕ
  evidenceHash : Sha256Hex
  result : Bool
deriving DecidableEq

/-- `execution_steps.resolved_input`: the input of a TOOL, or the control evidence of a LOOP. -/
inductive ResolvedInput where
  | tool (input : List (String × Json.Value))
  | forEach (collectionHash : Sha256Hex) (collectionSize : ℕ)
  | while (predicateHistory : List GateEntry)
deriving DecidableEq

/-- `execution_steps`. Exactly the TOOL rows pin a ToolVersion. -/
structure ExecutionStep where
  id : UUID
  stepKey : String
  stepType : AuthorableStepType
  mcpToolVersionId : Option UUID
  parentStepId : Option UUID
  status : StepStatus
  stepSnapshot : ExecutionPlanStep
  resolvedInput : Option ResolvedInput
  resultInline : Option Json.Value
  conditionResult : Option Bool
  iterationNo : Option ℕ
  attemptCount : ℕ
  readyAt : Option Time
  startedAt : Option Time
  finishedAt : Option Time
  errorCode : Option String
  toolVersion_isSome : mcpToolVersionId.isSome = true ↔ stepType = .tool
deriving DecidableEq

/-- `step_attempts`. -/
structure StepAttempt where
  id : UUID
  stepExecutionId : UUID
  attemptNo : ℕ
  status : StepAttemptStatus
  workerId : Option String
  leaseExpiresAt : Option Time
  errorCode : Option String
  isRetryable : Option Bool
  resultInline : Option Json.Value
  startedAt : Time
  finishedAt : Option Time
deriving DecidableEq

/-- `tool_calls`. `mrtrInputRequestId` is the key of that name in `request_meta`. -/
structure ToolCall where
  id : UUID
  stepAttemptId : UUID
  mcpServerId : UUID
  mcpToolVersionId : UUID
  remoteRequestId : String
  mrtrInputRequestId : Option UUID
  normalizedStatus : StepAttemptStatus
  startedAt : Time
  finishedAt : Option Time
deriving DecidableEq

/-- `mcp_input_requests`. -/
structure McpInputRequest where
  id : UUID
  executionId : UUID
  stepExecutionId : UUID
  stepAttemptId : UUID
  inputRequests : List (String × Json.Value)
  requestState : Json.Value
  roundNo : ℕ
  status : McpInputRequestStatus
  responsePayload : Option (List (String × Json.Value))
  requestedAt : Time
  expiresAt : Time
  answeredAt : Option Time
  answeredBy : Option UUID
deriving DecidableEq

/-- `approval_policies`. -/
structure ApprovalPolicy where
  id : UUID
  status : ApprovalPolicyStatus
  decisionMode : ApprovalDecisionMode
  requiredApprovals : ℕ
  approverScope : Option (List (String × Json.Value))
  defaultExpirySeconds : ℕ
  allowSelfApproval : Bool
  rejectCommentRequired : Bool
  requiredApprovals_pos : 1 ≤ requiredApprovals
  defaultExpirySeconds_pos : 0 < defaultExpirySeconds

/-- `mcp_tool_policies`. -/
structure MCPToolPolicy where
  id : UUID
  requiresApproval : Bool
  requiresConfirmation : Bool
  approvalPolicyId : Option UUID
  riskClass : RiskClass

/-- `approval_requests`. -/
structure ApprovalRequest where
  id : UUID
  executionId : UUID
  stepExecutionId : UUID
  status : ApprovalStatus
  contextSnapshot : Json.Value
  contextHash : Sha256Hex
  expiresAt : Time
  resolvedAt : Option Time
deriving DecidableEq

end McpFlow
