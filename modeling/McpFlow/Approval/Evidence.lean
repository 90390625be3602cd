import McpFlow.Approval.StepContext

/-!
# Approval evidence validation

The checks a stored ApprovalRequest passes before a decision is accepted or its Execution
resumed: the shape of its `context_snapshot`, the hash stored next to it, and the lineage it
names. Both context schemas go through the same three functions, which dispatch on
`schema_version`.
-/

namespace McpFlow.Approval

open Json (Value)

/-- `is_authorable_step_context`. -/
def isAuthorableStepContext (snapshot : Value) : Bool :=
  snapshot.isObj && snapshot.getD "schema_version" == .str approvalStepContextSchemaVersion

/-- The `approval_context.v1` branch of `validate_stored_context_snapshot`. -/
def validateStoredToolContext (snapshot : Value) : Except ErrorCode Unit := do
  require (snapshot.getD "schema_version" == .str approvalContextSchemaVersion)
  requireKeys snapshot ["execution_id", "step_execution_id", "step_key", "requester_id",
    "agent_version_id", "mcp_tool_version_id", "plan_hash", "risk_class", "resolved_input",
    "tool_policy", "approval_policy"]
  -- A null `agent_version_id` is accepted only next to `workflow_version_id` and `source_type`.
  require (!(snapshot.getD "agent_version_id").isNull ||
    (!(snapshot.getD "workflow_version_id").isNull && snapshot.hasKey "source_type"))
  require ((snapshot.getD "tool_policy").isObj && (snapshot.getD "approval_policy").isObj)
  requireKeys (snapshot.getD "approval_policy") ["allow_self_approval",
    "reject_comment_required", "decision_mode", "required_approvals"]

/-- `validate_stored_context_snapshot`. -/
def validateStoredContextSnapshot (snapshot : Value) : Except ErrorCode Unit :=
  if snapshot.isObj then
    if snapshot.getD "schema_version" == .str approvalStepContextSchemaVersion then
      validateStoredApprovalStepContext snapshot
    else validateStoredToolContext snapshot
  else .error .resourceConflict

/-- `assert_request_context_hash_intact`. -/
def assertRequestContextHashIntact (computeCanonicalJsonHash : CanonicalHash)
    (request : ApprovalRequest) : Except ErrorCode Unit := do
  validateStoredContextSnapshot request.contextSnapshot
  require (computeCanonicalJsonHash request.contextSnapshot == request.contextHash)

/-- The ToolPolicy branch of `assert_lineage_matches_snapshot`. -/
def assertToolLineageMatches (execution : Execution) (step : ExecutionStep) (snapshot : Value) :
    Except ErrorCode Unit := do
  let snapExec ← parseContextUuid (snapshot.getD "execution_id")
  let snapStep ← parseContextUuid (snapshot.getD "step_execution_id")
  let snapRequester ← parseContextUuid (snapshot.getD "requester_id")
  let snapTool ← parseContextUuid (snapshot.getD "mcp_tool_version_id")
  let snapAgent ← parseOptionalContextUuid (snapshot.getD "agent_version_id")
  let snapWorkflow ← parseOptionalContextUuid (snapshot.getD "workflow_version_id")
  -- Snapshots without `workflow_version_id` stand for an Execution without one.
  let workflowOk := if snapshot.hasKey "workflow_version_id" then
    snapWorkflow == execution.workflowVersionId else execution.workflowVersionId.isNone
  let sourceOk := !snapshot.hasKey "source_type" ||
    snapshot.getD "source_type" == .str execution.sourceType.value
  require (snapExec == execution.id && snapStep == step.id &&
    snapRequester == execution.requesterId && snapAgent == execution.agentVersionId &&
    workflowOk && sourceOk && some snapTool == step.mcpToolVersionId &&
    snapshot.getD "step_key" == .str step.stepKey &&
    snapshot.getD "plan_hash" == .str execution.planHash.val)

/-- `assert_lineage_matches_snapshot`. -/
def assertLineageMatchesSnapshot (execution : Execution) (step : ExecutionStep)
    (snapshot : Value) : Except ErrorCode Unit :=
  if isAuthorableStepContext snapshot then
    assertApprovalStepLineageMatches execution step snapshot
  else assertToolLineageMatches execution step snapshot

end McpFlow.Approval
