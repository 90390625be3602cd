import McpFlow.Domain.Rows

/-!
# ToolPolicy approval context

The secret-safe `context_snapshot` of an ApprovalRequest that a ToolPolicy asks for
(`approval_context.v1`). The historical AGENT_REQUEST shape requires `agent_version_id` and has
neither `workflow_version_id` nor `source_type`; MANUAL_TOOL_TEST pins `source_type` with a null
`agent_version_id`; the Workflow shape has all three keys.
-/

namespace McpFlow.Approval

open Json (Value)

/-- How an approval service refuses: the code of an `AppError`, or an exception of Python. -/
inductive ErrorCode where
  | executionPreconditionFailed
  | resourceConflict
  | uncaught
deriving DecidableEq, Repr

/-- Raise `RESOURCE_CONFLICT` unless the check holds. -/
def require (check : Bool) : Except ErrorCode Unit :=
  if check then .ok () else .error .resourceConflict

@[simp] theorem require_eq_ok_iff {check : Bool} {u : Unit} :
    require check = .ok u ↔ check = true := by
  cases check <;> simp [require]

@[simp] theorem bind_eq_ok_iff {α β : Type} {x : Except ErrorCode α} {f : α → Except ErrorCode β}
    {b : β} : (x >>= f) = .ok b ↔ ∃ a, x = .ok a ∧ f a = .ok b := by
  cases x <;> simp [bind, Except.bind]

/-- `APPROVAL_CONTEXT_SCHEMA_VERSION`. -/
def approvalContextSchemaVersion : String := "approval_context.v1"

/-- `str(uuid)` as a JSON value. -/
def uuidJson (u : UUID) : Value := .str u.toString

/-- `str(uuid) if uuid is not None else None`. -/
def optionalUuidJson : Option UUID → Value
  | some u => uuidJson u
  | none => .null

/-- `uuid.UUID(str(value))`. The text of a null, a boolean, a float, an array or an object never
has 32 hexadecimal digits. -/
def parseUuid? : Value → Option UUID
  | .str s => UUID.parse? s
  | .int i => UUID.parse? (toString i)
  | _ => none

/-- A member of the resolved input is not a secret reference, or a reference-only one. -/
def secretSafe (v : Value) : Bool :=
  if v.isObj && v.getD "kind" == .str "SECRET_REF" then
    v.keys.all (fun k => k == "kind" || k == "secret_id") && v.hasKey "secret_id" &&
      (parseUuid? (v.getD "secret_id")).isSome
  else true

/-- `_assert_secret_safe_resolved_input`. -/
def assertSecretSafeResolvedInput (resolvedInput : List (String × Value)) :
    Except ErrorCode Unit :=
  if resolvedInput.all fun m => secretSafe m.2 then .ok () else .error .executionPreconditionFailed

/-- The `tool_policy` block of the context. -/
def toolPolicyJson (p : MCPToolPolicy) : Value :=
  .obj [
    ("id", uuidJson p.id),
    ("requires_approval", .bool p.requiresApproval),
    ("requires_confirmation", .bool p.requiresConfirmation),
    ("approval_policy_id", optionalUuidJson p.approvalPolicyId),
    ("risk_class", .str p.riskClass.value)]

/-- The `approval_policy` block of the context. -/
def approvalPolicyJson (p : ApprovalPolicy) : Value :=
  .obj [
    ("id", uuidJson p.id),
    ("status", .str p.status.value),
    ("decision_mode", .str p.decisionMode.value),
    ("required_approvals", .int p.requiredApprovals),
    ("default_expiry_seconds", .int p.defaultExpirySeconds),
    ("allow_self_approval", .bool p.allowSelfApproval),
    ("reject_comment_required", .bool p.rejectCommentRequired)]

/-- The members that every source type has. -/
def baseContext (execution : Execution) (step : ExecutionStep) (mcpToolVersionId : UUID)
    (toolPolicy : MCPToolPolicy) (approvalPolicy : ApprovalPolicy)
    (resolvedInput : List (String × Value)) : List (String × Value) :=
  [("schema_version", .str approvalContextSchemaVersion),
    ("execution_id", uuidJson execution.id),
    ("step_execution_id", uuidJson step.id),
    ("step_key", .str step.stepKey),
    ("requester_id", uuidJson execution.requesterId),
    ("mcp_tool_version_id", uuidJson mcpToolVersionId),
    ("plan_hash", .str execution.planHash.val),
    ("risk_class", .str toolPolicy.riskClass.value),
    ("resolved_input", .obj resolvedInput),
    ("tool_policy", toolPolicyJson toolPolicy),
    ("approval_policy", approvalPolicyJson approvalPolicy)]

/-- The members that depend on the source type. -/
def sourceContext (execution : Execution) : Except ErrorCode (List (String × Value)) :=
  if execution.sourceType = .manualToolTest then
    if execution.agentVersionId.isSome || execution.workflowVersionId.isSome ||
        execution.scheduleOccurrenceId.isSome then
      .error .executionPreconditionFailed
    else
      .ok [("agent_version_id", .null), ("source_type", .str execution.sourceType.value)]
  else
    match execution.workflowVersionId, execution.agentVersionId with
    | some _, some _ => .error .executionPreconditionFailed
    | some workflowVersionId, none =>
      .ok [("agent_version_id", .null),
        ("workflow_version_id", uuidJson workflowVersionId),
        ("source_type", .str execution.sourceType.value)]
    | none, none => .error .executionPreconditionFailed
    | none, some agentVersionId => .ok [("agent_version_id", uuidJson agentVersionId)]

/-- `build_approval_context_snapshot`. -/
def buildApprovalContextSnapshot (execution : Execution) (step : ExecutionStep)
    (toolPolicy : MCPToolPolicy) (approvalPolicy : ApprovalPolicy)
    (resolvedInput : List (String × Value)) : Except ErrorCode Value :=
  match step.mcpToolVersionId with
  | none => .error .executionPreconditionFailed
  | some mcpToolVersionId => do
    assertSecretSafeResolvedInput resolvedInput
    let source ← sourceContext execution
    return .obj (baseContext execution step mcpToolVersionId toolPolicy approvalPolicy
      resolvedInput ++ source)

end McpFlow.Approval
