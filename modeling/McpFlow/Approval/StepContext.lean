import McpFlow.Approval.Context

/-!
# Authorable APPROVAL step context

The checkpoint context of an authorable APPROVAL step (`approval_step_context.v1`): its builder,
with the evidence of the transitive upstream steps, and the validator of the stored form.
-/

namespace McpFlow.Approval

open Json (Value)

/-- `APPROVAL_STEP_CONTEXT_SCHEMA_VERSION`. -/
def approvalStepContextSchemaVersion : String := "approval_step_context.v1"

/-- `APPROVAL_KIND_AUTHORABLE_STEP`. -/
def approvalKindAuthorableStep : String := "AUTHORABLE_STEP"

/-- `_UPSTREAM_EVIDENCE_FIELDS`. -/
def upstreamEvidenceFields : List String :=
  ["step_key", "step_type", "status", "condition_result", "error_code", "result_inline_hash"]

/-- `_POLICY_SNAPSHOT_FIELDS`. -/
def policySnapshotFields : List String :=
  ["id", "status", "decision_mode", "required_approvals", "approver_scope",
    "default_expiry_seconds", "allow_self_approval", "reject_comment_required"]

/-- `set(j.keys()) == set(fields)`. -/
def keysAre (j : Value) (fields : List String) : Bool :=
  j.keys.all fields.contains && fields.all j.keys.contains

/-- The members are all present. -/
def requireKeys (j : Value) (fields : List String) : Except ErrorCode Unit :=
  require (fields.all j.hasKey)

/-! ### The builder -/

/-- The canonical hash of a JSON value, a parameter of the approval services. -/
abbrev CanonicalHash := Value → Sha256Hex

/-- `hash_result_inline`: null when there is no result. -/
def hashResultInline (computeCanonicalJsonHash : CanonicalHash) : Option Value → Option Sha256Hex
  | none | some .null => none
  | some v => some (computeCanonicalJsonHash v)

/-- `_approval_policy_snapshot`. -/
def approvalPolicySnapshot (policy : ApprovalPolicy) : Value :=
  .obj [
    ("id", uuidJson policy.id),
    ("status", .str policy.status.value),
    ("decision_mode", .str policy.decisionMode.value),
    ("required_approvals", .int policy.requiredApprovals),
    ("approver_scope", (policy.approverScope.map Value.obj).getD .null),
    ("default_expiry_seconds", .int policy.defaultExpirySeconds),
    ("allow_self_approval", .bool policy.allowSelfApproval),
    ("reject_comment_required", .bool policy.rejectCommentRequired)]

/-- The dependencies of a step inside the plan; of two steps with one id the later counts. -/
def planDeps (plan : ExecutionPlanV1) (stepKey : String) : List String :=
  match plan.steps.reverse.find? fun s => s.id == stepKey with
  | some s => s.dependsOn.filter fun d => plan.steps.any fun t => t.id == d
  | none => []

/-- `walk`: the transitive dependencies of a step. Out of fuel is the recursion of Python that
does not end, on a plan with a dependency cycle. -/
def walk (plan : ExecutionPlanV1) : ℕ → String → Option (List String)
  | 0, _ => none
  | fuel + 1, stepKey => do
    let nested ← (planDeps plan stepKey).mapM fun dep => walk plan fuel dep
    return planDeps plan stepKey ++ nested.flatten

/-- `_transitive_ancestor_keys`: the ancestors in plan order. -/
def transitiveAncestorKeys (plan : ExecutionPlanV1) (stepKey : String) : Option (List String) :=
  (walk plan (plan.steps.length + 1) stepKey).map fun ancestors =>
    (plan.steps.map (·.id)).filter ancestors.contains

/-- One item of the upstream evidence. -/
def upstreamEvidenceItem (computeCanonicalJsonHash : CanonicalHash) (step : ExecutionStep) :
    Value :=
  .obj [
    ("step_key", .str step.stepKey),
    ("step_type", .str step.stepType.value),
    ("status", .str step.status.value),
    ("condition_result", .ofOptionBool step.conditionResult),
    ("error_code", .ofOptionStr step.errorCode),
    ("result_inline_hash", .ofOptionStr
      ((hashResultInline computeCanonicalJsonHash step.resultInline).map (·.val)))]

/-- `by_key[key]`: of two rows with one key the later counts. -/
def byKey? (steps : List ExecutionStep) (key : String) : Option ExecutionStep :=
  steps.reverse.find? fun s => s.stepKey == key

/-- `build_upstream_evidence`; `none` is an ancestor without a row. -/
def buildUpstreamEvidence (computeCanonicalJsonHash : CanonicalHash) (plan : ExecutionPlanV1)
    (owningStepKey : String) (steps : List ExecutionStep) : Option (List Value) := do
  let keys ← transitiveAncestorKeys plan owningStepKey
  let rows ← keys.mapM fun key => byKey? steps key
  return rows.map fun row => upstreamEvidenceItem computeCanonicalJsonHash row

/-- `ApprovalStepConfigV1.model_validate(step.config)`. -/
def parseApprovalStepConfig : StepConfig → Option UUID
  | .approval approvalPolicyId => some approvalPolicyId
  | _ => none

/-- `build_approval_step_context_snapshot`. -/
def buildApprovalStepContextSnapshot (computeCanonicalJsonHash : CanonicalHash)
    (execution : Execution) (step : ExecutionStep) (plan : ExecutionPlanV1)
    (approvalPolicy : ApprovalPolicy) (steps : List ExecutionStep) : Except ErrorCode Value :=
  if step.stepType ≠ .approval then .error .executionPreconditionFailed
  else if step.mcpToolVersionId.isSome then .error .executionPreconditionFailed
  else if approvalPolicy.status ≠ .active then .error .executionPreconditionFailed
  else if plan.steps.find? (fun p => p.id == step.stepKey) ≠ some step.stepSnapshot then
    .error .executionPreconditionFailed
  else if parseApprovalStepConfig step.stepSnapshot.config ≠ some approvalPolicy.id then
    .error .executionPreconditionFailed
  else
    match buildUpstreamEvidence computeCanonicalJsonHash plan step.stepKey steps with
    | none => .error .uncaught
    | some upstreamEvidence => .ok (.obj [
        ("schema_version", .str approvalStepContextSchemaVersion),
        ("approval_kind", .str approvalKindAuthorableStep),
        ("execution_id", uuidJson execution.id),
        ("step_execution_id", uuidJson step.id),
        ("step_key", .str step.stepKey),
        ("requester_id", uuidJson execution.requesterId),
        ("source_type", .str execution.sourceType.value),
        ("trigger_type", .str execution.triggerType.value),
        ("agent_version_id", optionalUuidJson execution.agentVersionId),
        ("workflow_version_id", optionalUuidJson execution.workflowVersionId),
        ("plan_hash", .str execution.planHash.val),
        ("approval_policy", approvalPolicySnapshot approvalPolicy),
        ("upstream_evidence", .arr upstreamEvidence)])

/-! ### The validator -/

/-- `validate_approver_scope`: null, `{}` or a nonempty list of role codes that are not blank. -/
def validateApproverScope (scope : Value) : Except ErrorCode Unit :=
  match scope with
  | .null | .obj [] => .ok ()
  | .obj members => do
    require (keysAre (.obj members) ["role_codes"])
    match (Value.obj members).getD "role_codes" with
    | .arr codes => do
      require !codes.isEmpty
      require (codes.all fun code => (code.str?.map Text.nonBlank).getD false)
    | _ => .error .resourceConflict
  | _ => .error .resourceConflict

/-- `_require_positive_int`. -/
def requirePositiveInt (v : Value) : Except ErrorCode Unit :=
  require ((v.int?.map fun i => decide (1 ≤ i)).getD false)

/-- `_require_bool`. -/
def requireBool (v : Value) : Except ErrorCode Unit := require v.bool?.isSome

/-- `_parse_context_uuid`. -/
def parseContextUuid (v : Value) : Except ErrorCode UUID :=
  match parseUuid? v with
  | some u => .ok u
  | none => .error .resourceConflict

/-- `_parse_optional_context_uuid`. -/
def parseOptionalContextUuid (v : Value) : Except ErrorCode (Option UUID) :=
  if v.isNull then .ok none else some <$> parseContextUuid v

/-- `value in {...}` for a set of texts. -/
def isOneOf (v : Value) (texts : List String) : Bool :=
  (v.str?.map texts.contains).getD false

/-- `isinstance(value, str) and value`. -/
def isNonemptyStr (v : Value) : Bool := (v.str?.map fun s => s != "").getD false

/-- `_validate_approval_policy_snapshot`. -/
def validateApprovalPolicySnapshot (approvalPolicy : Value) : Except ErrorCode Unit := do
  require approvalPolicy.isObj
  require (keysAre approvalPolicy policySnapshotFields)
  let _ ← parseContextUuid (approvalPolicy.getD "id")
  require (isOneOf (approvalPolicy.getD "status") ["ACTIVE", "INACTIVE"])
  require (isOneOf (approvalPolicy.getD "decision_mode") ["ANY", "ALL", "QUORUM"])
  requirePositiveInt (approvalPolicy.getD "required_approvals")
  requirePositiveInt (approvalPolicy.getD "default_expiry_seconds")
  requireBool (approvalPolicy.getD "allow_self_approval")
  requireBool (approvalPolicy.getD "reject_comment_required")
  validateApproverScope (approvalPolicy.getD "approver_scope")

/-- `_validate_upstream_evidence_item`. -/
def validateUpstreamEvidenceItem (item : Value) : Except ErrorCode Unit := do
  require item.isObj
  require (keysAre item upstreamEvidenceFields)
  require (isNonemptyStr (item.getD "step_key"))
  require (isOneOf (item.getD "step_type") (AuthorableStepType.all.map (·.value)))
  require (isOneOf (item.getD "status") (StepStatus.all.map (·.value)))
  require ((item.getD "condition_result").isNull || (item.getD "condition_result").bool?.isSome)
  require ((item.getD "error_code").isNull || (item.getD "error_code").str?.isSome)
  require ((item.getD "result_inline_hash").isNull ||
    ((item.getD "result_inline_hash").str?.map Text.isSha256Hex).getD false)

/-- `validate_stored_approval_step_context`. -/
def validateStoredApprovalStepContext (snapshot : Value) : Except ErrorCode Unit := do
  require snapshot.isObj
  require (snapshot.getD "schema_version" == .str approvalStepContextSchemaVersion)
  require (snapshot.getD "approval_kind" == .str approvalKindAuthorableStep)
  requireKeys snapshot ["execution_id", "step_execution_id", "step_key", "requester_id",
    "source_type", "trigger_type", "agent_version_id", "workflow_version_id", "plan_hash",
    "approval_policy", "upstream_evidence"]
  let _ ← parseContextUuid (snapshot.getD "execution_id")
  let _ ← parseContextUuid (snapshot.getD "step_execution_id")
  let _ ← parseContextUuid (snapshot.getD "requester_id")
  let _ ← parseOptionalContextUuid (snapshot.getD "agent_version_id")
  let _ ← parseOptionalContextUuid (snapshot.getD "workflow_version_id")
  require (isNonemptyStr (snapshot.getD "step_key"))
  require (isNonemptyStr (snapshot.getD "plan_hash"))
  validateApprovalPolicySnapshot (snapshot.getD "approval_policy")
  match snapshot.getD "upstream_evidence" with
  | .arr items => items.forM validateUpstreamEvidenceItem
  | _ => .error .resourceConflict

/-- `assert_approval_step_lineage_matches`. -/
def assertApprovalStepLineageMatches (execution : Execution) (step : ExecutionStep)
    (snapshot : Value) : Except ErrorCode Unit := do
  let snapExec ← parseContextUuid (snapshot.getD "execution_id")
  let snapStep ← parseContextUuid (snapshot.getD "step_execution_id")
  let snapRequester ← parseContextUuid (snapshot.getD "requester_id")
  let snapAgent ← parseOptionalContextUuid (snapshot.getD "agent_version_id")
  let snapWorkflow ← parseOptionalContextUuid (snapshot.getD "workflow_version_id")
  match (snapshot.getD "approval_policy").get? "id" with
  | some policyId => let _ ← parseContextUuid policyId
  | none => pure ()
  require (snapExec == execution.id && snapStep == step.id &&
    snapRequester == execution.requesterId && snapAgent == execution.agentVersionId &&
    snapWorkflow == execution.workflowVersionId &&
    snapshot.getD "step_key" == .str step.stepKey &&
    snapshot.getD "plan_hash" == .str execution.planHash.val &&
    snapshot.getD "source_type" == .str execution.sourceType.value &&
    snapshot.getD "trigger_type" == .str execution.triggerType.value &&
    step.stepType == .approval)

end McpFlow.Approval
