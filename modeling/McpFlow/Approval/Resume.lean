import McpFlow.Approval.Decision
import McpFlow.Approval.Wait

/-!
# The approval resume claim

`ApprovalResumeClaimService.claim`: a delivered resume message takes a WAITING_APPROVAL Execution
whose request is APPROVED back to RUNNING under a fresh lease, with its Step READY. A ToolPolicy wait
whose mutable conditions changed, and an authorable APPROVAL that no longer fits, end the Execution.
-/

namespace McpFlow

/-- `DETERMINISTIC_TOOL_STEP_ID`. -/
def deterministicToolStepId : String := "tool_1"

namespace Approval

/-- What the claim learns from outside the rows. -/
structure ApprovalResumeEnv where
  /-- The stored snapshots: the plan and its hash, and the approval policy of the request. -/
  snapshots : Except AppError Unit
  /-- The current authorization, policies and context. -/
  preflight : Except AppError Unit
  worker : String
  leaseToken : UUID
  leaseSeconds : ℕ

/-- `ApprovalResumeClaimOutcome`, with what the caller reads. -/
structure ApprovalResumeClaimOutcome where
  claimed : Bool
  reason : Option String
deriving DecidableEq

/-- The checks of both kinds of resume on the request, the Step and the lease. -/
def assertResumable (db : Db) (step : ExecutionStep) (request : ApprovalRequest) :
    Except AppError Unit := do
  assertThat (request.executionId == db.execution.id && request.stepExecutionId == step.id)
    "ApprovalRequest does not belong to this Execution/Step."
  assertThat (request.status == .approved && request.resolvedAt.isSome)
    "Approval resume requires APPROVED request with resolved_at."
  assertThat (step.status == .waitingApproval) "Approval resume requires Step WAITING_APPROVAL."

/-- The plan step of a key, as the resume looks it up. -/
def exactPlanProjection (db : Db) (step : ExecutionStep) : Bool :=
  db.execution.planSnapshot.steps.find? (·.id = step.stepKey) == some step.stepSnapshot

/-- `_assert_authorable_structural_preconditions`. -/
def assertAuthorableStructuralPreconditions (env : ApprovalResumeEnv) (db : Db)
    (step : ExecutionStep) (request : ApprovalRequest) : Except AppError Unit := do
  assertThat (db.execution.sourceType != .factoryTest)
    ("Authorable approval resume supports AGENT_REQUEST / MANUAL_TOOL_TEST / WORKFLOW_VERSION / "
      ++ "SCHEDULE_OCCURRENCE Executions only.")
  assertResumable db step request
  assertThat (step.stepType == .approval)
    "Authorable approval resume requires APPROVAL Step type."
  assertThat (isAuthorableStepContext request.contextSnapshot)
    "Authorable approval resume requires approval_step_context.v1."
  assertThat db.execution.leaseCleared "WAITING_APPROVAL Execution unexpectedly owns a lease."
  assertThat (step.stepSnapshot.config matches .approval _)
    "Execution plan/step snapshot is invalid for authorable resume."
  assertThat (exactPlanProjection db step && step.stepSnapshot.type == .approval)
    "APPROVAL Step is not an exact immutable Plan projection."
  env.snapshots

/-- The plan checks of `_assert_structural_resume_preconditions` by source. -/
def assertToolProjection (db : Db) (step : ExecutionStep) : Except AppError Unit :=
  if db.execution.sourceType = .agentRequest then do
    assertThat (db.steps.rows.length == 1)
      "AgentRequest foundation Execution must contain exactly one Step."
    assertThat (step.stepKey == deterministicToolStepId)
      "Approval resume Step is not the foundation TOOL Step."
    assertThat (db.execution.planSnapshot.steps == [step.stepSnapshot])
      "Execution plan/step snapshot lineage is inconsistent."
  else do
    assertThat (exactPlanProjection db step && step.stepSnapshot.type == .tool)
      "TOOL Step is not an exact immutable Plan projection."
    assertThat db.execution.workflowVersionId.isSome
      "Workflow ToolPolicy approval resume requires pinned workflow_version_id."

/-- `_assert_structural_resume_preconditions`. A LOOP body instance is no plan projection: its key
is no plan step id. -/
def assertStructuralResumePreconditions (env : ApprovalResumeEnv) (db : Db)
    (step : ExecutionStep) (request : ApprovalRequest) : Except AppError Unit := do
  assertThat (db.execution.sourceType == .agentRequest ||
      db.execution.sourceType == .workflowVersion || db.execution.sourceType == .scheduleOccurrence)
    ("ToolPolicy approval resume supports AGENT_REQUEST / WORKFLOW_VERSION / SCHEDULE_OCCURRENCE "
      ++ "Executions only.")
  assertResumable db step request
  assertThat db.execution.leaseCleared "WAITING_APPROVAL Execution unexpectedly owns a lease."
  assertThat (step.stepType == .tool) "ToolPolicy approval resume requires TOOL Step type."
  env.snapshots
  assertToolProjection db step
  match step.stepSnapshot.config with
  | .tool toolVersionId _ =>
    assertThat (step.mcpToolVersionId == some toolVersionId)
      "Step mcp_tool_version_id does not match TOOL config."
  | _ => .error (conflict "Execution plan/step snapshot is invalid for resume.")

/-- `_terminalize_resume_precondition_failed`, and its outcome. -/
def resumePreconditionFailed (authorable : Bool) (step : ExecutionStep) (now : Time) (db : Db) :
    ApprovalResumeClaimOutcome × Db :=
  (⟨false, some "PRECONDITION_FAILED"⟩,
    failWaitingStep authorable step "APPROVAL_RESUME_PRECONDITION_FAILED" now db)

/-- `_apply_fresh_claim`. -/
def applyFreshClaim (env : ApprovalResumeEnv) (step : ExecutionStep) (now : Time) (db : Db) : Db :=
  (db.putExecution
    { db.execution.assignLease env.worker env.leaseToken now env.leaseSeconds with
      status := .running }).putStep
    { step with status := .ready, readyAt := step.readyAt.or (some now) }

/-- The last part of both kinds of resume. -/
def resumeApproved (env : ApprovalResumeEnv) (authorable : Bool) (step : ExecutionStep) (now : Time)
    (db : Db) : Tx ApprovalResumeClaimOutcome :=
  match findPendingForStep db step.id with
  | some _ => .error (.appError (conflict
      "PENDING ApprovalRequest still exists; cannot resume."))
  | none => match env.preflight with
    | .error _ => .ok (resumePreconditionFailed authorable step now db)
    | .ok () => .ok (⟨true, none⟩, applyFreshClaim env step now db)

/-- `claim`, once the request and its Step are found. Only the authorable kind ends the Execution
when the structural checks fail; the other kind raises. -/
def resumeRequest (env : ApprovalResumeEnv) (request : ApprovalRequest) (step : ExecutionStep)
    (now : Time) (db : Db) : Tx ApprovalResumeClaimOutcome :=
  if isAuthorableStepContext request.contextSnapshot ∨ step.stepType = .approval then
    match assertAuthorableStructuralPreconditions env db step request with
    | .error _ => .ok (resumePreconditionFailed true step now db)
    | .ok () => resumeApproved env true step now db
  else match assertStructuralResumePreconditions env db step request with
    | .error e => .error (.appError e)
    | .ok () => resumeApproved env false step now db

/-- `ApprovalResumeClaimService.claim`. -/
def resumeClaim (env : ApprovalResumeEnv) (requestId : UUID) (now : Time) (db : Db) :
    Tx ApprovalResumeClaimOutcome :=
  if db.execution.status ≠ .waitingApproval then .ok (⟨false, some "STALE_DELIVERY"⟩, db)
  else match db.approvals.find? requestId with
    | none => .error (.appError (conflict "ApprovalRequest not found for resume."))
    | some request => match db.steps.find? request.stepExecutionId with
      | none => .error (.appError (conflict "ApprovalRequest Step not found on Execution."))
      | some step => resumeRequest env request step now db

end Approval

end McpFlow
