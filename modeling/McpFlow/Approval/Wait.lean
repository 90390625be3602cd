import McpFlow.Approval.StepContext
import McpFlow.Execution.State

/-!
# Entering WAITING_APPROVAL

`ApprovalWaitService`: one PENDING ApprovalRequest is created and the Step and its Execution enter
WAITING_APPROVAL together, without a lease. A Step that already waits with its Execution reuses the
PENDING request; a wait on one side alone is refused.
-/

namespace McpFlow.Approval

open Json (Value)

/-- `ApprovalWaitOutcome`. -/
structure ApprovalWaitOutcome where
  approvalRequestId : UUID
  reusedExisting : Bool
deriving DecidableEq

/-- The `AppError` of a context builder; an exception that is no `AppError` stays one. -/
def ErrorCode.toRaised : ErrorCode → Raised
  | .executionPreconditionFailed =>
    .appError ⟨"EXECUTION_PRECONDITION_FAILED", "Approval context requirements are not met."⟩
  | .resourceConflict => .appError (conflict "Approval context is inconsistent.")
  | .uncaught => .assertionError

/-- `find_pending_for_step`. -/
def findPendingForStep (db : Db) (stepId : UUID) : Option ApprovalRequest :=
  db.approvals.rows.find? fun r =>
    r.executionId = db.execution.id ∧ r.stepExecutionId = stepId ∧ r.status = .pending

/-- `find_pending_for_execution`. -/
def findPendingForExecution (db : Db) : Option ApprovalRequest :=
  db.approvals.rows.find? fun r => r.executionId = db.execution.id ∧ r.status = .pending

/-- `reuse_pending`. -/
def reusePending (db : Db) (step : ExecutionStep) : Except Raised ApprovalWaitOutcome :=
  if (db.execution.status = .waitingApproval) ≠ (step.status = .waitingApproval) then
    .error (.appError (conflict "One-sided WAITING_APPROVAL is inconsistent."))
  else if db.execution.status ≠ .waitingApproval then
    .error (.appError (conflict
      "Approval wait reuse requires Execution and Step WAITING_APPROVAL."))
  else match findPendingForStep db step.id with
    | none => .error (.appError (conflict
        "WAITING_APPROVAL without PENDING ApprovalRequest is inconsistent."))
    | some existing => .ok ⟨existing.id, true⟩

/-- `_apply_waiting_state`. -/
def applyWaitingState (db : Db) (step : ExecutionStep) : Db :=
  (db.putStep { step with status := .waitingApproval }).putExecution
    { db.execution.clearLease with status := .waitingApproval }

/-- The PENDING row that both kinds of wait create. -/
def newPendingApproval (db : Db) (step : ExecutionStep) (policy : ApprovalPolicy) (requestId : UUID)
    (computeCanonicalJsonHash : CanonicalHash) (snapshot : Value) (now : Time) : ApprovalRequest where
  id := requestId
  executionId := db.execution.id
  stepExecutionId := step.id
  status := .pending
  contextSnapshot := snapshot
  contextHash := computeCanonicalJsonHash snapshot
  expiresAt := now + policy.defaultExpirySeconds * 1000000
  resolvedAt := none

/-- `enter_for_tool_step`. -/
def enterForToolStep (computeCanonicalJsonHash : CanonicalHash) (toolPolicy : MCPToolPolicy)
    (approvalPolicy : ApprovalPolicy) (resolvedInput : List (String × Value)) (requestId : UUID)
    (now : Time) (step : ExecutionStep) (db : Db) : Tx ApprovalWaitOutcome :=
  if db.execution.status = .waitingApproval ∨ step.status = .waitingApproval then
    (reusePending db step).map (·, db)
  else if db.execution.status ≠ .running then
    .error (.appError (conflict "Execution must be RUNNING to enter WAITING_APPROVAL."))
  else if step.status ≠ .ready then
    .error (.appError (conflict "TOOL Step must be READY to enter WAITING_APPROVAL."))
  else if toolPolicy.approvalPolicyId ≠ some approvalPolicy.id then
    .error (.appError ⟨"EXECUTION_PRECONDITION_FAILED",
      "ApprovalPolicy id does not match ToolPolicy.approval_policy_id."⟩)
  else match findPendingForStep db step.id with
    | some _ => .error (.appError (conflict
        "PENDING ApprovalRequest already exists while Execution is RUNNING and Step is READY."))
    | none =>
      match buildApprovalContextSnapshot db.execution step toolPolicy approvalPolicy
          resolvedInput with
      | .error e => .error e.toRaised
      | .ok snapshot =>
        match db.insertApproval (newPendingApproval db step approvalPolicy requestId
            computeCanonicalJsonHash snapshot now) with
        | .error e => .error e
        | .ok db => .ok (⟨requestId, false⟩, applyWaitingState db step)

/-- `enter_for_approval_step`. -/
def enterForApprovalStep (computeCanonicalJsonHash : CanonicalHash)
    (approvalPolicy : ApprovalPolicy) (requestId : UUID) (now : Time) (step : ExecutionStep)
    (db : Db) : Tx ApprovalWaitOutcome :=
  if db.execution.status = .waitingApproval ∨ step.status = .waitingApproval then
    (reusePending db step).map (·, db)
  else if db.execution.status ≠ .running then
    .error (.appError (conflict "Execution must be RUNNING to enter WAITING_APPROVAL."))
  else if step.status ≠ .pending ∧ step.status ≠ .ready then
    .error (.appError (conflict "APPROVAL Step must be PENDING or READY to enter WAITING_APPROVAL."))
  else if step.stepType ≠ .approval then
    .error (.appError (conflict "enter_for_approval_step requires APPROVAL Step type."))
  else if approvalPolicy.status ≠ .active then
    .error (.appError ⟨"EXECUTION_PRECONDITION_FAILED",
      "ApprovalPolicy must be ACTIVE for authorable APPROVAL."⟩)
  else match findPendingForStep db step.id with
    | some _ => .error (.appError (conflict ("PENDING ApprovalRequest already exists while "
        ++ "Execution is RUNNING for this APPROVAL Step.")))
    | none =>
      match buildApprovalStepContextSnapshot computeCanonicalJsonHash db.execution step
          db.execution.planSnapshot approvalPolicy db.steps.rows with
      | .error e => .error e.toRaised
      | .ok snapshot =>
        match db.insertApproval (newPendingApproval db step approvalPolicy requestId
            computeCanonicalJsonHash snapshot now) with
        | .error e => .error e
        | .ok db => .ok (⟨requestId, false⟩,
            applyWaitingState db { step with readyAt := step.readyAt.or (some now) })

/-- A reuse needs a wait on both sides. -/
theorem reusePending_ok {db : Db} {step : ExecutionStep} {outcome : ApprovalWaitOutcome}
    (h : reusePending db step = .ok outcome) :
    db.execution.status = .waitingApproval ∧ step.status = .waitingApproval := by
  unfold reusePending at h
  split at h
  · cases h
  next hsides =>
  split at h
  · cases h
  next hwait =>
  have hexec : db.execution.status = .waitingApproval := not_not.mp hwait
  exact ⟨hexec, (not_not.mp hsides).mp hexec⟩

/-- Entering a wait from a READY Step creates the PENDING request and clears the lease. -/
theorem enterForToolStep_ok {hash : CanonicalHash} {toolPolicy : MCPToolPolicy}
    {approvalPolicy : ApprovalPolicy} {resolvedInput : List (String × Value)} {requestId : UUID}
    {now : Time} {step : ExecutionStep} {db db' : Db} {outcome : ApprovalWaitOutcome}
    (hrunning : db.execution.status = .running) (hready : step.status = .ready)
    (h : enterForToolStep hash toolPolicy approvalPolicy resolvedInput requestId now step db =
      .ok (outcome, db')) :
    ∃ snapshot db₁, db.insertApproval (newPendingApproval db step approvalPolicy requestId hash
        snapshot now) = .ok db₁ ∧ db' = applyWaitingState db₁ step := by
  unfold enterForToolStep at h
  rw [if_neg (by simp [hrunning, hready]), if_neg (by simp [hrunning]), if_neg (by simp [hready])] at h
  split at h
  · cases h
  split at h
  · cases h
  split at h
  · cases h
  next snapshot _ =>
  split at h
  · cases h
  next db₁ hinsert =>
  cases h
  exact ⟨snapshot, db₁, hinsert, rfl⟩

/-- An APPROVAL that has not started enters its wait with a new PENDING request, without a lease. -/
theorem enterForApprovalStep_ok {hash : CanonicalHash} {approvalPolicy : ApprovalPolicy}
    {requestId : UUID} {now : Time} {step : ExecutionStep} {db db' : Db}
    {outcome : ApprovalWaitOutcome} (hstep : step.status ≠ .waitingApproval)
    (h : enterForApprovalStep hash approvalPolicy requestId now step db = .ok (outcome, db')) :
    db.execution.status = .running ∧ findPendingForStep db step.id = none ∧ ∃ snapshot db₁,
      buildApprovalStepContextSnapshot hash db.execution step db.execution.planSnapshot
        approvalPolicy db.steps.rows = .ok snapshot ∧
      db.insertApproval (newPendingApproval db step approvalPolicy requestId hash snapshot now) =
        .ok db₁ ∧
      db' = applyWaitingState db₁ { step with readyAt := step.readyAt.or (some now) } := by
  unfold enterForApprovalStep at h
  split at h
  · obtain ⟨result, hreuse, -⟩ : ∃ result, reusePending db step = .ok result ∧
        (result, db) = (outcome, db') := by
      cases hr : reusePending db step with
      | error e =>
        rw [hr] at h
        cases h
      | ok result =>
        rw [hr] at h
        exact ⟨result, rfl, Except.ok.inj h⟩
    exact absurd (reusePending_ok hreuse).2 hstep
  split at h
  · cases h
  next hrunning =>
  split at h
  · cases h
  split at h
  · cases h
  split at h
  · cases h
  split at h
  · cases h
  next hnone =>
  split at h
  · cases h
  next snapshot hsnapshot =>
  split at h
  · cases h
  next db₁ hinsert =>
  cases h
  exact ⟨not_not.mp hrunning, hnone, snapshot, db₁, hsnapshot, hinsert, rfl⟩

end McpFlow.Approval
