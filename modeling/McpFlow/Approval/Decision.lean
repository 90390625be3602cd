import McpFlow.Approval.Evidence
import McpFlow.Execution.LoopReconcile

/-!
# Approval decision and expiry

`ApprovalDecisionService.decide` and the expiry sweep. An approval leaves the Execution waiting for
its resume message; a rejection or an expiry fails the Step and its Execution. The decision rows and
the users live outside the rows of the Execution: what they say is a verdict of `DecisionEnv`.
-/

namespace McpFlow.Approval

/-- A decision that resolves its request. -/
inductive Resolution where
  | approved
  | rejected
deriving DecidableEq, Repr

/-- What a decision learns from outside the rows. -/
structure DecisionEnv where
  /-- The actor is ACTIVE and may decide. -/
  actorAuthorized : Except AppError Unit
  /-- Approver scope, current context, self approval, reject comment, no earlier decision. -/
  decisionAllowed : Except AppError Unit
  /-- `aggregate_decision` over the decisions with the new one. -/
  aggregateDecision : Except AppError (Option Resolution)

/-- `ApprovalDecisionOutcome`, with what the caller reads. -/
structure ApprovalDecisionOutcome where
  approvalStatus : ApprovalStatus
  resumeEnqueued : Bool
deriving DecidableEq

/-- The waiting Step fails with its Execution. Only an authorable APPROVAL stops the Steps that have
not started. -/
def failWaitingStep (authorable : Bool) (step : ExecutionStep) (errorCode : String) (now : Time)
    (db : Db) : Db :=
  let db := db.putStep { step with
    status := .failed, errorCode := some errorCode, finishedAt := some now }
  let db := if authorable && decide (1 < db.steps.rows.length) then db.stopUnstartedSteps now else db
  db.terminateExecution .failed (some errorCode) now

/-- `_terminalize_expired`, and the sweep of one request. -/
def terminalizeExpired (request : ApprovalRequest) (step : ExecutionStep) (now : Time) (db : Db) :
    Db :=
  failWaitingStep (isAuthorableStepContext request.contextSnapshot) step "APPROVAL_EXPIRED" now
    (db.putApproval { request with status := .expired, resolvedAt := some now })

/-- The Execution and the Step wait for an approval. -/
def waitsForApproval (db : Db) (step : ExecutionStep) : Bool :=
  db.execution.status == .waitingApproval && step.status == .waitingApproval

/-- `decide` on a PENDING request that has not expired. -/
def decidePending (env : DecisionEnv) (request : ApprovalRequest) (step : ExecutionStep) (now : Time)
    (db : Db) : Tx ApprovalDecisionOutcome :=
  if !waitsForApproval db step then
    .error (.appError (conflict
      "Approval decision requires Execution and Step WAITING_APPROVAL."))
  else match env.decisionAllowed with
    | .error e => .error (.appError e)
    | .ok () => match env.aggregateDecision with
      | .error e => .error (.appError e)
      | .ok none => .ok (⟨.pending, false⟩, db)
      | .ok (some .approved) =>
        .ok (⟨.approved, true⟩,
          db.putApproval { request with status := .approved, resolvedAt := some now })
      | .ok (some .rejected) =>
        .ok (⟨.rejected, false⟩,
          failWaitingStep (isAuthorableStepContext request.contextSnapshot) step
            "APPROVAL_REJECTED" now
            (db.putApproval { request with status := .rejected, resolvedAt := some now }))

/-- `decide`. The expiry of a PENDING request is committed before the error is raised, whatever its
Execution and Step are. -/
def decideApproval (env : DecisionEnv) (requestId : UUID) (now : Time) (db : Db) :
    Except Raised (Except AppError ApprovalDecisionOutcome × Db) :=
  match db.approvals.find? requestId with
  | none => .error (.appError ⟨"RESOURCE_NOT_FOUND", "ApprovalRequest not found."⟩)
  | some request => match db.steps.find? request.stepExecutionId with
    | none => .error (.appError (conflict "ApprovalRequest Step lineage is inconsistent."))
    | some step => match env.actorAuthorized with
      | .error e => .error (.appError e)
      | .ok () =>
        if request.status ≠ .pending then
          .error (.appError (conflict "ApprovalRequest is not PENDING."))
        else if request.expiresAt ≤ now then
          .ok (.error ⟨"APPROVAL_EXPIRED", "ApprovalRequest has expired."⟩,
            terminalizeExpired request step now db)
        else match decidePending env request step now db with
          | .error e => .error e
          | .ok (outcome, db) => .ok (.ok outcome, db)

/-- `expire_due_batch` at one request of the Execution. -/
def expireRequest (requestId : UUID) (now : Time) (db : Db) : Db :=
  match db.approvals.find? requestId with
  | none => db
  | some request => match db.steps.find? request.stepExecutionId with
    | none => db
    | some step =>
      if request.status = .pending ∧ request.expiresAt ≤ now ∧ waitsForApproval db step = true then
        terminalizeExpired request step now db
      else db

end McpFlow.Approval
