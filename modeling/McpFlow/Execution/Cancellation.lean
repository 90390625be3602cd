import McpFlow.Execution.State

/-!
# Cooperative cancellation

`apply_cancellation_locked` and the reconcile, prepared-call and recovery transitions that finish
a requested cancellation. Each runs under the Execution lock. The clean-up of Steps visits them
one after another, and what it does to one of them depends on rows that it does not change before
it gets there, so it is written as one rewriting of the Step and Attempt tables.
-/

namespace McpFlow

/-- `CancellationMode`. -/
inductive CancellationMode where
  | idempotent
  | immediate
  | requested
  | reconciled
deriving DecidableEq, Repr

/-- `CancellationOutcome`. -/
structure CancellationOutcome where
  status : ExecutionStatus
  cancelRequestedAt : Option Time
  finishedAt : Option Time
  mode : CancellationMode
deriving DecidableEq, Repr

/-- `_outcome`. -/
def cancellationOutcome (e : Execution) (mode : CancellationMode) : CancellationOutcome :=
  ⟨e.status, e.cancelRequestedAt, e.finishedAt, mode⟩

/-- `cancellation_is_requested`. -/
def Execution.cancellationIsRequested (e : Execution) : Bool :=
  e.status == .cancelRequested || e.cancelRequestedAt.isSome

/-- `_cancel_step`. -/
def ExecutionStep.cancel (s : ExecutionStep) (now : Time) : ExecutionStep :=
  if s.status.isTerminal then s
  else { s with status := .cancelled, finishedAt := some now, errorCode := none }

/-- `_cancel_attempt`. -/
def StepAttempt.cancel (a : StepAttempt) (now : Time) : StepAttempt :=
  if a.status ≠ .started then a
  else
    { a with
      status := .cancelled
      finishedAt := some now
      workerId := none
      leaseExpiresAt := none
      errorCode := none }

@[simp] theorem ExecutionStep.id_cancel (s : ExecutionStep) (now : Time) :
    (s.cancel now).id = s.id := by
  unfold cancel
  split <;> rfl

theorem ExecutionStep.isTerminal_cancel (s : ExecutionStep) (now : Time) :
    (s.cancel now).status.isTerminal = true := by
  unfold cancel
  split
  · assumption
  · rfl

@[simp] theorem StepAttempt.id_cancel (a : StepAttempt) (now : Time) :
    (a.cancel now).id = a.id := by
  unfold cancel
  split <;> rfl

@[simp] theorem StepAttempt.stepExecutionId_cancel (a : StepAttempt) (now : Time) :
    (a.cancel now).stepExecutionId = a.stepExecutionId := by
  unfold cancel
  split <;> rfl

theorem StepAttempt.status_cancel_ne (a : StepAttempt) (now : Time) :
    (a.cancel now).status ≠ .started := by
  unfold cancel
  split
  · assumption
  · simp

/-- The row of `_cancel_pending_approvals`. -/
def ApprovalRequest.cancelPending (r : ApprovalRequest) (now : Time) : ApprovalRequest :=
  if r.status = .pending then { r with status := .cancelled, resolvedAt := some now } else r

/-- The row of `_reject_open_mrtr_requests`. -/
def McpInputRequest.rejectOpen (r : McpInputRequest) (now : Time) (answeredBy : Option UUID) :
    McpInputRequest :=
  if r.status = .open then
    { r with
      status := .rejected
      answeredAt := some now
      answeredBy := answeredBy
      responsePayload := none }
  else r

@[simp] theorem ApprovalRequest.id_cancelPending (r : ApprovalRequest) (now : Time) :
    (r.cancelPending now).id = r.id := by
  unfold cancelPending
  split <;> rfl

theorem ApprovalRequest.status_cancelPending_ne (r : ApprovalRequest) (now : Time) :
    (r.cancelPending now).status ≠ .pending := by
  unfold cancelPending
  split
  · simp
  · assumption

@[simp] theorem McpInputRequest.id_rejectOpen (r : McpInputRequest) (now : Time)
    (answeredBy : Option UUID) : (r.rejectOpen now answeredBy).id = r.id := by
  unfold rejectOpen
  split <;> rfl

theorem McpInputRequest.status_rejectOpen_ne (r : McpInputRequest) (now : Time)
    (answeredBy : Option UUID) : (r.rejectOpen now answeredBy).status ≠ .open := by
  unfold rejectOpen
  split
  · simp
  · assumption

theorem McpInputRequest.rejectOpen_of_ne {r : McpInputRequest} (h : r.status ≠ .open) (now : Time)
    (answeredBy : Option UUID) : r.rejectOpen now answeredBy = r :=
  if_neg h

namespace Db

/-- `_cancel_pending_approvals`. -/
def cancelPendingApprovals (db : Db) (now : Time) : Db :=
  { db with approvals := db.approvals.mapRows (·.cancelPending now) fun r => r.id_cancelPending now }

/-- `_reject_open_mrtr_requests`. -/
def rejectOpenMrtrRequests (db : Db) (now : Time) (answeredBy : Option UUID) : Db :=
  { db with
    inputRequests := db.inputRequests.mapRows (·.rejectOpen now answeredBy)
      fun r => r.id_rejectOpen now answeredBy }

/-- The clean-up skips the Step: it is preserved, terminal, or RUNNING with a call in flight. -/
def cleanupSkips (db : Db) (preserve : List UUID) (s : ExecutionStep) : Bool :=
  preserve.contains s.id || s.status.isTerminal ||
    (s.status == .running && db.stepHasStartedToolCall s.id)

/-- `_cancel_started_attempts_without_inflight_tool_call` reaches the Attempt: its Step is not
skipped and is RUNNING or waiting, and the Attempt has no call in flight. -/
def cleanupCancelsAttempt (db : Db) (preserve : List UUID) (a : StepAttempt) : Bool :=
  db.steps.rows.any fun s => s.id == a.stepExecutionId && !db.cleanupSkips preserve s &&
    (s.status == .running || s.status == .waitingInput || s.status == .waitingApproval) &&
    !db.attemptHasStartedToolCall a.id

/-- `_cancel_safe_nonterminal_steps`. -/
def cancelSafeNonterminalSteps (db : Db) (now : Time) (preserve : List UUID) : Db :=
  { db with
    steps := db.steps.mapRows
      (fun s => if db.cleanupSkips preserve s then s else s.cancel now)
      fun s => by split <;> simp
    attempts := db.attempts.mapRows
      (fun a => if db.cleanupCancelsAttempt preserve a then a.cancel now else a)
      fun a => by split <;> simp }

/-- The clean-up that every cancelling transition makes. -/
def cancelOpenWork (db : Db) (now : Time) (answeredBy : Option UUID) (preserve : List UUID) : Db :=
  ((db.cancelPendingApprovals now).rejectOpenMrtrRequests now answeredBy).cancelSafeNonterminalSteps
    now preserve

/-- `_finalize_cancelled`. -/
def finalizeCancelled (db : Db) (now : Time) : Db :=
  db.putExecution
    { db.execution.clearLease with
      status := .cancelled
      finishedAt := some now
      errorCode := none }

section CleanUp

variable (db : Db) (now : Time) (answeredBy : Option UUID) (preserve : List UUID)

@[simp] theorem execution_cancelOpenWork :
    (db.cancelOpenWork now answeredBy preserve).execution = db.execution := rfl

@[simp] theorem toolCalls_cancelOpenWork :
    (db.cancelOpenWork now answeredBy preserve).toolCalls = db.toolCalls := rfl

theorem steps_cancelOpenWork :
    (db.cancelOpenWork now answeredBy preserve).steps = db.steps.mapRows
      (fun s => if db.cleanupSkips preserve s then s else s.cancel now)
      fun s => by split <;> simp := rfl

theorem attempts_cancelOpenWork :
    (db.cancelOpenWork now answeredBy preserve).attempts = db.attempts.mapRows
      (fun a => if db.cleanupCancelsAttempt preserve a then a.cancel now else a)
      fun a => by split <;> simp := rfl

theorem approvals_cancelOpenWork :
    (db.cancelOpenWork now answeredBy preserve).approvals =
      db.approvals.mapRows (·.cancelPending now) fun r => r.id_cancelPending now := rfl

theorem inputRequests_cancelOpenWork :
    (db.cancelOpenWork now answeredBy preserve).inputRequests =
      db.inputRequests.mapRows (·.rejectOpen now answeredBy)
        fun r => r.id_rejectOpen now answeredBy := rfl

/-- No ApprovalRequest is PENDING after the clean-up. -/
theorem cancelOpenWork_approvals {r : ApprovalRequest}
    (hr : r ∈ (db.cancelOpenWork now answeredBy preserve).approvals) : r.status ≠ .pending := by
  rw [approvals_cancelOpenWork] at hr
  obtain ⟨r', -, rfl⟩ := Table.mem_mapRows.mp hr
  exact r'.status_cancelPending_ne now

/-- No MCPInputRequest is OPEN after the clean-up. -/
theorem cancelOpenWork_inputRequests {r : McpInputRequest}
    (hr : r ∈ (db.cancelOpenWork now answeredBy preserve).inputRequests) : r.status ≠ .open := by
  rw [inputRequests_cancelOpenWork] at hr
  obtain ⟨r', -, rfl⟩ := Table.mem_mapRows.mp hr
  exact r'.status_rejectOpen_ne now answeredBy

end CleanUp

end Db

/-- `_set_cancel_metadata_once`. -/
def Execution.setCancelMetadataOnce (e : Execution) (now : Time) (requestedBy : Option UUID) :
    Execution :=
  if e.cancelRequestedAt.isSome then e
  else { e with cancelRequestedAt := some now, cancelRequestedBy := requestedBy }

/-- `reconcile_cancel_requested_locked`. -/
def reconcileCancelRequested (now : Time) (db : Db) : Tx CancellationOutcome :=
  if db.execution.status = .cancelled ∨ db.execution.status = .failed then
    .ok (cancellationOutcome db.execution .idempotent, db)
  else if db.execution.status ≠ .cancelRequested then
    .error (.appError (conflict "Execution is not CANCEL_REQUESTED."))
  else if db.listStartedToolCalls ≠ [] then
    .ok (cancellationOutcome db.execution .requested, db)
  else
    let cleaned := db.cancelOpenWork now db.execution.cancelRequestedBy []
    match db.steps.rows.find? fun s => s.status = .unknownOutcome with
    | some cause =>
      let failed := cleaned.putExecution
        { db.execution.clearLease with
          status := .failed
          finishedAt := some now
          errorCode := cause.errorCode }
      .ok (cancellationOutcome failed.execution .reconciled, failed)
    | none =>
      let cancelled := cleaned.finalizeCancelled now
      .ok (cancellationOutcome cancelled.execution .reconciled, cancelled)

/-- The statuses in which a cancellation never waits for a call in flight. -/
def ExecutionStatus.cancelsImmediately : ExecutionStatus → Bool
  | .created | .queued | .waitingApproval | .waitingInput => true
  | _ => false

/-- The RUNNING Steps with a call in flight. -/
def Db.inflightStepIds (db : Db) : List UUID :=
  (db.steps.rows.filter fun s => s.status == .running && db.stepHasStartedToolCall s.id).map (·.id)

/-- `apply_cancellation_locked`. -/
def applyCancellation (now : Time) (requestedBy : Option UUID) (db : Db) : Tx CancellationOutcome :=
  if db.execution.status = .cancelled ∨ db.execution.status = .cancelRequested then
    .ok (cancellationOutcome db.execution .idempotent, db)
  else if db.execution.status.isTerminal then
    .error (.appError (conflict "Terminal Execution cannot be cancelled."))
  else
    let marked := db.putExecution (db.execution.setCancelMetadataOnce now requestedBy)
    if db.execution.status.cancelsImmediately ∨ db.listStartedToolCalls = [] then
      let cancelled := (marked.cancelOpenWork now requestedBy []).finalizeCancelled now
      .ok (cancellationOutcome cancelled.execution .immediate, cancelled)
    else
      let cleaned := marked.cancelOpenWork now requestedBy db.inflightStepIds
      let requested := cleaned.putExecution { cleaned.execution with status := .cancelRequested }
      .ok (cancellationOutcome requested.execution .requested, requested)

/-- The Execution is moved to CANCEL_REQUESTED by the owner of a call that meets a cancellation. -/
def Db.ensureCancelRequested (db : Db) (now : Time) : Db :=
  if db.execution.status = .cancelRequested then db
  else
    db.putExecution
      { db.execution with
        status := .cancelRequested
        cancelRequestedAt := db.execution.cancelRequestedAt.or (some now) }

/-- `cancel_prepared_invocation_before_send`. -/
def cancelPreparedInvocationBeforeSend (step : ExecutionStep) (attempt : StepAttempt)
    (toolCall : ToolCall) (now : Time) (db : Db) : Tx CancellationOutcome :=
  let db := if toolCall.normalizedStatus = .started then
      db.putToolCall { toolCall with normalizedStatus := .cancelled, finishedAt := some now }
    else db
  let db := (db.putAttempt (attempt.cancel now)).putStep (step.cancel now)
  reconcileCancelRequested now (db.ensureCancelRequested now)

/-- `settle_input_required_after_cancel_locked`. -/
def settleInputRequiredAfterCancel (step : ExecutionStep) (attempt : StepAttempt)
    (toolCall : ToolCall) (now : Time) (db : Db) : Tx CancellationOutcome :=
  let db := db.putToolCall { toolCall with normalizedStatus := .succeeded, finishedAt := some now }
  let db := (db.putAttempt (attempt.cancel now)).putStep (step.cancel now)
  reconcileCancelRequested now (db.ensureCancelRequested now)

/-! ### Recovery of an expired cancellation -/

/-- `_ERROR_CODE_CANCEL_RECOVERY_UNKNOWN`. -/
def cancelRecoveryUnknownOutcome : String := "CANCEL_RECOVERY_UNKNOWN_OUTCOME"

/-- An Attempt whose call may have crossed the send boundary. -/
def StepAttempt.markRecoveryUnknown (a : StepAttempt) (code : String) (now : Time) : StepAttempt :=
  { a with
    status := .unknownOutcome
    errorCode := some code
    isRetryable := some false
    finishedAt := some now
    workerId := none
    leaseExpiresAt := none }

/-- Case B: every STARTED ToolCall, its Attempt and its nonterminal Step become
UNKNOWN_OUTCOME. -/
def Db.settleStartedCallsUnknown (db : Db) (now : Time) : Db :=
  { db with
    toolCalls := db.toolCalls.mapRows
      (fun c => if c.normalizedStatus = .started then
        { c with normalizedStatus := .unknownOutcome, finishedAt := some now } else c)
      fun c => by split <;> rfl
    attempts := db.attempts.mapRows
      (fun a => if db.attemptHasStartedToolCall a.id then
        a.markRecoveryUnknown cancelRecoveryUnknownOutcome now else a)
      fun a => by split <;> rfl
    steps := db.steps.mapRows
      (fun s => if db.stepHasStartedToolCall s.id ∧ ¬ s.status.isTerminal then
        { s with
          status := .unknownOutcome
          errorCode := some cancelRecoveryUnknownOutcome
          finishedAt := some now } else s)
      fun s => by split <;> rfl }

/-- A ToolCall of the Attempt is UNKNOWN_OUTCOME. -/
def Db.attemptHasUnknownToolCall (db : Db) (attemptId : UUID) : Bool :=
  db.toolCalls.rows.any fun c => c.stepAttemptId = attemptId ∧ c.normalizedStatus = .unknownOutcome

/-- The Attempt carries durable UNKNOWN_OUTCOME evidence and no call in flight. -/
def Db.attemptUnknownEvidence (db : Db) (a : StepAttempt) : Bool :=
  !db.attemptHasStartedToolCall a.id &&
    (a.status == .unknownOutcome || db.attemptHasUnknownToolCall a.id)

/-- The scan for UNKNOWN_OUTCOME evidence over the whole Execution: it lifts STARTED Attempts with
an UNKNOWN ToolCall, and the Step of every Attempt with such evidence. -/
def Db.promoteUnknownEvidence (db : Db) (now : Time) : Db :=
  { db with
    attempts := db.attempts.mapRows
      (fun a => if db.attemptUnknownEvidence a ∧ a.status = .started ∧
          db.attemptHasUnknownToolCall a.id then
        a.markRecoveryUnknown (a.errorCode.getD cancelRecoveryUnknownOutcome) now else a)
      fun a => by split <;> rfl
    steps := db.steps.mapRows
      (fun s => if (db.listAttempts s.id).any db.attemptUnknownEvidence ∧
          s.status ≠ .unknownOutcome then
        { s with
          status := .unknownOutcome
          errorCode := s.errorCode.or (some cancelRecoveryUnknownOutcome)
          finishedAt := s.finishedAt.or (some now) } else s)
      fun s => by split <;> rfl }

/-- `recover_expired_cancel_requested_locked`. -/
def recoverExpiredCancelRequested (now : Time) (db : Db) : Tx CancellationOutcome :=
  if db.execution.status = .cancelled ∨ db.execution.status = .failed then
    .ok (cancellationOutcome db.execution .idempotent, db)
  else if db.execution.status ≠ .cancelRequested then
    .error (.appError (conflict "Execution is not CANCEL_REQUESTED."))
  else
    reconcileCancelRequested now ((db.settleStartedCallsUnknown now).promoteUnknownEvidence now)

/-! ### What a cancelling transition leaves behind -/

/-- A reconcile that returns either changed nothing, or terminalized a CANCEL_REQUESTED Execution
without a call in flight. -/
theorem reconcileCancelRequested_ok {now : Time} {db db' : Db} {outcome : CancellationOutcome}
    (h : reconcileCancelRequested now db = .ok (outcome, db')) :
    outcome.status = db'.execution.status ∧
      ((db' = db ∧ (db.execution.status = .cancelled ∨ db.execution.status = .failed ∨
          (db.execution.status = .cancelRequested ∧ db.listStartedToolCalls ≠ []))) ∨
        (db.execution.status = .cancelRequested ∧ db.listStartedToolCalls = [] ∧
          ∃ e : Execution, db' = (db.cancelOpenWork now db.execution.cancelRequestedBy
              []).putExecution e ∧
            (e.status = .cancelled ∨ e.status = .failed) ∧ e.leaseCleared = true)) := by
  unfold reconcileCancelRequested at h
  split at h
  · next hs =>
    cases h
    exact ⟨rfl, .inl ⟨rfl, hs.elim .inl fun hf => .inr (.inl hf)⟩⟩
  split at h
  · cases h
  next hreq =>
  simp only [ne_eq, Decidable.not_not] at hreq
  split at h
  · next hcalls =>
    cases h
    exact ⟨rfl, .inl ⟨rfl, .inr (.inr ⟨hreq, hcalls⟩)⟩⟩
  · next hcalls =>
    simp only [ne_eq, Decidable.not_not] at hcalls
    dsimp only at h
    split at h
    · cases h
      exact ⟨rfl, .inr ⟨hreq, hcalls, _, rfl, .inr rfl, rfl⟩⟩
    · cases h
      exact ⟨rfl, .inr ⟨hreq, hcalls, _, rfl, .inl rfl, rfl⟩⟩

end McpFlow
