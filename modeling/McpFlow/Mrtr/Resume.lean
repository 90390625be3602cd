import McpFlow.Mrtr.Wait

/-!
# The MRTR resume claim

`MrtrResumeClaimService.claim`: a delivered resume message takes a WAITING_INPUT Execution whose
round is answered back to RUNNING under a fresh lease. The Attempt stays STARTED; the runner sends
the next round. A request that does not fit the wait terminalizes the Execution.
-/

namespace McpFlow.Mrtr

/-- `MrtrResumeClaimOutcome`, with what the caller reads. -/
structure ResumeClaimOutcome where
  claimed : Bool
  reason : Option String
deriving DecidableEq

/-- What the claim learns from outside the rows. -/
structure ResumeEnv where
  /-- `assert_resume_attempt_lineage`. -/
  resumeLineage : Except AppError Unit
  /-- The pinned policy and `assert_source_tool_executable`. -/
  executable : Except AppError Unit
  worker : String
  leaseToken : UUID
  leaseSeconds : ℕ

/-- The error code of a failed resume precondition. -/
def resumePreconditionFailed : String := "MRTR_RESUME_PRECONDITION_FAILED"

/-- The statuses that `_terminalize_precondition_failed` leaves alone. -/
def keepsStatus : StepStatus → Bool
  | .failed | .succeeded | .cancelled | .timedOut | .unknownOutcome => true
  | _ => false

/-- `_terminalize_precondition_failed`. -/
def terminalizePreconditionFailed (step : ExecutionStep) (now : Time) (db : Db) : Db :=
  let db := if keepsStatus step.status then db
    else db.putStep { step with
      status := .failed, errorCode := some resumePreconditionFailed, finishedAt := some now }
  if db.execution.status = .waitingInput then
    db.putExecution
      { db.execution.clearLease with
        status := .failed
        errorCode := some resumePreconditionFailed
        finishedAt := some now }
  else db

/-- The refusal after a failed precondition. -/
def preconditionFailed (step : ExecutionStep) (now : Time) (db : Db) : ResumeClaimOutcome × Db :=
  (⟨false, some resumePreconditionFailed⟩, terminalizePreconditionFailed step now db)

/-- The request belongs to the Execution and Step, and is ANSWERED with a payload. -/
def resumableRequest (db : Db) (step : ExecutionStep) (request : McpInputRequest) : Bool :=
  request.executionId == db.execution.id && request.stepExecutionId == step.id &&
    request.status == .answered && request.responsePayload.getD [] != []

/-- The Attempt is STARTED, unfinished and owned by no worker. -/
def resumableAttempt (step : ExecutionStep) (attempt : StepAttempt) : Bool :=
  attempt.status == .started && attempt.stepExecutionId == step.id && attempt.finishedAt.isNone &&
    attempt.workerId.isNone && attempt.leaseExpiresAt.isNone

/-- The ToolCalls of the Attempt are the `round_no` completed rounds before the request. -/
def roundEvidence (db : Db) (attempt : StepAttempt) (request : McpInputRequest) : Bool :=
  let toolCalls := db.listToolCalls attempt.id
  !db.attemptHasStartedToolCall attempt.id &&
    (toolCalls.filter (·.normalizedStatus = .succeeded)).length == request.roundNo &&
    toolCalls.length == request.roundNo

/-- The rows of a successful claim. -/
def applyResume (env : ResumeEnv) (step : ExecutionStep) (attempt : StepAttempt) (now : Time)
    (db : Db) : Db :=
  let execution : Execution :=
    { db.execution.assignLease env.worker env.leaseToken now env.leaseSeconds with
      status := .running
      errorCode := none }
  let db := db.putExecution execution
  let db := db.putStep { step with status := .running, errorCode := none }
  db.putAttempt { attempt with
    workerId := some env.worker, leaseExpiresAt := execution.leaseExpiresAt }

/-- `claim` for the one waiting Step. -/
def claimWaiting (env : ResumeEnv) (requestId : UUID) (now : Time) (step : ExecutionStep)
    (db : Db) : Tx ResumeClaimOutcome :=
  if !db.execution.leaseCleared then
    .error (.appError (conflict "WAITING_INPUT Execution must not retain worker lease fields."))
  else if db.listOpenForStep step.id ≠ [] then
    .error (.appError (conflict "Cannot resume while an OPEN MCPInputRequest exists."))
  else match db.inputRequests.find? requestId with
    | none => .ok (preconditionFailed step now db)
    | some request =>
      if !resumableRequest db step request then .ok (preconditionFailed step now db)
      else match db.attempts.find? request.stepAttemptId with
        | none => .ok (preconditionFailed step now db)
        | some attempt =>
          if !resumableAttempt step attempt then .ok (preconditionFailed step now db)
          else match env.resumeLineage with
            | .error _ => .ok (preconditionFailed step now db)
            | .ok () =>
              if !roundEvidence db attempt request then .ok (preconditionFailed step now db)
              else match env.executable with
                | .error _ => .ok (preconditionFailed step now db)
                | .ok () => .ok (⟨true, none⟩, applyResume env step attempt now db)

/-- `MrtrResumeClaimService.claim`. -/
def claim (env : ResumeEnv) (requestId : UUID) (now : Time) (db : Db) : Tx ResumeClaimOutcome :=
  if db.execution.status ≠ .waitingInput then .ok (⟨false, some "STALE_DELIVERY"⟩, db)
  else match db.steps.rows.filter (·.status = .waitingInput) with
    | [step] => claimWaiting env requestId now step db
    | _ => .error (.appError (conflict "MRTR resume requires exactly one WAITING_INPUT Step."))

/-- A claim is stale, refuses the wait and ends it, or resumes its Attempt. -/
theorem claim_ok {env : ResumeEnv} {requestId : UUID} {outcome : ResumeClaimOutcome} {now : Time}
    {db db' : Db}
    (h : claim env requestId now db = .ok (outcome, db')) :
    (outcome.claimed = false ∧ db' = db ∧ db.execution.status ≠ .waitingInput) ∨
      (db.execution.status = .waitingInput ∧ ∃ step,
        db.steps.rows.filter (·.status = .waitingInput) = [step] ∧
        db.listOpenForStep step.id = [] ∧
        ((outcome.claimed = false ∧ db' = terminalizePreconditionFailed step now db) ∨
          (outcome.claimed = true ∧ ∃ request attempt,
            db.inputRequests.find? requestId = some request ∧
            resumableRequest db step request = true ∧
            db.attempts.find? request.stepAttemptId = some attempt ∧
            resumableAttempt step attempt = true ∧ roundEvidence db attempt request = true ∧
            db' = applyResume env step attempt now db))) := by
  unfold claim at h
  split at h
  · next hwait =>
    cases h
    exact .inl ⟨rfl, rfl, hwait⟩
  next hwait =>
  split at h
  · next step hsteps =>
    refine .inr ⟨not_not.mp hwait, step, hsteps, ?_⟩
    have hfailed (hf : (outcome, db') = preconditionFailed step now db) :
        outcome.claimed = false ∧ db' = terminalizePreconditionFailed step now db := by
      obtain ⟨rfl, rfl⟩ := Prod.mk.inj hf
      exact ⟨rfl, rfl⟩
    unfold claimWaiting at h
    split at h
    · cases h
    split at h
    · cases h
    next hopen =>
    refine ⟨not_not.mp hopen, ?_⟩
    split at h
    · injection h with h
      exact .inl (hfailed h.symm)
    next request hfind =>
    split at h
    · injection h with h
      exact .inl (hfailed h.symm)
    next hrequest =>
    split at h
    · injection h with h
      exact .inl (hfailed h.symm)
    next attempt hattempt =>
    split at h
    · injection h with h
      exact .inl (hfailed h.symm)
    next hresumable =>
    split at h
    · injection h with h
      exact .inl (hfailed h.symm)
    split at h
    · injection h with h
      exact .inl (hfailed h.symm)
    next hevidence =>
    split at h
    · injection h with h
      exact .inl (hfailed h.symm)
    · cases h
      refine .inr ⟨rfl, request, attempt, hfind, ?_, hattempt, ?_, ?_, rfl⟩
      · simpa using hrequest
      · simpa using hresumable
      · simpa using hevidence
  · cases h

end McpFlow.Mrtr
