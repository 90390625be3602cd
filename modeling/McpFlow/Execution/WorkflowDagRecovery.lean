import McpFlow.Execution.LoopRecovery
import McpFlow.Execution.RetryDecision

/-!
# Recovery of a Workflow DAG

`WorkflowDagRecovery.recover` on an expired RUNNING Execution: every Step is classified from its
persisted rows, and the whole Execution is either failed or taken over under a fresh lease.
-/

namespace McpFlow

/-- What a recovery learns from outside the rows. -/
structure RecoveryEnv where
  runtime : RuntimeEnv
  /-- `assert_workflow_schedule_recovery_source_lineage`. -/
  sourceLineage : Except AppError Unit
  /-- The lineage of a TOOL Step, and the risk class and attempts of its pinned policy. -/
  toolPolicy : ExecutionStep → Except AppError (RiskClass × ℕ)
  /-- `assert_resume_attempt_lineage`. -/
  resumeLineage : ExecutionStep → StepAttempt → Except AppError Unit
  /-- `agent_request_id` and `plan_validation_run_id` are set. -/
  agentRequestPinned : Bool
  worker : String
  leaseToken : UUID
  leaseSeconds : ℕ

/-- `RecoveryDecision`. -/
inductive RecoveryDecision where
  | noOp
  | takeoverReady
  | resumeAttempt
  | safeRetry
  | failExhausted
  | unknownOutcome
  | failInconsistent
  | cancelReconciled
deriving DecidableEq, Repr

/-- `RecoveryOutcome`, with what the caller reads. -/
structure RecoveryOutcome where
  decision : RecoveryDecision
  takenOver : Bool
  invokeRunner : Bool
deriving DecidableEq, Repr

/-- `_ERROR_CODE_LEASE_EXPIRED`. -/
def workerLeaseExpired : String := "WORKER_LEASE_EXPIRED"

/-- `_ERROR_CODE_INCONSISTENT`. -/
def recoveryInconsistentEvidence : String := "RECOVERY_INCONSISTENT_EVIDENCE"

/-! ### Classification -/

/-- `ToolStepClassification`, by its kind. -/
inductive ToolStepClassification where
  | ready
  | resume (attempt : StepAttempt)
  | safeRetry (attempt : StepAttempt) (toolCall : ToolCall)
  | failExhausted (onError : PlanOnError) (attempt : StepAttempt) (toolCall : ToolCall)
  | fatalUnknown
  | terminalOk
  | local
deriving DecidableEq

/-- `_step_has_unknown_child`. -/
def Db.stepHasUnknownChild (db : Db) (stepId : UUID) : Bool :=
  (db.listAttempts stepId).any fun a => a.status == .unknownOutcome ||
    (db.listToolCalls a.id).any (·.normalizedStatus == .unknownOutcome)

/-- A STARTED Attempt or a call in flight under a Step that has none. -/
def Db.stepHasStartedWork (db : Db) (stepId : UUID) : Bool :=
  (db.listAttempts stepId).any (·.status == .started) || db.stepHasStartedToolCall stepId

/-- A STARTED Attempt without a call in flight is resumed, if it made no call. -/
def classifyResume (env : RecoveryEnv) (db : Db) (step : ExecutionStep) (attempt : StepAttempt) :
    Except AppError ToolStepClassification := do
  assertThat (db.listToolCalls attempt.id).isEmpty
    "Attempt has non-STARTED ToolCall evidence only."
  env.resumeLineage step attempt
  return .resume attempt

/-- A call in flight is retried, exhausted or unknown by the risk class of its TOOL. -/
def classifyStartedCall (step : ExecutionStep) (onError : PlanOnError) (risk : RiskClass)
    (maxAttempts : ℕ) (attempt : StepAttempt) (toolCall : ToolCall) :
    Except AppError ToolStepClassification := do
  assertThat (step.mcpToolVersionId == some toolCall.mcpToolVersionId)
    "ToolCall ToolVersion lineage mismatch."
  if !risk.isSafe then return .fatalUnknown
  else if canSafeRetry step.attemptCount maxAttempts then return .safeRetry attempt toolCall
  else return .failExhausted onError attempt toolCall

/-- The RUNNING case of `_classify_step`. -/
def classifyRunningTool (env : RecoveryEnv) (db : Db) (step : ExecutionStep) (onError : PlanOnError)
    (risk : RiskClass) (maxAttempts : ℕ) : Except AppError ToolStepClassification :=
  match (db.listAttempts step.id).filter (·.status = .started) with
  | [] => .error (conflict "RUNNING TOOL Step has no STARTED Attempt.")
  | [attempt] =>
    let toolCalls := db.listToolCalls attempt.id
    if toolCalls.any (·.normalizedStatus == .unknownOutcome) then .ok .fatalUnknown
    else match toolCalls.filter (·.normalizedStatus = .started) with
      | [] => classifyResume env db step attempt
      | [toolCall] => classifyStartedCall step onError risk maxAttempts attempt toolCall
      | _ => .error (conflict "STARTED Attempt has multiple STARTED ToolCalls.")
  | _ => .error (conflict "RUNNING TOOL Step has multiple STARTED Attempts.")

/-- The READY case of `_classify_step`, over the Attempts in order. -/
def classifyReadyTool (db : Db) : List StepAttempt → Except AppError ToolStepClassification
  | [] => .ok .ready
  | attempt :: attempts =>
    if db.attemptHasStartedToolCall attempt.id then
      .error (conflict "READY TOOL Step has STARTED ToolCall evidence.")
    else if (db.listToolCalls attempt.id).any (·.normalizedStatus == .unknownOutcome) then
      .ok .fatalUnknown
    else classifyReadyTool db attempts

/-- The READY and RUNNING cases of `_classify_step`. -/
def classifyActiveTool (env : RecoveryEnv) (db : Db) (step : ExecutionStep) :
    Except AppError ToolStepClassification := do
  let planStep ← runtimePlanStep db.execution.planSnapshot step
  let (risk, maxAttempts) ← env.toolPolicy step
  if step.status = .ready then
    let attempts := db.listAttempts step.id
    assertThat (!attempts.any (·.status == .started)) "READY TOOL Step has STARTED Attempt."
    classifyReadyTool db attempts
  else
    assertThat (step.status == .running) "TOOL Step status is not recoverable."
    classifyRunningTool env db step planStep.onError risk maxAttempts

/-- `_classify_step`. -/
def classifyStep (env : RecoveryEnv) (db : Db) (step : ExecutionStep) :
    Except AppError ToolStepClassification :=
  if step.status = .unknownOutcome then .ok .fatalUnknown
  else if step.stepType ≠ .tool then
    .ok (if step.status.isTerminal then .terminalOk else .local)
  else if step.status.isTerminal then
    .ok (if db.stepHasUnknownChild step.id then .fatalUnknown else .terminalOk)
  else if step.status = .pending then
    if db.stepHasUnknownChild step.id then .ok .fatalUnknown
    else if db.stepHasStartedWork step.id then
      .error (conflict "PENDING TOOL Step has STARTED evidence.")
    else .ok .local
  else classifyActiveTool env db step

/-- The steps in the order in which they are classified. -/
def stepsByKey (db : Db) : List ExecutionStep :=
  db.steps.rows.insertionSort fun a b => a.stepKey ≤ b.stepKey

/-- The checks of `recover` and the classification of every Step. -/
def classifySteps (env : RecoveryEnv) (db : Db) :
    Except AppError (List (ExecutionStep × ToolStepClassification)) := do
  env.sourceLineage
  env.runtime.planLineage
  if planHasLoop db.execution.planSnapshot then
    let ownership ← assertLoopRecoveryOwnership db.execution.planSnapshot
    assertExecutionLoopRecoveryCheckpoints env.runtime ownership db
  else
    assertThat (db.steps.rows.all (·.stepType != .loop))
      "Unsupported Step type for Workflow RUNNING recovery."
  assertThat (db.steps.rows.all fun s =>
      s.status != .waitingApproval && s.status != .waitingInput)
    "Lease-free waits are not RUNNING recovery candidates."
  (stepsByKey db).mapM fun step => do
    let classification ← classifyStep env db step
    return (step, classification)

/-! ### Failing closed -/

/-- An Attempt with a call in flight is UNKNOWN_OUTCOME. -/
def StepAttempt.failClosedUnknown (a : StepAttempt) (errorCode : String) (now : Time) :
    StepAttempt :=
  { a with
    status := .unknownOutcome
    errorCode := some errorCode
    isRetryable := some false
    finishedAt := a.finishedAt.or (some now)
    workerId := none
    leaseExpiresAt := none }

/-- A call in flight is UNKNOWN_OUTCOME. -/
def ToolCall.markUnknown (c : ToolCall) (now : Time) : ToolCall :=
  if c.normalizedStatus = .started then
    { c with normalizedStatus := .unknownOutcome, finishedAt := some now }
  else c

theorem ToolCall.id_markUnknown (now : Time) (c : ToolCall) : (c.markUnknown now).id = c.id := by
  unfold markUnknown
  split <;> rfl

/-- Every call in flight of the Execution's Steps becomes UNKNOWN_OUTCOME with its Attempt. -/
def Db.upgradeStartedToolCalls (db : Db) (errorCode : String) (now : Time) : Db :=
  { db with
    toolCalls := db.toolCalls.mapRows (·.markUnknown now) fun c => by
      unfold ToolCall.markUnknown
      split <;> rfl
    attempts := db.attempts.mapRows
      (fun a => if db.attemptHasStartedToolCall a.id then a.failClosedUnknown errorCode now else a)
      fun a => by split <;> rfl }

/-- The row of a Step that `_fail_closed` ends. A terminal Step becomes UNKNOWN_OUTCOME too when
its rows say so. -/
def ExecutionStep.failClosed (s : ExecutionStep) (unknown : Bool) (errorCode : String) (now : Time) :
    ExecutionStep :=
  if s.status.isTerminal then
    if s.status ≠ .unknownOutcome ∧ unknown then
      { s with
        status := .unknownOutcome
        errorCode := some errorCode
        finishedAt := s.finishedAt.or (some now) }
    else s
  else
    { s with
      status := if unknown then .unknownOutcome else .failed
      errorCode := some errorCode
      finishedAt := some now }

@[simp] theorem ExecutionStep.id_failClosed (s : ExecutionStep) (unknown : Bool)
    (errorCode : String) (now : Time) : (s.failClosed unknown errorCode now).id = s.id := by
  unfold failClosed
  split
  · split <;> rfl
  · rfl

/-- `_fail_closed`; `preferred` are the Steps classified as fatal. -/
def Db.failClosed (db : Db) (preferred : List UUID) (errorCode : String) (now : Time) : Db :=
  let upgraded := db.upgradeStartedToolCalls errorCode now
  let ended : Db :=
    { upgraded with
      steps := upgraded.steps.mapRows
        (fun s => s.failClosed (preferred.contains s.id || upgraded.stepHasUnknownChild s.id)
          errorCode now)
        fun s => by simp }
  (ended.stopUnstartedSteps now).terminateExecution .failed (some errorCode) now

/-! ### Taking over -/

/-- `_terminalize_orphan_attempt_tool_call`. -/
def terminalizeOrphan (attempt : StepAttempt) (toolCall : ToolCall) (terminal : StepAttemptStatus)
    (isRetryable : Bool) (now : Time) (db : Db) : Db :=
  (db.putToolCall { toolCall with normalizedStatus := terminal, finishedAt := some now }).putAttempt
    { attempt with
      status := terminal
      errorCode := some workerLeaseExpired
      isRetryable := some isRetryable
      finishedAt := some now }

/-- `_apply_safe_retry`. -/
def applySafeRetry (step : ExecutionStep) (attempt : StepAttempt) (toolCall : ToolCall) (now : Time)
    (db : Db) : Db :=
  (terminalizeOrphan attempt toolCall .failed true now db).putStep
    { step with status := .ready, errorCode := none, finishedAt := none }

/-- `_apply_fail_exhausted`. -/
def applyFailExhausted (step : ExecutionStep) (attempt : StepAttempt) (toolCall : ToolCall)
    (now : Time) (db : Db) : Db :=
  (terminalizeOrphan attempt toolCall .failed false now db).putStep
    { step with
      status := .failed, errorCode := some workerLeaseExpired, finishedAt := some now }

/-- The writes of one classified Step before the takeover; `retry` also for its safe retry. -/
def applyClassification (retry : Bool) (now : Time) (db : Db) :
    ExecutionStep × ToolStepClassification → Db
  | (step, .failExhausted _ attempt toolCall) => applyFailExhausted step attempt toolCall now db
  | (step, .safeRetry attempt toolCall) =>
    if retry then applySafeRetry step attempt toolCall now db else db
  | _ => db

/-- A resumed Attempt belongs to the new worker. -/
def transferAttempt (env : RecoveryEnv) (leaseExpiresAt : Option Time) (db : Db) :
    ExecutionStep × ToolStepClassification → Db
  | (_, .resume attempt) =>
    db.putAttempt { attempt with workerId := some env.worker, leaseExpiresAt := leaseExpiresAt }
  | _ => db

/-- The exhausted Step stops its Execution. -/
def ToolStepClassification.stopsExecution : ToolStepClassification → Bool
  | .failExhausted onError _ _ =>
    onError == .failExecution || !isContinuableKnownFailure onError .failed
  | _ => false

/-- The takeover of an Execution without a fatal Step. -/
def takeOver (env : RecoveryEnv) (steps : List (ExecutionStep × ToolStepClassification)) (now : Time)
    (db : Db) : RecoveryOutcome × Db :=
  let db := steps.foldl (applyClassification true now) db
  let db := db.putExecution
    (db.execution.assignLease env.worker env.leaseToken now env.leaseSeconds)
  let db := steps.foldl (transferAttempt env db.execution.leaseExpiresAt) db
  let decision :=
    if steps.any (·.2 matches .safeRetry _ _) then RecoveryDecision.safeRetry
    else if steps.any (·.2 matches .resume _) then .resumeAttempt
    else .takeoverReady
  (⟨decision, true, true⟩, db)

/-- The fatal Steps. -/
def fatalSteps (steps : List (ExecutionStep × ToolStepClassification)) : List UUID :=
  (steps.filter (·.2 = .fatalUnknown)).map (·.1.id)

/-- `WorkflowDagRecovery.recover` on the classified Steps. An exhausted Step with FAIL_EXECUTION ends
the Execution with the exhausted Steps only; RUNNING siblings stay as they are. -/
def recoverClassified (env : RecoveryEnv) (steps : List (ExecutionStep × ToolStepClassification))
    (now : Time) (db : Db) : RecoveryOutcome × Db :=
  if fatalSteps steps ≠ [] then
    (⟨.unknownOutcome, true, false⟩, db.failClosed (fatalSteps steps) workerLeaseExpired now)
  else if steps.any (·.2.stopsExecution) then
    (⟨.failExhausted, true, false⟩,
      ((steps.foldl (applyClassification false now) db).stopUnstartedSteps now).terminateExecution
        .failed (some workerLeaseExpired) now)
  else takeOver env steps now db

/-- `WorkflowDagRecovery.recover`. -/
def recoverWorkflowDag (env : RecoveryEnv) (now : Time) (db : Db) : Tx RecoveryOutcome :=
  match classifySteps env db with
  | .ok steps => .ok (recoverClassified env steps now db)
  | .error e =>
    if e.code = "RESOURCE_CONFLICT" ∨ e.code = "EXECUTION_PRECONDITION_FAILED" then
      .ok (⟨.failInconsistent, false, false⟩, db.failClosed [] recoveryInconsistentEvidence now)
    else .error (.appError e)

end McpFlow
