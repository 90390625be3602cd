import McpFlow.Approval.Resume
import McpFlow.Execution.Cancellation
import McpFlow.Execution.WorkflowDagRecovery

/-!
# Recovery of an expired Execution

`ExecutionRecoveryService.recover`: an expired CANCEL_REQUESTED Execution is reconciled, an expired
RUNNING one is taken over or failed. Workflow and Schedule sources recover the whole DAG; an
AgentRequest has one TOOL Step.
-/

namespace McpFlow

/-- `is_agent_schedule_occurrence`. -/
def Execution.isAgentScheduleOccurrence (e : Execution) (agentRequestPinned : Bool) : Bool :=
  e.sourceType == .scheduleOccurrence && e.scheduleOccurrenceId.isSome &&
    e.agentVersionId.isSome && e.workflowVersionId.isNone && agentRequestPinned

/-- The stored lease has expired. -/
def Execution.leaseExpired (e : Execution) (now : Time) : Bool :=
  e.leaseExpiresAt.any (· ≤ now)

/-- `_CANCEL_RECOVERY_SOURCES`. -/
def ExecutionSourceType.recoversCancellation : ExecutionSourceType → Bool
  | agentRequest | workflowVersion | scheduleOccurrence => true
  | manualToolTest | factoryTest => false

/-- No recovery. -/
def RecoveryOutcome.none : RecoveryOutcome := ⟨.noOp, false, false⟩

/-! ### One TOOL Step -/

/-- `_lock_foundation_step`. -/
def foundationStep (db : Db) : Except AppError ExecutionStep := do
  match db.steps.rows with
  | [step] =>
    assertThat (db.execution.sourceType == .agentRequest)
      "Recovery supports AgentRequest Executions only."
    assertThat (step.stepKey == deterministicToolStepId && step.stepType == .tool &&
        step.parentStepId.isNone && step.mcpToolVersionId.isSome)
      "ExecutionStep is inconsistent with AgentRequest TOOL foundation."
    return step
  | _ => .error (conflict "Multi-Step TOOL/JOIN parallel-wave recovery is unsupported.")

/-- What `_decide` decides. -/
inductive FoundationDecision where
  | takeoverReady
  | resumeAttempt (attempt : StepAttempt)
  | safeRetry (attempt : StepAttempt) (toolCall : ToolCall)
  | failExhausted (attempt : StepAttempt) (toolCall : ToolCall)
  | unknownOutcome (attempt : StepAttempt) (toolCall : ToolCall)
deriving DecidableEq

/-- `_decide_ready_checkpoint`. -/
def decideReadyCheckpoint (env : RecoveryEnv) (db : Db) (step : ExecutionStep) :
    Except AppError FoundationDecision := do
  let attempts := db.listAttempts step.id
  assertThat (!attempts.any (·.status == .started)) "READY Step has STARTED Attempt."
  assertThat (!attempts.any fun a => db.attemptHasStartedToolCall a.id)
    "READY Step has STARTED ToolCall evidence."
  if attempts = [] then
    assertThat (step.attemptCount == 0)
      "READY Step attempt_count does not match Attempt history."
    return .takeoverReady
  else
    assertThat ((attempts.map (·.attemptNo)).insertionSort (· ≤ ·) ==
        List.range' 1 attempts.length)
      "READY Step Attempt numbers are not contiguous."
    assertThat (step.attemptCount == attempts.length)
      "READY Step attempt_count does not match Attempt history."
    let (_, maxAttempts) ← env.toolPolicy step
    assertThat (canSafeRetry step.attemptCount maxAttempts)
      "READY Step attempt_count is exhausted; cannot takeover for another Attempt."
    return .takeoverReady

/-- The RUNNING case of `_decide` with its STARTED Attempt. -/
def decideStartedAttempt (env : RecoveryEnv) (db : Db) (step : ExecutionStep)
    (attempt : StepAttempt) : Except AppError FoundationDecision := do
  let toolCalls := db.listToolCalls attempt.id
  assertThat (toolCalls.all (·.normalizedStatus == .started))
    "Terminal ToolCall exists while Step remains RUNNING."
  match toolCalls with
  | [] =>
    env.resumeLineage step attempt
    return .resumeAttempt attempt
  | [toolCall] =>
    assertThat (step.mcpToolVersionId == some toolCall.mcpToolVersionId)
      "ToolCall ToolVersion lineage does not match Step."
    let (risk, maxAttempts) ← env.toolPolicy step
    if !risk.isSafe then return .unknownOutcome attempt toolCall
    else if canSafeRetry step.attemptCount maxAttempts then return .safeRetry attempt toolCall
    else return .failExhausted attempt toolCall
  | _ => .error (conflict "STARTED Attempt has multiple STARTED ToolCalls.")

/-- `_decide`. -/
def decideFoundation (env : RecoveryEnv) (db : Db) (step : ExecutionStep) :
    Except AppError FoundationDecision :=
  if step.status = .ready then decideReadyCheckpoint env db step
  else if step.status ≠ .running then
    .error (conflict "Step status is not recoverable in this slice.")
  else match (db.listAttempts step.id).filter (·.status = .started) with
    | [] => .error (conflict "RUNNING Step has no STARTED Attempt.")
    | [attempt] => decideStartedAttempt env db step attempt
    | _ => .error (conflict "RUNNING Step has multiple STARTED Attempts.")

/-- A Step that ends with its Execution. -/
def failExecutionStep (step : ExecutionStep) (status : StepStatus) (now : Time) (db : Db) : Db :=
  (db.putStep { step with
    status := status, errorCode := some workerLeaseExpired, finishedAt := some now
  }).terminateExecution .failed (some workerLeaseExpired) now

/-- The STARTED Attempt of a Step that `_fail_inconsistent` ends without a call in flight. -/
def Db.failStartedOf (db : Db) (now : Time) (a : StepAttempt) : StepAttempt :=
  if db.steps.rows.any fun s => !s.status.isTerminal && db.getStartedAttempt s.id == some a then
    { a with
      status := .failed
      errorCode := some recoveryInconsistentEvidence
      isRetryable := some false
      finishedAt := some now }
  else a

@[simp] theorem Db.id_failStartedOf (db : Db) (now : Time) (a : StepAttempt) :
    (db.failStartedOf now a).id = a.id := by
  unfold failStartedOf
  split <;> rfl

/-- `_fail_inconsistent`. Calls in flight make every open Step UNKNOWN_OUTCOME, and the Attempts
without one stay STARTED. -/
def Db.failInconsistent (db : Db) (now : Time) : Db :=
  let ambiguous := db.listStartedToolCalls ≠ []
  let ended : Db :=
    { db with
      toolCalls := db.toolCalls.mapRows (·.markUnknown now) fun c => c.id_markUnknown now
      attempts := db.attempts.mapRows
        (fun a =>
          if db.attemptHasStartedToolCall a.id then
            { a with
              status := .unknownOutcome
              errorCode := some recoveryInconsistentEvidence
              isRetryable := some false
              finishedAt := a.finishedAt.or (some now) }
          else if ambiguous then a
          else db.failStartedOf now a)
        fun a => by
          split
          · rfl
          · split <;> simp
      steps := db.steps.mapRows
        (fun s =>
          if s.status.isTerminal then s
          else { s with
            status := if ambiguous then .unknownOutcome else .failed
            errorCode := some recoveryInconsistentEvidence
            finishedAt := some now })
        fun s => by split <;> rfl }
  ended.terminateExecution .failed (some recoveryInconsistentEvidence) now

/-- The writes of a decided recovery, under the fresh lease. -/
def applyFoundation (env : RecoveryEnv) (step : ExecutionStep) (now : Time) (db : Db) :
    FoundationDecision → RecoveryOutcome × Db
  | .takeoverReady => (⟨.takeoverReady, true, true⟩, db)
  | .resumeAttempt attempt => (⟨.resumeAttempt, true, true⟩,
      db.putAttempt { attempt with
        workerId := some env.worker, leaseExpiresAt := db.execution.leaseExpiresAt })
  | .safeRetry attempt toolCall =>
    (⟨.safeRetry, true, true⟩, applySafeRetry step attempt toolCall now db)
  | .failExhausted attempt toolCall => (⟨.failExhausted, true, false⟩,
      failExecutionStep step .failed now (terminalizeOrphan attempt toolCall .failed false now db))
  | .unknownOutcome attempt toolCall => (⟨.unknownOutcome, true, false⟩,
      failExecutionStep step .unknownOutcome now
        (terminalizeOrphan attempt toolCall .unknownOutcome false now db))

/-- The recovery of an AgentRequest. -/
def recoverFoundation (env : RecoveryEnv) (now : Time) (db : Db) : Tx RecoveryOutcome :=
  let leased := db.putExecution
    (db.execution.assignLease env.worker env.leaseToken now env.leaseSeconds)
  let decided := do
    let step ← foundationStep db
    let decision ← decideFoundation env db step
    return (step, decision)
  match decided with
  | .ok (step, decision) => .ok (applyFoundation env step now leased decision)
  | .error e =>
    if e.code = "RESOURCE_CONFLICT" then
      .ok (⟨.failInconsistent, true, false⟩, leased.failInconsistent now)
    else .error (.appError e)

/-! ### The service -/

/-- `plan_supports_workflow_running_recovery`. -/
def planSupportsWorkflowRunningRecovery (plan : ExecutionPlanV1) : Bool :=
  !planHasLoop plan || (flatLoopOwnership plan).isOk

/-- `_recover_cancel_requested`. -/
def recoverCancelRequested (now : Time) (db : Db) : Tx RecoveryOutcome :=
  if !db.execution.leaseExpired now || !db.execution.sourceType.recoversCancellation then
    .ok (.none, db)
  else match recoverExpiredCancelRequested now db with
    | .error e => .error e
    | .ok (_, db) => .ok (⟨.cancelReconciled, true, false⟩, db)

/-- The recovery of an expired RUNNING Execution by its source. -/
def recoverRunning (env : RecoveryEnv) (now : Time) (db : Db) : Tx RecoveryOutcome :=
  let agentSchedule := db.execution.isAgentScheduleOccurrence env.agentRequestPinned
  if db.execution.sourceType = .agentRequest ∨ agentSchedule = true then recoverFoundation env now db
  else if db.execution.sourceType = .workflowVersion ∨
      db.execution.sourceType = .scheduleOccurrence then
    if planSupportsWorkflowRunningRecovery db.execution.planSnapshot then
      recoverWorkflowDag env now db
    else .ok (.none, db)
  else .ok (.none, db)

/-- `ExecutionRecoveryService.recover`. -/
def recoverExecution (env : RecoveryEnv) (now : Time) (db : Db) : Tx RecoveryOutcome :=
  if db.execution.status = .cancelRequested then recoverCancelRequested now db
  else if db.execution.status ≠ .running ∨ db.execution.leaseExpired now = false then
    .ok (.none, db)
  else recoverRunning env now db

end McpFlow
