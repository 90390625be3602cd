import Mathlib.Data.List.Infix
import McpFlow.Execution.Cancellation
import McpFlow.Execution.ToolStepAttempt
import McpFlow.Mrtr.Wait

/-!
# The MCP Tool Runner

The transactions of `run_claimed_tool_step`: Phase A prepares an Attempt and a STARTED ToolCall,
the final gate revalidates right before the network call, Phase C finalizes the call. Secret
materialization, the call itself and every check that reads the catalog are inputs. In a parallel
wave (`defer`) a fatal outcome leaves the Execution to the orchestrator.
-/

namespace McpFlow

open Approval (ApprovalWaitOutcome)

/-- `StepRunDisposition`. -/
inductive StepRunDisposition where
  | success
  | knownStepFailure
  | fatalExecutionFailure
  | wait
  | retry
  | noop
deriving DecidableEq, Repr

/-- `ToolRunOutcome`. `terminalStatus` holds the text of a Step status or of an Execution status. -/
structure ToolRunOutcome where
  terminalStatus : Option String
  reason : String
  disposition : StepRunDisposition := .noop
deriving DecidableEq, Repr

/-- `_PreparedCall`. The last three fields are those of an MRTR resume. -/
structure PreparedCall where
  stepId : UUID
  attemptId : UUID
  toolCallId : UUID
  remoteRequestId : String
  mcpServerId : UUID
  mcpToolVersionId : UUID
  riskClass : RiskClass
  workerId : String
  leaseToken : UUID
  deferExecutionTerminalization : Bool
  forbidExecutionWait : Bool
  mrtrInputRequestId : Option UUID
  mrtrInputResponses : Option (List (String × Json.Value))
  mrtrRequestState : Option Json.Value
deriving DecidableEq

/-- `_PrepareResult`. -/
inductive PrepareResult where
  | prepared (call : PreparedCall)
  | outcome (outcome : ToolRunOutcome)
deriving DecidableEq

/-- The Execution is in flight under the lease of `worker` and `token`. -/
def Execution.ownedInFlight (e : Execution) (worker : String) (token : UUID) (now : Time) : Bool :=
  (e.status == .running || e.status == .cancelRequested) && e.holdsLease worker token now

/-- `_apply_or_defer_execution_fatal`. -/
def applyOrDeferExecutionFatal (errorCode : Option String) (now : Time) (defer : Bool) (db : Db) :
    Db :=
  if defer then db.putExecution { db.execution with heartbeatAt := some now }
  else
    db.putExecution
      { db.execution.clearLease with
        status := .failed
        errorCode := errorCode
        finishedAt := some now }

/-- An Execution that is still RUNNING is failed with a caught error. -/
def failRunningExecution (errorCode : String) (now : Time) (defer : Bool) (db : Db) : Db :=
  if db.execution.status = .running then applyOrDeferExecutionFatal (some errorCode) now defer db
  else db

/-- A Step that is not terminal is failed. -/
def failNonterminalStep (step : ExecutionStep) (errorCode : String) (now : Time) (db : Db) : Db :=
  if step.status.isTerminal then db
  else db.putStep { step with
    status := .failed, errorCode := some errorCode, finishedAt := some now }

/-- `_noop`. -/
def ToolRunOutcome.noop (reason : String) (status : Option String) : ToolRunOutcome :=
  { terminalStatus := status, reason := reason }

/-- The outcome of a fatal error. -/
def ToolRunOutcome.fatal (reason : String) : ToolRunOutcome :=
  { terminalStatus := some StepStatus.failed.value
    reason := reason
    disposition := .fatalExecutionFailure }

/-! ### The terminal transition -/

/-- The remote answer of a completed `tools/call`, after validation and redaction. -/
inductive ToolResult where
  | ok (resultInline : Json.Value)
  | tooLargeForInline
  | invalid (errorCode : String) (diagnostic : Option Json.Value)
deriving DecidableEq

/-- How a prepared call ended. -/
inductive CallEnd where
  | error (e : McpClientError)
  | result (r : ToolResult)
deriving DecidableEq

/-- `call_error`. -/
def CallEnd.callError : CallEnd → Option McpClientError
  | .error e => some e
  | .result _ => none

/-- The terminal status that a call end gives its rows. -/
def CallEnd.terminal (risk : RiskClass) : CallEnd → StepAttemptStatus
  | .error e => if e.preSend ∧ e.errorCode = "STEP_TIMEOUT_EXCEEDED" then .timedOut
    else classifyMcpFailure e risk
  | .result (.ok _) => .succeeded
  | .result _ => .failed

/-- The error code that a call end gives its rows. -/
def CallEnd.errorCode : CallEnd → Option String
  | .error e => some e.errorCode
  | .result (.ok _) => none
  | .result .tooLargeForInline => some "RESULT_TOO_LARGE_FOR_INLINE"
  | .result (.invalid code _) => some code

/-- The `result_inline` of a call end. -/
def CallEnd.resultInline : CallEnd → Option Json.Value
  | .error _ => none
  | .result (.ok resultInline) => some resultInline
  | .result .tooLargeForInline => none
  | .result (.invalid _ diagnostic) => diagnostic

/-- The Execution fails with the Step: UNKNOWN_OUTCOME, or a pre-send refusal other than the
exhausted Step timeout. -/
def CallEnd.isFatal (risk : RiskClass) (callEnd : CallEnd) : Bool :=
  callEnd.terminal risk == .unknownOutcome ||
    match callEnd with
    | .error e => e.preSend && e.errorCode != "STEP_TIMEOUT_EXCEEDED"
    | .result _ => false

/-- The disposition of a call end. -/
def CallEnd.disposition (risk : RiskClass) (callEnd : CallEnd) : StepRunDisposition :=
  if callEnd.terminal risk = .succeeded then .success
  else if callEnd.isFatal risk then .fatalExecutionFailure
  else .knownStepFailure

/-- `_apply_terminal_transition`. -/
def applyTerminalTransition (step : ExecutionStep) (attempt : StepAttempt) (toolCall : ToolCall)
    (callEnd : CallEnd) (risk : RiskClass) (now : Time) (defer : Bool) (db : Db) : Db :=
  let terminal := callEnd.terminal risk
  let db := db.putToolCall { toolCall with normalizedStatus := terminal, finishedAt := some now }
  let db := db.putAttempt
    { attempt with
      status := terminal
      errorCode := callEnd.errorCode
      isRetryable := some (callEnd.callError.any (·.retryable))
      resultInline := callEnd.resultInline
      finishedAt := some now }
  let db := db.putStep
    { step with
      status := terminal.toStep
      errorCode := callEnd.errorCode
      resultInline := callEnd.resultInline
      finishedAt := some now }
  if callEnd.disposition risk = .fatalExecutionFailure then
    applyOrDeferExecutionFatal callEnd.errorCode now defer db
  else db.putExecution { db.execution with heartbeatAt := some now }

section TerminalTransition

variable (step : ExecutionStep) (attempt : StepAttempt) (toolCall : ToolCall) (callEnd : CallEnd)
  (risk : RiskClass) (now : Time) (defer : Bool) (db : Db)

theorem toolCalls_applyOrDeferExecutionFatal (errorCode : Option String) :
    (applyOrDeferExecutionFatal errorCode now defer db).toolCalls = db.toolCalls := by
  unfold applyOrDeferExecutionFatal
  split <;> rfl

theorem attempts_applyOrDeferExecutionFatal (errorCode : Option String) :
    (applyOrDeferExecutionFatal errorCode now defer db).attempts = db.attempts := by
  unfold applyOrDeferExecutionFatal
  split <;> rfl

theorem steps_applyOrDeferExecutionFatal (errorCode : Option String) :
    (applyOrDeferExecutionFatal errorCode now defer db).steps = db.steps := by
  unfold applyOrDeferExecutionFatal
  split <;> rfl

theorem steps_applyTerminalTransition :
    (applyTerminalTransition step attempt toolCall callEnd risk now defer db).steps =
      db.steps.put
        { step with
          status := (callEnd.terminal risk).toStep
          errorCode := callEnd.errorCode
          resultInline := callEnd.resultInline
          finishedAt := some now } := by
  unfold applyTerminalTransition
  dsimp only
  split
  · rw [steps_applyOrDeferExecutionFatal]
    rfl
  · rfl

theorem toolCalls_applyTerminalTransition :
    (applyTerminalTransition step attempt toolCall callEnd risk now defer db).toolCalls =
      db.toolCalls.put
        { toolCall with normalizedStatus := callEnd.terminal risk, finishedAt := some now } := by
  unfold applyTerminalTransition
  dsimp only
  split
  · rw [toolCalls_applyOrDeferExecutionFatal]
    rfl
  · rfl

theorem attempts_applyTerminalTransition :
    (applyTerminalTransition step attempt toolCall callEnd risk now defer db).attempts =
      db.attempts.put
        { attempt with
          status := callEnd.terminal risk
          errorCode := callEnd.errorCode
          isRetryable := some (callEnd.callError.any (·.retryable))
          resultInline := callEnd.resultInline
          finishedAt := some now } := by
  unfold applyTerminalTransition
  dsimp only
  split
  · rw [attempts_applyOrDeferExecutionFatal]
    rfl
  · rfl

end TerminalTransition

/-- `_apply_retry_checkpoint`. -/
def applyRetryCheckpoint (step : ExecutionStep) (attempt : StepAttempt) (toolCall : ToolCall)
    (e : McpClientError) (risk : RiskClass) (now : Time) (db : Db) : Db :=
  let terminal := classifyMcpFailure e risk
  let db := db.putToolCall { toolCall with normalizedStatus := terminal, finishedAt := some now }
  let db := db.putAttempt
    { attempt with
      status := terminal
      errorCode := some e.errorCode
      isRetryable := some true
      resultInline := none
      finishedAt := some now }
  db.putStep
    { step with status := .ready, errorCode := none, resultInline := none, finishedAt := none }

/-! ### Phase A -/

/-- The resume material of an answered MRTR round. -/
structure MrtrResume where
  inputRequestId : UUID
  responsePayload : List (String × Json.Value)
  requestState : Json.Value
deriving DecidableEq

/-- The answered rounds are ordered by `(round_no, answered_at or requested_at)`. -/
def McpInputRequest.answeredBefore (r s : McpInputRequest) : Bool :=
  r.roundNo < s.roundNo ||
    (r.roundNo == s.roundNo &&
      r.answeredAt.getD r.requestedAt ≤ s.answeredAt.getD s.requestedAt)

/-- The last request of the sorted answered rounds. -/
def highestAnswered : List McpInputRequest → Option McpInputRequest
  | [] => none
  | r :: rs =>
    match highestAnswered rs with
    | none => some r
    | some s => if r.answeredBefore s then some s else some r

/-- The answered requests of an Attempt that carry a payload. -/
def answeredRequests (db : Db) (step : ExecutionStep) (attempt : StepAttempt) :
    List McpInputRequest :=
  db.inputRequests.rows.filter fun r =>
    r.executionId = db.execution.id ∧ r.stepExecutionId = step.id ∧ r.status = .answered ∧
      r.stepAttemptId = attempt.id ∧ r.responsePayload.getD [] ≠ []

/-- `_load_answered_mrtr_resume`. -/
def loadAnsweredMrtrResume (db : Db) (step : ExecutionStep) (attempt : StepAttempt) :
    Except AppError (Option MrtrResume) :=
  if db.listOpenForStep step.id ≠ [] then
    .error (conflict "Cannot resume MRTR while an OPEN MCPInputRequest exists.")
  else match highestAnswered (answeredRequests db step attempt) with
    | none => .ok none
    | some request =>
      let toolCalls := db.listToolCalls attempt.id
      let succeeded := toolCalls.filter (·.normalizedStatus = .succeeded)
      if db.attemptHasStartedToolCall attempt.id then
        .error (conflict "MRTR resume must not retain a STARTED ToolCall.")
      else if toolCalls.length ≠ succeeded.length ∨ succeeded.length ≠ request.roundNo then
        .error (conflict "MRTR resume ToolCall evidence does not match ANSWERED round_no.")
      else .ok (some ⟨request.id, request.responsePayload.getD [], request.requestState⟩)

/-- The ToolVersion, Server and ToolPolicy that a call is prepared with. -/
structure CatalogEntry where
  mcpServerId : UUID
  mcpToolVersionId : UUID
  riskClass : RiskClass
  timeoutMs : ℕ
deriving DecidableEq

/-- What Phase A learns from outside the rows of the Execution. -/
structure PrepareEnv where
  start : StartEnv
  /-- `assert_resume_attempt_lineage`. -/
  resumeLineage : Except AppError Unit
  /-- The catalog rows of the call. -/
  catalog : Except AppError CatalogEntry
  /-- Authorization and evidence of a replay, then transport and endpoint. -/
  preSendFailure : Option String
  toolCallId : UUID
  remoteRequestId : String

/-- A caught error fails the Step, and a RUNNING Execution with it. -/
def prepareFatal (step : ExecutionStep) (errorCode : String) (now : Time) (defer : Bool) (db : Db) :
    PrepareResult × Db :=
  (.outcome (.fatal errorCode),
    failRunningExecution errorCode now defer (failNonterminalStep step errorCode now db))

/-- The end of `_prepare`: a STARTED ToolCall, or its refusal before the send. -/
def prepareCall (env : PrepareEnv) (catalog : CatalogEntry) (step : ExecutionStep)
    (attempt : StepAttempt) (resume : Option MrtrResume) (worker : String) (token : UUID)
    (now : Time) (defer forbidWait : Bool) (db : Db) : Tx PrepareResult :=
  let timeoutMs := remainingStepTimeoutMs step.startedAt step.stepSnapshot.timeoutSeconds
    catalog.timeoutMs now
  let preSendFailure := env.preSendFailure.or
    (if timeoutMs < 1 then some "STEP_TIMEOUT_EXCEEDED" else none)
  let toolCall : ToolCall :=
    { id := env.toolCallId
      stepAttemptId := attempt.id
      mcpServerId := catalog.mcpServerId
      mcpToolVersionId := catalog.mcpToolVersionId
      remoteRequestId := env.remoteRequestId
      mrtrInputRequestId := resume.map (·.inputRequestId)
      normalizedStatus := .started
      startedAt := now
      finishedAt := none }
  match db.insertToolCall toolCall with
  | .error e => .error e
  | .ok db =>
    match preSendFailure with
    | some errorCode =>
      let callEnd := CallEnd.error (.preSendFailClosed errorCode)
      .ok (.outcome
          { terminalStatus := some (callEnd.terminal catalog.riskClass).toStep.value
            reason := errorCode
            disposition := callEnd.disposition catalog.riskClass },
        applyTerminalTransition step attempt toolCall callEnd catalog.riskClass now defer db)
    | none =>
      .ok (.prepared
          { stepId := step.id
            attemptId := attempt.id
            toolCallId := env.toolCallId
            remoteRequestId := env.remoteRequestId
            mcpServerId := catalog.mcpServerId
            mcpToolVersionId := catalog.mcpToolVersionId
            riskClass := catalog.riskClass
            workerId := worker
            leaseToken := token
            deferExecutionTerminalization := defer
            forbidExecutionWait := forbidWait
            mrtrInputRequestId := resume.map (·.inputRequestId)
            mrtrInputResponses := resume.map (·.responsePayload)
            mrtrRequestState := resume.map (·.requestState) }, db)

/-- An Attempt that already has ToolCalls is prepared again only to resume an answered round. -/
def resumeOfAttempt (db : Db) (step : ExecutionStep) (attempt : StepAttempt) :
    Except Raised (Except AppError (Option MrtrResume)) :=
  if db.listToolCalls attempt.id = [] then .ok (.ok none)
  else match loadAnsweredMrtrResume db step attempt with
    | .error e => .ok (.error e)
    | .ok (some resume) => .ok (.ok (some resume))
    | .ok none =>
      .error (.appError (conflict "ToolCall already terminal while Step remains RUNNING."))

/-- `_prepare` once an Attempt is started or replayed. -/
def prepareStarted (env : PrepareEnv) (step : ExecutionStep) (attempt : StepAttempt)
    (replayed : Bool) (worker : String) (token : UUID) (now : Time) (defer forbidWait : Bool)
    (db : Db) : Tx PrepareResult :=
  if db.attemptHasStartedToolCall attempt.id then
    .ok (.outcome (.noop "TOOL_CALL_ALREADY_STARTED" none), db)
  else
    match resumeOfAttempt db step attempt with
    | .error e => .error e
    | .ok (.error e) => .ok (prepareFatal step e.code now defer db)
    | .ok (.ok resume) =>
      match if replayed then env.resumeLineage else .ok () with
      | .error e => .ok (prepareFatal step e.code now defer db)
      | .ok () =>
        match env.catalog with
        | .error e => .error (.appError e)
        | .ok catalog =>
          prepareCall env catalog step attempt resume worker token now defer forbidWait db

/-- The message of an approval row that contradicts a RUNNING Execution. -/
def AppError.isOrphanPending (e : AppError) : Bool :=
  e.code == "RESOURCE_CONFLICT" &&
    decide ("PENDING ApprovalRequest already exists".toList <:+: e.message.toList)

/-- `_prepare` after `ToolStepAttemptService.start` raised an `AppError`. -/
def prepareStartFailed (step : ExecutionStep) (e : AppError) (now : Time) (defer : Bool) (db : Db) :
    PrepareResult × Db :=
  if db.execution.status = .waitingApproval ∧ step.status = .waitingApproval then
    (.outcome (.noop "WAITING_APPROVAL" (some StepStatus.waitingApproval.value)), db)
  else if db.execution.status = .waitingApproval ∨ step.status = .waitingApproval then
    (.outcome (.noop e.code none), db)
  else if e.isOrphanPending ∧ db.execution.status = .running ∧ step.status = .ready then
    (.outcome (.noop e.code none), db)
  else prepareFatal step e.code now defer db

/-- `_prepare` from `ToolStepAttemptService.start` on. -/
def prepareAttempt (env : PrepareEnv) (step : ExecutionStep) (worker : String) (token : UUID)
    (now : Time) (defer forbidWait forbidNewApprovalWait : Bool) (db : Db) : Tx PrepareResult :=
  match startAttempt env.start step worker token now forbidNewApprovalWait db with
  | .error e => .error e
  | .ok (.error e, db) =>
    -- The handler sees the Step as `start` left it.
    .ok (prepareStartFailed ((db.steps.find? step.id).getD step) e now defer db)
  | .ok (.ok (.approvalWait _), db) =>
    if forbidNewApprovalWait then
      .ok (prepareFatal ((db.steps.find? step.id).getD step) "DAG_WAIT_UNSUPPORTED" now defer db)
    else
      .ok (.outcome
        { terminalStatus := some StepStatus.waitingApproval.value
          reason := "WAITING_APPROVAL"
          disposition := .wait }, db)
  | .ok (.ok (.attempt attempt replayed), db) =>
    prepareStarted env ((db.steps.find? step.id).getD step) attempt replayed worker token now defer
      forbidWait db

/-- RUNNING with a cancel timestamp is moved to CANCEL_REQUESTED. -/
def Db.enterCancelRequested (db : Db) : Db :=
  if db.execution.status = .running then
    db.putExecution { db.execution with status := .cancelRequested }
  else db

/-- `_prepare` under a requested cancellation, when it returns from there. -/
def prepareCancelRequested (worker : String) (token : UUID) (now : Time) (db : Db) :
    Option (Tx PrepareResult) :=
  if db.execution.status = .cancelled then
    some (.ok (.outcome (.noop "CANCEL_REQUESTED" (some ExecutionStatus.cancelled.value)), db))
  else if !db.execution.holdsLease worker token now then
    some (.ok (.outcome (.noop "LEASE_MISMATCH" (some db.execution.status.value)), db))
  else if db.enterCancelRequested.execution.status = .cancelRequested then
    some <| match reconcileCancelRequested now db.enterCancelRequested with
      | .error e => .error e
      | .ok (outcome, db) =>
        .ok (.outcome (.noop "CANCEL_REQUESTED" (some outcome.status.value)), db)
  else none

/-- `_prepare` from the lease check on. -/
def prepareOwned (env : PrepareEnv) (step : ExecutionStep) (worker : String) (token : UUID)
    (now : Time) (defer forbidWait forbidNewApprovalWait : Bool) (db : Db) : Tx PrepareResult :=
  if db.execution.status = .cancelled then
    .ok (.outcome (.noop "STEP_ALREADY_TERMINAL" (some db.execution.status.value)), db)
  else if !db.execution.ownedInFlight worker token now then
    .ok (.outcome (.noop "LEASE_MISMATCH" (some db.execution.status.value)), db)
  else if step.status.isTerminal then
    .ok (.outcome (.noop "STEP_ALREADY_TERMINAL" (some step.status.value)), db)
  else if step.status ≠ .ready ∧ step.status ≠ .running then
    .error (.appError (conflict "Step status unsupported by MCP Tool Runner."))
  else if step.status = .ready ∧
      stepTimeoutBudgetExhausted step.startedAt step.stepSnapshot.timeoutSeconds now then
    let db := db.putStep
      { step with
        status := .timedOut
        errorCode := some "STEP_TIMEOUT_EXCEEDED"
        finishedAt := some now }
    .ok (.outcome
        { terminalStatus := some StepStatus.timedOut.value
          reason := "STEP_TIMEOUT_EXCEEDED"
          disposition := .knownStepFailure },
      db.putExecution { db.execution with heartbeatAt := some now })
  else prepareAttempt env step worker token now defer forbidWait forbidNewApprovalWait db

/-- `_prepare`. -/
def prepare (env : PrepareEnv) (stepId : UUID) (worker : String) (token : UUID) (now : Time)
    (defer forbidWait forbidNewApprovalWait : Bool) (db : Db) : Tx PrepareResult :=
  match db.steps.find? stepId with
  | none => .error (.appError (conflict "Step does not belong to the claimed Execution."))
  | some step =>
    if step.stepType ≠ .tool then
      .error (.appError (conflict "McpToolRunner supports TOOL Steps only."))
    -- A wait on one side alone is corruption; it is left as it is.
    else if (db.execution.status = .waitingApproval) ≠ (step.status = .waitingApproval) then
      .ok (.outcome (.noop "RESOURCE_CONFLICT" none), db)
    else if db.execution.status = .waitingApproval then
      match Approval.reusePending db step with
      | .error (.appError e) => .ok (.outcome (.noop e.code none), db)
      | .error e => .error e
      | .ok _ => .ok (.outcome (.noop "WAITING_APPROVAL" (some step.status.value)), db)
    else if (db.execution.status = .waitingInput) ≠ (step.status = .waitingInput) then
      .ok (.outcome (.noop "RESOURCE_CONFLICT" none), db)
    else if db.execution.status = .waitingInput then
      match Mrtr.assertDurableWaitingInput env.resumeLineage db step with
      | .error e => if e.code = "RESOURCE_CONFLICT" then
          .ok (.outcome (.noop "RESOURCE_CONFLICT" none), db)
        else .error (.appError e)
      | .ok _ => .ok (.outcome (.noop "WAITING_INPUT" (some step.status.value)), db)
    else if db.execution.cancellationIsRequested then
      match prepareCancelRequested worker token now db with
      | some result => result
      | none => prepareOwned env step worker token now defer forbidWait forbidNewApprovalWait db
    else prepareOwned env step worker token now defer forbidWait forbidNewApprovalWait db

/-! #### What Phase A can do -/

theorem Execution.ownedInFlight_iff {e : Execution} {worker : String} {token : UUID} {now : Time} :
    e.ownedInFlight worker token now = true ↔
      (e.status = .running ∨ e.status = .cancelRequested) ∧
        e.holdsLease worker token now = true := by
  simp [ownedInFlight]

/-- The token of an owned Execution. -/
theorem Execution.leaseToken_of_ownedInFlight {e : Execution} {worker : String} {token : UUID}
    {now : Time} (h : e.ownedInFlight worker token now = true) : e.leaseToken = some token :=
  (Execution.holdsLease_iff.mp (Execution.ownedInFlight_iff.mp h).2).2.1

/-- A prepared or refused call: the ToolCall is inserted STARTED first. -/
theorem prepareCall_ok {env : PrepareEnv} {catalog : CatalogEntry} {step : ExecutionStep}
    {attempt : StepAttempt} {resume : Option MrtrResume} {worker : String} {token : UUID}
    {now : Time} {defer forbidWait : Bool} {db db' : Db} {result : PrepareResult}
    (h : prepareCall env catalog step attempt resume worker token now defer forbidWait db =
      .ok (result, db')) :
    ∃ toolCall toolCalls, db.toolCalls.insert? toolCall = some toolCalls ∧
      toolCall.stepAttemptId = attempt.id ∧ toolCall.normalizedStatus = .started ∧
      toolCall.mrtrInputRequestId = resume.map (·.inputRequestId) ∧
      ((∃ p, result = .prepared p ∧ db' = { db with toolCalls := toolCalls } ∧
          p.stepId = step.id ∧ p.attemptId = attempt.id ∧ p.toolCallId = toolCall.id ∧
          p.remoteRequestId = toolCall.remoteRequestId ∧ p.mcpServerId = toolCall.mcpServerId ∧
          p.mcpToolVersionId = toolCall.mcpToolVersionId ∧ p.workerId = worker ∧
          p.leaseToken = token ∧ p.deferExecutionTerminalization = defer ∧
          p.forbidExecutionWait = forbidWait ∧
          p.mrtrInputRequestId = resume.map (·.inputRequestId) ∧
          p.mrtrInputResponses = resume.map (·.responsePayload) ∧
          p.mrtrRequestState = resume.map (·.requestState)) ∨
        (∃ errorCode, result = .outcome
            { terminalStatus :=
                some ((CallEnd.error (.preSendFailClosed errorCode)).terminal
                  catalog.riskClass).toStep.value
              reason := errorCode
              disposition := (CallEnd.error (.preSendFailClosed errorCode)).disposition
                catalog.riskClass } ∧
          db' = applyTerminalTransition step attempt toolCall
            (.error (.preSendFailClosed errorCode)) catalog.riskClass now defer
            { db with toolCalls := toolCalls })) := by
  unfold prepareCall at h
  dsimp only at h
  split at h
  · cases h
  next db₁ hinsert =>
  obtain ⟨toolCalls, htoolCalls, rfl⟩ := Db.insertToolCall_ok hinsert
  refine ⟨_, toolCalls, htoolCalls, rfl, rfl, rfl, ?_⟩
  split at h
  · next errorCode _ =>
    cases h
    exact .inr ⟨errorCode, rfl, rfl⟩
  · cases h
    exact .inl ⟨_, rfl, rfl, rfl, rfl, rfl, rfl, rfl, rfl, rfl, rfl, rfl, rfl, rfl, rfl, rfl⟩

/-- With an Attempt at hand, Phase A stops before a call in flight, fails, or makes the call. -/
theorem prepareStarted_ok {env : PrepareEnv} {step : ExecutionStep} {attempt : StepAttempt}
    {replayed : Bool} {worker : String} {token : UUID} {now : Time} {defer forbidWait : Bool}
    {db db' : Db} {result : PrepareResult}
    (h : prepareStarted env step attempt replayed worker token now defer forbidWait db =
      .ok (result, db')) :
    (db.attemptHasStartedToolCall attempt.id = true ∧
        result = .outcome (.noop "TOOL_CALL_ALREADY_STARTED" none) ∧ db' = db) ∨
      (db.attemptHasStartedToolCall attempt.id = false ∧
        ((∃ errorCode, (result, db') = prepareFatal step errorCode now defer db) ∨
          ∃ catalog resume, resumeOfAttempt db step attempt = .ok (.ok resume) ∧
            prepareCall env catalog step attempt resume worker token now defer forbidWait db =
              .ok (result, db'))) := by
  unfold prepareStarted at h
  split at h
  · next hstarted =>
    cases h
    exact .inl ⟨hstarted, rfl, rfl⟩
  next hstarted =>
  refine .inr ⟨by simpa using hstarted, ?_⟩
  split at h
  · cases h
  · cases h
    exact .inl ⟨_, rfl⟩
  next resume hresume =>
  split at h
  · cases h
    exact .inl ⟨_, rfl⟩
  split at h
  · cases h
  next catalog _ => exact .inr ⟨catalog, resume, hresume, h⟩

/-- Phase A by the result of `start`; `step₁` is the Step as `start` left it. -/
theorem prepareAttempt_ok {env : PrepareEnv} {step : ExecutionStep} {worker : String}
    {token : UUID} {now : Time} {defer forbidWait forbidNewApprovalWait : Bool} {db db' : Db}
    {result : PrepareResult}
    (h : prepareAttempt env step worker token now defer forbidWait forbidNewApprovalWait db =
      .ok (result, db')) :
    ∃ started db₁, Started step worker token now db started db₁ ∧
      let step₁ := (db₁.steps.find? step.id).getD step
      match started with
      | .error e => (result, db') = prepareStartFailed step₁ e now defer db₁
      | .ok (.approvalWait _) =>
        (forbidNewApprovalWait = true ∧
          (result, db') = prepareFatal step₁ "DAG_WAIT_UNSUPPORTED" now defer db₁) ∨
        (forbidNewApprovalWait = false ∧ db' = db₁ ∧ result = .outcome
          { terminalStatus := some StepStatus.waitingApproval.value
            reason := "WAITING_APPROVAL"
            disposition := .wait })
      | .ok (.attempt attempt replayed) =>
        prepareStarted env step₁ attempt replayed worker token now defer forbidWait db₁ =
          .ok (result, db') := by
  unfold prepareAttempt at h
  split at h
  · cases h
  · next e db₁ hstart =>
    injection h with h
    exact ⟨_, db₁, started_of_startAttempt hstart, h.symm⟩
  · next outcome db₁ hstart =>
    refine ⟨_, db₁, started_of_startAttempt hstart, ?_⟩
    split at h
    · next hforbid =>
      cases h
      exact .inl ⟨hforbid, rfl⟩
    · next hforbid =>
      cases h
      exact .inr ⟨by simpa using hforbid, rfl, rfl⟩
  · next attempt replayed db₁ hstart => exact ⟨_, db₁, started_of_startAttempt hstart, h⟩

/-- Phase A once the lease is checked. -/
theorem prepareOwned_ok {env : PrepareEnv} {step : ExecutionStep} {worker : String} {token : UUID}
    {now : Time} {defer forbidWait forbidNewApprovalWait : Bool} {db db' : Db}
    {result : PrepareResult}
    (h : prepareOwned env step worker token now defer forbidWait forbidNewApprovalWait db =
      .ok (result, db')) :
    (db' = db ∧ ∃ reason status, result = .outcome (.noop reason status)) ∨
      (db.execution.ownedInFlight worker token now = true ∧ step.status.isTerminal = false ∧
        ((step.status = .ready ∧ db' = (db.putStep
            { step with
              status := .timedOut
              errorCode := some "STEP_TIMEOUT_EXCEEDED"
              finishedAt := some now }).putExecution
                { db.execution with heartbeatAt := some now } ∧
            result = .outcome
              { terminalStatus := some StepStatus.timedOut.value
                reason := "STEP_TIMEOUT_EXCEEDED"
                disposition := .knownStepFailure }) ∨
          prepareAttempt env step worker token now defer forbidWait forbidNewApprovalWait db =
            .ok (result, db'))) := by
  unfold prepareOwned at h
  split at h
  · cases h
    exact .inl ⟨rfl, _, _, rfl⟩
  split at h
  · cases h
    exact .inl ⟨rfl, _, _, rfl⟩
  next howned =>
  split at h
  · cases h
    exact .inl ⟨rfl, _, _, rfl⟩
  next hterminal =>
  split at h
  · cases h
  refine .inr ⟨by simpa using howned, by simpa using hterminal, ?_⟩
  split at h
  · next htimeout =>
    cases h
    exact .inl ⟨htimeout.1, rfl, rfl⟩
  · exact .inr h

/-- Phase A of a TOOL Step: no change, a reconcile of the requested cancellation, or owned work. -/
theorem prepare_ok {env : PrepareEnv} {stepId : UUID} {worker : String} {token : UUID} {now : Time}
    {defer forbidWait forbidNewApprovalWait : Bool} {db db' : Db} {result : PrepareResult}
    (h : prepare env stepId worker token now defer forbidWait forbidNewApprovalWait db =
      .ok (result, db')) :
    (db' = db ∧ ∃ reason status, result = .outcome (.noop reason status)) ∨
      (db.execution.cancellationIsRequested = true ∧
        db.execution.holdsLease worker token now = true ∧
        db.enterCancelRequested.execution.status = .cancelRequested ∧
        ∃ outcome, reconcileCancelRequested now db.enterCancelRequested = .ok (outcome, db') ∧
          result = .outcome (.noop "CANCEL_REQUESTED" (some outcome.status.value))) ∨
      ∃ step, db.steps.find? stepId = some step ∧ step.stepType = .tool ∧
        db.execution.status ≠ .waitingApproval ∧ db.execution.status ≠ .waitingInput ∧
        prepareOwned env step worker token now defer forbidWait forbidNewApprovalWait db =
          .ok (result, db') := by
  unfold prepare at h
  split at h
  · cases h
  next step hfind =>
  split at h
  · cases h
  next htype =>
  split at h
  · cases h
    exact .inl ⟨rfl, _, _, rfl⟩
  split at h
  · split at h
    · cases h
      exact .inl ⟨rfl, _, _, rfl⟩
    · cases h
    · cases h
      exact .inl ⟨rfl, _, _, rfl⟩
  next hnotApproval =>
  split at h
  · cases h
    exact .inl ⟨rfl, _, _, rfl⟩
  split at h
  · split at h
    · split at h
      · cases h
        exact .inl ⟨rfl, _, _, rfl⟩
      · cases h
    · cases h
      exact .inl ⟨rfl, _, _, rfl⟩
  next hnotInput =>
  have howned (hres : prepareOwned env step worker token now defer forbidWait forbidNewApprovalWait
      db = .ok (result, db')) : ∃ step, db.steps.find? stepId = some step ∧ step.stepType = .tool ∧
        db.execution.status ≠ .waitingApproval ∧ db.execution.status ≠ .waitingInput ∧
        prepareOwned env step worker token now defer forbidWait forbidNewApprovalWait db =
          .ok (result, db') :=
    ⟨step, hfind, not_not.mp htype, hnotApproval, hnotInput, hres⟩
  split at h
  · next hcancel =>
    split at h
    · next r hr =>
      unfold prepareCancelRequested at hr
      split at hr
      · cases hr
        cases h
        exact .inl ⟨rfl, _, _, rfl⟩
      split at hr
      · cases hr
        cases h
        exact .inl ⟨rfl, _, _, rfl⟩
      next hlease =>
      split at hr
      · next hreq =>
        injection hr with hr
        subst hr
        split at h
        · cases h
        next outcome db₂ hrec =>
        cases h
        exact .inr (.inl ⟨hcancel, by simpa using hlease, hreq, outcome, hrec, rfl⟩)
      · cases hr
    · exact .inr (.inr (howned h))
  · exact .inr (.inr (howned h))

/-! ### The final gate -/

/-- The result of `_final_pre_send_gate`. -/
inductive GateResult where
  | pass
  | failClosed (errorCode : String)
  | outcome (outcome : ToolRunOutcome)
deriving DecidableEq

/-- `_prepared_invocation_lineage_matches`. -/
def preparedInvocationLineageMatches (step : ExecutionStep) (attempt : StepAttempt)
    (toolCall : ToolCall) (p : PreparedCall) : Bool :=
  attempt.stepExecutionId == step.id && toolCall.stepAttemptId == attempt.id &&
    toolCall.remoteRequestId == p.remoteRequestId && toolCall.mcpServerId == p.mcpServerId &&
    toolCall.mcpToolVersionId == p.mcpToolVersionId && toolCall.normalizedStatus == .started &&
    step.status == .running && attempt.status == .started

/-- A STARTED Attempt is failed. -/
def failStartedAttempt (attempt : StepAttempt) (errorCode : String) (now : Time) (db : Db) : Db :=
  if attempt.status = .started then
    db.putAttempt
      { attempt with
        status := .failed
        errorCode := some errorCode
        isRetryable := some false
        finishedAt := some now }
  else db

/-- A STARTED ToolCall is failed. -/
def failStartedToolCall (toolCall : ToolCall) (now : Time) (db : Db) : Db :=
  if toolCall.normalizedStatus = .started then
    db.putToolCall { toolCall with normalizedStatus := .failed, finishedAt := some now }
  else db

/-- `_final_gate_fail_closed_lineage_corruption`; a missing row is skipped. -/
def finalGateFailClosedLineageCorruption (step : Option ExecutionStep)
    (attempt : Option StepAttempt) (toolCall : Option ToolCall) (p : PreparedCall) (now : Time)
    (db : Db) : GateResult × Db :=
  let db := step.elim db fun step => failNonterminalStep step "RESOURCE_CONFLICT" now db
  let db := attempt.elim db fun attempt => failStartedAttempt attempt "RESOURCE_CONFLICT" now db
  let db := toolCall.elim db fun toolCall => failStartedToolCall toolCall now db
  (.outcome (.fatal "RESOURCE_CONFLICT"),
    applyOrDeferExecutionFatal (some "RESOURCE_CONFLICT") now p.deferExecutionTerminalization db)

/-- `_final_pre_send_gate`. `verdict` refuses for authorization, approval or confirmation evidence,
drift of the prepared invocation, transport or endpoint. -/
def finalPreSendGate (verdict : Option String) (p : PreparedCall) (now : Time) (db : Db) :
    Tx GateResult :=
  if !db.execution.ownedInFlight p.workerId p.leaseToken now then
    .ok (.outcome (.noop "LEASE_MISMATCH" (some db.execution.status.value)), db)
  else match db.steps.find? p.stepId, db.attempts.find? p.attemptId,
      db.toolCalls.find? p.toolCallId with
    | some step, some attempt, some toolCall =>
      if !preparedInvocationLineageMatches step attempt toolCall p then
        .ok (finalGateFailClosedLineageCorruption (some step) (some attempt) (some toolCall) p now
          db)
      else if db.execution.cancellationIsRequested then
        match cancelPreparedInvocationBeforeSend step attempt toolCall now db with
        | .error e => .error e
        | .ok (outcome, db) => .ok (.outcome
            { terminalStatus := some StepStatus.cancelled.value
              reason := "CANCEL_REQUESTED"
              disposition := if outcome.status = .cancelRequested then .knownStepFailure
                else .success }, db)
      else match verdict with
        | some errorCode => .ok (.failClosed errorCode, db)
        | none => .ok (.pass, db)
    | step, attempt, toolCall =>
      .ok (finalGateFailClosedLineageCorruption step attempt toolCall p now db)

/-- The gate: no change without ownership, a corrupt lineage, a cancelled call, or no change. -/
theorem finalPreSendGate_ok {verdict : Option String} {p : PreparedCall} {now : Time} {db db' : Db}
    {result : GateResult} (h : finalPreSendGate verdict p now db = .ok (result, db')) :
    (db.execution.ownedInFlight p.workerId p.leaseToken now = false ∧ db' = db ∧
        result = .outcome (.noop "LEASE_MISMATCH" (some db.execution.status.value))) ∨
      (db.execution.ownedInFlight p.workerId p.leaseToken now = true ∧
        ((result, db') = finalGateFailClosedLineageCorruption (db.steps.find? p.stepId)
            (db.attempts.find? p.attemptId) (db.toolCalls.find? p.toolCallId) p now db ∨
          ∃ step attempt toolCall, db.steps.find? p.stepId = some step ∧
            db.attempts.find? p.attemptId = some attempt ∧
            db.toolCalls.find? p.toolCallId = some toolCall ∧
            preparedInvocationLineageMatches step attempt toolCall p = true ∧
            ((db.execution.cancellationIsRequested = true ∧ ∃ outcome,
                cancelPreparedInvocationBeforeSend step attempt toolCall now db =
                  .ok (outcome, db') ∧
                result = .outcome
                  { terminalStatus := some StepStatus.cancelled.value
                    reason := "CANCEL_REQUESTED"
                    disposition := if outcome.status = .cancelRequested then .knownStepFailure
                      else .success }) ∨
              (db.execution.cancellationIsRequested = false ∧ db' = db ∧
                (result = .pass ∨ ∃ errorCode, result = .failClosed errorCode))))) := by
  unfold finalPreSendGate at h
  split at h
  · next howned =>
    cases h
    exact .inl ⟨by simpa using howned, rfl, rfl⟩
  next howned =>
  refine .inr ⟨by simpa using howned, ?_⟩
  split at h
  · next step attempt toolCall hstep hattempt hcall =>
    split at h
    · injection h with h
      rw [hstep, hattempt, hcall]
      exact .inl h.symm
    next hmatch =>
    refine .inr ⟨step, attempt, toolCall, hstep, hattempt, hcall, by simpa using hmatch, ?_⟩
    split at h
    · next hcancel =>
      split at h
      · cases h
      next outcome db₁ hprepared =>
      cases h
      exact .inl ⟨hcancel, outcome, hprepared, rfl⟩
    next hcancel =>
    refine .inr ⟨by simpa using hcancel, ?_⟩
    split at h
    · cases h
      exact ⟨rfl, .inr ⟨_, rfl⟩⟩
    · cases h
      exact ⟨rfl, .inl rfl⟩
  · injection h with h
    exact .inl h.symm

/-! ### Phase C -/

/-- The rows that a finalization writes, when the caller still owns them. -/
def finalizeFence (p : PreparedCall) (now : Time) (db : Db) :
    Option (ExecutionStep × StepAttempt × ToolCall) :=
  match db.steps.find? p.stepId, db.attempts.find? p.attemptId, db.toolCalls.find? p.toolCallId with
  | some step, some attempt, some toolCall =>
    if db.execution.ownedInFlight p.workerId p.leaseToken now ∧
        attempt.stepExecutionId = step.id ∧ toolCall.stepAttemptId = attempt.id ∧
        toolCall.remoteRequestId = p.remoteRequestId ∧ toolCall.mcpServerId = p.mcpServerId ∧
        toolCall.mcpToolVersionId = p.mcpToolVersionId then
      some (step, attempt, toolCall)
    else none
  | _, _, _ => none

/-- The rows behind the fence. -/
theorem finalizeFence_some {p : PreparedCall} {now : Time} {db : Db} {step : ExecutionStep}
    {attempt : StepAttempt} {toolCall : ToolCall}
    (h : finalizeFence p now db = some (step, attempt, toolCall)) :
    db.execution.ownedInFlight p.workerId p.leaseToken now = true ∧
      db.steps.find? p.stepId = some step ∧ db.attempts.find? p.attemptId = some attempt ∧
      db.toolCalls.find? p.toolCallId = some toolCall ∧ attempt.stepExecutionId = step.id ∧
      toolCall.stepAttemptId = attempt.id := by
  unfold finalizeFence at h
  split at h
  · next step' attempt' toolCall' hstep hattempt hcall =>
    split at h
    · next hfence =>
      cases h
      exact ⟨hfence.1, hstep, hattempt, hcall, hfence.2.1, hfence.2.2.1⟩
    · cases h
  · cases h

/-- The end of `_finalize_locked`: the terminal transition, and the reconcile of a cancellation that
waited for the call. -/
def finalizeTerminal (p : PreparedCall) (callEnd : CallEnd) (step : ExecutionStep)
    (attempt : StepAttempt) (toolCall : ToolCall) (risk : RiskClass) (now : Time) (db : Db) :
    Tx ToolRunOutcome :=
  let cancelActive := db.execution.cancellationIsRequested
  let terminal := (callEnd.terminal risk).toStep
  let disposition := callEnd.disposition risk
  let db := applyTerminalTransition step attempt toolCall callEnd risk now
    p.deferExecutionTerminalization db
  if cancelActive ∧ db.execution.status = .cancelRequested ∧
      disposition ≠ .fatalExecutionFailure ∧ terminal ≠ .unknownOutcome then
    match reconcileCancelRequested now db with
    | .error e => .error e
    | .ok (outcome, db) => .ok (
        { terminalStatus := some terminal.value
          reason := if outcome.status = .cancelled then "CANCEL_REQUESTED" else terminal.value
          disposition := disposition }, db)
  else .ok (
    { terminalStatus := some terminal.value
      reason := if terminal = .succeeded then "STEP_SUCCEEDED" else terminal.value
      disposition := disposition }, db)

/-- The error that may be retried: neither a pre-send refusal nor a call under cancellation. -/
def retryError (callEnd : CallEnd) (cancelActive : Bool) : Option McpClientError :=
  callEnd.callError.filter fun e => !e.preSend && !cancelActive

/-- `_finalize_locked`. -/
def finalizeLocked (pinned : Except AppError PinnedToolPolicy) (p : PreparedCall)
    (callEnd : CallEnd) (now : Time) (db : Db) : Tx ToolRunOutcome :=
  match finalizeFence p now db with
  | none => .error (.appError (conflict "Tool Runner finalize fencing failed."))
  | some (step, attempt, toolCall) =>
    match pinned with
    | .error e => .error (.appError e)
    | .ok policy =>
      let risk := policy.riskClass.getD p.riskClass
      match retryError callEnd db.execution.cancellationIsRequested with
      | none => finalizeTerminal p callEnd step attempt toolCall risk now db
      | some e =>
        if decideSafeTransientRetry (some e) (classifyMcpFailure e risk) risk step
            (policy.maxAttempts.getD 1) policy.hasBackoffPolicy now then
          .ok ({ terminalStatus := some (classifyMcpFailure e risk).toStep.value
                 reason := "SAFE_RETRY_READY"
                 disposition := .retry },
            applyRetryCheckpoint step attempt toolCall e risk now db)
        else finalizeTerminal p callEnd step attempt toolCall risk now db

/-- A finalization owns its rows; it ends them, or puts the Step back to READY for a retry. -/
theorem finalizeLocked_ok {pinned : Except AppError PinnedToolPolicy} {p : PreparedCall}
    {callEnd : CallEnd} {now : Time} {db db' : Db} {outcome : ToolRunOutcome}
    (h : finalizeLocked pinned p callEnd now db = .ok (outcome, db')) :
    ∃ step attempt toolCall risk, finalizeFence p now db = some (step, attempt, toolCall) ∧
      ((∃ e, callEnd = .error e ∧ outcome.reason = "SAFE_RETRY_READY" ∧
          outcome.disposition = .retry ∧
          db' = applyRetryCheckpoint step attempt toolCall e risk now db) ∨
        finalizeTerminal p callEnd step attempt toolCall risk now db = .ok (outcome, db')) := by
  unfold finalizeLocked at h
  split at h
  · cases h
  next step attempt toolCall hfence =>
  split at h
  · cases h
  next policy =>
  refine ⟨step, attempt, toolCall, policy.riskClass.getD p.riskClass, hfence, ?_⟩
  dsimp only at h
  split at h
  · exact .inr h
  next e he =>
  split at h
  · cases h
    have hcall : callEnd.callError = some e := (Option.filter_eq_some_iff.mp he).1
    cases callEnd with
    | result r => cases hcall
    | error e' =>
      cases hcall
      exact .inl ⟨e, rfl, rfl, rfl, rfl⟩
  · exact .inr h

/-- A terminal finalization writes the rows of the call, and may finish a cancellation. -/
theorem finalizeTerminal_ok {p : PreparedCall} {callEnd : CallEnd} {step : ExecutionStep}
    {attempt : StepAttempt} {toolCall : ToolCall} {risk : RiskClass} {now : Time} {db db' : Db}
    {outcome : ToolRunOutcome}
    (h : finalizeTerminal p callEnd step attempt toolCall risk now db = .ok (outcome, db')) :
    outcome.terminalStatus = some (callEnd.terminal risk).toStep.value ∧
      outcome.disposition = callEnd.disposition risk ∧ outcome.reason ≠ "SAFE_RETRY_READY" ∧
      let db₁ := applyTerminalTransition step attempt toolCall callEnd risk now
        p.deferExecutionTerminalization db
      (db' = db₁ ∨ (db₁.execution.status = .cancelRequested ∧
        ∃ o, reconcileCancelRequested now db₁ = .ok (o, db'))) := by
  have hvalue (t : StepStatus) : t.value ≠ "SAFE_RETRY_READY" := by
    cases t <;> decide
  unfold finalizeTerminal at h
  dsimp only at h
  split at h
  · next hcancel =>
    split at h
    · cases h
    next o db₁ hrec =>
    cases h
    refine ⟨rfl, rfl, ?_, .inr ⟨hcancel.2.1, o, hrec⟩⟩
    dsimp only
    split
    · decide
    · exact hvalue _
  · cases h
    refine ⟨rfl, rfl, ?_, .inl rfl⟩
    dsimp only
    split
    · decide
    · exact hvalue _

/-- `MAX_MRTR_ROUNDS`. -/
def maxMrtrRounds : ℕ := 8

/-- `NormalizedInputRequired`. `echoesSecret` is the check for protected plaintext. -/
structure InputRequired where
  inputRequests : List (String × Json.Value)
  requestState : Json.Value
  echoesSecret : Bool
deriving DecidableEq

/-- Rows of a call that ended the Attempt and the Step with one status and error code. -/
def settleCallRows (step : ExecutionStep) (attempt : StepAttempt) (toolCall : ToolCall)
    (callStatus status : StepAttemptStatus) (errorCode : String) (now : Time) (db : Db) : Db :=
  let db := db.putToolCall { toolCall with normalizedStatus := callStatus, finishedAt := some now }
  let db := db.putAttempt
    { attempt with
      status := status
      errorCode := some errorCode
      isRetryable := some false
      finishedAt := some now
      workerId := none
      leaseExpiresAt := none }
  db.putStep { step with
    status := status.toStep, errorCode := some errorCode, finishedAt := some now }

/-- The round that a completed `input_required` call closes. -/
def mrtrRoundNo (db : Db) (attempt : StepAttempt) (toolCall : ToolCall) : ℕ :=
  ((db.listToolCalls attempt.id).filter fun c =>
    c.id ≠ toolCall.id ∧ c.normalizedStatus = .succeeded).length + 1

/-- The MCPInputRequest of a completed `input_required` call. -/
def newInputRequest (db : Db) (step : ExecutionStep) (attempt : StepAttempt) (toolCall : ToolCall)
    (mrtr : InputRequired) (requestId : UUID) (status : McpInputRequestStatus) (now : Time) :
    McpInputRequest where
  id := requestId
  executionId := db.execution.id
  stepExecutionId := step.id
  stepAttemptId := attempt.id
  inputRequests := mrtr.inputRequests
  requestState := mrtr.requestState
  roundNo := mrtrRoundNo db attempt toolCall
  status := status
  responsePayload := none
  requestedAt := now
  expiresAt := match step.startedAt with
    | some startedAt => startedAt + step.stepSnapshot.timeoutSeconds * 1000000
    | none => now
  answeredAt := none
  answeredBy := none

/-- A fatal end of an `input_required` call. -/
def mrtrFatal (step : ExecutionStep) (attempt : StepAttempt) (toolCall : ToolCall)
    (status : StepAttemptStatus) (errorCode : String) (now : Time) (defer : Bool) (db : Db) :
    ToolRunOutcome × Db :=
  ({ terminalStatus := some status.toStep.value
     reason := errorCode
     disposition := .fatalExecutionFailure },
    applyOrDeferExecutionFatal (some errorCode) now defer
      (settleCallRows step attempt toolCall status status errorCode now db))

/-- `_finalize_input_required` once the Execution may wait: the network round is complete, the
Attempt stays STARTED, and the Execution waits without a lease. -/
def openInputWait (step : ExecutionStep) (attempt : StepAttempt) (toolCall : ToolCall)
    (mrtr : InputRequired) (requestId : UUID) (now : Time) (db : Db) : Tx ToolRunOutcome :=
  if db.listOpenForStep step.id ≠ [] then
    .error (.appError (conflict "Cannot open a second OPEN MCPInputRequest."))
  else
    let request := newInputRequest db step attempt toolCall mrtr requestId .open now
    let db := db.putToolCall { toolCall with normalizedStatus := .succeeded, finishedAt := some now }
    let db := db.putAttempt { attempt with workerId := none, leaseExpiresAt := none }
    let db := db.putStep
      { step with status := .waitingInput, finishedAt := none, errorCode := none }
    let db := db.putExecution
      { db.execution.clearLease with
        status := .waitingInput
        finishedAt := none
        errorCode := none }
    match db.insertInputRequest request with
    | .error e => .error e
    | .ok db => .ok (
        { terminalStatus := some StepStatus.waitingInput.value
          reason := "WAITING_INPUT"
          disposition := .wait }, db)

/-- `_finalize_input_required`. -/
def finalizeInputRequired (p : PreparedCall) (mrtr : InputRequired) (requestId : UUID) (now : Time)
    (db : Db) : Tx ToolRunOutcome :=
  match finalizeFence p now db with
  | none => .error (.appError (conflict "Tool Runner MRTR finalize fencing failed."))
  | some (step, attempt, toolCall) =>
    let defer := p.deferExecutionTerminalization
    if mrtr.echoesSecret then
      .ok (mrtrFatal { step with resultInline := none } { attempt with resultInline := none }
        toolCall .failed "MCP_MRTR_SECRET_ECHO" now defer db)
    else if db.execution.cancellationIsRequested then
      match settleInputRequiredAfterCancel step attempt toolCall now db with
      | .error e => .error e
      | .ok (outcome, db) => .ok (
          { terminalStatus := some StepStatus.cancelled.value
            reason := "CANCEL_REQUESTED"
            disposition := if outcome.status = .cancelled then .success else .knownStepFailure }, db)
    else if stepTimeoutBudgetExhausted step.startedAt step.stepSnapshot.timeoutSeconds now then
      let request := newInputRequest db step attempt toolCall mrtr requestId .expired now
      match db.insertInputRequest request with
      | .error e => .error e
      | .ok db =>
        let db := settleCallRows step attempt toolCall .succeeded .timedOut "STEP_TIMEOUT" now db
        .ok ({ terminalStatus := some StepStatus.timedOut.value
               reason := "STEP_TIMEOUT"
               disposition := .knownStepFailure },
          db.putExecution { db.execution with heartbeatAt := some now })
    else if step.startedAt = none then .error .assertionError
    else if maxMrtrRounds < mrtrRoundNo db attempt toolCall then
      .ok (mrtrFatal step attempt toolCall .failed "MAX_MRTR_ROUNDS_EXCEEDED" now defer db)
    else if p.forbidExecutionWait then
      .ok (mrtrFatal step attempt toolCall .unknownOutcome "DAG_WAIT_UNSUPPORTED" now defer db)
    else openInputWait step attempt toolCall mrtr requestId now db

/-- A completed `input_required` call under the fence. -/
theorem finalizeInputRequired_ok {p : PreparedCall} {mrtr : InputRequired} {requestId : UUID}
    {now : Time} {db db' : Db} {outcome : ToolRunOutcome}
    (h : finalizeInputRequired p mrtr requestId now db = .ok (outcome, db')) :
    ∃ step attempt toolCall, finalizeFence p now db = some (step, attempt, toolCall) ∧
      ((∃ s a status errorCode, SameStep step s ∧ a.id = attempt.id ∧
          a.stepExecutionId = attempt.stepExecutionId ∧ status ≠ .started ∧
          status ≠ .succeeded ∧
          (outcome, db') = mrtrFatal s a toolCall status errorCode now
            p.deferExecutionTerminalization db) ∨
        (db.execution.cancellationIsRequested = true ∧ ∃ o,
          settleInputRequiredAfterCancel step attempt toolCall now db = .ok (o, db')) ∨
        (∃ db₁, db.insertInputRequest (newInputRequest db step attempt toolCall mrtr requestId
            .expired now) = .ok db₁ ∧
          db' = (settleCallRows step attempt toolCall .succeeded .timedOut "STEP_TIMEOUT" now
            db₁).putExecution { db₁.execution with heartbeatAt := some now }) ∨
        (p.forbidExecutionWait = false ∧ db.execution.cancellationIsRequested = false ∧
          openInputWait step attempt toolCall mrtr requestId now db = .ok (outcome, db'))) := by
  unfold finalizeInputRequired at h
  split at h
  · cases h
  next step attempt toolCall hfence =>
  refine ⟨step, attempt, toolCall, hfence, ?_⟩
  dsimp only at h
  split at h
  · injection h with h
    exact .inl ⟨{ step with resultInline := none }, { attempt with resultInline := none }, .failed,
      _, rfl, rfl, rfl, by simp, by simp, h.symm⟩
  split at h
  · next hcancel =>
    split at h
    · cases h
    next o db₁ hsettle =>
    cases h
    exact .inr (.inl ⟨hcancel, o, hsettle⟩)
  next hcancel =>
  split at h
  · split at h
    · cases h
    next db₁ hinsert =>
    cases h
    exact .inr (.inr (.inl ⟨db₁, hinsert, rfl⟩))
  split at h
  · cases h
  split at h
  · injection h with h
    exact .inl ⟨_, _, .failed, _, rfl, rfl, rfl, by simp, by simp, h.symm⟩
  split at h
  · injection h with h
    exact .inl ⟨_, _, .unknownOutcome, _, rfl, rfl, rfl, by simp, by simp, h.symm⟩
  next hforbid =>
  exact .inr (.inr (.inr ⟨by simpa using hforbid, by simpa using hcancel, h⟩))

/-- The wait that an `input_required` call opens. -/
theorem openInputWait_ok {step : ExecutionStep} {attempt : StepAttempt} {toolCall : ToolCall}
    {mrtr : InputRequired} {requestId : UUID} {now : Time} {db db' : Db} {outcome : ToolRunOutcome}
    (h : openInputWait step attempt toolCall mrtr requestId now db = .ok (outcome, db')) :
    ∃ inputRequests, db.inputRequests.insert? (newInputRequest db step attempt toolCall mrtr
        requestId .open now) = some inputRequests ∧
      db' = { ((((db.putToolCall
          { toolCall with normalizedStatus := .succeeded, finishedAt := some now }).putAttempt
          { attempt with workerId := none, leaseExpiresAt := none }).putStep
          { step with status := .waitingInput, finishedAt := none, errorCode := none }).putExecution
          { db.execution.clearLease with
            status := .waitingInput, finishedAt := none, errorCode := none }) with
        inputRequests := inputRequests } := by
  unfold openInputWait at h
  split at h
  · cases h
  dsimp only at h
  split at h
  · cases h
  next db₁ hinsert =>
  cases h
  obtain ⟨inputRequests, hrows, rfl⟩ := Db.insertInputRequest_ok hinsert
  exact ⟨inputRequests, hrows, rfl⟩

/-! ### The lease heartbeat -/

/-- `renew_lease`. -/
def renewLease (leaseSeconds : ℕ) (worker : String) (token : UUID) (now : Time) (db : Db) :
    Tx Unit :=
  if db.execution.status = .running ∧ db.execution.holdsLease worker token now then
    .ok ((), db.putExecution
      { db.execution with
        heartbeatAt := some now
        leaseExpiresAt := some (now + leaseSeconds * 1000000) })
  else .error (.appError (conflict "Execution lease cannot be renewed."))

/-- A renewal moves the expiry of the lease of a RUNNING Execution. -/
theorem renewLease_ok {leaseSeconds : ℕ} {worker : String} {token : UUID} {now : Time} {db db' : Db}
    (h : renewLease leaseSeconds worker token now db = .ok ((), db')) :
    db.execution.status = .running ∧ ∃ e : Execution, db' = db.putExecution e ∧
      e.id = db.execution.id ∧ e.status = db.execution.status ∧
      e.leaseToken = db.execution.leaseToken := by
  unfold renewLease at h
  split at h
  · next hrunning =>
    cases h
    exact ⟨hrunning.1, _, rfl, rfl, rfl, rfl⟩
  · cases h

end McpFlow
