import McpFlow.Execution.State

/-!
# Bounded safe retry

The in-process retry decision of the runner, from the pinned policy of the Step and the evidence
of the completed Attempt.
-/

namespace McpFlow

/-- `MCPClientError`. `preSend` marks a `_PreSendFailClosed`, decided before any network call. -/
structure McpClientError where
  errorLayer : String
  errorCode : String
  retryable : Bool
  outcomeUnknown : Bool
  preSend : Bool
deriving DecidableEq, Repr

/-- `_PreSendFailClosed`. -/
def McpClientError.preSendFailClosed (errorCode : String) : McpClientError :=
  ⟨"PROTOCOL", errorCode, false, false, true⟩

/-- The members of a pinned ToolPolicy snapshot that the runner and the orchestrator read.
`riskClass`, `maxAttempts` and `requiresApproval` are absent when the stored member is invalid. -/
structure PinnedToolPolicy where
  riskClass : Option RiskClass
  maxAttempts : Option ℕ
  hasBackoffPolicy : Bool
  requiresApproval : Option Bool
deriving DecidableEq

/-- `is_normal_auto_retry_risk`. -/
def RiskClass.isNormalAutoRetryRisk : RiskClass → Bool
  | .readOnly => true
  | .idempotentWrite | .nonIdempotentWrite | .destructive | .unknown => false

/-- `_SAFE_RISK_CLASSES`. -/
def RiskClass.isSafe : RiskClass → Bool
  | .readOnly | .idempotentWrite => true
  | .nonIdempotentWrite | .destructive | .unknown => false

/-- `can_safe_retry`. -/
def canSafeRetry (attemptCount maxAttempts : ℕ) : Bool :=
  if maxAttempts < 1 then false else attemptCount < maxAttempts

/-- `step_timeout_budget_exhausted`. -/
def stepTimeoutBudgetExhausted (startedAt : Option Time) (timeoutSeconds : ℕ) (now : Time) : Bool :=
  match startedAt with
  | none => false
  | some startedAt => timeoutSeconds * 1000000 ≤ now - startedAt

/-- `remaining_step_timeout_ms`. -/
def remainingStepTimeoutMs (startedAt : Option Time) (timeoutSeconds policyTimeoutMs : ℕ)
    (now : Time) : ℕ :=
  if policyTimeoutMs < 1 then 1
  else match startedAt with
    | none => policyTimeoutMs
    | some startedAt => min policyTimeoutMs (timeoutSeconds * 1000 - (now - startedAt) / 1000)

/-- `_classify_mcp_failure`. -/
def classifyMcpFailure (e : McpClientError) (risk : RiskClass) : StepAttemptStatus :=
  if e.outcomeUnknown && !risk.isSafe then .unknownOutcome
  else if e.errorLayer == "TIMEOUT" && risk.isSafe then .timedOut
  else .failed

/-- A failure is no success. -/
theorem classifyMcpFailure_ne_succeeded (e : McpClientError) (risk : RiskClass) :
    classifyMcpFailure e risk ≠ .succeeded := by
  unfold classifyMcpFailure
  split
  · simp
  · split <;> simp

/-- A classified call has ended. -/
theorem classifyMcpFailure_ne_started (e : McpClientError) (risk : RiskClass) :
    classifyMcpFailure e risk ≠ .started := by
  unfold classifyMcpFailure
  split
  · simp
  · split <;> simp

/-- The `schedule_retry` of `decide_safe_transient_retry`. -/
def decideSafeTransientRetry (callError : Option McpClientError) (classified : StepAttemptStatus)
    (risk : RiskClass) (step : ExecutionStep) (maxAttempts : ℕ) (hasBackoffPolicy : Bool)
    (now : Time) : Bool :=
  match callError with
  | none => false
  | some e =>
    classified != .unknownOutcome && classified != .succeeded && e.retryable &&
      risk.isNormalAutoRetryRisk && !hasBackoffPolicy &&
      canSafeRetry step.attemptCount maxAttempts &&
      !stepTimeoutBudgetExhausted step.startedAt step.stepSnapshot.timeoutSeconds now

theorem decideSafeTransientRetry_none (classified : StepAttemptStatus) (risk : RiskClass)
    (step : ExecutionStep) (maxAttempts : ℕ) (hasBackoffPolicy : Bool) (now : Time) :
    decideSafeTransientRetry none classified risk step maxAttempts hasBackoffPolicy now = false :=
  rfl

end McpFlow
