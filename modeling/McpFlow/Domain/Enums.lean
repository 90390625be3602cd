/-!
# Status and kind enumerations

The string enumerations of the persisted rows. `value` is the stored text of a member; it is
given for the enumerations whose text enters a JSON document.
-/

namespace McpFlow

/-- `executions.status`. -/
inductive ExecutionStatus where
  | created
  | queued
  | running
  | waitingInput
  | waitingApproval
  | cancelRequested
  | succeeded
  | partiallySucceeded
  | failed
  | cancelled
  | timedOut
deriving DecidableEq, Repr

/-- `execution_steps.status`. -/
inductive StepStatus where
  | pending
  | ready
  | running
  | waitingInput
  | waitingApproval
  | succeeded
  | failed
  | skipped
  | timedOut
  | cancelled
  | unknownOutcome
deriving DecidableEq, Repr

/-- `step_attempts.status`, and `tool_calls.normalized_status` which is aligned with it. -/
inductive StepAttemptStatus where
  | started
  | succeeded
  | failed
  | timedOut
  | cancelled
  | unknownOutcome
deriving DecidableEq, Repr

/-- `approval_requests.status`. -/
inductive ApprovalStatus where
  | pending
  | approved
  | rejected
  | expired
  | cancelled
deriving DecidableEq, Repr

/-- `mcp_input_requests.status`. -/
inductive McpInputRequestStatus where
  | open
  | answered
  | rejected
  | expired
  | unsupported
deriving DecidableEq, Repr

/-- `approval_policies.status`. -/
inductive ApprovalPolicyStatus where
  | active
  | inactive
deriving DecidableEq, Repr

/-- `approval_policies.decision_mode`. -/
inductive ApprovalDecisionMode where
  | any
  | all
  | quorum
deriving DecidableEq, Repr

/-- `mcp_tool_policies.risk_class`. -/
inductive RiskClass where
  | readOnly
  | idempotentWrite
  | nonIdempotentWrite
  | destructive
  | unknown
deriving DecidableEq, Repr

/-- `executions.source_type`. -/
inductive ExecutionSourceType where
  | agentRequest
  | workflowVersion
  | scheduleOccurrence
  | manualToolTest
  | factoryTest
deriving DecidableEq, Repr

/-- `executions.trigger_type`. -/
inductive ExecutionTriggerType where
  | user
  | schedule
  | retry
  | system
  | test
deriving DecidableEq, Repr

/-- Persisted step types of an Execution Plan. -/
inductive AuthorableStepType where
  | tool
  | condition
  | join
  | approval
  | loop
deriving DecidableEq, Repr

/-- The success rule of a JOIN. -/
inductive JoinPolicy where
  | allSuccess
  | allComplete
  | anySuccess
deriving DecidableEq, Repr

/-- The two LOOP forms. -/
inductive LoopMode where
  | forEach
  | while
deriving DecidableEq, Repr

/-- `on_error` of a plan step. -/
inductive PlanOnError where
  | failExecution
  | markPartial
  | continue
deriving DecidableEq, Repr

/-- The stored text of an execution status. -/
def ExecutionStatus.value : ExecutionStatus → String
  | created => "CREATED"
  | queued => "QUEUED"
  | running => "RUNNING"
  | waitingInput => "WAITING_INPUT"
  | waitingApproval => "WAITING_APPROVAL"
  | cancelRequested => "CANCEL_REQUESTED"
  | succeeded => "SUCCEEDED"
  | partiallySucceeded => "PARTIALLY_SUCCEEDED"
  | failed => "FAILED"
  | cancelled => "CANCELLED"
  | timedOut => "TIMED_OUT"

namespace StepStatus

/-- The stored text of a step status. -/
def value : StepStatus → String
  | pending => "PENDING"
  | ready => "READY"
  | running => "RUNNING"
  | waitingInput => "WAITING_INPUT"
  | waitingApproval => "WAITING_APPROVAL"
  | succeeded => "SUCCEEDED"
  | failed => "FAILED"
  | skipped => "SKIPPED"
  | timedOut => "TIMED_OUT"
  | cancelled => "CANCELLED"
  | unknownOutcome => "UNKNOWN_OUTCOME"

/-- Every step status. -/
def all : List StepStatus :=
  [pending, ready, running, waitingInput, waitingApproval, succeeded, failed, skipped, timedOut,
    cancelled, unknownOutcome]

theorem mem_all (s : StepStatus) : s ∈ all := by
  cases s <;> decide

/-- The status of a stored text. -/
def ofValue? (text : String) : Option StepStatus := all.find? (·.value = text)

end StepStatus

namespace AuthorableStepType

/-- The stored text of a step type. -/
def value : AuthorableStepType → String
  | tool => "TOOL"
  | condition => "CONDITION"
  | join => "JOIN"
  | approval => "APPROVAL"
  | loop => "LOOP"

/-- Every step type. -/
def all : List AuthorableStepType := [tool, condition, join, approval, loop]

theorem mem_all (t : AuthorableStepType) : t ∈ all := by
  cases t <;> decide

end AuthorableStepType

/-- The stored text of a source type. -/
def ExecutionSourceType.value : ExecutionSourceType → String
  | agentRequest => "AGENT_REQUEST"
  | workflowVersion => "WORKFLOW_VERSION"
  | scheduleOccurrence => "SCHEDULE_OCCURRENCE"
  | manualToolTest => "MANUAL_TOOL_TEST"
  | factoryTest => "FACTORY_TEST"

/-- The stored text of a trigger type. -/
def ExecutionTriggerType.value : ExecutionTriggerType → String
  | user => "USER"
  | schedule => "SCHEDULE"
  | retry => "RETRY"
  | system => "SYSTEM"
  | test => "TEST"

/-- The stored text of a risk class. -/
def RiskClass.value : RiskClass → String
  | readOnly => "READ_ONLY"
  | idempotentWrite => "IDEMPOTENT_WRITE"
  | nonIdempotentWrite => "NON_IDEMPOTENT_WRITE"
  | destructive => "DESTRUCTIVE"
  | unknown => "UNKNOWN"

/-- The stored text of an approval policy status. -/
def ApprovalPolicyStatus.value : ApprovalPolicyStatus → String
  | active => "ACTIVE"
  | inactive => "INACTIVE"

/-- The stored text of a decision mode. -/
def ApprovalDecisionMode.value : ApprovalDecisionMode → String
  | any => "ANY"
  | all => "ALL"
  | quorum => "QUORUM"

end McpFlow
