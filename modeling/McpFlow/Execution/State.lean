import McpFlow.Domain.Rows
import McpFlow.Library.Table

/-!
# The rows of one Execution

A transaction of the engine locks the Execution row first, so it runs alone on the rows of its
Execution: it is a function of `Db`, and one that raises leaves them as they were. The rows
reference only one another and the catalog tables; what a transaction reads from the catalog (tool
versions, servers, policies, users) is an argument of it.

Rows stand in the order in which `list_steps`, `list_attempts` and `list_tool_calls` return them:
`sequence_hint`, `attempt_no` and `started_at` grow with every insertion.
-/

namespace McpFlow

/-- `AppError`. -/
structure AppError where
  code : String
  message : String
deriving DecidableEq, Repr

/-- What ends a transaction with a rollback. -/
inductive Raised where
  | appError (e : AppError)
  /-- A unique constraint or a foreign key of the schema. -/
  | integrityError
  /-- A failed `assert`. -/
  | assertionError
deriving DecidableEq, Repr

/-- The `RESOURCE_CONFLICT` error. -/
def conflict (message : String) : AppError := ⟨"RESOURCE_CONFLICT", message⟩

/-- The rows of one Execution. -/
structure Db where
  execution : Execution
  steps : Table ExecutionStep.id
  attempts : Table StepAttempt.id
  toolCalls : Table ToolCall.id
  approvals : Table ApprovalRequest.id
  inputRequests : Table McpInputRequest.id

/-- A transaction: a result and the committed rows, or a rollback. -/
abbrev Tx (α : Type) := Except Raised (α × Db)

/-- The rows after a transaction. -/
def Db.commit {α : Type} (db : Db) : Tx α → Db
  | .ok (_, db') => db'
  | .error _ => db

@[simp] theorem Db.commit_ok {α : Type} (db db' : Db) (a : α) : db.commit (.ok (a, db')) = db' := rfl

@[simp] theorem Db.commit_error {α : Type} (db : Db) (e : Raised) :
    db.commit (.error e : Tx α) = db := rfl

/-! ### Status classes -/

/-- `_TERMINAL_EXECUTION`. -/
def ExecutionStatus.isTerminal : ExecutionStatus → Bool
  | succeeded | partiallySucceeded | failed | timedOut | cancelled => true
  | created | queued | running | waitingInput | waitingApproval | cancelRequested => false

/-- `_TERMINAL_STEP`. -/
def StepStatus.isTerminal : StepStatus → Bool
  | succeeded | failed | timedOut | unknownOutcome | skipped | cancelled => true
  | pending | ready | running | waitingInput | waitingApproval => false

/-- The Step status named like an Attempt status. -/
def StepAttemptStatus.toStep : StepAttemptStatus → StepStatus
  | started => .running
  | succeeded => .succeeded
  | failed => .failed
  | timedOut => .timedOut
  | cancelled => .cancelled
  | unknownOutcome => .unknownOutcome

/-! ### The lease -/

/-- The stored lease is the one of `worker` and `token`, and has not expired. -/
def Execution.holdsLease (e : Execution) (worker : String) (token : UUID) (now : Time) : Bool :=
  e.workerId == some worker && e.leaseToken == some token &&
    match e.leaseExpiresAt with
    | none => false
    | some expiresAt => now < expiresAt

/-- `_clear_execution_lease`. -/
def Execution.clearLease (e : Execution) : Execution :=
  { e with workerId := none, leaseToken := none, leaseExpiresAt := none, heartbeatAt := none }

/-- A fresh lease of `lease_seconds`. -/
def Execution.assignLease (e : Execution) (worker : String) (token : UUID) (now : Time)
    (leaseSeconds : ℕ) : Execution :=
  { e with
    workerId := some worker
    leaseToken := some token
    leaseExpiresAt := some (now + leaseSeconds * 1000000)
    heartbeatAt := some now }

/-- No column of the lease is set. -/
def Execution.leaseCleared (e : Execution) : Bool :=
  e.workerId.isNone && e.leaseToken.isNone && e.leaseExpiresAt.isNone && e.heartbeatAt.isNone

theorem Execution.holdsLease_iff {e : Execution} {worker : String} {token : UUID} {now : Time} :
    e.holdsLease worker token now = true ↔ e.workerId = some worker ∧ e.leaseToken = some token ∧
      ∃ expiresAt, e.leaseExpiresAt = some expiresAt ∧ now < expiresAt := by
  unfold holdsLease
  cases e.leaseExpiresAt <;> simp [and_assoc]

theorem Execution.leaseToken_of_leaseCleared {e : Execution} (h : e.leaseCleared = true) :
    e.leaseToken = none := by
  simp only [leaseCleared, Bool.and_eq_true, Option.isNone_iff_eq_none] at h
  exact h.1.1.2

@[simp] theorem Execution.leaseCleared_clearLease (e : Execution) : e.clearLease.leaseCleared := rfl

@[simp] theorem Execution.status_clearLease (e : Execution) : e.clearLease.status = e.status := rfl

@[simp] theorem Execution.errorCode_clearLease (e : Execution) :
    e.clearLease.errorCode = e.errorCode := rfl

/-! ### The fixed part of a Step -/

/-- What the creation of a Step row fixes. -/
structure StepOrigin where
  id : UUID
  stepKey : String
  stepType : AuthorableStepType
  mcpToolVersionId : Option UUID
  parentStepId : Option UUID
  stepSnapshot : ExecutionPlanStep
  iterationNo : Option ℕ

/-- The fixed part of a Step row. -/
def ExecutionStep.origin (s : ExecutionStep) : StepOrigin :=
  ⟨s.id, s.stepKey, s.stepType, s.mcpToolVersionId, s.parentStepId, s.stepSnapshot, s.iterationNo⟩

/-- Two states of one Step row. -/
def SameStep (s s' : ExecutionStep) : Prop := s'.origin = s.origin

namespace SameStep

variable {s t u : ExecutionStep}

theorem refl (s : ExecutionStep) : SameStep s s := rfl

theorem trans (h : SameStep s t) (h' : SameStep t u) : SameStep s u := Eq.trans h' h

theorem id (h : SameStep s t) : t.id = s.id := congrArg StepOrigin.id h

theorem stepKey (h : SameStep s t) : t.stepKey = s.stepKey := congrArg StepOrigin.stepKey h

theorem stepType (h : SameStep s t) : t.stepType = s.stepType := congrArg StepOrigin.stepType h

theorem parentStepId (h : SameStep s t) : t.parentStepId = s.parentStepId :=
  congrArg StepOrigin.parentStepId h

theorem stepSnapshot (h : SameStep s t) : t.stepSnapshot = s.stepSnapshot :=
  congrArg StepOrigin.stepSnapshot h

theorem iterationNo (h : SameStep s t) : t.iterationNo = s.iterationNo :=
  congrArg StepOrigin.iterationNo h

end SameStep

/-! ### Reading and writing rows -/

namespace Db

/-- Write the Execution row. -/
def putExecution (db : Db) (e : Execution) : Db := { db with execution := e }

/-- Write a Step row. -/
def putStep (db : Db) (s : ExecutionStep) : Db := { db with steps := db.steps.put s }

/-- Write an Attempt row. -/
def putAttempt (db : Db) (a : StepAttempt) : Db := { db with attempts := db.attempts.put a }

/-- Write a ToolCall row. -/
def putToolCall (db : Db) (c : ToolCall) : Db := { db with toolCalls := db.toolCalls.put c }

/-- Write an ApprovalRequest row. -/
def putApproval (db : Db) (r : ApprovalRequest) : Db := { db with approvals := db.approvals.put r }

/-- Write an MCPInputRequest row. -/
def putInputRequest (db : Db) (r : McpInputRequest) : Db :=
  { db with inputRequests := db.inputRequests.put r }

/-- `list_attempts`. -/
def listAttempts (db : Db) (stepId : UUID) : List StepAttempt :=
  db.attempts.rows.filter (·.stepExecutionId = stepId)

/-- `list_tool_calls`. -/
def listToolCalls (db : Db) (attemptId : UUID) : List ToolCall :=
  db.toolCalls.rows.filter (·.stepAttemptId = attemptId)

/-- `get_started_attempt`: the one with the highest `attempt_no`. -/
def getStartedAttempt (db : Db) (stepId : UUID) : Option StepAttempt :=
  ((db.listAttempts stepId).filter (·.status = .started)).getLast?

/-- `list_started_tool_calls`. -/
def listStartedToolCalls (db : Db) : List ToolCall :=
  db.toolCalls.rows.filter (·.normalizedStatus = .started)

/-- The Attempt has a STARTED ToolCall. -/
def attemptHasStartedToolCall (db : Db) (attemptId : UUID) : Bool :=
  db.toolCalls.rows.any fun c => c.stepAttemptId = attemptId ∧ c.normalizedStatus = .started

/-- `step_has_started_tool_call`. -/
def stepHasStartedToolCall (db : Db) (stepId : UUID) : Bool :=
  (db.listAttempts stepId).any fun a => db.attemptHasStartedToolCall a.id

/-- `list_open_for_step`. -/
def listOpenForStep (db : Db) (stepId : UUID) : List McpInputRequest :=
  db.inputRequests.rows.filter fun r =>
    r.executionId = db.execution.id ∧ r.stepExecutionId = stepId ∧ r.status = .open

section Writes

variable (db : Db) (e : Execution) (s : ExecutionStep) (a : StepAttempt) (c : ToolCall)
  (r : ApprovalRequest) (q : McpInputRequest)

@[simp] theorem execution_putExecution : (db.putExecution e).execution = e := rfl
@[simp] theorem steps_putExecution : (db.putExecution e).steps = db.steps := rfl
@[simp] theorem attempts_putExecution : (db.putExecution e).attempts = db.attempts := rfl
@[simp] theorem toolCalls_putExecution : (db.putExecution e).toolCalls = db.toolCalls := rfl
@[simp] theorem approvals_putExecution : (db.putExecution e).approvals = db.approvals := rfl
@[simp] theorem inputRequests_putExecution :
    (db.putExecution e).inputRequests = db.inputRequests := rfl

@[simp] theorem execution_putStep : (db.putStep s).execution = db.execution := rfl
@[simp] theorem steps_putStep : (db.putStep s).steps = db.steps.put s := rfl
@[simp] theorem attempts_putStep : (db.putStep s).attempts = db.attempts := rfl
@[simp] theorem toolCalls_putStep : (db.putStep s).toolCalls = db.toolCalls := rfl
@[simp] theorem approvals_putStep : (db.putStep s).approvals = db.approvals := rfl
@[simp] theorem inputRequests_putStep : (db.putStep s).inputRequests = db.inputRequests := rfl

@[simp] theorem execution_putAttempt : (db.putAttempt a).execution = db.execution := rfl
@[simp] theorem steps_putAttempt : (db.putAttempt a).steps = db.steps := rfl
@[simp] theorem attempts_putAttempt : (db.putAttempt a).attempts = db.attempts.put a := rfl
@[simp] theorem toolCalls_putAttempt : (db.putAttempt a).toolCalls = db.toolCalls := rfl
@[simp] theorem approvals_putAttempt : (db.putAttempt a).approvals = db.approvals := rfl
@[simp] theorem inputRequests_putAttempt :
    (db.putAttempt a).inputRequests = db.inputRequests := rfl

@[simp] theorem execution_putToolCall : (db.putToolCall c).execution = db.execution := rfl
@[simp] theorem steps_putToolCall : (db.putToolCall c).steps = db.steps := rfl
@[simp] theorem attempts_putToolCall : (db.putToolCall c).attempts = db.attempts := rfl
@[simp] theorem toolCalls_putToolCall : (db.putToolCall c).toolCalls = db.toolCalls.put c := rfl
@[simp] theorem approvals_putToolCall : (db.putToolCall c).approvals = db.approvals := rfl
@[simp] theorem inputRequests_putToolCall :
    (db.putToolCall c).inputRequests = db.inputRequests := rfl

@[simp] theorem execution_putApproval : (db.putApproval r).execution = db.execution := rfl
@[simp] theorem steps_putApproval : (db.putApproval r).steps = db.steps := rfl
@[simp] theorem attempts_putApproval : (db.putApproval r).attempts = db.attempts := rfl
@[simp] theorem toolCalls_putApproval : (db.putApproval r).toolCalls = db.toolCalls := rfl
@[simp] theorem approvals_putApproval : (db.putApproval r).approvals = db.approvals.put r := rfl
@[simp] theorem inputRequests_putApproval :
    (db.putApproval r).inputRequests = db.inputRequests := rfl

@[simp] theorem execution_putInputRequest : (db.putInputRequest q).execution = db.execution := rfl
@[simp] theorem steps_putInputRequest : (db.putInputRequest q).steps = db.steps := rfl
@[simp] theorem attempts_putInputRequest : (db.putInputRequest q).attempts = db.attempts := rfl
@[simp] theorem toolCalls_putInputRequest : (db.putInputRequest q).toolCalls = db.toolCalls := rfl
@[simp] theorem approvals_putInputRequest : (db.putInputRequest q).approvals = db.approvals := rfl
@[simp] theorem inputRequests_putInputRequest :
    (db.putInputRequest q).inputRequests = db.inputRequests.put q := rfl

end Writes

/-- Step rows that are written one after another. -/
theorem foldl_putStep (f : ExecutionStep → ExecutionStep) (l : List ExecutionStep) (db : Db) :
    l.foldl (fun db s => db.putStep (f s)) db =
      { db with steps := l.foldl (fun t s => t.put (f s)) db.steps } := by
  induction l generalizing db with
  | nil => rfl
  | cons s l ih => exact ih (db.putStep (f s))

/-! ### Inserting rows -/

/-- Insert an Attempt; `(step_execution_id, attempt_no)` is unique. -/
def insertAttempt (db : Db) (a : StepAttempt) : Except Raised Db :=
  if db.attempts.rows.any fun b =>
      b.stepExecutionId = a.stepExecutionId ∧ b.attemptNo = a.attemptNo then
    .error .integrityError
  else match db.attempts.insert? a with
    | none => .error .integrityError
    | some attempts => .ok { db with attempts := attempts }

/-- Insert a ToolCall; `(step_attempt_id, remote_request_id)` is unique. -/
def insertToolCall (db : Db) (c : ToolCall) : Except Raised Db :=
  if db.toolCalls.rows.any fun d =>
      d.stepAttemptId = c.stepAttemptId ∧ d.remoteRequestId = c.remoteRequestId then
    .error .integrityError
  else match db.toolCalls.insert? c with
    | none => .error .integrityError
    | some toolCalls => .ok { db with toolCalls := toolCalls }

/-- Insert an MCPInputRequest; at most one of a Step is OPEN. -/
def insertInputRequest (db : Db) (r : McpInputRequest) : Except Raised Db :=
  if r.status = .open ∧ (db.inputRequests.rows.any fun q =>
      q.stepExecutionId = r.stepExecutionId ∧ q.status = .open) then
    .error .integrityError
  else match db.inputRequests.insert? r with
    | none => .error .integrityError
    | some inputRequests => .ok { db with inputRequests := inputRequests }

/-- Insert an ApprovalRequest; at most one of a Step is PENDING. -/
def insertApproval (db : Db) (r : ApprovalRequest) : Except Raised Db :=
  if r.status = .pending ∧ (db.approvals.rows.any fun q =>
      q.stepExecutionId = r.stepExecutionId ∧ q.status = .pending) then
    .error .integrityError
  else match db.approvals.insert? r with
    | none => .error .integrityError
    | some approvals => .ok { db with approvals := approvals }

/-- Insert a Step; `(execution_id, step_key)` is unique. -/
def insertStep (db : Db) (s : ExecutionStep) : Except Raised Db :=
  if db.steps.rows.any fun t => t.stepKey = s.stepKey then .error .integrityError
  else match db.steps.insert? s with
    | none => .error .integrityError
    | some steps => .ok { db with steps := steps }

theorem insertAttempt_ok {db db' : Db} {a : StepAttempt} (h : db.insertAttempt a = .ok db') :
    (∀ b ∈ db.attempts, b.stepExecutionId = a.stepExecutionId → b.attemptNo ≠ a.attemptNo) ∧
      ∃ attempts, db.attempts.insert? a = some attempts ∧ db' = { db with attempts := attempts } := by
  unfold insertAttempt at h
  split at h
  · cases h
  · next hany =>
    simp only [List.any_eq_true, decide_eq_true_eq, not_exists, not_and] at hany
    cases hi : db.attempts.insert? a with
    | none => rw [hi] at h; cases h
    | some attempts =>
      rw [hi] at h
      cases h
      exact ⟨hany, attempts, rfl, rfl⟩

theorem insertToolCall_ok {db db' : Db} {c : ToolCall} (h : db.insertToolCall c = .ok db') :
    ∃ toolCalls, db.toolCalls.insert? c = some toolCalls ∧
      db' = { db with toolCalls := toolCalls } := by
  unfold insertToolCall at h
  split at h
  · cases h
  · cases hi : db.toolCalls.insert? c with
    | none => rw [hi] at h; cases h
    | some toolCalls =>
      rw [hi] at h
      cases h
      exact ⟨toolCalls, rfl, rfl⟩

theorem insertInputRequest_ok {db db' : Db} {r : McpInputRequest}
    (h : db.insertInputRequest r = .ok db') :
    ∃ inputRequests, db.inputRequests.insert? r = some inputRequests ∧
      db' = { db with inputRequests := inputRequests } := by
  unfold insertInputRequest at h
  split at h
  · cases h
  · cases hi : db.inputRequests.insert? r with
    | none => rw [hi] at h; cases h
    | some inputRequests =>
      rw [hi] at h
      cases h
      exact ⟨inputRequests, rfl, rfl⟩

theorem insertApproval_ok {db db' : Db} {r : ApprovalRequest}
    (h : db.insertApproval r = .ok db') :
    ∃ approvals, db.approvals.insert? r = some approvals ∧
      db' = { db with approvals := approvals } := by
  unfold insertApproval at h
  split at h
  · cases h
  · cases hi : db.approvals.insert? r with
    | none => rw [hi] at h; cases h
    | some approvals =>
      rw [hi] at h
      cases h
      exact ⟨approvals, rfl, rfl⟩

end Db

end McpFlow
