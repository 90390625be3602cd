import McpFlow.Approval.Wait
import McpFlow.Execution.RetryDecision

/-!
# Starting an Attempt of a TOOL Step

`ToolStepAttemptService.start` takes a READY Step to RUNNING with a STARTED Attempt, or into an
approval wait. The lineage, authorization, confirmation, binding and schema checks read the catalog
and immutable snapshots; each is a verdict in `StartEnv`, in the order in which the code asks.

An `AppError` of `start` is caught by the runner inside the same transaction, so the result keeps
the rows next to it: `resolved_input` may be pinned already.
-/

namespace McpFlow

open Approval (ApprovalWaitOutcome)

/-- The authorization that `assert_source_tool_executable` returns. -/
structure RuntimeAuthorization where
  toolPolicy : MCPToolPolicy
  approvalPolicy : Option ApprovalPolicy

/-- What `start` learns from outside the rows of the Execution. -/
structure StartEnv where
  /-- Lineage, pinned policy, preflight and confirmation evidence. -/
  authorization : Except AppError RuntimeAuthorization
  /-- Binding resolution and the sequential handoff check. -/
  resolvedInput : Except AppError (List (String × Json.Value))
  /-- The ToolVersion and its input schema. -/
  argumentsValid : Except AppError Unit
  /-- `find_valid_approved_evidence` returned an approved request. -/
  approvedEvidence : Except AppError Bool
  computeCanonicalJsonHash : Approval.CanonicalHash
  attemptId : UUID
  approvalRequestId : UUID

/-- The result of `start`. -/
inductive StartOutcome where
  | attempt (attempt : StepAttempt) (replayed : Bool)
  | approvalWait (outcome : ApprovalWaitOutcome)
deriving DecidableEq

/-- A transaction fragment whose `AppError` is caught before the commit. -/
abbrev CaughtTx (α : Type) := Except Raised (Except AppError α × Db)

/-- Raise an `AppError` to a handler in the same transaction. -/
def CaughtTx.raise {α : Type} (e : AppError) (db : Db) : CaughtTx α := .ok (.error e, db)

/-- `_assert_execution_lease`. -/
def assertExecutionLease (e : Execution) (worker : String) (token : UUID) (now : Time) :
    Except AppError Unit :=
  if e.status ≠ .running then
    .error (conflict "Execution must be RUNNING to start a TOOL Step Attempt.")
  else if e.sourceType = .factoryTest then
    .error (conflict "Attempt foundation does not support the Execution source.")
  else if e.workerId ≠ some worker ∨ e.leaseToken ≠ some token ∨ e.leaseExpiresAt = none then
    .error (conflict "Execution worker/lease mismatch.")
  else if e.holdsLease worker token now then .ok ()
  else .error (conflict "Execution lease has expired.")

/-- `_replay_started`. -/
def replayStarted (db : Db) (step : ExecutionStep) (worker : String) :
    Except AppError StartOutcome :=
  match db.getStartedAttempt step.id with
  | none => .error (conflict "RUNNING Step has no STARTED Attempt.")
  | some attempt =>
    if attempt.workerId = some worker then .ok (.attempt attempt true)
    else .error (conflict "RUNNING Step Attempt worker mismatch.")

/-- The last part of `start`: the next Attempt of the Step. -/
def createAttempt (env : StartEnv) (step : ExecutionStep)
    (resolvedInput : List (String × Json.Value)) (worker : String) (now : Time) (db : Db) :
    CaughtTx StartOutcome :=
  let running : ExecutionStep :=
    { step with
      status := .running
      startedAt := step.startedAt.or (some now)
      attemptCount := step.attemptCount + 1
      resolvedInput := some (.tool resolvedInput) }
  let attempt : StepAttempt :=
    { id := env.attemptId
      stepExecutionId := step.id
      attemptNo := step.attemptCount + 1
      status := .started
      workerId := some worker
      leaseExpiresAt := db.execution.leaseExpiresAt
      errorCode := none
      isRetryable := none
      resultInline := none
      startedAt := now
      finishedAt := none }
  match (db.putStep running).insertAttempt attempt with
  | .error e => .error e
  | .ok db => .ok (.ok (.attempt attempt false), db)

/-- The approval gate of `start`, after the input is pinned. -/
def startPinned (env : StartEnv) (authz : RuntimeAuthorization) (step : ExecutionStep)
    (resolvedInput : List (String × Json.Value)) (worker : String) (now : Time)
    (forbidNewApprovalWait : Bool) (db : Db) : CaughtTx StartOutcome :=
  if authz.toolPolicy.requiresApproval then
    match authz.approvalPolicy with
    | none => CaughtTx.raise ⟨"EXECUTION_PRECONDITION_FAILED",
        "requires_approval인데 ApprovalPolicy 없음."⟩ db
    | some approvalPolicy =>
      match env.approvedEvidence with
      | .error e => CaughtTx.raise e db
      | .ok true => createAttempt env step resolvedInput worker now db
      | .ok false =>
        if forbidNewApprovalWait then
          CaughtTx.raise ⟨"DAG_WAIT_UNSUPPORTED",
            "Multi-Step TOOL/JOIN DAG cannot create Execution-level WAITING_APPROVAL."⟩ db
        else
          match Approval.enterForToolStep env.computeCanonicalJsonHash authz.toolPolicy
              approvalPolicy resolvedInput env.approvalRequestId now step db with
          | .error (.appError e) => CaughtTx.raise e db
          | .error e => .error e
          | .ok (outcome, db) => .ok (.ok (.approvalWait outcome), db)
  else createAttempt env step resolvedInput worker now db

/-- `ToolStepAttemptService.start`. -/
def startAttempt (env : StartEnv) (step : ExecutionStep) (worker : String) (token : UUID)
    (now : Time) (forbidNewApprovalWait : Bool) (db : Db) : CaughtTx StartOutcome :=
  if db.execution.status = .waitingApproval ∨ step.status = .waitingApproval then
    match Approval.reusePending db step with
    | .error (.appError e) => CaughtTx.raise e db
    | .error e => .error e
    | .ok outcome => .ok (.ok (.approvalWait outcome), db)
  else match assertExecutionLease db.execution worker token now with
    | .error e => CaughtTx.raise e db
    | .ok () =>
      if step.status = .running then .ok (replayStarted db step worker, db)
      else if step.status ≠ .ready then
        CaughtTx.raise (conflict "TOOL Step must be READY to start an Attempt.") db
      else match env.authorization with
        | .error e => CaughtTx.raise e db
        | .ok authz =>
          match env.resolvedInput with
          | .error e => CaughtTx.raise e db
          | .ok resolvedInput =>
            -- A retry never rewrites the pinned input.
            if step.resolvedInput ≠ none ∧ step.resolvedInput ≠ some (.tool resolvedInput) then
              CaughtTx.raise (conflict
                "Deterministic Binding resolution drifted from pinned Step.resolved_input.") db
            else
              let pinned := { step with resolvedInput := some (.tool resolvedInput) }
              let db := db.putStep pinned
              match env.argumentsValid with
              | .error e => CaughtTx.raise e db
              | .ok () => startPinned env authz pinned resolvedInput worker now
                  forbidNewApprovalWait db

/-! ### What `start` can do -/

/-- The Step with its input pinned. -/
def ExecutionStep.pinInput (s : ExecutionStep) (input : List (String × Json.Value)) :
    ExecutionStep :=
  { s with resolvedInput := some (.tool input) }

/-- The Step whose next Attempt runs. -/
def ExecutionStep.startRunning (s : ExecutionStep) (now : Time) : ExecutionStep :=
  { s with
    status := .running
    startedAt := s.startedAt.or (some now)
    attemptCount := s.attemptCount + 1 }

/-- The results of `start` with the rows that they leave. -/
inductive Started (step : ExecutionStep) (worker : String) (token : UUID) (now : Time) (db : Db) :
    Except AppError StartOutcome → Db → Prop
  /-- Refused before anything was written. -/
  | refused (e : AppError) : Started step worker token now db (.error e) db
  /-- The Step waits with its Execution already. -/
  | reused (outcome : ApprovalWaitOutcome) (hwait : db.execution.status = .waitingApproval) :
    Started step worker token now db (.ok (.approvalWait outcome)) db
  /-- The STARTED Attempt of the RUNNING Step. -/
  | replayed (attempt : StepAttempt) (hrunning : step.status = .running)
      (hattempt : db.getStartedAttempt step.id = some attempt) :
    Started step worker token now db (.ok (.attempt attempt true)) db
  /-- Refused after the input was pinned. -/
  | refusedPinned (e : AppError) (input : List (String × Json.Value)) (hready : step.status = .ready)
      (hrunning : db.execution.status = .running)
      (hlease : db.execution.holdsLease worker token now = true) :
    Started step worker token now db (.error e) (db.putStep (step.pinInput input))
  /-- The Step entered an approval wait. -/
  | waits (outcome : ApprovalWaitOutcome) (input : List (String × Json.Value))
      (request : ApprovalRequest) (approvals : Table ApprovalRequest.id)
      (hready : step.status = .ready) (hrunning : db.execution.status = .running)
      (hlease : db.execution.holdsLease worker token now = true)
      (hinsert : db.approvals.insert? request = some approvals)
      (hpending : request.status = .pending) :
    Started step worker token now db (.ok (.approvalWait outcome))
      (Approval.applyWaitingState { db.putStep (step.pinInput input) with approvals := approvals }
        (step.pinInput input))
  /-- The next Attempt is STARTED. -/
  | created (attempt : StepAttempt) (input : List (String × Json.Value))
      (attempts : Table StepAttempt.id) (hready : step.status = .ready)
      (hrunning : db.execution.status = .running)
      (hlease : db.execution.holdsLease worker token now = true)
      (hstep : attempt.stepExecutionId = step.id) (hstatus : attempt.status = .started)
      (hinsert : db.attempts.insert? attempt = some attempts) :
    Started step worker token now db (.ok (.attempt attempt false))
      { (db.putStep (step.pinInput input)).putStep ((step.pinInput input).startRunning now) with
        attempts := attempts }

theorem assertExecutionLease_ok {e : Execution} {worker : String} {token : UUID} {now : Time}
    {u : Unit} (h : assertExecutionLease e worker token now = .ok u) :
    e.status = .running ∧ e.holdsLease worker token now = true := by
  unfold assertExecutionLease at h
  split at h
  · cases h
  next hrunning =>
  split at h
  · cases h
  split at h
  · cases h
  split at h
  · next hlease => exact ⟨not_not.mp hrunning, hlease⟩
  · cases h

private theorem started_of_createAttempt {env : StartEnv} {step : ExecutionStep}
    {input : List (String × Json.Value)} {worker : String} {token : UUID} {now : Time} {db db' : Db}
    {result : Except AppError StartOutcome} (hready : step.status = .ready)
    (hrunning : db.execution.status = .running)
    (hlease : db.execution.holdsLease worker token now = true)
    (h : createAttempt env (step.pinInput input) input worker now
      (db.putStep (step.pinInput input)) = .ok (result, db')) :
    Started step worker token now db result db' := by
  unfold createAttempt at h
  dsimp only at h
  split at h
  · cases h
  next db₁ hinsert =>
  cases h
  obtain ⟨-, attempts, hattempts, rfl⟩ := Db.insertAttempt_ok hinsert
  exact .created _ input attempts hready hrunning hlease rfl rfl hattempts

private theorem started_of_startPinned {env : StartEnv} {authz : RuntimeAuthorization}
    {step : ExecutionStep} {input : List (String × Json.Value)} {worker : String} {token : UUID}
    {now : Time} {forbidNewApprovalWait : Bool} {db db' : Db}
    {result : Except AppError StartOutcome} (hready : step.status = .ready)
    (hrunning : db.execution.status = .running)
    (hlease : db.execution.holdsLease worker token now = true)
    (h : startPinned env authz (step.pinInput input) input worker now forbidNewApprovalWait
      (db.putStep (step.pinInput input)) = .ok (result, db')) :
    Started step worker token now db result db' := by
  have hrefused (e : AppError) : Started step worker token now db (.error e)
      (db.putStep (step.pinInput input)) := .refusedPinned e input hready hrunning hlease
  unfold startPinned at h
  split at h
  · split at h
    · cases h
      exact hrefused _
    split at h
    · cases h
      exact hrefused _
    · exact started_of_createAttempt hready hrunning hlease h
    split at h
    · cases h
      exact hrefused _
    split at h
    · cases h
      exact hrefused _
    · cases h
    · next outcome db₁ henter =>
      cases h
      have hpinned : (step.pinInput input).status = .ready := hready
      obtain ⟨snapshot, db₂, hinsert, rfl⟩ := Approval.enterForToolStep_ok
        (show (db.putStep (step.pinInput input)).execution.status = .running from hrunning)
        hpinned henter
      obtain ⟨approvals, happrovals, rfl⟩ := Db.insertApproval_ok hinsert
      exact .waits outcome input _ approvals hready hrunning hlease happrovals rfl
  · exact started_of_createAttempt hready hrunning hlease h

/-- Every result of `start` is one of `Started`. -/
theorem started_of_startAttempt {env : StartEnv} {step : ExecutionStep} {worker : String}
    {token : UUID} {now : Time} {forbidNewApprovalWait : Bool} {db db' : Db}
    {result : Except AppError StartOutcome}
    (h : startAttempt env step worker token now forbidNewApprovalWait db = .ok (result, db')) :
    Started step worker token now db result db' := by
  unfold startAttempt at h
  split at h
  · split at h
    · cases h
      exact .refused _
    · cases h
    · next outcome hreuse =>
      cases h
      exact .reused outcome (Approval.reusePending_ok hreuse).1
  split at h
  · cases h
    exact .refused _
  next hassert =>
  obtain ⟨hrunning, hlease⟩ := assertExecutionLease_ok hassert
  split at h
  · next hstep =>
    cases h
    unfold replayStarted
    split
    · exact .refused _
    next attempt hattempt =>
    split
    · exact .replayed attempt hstep hattempt
    · exact .refused _
  split at h
  · cases h
    exact .refused _
  next hready =>
  have hready : step.status = .ready := not_not.mp hready
  split at h
  · cases h
    exact .refused _
  split at h
  · cases h
    exact .refused _
  next input _ =>
  split at h
  · cases h
    exact .refused _
  dsimp only at h
  split at h
  · cases h
    exact .refusedPinned _ input hready hrunning hlease
  · exact started_of_startPinned hready hrunning hlease h

/-- A replayed Attempt is a STARTED Attempt of the Step. -/
theorem getStartedAttempt_some {db : Db} {stepId : UUID} {attempt : StepAttempt}
    (h : db.getStartedAttempt stepId = some attempt) :
    attempt ∈ db.attempts ∧ attempt.stepExecutionId = stepId ∧ attempt.status = .started := by
  have hmem := List.mem_of_getLast? h
  simp only [List.mem_filter, Db.listAttempts, decide_eq_true_eq] at hmem
  exact ⟨hmem.1.1, hmem.1.2, hmem.2⟩

end McpFlow
