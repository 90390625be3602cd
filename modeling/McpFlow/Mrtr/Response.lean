import McpFlow.Mrtr.Wait

/-!
# Answering and rejecting an MRTR round

`MrtrResponseService.submit_response` and `MrtrRejectService.reject`. Both act on the OPEN request
of an Execution with exactly one Step, and only while the wait evidence is intact. An accepted
answer enqueues one resume message for its request.
-/

namespace McpFlow.Mrtr

open Json (Value)

/-- `VALIDATION_ERROR` of a response. -/
def validationError (message : String) : AppError := ⟨"VALIDATION_ERROR", message⟩

/-- The light JSON type check of a field descriptor. -/
def matchesSchemaType (expected : Value) (value : Value) : Bool :=
  match expected.str? with
  | some "boolean" => value.bool?.isSome
  | some "string" => value.str?.isSome
  -- A boolean is an `int` of Python.
  | some "number" => match value with
    | .int _ | .float _ | .bool _ => true
    | _ => false
  | some "integer" => value.int?.isSome
  | some "object" => value.isObj
  | some "array" => value.arr?.isSome
  | _ => true

/-- `_normalize_response_value`. -/
def normalizeResponseValue (schema : Option Value) (field : String) (value : Value) :
    Except AppError Value :=
  if value.isObj && value.getD "kind" == .str "SECRET_REF" then
    match (value.getD "secret_id").str? with
    | some secretId =>
      if !Text.nonBlank secretId then
        .error (validationError s!"responses.{field} SECRET_REF requires secret_id.")
      else if value.keys.any fun k => k != "kind" && k != "secret_id" then
        .error (validationError s!"responses.{field} SECRET_REF must be reference-only.")
      else .ok (.obj [("kind", .str "SECRET_REF"), ("secret_id", .str (Text.strip secretId))])
    | none => .error (validationError s!"responses.{field} SECRET_REF requires secret_id.")
  else match schema with
    | none => .ok value
    | some schema =>
      if !schema.isObj || matchesSchemaType (schema.getD "type") value then .ok value
      else .error (validationError s!"responses.{field} has the wrong JSON type.")

/-- `validate_mrtr_responses`. -/
def validateMrtrResponses (inputRequests responses : List (String × Value)) :
    Except AppError (List (String × Value)) :=
  if inputRequests = [] then .error (conflict "MCPInputRequest input_requests is invalid.")
  else if responses = [] then
    .error (validationError "responses must be a non-empty JSON object.")
  else if responses.any fun m => m.1 == "requestState" || m.1 == "request_state" then
    .error (validationError "responses must not include requestState.")
  else if !(responses.all fun m => inputRequests.any fun d => d.1 == m.1) ||
      !(inputRequests.all fun d => responses.any fun m => m.1 == d.1) then
    .error (validationError "responses keys must exactly match input_requests keys.")
  else responses.mapM fun m => do
    let descriptor := (Value.obj inputRequests).getD m.1
    return (m.1, ← normalizeResponseValue (descriptor.get? "schema") m.1 m.2)

/-- The user who answers or rejects, and whether the account is ACTIVE. -/
structure Actor where
  id : UUID
  active : Bool
deriving DecidableEq

/-- The answer of the request, after every check. -/
def acceptedAnswer (request : McpInputRequest) (accepted : List (String × Value)) (actor : UUID)
    (now : Time) : McpInputRequest :=
  { request with
    status := .answered
    responsePayload := some accepted
    answeredAt := some now
    answeredBy := some actor }

/-- `MrtrResponseOutcome`, with what the caller reads. -/
structure MrtrResponseOutcome where
  inputRequestId : UUID
  resumeEnqueued : Bool
deriving DecidableEq

/-- `submit_response`. -/
def submitResponse (resumeLineage : Except AppError Unit) (requestId : UUID) (actor : Actor)
    (responses : List (String × Value)) (now : Time) (db : Db) : Tx MrtrResponseOutcome :=
  if !actor.active then
    .error (.appError ⟨"AUTH_FORBIDDEN", "Actor is not an ACTIVE user."⟩)
  else if db.execution.status ≠ .waitingInput then
    .error (.appError (conflict "Execution is not WAITING_INPUT."))
  else match db.steps.rows with
    | [step] =>
      if db.execution.requesterId ≠ actor.id then
        .error (.appError ⟨"NOT_FOUND", "MCPInputRequest not found."⟩)
      else match db.inputRequests.find? requestId with
        | none => .error (.appError ⟨"NOT_FOUND", "MCPInputRequest not found."⟩)
        | some request =>
          if request.executionId ≠ db.execution.id then
            .error (.appError ⟨"NOT_FOUND", "MCPInputRequest not found."⟩)
          else if request.status = .answered then
            if request.responsePayload = some responses ∧ request.answeredBy = some actor.id then
              .ok (⟨request.id, false⟩, db)
            else .error (.appError (conflict "MCPInputRequest is no longer OPEN."))
          else if request.status ≠ .open then
            .error (.appError (conflict "MCPInputRequest is no longer OPEN."))
          else match assertDurableWaitingInput resumeLineage db step with
            | .error e => .error (.appError e)
            | .ok openRequest =>
              if openRequest.id ≠ request.id then
                .error (.appError (conflict "MCPInputRequest is not the current OPEN wait."))
              else if request.stepExecutionId ≠ step.id then
                .error (.appError (conflict "MCPInputRequest step lineage is inconsistent."))
              else if request.expiresAt ≤ now then
                .error (.appError (conflict "MCPInputRequest has expired."))
              else match validateMrtrResponses request.inputRequests responses with
                | .error e => .error (.appError e)
                | .ok accepted => .ok (⟨request.id, true⟩,
                    db.putInputRequest (acceptedAnswer request accepted actor.id now))
    | _ => .error (.appError (conflict "AgentRequest Execution must contain exactly one Step."))

/-- `_MRTR_REJECTED`. -/
def mrtrRejected : String := "MRTR_REJECTED"

/-- The rows that a rejection writes. -/
def applyReject (request : McpInputRequest) (attempt : StepAttempt) (step : ExecutionStep)
    (actor : UUID) (now : Time) (db : Db) : Db :=
  let db := db.putInputRequest
    { request with
      status := .rejected
      answeredAt := some now
      answeredBy := some actor
      responsePayload := none }
  let db := db.putAttempt
    { attempt with
      status := .failed
      errorCode := some mrtrRejected
      isRetryable := some false
      finishedAt := some now
      workerId := none
      leaseExpiresAt := none }
  let db := db.putStep
    { step with status := .failed, errorCode := some mrtrRejected, finishedAt := some now }
  db.putExecution
    { db.execution.clearLease with
      status := .failed
      errorCode := some mrtrRejected
      finishedAt := some now }

/-- `MrtrRejectService.reject`. -/
def reject (resumeLineage : Except AppError Unit) (requestId : UUID) (actor : Actor) (now : Time)
    (db : Db) : Tx Unit :=
  if !actor.active then
    .error (.appError ⟨"AUTH_FORBIDDEN", "Actor is not an ACTIVE user."⟩)
  else match db.steps.rows with
    | [step] =>
      if db.execution.requesterId ≠ actor.id then
        .error (.appError ⟨"NOT_FOUND", "MCPInputRequest not found."⟩)
      else match db.inputRequests.find? requestId with
        | none => .error (.appError ⟨"NOT_FOUND", "MCPInputRequest not found."⟩)
        | some request =>
          if request.executionId ≠ db.execution.id then
            .error (.appError ⟨"NOT_FOUND", "MCPInputRequest not found."⟩)
          else if request.status = .rejected then
            if db.execution.status = .failed ∧ db.execution.errorCode = some mrtrRejected then
              .ok ((), db)
            else .error (.appError (conflict "MCPInputRequest reject evidence is inconsistent."))
          else if request.status ≠ .open then
            .error (.appError (conflict "MCPInputRequest is no longer OPEN."))
          else match assertDurableWaitingInput resumeLineage db step with
            | .error e => .error (.appError e)
            | .ok openRequest =>
              if openRequest.id ≠ request.id then
                .error (.appError (conflict "MCPInputRequest is not the current OPEN wait."))
              else match db.attempts.find? request.stepAttemptId with
                | none => .error (.appError (conflict "MCPInputRequest Attempt is missing."))
                | some attempt =>
                  if db.attemptHasStartedToolCall attempt.id then
                    .error (.appError (conflict "Cannot reject while a ToolCall is STARTED."))
                  else .ok ((), applyReject request attempt step actor.id now db)
    | _ => .error (.appError (conflict "AgentRequest Execution must contain exactly one Step."))

/-- An accepted answer turns an OPEN request of a waiting Execution into an ANSWERED one. -/
theorem submitResponse_ok {resumeLineage : Except AppError Unit} {requestId : UUID} {actor : Actor}
    {responses : List (String × Value)} {now : Time} {db db' : Db} {outcome : MrtrResponseOutcome}
    (h : submitResponse resumeLineage requestId actor responses now db = .ok (outcome, db')) :
    outcome.inputRequestId = requestId ∧
      ((outcome.resumeEnqueued = false ∧ db' = db) ∨
        (outcome.resumeEnqueued = true ∧ db.execution.status = .waitingInput ∧
          ∃ request accepted, db.inputRequests.find? requestId = some request ∧
            request.status = .open ∧ validateMrtrResponses request.inputRequests responses =
              .ok accepted ∧
            db' = db.putInputRequest (acceptedAnswer request accepted actor.id now))) := by
  unfold submitResponse at h
  split at h
  · cases h
  split at h
  · cases h
  next hwait =>
  split at h
  · split at h
    · cases h
    split at h
    · cases h
    next request hfind =>
    have hid : request.id = requestId := Table.key_of_find? hfind
    split at h
    · cases h
    split at h
    · split at h
      · cases h
        exact ⟨hid, .inl ⟨rfl, rfl⟩⟩
      · cases h
    split at h
    · cases h
    next hopen =>
    split at h
    · cases h
    split at h
    · cases h
    split at h
    · cases h
    split at h
    · cases h
    split at h
    · cases h
    next accepted haccepted =>
    cases h
    exact ⟨hid, .inr ⟨rfl, not_not.mp hwait, request, accepted, hfind, not_not.mp hopen,
      haccepted, rfl⟩⟩
  · cases h

/-- A rejection that returns changed nothing, or rejected the OPEN request of a wait. -/
theorem reject_ok {resumeLineage : Except AppError Unit} {requestId : UUID} {actor : Actor}
    {now : Time} {db db' : Db} (h : reject resumeLineage requestId actor now db = .ok ((), db')) :
    db' = db ∨ (db.execution.status = .waitingInput ∧ ∃ request attempt step,
      db.inputRequests.find? requestId = some request ∧ request.status = .open ∧
      db.attempts.find? request.stepAttemptId = some attempt ∧ db.steps.rows = [step] ∧
      db' = applyReject request attempt step actor.id now db) := by
  unfold reject at h
  split at h
  · cases h
  split at h
  · next step hsteps =>
    split at h
    · cases h
    split at h
    · cases h
    next request hfind =>
    split at h
    · cases h
    split at h
    · split at h
      · cases h
        exact .inl rfl
      · cases h
    split at h
    · cases h
    next hopen =>
    split at h
    · cases h
    next openRequest hwait =>
    split at h
    · cases h
    split at h
    · cases h
    next attempt hattempt =>
    split at h
    · cases h
    cases h
    exact .inr ⟨(mem_of_assertDurableWaitingInput hwait).1, request, attempt, step, hfind,
      not_not.mp hopen, hattempt, hsteps, rfl⟩
  · cases h

end McpFlow.Mrtr
