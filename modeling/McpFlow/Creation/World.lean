import McpFlow.Domain.Rows
import McpFlow.Library.JsonAscii
import McpFlow.Library.JsonOrder
import McpFlow.Library.Runs
import McpFlow.Library.Table
import McpFlow.Workflow.Preflight

/-!
# Creating Executions under an idempotency key

The three services that create an Execution on request (from an agent request, from a workflow version,
for a manual tool test) share one protocol. A call checks its key, reads what it needs to hash the
request, looks the key up, and replays the record it finds. Without a record it makes its preflight and
inserts the Execution, its steps, its event and the record in one transaction; the primary key of the
records decides between two calls that both saw none.

A call is a sequence of steps, and the steps of all calls interleave. What a step reads outside these
tables (the agent request, the plan of the version, the outcome of the preflight, the clock and the
id that is drawn) is an input of the step. Inserted rows are seen by nobody until they are committed;
until then no other call gets past its insert of the same key.
-/

namespace McpFlow.Creation

open Json (FloatText Value)
open Workflow (Failure Platform Plan StepProjection found require invalidRequest)

/-! ### Calls -/

/-- The service that is called, with its arguments. -/
inductive CreateBody where
  | agentRequest (agentRequestId : UUID)
  | workflowVersion (workflowId versionId : UUID) (inputs : List (String × Value))
  | manualToolTest (toolId versionId : UUID) (arguments : List (String × Value))

/-- `_OPERATION_SCOPE`. -/
def CreateBody.operationScope : CreateBody → String
  | agentRequest _ => "AGENT_REQUEST_EXECUTION_CREATE_V1"
  | workflowVersion _ _ _ => "WORKFLOW_VERSION_EXECUTION_CREATE_V1"
  | manualToolTest _ _ _ => "MCP_TOOL_MANUAL_TEST_CREATE_V1"

/-- The source type of the Execution. -/
def CreateBody.sourceType : CreateBody → ExecutionSourceType
  | agentRequest _ => .agentRequest
  | workflowVersion _ _ _ => .workflowVersion
  | manualToolTest _ _ _ => .manualToolTest

/-- The trigger type of the Execution. -/
def CreateBody.triggerType : CreateBody → ExecutionTriggerType
  | agentRequest _ => .user
  | workflowVersion _ _ _ => .user
  | manualToolTest _ _ _ => .test

/-- A call of one of the services. -/
structure Call where
  requesterId : UUID
  idempotencyKey : String
  body : CreateBody

/-- The primary key of the idempotency records. -/
structure RecordKey where
  principalKey : String
  operationScope : String
  idempotencyKey : String
deriving DecidableEq

/-- The key that the call looks up. -/
def Call.recordKey (c : Call) : RecordKey where
  principalKey := c.requesterId.toString
  operationScope := c.body.operationScope
  idempotencyKey := Text.strip c.idempotencyKey

/-- `_IDEMPOTENCY_KEY_MAX_LEN`. -/
def idempotencyKeyMaxLen : ℕ := 128

/-- The checks of the key. -/
def Call.checkKey (c : Call) : Except Failure Unit := do
  let key := Text.strip c.idempotencyKey
  require (key ≠ "") "VALIDATION_ERROR" "Idempotency-Key must be a non-empty string."
  require (key.toList.length ≤ idempotencyKeyMaxLen) "VALIDATION_ERROR"
    "Idempotency-Key must be at most 128 characters."

/-! ### Rows -/

/-- What the result says of the source. -/
inductive ResultLineage where
  | agentRequest (agentRequestId agentVersionId : UUID)
  | workflowVersion (workflowVersionId : UUID)
  | manualToolTest (mcpToolId mcpToolVersionId : UUID)
deriving DecidableEq

/-- The body of a successful response. -/
structure CreateResult where
  id : UUID
  status : ExecutionStatus
  sourceType : ExecutionSourceType
  triggerType : ExecutionTriggerType
  lineage : ResultLineage
  planHash : String
  requestedAt : Time
  stepCount : ℕ
deriving DecidableEq

/-- The constraints of the result models. -/
def CreateResult.valid (r : CreateResult) : Bool :=
  r.planHash.toList.length = 64 && 1 ≤ r.stepCount

/-- The columns of `executions` that the services write and read. -/
structure ExecutionRow where
  id : UUID
  sourceType : ExecutionSourceType
  triggerType : ExecutionTriggerType
  requesterId : UUID
  agentRequestId : Option UUID
  agentVersionId : Option UUID
  workflowVersionId : Option UUID
  status : ExecutionStatus
  planSnapshot : Value
  planHash : String
  inputSnapshot : Value
  policySnapshot : Value
  requestedAt : Time

/-- A row of `execution_steps`. -/
structure StepRow where
  executionId : UUID
  projection : StepProjection

/-- A row of `execution_events`. -/
structure EventRow where
  executionId : UUID
  eventType : String
  payload : Value

/-- A row of `api_idempotency_records`. -/
structure IdempotencyRecord where
  key : RecordKey
  requestHash : String
  status : String
  responseStatus : Option ℕ
  responseBody : Option CreateResult
  resourceType : Option String
  resourceId : Option UUID

/-- The rows that one creation inserts. -/
structure Pending where
  execution : ExecutionRow
  steps : List StepRow
  event : EventRow
  record : IdempotencyRecord
  result : CreateResult

/-! ### Hashing the request -/

/-- What the service reads of an agent request. -/
structure AgentRequestRow where
  id : UUID
  requesterId : UUID
  agentVersionId : UUID
  ready : Bool

/-- What a call reads before it hashes its request: the agent requests, or the plan of the workflow
version, unless the version is not found or its plan is refused. -/
structure Reads where
  agentRequests : Table AgentRequestRow.id
  ownedPlan : Except Failure Plan

/-- `_MAX_ARGUMENT_KEYS`. -/
def maxArgumentKeys : ℕ := 64

/-- `_normalize_arguments`. -/
def normalizeArguments (raw : List (String × Value)) : Except Failure (List (String × Value)) := do
  require (raw.length ≤ maxArgumentKeys) "VALIDATION_ERROR" "arguments may contain at most 64 keys."
  require (raw.all fun p => Text.nonBlank p.1) "VALIDATION_ERROR"
    "arguments keys must be non-empty strings."
  return raw

/-- The payloads of the three `_request_hash` functions. -/
def agentPayload (agentRequestId : UUID) : Value :=
  .obj [("agent_request_id", .str agentRequestId.toString), ("source_type", .str "AGENT_REQUEST"),
    ("trigger_type", .str "USER")]

@[inherit_doc agentPayload]
def workflowPayload (workflowId versionId : UUID) (inputs : List (String × Value)) : Value :=
  .obj [("workflow_id", .str workflowId.toString),
    ("workflow_version_id", .str versionId.toString), ("source_type", .str "WORKFLOW_VERSION"),
    ("trigger_type", .str "USER"), ("inputs", .obj inputs)]

@[inherit_doc agentPayload]
def manualPayload (toolId versionId : UUID) (arguments : List (String × Value)) : Value :=
  .obj [("tool_id", .str toolId.toString), ("mcp_tool_version_id", .str versionId.toString),
    ("arguments", .obj arguments)]

section Hash

variable (floats : FloatText)

/-- The text that `_request_hash` digests. The test of a tool leaves `ensure_ascii` on. -/
def CreateBody.requestText : CreateBody → Value → List Char
  | manualToolTest _ _ _, payload => payload.sortKeys.asciiText floats
  | _, payload => payload.sortKeys.text floats

/-- `_request_hash`, of its payload. -/
def CreateBody.requestHash (sha256 : String → String) (body : CreateBody) (payload : Value) :
    String :=
  sha256 (String.ofList (body.requestText floats payload))

end Hash

/-- The payload has a text; an integer that is too long is a `ValueError`. -/
def hashable (payload : Value) : Except Failure Unit :=
  if payload.printable then .ok () else .error .unhandled

/-- What a call knows once its request can be hashed. -/
structure Resolved where
  /-- The dictionary that is hashed. -/
  payload : Value
  agentRequest : Option AgentRequestRow
  inputSnapshot : List (String × Value)

/-- The part of a call before its request is hashed. -/
def Call.resolve (c : Call) (reads : Reads) : Except Failure Resolved :=
  match c.body with
  | .agentRequest agentRequestId => do
    let row ← found (reads.agentRequests.find? agentRequestId) (.app ⟨"NOT_FOUND", "AgentRequest를 찾을 수 없습니다."⟩)
    require (row.requesterId = c.requesterId) "FORBIDDEN"
      "AgentRequest requester만 Execution을 생성할 수 있습니다."
    return ⟨agentPayload row.id, some row, []⟩
  | .workflowVersion workflowId versionId inputs => do
    let plan ← reads.ownedPlan
    let snapshot ← Workflow.normalizePlanInputs plan inputs
    hashable (workflowPayload workflowId versionId snapshot)
    return ⟨workflowPayload workflowId versionId snapshot, none, snapshot⟩
  | .manualToolTest toolId versionId arguments => do
    let arguments ← normalizeArguments arguments
    hashable (manualPayload toolId versionId arguments)
    return ⟨manualPayload toolId versionId arguments, none, [("arguments", .obj arguments)]⟩

/-! ### Replays -/

/-- A conflict with a record that is there. -/
def conflict (check : Bool) (message : String) : Except Failure Unit :=
  require check "RESOURCE_CONFLICT" message

/-- The Execution that a record names is one that the service creates for the call. -/
def Call.ownsExecution (c : Call) (e : ExecutionRow) : Bool :=
  match c.body with
  | .agentRequest _ => true
  | .workflowVersion _ versionId _ =>
    e.requesterId = c.requesterId && e.sourceType = .workflowVersion &&
      e.workflowVersionId = some versionId && e.agentRequestId.isNone && e.agentVersionId.isNone
  | .manualToolTest _ _ _ =>
    e.requesterId = c.requesterId && e.sourceType = .manualToolTest && e.agentRequestId.isNone &&
      e.agentVersionId.isNone && e.workflowVersionId.isNone

/-- The stored response has the shape of the results of the service. -/
def Call.readsResult (c : Call) (r : CreateResult) : Bool :=
  r.valid && match c.body, r.lineage with
    | .agentRequest _, .agentRequest _ _ => true
    | .workflowVersion _ _ _, .workflowVersion _ => true
    | .manualToolTest _ _ _, .manualToolTest _ _ => true
    | _, _ => false

/-- The stored response names the Execution of the record. -/
def Call.ownsResult (c : Call) (resourceId : UUID) (e : ExecutionRow) (r : CreateResult) : Bool :=
  match c.body with
  | .agentRequest _ => r.id = resourceId
  | .workflowVersion _ _ _ => r.id = resourceId && r.planHash = e.planHash
  | .manualToolTest toolId versionId _ =>
    r.id = resourceId && r.lineage = .manualToolTest toolId versionId && r.planHash = e.planHash

/-- The message for a stored response of another Execution. -/
def CreateBody.snapshotMismatch : CreateBody → String
  | agentRequest _ => "Idempotency response snapshot id가 resource_id와 불일치합니다."
  | workflowVersion _ _ _ => "Idempotency response snapshot lineage mismatch."
  | manualToolTest _ _ _ => "Idempotency response snapshot lineage mismatch."

/-- `_replay_or_conflict`, with the Execution that the record names. -/
def Call.replayOrConflict (c : Call) (requestHash : String) (record : IdempotencyRecord)
    (execution : UUID → Option ExecutionRow) : Except Failure CreateResult := do
  require (record.requestHash = requestHash) "IDEMPOTENCY_KEY_REUSED"
    "Idempotency-Key가 다른 요청에 재사용되었습니다."
  conflict (record.status = "COMPLETED") "Idempotency record가 COMPLETED가 아닙니다."
  conflict (record.resourceType = some "EXECUTION")
    "Idempotency resource metadata가 손상되었습니다."
  let resourceId ← found record.resourceId
    (.app ⟨"RESOURCE_CONFLICT", "Idempotency resource metadata가 손상되었습니다."⟩)
  let e ← found (execution resourceId)
    (.app ⟨"RESOURCE_CONFLICT", "Idempotency가 가리키는 Execution이 없습니다."⟩)
  conflict (c.ownsExecution e) "Idempotency replay Execution lineage is corrupt."
  conflict (record.responseStatus = some 201) "Idempotency response snapshot이 손상되었습니다."
  let body ← found record.responseBody
    (.app ⟨"RESOURCE_CONFLICT", "Idempotency response snapshot이 손상되었습니다."⟩)
  conflict (c.readsResult body) "Idempotency response snapshot이 유효하지 않습니다."
  conflict (c.ownsResult resourceId e body) c.body.snapshotMismatch
  return body

/-! ### Creations -/

/-- What the preflight of a service returns. -/
structure Context where
  planSnapshot : Value
  planHash : String
  policySnapshot : Value

/-- The lineage that the result of a creation shows. -/
def Call.lineage (c : Call) (resolved : Resolved) : Option ResultLineage :=
  match c.body with
  | .agentRequest _ => resolved.agentRequest.map fun row => .agentRequest row.id row.agentVersionId
  | .workflowVersion _ versionId _ => some (.workflowVersion versionId)
  | .manualToolTest toolId versionId _ => some (.manualToolTest toolId versionId)

/-- The row of the Execution. -/
def Call.executionRow (c : Call) (resolved : Resolved) (ctx : Context) (id : UUID) (now : Time) :
    ExecutionRow where
  id := id
  sourceType := c.body.sourceType
  triggerType := c.body.triggerType
  requesterId := c.requesterId
  agentRequestId := resolved.agentRequest.map (·.id)
  agentVersionId := resolved.agentRequest.map (·.agentVersionId)
  workflowVersionId := match c.body with
    | .workflowVersion _ versionId _ => some versionId
    | _ => none
  status := .created
  planSnapshot := ctx.planSnapshot
  planHash := ctx.planHash
  inputSnapshot := .obj resolved.inputSnapshot
  policySnapshot := ctx.policySnapshot
  requestedAt := now

/-- `_insert_created`: the rows of the creation, and its result. -/
def Call.insertCreated (env : Platform) (c : Call) (resolved : Resolved) (requestHash : String)
    (ctx : Context) (id : UUID) (now : Time) : Except Failure Pending := do
  let projections ← Workflow.materialize env ctx.planSnapshot ctx.planHash
  let execution := c.executionRow resolved ctx id now
  let lineage ← found (c.lineage resolved) .unhandled
  let result : CreateResult :=
    { id := execution.id
      status := execution.status
      sourceType := execution.sourceType
      triggerType := execution.triggerType
      lineage := lineage
      planHash := execution.planHash
      requestedAt := execution.requestedAt
      stepCount := projections.length }
  -- the model of the result refuses a bad hash and a plan without steps
  if !result.valid then .error .unhandled else return {
    execution := execution
    steps := projections.map fun p => ⟨id, p⟩
    event := ⟨id, "execution.created",
      .obj [("execution_id", .str id.toString), ("status", .str "CREATED")]⟩
    record :=
      { key := c.recordKey
        requestHash := requestHash
        status := "COMPLETED"
        responseStatus := some 201
        responseBody := some result
        resourceType := some "EXECUTION"
        resourceId := some id }
    result := result }

/-! ### The world -/

/-- A successful response. -/
structure Outcome where
  result : CreateResult
  replayed : Bool
deriving DecidableEq

/-- Where a call stands. -/
inductive Phase where
  /-- The key is checked. -/
  | started
  | resolved (resolved : Resolved)
  /-- A record was found. -/
  | hit (resolved : Resolved) (record : IdempotencyRecord)
  /-- No record was found. -/
  | missed (resolved : Resolved)
  /-- The preflight has passed. -/
  | prepared (resolved : Resolved) (ctx : Context)
  /-- The rows are inserted and not committed. -/
  | inserted (resolved : Resolved) (rows : Pending)
  /-- The insert was refused by the primary key of the records and rolled back. -/
  | raced (resolved : Resolved)
  /-- The call has its answer; the payload is what was hashed. -/
  | succeeded (payload : Value) (outcome : Outcome)
  | failed (failure : Failure)

/-- A call with its phase. -/
structure CallState where
  call : Call
  phase : Phase

/-- The committed tables, and the calls that have been made. -/
structure World where
  executions : Table ExecutionRow.id
  steps : List StepRow
  events : List EventRow
  records : Table IdempotencyRecord.key
  calls : List CallState

/-- Nothing has been created. -/
def World.initial : World where
  executions := .empty
  steps := []
  events := []
  records := .empty
  calls := []

/-- A step of a call, of the system that runs the Executions, or a new call. -/
inductive Action where
  | call (c : Call)
  | resolve (i : ℕ) (reads : Reads)
  | lookup (i : ℕ)
  | replay (i : ℕ)
  | preflight (i : ℕ) (outcome : Except Failure Context)
  | insert (i : ℕ) (id : UUID) (now : Time)
  | commit (i : ℕ)
  /-- An exception ends the call and rolls back what it has not committed. -/
  | abort (i : ℕ) (failure : Failure)
  /-- The Execution goes on. -/
  | progress (executionId : UUID) (status : ExecutionStatus)

/-- The call `i` is in another phase. -/
def World.setPhase (w : World) (i : ℕ) (s : CallState) (phase : Phase) : World :=
  { w with calls := w.calls.set i { s with phase := phase } }

/-- The rows that a call has inserted and not committed. -/
def CallState.pending? (s : CallState) : Option Pending :=
  match s.phase with
  | .inserted _ rows => some rows
  | _ => none

/-- The id is taken, in the table or by an insert that is not committed. -/
def World.usesId (w : World) (id : UUID) : Bool :=
  (w.executions.find? id).isSome ||
    w.calls.any fun s => s.pending?.any fun rows => rows.execution.id = id

/-- Another call has inserted the key and not committed. -/
def World.holdsKey (w : World) (key : RecordKey) : Bool :=
  w.calls.any fun s => s.pending?.any fun rows => rows.record.key = key

section Step

variable (env : Platform) (floats : FloatText) (sha256 : String → String)

/-- One step; `none` when the step is not the next one of the call, or has to wait. -/
def World.step (w : World) : Action → Option World
  | .call c =>
    let phase := match c.checkKey with
      | .ok () => .started
      | .error failure => .failed failure
    some { w with calls := w.calls ++ [⟨c, phase⟩] }
  | .resolve i reads => do
    let s ← w.calls[i]?
    match s.phase with
    | .started => some (w.setPhase i s (match s.call.resolve reads with
      | .ok resolved => .resolved resolved
      | .error failure => .failed failure))
    | _ => none
  | .lookup i => do
    let s ← w.calls[i]?
    match s.phase with
    | .resolved resolved => some (w.setPhase i s (match w.records.find? s.call.recordKey with
      | some record => .hit resolved record
      | none => .missed resolved))
    | .raced resolved => some (w.setPhase i s (match w.records.find? s.call.recordKey with
      | some record => .hit resolved record
      | none => .failed (.app ⟨"RESOURCE_CONFLICT", "Execution 생성 중 충돌이 발생했습니다."⟩)))
    | _ => none
  | .replay i => do
    let s ← w.calls[i]?
    match s.phase with
    | .hit resolved record =>
      let hash := s.call.body.requestHash floats sha256 resolved.payload
      some (w.setPhase i s (match s.call.replayOrConflict hash record w.executions.find? with
        | .ok result => .succeeded resolved.payload ⟨result, true⟩
        | .error failure => .failed failure))
    | _ => none
  | .preflight i outcome => do
    let s ← w.calls[i]?
    match s.phase with
    | .missed resolved =>
      -- an agent request that is not READY is refused first
      if resolved.agentRequest.any fun row => !row.ready then
        some (w.setPhase i s (.failed (.app ⟨"EXECUTION_NOT_READY",
          "AgentRequest가 READY 상태가 아닙니다."⟩)))
      else some (w.setPhase i s (match outcome with
        | .ok ctx => .prepared resolved ctx
        | .error failure => .failed failure))
    | _ => none
  | .insert i id now => do
    let s ← w.calls[i]?
    match s.phase with
    | .prepared resolved ctx =>
      let hash := s.call.body.requestHash floats sha256 resolved.payload
      match s.call.insertCreated env resolved hash ctx id now with
      | .error failure => some (w.setPhase i s (.failed failure))
      | .ok rows =>
        if w.usesId id then some (w.setPhase i s (.failed .unhandled))
        else if w.holdsKey s.call.recordKey then none
        else match w.records.find? s.call.recordKey with
          | some _ => some (w.setPhase i s (.raced resolved))
          | none => some (w.setPhase i s (.inserted resolved rows))
    | _ => none
  | .commit i => do
    let s ← w.calls[i]?
    match s.phase with
    | .inserted resolved rows => do
      let executions ← w.executions.insert? rows.execution
      let records ← w.records.insert? rows.record
      let w := w.setPhase i s (.succeeded resolved.payload ⟨rows.result, false⟩)
      some { w with
        executions := executions
        steps := w.steps ++ rows.steps
        events := w.events ++ [rows.event]
        records := records }
    | _ => none
  | .abort i failure => do
    let s ← w.calls[i]?
    match s.phase with
    | .succeeded _ _ => none
    | .failed _ => none
    | _ => some (w.setPhase i s (.failed failure))
  | .progress executionId status =>
    some { w with
      executions := w.executions.mapRows
        (fun e => if e.id = executionId then { e with status := status } else e)
        (fun e => by split <;> rfl) }

end Step

end McpFlow.Creation
