import Mathlib.Data.Prod.Lex
import McpFlow.Approval.Context
import McpFlow.Execution.State
import McpFlow.Library.Keyset

/-!
# The Outbox relay

`OutboxRelayService.publish_batch` inside the transaction of one iteration. The broker is not part
of the repository: a publisher answers each call, and what it has taken stays taken when the
transaction rolls back. A row whose publication fails keeps its place among the unpublished ones; a
row that is corrupt ends the transaction.
-/

namespace McpFlow.Outbox

open Json (Value)

/-- `outbox_events`. -/
structure OutboxEvent where
  id : UUID
  eventType : String
  aggregateType : String
  aggregateId : UUID
  dedupeKey : String
  payload : Value
  createdAt : Time
  lastAttemptAt : Option Time
  publishedAt : Option Time
  publishAttemptCount : ℕ
  lastErrorCode : Option String
  lockVersion : ℕ
deriving DecidableEq

/-- The calls of `ExecutionQueuePublisher`. -/
inductive QueueMessage where
  | execution (executionId outboxEventId : UUID)
  | approvalResume (executionId approvalRequestId outboxEventId : UUID)
  | mrtrResume (executionId inputRequestId outboxEventId : UUID)
  | factoryJob (jobId outboxEventId : UUID)
  | factoryTestRun (testRunId outboxEventId : UUID)
  | toolEmbeddingEnsure (toolVersionId embeddingProfileId outboxEventId : UUID)
deriving DecidableEq

/-! ### Validation -/

/-- The payload has exactly these members. -/
def hasExactly (keys : List String) (payload : Value) : Bool :=
  payload.isObj && payload.keys.all (· ∈ keys) && keys.all (· ∈ payload.keys)

/-- The ids of an ID-only payload, when the row has the lineage of its kind: the event and aggregate
type, the first id as aggregate id, and a dedupe key that `dedupe` accepts. -/
def validateIds (noun eventType aggregateType : String) (keys : List String)
    (dedupe : List UUID → String → Bool) (row : OutboxEvent) : Except AppError (List UUID) :=
  if !hasExactly keys row.payload then
    .error (conflict (noun ++ " Outbox payload is corrupted."))
  else match keys.mapM fun key => Approval.parseUuid? (row.payload.getD key) with
    | none => .error (conflict (noun ++ " Outbox payload is corrupted."))
    | some ids =>
      if row.eventType != eventType || row.aggregateType != aggregateType ||
          ids.head? != some row.aggregateId || !dedupe ids row.dedupeKey then
        .error (conflict (noun ++ " Outbox lineage is corrupted."))
      else .ok ids

/-- The text of the `i`-th id. -/
def idText (ids : List UUID) (i : ℕ) : String := (ids[i]?.map UUID.toString).getD ""

/-- `validate_execution_dispatch_event`. -/
def validateExecutionDispatchEvent : OutboxEvent → Except AppError (List UUID) :=
  validateIds "Execution dispatch" "EXECUTION_DISPATCH" "EXECUTION" ["execution_id"]
    fun ids dedupe => dedupe == "execution:" ++ idText ids 0 ++ ":initial"

/-- `validate_execution_approval_resume_event`. -/
def validateExecutionApprovalResumeEvent : OutboxEvent → Except AppError (List UUID) :=
  validateIds "Approval resume" "EXECUTION_APPROVAL_RESUME" "EXECUTION"
    ["execution_id", "approval_request_id"] fun ids dedupe =>
      dedupe == "execution:" ++ idText ids 0 ++ ":approval:" ++ idText ids 1 ++ ":resume"

/-- `validate_execution_mrtr_resume_event`. -/
def validateExecutionMrtrResumeEvent : OutboxEvent → Except AppError (List UUID) :=
  validateIds "MRTR resume" "EXECUTION_MRTR_RESUME" "EXECUTION"
    ["execution_id", "input_request_id"] fun ids dedupe =>
      dedupe == "execution:" ++ idText ids 0 ++ ":mrtr:" ++ idText ids 1 ++ ":resume"

/-- `validate_factory_job_dispatch_event`. -/
def validateFactoryJobDispatchEvent : OutboxEvent → Except AppError (List UUID) :=
  validateIds "Factory Job dispatch" "FACTORY_JOB_DISPATCH" "TOOL_FACTORY_JOB" ["job_id"]
    fun ids dedupe => dedupe == "factory_job:" ++ idText ids 0 ++ ":openapi_analyze"

/-- `validate_factory_test_run_dispatch_event`. -/
def validateFactoryTestRunDispatchEvent : OutboxEvent → Except AppError (List UUID) :=
  validateIds "Factory TestRun dispatch" "FACTORY_TEST_RUN_DISPATCH" "TOOL_FACTORY_TEST_RUN"
    ["test_run_id"] fun ids dedupe =>
      dedupe == "factory_test_run:" ++ idText ids 0 ++ ":sandbox_test"

/-- `validate_tool_embedding_ensure_event`: only the start of the dedupe key is fixed. -/
def validateToolEmbeddingEnsureEvent : OutboxEvent → Except AppError (List UUID) :=
  validateIds "ToolEmbedding ensure" "TOOL_EMBEDDING_ENSURE" "MCP_TOOL_VERSION"
    ["tool_version_id", "embedding_profile_id"] fun ids dedupe =>
      ("tool_embedding:" ++ idText ids 0 ++ ":" ++ idText ids 1 ++ ":ensure:").toList.isPrefixOf
        dedupe.toList

/-- The call that `_publish_one` makes for a row, or the error of its validation. -/
def messageOf (row : OutboxEvent) : Except AppError QueueMessage :=
  let one (ids : Except AppError (List UUID)) (call : UUID → UUID → QueueMessage) :=
    ids.map fun ids => call (ids.getD 0 row.id) row.id
  let two (ids : Except AppError (List UUID)) (call : UUID → UUID → UUID → QueueMessage) :=
    ids.map fun ids => call (ids.getD 0 row.id) (ids.getD 1 row.id) row.id
  if row.eventType == "EXECUTION_DISPATCH" then
    one (validateExecutionDispatchEvent row) .execution
  else if row.eventType == "EXECUTION_APPROVAL_RESUME" then
    two (validateExecutionApprovalResumeEvent row) .approvalResume
  else if row.eventType == "EXECUTION_MRTR_RESUME" then
    two (validateExecutionMrtrResumeEvent row) .mrtrResume
  else if row.eventType == "FACTORY_JOB_DISPATCH" then
    one (validateFactoryJobDispatchEvent row) .factoryJob
  else if row.eventType == "FACTORY_TEST_RUN_DISPATCH" then
    one (validateFactoryTestRunDispatchEvent row) .factoryTestRun
  else if row.eventType == "TOOL_EMBEDDING_ENSURE" then
    two (validateToolEmbeddingEnsureEvent row) .toolEmbeddingEnsure
  else .error (conflict ("Unsupported Outbox event_type '" ++ row.eventType ++ "'."))

/-! ### The bookkeeping of a row -/

/-- `mark_published`. -/
def OutboxEvent.markPublished (row : OutboxEvent) (now : Time) : OutboxEvent :=
  { row with
    publishAttemptCount := row.publishAttemptCount + 1
    lastAttemptAt := some now
    publishedAt := some now
    lastErrorCode := none
    lockVersion := row.lockVersion + 1 }

/-- `record_publish_failure`. -/
def OutboxEvent.recordPublishFailure (row : OutboxEvent) (now : Time) : OutboxEvent :=
  { row with
    publishAttemptCount := row.publishAttemptCount + 1
    lastAttemptAt := some now
    publishedAt := none
    lastErrorCode := some "PUBLISH_FAILED"
    lockVersion := row.lockVersion + 1 }

/-- The rows that `claim_unpublished_batch` selects from. -/
def OutboxEvent.unpublished (row : OutboxEvent) : Bool :=
  row.publishedAt.isNone && row.eventType != "AGENT_SCHEDULE_PLAN"

@[simp] theorem OutboxEvent.id_markPublished (row : OutboxEvent) (now : Time) :
    (row.markPublished now).id = row.id := rfl

@[simp] theorem OutboxEvent.id_recordPublishFailure (row : OutboxEvent) (now : Time) :
    (row.recordPublishFailure now).id = row.id := rfl

@[simp] theorem messageOf_markPublished (row : OutboxEvent) (now : Time) :
    messageOf (row.markPublished now) = messageOf row := rfl

/-- A row whose publication failed stays among the unpublished ones. -/
theorem OutboxEvent.unpublished_recordPublishFailure {row : OutboxEvent}
    (h : row.unpublished = true) (now : Time) :
    (row.recordPublishFailure now).unpublished = true := by
  rw [unpublished, Bool.and_eq_true] at h
  exact h.2

/-! ### A batch -/

/-- What one call of the publisher does: the broker takes the message, or it raises. -/
inductive PublishOutcome where
  | handed
  | failed
  | appError (e : AppError)
deriving DecidableEq

/-- A publisher, by the number of attempts made before. -/
abbrev Publisher := ℕ → QueueMessage → PublishOutcome

/-- The rows of the table, what the broker has taken, and the attempts made so far. -/
structure Relay where
  rows : Table OutboxEvent.id
  delivered : List QueueMessage
  attempts : ℕ

/-- How `_publish_one` ends. -/
inductive Attempt where
  | handed (message : QueueMessage)
  | failed
  | raised (e : AppError)
deriving DecidableEq

/-- The end of the `n`-th attempt; a corrupt row is not handed to the publisher. -/
def attempt (publisher : Publisher) (n : ℕ) (row : OutboxEvent) : Attempt :=
  match messageOf row with
  | .error e => .raised e
  | .ok message =>
    match publisher n message with
    | .handed => .handed message
    | .failed => .failed
    | .appError e => .raised e

/-- `PublishBatchResult`. -/
structure PublishBatchResult where
  selected : ℕ
  published : ℕ
  failed : ℕ
deriving DecidableEq

/-- The loop of `publish_batch`. An error leaves the rows it has changed to the rollback. -/
def publishRows (publisher : Publisher) (now : Time) :
    List OutboxEvent → Relay → PublishBatchResult → Relay × Except AppError PublishBatchResult
  | [], s, result => (s, .ok result)
  | row :: rows, s, result =>
    match attempt publisher s.attempts row with
    | .handed message =>
      publishRows publisher now rows
        { rows := s.rows.put (row.markPublished now), delivered := s.delivered ++ [message],
          attempts := s.attempts + 1 }
        { result with published := result.published + 1 }
    | .failed =>
      publishRows publisher now rows
        { s with rows := s.rows.put (row.recordPublishFailure now), attempts := s.attempts + 1 }
        { result with failed := result.failed + 1 }
    | .raised e => ({ s with attempts := s.attempts + 1 }, .error e)

/-- `ORDER BY created_at, id`. -/
def creationOrder (row : OutboxEvent) : Time ×ₗ ℕ := toLex (row.createdAt, row.id.int)

/-- `claim_unpublished_batch`: the oldest unpublished rows that no other transaction has locked. -/
def claimUnpublishedBatch (limit : ℕ) (locked : UUID → Bool) (rows : List OutboxEvent) :
    List OutboxEvent :=
  (Keyset.ordered creationOrder
    (rows.filter fun row => row.unpublished && !locked row.id)).take limit

/-- `_MAX_BATCH_SIZE`. -/
def maxBatchSize : ℤ := 500

/-- `publish_batch`. -/
def publishBatch (publisher : Publisher) (limit : ℤ) (locked : UUID → Bool) (now : Time)
    (s : Relay) : Relay × Except AppError PublishBatchResult :=
  if limit < 1 ∨ maxBatchSize < limit then
    (s, .error ⟨"VALIDATION_ERROR", "batch limit must be between 1 and 500."⟩)
  else
    let batch := claimUnpublishedBatch limit.toNat locked s.rows.rows
    publishRows publisher now batch s ⟨batch.length, 0, 0⟩

/-- The relay transaction of `run_iteration`: it commits, or an error rolls the rows back. -/
def relay (publisher : Publisher) (limit : ℤ) (locked : UUID → Bool) (now : Time) (s : Relay) :
    Relay :=
  match publishBatch publisher limit locked now s with
  | (s', .ok _) => s'
  | (s', .error _) => { s' with rows := s.rows }

end McpFlow.Outbox
