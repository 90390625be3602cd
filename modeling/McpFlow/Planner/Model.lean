import McpFlow.Domain.Rows
import McpFlow.Library.Table
import Mathlib.Data.List.Sort

/-!
# The agent schedule planner

Planner workers share the `AGENT_SCHEDULE_PLAN` rows of the outbox. A worker claims one row at a
time, opens a session for it, and commits several times while the agent pipeline runs. A transaction
that holds the row lock of its event is alone on it, so it is one step; what it finds outside (the
schedule, the agent version, the pipeline stages) is an input of the step.

Between two commits a session keeps the objects it has loaded: a later `SELECT … FOR UPDATE` takes
the lock and answers with the attributes of the first load. `Stage.planning` carries that row.
-/

namespace McpFlow.Planner

/-! ### Rows -/

/-- The `claim` member of an event payload. -/
structure Claim where
  workerId : UUID
  claimToken : UUID
  leaseExpiresAt : Time
deriving DecidableEq

/-- An `AGENT_SCHEDULE_PLAN` row of `outbox_events`. `lastToken` is the token of the last claim; it
is history and no column. -/
structure PlanEvent where
  id : UUID
  occurrenceId : UUID
  createdAt : Time
  agentRequestId : Option UUID
  claim : Option Claim
  publishedAt : Option Time
  publishAttemptCount : ℕ
  lastAttemptAt : Option Time
  lastErrorCode : Option String
  lastToken : Option UUID
deriving DecidableEq

/-- `OccurrenceStatus`. -/
inductive OccurrenceStatus where
  | planned
  | skipped
  | enqueued
  | running
  | completed
  | failed
deriving DecidableEq, Repr

/-- A row of `schedule_occurrences`. -/
structure Occurrence where
  id : UUID
  status : OccurrenceStatus
  decisionReason : String
  finishedAt : Option Time
deriving DecidableEq

namespace PlanEvent

/-- `_owns_claim`. -/
def ownsClaim (e : PlanEvent) (workerId claimToken : UUID) (now : Time) : Bool :=
  e.claim.any fun c => c.workerId = workerId ∧ c.claimToken = claimToken ∧ now < c.leaseExpiresAt

/-- `_has_active_lease`. -/
def hasActiveLease (e : PlanEvent) (now : Time) : Bool := e.claim.any (now < ·.leaseExpiresAt)

/-- `_require_owned_outbox` on the attributes that the session has. -/
def requireOwned (e : PlanEvent) (workerId claimToken : UUID) (now : Time) : Bool :=
  e.publishedAt.isNone && e.ownsClaim workerId claimToken now

/-- The renewal of `_require_owned_outbox`. -/
def renew (e : PlanEvent) (workerId claimToken : UUID) (now : Time) (leaseSeconds : ℕ) :
    PlanEvent :=
  { e with
    claim := some ⟨workerId, claimToken, now + max 1 leaseSeconds * 1000000⟩
    lastAttemptAt := some now }

/-- `_mark_published` without a new attempt. -/
def markPublished (e : PlanEvent) (now : Time) (lastErrorCode : Option String) : PlanEvent :=
  { e with
    lastAttemptAt := some now
    publishedAt := some now
    lastErrorCode := lastErrorCode
    claim := none }

/-- The order of the claim query: `created_at`, then `id`. -/
def before (e f : PlanEvent) : Bool :=
  e.createdAt < f.createdAt || (e.createdAt == f.createdAt && e.id.int ≤ f.id.int)

end PlanEvent

/-- `_fail_occurrence` on the status that the session has. -/
def Occurrence.fail (o : Occurrence) (seen : OccurrenceStatus) (reason : String) (now : Time) :
    Occurrence :=
  if seen = .completed ∨ seen = .failed ∨ seen = .skipped then o
  else { o with status := .failed, decisionReason := reason, finishedAt := some now }

/-! ### Workers -/

/-- Where a worker stands with the event it claimed. -/
inductive Stage where
  /-- The claim is committed. -/
  | claimed
  /-- The pipeline runs and commits; `row` is the event as the session has it, whose first
  transaction also read a PLANNED occurrence. -/
  | planning (row : PlanEvent)
  /-- An exception rolled the transaction back. -/
  | failed
deriving DecidableEq

/-- A worker in the middle of `process_isolated_batch`; `startedAt` is the `ts` of its round. -/
structure Worker where
  claimToken : UUID
  workerId : UUID
  eventId : UUID
  startedAt : Time
  stage : Stage
deriving DecidableEq

/-- The settings of the planners. -/
structure Settings where
  leaseSeconds : ℕ
  maxAttempts : ℕ

/-- The database and the workers. `tokens` are the claim tokens drawn so far. -/
structure World where
  clock : Time
  events : Table PlanEvent.id
  occurrences : Table Occurrence.id
  /-- The `schedule_occurrence_id` of every Execution. -/
  executions : List UUID
  workers : Table Worker.claimToken
  tokens : List UUID

/-- What the rest of the world answers to the first transaction of `process_claimed`, up to the
first commit of the pipeline. -/
structure PrepareEnv where
  /-- An exception is raised. -/
  raises : Bool
  scheduleMatches : Bool
  /-- The code of an `AppError` about the agent version, the agent or the stored AgentRequest. -/
  precondition : Option String
  /-- The AgentRequest that is created when the event has none. -/
  newRequestId : UUID
deriving DecidableEq

/-- How the pipeline ends. A session that was rolled back on the way has expired objects, and the
next attribute it reads raises. -/
inductive PipelineResult where
  | refused (code : String)
  | raises
  | finished
deriving DecidableEq

/-- What the rest of the world answers to the last transaction. -/
structure ConcludeEnv where
  raises : Bool
  /-- The code of an `AppError`: the request is not READY, the plan is not safe to run, or the
  preflight of the Execution refuses. -/
  precondition : Option String
  /-- The transaction is slower than its lease. -/
  slow : Bool
deriving DecidableEq

/-- One step. -/
inductive Action where
  /-- `enqueue_plan_outbox`. -/
  | enqueue (id occurrenceId : UUID)
  | tick (now : Time)
  /-- Another service writes the status of an occurrence. -/
  | moveOccurrence (id : UUID) (status : OccurrenceStatus)
  /-- `claim_next`, while other transactions hold the row locks of `locked`. -/
  | claimNext (workerId claimToken : UUID) (locked : List UUID)
  /-- `process_claimed` up to the first commit of the pipeline; with `plans`, the pipeline commits
  nothing and the same transaction goes on. -/
  | prepare (claimToken : UUID) (env : PrepareEnv) (plans : Option (PipelineResult × ConcludeEnv))
  /-- The rest of `process_claimed`. -/
  | conclude (claimToken : UUID) (result : PipelineResult) (env : ConcludeEnv)
  /-- `record_transient_failure` in a session of its own. -/
  | recordFailure (claimToken : UUID)
  | crash (claimToken : UUID)
deriving DecidableEq

/-! ### Claiming -/

namespace World

/-- Write an event row. -/
def putEvent (w : World) (e : PlanEvent) : World := { w with events := w.events.put e }

/-- `_fail_occurrence`; `seen` is the status that the session has, the stored one when it has just
been read. -/
def failOccurrence (w : World) (id : UUID) (seen : Option OccurrenceStatus) (reason : String)
    (now : Time) : World :=
  match w.occurrences.find? id with
  | none => w
  | some o => { w with occurrences := w.occurrences.put (o.fail (seen.getD o.status) reason now) }

/-- The rows that the claim query locks. -/
def candidates (w : World) (locked : List UUID) : List PlanEvent :=
  ((w.events.rows.filter fun e => e.publishedAt = none ∧ e.id ∉ locked).insertionSort
    fun e f => e.before f).take 3

/-- The event can be claimed. -/
def claimable (s : Settings) (w : World) (e : PlanEvent) : Bool :=
  !e.hasActiveLease w.clock && e.publishAttemptCount < s.maxAttempts

/-- `_exhaust_attempts`. -/
def exhaustAttempts (w : World) (e : PlanEvent) : World :=
  (w.failOccurrence e.occurrenceId none "TARGET_PRECONDITION_FAILED" w.clock).putEvent
    (e.markPublished w.clock (some "PLAN_ATTEMPTS_EXHAUSTED"))

/-- The row of a fresh claim. -/
def claimedRow (s : Settings) (w : World) (e : PlanEvent) (workerId claimToken : UUID) :
    PlanEvent :=
  { e with
    publishAttemptCount := e.publishAttemptCount + 1
    lastAttemptAt := some w.clock
    lastErrorCode := none
    claim := some ⟨workerId, claimToken, w.clock + max 1 s.leaseSeconds * 1000000⟩
    lastToken := some claimToken }

/-- The loop of `claim_lease_batch` with `limit = 1`: it ends with the first claim. -/
def claimLoop (s : Settings) (workerId claimToken : UUID) : List PlanEvent → World → World
  | [], w => w
  | e :: es, w =>
    if e.hasActiveLease w.clock then claimLoop s workerId claimToken es w
    else if s.maxAttempts ≤ e.publishAttemptCount then
      claimLoop s workerId claimToken es (w.exhaustAttempts e)
    else
      { w.putEvent (claimedRow s w e workerId claimToken) with
        workers := (w.workers.insert? ⟨claimToken, workerId, e.id, w.clock, .claimed⟩).getD
          w.workers }

/-! ### Processing -/

/-- The worker leaves its event. -/
def dropWorker (w : World) (r : Worker) : World :=
  { w with workers := w.workers.erase r.claimToken }

/-- The worker goes on to `stage`. -/
def setStage (w : World) (r : Worker) (stage : Stage) : World :=
  { w with workers := w.workers.put { r with stage := stage } }

/-- The stored row under the columns that a session changed. -/
def commitRow (w : World) (e row : PlanEvent) : World :=
  w.putEvent { e with
    agentRequestId := row.agentRequestId, claim := row.claim, lastAttemptAt := row.lastAttemptAt }

/-- `_mark_published` by a session that has `row` for the stored event `e`. -/
def publish (w : World) (e row : PlanEvent) (now : Time) : World :=
  w.putEvent { e.markPublished now none with agentRequestId := row.agentRequestId }

/-- The decision reason of an `AppError`. -/
def failureReason (code : String) : String :=
  if code = "FORBIDDEN" ∨ code = "AUTH_FORBIDDEN" then "AUTHORIZATION_REVOKED"
  else "TARGET_PRECONDITION_FAILED"

/-- `_owned_fail_and_publish`, where ownership is looked up in `row`; `lost` is what a lost claim
commits. -/
def ownedFailAndPublish (w : World) (r : Worker) (e row : PlanEvent) (reason : String)
    (lost : World) : World :=
  if row.requireOwned r.workerId r.claimToken r.startedAt then
    ((w.failOccurrence row.occurrenceId (some .planned) reason r.startedAt).publish e row
      r.startedAt).dropWorker r
  else lost

/-- The end of `_plan_and_materialize` and `_process_one`, with the renewed `row`; `none` is a
rollback. -/
def materialize (w : World) (r : Worker) (e row : PlanEvent) (env : ConcludeEnv) : Option World :=
  let lost := (w.commitRow e row).dropWorker r
  if env.raises then none
  else match env.precondition with
    | some code => some (w.ownedFailAndPublish r e row (failureReason code) lost)
    | none =>
      if row.occurrenceId ∈ w.executions then some ((w.publish e row r.startedAt).dropWorker r)
      else if env.slow then some lost
      else some (({ w with executions := w.executions ++ [row.occurrenceId] }.publish e row
        r.startedAt).dropWorker r)

/-- `process_claimed` from the end of the pipeline on. -/
def concludeTx (s : Settings) (w : World) (r : Worker) (e row : PlanEvent)
    (result : PipelineResult) (env : ConcludeEnv) (lost : World) : Option World :=
  match result with
  | .refused code => some (w.ownedFailAndPublish r e row (failureReason code) lost)
  | .raises => none
  | .finished =>
    if row.requireOwned r.workerId r.claimToken w.clock then
      w.materialize r e (row.renew r.workerId r.claimToken w.clock s.leaseSeconds) env
    else some lost

/-- The row of an event with an AgentRequest; a new one is stored under a second, later renewal. -/
def requestRow (s : Settings) (w : World) (r : Worker) (row : PlanEvent) (newRequestId : UUID) :
    PlanEvent :=
  if row.agentRequestId.isNone then
    { row.renew r.workerId r.claimToken w.clock s.leaseSeconds with
      agentRequestId := some newRequestId }
  else row

/-- `process_claimed` of an owned event `e`, up to the first commit of the pipeline. -/
def prepareTx (s : Settings) (w : World) (r : Worker) (e : PlanEvent) (env : PrepareEnv)
    (plans : Option (PipelineResult × ConcludeEnv)) : Option World :=
  let row := e.renew r.workerId r.claimToken r.startedAt s.leaseSeconds
  let lost := (w.commitRow e row).dropWorker r
  if env.raises then none
  else if e.occurrenceId ∈ w.executions then some ((w.publish e row r.startedAt).dropWorker r)
  else match w.occurrences.find? e.occurrenceId with
    | none => some ((w.publish e row r.startedAt).dropWorker r)
    | some o =>
      if o.status ≠ .planned then some ((w.publish e row r.startedAt).dropWorker r)
      else if !env.scheduleMatches then
        some (w.ownedFailAndPublish r e row "TARGET_PRECONDITION_FAILED" lost)
      else match env.precondition with
        | some code => some (w.ownedFailAndPublish r e row (failureReason code) lost)
        | none =>
          if row.agentRequestId.isNone ∧ !row.requireOwned r.workerId r.claimToken w.clock then
            some lost
          else
            let row := w.requestRow s r row env.newRequestId
            match plans with
            | none => some ((w.commitRow e row).setStage r (.planning row))
            | some (result, env) =>
              w.concludeTx s r e row result env ((w.commitRow e row).dropWorker r)

/-- A rollback leaves the rows as they were. -/
def orFailed (w : World) (r : Worker) (tx : Option World) : World := tx.getD (w.setStage r .failed)

/-- One step, or `none` when it is not possible. -/
def step (s : Settings) (w : World) : Action → Option World
  | .enqueue id occurrenceId =>
    if w.events.rows.any (·.occurrenceId = occurrenceId) then some w
    else (w.events.insert? ⟨id, occurrenceId, w.clock, none, none, none, 0, none, none, none⟩).map
      fun events => { w with
        events := events
        occurrences := (w.occurrences.insert?
          ⟨occurrenceId, .planned, "AGENT_PLAN_QUEUED", none⟩).getD w.occurrences }
  | .tick now => if w.clock ≤ now then some { w with clock := now } else none
  | .moveOccurrence id status =>
    (w.occurrences.find? id).map fun o =>
      { w with occurrences := w.occurrences.put { o with status := status } }
  | .claimNext workerId claimToken locked =>
    if claimToken ∈ w.tokens then none
    else some (claimLoop s workerId claimToken (w.candidates locked)
      { w with tokens := claimToken :: w.tokens })
  | .prepare claimToken env plans =>
    match w.workers.find? claimToken with
    | none => none
    | some r =>
      if r.stage = .claimed then
        match w.events.find? r.eventId with
        | none => some (w.dropWorker r)
        | some e =>
          if e.requireOwned r.workerId r.claimToken r.startedAt then
            some (w.orFailed r (w.prepareTx s r e env plans))
          else some (w.dropWorker r)
      else none
  | .conclude claimToken result env =>
    match w.workers.find? claimToken with
    | none => none
    | some r =>
      match r.stage, w.events.find? r.eventId with
      | .planning row, some e =>
        some (w.orFailed r (w.concludeTx s r e row result env (w.dropWorker r)))
      | .planning _, none => some (w.dropWorker r)
      | .claimed, _ | .failed, _ => none
  | .recordFailure claimToken =>
    match w.workers.find? claimToken with
    | none => none
    | some r =>
      if r.stage = .failed then
        match w.events.find? r.eventId with
        | none => some (w.dropWorker r)
        | some e =>
          if e.requireOwned r.workerId r.claimToken w.clock then
            some ((w.putEvent { e with
              lastAttemptAt := some w.clock
              lastErrorCode := some "PLAN_TRANSIENT_FAILURE" }).dropWorker r)
          else some (w.dropWorker r)
      else none
  | .crash claimToken => (w.workers.find? claimToken).map w.dropWorker

/-- Before the first event. -/
structure Initial (w : World) : Prop where
  events : w.events.rows = []
  executions : w.executions = []
  workers : w.workers.rows = []

end World

end McpFlow.Planner
