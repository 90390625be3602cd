import McpFlow.Execution.LoopReconcile

/-!
# The Execution claim

`ExecutionClaimService.claim`: a delivered QUEUED Execution becomes RUNNING under a fresh lease, and
the root TOOLs of its plan become READY up to `max_parallelism`. The claim reads no `when`.
-/

namespace McpFlow

/-- What the claim learns from outside the rows. -/
structure ClaimEnv where
  /-- The source lineage of the Execution and `plan.source.type`. -/
  sourceLineage : Except AppError Unit
  /-- The ScheduleOccurrence of the Execution is ENQUEUED and owned. -/
  occurrenceEnqueued : Except AppError Unit
  worker : String
  leaseToken : UUID
  leaseSeconds : ℕ

/-- `ExecutionClaimOutcome`, with what the caller reads. -/
structure ExecutionClaimOutcome where
  claimed : Bool
  readyStepIds : List UUID
  reason : Option String
deriving DecidableEq

/-- The row is as it was created. Rows of other types than TOOL never pin a ToolVersion. -/
def ExecutionStep.isInitial (s : ExecutionStep) : Bool :=
  s.status == .pending && s.parentStepId.isNone && s.iterationNo.isNone && s.readyAt.isNone &&
    s.startedAt.isNone && s.attemptCount == 0 && s.resolvedInput.isNone

/-- The checks of a QUEUED Execution before its plan is read. -/
def assertClaimable (env : ClaimEnv) (db : Db) : Except AppError Unit := do
  assertThat (db.execution.sourceType != .factoryTest)
    ("Claim supports AGENT_REQUEST / MANUAL_TOOL_TEST / WORKFLOW_VERSION / SCHEDULE_OCCURRENCE "
      ++ "Executions only.")
  env.sourceLineage
  assertThat (db.execution.queuedAt.isSome && db.execution.startedAt.isNone)
    "QUEUED Execution lifecycle timestamps are inconsistent."
  assertThat db.execution.leaseCleared "QUEUED Execution unexpectedly owns a lease."
  assertThat (!db.steps.rows.isEmpty) "Execution has no Steps to claim."
  assertThat (db.steps.rows.all (·.isInitial))
    "ExecutionStep is inconsistent with initial PENDING TOOL/CONDITION/JOIN/APPROVAL/LOOP DAG state."

/-- The plan of a claim, and its occurrence. -/
def claimDag (env : RuntimeEnv) (claim : ClaimEnv) (db : Db) : Except AppError ToolJoinDag := do
  assertClaimable claim db
  env.planLineage
  let dag ← validateToolJoinDag env.digest db.execution.planSnapshot db.steps.rows
  if db.execution.sourceType = .scheduleOccurrence then claim.occurrenceEnqueued
  return dag

/-- A Step that waits for its worker. -/
def ExecutionStep.markReady (s : ExecutionStep) (now : Time) : ExecutionStep :=
  { s with status := .ready, readyAt := some now }

/-- The root TOOLs that the claim promotes, in plan order. -/
def claimedRoots (dag : ToolJoinDag) (db : Db) : List ExecutionStep :=
  (dag.rootToolKeys.filterMap (rowByKey db.steps.rows)).take dag.maxParallelism

/-- The rows of a successful claim. -/
def applyClaim (claim : ClaimEnv) (dag : ToolJoinDag) (now : Time) (db : Db) : Db :=
  let db := db.putExecution
    { db.execution.assignLease claim.worker claim.leaseToken now claim.leaseSeconds with
      status := .running
      startedAt := some now }
  (claimedRoots dag db).foldl (fun db s => db.putStep (s.markReady now)) db

/-- `ExecutionClaimService.claim`. -/
def claimExecution (env : RuntimeEnv) (claim : ClaimEnv) (now : Time) (db : Db) :
    Tx ExecutionClaimOutcome :=
  if db.execution.status ≠ .queued then .ok (⟨false, [], some "STALE_DELIVERY"⟩, db)
  else match claimDag env claim db with
    | .error e => .error (.appError e)
    | .ok dag => .ok (⟨true, (claimedRoots dag db).map (·.id), none⟩, applyClaim claim dag now db)

end McpFlow
