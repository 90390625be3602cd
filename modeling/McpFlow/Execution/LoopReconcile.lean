import McpFlow.Approval.StepContext
import McpFlow.Execution.Dag

/-!
# LOOP reconcile helpers

The pieces of a LOOP transition: its control evidence, the WHILE gate, the row budget, the rows of
an iteration and the clean-up of a stopped LOOP. Predicate evaluation, binding resolution and the
evidence hashes read immutable snapshots and the rows; they are functions of `RuntimeEnv`.
-/

namespace McpFlow

/-- What the local transitions learn from evaluators, hashes and the catalog. -/
structure RuntimeEnv where
  digest : TemplateDigest
  computeCanonicalJsonHash : Approval.CanonicalHash
  /-- `assert_execution_plan_lineage`: the snapshot is parsed and its hash compared. -/
  planLineage : Except AppError Unit
  /-- `RuntimePredicateEvaluator.evaluate` on a predicate and its owning Step. -/
  evaluate : Json.Value → ExecutionStep → Db → Except Raised Bool
  /-- `resolve_foreach_collection`: the hash and the size of the collection. -/
  resolveForeachCollection : ExecutionStep → Db → Except AppError (Sha256Hex × ℕ)
  /-- The hash of `build_while_evidence_object` for a candidate. -/
  whileEvidenceHash : ExecutionStep → ℕ → Db → Except AppError Sha256Hex
  /-- The id of a new body instance. -/
  stepId : UUID → ℕ → String → UUID
  /-- `assert_current_context_matches_request`. -/
  approvalContext : ApprovalRequest → Except AppError Unit
  approvalPolicy : UUID → Option ApprovalPolicy
  approvalRequestId : UUID

/-! ### The outcome of a progress transaction -/

/-- `ProgressOutcome`. -/
structure ProgressOutcome where
  executionComplete : Bool
  promoted : Bool := false
  reason : String
  executionStatus : Option ExecutionStatus := none
  readyStepIds : List UUID := []
  planOrder : List String := []
  singleTool : Bool := false
  stepTerminalStatus : Option String := none
deriving DecidableEq

/-- The reason of a terminated Execution. -/
def executionReason : ExecutionStatus → String
  | .succeeded => "EXECUTION_SUCCEEDED"
  | .partiallySucceeded => "EXECUTION_PARTIALLY_SUCCEEDED"
  | .timedOut => "EXECUTION_TIMED_OUT"
  | _ => "EXECUTION_FAILED"

/-- The Execution ends without a lease. -/
def Db.terminateExecution (db : Db) (status : ExecutionStatus) (errorCode : Option String)
    (now : Time) : Db :=
  db.putExecution
    { db.execution.clearLease with
      status := status
      errorCode := errorCode
      finishedAt := some now }

/-- `_fail_closed_lineage_locked`. -/
def failClosedLineage (errorCode : String) (now : Time) (db : Db) : ProgressOutcome × Db :=
  ({ executionComplete := true
     reason := executionReason .failed
     executionStatus := some .failed },
    (db.stopUnstartedSteps now).terminateExecution .failed
      (some (if errorCode = "" then "RESOURCE_CONFLICT" else errorCode)) now)

/-- `_fail_closed_predicate`. -/
def failClosedPredicate (step : ExecutionStep) (errorCode : String) (now : Time) (db : Db) :
    ProgressOutcome × Db :=
  let db := if step.status = .pending then
      db.putStep { step with
        status := .failed, errorCode := some errorCode, finishedAt := some now }
    else db
  ({ executionComplete := true
     reason := executionReason .failed
     executionStatus := some .failed
     stepTerminalStatus := some StepStatus.failed.value },
    (db.stopUnstartedSteps now).terminateExecution .failed (some errorCode) now)

/-- A failed Step stops its Execution. -/
def failFast (step : ExecutionStep) (now : Time) (db : Db) : ProgressOutcome × Db :=
  let status := failFastExecutionStatus step.status
  ({ executionComplete := true
     reason := executionReason status
     executionStatus := some status
     stepTerminalStatus := some step.status.value },
    (db.stopUnstartedSteps now).terminateExecution status step.errorCode now)

/-- How a local transition goes on. -/
inductive Flow where
  | go (changed : Bool) (db : Db)
  | stop (outcome : ProgressOutcome) (db : Db)

/-- A local transition: its rows are kept also when it stops. -/
abbrev Local := Except Raised Flow

/-- Stop with an outcome. -/
def Local.halt (result : ProgressOutcome × Db) : Local := .ok (.stop result.1 result.2)

/-- Visit the keys in order until one of them stops. -/
def visitKeys (visit : String → Db → Local) : List String → Bool → Db → Local
  | [], changed, db => .ok (.go changed db)
  | key :: keys, changed, db => match visit key db with
    | .error e => .error e
    | .ok (.stop outcome db) => .ok (.stop outcome db)
    | .ok (.go changed' db) => visitKeys visit keys (changed || changed') db

/-! ### Plan steps and gates -/

/-- `runtime_plan_step`. -/
def runtimePlanStep (plan : ExecutionPlanV1) (step : ExecutionStep) :
    Except AppError ExecutionPlanStep := do
  match plan.byId? step.stepSnapshot.id with
  | none => .error (conflict "No Plan Step for template.")
  | some expected =>
    assertThat (expected == step.stepSnapshot)
      "step_snapshot is not an exact projection of immutable Plan Step."
    return expected

/-- `_evaluate_when_gate`: whether `when` is false. -/
def evaluateWhenGate (env : RuntimeEnv) (planStep : ExecutionPlanStep) (step : ExecutionStep)
    (db : Db) : Except Raised Bool :=
  match planStep.when with
  | none => .ok false
  | some predicate => (env.evaluate predicate step db).map (!·)

/-- `_apply_when_false`. -/
def ExecutionStep.applyWhenFalse (s : ExecutionStep) (now : Time) : ExecutionStep :=
  { s with
    status := .skipped
    errorCode := some "STEP_WHEN_FALSE"
    conditionResult := some false
    finishedAt := some now }

/-! ### Control evidence -/

/-- `pin_while_control_evidence`. -/
def ExecutionStep.pinWhileControl (s : ExecutionStep) : ExecutionStep :=
  { s with resolvedInput := some (.while []) }

/-- `pin_collection_evidence`. -/
def ExecutionStep.pinCollection (s : ExecutionStep) (collection : Sha256Hex × ℕ) : ExecutionStep :=
  { s with resolvedInput := some (.forEach collection.1 collection.2) }

/-- `assert_collection_pin_stable`. -/
def assertCollectionPinStable (loop : ExecutionStep) (collection : Sha256Hex × ℕ) :
    Except AppError Unit := do
  let pinned ← parseForeachCollectionPin loop.resolvedInput
  if pinned = collection then return ()
  else .error ⟨"EXECUTION_PRECONDITION_FAILED",
    "FOR_EACH collection hash/size drifted from pinned evidence."⟩

/-- The completeness checks of `build_previous_iteration_projection`. -/
def assertPreviousIteration (digest : TemplateDigest) (plan : ExecutionPlanV1)
    (steps : List ExecutionStep) (parent : ExecutionStep) (bodyStepIds : List String)
    (previousIterationNo : ℕ) : Except AppError Unit := do
  let children := childInstancesForIteration steps parent.id previousIterationNo
  let templates : List String := children.map (·.stepSnapshot.id)
  assertThat (decide templates.Nodup) "WHILE previous iteration has duplicate template."
  assertIterationSetCompleteTerminal digest plan steps parent bodyStepIds previousIterationNo

/-- `evaluate_while_gate` on a LOOP with pinned control evidence: the gate and the row with its
history. -/
def evaluateWhileGate (env : RuntimeEnv) (cfg : LoopStepConfigV1) (candidate : ℕ)
    (loop : ExecutionStep) (db : Db) : Except Raised (Bool × ExecutionStep) :=
  match cfg.predicate with
  | none => .error (.appError (conflict "WHILE gate requires WHILE predicate."))
  | some predicate =>
    let checked := do
      let _ ← parseWhilePredicateHistory loop.resolvedInput
      if 1 < candidate then
        assertPreviousIteration env.digest db.execution.planSnapshot db.steps.rows loop
          cfg.bodyStepIds (candidate - 1)
      env.whileEvidenceHash loop candidate db
    match checked with
    | .error e => .error (.appError e)
    | .ok evidenceHash => match env.evaluate predicate loop db with
      | .error e => .error e
      | .ok result =>
        match appendOrReplayWhileHistory loop.resolvedInput candidate evidenceHash result with
        | .error e => .error (.appError e)
        | .ok updated => .ok (result, { loop with resolvedInput := some updated })

/-- `loop_timeout_exceeded`. -/
def loopTimeoutExceeded (loop : ExecutionStep) (now : Time) : Bool :=
  loop.startedAt.any fun startedAt =>
    startedAt + loop.stepSnapshot.timeoutSeconds * 1000000 ≤ now

/-! ### The row budget -/

/-- The rows that a RUNNING LOOP still reserves. -/
def remainingReservation (plan : ExecutionPlanV1) (steps : List ExecutionStep)
    (loop : ExecutionStep) : Except AppError ℕ :=
  match loop.stepSnapshot.config with
  | .loop cfg => do
    assertThat (plan.byId? loop.stepKey == some loop.stepSnapshot)
      "RUNNING LOOP snapshot drift during expanded max_steps projection."
    match cfg.mode with
    | .forEach =>
      let pin ← parseForeachCollectionPin loop.resolvedInput
      let expected := pin.2 * cfg.bodyStepIds.length
      let actual := (childrenOf steps loop.id).length
      assertThat (actual ≤ expected) "LOOP has more child rows than pinned budget."
      return expected - actual
    | .while =>
      let _ ← parseWhilePredicateHistory loop.resolvedInput
      return 0
  | _ => .error (conflict "RUNNING LOOP has malformed config for expanded max_steps projection.")

/-- `PLAN_LIMIT_EXCEEDED`. -/
def planLimitExceeded : AppError := ⟨"PLAN_LIMIT_EXCEEDED", "limits.max_steps would be exceeded."⟩

/-- `assert_global_expanded_max_steps`. -/
def assertGlobalExpandedMaxSteps (plan : ExecutionPlanV1) (steps : List ExecutionStep) :
    Except AppError Unit := do
  let running := steps.filter fun s =>
    s.parentStepId = none ∧ s.stepType = .loop ∧ s.status = .running
  let remaining ← running.mapM (remainingReservation plan steps)
  if steps.length + remaining.sum > plan.limits.maxSteps then .error planLimitExceeded
  else return ()

/-- `assert_while_next_iteration_max_steps`. -/
def assertWhileNextIterationMaxSteps (plan : ExecutionPlanV1) (steps : List ExecutionStep)
    (bodyStepCount : ℕ) : Except AppError Unit := do
  if steps.length + bodyStepCount > plan.limits.maxSteps then .error planLimitExceeded
  else assertGlobalExpandedMaxSteps plan steps

/-! ### The rows of an iteration -/

/-- The row of a body template; a TOOL template without a TOOL config has none. -/
def newIterationStep? (env : RuntimeEnv) (loop : ExecutionStep) (iterationNo : ℕ)
    (template : ExecutionPlanStep) : Option ExecutionStep :=
  if h : (toolVersionForTemplate template).isSome = true ↔ template.type = .tool then
    some
      { id := env.stepId loop.id iterationNo template.id
        stepKey := iterationStepKey env.digest loop.id iterationNo template.id
        stepType := template.type
        mcpToolVersionId := toolVersionForTemplate template
        parentStepId := some loop.id
        status := .pending
        stepSnapshot := template
        resolvedInput := none
        resultInline := none
        conditionResult := none
        iterationNo := some iterationNo
        attemptCount := 0
        readyAt := none
        startedAt := none
        finishedAt := none
        errorCode := none
        toolVersion_isSome := h }
  else none

/-- One row of `materialize_iteration`. -/
def materializeBody (env : RuntimeEnv) (loop : ExecutionStep) (iterationNo : ℕ) (db : Db)
    (bodyId : String) : Except Raised Db :=
  match (db.execution.planSnapshot.byId? bodyId).bind (newIterationStep? env loop iterationNo) with
  | none => .error .assertionError
  | some row => db.insertStep row

/-- `materialize_iteration`. -/
def materializeIteration (env : RuntimeEnv) (cfg : LoopStepConfigV1) (iterationNo : ℕ)
    (loop : ExecutionStep) (db : Db) : Except Raised Db :=
  let existing := childInstancesForIteration db.steps.rows loop.id iterationNo
  if iterationNo < 1 then .error (.appError (conflict "iteration_no must be >= 1."))
  else if existing ≠ [] then
    if existing.length ≠ cfg.bodyStepIds.length then
      .error (.appError (conflict "Partial LOOP iteration materialization detected."))
    else .ok db
  else if db.steps.rows.length + cfg.bodyStepIds.length >
      db.execution.planSnapshot.limits.maxSteps then
    .error (.appError planLimitExceeded)
  else cfg.bodyStepIds.foldlM (materializeBody env loop iterationNo) db

/-! ### The end of a LOOP -/

/-- `succeed_loop`. -/
def ExecutionStep.succeedLoop (s : ExecutionStep) (collectionSize iterationsCompleted : ℕ)
    (now : Time) : ExecutionStep :=
  { s with
    status := .succeeded
    resultInline := some (.obj [("mode", .str "FOR_EACH"),
      ("iterations_completed", .int iterationsCompleted), ("collection_size", .int collectionSize)])
    errorCode := none
    finishedAt := some now }

/-- `succeed_while_loop`. -/
def ExecutionStep.succeedWhileLoop (s : ExecutionStep) (iterationsCompleted : ℕ) (now : Time) :
    ExecutionStep :=
  { s with
    status := .succeeded
    resultInline := some (whileResult iterationsCompleted)
    errorCode := none
    finishedAt := some now }

/-- `fail_loop_known`, and the end of a LOOP by an integrity error. -/
def ExecutionStep.failLoop (s : ExecutionStep) (status : StepStatus) (errorCode : String)
    (now : Time) : ExecutionStep :=
  { s with status := status, errorCode := some errorCode, finishedAt := some now }

/-- A child of a stopped LOOP, when it can be closed. -/
def ExecutionStep.stopChild? (s : ExecutionStep) (now : Time) : Option ExecutionStep :=
  if s.status.isTerminal then some s
  else if s.status = .pending then
    some (s.failLoop .skipped "UPSTREAM_LOOP_STOPPED" now)
  else if s.isUnusedReadyTool then
    some (s.failLoop .cancelled "UPSTREAM_LOOP_STOPPED" now)
  else none

/-- `stop_loop_owned_untouched_children`; the children before one that cannot be closed stay
closed. -/
def stopLoopOwnedUntouchedChildren (now : Time) : List ExecutionStep → Db → Except AppError Unit × Db
  | [], db => (.ok (), db)
  | child :: children, db => match child.stopChild? now with
    | some stopped => stopLoopOwnedUntouchedChildren now children (db.putStep stopped)
    | none => (.error (conflict "LOOP stop cannot clean body Step."), db)

/-- `_apply_loop_error_policy`, on the rows with the ended LOOP. -/
def applyLoopErrorPolicy (planStep : ExecutionPlanStep) (loop : ExecutionStep) (now : Time)
    (db : Db) : Local :=
  match stopLoopOwnedUntouchedChildren now (childrenOf db.steps.rows loop.id) db with
  | (.error e, db) => .halt (failClosedLineage e.code now db)
  | (.ok (), db) =>
    if planStep.onError = .failExecution ∨
        !isContinuableKnownFailure planStep.onError loop.status then
      .halt (failFast loop now db)
    else .ok (.go true db)

/-- A LOOP ends by a known failure. -/
def endLoopKnown (planStep : ExecutionPlanStep) (loop : ExecutionStep) (status : StepStatus)
    (errorCode : String) (now : Time) (db : Db) : Local :=
  let ended := loop.failLoop status errorCode now
  applyLoopErrorPolicy planStep ended now (db.putStep ended)

end McpFlow
