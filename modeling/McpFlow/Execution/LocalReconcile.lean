import McpFlow.Approval.Evidence
import McpFlow.Approval.Wait
import McpFlow.Execution.LoopReconcile

/-!
# The local reconcile

`_local_reconcile_locked`: everything that the orchestrator decides without an MCP call. One pass
prunes behind intentional skips, moves the LOOPs, evaluates CONDITIONs, APPROVALs and TOOL gates, and
closes JOINs; passes repeat until nothing changes or their bound is used up. A transition that stops
keeps the rows it has written; an exception that is no `AppError` rolls all of them back.
-/

namespace McpFlow

/-- `exc.code.startswith("PREDICATE_")`. -/
def AppError.isPredicateError (e : AppError) : Bool :=
  "PREDICATE_".toList.isPrefixOf e.code.toList

/-! ### Pruning -/

/-- A PENDING Step behind an intentional skip. -/
def ExecutionStep.pruneConditionally (s : ExecutionStep) (now : Time) : ExecutionStep :=
  { s with
    status := .skipped
    errorCode := some "UPSTREAM_CONDITION_SKIPPED"
    conditionResult := some false
    finishedAt := some now }

/-- Phase 1 of a pass; a JOIN is never pruned. -/
def pruneStep (dag : ToolJoinDag) (now : Time) (key : String) (db : Db) : Local :=
  match rowByKey db.steps.rows key with
  | none => .ok (.go false db)
  | some step =>
    if step.status = .pending ∧ step.stepType ≠ .join ∧
        hasIntentionalSkipDependency dag db.steps.rows step then
      .ok (.go true (db.putStep (step.pruneConditionally now)))
    else .ok (.go false db)

/-! ### LOOPs -/

/-- A LOOP that meets an integrity error ends with its Execution. -/
def failLoopClosed (loop : ExecutionStep) (e : AppError) (now : Time) (db : Db) :
    ProgressOutcome × Db :=
  let failed := if loop.status = .running then loop.failLoop .failed e.code now else loop
  if e.isPredicateError then failClosedPredicate failed e.code now (db.putStep failed)
  else failClosedLineage e.code now (db.putStep failed)

/-- The gate of a WHILE candidate, and what follows from it. -/
def advanceWhile (env : RuntimeEnv) (planStep : ExecutionPlanStep) (cfg : LoopStepConfigV1)
    (candidate : ℕ) (loop : ExecutionStep) (now : Time) (db : Db) : Local :=
  match evaluateWhileGate env cfg candidate loop db with
  | .error (.appError e) => .halt (failLoopClosed loop e now db)
  | .error e => .error e
  | .ok (gate, gated) =>
    let db := db.putStep gated
    if !gate then .ok (.go true (db.putStep (gated.succeedWhileLoop (candidate - 1) now)))
    else if cfg.maxIterations < candidate then
      endLoopKnown planStep gated .failed "LOOP_MAX_ITERATIONS_EXCEEDED" now db
    else match assertWhileNextIterationMaxSteps db.execution.planSnapshot db.steps.rows
        cfg.bodyStepIds.length with
      | .error e => .halt (failLoopClosed gated e now db)
      | .ok () => match materializeIteration env cfg candidate gated db with
        | .error (.appError e) => .halt (failLoopClosed gated e now db)
        | .error e => .error e
        | .ok db => .ok (.go true db)

/-- The handler of a FOR_EACH start that failed. -/
def forEachStartFailed (planStep : ExecutionPlanStep) (loop : ExecutionStep) (e : AppError)
    (now : Time) (db : Db) : Local :=
  if e.code = "LOOP_MAX_ITERATIONS_EXCEEDED" then endLoopKnown planStep loop .failed e.code now db
  else .halt (failClosedLineage e.code now (db.putStep (loop.failLoop .failed e.code now)))

/-- The start of a FOR_EACH LOOP. An error of the first materialization is not caught. -/
def startForEach (env : RuntimeEnv) (planStep : ExecutionPlanStep) (cfg : LoopStepConfigV1)
    (loop : ExecutionStep) (now : Time) (db : Db) : Local :=
  match env.resolveForeachCollection loop db with
  | .error e => forEachStartFailed planStep loop e now db
  | .ok collection =>
    let pinned := loop.pinCollection collection
    let db := db.putStep pinned
    if cfg.maxIterations < collection.2 then
      endLoopKnown planStep pinned .failed "LOOP_MAX_ITERATIONS_EXCEEDED" now db
    else match assertGlobalExpandedMaxSteps db.execution.planSnapshot db.steps.rows with
      | .error e => forEachStartFailed planStep pinned e now db
      | .ok () =>
        if collection.2 = 0 then .ok (.go true (db.putStep (pinned.succeedLoop 0 0 now)))
        else match materializeIteration env cfg 1 pinned db with
          | .error e => .error e
          | .ok db => .ok (.go true db)

/-- The start of a LOOP whose `when` is true. -/
def startLoop (env : RuntimeEnv) (planStep : ExecutionPlanStep) (cfg : LoopStepConfigV1)
    (step : ExecutionStep) (now : Time) (db : Db) : Local :=
  let running :=
    { step with
      status := .running
      readyAt := some now
      startedAt := step.startedAt.or (some now) }
  match cfg.mode with
  | .forEach => startForEach env planStep cfg running now (db.putStep running)
  | .while =>
    let pinned := running.pinWhileControl
    let db := db.putStep pinned
    if loopTimeoutExceeded pinned now then
      endLoopKnown planStep pinned .timedOut "LOOP_TIMEOUT" now db
    else advanceWhile env planStep cfg 1 pinned now db

/-- A RUNNING FOR_EACH LOOP; its timeout was checked before. -/
def advanceForEach (env : RuntimeEnv) (cfg : LoopStepConfigV1) (loop : ExecutionStep) (now : Time)
    (db : Db) : Local :=
  let stable := do
    let collection ← env.resolveForeachCollection loop db
    assertCollectionPinStable loop collection
    return collection.2
  match stable with
  | .error e => .halt (failClosedLineage e.code now (db.putStep (loop.failLoop .failed e.code now)))
  | .ok collectionSize =>
    let current := maxMaterializedIteration db.steps.rows loop.id
    let materialize (iterationNo : ℕ) : Local :=
      match materializeIteration env cfg iterationNo loop db with
      | .error e => .error e
      | .ok db => .ok (.go true db)
    if current < 1 then materialize 1
    else if !iterationComplete db.steps.rows loop.id current cfg.bodyStepIds.length then
      .ok (.go false db)
    else if current < collectionSize then materialize (current + 1)
    else .ok (.go true (db.putStep (loop.succeedLoop collectionSize collectionSize now)))

/-- A RUNNING LOOP. The second timeout check of an iteration uses the same `now`. -/
def advanceLoop (env : RuntimeEnv) (planStep : ExecutionPlanStep) (cfg : LoopStepConfigV1)
    (loop : ExecutionStep) (now : Time) (db : Db) : Local :=
  if loopTimeoutExceeded loop now then
    endLoopKnown planStep loop .timedOut "LOOP_TIMEOUT" now db
  else match cfg.mode with
    | .forEach => advanceForEach env cfg loop now db
    | .while =>
      let current := maxMaterializedIteration db.steps.rows loop.id
      if current < 1 then
        advanceWhile env planStep cfg 1
          (if loop.resolvedInput = none then loop.pinWhileControl else loop) now db
      else if !iterationComplete db.steps.rows loop.id current cfg.bodyStepIds.length then
        .ok (.go false db)
      else advanceWhile env planStep cfg (current + 1) loop now db

/-- The plan step and the config of a LOOP row. -/
def loopConfig (plan : ExecutionPlanV1) (step : ExecutionStep) :
    Except AppError (ExecutionPlanStep × LoopStepConfigV1) := do
  let planStep ← runtimePlanStep plan step
  match planStep.config with
  | .loop cfg => return (planStep, cfg)
  | _ => .error (conflict "Invalid LOOP config.")

/-- Phase 1b of a pass, for one key. -/
def visitLoop (env : RuntimeEnv) (dag : ToolJoinDag) (now : Time) (key : String) (db : Db) :
    Local :=
  match rowByKey db.steps.rows key with
  | none => .ok (.go false db)
  | some step =>
    if step.stepType ≠ .loop then .ok (.go false db)
    else if step.parentStepId ≠ none then .halt (failClosedLineage "RESOURCE_CONFLICT" now db)
    else if step.status = .pending then
      if !loopStructurallyEligible dag db.steps.rows step then .ok (.go false db)
      else match loopConfig db.execution.planSnapshot step with
        | .error e => .halt (failClosedLineage e.code now db)
        | .ok (planStep, cfg) => match evaluateWhenGate env planStep step db with
          | .error (.appError e) => .halt (failClosedPredicate step e.code now db)
          | .error e => .error e
          | .ok true => .ok (.go true (db.putStep (step.applyWhenFalse now)))
          | .ok false => startLoop env planStep cfg step now db
    else if step.status = .running then
      match loopConfig db.execution.planSnapshot step with
      | .error e => .halt (failClosedLineage e.code now db)
      | .ok (planStep, cfg) => advanceLoop env planStep cfg step now db
    else .ok (.go false db)

/-! ### CONDITIONs -/

/-- A CONDITION with its result. -/
def ExecutionStep.succeedCondition (s : ExecutionStep) (result : Bool) (now : Time) :
    ExecutionStep :=
  { s with
    status := .succeeded
    readyAt := some now
    startedAt := s.startedAt.or (some now)
    conditionResult := some result
    resultInline := some (.obj [("condition_result", .bool result)])
    errorCode := none
    finishedAt := some now }

/-- The code under which a failed predicate ends the Execution. -/
def Raised.predicateCode : Raised → String
  | .appError e => e.code
  | _ => "PREDICATE_EVALUATION_FAILED"

/-- Phase 2 of a pass, for one key. -/
def visitCondition (env : RuntimeEnv) (dag : ToolJoinDag) (now : Time) (key : String) (db : Db) :
    Local :=
  match rowByKey db.steps.rows key with
  | none => .ok (.go false db)
  | some step =>
    if !conditionStructurallyEligible dag db.steps.rows step then .ok (.go false db)
    else match runtimePlanStep db.execution.planSnapshot step with
      | .error e => .halt (failClosedLineage e.code now db)
      | .ok planStep => match evaluateWhenGate env planStep step db with
        | .error (.appError e) => .halt (failClosedPredicate step e.code now db)
        | .error e => .error e
        | .ok true => .ok (.go true (db.putStep (step.applyWhenFalse now)))
        | .ok false =>
          let result := match planStep.config with
            | .condition predicate => env.evaluate predicate step db
            | _ => .error .assertionError
          match result with
          | .error e => .halt (failClosedPredicate step e.predicateCode now db)
          | .ok result => .ok (.go true (db.putStep (step.succeedCondition result now)))

/-! ### APPROVALs -/

/-- The latest APPROVED authorable request of a Step. -/
def approvedAuthorableRequest (db : Db) (stepId : UUID) : Option ApprovalRequest :=
  let approved := db.approvals.rows.filter fun r =>
    r.executionId = db.execution.id ∧ r.stepExecutionId = stepId ∧ r.status = .approved
  let later (a b : ApprovalRequest) : Bool :=
    b.resolvedAt.getD 0 < a.resolvedAt.getD 0 ||
      (b.resolvedAt == a.resolvedAt && b.id.int ≤ a.id.int)
  (approved.insertionSort (later · ·)).find? fun r =>
    r.resolvedAt.isSome ∧ Approval.isAuthorableStepContext r.contextSnapshot

/-- The code of an approval that no longer holds. -/
def approvalResumePreconditionFailed : String := "APPROVAL_RESUME_PRECONDITION_FAILED"

/-- An approved APPROVAL. -/
def ExecutionStep.succeedApproval (s : ExecutionStep) (request : ApprovalRequest) (now : Time) :
    ExecutionStep :=
  { s with
    status := .succeeded
    startedAt := s.startedAt.or (some now)
    resultInline := some (.obj [("approval_status", .str "APPROVED"),
      ("approval_request_id", .str request.id.toString)])
    errorCode := none
    finishedAt := some now }

/-- A READY APPROVAL is completed by its approved request. -/
def completeApproval (env : RuntimeEnv) (now : Time) (key : String) (db : Db) : Local :=
  match rowByKey db.steps.rows key with
  | none => .ok (.go false db)
  | some step =>
    if step.stepType ≠ .approval ∨ step.status ≠ .ready then .ok (.go false db)
    else if db.execution.planSnapshot.byId? step.stepKey ≠ some step.stepSnapshot then
      .halt (failClosedLineage "RESOURCE_CONFLICT" now db)
    else match approvedAuthorableRequest db step.id with
      | none => .halt (failClosedLineage approvalResumePreconditionFailed now db)
      | some request => match env.approvalContext request with
        | .error _ =>
          let failed := step.failLoop .failed approvalResumePreconditionFailed now
          .halt (failFast failed now (db.putStep failed))
        | .ok () => .ok (.go true (db.putStep (step.succeedApproval request now)))

/-- The first eligible PENDING APPROVAL enters its wait. An error of the wait is not caught. -/
def enterApproval (env : RuntimeEnv) (dag : ToolJoinDag) (now : Time) (key : String) (db : Db) :
    Local :=
  match rowByKey db.steps.rows key with
  | none => .ok (.go false db)
  | some step =>
    if !approvalStructurallyEligible dag db.steps.rows step then .ok (.go false db)
    else match db.execution.planSnapshot.byId? step.stepKey with
      | none => .error .assertionError
      | some planStep =>
        if planStep ≠ step.stepSnapshot then .halt (failClosedLineage "RESOURCE_CONFLICT" now db)
        else match evaluateWhenGate env planStep step db with
          | .error (.appError e) => .halt (failClosedPredicate step e.code now db)
          | .error e => .error e
          | .ok true => .ok (.go true (db.putStep (step.applyWhenFalse now)))
          | .ok false =>
            let gated := if planStep.when = none then step
              else { step with conditionResult := some true }
            let db := db.putStep gated
            match planStep.config with
            | .approval approvalPolicyId =>
              match (env.approvalPolicy approvalPolicyId).filter (·.status = .active) with
              | none => .halt (failClosedLineage "EXECUTION_PRECONDITION_FAILED" now db)
              | some policy =>
                match Approval.enterForApprovalStep env.computeCanonicalJsonHash policy
                    env.approvalRequestId now gated db with
                | .error e => .error e
                | .ok (_, db) => .halt (
                    { executionComplete := false
                      reason := "WAITING_APPROVAL"
                      executionStatus := some .waitingApproval
                      readyStepIds := [step.id] }, db)
            | _ => .halt (failClosedLineage "RESOURCE_CONFLICT" now db)

/-- Phase 2b of a pass: `_reconcile_approval_steps_locked`. -/
def reconcileApprovals (env : RuntimeEnv) (dag : ToolJoinDag) (now : Time) (db : Db) : Local :=
  match visitKeys (completeApproval env now) dag.orderedStepKeys false db with
  | .ok (.go changed db) =>
    -- One PENDING request at a time.
    if (Approval.findPendingForExecution db).isSome then .ok (.go changed db)
    else visitKeys (enterApproval env dag now) dag.orderedStepKeys changed db
  | result => result

/-! ### TOOL gates and JOINs -/

/-- Phase 3 of a pass, for one key: a true gate leaves the TOOL PENDING. -/
def visitToolGate (env : RuntimeEnv) (dag : ToolJoinDag) (now : Time) (key : String) (db : Db) :
    Local :=
  match rowByKey db.steps.rows key with
  | none => .ok (.go false db)
  | some step =>
    if !toolStructurallyEligible dag db.steps.rows step then .ok (.go false db)
    else match runtimePlanStep db.execution.planSnapshot step with
      | .error e => .halt (failClosedLineage e.code now db)
      | .ok planStep =>
        if planStep.when = none then .ok (.go false db)
        else match evaluateWhenGate env planStep step db with
          | .error (.appError e) => .halt (failClosedPredicate step e.code now db)
          | .error e => .error e
          | .ok true => .ok (.go true (db.putStep (step.applyWhenFalse now)))
          | .ok false => .ok (.go false (db.putStep { step with conditionResult := some true }))

/-- A JOIN closed by its policy. -/
def ExecutionStep.closeJoin (s : ExecutionStep) (succeeded : Bool) (now : Time) : ExecutionStep :=
  { s with
    status := if succeeded then .succeeded else .failed
    readyAt := some now
    startedAt := s.startedAt.or (some now)
    errorCode := if succeeded then none else some "JOIN_POLICY_UNSATISFIED"
    finishedAt := some now }

/-- Phase 4 of a pass, for one key. -/
def visitJoin (env : RuntimeEnv) (dag : ToolJoinDag) (now : Time) (key : String) (db : Db) :
    Local :=
  match rowByKey db.steps.rows key with
  | none => .ok (.go false db)
  | some step =>
    if !joinBarrierReady dag db.steps.rows step then .ok (.go false db)
    else match runtimePlanStep db.execution.planSnapshot step with
      | .error e => .halt (failClosedLineage e.code now db)
      | .ok planStep => match evaluateWhenGate env planStep step db with
        | .error (.appError e) => .halt (failClosedPredicate step e.code now db)
        | .error e => .error e
        | .ok true => .ok (.go true (db.putStep (step.applyWhenFalse now)))
        | .ok false =>
          match planStep.config with
          | .join policy =>
            let gated := if planStep.when = none then step
              else { step with conditionResult := some true }
            let statuses := (dag.dependenciesOf step.stepKey).filterMap fun dep =>
              (rowByKey db.steps.rows dep).map (·.status)
            let closed := gated.closeJoin (evaluateJoinPolicy policy statuses) now
            let db := db.putStep closed
            if closed.status = .succeeded ∨ (planStep.onError ≠ .failExecution ∧
                isContinuableKnownFailure planStep.onError closed.status) then
              .ok (.go true db)
            else .halt (failFast closed now db)
          | _ => .error .assertionError

/-! ### Passes -/

/-- The DAG after the LOOPs changed; a row set that is no longer valid ends the Execution. -/
def refreshDag (env : RuntimeEnv) (dag : ToolJoinDag) (loopsChanged : Bool) (now : Time) (db : Db) :
    Except (ProgressOutcome × Db) ToolJoinDag :=
  if loopsChanged then
    match validateToolJoinDag env.digest db.execution.planSnapshot db.steps.rows with
    | .error e => .error (failClosedLineage e.code now db)
    | .ok dag => .ok dag
  else .ok dag

/-- One transition after another. -/
def Local.andThen (first : Local) (next : Bool → Db → Local) : Local :=
  match first with
  | .ok (.go changed db) => next changed db
  | result => result

/-- The phases of a pass after the LOOPs. -/
def passAfterLoops (env : RuntimeEnv) (dag : ToolJoinDag) (now : Time) (changed : Bool) (db : Db) :
    Local :=
  (visitKeys (visitCondition env dag now) dag.orderedStepKeys changed db).andThen fun changed db =>
  (reconcileApprovals env dag now db).andThen fun approvalsChanged db =>
  (visitKeys (visitToolGate env dag now) dag.orderedStepKeys (changed || approvalsChanged) db).andThen
    fun changed db => visitKeys (visitJoin env dag now) dag.orderedStepKeys changed db

/-- The passes of `_local_reconcile_locked`. It goes on with `changed` false at a fixed point, and
with `changed` true when the passes are used up. -/
def localPasses (env : RuntimeEnv) (now : Time) : ℕ → ToolJoinDag → Db → Local
  | 0, _, db => .ok (.go true db)
  | passes + 1, dag, db =>
    (visitKeys (pruneStep dag now) dag.orderedStepKeys false db).andThen fun pruned db =>
    (visitKeys (visitLoop env dag now) dag.orderedStepKeys false db).andThen fun loopsChanged db =>
      match refreshDag env dag loopsChanged now db with
      | .error result => .halt result
      | .ok dag =>
        (passAfterLoops env dag now (pruned || loopsChanged) db).andThen fun changed db =>
          if changed then localPasses env now passes dag db else .ok (.go false db)

/-- The bound of the passes. -/
def passBound (dag : ToolJoinDag) (steps : List ExecutionStep) : ℕ :=
  max 1 (max dag.orderedStepKeys.length steps.length * 8 + 8)

/-- `_local_reconcile_locked`. -/
def localReconcile (env : RuntimeEnv) (dag : ToolJoinDag) (now : Time) (db : Db) : Local :=
  localPasses env now (passBound dag db.steps.rows) dag db

end McpFlow
