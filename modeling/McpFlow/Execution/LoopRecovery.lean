import McpFlow.Execution.LoopReconcile

/-!
# LOOP checkpoints of a recovery

Before an expired RUNNING Execution is taken over, `assert_execution_loop_recovery_checkpoints`
checks every LOOP row with its control evidence and its children. Nothing is written here.
-/

namespace McpFlow

/-- `assert_flat_foreach_runtime_compatible` without an ownership. -/
def flatLoopOwnership (plan : ExecutionPlanV1) : Except AppError LoopBodyOwnership := do
  let ownership ← buildLoopBodyOwnership plan
  assertFlatForeachRuntimeCompatible plan ownership
  return ownership

/-- `plan_has_loop`. -/
def planHasLoop (plan : ExecutionPlanV1) : Bool := plan.steps.any (·.type == .loop)

/-- `assert_loop_recovery_ownership`. -/
def assertLoopRecoveryOwnership (plan : ExecutionPlanV1) : Except AppError LoopBodyOwnership :=
  match flatLoopOwnership plan with
  | .ok ownership => .ok ownership
  | .error e => .error (if e.code = "LOOP_RUNTIME_UNSUPPORTED" then conflict e.message else e)

/-- `_assert_dynamic_child_lineage`. -/
def assertDynamicChildLineage (digest : TemplateDigest) (plan : ExecutionPlanV1)
    (parent : ExecutionStep) (cfg : LoopStepConfigV1) (child : ExecutionStep) :
    Except AppError Unit := do
  assertThat (child.parentStepId == some parent.id) "LOOP child parent_step_id mismatch."
  let iterationNo := child.iterationNo.getD 0
  let template := child.stepSnapshot
  assertThat (1 ≤ iterationNo) "LOOP child iteration_no must be >= 1."
  assertThat (plan.steps.find? (·.id = template.id) == some template)
    "LOOP child snapshot is not an exact body template projection."
  assertThat (cfg.bodyStepIds.contains template.id) "LOOP child template is not owned by LOOP."
  assertThat (child.stepType == template.type) "LOOP child step_type mismatches body template."
  assertThat (child.stepKey == iterationStepKey digest parent.id iterationNo template.id)
    "LOOP child step_key does not match deterministic key."
  assertThat (child.mcpToolVersionId == toolVersionForTemplate template)
    "LOOP child TOOL mcp_tool_version_id mismatches template."
  if cfg.mode = .while then
    assertWhileChildImmutableLineage digest child parent.id iterationNo template

/-- `_assert_iteration_child_set`. -/
def assertIterationChildSet (digest : TemplateDigest) (plan : ExecutionPlanV1)
    (steps : List ExecutionStep) (parent : ExecutionStep) (cfg : LoopStepConfigV1)
    (requireTerminal : Bool) (iterationNo : ℕ) : Except AppError Unit := do
  let children := childInstancesForIteration steps parent.id iterationNo
  assertThat (!children.isEmpty) "LOOP iteration has no child rows."
  assertThat (children.length == cfg.bodyStepIds.length)
    "LOOP iteration is a partial materialization."
  children.forM (assertDynamicChildLineage digest plan parent cfg)
  let templates : List String := children.map (·.stepSnapshot.id)
  assertThat (decide templates.Nodup) "LOOP iteration has duplicate body templates."
  assertThat (templates.sameSet cfg.bodyStepIds) "LOOP iteration template set is not body_step_ids."
  if requireTerminal then
    assertThat (children.all fun c => c.status.isTerminal && c.status != .unknownOutcome)
      "LOOP iteration is not terminal while a newer iteration exists."

/-- The iterations with a Step that is not terminal. -/
def activeIterations (steps : List ExecutionStep) (parent : ExecutionStep) (maxN : ℕ) : List ℕ :=
  (List.range' 1 maxN).filter fun n =>
    (childInstancesForIteration steps parent.id n).any (!·.status.isTerminal)

/-- `_assert_iteration_topology`: the number of materialized iterations. -/
def assertIterationTopology (digest : TemplateDigest) (plan : ExecutionPlanV1)
    (steps : List ExecutionStep) (parent : ExecutionStep) (cfg : LoopStepConfigV1) (maxBound : ℕ) :
    Except AppError ℕ := do
  let children := childrenOf steps parent.id
  let maxN := maxMaterializedIteration steps parent.id
  if maxN < 1 then
    assertThat children.isEmpty "LOOP has child rows without a valid iteration_no."
    return 0
  else
    assertThat (maxN ≤ maxBound) "LOOP materialized iteration count exceeds bound."
    assertThat ((children.filterMap (·.iterationNo)).sameSet (List.range' 1 maxN))
      "LOOP materialized iterations are not contiguous."
    (List.range' 1 maxN).forM fun n =>
      assertIterationChildSet digest plan steps parent cfg (n < maxN) n
    let active := activeIterations steps parent maxN
    assertThat (active.length ≤ 1) "LOOP has multiple active iterations."
    assertThat (active.all (· == maxN))
      "LOOP active iteration is not the highest materialized iteration."
    assertThat (!parent.status.isTerminal || active.isEmpty)
      "Terminal LOOP still has active child evidence."
    return maxN

/-- `revalidate_foreach_collection_pin`: the size of the collection. -/
def revalidateForeachCollectionPin (env : RuntimeEnv) (loop : ExecutionStep) (db : Db) :
    Except AppError ℕ := do
  assertThat (loop.stepSnapshot.config matches .loop _)
    "LOOP config invalid during collection pin revalidation."
  let _ ← parseForeachCollectionPin loop.resolvedInput
  let collection ← env.resolveForeachCollection loop db
  assertCollectionPinStable loop collection
  return collection.2

/-- The pin of a FOR_EACH LOOP agrees with its collection and the bound of the plan. -/
def assertForeachPin (env : RuntimeEnv) (parent : ExecutionStep) (cfg : LoopStepConfigV1) (db : Db) :
    Except AppError ℕ := do
  let pin ← parseForeachCollectionPin parent.resolvedInput
  let collectionSize ← revalidateForeachCollectionPin env parent db
  assertThat (pin.2 == collectionSize)
    "FOR_EACH collection_size drifted from re-resolved collection."
  assertThat (pin.2 ≤ cfg.maxIterations) "FOR_EACH pinned collection_size exceeds max_iterations."
  return pin.2

/-- `_assert_succeeded_foreach_completion`. -/
def assertSucceededForeachCompletion (env : RuntimeEnv) (parent : ExecutionStep)
    (cfg : LoopStepConfigV1) (db : Db) : Except AppError Unit := do
  let size ← assertForeachPin env parent cfg db
  assertThat parent.errorCode.isNone "SUCCEEDED FOR_EACH must have error_code null."
  assertThat (parent.resultInline == some (.obj [("mode", .str "FOR_EACH"),
      ("iterations_completed", .int size), ("collection_size", .int size)]))
    "SUCCEEDED FOR_EACH result_inline must be exact."
  if size = 0 then
    assertThat (childrenOf db.steps.rows parent.id).isEmpty
      "SUCCEEDED FOR_EACH zero-iteration completion must have no children."
  else
    let maxN ← assertIterationTopology env.digest db.execution.planSnapshot db.steps.rows parent cfg
      size
    assertThat (maxN == size) "SUCCEEDED FOR_EACH requires exactly its size of iterations."
    (List.range' 1 size).forM
      (assertIterationChildSet env.digest db.execution.planSnapshot db.steps.rows parent cfg true)

/-- `_assert_parent_plan_projection`. -/
def assertParentPlanProjection (parent : ExecutionStep) (planStep : ExecutionPlanStep) :
    Except AppError Unit := do
  assertThat (parent.stepKey == planStep.id) "LOOP parent step_key does not match Plan LOOP id."
  assertThat (planStep == parent.stepSnapshot)
    "LOOP parent snapshot is not an exact Plan Step projection."

/-- `_assert_foreach_recovery_checkpoint`. -/
def assertForeachRecoveryCheckpoint (env : RuntimeEnv) (planStep : ExecutionPlanStep)
    (cfg : LoopStepConfigV1) (parent : ExecutionStep) (db : Db) : Except AppError Unit := do
  assertParentPlanProjection parent planStep
  let plan := db.execution.planSnapshot
  if parent.status = .running then
    let size ← assertForeachPin env parent cfg db
    let maxN ← assertIterationTopology env.digest plan db.steps.rows parent cfg size
    assertThat (maxN ≤ size) "FOR_EACH materialized count exceeds pinned collection_size."
  else if parent.status = .succeeded then assertSucceededForeachCompletion env parent cfg db
  else if parent.status.isTerminal ∧ childrenOf db.steps.rows parent.id ≠ [] then
    let pin ← parseForeachCollectionPin parent.resolvedInput
    let _ ← assertIterationTopology env.digest plan db.steps.rows parent cfg pin.2

/-- `_revalidate_while_history_entry_hash`. -/
def revalidateWhileHistoryEntryHash (env : RuntimeEnv) (parent : ExecutionStep) (db : Db)
    (nextIterationNo : ℕ) (entry : GateEntry) : Except AppError Unit := do
  let rebuilt ← env.whileEvidenceHash parent nextIterationNo db
  assertThat (rebuilt == entry.evidenceHash) "WHILE evidence_hash drift for candidate."

/-- The checkpoint of a RUNNING WHILE LOOP without children: the first gate is persisted. -/
def assertFirstGateCheckpoint (env : RuntimeEnv) (parent : ExecutionStep) (db : Db)
    (history : List GateEntry) : Except AppError Unit := do
  assertThat (!history.isEmpty)
    "WHILE RUNNING with no children and empty predicate_history is not a durable checkpoint."
  assertThat (history.length == 1)
    "WHILE RUNNING with no children has non-singleton predicate_history."
  match historyEntryFor history 1 with
  | none => .error (conflict "WHILE RUNNING with no children requires history gate 1.")
  | some entry => revalidateWhileHistoryEntryHash env parent db 1 entry

/-- The gate of a materialized iteration is true and its evidence has not drifted. -/
def assertMaterializedGate (env : RuntimeEnv) (parent : ExecutionStep) (db : Db)
    (history : List GateEntry) (n : ℕ) : Except AppError Unit := do
  match historyEntryFor history n with
  | none => .error (conflict "WHILE materialized iteration lacks a true predicate_history gate.")
  | some entry =>
    assertThat entry.result
      "WHILE materialized iteration lacks a true predicate_history gate."
    revalidateWhileHistoryEntryHash env parent db n entry

/-- The checkpoint of a RUNNING WHILE LOOP after its materialized iterations. -/
def assertCandidateCheckpoint (env : RuntimeEnv) (parent : ExecutionStep) (db : Db)
    (history : List GateEntry) (maxN : ℕ) : Except AppError Unit := do
  let children := childrenOf db.steps.rows parent.id
  match historyEntryFor history (maxN + 1) with
  | none =>
    assertThat (history.length == maxN)
      "WHILE predicate_history length is inconsistent with materialized iterations."
  | some next =>
    assertThat (history.length == maxN + 1)
      "WHILE predicate_history extends past the candidate."
    assertThat (!(children.any fun c => c.iterationNo == some maxN && !c.status.isTerminal))
      "WHILE has an active iteration and also a persisted gate for the next candidate."
    assertThat (!(children.any (·.iterationNo == some (maxN + 1))))
      "WHILE has unexpected rows for the next candidate."
    revalidateWhileHistoryEntryHash env parent db (maxN + 1) next

/-- `_assert_while_recovery_checkpoint`. -/
def assertWhileRecoveryCheckpoint (env : RuntimeEnv) (planStep : ExecutionPlanStep)
    (cfg : LoopStepConfigV1) (parent : ExecutionStep) (db : Db) : Except AppError Unit := do
  assertParentPlanProjection parent planStep
  let plan := db.execution.planSnapshot
  let steps := db.steps.rows
  if parent.status ≠ .running then
    if parent.status.isTerminal then
      assertWhileParentControlState env.digest plan steps parent cfg
  else
    let history ← parseWhilePredicateHistory parent.resolvedInput
    if maxMaterializedIteration steps parent.id < 1 then
      assertFirstGateCheckpoint env parent db history
    else
      let maxN ← assertIterationTopology env.digest plan steps parent cfg cfg.maxIterations
      (List.range' 1 maxN).forM (assertMaterializedGate env parent db history)
      assertThat (history.all fun entry => entry.result || maxN < entry.nextIterationNo)
        "WHILE has false gate at or before a materialized iteration."
      assertThat (history.all fun entry => entry.result ||
          !((childrenOf steps parent.id).any fun c =>
            c.iterationNo.any (entry.nextIterationNo ≤ ·)))
        "WHILE has child rows after false gate candidate."
      assertCandidateCheckpoint env parent db history maxN

/-- The checkpoint of one top-level row. -/
def assertLoopCheckpoint (env : RuntimeEnv) (db : Db) (top : ExecutionStep) :
    Except AppError Unit :=
  if top.stepType ≠ .loop then .ok ()
  else match db.execution.planSnapshot.byId? top.stepKey with
    | none => .error (conflict "LOOP config is invalid.")
    | some planStep => match planStep.config with
      | .loop cfg => match cfg.mode with
        | .forEach => assertForeachRecoveryCheckpoint env planStep cfg top db
        | .while => assertWhileRecoveryCheckpoint env planStep cfg top db
      | _ => .error (conflict "LOOP config is invalid.")

/-- `assert_execution_loop_recovery_checkpoints`. -/
def assertExecutionLoopRecoveryCheckpoints (env : RuntimeEnv) (ownership : LoopBodyOwnership)
    (db : Db) : Except AppError Unit := do
  let topLevel ← topLevelPlanSteps db.execution.planSnapshot
  let topRows := db.steps.rows.filter (·.parentStepId.isNone)
  let childRows := db.steps.rows.filter (·.parentStepId.isSome)
  assertThat (topRows.all fun row => (ownership.bodyToLoop.get? row.stepKey).isNone)
    "Body template must not exist as a top-level ExecutionStep."
  assertThat (topRows.all fun row => topLevel.any (·.id == row.stepKey))
    "Unexpected top-level Step for LOOP recovery."
  assertThat (topLevel.all fun ps => topRows.any (·.stepKey == ps.id))
    "Missing top-level Steps for LOOP recovery."
  assertThat (childRows.all fun child =>
      topRows.any fun parent => child.parentStepId == some parent.id && parent.stepType == .loop)
    "LOOP child parent must be a LOOP Step."
  topRows.forM (assertLoopCheckpoint env db)

end McpFlow
