import Mathlib.Data.List.Lex
import Mathlib.Order.Nat
import Mathlib.Data.List.Sort
import McpFlow.Execution.Completion

/-!
# The runtime DAG

`validate_tool_join_dag` accepts the Step rows of an Execution when they are an exact projection of
its plan with well-shaped LOOP iterations, and orders them. The rules below decide which PENDING
Step may go on. As in `LoopRuntime`, the texts of the errors leave out the interpolated ids.
-/

namespace McpFlow

/-- `ToolJoinDag`. -/
structure ToolJoinDag where
  orderedStepKeys : List String
  rootToolKeys : List String
  maxParallelism : ℕ
  dependents : Dict (List String)
  dependencies : Dict (List String)
deriving DecidableEq

/-- `by_key`. -/
def rowByKey (steps : List ExecutionStep) (stepKey : String) : Option ExecutionStep :=
  steps.find? (·.stepKey = stepKey)

/-- `dag.dependencies.get(step_key, ())`. -/
def ToolJoinDag.dependenciesOf (dag : ToolJoinDag) (stepKey : String) : List String :=
  (dag.dependencies.get? stepKey).getD []

/-! ### Validation -/

/-- `_validate_typed_config`. -/
def validateTypedConfig (ps : ExecutionPlanStep) (step : ExecutionStep) (dependsOn : List String)
    (allowLoop : Bool) : Except AppError Unit := do
  match ps.type with
  | .tool =>
    assertThat step.mcpToolVersionId.isSome "TOOL Step missing mcp_tool_version_id."
    match ps.config with
    | .tool toolVersionId _ =>
      assertThat (step.mcpToolVersionId == some toolVersionId)
        "TOOL mcp_tool_version_id does not match config.tool_version_id."
    | _ => .error (conflict "Invalid TOOL config.")
    assertThat (dependsOn.length ≤ 1)
      "TOOL direct fan-in is unsupported; use an explicit JOIN."
  | .condition =>
    assertThat step.mcpToolVersionId.isNone "CONDITION Step must have null mcp_tool_version_id."
    assertThat (ps.config matches .condition _) "Invalid CONDITION config."
  | .join =>
    assertThat step.mcpToolVersionId.isNone "JOIN Step must have null mcp_tool_version_id."
    assertThat (ps.config matches .join _) "Invalid JOIN config."
    assertThat (!dependsOn.isEmpty) "JOIN requires one or more dependencies."
  | .approval =>
    assertThat step.mcpToolVersionId.isNone "APPROVAL Step must have null mcp_tool_version_id."
    assertThat (ps.config matches .approval _) "Invalid APPROVAL config."
  | .loop =>
    assertThat allowLoop "Unsupported Plan Step type."
    assertThat step.mcpToolVersionId.isNone "LOOP Step must have null mcp_tool_version_id."
    assertThat (ps.config matches .loop _) "Invalid LOOP config."

/-- `_assert_exact_plan_projection`. -/
def assertExactPlanProjection (ps : ExecutionPlanStep) (step : ExecutionStep) :
    Except AppError Unit := do
  assertThat (step.stepSnapshot == ps)
    "step_snapshot is not an exact projection of immutable Plan Step."
  assertThat (step.stepType == ps.type)
    "ExecutionStep.step_type does not match immutable Plan Step type."

/-- The rows match the plan: exactly without LOOP bodies, at the top level with them. -/
def assertRowsMatchPlan (plan : ExecutionPlanV1) (hasLoopBodies : Bool)
    (topLevel : List ExecutionPlanStep) (steps : List ExecutionStep) : Except AppError Unit := do
  let topRows := steps.filter (·.parentStepId.isNone)
  if hasLoopBodies then
    assertThat (topRows.all (·.iterationNo.isNone))
      "Top-level runtime Steps must have iteration_no null."
    assertThat ((topRows.map (·.stepKey)).sameSet (topLevel.map (·.id)))
      "Top-level ExecutionStep keys do not exactly match non-body Plan Step IDs."
  else
    assertThat (steps.all (·.parentStepId.isNone)) "Runtime DAG Steps must have parent_step_id null."
    assertThat (plan.steps.length == steps.length) "Execution Step count does not match plan.steps."
    assertThat ((steps.map (·.stepKey)).sameSet (plan.steps.map (·.id)))
      "ExecutionStep keys do not exactly match Plan Step IDs."
    assertThat (steps.all (·.stepType != .loop))
      "Step type LOOP unsupported without LOOP body ownership."

/-- The checks of a top-level plan step; its dependencies. -/
def validateTopLevelStep (topLevelIds : List String) (hasLoopBodies : Bool)
    (steps : List ExecutionStep) (ps : ExecutionPlanStep) :
    Except AppError (String × List String) := do
  match rowByKey steps ps.id with
  | none => .error (conflict "ExecutionStep keys do not exactly match Plan Step IDs.")
  | some step =>
    assertThat step.parentStepId.isNone "Top-level Step has parent_step_id set."
    assertExactPlanProjection ps step
    assertThat (decide ps.dependsOn.Nodup) "Duplicate depends_on on Step."
    assertThat (ps.dependsOn.all (topLevelIds.contains ·)) "Step depends on missing Step."
    validateTypedConfig ps step ps.dependsOn hasLoopBodies
    return (ps.id, ps.dependsOn)

/-- The dependencies of a body instance: its LOOP is left out, body steps are of its iteration. -/
def childDependencies (digest : TemplateDigest) (parent : ExecutionStep) (iterationNo : ℕ)
    (bodyIds : List String) (template : ExecutionPlanStep) : Except AppError (List String) := do
  let bodyDeps := template.dependsOn.filter (· ≠ parent.stepKey)
  assertThat (bodyDeps.all (bodyIds.contains ·)) "LOOP body has invalid depends_on."
  assertThat (template.type != .tool || bodyDeps.length ≤ 1)
    "TOOL direct fan-in is unsupported; use an explicit JOIN."
  assertThat (template.type != .join || !template.dependsOn.isEmpty)
    "JOIN requires one or more dependencies."
  return bodyDeps.map (iterationStepKey digest parent.id iterationNo)

/-- The checks of a LOOP body instance; its dependencies. -/
def validateChild (digest : TemplateDigest) (plan : ExecutionPlanV1)
    (ownership : LoopBodyOwnership) (topRows : List ExecutionStep) (child : ExecutionStep) :
    Except AppError (String × List String) := do
  match child.iterationNo, topRows.find? fun s => some s.id = child.parentStepId with
  | some iterationNo, some parent =>
    assertThat (decide (1 ≤ iterationNo)) "LOOP body instance iteration_no must be >= 1."
    assertThat (parent.stepType == .loop) "LOOP body instance parent must be a LOOP Step."
    match plan.byId? parent.stepKey, plan.byId? child.stepSnapshot.id with
    | some loopPs, some template =>
      assertExactPlanProjection loopPs parent
      assertThat (child.stepSnapshot == template)
        "LOOP body instance snapshot is not an exact projection of template."
      let bodyIds := ownership.bodyIds parent.stepKey
      assertThat (bodyIds.contains template.id) "Template is not owned by LOOP."
      assertThat (child.stepType == template.type)
        "LOOP body instance step_type mismatches template."
      assertThat child.stepType.isBodyRuntimeType "Unsupported LOOP body step_type."
      assertThat (child.stepKey == iterationStepKey digest parent.id iterationNo template.id)
        "LOOP body instance step_key is not canonical."
      assertThat (child.mcpToolVersionId == toolVersionForTemplate template)
        "LOOP body TOOL mcp_tool_version_id mismatches template."
      let deps ← childDependencies digest parent iterationNo bodyIds template
      validateTypedConfig template child (template.dependsOn.filter (· ≠ parent.stepKey)) false
      return (child.stepKey, deps)
    | _, _ => .error (conflict "Unknown LOOP body template.")
  | none, _ => .error (conflict "LOOP body instance iteration_no must be >= 1.")
  | _, none => .error (conflict "LOOP body instance parent_step_id is invalid.")

/-- The shape of one iteration: the body templates, once each, under their canonical keys. -/
def assertIterationShape (digest : TemplateDigest) (parent : ExecutionStep)
    (children : List ExecutionStep) (bodyIds : List String) (n : ℕ) : Except AppError Unit := do
  let iterChildren := children.filter (·.iterationNo = some n)
  let templates : List String := iterChildren.map (·.stepSnapshot.id)
  assertThat (decide templates.Nodup) "LOOP iteration has duplicate body templates."
  assertThat (templates.sameSet bodyIds) "LOOP iteration template set is not body_step_ids."
  assertThat (iterChildren.length == bodyIds.length) "LOOP iteration is incomplete."
  assertThat (iterChildren.all fun c =>
      c.stepKey == iterationStepKey digest parent.id n c.stepSnapshot.id)
    "LOOP iteration child key drift for template."

/-- The pinned bound of a LOOP and, for a WHILE, its gates. -/
def iterationBound (parent : ExecutionStep) (cfg : LoopStepConfigV1) :
    Except AppError (ℕ × Option (List GateEntry)) :=
  match cfg.mode with
  | .forEach => do
    let pin ← parseForeachCollectionPin parent.resolvedInput
    return (pin.2, none)
  | .while => do
    let history ← parseWhilePredicateHistory parent.resolvedInput
    return (cfg.maxIterations, some history)

/-- `_validate_loop_iteration_shapes` for the children of one LOOP. -/
def validateLoopIterationShape (digest : TemplateDigest) (plan : ExecutionPlanV1)
    (ownership : LoopBodyOwnership) (parent : ExecutionStep) (children : List ExecutionStep) :
    Except AppError Unit := do
  let bodyIds := ownership.bodyIds parent.stepKey
  assertThat (!bodyIds.isEmpty) "LOOP has no body_step_ids."
  match (plan.byId? parent.stepKey).map ExecutionPlanStep.config with
  | some (.loop cfg) =>
    assertThat (cfg.bodyStepIds == bodyIds) "LOOP body ownership drift."
    let (maxBound, whileHistory) ← iterationBound parent cfg
    assertThat (children.all fun c => c.iterationNo.any fun n => 1 ≤ n && n ≤ maxBound)
      "LOOP body iteration_no outside bound."
    let maxIter := maxMaterializedIteration children parent.id
    assertThat (contiguousIterations children maxIter)
      "LOOP materialized iterations are not contiguous."
    assertThat (whileHistory.all fun history => trueGates history maxIter)
      "WHILE iteration lacks a true predicate_history gate."
    (List.range' 1 maxIter).forM (assertIterationShape digest parent children bodyIds)
    -- At most one iteration is nonterminal, and it is the highest.
    assertThat ((List.range' 1 maxIter).all fun n => n == maxIter ||
        (children.filter (·.iterationNo = some n)).all (·.status.isTerminal))
      "LOOP active iteration is not the highest materialized iteration."
  | _ => .error (conflict "Invalid LOOP config.")

/-- The control state of a top-level row, when it is a WHILE LOOP. -/
def validateWhileParent (digest : TemplateDigest) (plan : ExecutionPlanV1)
    (steps : List ExecutionStep) (top : ExecutionStep) : Except AppError Unit :=
  if top.stepType ≠ .loop then .ok ()
  else match (plan.byId? top.stepKey).map ExecutionPlanStep.config with
    | some (.loop cfg) =>
      if cfg.mode = .while then assertWhileParentControlState digest plan steps top cfg else .ok ()
    | _ => .ok ()

/-- The index of the last plan step of an id. -/
def planOrderIndex (plan : ExecutionPlanV1) (id : String) : ℕ :=
  match plan.steps.reverse.findIdx? (·.id = id) with
  | some i => plan.steps.length - 1 - i
  | none => 10000

/-- `_order_key`: top-level steps in plan order, then the body instances by LOOP, iteration and
template. -/
def orderKey (plan : ExecutionPlanV1) (steps : List ExecutionStep) (stepKey : String) :
    List ℕ :=
  match rowByKey steps stepKey with
  | none => [0, 10000, 0, 0]
  | some s => match s.parentStepId with
    | none => [0, planOrderIndex plan stepKey, 0, 0]
    | some parentStepId =>
      match steps.find? (·.id = parentStepId) with
      | none => [1, 10000, 0, 0]
      | some parent =>
        [1, planOrderIndex plan parent.stepKey, s.iterationNo.getD 0,
          planOrderIndex plan s.stepSnapshot.id]

/-- The keys in scheduling order, ties in the order given. -/
def sortKeys (plan : ExecutionPlanV1) (steps : List ExecutionStep) (keys : List String) :
    List String :=
  keys.insertionSort fun a b => orderKey plan steps a ≤ orderKey plan steps b

/-- The entries of `dependents` for one Step and its dependencies. -/
def addDependents (dependents : Dict (List String)) (edge : String × List String) :
    Dict (List String) :=
  edge.2.foldl (fun d dep => d.set dep ((d.get? dep).getD [] ++ [edge.1]))
    (dependents.setDefault edge.1 [])

/-- `dependents`. -/
def dependentsMap (edges : List (String × List String)) (deps : Dict (List String)) :
    Dict (List String) :=
  deps.foldl (fun d p => d.setDefault p.1 []) (edges.foldl addDependents [])

/-- `dependents[step_key]`, once for each edge. -/
def dependentsOf (edges : List (String × List String)) (stepKey : String) : List String :=
  edges.flatMap fun p => (p.2.filter (· = stepKey)).map fun _ => p.1

/-- One edge of Kahn's algorithm; the row behind its last edge is ready. -/
def dropEdge (state : Dict ℤ × List String) (stepKey : String) : Dict ℤ × List String :=
  let left := (state.1.get? stepKey).getD 0 - 1
  (state.1.set stepKey left, if left = 0 then state.2 ++ [stepKey] else state.2)

/-- The queue of Kahn's algorithm; `indeg` counts the edges not yet dropped. -/
def kahn (plan : ExecutionPlanV1) (steps : List ExecutionStep)
    (edges : List (String × List String)) : ℕ → Dict ℤ → List String → List String → List String
  | 0, _, _, seen => seen
  | _ + 1, _, [], seen => seen
  | fuel + 1, indeg, cur :: queue, seen =>
    let next := sortKeys plan steps (dependentsOf edges cur)
    let (indeg, queue) := next.foldl dropEdge (indeg, queue)
    kahn plan steps edges fuel indeg (sortKeys plan steps queue) (seen ++ [cur])

/-- The scheduling order; every key is queued at most once. -/
def scheduleOrder (plan : ExecutionPlanV1) (steps : List ExecutionStep)
    (edges : List (String × List String)) (deps : Dict (List String)) : List String :=
  kahn plan steps edges deps.length (deps.map fun p => (p.1, (p.2.length : ℤ)))
    (sortKeys plan steps ((deps.filter (·.2.isEmpty)).map (·.1))) []

/-- `validate_tool_join_dag`. -/
def validateToolJoinDag (digest : TemplateDigest) (plan : ExecutionPlanV1)
    (steps : List ExecutionStep) : Except AppError ToolJoinDag := do
  assertThat (!steps.isEmpty) "Execution has no Steps to orchestrate."
  assertThat (decide (steps.map (·.stepKey)).Nodup) "ExecutionStep step_key values are not unique."
  let ownership ← buildLoopBodyOwnership plan
  let hasLoopBodies := !ownership.bodyToLoop.isEmpty
  if hasLoopBodies then assertFlatForeachRuntimeCompatible plan ownership
  let topLevel := plan.steps.filter ownership.isTopLevel
  let topRows := steps.filter (·.parentStepId.isNone)
  let childRows := steps.filter (·.parentStepId.isSome)
  assertRowsMatchPlan plan hasLoopBodies topLevel steps
  let topDeps ← topLevel.mapM (validateTopLevelStep (topLevel.map (·.id)) hasLoopBodies steps)
  let childDeps ← childRows.mapM (validateChild digest plan ownership topRows)
  (topRows.filter fun s => !(childrenOf steps s.id).isEmpty).forM fun parent =>
    validateLoopIterationShape digest plan ownership parent (childrenOf steps parent.id)
  topRows.forM (validateWhileParent digest plan steps)
  let deps := Dict.ofPairs (topDeps ++ childDeps)
  let ordered := scheduleOrder plan steps (topDeps ++ childDeps) deps
  assertThat (ordered.length == deps.length) "Runtime DAG contains a cycle or unreachable Steps."
  return {
    orderedStepKeys := ordered
    rootToolKeys := (topLevel.map (·.id)).filter fun key =>
      (deps.get? key).all (·.isEmpty) && (rowByKey steps key).any (·.stepType == .tool)
    maxParallelism := plan.limits.maxParallelism
    dependents := dependentsMap (topDeps ++ childDeps) deps
    dependencies := deps }

/-! ### Progression -/

/-- `dependency_progression_complete`. -/
def dependencyProgressionComplete (dep step : ExecutionStep) : Bool :=
  (step.parentStepId == some dep.id && dep.stepType == .loop && dep.status == .running) ||
    dep.status == .succeeded ||
    (!dep.isIntentionalConditionalSkip &&
      isContinuableKnownFailure dep.stepSnapshot.onError dep.status)

/-- `_parent_loop_running_if_body`. -/
def parentLoopRunningIfBody (steps : List ExecutionStep) (step : ExecutionStep) : Bool :=
  match step.parentStepId with
  | none => true
  | some parentStepId =>
    (steps.find? (·.id = parentStepId)).any fun p => p.stepType == .loop && p.status == .running

/-- `has_intentional_skip_dependency`. -/
def hasIntentionalSkipDependency (dag : ToolJoinDag) (steps : List ExecutionStep)
    (step : ExecutionStep) : Bool :=
  (dag.dependenciesOf step.stepKey).any fun dep =>
    (rowByKey steps dep).any (·.isIntentionalConditionalSkip)

/-- Every dependency lets the Step go on, and none is an intentional skip. -/
def dependenciesComplete (dag : ToolJoinDag) (steps : List ExecutionStep) (step : ExecutionStep) :
    Bool :=
  !hasIntentionalSkipDependency dag steps step &&
    (dag.dependenciesOf step.stepKey).all fun dep =>
      (rowByKey steps dep).any (dependencyProgressionComplete · step)

/-- `tool_structurally_eligible`. -/
def toolStructurallyEligible (dag : ToolJoinDag) (steps : List ExecutionStep)
    (step : ExecutionStep) : Bool :=
  step.status == .pending && step.stepType == .tool && parentLoopRunningIfBody steps step &&
    dependenciesComplete dag steps step

/-- `condition_structurally_eligible`. -/
def conditionStructurallyEligible (dag : ToolJoinDag) (steps : List ExecutionStep)
    (step : ExecutionStep) : Bool :=
  step.status == .pending && step.stepType == .condition && parentLoopRunningIfBody steps step &&
    dependenciesComplete dag steps step

/-- `approval_structurally_eligible`. -/
def approvalStructurallyEligible (dag : ToolJoinDag) (steps : List ExecutionStep)
    (step : ExecutionStep) : Bool :=
  step.status == .pending && step.stepType == .approval && dependenciesComplete dag steps step

/-- `loop_structurally_eligible`. -/
def loopStructurallyEligible (dag : ToolJoinDag) (steps : List ExecutionStep)
    (step : ExecutionStep) : Bool :=
  step.status == .pending && step.stepType == .loop && step.parentStepId.isNone &&
    dependenciesComplete dag steps step

/-- `join_barrier_ready`. -/
def joinBarrierReady (dag : ToolJoinDag) (steps : List ExecutionStep) (step : ExecutionStep) :
    Bool :=
  step.status == .pending && step.stepType == .join && parentLoopRunningIfBody steps step &&
    !(dag.dependenciesOf step.stepKey).isEmpty &&
    (dag.dependenciesOf step.stepKey).all fun dep =>
      (rowByKey steps dep).any (·.status.isTerminal)

/-- `evaluate_join_policy`: whether the JOIN succeeds. -/
def evaluateJoinPolicy (policy : JoinPolicy) (dependencyStatuses : List StepStatus) : Bool :=
  match policy with
  | .allSuccess => dependencyStatuses.all (· == .succeeded)
  | .allComplete => true
  | .anySuccess => dependencyStatuses.any (· == .succeeded)

/-- `count_tool_slots`. -/
def countToolSlots (steps : List ExecutionStep) : ℕ :=
  (steps.filter fun s => s.stepType = .tool ∧ (s.status = .ready ∨ s.status = .running)).length

/-- `is_single_tool_execution`. -/
def isSingleToolExecution (steps : List ExecutionStep) : Bool :=
  match steps with
  | [s] => s.stepType == .tool
  | _ => false

/-! ### Stopping -/

/-- A row of `skip_all_pending`. -/
def ExecutionStep.skipIfPending (s : ExecutionStep) (now : Time) : ExecutionStep :=
  if s.status = .pending then
    { s with
      status := .skipped
      errorCode := some "UPSTREAM_EXECUTION_STOPPED"
      finishedAt := some now }
  else s

/-- The TOOL was promoted but never started. -/
def ExecutionStep.isUnusedReadyTool (s : ExecutionStep) : Bool :=
  s.stepType == .tool && s.status == .ready && s.startedAt.isNone && s.attemptCount == 0

/-- A row of `cancel_unused_ready_tools`. -/
def ExecutionStep.cancelIfUnusedReady (s : ExecutionStep) (now : Time) : ExecutionStep :=
  if s.isUnusedReadyTool then
    { s with
      status := .cancelled
      errorCode := some "UPSTREAM_EXECUTION_STOPPED"
      finishedAt := some now }
  else s

@[simp] theorem ExecutionStep.id_skipIfPending (s : ExecutionStep) (now : Time) :
    (s.skipIfPending now).id = s.id := by
  unfold skipIfPending
  split <;> rfl

@[simp] theorem ExecutionStep.id_cancelIfUnusedReady (s : ExecutionStep) (now : Time) :
    (s.cancelIfUnusedReady now).id = s.id := by
  unfold cancelIfUnusedReady
  split <;> rfl

/-- `skip_all_pending`. -/
def Db.skipAllPending (db : Db) (now : Time) : Db :=
  { db with steps := db.steps.mapRows (·.skipIfPending now) fun s => s.id_skipIfPending now }

/-- `cancel_unused_ready_tools`. -/
def Db.cancelUnusedReadyTools (db : Db) (now : Time) : Db :=
  { db with
    steps := db.steps.mapRows (·.cancelIfUnusedReady now) fun s => s.id_cancelIfUnusedReady now }

/-- The Steps that have not started are closed. -/
def Db.stopUnstartedSteps (db : Db) (now : Time) : Db :=
  (db.skipAllPending now).cancelUnusedReadyTools now

@[simp] theorem Db.execution_stopUnstartedSteps (db : Db) (now : Time) :
    (db.stopUnstartedSteps now).execution = db.execution := rfl

/-- The kinds of `StopCause`, by precedence. -/
inductive StopKind where
  | fatal
  | failExecutionTimedOut
  | failExecutionFailed
deriving DecidableEq, Repr

/-- `stop_cause_precedence`. -/
def StopKind.precedence : StopKind → ℕ
  | fatal => 0
  | failExecutionTimedOut => 1
  | failExecutionFailed => 2

/-- `StopCause`. -/
structure StopCause where
  stepKey : String
  planIndex : ℕ
  kind : StopKind
  stepStatus : String
  errorCode : Option String
deriving DecidableEq, Repr

/-- The order of `pick_stop_cause`. -/
def StopCause.before (a b : StopCause) : Bool :=
  a.kind.precedence < b.kind.precedence ||
    (a.kind.precedence == b.kind.precedence &&
      (a.planIndex < b.planIndex || (a.planIndex == b.planIndex && a.stepKey ≤ b.stepKey)))

/-- `pick_stop_cause`. -/
def pickStopCause : List StopCause → Option StopCause
  | [] => none
  | c :: cs => match pickStopCause cs with
    | none => some c
    | some d => if c.before d then some c else some d

end McpFlow
