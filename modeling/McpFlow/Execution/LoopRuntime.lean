import McpFlow.Execution.State
import McpFlow.Library.Dict
import McpFlow.Library.Except

/-!
# LOOP runtime

Who owns a LOOP body, the key of a body instance, the control evidence that a LOOP row keeps in
`resolved_input`, and the state that a WHILE LOOP may be in. The texts of the errors leave out the
ids that the code interpolates.

`TemplateDigest` is the hexadecimal SHA-256 of a template id.
-/

namespace McpFlow

/-- `hashlib.sha256(template_step_id).hexdigest()`. -/
abbrev TemplateDigest := String → Sha256Hex

/-- Raise `RESOURCE_CONFLICT` unless the check holds. -/
def assertThat (check : Bool) (message : String) : Except AppError Unit :=
  if check then .ok () else .error (conflict message)

@[simp] theorem assertThat_eq_ok_iff {check : Bool} {message : String} {u : Unit} :
    assertThat check message = .ok u ↔ check = true := by
  cases check <;> simp [assertThat]

/-! ### Body ownership -/

/-- `LoopBodyOwnership`. -/
structure LoopBodyOwnership where
  bodyToLoop : Dict String
  loopToBody : Dict (List String)
deriving DecidableEq

/-- One body step of a LOOP is added to the ownership. -/
def ownBody (plan : ExecutionPlanV1) (loop : ExecutionPlanStep) (bodyToLoop : Dict String)
    (bodyId : String) : Except AppError (Dict String) := do
  assertThat (plan.steps.any (·.id == bodyId)) "LOOP body_step_id does not exist."
  assertThat (bodyId != loop.id) "LOOP cannot own itself."
  assertThat ((bodyToLoop.get? bodyId).all (· == loop.id)) "Step belongs to multiple LOOP bodies."
  return bodyToLoop.set bodyId loop.id

/-- `build_loop_body_ownership`. -/
def buildLoopBodyOwnership (plan : ExecutionPlanV1) : Except AppError LoopBodyOwnership :=
  plan.steps.foldlM
    (fun ownership step =>
      if step.type ≠ .loop then .ok ownership
      else match step.config with
        | .loop cfg => do
          let bodyToLoop ← cfg.bodyStepIds.foldlM (ownBody plan step) ownership.bodyToLoop
          return ⟨bodyToLoop, ownership.loopToBody.set step.id cfg.bodyStepIds⟩
        | _ => .error (conflict "Invalid LOOP config."))
    ⟨[], []⟩

/-- The body step ids of a LOOP. -/
def LoopBodyOwnership.bodyIds (o : LoopBodyOwnership) (loopId : String) : List String :=
  (o.loopToBody.get? loopId).getD []

/-- The plan step is no LOOP body step. -/
def LoopBodyOwnership.isTopLevel (o : LoopBodyOwnership) (ps : ExecutionPlanStep) : Bool :=
  (o.bodyToLoop.get? ps.id).isNone

/-- `top_level_plan_steps`. -/
def topLevelPlanSteps (plan : ExecutionPlanV1) : Except AppError (List ExecutionPlanStep) := do
  let ownership ← buildLoopBodyOwnership plan
  return plan.steps.filter ownership.isTopLevel

/-- `plan_by_id`: the last step of an id. -/
def ExecutionPlanV1.byId? (plan : ExecutionPlanV1) (id : String) : Option ExecutionPlanStep :=
  plan.steps.reverse.find? (·.id = id)

/-- `LOOP_RUNTIME_UNSUPPORTED`. -/
def loopRuntimeUnsupported (message : String) : AppError := ⟨"LOOP_RUNTIME_UNSUPPORTED", message⟩

/-- A body step is a TOOL, a CONDITION or a JOIN. -/
def AuthorableStepType.isBodyRuntimeType : AuthorableStepType → Bool
  | tool | condition | join => true
  | approval | loop => false

/-- `assert_flat_foreach_runtime_compatible`. -/
def assertFlatForeachRuntimeCompatible (plan : ExecutionPlanV1) (ownership : LoopBodyOwnership) :
    Except AppError Unit :=
  ownership.loopToBody.forM fun (loopId, bodyIds) =>
    if (ownership.bodyToLoop.get? loopId).isSome then
      .error (loopRuntimeUnsupported "Nested LOOP runtime is unsupported.")
    else bodyIds.forM fun bodyId =>
      match plan.byId? bodyId with
      | some ps => if ps.type.isBodyRuntimeType then .ok ()
        else .error (loopRuntimeUnsupported "LOOP body step type is unsupported.")
      -- Ownership has found every body step in the plan.
      | none => .ok ()

/-- `tool_version_for_template`. -/
def toolVersionForTemplate (ps : ExecutionPlanStep) : Option UUID :=
  match ps.type, ps.config with
  | .tool, .tool toolVersionId _ => some toolVersionId
  | _, _ => none

/-! ### Body instances -/

/-- `iteration_step_key`; every caller has `1 ≤ iterationNo`. -/
def iterationStepKey (digest : TemplateDigest) (parentStepId : UUID) (iterationNo : ℕ)
    (templateStepId : String) : String :=
  "loop:" ++ String.ofList (UUID.hexDigits 32 parentStepId.int) ++ ":" ++
    String.ofList ((toString iterationNo).toList.leftpad 6 '0') ++ ":" ++ (digest templateStepId).val

/-- The children of a LOOP row. -/
def childrenOf (steps : List ExecutionStep) (parentStepId : UUID) : List ExecutionStep :=
  steps.filter (·.parentStepId = some parentStepId)

/-- `child_instances_for_iteration`. -/
def childInstancesForIteration (steps : List ExecutionStep) (parentStepId : UUID)
    (iterationNo : ℕ) : List ExecutionStep :=
  steps.filter fun s => s.parentStepId = some parentStepId ∧ s.iterationNo = some iterationNo

/-- `max_materialized_iteration`. -/
def maxMaterializedIteration (steps : List ExecutionStep) (parentStepId : UUID) : ℕ :=
  ((childrenOf steps parentStepId).filterMap (·.iterationNo)).foldl max 0

/-- `iteration_complete`. -/
def iterationComplete (steps : List ExecutionStep) (parentStepId : UUID) (iterationNo : ℕ)
    (bodyStepCount : ℕ) : Bool :=
  let children := childInstancesForIteration steps parentStepId iterationNo
  children.length == bodyStepCount && children.all (·.status.isTerminal)

/-- The materialized iterations are `1 .. maxN`. -/
def contiguousIterations (children : List ExecutionStep) (maxN : ℕ) : Bool :=
  ((children.filterMap (·.iterationNo)).filter (· ≠ 0)).sameSet (List.range' 1 maxN)

/-! ### Control evidence -/

/-- `parse_foreach_collection_pin`: the pinned hash and size. -/
def parseForeachCollectionPin : Option ResolvedInput → Except AppError (Sha256Hex × ℕ)
  | some (.forEach collectionHash collectionSize) => .ok (collectionHash, collectionSize)
  | _ => .error (conflict "LOOP resolved_input must be a FOR_EACH control object.")

/-- `parse_while_predicate_history`: the gates are numbered from 1. -/
def parseWhilePredicateHistory : Option ResolvedInput → Except AppError (List GateEntry)
  | some (.while history) =>
    if history.map (·.nextIterationNo) = List.range' 1 history.length then .ok history
    else .error (conflict
      "WHILE predicate_history next_iteration_no values must be contiguous starting at 1.")
  | _ => .error (conflict "LOOP resolved_input must be a WHILE control object.")

/-- `history_entry_for`. -/
def historyEntryFor (history : List GateEntry) (nextIterationNo : ℕ) : Option GateEntry :=
  history.find? (·.nextIterationNo = nextIterationNo)

/-- Every gate from 1 to `n` is true. -/
def trueGates (history : List GateEntry) (n : ℕ) : Bool :=
  (List.range' 1 n).all fun k => (historyEntryFor history k).any (·.result)

/-- `append_or_replay_while_history`. -/
def appendOrReplayWhileHistory (resolvedInput : Option ResolvedInput) (nextIterationNo : ℕ)
    (evidenceHash : Sha256Hex) (result : Bool) : Except AppError ResolvedInput := do
  let history ← parseWhilePredicateHistory resolvedInput
  let updated ← match historyEntryFor history nextIterationNo with
    | none => do
      assertThat (nextIterationNo == history.length + 1)
        "WHILE history append does not follow the history."
      pure (history ++ [⟨nextIterationNo, evidenceHash, result⟩])
    | some existing => do
      assertThat (existing.evidenceHash == evidenceHash && existing.result == result)
        "WHILE predicate_history replay mismatch."
      pure history
  let parsed ← parseWhilePredicateHistory (some (.while updated))
  return .while parsed

/-! ### The control state of a WHILE LOOP -/

/-- `assert_while_child_immutable_lineage`. -/
def assertWhileChildImmutableLineage (digest : TemplateDigest) (child : ExecutionStep)
    (parentStepId : UUID) (iterationNo : ℕ) (template : ExecutionPlanStep) :
    Except AppError Unit := do
  assertThat (child.parentStepId == some parentStepId)
    "WHILE child parent_step_id lineage mismatch."
  assertThat (child.iterationNo == some iterationNo) "WHILE child iteration_no mismatch."
  assertThat (child.stepSnapshot == template)
    "WHILE child template step_snapshot is not an exact Plan Step projection."
  assertThat (child.stepType == template.type) "WHILE child template step_type drift."
  assertThat (child.stepKey == iterationStepKey digest parentStepId iterationNo template.id)
    "WHILE child key drift for template."

/-- `by_template` of an iteration: the last row of a template. -/
def byTemplate? (children : List ExecutionStep) (templateId : String) : Option ExecutionStep :=
  children.reverse.find? (·.stepSnapshot.id = templateId)

/-- `_assert_iteration_set_complete_terminal`. -/
def assertIterationSetCompleteTerminal (digest : TemplateDigest) (plan : ExecutionPlanV1)
    (steps : List ExecutionStep) (parent : ExecutionStep) (bodyStepIds : List String)
    (iterationNo : ℕ) : Except AppError Unit := do
  let children := childInstancesForIteration steps parent.id iterationNo
  assertThat (children.length == bodyStepIds.length) "WHILE iteration incomplete."
  assertThat ((children.map (·.stepSnapshot.id)).sameSet bodyStepIds)
    "WHILE iteration template set mismatch."
  bodyStepIds.forM fun templateId =>
    match byTemplate? children templateId, plan.byId? templateId with
    | some child, some template => do
      assertWhileChildImmutableLineage digest child parent.id iterationNo template
      assertThat child.status.isTerminal "WHILE iteration template is nonterminal."
    | _, _ => .error (conflict "WHILE body template missing from Plan.")

/-- The `result_inline` of a finished WHILE LOOP. -/
def whileResult (iterationsCompleted : ℕ) : Json.Value :=
  .obj [("mode", .str "WHILE"), ("iterations_completed", .int iterationsCompleted)]

/-- A gate of every materialized iteration is true and its rows are complete and terminal. -/
def assertTrueCompleteIterations (digest : TemplateDigest) (plan : ExecutionPlanV1)
    (steps : List ExecutionStep) (parent : ExecutionStep) (bodyStepIds : List String)
    (history : List GateEntry) (maxN : ℕ) : Except AppError Unit := do
  (List.range' 1 maxN).forM
    (assertIterationSetCompleteTerminal digest plan steps parent bodyStepIds)
  assertThat (trueGates history maxN) "WHILE requires a true gate for every iteration."

/-- The SUCCEEDED case of `assert_while_parent_control_state`. -/
def assertWhileSucceeded (digest : TemplateDigest) (plan : ExecutionPlanV1)
    (steps : List ExecutionStep) (parent : ExecutionStep) (cfg : LoopStepConfigV1)
    (history : List GateEntry) : Except AppError Unit := do
  let children := childrenOf steps parent.id
  let maxN := maxMaterializedIteration steps parent.id
  assertThat (maxN == 0 || contiguousIterations children maxN)
    "WHILE SUCCEEDED iterations are not contiguous."
  assertTrueCompleteIterations digest plan steps parent cfg.bodyStepIds history maxN
  assertThat (history.length == maxN + 1)
    "WHILE SUCCEEDED history length is not iterations_completed+1."
  assertThat ((historyEntryFor history (maxN + 1)).any (!·.result))
    "WHILE SUCCEEDED requires final false gate."
  assertThat (parent.resultInline == some (whileResult maxN))
    "WHILE SUCCEEDED result_inline must be exact."
  assertThat parent.errorCode.isNone "WHILE SUCCEEDED must have error_code null."

/-- The FAILED / LOOP_MAX_ITERATIONS_EXCEEDED case of `assert_while_parent_control_state`. -/
def assertWhileMaxIterationsExceeded (digest : TemplateDigest) (plan : ExecutionPlanV1)
    (steps : List ExecutionStep) (parent : ExecutionStep) (cfg : LoopStepConfigV1)
    (history : List GateEntry) : Except AppError Unit := do
  let maxN := maxMaterializedIteration steps parent.id
  assertThat (maxN == cfg.maxIterations)
    "WHILE LOOP_MAX_ITERATIONS_EXCEEDED requires exactly max_iterations iterations."
  assertTrueCompleteIterations digest plan steps parent cfg.bodyStepIds history maxN
  assertThat (history.length == maxN + 1)
    "WHILE LOOP_MAX_ITERATIONS_EXCEEDED history length is not max_iterations+1."
  assertThat ((historyEntryFor history (maxN + 1)).any (·.result))
    "WHILE LOOP_MAX_ITERATIONS_EXCEEDED requires true gate at the next candidate."

/-- The RUNNING case of `assert_while_parent_control_state`. -/
def assertWhileRunning (digest : TemplateDigest) (plan : ExecutionPlanV1)
    (steps : List ExecutionStep) (parent : ExecutionStep) (cfg : LoopStepConfigV1)
    (history : List GateEntry) : Except AppError Unit := do
  let children := childrenOf steps parent.id
  let maxN := maxMaterializedIteration steps parent.id
  if maxN < 1 then
    -- The crash after the first gate was persisted is replayed by the orchestrator.
    assertThat (history.length ≤ 1)
      "WHILE RUNNING with no children must have empty predicate_history or exactly gate 1."
  else
    assertThat (contiguousIterations children maxN) "WHILE RUNNING iterations are not contiguous."
    assertThat (trueGates history maxN)
      "WHILE RUNNING requires true gate for materialized iteration."
    match historyEntryFor history (maxN + 1) with
    | some _ => do
      (List.range' 1 maxN).forM
        (assertIterationSetCompleteTerminal digest plan steps parent cfg.bodyStepIds)
      assertThat (history.length == maxN + 1)
        "WHILE RUNNING history length is not materialized+1."
    | none => assertThat (history.length ≤ maxN) "WHILE RUNNING history extends past the candidate."

/-- The TIMED_OUT / LOOP_TIMEOUT case of `assert_while_parent_control_state`. -/
def assertWhileTimedOut (steps : List ExecutionStep) (parent : ExecutionStep)
    (history : List GateEntry) : Except AppError Unit := do
  let maxN := maxMaterializedIteration steps parent.id
  assertThat (trueGates history maxN)
    "WHILE TIMED_OUT requires true gate for materialized iteration."
  assertThat (history.length ≤ maxN)
    "WHILE TIMED_OUT must not retain a candidate history entry after timeout."

/-- `assert_while_parent_control_state`. -/
def assertWhileParentControlState (digest : TemplateDigest) (plan : ExecutionPlanV1)
    (steps : List ExecutionStep) (parent : ExecutionStep) (cfg : LoopStepConfigV1) :
    Except AppError Unit := do
  assertThat parent.parentStepId.isNone "WHILE control state requires a top-level LOOP parent."
  assertThat (parent.stepType == .loop) "WHILE control state requires step_type LOOP."
  assertThat (cfg.mode == .while) "assert_while_parent_control_state requires WHILE mode."
  assertThat (plan.steps.find? (·.id = parent.stepKey) == some parent.stepSnapshot)
    "WHILE parent snapshot is not an exact Plan Step projection."
  let children := childrenOf steps parent.id
  if parent.status = .skipped ∧ parent.errorCode = some "STEP_WHEN_FALSE" then
    assertThat children.isEmpty "WHILE SKIPPED/STEP_WHEN_FALSE must have no children."
    assertThat parent.resolvedInput.isNone
      "WHILE SKIPPED/STEP_WHEN_FALSE must have no predicate history."
  else if parent.resolvedInput = none then
    assertThat (parent.status == .pending && children.isEmpty)
      "WHILE missing resolved_input control evidence."
  else
    let history ← parseWhilePredicateHistory parent.resolvedInput
    if parent.status = .succeeded then
      assertWhileSucceeded digest plan steps parent cfg history
    else if parent.status = .failed ∧ parent.errorCode = some "LOOP_MAX_ITERATIONS_EXCEEDED" then
      assertWhileMaxIterationsExceeded digest plan steps parent cfg history
    else if parent.status = .running then
      assertWhileRunning digest plan steps parent cfg history
    else if parent.status = .timedOut ∧ parent.errorCode = some "LOOP_TIMEOUT" then
      assertWhileTimedOut steps parent history
    else return ()

end McpFlow
