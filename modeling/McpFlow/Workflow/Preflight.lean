import McpFlow.Execution.LoopRuntime
import McpFlow.Workflow.Document
import McpFlow.Workflow.Lifecycle

/-!
# Creating an Execution from a workflow version

The content checks that `WorkflowExecutionCreationService` makes before it creates an Execution, and
the materialization of the plan. What the service looks up beside the version (the grants of the
requester, the policies, the authorization of each tool) is `CreationEnv`.
-/

namespace McpFlow.Workflow

open Json

/-- How a creation fails: with an error of the application, or with an exception that nothing
handles. -/
inductive Failure where
  | app (error : AppError)
  | unhandled
deriving DecidableEq

/-- A check with its error. -/
def require (check : Bool) (code message : String) : Except Failure Unit :=
  if check then .ok () else .error (.app ⟨code, message⟩)

@[simp] theorem require_eq_ok_iff {check : Bool} {code message : String} {u : Unit} :
    require check code message = .ok u ↔ check = true := by
  cases check <;> simp [require]

/-- A check of the preflight. -/
def precondition (check : Bool) (message : String) : Except Failure Unit :=
  require check "EXECUTION_PRECONDITION_FAILED" message

@[simp] theorem precondition_eq_ok_iff {check : Bool} {message : String} {u : Unit} :
    precondition check message = .ok u ↔ check = true := require_eq_ok_iff

/-- A value that some other code found, or the error. -/
def found {α : Type} (value : Option α) (error : Failure) : Except Failure α :=
  match value with
  | some a => .ok a
  | none => .error error

@[simp] theorem found_eq_ok_iff {α : Type} {value : Option α} {error : Failure} {a : α} :
    found value error = .ok a ↔ value = some a := by
  cases value <;> simp [found]

/-! ### Plan inputs -/

/-- `_SUPPORTED_INPUT_TYPES`. -/
def supportedInputTypes : List String :=
  ["string", "integer", "number", "boolean", "object", "array"]

/-- `_literal_matches_type`. -/
def literalMatchesType (v : Value) (type : String) : Bool :=
  match type, v with
  | "string", .str _ => true
  | "string", _ => false
  | "integer", .int _ => true
  | "integer", _ => false
  | "number", .int _ | "number", .float _ => true
  | "number", _ => false
  | "boolean", .bool _ => true
  | "boolean", _ => false
  | "object", .obj _ => true
  | "object", _ => false
  | "array", .arr _ => true
  | "array", _ => false
  | "null", .null => true
  | "null", _ => false
  | _, _ => true

/-- `uuid.UUID(str(secret_id))`. The text of no other value has 32 hexadecimal digits. -/
def secretIdOf : Value → Option UUID
  | .str s => UUID.parse? s
  | .int i => UUID.parse? (toString i)
  | _ => none

/-- An error of the request. -/
def invalidRequest (message : String) : Failure := .app ⟨"VALIDATION_ERROR", message⟩

/-- `normalize_secret_ref`. -/
def normalizeSecretRef (v : Value) : Except Failure Value := do
  require v.isObj "VALIDATION_ERROR" "secret Plan input requires exact SECRET_REF object."
  require (v.forbidsExtra ["kind", "secret_id"] && v.hasKey "kind" && v.hasKey "secret_id")
    "VALIDATION_ERROR" "secret Plan input requires exact keys kind/secret_id."
  require (v.getD "kind" = .str "SECRET_REF") "VALIDATION_ERROR"
    "secret Plan input kind must be SECRET_REF."
  let id ← found (secretIdOf (v.getD "secret_id"))
    (invalidRequest "secret Plan input secret_id must be a canonical UUID.")
  return .obj [("kind", .str "SECRET_REF"), ("secret_id", .str id.toString)]

/-- The value of a declared input that the request gives. -/
def normalizeInput (d : PlanInputDefinition) (raw : Value) : Except Failure Value := do
  if d.secret then normalizeSecretRef raw
  else
    require (!(raw.getD "kind" = .str "SECRET_REF") || d.type = "object") "VALIDATION_ERROR"
      "SECRET_REF is not accepted for non-secret Plan input"
    require (literalMatchesType raw d.type) "VALIDATION_ERROR" "Plan input type mismatch"
    return raw

/-- One declared input of `normalize_plan_inputs`. -/
def normalizeDeclared (request : List (String × Value)) (d : String × PlanInputDefinition) :
    Except Failure (Option (String × Value)) := do
  precondition (d.2.type ∈ supportedInputTypes) "unsupported Plan input type"
  match request.lookup d.1 with
  | none =>
    require (!d.2.required) "VALIDATION_ERROR" "missing required Plan input"
    return none
  | some raw =>
    let v ← normalizeInput d.2 raw
    return some (d.1, v)

/-- `normalize_plan_inputs`. -/
def normalizePlanInputs (p : Plan) (request : List (String × Value)) :
    Except Failure (List (String × Value)) := do
  require (request.all fun m => (p.inputs.lookup m.1).isSome) "VALIDATION_ERROR"
    "unknown Plan input key"
  let values ← p.inputs.mapM (normalizeDeclared request)
  return values.filterMap id

/-! ### The preflight -/

/-- An approval policy. -/
structure ApprovalPolicyRow where
  active : Bool
  requiredApprovals : ℤ
  defaultExpirySeconds : ℤ
  decisionMode : String

/-- What the authorization of a tool answers. -/
structure ToolAuthorization where
  confirmationRequired : Bool
  policySnapshot : Value

/-- What the service looks up beside the version. -/
structure CreationEnv where
  authorized : Bool
  workflowActive : Bool
  approvalPolicy : UUID → Option ApprovalPolicyRow
  /-- `_authorize_tool_for_create` of a tool version with the timeout of the plan. -/
  authorizeTool : UUID → ℕ → Except AppError ToolAuthorization

/-- The result of `_preflight`. -/
structure Preflight where
  planDump : Value
  planHash : String
  inputSnapshot : List (String × Value)
  toolSteps : List (String × UUID × Value)

/-- The revalidation of the policy of an APPROVAL step. -/
def checkApprovalPolicy (env : Platform) (ext : CreationEnv) (s : PlanStep) :
    Except Failure Unit := do
  let policyId ← found (readApprovalStepConfig env.pydantic.toCoercion s.config.1) .unhandled
  let integrity := (ext.approvalPolicy policyId).any fun row =>
    row.active && 1 ≤ row.requiredApprovals && 0 < row.defaultExpirySeconds
  precondition integrity "APPROVAL Step ApprovalPolicy ACTIVE/integrity 실패."
  precondition ((ext.approvalPolicy policyId).any fun row =>
    row.decisionMode ∈ ["ANY", "ALL", "QUORUM"]) "invalid ApprovalPolicy.decision_mode."

/-- The authorization of a TOOL step. -/
def authorizeStep (env : Platform) (ext : CreationEnv) (s : PlanStep) :
    Except Failure (String × UUID × Value) := do
  let cfg ← found (ComplexToolStepConfig.read env.pydantic.toCoercion s.config.1) .unhandled
  let authz ← (ext.authorizeTool cfg.toolVersionId s.timeoutSeconds).mapError .app
  require (!authz.confirmationRequired) "WORKFLOW_CONFIRMATION_UNSUPPORTED"
    "Workflow ToolPolicy requires_confirmation is not supported for manual Workflow execution."
  return (s.id, cfg.toolVersionId, authz.policySnapshot)

/-- The reference that a TOOL step projects. -/
def projectTool (env : Platform) (s : PlanStep) : Except Failure (String × UUID) := do
  let cfg ← found (ComplexToolStepConfig.read env.pydantic.toCoercion s.config.1) .unhandled
  return (s.id, cfg.toolVersionId)

/-- `_preflight` of a manual execution. -/
def preflight (env : Platform) (workflowId : UUID) (w : World) (ext : CreationEnv)
    (versionId : UUID) (request : List (String × Value)) : Except Failure Preflight := do
  let r ← found (w.versions.find? versionId)
    (.app ⟨"NOT_FOUND", "Workflow version not found."⟩)
  require ext.authorized "FORBIDDEN" "workflow.execute + WORKFLOW ResourceGrant 필요."
  precondition ext.workflowActive "Workflow must be ACTIVE for manual execution."
  precondition (w.workflow.currentVersionId = some r.id)
    "Requested version is not the Workflow current_version_id."
  precondition (r.status = .published) "WorkflowVersion must be PUBLISHED."
  precondition (r.validationStatus = .valid) "WorkflowVersion.validation_status must be VALID."
  precondition (r.content.planSchemaVersion = "1.0") "plan_schema_version must be 1.0."
  precondition r.content.planDefinition.isObj "plan_definition must be a JSON object."
  let p ← found (Plan.modelValidate env.pydantic.toCoercion r.content.planDefinition)
    (.app ⟨"EXECUTION_PRECONDITION_FAILED", "ExecutionPlanV1 재검증 실패."⟩)
  precondition (p.modelDump.pyEq r.content.planDefinition) "Plan snapshot semantic equality 실패."
  precondition (p.source = .workflow workflowId)
    "Plan source must be WORKFLOW for the owning Workflow."
  let recomputed ← found (r.content.hash env) .unhandled
  precondition (recomputed = r.contentHash) "WorkflowVersion content_hash mismatch."
  precondition (r.validationReport.any fun rep => rep.valid && rep.contentHash = r.contentHash)
    "validation_report evidence invalid."
  precondition (p.validate env.pydantic).isEmpty
    "StaticComplexPlanValidator failed at execution preflight."
  let expected ← (p.stepsOf .tool).mapM (projectTool env)
  precondition (World.sameMap (w.refsOf r.id) expected)
    "workflow_version_tool_refs do not match Plan TOOL projection."
  let inputSnapshot ← normalizePlanInputs p request
  let _ ← (p.stepsOf .approval).mapM (checkApprovalPolicy env ext)
  let toolSteps ← (p.stepsOf .tool).mapM (authorizeStep env ext)
  let planHash ← found (env.hash p.modelDump) .unhandled
  return ⟨p.modelDump, planHash, inputSnapshot, toolSteps⟩

/-! ### Materialization -/

/-- The body steps that a LOOP owns. -/
def ownBodies (p : Plan) (loopId : String) :
    List String → List (String × String) → Except Failure (List (String × String))
  | [], owned => .ok owned
  | b :: bs, owned => do
    require (b ∈ p.stepIds) "RESOURCE_CONFLICT" "LOOP body_step_id does not exist."
    require (b ≠ loopId) "RESOURCE_CONFLICT" "LOOP cannot own itself."
    require ((owned.lookup b).all (· = loopId)) "RESOURCE_CONFLICT"
      "Step belongs to multiple LOOP bodies."
    ownBodies p loopId bs (owned ++ [(b, loopId)])

/-- The bodies that one step adds to the ownership. -/
def ownStep (c : Coercion) (p : Plan) (owned : List (String × String)) (s : PlanStep) :
    Except Failure (List (String × String)) :=
  if s.type = .loop then do
    let cfg ← found (LoopStepConfig.read c s.config.1)
      (.app ⟨"RESOURCE_CONFLICT", "Invalid LOOP config."⟩)
    ownBodies p s.id cfg.bodyStepIds owned
  else .ok owned

/-- `build_loop_body_ownership`: the LOOP of every body step. -/
def buildLoopBodyOwnership (c : Coercion) (p : Plan) : Except Failure (List (String × String)) :=
  p.steps.foldlM (ownStep c p) []

/-- A row of `execution_steps` as it is inserted. -/
structure StepProjection where
  stepKey : String
  stepType : AuthorableStepType
  mcpToolVersionId : Option UUID
  sequenceHint : ℕ
  stepSnapshot : Value
deriving DecidableEq

/-- `_project_step`. -/
def projectStep (c : Coercion) (s : PlanStep) (sequenceHint : ℕ) : Except Failure StepProjection := do
  let cfg ← found (s.parseConfig c) (.app ⟨"EXECUTION_PRECONDITION_FAILED", "invalid config"⟩)
  let toolVersionId := match cfg with
    | .tool cfg => some cfg.toolVersionId
    | _ => none
  return ⟨s.id, s.type, toolVersionId, sequenceHint, s.dump⟩

/-- `create_step`; the column holds 128 characters. -/
def createStep (projection : StepProjection) : Except Failure StepProjection :=
  if projection.stepKey.length ≤ 128 then .ok projection else .error .unhandled

/-- The rows of the top-level steps. -/
def createSteps (c : Coercion) (steps : List PlanStep) : Except Failure (List StepProjection) := do
  let projections ← steps.zipIdx.mapM fun s => projectStep c s.1 s.2
  projections.mapM createStep

/-- `ExecutionPlanMaterializer.materialize`. -/
def materialize (env : Platform) (planSnapshot : Value) (planHash : String) :
    Except Failure (List StepProjection) := do
  precondition planSnapshot.isObj "plan_snapshot must be an object."
  precondition (Text.nonBlank planHash) "plan_hash must be a non-empty string."
  let p ← found (Plan.modelValidate env.pydantic.toCoercion planSnapshot)
    (.app ⟨"EXECUTION_PRECONDITION_FAILED", "ExecutionPlanV1 validation failed"⟩)
  let recomputed ← found (env.hash planSnapshot) .unhandled
  precondition (recomputed = planHash) "plan_hash does not match plan_snapshot."
  precondition (p.validate env.pydantic).isEmpty
    "static complex-plan validation failed before materialization"
  let owned ← buildLoopBodyOwnership env.pydantic.toCoercion p
  createSteps env.pydantic.toCoercion (p.steps.filter fun s => (owned.lookup s.id).isNone)

/-- The creation of an Execution: the preflight and the materialization. -/
def createExecution (env : Platform) (workflowId : UUID) (w : World) (ext : CreationEnv)
    (versionId : UUID) (request : List (String × Value)) : Except Failure (List StepProjection) := do
  let ctx ← preflight env workflowId w ext versionId request
  materialize env ctx.planDump ctx.planHash

end McpFlow.Workflow
