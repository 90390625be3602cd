import McpFlow.Library.Table
import McpFlow.Workflow.StaticValidator
import Mathlib.Data.List.Sort

/-!
# The versions of a workflow

The rows of one workflow, the validation of a version, and the five operations of
`WorkflowVersionService`. An operation is a transaction: it takes the row locks it needs one after
another, each with a fresh read of the locked row, and its writes are seen by others when it
commits. `Tx` is a transaction between two of these moments; what it has locked is what it has read.
The tool references of a version are written under the lock of the version only, so they are read
when they are compared.
-/

namespace McpFlow.Workflow

open Json

/-! ### Rows -/

/-- `workflow_versions.status`. -/
inductive WorkflowVersionStatus where
  | draft
  | published
  | deprecated
deriving DecidableEq, Repr

/-- `workflow_versions.validation_status`. -/
inductive WorkflowVersionValidationStatus where
  | valid
  | invalid
deriving DecidableEq, Repr

/-- The executable content of a version. -/
structure Content where
  planSchemaVersion : String
  planDefinition : Value
  inputSchema : Value
  outputSchema : Value
  policyDefaults : Value
deriving DecidableEq

/-- An error of a validation report, without its text and details. -/
structure ValidationError where
  code : String
  stepId : Option String
deriving DecidableEq

/-- The `checks` of a validation report. -/
structure ValidationChecks where
  planSchema : String
  staticPlan : String
  toolVersions : String
  approvalPolicies : String
deriving DecidableEq

/-- `validation_report`. -/
structure ValidationReport where
  valid : Bool
  contentHash : String
  errors : List ValidationError
  checks : ValidationChecks
deriving DecidableEq

/-- A row of `workflow_versions`. -/
structure WorkflowVersion where
  id : UUID
  versionNo : ℕ
  status : WorkflowVersionStatus
  content : Content
  validationStatus : WorkflowVersionValidationStatus
  validationReport : Option ValidationReport
  contentHash : String
deriving DecidableEq

/-- A row of `workflow_version_tool_refs`. -/
structure ToolRef where
  versionId : UUID
  stepKey : String
  toolVersionId : UUID
deriving DecidableEq

/-- The primary key of a tool reference. -/
def ToolRef.key (r : ToolRef) : UUID × String := (r.versionId, r.stepKey)

/-- The row of the workflow. -/
structure WorkflowRow where
  currentVersionId : Option UUID
  lockVersion : ℕ
deriving DecidableEq

/-! ### Validation -/

/-- What the service runs on: the validation library, the hash of a JSON value (`none` when the
value cannot be serialized) and what a JSON column gives back. -/
structure Platform where
  pydantic : Pydantic
  hash : Value → Option String
  column : Value → Value

/-- The tool versions and approval policies at one moment: whether a tool version is VALID and an
approval policy ACTIVE, `none` for a missing one. -/
structure Dependencies where
  toolValid : UUID → Option Bool
  policyActive : UUID → Option Bool

/-- `workflow_version_content_hash`. -/
def Content.hash (env : Platform) (c : Content) : Option String :=
  env.hash (.obj [("plan_schema_version", .str c.planSchemaVersion),
    ("plan_definition", c.planDefinition), ("input_schema", c.inputSchema),
    ("output_schema", c.outputSchema), ("policy_defaults", c.policyDefaults)])

/-- The content as the columns give it back. -/
def Content.stored (env : Platform) (c : Content) : Content :=
  { c with
    planDefinition := env.column c.planDefinition
    inputSchema := env.column c.inputSchema
    outputSchema := env.column c.outputSchema
    policyDefaults := env.column c.policyDefaults }

/-- The tool reference of a TOOL step, or its error and the value of the `tool_versions` check. -/
def toolDependency (env : Platform) (deps : Dependencies) (s : PlanStep) :
    Except (ValidationError × String) (String × UUID) :=
  match ComplexToolStepConfig.read env.pydantic.toCoercion s.config.1 with
  | none => .error (⟨"WORKFLOW_TOOL_CONFIG_INVALID", s.id⟩, "ERROR")
  | some cfg =>
    match deps.toolValid cfg.toolVersionId with
    | none => .error (⟨"WORKFLOW_TOOL_VERSION_NOT_FOUND", s.id⟩, "NOT_FOUND")
    | some false => .error (⟨"WORKFLOW_TOOL_VERSION_INVALID", s.id⟩, "INVALID")
    | some true => .ok (s.id, cfg.toolVersionId)

/-- The error of an APPROVAL step and the value of the `approval_policies` check. -/
def approvalDependency (env : Platform) (deps : Dependencies) (s : PlanStep) :
    Except (ValidationError × String) Unit :=
  match readApprovalStepConfig env.pydantic.toCoercion s.config.1 with
  | none => .error (⟨"WORKFLOW_APPROVAL_CONFIG_INVALID", s.id⟩, "ERROR")
  | some policyId =>
    match deps.policyActive policyId with
    | none => .error (⟨"WORKFLOW_APPROVAL_POLICY_NOT_FOUND", s.id⟩, "NOT_FOUND")
    | some false => .error (⟨"WORKFLOW_APPROVAL_POLICY_INACTIVE", s.id⟩, "INACTIVE")
    | some true => .ok ()

/-- The error of a result. -/
def error? {ε α : Type} : Except ε α → Option ε
  | .error e => some e
  | .ok _ => none

/-- The value of a result. -/
def value? {ε α : Type} : Except ε α → Option α
  | .error _ => none
  | .ok a => some a

/-- The steps of a type. -/
def Plan.stepsOf (p : Plan) (type : AuthorableStepType) : List PlanStep :=
  p.steps.filter fun s => s.type = type

/-- `_collect_dependency_errors`: the last failure of a kind names its check. -/
def collectDependencyErrors (env : Platform) (deps : Dependencies) (p : Plan) :
    List ValidationError × List (String × UUID) × String × String :=
  let tools := (p.stepsOf .tool).map (toolDependency env deps)
  let approvals := (p.stepsOf .approval).map (approvalDependency env deps)
  let toolErrors := tools.filterMap error?
  let approvalErrors := approvals.filterMap error?
  (toolErrors.map Prod.fst ++ approvalErrors.map Prod.fst, tools.filterMap value?,
    (toolErrors.getLast?.map Prod.snd).getD "OK", (approvalErrors.getLast?.map Prod.snd).getD "OK")

/-- `_sort_errors`. -/
def sortErrors (errors : List ValidationError) : List ValidationError :=
  errors.insertionSort fun e f =>
    e.code < f.code || (e.code == f.code && (e.stepId.getD "") ≤ (f.stepId.getD ""))

/-- The error of the plan source. -/
def sourceErrors (workflowId : UUID) (p : Plan) : List ValidationError :=
  match p.source with
  | .workflow id => if id = workflowId then [] else [⟨"WORKFLOW_PLAN_SOURCE_MISMATCH", none⟩]
  | _ => [⟨"WORKFLOW_PLAN_SOURCE_INVALID", none⟩]

/-- The errors of the content beside the plan. -/
def schemaErrors (c : Content) : List ValidationError :=
  (if c.inputSchema.isObj then [] else [⟨"WORKFLOW_INPUT_SCHEMA_INVALID", none⟩]) ++
  (if c.outputSchema.isObj then [] else [⟨"WORKFLOW_OUTPUT_SCHEMA_INVALID", none⟩]) ++
  (if c.policyDefaults.isObj then [] else [⟨"WORKFLOW_POLICY_DEFAULTS_INVALID", none⟩])

/-- The plan of a content, or the error code why there is none. -/
def Content.plan (env : Platform) (c : Content) : Except String Plan :=
  if c.planSchemaVersion ≠ "1.0" then .error "PLAN_SCHEMA_VERSION"
  else match Plan.modelValidate env.pydantic.toCoercion c.planDefinition with
    | none => .error "PLAN_DEFINITION_INVALID"
    | some p => .ok p

/-- The errors of a content whose plan can be read. -/
def planErrors (env : Platform) (workflowId : UUID) (deps : Dependencies) (c : Content) (p : Plan) :
    List ValidationError :=
  sortErrors (schemaErrors c ++ sourceErrors workflowId p ++
    (p.validate env.pydantic).map (fun i => ⟨i.code, i.stepId⟩) ++
    (collectDependencyErrors env deps p).1)

/-- `_build_validation` of a version with this content and content hash. -/
def buildValidation (env : Platform) (workflowId : UUID) (deps : Dependencies) (c : Content)
    (contentHash : String) : Bool × ValidationReport × List (String × UUID) :=
  match c.plan env with
  | .error code =>
    (false, ⟨false, contentHash, sortErrors (schemaErrors c ++ [⟨code, none⟩]), "ERROR", "SKIPPED",
      "SKIPPED", "SKIPPED"⟩, [])
  | .ok p =>
    let errors := planErrors env workflowId deps c p
    let (_, toolRefs, toolCheck, approvalCheck) := collectDependencyErrors env deps p
    (errors.isEmpty, ⟨errors.isEmpty, contentHash, errors,
      if (sourceErrors workflowId p).isEmpty then "OK" else "ERROR",
      if (p.validate env.pydantic).isEmpty then "OK" else "ERROR", toolCheck, approvalCheck⟩,
      if errors.isEmpty then toolRefs else [])

/-! ### Operations -/

/-- `WorkflowVersionCreate` after its validators. -/
structure WorkflowVersionCreate where
  planDefinition : Option Value
  planSchemaVersion : Option String
  inputSchema : Option Value
  outputSchema : Option Value
  policyDefaults : Option Value
  sourceVersionId : Option UUID
deriving DecidableEq

/-- An operation on the versions of the workflow. -/
inductive Op where
  | create (newId : UUID) (data : WorkflowVersionCreate)
  | putPlan (versionId : UUID) (planDefinition : Value)
  | validate (versionId : UUID)
  | publish (versionId : UUID)
  | deprecateVersion (versionId : UUID)
deriving DecidableEq

namespace Op

/-- The operation locks the row of the workflow first. -/
def locksWorkflow : Op → Bool
  | create _ _ | publish _ | deprecateVersion _ => true
  | putPlan _ _ | validate _ => false

/-- The version it locks next. -/
def target : Op → Option UUID
  | create _ data => data.sourceVersionId
  | putPlan id _ | validate id | publish id | deprecateVersion id => some id

end Op

/-- A transaction. `ready` is a publication that passed `_assert_publish_ready`. -/
structure Tx where
  id : ℕ
  op : Op
  workflow : Option WorkflowRow
  version : Option WorkflowVersion
  ready : Bool
  previous : Option WorkflowVersion
deriving DecidableEq

/-- The committed rows and the open transactions. -/
structure World where
  workflow : WorkflowRow
  versions : Table WorkflowVersion.id
  toolRefs : Table ToolRef.key
  txs : Table Tx.id

/-- One step. -/
inductive Action where
  | begin (tx : ℕ) (op : Op)
  | lockWorkflow (tx : ℕ)
  | lockVersion (tx : ℕ)
  /-- `_assert_publish_ready`; a refusal is committed. -/
  | assertPublishReady (tx : ℕ) (deps : Dependencies)
  /-- The lock of the previous current version. -/
  | lockPrevious (tx : ℕ)
  /-- The rest of the operation and its commit. -/
  | finish (tx : ℕ) (deps : Dependencies)
  /-- An exception, a lost connection or a deadlock ends the transaction without a commit. -/
  | rollback (tx : ℕ)
  /-- `WorkflowService.update` writes other columns of the workflow. -/
  | updateWorkflow

namespace World

/-- Some transaction holds the lock of the workflow. -/
def workflowLocked (w : World) : Bool := w.txs.rows.any fun tx => tx.workflow.isSome

/-- Some transaction holds the lock of the version. -/
def versionLocked (w : World) (id : UUID) : Bool :=
  w.txs.rows.any fun tx => tx.version.any (·.id = id) || tx.previous.any (·.id = id)

/-- The transaction goes on. -/
def putTx (w : World) (tx : Tx) : World := { w with txs := w.txs.put tx }

/-- The transaction ends. -/
def endTx (w : World) (tx : Tx) : World := { w with txs := w.txs.erase tx.id }

/-- `UPDATE workflow_versions` of one row. -/
def updateVersion (w : World) (id : UUID) (f : WorkflowVersion → WorkflowVersion) : World :=
  match w.versions.find? id with
  | none => w
  | some r => { w with versions := w.versions.put (f r) }

/-- `tool_refs.clear`. -/
def clearRefs (w : World) (id : UUID) : World :=
  { w with toolRefs := w.toolRefs.filter fun r => r.versionId ≠ id }

/-- The inserts of `tool_refs.replace_all`: a key of more than 128 characters and a repeated one are
refused by the database. -/
def insertRefs (id : UUID) : List (String × UUID) → Table ToolRef.key → Option (Table ToolRef.key)
  | [], refs => some refs
  | (key, toolVersionId) :: items, refs =>
    if 128 < key.length then none
    else (refs.insert? ⟨id, key, toolVersionId⟩).bind (insertRefs id items)

/-- The references of a version. -/
def refsOf (w : World) (id : UUID) : List (String × UUID) :=
  (w.toolRefs.rows.filter (·.versionId = id)).map fun r => (r.stepKey, r.toolVersionId)

/-- The two dictionaries are equal; a later pair of a key replaces an earlier one. -/
def sameMap (a b : List (String × UUID)) : Bool :=
  a.all (fun p => b.reverse.lookup p.1 = a.reverse.lookup p.1) &&
    b.all fun p => a.reverse.lookup p.1 = b.reverse.lookup p.1

/-- `set_validation` of an INVALID version, and its references go. -/
def invalidate (w : World) (id : UUID) (contentHash : String) (report : Option ValidationReport) :
    World :=
  (w.updateVersion id fun r => { r with
    contentHash := contentHash
    validationStatus := .invalid
    validationReport := report }).clearRefs id

/-- `next_version_no`. -/
def nextVersionNo (w : World) : ℕ := (w.versions.rows.map (·.versionNo)).foldl max 0 + 1

/-- The content of a new version, from the request and the source. -/
def newContent (data : WorkflowVersionCreate) (source : Option WorkflowVersion) : Option Content :=
  match source with
  | some r => some
    { planSchemaVersion := data.planSchemaVersion.getD r.content.planSchemaVersion
      planDefinition := data.planDefinition.getD r.content.planDefinition
      inputSchema := data.inputSchema.getD r.content.inputSchema
      outputSchema := data.outputSchema.getD r.content.outputSchema
      policyDefaults := data.policyDefaults.getD r.content.policyDefaults }
  | none => data.planDefinition.map fun plan =>
    { planSchemaVersion := data.planSchemaVersion.getD "1.0"
      planDefinition := plan
      inputSchema := data.inputSchema.getD (.obj [])
      outputSchema := data.outputSchema.getD (.obj [])
      policyDefaults := data.policyDefaults.getD (.obj []) }

/-- The end of `create_version`. -/
def create (env : Platform) (w : World) (newId : UUID) (data : WorkflowVersionCreate)
    (source : Option WorkflowVersion) : World :=
  ((newContent data source).bind fun c => (c.hash env).bind fun hash =>
    (w.versions.insert? ⟨newId, w.nextVersionNo, .draft, c.stored env, .invalid, none, hash⟩).map
      fun versions => { w with versions := versions }).getD w

/-- The end of `put_plan` on the locked version. -/
def putPlan (env : Platform) (w : World) (r : WorkflowVersion) (plan : Value) : World :=
  if r.status ≠ .draft then w
  else match { r.content with planDefinition := plan }.hash env with
    | none => w
    | some hash =>
      (w.updateVersion r.id fun row => { row with
        content := { row.content with planDefinition := env.column plan }
        contentHash := hash
        validationStatus := .invalid
        validationReport := none }).clearRefs r.id

/-- The end of `validate` on the locked version. -/
def validate (env : Platform) (workflowId : UUID) (w : World) (r : WorkflowVersion)
    (deps : Dependencies) : World :=
  if r.status ≠ .draft then w
  else match r.content.hash env with
    | none => w.invalidate r.id r.contentHash (some ⟨false, r.contentHash,
        [⟨"PLAN_DEFINITION_INVALID", none⟩], "ERROR", "SKIPPED", "SKIPPED", "SKIPPED"⟩)
    | some hash =>
      match buildValidation env workflowId deps r.content hash with
      | (false, report, _) => w.invalidate r.id hash (some report)
      | (true, report, items) =>
        match insertRefs r.id items (w.clearRefs r.id).toolRefs with
        | none => w
        | some refs => { w.updateVersion r.id fun row => { row with
              contentHash := hash
              validationStatus := .valid
              validationReport := some report } with
            toolRefs := refs }

/-- `_assert_publish_ready`: `none` when the version may be published, the invalidated world when it
may not. -/
def publishRefusal (env : Platform) (workflowId : UUID) (w : World) (r : WorkflowVersion)
    (deps : Dependencies) : Option World :=
  match r.content.hash env with
  | none => some (w.invalidate r.id r.contentHash none)
  | some hash =>
    let (valid, report, items) := buildValidation env workflowId deps r.content hash
    if hash ≠ r.contentHash then some (w.invalidate r.id hash (some report))
    else if r.validationStatus ≠ .valid ∨
        ¬r.validationReport.any (fun rep => rep.valid = true ∧ rep.contentHash = hash) then
      some (w.invalidate r.id hash (some report))
    else if valid = false then some (w.invalidate r.id hash (some report))
    else if !sameMap (w.refsOf r.id) items then
      some (w.invalidate r.id hash (some { report with
        valid := false
        errors := [⟨"WORKFLOW_TOOL_REFS_MISMATCH", none⟩] }))
    else none

/-- The end of `publish`: the previous version is deprecated when it is PUBLISHED, and the workflow
is updated when its row still has the lock version that was read. -/
def publish (w : World) (seen : WorkflowRow) (r : WorkflowVersion)
    (previous : Option WorkflowVersion) : World :=
  let deprecated := match previous with
    | some p => if p.status = WorkflowVersionStatus.published then
        w.updateVersion p.id fun row => { row with status := .deprecated } else w
    | none => w
  if w.workflow.lockVersion = seen.lockVersion then
    { deprecated.updateVersion r.id fun row => { row with status := .published } with
      workflow := ⟨some r.id, w.workflow.lockVersion + 1⟩ }
  else w

/-- The end of `deprecate`. -/
def deprecateVersion (w : World) (seen : WorkflowRow) (r : WorkflowVersion) : World :=
  if r.status = .published ∧ seen.currentVersionId ≠ some r.id then
    w.updateVersion r.id fun row => { row with status := .deprecated }
  else w

/-- The rest of an operation; `none` when it still waits for a lock. -/
def commit (env : Platform) (workflowId : UUID) (w : World) (tx : Tx) (deps : Dependencies) :
    Option World :=
  match tx.op, tx.workflow, tx.version with
  | .create newId data, some _, source =>
    if data.sourceVersionId.isSome ∧ source = none then none
    else some (w.create env newId data source)
  | .putPlan _ plan, _, some r => some (w.putPlan env r plan)
  | .validate _, _, some r => some (w.validate env workflowId r deps)
  | .publish _, some seen, some r =>
    if tx.ready = true ∧ (seen.currentVersionId = none ∨ seen.currentVersionId = some r.id ∨
        tx.previous.isSome) then
      some (w.publish seen r tx.previous)
    else none
  | .deprecateVersion _, some seen, some r => some (w.deprecateVersion seen r)
  | _, _, _ => none

/-- One step, or `none` when it is not possible. -/
def step (env : Platform) (workflowId : UUID) (w : World) : Action → Option World
  | .begin id op =>
    (w.txs.insert? ⟨id, op, none, none, false, none⟩).map fun txs => { w with txs := txs }
  | .lockWorkflow id =>
    (w.txs.find? id).bind fun tx =>
      if tx.op.locksWorkflow ∧ tx.workflow = none ∧ w.workflowLocked = false then
        some (w.putTx { tx with workflow := some w.workflow })
      else none
  | .lockVersion id =>
    (w.txs.find? id).bind fun tx =>
      match tx.op.target with
      | none => none
      | some target =>
        if (tx.op.locksWorkflow = true → tx.workflow.isSome) ∧ tx.version = none ∧
            w.versionLocked target = false then
          match w.versions.find? target with
          | none => some (w.endTx tx)
          | some r => some (w.putTx { tx with version := some r })
        else none
  | .assertPublishReady id deps =>
    (w.txs.find? id).bind fun tx =>
      match tx.op, tx.workflow, tx.version with
      | .publish _, some _, some r =>
        if tx.ready then none
        else if r.status ≠ .draft then some (w.endTx tx)
        else match w.publishRefusal env workflowId r deps with
          | some refused => some (refused.endTx tx)
          | none => some (w.putTx { tx with ready := true })
      | _, _, _ => none
  | .lockPrevious id =>
    (w.txs.find? id).bind fun tx =>
      match tx.workflow, tx.version with
      | some seen, some r =>
        if tx.ready = true ∧ tx.previous = none ∧ seen.currentVersionId ≠ some r.id then
          seen.currentVersionId.bind fun previousId =>
            if w.versionLocked previousId then none
            else (w.versions.find? previousId).map fun p => w.putTx { tx with previous := some p }
        else none
      | _, _ => none
  | .finish id deps =>
    (w.txs.find? id).bind fun tx =>
      (w.commit env workflowId tx deps).map fun w' => w'.endTx tx
  | .rollback id => (w.txs.find? id).map w.endTx
  | .updateWorkflow =>
    if w.workflowLocked then none
    else some { w with
      workflow := { w.workflow with lockVersion := w.workflow.lockVersion + 1 } }

/-- A new workflow. -/
structure Initial (w : World) : Prop where
  current : w.workflow.currentVersionId = none
  versions : w.versions.rows = []
  toolRefs : w.toolRefs.rows = []
  txs : w.txs.rows = []

end World

end McpFlow.Workflow
