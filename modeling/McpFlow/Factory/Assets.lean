import McpFlow.Factory.Reconcile
import McpFlow.Library.Lists
import McpFlow.Library.Runs
import McpFlow.Library.Table

/-!
# Imported tools

The tools that a Factory Publish imported, what the READY runtime loads from them, and what a
discovery expects of them and applies to them. A ToolVersion is identified by its tool and its
`version_no`. A JSON column answers with the value that was stored.
-/

namespace McpFlow.Factory

open Json (Value)

/-- `MCPToolStatus`. -/
inductive MCPToolStatus where
  | discovered
  | active
  | inactive
  | missing
  | blocked
deriving DecidableEq, Repr

/-- A row of `mcp_tool_versions`. -/
structure MCPToolVersion (δ : Type) where
  versionNo : ℕ
  contentHash : δ
  inputSchema : Value
  outputSchema : Value
  annotations : Option (Dict Value)
  rawDescriptor : Value
  schemaDialect : Option String

/-- A row of `mcp_tools` with its versions. -/
structure MCPTool (δ : Type) where
  id : UUID
  remoteName : String
  status : MCPToolStatus
  versions : List (MCPToolVersion δ)
  currentVersionNo : Option ℕ

/-- The assets of one Factory Publish: its package, its `mcp_tool_ids`, and the live tools of its
server. -/
structure FactoryAssets (δ : Type) where
  package : List PackageTool
  mcpToolIds : List UUID
  tools : Table (MCPTool.id (δ := δ))

/-- `get_version(tool.current_version_id)`. -/
def MCPTool.currentVersion {δ : Type} (tool : MCPTool δ) : Option (MCPToolVersion δ) :=
  tool.currentVersionNo.bind fun n => tool.versions.find? (·.versionNo = n)

section Import

variable {δ : Type} [DecidableEq δ] (hash : Value → δ) (u : CaseFolding)

/-! ### Import -/

/-- The checks of a package tool: the identifying members are not empty. -/
def PackageTool.complete (tool : PackageTool) : Bool :=
  tool.candidateId ≠ "" && tool.operationKey ≠ "" && tool.method ≠ "" && tool.path ≠ ""

/-- `_declarative_tool_remote_name`. -/
def declarativeToolRemoteName (tool : PackageTool) : Except AppError String :=
  let key := Text.strip tool.operationKey
  if key = "" then .error ⟨"FACTORY_PACKAGE_SCHEMA_INVALID", "Package tool missing operation_key."⟩
  else .ok (truncateName key)

/-- `_FACTORY_ANNOTATION_KEYS`. -/
def factoryAnnotationKeys : List String :=
  ["factory_import", "method", "path", "candidate_id", "operation_key", "deprecated"]

/-- The annotations of an imported version: the Factory lineage. -/
def PackageTool.lineage (tool : PackageTool) : Dict Value :=
  [("factory_import", .bool true), ("method", .str tool.method), ("path", .str tool.path),
    ("candidate_id", .str tool.candidateId), ("operation_key", .str tool.operationKey),
    ("deprecated", .bool tool.deprecated)]

/-- The raw descriptor of an imported version. -/
def PackageTool.rawDescriptor (tool : PackageTool) : Value :=
  .obj [("candidate_id", .str tool.candidateId), ("operation_key", .str tool.operationKey),
    ("operation_id", tool.operationId), ("method", .str tool.method), ("path", .str tool.path),
    ("summary", tool.summary), ("description", tool.description),
    ("tags", .arr (tool.tags.map .str)), ("deprecated", .bool tool.deprecated),
    ("parameters", .arr tool.parameters), ("request_schema", tool.requestSchema),
    ("request_body_required", .bool tool.requestBodyRequired),
    ("response_schema", tool.responseSchema)]

/-- `_import_draft_mcp_assets` for one package tool. -/
def importTool (id : UUID) (tool : PackageTool) : Except AppError (MCPTool δ) := do
  let remoteName ← declarativeToolRemoteName tool
  let inputSchema ← tool.inputSchema u
  return {
    id
    remoteName
    status := .inactive
    versions := [{
      versionNo := 1
      contentHash := hash tool.rawDescriptor
      inputSchema
      outputSchema := tool.responseSchema
      annotations := some tool.lineage
      rawDescriptor := tool.rawDescriptor
      schemaDialect := some "factory-declarative-v1" }]
    currentVersionNo := some 1 }

/-- `_import_draft_mcp_assets`: the tools of a package under new ids. The live tools of a server have
distinct remote names. -/
def importAssets (ids : List UUID) (package : List PackageTool) :
    Except AppError (FactoryAssets δ) := do
  if package = [] ∨ !package.all (·.complete) then
    .error ⟨"FACTORY_PACKAGE_SCHEMA_INVALID", "Generated Package tools are empty or incomplete."⟩
  else if ids.length ≠ package.length then .error ⟨"IntegrityError", "mcp_tools_pkey"⟩
  else
    let tools ← (ids.zip package).mapM fun p => importTool hash u p.1 p.2
    if h : (tools.map MCPTool.id).Nodup then
      if (tools.map MCPTool.remoteName).Nodup then
        return ⟨package, ids, ⟨tools, h⟩⟩
      else .error ⟨"IntegrityError", "uq_mcp_tools_server_remote_live"⟩
    else .error ⟨"IntegrityError", "mcp_tools_pkey"⟩

end Import

section Runtime

variable {δ : Type} [DecidableEq δ] (u : CaseFolding)

/-! ### The runtime -/

/-- A mismatch of the runtime lineage. -/
def lineageMismatch (message : String) : AppError := ⟨"FACTORY_RUNTIME_LINEAGE_MISMATCH", message⟩

/-- `package_by_key`: a later tool replaces an earlier one with its key. -/
def FactoryAssets.packageByKey (a : FactoryAssets δ) (key : String) : Option PackageTool :=
  a.package.reverse.find? (·.operationKey = key)

/-- The contract of one published tool. -/
def FactoryAssets.reviewedContract (a : FactoryAssets δ) (id : UUID) :
    Except AppError (String × DeclarativeToolContract) :=
  match a.tools.find? id with
  | none => .error (lineageMismatch "FactoryPublish tool missing on MCP Server.")
  | some tool =>
    match tool.currentVersion with
    | none => .error (lineageMismatch "FactoryPublish tool has no current version.")
    | some version =>
      match a.packageByKey tool.remoteName with
      | none => .error (lineageMismatch "Reviewed remote_name missing from package tools.")
      | some packageTool => do
        let inputSchema ← if version.inputSchema.isObj then .ok version.inputSchema
          else packageTool.inputSchema u
        let contract ←
          packageToolToContract u packageTool inputSchema version.outputSchema tool.remoteName
        return (tool.remoteName, contract)

/-- `load_reviewed_contracts`. -/
def FactoryAssets.loadReviewedContracts (a : FactoryAssets δ) :
    Except AppError (Dict DeclarativeToolContract) := do
  let pairs ← a.mcpToolIds.mapM (a.reviewedContract u)
  let contracts := Dict.ofPairs pairs
  if contracts.length ≠ a.mcpToolIds.length then
    .error (lineageMismatch "Reviewed tool set cardinality mismatch.")
  else return contracts

end Runtime

section Discovery

variable {δ : Type} [DecidableEq δ] (hash : Value → δ)

/-! ### Discovery -/

/-- A value that is neither `None` nor the empty text. -/
def present (v : Value) : Bool := v ≠ .null && v ≠ .str ""

/-- `_PACKAGE_LINEAGE_IDENTITY_KEYS`. -/
def packageLineageIdentityKeys : List String :=
  ["operation_key", "candidate_id", "publish_id", "review_id", "generated_package_id"]

/-- Some identity field, or the method and the path, are given. -/
def identifies (j : Value) : Bool :=
  packageLineageIdentityKeys.any (present ∘ j.getD) ||
    (present (j.getD "method") && present (j.getD "path"))

/-- `has_immutable_factory_lineage`. -/
def hasImmutableFactoryLineage (annotations : Option (Dict Value)) (rawDescriptor : Value)
    (schemaDialect : Option String) : Bool :=
  annotations.any fun ms => (Value.obj ms).getD "factory_import" = .bool true &&
    (schemaDialect = some "factory-declarative-v1" || identifies (.obj ms) ||
      (rawDescriptor.isObj && identifies rawDescriptor))

/-- The version of a tool has Factory provenance. -/
def MCPTool.hasProvenance (tool : MCPTool δ) : Bool :=
  tool.currentVersion.any fun v =>
    hasImmutableFactoryLineage v.annotations v.rawDescriptor v.schemaDialect

/-- The expected contract of a tool. -/
def MCPTool.expected (tool : MCPTool δ) : ExpectedContract :=
  ⟨(tool.currentVersion.map (·.inputSchema)).getD .null,
    (tool.currentVersion.map (·.outputSchema)).getD .null⟩

/-- `_load_expected_factory_contracts`. -/
def FactoryAssets.loadExpected (a : FactoryAssets δ) : Except String (Dict ExpectedContract) :=
  if a.mcpToolIds = [] then .error "FactoryPublish.mcp_tool_ids is empty."
  else if ¬(a.tools.rows.map MCPTool.remoteName).Nodup then
    .error "Duplicate imported tool identity."
  else if a.tools.rows.any fun t => t.id ∉ a.mcpToolIds then
    .error ("Factory Discovery expected set polluted by live Tools not in "
      ++ "FactoryPublish.mcp_tool_ids")
  else if a.mcpToolIds.any fun id => (a.tools.find? id).isNone then
    .error "FactoryPublish.mcp_tool_ids reference Tools missing from the MCP Server"
  else if a.tools.rows.any fun t => !t.hasProvenance then
    .error "FactoryPublish member Tools lack immutable Factory ToolVersion provenance"
  else .ok (a.tools.rows.map fun t => (t.remoteName, t.expected))

/-- `extract_factory_lineage_annotations`. -/
def extractFactoryLineageAnnotations (annotations : Option (Dict Value)) : Dict Value :=
  match annotations with
  | none => []
  | some ms =>
    let out := factoryAnnotationKeys.filterMap fun k => (Dict.get? ms k).map fun v => (k, v)
    if Dict.get? out "factory_import" = some (.bool true) then out
    else Dict.set out "factory_import" (.bool true)

/-- `{**a, **b}`. -/
def mergeAnnotations (a b : Dict Value) : Dict Value := b.foldl (fun d m => d.set m.1 m.2) a

/-- `next_version_no`. -/
def MCPTool.nextVersionNo (tool : MCPTool δ) : ℕ := (tool.versions.map (·.versionNo)).foldl max 0 + 1

/-- `_ensure_version`: the version with the digest of the wire descriptor, made of `stored` when
there is none. -/
def MCPTool.ensureVersion (tool : MCPTool δ) (digest : δ) (stored : RemoteToolDescriptor) :
    MCPTool δ :=
  match tool.versions.find? (·.contentHash = digest) with
  | some existing => { tool with currentVersionNo := some existing.versionNo }
  | none =>
    { tool with
      versions := tool.versions ++ [{
        versionNo := tool.nextVersionNo
        contentHash := digest
        inputSchema := stored.inputSchema
        outputSchema := stored.outputSchema
        annotations := stored.annotations
        rawDescriptor := stored.raw
        schemaDialect := none }]
      currentVersionNo := some tool.nextVersionNo }

/-- `_apply_factory_matched` for one tool. -/
def MCPTool.applyMatched (tool : MCPTool δ) (desc : RemoteToolDescriptor) : MCPTool δ :=
  let prior := tool.currentVersion
  let stored := { desc with
    outputSchema := (prior.map (·.outputSchema)).getD .null
    annotations := some (mergeAnnotations (desc.annotations.getD [])
      (extractFactoryLineageAnnotations (prior.bind (·.annotations)))) }
  { tool.ensureVersion (contentHash hash desc) stored with status := .inactive }

@[simp] theorem MCPTool.id_applyMatched (tool : MCPTool δ) (desc : RemoteToolDescriptor) :
    (tool.applyMatched hash desc).id = tool.id := by
  simp only [applyMatched, ensureVersion]
  split
  · rfl
  · rfl

/-- What an apply does to a tool of the server. -/
def MCPTool.reconcile (remote : Dict RemoteToolDescriptor) (matchedNames : List String)
    (tool : MCPTool δ) : MCPTool δ :=
  match remote.get? tool.remoteName with
  | some desc => if tool.remoteName ∈ matchedNames then tool.applyMatched hash desc else tool
  | none => tool

@[simp] theorem MCPTool.id_reconcile (remote : Dict RemoteToolDescriptor)
    (matchedNames : List String) (tool : MCPTool δ) :
    (tool.reconcile hash remote matchedNames).id = tool.id := by
  unfold reconcile
  split
  · split
    · exact id_applyMatched hash tool _
    · rfl
  · rfl

/-- `_apply_factory_matched`: a matched name has one tool. -/
def FactoryAssets.applyFactoryMatched (a : FactoryAssets δ) (remote : Dict RemoteToolDescriptor)
    (matchedNames : List String) : FactoryAssets δ :=
  { a with
    tools := a.tools.mapRows (MCPTool.reconcile hash remote matchedNames)
      (MCPTool.id_reconcile hash remote matchedNames) }

/-- `_discover_factory` while the connection keeps its configuration: the plan, and the tools after
it. -/
def FactoryAssets.discover (a : FactoryAssets δ) (applyChanges : Bool)
    (remoteTools : List RemoteToolDescriptor) : FactoryAssets δ × FactoryReconcilePlan δ :=
  match indexRemoteToolsStrict remoteTools with
  | .error message => (a, ambiguous message)
  | .ok remote =>
    match a.loadExpected with
    | .error message => (a, ambiguous message)
    | .ok expected =>
      let plan := buildFactoryReconcilePlan hash expected remote
      if applyChanges && plan.isClean then (a.applyFactoryMatched hash remote plan.matchedNames, plan)
      else (a, plan)

/-- What happens to the tools of a Factory server: discoveries, and changes of a tool status. -/
inductive AssetAction where
  | discover (applyChanges : Bool) (remoteTools : List RemoteToolDescriptor)
  | setStatus (id : UUID) (status : MCPToolStatus)

/-- One step. -/
def FactoryAssets.step (a : FactoryAssets δ) : AssetAction → Option (FactoryAssets δ)
  | .discover applyChanges remoteTools => some (a.discover hash applyChanges remoteTools).1
  | .setStatus id status => (a.tools.find? id).map fun tool =>
      { a with tools := a.tools.put { tool with status } }

end Discovery

end McpFlow.Factory
