import McpFlow.Factory.ImportSchema
import McpFlow.Factory.Server

/-!
# Contracts and reconciliation

The contract that the runtime serves for a reviewed tool, its `tools/list`, the descriptors that the
client reads from it, and the reconciliation plan of a discovery. Digests are values of an arbitrary
type: `hash` is SHA-256 of canonical JSON.
-/

namespace McpFlow.Factory

open Json (Value)

/-! ### Contracts -/

/-- `DeclarativeToolContract`. -/
structure DeclarativeToolContract where
  remoteName : String
  method : String
  pathTemplate : String
  inputSchema : Value
  outputSchema : Value
  description : Option String
  requestBodyRequired : Bool

/-- `str(value or "")` where only a text can pass the comparison that follows. -/
def textOf (v : Value) : String := v.str?.getD ""

/-- `_is_reserved_credential_header_name`. -/
def CaseFolding.isReservedHeader (u : CaseFolding) (name : String) : Bool :=
  u.lower (Text.strip name) ∈ ["authorization", "proxy-authorization", "cookie"]

/-- A parameter at this location could carry credentials. -/
def CaseFolding.carriesCredentials (u : CaseFolding) (location name : String) : Bool :=
  let location := u.lower (Text.strip location)
  location = "cookie" || (location = "header" && u.isReservedHeader name)

/-- `assert_safe_runtime_param_mapping`. -/
def assertSafeRuntimeParamMapping (u : CaseFolding) (parameters : List Value) (schema : Value) :
    Except AppError Unit :=
  if parameters.any fun p => p.isObj &&
      u.carriesCredentials (textOf (p.getD "location")) (textOf (p.getD "name")) then
    .error ⟨"FACTORY_RUNTIME_CREDENTIAL_PARAM_FORBIDDEN",
      "Reviewed parameter is a reserved credential transport."⟩
  else if ((schema.getD "properties").members?.getD []).any fun m => m.2.isObj &&
      u.carriesCredentials (textOf (m.2.getD "x-mcpflow-param-in")) m.1 then
    .error ⟨"FACTORY_RUNTIME_CREDENTIAL_PARAM_FORBIDDEN",
      "Reviewed input property is a reserved credential transport."⟩
  else .ok ()

/-- `name[:255]`. -/
def truncateName (name : String) : String := String.ofList (name.toList.take 255)

/-- `package_tool_to_contract`. -/
def packageToolToContract (u : CaseFolding) (tool : PackageTool) (inputSchema outputSchema : Value)
    (remoteName : String) : Except AppError DeclarativeToolContract := do
  let name := Text.strip (if remoteName = "" then tool.operationKey else remoteName)
  let method := u.upper tool.method
  if name = "" then
    .error ⟨"FACTORY_RUNTIME_INPUT_INVALID",
      "Reviewed package tool missing operation_key/remote_name."⟩
  else if method ∉ ["GET", "POST", "PUT", "PATCH", "DELETE", "HEAD", "OPTIONS"] then
    .error ⟨"FACTORY_RUNTIME_INPUT_INVALID", "Unsupported HTTP method in reviewed package."⟩
  else if !tool.path.startsWith "/" then
    .error ⟨"FACTORY_RUNTIME_INPUT_INVALID",
      "Reviewed package path must be an absolute path template."⟩
  else
    let schema ← if inputSchema.hasKey "type" then .ok inputSchema else tool.inputSchema u
    assertSafeRuntimeParamMapping u tool.parameters schema
    return {
      remoteName := truncateName name
      method
      pathTemplate := tool.path
      inputSchema := schema
      outputSchema := if outputSchema.isNull then tool.responseSchema else outputSchema
      description := tool.description.str?.or tool.summary.str?
      requestBodyRequired := tool.requestBodyRequired }

/-- `factory_mcp_output_schema`: the envelope around the schema of the HTTP body. -/
def factoryMcpOutputSchema (httpBodySchema : Value) : Value :=
  if httpBodySchema.isNull then .null
  else .obj [("type", .str "object"),
    ("properties", .obj [("ok", .obj [("type", .str "boolean")]),
      ("http_status", .obj [("type", .str "integer")]),
      ("latency_ms", .obj [("type", .str "integer"), ("minimum", .int 0)]),
      ("protocol_version", .obj [("type", .str "string")]),
      ("body", httpBodySchema),
      ("body_text", .obj [("type", .str "string")]),
      ("error_category", .obj [("type", .str "string")]),
      ("error_message", .obj [("type", .arr [.str "string", .str "null"])])]),
    ("required", .arr [.str "ok", .str "http_status", .str "latency_ms", .str "protocol_version"]),
    ("additionalProperties", .bool false)]

/-! ### `tools/list` and its descriptors -/

/-- The item of one contract. -/
def toolItem (contract : DeclarativeToolContract) : Value :=
  .obj ([("name", .str contract.remoteName), ("inputSchema", contract.inputSchema)] ++
    (contract.description.map fun d => ("description", Value.str d)).toList ++
    if contract.outputSchema.isNull then []
    else [("outputSchema", factoryMcpOutputSchema contract.outputSchema)])

/-- `sorted(names)`. -/
def sorted (names : List String) : List String := names.insertionSort (· ≤ ·)

/-- `_tools_list`: the tools of the result. -/
def toolsList (contracts : Dict DeclarativeToolContract) : List Value :=
  (sorted contracts.keys).filterMap fun name => (contracts.get? name).map toolItem

/-- `RemoteToolDescriptor`. A member that the wire does not have is `null`. -/
structure RemoteToolDescriptor where
  name : String
  description : Option String
  inputSchema : Value
  outputSchema : Value
  annotations : Option (Dict Value)
  raw : Value

/-- The value of the first key that is present. -/
def firstOf (item : Value) (keys : List String) : Value :=
  (keys.findSome? item.get?).getD .null

/-- `_parse_tool`. -/
def parseTool (item : Value) : Option RemoteToolDescriptor :=
  match (item.getD "name").str? with
  | some name =>
    if name = "" then none
    else some {
      name
      description := (item.getD "description").str?
      inputSchema := firstOf item ["inputSchema", "input_schema"]
      outputSchema := firstOf item ["outputSchema", "output_schema"]
      annotations := (item.getD "annotations").members?
      raw := item }
  | none => none

/-- `list_tools` on a result of one page. -/
def listTools (items : List Value) : List RemoteToolDescriptor := items.filterMap parseTool

/-- `index_remote_tools_strict`. -/
def indexRemoteToolsStrict (remoteTools : List RemoteToolDescriptor) :
    Except String (Dict RemoteToolDescriptor) :=
  remoteTools.foldlM (fun byName desc =>
    if !Text.nonBlank desc.name then .error "Remote tool name must be a non-empty string."
    else if (byName.get? desc.name).isSome then .error "Duplicate remote tool identity."
    else .ok (byName ++ [(desc.name, desc)])) []

/-! ### The plan -/

section Plan

variable {δ : Type} [DecidableEq δ] (hash : Value → δ)

/-- `content_hash` of a descriptor. -/
def contentHash (desc : RemoteToolDescriptor) : δ :=
  hash (.obj [("name", .str desc.name), ("description", Value.ofOptionStr desc.description),
    ("inputSchema", desc.inputSchema), ("outputSchema", desc.outputSchema),
    ("annotations", (desc.annotations.map Value.obj).getD .null)])

/-- What `factory_contract_fingerprint` hashes. -/
def contractPayload (remoteName : String) (inputSchema outputSchema : Value) : Value :=
  .obj [("remote_name", .str remoteName), ("input_schema", inputSchema),
    ("output_schema", outputSchema)]

/-- `factory_contract_fingerprint`. -/
def factoryContractFingerprint (remoteName : String) (inputSchema outputSchema : Value) : δ :=
  hash (contractPayload remoteName inputSchema outputSchema)

/-- The schemas of an imported ToolVersion; the output schema is that of the HTTP body. -/
structure ExpectedContract where
  inputSchema : Value
  outputSchema : Value

/-- The fingerprint that a remote tool is expected to have. -/
def expectedFingerprint (name : String) (expected : ExpectedContract) : δ :=
  factoryContractFingerprint hash name expected.inputSchema
    (factoryMcpOutputSchema expected.outputSchema)

/-- The fingerprint of a remote tool. -/
def remoteFingerprint (remote : RemoteToolDescriptor) : δ :=
  factoryContractFingerprint hash remote.name remote.inputSchema remote.outputSchema

/-- `FactoryClassification`. -/
inductive FactoryClassification where
  | matched
  | missingExpected
  | unexpectedRemote
  | contractChanged
deriving DecidableEq, Repr

/-- `FactoryReconcileEntry`. -/
structure FactoryReconcileEntry (δ : Type) where
  remoteName : String
  classification : FactoryClassification
  expectedContractHash : Option δ
  remoteContractHash : Option δ

/-- `FactoryReconcilePlan`. -/
structure FactoryReconcilePlan (δ : Type) where
  status : ReconcileStatus
  entries : List (FactoryReconcileEntry δ)
  errorMessage : Option String

/-- A plan that could not be built. -/
def ambiguous (message : String) : FactoryReconcilePlan δ := ⟨.ambiguous, [], some message⟩

/-- `is_clean`. -/
def FactoryReconcilePlan.isClean (plan : FactoryReconcilePlan δ) : Bool := plan.status = .clean

/-- `matched_names`. -/
def FactoryReconcilePlan.matchedNames (plan : FactoryReconcilePlan δ) : List String :=
  sorted ((plan.entries.filter (·.classification = .matched)).map (·.remoteName))

/-- The entry of an expected name that is remote too. -/
def compareContract (name : String) (expected : ExpectedContract) (remote : RemoteToolDescriptor) :
    FactoryReconcileEntry δ :=
  let expectedFp := expectedFingerprint hash name expected
  let remoteFp := remoteFingerprint hash remote
  ⟨name, if expectedFp = remoteFp then .matched else .contractChanged, some expectedFp, some remoteFp⟩

/-- The entries of the plan: the common names, the missing ones, the unexpected ones. -/
def reconcileEntries (expected : Dict ExpectedContract) (remote : Dict RemoteToolDescriptor) :
    List (FactoryReconcileEntry δ) :=
  ((sorted (expected.keys.filter (remote.keys.contains ·))).filterMap fun name =>
    (expected.get? name).bind fun e => (remote.get? name).map (compareContract hash name e)) ++
  ((sorted (expected.keys.filter (!remote.keys.contains ·))).filterMap fun name =>
    (expected.get? name).map fun e =>
      ⟨name, .missingExpected, some (expectedFingerprint hash name e), none⟩) ++
  ((sorted (remote.keys.filter (!expected.keys.contains ·))).filterMap fun name =>
    (remote.get? name).map fun r =>
      ⟨name, .unexpectedRemote, none, some (remoteFingerprint hash r)⟩)

/-- `build_factory_reconcile_plan`. -/
def buildFactoryReconcilePlan (expected : Dict ExpectedContract)
    (remote : Dict RemoteToolDescriptor) : FactoryReconcilePlan δ :=
  let entries := reconcileEntries hash expected remote
  ⟨if entries.any (·.classification ≠ .matched) then .mismatched else .clean, entries, none⟩

end Plan

end McpFlow.Factory
