import McpFlow.Execution.State
import McpFlow.Library.Except
import McpFlow.Library.Json
import McpFlow.Library.Text

/-!
# MCP servers of the Tool Factory

The row of an MCP server that the Tool Factory imported, its RuntimeBinding, and what
`MCPServerService`, `MCPDiscoveryService` and `FactoryRuntimeService` compute on them. A function
here reads the attributes that a session has loaded; what a session writes back, and when, is the
subject of `McpFlow.Factory.Evidence`.
-/

namespace McpFlow.Factory

open Json (Value)

/-- `MCPServerStatus`. -/
inductive MCPServerStatus where
  | draft
  | active
  | inactive
  | error
deriving DecidableEq, Repr

/-- `MCPTransportType`. -/
inductive MCPTransportType where
  | stdio
  | streamableHttp
  | legacyHttpSse
deriving DecidableEq, Repr

/-- `MCPAuthType`. -/
inductive MCPAuthType where
  | none
  | bearer
  | apiKeyHeader
  | basic
  | oauth2
  | customHeaders
  | stdioEnv
deriving DecidableEq, Repr

/-- `MCPCheckStatus`. -/
inductive MCPCheckStatus where
  | succeeded
  | failed
  | timedOut
deriving DecidableEq, Repr

/-- `FactoryRuntimeBindingStatus`. -/
inductive FactoryRuntimeBindingStatus where
  | draft
  | ready
  | disabled
deriving DecidableEq, Repr

/-- The text of a transport type. -/
def MCPTransportType.text : MCPTransportType → String
  | .stdio => "STDIO"
  | .streamableHttp => "STREAMABLE_HTTP"
  | .legacyHttpSse => "LEGACY_HTTP_SSE"

/-- The text of an auth type. -/
def MCPAuthType.text : MCPAuthType → String
  | .none => "NONE"
  | .bearer => "BEARER"
  | .apiKeyHeader => "API_KEY_HEADER"
  | .basic => "BASIC"
  | .oauth2 => "OAUTH2"
  | .customHeaders => "CUSTOM_HEADERS"
  | .stdioEnv => "STDIO_ENV"

/-! ### Rows -/

/-- The fields of `ServerConfig` that a connection depends on. -/
structure ConnectionConfig where
  transportType : MCPTransportType
  endpointUrl : Option String
  authType : MCPAuthType
  authSecretId : Option UUID
  connectTimeoutMs : ℤ
  callTimeoutMs : ℤ
deriving DecidableEq

/-- A verified fingerprint. `changes` counts the execution-relevant changes of the RuntimeBinding
before the check that obtained it started; it is history, and no text holds it. -/
structure Verified where
  fingerprint : String
  changes : ℕ
deriving DecidableEq

/-- The members of `transport_config` that the services read or write. -/
structure TransportConfig where
  factoryPublish : Bool
  source : Option String
  connectionDeferred : Bool
  /-- `connection_test_verified_fingerprint`. -/
  connectionTest : Option Verified
  /-- `connection_discovery_verified_fingerprint`. -/
  discovery : Option Verified
deriving DecidableEq

/-- A row of `mcp_servers`. -/
structure MCPServer where
  connection : ConnectionConfig
  stdioManifestId : Option String
  transportConfig : TransportConfig
  status : MCPServerStatus
  lockVersion : ℕ
deriving DecidableEq

/-- A row of `tool_factory_runtime_bindings`. -/
structure RuntimeBinding where
  status : FactoryRuntimeBindingStatus
  baseUrl : Option String
  authType : MCPAuthType
  authSecretId : Option UUID
  connectTimeoutMs : ℤ
  callTimeoutMs : ℤ
  maxResponseBytes : ℤ
  lockVersion : ℕ
deriving DecidableEq

/-- A row of `mcp_server_checks`. -/
structure MCPServerCheck where
  id : UUID
  status : MCPCheckStatus
  checkedAt : Time
deriving DecidableEq

/-- The hash of canonical JSON and the validation of an endpoint, which normalizes the text. -/
structure Platform where
  hash : Value → String
  validateEndpoint : String → Except AppError String

/-! ### Fingerprints -/

/-- Python's truth of an optional text. -/
def truthy (s : Option String) : Bool := s.any (· ≠ "")

/-- The endpoint of a fingerprint. -/
def strippedEndpoint (endpointUrl : Option String) : Option String :=
  (endpointUrl.map Text.strip).filter (· ≠ "")

/-- `connection_config_fingerprint`. -/
def connectionConfigFingerprint (env : Platform) (c : ConnectionConfig) : String :=
  env.hash (.obj [("transport_type", .str c.transportType.text),
    ("endpoint_url", ((strippedEndpoint c.endpointUrl).map Value.str).getD .null),
    ("auth_type", .str c.authType.text),
    ("auth_secret_id", (c.authSecretId.map fun id => Value.str id.toString).getD .null),
    ("connect_timeout_ms", .int c.connectTimeoutMs),
    ("call_timeout_ms", .int c.callTimeoutMs)])

/-- A stored fingerprint counts when it is a text of 64 characters. -/
def Verified.text? (v : Option Verified) : Option String :=
  (v.map Verified.fingerprint).filter (·.length = 64)

namespace TransportConfig

/-- The same JSON value: histories do not count. -/
def sameValue (a b : TransportConfig) : Bool :=
  a.factoryPublish = b.factoryPublish && a.source = b.source &&
    a.connectionDeferred = b.connectionDeferred &&
    a.connectionTest.map Verified.fingerprint = b.connectionTest.map Verified.fingerprint &&
    a.discovery.map Verified.fingerprint = b.discovery.map Verified.fingerprint

/-- `_transport_config_with_deferred_cleared`. -/
def withDeferredCleared (cfg : TransportConfig) : TransportConfig :=
  { cfg with connectionDeferred := false }

/-- `transport_config_with_verified_fingerprint`. -/
def withVerifiedFingerprint (cfg : TransportConfig) (v : Verified) : TransportConfig :=
  { cfg with connectionTest := some v }

/-- `transport_config_with_discovery_fingerprint`. -/
def withDiscoveryFingerprint (cfg : TransportConfig) (v : Verified) : TransportConfig :=
  { cfg with discovery := some v }

/-- `transport_config_clear_discovery_fingerprint`. -/
def clearDiscoveryFingerprint (cfg : TransportConfig) : TransportConfig :=
  { cfg with discovery := none }

/-- `transport_config_clear_verified_fingerprints`. -/
def clearVerifiedFingerprints (cfg : TransportConfig) : TransportConfig :=
  { cfg with connectionTest := none, discovery := none }

/-- Some verified fingerprint is stored. -/
def hasEvidence (cfg : TransportConfig) : Bool := cfg.connectionTest.isSome || cfg.discovery.isSome

end TransportConfig

namespace MCPServer

/-- `is_connection_deferred`. -/
def isConnectionDeferred (s : MCPServer) : Bool := s.transportConfig.connectionDeferred

/-- `is_factory_imported`. -/
def isFactoryImported (s : MCPServer) : Bool :=
  s.transportConfig.factoryPublish || s.transportConfig.source = some "TOOL_FACTORY_PUBLISH"

/-- `has_usable_endpoint`. -/
def hasUsableEndpoint (s : MCPServer) : Bool := s.connection.endpointUrl.any Text.nonBlank

/-- `connection_deferred_effective`. -/
def connectionDeferredEffective (s : MCPServer) : Bool :=
  s.isConnectionDeferred && !s.hasUsableEndpoint

/-- `connection_config_fingerprint_for_server`. -/
def fingerprint (env : Platform) (s : MCPServer) : String :=
  connectionConfigFingerprint env s.connection

/-- `get_verified_connection_fingerprint`. -/
def verifiedConnectionFingerprint (s : MCPServer) : Option String :=
  Verified.text? s.transportConfig.connectionTest

/-- `get_verified_discovery_fingerprint`. -/
def verifiedDiscoveryFingerprint (s : MCPServer) : Option String :=
  Verified.text? s.transportConfig.discovery

/-- The connection test is verified for the current configuration. -/
def connectionVerified (env : Platform) (s : MCPServer) : Bool :=
  s.verifiedConnectionFingerprint = some (s.fingerprint env)

/-- The discovery is verified for the current configuration. -/
def discoveryVerified (env : Platform) (s : MCPServer) : Bool :=
  s.verifiedDiscoveryFingerprint = some (s.fingerprint env)

end MCPServer

/-! ### Update -/

/-- How a request fails: with an error of the application, or with an exception that nothing
handles. -/
inductive Failure where
  | app (error : AppError)
  | unhandled
deriving DecidableEq

/-- A conflict with the state of a resource. -/
def conflict (message : String) : Failure := .app ⟨"RESOURCE_CONFLICT", message⟩

/-- An invalid request. -/
def invalid (message : String) : Failure := .app ⟨"VALIDATION_ERROR", message⟩

/-- `MCPServerUpdate`: the members that the request sets, each with its value or `null`. -/
structure MCPServerUpdate where
  transportType : Option (Option MCPTransportType)
  endpointUrl : Option (Option String)
  stdioManifestId : Option (Option String)
  authType : Option (Option MCPAuthType)
  authSecretId : Option (Option UUID)
  connectTimeoutMs : Option (Option ℤ)
  callTimeoutMs : Option (Option ℤ)

/-- The value of a member that the column does not allow to be `null`. -/
def required {α : Type} (current : α) : Option (Option α) → Except Failure α
  | none => .ok current
  | some (some a) => .ok a
  | some none => .error .unhandled

/-- `_validate_transport_auth`: the normalized endpoint. -/
def validateTransportAuth (env : Platform) (transport : MCPTransportType)
    (endpointUrl stdioManifestId : Option String) (authType : MCPAuthType)
    (authSecretId : Option UUID) : Except Failure (Option String) := do
  let normalized ← match transport with
    | .streamableHttp | .legacyHttpSse =>
      if truthy stdioManifestId then
        .error (invalid "stdio_manifest_id is not allowed for HTTP transports.")
      else ((env.validateEndpoint (endpointUrl.getD "")).map some).mapError Failure.app
    | .stdio =>
      if truthy endpointUrl then
        .error (invalid "endpoint_url is not allowed for STDIO transport.")
      else if stdioManifestId.any Text.nonBlank then .ok none
      else .error (invalid "stdio_manifest_id is required for STDIO transport.")
  if authType ≠ .none ∧ authSecretId = none then
    .error (invalid "auth_secret_id is required when auth_type is not NONE.")
  else return normalized

/-- The columns that an update sets. -/
structure UpdateFields where
  connection : ConnectionConfig → ConnectionConfig
  stdioManifestId : Option (Option String)
  transportConfig : Option TransportConfig

/-- The endpoint column of an update: the normalized text, when the request names the endpoint or
the transport. -/
def MCPServerUpdate.endpointField (data : MCPServerUpdate) (transport : MCPTransportType)
    (normalized : Option String) : Option (Option String) :=
  if data.transportType.isSome then
    some (if transport = .stdio then none else normalized)
  else if data.endpointUrl.isSome then some normalized
  else none

/-- The manifest column of an update. -/
def MCPServerUpdate.stdioField (data : MCPServerUpdate) (transport : MCPTransportType) :
    Option (Option String) :=
  if data.transportType.isSome ∧ transport ≠ .stdio then some none
  else data.stdioManifestId.map fun v => (v.map Text.strip).filter (· ≠ "")

/-- The `transport_config` of an update: a usable endpoint ends the deferral. -/
def MCPServer.deferredCleared (server : MCPServer) (usableAfter : Bool) : Option TransportConfig :=
  if usableAfter && server.isConnectionDeferred then
    some server.transportConfig.withDeferredCleared
  else none

/-- The columns that `update` computes from the row it has read. -/
def updateFields (env : Platform) (server : MCPServer) (data : MCPServerUpdate) :
    Except Failure UpdateFields := do
  let transport ← required server.connection.transportType data.transportType
  let authType ← required server.connection.authType data.authType
  let normalized ← validateTransportAuth env transport
    (data.endpointUrl.getD server.connection.endpointUrl)
    (data.stdioManifestId.getD server.stdioManifestId) authType
    (data.authSecretId.getD server.connection.authSecretId)
  let connectTimeoutMs ← required server.connection.connectTimeoutMs data.connectTimeoutMs
  let callTimeoutMs ← required server.connection.callTimeoutMs data.callTimeoutMs
  let endpointField := data.endpointField transport normalized
  return {
    connection := fun c =>
      { transportType := if data.transportType.isSome then transport else c.transportType
        endpointUrl := endpointField.getD c.endpointUrl
        authType := if data.authType.isSome then authType else c.authType
        authSecretId := data.authSecretId.getD c.authSecretId
        connectTimeoutMs :=
          if data.connectTimeoutMs.isSome then connectTimeoutMs else c.connectTimeoutMs
        callTimeoutMs := if data.callTimeoutMs.isSome then callTimeoutMs else c.callTimeoutMs }
    stdioManifestId := data.stdioField transport
    transportConfig :=
      server.deferredCleared ((endpointField.getD normalized).any Text.nonBlank) }

/-- `update_atomic`: the row with the columns set, when the version is the expected one. -/
def updateAtomic (row : MCPServer) (expectedLockVersion : ℕ) (fields : UpdateFields) :
    Option MCPServer :=
  if row.lockVersion = expectedLockVersion then
    some { row with
      connection := fields.connection row.connection
      stdioManifestId := fields.stdioManifestId.getD row.stdioManifestId
      transportConfig := fields.transportConfig.getD row.transportConfig
      lockVersion := row.lockVersion + 1 }
  else none

/-! ### Activation -/

/-- `activate` on the row it has read and the latest check; `none` when it raises nothing. -/
def activateError (env : Platform) (server : MCPServer) (latest : Option MCPServerCheck) :
    Option Failure :=
  if ¬(server.status = .draft ∨ server.status = .inactive) then
    some (conflict "Cannot activate server in its status; expected DRAFT or INACTIVE.")
  else if server.connectionDeferredEffective then
    some (conflict ("Cannot activate connection_deferred DRAFT MCP Server without endpoint_url. Set "
      ++ "a real endpoint, then Connection Test, before Activate."))
  else if server.isFactoryImported then
    if server.isConnectionDeferred || !server.hasUsableEndpoint then
      some (conflict ("Cannot activate Factory-imported MCP Server without a configured "
        ++ "non-deferred endpoint_url."))
    else if !server.connectionVerified env then
      some (conflict ("Cannot activate Factory-imported MCP Server without a SUCCEEDED Connection "
        ++ "Test for the current connection configuration."))
    else if !latest.any (·.status = .succeeded) then
      some (conflict ("Cannot activate Factory-imported MCP Server without a latest SUCCEEDED "
        ++ "Connection Test."))
    else if !server.discoveryVerified env then
      some (conflict ("Cannot activate Factory-imported MCP Server without a successful Factory "
        ++ "Discovery reconciliation for the current connection configuration."))
    else none
  else none

/-- `get_latest_check`: by the time of the check, then by its id. -/
def latestCheck (checks : List MCPServerCheck) : Option MCPServerCheck :=
  checks.foldl (fun best c => match best with
    | some b => if b.checkedAt < c.checkedAt ∨ (b.checkedAt = c.checkedAt ∧ b.id.int < c.id.int)
        then some c else some b
    | none => some c) none

/-! ### The checks -/

/-- What a connection test met. -/
inductive Probe where
  | authUnavailable
  | succeeded
  | clientError (timedOut : Bool)
  | raises

/-- `_reject_unsupported_transport`. -/
def rejectUnsupportedTransport (transport : MCPTransportType) : Option Failure :=
  match transport with
  | .stdio => some (.app ⟨"MCP_STDIO_UNSUPPORTED", ("STDIO MCP servers are executed only by "
    ++ "mcp-worker; HTTP connection-test and discovery are not supported on the API.")⟩)
  | .legacyHttpSse => some (.app ⟨"MCP_LEGACY_UNSUPPORTED",
      "Legacy HTTP+SSE MCP transport is not supported by this API."⟩)
  | .streamableHttp => none

/-- What `connection_test` refuses before it starts. -/
def connectionTestError (server : MCPServer) : Option Failure :=
  if server.connectionDeferredEffective then
    some (conflict ("Cannot Connection Test connection_deferred DRAFT MCP Server without "
      ++ "endpoint_url. Set a real endpoint first."))
  else rejectUnsupportedTransport server.connection.transportType

/-- The status of the check that a connection test records, if it records one. -/
def probeStatus (server : MCPServer) (probe : Probe) : Option MCPCheckStatus :=
  match probe with
  | .authUnavailable => some .failed
  | .raises => if truthy server.connection.endpointUrl then none else some .failed
  | .succeeded => some (if truthy server.connection.endpointUrl then .succeeded else .failed)
  | .clientError timedOut =>
    some (if timedOut ∧ truthy server.connection.endpointUrl then .timedOut else .failed)

/-- The status of a `FactoryReconcilePlan`. -/
inductive ReconcileStatus where
  | clean
  | mismatched
  | ambiguous
deriving DecidableEq, Repr

/-- What a discovery met: the remote tools, reconciled with the imported ones, or no tools. -/
inductive Remote where
  | listed (status : ReconcileStatus)
  | clientError
  | raises

/-- What `discover` refuses before it contacts the server. -/
def discoverError (env : Platform) (server : MCPServer) : Option Failure :=
  (rejectUnsupportedTransport server.connection.transportType).or <|
    if server.isFactoryImported && server.connectionDeferredEffective then
      some (conflict ("Cannot Discovery Factory connection_deferred DRAFT MCP Server without "
        ++ "endpoint_url. Set a real endpoint and pass Connection Test first."))
    else if server.isFactoryImported && !server.connectionVerified env then
      some (conflict ("Cannot Discovery Factory-imported MCP Server without a SUCCEEDED Connection "
        ++ "Test for the current connection configuration."))
    else if !truthy server.connection.endpointUrl then
      some (invalid "endpoint_url is required for HTTP discovery.")
    else none

/-- `_factory_apply_fingerprint_drift_error` finds a drift. -/
def applyFingerprintDrift (env : Platform) (locked : MCPServer) (testedFp : String) : Bool :=
  !(locked.verifiedConnectionFingerprint.isSome && locked.fingerprint env = testedFp &&
    locked.verifiedConnectionFingerprint = some (locked.fingerprint env))

/-- What a discovery does with the discovery fingerprint. -/
inductive DiscoveryWrite where
  | keep
  | clear
  | store
deriving DecidableEq, Repr

/-- `_discover_factory` and `_finalize_factory_discovery`. The lock of an apply answers with the
attributes that the session has loaded before. -/
def discoveryWrite (env : Platform) (server : MCPServer) (applyChanges : Bool) :
    Remote → DiscoveryWrite
  | .raises => .keep
  | .clientError => .clear
  | .listed status =>
    if applyChanges && applyFingerprintDrift env server (server.fingerprint env) then .clear
    else if status ≠ .clean then .clear
    else if applyChanges then .store
    else .keep

/-! ### RuntimeBindings -/

/-- `FactoryRuntimeBindingUpdate`: the members that the request sets, each with its value or
`null`. -/
structure FactoryRuntimeBindingUpdate where
  baseUrl : Option (Option String)
  authType : Option (Option MCPAuthType)
  authSecretId : Option (Option UUID)
  connectTimeoutMs : Option (Option ℤ)
  callTimeoutMs : Option (Option ℤ)
  maxResponseBytes : Option (Option ℤ)
  lockVersion : ℕ

/-- The secret member of an update: no credentials need no secret. -/
def FactoryRuntimeBindingUpdate.secretField (data : FactoryRuntimeBindingUpdate) :
    Option (Option UUID) :=
  if data.authType = some (some .none) then some none else data.authSecretId

/-- The auth type of an update is one that the runtime supports, and has its secret. -/
def FactoryRuntimeBindingUpdate.authAllowed (data : FactoryRuntimeBindingUpdate)
    (row : RuntimeBinding) : Bool :=
  match data.authType with
  | some (some .none) => true
  | some (some .bearer) | some (some .basic) =>
    (data.authSecretId.getD row.authSecretId).isSome
  | some (some _) => false
  | some none | none => true

namespace RuntimeBinding

/-- The columns that a call to the upstream depends on. -/
def executionRelevant (b : RuntimeBinding) :
    Option String × MCPAuthType × Option UUID × ℤ × ℤ × ℤ :=
  (b.baseUrl, b.authType, b.authSecretId, b.connectTimeoutMs, b.callTimeoutMs, b.maxResponseBytes)

/-- The members that `update_binding` sets; `validatedUrl` is the answer of
`validate_outbound_base_url` for the text of the request. A `null` in a column that allows none
fails at the database. -/
def withFields (row : RuntimeBinding) (data : FactoryRuntimeBindingUpdate)
    (validatedUrl : Option String) : Option RuntimeBinding := do
  let baseUrl ← match data.baseUrl with
    | none => some row.baseUrl
    | some none => some none
    | some (some _) => validatedUrl.map some
  let authType ← (required row.authType data.authType).toOption
  let connectTimeoutMs ← (required row.connectTimeoutMs data.connectTimeoutMs).toOption
  let callTimeoutMs ← (required row.callTimeoutMs data.callTimeoutMs).toOption
  let maxResponseBytes ← (required row.maxResponseBytes data.maxResponseBytes).toOption
  return { row with
    baseUrl, authType, connectTimeoutMs, callTimeoutMs, maxResponseBytes
    authSecretId := data.secretField.getD row.authSecretId }

/-- `update_binding` on the locked row. -/
def update (row : RuntimeBinding) (data : FactoryRuntimeBindingUpdate)
    (validatedUrl : Option String) : Option RuntimeBinding :=
  if row.lockVersion ≠ data.lockVersion ∨ row.status = .disabled ∨ !data.authAllowed row then none
  else (row.withFields data validatedUrl).map fun row' =>
    { row' with
      status := if row'.executionRelevant ≠ row.executionRelevant ∧ row.status = .ready then .draft
        else row.status
      lockVersion := row.lockVersion + 1 }

/-- `mark_ready` on the locked row; `validatedUrl` is the answer of `validate_outbound_base_url` for
the stored text. -/
def markReady (row : RuntimeBinding) (lockVersion : ℕ) (validatedUrl : Option String) :
    Option RuntimeBinding :=
  if row.lockVersion ≠ lockVersion ∨ row.status = .disabled ∨ !truthy row.baseUrl ∨
      (row.authType ≠ .none ∧ row.authSecretId = none) then none
  else validatedUrl.map fun url =>
    { row with baseUrl := some url, status := .ready, lockVersion := row.lockVersion + 1 }

/-- `disable_binding` on the locked row. -/
def disable (row : RuntimeBinding) (lockVersion : ℕ) : Option RuntimeBinding :=
  if row.lockVersion ≠ lockVersion then none
  else some { row with status := .disabled, lockVersion := row.lockVersion + 1 }

end RuntimeBinding

end McpFlow.Factory
