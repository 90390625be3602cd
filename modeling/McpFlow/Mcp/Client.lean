import McpFlow.Execution.RetryDecision
import McpFlow.Library.Dict
import McpFlow.Mcp.Http

/-!
# The `tools/call` of the MCP client

`CurrentMCPClient.call_tool`: the request it posts, the loop that reads the body, and the chain of
checks that maps everything but a result to an `MCPClientError` with a certainty of its outcome.
-/

namespace McpFlow.Mcp

open Json (Value)

/-! ### The request -/

/-- The arguments of `call_tool`. -/
structure CallArgs where
  endpoint : String
  toolName : String
  arguments : Dict Value
  timeoutMs : ℕ
  remoteRequestId : String
  authHeaders : Dict String
  maxResultBytes : Option ℕ
  inputResponses : Option (Dict Value)
  requestState : Value
  includeMrtrResume : Bool
deriving DecidableEq

/-- `CURRENT_MCP_PROTOCOL_VERSION`. -/
def protocolVersion : String := "2026-07-28"

/-- `_build_headers`. -/
def buildHeaders (method : String) (mcpName : String) : Dict String :=
  [("MCP-Protocol-Version", protocolVersion), ("Mcp-Method", method),
    ("Content-Type", "application/json"), ("Accept", "application/json, text/event-stream")] ++
    if mcpName = "" then [] else [("Mcp-Name", mcpName)]

/-- `_build_params`. -/
def buildParams (extra : Dict Value) : Dict Value :=
  let clientMeta := Value.obj
    [("io.modelcontextprotocol/protocolVersion", .str protocolVersion),
      ("io.modelcontextprotocol/clientCapabilities", .obj []),
      ("io.modelcontextprotocol/clientInfo",
        .obj [("name", .str "mcpflow"), ("version", .str "0.1.0")])]
  extra.foldl (fun params p => params.set p.1 p.2) [("_meta", clientMeta)]

/-- `_build_body`. -/
def buildBody (method : String) (params : Dict Value) (requestId : String) : Value :=
  .obj [("jsonrpc", .str "2.0"), ("id", .str requestId), ("method", .str method),
    ("params", .obj params)]

/-- An MRTR resume without input responses is refused before anything is sent. -/
def CallArgs.refused (args : CallArgs) : Bool :=
  args.includeMrtrResume && (args.inputResponses.getD []).isEmpty

/-- The POST of a `tools/call`. -/
def CallArgs.request (args : CallArgs) : HttpRequest where
  endpoint := args.endpoint
  headers := args.authHeaders.foldl (fun headers p => Dict.set headers p.1 p.2)
    (buildHeaders "tools/call" args.toolName)
  body :=
    let extra : Dict Value := [("name", .str args.toolName), ("arguments", .obj args.arguments)]
    let extra := if args.includeMrtrResume then
        (extra.set "inputResponses" (.obj (args.inputResponses.getD []))).set "requestState"
          args.requestState
      else extra
    buildBody "tools/call" (buildParams extra) args.remoteRequestId
  timeoutMs := args.timeoutMs

/-! ### Errors -/

/-- An `MCPClientError` of the client. -/
def clientError (errorLayer errorCode : String) (retryable outcomeUnknown : Bool) :
    McpClientError :=
  ⟨errorLayer, errorCode, retryable, outcomeUnknown, false⟩

/-- `_map_http_error`. -/
def mapHttpError (statusCode : ℕ) (outcomeUnknown : Bool) : McpClientError :=
  if statusCode = 401 ∨ statusCode = 403 then clientError "AUTH" "MCP_AUTH_FAILED" false false
  else if 400 ≤ statusCode ∧ statusCode < 500 then
    clientError "PROTOCOL" "MCP_HTTP_CLIENT_ERROR" false false
  else clientError "NETWORK" "MCP_HTTP_SERVER_ERROR" true outcomeUnknown

/-- `_map_transport_error`. -/
def mapTransportError (e : HttpException) (requestSent : Bool) : McpClientError :=
  if e.isInstance .connectTimeout || e.isInstance .poolTimeout then
    clientError "TIMEOUT" "MCP_CONNECTION_TIMEOUT" true false
  else if e.isInstance .connectError then clientError "NETWORK" "MCP_NETWORK_ERROR" true false
  else if e.isInstance .readTimeout || e.isInstance .writeTimeout then
    clientError "TIMEOUT" "MCP_CONNECTION_TIMEOUT" true true
  else if e.isInstance .readError || e.isInstance .writeError then
    clientError "NETWORK" "MCP_NETWORK_ERROR" true true
  else if e.isInstance .timeoutException then
    clientError "TIMEOUT" "MCP_CONNECTION_TIMEOUT" true requestSent
  else if e.isInstance .networkError then
    clientError "NETWORK" "MCP_NETWORK_ERROR" true requestSent
  else clientError "PROTOCOL" "MCP_PROTOCOL_ERROR" false false

/-- `MCPResultTooLargeError`. -/
def resultTooLarge : McpClientError := clientError "PROTOCOL" "MCP_RESULT_TOO_LARGE" false true

/-- An `MCPClientError` of the PROTOCOL layer about a body that arrived. -/
def malformed (errorCode : String) : McpClientError := clientError "PROTOCOL" errorCode false true

/-- What ends `call_tool` without a result. -/
inductive CallFailure where
  | mcp (e : McpClientError)
  /-- A `RecursionError`, which no handler of the client catches. -/
  | recursionError
deriving DecidableEq

/-! ### The response -/

/-- The loop over the chunks of the body, with the bytes read so far. -/
def readBody (maxResultBytes : Option ℕ) (raw : List UInt8) :
    List (List UInt8) → Except McpClientError (List UInt8)
  | [] => .ok raw
  | chunk :: chunks =>
    if chunk.isEmpty then readBody maxResultBytes raw chunks
    else
      let raw := raw ++ chunk
      if maxResultBytes.any (· < raw.length) then .error resultTooLarge
      else readBody maxResultBytes raw chunks

/-- `_validate_jsonrpc_envelope` of a `tools/call`. -/
def validateJsonrpcEnvelope (payload : Value) (requestId : String) :
    Except McpClientError Value :=
  if !payload.isObj then .error (malformed "MCP_INVALID_JSONRPC")
  else if payload.getD "jsonrpc" ≠ .str "2.0" then .error (malformed "MCP_INVALID_JSONRPC")
  else if payload.getD "id" ≠ .str requestId then .error (malformed "MCP_INVALID_JSONRPC")
  else if payload.hasKey "result" = payload.hasKey "error" then
    .error (malformed "MCP_INVALID_JSONRPC")
  else if payload.hasKey "error" ∧ !(payload.getD "error").isObj then
    .error (malformed "MCP_INVALID_JSONRPC")
  else .ok payload

/-- `NormalizedToolResult`. -/
structure NormalizedToolResult where
  toolError : Bool
  content : List Value
  structuredContent : Value
  metadata : Value
  taskHandle : Option String
  rawSizeBytes : ℕ
  resultType : Option String
deriving DecidableEq

/-- `NormalizedInputRequired`. -/
structure NormalizedInputRequired where
  inputRequests : Dict Value
  requestState : Value
  rawSizeBytes : ℕ
deriving DecidableEq

/-- A completed `tools/call`. -/
inductive CallResult where
  | toolResult (r : NormalizedToolResult)
  | inputRequired (r : NormalizedInputRequired)
deriving DecidableEq

/-- `_normalize_input_required`. -/
def normalizeInputRequired (result : Value) (rawSizeBytes : ℕ) :
    Except McpClientError NormalizedInputRequired :=
  if !result.hasKey "requestState" then .error (malformed "MCP_INVALID_INPUT_REQUIRED")
  else if !result.hasKey "inputRequests" then .error (malformed "MCP_INVALID_INPUT_REQUIRED")
  else match (result.getD "inputRequests").members? with
    | none | some [] => .error (malformed "MCP_INVALID_INPUT_REQUIRED")
    | some (m :: ms) => .ok
      { inputRequests := m :: ms
        requestState := result.getD "requestState"
        rawSizeBytes := rawSizeBytes }

/-- The `result` of a valid envelope. -/
def normalizeResult (result : Value) (rawSizeBytes : ℕ) : Except McpClientError CallResult :=
  if !result.isObj then .error (malformed "MCP_INVALID_TOOL_RESULT")
  else if result.getD "resultType" = .str "input_required" then
    (normalizeInputRequired result rawSizeBytes).map .inputRequired
  else
    let content := if (result.getD "content").isNull then .arr [] else result.getD "content"
    match content.arr? with
    | none => .error (malformed "MCP_INVALID_TOOL_RESULT")
    | some items =>
      let structured := result.getD "structuredContent"
      if !structured.isNull ∧ !structured.isObj ∧ structured.arr?.isNone then
        .error (malformed "MCP_INVALID_TOOL_RESULT")
      else .ok (.toolResult
        { toolError := ((result.get? "isError").getD (.bool false)).truthy
          content := items
          structuredContent := structured
          metadata := if (result.getD "_meta").isObj then result.getD "_meta" else .obj []
          taskHandle := (result.getD "taskHandle").str?
          rawSizeBytes := rawSizeBytes
          resultType := (result.getD "resultType").str? })

/-- The body of a response without an error status. -/
def readPayload (requestId : String) (rawSizeBytes : ℕ) (payload : Value) :
    Except McpClientError CallResult :=
  match validateJsonrpcEnvelope payload requestId with
  | .error e => .error e
  | .ok envelope =>
    if !(envelope.getD "error").isNull then
      .error (clientError "PROTOCOL" "MCP_JSONRPC_ERROR" false false)
    else normalizeResult (envelope.getD "result") rawSizeBytes

/-- `call_tool`, over the HTTP client `http` and the decoder `loads`. -/
def callTool (http : HttpRequest → Exchange) (loads : List UInt8 → Decoded) (args : CallArgs) :
    Except CallFailure CallResult :=
  if args.refused then .error (.mcp (clientError "PROTOCOL" "MCP_INVALID_MRTR_RESUME" false false))
  else match http args.request with
    | .unsent e => .error (.mcp (mapTransportError e false))
    | .unanswered e => .error (.mcp (mapTransportError e.1 false))
    | .answered statusCode chunks broken =>
      match readBody args.maxResultBytes [] chunks with
      | .error e => .error (.mcp e)
      | .ok raw =>
        match broken with
        | some e => .error (.mcp (mapTransportError e.1 true))
        | none =>
          if 400 ≤ statusCode then .error (.mcp (mapHttpError statusCode (500 ≤ statusCode)))
          else match loads raw with
            | .valueError => .error (.mcp (malformed "MCP_INVALID_JSON"))
            | .recursionError => .error .recursionError
            | .value payload =>
              (readPayload args.remoteRequestId raw.length payload).mapError .mcp

end McpFlow.Mcp
