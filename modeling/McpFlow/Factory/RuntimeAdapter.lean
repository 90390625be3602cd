import McpFlow.Factory.Reconcile
import McpFlow.Library.Percent

/-!
# The declarative HTTP adapter

The runtime of an imported package maps the arguments of a call to the parts of one HTTP request:
path parameters, query, headers and the JSON body. The reviewed input schema says where each
argument belongs, and nothing of the argument object chooses the method or the path template.
-/

namespace McpFlow.Factory

open Json (Value)

/-- `FACTORY_RUNTIME_INPUT_INVALID`. -/
def inputInvalid (message : String) : AppError := ⟨"FACTORY_RUNTIME_INPUT_INVALID", message⟩

/-- `FACTORY_RUNTIME_CREDENTIAL_PARAM_FORBIDDEN`. -/
def credentialParamForbidden (message : String) : AppError :=
  ⟨"FACTORY_RUNTIME_CREDENTIAL_PARAM_FORBIDDEN", message⟩

/-- `_PARAM_IN`. -/
def paramIn : String := "x-mcpflow-param-in"

/-- `_ALLOWED_LOCATIONS`. -/
def allowedLocations : List String := ["path", "query", "header", "cookie"]

/-- `validate_tool_arguments`; `validate` is the JSON Schema validator. -/
def validateToolArguments (validate : Value → Value → Bool) (inputSchema : Value)
    (arguments : Dict Value) : Except AppError Unit :=
  let closed :=
    match inputSchema, inputSchema.getD "properties" with
    | .obj ms, .obj _ =>
      if (ms.lookup "additionalProperties").isSome then inputSchema
      else .obj (ms ++ [("additionalProperties", .bool false)])
    | schema, _ => schema
  if validate closed (.obj arguments) then .ok ()
  else .error (inputInvalid "Tool arguments failed schema validation")

/-! ### Path templates -/

/-- A piece of a path template. -/
inductive Token where
  | lit (c : Char)
  | placeholder (name : String)
deriving DecidableEq

/-- The matches of `_PATH_PARAM_RE` and the characters around them; `buf` is what has been read
since an opening brace. -/
def scanTemplate : Option (List Char) → List Char → List Token
  | none, [] => []
  | some buf, [] => ('{' :: buf).map .lit
  | none, c :: cs => if c = '{' then scanTemplate (some []) cs else .lit c :: scanTemplate none cs
  | some buf, c :: cs =>
    if c = '{' then ('{' :: buf).map .lit ++ scanTemplate (some []) cs
    else if c = '}' then
      if buf = [] then .lit '{' :: .lit '}' :: scanTemplate none cs
      else .placeholder (String.ofList buf) :: scanTemplate none cs
    else scanTemplate (some (buf ++ [c])) cs

/-- The pieces of a template. -/
def templateTokens (template : String) : List Token := scanTemplate none template.toList

/-- The name of a placeholder. -/
def Token.name? : Token → Option String
  | .lit _ => none
  | .placeholder name => some name

/-- The text of a piece; a placeholder has the encoded parameter. -/
def Token.render (params : Dict String) : Token → List Char
  | .lit c => [c]
  | .placeholder name => Percent.quote ((params.get? name).getD "")

/-- `_render_path`. -/
def renderPath (template : String) (pathParams : Dict String) : Except AppError (List Char) :=
  let names := (templateTokens template).filterMap Token.name?
  if names.any fun name => (pathParams.get? name).isNone then
    .error (inputInvalid "Missing path parameters")
  else if pathParams.keys.any fun name => name ∉ names then
    .error (inputInvalid "Unexpected path parameters")
  else .ok ((templateTokens template).flatMap (Token.render pathParams))

/-! ### Arguments -/

/-- `_stringify_param`; `floatText` is the `repr` of floats. -/
def stringifyParam (floatText : ℚ → String) : Value → Except AppError String
  | .arr _ | .obj _ => .error (inputInvalid
      "Structured parameter values are not supported for path/query/header/cookie.")
  | .null => .error (inputInvalid "Null parameter values are not supported.")
  | .bool b => .ok (if b then "True" else "False")
  | .int i => .ok (toString i)
  | .float q => .ok (floatText q)
  | .str s => .ok s

/-- The parts that the loop of `map_arguments_to_http` fills. -/
structure ArgumentParts where
  pathParams : Dict String
  query : Dict String
  headers : Dict String
  body : Option Value

/-- The location that the reviewed schema has for an argument. -/
def locationOf (props : Dict Value) (key : String) : Option String :=
  (props.get? key).bind fun schema => (schema.getD paramIn).str?

/-- One turn of the loop. -/
def mapArgument (u : CaseFolding) (floatText : ℚ → String) (props : Dict Value)
    (parts : ArgumentParts) (arg : String × Value) : Except AppError ArgumentParts :=
  if arg.1 = "body" then .ok { parts with body := some arg.2 }
  else
    match locationOf props arg.1 with
    | none => .error (inputInvalid "Argument has no reviewed x-mcpflow-param-in location.")
    | some location =>
      if location ∉ allowedLocations then
        .error (inputInvalid "Argument has no reviewed x-mcpflow-param-in location.")
      else if location = "cookie" then
        .error (credentialParamForbidden
          "Cookie parameter mapping is forbidden on Factory runtime foundation.")
      else if location = "header" ∧ u.isReservedHeader arg.1 then
        .error (credentialParamForbidden "Header is a reserved credential transport name.")
      else do
        let rendered ← stringifyParam floatText arg.2
        if location = "path" then
          return { parts with pathParams := parts.pathParams.set arg.1 rendered }
        else if location = "query" then
          return { parts with query := parts.query.set arg.1 rendered }
        else return { parts with headers := parts.headers.set arg.1 rendered }

/-- The answer of `map_arguments_to_http`: the parts, and the path that is rendered from
`path_params`. No cookie is ever set. -/
structure HttpArguments extends ArgumentParts where
  path : List Char

/-- `map_arguments_to_http`. -/
def mapArgumentsToHttp (u : CaseFolding) (floatText : ℚ → String)
    (contract : DeclarativeToolContract) (arguments : Dict Value) :
    Except AppError HttpArguments := do
  assertSafeRuntimeParamMapping u [] contract.inputSchema
  let props ←
    match contract.inputSchema.getD "properties" with
    | .null => .ok []
    | .obj props => .ok props
    | _ => .error (inputInvalid "Reviewed input_schema.properties must be an object.")
  let parts ← arguments.foldlM (mapArgument u floatText props) ⟨[], [], [], none⟩
  if contract.requestBodyRequired ∧ parts.body = none then
    .error (inputInvalid "Reviewed contract requires request body property 'body'.")
  else
    let path ← renderPath contract.pathTemplate parts.pathParams
    return { parts with path := path }

/-! ### The request -/

/-- The JSON document that is sent as the content of the request. -/
def requestContent (body : Option Value) : Option Value := body.filter fun v => !v.isNull

/-- The headers of the request: those of the arguments, the credentials, and the content type. -/
def requestHeaders (u : CaseFolding) (headers authHeaders : Dict String) (content : Option Value) :
    Dict String :=
  let merged := authHeaders.foldl (fun headers p =>
    if u.lower p.1 = "authorization" ∨ u.lower p.1 = "cookie" then headers.set p.1 p.2
    else headers.setDefault p.1 p.2) headers
  if content.isSome then merged.setDefault "Content-Type" "application/json" else merged

end McpFlow.Factory
