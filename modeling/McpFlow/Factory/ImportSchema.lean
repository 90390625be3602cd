import McpFlow.Execution.State
import McpFlow.Library.Dict
import McpFlow.Library.Except
import McpFlow.Library.Json
import McpFlow.Library.Text
import Mathlib.Data.List.Sort

/-!
# Package tools and their input schemas

A tool of a Generated Package, and `build_mcp_callable_input_schema`: the parameters and the request
body of the operation become the properties of one JSON Schema object.
-/

namespace McpFlow.Factory

open Json (Value)

/-- The case functions of the text library. -/
structure CaseFolding where
  casefold : String → String
  lower : String → String
  upper : String → String

/-- A tool of a Generated Package. A schema that the operation does not have is `null`. -/
structure PackageTool where
  candidateId : String
  operationKey : String
  method : String
  path : String
  operationId : Value
  summary : Value
  description : Value
  tags : List String
  deprecated : Bool
  parameters : List Value
  requestSchema : Value
  requestBodyRequired : Bool
  responseSchema : Value
deriving DecidableEq

/-- `FactoryImportSchemaError`. -/
def schemaInvalid (message : String) : AppError := ⟨"FACTORY_PACKAGE_SCHEMA_INVALID", message⟩

/-- A parameter of an operation. -/
structure PackageParameter where
  name : String
  location : String
  required : Bool
  schema : Value

/-- `_LOCATION_ORDER`. -/
def locationOrder : List String := ["path", "query", "header", "cookie"]

/-- The rank of a location. -/
def locationRank (location : String) : ℕ := locationOrder.idxOf location

/-- One entry of the package parameters. -/
def readParameter (entry : Value) : Except AppError PackageParameter :=
  if !entry.isObj then .error (schemaInvalid "Package parameters entries must be objects.")
  else match (entry.getD "name").str?, (entry.getD "location").str? with
    | some name, some location =>
      if !Text.nonBlank name then
        .error (schemaInvalid "Package parameter name must be a non-empty string.")
      else if location ∈ locationOrder then
        .ok ⟨name, location, (entry.getD "required").truthy, entry.getD "schema"⟩
      else .error
        (schemaInvalid "Package parameter location must be path, query, header, or cookie.")
    | some name, none =>
      .error (schemaInvalid (if Text.nonBlank name then
        "Package parameter location must be path, query, header, or cookie."
        else "Package parameter name must be a non-empty string."))
    | none, _ => .error (schemaInvalid "Package parameter name must be a non-empty string.")

/-- The order of the parameters. -/
def PackageParameter.before (a b : PackageParameter) : Prop :=
  locationRank a.location < locationRank b.location ∨
    (locationRank a.location = locationRank b.location ∧ a.name ≤ b.name)

instance : DecidableRel PackageParameter.before := fun _ _ => inferInstanceAs (Decidable (_ ∨ _ ∧ _))

/-- `_ordered_parameters`. -/
def orderedParameters (parameters : List Value) : Except AppError (List PackageParameter) := do
  let normalized ← parameters.mapM readParameter
  return normalized.insertionSort PackageParameter.before

/-- The properties so far. `seen` has the normalized names. -/
structure InputSchema where
  properties : Dict Value
  required : List String
  seen : List String

/-- `_normalize_property_name`. -/
def CaseFolding.normalizePropertyName (u : CaseFolding) (name : String) : String :=
  u.casefold (Text.strip name)

/-- The schema of a parameter, with its location. -/
def parameterSchema (p : PackageParameter) : Except AppError Value :=
  match p.schema with
  | .null => .ok (.obj (Dict.set [("type", .str "string")] "x-mcpflow-param-in" (.str p.location)))
  | .obj ms => .ok (.obj (Dict.set ms "x-mcpflow-param-in" (.str p.location)))
  | _ => .error (schemaInvalid "Package parameter schema must be an object when present.")

/-- One parameter becomes a property. -/
def InputSchema.addParameter (u : CaseFolding) (hasBody : Bool) (s : InputSchema)
    (p : PackageParameter) : Except AppError InputSchema := do
  let name := Text.strip p.name
  let normalized := u.normalizePropertyName name
  if name = "" ∨ normalized = "" then
    .error (schemaInvalid "Package parameter name must be a non-empty string.")
  else if normalized ∈ s.seen then
    .error (schemaInvalid "Package parameter name collision after normalize (strip/casefold)")
  else if hasBody ∧ normalized = u.normalizePropertyName "body" then
    .error (schemaInvalid "Package parameter name 'body' conflicts with request body mapping.")
  else
    let schema ← parameterSchema p
    return {
      properties := s.properties.set name schema
      required := if p.required then s.required ++ [name] else s.required
      seen := s.seen ++ [normalized] }

/-- The request body becomes the property `body`. -/
def InputSchema.addBody (u : CaseFolding) (s : InputSchema) (requestSchema : Value)
    (requestBodyRequired : Bool) : Except AppError InputSchema :=
  match requestSchema with
  | .null => .ok s
  | .obj ms =>
    if u.normalizePropertyName "body" ∈ s.seen ∨ (s.properties.get? "body").isSome then
      .error (schemaInvalid "Cannot map request_schema: property 'body' already exists.")
    else .ok {
      properties := s.properties.set "body" (.obj ms)
      required := if requestBodyRequired then s.required ++ ["body"] else s.required
      seen := s.seen ++ [u.normalizePropertyName "body"] }
  | _ => .error (schemaInvalid "Package request_schema must be an object when present.")

/-- The members of the schema. -/
def InputSchema.members (s : InputSchema) : List (String × Value) :=
  [("type", .str "object"), ("properties", .obj s.properties)] ++
    if s.required = [] then [] else [("required", .arr (s.required.map .str))]

/-- `build_mcp_callable_input_schema`. -/
def buildMcpCallableInputSchema (u : CaseFolding) (parameters : List Value) (requestSchema : Value)
    (requestBodyRequired : Bool) : Except AppError Value := do
  let ordered ← orderedParameters parameters
  let s ← ordered.foldlM (InputSchema.addParameter u (!requestSchema.isNull)) ⟨[], [], []⟩
  let s ← s.addBody u requestSchema requestBodyRequired
  return .obj s.members

/-- The input schema of a package tool. -/
def PackageTool.inputSchema (u : CaseFolding) (tool : PackageTool) : Except AppError Value :=
  buildMcpCallableInputSchema u tool.parameters tool.requestSchema tool.requestBodyRequired

/-- An input schema is an object with a type. -/
theorem hasKey_type_of_inputSchema {u : CaseFolding} {tool : PackageTool} {schema : Value}
    (h : tool.inputSchema u = .ok schema) :
    ∃ ms, schema = .obj ms ∧ "type" ∈ ms.map Prod.fst ∧ (ms.map Prod.fst).Nodup := by
  simp only [PackageTool.inputSchema, buildMcpCallableInputSchema, Except.bind_eq_ok_iff] at h
  obtain ⟨_, -, _, -, s, -, h⟩ := h
  cases h
  refine ⟨s.members, rfl, ?_, ?_⟩
  · exact List.mem_map_of_mem (List.mem_append_left _ List.mem_cons_self)
  · unfold InputSchema.members
    split
    · simp
    · simp

end McpFlow.Factory
