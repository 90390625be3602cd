import McpFlow.Factory.Assets
import McpFlow.Library.Uuid

/-!
# Analyzed operations and generated packages

What the analyzer keeps of an operation of an OpenAPI document whose references are resolved, the
candidate tools of a Build, and the package payload that `build_generated_package` makes of them.
-/

namespace McpFlow.Factory

open Json (Value)

/-! ### Parameters -/

/-- `FactoryParameterLocation`. -/
inductive ParameterLocation where
  | path
  | query
  | header
  | cookie
deriving DecidableEq, Repr

/-- The text of a location. -/
def ParameterLocation.text : ParameterLocation → String
  | .path => "path"
  | .query => "query"
  | .header => "header"
  | .cookie => "cookie"

/-- `_PARAM_LOCATIONS`. -/
def ParameterLocation.parse? (location : Value) : Option ParameterLocation :=
  [ParameterLocation.path, .query, .header, .cookie].find? fun l => location = .str l.text

/-- `_PARAM_LOCATION_ORDER`. -/
def ParameterLocation.order : ParameterLocation → ℕ
  | .path => 0
  | .query => 1
  | .header => 2
  | .cookie => 3

/-- `_bound_str`. -/
def boundStr (value : Value) (maxLen : ℕ) : Option String :=
  value.str?.bind fun s =>
    let trimmed := Text.strip s
    if trimmed = "" then none else some (String.ofList (trimmed.toList.take maxLen))

/-- `FactoryParameterCandidate`. -/
@[ext]
structure ParameterCandidate where
  name : String
  location : ParameterLocation
  required : Bool
  schema : Option (Dict Value)
  named : Text.nonBlank name = true

instance : DecidableEq ParameterCandidate := fun _ _ =>
  decidable_of_iff _ ParameterCandidate.ext_iff.symm

/-- A failed analysis. -/
def structureInvalid (message : String) : AppError := ⟨"FACTORY_OPENAPI_STRUCTURE_INVALID", message⟩

/-- A bounded text is not blank. -/
theorem nonBlank_of_boundStr {value : Value} {maxLen : ℕ} (hmax : 0 < maxLen) {s : String}
    (h : boundStr value maxLen = some s) : Text.nonBlank s = true := by
  obtain ⟨raw, -, h⟩ := Option.bind_eq_some_iff.mp h
  dsimp only at h
  split at h
  · cases h
  next hne =>
    cases h
    exact Text.nonBlank_take_strip hmax hne

/-- `_normalize_parameter`, of a resolved parameter with a normalized schema. -/
def normalizeParameter (resolved : Value) : Except AppError ParameterCandidate :=
  match hname : boundStr (resolved.getD "name") 256 with
  | none => .error (structureInvalid "OpenAPI parameter name is required.")
  | some name =>
    match ParameterLocation.parse? (resolved.getD "in") with
    | none => .error (structureInvalid
        "OpenAPI parameter in must be path, query, header, or cookie.")
    | some location =>
      let requiredRaw := resolved.getD "required"
      if !requiredRaw.isNull && requiredRaw.bool?.isNone then
        .error (structureInvalid "OpenAPI parameter required must be a boolean when present.")
      else
        -- path parameters are always required
        let required := location = .path || requiredRaw.truthy
        match resolved.getD "schema" with
        | .null => .ok ⟨name, location, required, none, nonBlank_of_boundStr (by decide) hname⟩
        | .obj ms => .ok ⟨name, location, required, some ms, nonBlank_of_boundStr (by decide) hname⟩
        | _ => .error (structureInvalid "OpenAPI schema must resolve to an object.")

/-- The identity of a parameter. -/
def ParameterCandidate.key (p : ParameterCandidate) : String × ParameterLocation :=
  (p.name, p.location)

/-- The order of the parameters. -/
def ParameterCandidate.before (a b : ParameterCandidate) : Prop :=
  a.location.order < b.location.order ∨ (a.location.order = b.location.order ∧ a.name ≤ b.name)

instance : DecidableRel ParameterCandidate.before := fun _ _ =>
  inferInstanceAs (Decidable (_ ∨ _ ∧ _))

/-- `merged[(name, location)] = candidate`. -/
def mergeParameter (merged : List ParameterCandidate) (p : ParameterCandidate) :
    List ParameterCandidate :=
  merged.filter (·.key ≠ p.key) ++ [p]

/-- `_normalize_parameter_list`. -/
def normalizeParameterList (raw : Value) : Except AppError (List ParameterCandidate) :=
  match raw with
  | .null => .ok []
  | .arr entries =>
    if 128 < entries.length then
      .error ⟨"FACTORY_ANALYSIS_LIMIT_EXCEEDED", "OpenAPI parameters exceed maximum of 128."⟩
    else entries.mapM normalizeParameter
  | _ => .error (structureInvalid "OpenAPI parameters must be a list when present.")

/-- `_extract_parameters`: an operation-level parameter overrides the path-level one. -/
def extractParameters (pathParameters operationParameters : Value) :
    Except AppError (List ParameterCandidate) := do
  let pathLevel ← normalizeParameterList pathParameters
  let operationLevel ← normalizeParameterList operationParameters
  let merged := (pathLevel ++ operationLevel).foldl mergeParameter []
  if 128 < merged.length then
    .error ⟨"FACTORY_ANALYSIS_LIMIT_EXCEEDED",
      "OpenAPI operation parameters exceed maximum of 128."⟩
  else return merged.insertionSort ParameterCandidate.before

theorem nodup_mergeParameter {merged : List ParameterCandidate} {p : ParameterCandidate}
    (h : (merged.map ParameterCandidate.key).Nodup) :
    ((mergeParameter merged p).map ParameterCandidate.key).Nodup := by
  rw [mergeParameter, List.map_append, List.map_singleton, List.nodup_append]
  refine ⟨h.sublist (List.filter_sublist.map _), List.nodup_singleton _, fun a ha b hb => ?_⟩
  obtain ⟨q, hq, rfl⟩ := List.mem_map.mp ha
  obtain rfl := List.mem_singleton.mp hb
  simpa using (List.mem_filter.mp hq).2

/-- The parameters of an operation are distinct as pairs of a name and a location. -/
theorem nodup_extractParameters {pathParameters operationParameters : Value}
    {parameters : List ParameterCandidate}
    (h : extractParameters pathParameters operationParameters = .ok parameters) :
    (parameters.map ParameterCandidate.key).Nodup := by
  have hfold : ∀ (ps merged : List ParameterCandidate),
      (merged.map ParameterCandidate.key).Nodup →
      ((ps.foldl mergeParameter merged).map ParameterCandidate.key).Nodup := by
    intro ps
    induction ps with
    | nil => exact fun _ hmerged => hmerged
    | cons p ps ih => exact fun merged hmerged => ih _ (nodup_mergeParameter hmerged)
  simp only [extractParameters, Except.bind_eq_ok_iff] at h
  obtain ⟨pathLevel, -, operationLevel, -, h⟩ := h
  split at h
  · cases h
  · cases h
    exact ((List.perm_insertionSort _ _).map _).nodup_iff.mpr (hfold _ [] List.nodup_nil)

/-! ### Operations -/

/-- `_HTTP_METHODS`. -/
inductive HttpMethod where
  | get
  | put
  | post
  | delete
  | options
  | head
  | patch
  | trace
deriving DecidableEq, Repr

/-- `method.upper()`. -/
def HttpMethod.text : HttpMethod → String
  | .get => "GET"
  | .put => "PUT"
  | .post => "POST"
  | .delete => "DELETE"
  | .options => "OPTIONS"
  | .head => "HEAD"
  | .patch => "PATCH"
  | .trace => "TRACE"

/-- `MAX_PATH_LEN`. -/
def maxPathLen : ℕ := 504

/-- `FactoryOperationCandidate`. -/
structure OperationCandidate where
  method : HttpMethod
  path : String
  operationId : Option String
  summary : Option String
  description : Option String
  tags : List String
  deprecated : Bool
  parameters : List ParameterCandidate
  requestSchema : Option (Dict Value)
  requestBodyRequired : Bool
  responseSchema : Option (Dict Value)
  rooted : path.toList.head? = some '/'
  bounded : path.toList.length ≤ maxPathLen
  distinct : (parameters.map ParameterCandidate.key).Nodup
deriving DecidableEq

/-- `f"{METHOD} {path}"`. -/
def OperationCandidate.operationKey (o : OperationCandidate) : String :=
  o.method.text ++ " " ++ o.path

/-- An operation of a document whose references are resolved, with what `_extract_request_schema` and
`_extract_response_schema` find in it. -/
structure ResolvedOperation where
  method : HttpMethod
  path : String
  pathParameters : Value
  operation : Value
  requestSchema : Option (Dict Value)
  requestBodyRequired : Bool
  responseSchema : Option (Dict Value)

/-- `_parse_tags`. -/
def parseTags (raw : Value) : Except AppError (List String) :=
  match raw with
  | .null => .ok []
  | .arr items =>
    if 32 < items.length then
      .error ⟨"FACTORY_ANALYSIS_LIMIT_EXCEEDED", "OpenAPI operation tags exceed maximum of 32."⟩
    else .ok (items.filterMap (boundStr · 128))
  | _ => .error (structureInvalid "OpenAPI operation tags must be a list when present.")

/-- The candidate of one operation, as `_parse_operations` makes it. -/
def analyzeOperation (r : ResolvedOperation) : Except AppError OperationCandidate :=
  if hrooted : r.path.toList.head? = some '/' then
    if hbounded : r.path.toList.length ≤ maxPathLen then
      match parseTags (r.operation.getD "tags") with
      | .error e => .error e
      | .ok tags =>
        match hparameters : extractParameters r.pathParameters (r.operation.getD "parameters") with
        | .error e => .error e
        | .ok parameters => .ok {
            method := r.method
            path := r.path
            operationId := boundStr (r.operation.getD "operationId") 256
            summary := boundStr (r.operation.getD "summary") 512
            description := boundStr (r.operation.getD "description") 2000
            tags
            deprecated := (r.operation.getD "deprecated").truthy
            parameters
            requestSchema := r.requestSchema
            requestBodyRequired := r.requestBodyRequired
            responseSchema := r.responseSchema
            rooted := hrooted
            bounded := hbounded
            distinct := nodup_extractParameters hparameters }
    else .error ⟨"FACTORY_ANALYSIS_LIMIT_EXCEEDED", "OpenAPI path exceeds maximum length of 504."⟩
  else .error (structureInvalid "OpenAPI path keys must be strings that start with '/'.")

/-- An operation key fits its column. -/
theorem OperationCandidate.length_operationKey (o : OperationCandidate) :
    o.operationKey.toList.length ≤ 512 := by
  have hpath := o.bounded
  have hmethod : o.method.text.toList.length ≤ 7 := by
    cases o.method <;> decide
  have hspace : " ".toList.length = 1 := rfl
  rw [operationKey, String.toList_append, String.toList_append, List.length_append,
    List.length_append, hspace]
  unfold maxPathLen at hpath
  omega

/-! ### Builds -/

/-- The lineage that a Build gives its package. -/
structure BuildLineage where
  buildId : UUID
  buildInputHash : String
  jobId : UUID
  analysisArtifactId : UUID
  sourceSha256 : Sha256Hex
  analyzerVersion : String

/-- A row of `tool_factory_candidates`. -/
structure Candidate where
  id : UUID
  operation : OperationCandidate
deriving DecidableEq

/-- A Build: selected candidates of one job. The operation keys of a job are unique. -/
structure Build where
  lineage : BuildLineage
  candidates : List Candidate
  selected : candidates ≠ []
  ids : (candidates.map Candidate.id).Nodup
  keys : (candidates.map (·.operation.operationKey)).Nodup

/-- The order of the tools. -/
def Candidate.before (a b : Candidate) : Prop :=
  a.operation.operationKey < b.operation.operationKey ∨
    (a.operation.operationKey = b.operation.operationKey ∧ a.id.toString ≤ b.id.toString)

instance : DecidableRel Candidate.before := fun _ _ => inferInstanceAs (Decidable (_ ∨ _ ∧ _))

/-- The candidates in the order of their tools. -/
def Build.sorted (b : Build) : List Candidate := b.candidates.insertionSort Candidate.before

/-- A schema column. -/
def ofSchema : Option (Dict Value) → Value
  | some ms => .obj ms
  | none => .null

/-- `p.model_dump(mode="json")`. -/
def ParameterCandidate.dump (p : ParameterCandidate) : Value :=
  .obj [("name", .str p.name), ("location", .str p.location.text), ("required", .bool p.required),
    ("schema", ofSchema p.schema)]

/-- `_candidate_contract_snapshot`, which `_tool_contract_from_snapshot` copies. -/
def Candidate.toolContract (l : BuildLineage) (c : Candidate) : Value :=
  .obj [("candidate_id", .str c.id.toString), ("job_id", .str l.jobId.toString),
    ("analysis_artifact_id", .str l.analysisArtifactId.toString),
    ("source_sha256", .str l.sourceSha256.val), ("analyzer_version", .str l.analyzerVersion),
    ("operation_key", .str c.operation.operationKey), ("method", .str c.operation.method.text),
    ("path", .str c.operation.path), ("operation_id", Value.ofOptionStr c.operation.operationId),
    ("summary", Value.ofOptionStr c.operation.summary),
    ("description", Value.ofOptionStr c.operation.description),
    ("tags", .arr (c.operation.tags.map .str)), ("deprecated", .bool c.operation.deprecated),
    ("parameters", .arr (c.operation.parameters.map ParameterCandidate.dump)),
    ("request_schema", ofSchema c.operation.requestSchema),
    ("request_body_required", .bool c.operation.requestBodyRequired),
    ("response_schema", ofSchema c.operation.responseSchema)]

/-- `PACKAGE_KIND`. -/
def packageKind : String := "FACTORY_GENERATED_PACKAGE"

/-- `PACKAGE_SCHEMA_VERSION`. -/
def packageSchemaVersion : String := "factory-generated-package-v1"

/-- `FACTORY_PACKAGE_GENERATOR_VERSION`. -/
def factoryPackageGeneratorVersion : String := "factory-package-generator-v1"

/-- `build_generated_package`: the payload. -/
def Build.package (b : Build) (buildGeneratorVersion : String) : Value :=
  .obj [("schema_version", .int 1), ("kind", .str packageKind),
    ("package_schema_version", .str packageSchemaVersion),
    ("generator_version", .str factoryPackageGeneratorVersion),
    ("build", .obj [("build_id", .str b.lineage.buildId.toString),
      ("build_input_hash", .str b.lineage.buildInputHash),
      ("build_generator_version", .str buildGeneratorVersion),
      ("job_id", .str b.lineage.jobId.toString),
      ("analysis_artifact_id", .str b.lineage.analysisArtifactId.toString),
      ("source_sha256", .str b.lineage.sourceSha256.val),
      ("analyzer_version", .str b.lineage.analyzerVersion)]),
    ("tool_count", .int b.candidates.length),
    ("tools", .arr (b.sorted.map (Candidate.toolContract b.lineage)))]

end McpFlow.Factory
