import Mathlib.Data.List.Infix
import McpFlow.Factory.Candidate

/-!
# The sandbox test of a package

`run_security_checks` and `run_contract_checks`, which a TestRun makes of the payload of a Generated
Package. Neither executes the package.
-/

namespace McpFlow.Factory

open Json (Value)

/-- A row of `tool_factory_generated_packages`. -/
structure GeneratedPackage (δ : Type) where
  lineage : BuildLineage
  packageSizeBytes : ℕ
  packageContentSha256 : δ
  generatorVersion : String
  packageSchemaVersion : String
  toolCount : ℕ

/-- The bytes of a package in the object storage: their number and what they decode to. -/
structure StoredObject where
  size : ℕ
  payload : Value

section Security

/-! ### Security -/

/-- `_FORBIDDEN_TOOL_KEYS`. -/
def forbiddenToolKeys : List String :=
  ["command", "script", "executable", "install", "subprocess", "shell", "docker", "dockerfile",
    "entrypoint", "cmd", "process", "spawn", "env", "environment", "secrets", "secret", "password",
    "api_key", "apikey", "authorization", "auth_header", "bearer", "private_key", "credential",
    "credentials", "token", "access_token", "refresh_token", "client_secret", "raw_source",
    "openapi"]

/-- `_SECRETISH_SUBSTRINGS`. -/
def secretishSubstrings : List String :=
  ["authorization:", "bearer ", "api_key=", "apikey=", "client_secret=", "password=", "-----begin "]

/-- `needle in text`. -/
def isSubstring (needle text : String) : Bool := needle.toList <:+: text.toList

variable (u : CaseFolding)

mutual
/-- `_walk_forbidden`: the path of the first forbidden content. -/
def walkForbidden (path : String) : Value → Option String
  | .obj ms => walkForbiddenMembers path ms
  | .arr items => walkForbiddenItems path 0 items
  | .str s => if secretishSubstrings.any (isSubstring · (u.lower s)) then some path else none
  | _ => none

/-- `_walk_forbidden` over the members of an object. -/
def walkForbiddenMembers (path : String) : List (String × Value) → Option String
  | [] => none
  | (key, value) :: ms =>
    let child := path ++ "." ++ key
    if u.lower key ∈ forbiddenToolKeys then some child
    else (walkForbidden child value).or (walkForbiddenMembers path ms)

/-- `_walk_forbidden` over the items of an array. -/
def walkForbiddenItems (path : String) (idx : ℕ) : List Value → Option String
  | [] => none
  | item :: items =>
    (walkForbidden (path ++ "[" ++ toString idx ++ "]") item).or
      (walkForbiddenItems path (idx + 1) items)
end

variable {δ : Type} [DecidableEq δ] (hash : Value → δ)

/-- `lineage_pairs` of the integrity check. -/
def BuildLineage.pairs (l : BuildLineage) : List (String × String) :=
  [("build_id", l.buildId.toString), ("build_input_hash", l.buildInputHash),
    ("job_id", l.jobId.toString), ("analysis_artifact_id", l.analysisArtifactId.toString),
    ("source_sha256", l.sourceSha256.val), ("analyzer_version", l.analyzerVersion)]

/-- `validate_package_integrity`. -/
def validatePackageIntegrity (object : StoredObject) (row : GeneratedPackage δ) :
    Except AppError Unit :=
  let package := object.payload
  let build := package.getD "build"
  if object.size ≠ row.packageSizeBytes then
    .error ⟨"FACTORY_PACKAGE_SIZE_MISMATCH",
      "Generated Package object size does not match persisted evidence."⟩
  else if hash package ≠ row.packageContentSha256 then
    .error ⟨"FACTORY_PACKAGE_HASH_MISMATCH",
      "Generated Package object hash does not match persisted evidence."⟩
  else if package.getD "kind" ≠ .str packageKind then
    .error ⟨"FACTORY_PACKAGE_SCHEMA_INVALID", "Generated Package kind is invalid."⟩
  else if package.getD "package_schema_version" ≠ .str row.packageSchemaVersion then
    .error ⟨"FACTORY_PACKAGE_SCHEMA_INVALID",
      "Generated Package schema version does not match evidence."⟩
  else if row.packageSchemaVersion ≠ packageSchemaVersion then
    .error ⟨"FACTORY_PACKAGE_SCHEMA_INVALID", "Unsupported Generated Package schema version."⟩
  else if package.getD "generator_version" ≠ .str row.generatorVersion then
    .error ⟨"FACTORY_PACKAGE_LINEAGE_MISMATCH",
      "Generated Package generator_version does not match evidence."⟩
  else if row.generatorVersion ≠ factoryPackageGeneratorVersion then
    .error ⟨"FACTORY_PACKAGE_LINEAGE_MISMATCH",
      "Unsupported Generated Package generator_version."⟩
  else if !build.isObj then
    .error ⟨"FACTORY_PACKAGE_LINEAGE_MISMATCH", "Generated Package build lineage is missing."⟩
  else match row.lineage.pairs.find? fun p => build.getD p.1 ≠ .str p.2 with
    | some p => .error ⟨"FACTORY_PACKAGE_LINEAGE_MISMATCH",
        "Generated Package build." ++ p.1 ++ " does not match evidence."⟩
    | none =>
      match (package.getD "tools").arr? with
      | none => .error ⟨"FACTORY_PACKAGE_SCHEMA_INVALID",
          "Generated Package tools must be a list."⟩
      | some tools =>
        if package.getD "tool_count" ≠ .int row.toolCount then
          .error ⟨"FACTORY_PACKAGE_TOOL_COUNT_MISMATCH",
            "Generated Package tool_count does not match evidence."⟩
        else if tools.length ≠ row.toolCount then
          .error ⟨"FACTORY_PACKAGE_TOOL_COUNT_MISMATCH",
            "Generated Package tools length does not match tool_count."⟩
        else .ok ()

/-- The security check of one tool. -/
def checkDeclarative (p : Value × ℕ) : Except AppError Unit :=
  if !p.1.isObj then
    .error ⟨"FACTORY_PACKAGE_SCHEMA_INVALID",
      "Tool entry at index " ++ toString p.2 ++ " is not an object."⟩
  else match walkForbidden u ("$.tools[" ++ toString p.2 ++ "]") p.1 with
    | some path => .error ⟨"FACTORY_PACKAGE_FORBIDDEN_CONTENT",
        "Forbidden executable/secret-bearing content at " ++ path ++ "."⟩
    | none => .ok ()

/-- `run_security_checks`. -/
def runSecurityChecks (object : StoredObject) (row : GeneratedPackage δ) : Except AppError Unit := do
  validatePackageIntegrity hash object row
  ((object.payload.getD "tools").arr?.getD []).zipIdx.forM (checkDeclarative u)

end Security

section Contract

/-! ### Contract -/

/-- `_ALLOWED_METHODS`. -/
def allowedMethods : List String := ["GET", "HEAD", "POST", "PUT", "PATCH", "DELETE", "OPTIONS"]

/-- `_REQUIRED_TOOL_FIELDS`. -/
def requiredToolFields : List String :=
  ["candidate_id", "job_id", "analysis_artifact_id", "source_sha256", "analyzer_version",
    "operation_key", "method", "path"]

mutual
/-- `_is_json_compatible`. -/
def isJsonCompatible (depth : ℕ) : Value → Bool
  | .arr items => depth ≤ 32 && itemsJsonCompatible (depth + 1) items
  | .obj ms => depth ≤ 32 && membersJsonCompatible (depth + 1) ms
  | _ => depth ≤ 32

/-- `_is_json_compatible` of every item. -/
def itemsJsonCompatible (depth : ℕ) : List Value → Bool
  | [] => true
  | item :: items => isJsonCompatible depth item && itemsJsonCompatible depth items

/-- `_is_json_compatible` of every member. -/
def membersJsonCompatible (depth : ℕ) : List (String × Value) → Bool
  | [] => true
  | (_, value) :: ms => isJsonCompatible depth value && membersJsonCompatible depth ms
end

/-- The text of a value that is not blank. -/
def nonEmptyString (v : Value) : Option String := v.str?.filter Text.nonBlank

/-- What is wrong with one parameter, if anything. -/
def validateParameter (p : Value × ℕ) : Option String :=
  let at_ := "parameters[" ++ toString p.2 ++ "]"
  if !p.1.isObj then some (at_ ++ " must be an object")
  else if !isJsonCompatible 0 p.1 then some (at_ ++ " is not JSON-compatible")
  else if (nonEmptyString (p.1.getD "name")).isNone then
    some (at_ ++ ".name must be a non-empty string")
  else if !(p.1.getD "in").isNull && (nonEmptyString (p.1.getD "in")).isNone then
    some (at_ ++ ".in must be a non-empty string when set")
  else none

/-- `_validate_parameters`. -/
def validateParameters (parameters : Value) : Option String :=
  match parameters.arr? with
  | none => some "parameters must be a list"
  | some items => items.zipIdx.findSome? validateParameter

/-- What the checks of the tools so far have seen. -/
structure ContractScan where
  checks : List Value
  seenOps : List String
  seenCandidateIds : List String

/-- An invalid tool. -/
def contractInvalid (message : String) : AppError := ⟨"FACTORY_CONTRACT_INVALID", message⟩

/-- The lineage fields of a tool. -/
def BuildLineage.toolPairs (l : BuildLineage) : List (String × String) :=
  [("job_id", l.jobId.toString), ("analysis_artifact_id", l.analysisArtifactId.toString),
    ("source_sha256", l.sourceSha256.val), ("analyzer_version", l.analyzerVersion)]

variable (u : CaseFolding)

/-- The contract check of one tool. -/
def checkToolContract (l : BuildLineage) (s : ContractScan) (p : Value × ℕ) :
    Except AppError ContractScan :=
  let tool := p.1
  let at_ := "tools[" ++ toString p.2 ++ "]"
  if !tool.isObj then
    .error (contractInvalid ("Tool entry at index " ++ toString p.2 ++ " is not an object."))
  else match requiredToolFields.find? fun f => (nonEmptyString (tool.getD f)).isNone with
  | some field =>
    .error (contractInvalid (at_ ++ "." ++ field ++ " must be a non-empty string."))
  | none =>
    let candidateId := textOf (tool.getD "candidate_id")
    let operationKey := textOf (tool.getD "operation_key")
    let method := u.upper (textOf (tool.getD "method"))
    let path := textOf (tool.getD "path")
    if candidateId ∈ s.seenCandidateIds then
      .error ⟨"FACTORY_CONTRACT_DUPLICATE", "Duplicate candidate_id " ++ candidateId ++ "."⟩
    else if operationKey ∈ s.seenOps then
      .error ⟨"FACTORY_CONTRACT_DUPLICATE", "Duplicate operation_key " ++ operationKey ++ "."⟩
    else if method ∉ allowedMethods then
      .error (contractInvalid (at_ ++ ".method is not an allowed HTTP method."))
    else if path.toList.head? ≠ some '/' then
      .error (contractInvalid (at_ ++ ".path must start with '/'."))
    else match l.toolPairs.find? fun q => tool.getD q.1 ≠ .str q.2 with
    | some q => .error ⟨"FACTORY_CONTRACT_LINEAGE_MISMATCH",
        at_ ++ "." ++ q.1 ++ " does not match evidence."⟩
    | none =>
      match validateParameters (if tool.hasKey "parameters" then tool.getD "parameters"
          else .arr []) with
      | some err => .error (contractInvalid (at_ ++ ": " ++ err))
      | none =>
        match ["request_schema", "response_schema"].find? fun f =>
            !isJsonCompatible 0 (tool.getD f) with
        | some f => .error (contractInvalid (at_ ++ "." ++ f ++ " is not JSON-compatible."))
        | none => .ok {
            checks := s.checks ++ [.obj [("operation_key", .str operationKey),
              ("candidate_id", .str candidateId), ("method", .str method), ("path", .str path),
              ("passed", .bool true)]]
            seenOps := s.seenOps ++ [operationKey]
            seenCandidateIds := s.seenCandidateIds ++ [candidateId] }

/-- `run_contract_checks`: the evidence. -/
def runContractChecks (package : Value) (l : BuildLineage) (policyVersion : String) :
    Except AppError Value := do
  let tools := (package.getD "tools").arr?.getD []
  let build := package.getD "build"
  if tools = [] then
    .error (contractInvalid "Generated Package tools must be a non-empty list.")
  else if !build.isObj then
    .error ⟨"FACTORY_CONTRACT_LINEAGE_MISMATCH", "Generated Package build lineage is missing."⟩
  else
    let scan ← tools.zipIdx.foldlM (checkToolContract u l) ⟨[], [], []⟩
    if build.getD "build_id" ≠ .str l.buildId.toString then
      .error ⟨"FACTORY_CONTRACT_LINEAGE_MISMATCH", "Package build_id does not match evidence."⟩
    else if build.getD "build_input_hash" ≠ .str l.buildInputHash then
      .error ⟨"FACTORY_CONTRACT_LINEAGE_MISMATCH",
        "Package build_input_hash does not match evidence."⟩
    else return .obj [("policy_version", .str policyVersion), ("passed", .bool true),
      ("tool_count", .int tools.length), ("checks", .arr scan.checks), ("failures", .arr [])]

/-- `FACTORY_CONTRACT_POLICY_VERSION`. -/
def factoryContractPolicyVersion : String := "factory-contract-policy-v1"

variable {δ : Type} [DecidableEq δ] (hash : Value → δ)

/-- The checks of a claimed TestRun: its `contract` evidence when the result is `PASS`. -/
def runSandboxTest (object : StoredObject) (row : GeneratedPackage δ) : Except AppError Value :=
  if !object.payload.isObj then
    .error ⟨"FACTORY_PACKAGE_SCHEMA_INVALID",
      "Generated Package object payload must be a JSON object."⟩
  else do
    runSecurityChecks u hash object row
    runContractChecks u object.payload row.lineage factoryContractPolicyVersion

end Contract

end McpFlow.Factory
