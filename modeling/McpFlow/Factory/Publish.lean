import McpFlow.Factory.Agreement
import McpFlow.Factory.Sandbox

/-!
# Publishing a tested package

`publish_review` reads the payload of a package again, checks it with `_assert_package_bytes_match`
and `_assert_package_payload_contract`, and imports its tools. A package of analyzed operations whose
sandbox test passed is published exactly when its names stay distinct under the normalizations of the
import, which the sandbox test does not look at.
-/

namespace McpFlow.Factory

open Json (Value)

/-! ### The payload -/

/-- A package whose shape is not the reviewed one. -/
def packageInvalid (message : String) : AppError := ⟨"FACTORY_PACKAGE_SCHEMA_INVALID", message⟩

/-- The fields that a package tool must not have. -/
def forbiddenEntryKeys : List String :=
  ["command", "commands", "shell", "subprocess", "dependencies", "install", "credentials", "secrets",
    "auth_headers", "source", "executable", "object_key", "bucket"]

/-- The contract of one entry. -/
def assertPackageEntry (entry : Value) : Except AppError Unit :=
  if !entry.isObj then .error (packageInvalid "Generated Package tool entry must be an object.")
  else match ["candidate_id", "operation_key", "method", "path"].find? fun f =>
      !(entry.getD f).truthy with
  | some f => .error (packageInvalid ("Generated Package tool missing '" ++ f ++ "'."))
  | none =>
    match forbiddenEntryKeys.find? entry.hasKey with
    | some f => .error (packageInvalid ("Generated Package tool must not include '" ++ f ++ "'."))
    | none => .ok ()

section Publish

variable {δ : Type} [DecidableEq δ] (hash : Value → δ) (u : CaseFolding)

/-- `_assert_package_payload_contract`. -/
def assertPackagePayloadContract (payload : Value) (row : GeneratedPackage δ) :
    Except AppError (List Value) :=
  let tools := (payload.getD "tools").arr?.getD []
  if payload.getD "kind" ≠ .str packageKind then
    .error (packageInvalid "Generated Package kind가 올바르지 않습니다.")
  else if payload.getD "schema_version" ≠ .int 1 then
    .error (packageInvalid "Generated Package schema_version이 올바르지 않습니다.")
  else if payload.getD "generator_version" ≠ .str row.generatorVersion then
    .error (packageInvalid "Generated Package generator_version이 projection과 불일치합니다.")
  else if payload.getD "package_schema_version" ≠ .str row.packageSchemaVersion then
    .error (packageInvalid "Generated Package package_schema_version이 projection과 불일치합니다.")
  else if tools = [] then
    .error (packageInvalid "Generated Package tools가 비어 있거나 유효하지 않습니다.")
  else if payload.getD "tool_count" ≠ .int tools.length ∨
      payload.getD "tool_count" ≠ .int row.toolCount then
    .error ⟨"FACTORY_PACKAGE_TOOL_COUNT_MISMATCH",
      "Generated Package tool_count가 tools/DB와 불일치합니다."⟩
  else do
    tools.forM assertPackageEntry
    return tools

/-- `_assert_package_bytes_match`. -/
def assertPackageBytesMatch (object : StoredObject) (row : GeneratedPackage δ) :
    Except AppError Value :=
  if object.size ≠ row.packageSizeBytes then
    .error ⟨"FACTORY_PACKAGE_HASH_MISMATCH",
      "Generated Package object size does not match persisted package_size_bytes."⟩
  else if !object.payload.isObj then
    .error ⟨"FACTORY_PACKAGE_SNAPSHOT_INVALID",
      "Generated Package object payload must be an object."⟩
  else if hash object.payload ≠ row.packageContentSha256 then
    .error ⟨"FACTORY_PACKAGE_HASH_MISMATCH",
      "Generated Package object hash does not match evidence."⟩
  else .ok object.payload

/-- A package tool as the import reads it; its identifying members are texts. -/
def PackageTool.read? (tool : Value) : Option PackageTool := do
  let candidateId ← (tool.getD "candidate_id").str?
  let operationKey ← (tool.getD "operation_key").str?
  let method ← (tool.getD "method").str?
  let path ← (tool.getD "path").str?
  let tags ← ((tool.getD "tags").arr?.getD []).mapM Value.str?
  return {
    candidateId
    operationKey
    method
    path
    operationId := tool.getD "operation_id"
    summary := tool.getD "summary"
    description := tool.getD "description"
    tags
    deprecated := (tool.getD "deprecated").truthy
    parameters := (tool.getD "parameters").arr?.getD []
    requestSchema := tool.getD "request_schema"
    requestBodyRequired := (tool.getD "request_body_required").truthy
    responseSchema := tool.getD "response_schema" }

/-- `_import_draft_mcp_assets` of the tools of a payload. -/
def importDraftMcpAssets (ids : List UUID) (entries : List Value) :
    Except AppError (FactoryAssets δ) :=
  match entries.mapM PackageTool.read? with
  | none => .error (packageInvalid "Generated Package tool entry has no text identity.")
  | some package => importAssets hash u ids package

/-- What `publish_review` does with the package of an approved review, `ids` being the new tool ids. -/
def publishPackage (ids : List UUID) (object : StoredObject) (row : GeneratedPackage δ) :
    Except AppError (FactoryAssets δ) := do
  let payload ← assertPackageBytesMatch hash object row
  let entries ← assertPackagePayloadContract payload row
  importDraftMcpAssets hash u ids entries

end Publish

/-! ### Analyzed tools -/

/-- The package tool of a candidate. -/
def Candidate.packageTool (c : Candidate) : PackageTool where
  candidateId := c.id.toString
  operationKey := c.operation.operationKey
  method := c.operation.method.text
  path := c.operation.path
  operationId := Value.ofOptionStr c.operation.operationId
  summary := Value.ofOptionStr c.operation.summary
  description := Value.ofOptionStr c.operation.description
  tags := c.operation.tags
  deprecated := c.operation.deprecated
  parameters := c.operation.parameters.map ParameterCandidate.dump
  requestSchema := ofSchema c.operation.requestSchema
  requestBodyRequired := c.operation.requestBodyRequired
  responseSchema := ofSchema c.operation.responseSchema

theorem PackageTool.read?_toolContract (l : BuildLineage) (c : Candidate) :
    PackageTool.read? (c.toolContract l) = some c.packageTool := by
  have htags : (c.operation.tags.map Value.str).mapM Value.str? = some c.operation.tags :=
    List.mapM_map_eq_some fun _ _ => rfl
  change (((c.operation.tags.map Value.str).mapM Value.str?).bind fun tags =>
    some { c.packageTool with tags }) = _
  rw [htags]
  rfl

/-- The property that a parameter becomes. -/
def PackageParameter.propertyName (u : CaseFolding) (p : PackageParameter) : String :=
  u.normalizePropertyName (Text.strip p.name)

/-- A parameter that the import can map on its own. -/
structure PackageParameter.Mappable (p : PackageParameter) : Prop where
  named : Text.nonBlank p.name = true
  schema : p.schema = .null ∨ ∃ ms, p.schema = .obj ms

section Mapping

variable {u : CaseFolding} {hasBody : Bool} {s s' : InputSchema} {p : PackageParameter}

theorem addParameter_eq_ok (h : s.addParameter u hasBody p = .ok s') :
    p.propertyName u ∉ s.seen ∧
      (hasBody = true → p.propertyName u ≠ u.normalizePropertyName "body") ∧
      s'.seen = s.seen ++ [p.propertyName u] ∧
      ∃ v, s'.properties = s.properties.set (Text.strip p.name) v := by
  unfold InputSchema.addParameter at h
  dsimp only at h
  split at h
  · cases h
  split at h
  · cases h
  next hseen =>
  split at h
  · cases h
  next hbody =>
  obtain ⟨v, -, h⟩ := Except.bind_eq_ok_iff.mp h
  cases h
  exact ⟨hseen, fun hb hname => hbody ⟨hb, hname⟩, rfl, v, rfl⟩

theorem exists_addParameter (hfold : ∀ s, u.casefold s = "" → s = "") (hp : p.Mappable)
    (hseen : p.propertyName u ∉ s.seen)
    (hbody : hasBody = true → p.propertyName u ≠ u.normalizePropertyName "body") :
    ∃ s', s.addParameter u hasBody p = .ok s' := by
  have hname := Text.strip_ne_empty_of_nonBlank hp.named
  have hnormalized : p.propertyName u ≠ "" := fun h =>
    Text.strip_ne_empty_of_nonBlank (Text.nonBlank_strip hname) (hfold _ h)
  obtain ⟨v, hv⟩ : ∃ v, parameterSchema p = .ok v := by
    rcases hp.schema with hnull | ⟨ms, hobj⟩
    · exact ⟨_, by rw [parameterSchema, hnull]⟩
    · exact ⟨_, by rw [parameterSchema, hobj]⟩
  unfold InputSchema.addParameter
  rw [PackageParameter.propertyName] at hnormalized hseen hbody
  dsimp only
  rw [if_neg (not_or.mpr ⟨hname, hnormalized⟩), if_neg hseen, if_neg fun h => hbody h.1 h.2, hv]
  exact ⟨_, rfl⟩

/-- The parameters are mapped one after the other exactly when their properties are new and distinct
and none of them is the request body. -/
theorem exists_foldlM_addParameter_iff (hasBody : Bool) (s : InputSchema)
    (hfold : ∀ s, u.casefold s = "" → s = "")
    {ps : List PackageParameter} (hps : ∀ p ∈ ps, p.Mappable) (hs : s.seen.Nodup) :
    (∃ s', ps.foldlM (InputSchema.addParameter u hasBody) s = .ok s') ↔
      (s.seen ++ ps.map (·.propertyName u)).Nodup ∧
        (hasBody = true → u.normalizePropertyName "body" ∉ ps.map (·.propertyName u)) := by
  induction ps generalizing s with
  | nil => exact iff_of_true ⟨s, rfl⟩ ⟨by rwa [List.map_nil, List.append_nil], fun _ => List.not_mem_nil⟩
  | cons p ps ih =>
    rw [List.forall_mem_cons] at hps
    rw [List.map_cons, List.append_cons, List.mem_cons, not_or, List.foldlM_cons]
    constructor
    · rintro ⟨s', h⟩
      obtain ⟨s₁, h₁, h⟩ := Except.bind_eq_ok_iff.mp h
      obtain ⟨hnew, hbody, hseen, -⟩ := addParameter_eq_ok h₁
      have hs₁ : s₁.seen.Nodup := by
        rw [hseen, List.nodup_append]
        exact ⟨hs, List.nodup_singleton _, fun a ha b hb hab =>
          hnew (List.mem_singleton.mp hb ▸ hab ▸ ha)⟩
      rw [← hseen]
      exact ((ih _ hps.2 hs₁).mp ⟨s', h⟩).imp_right fun htail hb => ⟨(hbody hb).symm, htail hb⟩
    · rintro ⟨hnodup, hbody⟩
      have hhead := (List.nodup_append.mp hnodup).1
      have hnew : p.propertyName u ∉ s.seen := fun hmem =>
        (List.nodup_append.mp hhead).2.2 _ hmem _ List.mem_cons_self rfl
      obtain ⟨s₁, h₁⟩ := exists_addParameter hfold hps.1 hnew fun hb => Ne.symm (hbody hb).1
      obtain ⟨-, -, hseen, -⟩ := addParameter_eq_ok h₁
      rw [← hseen] at hnodup hhead
      obtain ⟨s', h⟩ := (ih _ hps.2 hhead).mpr ⟨hnodup, fun hb => (hbody hb).2⟩
      exact ⟨s', Except.bind_eq_ok_iff.mpr ⟨s₁, h₁, h⟩⟩

/-- Every property so far is one of the seen names. -/
def InputSchema.Covered (u : CaseFolding) (s : InputSchema) : Prop :=
  ∀ k v, s.properties.get? k = some v → u.normalizePropertyName k ∈ s.seen

theorem covered_foldlM {ps : List PackageParameter} (hs : s.Covered u)
    (h : ps.foldlM (InputSchema.addParameter u hasBody) s = .ok s') :
    s'.Covered u ∧ s'.seen = s.seen ++ ps.map (·.propertyName u) := by
  induction ps generalizing s with
  | nil =>
    cases h
    exact ⟨hs, by rw [List.map_nil, List.append_nil]⟩
  | cons p ps ih =>
    rw [List.foldlM_cons] at h
    obtain ⟨s₁, h₁, h⟩ := Except.bind_eq_ok_iff.mp h
    obtain ⟨-, -, hseen, v, hproperties⟩ := addParameter_eq_ok h₁
    have hs₁ : s₁.Covered u := by
      intro k w hk
      rw [hproperties, Dict.get?_set] at hk
      rw [hseen]
      split at hk
      next heq => exact heq ▸ List.mem_append_right _ List.mem_cons_self
      next => exact List.mem_append_left _ (hs k w hk)
    rw [List.map_cons, List.append_cons, ← hseen]
    exact ih hs₁ h

end Mapping

/-- A parameter of an analyzed operation as the import reads it. -/
def ParameterCandidate.read (p : ParameterCandidate) : PackageParameter :=
  ⟨p.name, p.location.text, p.required, ofSchema p.schema⟩

theorem readParameter_dump (p : ParameterCandidate) : readParameter p.dump = .ok p.read := by
  have hlocation : p.location.text ∈ locationOrder := by
    cases p.location <;> decide
  change (if (!Text.nonBlank p.name) = true then _ else if p.location.text ∈ locationOrder then
    Except.ok p.read else _) = _
  rw [p.named, if_pos hlocation]
  rfl

theorem ParameterCandidate.mappable_read (p : ParameterCandidate) : p.read.Mappable where
  named := p.named
  schema := by
    cases hschema : p.schema with
    | none => exact .inl (by rw [read, hschema, ofSchema])
    | some ms => exact .inr ⟨ms, by rw [read, hschema, ofSchema]⟩

/-- The names of the properties of an operation's parameters. -/
def OperationCandidate.propertyNames (u : CaseFolding) (o : OperationCandidate) : List String :=
  o.parameters.map fun p => u.normalizePropertyName (Text.strip p.name)

/-- The properties of an operation are distinct, and none of them is its request body. -/
structure OperationCandidate.Mappable (u : CaseFolding) (o : OperationCandidate) : Prop where
  distinct : (o.propertyNames u).Nodup
  body : o.requestSchema.isSome = true → u.normalizePropertyName "body" ∉ o.propertyNames u

theorem isNull_ofSchema (schema : Option (Dict Value)) : (!(ofSchema schema).isNull) = schema.isSome := by
  cases schema <;> rfl

/-- The parameters and the body of an operation map to an input schema exactly when it is mappable. -/
theorem exists_inputSchema_iff {u : CaseFolding} (hfold : ∀ s, u.casefold s = "" → s = "")
    (c : Candidate) : (∃ schema, c.packageTool.inputSchema u = .ok schema) ↔
      c.operation.Mappable u := by
  set o := c.operation with ho
  set ps := (o.parameters.map ParameterCandidate.read).insertionSort PackageParameter.before with hps
  have hordered : orderedParameters c.packageTool.parameters = .ok ps := by
    have hread : (o.parameters.map ParameterCandidate.dump).mapM readParameter =
        .ok (o.parameters.map ParameterCandidate.read) := by
      refine List.mapM_eq_ok_of_forall₂ ?_
      rw [List.forall₂_map_left_iff, List.forall₂_map_right_iff]
      exact List.forall₂_same.mpr fun p _ => readParameter_dump p
    exact Except.bind_eq_ok_iff.mpr ⟨_, hread, rfl⟩
  have hperm : (ps.map (·.propertyName u)).Perm (o.propertyNames u) := by
    refine ((List.perm_insertionSort _ _).map _).trans ?_
    rw [List.map_map]
    exact .refl _
  have hmappable : ∀ p ∈ ps, p.Mappable := by
    intro p hp
    obtain ⟨q, -, rfl⟩ := List.mem_map.mp ((List.perm_insertionSort _ _).mem_iff.mp hp)
    exact q.mappable_read
  have hfoldM := exists_foldlM_addParameter_iff o.requestSchema.isSome ⟨[], [], []⟩ hfold hmappable List.nodup_nil
  rw [List.nil_append, hperm.nodup_iff, hperm.mem_iff] at hfoldM
  have hschema : c.packageTool.inputSchema u =
      (orderedParameters c.packageTool.parameters >>= fun ordered =>
        ordered.foldlM (InputSchema.addParameter u o.requestSchema.isSome) ⟨[], [], []⟩ >>= fun s =>
        s.addBody u (ofSchema o.requestSchema) o.requestBodyRequired >>= fun s =>
        .ok (.obj s.members)) := by
    rw [← isNull_ofSchema]
    rfl
  rw [hschema, hordered]
  constructor
  · rintro ⟨schema, h⟩
    obtain ⟨ordered, hok, h⟩ := Except.bind_eq_ok_iff.mp h
    cases hok
    obtain ⟨s', hs', -⟩ := Except.bind_eq_ok_iff.mp h
    obtain ⟨hdistinct, hbody⟩ := hfoldM.mp ⟨s', hs'⟩
    exact ⟨hdistinct, hbody⟩
  · rintro ⟨hdistinct, hbody⟩
    obtain ⟨s', hs'⟩ := hfoldM.mpr ⟨hdistinct, hbody⟩
    obtain ⟨hcovered, hseen⟩ := covered_foldlM (s := ⟨[], [], []⟩) (fun k v hk => by cases hk) hs'
    have hadd : ∃ s'', s'.addBody u (ofSchema o.requestSchema) o.requestBodyRequired = .ok s'' := by
      cases hrequest : o.requestSchema with
      | none => exact ⟨s', rfl⟩
      | some ms =>
        have hnew : u.normalizePropertyName "body" ∉ s'.seen := by
          rw [hseen, List.nil_append, hperm.mem_iff]
          exact hbody (by rw [hrequest, Option.isSome_some])
        have hfree : (s'.properties.get? "body").isSome = false := by
          rw [Option.isSome_eq_false_iff, Option.isNone_iff_eq_none, Option.eq_none_iff_forall_ne_some]
          exact fun v hv => hnew (hcovered "body" v hv)
        refine ⟨_, if_neg ?_⟩
        rw [hfree, not_or]
        exact ⟨hnew, Bool.false_ne_true⟩
    obtain ⟨s'', hs''⟩ := hadd
    refine ⟨.obj s''.members, Except.bind_eq_ok_iff.mpr ⟨_, rfl, ?_⟩⟩
    exact Except.bind_eq_ok_iff.mpr ⟨s', hs', Except.bind_eq_ok_iff.mpr ⟨s'', hs'', rfl⟩⟩

/-! ### Import -/

section Import

variable {δ : Type} [DecidableEq δ] {hash : Value → δ} {u : CaseFolding}

omit [DecidableEq δ] in
/-- A package tool is imported when it has a remote name and an input schema. -/
theorem exists_importTool_iff {id : UUID} {tool : PackageTool} :
    (∃ t, importTool hash u id tool = .ok t) ↔
      Text.strip tool.operationKey ≠ "" ∧ ∃ schema, tool.inputSchema u = .ok schema := by
  simp only [importTool, Except.bind_eq_ok_iff, declarativeToolRemoteName]
  constructor
  · rintro ⟨t, name, hname, schema, hschema, -⟩
    split at hname
    · cases hname
    next hne => exact ⟨hne, schema, hschema⟩
  · rintro ⟨hne, schema, hschema⟩
    exact ⟨_, _, if_neg hne, schema, hschema, rfl⟩

omit [DecidableEq δ] in
/-- The tools of a package are imported under fresh ids when each of them is and their remote names
are distinct. -/
theorem exists_importAssets_iff (hash : Value → δ) (u : CaseFolding) {ids : List UUID} {package : List PackageTool}
    (hfull : ∀ t ∈ package, t.complete = true) (hne : package ≠ [])
    (hlen : ids.length = package.length) (hids : ids.Nodup) :
    (∃ a, importAssets hash u ids package = .ok a) ↔
      (∀ t ∈ package, Text.strip t.operationKey ≠ "" ∧ ∃ schema, t.inputSchema u = .ok schema) ∧
        ((package.map (·.operationKey)).map remoteNameOf).Nodup := by
  have hcomplete : ¬(package = [] ∨ (!package.all (·.complete)) = true) := by
    rw [not_or, Bool.not_eq_true, Bool.not_eq_false', List.all_eq_true]
    exact ⟨hne, hfull⟩
  have htools : (∃ tools, (ids.zip package).mapM (fun p => importTool hash u p.1 p.2) = .ok tools) ↔
      ∀ t ∈ package, Text.strip t.operationKey ≠ "" ∧ ∃ schema, t.inputSchema u = .ok schema := by
    rw [List.exists_mapM_eq_ok_iff, ← List.map_snd_zip hlen.ge, List.forall_mem_map]
    rw [List.map_snd_zip hlen.ge]
    exact forall₂_congr fun p _ => exists_importTool_iff
  rw [importAssets, if_neg hcomplete, if_neg (not_not.mpr hlen), ← htools]
  constructor
  · rintro ⟨a, h⟩
    obtain ⟨tools, hok, h⟩ := Except.bind_eq_ok_iff.mp h
    rw [map_remoteName (forall₂_importTool hlen hfull hok).2]
    split at h
    case isFalse => cases h
    split at h
    case isFalse => cases h
    next hnodup => exact ⟨⟨tools, hok⟩, hnodup⟩
  · rintro ⟨⟨tools, hok⟩, hnodup⟩
    obtain ⟨hmap, hreviewed⟩ := forall₂_importTool hlen hfull hok
    rw [map_remoteName hreviewed] at hnodup
    refine ⟨⟨package, ids, ⟨tools, hmap ▸ hids⟩⟩, Except.bind_eq_ok_iff.mpr ⟨tools, hok, ?_⟩⟩
    rw [dif_pos (hmap ▸ hids), if_pos hnodup]
    rfl

end Import

/-! ### Packages of analyzed operations -/

theorem OperationCandidate.nonBlank_operationKey (o : OperationCandidate) :
    Text.nonBlank o.operationKey = true := by
  have hmethod : o.method.text.toList.any (fun c => !Text.isSpace c) = true := by
    cases o.method <;> decide
  rw [Text.nonBlank, operationKey, String.toList_append, String.toList_append, List.any_append,
    List.any_append, hmethod]
  rfl

theorem HttpMethod.text_ne_empty (m : HttpMethod) : m.text ≠ "" := by
  cases m <;> decide

theorem OperationCandidate.path_ne_empty (o : OperationCandidate) : o.path ≠ "" := fun h => by
  have hrooted := o.rooted
  rw [h] at hrooted
  cases hrooted

theorem Candidate.complete_packageTool (c : Candidate) : c.packageTool.complete = true := by
  have hid := c.id.toString_ne_empty
  have hkey := Text.ne_empty_of_nonBlank c.operation.nonBlank_operationKey
  simp [PackageTool.complete, packageTool, hid, hkey, c.operation.method.text_ne_empty,
    c.operation.path_ne_empty]

/-- The stored bytes of the package of a Build. -/
def Build.object (b : Build) (size : ℕ) (buildGeneratorVersion : String) : StoredObject :=
  ⟨size, b.package buildGeneratorVersion⟩

section Build

variable {δ : Type} [DecidableEq δ] (hash : Value → δ)

/-- The row of the package of a Build. -/
def Build.generatedPackage (b : Build) (size : ℕ) (buildGeneratorVersion : String) :
    GeneratedPackage δ where
  lineage := b.lineage
  packageSizeBytes := size
  packageContentSha256 := hash (b.package buildGeneratorVersion)
  generatorVersion := factoryPackageGeneratorVersion
  packageSchemaVersion := packageSchemaVersion
  toolCount := b.candidates.length

variable {hash} {u : CaseFolding} {b : Build} {size : ℕ} {g : String}

theorem assertPackageEntry_toolContract (l : BuildLineage) (c : Candidate) :
    assertPackageEntry (c.toolContract l) = .ok () := by
  have hid := c.id.toString_ne_empty
  have hkey := Text.ne_empty_of_nonBlank c.operation.nonBlank_operationKey
  have htruthy : ∀ f ∈ ["candidate_id", "operation_key", "method", "path"],
      ((c.toolContract l).getD f).truthy = true := by
    intro f hf
    simp only [List.mem_cons, List.not_mem_nil, or_false] at hf
    rcases hf with rfl | rfl | rfl | rfl
    · exact bne_iff_ne.mpr hid
    · exact bne_iff_ne.mpr hkey
    · exact bne_iff_ne.mpr c.operation.method.text_ne_empty
    · exact bne_iff_ne.mpr c.operation.path_ne_empty
  have hnone : ["candidate_id", "operation_key", "method", "path"].find?
      (fun f => !((c.toolContract l).getD f).truthy) = none := by
    rw [List.find?_eq_none]
    intro f hf
    rw [htruthy f hf]
    exact Bool.false_ne_true
  have hforbidden : forbiddenEntryKeys.find? (c.toolContract l).hasKey = none := rfl
  rw [assertPackageEntry, hnone]
  dsimp only
  rw [hforbidden]
  rfl

omit [DecidableEq δ] in
/-- The entries of a generated package satisfy the payload contract. -/
theorem assertPackagePayloadContract_package :
    assertPackagePayloadContract (b.package g) (b.generatedPackage hash size g) =
      .ok (b.sorted.map (Candidate.toolContract b.lineage)) := by
  have hlength : b.sorted.length = b.candidates.length := List.length_insertionSort _ _
  have hne : b.sorted.map (Candidate.toolContract b.lineage) ≠ [] := by
    rw [ne_eq, List.map_eq_nil_iff, ← List.length_eq_zero_iff, hlength, List.length_eq_zero_iff]
    exact b.selected
  have hentries : (b.sorted.map (Candidate.toolContract b.lineage)).forM assertPackageEntry =
      .ok () :=
    List.forM_eq_ok (List.forall_mem_map.mpr fun c _ => assertPackageEntry_toolContract b.lineage c)
  change (if b.sorted.map (Candidate.toolContract b.lineage) = [] then _ else
    if Value.int b.candidates.length ≠ .int (b.sorted.map (Candidate.toolContract b.lineage)).length ∨
        Value.int b.candidates.length ≠ .int b.candidates.length then _ else
      (b.sorted.map (Candidate.toolContract b.lineage)).forM assertPackageEntry >>= fun _ => _) = _
  rw [if_neg hne, if_neg (by rw [List.length_map, hlength]; simp), hentries]
  rfl

/-- The names of a Build stay distinct under the normalizations of the import. -/
structure Build.Mappable (u : CaseFolding) (b : Build) : Prop where
  operations : ∀ c ∈ b.candidates, c.operation.Mappable u
  names : ((b.candidates.map (·.operation.operationKey)).map remoteNameOf).Nodup

/-- One MCP tool for each tool of the package, under distinct remote names. -/
structure Published (hash : Value → δ) (u : CaseFolding) (b : Build) (a : FactoryAssets δ) : Prop where
  tools : List.Forall₂ (fun c t => ReviewedTool hash u c.packageTool t) b.sorted a.tools.rows
  names : (a.tools.rows.map MCPTool.remoteName).Nodup

theorem publishPackage_eq {ids : List UUID} :
    publishPackage hash u ids (b.object size g) (b.generatedPackage hash size g) =
      importAssets hash u ids (b.sorted.map Candidate.packageTool) := by
  have hbytes : assertPackageBytesMatch hash (b.object size g) (b.generatedPackage hash size g) =
      .ok (b.package g) := by
    change (if size ≠ size then _ else if (!true) = true then _ else
      if hash (b.package g) ≠ hash (b.package g) then _ else _) = _
    rw [if_neg (not_not.mpr rfl), if_neg (by decide), if_neg (not_not.mpr rfl)]
    rfl
  have hread : (b.sorted.map (Candidate.toolContract b.lineage)).mapM PackageTool.read? =
      some (b.sorted.map Candidate.packageTool) := by
    induction b.sorted with
    | nil => rfl
    | cons c cs ih =>
      rw [List.map_cons, List.mapM_cons, PackageTool.read?_toolContract, ih]
      rfl
  rw [publishPackage, hbytes]
  change (assertPackagePayloadContract (b.package g) _ >>= _) = _
  rw [assertPackagePayloadContract_package]
  change importDraftMcpAssets hash u ids _ = _
  rw [importDraftMcpAssets, hread]

/-- A package of analyzed operations is published exactly when it is mappable. -/
theorem exists_published_iff (hfold : ∀ s, u.casefold s = "" → s = "") {ids : List UUID}
    (hlen : ids.length = b.candidates.length) (hids : ids.Nodup) :
    (∃ a, publishPackage hash u ids (b.object size g) (b.generatedPackage hash size g) = .ok a ∧
      Published hash u b a) ↔ b.Mappable u := by
  have hperm : b.sorted.Perm b.candidates := List.perm_insertionSort _ _
  have hfull : ∀ t ∈ b.sorted.map Candidate.packageTool, t.complete = true :=
    List.forall_mem_map.mpr fun c _ => c.complete_packageTool
  have hne : b.sorted.map Candidate.packageTool ≠ [] := by
    rw [ne_eq, List.map_eq_nil_iff]
    exact fun h => b.selected (List.Perm.nil_eq (h ▸ hperm)).symm
  have himport := exists_importAssets_iff hash u hfull hne
    (by rw [hlen, List.length_map, hperm.length_eq]) hids
  have hkeys : ((b.sorted.map Candidate.packageTool).map (·.operationKey)).Perm
      (b.candidates.map (·.operation.operationKey)) := by
    rw [List.map_map]
    exact hperm.map _
  rw [(hkeys.map remoteNameOf).nodup_iff, List.forall_mem_map] at himport
  have hmappable : b.Mappable u ↔ ∃ a, importAssets hash u ids
      (b.sorted.map Candidate.packageTool) = .ok a := by
    rw [himport]
    constructor
    · rintro ⟨hoperations, hnames⟩
      refine ⟨fun c hc => ⟨?_, ?_⟩, hnames⟩
      · exact Text.strip_ne_empty_of_nonBlank c.operation.nonBlank_operationKey
      · exact (exists_inputSchema_iff hfold c).mpr (hoperations c (hperm.mem_iff.mp hc))
    · rintro ⟨htools, hnames⟩
      exact ⟨fun c hc => (exists_inputSchema_iff hfold c).mp (htools c (hperm.mem_iff.mpr hc)).2,
        hnames⟩
  rw [hmappable, publishPackage_eq]
  refine exists_congr fun a => and_iff_left_of_imp fun h => ?_
  have hinv := FactoryAssets.inv_importAssets h
  have htools := hinv.tools
  rw [FactoryAssets.package_importAssets h, List.forall₂_map_left_iff] at htools
  exact ⟨htools, hinv.names⟩

/-- A package of analyzed operations that passes the sandbox test can be published exactly when
passing the test means that its names stay distinct. The new tool ids are distinct. -/
theorem tested_publishes_iff (hfold : ∀ s, u.casefold s = "" → s = "") {ids : List UUID}
    (hlen : ids.length = b.candidates.length) (hids : ids.Nodup) :
    ((∃ evidence, runSandboxTest u hash (b.object size g) (b.generatedPackage hash size g) =
        .ok evidence) →
      ∃ a, publishPackage hash u ids (b.object size g) (b.generatedPackage hash size g) = .ok a ∧
        Published hash u b a) ↔
    ((∃ evidence, runSandboxTest u hash (b.object size g) (b.generatedPackage hash size g) =
        .ok evidence) → b.Mappable u) :=
  imp_congr_right fun _ => exists_published_iff hfold hlen hids

end Build

/-- The case functions on ASCII texts. -/
def asciiFolding : CaseFolding where
  casefold s := String.ofList (s.toList.map Char.toLower)
  lower s := String.ofList (s.toList.map Char.toLower)
  upper s := String.ofList (s.toList.map Char.toUpper)

theorem eq_empty_of_casefold {s : String} (h : asciiFolding.casefold s = "") : s = "" := by
  rw [← String.toList_eq_nil_iff]
  rw [← String.toList_eq_nil_iff, asciiFolding, String.toList_ofList, List.map_eq_nil_iff] at h
  exact h

/-- A required text parameter. -/
def textParameter (name location : String) : Value :=
  .obj [("name", .str name), ("in", .str location), ("required", .bool true),
    ("schema", .obj [("type", .str "string")])]

/-- `GET` of a path with parameters of the path item and of the operation. -/
def getOperation (path : String) (pathParameters parameters : List Value) : ResolvedOperation where
  method := .get
  path
  pathParameters := .arr pathParameters
  operation := .obj [("operationId", .str "read"), ("parameters", .arr parameters)]
  requestSchema := none
  requestBodyRequired := false
  responseSchema := some [("type", .str "object")]

/-- A Build of one analyzed operation. -/
def buildOf (operation : OperationCandidate) : Build where
  lineage := {
    buildId := .ofNat 1
    buildInputHash := "b"
    jobId := .ofNat 2
    analysisArtifactId := .ofNat 3
    sourceSha256 := .replicate 'a' Text.isLowerHex_a
    analyzerVersion := "factory-openapi-analyzer-v1" }
  candidates := [⟨.ofNat 4, operation⟩]
  selected := List.cons_ne_nil _ _
  ids := List.nodup_singleton _
  keys := List.nodup_singleton _

/-- The stored package of a Build of one operation. -/
def objectOf (operation : OperationCandidate) : StoredObject :=
  (buildOf operation).object 1 "factory-build-generator-v1"

/-- The row of the package of a Build of one operation. -/
def rowOf (operation : OperationCandidate) : GeneratedPackage Value :=
  (buildOf operation).generatedPackage (fun v => v) 1 "factory-build-generator-v1"

/-- The sandbox test and the publication of the package of one operation. -/
def testAndPublish (operation : OperationCandidate) :
    Except AppError Value × Except AppError (FactoryAssets Value) :=
  (runSandboxTest asciiFolding (fun v => v) (objectOf operation) (rowOf operation),
    publishPackage (fun v => v) asciiFolding [.ofNat 5] (objectOf operation)
      (rowOf operation))

/-- An operation with a path parameter and a query parameter of one name passes the sandbox test, and
its package cannot be published. -/
theorem testAndPublish_id : ∃ operation evidence error,
    analyzeOperation (getOperation "/items/{id}" [textParameter "id" "path"]
      [textParameter "id" "query"]) = .ok operation ∧
      testAndPublish operation = (.ok evidence, .error error) := by
  have hrun : (analyzeOperation (getOperation "/items/{id}" [textParameter "id" "path"]
      [textParameter "id" "query"])).toOption.any (fun o =>
        (testAndPublish o).1.isOk && !(testAndPublish o).2.isOk) = true := by
    decide +kernel
  obtain ⟨operation, hoperation, hok⟩ := (Option.any_eq_true _ _).mp hrun
  obtain ⟨htest, hpublish⟩ := Bool.and_eq_true_iff.mp hok
  obtain ⟨evidence, hevidence⟩ := Except.isOk_iff.mp htest
  obtain ⟨error, herror⟩ := Except.exists_error_of_not_isOk hpublish
  exact ⟨operation, evidence, error, Except.toOption_eq_some_iff.mp hoperation,
    Prod.ext hevidence herror⟩

/-- Under another name for the query parameter the package is published. -/
theorem tested_publishes_limit : ∃ operation a,
    analyzeOperation (getOperation "/items/{id}" [textParameter "id" "path"]
      [textParameter "limit" "query"]) = .ok operation ∧
      (testAndPublish operation).2 = .ok a ∧
      Published (fun v => v) asciiFolding (buildOf operation) a := by
  have hrun : (analyzeOperation (getOperation "/items/{id}" [textParameter "id" "path"]
      [textParameter "limit" "query"])).toOption.any (fun o =>
        (testAndPublish o).1.isOk && decide (o.propertyNames asciiFolding).Nodup &&
          o.requestSchema.isNone) = true := by
    decide +kernel
  obtain ⟨operation, hoperation, hok⟩ := (Option.any_eq_true _ _).mp hrun
  obtain ⟨hok, hbody⟩ := Bool.and_eq_true_iff.mp hok
  obtain ⟨htest, hnodup⟩ := Bool.and_eq_true_iff.mp hok
  have hmappable : (buildOf operation).Mappable asciiFolding := by
    refine ⟨fun c hc => ?_, List.nodup_singleton _⟩
    obtain rfl := List.mem_singleton.mp hc
    refine ⟨of_decide_eq_true hnodup, fun hsome => ?_⟩
    rw [Option.isNone_iff_eq_none.mp hbody] at hsome
    cases hsome
  have hids : [(⟨5, by decide⟩ : UUID)].Nodup := List.nodup_singleton _
  obtain ⟨a, ha, hpublished⟩ := (tested_publishes_iff
    (fun _ => eq_empty_of_casefold) rfl hids).mpr (fun _ => hmappable)
    (Except.isOk_iff.mp htest)
  exact ⟨operation, a, Except.toOption_eq_some_iff.mp hoperation, ha, hpublished⟩

end McpFlow.Factory
