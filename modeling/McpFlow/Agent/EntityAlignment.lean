import McpFlow.Domain.Enums
import McpFlow.Library.Dict
import McpFlow.Library.Json
import McpFlow.Library.Text

/-!
# Entity alignment

The selector of tools may rename entities of a structured request to required inputs of a tool. A
renaming is applied as a whole or not at all: its sources are explicit entities that no input of the
tool claims and whose names are unique, its targets are missing required inputs, and the names of the
result are distinct up to case folding.
-/

namespace McpFlow.Agent

open Json (Value)

/-! ### Case folding -/

/-- `str.casefold`, character by character: white space has no case, and nothing folds to it. -/
structure CharFolding where
  fold : Char → List Char
  space : ∀ c, Text.isSpace c = true → fold c = [c]
  nonSpace : ∀ c, Text.isSpace c = false → fold c ≠ [] ∧ ∀ d ∈ fold c, Text.isSpace d = false

/-- `casefold`. -/
def CharFolding.casefold (u : CharFolding) (s : String) : String :=
  String.ofList (s.toList.flatMap u.fold)

/-! ### Structured requests -/

/-- `ParameterProvenance`. -/
inductive ParameterProvenance where
  | userExplicit
  | workflowInput
  | conversationConfirmed
  | stepOutput
  | policyDefault
  | modelDerived
  | secretReference
deriving DecidableEq, Repr

/-- `StructuredRequestEntity`, before its validation. -/
structure StructuredRequestEntity where
  name : String
  value : Value
  source : ParameterProvenance

/-- The fields of a `StructuredRequestV1`. -/
structure RequestData where
  requestText : String
  intent : String
  entities : List StructuredRequestEntity
  constraints : List String
  expectedOutputs : List String
  requiredCapabilities : List String
  riskHints : List RiskClass
  missingInputs : List String
  ambiguities : List String
  needsClarification : Bool

/-- The validators. -/
def RequestData.isValid (data : RequestData) : Bool :=
  Text.nonBlank data.requestText && Text.nonBlank data.intent &&
    data.entities.all (fun entity => Text.nonBlank entity.name) &&
    (data.requiredCapabilities ++ data.missingInputs ++ data.ambiguities).all Text.nonBlank &&
    data.needsClarification == (!data.missingInputs.isEmpty || !data.ambiguities.isEmpty)

/-- `StructuredRequestV1`. -/
structure StructuredRequestV1 extends RequestData where
  valid : toRequestData.isValid = true

/-- `StructuredRequestV1.model_validate`. -/
def StructuredRequestV1.modelValidate (data : RequestData) : Option StructuredRequestV1 :=
  if h : data.isValid = true then some ⟨data, h⟩ else none

/-- `EntityAlignmentMapping`; the validator strips its texts. -/
structure EntityAlignmentMapping where
  fromEntityName : String
  toRequiredInput : String
  rationale : String
  nonBlank : Text.nonBlank fromEntityName = true ∧ Text.nonBlank toRequiredInput = true ∧
    Text.nonBlank rationale = true
  stripped : Text.strip fromEntityName = fromEntityName ∧
    Text.strip toRequiredInput = toRequiredInput ∧ Text.strip rationale = rationale

variable (u : CharFolding)

/-- The stripped and folded name of an entity. -/
def StructuredRequestEntity.nameCf (entity : StructuredRequestEntity) : String :=
  u.casefold (Text.strip entity.name)

/-! ### The sets of names -/

/-- `_casefold_set`. -/
def casefoldSet (names : List String) : List String :=
  (names.filter fun name => Text.strip name ≠ "").map fun name => u.casefold (Text.strip name)

/-- `_entity_name_casefold_counts`. -/
def entityNameCasefoldCounts (entities : List StructuredRequestEntity) : Dict ℕ :=
  entities.foldl (fun counts entity =>
    if Text.strip entity.name = "" then counts
    else counts.set (entity.nameCf u) ((counts.get? (entity.nameCf u)).getD 0 + 1)) []

/-- `duplicate_entity_name_casefolds`. -/
def duplicateEntityNameCasefolds (entities : List StructuredRequestEntity) : List String :=
  ((entityNameCasefoldCounts u entities).filter fun p => 1 < p.2).map Prod.fst

/-- `missing_required_inputs`. -/
def missingRequiredInputs (requiredInputs : List String) (structured : StructuredRequestV1) :
    List String :=
  let present := casefoldSet u (structured.entities.map (·.name))
  requiredInputs.filterMap fun name =>
    let cleaned := Text.strip name
    if cleaned ≠ "" ∧ u.casefold cleaned ∉ present then some cleaned else none

/-- `unused_user_explicit_entities`. -/
def unusedUserExplicitEntities (structured : StructuredRequestV1)
    (requiredInputs optionalInputs : List String) : List StructuredRequestEntity :=
  let claimed := casefoldSet u requiredInputs ++ casefoldSet u optionalInputs
  structured.entities.filter fun entity =>
    Text.strip entity.name ≠ "" ∧ entity.source = .userExplicit ∧ entity.nameCf u ∉ claimed

/-! ### The renaming -/

/-- One turn of the loop that collects the unused names. -/
def collectUnused (duplicateSources : List String) (unusedByCf : Dict StructuredRequestEntity)
    (entity : StructuredRequestEntity) : Option (Dict StructuredRequestEntity) :=
  let cf := entity.nameCf u
  if cf ∈ duplicateSources then some unusedByCf
  else if (unusedByCf.get? cf).isSome then none
  else some (unusedByCf.set cf entity)

/-- The sets that the loop over the mappings fills. -/
structure Renames where
  usedFrom : List String
  usedTo : List String
  /-- Old folded names, and new required names. -/
  rename : Dict String

/-- One turn of the loop over the mappings. -/
def collectRename (duplicateSources : List String) (unusedByCf : Dict StructuredRequestEntity)
    (missingCf : Dict String) (acc : Renames) (item : EntityAlignmentMapping) : Option Renames :=
  let fromCf := u.casefold item.fromEntityName
  let toCf := u.casefold item.toRequiredInput
  if fromCf ∈ acc.usedFrom ∨ toCf ∈ acc.usedTo then none
  else if fromCf ∈ duplicateSources then none
  else if (unusedByCf.get? fromCf).isNone then none
  else (missingCf.get? toCf).map fun target =>
    { usedFrom := acc.usedFrom ++ [fromCf]
      usedTo := acc.usedTo ++ [toCf]
      rename := acc.rename.set fromCf target }

/-- The names that remain after the renaming. -/
def remainingNameCfs (rename : Dict String) (entities : List StructuredRequestEntity) :
    List String :=
  (entities.filter fun entity =>
    Text.strip entity.name ≠ "" ∧ (rename.get? (entity.nameCf u)).isNone).map
      (StructuredRequestEntity.nameCf u)

/-- One turn of the loop that makes the new entities; the names of the result are collected. -/
def renameEntity (rename : Dict String) (acc : List StructuredRequestEntity × List String)
    (entity : StructuredRequestEntity) : Option (List StructuredRequestEntity × List String) :=
  let nameCf := entity.nameCf u
  match rename.get? nameCf with
  | some newName =>
    if entity.source ≠ .userExplicit then none
    else if u.casefold newName ∈ acc.2 then none
    else some (acc.1 ++ [{ name := newName, value := entity.value, source := .userExplicit }],
      acc.2 ++ [u.casefold newName])
  | none =>
    if nameCf ≠ "" ∧ nameCf ∈ acc.2 then none
    else some (acc.1 ++ [entity], if nameCf ≠ "" then acc.2 ++ [nameCf] else acc.2)

/-- `apply_entity_alignments`. -/
def applyEntityAlignments (structured : StructuredRequestV1)
    (mappings : List EntityAlignmentMapping) (requiredInputs optionalInputs : List String) :
    Option StructuredRequestV1 :=
  if mappings = [] then none
  else do
    let duplicateSources := duplicateEntityNameCasefolds u structured.entities
    let missing := missingRequiredInputs u requiredInputs structured
    let missingCf := Dict.ofPairs (missing.map fun name => (u.casefold name, name))
    let unused := unusedUserExplicitEntities u structured requiredInputs optionalInputs
    let unusedByCf ← unused.foldlM (collectUnused u duplicateSources) []
    let renames ← mappings.foldlM (collectRename u duplicateSources unusedByCf missingCf)
      ⟨[], [], []⟩
    if renames.usedTo.any fun toCf =>
        toCf ∈ remainingNameCfs u renames.rename structured.entities then none
    else
      let (newEntities, _) ← structured.entities.foldlM (renameEntity u renames.rename) ([], [])
      StructuredRequestV1.modelValidate { structured.toRequestData with entities := newEntities }

end McpFlow.Agent
