import McpFlow.Approval.Evidence
import McpFlow.Library.Lists

/-!
# Stored approval evidence against its own origin

What a builder wrote is read back by the validators. For each builder, `_iff` lemmas say exactly
when the stored snapshot validates and which Execution and Step its lineage check accepts:

* a ToolPolicy context validates unless its Execution is a MANUAL_TOOL_TEST, whose shape (null
  `agent_version_id`, no `workflow_version_id`) the validator has no case for;
* a checkpoint context validates exactly when the `approver_scope` of its policy has a supported
  shape, which the builder copies without looking at it.
-/

namespace McpFlow.Approval

open Json (Value)

/-! ### UUID members -/

@[simp] theorem parseUuid?_uuidJson (u : UUID) : parseUuid? (uuidJson u) = some u := by
  simp [parseUuid?, uuidJson]

@[simp] theorem parseContextUuid_uuidJson (u : UUID) : parseContextUuid (uuidJson u) = .ok u := by
  simp [parseContextUuid]

@[simp] theorem isNull_uuidJson (u : UUID) : (uuidJson u).isNull = false := rfl

@[simp] theorem parseOptionalContextUuid_uuidJson (u : UUID) :
    parseOptionalContextUuid (uuidJson u) = .ok (some u) := by
  simp [parseOptionalContextUuid]

@[simp] theorem parseOptionalContextUuid_null :
    parseOptionalContextUuid .null = .ok none := rfl

@[simp] theorem parseOptionalContextUuid_optionalUuidJson (o : Option UUID) :
    parseOptionalContextUuid (optionalUuidJson o) = .ok o := by
  cases o with
  | none => rfl
  | some u => exact parseOptionalContextUuid_uuidJson u

/-! ### Lineage -/

/-- What a stored snapshot names: the Execution, the Step, the requester, the pinned versions and
the plan hash. -/
structure LineagePins where
  executionId : UUID
  stepExecutionId : UUID
  stepKey : String
  requesterId : UUID
  agentVersionId : Option UUID
  workflowVersionId : Option UUID
  mcpToolVersionId : Option UUID
  planHash : Sha256Hex
deriving DecidableEq

/-- The pins of a Step of an Execution. -/
def lineagePins (execution : Execution) (step : ExecutionStep) : LineagePins where
  executionId := execution.id
  stepExecutionId := step.id
  stepKey := step.stepKey
  requesterId := execution.requesterId
  agentVersionId := execution.agentVersionId
  workflowVersionId := execution.workflowVersionId
  mcpToolVersionId := step.mcpToolVersionId
  planHash := execution.planHash

/-! ### The ToolPolicy context -/

section Tool

variable {execution execution' : Execution} {step step' : ExecutionStep}
  {toolPolicy : MCPToolPolicy} {approvalPolicy : ApprovalPolicy}
  {resolvedInput source : List (String × Value)} {snapshot : Value}

/-- The three source shapes the builder writes. -/
theorem sourceContext_cases (h : sourceContext execution = .ok source) :
    (execution.sourceType = .manualToolTest ∧ execution.agentVersionId = none ∧
      execution.workflowVersionId = none ∧
      source = [("agent_version_id", .null), ("source_type", .str execution.sourceType.value)]) ∨
    (execution.sourceType ≠ .manualToolTest ∧ execution.agentVersionId = none ∧
      ∃ w, execution.workflowVersionId = some w ∧
        source = [("agent_version_id", .null), ("workflow_version_id", uuidJson w),
          ("source_type", .str execution.sourceType.value)]) ∨
    (execution.sourceType ≠ .manualToolTest ∧ execution.workflowVersionId = none ∧
      ∃ a, execution.agentVersionId = some a ∧ source = [("agent_version_id", uuidJson a)]) := by
  unfold sourceContext at h
  by_cases hm : execution.sourceType = .manualToolTest
  · rw [if_pos hm] at h
    split_ifs at h with hids
    simp only [Bool.or_eq_true, not_or, Bool.not_eq_true, Option.isSome_eq_false_iff,
      Option.isNone_iff_eq_none] at hids
    exact .inl ⟨hm, hids.1.1, hids.1.2, (Except.ok.inj h).symm⟩
  · rw [if_neg hm] at h
    split at h
    · cases h
    · next w hw ha => exact .inr (.inl ⟨hm, ha, w, hw, (Except.ok.inj h).symm⟩)
    · cases h
    · next a hw ha => exact .inr (.inr ⟨hm, hw, a, ha, (Except.ok.inj h).symm⟩)

/-- What a returned ToolPolicy snapshot is made of. -/
theorem buildApprovalContextSnapshot_eq_ok
    (h : buildApprovalContextSnapshot execution step toolPolicy approvalPolicy resolvedInput =
      .ok snapshot) :
    ∃ v source, step.mcpToolVersionId = some v ∧ sourceContext execution = .ok source ∧
      snapshot =
        .obj (baseContext execution step v toolPolicy approvalPolicy resolvedInput ++ source) := by
  unfold buildApprovalContextSnapshot at h
  split at h
  · cases h
  · next v hv =>
    simp only [bind_eq_ok_iff] at h
    obtain ⟨-, -, source, hsource, hsnap⟩ := h
    exact ⟨v, source, hv, hsource, (Except.ok.inj hsnap).symm⟩

/-- A ToolPolicy snapshot validates unless it belongs to a manual tool test. -/
theorem validateStoredContextSnapshot_tool_iff
    (h : buildApprovalContextSnapshot execution step toolPolicy approvalPolicy resolvedInput =
      .ok snapshot) :
    validateStoredContextSnapshot snapshot = .ok () ↔
      execution.sourceType ≠ .manualToolTest := by
  obtain ⟨v, source, -, hsource, rfl⟩ := buildApprovalContextSnapshot_eq_ok h
  obtain ⟨hm, -, -, rfl⟩ | ⟨hm, -, w, -, rfl⟩ | ⟨hm, -, a, -, rfl⟩ :=
    sourceContext_cases hsource <;>
  simp [validateStoredContextSnapshot, validateStoredToolContext, baseContext, requireKeys,
    Value.getD, Value.hasKey, List.lookup_cons, approvalContextSchemaVersion,
    approvalStepContextSchemaVersion, toolPolicyJson, approvalPolicyJson, hm]

/-- A ToolPolicy snapshot matches the lineage of the Execution and Step it was built for. -/
theorem assertLineageMatchesSnapshot_tool_self
    (h : buildApprovalContextSnapshot execution step toolPolicy approvalPolicy resolvedInput =
      .ok snapshot) :
    assertLineageMatchesSnapshot execution step snapshot = .ok () := by
  obtain ⟨v, source, hv, hsource, rfl⟩ := buildApprovalContextSnapshot_eq_ok h
  obtain ⟨-, ha, hw, rfl⟩ | ⟨-, ha, w, hw, rfl⟩ | ⟨-, hw, a, ha, rfl⟩ :=
    sourceContext_cases hsource <;>
  simp [assertLineageMatchesSnapshot, isAuthorableStepContext, assertToolLineageMatches,
    baseContext, Value.getD, Value.hasKey, List.lookup_cons, approvalContextSchemaVersion,
    approvalStepContextSchemaVersion, hv, ha, hw]

/-- A ToolPolicy snapshot matches no lineage with another pin. -/
theorem pins_eq_of_assertLineageMatchesSnapshot_tool
    (h : buildApprovalContextSnapshot execution step toolPolicy approvalPolicy resolvedInput =
      .ok snapshot)
    (hok : assertLineageMatchesSnapshot execution' step' snapshot = .ok ()) :
    lineagePins execution' step' = lineagePins execution step := by
  obtain ⟨v, source, hv, hsource, rfl⟩ := buildApprovalContextSnapshot_eq_ok h
  obtain ⟨-, ha, hw, rfl⟩ | ⟨-, ha, w, hw, rfl⟩ | ⟨-, hw, a, ha, rfl⟩ :=
    sourceContext_cases hsource <;>
  simp [assertLineageMatchesSnapshot, isAuthorableStepContext, assertToolLineageMatches,
    baseContext, Value.getD, Value.hasKey, List.lookup_cons, approvalContextSchemaVersion,
    approvalStepContextSchemaVersion] at hok <;>
  simp_all [lineagePins, Sha256Hex.ext_iff, eq_comm]

end Tool

/-! ### The checkpoint context -/

section Checkpoint

variable {computeCanonicalJsonHash : CanonicalHash} {execution execution' : Execution}
  {step step' : ExecutionStep} {plan : ExecutionPlanV1} {approvalPolicy : ApprovalPolicy}
  {steps : List ExecutionStep} {evidence : List Value} {snapshot : Value}

/-- `approver_scope` as the policy snapshot holds it. -/
def approverScopeJson (policy : ApprovalPolicy) : Value :=
  (policy.approverScope.map Value.obj).getD .null

/-- The checkpoint context as an object. -/
def checkpointContext (execution : Execution) (step : ExecutionStep)
    (approvalPolicy : ApprovalPolicy) (evidence : List Value) : Value :=
  .obj [
    ("schema_version", .str approvalStepContextSchemaVersion),
    ("approval_kind", .str approvalKindAuthorableStep),
    ("execution_id", uuidJson execution.id),
    ("step_execution_id", uuidJson step.id),
    ("step_key", .str step.stepKey),
    ("requester_id", uuidJson execution.requesterId),
    ("source_type", .str execution.sourceType.value),
    ("trigger_type", .str execution.triggerType.value),
    ("agent_version_id", optionalUuidJson execution.agentVersionId),
    ("workflow_version_id", optionalUuidJson execution.workflowVersionId),
    ("plan_hash", .str execution.planHash.val),
    ("approval_policy", approvalPolicySnapshot approvalPolicy),
    ("upstream_evidence", .arr evidence)]

/-- What a returned checkpoint snapshot is made of. -/
theorem buildApprovalStepContextSnapshot_eq_ok
    (h : buildApprovalStepContextSnapshot computeCanonicalJsonHash execution step plan
      approvalPolicy steps = .ok snapshot) :
    step.stepType = .approval ∧ step.mcpToolVersionId = none ∧
      plan.steps.find? (fun p => p.id == step.stepKey) = some step.stepSnapshot ∧
      ∃ evidence,
        buildUpstreamEvidence computeCanonicalJsonHash plan step.stepKey steps = some evidence ∧
        snapshot = checkpointContext execution step approvalPolicy evidence := by
  unfold buildApprovalStepContextSnapshot at h
  split_ifs at h with htype htool hstatus hplan hconfig
  split at h
  · cases h
  · next evidence hev =>
    refine ⟨by simpa using htype, by simpa using htool, by simpa using hplan, evidence, hev, ?_⟩
    exact (Except.ok.inj h).symm

/-- A plan step key is not empty. -/
theorem stepKey_ne_empty_of_find? {key : String} {planStep : ExecutionPlanStep}
    (h : plan.steps.find? (fun p => p.id == key) = some planStep) : key ≠ "" := by
  have hid : planStep.id = key := by simpa using List.find?_some h
  exact hid ▸ Text.ne_empty_of_nonBlank planStep.id_nonBlank

/-- The evidence of a row whose key is not empty has the canonical form. -/
theorem validateUpstreamEvidenceItem_of_row {row : ExecutionStep} (hkey : row.stepKey ≠ "") :
    validateUpstreamEvidenceItem (upstreamEvidenceItem computeCanonicalJsonHash row) = .ok () := by
  have htype : isOneOf (.str row.stepType.value) (AuthorableStepType.all.map (·.value)) = true := by
    simpa [isOneOf] using ⟨_, AuthorableStepType.mem_all row.stepType, rfl⟩
  have hstatus : isOneOf (.str row.status.value) (StepStatus.all.map (·.value)) = true := by
    simpa [isOneOf] using ⟨_, StepStatus.mem_all row.status, rfl⟩
  have hcond : ∀ o : Option Bool, ((Value.ofOptionBool o).isNull ||
      (Value.ofOptionBool o).bool?.isSome) = true := by
    rintro (_ | b) <;> rfl
  have herr : ∀ o : Option String, o = none ∨ (Value.ofOptionStr o).str?.isSome = true := by
    rintro (_ | b)
    · exact .inl rfl
    · exact .inr rfl
  have hhash : ∀ o : Option Sha256Hex, o = none ∨
      ((Value.ofOptionStr (o.map (·.val))).str?.map Text.isSha256Hex).getD false = true := by
    rintro (_ | d)
    · exact .inl rfl
    · exact .inr (by simp [Value.ofOptionStr, d.isHex])
  simp [validateUpstreamEvidenceItem, upstreamEvidenceItem, keysAre, upstreamEvidenceFields,
    Value.getD, List.lookup_cons, isNonemptyStr, hkey, htype, hstatus, hhash, hcond, herr]

/-- Every item of built evidence has the canonical form: its rows are keyed by plan ids. -/
theorem validateUpstreamEvidenceItem_of_mem {key : String} {item : Value}
    (h : buildUpstreamEvidence computeCanonicalJsonHash plan key steps = some evidence)
    (hitem : item ∈ evidence) : validateUpstreamEvidenceItem item = .ok () := by
  simp only [buildUpstreamEvidence, bind, Option.bind_eq_some_iff, pure, Option.some.injEq] at h
  obtain ⟨keys, hkeys, rows, hrows, rfl⟩ := h
  obtain ⟨row, hrow, rfl⟩ := List.mem_map.mp hitem
  obtain ⟨rowKey, hrowKey, hfind⟩ := List.mem_of_mapM_eq_some hrows hrow
  simp only [transitiveAncestorKeys, Option.map_eq_some_iff] at hkeys
  obtain ⟨ancestors, -, rfl⟩ := hkeys
  obtain ⟨planStep, -, rfl⟩ := List.mem_map.mp (List.mem_filter.mp hrowKey).1
  have hid : row.stepKey = planStep.id := by simpa using List.find?_some hfind
  exact validateUpstreamEvidenceItem_of_row
    (hid ▸ Text.ne_empty_of_nonBlank planStep.id_nonBlank)

/-- A policy snapshot validates exactly when its `approver_scope` is a supported one: the other
members are constrained by the columns they were read from. -/
theorem validateApprovalPolicySnapshot_iff :
    validateApprovalPolicySnapshot (approvalPolicySnapshot approvalPolicy) = .ok () ↔
      validateApproverScope (approverScopeJson approvalPolicy) = .ok () := by
  have hstatus : isOneOf (.str approvalPolicy.status.value) ["ACTIVE", "INACTIVE"] = true := by
    cases approvalPolicy.status <;> decide
  have hmode : isOneOf (.str approvalPolicy.decisionMode.value) ["ANY", "ALL", "QUORUM"] = true := by
    cases approvalPolicy.decisionMode <;> decide
  have hrequired := approvalPolicy.requiredApprovals_pos
  have hexpiry : 1 ≤ approvalPolicy.defaultExpirySeconds := approvalPolicy.defaultExpirySeconds_pos
  simp [validateApprovalPolicySnapshot, approvalPolicySnapshot, keysAre, policySnapshotFields,
    Value.getD, List.lookup_cons, requirePositiveInt, requireBool, hstatus, hmode, hrequired,
    hexpiry, approverScopeJson]

/-- A checkpoint snapshot validates exactly when its `approver_scope` is a supported one. -/
theorem validateStoredContextSnapshot_checkpoint_iff
    (h : buildApprovalStepContextSnapshot computeCanonicalJsonHash execution step plan
      approvalPolicy steps = .ok snapshot) :
    validateStoredContextSnapshot snapshot = .ok () ↔
      validateApproverScope (approverScopeJson approvalPolicy) = .ok () := by
  obtain ⟨-, -, hplan, evidence, hev, rfl⟩ := buildApprovalStepContextSnapshot_eq_ok h
  have hkey := stepKey_ne_empty_of_find? hplan
  have hhash := Text.ne_empty_of_isSha256Hex execution.planHash.isHex
  have hitems : evidence.forM validateUpstreamEvidenceItem = .ok () :=
    List.forM_eq_ok fun item hitem => validateUpstreamEvidenceItem_of_mem hev hitem
  have hunit : ∀ x : Except ErrorCode Unit, (∃ u, x = .ok u) ↔ x = .ok () := fun x =>
    ⟨fun ⟨_, hx⟩ => hx, fun hx => ⟨(), hx⟩⟩
  rw [← validateApprovalPolicySnapshot_iff]
  simp [validateStoredContextSnapshot, validateStoredApprovalStepContext, checkpointContext,
    requireKeys, Value.getD, Value.hasKey, List.lookup_cons, isNonemptyStr, hkey, hhash,
    approvalStepContextSchemaVersion, approvalKindAuthorableStep, hitems, hunit]

/-- A checkpoint snapshot matches the lineage of the Execution and Step it was built for. -/
theorem assertLineageMatchesSnapshot_checkpoint_self
    (h : buildApprovalStepContextSnapshot computeCanonicalJsonHash execution step plan
      approvalPolicy steps = .ok snapshot) :
    assertLineageMatchesSnapshot execution step snapshot = .ok () := by
  obtain ⟨htype, -, -, evidence, -, rfl⟩ := buildApprovalStepContextSnapshot_eq_ok h
  simp [assertLineageMatchesSnapshot, isAuthorableStepContext, assertApprovalStepLineageMatches,
    checkpointContext, approvalPolicySnapshot, Value.getD, List.lookup_cons,
    approvalStepContextSchemaVersion, htype]

/-- A checkpoint snapshot matches no lineage with another pin. -/
theorem pins_eq_of_assertLineageMatchesSnapshot_checkpoint
    (h : buildApprovalStepContextSnapshot computeCanonicalJsonHash execution step plan
      approvalPolicy steps = .ok snapshot)
    (hok : assertLineageMatchesSnapshot execution' step' snapshot = .ok ()) :
    lineagePins execution' step' = lineagePins execution step := by
  obtain ⟨-, htool, -, evidence, -, rfl⟩ := buildApprovalStepContextSnapshot_eq_ok h
  simp [assertLineageMatchesSnapshot, isAuthorableStepContext, assertApprovalStepLineageMatches,
    checkpointContext, approvalPolicySnapshot, Value.getD, List.lookup_cons,
    approvalStepContextSchemaVersion] at hok
  have htool' : step'.mcpToolVersionId = none := by
    have hsome := step'.toolVersion_isSome
    simp_all
  simp_all [lineagePins, Sha256Hex.ext_iff, eq_comm]

end Checkpoint

end McpFlow.Approval
