import McpFlow.Approval.RoundTrip

/-!
# Stored approval evidence

`storedEvidence_accepted_iff`: the request the runtime stores for a Step is accepted for that
Execution and Step, and for no other one, exactly when the Step is not the TOOL of a manual tool
test and a checkpoint's `approver_scope` has a supported shape. The canonical hash is arbitrary:
nothing here depends on which digest is stored next to the snapshot, only on it being recomputed
from the same value.
-/

namespace McpFlow.Approval

open Json (Value)

/-- What an approval snapshot is built from, besides the Execution and the Step. -/
inductive Origin where
  | toolPolicy (toolPolicy : MCPToolPolicy) (approvalPolicy : ApprovalPolicy)
      (resolvedInput : List (String × Value))
  | checkpoint (plan : ExecutionPlanV1) (approvalPolicy : ApprovalPolicy)
      (steps : List ExecutionStep)

/-- The builder of an origin. -/
def Origin.build (computeCanonicalJsonHash : CanonicalHash) (execution : Execution)
    (step : ExecutionStep) : Origin → Except ErrorCode Value
  | toolPolicy tp ap resolvedInput =>
    buildApprovalContextSnapshot execution step tp ap resolvedInput
  | checkpoint plan ap steps =>
    buildApprovalStepContextSnapshot computeCanonicalJsonHash execution step plan ap steps

/-- The origins whose snapshot the validators have a case for. -/
def Origin.Supported (execution : Execution) : Origin → Prop
  | toolPolicy _ _ _ => execution.sourceType ≠ .manualToolTest
  | checkpoint _ ap _ => validateApproverScope (approverScopeJson ap) = .ok ()

/-- A stored request passes the three checks for an Execution and a Step. -/
structure Accepted (computeCanonicalJsonHash : CanonicalHash) (execution : Execution)
    (step : ExecutionStep) (request : ApprovalRequest) : Prop where
  snapshot : validateStoredContextSnapshot request.contextSnapshot = .ok ()
  hash : assertRequestContextHashIntact computeCanonicalJsonHash request = .ok ()
  lineage : assertLineageMatchesSnapshot execution step request.contextSnapshot = .ok ()

variable {computeCanonicalJsonHash : CanonicalHash} {execution execution' : Execution}
  {step step' : ExecutionStep} {origin : Origin} {request : ApprovalRequest}

/-- A built snapshot validates exactly for the supported origins. -/
theorem validateStoredContextSnapshot_iff_supported {snapshot : Value}
    (h : origin.build computeCanonicalJsonHash execution step = .ok snapshot) :
    validateStoredContextSnapshot snapshot = .ok () ↔ origin.Supported execution := by
  cases origin with
  | toolPolicy tp ap resolvedInput => exact validateStoredContextSnapshot_tool_iff h
  | checkpoint plan ap steps => exact validateStoredContextSnapshot_checkpoint_iff h

/-- A built snapshot matches its own lineage. -/
theorem assertLineageMatchesSnapshot_self {snapshot : Value}
    (h : origin.build computeCanonicalJsonHash execution step = .ok snapshot) :
    assertLineageMatchesSnapshot execution step snapshot = .ok () := by
  cases origin with
  | toolPolicy tp ap resolvedInput => exact assertLineageMatchesSnapshot_tool_self h
  | checkpoint plan ap steps => exact assertLineageMatchesSnapshot_checkpoint_self h

/-- A built snapshot matches no other lineage. -/
theorem pins_eq_of_assertLineageMatchesSnapshot {snapshot : Value}
    (h : origin.build computeCanonicalJsonHash execution step = .ok snapshot)
    (hok : assertLineageMatchesSnapshot execution' step' snapshot = .ok ()) :
    lineagePins execution' step' = lineagePins execution step := by
  cases origin with
  | toolPolicy tp ap resolvedInput => exact pins_eq_of_assertLineageMatchesSnapshot_tool h hok
  | checkpoint plan ap steps => exact pins_eq_of_assertLineageMatchesSnapshot_checkpoint h hok

/-- **Stored evidence against its own origin.** The stored request is accepted for the Execution
and Step it was built for and rejected for every other lineage exactly when its origin is a
supported one. -/
theorem storedEvidence_accepted_iff
    (hbuild : origin.build computeCanonicalJsonHash execution step = .ok request.contextSnapshot)
    (hhash : request.contextHash = computeCanonicalJsonHash request.contextSnapshot) :
    (Accepted computeCanonicalJsonHash execution step request ∧
      ∀ execution' step', lineagePins execution' step' ≠ lineagePins execution step →
        ¬ Accepted computeCanonicalJsonHash execution' step' request) ↔
      origin.Supported execution := by
  have hvalid := validateStoredContextSnapshot_iff_supported hbuild
  constructor
  · rintro ⟨haccepted, -⟩
    exact hvalid.mp haccepted.snapshot
  · intro hsupported
    have hsnap := hvalid.mpr hsupported
    have hintact : assertRequestContextHashIntact computeCanonicalJsonHash request = .ok () := by
      simp [assertRequestContextHashIntact, hsnap, hhash]
    refine ⟨⟨hsnap, hintact, assertLineageMatchesSnapshot_self hbuild⟩, ?_⟩
    intro execution' step' hne haccepted
    exact hne (pins_eq_of_assertLineageMatchesSnapshot hbuild haccepted.lineage)

/-! ### A manual tool test and an agent request -/

/-- The plan step of a manual tool test. -/
def testToolPlanStep : ExecutionPlanStep where
  id := "tool_1"
  type := .tool
  required := true
  dependsOn := []
  when := none
  timeoutSeconds := 30
  onError := .failExecution
  config := .tool ⟨7, by decide⟩ []
  id_nonBlank := by decide
  timeoutSeconds_pos := by decide

/-- The TOOL Step of a single-TOOL Execution, ready to be sent. -/
def testToolStep : ExecutionStep where
  id := ⟨2, by decide⟩
  stepKey := "tool_1"
  stepType := .tool
  mcpToolVersionId := some ⟨7, by decide⟩
  parentStepId := none
  status := .ready
  stepSnapshot := testToolPlanStep
  resolvedInput := none
  resultInline := none
  conditionResult := none
  iterationNo := none
  attemptCount := 0
  readyAt := some 0
  startedAt := none
  finishedAt := none
  errorCode := none
  toolVersion_isSome := by decide

/-- A running single-TOOL Execution of a source type with its Agent version. -/
def singleToolExecution (sourceType : ExecutionSourceType) (agentVersionId : Option UUID) :
    Execution where
  id := ⟨1, by decide⟩
  sourceType := sourceType
  triggerType := .user
  requesterId := ⟨3, by decide⟩
  agentVersionId := agentVersionId
  workflowVersionId := none
  scheduleOccurrenceId := none
  status := .running
  planSnapshot := ⟨⟨20, 4, 50, by decide, by decide, by decide⟩, [testToolPlanStep]⟩
  planHash := .replicate 'a' (by decide)
  errorCode := none
  queuedAt := some 0
  startedAt := some 0
  finishedAt := none
  cancelRequestedAt := none
  cancelRequestedBy := none
  workerId := some "worker"
  leaseToken := some ⟨4, by decide⟩
  leaseExpiresAt := some 60
  heartbeatAt := some 0

/-- A ToolPolicy that requires approval, its ApprovalPolicy, and an empty resolved input. -/
def approvalRequiredOrigin : Origin :=
  .toolPolicy ⟨⟨5, by decide⟩, true, false, some ⟨6, by decide⟩, .readOnly⟩
    ⟨⟨6, by decide⟩, .active, .any, 1, none, 3600, false, false, by decide, by decide⟩ []

/-- A request that stores a snapshot with its hash. -/
def pendingRequest (contextSnapshot : Value) (contextHash : Sha256Hex) : ApprovalRequest where
  id := ⟨8, by decide⟩
  executionId := ⟨1, by decide⟩
  stepExecutionId := ⟨2, by decide⟩
  status := .pending
  contextSnapshot := contextSnapshot
  contextHash := contextHash
  expiresAt := 3600
  resolvedAt := none

/-- **A manual tool test cannot be decided.** The builder returns a snapshot for its TOOL, and
the stored request is refused for the same Execution and Step. -/
theorem manualToolTest_stored_but_refused :
    ∃ snapshot : Value,
      approvalRequiredOrigin.build (fun _ => .replicate 'b' (by decide))
        (singleToolExecution .manualToolTest none) testToolStep = .ok snapshot ∧
      ¬ Accepted (fun _ => .replicate 'b' (by decide))
        (singleToolExecution .manualToolTest none) testToolStep
        (pendingRequest snapshot (.replicate 'b' (by decide))) := by
  refine ⟨_, rfl, fun haccepted => ?_⟩
  have hrefused : (.error .resourceConflict : Except ErrorCode Unit) = .ok () := haccepted.snapshot
  cases hrefused

/-- The request of an Agent's Execution is accepted for it and for no other one. -/
theorem agentRequest_stored_accepted :
    ∃ snapshot : Value,
      approvalRequiredOrigin.build (fun _ => .replicate 'b' (by decide))
        (singleToolExecution .agentRequest (some ⟨9, by decide⟩)) testToolStep = .ok snapshot ∧
      Accepted (fun _ => .replicate 'b' (by decide))
        (singleToolExecution .agentRequest (some ⟨9, by decide⟩)) testToolStep
        (pendingRequest snapshot (.replicate 'b' (by decide))) ∧
      ∀ execution' step', lineagePins execution' step' ≠
        lineagePins (singleToolExecution .agentRequest (some ⟨9, by decide⟩)) testToolStep →
        ¬ Accepted (fun _ => .replicate 'b' (by decide)) execution' step'
          (pendingRequest snapshot (.replicate 'b' (by decide))) :=
  ⟨_, rfl, (storedEvidence_accepted_iff
    (show approvalRequiredOrigin.build _ _ _ = _ from rfl) rfl).mpr
    fun hmanual => by cases hmanual⟩

end McpFlow.Approval
