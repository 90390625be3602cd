import McpFlow.Execution.LoopRuntime
import McpFlow.Library.Except

/-!
# Completion

What a failed Step does to its Execution, which skips are intentional, and the ALL_REQUIRED
aggregation at the natural end of a plan.
-/

namespace McpFlow

/-- `is_continuable_known_failure`. -/
def isContinuableKnownFailure (onError : PlanOnError) (stepStatus : StepStatus) : Bool :=
  (onError == .markPartial || onError == .continue) &&
    (stepStatus == .failed || stepStatus == .timedOut)

/-- `fail_fast_execution_status`. -/
def failFastExecutionStatus (stepStatus : StepStatus) : ExecutionStatus :=
  if stepStatus = .timedOut then .timedOut else .failed

/-- `is_intentional_conditional_skip`, and the copy of it that the completion uses. -/
def ExecutionStep.isIntentionalConditionalSkip (s : ExecutionStep) : Bool :=
  s.status == .skipped &&
    (s.errorCode == some "STEP_WHEN_FALSE" || s.errorCode == some "UPSTREAM_CONDITION_SKIPPED")

/-- `is_loop_stopped_child_neutral_for_completion`. -/
def isLoopStoppedChildNeutral (steps : List ExecutionStep) (s : ExecutionStep) : Bool :=
  match s.parentStepId with
  | none => false
  | some parentStepId =>
    s.errorCode == some "UPSTREAM_LOOP_STOPPED" &&
      (s.status == .skipped || s.status == .cancelled) &&
      match steps.find? (·.id = parentStepId) with
      | none => false
      | some parent =>
        parent.stepType == .loop && (parent.status == .failed || parent.status == .timedOut) &&
          (parent.stepSnapshot.onError == .continue || parent.stepSnapshot.onError == .markPartial)

/-- `_FAILURE_LIKE`. -/
def StepStatus.isFailureLike : StepStatus → Bool
  | failed | timedOut | unknownOutcome | cancelled => true
  | _ => false

/-- `CompletionDecision`. -/
structure CompletionDecision where
  status : ExecutionStatus
  errorCode : Option String
deriving DecidableEq, Repr

/-- The evidence that `aggregate_all_required` collects. -/
structure CompletionEvidence where
  markPartialFailure : Bool
  continueRequiredFailure : Bool
  requiredAllSucceeded : Bool
deriving DecidableEq, Repr

/-- `_apply` of `aggregate_all_required`. -/
def CompletionEvidence.apply (steps : List ExecutionStep) (ev : CompletionEvidence)
    (ps : ExecutionPlanStep) (s : ExecutionStep) : CompletionEvidence :=
  if isLoopStoppedChildNeutral steps s then ev
  else
    let failed := s.status.isFailureLike
    { markPartialFailure := ev.markPartialFailure || (failed && ps.onError == .markPartial)
      continueRequiredFailure :=
        ev.continueRequiredFailure || (failed && ps.required && ps.onError == .continue)
      requiredAllSucceeded := ev.requiredAllSucceeded &&
        (!ps.required || s.status == .succeeded || s.isIntentionalConditionalSkip) }

/-- The evidence of the top-level plan steps, then of the LOOP body instances. -/
def completionEvidence (topLevel : List ExecutionPlanStep) (steps : List ExecutionStep) :
    CompletionEvidence :=
  let top := topLevel.foldl
    (fun ev ps =>
      match steps.reverse.find? fun s => s.parentStepId = none ∧ s.stepKey = ps.id with
      | none => { ev with requiredAllSucceeded := false }
      | some s => ev.apply steps ps s)
    ⟨false, false, true⟩
  (steps.filter (·.parentStepId.isSome)).foldl (fun ev s => ev.apply steps s.stepSnapshot s) top

/-- `aggregate_all_required`. -/
def aggregateAllRequired (plan : ExecutionPlanV1) (steps : List ExecutionStep) :
    Except AppError CompletionDecision := do
  let topLevel ← topLevelPlanSteps plan
  let ev := completionEvidence topLevel steps
  if ev.requiredAllSucceeded && !ev.markPartialFailure then
    return ⟨.succeeded, none⟩
  else if steps.any (·.status == .succeeded) &&
      (ev.markPartialFailure || ev.continueRequiredFailure) then
    return ⟨.partiallySucceeded, none⟩
  else return ⟨.failed, some "ALL_REQUIRED_UNSATISFIED"⟩

/-- The natural ends of an Execution. -/
theorem aggregateAllRequired_ok {plan : ExecutionPlanV1} {steps : List ExecutionStep}
    {decision : CompletionDecision} (h : aggregateAllRequired plan steps = .ok decision) :
    decision.status = .succeeded ∨ decision.status = .partiallySucceeded ∨
      decision.status = .failed := by
  obtain ⟨topLevel, -, h⟩ := Except.bind_eq_ok_iff.mp h
  dsimp only at h
  split at h
  · cases h
    exact .inl rfl
  split at h
  · cases h
    exact .inr (.inl rfl)
  · cases h
    exact .inr (.inr rfl)

end McpFlow
