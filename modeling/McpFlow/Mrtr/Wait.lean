import McpFlow.Execution.State

/-!
# Durable WAITING_INPUT evidence

`assert_durable_waiting_input` checks the rows of an MRTR wait before the runner reuses it or a user
answers it. The immutable plan and binding lineage of the Attempt (`assert_resume_attempt_lineage`)
is a verdict from outside the rows.
-/

namespace McpFlow.Mrtr

/-- `assert_durable_waiting_input`. -/
def assertDurableWaitingInput (resumeLineage : Except AppError Unit) (db : Db)
    (step : ExecutionStep) : Except AppError McpInputRequest :=
  if db.execution.status ≠ .waitingInput then
    .error (conflict "Execution is not WAITING_INPUT.")
  else if step.status ≠ .waitingInput then
    .error (conflict "Step is not WAITING_INPUT.")
  else if !db.execution.leaseCleared then
    .error (conflict "WAITING_INPUT Execution must not retain worker lease fields.")
  else match db.listOpenForStep step.id with
    | [] => .error (conflict "WAITING_INPUT is missing OPEN MCPInputRequest evidence.")
    | _ :: _ :: _ => .error (conflict "WAITING_INPUT has multiple OPEN MCPInputRequest rows.")
    | [request] =>
      if request.roundNo < 1 then
        .error (conflict "OPEN MCPInputRequest lineage is inconsistent.")
      else match (db.listAttempts step.id).filter (·.status = .started) with
        | [attempt] =>
          if attempt.id ≠ request.stepAttemptId then
            .error (conflict "OPEN MCPInputRequest does not reference the STARTED Attempt.")
          else if attempt.workerId ≠ none ∨ attempt.leaseExpiresAt ≠ none ∨
              attempt.finishedAt ≠ none then
            .error (conflict
              "WAITING_INPUT Attempt must clear worker/lease and stay unfinished.")
          else match resumeLineage with
            | .error e => .error e
            | .ok () =>
              let toolCalls := db.listToolCalls attempt.id
              let succeeded := toolCalls.filter (·.normalizedStatus = .succeeded)
              if attempt.attemptNo ≠ step.attemptCount then
                .error (conflict "STARTED Attempt attempt_no does not match Step.attempt_count.")
              else if db.attemptHasStartedToolCall attempt.id then
                .error (conflict "WAITING_INPUT must not retain a STARTED ToolCall.")
              else if succeeded = [] then
                .error (conflict "WAITING_INPUT requires SUCCEEDED ToolCall round evidence.")
              else if toolCalls.length ≠ succeeded.length ∨
                  succeeded.length ≠ request.roundNo then
                .error (conflict "WAITING_INPUT ToolCall evidence does not match round_no.")
              else .ok request
        | _ => .error (conflict "WAITING_INPUT requires exactly one STARTED Attempt.")

/-- The wait evidence names an OPEN request of the Step. -/
theorem mem_of_assertDurableWaitingInput {resumeLineage : Except AppError Unit} {db : Db}
    {step : ExecutionStep} {request : McpInputRequest}
    (h : assertDurableWaitingInput resumeLineage db step = .ok request) :
    db.execution.status = .waitingInput ∧ request ∈ db.inputRequests ∧ request.status = .open ∧
      request.stepExecutionId = step.id := by
  unfold assertDurableWaitingInput at h
  split at h
  · cases h
  next hwait =>
  split at h
  · cases h
  split at h
  · cases h
  split at h
  · cases h
  · cases h
  next open? hopen =>
  split at h
  · cases h
  split at h
  · split at h
    · cases h
    split at h
    · cases h
    split at h
    · cases h
    dsimp only at h
    split at h
    · cases h
    split at h
    · cases h
    split at h
    · cases h
    split at h
    · cases h
    cases h
    have hmem : request ∈ db.listOpenForStep step.id := by
      rw [hopen]
      exact List.mem_singleton_self _
    have hfacts := List.mem_filter.mp hmem
    simp only [decide_eq_true_eq] at hfacts
    exact ⟨not_not.mp hwait, hfacts.1, hfacts.2.2.2, hfacts.2.2.1⟩
  · cases h

end McpFlow.Mrtr
