import McpFlow.Execution.LocalReconcile
import McpFlow.Execution.ToolRunner

/-!
# The wave orchestrator

The transactions of `ExecutionOrchestrator.run`: a wave of TOOL Steps is prepared and reserved,
run by the Tool Runner, and settled; a plan without a ready TOOL is finished by the natural end.
-/

namespace McpFlow

/-- `_has_running_lease`. -/
def Execution.hasRunningLease (e : Execution) (worker : String) (token : UUID) (now : Time) :
    Bool :=
  e.status == .running && e.holdsLease worker token now

/-- The outcome without progress. -/
def ProgressOutcome.idle (reason : String) (status : Option ExecutionStatus) : ProgressOutcome :=
  { executionComplete := false, reason := reason, executionStatus := status }

/-- `STALE_LEASE`. -/
def ProgressOutcome.staleLease (e : Execution) : ProgressOutcome :=
  .idle "STALE_LEASE" (some e.status)

/-- The plan lineage and the DAG of the rows. -/
def validateLineage (env : RuntimeEnv) (db : Db) : Except AppError ToolJoinDag := do
  env.planLineage
  validateToolJoinDag env.digest db.execution.planSnapshot db.steps.rows

/-- The heartbeat of a progress transaction. -/
def Db.beat (db : Db) (now : Time) : Db :=
  db.putExecution { db.execution with heartbeatAt := some now }

/-! ### Reserving a wave -/

/-- A TOOL enters the wave. -/
def ExecutionStep.promote (s : ExecutionStep) (now : Time) : ExecutionStep :=
  { s with status := .ready, readyAt := some now }

/-- The TOOLs that a reservation promotes. -/
def promotable (dag : ToolJoinDag) (db : Db) : List ExecutionStep :=
  ((dag.orderedStepKeys.filterMap (rowByKey db.steps.rows)).filter
    (toolStructurallyEligible dag db.steps.rows)).take
      (dag.maxParallelism - countToolSlots db.steps.rows)

/-- The READY TOOLs in scheduling order. -/
def readyTools (dag : ToolJoinDag) (db : Db) : List UUID :=
  ((dag.orderedStepKeys.filterMap (rowByKey db.steps.rows)).filter fun s =>
    s.stepType = .tool ∧ s.status = .ready).map (·.id)

/-- `_reserve_tool_wave_locked`. -/
def reserveToolWave (dag : ToolJoinDag) (singleTool : Bool) (now : Time) (db : Db) :
    ProgressOutcome × Db :=
  let promoted := promotable dag db
  let db := (promoted.foldl (fun db s => db.putStep (s.promote now)) db).beat now
  let readyIds := readyTools dag db
  ({ executionComplete := false
     promoted := !promoted.isEmpty
     reason := if readyIds.isEmpty then "NO_READY" else "WAVE_READY"
     readyStepIds := readyIds
     planOrder := dag.orderedStepKeys
     singleTool := singleTool }, db)

/-! ### Preparing a wave -/

/-- A wait, also a one-sided one, and the Step that it belongs to. -/
def waitTarget (db : Db) : Option ExecutionStep :=
  let waiting := db.steps.rows.filter fun s =>
    s.status = .waitingApproval ∨ s.status = .waitingInput
  if waiting ≠ [] then waiting.head?
  else if db.execution.status = .waitingApproval ∨ db.execution.status = .waitingInput then
    db.steps.rows.find? fun s => s.stepType = .tool ∨ s.stepType = .approval
  else none

/-- The RUNNING TOOLs. -/
def runningTools (db : Db) : List ExecutionStep :=
  db.steps.rows.filter fun s => s.stepType = .tool ∧ s.status = .running

/-- A RUNNING TOOL has a call in flight. -/
def toolInFlight (db : Db) (s : ExecutionStep) : Bool :=
  (db.listAttempts s.id).any fun a => a.status == .started && db.attemptHasStartedToolCall a.id

/-- `_prepare_wave` once the DAG is valid and no TOOL is RUNNING. -/
def prepareReconciled (env : RuntimeEnv) (dag : ToolJoinDag) (now : Time) (db : Db) :
    Tx ProgressOutcome :=
  let singleTool := isSingleToolExecution db.steps.rows
  match localReconcile env dag now db with
  | .error e => .error e
  | .ok (.stop outcome db) => .ok (outcome, db)
  | .ok (.go _ db) =>
    match validateToolJoinDag env.digest db.execution.planSnapshot db.steps.rows with
    | .error e => .ok (failClosedLineage e.code now db)
    | .ok dag => .ok (reserveToolWave dag singleTool now db)

/-- `_prepare_wave` under the lease. -/
def prepareOwnedWave (env : RuntimeEnv) (now : Time) (db : Db) : Tx ProgressOutcome :=
  let running := runningTools db
  let singleTool := isSingleToolExecution db.steps.rows
  if running.any (toolInFlight db) then
    if singleTool ∧ running.length = 1 then
      .ok ({ executionComplete := false
             reason := "WAVE_READY"
             readyStepIds := running.map (·.id)
             singleTool := true }, db.beat now)
    else .ok (.idle "WAVE_IN_PROGRESS" none, db)
  else match validateLineage env db with
    | .error e => .ok (failClosedLineage e.code now db)
    | .ok dag =>
      if running ≠ [] then
        .ok ({ executionComplete := false
               reason := "WAVE_READY"
               readyStepIds := ((dag.orderedStepKeys.filterMap (rowByKey db.steps.rows)).filter
                 fun s => s.status = .running ∧ s.stepType = .tool).map (·.id)
               planOrder := dag.orderedStepKeys
               singleTool := singleTool }, db.beat now)
      else prepareReconciled env dag now db

/-- `_prepare_wave`. -/
def prepareWave (env : RuntimeEnv) (worker : String) (token : UUID) (now : Time) (db : Db) :
    Tx ProgressOutcome :=
  if db.execution.status.isTerminal then
    .ok ({ executionComplete := true
           reason := "STEP_ALREADY_TERMINAL"
           executionStatus := some db.execution.status }, db)
  else if db.execution.status = .cancelRequested then
    if db.listStartedToolCalls ≠ [] then
      .ok (.idle "CANCEL_IN_PROGRESS" (some db.execution.status), db)
    else match reconcileCancelRequested now db with
      | .error e => .error e
      | .ok (outcome, db) => .ok (
          { executionComplete := true
            reason := "CANCELLED"
            executionStatus := some outcome.status }, db)
  else match waitTarget db with
    | some target =>
      if target.stepType = .approval then
        .ok ({ executionComplete := false
               reason := "WAITING_APPROVAL"
               executionStatus := some db.execution.status
               readyStepIds := [target.id] }, db)
      else
        .ok ({ executionComplete := false
               reason := "WAITING_HANDOFF"
               readyStepIds := [target.id] }, db)
    | none =>
      if !db.execution.hasRunningLease worker token now then .ok (.staleLease db.execution, db)
      else prepareOwnedWave env now db

/-! ### Before the wave -/

/-- `_select_approval_suspension_wave`: the first TOOL of the wave whose pinned policy requires an
approval. `requiresApproval` reads the policy snapshot of the Execution. -/
def selectApprovalSuspensionWave (requiresApproval : ExecutionStep → Except AppError Bool)
    (db : Db) : List UUID → Except AppError (Option UUID)
  | [] => .ok none
  | stepId :: stepIds =>
    match db.steps.find? stepId with
    | none => .error (conflict "Wave TOOL Step missing during approval pre-scan.")
    | some step =>
      if step.stepType ≠ .tool then selectApprovalSuspensionWave requiresApproval db stepIds
      else match requiresApproval step with
        | .error e => .error e
        | .ok true => .ok (some stepId)
        | .ok false => selectApprovalSuspensionWave requiresApproval db stepIds

/-- `_fail_closed_pre_wave_policy`. -/
def failClosedPreWavePolicy (worker : String) (token : UUID) (errorCode : String) (now : Time)
    (db : Db) : Tx ProgressOutcome :=
  if !db.execution.hasRunningLease worker token now then .ok (.staleLease db.execution, db)
  else .ok (failClosedLineage errorCode now db)

/-! ### Settling a wave -/

/-- `_effective_disposition`. -/
def effectiveDisposition (outcome : ToolRunOutcome) : StepRunDisposition :=
  if outcome.disposition ≠ .noop then outcome.disposition
  else if outcome.reason = "SAFE_RETRY_READY" then .retry
  else if outcome.reason = "WAITING_APPROVAL" ∨ outcome.reason = "WAITING_INPUT" then .wait
  else match outcome.terminalStatus.bind StepStatus.ofValue? with
    | some .succeeded => .success
    | some .unknownOutcome => .fatalExecutionFailure
    | some .failed | some .timedOut => .knownStepFailure
    | _ => .noop

/-- The position of a Step in the order of its wave. -/
def planIndexOf (planOrder : List String) (stepKey : String) : ℕ :=
  (planOrder.findIdx? (· = stepKey)).getD 1000000000

/-- `on_error` of a Step of the wave; a row that is no plan projection stops the Execution. -/
def settledOnError (plan : ExecutionPlanV1) (step : ExecutionStep) : PlanOnError :=
  match runtimePlanStep plan step with
  | .ok planStep => planStep.onError
  | .error _ => .failExecution

/-- The stop cause of one outcome of a wave. -/
def stopCauseOf (planOrder : List String) (db : Db) (stepId : UUID) (outcome : ToolRunOutcome) :
    Option StopCause :=
  (db.steps.find? stepId).bind fun step =>
    let disposition := effectiveDisposition outcome
    let cause (kind : StopKind) (stepStatus : String) : StopCause :=
      ⟨step.stepKey, planIndexOf planOrder step.stepKey, kind, stepStatus, step.errorCode⟩
    if disposition = .fatalExecutionFailure ∨
        outcome.terminalStatus = some StepStatus.unknownOutcome.value then
      some (cause .fatal (outcome.terminalStatus.getD StepStatus.failed.value))
    else if disposition ≠ .knownStepFailure then none
    else
      let onError := settledOnError db.execution.planSnapshot step
      let term := outcome.terminalStatus.getD step.status.value
      if onError = .failExecution ∨
          !(StepStatus.ofValue? term).any (isContinuableKnownFailure onError) then
        some (cause (if term = StepStatus.timedOut.value then .failExecutionTimedOut
          else .failExecutionFailed) term)
      else none

/-- The Execution status of a stop cause. -/
def StopCause.executionStatus (c : StopCause) : ExecutionStatus :=
  if c.kind ≠ .fatal ∧ c.stepStatus = StepStatus.timedOut.value then .timedOut else .failed

/-- The stop of a settled wave. -/
def applyStopCause (stop : StopCause) (now : Time) (db : Db) : ProgressOutcome × Db :=
  ({ executionComplete := true
     reason := stop.errorCode.getD (executionReason stop.executionStatus)
     executionStatus := some stop.executionStatus
     stepTerminalStatus := some stop.stepStatus },
    (db.stopUnstartedSteps now).terminateExecution stop.executionStatus stop.errorCode now)

/-- `_settle_wave` under a requested cancellation. -/
def settleCancellation (worker : String) (token : UUID) (now : Time) (db : Db) :
    Tx ProgressOutcome :=
  if db.execution.status = .cancelled ∨ db.execution.status = .failed then
    .ok ({ executionComplete := true
           reason := if db.execution.status = .cancelled then "CANCELLED"
             else executionReason .failed
           executionStatus := some db.execution.status }, db)
  else if db.execution.status = .cancelRequested ∧ db.execution.workerId = some worker ∧
      db.execution.leaseToken = some token then
    match reconcileCancelRequested now db with
    | .error e => .error e
    | .ok (outcome, db) => .ok (
        { executionComplete := outcome.status == .cancelled || outcome.status == .failed
          reason := if outcome.status = .failed then executionReason .failed
            else if outcome.status = .cancelled then "CANCELLED" else "CANCEL_IN_PROGRESS"
          executionStatus := some outcome.status }, db)
  else .ok (.idle "CANCEL_IN_PROGRESS" (some db.execution.status), db)

/-- `_dag_naturally_ended`. -/
def dagNaturallyEnded (db : Db) : Bool := db.steps.rows.all (·.status.isTerminal)

/-- The natural end after a local reconcile; `none` while a Step is open. -/
def naturalEnd (now : Time) (db : Db) : Except Raised (Option (ProgressOutcome × Db)) :=
  if !dagNaturallyEnded db then .ok none
  else match aggregateAllRequired db.execution.planSnapshot db.steps.rows with
    | .error e => .error (.appError e)
    | .ok decision => .ok (some (
        { executionComplete := true
          reason := executionReason decision.status
          executionStatus := some decision.status },
        db.terminateExecution decision.status decision.errorCode now))

/-- `_settle_wave` once nothing stops the Execution: the lease, the local reconcile, the natural
end. -/
def settleContinuable (env : RuntimeEnv) (dag : ToolJoinDag) (worker : String) (token : UUID)
    (now : Time) (db : Db) : Tx ProgressOutcome :=
  if db.execution.cancellationIsRequested then settleCancellation worker token now db
  else if !db.execution.hasRunningLease worker token now then .ok (.idle "STALE_LEASE" none, db)
  else match localReconcile env dag now db with
    | .error e => .error e
    | .ok (.stop outcome db) => .ok (outcome, db)
    | .ok (.go _ db) => match naturalEnd now db with
      | .error e => .error e
      | .ok (some result) => .ok result
      | .ok none => .ok (.idle "WAVE_SETTLED" none, db.beat now)

/-- `_settle_wave`. -/
def settleWave (env : RuntimeEnv) (worker : String) (token : UUID)
    (outcomes : List (UUID × ToolRunOutcome)) (planOrder : List String) (now : Time) (db : Db) :
    Tx ProgressOutcome :=
  match validateLineage env db with
  | .error e => .ok (failClosedLineage e.code now db)
  | .ok dag =>
    match pickStopCause (outcomes.filterMap fun (stepId, outcome) =>
        stopCauseOf planOrder db stepId outcome) with
    | some stop => .ok (applyStopCause stop now db)
    | none => settleContinuable env dag worker token now db

/-! ### The natural end -/

/-- `_finalize_natural_end`. -/
def finalizeNaturalEnd (env : RuntimeEnv) (worker : String) (token : UUID) (now : Time) (db : Db) :
    Tx (Option ProgressOutcome) :=
  if db.execution.status = .succeeded ∨ db.execution.status = .partiallySucceeded then
    .ok (some
      { executionComplete := true
        reason := "ALREADY_COMPLETE"
        executionStatus := some db.execution.status }, db)
  else if !db.execution.hasRunningLease worker token now then .ok (none, db)
  else if db.steps.rows = [] then .ok (none, db)
  else match validateLineage env db with
    | .error e =>
      let failed := failClosedLineage e.code now db
      .ok (some failed.1, failed.2)
    | .ok dag => match localReconcile env dag now db with
      | .error e => .error e
      | .ok (.stop outcome db) => .ok (some outcome, db)
      | .ok (.go _ db) => match naturalEnd now db with
        | .error e => .error e
        | .ok (some result) => .ok (some result.1, result.2)
        | .ok none => .ok (none, db)

end McpFlow
