import McpFlow.Execution.Claim
import McpFlow.Execution.Orchestrator
import McpFlow.Execution.Recovery
import McpFlow.Library.Runs
import McpFlow.Mrtr.Session

/-!
# Runs of one Execution

One Execution and everything that acts on it: the workers that hold or held its lease, each in
`ExecutionOrchestrator.run` with the Tool Runners of its wave, users who cancel, decide and answer,
the expiry sweep, the resume messages and the recovery. A step of the world is one transaction, or
what a worker does between two of them. A worker that crashes takes no further step.

Every verdict that a transaction reads from outside the rows is chosen by the environment. Tokens
are never given twice.
-/

namespace McpFlow

open Mrtr (RunnerStage)

/-- A Tool Runner of a wave. -/
inductive Member where
  | active (stage : RunnerStage)
  | returned (outcome : ToolRunOutcome)
  | raised
deriving DecidableEq

/-- A wave of Tool Runners. The handoff of a wait runs one of them with the default flags. -/
structure Wave where
  handoff : Bool
  singleTool : Bool
  allowApprovalWait : Bool
  planOrder : List String
  members : List (UUID × Member)
deriving DecidableEq

/-- `defer_execution_terminalization`, which is `forbid_execution_wait` too. -/
def Wave.defer (v : Wave) : Bool := !v.handoff && !v.singleTool

/-- `forbid_new_approval_wait`. -/
def Wave.forbidNewApprovalWait (v : Wave) : Bool := !v.handoff && !v.allowApprovalWait

/-- Where `ExecutionOrchestrator.run` stands between its transactions. -/
inductive WorkerStage where
  | preparing
  /-- Before the approval pre-scan of a wave. -/
  | selecting (stepIds : List UUID) (planOrder : List String)
  | failingPolicy (errorCode : String)
  | running (wave : Wave)
  | settling (outcomes : List (UUID × ToolRunOutcome)) (planOrder : List String)
  | finalizing
  | returned (outcome : ToolRunOutcome)
  | raised
deriving DecidableEq

/-- A worker with the lease it was given. `last` is `last_outcome`. -/
structure Worker where
  worker : String
  token : UUID
  stage : WorkerStage
  last : Option ToolRunOutcome
deriving DecidableEq

/-- The Execution with its workers, its resume messages and the tokens given so far. -/
structure World where
  db : Db
  workers : List Worker
  approvalOutbox : List UUID
  inputOutbox : List UUID
  tokens : List UUID

/-! ### What can happen -/

/-- A step of a Tool Runner. -/
inductive RunnerAction where
  | prepare (env : PrepareEnv) (now : Time)
  | secretsUnavailable (errorCode : String)
  | gate (verdict : Option String) (now : Time)
  | finalizeRefused (pinned : Except AppError PinnedToolPolicy) (now : Time)
  | finalize (callEnd : CallEnd) (pinned : Except AppError PinnedToolPolicy) (now : Time)
  | inputRequired (mrtr : InputRequired) (requestId : UUID) (now : Time)

/-- A step of a worker. -/
inductive WorkerAction where
  | prepareWave (env : RuntimeEnv) (now : Time)
  | select (requiresApproval : ExecutionStep → Except AppError Bool)
  | failPolicy (now : Time)
  | runner (stepId : UUID) (action : RunnerAction)
  | join
  | settle (env : RuntimeEnv) (now : Time)
  | finish (env : RuntimeEnv) (now : Time)
  | renew (leaseSeconds : ℕ) (now : Time)

/-- A step of the world. -/
inductive Action where
  | claim (env : RuntimeEnv) (claim : ClaimEnv) (now : Time)
  | worker (token : UUID) (action : WorkerAction)
  | cancel (requestedBy : Option UUID) (now : Time)
  | decide (requestId : UUID) (env : Approval.DecisionEnv) (now : Time)
  | expire (requestId : UUID) (now : Time)
  | resumeApproval (requestId : UUID) (env : Approval.ApprovalResumeEnv) (now : Time)
  | submit (requestId : UUID) (actor : Mrtr.Actor) (responses : List (String × Json.Value))
      (resumeLineage : Except AppError Unit) (now : Time)
  | reject (requestId : UUID) (actor : Mrtr.Actor) (resumeLineage : Except AppError Unit)
      (now : Time)
  | resumeInput (requestId : UUID) (env : Mrtr.ResumeEnv) (now : Time)
  | recover (env : RecoveryEnv) (now : Time)

/-! ### The control flow of `run` -/

/-- A wave whose Tool Runners have not started. -/
def Wave.start (handoff singleTool allowApprovalWait : Bool) (planOrder : List String)
    (stepIds : List UUID) : Wave :=
  { handoff := handoff
    singleTool := singleTool
    allowApprovalWait := allowApprovalWait
    planOrder := planOrder
    members := stepIds.map (·, .active .preparing) }

/-- The outcome that `run` returns when its lease is gone. -/
def leaseMismatchOutcome (status : Option ExecutionStatus) : ToolRunOutcome :=
  .noop "LEASE_MISMATCH" (status.map (·.value))

/-- `run` after `_prepare_wave`. -/
def afterPrepare (o : ProgressOutcome) : WorkerStage :=
  if o.reason = "STALE_LEASE" then .returned (leaseMismatchOutcome o.executionStatus)
  else if o.reason = "WAVE_IN_PROGRESS" then .returned (.noop "WAVE_IN_PROGRESS" none)
  else if o.reason = "CANCEL_IN_PROGRESS" then
    .returned (.noop "CANCEL_IN_PROGRESS" (o.executionStatus.map (·.value)))
  else if o.executionComplete then
    .returned (.noop o.reason (o.stepTerminalStatus.or (o.executionStatus.map (·.value))))
  else if o.reason = "WAITING_APPROVAL" then
    .returned
      { terminalStatus := some StepStatus.waitingApproval.value
        reason := "WAITING_APPROVAL"
        disposition := .wait }
  else match o.readyStepIds with
    | [] => .finalizing
    | stepId :: stepIds =>
      if o.reason = "WAITING_HANDOFF" then .running (.start true false false [] [stepId])
      else if o.singleTool then
        .running (.start false true true o.planOrder (stepId :: stepIds))
      else .selecting (stepId :: stepIds) o.planOrder

/-- The outcomes of a wave, once every Tool Runner has returned. -/
def Wave.outcomes? (v : Wave) : Option (List (UUID × ToolRunOutcome)) :=
  v.members.mapM fun (stepId, m) => match m with
    | .returned outcome => some (stepId, outcome)
    | _ => none

/-- The outcome is a wait. -/
def ToolRunOutcome.waits (o : ToolRunOutcome) : Bool :=
  effectiveDisposition o == .wait || o.reason == "WAITING_APPROVAL" || o.reason == "WAITING_INPUT"

/-- The reasons after which `run` leaves a single TOOL alone. -/
def singleToolNoops : List String :=
  ["LEASE_MISMATCH", "MISSING", "STEP_ALREADY_TERMINAL", "RESOURCE_CONFLICT",
    "TOOL_CALL_ALREADY_STARTED", "CANCEL_REQUESTED", "CANCELLED", "CANCEL_IN_PROGRESS"]

/-- `run` after its wave. -/
def afterWave (v : Wave) (outcomes : List (UUID × ToolRunOutcome)) : WorkerStage :=
  if v.handoff then
    match outcomes with
    | [] => .raised
    | (_, o) :: _ => .returned o
  else match outcomes with
    | [(_, o)] =>
      if effectiveDisposition o = .retry ∨ o.reason = "SAFE_RETRY_READY" then .preparing
      else if o.waits then .returned o
      else if v.singleTool ∧ o.reason ∈ singleToolNoops then .returned o
      else .settling outcomes v.planOrder
    | outcomes => match outcomes.find? (·.2.waits) with
      | some (_, o) => .returned o
      | none => .settling outcomes v.planOrder

/-- `run` after `_settle_wave`. -/
def afterSettle (last : Option ToolRunOutcome) (o : ProgressOutcome) : WorkerStage :=
  if o.executionComplete then
    .returned (.noop o.reason ((o.stepTerminalStatus.or (o.executionStatus.map (·.value))).or
      (last.bind (·.terminalStatus))))
  else .preparing

/-- `run` after `_finalize_natural_end`. -/
def afterFinish (last : Option ToolRunOutcome) : Option ProgressOutcome → WorkerStage
  | some o => .returned (.noop o.reason (o.executionStatus.map (·.value)))
  | none => .returned (last.getD (leaseMismatchOutcome none))

/-- `run` after `_fail_closed_pre_wave_policy`. -/
def afterFailPolicy (o : ProgressOutcome) : WorkerStage :=
  .returned
    { terminalStatus := some ((o.executionStatus.getD .failed).value)
      reason := o.reason
      disposition := .fatalExecutionFailure }

/-- `run` after the approval pre-scan: only the first TOOL that needs an approval runs. -/
def afterSelect (stepIds : List UUID) (planOrder : List String) :
    Except AppError (Option UUID) → WorkerStage
  | .error e => .failingPolicy e.code
  | .ok (some stepId) => .running (.start false false true planOrder [stepId])
  | .ok none => .running (.start false false false planOrder stepIds)

namespace World

/-! ### Workers -/

/-- The rows after a transaction. -/
def withDb (w : World) (db : Db) : World := { w with db := db }

/-- The worker of a token. -/
def worker? (w : World) (token : UUID) : Option Worker := w.workers.find? (·.token = token)

/-- Move a worker to a stage. -/
def setStage (w : World) (r : Worker) (stage : WorkerStage) : World :=
  { w with workers := w.workers.map fun q => if q.token = r.token then { q with stage } else q }

/-- A worker starts `run` under a fresh lease. -/
def startWorker (w : World) (worker : String) (token : UUID) : World :=
  { w with
    workers := w.workers ++ [⟨worker, token, .preparing, none⟩]
    tokens := w.tokens ++ [token] }

/-- A progress transaction of a worker. -/
def progress {α : Type} (w : World) (r : Worker) (next : α → WorkerStage) : Tx α → World
  | .ok (o, db) => (w.withDb db).setStage r (next o)
  | .error _ => w.setStage r .raised

/-- Move a Tool Runner of the wave of a worker. -/
def setMember (w : World) (r : Worker) (v : Wave) (stepId : UUID) (m : Member) : World :=
  w.setStage r (.running
    { v with members := v.members.map fun p => if p.1 = stepId then (stepId, m) else p })

/-- A transaction of a Tool Runner. -/
def runnerTx {α : Type} (w : World) (r : Worker) (v : Wave) (stepId : UUID) (next : α → Member) :
    Tx α → World
  | .ok (o, db) => (w.withDb db).setMember r v stepId (next o)
  | .error _ => w.setMember r v stepId .raised

/-- A Tool Runner after Phase A. -/
def afterPhaseA : PrepareResult → Member
  | .prepared p => .active (.prepared p)
  | .outcome o => .returned o

/-- A Tool Runner after the final gate. -/
def afterGate (p : PreparedCall) : GateResult → Member
  | .pass => .active (.inFlight p)
  | .failClosed errorCode => .active (.refusing p errorCode)
  | .outcome o => .returned o

/-- A Tool Runner after Phase C; a scheduled retry goes back to Phase A. -/
def afterPhaseC (o : ToolRunOutcome) : Member :=
  if o.reason = "SAFE_RETRY_READY" then .active .preparing else .returned o

/-- A step of one Tool Runner at its stage. -/
def runnerStep (w : World) (r : Worker) (v : Wave) (stepId : UUID) :
    RunnerStage → RunnerAction → Option World
  | .preparing, .prepare env now =>
    some (w.runnerTx r v stepId afterPhaseA
      (prepare env stepId r.worker r.token now v.defer v.defer v.forbidNewApprovalWait w.db))
  | .prepared p, .secretsUnavailable errorCode =>
    some (w.setMember r v stepId (.active (.refusing p errorCode)))
  | .prepared p, .gate verdict now =>
    some (w.runnerTx r v stepId (afterGate p) (finalPreSendGate verdict p now w.db))
  | .refusing p errorCode, .finalizeRefused pinned now =>
    some (w.runnerTx r v stepId afterPhaseC
      (finalizeLocked pinned p (.error (.preSendFailClosed errorCode)) now w.db))
  | .inFlight p, .finalize callEnd pinned now =>
    if callEnd.callError.all fun e => !e.preSend then
      some (w.runnerTx r v stepId afterPhaseC (finalizeLocked pinned p callEnd now w.db))
    else none
  | .inFlight p, .inputRequired mrtr requestId now =>
    some (w.runnerTx r v stepId .returned (finalizeInputRequired p mrtr requestId now w.db))
  | _, _ => none

/-- A step of one worker at its stage. -/
def workerStep (digest : TemplateDigest) (w : World) (r : Worker) :
    WorkerStage → WorkerAction → Option World
  | _, .renew leaseSeconds now =>
    some (w.withDb (w.db.commit (renewLease leaseSeconds r.worker r.token now w.db)))
  | .preparing, .prepareWave env now =>
    some (w.progress r afterPrepare
      (prepareWave { env with digest := digest } r.worker r.token now w.db))
  | .selecting stepIds planOrder, .select requiresApproval =>
    some (w.setStage r (afterSelect stepIds planOrder
      (selectApprovalSuspensionWave requiresApproval w.db stepIds)))
  | .failingPolicy errorCode, .failPolicy now =>
    some (w.progress r afterFailPolicy
      (failClosedPreWavePolicy r.worker r.token errorCode now w.db))
  | .running v, .runner stepId action =>
    match v.members.find? (·.1 = stepId) with
    | some (_, .active stage) => w.runnerStep r v stepId stage action
    | _ => none
  | .running v, .join => v.outcomes?.map fun outcomes =>
    { w with
      workers := w.workers.map fun q =>
        if q.token = r.token then
          { q with
            stage := afterWave v outcomes
            last := (outcomes.getLast?.map (·.2)).or q.last }
        else q }
  | .settling outcomes planOrder, .settle env now =>
    some (w.progress r (afterSettle r.last)
      (settleWave { env with digest := digest } r.worker r.token outcomes planOrder now w.db))
  | .finalizing, .finish env now =>
    some (w.progress r (afterFinish r.last)
      (finalizeNaturalEnd { env with digest := digest } r.worker r.token now w.db))
  | _, _ => none

/-! ### The others -/

/-- A dispatch message arrives. -/
def claim (digest : TemplateDigest) (w : World) (env : RuntimeEnv) (claim : ClaimEnv) (now : Time) :
    World :=
  match claimExecution { env with digest := digest } claim now w.db with
  | .ok (outcome, db) =>
    if outcome.claimed then (w.withDb db).startWorker claim.worker claim.leaseToken else w.withDb db
  | .error _ => w

/-- A user decides; an approved request enqueues its resume message. -/
def decide (w : World) (requestId : UUID) (env : Approval.DecisionEnv) (now : Time) : World :=
  match Approval.decideApproval env requestId now w.db with
  | .ok (.ok outcome, db) =>
    if outcome.resumeEnqueued then
      { w.withDb db with approvalOutbox := w.approvalOutbox ++ [requestId] }
    else w.withDb db
  | .ok (.error _, db) => w.withDb db
  | .error _ => w

/-- An approval resume message arrives. -/
def resumeApproval (w : World) (requestId : UUID) (env : Approval.ApprovalResumeEnv) (now : Time) :
    World :=
  match Approval.resumeClaim env requestId now w.db with
  | .ok (outcome, db) =>
    if outcome.claimed then (w.withDb db).startWorker env.worker env.leaseToken else w.withDb db
  | .error _ => w

/-- A user answers an MRTR round; an accepted answer enqueues its resume message. -/
def submit (w : World) (requestId : UUID) (actor : Mrtr.Actor)
    (responses : List (String × Json.Value)) (resumeLineage : Except AppError Unit) (now : Time) :
    World :=
  match Mrtr.submitResponse resumeLineage requestId actor responses now w.db with
  | .ok (outcome, db) =>
    if outcome.resumeEnqueued then
      { w.withDb db with inputOutbox := w.inputOutbox ++ [requestId] }
    else w.withDb db
  | .error _ => w

/-- An MRTR resume message arrives. -/
def resumeInput (w : World) (requestId : UUID) (env : Mrtr.ResumeEnv) (now : Time) : World :=
  match Mrtr.claim env requestId now w.db with
  | .ok (outcome, db) =>
    if outcome.claimed then (w.withDb db).startWorker env.worker env.leaseToken else w.withDb db
  | .error _ => w

/-- The recovery sweep reaches the Execution. -/
def recover (digest : TemplateDigest) (w : World) (env : RecoveryEnv) (now : Time) : World :=
  match recoverExecution { env with runtime := { env.runtime with digest := digest } } now w.db with
  | .ok (outcome, db) =>
    if outcome.invokeRunner then (w.withDb db).startWorker env.worker env.leaseToken
    else w.withDb db
  | .error _ => w

/-- A step of the world, when it is possible. -/
def step (digest : TemplateDigest) (w : World) : Action → Option World
  | .claim env claim now =>
    if claim.leaseToken ∈ w.tokens then none else some (w.claim digest env claim now)
  | .worker token action => (w.worker? token).bind fun r => w.workerStep digest r r.stage action
  | .cancel requestedBy now =>
    some (w.withDb (w.db.commit (applyCancellation now requestedBy w.db)))
  | .decide requestId env now => some (w.decide requestId env now)
  | .expire requestId now => some (w.withDb (Approval.expireRequest requestId now w.db))
  | .resumeApproval requestId env now =>
    if requestId ∈ w.approvalOutbox ∧ env.leaseToken ∉ w.tokens then
      some (w.resumeApproval requestId env now)
    else none
  | .submit requestId actor responses resumeLineage now =>
    some (w.submit requestId actor responses resumeLineage now)
  | .reject requestId actor resumeLineage now =>
    some (w.withDb (w.db.commit (Mrtr.reject resumeLineage requestId actor now w.db)))
  | .resumeInput requestId env now =>
    if requestId ∈ w.inputOutbox ∧ env.leaseToken ∉ w.tokens then
      some (w.resumeInput requestId env now)
    else none
  | .recover env now => if env.leaseToken ∈ w.tokens then none else some (w.recover digest env now)

/-- A QUEUED Execution as its creation leaves it, before its first claim. -/
structure Initial (w : World) : Prop where
  status : w.db.execution.status = .queued
  lease : w.db.execution.leaseCleared = true
  notCancelled : w.db.execution.cancelRequestedAt = none
  steps : ∀ s ∈ w.db.steps, s.isInitial = true ∧ s.conditionResult = none
  attempts : w.db.attempts.rows = []
  toolCalls : w.db.toolCalls.rows = []
  approvals : w.db.approvals.rows = []
  inputRequests : w.db.inputRequests.rows = []
  workers : w.workers = []
  approvalOutbox : w.approvalOutbox = []
  inputOutbox : w.inputOutbox = []

end World

end McpFlow
