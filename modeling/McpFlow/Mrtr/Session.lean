import McpFlow.Execution.ToolRunner
import McpFlow.Library.Runs
import McpFlow.Mrtr.Response
import McpFlow.Mrtr.Resume

/-!
# Runs of an Execution that waits for MCP input

One Execution with a single TOOL Step and everything that acts on it between its claim and its
end: the runners of its leases, users who answer, reject or cancel, and the resume messages, which
the outbox keeps and the queue may lose, delay, repeat or reorder. A transaction that raises ends
its runner.

The session ends with its Step: settling a finished Step writes no request, Attempt or ToolCall, and
never meets a wait.

The session also remembers what left the database: the tokens given so far, the requests whose
resume was claimed, and the calls that were sent.
-/

namespace McpFlow.Mrtr

/-- Where a runner stands between its transactions. -/
inductive RunnerStage where
  /-- Before `_prepare`. -/
  | preparing
  /-- A ToolCall is prepared; the final gate has not run. -/
  | prepared (p : PreparedCall)
  /-- The call was refused before the send. -/
  | refusing (p : PreparedCall) (errorCode : String)
  /-- The call is on the network. -/
  | inFlight (p : PreparedCall)
deriving DecidableEq

/-- A runner under a lease of the Execution. -/
structure Runner where
  worker : String
  token : UUID
  stage : RunnerStage
deriving DecidableEq

/-- The prepared call of a runner. -/
def RunnerStage.call? : RunnerStage → Option PreparedCall
  | preparing => none
  | prepared p | refusing p _ | inFlight p => some p

/-- A `tools/call` on the network, with its MRTR arguments. -/
structure SentCall where
  toolCallId : UUID
  attemptId : UUID
  inputRequestId : Option UUID
  inputResponses : Option (List (String × Json.Value))
  requestState : Option Json.Value
deriving DecidableEq

/-- The call that a passed gate sends. -/
def sentCall (p : PreparedCall) : SentCall :=
  ⟨p.toolCallId, p.attemptId, p.mrtrInputRequestId, p.mrtrInputResponses, p.mrtrRequestState⟩

/-- The Execution with its runners, its resume messages and the history of the run. -/
structure Session where
  db : Db
  runners : List Runner
  outbox : List UUID
  tokens : List UUID
  resumed : List UUID
  sent : List SentCall

/-- What can happen next. A runner is named by its token; every argument besides is chosen by the
environment. -/
inductive Action where
  | prepare (token : UUID) (env : PrepareEnv) (now : Time)
  | secretsUnavailable (token : UUID) (errorCode : String)
  | gate (token : UUID) (verdict : Option String) (now : Time)
  | finalizeRefused (token : UUID) (pinned : Except AppError PinnedToolPolicy) (now : Time)
  | finalize (token : UUID) (callEnd : CallEnd) (pinned : Except AppError PinnedToolPolicy)
      (now : Time)
  | inputRequired (token : UUID) (mrtr : InputRequired) (requestId : UUID) (now : Time)
  | renew (token : UUID) (leaseSeconds : ℕ) (now : Time)
  | submit (requestId : UUID) (actor : Actor) (responses : List (String × Json.Value))
      (resumeLineage : Except AppError Unit) (now : Time)
  | reject (requestId : UUID) (actor : Actor) (resumeLineage : Except AppError Unit) (now : Time)
  | cancel (requestedBy : Option UUID) (now : Time)
  | deliver (requestId : UUID) (env : ResumeEnv) (now : Time)

namespace Session

/-- The ToolCalls that were sent. -/
def sentIds (s : Session) : List UUID := s.sent.map (·.toolCallId)

/-- The runner of a token. -/
def runner? (s : Session) (token : UUID) : Option Runner := s.runners.find? fun r => r.token = token

/-- Move a runner to a stage. -/
def setStage (s : Session) (r : Runner) (stage : RunnerStage) : Session :=
  { s with runners := s.runners.map fun q => if q.token = r.token then { q with stage } else q }

/-- A runner returns or raises. -/
def endRunner (s : Session) (r : Runner) : Session :=
  { s with runners := s.runners.filter fun q => q.token ≠ r.token }

/-- The rows after a transaction. -/
def withDb (s : Session) (db : Db) : Session := { s with db := db }

/-- Phase A of a runner. -/
def prepare (s : Session) (r : Runner) (stepId : UUID) (env : PrepareEnv) (now : Time) : Session :=
  match McpFlow.prepare env stepId r.worker r.token now false false false s.db with
  | .ok (.prepared p, db) => (s.withDb db).setStage r (.prepared p)
  | .ok (.outcome _, db) => (s.withDb db).endRunner r
  | .error _ => s.endRunner r

/-- The final gate of a runner; a call that passes is sent. -/
def gate (s : Session) (r : Runner) (p : PreparedCall) (verdict : Option String) (now : Time) :
    Session :=
  match finalPreSendGate verdict p now s.db with
  | .ok (.pass, db) =>
    { (s.withDb db).setStage r (.inFlight p) with sent := s.sent ++ [sentCall p] }
  | .ok (.failClosed errorCode, db) => (s.withDb db).setStage r (.refusing p errorCode)
  | .ok (.outcome _, db) => (s.withDb db).endRunner r
  | .error _ => s.endRunner r

/-- Phase C of a runner. A scheduled retry goes back to Phase A. -/
def finalize (s : Session) (r : Runner) (p : PreparedCall) (callEnd : CallEnd)
    (pinned : Except AppError PinnedToolPolicy) (now : Time) : Session :=
  match finalizeLocked pinned p callEnd now s.db with
  | .ok (outcome, db) =>
    if outcome.reason = "SAFE_RETRY_READY" then (s.withDb db).setStage r .preparing
    else (s.withDb db).endRunner r
  | .error _ => s.endRunner r

/-- Phase C of a runner whose call asked for input. -/
def inputRequired (s : Session) (r : Runner) (p : PreparedCall) (mrtr : InputRequired)
    (requestId : UUID) (now : Time) : Session :=
  match finalizeInputRequired p mrtr requestId now s.db with
  | .ok (_, db) => (s.withDb db).endRunner r
  | .error _ => s.endRunner r

/-- A user answers; an accepted answer enqueues its resume message. -/
def submit (s : Session) (requestId : UUID) (actor : Actor)
    (responses : List (String × Json.Value)) (resumeLineage : Except AppError Unit) (now : Time) :
    Session :=
  match submitResponse resumeLineage requestId actor responses now s.db with
  | .ok (outcome, db) =>
    if outcome.resumeEnqueued then { s.withDb db with outbox := s.outbox ++ [requestId] }
    else s.withDb db
  | .error _ => s

/-- A resume message arrives; a successful claim starts a runner. -/
def deliver (s : Session) (requestId : UUID) (env : ResumeEnv) (now : Time) : Session :=
  match claim env requestId now s.db with
  | .ok (outcome, db) =>
    if outcome.claimed then
      { s.withDb db with
        runners := s.runners ++ [⟨env.worker, env.leaseToken, .preparing⟩]
        tokens := s.tokens ++ [env.leaseToken]
        resumed := s.resumed ++ [requestId] }
    else s.withDb db
  | .error _ => s

/-- One action of the run on the TOOL Step `stepId`, when it is possible: a runner acts at its own
stage, a message is delivered only if it was enqueued, and a token is given only once. -/
def step (stepId : UUID) (s : Session) : Action → Option Session
  | .prepare token env now =>
    match s.runner? token with
    | some r => if r.stage = .preparing then some (s.prepare r stepId env now) else none
    | none => none
  | .secretsUnavailable token errorCode =>
    match s.runner? token with
    | some r => match r.stage with
      | .prepared p => some (s.setStage r (.refusing p errorCode))
      | _ => none
    | none => none
  | .gate token verdict now =>
    match s.runner? token with
    | some r => match r.stage with
      | .prepared p => some (s.gate r p verdict now)
      | _ => none
    | none => none
  | .finalizeRefused token pinned now =>
    match s.runner? token with
    | some r => match r.stage with
      | .refusing p errorCode =>
        some (s.finalize r p (.error (.preSendFailClosed errorCode)) pinned now)
      | _ => none
    | none => none
  | .finalize token callEnd pinned now =>
    match s.runner? token with
    | some r => match r.stage with
      | .inFlight p =>
        if callEnd.callError.all fun e => !e.preSend then some (s.finalize r p callEnd pinned now)
        else none
      | _ => none
    | none => none
  | .inputRequired token mrtr requestId now =>
    match s.runner? token with
    | some r => match r.stage with
      | .inFlight p => some (s.inputRequired r p mrtr requestId now)
      | _ => none
    | none => none
  | .renew token leaseSeconds now =>
    match s.runner? token with
    | some r => some (s.withDb (s.db.commit (renewLease leaseSeconds r.worker token now s.db)))
    | none => none
  | .submit requestId actor responses resumeLineage now =>
    some (s.submit requestId actor responses resumeLineage now)
  | .reject requestId actor resumeLineage now =>
    some (s.withDb (s.db.commit (Mrtr.reject resumeLineage requestId actor now s.db)))
  | .cancel requestedBy now =>
    some (s.withDb (s.db.commit (applyCancellation now requestedBy s.db)))
  | .deliver requestId env now =>
    if requestId ∈ s.outbox ∧ env.leaseToken ∉ s.tokens then some (s.deliver requestId env now)
    else none

/-- A claimed Execution with one READY TOOL Step that has not been attempted. -/
structure Initial (stepId : UUID) (s : Session) : Prop where
  status : s.db.execution.status = .running
  step : ∃ step, s.db.steps.rows = [step] ∧ step.id = stepId ∧ step.status = .ready
  attempts : s.db.attempts.rows = []
  toolCalls : s.db.toolCalls.rows = []
  inputRequests : s.db.inputRequests.rows = []
  runner : ∃ r, s.runners = [r] ∧ r.stage = .preparing ∧
    s.db.execution.leaseToken = some r.token ∧ s.tokens = [r.token]
  outbox : s.outbox = []
  resumed : s.resumed = []
  sent : s.sent = []

end Session

end McpFlow.Mrtr
