import McpFlow.Execution.Ended
import McpFlow.Execution.Lifecycle

/-!
# Approval requests over whole runs

An ApprovalRequest is written when a Step enters its wait, and answered once. `Db.AnswersRequests`
says what a transaction may do to the requests without a decision: PENDING ones lapse, or one is
added. Only a decision of an authorized actor resolves one. From it follow that an answered request
never changes, and that a waiting Execution runs again only after such a decision.
-/

namespace McpFlow

open Approval

/-- What a request asks; only its answer changes. -/
def ApprovalRequest.question (r : ApprovalRequest) :
    UUID × UUID × UUID × Json.Value × Sha256Hex × Time :=
  (r.id, r.executionId, r.stepExecutionId, r.contextSnapshot, r.contextHash, r.expiresAt)

/-- The statuses of a request that was closed without a decision. -/
def ApprovalStatus.isLapsed (s : ApprovalStatus) : Bool := s == .expired || s == .cancelled

/-- A request stays as it is, or a PENDING one lapses. -/
inductive ApprovalMoves (r r' : ApprovalRequest) : Prop
  | same (h : r' = r)
  | lapsed (hpending : r.status = .pending) (hsame : r'.question = r.question)
      (hlapsed : r'.status.isLapsed = true)

/-- What a transaction without a decision does to the requests. -/
inductive Db.AnswersRequests (db db' : Db) : Prop
  | rewrites (h : Table.Rewrites ApprovalMoves db.approvals db'.approvals)
  | asks {request : ApprovalRequest} (hpending : request.status = .pending)
      (hinsert : db.approvals.insert? request = some db'.approvals)

theorem ApprovalMoves.refl (r : ApprovalRequest) : ApprovalMoves r r := .same rfl

theorem ApprovalMoves.cancelPending (r : ApprovalRequest) (now : Time) :
    ApprovalMoves r (r.cancelPending now) := by
  unfold ApprovalRequest.cancelPending
  split
  · next hpending => exact .lapsed hpending rfl rfl
  · exact .refl r

/-! ### The rows of a Tool Runner -/

namespace Db

variable (db : Db) (now : Time)

@[simp] theorem approvals_failNonterminalStep (step : ExecutionStep) (errorCode : String) :
    (failNonterminalStep step errorCode now db).approvals = db.approvals := by
  unfold failNonterminalStep
  split <;> rfl

@[simp] theorem approvals_applyOrDeferExecutionFatal (errorCode : Option String) (defer : Bool) :
    (applyOrDeferExecutionFatal errorCode now defer db).approvals = db.approvals := by
  unfold applyOrDeferExecutionFatal
  split <;> rfl

@[simp] theorem approvals_prepareFatal (step : ExecutionStep) (errorCode : String) (defer : Bool) :
    (prepareFatal step errorCode now defer db).2.approvals = db.approvals := by
  change (failRunningExecution errorCode now defer
    (failNonterminalStep step errorCode now db)).approvals = _
  unfold failRunningExecution
  split <;> simp

@[simp] theorem approvals_prepareStartFailed (step : ExecutionStep) (e : AppError) (defer : Bool) :
    (prepareStartFailed step e now defer db).2.approvals = db.approvals := by
  unfold prepareStartFailed
  split
  · rfl
  split
  · rfl
  split
  · rfl
  · exact db.approvals_prepareFatal now step _ defer

@[simp] theorem approvals_applyTerminalTransition (step : ExecutionStep) (attempt : StepAttempt)
    (toolCall : ToolCall) (callEnd : CallEnd) (risk : RiskClass) (defer : Bool) :
    (applyTerminalTransition step attempt toolCall callEnd risk now defer db).approvals =
      db.approvals := by
  unfold applyTerminalTransition
  dsimp only
  split
  · simp
  · rfl

@[simp] theorem approvals_failStartedAttempt (attempt : StepAttempt) (errorCode : String) :
    (failStartedAttempt attempt errorCode now db).approvals = db.approvals := by
  unfold failStartedAttempt
  split <;> rfl

@[simp] theorem approvals_failStartedToolCall (toolCall : ToolCall) :
    (failStartedToolCall toolCall now db).approvals = db.approvals := by
  unfold failStartedToolCall
  split <;> rfl

@[simp] theorem approvals_ensureCancelRequested :
    (db.ensureCancelRequested now).approvals = db.approvals := by
  unfold ensureCancelRequested
  split <;> rfl

end Db

namespace Db.AnswersRequests

variable {db db' db₁ : Db} {env : RuntimeEnv} {worker : String} {token : UUID} {now : Time}

theorem of_eq (h : db'.approvals = db.approvals) : db.AnswersRequests db' :=
  .rewrites (h ▸ .refl ApprovalMoves.refl _)

theorem refl (db : Db) : db.AnswersRequests db := of_eq rfl

/-- A transaction that starts and ends with other requests left alone. -/
theorem of_same {base last : Db} (h : base.AnswersRequests last)
    (hbase : base.approvals = db.approvals) (hlast : db'.approvals = last.approvals) :
    db.AnswersRequests db' := by
  cases h with
  | rewrites h =>
    refine .rewrites ?_
    rw [← hbase, hlast]
    exact h
  | asks hpending hinsert =>
    refine .asks hpending ?_
    rw [← hbase, hlast]
    exact hinsert

theorem cancelOpenWork (answeredBy : Option UUID) (preserve : List UUID) :
    db.AnswersRequests (db.cancelOpenWork now answeredBy preserve) := by
  refine .rewrites ?_
  rw [Db.approvals_cancelOpenWork]
  exact .of_mapRows fun r _ => .cancelPending r now

theorem reconciled {outcome : CancellationOutcome}
    (h : reconcileCancelRequested now db = .ok (outcome, db')) : db.AnswersRequests db' := by
  obtain ⟨-, ⟨rfl, -⟩ | ⟨-, -, e, rfl, -⟩⟩ := reconcileCancelRequested_ok h
  · exact .refl _
  · exact (cancelOpenWork db.execution.cancelRequestedBy []).of_same rfl rfl

theorem localStop (h : LocalStop env now db db') : db.AnswersRequests db' := by
  cases h with
  | stop => exact .of_eq rfl
  | enterApproval _ hpending _ _ h =>
    obtain ⟨-, -, snapshot, db₁, -, hinsert, rfl⟩ :=
      enterForApprovalStep_ok (by rw [hpending]; decide) h
    obtain ⟨approvals, happrovals, rfl⟩ := Db.insertApproval_ok hinsert
    exact .asks rfl happrovals

theorem stopped (hlocal : LocalSteps env db db₁) (h : LocalStop env now db₁ db') :
    db.AnswersRequests db' :=
  (localStop h).of_same hlocal.approvals rfl

theorem preparedWave (h : PreparedWave env worker token now db db') : db.AnswersRequests db' := by
  cases h with
  | same => exact .refl _
  | reconciled _ h => exact .reconciled h
  | running => exact .of_eq rfl
  | corrupt => exact .of_eq rfl
  | stopped _ hlocal hstop => exact .stopped hlocal hstop
  | corruptAfter _ _ hlocal => exact .of_eq hlocal.approvals
  | @reserved db₁ dag singleTool _ _ _ hlocal =>
    refine .of_eq (Eq.trans ?_ hlocal.approvals)
    change ((promotable dag db₁).foldl (fun db s => db.putStep (s.promote now)) db₁).approvals = _
    rw [Db.foldl_putStep]

theorem settledWave {outcomes : List (UUID × ToolRunOutcome)} {planOrder : List String}
    (h : SettledWave env worker token outcomes planOrder now db db') : db.AnswersRequests db' := by
  cases h with
  | same => exact .refl _
  | corrupt => exact .of_eq rfl
  | stopCause => exact .of_eq rfl
  | reconciled _ _ _ h => exact .reconciled h
  | stopped _ hlocal hstop => exact .stopped hlocal hstop
  | ended _ hlocal h =>
    obtain ⟨-, decision, -, hrows⟩ := naturalEnd_ok h
    rw [hrows]
    exact .of_eq hlocal.approvals
  | settled _ hlocal => exact .of_eq hlocal.approvals

theorem finished (h : Finished env worker token now db db') : db.AnswersRequests db' := by
  cases h with
  | same => exact .refl _
  | corrupt => exact .of_eq rfl
  | stopped _ hlocal hstop => exact .stopped hlocal hstop
  | ended _ hlocal h =>
    obtain ⟨-, decision, -, hrows⟩ := naturalEnd_ok h
    rw [hrows]
    exact .of_eq hlocal.approvals
  | unfinished _ hlocal => exact .of_eq hlocal.approvals

/-! ### The transactions of a Tool Runner -/

theorem prepareStarted {penv : PrepareEnv} {step : ExecutionStep} {attempt : StepAttempt}
    {replayed defer forbidWait : Bool} {result : PrepareResult}
    (h : McpFlow.prepareStarted penv step attempt replayed worker token now defer forbidWait db =
      .ok (result, db')) : db'.approvals = db.approvals := by
  rcases prepareStarted_ok h with
    ⟨-, -, hsame⟩ | ⟨-, ⟨errorCode, hfatal⟩ | ⟨catalog, resume, -, hcall⟩⟩
  · rw [hsame]
  · rw [show db' = _ from congrArg Prod.snd hfatal, Db.approvals_prepareFatal]
  · obtain ⟨c, toolCalls, -, -, -, -, ⟨p, -, rfl, -⟩ | ⟨errorCode, -, rfl⟩⟩ := prepareCall_ok hcall
    · rfl
    · rw [Db.approvals_applyTerminalTransition]

theorem prepareAttempt {penv : PrepareEnv} {step : ExecutionStep}
    {defer forbidWait forbidNewApprovalWait : Bool} {result : PrepareResult}
    (h : McpFlow.prepareAttempt penv step worker token now defer forbidWait
      forbidNewApprovalWait db = .ok (result, db')) : db.AnswersRequests db' := by
  obtain ⟨started, db₁, hstarted, hrest⟩ := prepareAttempt_ok h
  have hfailed {e : AppError} {s : ExecutionStep} {base : Db}
      (hsame : (result, db') = prepareStartFailed s e now defer base) :
      db'.approvals = base.approvals := by
    rw [show db' = _ from congrArg Prod.snd hsame, Db.approvals_prepareStartFailed]
  have hfatal {s : ExecutionStep} {code : String} {base : Db}
      (hsame : (result, db') = prepareFatal s code now defer base) :
      db'.approvals = base.approvals := by
    rw [show db' = _ from congrArg Prod.snd hsame, Db.approvals_prepareFatal]
  cases hstarted with
  | refused e => exact .of_eq (hfailed hrest)
  | reused outcome hwait =>
    rcases hrest with ⟨-, hsame⟩ | ⟨-, hsame, -⟩
    · exact .of_eq (hfatal hsame)
    · exact .of_eq (congrArg (·.approvals) hsame)
  | replayed attempt => exact .of_eq (prepareStarted hrest)
  | refusedPinned e input =>
    have hsame : db'.approvals = (db.putStep (step.pinInput input)).approvals := hfailed hrest
    exact .of_eq hsame
  | waits outcome input request approvals _ _ _ hinsert hpending =>
    refine .asks hpending (hinsert.trans (congrArg some ?_))
    rcases hrest with ⟨-, hsame⟩ | ⟨-, hsame, -⟩
    · exact (hfatal hsame).symm
    · exact (congrArg (·.approvals) hsame).symm
  | created attempt input attempts =>
    have hsame : db'.approvals = ({ (db.putStep (step.pinInput input)).putStep
        ((step.pinInput input).startRunning now) with attempts := attempts } : Db).approvals :=
      prepareStarted hrest
    exact .of_eq hsame

theorem prepare {penv : PrepareEnv} {stepId : UUID}
    {defer forbidWait forbidNewApprovalWait : Bool} {result : PrepareResult}
    (h : McpFlow.prepare penv stepId worker token now defer forbidWait forbidNewApprovalWait db =
      .ok (result, db')) : db.AnswersRequests db' := by
  rcases prepare_ok h with
    ⟨hsame, -⟩ | ⟨-, -, -, outcome, hreconcile, -⟩ | ⟨step, -, -, -, -, howned⟩
  · exact .of_eq (congrArg _ hsame)
  · refine (reconciled hreconcile).of_same ?_ rfl
    unfold Db.enterCancelRequested
    split <;> rfl
  · rcases prepareOwned_ok howned with ⟨hsame, -⟩ | ⟨-, -, ⟨-, hrows, -⟩ | hattempt⟩
    · exact .of_eq (congrArg _ hsame)
    · rw [hrows]
      exact .of_eq rfl
    · exact prepareAttempt hattempt

private theorem cancelledCall {outcome : CancellationOutcome}
    (h : reconcileCancelRequested now (db₁.ensureCancelRequested now) = .ok (outcome, db'))
    (hsame : db₁.approvals = db.approvals) : db.AnswersRequests db' := by
  refine (reconciled h).of_same ?_ rfl
  rw [Db.approvals_ensureCancelRequested, hsame]

theorem finalPreSendGate {verdict : Option String} {p : PreparedCall} {result : GateResult}
    (h : McpFlow.finalPreSendGate verdict p now db = .ok (result, db')) :
    db.AnswersRequests db' := by
  rcases finalPreSendGate_ok h with ⟨-, hsame, -⟩ | ⟨-, hcorrupt |
    ⟨step, attempt, toolCall, -, -, -, -, ⟨-, outcome, hcancel, -⟩ | ⟨-, hsame, -⟩⟩⟩
  · exact .of_eq (congrArg _ hsame)
  · refine .of_eq ?_
    rw [show db' = _ from congrArg Prod.snd hcorrupt]
    unfold finalGateFailClosedLineageCorruption
    dsimp only
    rw [Db.approvals_applyOrDeferExecutionFatal]
    cases db.steps.find? p.stepId <;> cases db.attempts.find? p.attemptId <;>
      cases db.toolCalls.find? p.toolCallId <;> simp
  · unfold cancelPreparedInvocationBeforeSend at hcancel
    dsimp only at hcancel
    split at hcancel <;> exact cancelledCall hcancel rfl
  · exact .of_eq (congrArg _ hsame)

theorem finalizeLocked {pinned : Except AppError PinnedToolPolicy} {p : PreparedCall}
    {callEnd : CallEnd} {outcome : ToolRunOutcome}
    (h : McpFlow.finalizeLocked pinned p callEnd now db = .ok (outcome, db')) :
    db.AnswersRequests db' := by
  obtain ⟨step, attempt, toolCall, risk, -, ⟨e, -, -, -, hrows⟩ | hterminal⟩ := finalizeLocked_ok h
  · rw [hrows]
    exact .of_eq rfl
  · obtain ⟨-, -, -, hsame | ⟨-, outcome, hreconcile⟩⟩ := finalizeTerminal_ok hterminal
    · rw [hsame]
      exact .of_eq (Db.approvals_applyTerminalTransition _ _ _ _ _ _ _ _)
    · exact (reconciled hreconcile).of_same
        (Db.approvals_applyTerminalTransition _ _ _ _ _ _ _ _) rfl

theorem finalizeInputRequired {p : PreparedCall} {mrtr : InputRequired} {requestId : UUID}
    {outcome : ToolRunOutcome}
    (h : McpFlow.finalizeInputRequired p mrtr requestId now db = .ok (outcome, db')) :
    db.AnswersRequests db' := by
  obtain ⟨step, attempt, toolCall, -, ⟨s, a, status, errorCode, -, -, -, -, -, hfatal⟩ |
    ⟨-, o, hsettle⟩ | ⟨db₁, hinsert, hrows⟩ | ⟨-, -, hwait⟩⟩ := finalizeInputRequired_ok h
  · rw [show db' = _ from congrArg Prod.snd hfatal]
    exact .of_eq (Db.approvals_applyOrDeferExecutionFatal _ _ _ _)
  · unfold settleInputRequiredAfterCancel at hsettle
    exact cancelledCall hsettle rfl
  · obtain ⟨inputRequests, -, rfl⟩ := Db.insertInputRequest_ok hinsert
    rw [hrows]
    exact .of_eq rfl
  · obtain ⟨inputRequests, -, rfl⟩ := openInputWait_ok hwait
    exact .of_eq rfl

/-! ### The others -/

theorem applyCancellation {requestedBy : Option UUID} {outcome : CancellationOutcome}
    (h : McpFlow.applyCancellation now requestedBy db = .ok (outcome, db')) :
    db.AnswersRequests db' := by
  rcases applyCancellation_ok h with ⟨rfl, -⟩ | ⟨-, -, ⟨-, rfl⟩ | ⟨-, -, rfl⟩⟩
  · exact .refl _
  · exact (cancelOpenWork requestedBy []).of_same rfl rfl
  · exact (cancelOpenWork requestedBy db.inflightStepIds).of_same rfl rfl

theorem approvals_failWaitingStep (authorable : Bool) (step : ExecutionStep) (errorCode : String) :
    (failWaitingStep authorable step errorCode now db).approvals = db.approvals := by
  unfold failWaitingStep
  dsimp only
  split <;> rfl

/-- A request that expires, with its Step. -/
theorem expire {request : ApprovalRequest} {requestId : UUID}
    (hrequest : db.approvals.find? requestId = some request) (hpending : request.status = .pending)
    (step : ExecutionStep) : db.AnswersRequests (terminalizeExpired request step now db) := by
  refine .rewrites ?_
  unfold terminalizeExpired
  rw [approvals_failWaitingStep]
  exact .of_put ApprovalMoves.refl (Table.mem_of_find? hrequest) rfl (.lapsed hpending rfl rfl)

theorem expireRequest (requestId : UUID) :
    db.AnswersRequests (Approval.expireRequest requestId now db) := by
  rcases expireRequest_cases requestId now db with
    hsame | ⟨request, step, hrequest, hpending, -, -, -, hrows⟩
  · rw [hsame]
    exact .refl _
  · rw [hrows]
    exact .expire hrequest hpending step

theorem resumedApproval {renv : ApprovalResumeEnv} {requestId : UUID}
    {outcome : ApprovalResumeClaimOutcome} (h : ResumedApproval renv requestId now db outcome db') :
    db'.approvals = db.approvals := by
  cases h with
  | stale => rfl
  | failed => exact approvals_failWaitingStep _ _ _
  | claimed => rfl

theorem claimInput {renv : Mrtr.ResumeEnv} {requestId : UUID} {outcome : Mrtr.ResumeClaimOutcome}
    (h : Mrtr.claim renv requestId now db = .ok (outcome, db')) : db'.approvals = db.approvals := by
  rcases Mrtr.claim_ok h with ⟨-, hsame, -⟩ | ⟨-, step, -, -, ⟨-, hrows⟩ |
    ⟨-, request, attempt, -, -, -, -, -, hrows⟩⟩
  · rw [hsame]
  · rw [hrows]
    unfold Mrtr.terminalizePreconditionFailed
    dsimp only
    split <;> split <;> rfl
  · rw [hrows]
    rfl

private theorem approvals_foldl_applyClassification (retry : Bool)
    (steps : List (ExecutionStep × ToolStepClassification)) (db : Db) :
    (steps.foldl (applyClassification retry now) db).approvals = db.approvals := by
  induction steps generalizing db with
  | nil => rfl
  | cons entry steps ih =>
    rw [List.foldl_cons, ih]
    obtain ⟨step, classification⟩ := entry
    cases classification <;> first | rfl | (cases retry <;> rfl)

private theorem approvals_foldl_transferAttempt (renv : RecoveryEnv) (expiresAt : Option Time)
    (steps : List (ExecutionStep × ToolStepClassification)) (db : Db) :
    (steps.foldl (transferAttempt renv expiresAt) db).approvals = db.approvals := by
  induction steps generalizing db with
  | nil => rfl
  | cons entry steps ih =>
    rw [List.foldl_cons, ih]
    obtain ⟨step, classification⟩ := entry
    cases classification <;> rfl

theorem recovered {renv : RecoveryEnv} {outcome : RecoveryOutcome}
    (h : Recovered renv now db outcome db') : db.AnswersRequests db' := by
  cases h with
  | same => exact .refl _
  | cancelled _ h =>
    unfold recoverExpiredCancelRequested at h
    split at h
    · cases h
      exact .refl _
    split at h
    · cases h
    · exact (reconciled h).of_same rfl rfl
  | @foundation step decision =>
    refine .of_eq ?_
    cases decision <;> rfl
  | foundationInconsistent => exact .of_eq rfl
  | @dag steps =>
    refine .of_eq ?_
    unfold recoverClassified
    split
    · rfl
    split
    · exact approvals_foldl_applyClassification false steps db
    · unfold takeOver
      dsimp only
      rw [approvals_foldl_transferAttempt, Db.approvals_putExecution,
        approvals_foldl_applyClassification]
  | dagInconsistent => exact .of_eq rfl

end Db.AnswersRequests

/-! ### Decisions -/

/-- A PENDING request in time, whose Execution and Step wait for it. -/
structure Db.AwaitsDecision (db : Db) (request : ApprovalRequest) (now : Time) : Prop where
  mem : db.approvals.find? request.id = some request
  pending : request.status = .pending
  inTime : now < request.expiresAt
  executionWaits : db.execution.status = .waitingApproval
  stepWaits : ∃ step, db.steps.find? request.stepExecutionId = some step ∧
    step.status = .waitingApproval

/-- The status of a resolved request. -/
def Approval.Resolution.status : Resolution → ApprovalStatus
  | approved => .approved
  | rejected => .rejected

/-- The request with its resolution. -/
def ApprovalRequest.resolve (request : ApprovalRequest) (resolution : Resolution) (now : Time) :
    ApprovalRequest :=
  { request with status := resolution.status, resolvedAt := some now }

/-- Every check of the actor and of the decision passes, and the decisions add up to this. -/
def Approval.DecisionEnv.Decides (env : DecisionEnv) (resolution : Option Resolution) : Prop :=
  env.actorAuthorized = .ok () ∧ env.decisionAllowed = .ok () ∧
    env.aggregateDecision = .ok resolution

/-- The rows after a decision that was accepted. -/
inductive Db.Resolves (db : Db) (request : ApprovalRequest) (now : Time) :
    Option Resolution → Db → Prop
  | pending : db.Resolves request now none db
  | approved : db.Resolves request now (some .approved)
      (db.putApproval (request.resolve .approved now))
  | rejected (step : ExecutionStep) : db.Resolves request now (some .rejected)
      (failWaitingStep (isAuthorableStepContext request.contextSnapshot) step "APPROVAL_REJECTED"
        now (db.putApproval (request.resolve .rejected now)))

/-- Only the request that is decided is written. -/
theorem Db.Resolves.approvals {db db' : Db} {request : ApprovalRequest} {now : Time}
    {resolution : Option Resolution} (h : db.Resolves request now resolution db') :
    db'.approvals = match resolution with
      | none => db.approvals
      | some r => db.approvals.put (request.resolve r now) := by
  cases h with
  | pending => rfl
  | approved => rfl
  | rejected step => exact Db.AnswersRequests.approvals_failWaitingStep _ _ _

/-- A decision that is accepted passed every check on a waiting Step. -/
theorem decides_of_decideApproval {denv : DecisionEnv} {requestId : UUID} {now : Time} {db db' : Db}
    {outcome : ApprovalDecisionOutcome}
    (h : decideApproval denv requestId now db = .ok (.ok outcome, db')) :
    ∃ request resolution, request.id = requestId ∧ db.AwaitsDecision request now ∧
      denv.Decides resolution ∧ db.Resolves request now resolution db' ∧
      (outcome.resumeEnqueued = true ↔ resolution = some .approved) := by
  unfold decideApproval at h
  split at h
  · cases h
  next request hrequest =>
  split at h
  · cases h
  next step hstep =>
  split at h
  · cases h
  next hactor =>
  split at h
  · cases h
  next hpending =>
  split at h
  · cases h
  next hexpiry =>
  split at h
  · cases h
  next decided db₁ hdecide =>
  cases h
  obtain rfl := Table.key_of_find? hrequest
  unfold decidePending at hdecide
  split at hdecide
  · cases hdecide
  next hwaits =>
  have hwaits : db.execution.status = .waitingApproval ∧ step.status = .waitingApproval := by
    simpa [waitsForApproval] using hwaits
  have hawaits : db.AwaitsDecision request now :=
    ⟨hrequest, not_not.mp hpending, Nat.lt_of_not_le hexpiry, hwaits.1, step, hstep, hwaits.2⟩
  split at hdecide
  · cases hdecide
  next hallowed =>
  split at hdecide
  · cases hdecide
  · next hverdict =>
    cases hdecide
    exact ⟨request, none, rfl, hawaits, ⟨hactor, hallowed, hverdict⟩, .pending, by simp⟩
  · next hverdict =>
    cases hdecide
    exact ⟨request, some .approved, rfl, hawaits, ⟨hactor, hallowed, hverdict⟩, .approved, by simp⟩
  · next hverdict =>
    cases hdecide
    exact ⟨request, some .rejected, rfl, hawaits, ⟨hactor, hallowed, hverdict⟩, .rejected step,
      by simp⟩

/-- A decision that comes too late lets its request expire. -/
theorem Db.AnswersRequests.tooLate {denv : DecisionEnv} {requestId : UUID} {now : Time}
    {db db' : Db} {e : AppError} (h : decideApproval denv requestId now db = .ok (.error e, db')) :
    db.AnswersRequests db' := by
  unfold decideApproval at h
  split at h
  · cases h
  next request hrequest =>
  split at h
  · cases h
  next step hstep =>
  split at h
  · cases h
  split at h
  · cases h
  next hpending =>
  split at h
  · cases h
    exact .expire hrequest (not_not.mp hpending) step
  split at h
  · cases h
  · cases h

namespace World

variable {digest : TemplateDigest} {w w' : World}

/-- A step that decides a request, or adds to its decisions. -/
def Decides (w : World) (a : Action) (w' : World) (request : ApprovalRequest)
    (resolution : Option Resolution) : Prop :=
  ∃ env now, a = .decide request.id env now ∧ env.Decides resolution ∧
    w.db.AwaitsDecision request now ∧ w.db.Resolves request now resolution w'.db

/-- The rows after a decision. -/
theorem requests_of_decide {requestId : UUID} {env : DecisionEnv} {now : Time} :
    w.db.AnswersRequests (w.decide requestId env now).db ∨ ∃ request resolution,
      w.Decides (.decide requestId env now) (w.decide requestId env now) request resolution := by
  unfold decide
  split
  · next outcome db h =>
    obtain ⟨request, resolution, rfl, hawaits, hdecides, hresolves, -⟩ :=
      decides_of_decideApproval h
    refine .inr ⟨request, resolution, env, now, rfl, hdecides, hawaits, ?_⟩
    split <;> exact hresolves
  · next h => exact .inl (.tooLate h)
  · exact .inl (.refl _)

/-- No other step decides. -/
theorem answersRequests_of_step {a : Action} (hstep : w.step digest a = some w')
    (hdecide : ∀ requestId env now, a ≠ .decide requestId env now) :
    w.db.AnswersRequests w'.db := by
  have hdb := dbStep_of_step hstep
  generalize w'.db = db' at hdb ⊢
  cases hdb with
  | same => exact .refl _
  | claim h =>
    rcases claimExecution_ok h with ⟨-, rfl⟩ | ⟨-, -, dag, -, rfl⟩
    · exact .refl _
    · refine .of_eq ?_
      rw [applyClaim, Db.foldl_putStep]
      rfl
  | prepareWave _ _ h => exact .preparedWave (preparedWave_of_prepareWave h)
  | failPolicy _ _ h =>
    rcases failClosedPreWavePolicy_ok h with rfl | ⟨-, rfl⟩
    · exact .refl _
    · exact .of_eq rfl
  | prepare _ _ _ h => exact .prepare h
  | gate _ _ _ h => exact .finalPreSendGate h
  | finalizeRefused _ _ _ h => exact .finalizeLocked h
  | finalize _ _ _ h => exact .finalizeLocked h
  | inputRequired _ _ _ h => exact .finalizeInputRequired h
  | settle _ _ h => exact .settledWave (settledWave_of_settleWave h)
  | finish _ _ h => exact .finished (finished_of_finalizeNaturalEnd h)
  | renew _ h =>
    unfold renewLease at h
    split at h
    · cases h
      exact .of_eq rfl
    · cases h
  | cancel h => exact .applyCancellation h
  | decide => exact absurd rfl (hdecide _ _ _)
  | expire => exact .expireRequest _
  | resumeApproval _ h =>
    exact .of_eq (Db.AnswersRequests.resumedApproval (resumedApproval_of_resumeClaim h))
  | submit h =>
    obtain ⟨-, ⟨-, rfl⟩ | ⟨-, -, request, accepted, -, -, -, rfl⟩⟩ := Mrtr.submitResponse_ok h
    · exact .refl _
    · exact .of_eq rfl
  | reject h =>
    rcases Mrtr.reject_ok h with rfl | ⟨-, request, attempt, step, -, -, -, -, rfl⟩
    · exact .refl _
    · exact .of_eq rfl
  | resumeInput _ h => exact .of_eq (Db.AnswersRequests.claimInput h)
  | recover h => exact .recovered (recovered_of_recoverExecution h)

/-- Every step answers requests, or decides one. -/
theorem requests_of_step {a : Action} (hstep : w.step digest a = some w') :
    w.db.AnswersRequests w'.db ∨ ∃ request resolution, w.Decides a w' request resolution := by
  by_cases hdecide : ∃ requestId env now, a = .decide requestId env now
  · obtain ⟨requestId, env, now, rfl⟩ := hdecide
    obtain rfl : w.decide requestId env now = w' := Option.some.inj hstep
    exact requests_of_decide
  · exact .inl (answersRequests_of_step hstep fun requestId env now h =>
      hdecide ⟨requestId, env, now, h⟩)

/-! ### The laws -/

/-- An answered request is written by no step. -/
theorem mem_approvals_of_step {a : Action} {request : ApprovalRequest}
    (hanswered : request.status ≠ .pending) (h : request ∈ w.db.approvals)
    (hstep : w.step digest a = some w') : request ∈ w'.db.approvals := by
  rcases requests_of_step hstep with
    hanswers | ⟨decided, resolution, env, now, -, -, hawaits, hresolves⟩
  · cases hanswers with
    | rewrites hrewrites =>
      obtain ⟨request', hmem, hmoves⟩ := hrewrites.exists_mem h
      cases hmoves with
      | same hsame => exact hsame ▸ hmem
      | lapsed hpending => exact absurd hpending hanswered
    | asks _ hinsert => exact (Table.mem_of_insert? hinsert).mpr (.inl h)
  · rw [hresolves.approvals]
    cases resolution with
    | none => exact h
    | some r =>
      refine Table.mem_put_of_ne h fun hid => hanswered ?_
      -- a request of the same id is the PENDING one that is decided
      rw [Table.eq_of_key_eq h (Table.mem_of_find? hawaits.mem) hid]
      exact hawaits.pending

theorem mem_approvals_of_run {as : List Action} {request : ApprovalRequest}
    (hanswered : request.status ≠ .pending) (h : request ∈ w.db.approvals)
    (hrun : Runs.run (World.step digest) w as = some w') : request ∈ w'.db.approvals := by
  have hstep (u : World) (a : Action) (u' : World) (hu : request ∈ u.db.approvals)
      (hu' : u.step digest a = some u') : request ∈ u'.db.approvals :=
    mem_approvals_of_step hanswered hu hu'
  exact Runs.run_invariant hstep h hrun

/-- No step takes a request away, or changes what it asks. -/
theorem exists_question_of_step {a : Action} {request : ApprovalRequest}
    (h : request ∈ w.db.approvals) (hstep : w.step digest a = some w') :
    ∃ r ∈ w'.db.approvals, r.question = request.question := by
  rcases requests_of_step hstep with
    hanswers | ⟨decided, resolution, env, now, -, -, hawaits, hresolves⟩
  · cases hanswers with
    | rewrites hrewrites =>
      obtain ⟨r, hr, hmoves⟩ := hrewrites.exists_mem h
      cases hmoves with
      | same hsame => exact ⟨r, hr, hsame ▸ rfl⟩
      | lapsed _ hsame => exact ⟨r, hr, hsame⟩
    | asks _ hinsert => exact ⟨request, (Table.mem_of_insert? hinsert).mpr (.inl h), rfl⟩
  · rw [hresolves.approvals]
    cases resolution with
    | none => exact ⟨request, h, rfl⟩
    | some r =>
      by_cases hid : request.id = decided.id
      · obtain rfl := Table.eq_of_key_eq h (Table.mem_of_find? hawaits.mem) hid
        exact ⟨request.resolve r now, Table.mem_put_self h rfl, rfl⟩
      · exact ⟨request, Table.mem_put_of_ne h hid, rfl⟩

/-- A request is resolved by no step but a decision. -/
theorem decides_of_step {a : Action} {request : ApprovalRequest} {resolution : Resolution}
    (hbefore : ¬∃ r ∈ w.db.approvals, r.id = request.id ∧ r.status = resolution.status)
    (hafter : ∃ r ∈ w'.db.approvals, r.id = request.id ∧ r.status = resolution.status)
    (hstep : w.step digest a = some w') : ∃ asked : ApprovalRequest, asked.id = request.id ∧
      w.Decides a w' asked (some resolution) := by
  obtain ⟨r', hr', hid, hstatus⟩ := hafter
  rcases requests_of_step hstep with hanswers | ⟨asked, decided, hdecides⟩
  · cases hanswers with
    | rewrites hrewrites =>
      obtain ⟨r, hr, hmoves⟩ := hrewrites.exists_of_mem hr'
      cases hmoves with
      | same hsame =>
        rw [hsame] at hid hstatus
        exact absurd ⟨r, hr, hid, hstatus⟩ hbefore
      | lapsed _ _ hlapsed =>
        rw [hstatus] at hlapsed
        cases resolution <;> cases hlapsed
    | asks hpending hinsert =>
      rcases (Table.mem_of_insert? hinsert).mp hr' with hr | rfl
      · exact absurd ⟨r', hr, hid, hstatus⟩ hbefore
      · rw [hpending] at hstatus
        cases resolution <;> cases hstatus
  · have hdecides' := hdecides
    obtain ⟨env, now, -, -, -, hresolves⟩ := hdecides'
    rw [hresolves.approvals] at hr'
    cases decided with
    | none => exact absurd ⟨r', hr', hid, hstatus⟩ hbefore
    | some r =>
      rcases Table.mem_put hr' with rfl | ⟨hr, -⟩
      · refine ⟨asked, hid, ?_⟩
        have hsame : r = resolution := by
          cases r <;> cases resolution <;> first | rfl | cases hstatus
        exact hsame ▸ hdecides
      · exact absurd ⟨r', hr, hid, hstatus⟩ hbefore

/-- A resolved request was resolved by a decision of the run, as it was asked. -/
theorem exists_decides {as : List Action} {request : ApprovalRequest} (resolution : Resolution)
    (hinit : w.Initial) (hrun : Runs.run (World.step digest) w as = some w')
    (hmem : request ∈ w'.db.approvals) (hstatus : request.status = resolution.status) :
    ∃ pre a post u v asked, as = pre ++ a :: post ∧
      Runs.run (World.step digest) w pre = some u ∧ u.step digest a = some v ∧
      asked.question = request.question ∧ u.Decides a v asked (some resolution) := by
  have hnone : ¬∃ r ∈ w.db.approvals, r.id = request.id ∧ r.status = resolution.status := by
    rintro ⟨r, hr, -⟩
    rw [Table.mem_def, hinit.approvals] at hr
    exact List.not_mem_nil hr
  have hturn (p : World → Prop) (hw : ¬p w) (hw' : p w') := Runs.exists_turn hw hw' hrun
  obtain ⟨pre, a, post, u, v, rfl, hpre, hstep, hbefore, hafter⟩ :=
    hturn (fun v => ∃ r ∈ v.db.approvals, r.id = request.id ∧ r.status = resolution.status) hnone
      ⟨request, hmem, rfl, hstatus⟩
  obtain ⟨asked, hid, hdecides⟩ := decides_of_step hbefore hafter hstep
  refine ⟨pre, a, post, u, v, asked, rfl, hpre, hstep, ?_, hdecides⟩
  obtain ⟨env, now, -, -, hawaits, hresolves⟩ := hdecides
  -- the resolved row stays to the end of the run
  have hrow : asked.resolve resolution now ∈ v.db.approvals := by
    rw [hresolves.approvals]
    exact Table.mem_put_self (Table.mem_of_find? hawaits.mem) rfl
  have hanswered : (asked.resolve resolution now).status ≠ .pending := by
    cases resolution <;> exact ApprovalStatus.noConfusion
  rw [Runs.run_append, hpre, Option.bind_some, Runs.run_cons, hstep, Option.bind_some] at hrun
  have hlast := mem_approvals_of_run hanswered hrow hrun
  rw [← Table.eq_of_key_eq hlast hmem hid]
  rfl

/-- A step that runs a waiting Execution again resumes an APPROVED request of its waiting Step. -/
theorem resumes_of_step {a : Action} (hwaits : w.db.execution.status = .waitingApproval)
    (hrunning : w'.db.execution.status = .running) (hstep : w.step digest a = some w') :
    ∃ (request : ApprovalRequest) (step : ExecutionStep) (env : ApprovalResumeEnv) (now : Time),
      a = .resumeApproval request.id env now ∧ request ∈ w.db.approvals ∧
        request.status = .approved ∧ step ∈ w.db.steps ∧ step.id = request.stepExecutionId ∧
        step.status = .waitingApproval := by
  have hdb := dbStep_of_step hstep
  -- the Execution is given to a token
  have hnew : a.newToken? ≠ none := by
    intro hnone
    cases executionMoves_of_step hstep with
    | kept hstatus =>
      rw [hwaits, hrunning] at hstatus
      cases hstatus
    | acquired hgiven =>
      rw [hnone] at hgiven
      cases hgiven
    | released _ hreleases =>
      rw [hwaits, hrunning] at hreleases
      cases hreleases
    | ended _ hfrom =>
      rw [hwaits] at hfrom
      cases hfrom
    | requested hfrom =>
      rw [hwaits] at hfrom
      cases hfrom
  have hsame {db : Db} (h : db = w.db) (hr : db.execution.status = .running) : False := by
    rw [h, hwaits] at hr
    cases hr
  generalize w'.db = db' at hdb hrunning
  cases hdb with
  | same => exact (hsame rfl hrunning).elim
  | claim h =>
    rcases claimExecution_ok h with ⟨-, rfl⟩ | ⟨-, hqueued, -⟩
    · exact (hsame rfl hrunning).elim
    · rw [hwaits] at hqueued
      cases hqueued
  | resumeApproval _ h =>
    cases resumedApproval_of_resumeClaim h with
    | stale hstatus => exact absurd hwaits hstatus
    | failed =>
      cases hrunning
    | @claimed request step _ hrequest hfind _ hresumable =>
      obtain ⟨-, hstepId, happroved, hstepWaits⟩ := assertResumable_ok hresumable
      obtain rfl := Table.key_of_find? hrequest
      exact ⟨request, step, _, _, rfl, Table.mem_of_find? hrequest, happroved,
        Table.mem_of_find? hfind, hstepId.symm, hstepWaits⟩
  | resumeInput _ h =>
    rcases Mrtr.claim_ok h with ⟨-, rfl, -⟩ | ⟨hinput, -⟩
    · exact (hsame rfl hrunning).elim
    · rw [hwaits] at hinput
      cases hinput
  | recover h =>
    have hrecovered := recovered_of_recoverExecution h
    cases hrecovered with
    | same => exact (hsame rfl hrunning).elim
    | cancelled hstatus =>
      rw [hwaits] at hstatus
      cases hstatus
    | foundation hstatus =>
      rw [hwaits] at hstatus
      cases hstatus
    | foundationInconsistent hstatus =>
      rw [hwaits] at hstatus
      cases hstatus
    | dag hstatus =>
      rw [hwaits] at hstatus
      cases hstatus
    | dagInconsistent hstatus =>
      rw [hwaits] at hstatus
      cases hstatus
  | _ => exact absurd rfl hnew

/-- A waiting Execution runs again only when a request of its waiting Step is resumed that a
decision of the run approved in time, while Execution and Step were waiting, with every check of the
actor and of the decision passed; the request is the one that was asked. -/
theorem approved_before_resumed_run {as : List Action} {a : Action} {v : World} (hinit : w.Initial)
    (hrun : Runs.run (World.step digest) w as = some v)
    (hwaits : v.db.execution.status = .waitingApproval) (hstep : v.step digest a = some w')
    (hrunning : w'.db.execution.status = .running) :
    ∃ (request : ApprovalRequest) (step : ExecutionStep) (env : ApprovalResumeEnv) (now : Time),
      a = .resumeApproval request.id env now ∧ request ∈ v.db.approvals ∧ step ∈ v.db.steps ∧
      step.id = request.stepExecutionId ∧ step.status = .waitingApproval ∧
      ∃ pre b post u u' asked, as = pre ++ b :: post ∧
        Runs.run (World.step digest) w pre = some u ∧ u.step digest b = some u' ∧
        asked.question = request.question ∧ u.Decides b u' asked (some .approved) := by
  obtain ⟨request, step, env, now, rfl, hrequest, happroved, hmem, hid, hstatus⟩ :=
    resumes_of_step hwaits hrunning hstep
  exact ⟨request, step, env, now, rfl, hrequest, hmem, hid, hstatus,
    exists_decides .approved hinit hrun hrequest happroved⟩

/-- An ApprovalPolicy of one approval. -/
def samplePolicy : ApprovalPolicy where
  id := .ofNat 7
  status := .active
  decisionMode := .any
  requiredApprovals := 1
  approverScope := none
  defaultExpirySeconds := 60
  allowSelfApproval := false
  rejectCommentRequired := false
  requiredApprovals_pos := Nat.one_pos
  defaultExpirySeconds_pos := Nat.zero_lt_succ 59

/-- The call of a TOOL whose policy requires an approval. -/
def guardedCall : PrepareEnv :=
  { plainCall (.ofNat 20) (.ofNat 30) "r1" with
    start :=
      { (plainCall (.ofNat 20) (.ofNat 30) "r1").start with
        authorization :=
          .ok ⟨⟨.ofNat 5, true, false, some (.ofNat 7), .readOnly⟩, some samplePolicy⟩ } }

/-- The call asks for its approval, and the request is approved. -/
def approvedCall : List Action :=
  [.claim (loopEnv true) sampleClaim 1, .worker (.ofNat 6) (.prepareWave (loopEnv true) 2),
    .worker (.ofNat 6) (.select fun _ => .ok true),
    .worker (.ofNat 6) (.runner (.ofNat 10) (.prepare guardedCall 3)),
    .decide (.ofNat 50) ⟨.ok (), .ok (), .ok (some .approved)⟩ 4]

/-- Its resume message. -/
def resumeCall : Action := .resumeApproval (.ofNat 50) ⟨.ok (), .ok (), "worker", .ofNat 8, 60⟩ 5

/-- The sample call runs again after its approval. -/
theorem approved_before_resumed_approvedCall : ∃ v v', Runs.run (World.step sampleDigest)
      twoCallWorld approvedCall = some v ∧ v.step sampleDigest resumeCall = some v' ∧
    ∃ (request : ApprovalRequest) (step : ExecutionStep) (env : ApprovalResumeEnv) (now : Time),
      resumeCall = .resumeApproval request.id env now ∧ request ∈ v.db.approvals ∧
      step ∈ v.db.steps ∧ step.id = request.stepExecutionId ∧ step.status = .waitingApproval ∧
      ∃ pre b post u u' asked, approvedCall = pre ++ b :: post ∧
        Runs.run (World.step sampleDigest) twoCallWorld pre = some u ∧
        u.step sampleDigest b = some u' ∧ asked.question = request.question ∧
        u.Decides b u' asked (some .approved) := by
  have hbefore : (Runs.run (World.step sampleDigest) twoCallWorld approvedCall).map
      (·.db.execution.status) = some .waitingApproval := by
    decide +kernel
  have hafter : (Runs.run (World.step sampleDigest) twoCallWorld
      (approvedCall ++ [resumeCall])).map (·.db.execution.status) = some .running := by
    decide +kernel
  obtain ⟨v, hv, hwaits⟩ := Option.map_eq_some_iff.mp hbefore
  obtain ⟨v', hv', hrunning⟩ := Option.map_eq_some_iff.mp hafter
  rw [Runs.run_append, hv, Option.bind_some] at hv'
  obtain ⟨u, hstep, hu⟩ := Runs.run_cons_eq_some.mp hv'
  cases hu
  exact ⟨v, v', hv, hstep, approved_before_resumed_run (queuedWorld_initial (by decide)) hv hwaits
    hstep hrunning⟩

end World

end McpFlow
