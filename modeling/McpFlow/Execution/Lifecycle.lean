import McpFlow.Execution.Moves

/-!
# The lifecycle of an Execution

The status and the lease of an Execution move together. `Execution.Moves` says how one transaction may
move them: it leaves them, gives the Execution to a fresh token, releases it on the way out of RUNNING
or CANCEL_REQUESTED, or asks its owner to cancel. From it follow the graph of the statuses, that an
Execution nobody works on holds no lease, and that a token which lost the Execution never gets it back.
-/

namespace McpFlow

/-- The statuses between which a transaction may move an Execution when it takes the lease away. -/
def ExecutionStatus.releasesTo : ExecutionStatus → ExecutionStatus → Bool
  | .running, .waitingApproval => true
  | .running, .waitingInput => true
  | s, .cancelled => !s.isTerminal
  | _, .failed => true
  | _, .timedOut => true
  | _, _ => false

@[simp] theorem ExecutionStatus.releasesTo_failed (s : ExecutionStatus) :
    s.releasesTo .failed = true := by
  cases s <;> rfl

@[simp] theorem ExecutionStatus.releasesTo_timedOut (s : ExecutionStatus) :
    s.releasesTo .timedOut = true := by
  cases s <;> rfl

/-- The statuses from which an Execution is given to a worker. -/
def ExecutionStatus.startsRun : ExecutionStatus → Bool
  | .queued | .waitingApproval | .waitingInput | .running => true
  | _ => false

/-- What a transaction does to the status and the lease of an Execution: `given` is the token it may
hand out, `natural` the evidence it needs to end the Execution in success. -/
inductive Execution.Moves (given : Option UUID) (natural : Prop) (e e' : Execution) : Prop
  | kept (hstatus : e'.status = e.status) (htoken : e'.leaseToken = e.leaseToken)
      (hcleared : e.leaseCleared = true → e'.leaseCleared = true)
  | acquired {token : UUID} (hgiven : given = some token) (hfrom : e.status.startsRun = true)
      (hstatus : e'.status = .running) (htoken : e'.leaseToken = some token)
  | released (hcleared : e'.leaseCleared = true) (h : e.status.releasesTo e'.status = true)
  | ended (hnatural : natural) (hfrom : e.status = .running) (hcleared : e'.leaseCleared = true)
      (hstatus : e'.status = .succeeded ∨ e'.status = .partiallySucceeded)
  | requested (hfrom : e.status = .running) (hstatus : e'.status = .cancelRequested)
      (htoken : e'.leaseToken = e.leaseToken)

/-- Every Step has ended, and the status is the one that their rows aggregate to. -/
def Db.NaturallyEnded (db : Db) : Prop :=
  dagNaturallyEnded db = true ∧ ∃ decision,
    aggregateAllRequired db.execution.planSnapshot db.steps.rows = .ok decision ∧
      db.execution.status = decision.status

namespace Execution.Moves

variable {given : Option UUID} {natural : Prop} {e e' : Execution} {db db' db₁ : Db}
  {worker : String} {token : UUID} {now : Time} {env : RuntimeEnv}

theorem refl (e : Execution) : e.Moves given natural e := .kept rfl rfl fun h => h

/-- The tokens that may be given and the evidence may grow. -/
theorem mono {given' : Option UUID} (h : e.Moves given natural e')
    (hgiven : ∀ t, given = some t → given' = some t) : e.Moves given' natural e' := by
  cases h with
  | kept hstatus htoken hcleared => exact .kept hstatus htoken hcleared
  | acquired hg hfrom hstatus htoken => exact .acquired (hgiven _ hg) hfrom hstatus htoken
  | released hcleared h => exact .released hcleared h
  | ended hnatural hfrom hcleared hstatus => exact .ended hnatural hfrom hcleared hstatus
  | requested hfrom hstatus htoken => exact .requested hfrom hstatus htoken

/-- A lease that is not given was there before. -/
theorem leaseToken_of_none (h : e.Moves none natural e') (htoken : e'.leaseToken = some token) :
    e.leaseToken = some token := by
  cases h with
  | kept _ hkept => exact hkept.symm.trans htoken
  | acquired hgiven => cases hgiven
  | released hcleared =>
    rw [Execution.leaseToken_of_leaseCleared hcleared] at htoken
    cases htoken
  | ended _ _ hcleared =>
    rw [Execution.leaseToken_of_leaseCleared hcleared] at htoken
    cases htoken
  | requested _ _ hkept => exact hkept.symm.trans htoken

theorem of_eq (h : e' = e) : e.Moves given natural e' := by
  rw [h]
  exact .refl e

/-- A heartbeat of the owner. -/
theorem beat (h : e.leaseToken = some token) : e.Moves given natural { e with heartbeatAt := some now } := by
  refine .kept rfl rfl fun hcleared => ?_
  rw [Execution.leaseToken_of_leaseCleared hcleared] at h
  cases h

theorem failed (h : e'.leaseCleared = true) (hstatus : e'.status = .failed) : e.Moves given natural e' := by
  refine .released h ?_
  rw [hstatus, ExecutionStatus.releasesTo_failed]

theorem timedOut (h : e'.leaseCleared = true) (hstatus : e'.status = .timedOut) :
    e.Moves given natural e' := by
  refine .released h ?_
  rw [hstatus, ExecutionStatus.releasesTo_timedOut]

theorem terminateExecution (status : ExecutionStatus) (errorCode : Option String)
    (h : db.execution.status.releasesTo status = true) :
    db.execution.Moves given natural (db.terminateExecution status errorCode now).execution :=
  .released rfl h

/-- The token of a worker that owns the Execution. -/
theorem leaseToken_of_hasRunningLease (h : e.hasRunningLease worker token now = true) :
    e.status = .running ∧ e.leaseToken = some token := by
  simp only [Execution.hasRunningLease, Bool.and_eq_true, beq_iff_eq] at h
  exact ⟨h.1, (Execution.holdsLease_iff.mp h.2).2.1⟩

/-! ### The transactions of a worker -/

/-- A reconcile after a move that keeps the lease. -/
theorem reconciled {outcome : CancellationOutcome}
    (hmove : db.execution.Moves given natural db₁.execution)
    (hopen : db₁.execution.status = .cancelRequested → db.execution.status.isTerminal = false)
    (h : reconcileCancelRequested now db₁ = .ok (outcome, db')) :
    db.execution.Moves given natural db'.execution := by
  obtain ⟨-, ⟨hsame, -⟩ | ⟨hstatus, -, e, hrows, hended, hcleared⟩⟩ := reconcileCancelRequested_ok h
  · rw [hsame]
    exact hmove
  · rw [hrows, Db.execution_putExecution]
    rcases hended with hcancelled | hfailed
    · refine .released hcleared ?_
      have hnot := hopen hstatus
      rw [hcancelled]
      cases hs : db.execution.status <;> rw [hs] at hnot <;> first | rfl | cases hnot
    · exact .failed hcleared hfailed

theorem localStop (hrunning : db.execution.status = .running)
    (h : LocalStop env now db db') : db.execution.Moves given natural db'.execution := by
  cases h with
  | stop status errorCode hstatus =>
    rcases hstatus with rfl | rfl
    · exact .failed rfl rfl
    · exact .timedOut rfl rfl
  | enterApproval _ hpending _ _ h =>
    obtain ⟨-, -, snapshot, db₁, -, hinsert, rfl⟩ :=
      Approval.enterForApprovalStep_ok (by rw [hpending]; decide) h
    refine .released rfl ?_
    rw [hrunning]
    rfl

theorem preparedWave (h : PreparedWave env worker token now db db') :
    db.execution.Moves given natural db'.execution := by
  cases h with
  | same => exact .refl _
  | reconciled hstatus h => exact .reconciled (.refl _) (fun _ => by rw [hstatus]; rfl) h
  | running hlease => exact .beat (leaseToken_of_hasRunningLease hlease).2
  | corrupt => exact .failed rfl rfl
  | stopped hlease hlocal hstop =>
    rw [← hlocal.execution]
    refine .localStop ?_ hstop
    rw [hlocal.execution]
    exact (leaseToken_of_hasRunningLease hlease).1
  | corruptAfter => exact .failed rfl rfl
  | @reserved db₁ dag singleTool hlease _ _ hlocal =>
    have hrows : (reserveToolWave dag singleTool now db₁).2.execution =
        { db.execution with heartbeatAt := some now } := by
      change ({ ((promotable dag db₁).foldl (fun db s => db.putStep (s.promote now))
        db₁).execution with heartbeatAt := some now } : Execution) = _
      rw [Db.foldl_putStep, hlocal.execution]
    rw [hrows]
    exact .beat (leaseToken_of_hasRunningLease hlease).2

/-- The natural end succeeds on the evidence of the rows that it leaves. -/
theorem naturalEnd {result : ProgressOutcome × Db} (hrunning : db.execution.status = .running)
    (hnatural : result.2.NaturallyEnded → natural)
    (h : McpFlow.naturalEnd now db = .ok (some result)) :
    db.execution.Moves given natural result.2.execution := by
  obtain ⟨hall, decision, hdecision, hrows⟩ := naturalEnd_ok h
  have hended : result.2.NaturallyEnded := by
    rw [hrows]
    exact ⟨hall, decision, hdecision, rfl⟩
  have hstatus : result.2.execution.status = decision.status := by
    rw [hrows]
    rfl
  have hcleared : result.2.execution.leaseCleared = true := by
    rw [hrows]
    rfl
  rcases aggregateAllRequired_ok hdecision with hsucceeded | hpartial | hfailed
  · exact .ended (hnatural hended) hrunning hcleared (.inl (hstatus.trans hsucceeded))
  · exact .ended (hnatural hended) hrunning hcleared (.inr (hstatus.trans hpartial))
  · exact .failed hcleared (hstatus.trans hfailed)

theorem settledWave {outcomes : List (UUID × ToolRunOutcome)} {planOrder : List String}
    (hnatural : db.execution.hasRunningLease worker token now = true → db'.NaturallyEnded → natural)
    (h : SettledWave env worker token outcomes planOrder now db db') :
    db.execution.Moves given natural db'.execution := by
  cases h with
  | same => exact .refl _
  | corrupt => exact .failed rfl rfl
  | @stopCause stop =>
    change (db.stopUnstartedSteps now).execution.Moves given natural _
    refine .terminateExecution _ _ ?_
    unfold StopCause.executionStatus
    split <;> simp
  | reconciled hstatus _ _ h => exact .reconciled (.refl _) (fun _ => by rw [hstatus]; rfl) h
  | stopped hlease hlocal hstop =>
    rw [← hlocal.execution]
    refine .localStop ?_ hstop
    rw [hlocal.execution]
    exact (leaseToken_of_hasRunningLease hlease).1
  | ended hlease hlocal h =>
    rw [← hlocal.execution]
    refine .naturalEnd ?_ (hnatural hlease) h
    rw [hlocal.execution]
    exact (leaseToken_of_hasRunningLease hlease).1
  | @settled db₁ hlease hlocal =>
    rw [show (db₁.beat now).execution = { db.execution with heartbeatAt := some now } by
      rw [← hlocal.execution]; rfl]
    exact .beat (leaseToken_of_hasRunningLease hlease).2

theorem finished
    (hnatural : db.execution.hasRunningLease worker token now = true → db'.NaturallyEnded → natural)
    (h : Finished env worker token now db db') : db.execution.Moves given natural db'.execution := by
  cases h with
  | same => exact .refl _
  | corrupt => exact .failed rfl rfl
  | stopped hlease hlocal hstop =>
    rw [← hlocal.execution]
    refine .localStop ?_ hstop
    rw [hlocal.execution]
    exact (leaseToken_of_hasRunningLease hlease).1
  | ended hlease hlocal h =>
    rw [← hlocal.execution]
    refine .naturalEnd ?_ (hnatural hlease) h
    rw [hlocal.execution]
    exact (leaseToken_of_hasRunningLease hlease).1
  | unfinished _ hlocal => exact .of_eq hlocal.execution

/-! ### The transactions of a Tool Runner -/

theorem applyOrDeferExecutionFatal (errorCode : Option String) (defer : Bool)
    (htoken : db.execution.leaseToken = some token) :
    db.execution.Moves given natural
      (McpFlow.applyOrDeferExecutionFatal errorCode now defer db).execution := by
  unfold McpFlow.applyOrDeferExecutionFatal
  split
  · exact .beat htoken
  · exact .failed rfl rfl

/-- Only a RUNNING Execution is failed with the Step. -/
private theorem prepareFatal_execution {step : ExecutionStep} {errorCode : String} {defer : Bool}
    (h : db.execution.status ≠ .running) :
    (McpFlow.prepareFatal step errorCode now defer db).2.execution = db.execution := by
  have hsame : (failNonterminalStep step errorCode now db).execution = db.execution := by
    unfold failNonterminalStep
    split <;> rfl
  change (failRunningExecution errorCode now defer
    (failNonterminalStep step errorCode now db)).execution = _
  rw [failRunningExecution, hsame, if_neg h, hsame]

theorem prepareFatal {step : ExecutionStep} {errorCode : String} {defer : Bool}
    {result : PrepareResult}
    (htoken : db.execution.status = .running → db.execution.leaseToken = some token)
    (h : (result, db') = McpFlow.prepareFatal step errorCode now defer db) :
    db.execution.Moves given natural db'.execution := by
  have hsame : (failNonterminalStep step errorCode now db).execution = db.execution := by
    unfold failNonterminalStep
    split <;> rfl
  rw [show db' = failRunningExecution errorCode now defer
    (failNonterminalStep step errorCode now db) from congrArg Prod.snd h]
  unfold failRunningExecution
  rw [hsame]
  split
  · next hrunning =>
    rw [← hsame] at htoken ⊢
    exact .applyOrDeferExecutionFatal _ defer (htoken (hsame.symm ▸ hrunning))
  · exact .of_eq hsame

theorem prepareStartFailed {step : ExecutionStep} {e : AppError} {defer : Bool}
    {result : PrepareResult}
    (htoken : db.execution.status = .running → db.execution.leaseToken = some token)
    (h : (result, db') = McpFlow.prepareStartFailed step e now defer db) :
    db.execution.Moves given natural db'.execution := by
  unfold McpFlow.prepareStartFailed at h
  split at h
  · exact .of_eq (congrArg (·.2.execution) h)
  split at h
  · exact .of_eq (congrArg (·.2.execution) h)
  split at h
  · exact .of_eq (congrArg (·.2.execution) h)
  · exact .prepareFatal htoken h

theorem applyTerminalTransition {step : ExecutionStep} {attempt : StepAttempt} {toolCall : ToolCall}
    {callEnd : CallEnd} {risk : RiskClass} {defer : Bool}
    (htoken : db.execution.leaseToken = some token) :
    db.execution.Moves given natural (McpFlow.applyTerminalTransition step attempt toolCall callEnd risk now
      defer db).execution := by
  unfold McpFlow.applyTerminalTransition
  dsimp only
  split
  · unfold McpFlow.applyOrDeferExecutionFatal
    split
    · exact .beat htoken
    · exact .failed rfl rfl
  · exact .beat htoken

theorem prepareStarted {penv : PrepareEnv} {step : ExecutionStep} {attempt : StepAttempt}
    {replayed defer forbidWait : Bool} {result : PrepareResult}
    (htoken : db.execution.leaseToken = some token)
    (h : McpFlow.prepareStarted penv step attempt replayed worker token now defer forbidWait db =
      .ok (result, db')) : db.execution.Moves given natural db'.execution := by
  rcases prepareStarted_ok h with ⟨-, -, hsame⟩ | ⟨-, ⟨errorCode, hfatal⟩ | ⟨catalog, resume, -, hcall⟩⟩
  · exact .of_eq (congrArg _ hsame)
  · exact .prepareFatal (fun _ => htoken) hfatal
  · obtain ⟨c, toolCalls, -, -, -, -, ⟨p, -, rfl, -⟩ | ⟨errorCode, -, rfl⟩⟩ := prepareCall_ok hcall
    · exact .refl _
    · change ({ db with toolCalls := toolCalls } : Db).execution.Moves given natural _
      exact .applyTerminalTransition htoken

theorem prepareAttempt {penv : PrepareEnv} {step : ExecutionStep}
    {defer forbidWait forbidNewApprovalWait : Bool} {result : PrepareResult}
    (htoken : db.execution.leaseToken = some token)
    (h : McpFlow.prepareAttempt penv step worker token now defer forbidWait forbidNewApprovalWait db =
      .ok (result, db')) : db.execution.Moves given natural db'.execution := by
  obtain ⟨started, db₁, hstarted, hrest⟩ := prepareAttempt_ok h
  cases hstarted with
  | refused e => exact .prepareStartFailed (fun _ => htoken) hrest
  | reused outcome hwait =>
    rcases hrest with ⟨-, hfatal⟩ | ⟨-, hsame, -⟩
    · exact .prepareFatal (fun _ => htoken) hfatal
    · exact .of_eq (congrArg _ hsame)
  | replayed attempt => exact .prepareStarted htoken hrest
  | refusedPinned e input =>
    change (db.putStep (step.pinInput input)).execution.Moves given natural _
    exact .prepareStartFailed (fun _ => htoken) hrest
  | waits outcome input request approvals _ hrunning =>
    have hwaits : db.execution.Moves given natural
        { db.execution.clearLease with status := .waitingApproval } := by
      refine .released rfl ?_
      rw [hrunning]
      rfl
    rcases hrest with ⟨-, hfatal⟩ | ⟨-, hsame, -⟩
    · -- the Execution waits already, and is left alone
      have hsame : db'.execution = { db.execution.clearLease with status := .waitingApproval } := by
        rw [show db' = _ from congrArg Prod.snd hfatal, prepareFatal_execution
          (show ExecutionStatus.waitingApproval ≠ .running by decide)]
        rfl
      rw [hsame]
      exact hwaits
    · rw [hsame]
      exact hwaits
  | created attempt input attempts =>
    change ({ (db.putStep (step.pinInput input)).putStep
      ((step.pinInput input).startRunning now) with attempts := attempts } : Db).execution.Moves
        given natural _
    exact .prepareStarted htoken hrest

theorem prepare {penv : PrepareEnv} {stepId : UUID}
    {defer forbidWait forbidNewApprovalWait : Bool} {result : PrepareResult}
    (h : McpFlow.prepare penv stepId worker token now defer forbidWait forbidNewApprovalWait db =
      .ok (result, db')) : db.execution.Moves given natural db'.execution := by
  rcases prepare_ok h with ⟨hsame, -⟩ | ⟨-, -, hstatus, outcome, hreconcile, -⟩ |
    ⟨step, -, -, -, -, howned⟩
  · exact .of_eq (congrArg _ hsame)
  · have hmove : db.execution.Moves given natural db.enterCancelRequested.execution := by
      unfold Db.enterCancelRequested
      split
      · next hrunning => exact .requested hrunning rfl rfl
      · exact .refl _
    refine .reconciled hmove (fun _ => ?_) hreconcile
    unfold Db.enterCancelRequested at hstatus
    split at hstatus
    · next hrunning =>
      rw [hrunning]
      rfl
    · rw [hstatus]
      rfl
  · rcases prepareOwned_ok howned with ⟨hsame, -⟩ | ⟨howned, -, ⟨-, hrows, -⟩ | hattempt⟩
    · exact .of_eq (congrArg _ hsame)
    · rw [hrows]
      exact .beat (Execution.leaseToken_of_ownedInFlight howned)
    · exact .prepareAttempt (Execution.leaseToken_of_ownedInFlight howned) hattempt

/-- A call that ends under a cancellation. -/
private theorem cancelCall {outcome : CancellationOutcome}
    (howned : db.execution.status = .running ∨ db.execution.status = .cancelRequested)
    (h : reconcileCancelRequested now (db₁.ensureCancelRequested now) = .ok (outcome, db'))
    (hsame : db₁.execution = db.execution) :
    db.execution.Moves given natural db'.execution := by
  rw [← hsame] at howned ⊢
  refine .reconciled ?_ (fun _ => ?_) h
  · unfold Db.ensureCancelRequested
    split
    · exact .refl _
    · next hnot => exact .requested (howned.resolve_right hnot) rfl rfl
  · rcases howned with hstatus | hstatus <;> rw [hstatus] <;> rfl

private theorem cancelPreparedInvocation {step : ExecutionStep} {attempt : StepAttempt}
    {toolCall : ToolCall} {outcome : CancellationOutcome}
    (howned : db.execution.status = .running ∨ db.execution.status = .cancelRequested)
    (h : cancelPreparedInvocationBeforeSend step attempt toolCall now db = .ok (outcome, db')) :
    db.execution.Moves given natural db'.execution := by
  unfold cancelPreparedInvocationBeforeSend at h
  dsimp only at h
  split at h <;> exact .cancelCall howned h rfl

/-- A corrupt lineage writes rows of the call, and then ends the Execution or beats. -/
private theorem gateFailClosed {step : Option ExecutionStep} {attempt : Option StepAttempt}
    {toolCall : Option ToolCall} {p : PreparedCall} {result : GateResult}
    (htoken : db.execution.leaseToken = some token)
    (h : (result, db') = finalGateFailClosedLineageCorruption step attempt toolCall p now db) :
    db.execution.Moves given natural db'.execution := by
  have hstep (d : Db) (s : ExecutionStep) :
      (failNonterminalStep s "RESOURCE_CONFLICT" now d).execution = d.execution := by
    unfold failNonterminalStep
    split <;> rfl
  have hattempt (d : Db) (a : StepAttempt) :
      (failStartedAttempt a "RESOURCE_CONFLICT" now d).execution = d.execution := by
    unfold failStartedAttempt
    split <;> rfl
  have hcall (d : Db) (c : ToolCall) : (failStartedToolCall c now d).execution = d.execution := by
    unfold failStartedToolCall
    split <;> rfl
  rw [show db' = _ from congrArg Prod.snd h]
  unfold finalGateFailClosedLineageCorruption
  dsimp only
  generalize hdb₁ : step.elim db (fun step => failNonterminalStep step "RESOURCE_CONFLICT" now db) = db₁
  generalize hdb₂ : attempt.elim db₁
    (fun attempt => failStartedAttempt attempt "RESOURCE_CONFLICT" now db₁) = db₂
  generalize hdb₃ : toolCall.elim db₂ (fun toolCall => failStartedToolCall toolCall now db₂) = db₃
  have hsame : db₃.execution = db.execution := by
    rw [← hdb₃, ← hdb₂, ← hdb₁]
    cases step <;> cases attempt <;> cases toolCall <;> simp [hstep, hattempt, hcall]
  rw [← hsame] at htoken ⊢
  exact .applyOrDeferExecutionFatal _ _ htoken

theorem finalPreSendGate {verdict : Option String} {p : PreparedCall} {result : GateResult}
    (h : McpFlow.finalPreSendGate verdict p now db = .ok (result, db')) :
    db.execution.Moves given natural db'.execution := by
  rcases finalPreSendGate_ok h with ⟨-, hsame, -⟩ | ⟨howned, hcorrupt |
    ⟨step, attempt, toolCall, -, -, -, -, ⟨-, outcome, hcancel, -⟩ | ⟨-, hsame, -⟩⟩⟩
  · exact .of_eq (congrArg _ hsame)
  · exact .gateFailClosed (Execution.leaseToken_of_ownedInFlight howned) hcorrupt
  · exact .cancelPreparedInvocation (Execution.ownedInFlight_iff.mp howned).1 hcancel
  · exact .of_eq (congrArg _ hsame)

theorem finalizeLocked {pinned : Except AppError PinnedToolPolicy} {p : PreparedCall}
    {callEnd : CallEnd} {outcome : ToolRunOutcome}
    (h : McpFlow.finalizeLocked pinned p callEnd now db = .ok (outcome, db')) :
    db.execution.Moves given natural db'.execution := by
  obtain ⟨step, attempt, toolCall, risk, hfence, ⟨e, -, -, -, hrows⟩ | hterminal⟩ :=
    finalizeLocked_ok h
  · rw [hrows]
    exact .refl _
  · have howned := (finalizeFence_some hfence).1
    have hmove : db.execution.Moves given natural (McpFlow.applyTerminalTransition step attempt toolCall
        callEnd risk now p.deferExecutionTerminalization db).execution :=
      .applyTerminalTransition (Execution.leaseToken_of_ownedInFlight howned)
    obtain ⟨-, -, -, hsame | ⟨-, outcome, hreconcile⟩⟩ := finalizeTerminal_ok hterminal
    · rw [hsame]
      exact hmove
    · refine .reconciled hmove (fun _ => ?_) hreconcile
      rcases (Execution.ownedInFlight_iff.mp howned).1 with hstatus | hstatus <;> rw [hstatus] <;> rfl

theorem finalizeInputRequired {p : PreparedCall} {mrtr : InputRequired} {requestId : UUID}
    {outcome : ToolRunOutcome}
    (h : McpFlow.finalizeInputRequired p mrtr requestId now db = .ok (outcome, db')) :
    db.execution.Moves given natural db'.execution := by
  obtain ⟨step, attempt, toolCall, hfence, hend⟩ := finalizeInputRequired_ok h
  have howned := (finalizeFence_some hfence).1
  have htoken := Execution.leaseToken_of_ownedInFlight howned
  have hstatus := (Execution.ownedInFlight_iff.mp howned).1
  rcases hend with ⟨s, a, status, errorCode, -, -, -, -, -, hfatal⟩ | ⟨-, o, hsettle⟩ |
    ⟨db₁, hinsert, hrows⟩ | ⟨-, hcancel, hwait⟩
  · rw [show db' = _ from congrArg Prod.snd hfatal]
    change (settleCallRows s a toolCall status status errorCode now db).execution.Moves given natural _
    exact .applyOrDeferExecutionFatal _ _ htoken
  · unfold settleInputRequiredAfterCancel at hsettle
    exact .cancelCall hstatus hsettle rfl
  · obtain ⟨inputRequests, -, rfl⟩ := Db.insertInputRequest_ok hinsert
    rw [hrows]
    exact .beat htoken
  · obtain ⟨inputRequests, -, rfl⟩ := openInputWait_ok hwait
    refine .released rfl ?_
    -- an Execution whose cancellation is requested does not wait
    have hrunning : db.execution.status = .running := by
      refine hstatus.resolve_right fun hrequested => ?_
      rw [Execution.cancellationIsRequested, hrequested] at hcancel
      cases hcancel
    rw [hrunning]
    rfl

theorem renewLease {leaseSeconds : ℕ}
    (h : McpFlow.renewLease leaseSeconds worker token now db = .ok ((), db')) :
    db.execution.Moves given natural db'.execution := by
  unfold McpFlow.renewLease at h
  split at h
  · next hlease =>
    cases h
    refine .kept rfl rfl fun hcleared => ?_
    have htoken := (Execution.holdsLease_iff.mp hlease.2).2.1
    rw [Execution.leaseToken_of_leaseCleared hcleared] at htoken
    cases htoken
  · cases h

/-! ### The others -/

theorem claimExecution {claim : ClaimEnv} {outcome : ExecutionClaimOutcome}
    (h : McpFlow.claimExecution env claim now db = .ok (outcome, db')) :
    db.execution.Moves (if outcome.claimed then some claim.leaseToken else none) natural
      db'.execution := by
  rcases claimExecution_ok h with ⟨-, hsame⟩ | ⟨hclaimed, hqueued, dag, -, hrows⟩
  · exact .of_eq (congrArg _ hsame)
  · have hexecution : db'.execution =
        { db.execution.assignLease claim.worker claim.leaseToken now claim.leaseSeconds with
          status := .running
          startedAt := some now } := by
      rw [hrows, applyClaim, Db.foldl_putStep]
      rfl
    rw [hexecution]
    exact .acquired (if_pos hclaimed) (by rw [hqueued]; rfl) rfl rfl

theorem applyCancellation {requestedBy : Option UUID} {outcome : CancellationOutcome}
    (h : McpFlow.applyCancellation now requestedBy db = .ok (outcome, db')) :
    db.execution.Moves given natural db'.execution := by
  rcases applyCancellation_ok h with ⟨hsame, -⟩ | ⟨hopen, -, ⟨-, hrows⟩ | ⟨hrunning, -, hrows⟩⟩
  · exact .of_eq (congrArg _ hsame)
  · rw [hrows]
    refine .released rfl ?_
    change db.execution.status.releasesTo .cancelled = true
    cases hs : db.execution.status <;> rw [hs] at hopen <;> first | rfl | cases hopen
  · rw [hrows]
    refine .requested hrunning rfl ?_
    change (db.execution.setCancelMetadataOnce now requestedBy).leaseToken = _
    unfold Execution.setCancelMetadataOnce
    split <;> rfl

theorem failWaitingStep (authorable : Bool) (step : ExecutionStep) (errorCode : String) :
    db.execution.Moves given natural (Approval.failWaitingStep authorable step errorCode now db).execution :=
  .failed rfl rfl

theorem decided {requestId : UUID} (h : Approval.Decided requestId now db db') :
    db.execution.Moves given natural db'.execution := by
  cases h with
  | same => exact .refl _
  | approved => exact .refl _
  | rejected => exact .failed rfl rfl
  | expired => exact .failed rfl rfl

theorem expireRequest (requestId : UUID) :
    db.execution.Moves given natural (Approval.expireRequest requestId now db).execution := by
  rcases Approval.expireRequest_cases requestId now db with hsame | ⟨_, _, -, -, -, -, -, hrows⟩
  · rw [hsame]
    exact .refl _
  · rw [hrows]
    exact .failed rfl rfl

theorem resumedApproval {renv : Approval.ApprovalResumeEnv} {requestId : UUID}
    {outcome : Approval.ApprovalResumeClaimOutcome}
    (h : Approval.ResumedApproval renv requestId now db outcome db') :
    db.execution.Moves (if outcome.claimed then some renv.leaseToken else none) natural
      db'.execution := by
  cases h with
  | stale => exact .refl _
  | failed => exact .failed rfl rfl
  | claimed hstatus => exact .acquired rfl (by rw [hstatus]; rfl) rfl rfl

theorem claimInput {renv : Mrtr.ResumeEnv} {requestId : UUID} {outcome : Mrtr.ResumeClaimOutcome}
    (h : Mrtr.claim renv requestId now db = .ok (outcome, db')) :
    db.execution.Moves (if outcome.claimed then some renv.leaseToken else none) natural
      db'.execution := by
  rcases Mrtr.claim_ok h with ⟨-, hsame, -⟩ | ⟨hstatus, step, -, -, ⟨-, hrows⟩ |
    ⟨hclaimed, request, attempt, -, -, -, -, -, hrows⟩⟩
  · exact .of_eq (congrArg _ hsame)
  · rw [hrows]
    refine .failed ?_ ?_ <;> unfold Mrtr.terminalizePreconditionFailed <;> split <;>
      simp [hstatus, Execution.leaseCleared, Execution.clearLease]
  · rw [hrows]
    exact .acquired (if_pos hclaimed) (by rw [hstatus]; rfl) rfl rfl

theorem rejectInput {resumeLineage : Except AppError Unit} {requestId : UUID} {actor : Mrtr.Actor}
    (h : Mrtr.reject resumeLineage requestId actor now db = .ok ((), db')) :
    db.execution.Moves given natural db'.execution := by
  rcases Mrtr.reject_ok h with hsame | ⟨-, request, attempt, step, -, -, -, -, hrows⟩
  · exact .of_eq (congrArg _ hsame)
  · rw [hrows]
    exact .failed rfl rfl

theorem submitResponse {resumeLineage : Except AppError Unit} {requestId : UUID}
    {actor : Mrtr.Actor} {responses : List (String × Json.Value)} {outcome : Mrtr.MrtrResponseOutcome}
    (h : Mrtr.submitResponse resumeLineage requestId actor responses now db = .ok (outcome, db')) :
    db.execution.Moves given natural db'.execution := by
  obtain ⟨-, ⟨-, hsame⟩ | ⟨-, -, request, accepted, -, -, -, hrows⟩⟩ := Mrtr.submitResponse_ok h
  · exact .of_eq (congrArg _ hsame)
  · rw [hrows]
    exact .refl _

/-! ### Recovery -/

private theorem execution_foldl_applyClassification (retry : Bool)
    (steps : List (ExecutionStep × ToolStepClassification)) (db : Db) :
    (steps.foldl (applyClassification retry now) db).execution = db.execution := by
  induction steps generalizing db with
  | nil => rfl
  | cons entry steps ih =>
    rw [List.foldl_cons, ih]
    obtain ⟨step, classification⟩ := entry
    cases classification <;> first | rfl | (cases retry <;> rfl)

private theorem execution_foldl_transferAttempt (renv : RecoveryEnv) (expiresAt : Option Time)
    (steps : List (ExecutionStep × ToolStepClassification)) (db : Db) :
    (steps.foldl (transferAttempt renv expiresAt) db).execution = db.execution := by
  induction steps generalizing db with
  | nil => rfl
  | cons entry steps ih =>
    rw [List.foldl_cons, ih]
    obtain ⟨step, classification⟩ := entry
    cases classification <;> rfl

private theorem takeOver (renv : RecoveryEnv) (steps : List (ExecutionStep × ToolStepClassification))
    (hrunning : db.execution.status = .running) :
    db.execution.Moves (some renv.leaseToken) natural (McpFlow.takeOver renv steps now db).2.execution := by
  have hrows : (McpFlow.takeOver renv steps now db).2.execution =
      db.execution.assignLease renv.worker renv.leaseToken now renv.leaseSeconds := by
    unfold McpFlow.takeOver
    dsimp only
    rw [execution_foldl_transferAttempt, Db.execution_putExecution,
      execution_foldl_applyClassification]
  rw [hrows]
  exact .acquired rfl (by rw [hrunning]; rfl) hrunning rfl

theorem recovered {renv : RecoveryEnv} {outcome : RecoveryOutcome} (natural : Prop)
    (h : Recovered renv now db outcome db') :
    db.execution.Moves (if outcome.invokeRunner then some renv.leaseToken else none) natural
      db'.execution := by
  cases h with
  | same => exact .refl _
  | cancelled hstatus h =>
    unfold recoverExpiredCancelRequested at h
    split at h
    · next hended =>
      rw [hstatus] at hended
      exact absurd hended (by decide)
    split at h
    · cases h
    · refine .reconciled ?_ (fun _ => by rw [hstatus]; rfl) h
      exact .refl _
  | @foundation step decision hrunning =>
    have hacquired : db.execution.Moves (some renv.leaseToken) natural
        (db.execution.assignLease renv.worker renv.leaseToken now renv.leaseSeconds) :=
      .acquired rfl (by rw [hrunning]; rfl) hrunning rfl
    cases decision with
    | takeoverReady => exact hacquired
    | resumeAttempt => exact hacquired
    | safeRetry => exact hacquired
    | failExhausted => exact .failed rfl rfl
    | unknownOutcome => exact .failed rfl rfl
  | foundationInconsistent => exact .failed rfl rfl
  | @dag steps hrunning =>
    unfold recoverClassified
    split
    · exact .failed rfl rfl
    split
    · exact .failed rfl rfl
    · exact .takeOver renv steps hrunning
  | dagInconsistent => exact .failed rfl rfl

end Execution.Moves

namespace World

variable {digest : TemplateDigest} {w w' : World}

/-- The worker that holds the lease settles its wave or finishes the plan, and the rows have ended. -/
def EndsNaturally (w : World) (a : Action) (w' : World) : Prop :=
  ∃ (r : Worker) (env : RuntimeEnv) (now : Time), w.worker? r.token = some r ∧
    (a = .worker r.token (.settle env now) ∨ a = .worker r.token (.finish env now)) ∧
    w.db.execution.hasRunningLease r.worker r.token now = true ∧ w'.db.NaturallyEnded

private theorem eq_of_given {claimed : Bool} {token t : UUID}
    (h : (if claimed = true then some token else none) = some t) : some token = some t := by
  split at h
  · exact h
  · cases h

/-- Every step moves the Execution, and gives it to no other token than its own fresh one. -/
theorem executionMoves_of_step {a : Action} (hstep : w.step digest a = some w') :
    w.db.execution.Moves a.newToken? (w.EndsNaturally a w') w'.db.execution := by
  have hdb := dbStep_of_step hstep
  unfold EndsNaturally
  generalize w'.db = db' at hdb ⊢
  cases hdb with
  | same => exact .refl _
  | claim h => exact (Execution.Moves.claimExecution h).mono fun t ht => eq_of_given ht
  | prepareWave _ _ h => exact .preparedWave (preparedWave_of_prepareWave h)
  | failPolicy _ _ h =>
    rcases failClosedPreWavePolicy_ok h with hsame | ⟨-, hrows⟩
    · exact .of_eq (congrArg _ hsame)
    · rw [hrows]
      exact .failed rfl rfl
  | prepare _ _ _ h => exact .prepare h
  | gate _ _ _ h => exact .finalPreSendGate h
  | finalizeRefused _ _ _ h => exact .finalizeLocked h
  | finalize _ _ _ h => exact .finalizeLocked h
  | inputRequired _ _ _ h => exact .finalizeInputRequired h
  | settle hr _ h =>
    exact .settledWave (fun hlease hended => ⟨_, _, _, hr, .inl rfl, hlease, hended⟩)
      (settledWave_of_settleWave h)
  | finish hr _ h =>
    exact .finished (fun hlease hended => ⟨_, _, _, hr, .inr rfl, hlease, hended⟩)
      (finished_of_finalizeNaturalEnd h)
  | renew _ h => exact .renewLease h
  | cancel h => exact .applyCancellation h
  | decide h => exact .decided (Approval.decided_of_decideApproval h)
  | expire => exact .expireRequest _
  | resumeApproval _ h =>
    exact (Execution.Moves.resumedApproval (Approval.resumedApproval_of_resumeClaim h)).mono
      fun t ht => eq_of_given ht
  | submit h => exact .submitResponse h
  | reject h => exact .rejectInput h
  | resumeInput _ h => exact (Execution.Moves.claimInput h).mono fun t ht => eq_of_given ht
  | recover h =>
    have hmoves (natural : Prop) :=
      Execution.Moves.recovered natural (recovered_of_recoverExecution h)
    exact (hmoves _).mono fun t ht => eq_of_given ht

end World

end McpFlow
