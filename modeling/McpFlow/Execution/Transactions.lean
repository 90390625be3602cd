import McpFlow.Execution.Claim
import McpFlow.Execution.LocalStep
import McpFlow.Execution.Orchestrator
import McpFlow.Execution.Recovery

/-!
# What the transactions of a run can do

One inversion for each transaction that no Tool Runner makes: the rows it leaves, with the checks
that led there. Invariants of runs are proved from these and never unfold a transaction.
-/

namespace McpFlow

variable {env : RuntimeEnv} {worker : String} {token : UUID} {now : Time} {db db' : Db}

/-! ### The claim -/

/-- A claim changes nothing, or gives a QUEUED Execution its first lease. -/
theorem claimExecution_ok {claim : ClaimEnv} {outcome : ExecutionClaimOutcome}
    (h : claimExecution env claim now db = .ok (outcome, db')) :
    (outcome.claimed = false ∧ db' = db) ∨
      (outcome.claimed = true ∧ db.execution.status = .queued ∧ ∃ dag,
        claimDag env claim db = .ok dag ∧ db' = applyClaim claim dag now db) := by
  unfold claimExecution at h
  split at h
  · cases h
    exact .inl ⟨rfl, rfl⟩
  next hqueued =>
  split at h
  · cases h
  next dag hdag =>
  cases h
  exact .inr ⟨rfl, not_not.mp hqueued, dag, hdag, rfl⟩

/-! ### Preparing a wave -/

/-- The rows after `_prepare_wave`. -/
inductive PreparedWave (env : RuntimeEnv) (worker : String) (token : UUID) (now : Time) (db : Db) :
    Db → Prop
  | same : PreparedWave env worker token now db db
  /-- A requested cancellation without a call in flight, whoever holds the lease. -/
  | reconciled {outcome : CancellationOutcome} {db' : Db}
      (hstatus : db.execution.status = .cancelRequested)
      (h : reconcileCancelRequested now db = .ok (outcome, db')) :
    PreparedWave env worker token now db db'
  /-- The RUNNING TOOLs of an earlier wave run again. -/
  | running (hlease : db.execution.hasRunningLease worker token now = true) :
    PreparedWave env worker token now db (db.beat now)
  | corrupt (errorCode : String) (hlease : db.execution.hasRunningLease worker token now = true) :
    PreparedWave env worker token now db (failClosedLineage errorCode now db).2
  | stopped {db₁ db' : Db} (hlease : db.execution.hasRunningLease worker token now = true)
      (hlocal : LocalSteps env db db₁) (hstop : LocalStop env now db₁ db') :
    PreparedWave env worker token now db db'
  | corruptAfter {db₁ : Db} (errorCode : String)
      (hlease : db.execution.hasRunningLease worker token now = true)
      (hlocal : LocalSteps env db db₁) :
    PreparedWave env worker token now db (failClosedLineage errorCode now db₁).2
  /-- A wave is reserved; nothing waits and no TOOL is RUNNING. -/
  | reserved {db₁ : Db} {dag : ToolJoinDag} (singleTool : Bool)
      (hlease : db.execution.hasRunningLease worker token now = true)
      (hwait : waitTarget db = none) (hrunning : runningTools db = [])
      (hlocal : LocalSteps env db db₁)
      (hdag : validateToolJoinDag env.digest db₁.execution.planSnapshot db₁.steps.rows = .ok dag) :
    PreparedWave env worker token now db (reserveToolWave dag singleTool now db₁).2

private theorem preparedWave_of_reconciled {dag : ToolJoinDag} {outcome : ProgressOutcome}
    (hlease : db.execution.hasRunningLease worker token now = true) (hwait : waitTarget db = none)
    (hrunning : runningTools db = [])
    (h : prepareReconciled env dag now db = .ok (outcome, db')) :
    PreparedWave env worker token now db db' := by
  unfold prepareReconciled at h
  dsimp only at h
  split at h
  · cases h
  · next outcome' db₁ hreconcile =>
    cases h
    obtain ⟨db₁, hlocal, hstop⟩ := localStop_of_localReconcile hreconcile
    exact .stopped hlease hlocal hstop
  next changed db₁ hreconcile =>
  have hlocal := localSteps_of_localReconcile hreconcile
  split at h
  · next e _ =>
    have hresult : (failClosedLineage e.code now db₁).2 = db' := congrArg Prod.snd (Except.ok.inj h)
    exact hresult ▸ .corruptAfter e.code hlease hlocal
  · next dag' hdag =>
    have hresult : (reserveToolWave dag' _ now db₁).2 = db' :=
      congrArg Prod.snd (Except.ok.inj h)
    exact hresult ▸ .reserved _ hlease hwait hrunning hlocal hdag

/-- Every preparation of a wave is one of `PreparedWave`. -/
theorem preparedWave_of_prepareWave {outcome : ProgressOutcome}
    (h : prepareWave env worker token now db = .ok (outcome, db')) :
    PreparedWave env worker token now db db' := by
  unfold prepareWave at h
  split at h
  · cases h
    exact .same
  split at h
  · next hstatus =>
    split at h
    · cases h
      exact .same
    split at h
    · cases h
    next o db₁ hreconcile =>
    cases h
    exact .reconciled hstatus hreconcile
  split at h
  · split at h <;>
    · cases h
      exact .same
  next hwait =>
  split at h
  · cases h
    exact .same
  next hlease =>
  have hlease : db.execution.hasRunningLease worker token now = true := by simpa using hlease
  unfold prepareOwnedWave at h
  dsimp only at h
  split at h
  · split at h
    · cases h
      exact .running hlease
    · cases h
      exact .same
  split at h
  · next e _ =>
    have hresult : (failClosedLineage e.code now db).2 = db' := congrArg Prod.snd (Except.ok.inj h)
    exact hresult ▸ .corrupt e.code hlease
  split at h
  · cases h
    exact .running hlease
  · next hrunning =>
    exact preparedWave_of_reconciled hlease hwait (not_not.mp hrunning) h

/-- A reservation promotes PENDING TOOLs. -/
theorem mem_promotable {dag : ToolJoinDag} {s : ExecutionStep} (h : s ∈ promotable dag db) :
    s ∈ db.steps ∧ s.stepType = .tool ∧ s.status = .pending := by
  obtain ⟨hrow, heligible⟩ := List.mem_filter.mp (List.mem_of_mem_take h)
  obtain ⟨key, -, hkey⟩ := List.mem_filterMap.mp hrow
  simp only [toolStructurallyEligible, Bool.and_eq_true, beq_iff_eq] at heligible
  exact ⟨mem_of_rowByKey hkey, heligible.1.1.2, heligible.1.1.1⟩

/-- The policy of a wave that cannot be read ends the Execution of the lease owner. -/
theorem failClosedPreWavePolicy_ok {errorCode : String} {outcome : ProgressOutcome}
    (h : failClosedPreWavePolicy worker token errorCode now db = .ok (outcome, db')) :
    db' = db ∨ (db.execution.hasRunningLease worker token now = true ∧
      db' = (failClosedLineage errorCode now db).2) := by
  unfold failClosedPreWavePolicy at h
  split at h
  · cases h
    exact .inl rfl
  next hlease =>
  have hresult := congrArg Prod.snd (Except.ok.inj h)
  exact .inr ⟨by simpa using hlease, hresult.symm⟩

/-! ### Settling a wave -/

/-- The natural end needs every Step terminal. -/
theorem naturalEnd_ok {result : ProgressOutcome × Db} (h : naturalEnd now db = .ok (some result)) :
    dagNaturallyEnded db = true ∧ ∃ decision,
      aggregateAllRequired db.execution.planSnapshot db.steps.rows = .ok decision ∧
      result.2 = db.terminateExecution decision.status decision.errorCode now := by
  unfold naturalEnd at h
  split at h
  · cases h
  next hended =>
  split at h
  · cases h
  next decision hdecision =>
  cases h
  exact ⟨by simpa using hended, decision, hdecision, rfl⟩

/-- The rows after `_settle_wave`. Its two stops look at no lease. -/
inductive SettledWave (env : RuntimeEnv) (worker : String) (token : UUID)
    (outcomes : List (UUID × ToolRunOutcome)) (planOrder : List String) (now : Time) (db : Db) :
    Db → Prop
  | same : SettledWave env worker token outcomes planOrder now db db
  | corrupt {e : AppError} (h : validateLineage env db = .error e) :
    SettledWave env worker token outcomes planOrder now db (failClosedLineage e.code now db).2
  | stopCause {stop : StopCause} (h : pickStopCause (outcomes.filterMap fun (stepId, outcome) =>
        stopCauseOf planOrder db stepId outcome) = some stop) :
    SettledWave env worker token outcomes planOrder now db (applyStopCause stop now db).2
  | reconciled {outcome : CancellationOutcome} {db' : Db}
      (hstatus : db.execution.status = .cancelRequested)
      (hworker : db.execution.workerId = some worker)
      (htoken : db.execution.leaseToken = some token)
      (h : reconcileCancelRequested now db = .ok (outcome, db')) :
    SettledWave env worker token outcomes planOrder now db db'
  | stopped {db₁ db' : Db} (hlease : db.execution.hasRunningLease worker token now = true)
      (hlocal : LocalSteps env db db₁) (hstop : LocalStop env now db₁ db') :
    SettledWave env worker token outcomes planOrder now db db'
  | ended {db₁ : Db} {result : ProgressOutcome × Db}
      (hlease : db.execution.hasRunningLease worker token now = true)
      (hlocal : LocalSteps env db db₁) (h : naturalEnd now db₁ = .ok (some result)) :
    SettledWave env worker token outcomes planOrder now db result.2
  | settled {db₁ : Db} (hlease : db.execution.hasRunningLease worker token now = true)
      (hlocal : LocalSteps env db db₁) :
    SettledWave env worker token outcomes planOrder now db (db₁.beat now)

/-- Every settlement of a wave is one of `SettledWave`. -/
theorem settledWave_of_settleWave {outcomes : List (UUID × ToolRunOutcome)} {planOrder : List String}
    {outcome : ProgressOutcome}
    (h : settleWave env worker token outcomes planOrder now db = .ok (outcome, db')) :
    SettledWave env worker token outcomes planOrder now db db' := by
  unfold settleWave at h
  split at h
  · next e he =>
    have hresult : (failClosedLineage e.code now db).2 = db' := congrArg Prod.snd (Except.ok.inj h)
    exact hresult ▸ .corrupt he
  split at h
  · next stop hstop =>
    have hresult : (applyStopCause stop now db).2 = db' := congrArg Prod.snd (Except.ok.inj h)
    exact hresult ▸ .stopCause hstop
  unfold settleContinuable at h
  split at h
  · unfold settleCancellation at h
    split at h
    · cases h
      exact .same
    split at h
    · next howner =>
      split at h
      · cases h
      next o db₁ hreconcile =>
      cases h
      exact .reconciled howner.1 howner.2.1 howner.2.2 hreconcile
    · cases h
      exact .same
  split at h
  · cases h
    exact .same
  next hlease =>
  have hlease : db.execution.hasRunningLease worker token now = true := by simpa using hlease
  split at h
  · cases h
  · next o db₁ hreconcile =>
    cases h
    obtain ⟨db₁, hlocal, hstop⟩ := localStop_of_localReconcile hreconcile
    exact .stopped hlease hlocal hstop
  next changed db₁ hreconcile =>
  have hlocal := localSteps_of_localReconcile hreconcile
  split at h
  · cases h
  · next result hend =>
    have hresult : result.2 = db' := congrArg Prod.snd (Except.ok.inj h)
    exact hresult ▸ .ended hlease hlocal hend
  · cases h
    exact .settled hlease hlocal

/-! ### The natural end -/

/-- The rows after `_finalize_natural_end`. -/
inductive Finished (env : RuntimeEnv) (worker : String) (token : UUID) (now : Time) (db : Db) :
    Db → Prop
  | same : Finished env worker token now db db
  | corrupt (errorCode : String) (hlease : db.execution.hasRunningLease worker token now = true) :
    Finished env worker token now db (failClosedLineage errorCode now db).2
  | stopped {db₁ db' : Db} (hlease : db.execution.hasRunningLease worker token now = true)
      (hlocal : LocalSteps env db db₁) (hstop : LocalStop env now db₁ db') :
    Finished env worker token now db db'
  | ended {db₁ : Db} {result : ProgressOutcome × Db}
      (hlease : db.execution.hasRunningLease worker token now = true)
      (hlocal : LocalSteps env db db₁) (h : naturalEnd now db₁ = .ok (some result)) :
    Finished env worker token now db result.2
  | unfinished {db₁ : Db} (hlease : db.execution.hasRunningLease worker token now = true)
      (hlocal : LocalSteps env db db₁) : Finished env worker token now db db₁

/-- Every end of a plan is one of `Finished`. -/
theorem finished_of_finalizeNaturalEnd {outcome : Option ProgressOutcome}
    (h : finalizeNaturalEnd env worker token now db = .ok (outcome, db')) :
    Finished env worker token now db db' := by
  unfold finalizeNaturalEnd at h
  split at h
  · cases h
    exact .same
  split at h
  · cases h
    exact .same
  next hlease =>
  have hlease : db.execution.hasRunningLease worker token now = true := by simpa using hlease
  split at h
  · cases h
    exact .same
  split at h
  · next e _ =>
    have hresult : (failClosedLineage e.code now db).2 = db' := congrArg Prod.snd (Except.ok.inj h)
    exact hresult ▸ .corrupt e.code hlease
  split at h
  · cases h
  · next o db₁ hreconcile =>
    cases h
    obtain ⟨db₁, hlocal, hstop⟩ := localStop_of_localReconcile hreconcile
    exact .stopped hlease hlocal hstop
  next changed db₁ hreconcile =>
  have hlocal := localSteps_of_localReconcile hreconcile
  split at h
  · cases h
  · next result hend =>
    have hresult : result.2 = db' := congrArg Prod.snd (Except.ok.inj h)
    exact hresult ▸ .ended hlease hlocal hend
  · cases h
    exact .unfinished hlease hlocal

/-! ### Cancellation -/

/-- The rows of an immediate cancellation. -/
def cancelledNow (now : Time) (requestedBy : Option UUID) (db : Db) : Db :=
  ((db.putExecution (db.execution.setCancelMetadataOnce now requestedBy)).cancelOpenWork now
    requestedBy []).finalizeCancelled now

/-- The rows of a cancellation that waits for the calls in flight. -/
def cancelRequested (now : Time) (requestedBy : Option UUID) (db : Db) : Db :=
  let cleaned := (db.putExecution (db.execution.setCancelMetadataOnce now requestedBy)).cancelOpenWork
    now requestedBy db.inflightStepIds
  cleaned.putExecution { cleaned.execution with status := .cancelRequested }

/-- Only a RUNNING Execution may have calls to wait for. -/
theorem ExecutionStatus.eq_running {status : ExecutionStatus}
    (himmediate : ¬status.cancelsImmediately = true) (hterminal : status.isTerminal = false)
    (hrequested : status ≠ .cancelRequested) : status = .running := by
  cases status <;> simp [cancelsImmediately, isTerminal] at himmediate hterminal hrequested ⊢

/-- A cancellation is repeated, ends the Execution at once, or waits for the calls in flight. -/
theorem applyCancellation_ok {requestedBy : Option UUID} {outcome : CancellationOutcome}
    (h : applyCancellation now requestedBy db = .ok (outcome, db')) :
    (db' = db ∧ (db.execution.status = .cancelled ∨ db.execution.status = .cancelRequested)) ∨
      (db.execution.status.isTerminal = false ∧ db.execution.status ≠ .cancelRequested ∧
        (((db.execution.status.cancelsImmediately = true ∨ db.listStartedToolCalls = []) ∧
            db' = cancelledNow now requestedBy db) ∨
          (db.execution.status = .running ∧ db.listStartedToolCalls ≠ [] ∧
            db' = cancelRequested now requestedBy db))) := by
  unfold applyCancellation at h
  split at h
  · next hstatus =>
    cases h
    exact .inl ⟨rfl, hstatus⟩
  next hstatus =>
  split at h
  · cases h
  next hterminal =>
  have hterminal : db.execution.status.isTerminal = false := by simpa using hterminal
  refine .inr ⟨hterminal, fun hreq => hstatus (.inr hreq), ?_⟩
  dsimp only at h
  split at h
  · next himmediate =>
    cases h
    exact .inl ⟨himmediate, rfl⟩
  · next hwaits =>
    cases h
    have hrunning := ExecutionStatus.eq_running (fun hc => hwaits (.inl hc)) hterminal
      fun hreq => hstatus (.inr hreq)
    exact .inr ⟨hrunning, fun hnil => hwaits (.inr hnil), rfl⟩

/-! ### Recovery -/

/-- The rows of a takeover of a single TOOL, before its decision is applied. -/
def Db.takenOver (db : Db) (env : RecoveryEnv) (now : Time) : Db :=
  db.putExecution (db.execution.assignLease env.worker env.leaseToken now env.leaseSeconds)

/-- The rows after a recovery. -/
inductive Recovered (env : RecoveryEnv) (now : Time) (db : Db) : RecoveryOutcome → Db → Prop
  | same : Recovered env now db .none db
  | cancelled {outcome : CancellationOutcome} {db' : Db}
      (hstatus : db.execution.status = .cancelRequested)
      (h : recoverExpiredCancelRequested now db = .ok (outcome, db')) :
    Recovered env now db ⟨.cancelReconciled, true, false⟩ db'
  | foundation {step : ExecutionStep} {decision : FoundationDecision}
      (hstatus : db.execution.status = .running) (hstep : foundationStep db = .ok step)
      (hdecision : decideFoundation env db step = .ok decision) :
    Recovered env now db (applyFoundation env step now (db.takenOver env now) decision).1
      (applyFoundation env step now (db.takenOver env now) decision).2
  | foundationInconsistent (hstatus : db.execution.status = .running) :
    Recovered env now db ⟨.failInconsistent, true, false⟩ ((db.takenOver env now).failInconsistent now)
  | dag {steps : List (ExecutionStep × ToolStepClassification)}
      (hstatus : db.execution.status = .running) (hsteps : classifySteps env db = .ok steps) :
    Recovered env now db (recoverClassified env steps now db).1 (recoverClassified env steps now db).2
  | dagInconsistent (hstatus : db.execution.status = .running) :
    Recovered env now db ⟨.failInconsistent, false, false⟩
      (db.failClosed [] recoveryInconsistentEvidence now)

private theorem recovered_of_recoverFoundation {env : RecoveryEnv} {outcome : RecoveryOutcome}
    (hstatus : db.execution.status = .running)
    (h : recoverFoundation env now db = .ok (outcome, db')) :
    Recovered env now db outcome db' := by
  unfold recoverFoundation at h
  dsimp only at h
  split at h
  · next step decision hdecided =>
    obtain ⟨s, hstep, hdecided⟩ := Except.bind_eq_ok_iff.mp hdecided
    obtain ⟨d, hdecision, hpair⟩ := Except.bind_eq_ok_iff.mp hdecided
    cases hpair
    have hresult := Except.ok.inj h
    have hfound : Recovered env now db
        (applyFoundation env step now (db.takenOver env now) decision).1
        (applyFoundation env step now (db.takenOver env now) decision).2 :=
      .foundation hstatus hstep hdecision
    rw [← Db.takenOver] at hresult
    rw [hresult] at hfound
    exact hfound
  · split at h
    · cases h
      exact .foundationInconsistent hstatus
    · cases h

private theorem recovered_of_recoverWorkflowDag {env : RecoveryEnv} {outcome : RecoveryOutcome}
    (hstatus : db.execution.status = .running)
    (h : recoverWorkflowDag env now db = .ok (outcome, db')) :
    Recovered env now db outcome db' := by
  unfold recoverWorkflowDag at h
  split at h
  · next steps hsteps =>
    have hfound : Recovered env now db (recoverClassified env steps now db).1
        (recoverClassified env steps now db).2 := .dag hstatus hsteps
    rw [Except.ok.inj h] at hfound
    exact hfound
  · split at h
    · cases h
      exact .dagInconsistent hstatus
    · cases h

/-- Every recovery is one of `Recovered`. -/
theorem recovered_of_recoverExecution {env : RecoveryEnv} {outcome : RecoveryOutcome}
    (h : recoverExecution env now db = .ok (outcome, db')) : Recovered env now db outcome db' := by
  unfold recoverExecution at h
  split at h
  · next hstatus =>
    unfold recoverCancelRequested at h
    split at h
    · cases h
      exact .same
    split at h
    · cases h
    next hrecover =>
    cases h
    exact .cancelled hstatus hrecover
  split at h
  · cases h
    exact .same
  next hrunning =>
  have hstatus : db.execution.status = .running := not_not.mp (not_or.mp hrunning).1
  unfold recoverRunning at h
  dsimp only at h
  split at h
  · exact recovered_of_recoverFoundation hstatus h
  split at h
  · split at h
    · exact recovered_of_recoverWorkflowDag hstatus h
    · cases h
      exact .same
  · cases h
    exact .same

namespace Approval

/-! ### Approvals -/

/-- The rows after a decision. -/
inductive Decided (requestId : UUID) (now : Time) (db : Db) : Db → Prop
  | same : Decided requestId now db db
  | approved {request : ApprovalRequest} {step : ExecutionStep}
      (hrequest : db.approvals.find? requestId = some request)
      (hpending : request.status = .pending) (hexpiry : now < request.expiresAt)
      (hstep : db.steps.find? request.stepExecutionId = some step)
      (hwaits : waitsForApproval db step = true) :
    Decided requestId now db
      (db.putApproval { request with status := .approved, resolvedAt := some now })
  | rejected {request : ApprovalRequest} {step : ExecutionStep}
      (hrequest : db.approvals.find? requestId = some request)
      (hpending : request.status = .pending)
      (hstep : db.steps.find? request.stepExecutionId = some step)
      (hwaits : waitsForApproval db step = true) :
    Decided requestId now db
      (failWaitingStep (isAuthorableStepContext request.contextSnapshot) step "APPROVAL_REJECTED"
        now (db.putApproval { request with status := .rejected, resolvedAt := some now }))
  /-- The expiry looks at neither the Execution nor the Step. -/
  | expired {request : ApprovalRequest} {step : ExecutionStep}
      (hrequest : db.approvals.find? requestId = some request)
      (hpending : request.status = .pending)
      (hstep : db.steps.find? request.stepExecutionId = some step)
      (hexpiry : request.expiresAt ≤ now) :
    Decided requestId now db (terminalizeExpired request step now db)

/-- Every decision is one of `Decided`; only an approval enqueues a resume message. -/
theorem decided_of_decideApproval {denv : DecisionEnv} {requestId : UUID}
    {outcome : Except AppError ApprovalDecisionOutcome}
    (h : decideApproval denv requestId now db = .ok (outcome, db')) :
    Decided requestId now db db' := by
  unfold decideApproval at h
  split at h
  · cases h
  next request hrequest =>
  split at h
  · cases h
  next step hstep =>
  split at h
  · cases h
  split at h
  · cases h
  next hpending =>
  have hpending : request.status = .pending := not_not.mp hpending
  split at h
  · next hexpiry =>
    cases h
    exact .expired hrequest hpending hstep hexpiry
  next hexpiry =>
  split at h
  · cases h
  next decided db₁ hdecide =>
  cases h
  unfold decidePending at hdecide
  split at hdecide
  · cases hdecide
  next hwaits =>
  have hwaits : waitsForApproval db step = true := by simpa using hwaits
  split at hdecide
  · cases hdecide
  split at hdecide
  · cases hdecide
  · cases hdecide
    exact .same
  · cases hdecide
    exact .approved hrequest hpending (Nat.lt_of_not_le hexpiry) hstep hwaits
  · cases hdecide
    exact .rejected hrequest hpending hstep hwaits

/-- The expiry sweep changes nothing, or ends a wait. -/
theorem expireRequest_cases (requestId : UUID) (now : Time) (db : Db) :
    expireRequest requestId now db = db ∨ ∃ request step,
      db.approvals.find? requestId = some request ∧ request.status = .pending ∧
      request.expiresAt ≤ now ∧ db.steps.find? request.stepExecutionId = some step ∧
      waitsForApproval db step = true ∧
      expireRequest requestId now db = terminalizeExpired request step now db := by
  unfold expireRequest
  split
  · exact .inl rfl
  next request hrequest =>
  split
  · exact .inl rfl
  next step hstep =>
  split
  · next hdue => exact .inr ⟨request, step, hrequest, hdue.1, hdue.2.1, hstep, hdue.2.2, rfl⟩
  · exact .inl rfl

/-- The rows after a resume message. -/
inductive ResumedApproval (renv : ApprovalResumeEnv) (requestId : UUID) (now : Time) (db : Db) :
    ApprovalResumeClaimOutcome → Db → Prop
  | stale (hstatus : db.execution.status ≠ .waitingApproval) :
    ResumedApproval renv requestId now db ⟨false, some "STALE_DELIVERY"⟩ db
  | failed {request : ApprovalRequest} {step : ExecutionStep} (authorable : Bool)
      (hstatus : db.execution.status = .waitingApproval)
      (hrequest : db.approvals.find? requestId = some request)
      (hstep : db.steps.find? request.stepExecutionId = some step) :
    ResumedApproval renv requestId now db ⟨false, some "PRECONDITION_FAILED"⟩
      (failWaitingStep authorable step "APPROVAL_RESUME_PRECONDITION_FAILED" now db)
  | claimed {request : ApprovalRequest} {step : ExecutionStep}
      (hstatus : db.execution.status = .waitingApproval)
      (hrequest : db.approvals.find? requestId = some request)
      (hstep : db.steps.find? request.stepExecutionId = some step)
      (htype : step.stepType = .approval ∨ step.stepType = .tool)
      (hresumable : assertResumable db step request = .ok ())
      (hcleared : db.execution.leaseCleared = true)
      (hnone : findPendingForStep db step.id = none) :
    ResumedApproval renv requestId now db ⟨true, none⟩ (applyFreshClaim renv step now db)

private theorem resumedApproval_of_resumeApproved {renv : ApprovalResumeEnv} {requestId : UUID}
    {request : ApprovalRequest} {step : ExecutionStep} {authorable : Bool}
    {outcome : ApprovalResumeClaimOutcome} (hstatus : db.execution.status = .waitingApproval)
    (hrequest : db.approvals.find? requestId = some request)
    (hstep : db.steps.find? request.stepExecutionId = some step)
    (htype : step.stepType = .approval ∨ step.stepType = .tool)
    (hresumable : assertResumable db step request = .ok ())
    (hcleared : db.execution.leaseCleared = true)
    (h : resumeApproved renv authorable step now db = .ok (outcome, db')) :
    ResumedApproval renv requestId now db outcome db' := by
  unfold resumeApproved at h
  split at h
  · cases h
  next hnone =>
  split at h
  · cases h
    exact .failed authorable hstatus hrequest hstep
  · cases h
    exact .claimed hstatus hrequest hstep htype hresumable hcleared hnone

private theorem assertThat_bind_ok {α : Type} {check : Bool} {message : String}
    {next : Except AppError α} {a : α}
    (h : (do assertThat check message; next) = .ok a) : check = true ∧ next = .ok a := by
  obtain ⟨u, hcheck, hnext⟩ := Except.bind_eq_ok_iff.mp h
  exact ⟨assertThat_eq_ok_iff.mp hcheck, hnext⟩

/-- Every resume message is one of `ResumedApproval`. -/
theorem resumedApproval_of_resumeClaim {renv : ApprovalResumeEnv} {requestId : UUID}
    {outcome : ApprovalResumeClaimOutcome}
    (h : resumeClaim renv requestId now db = .ok (outcome, db')) :
    ResumedApproval renv requestId now db outcome db' := by
  unfold resumeClaim at h
  split at h
  · next hstatus =>
    cases h
    exact .stale hstatus
  next hstatus =>
  have hstatus : db.execution.status = .waitingApproval := not_not.mp hstatus
  split at h
  · cases h
  next request hrequest =>
  split at h
  · cases h
  next step hstep =>
  unfold resumeRequest at h
  split at h
  · split at h
    · cases h
      exact .failed true hstatus hrequest hstep
    next hassert =>
    unfold assertAuthorableStructuralPreconditions at hassert
    obtain ⟨-, hassert⟩ := assertThat_bind_ok hassert
    obtain ⟨u, hresumable, hassert⟩ := Except.bind_eq_ok_iff.mp hassert
    obtain ⟨htype, hassert⟩ := assertThat_bind_ok hassert
    obtain ⟨-, hassert⟩ := assertThat_bind_ok hassert
    obtain ⟨hcleared, -⟩ := assertThat_bind_ok hassert
    exact resumedApproval_of_resumeApproved hstatus hrequest hstep (.inl (by simpa using htype))
      hresumable hcleared h
  · split at h
    · cases h
    next hassert =>
    unfold assertStructuralResumePreconditions at hassert
    obtain ⟨-, hassert⟩ := assertThat_bind_ok hassert
    obtain ⟨u, hresumable, hassert⟩ := Except.bind_eq_ok_iff.mp hassert
    obtain ⟨hcleared, hassert⟩ := assertThat_bind_ok hassert
    obtain ⟨htype, -⟩ := assertThat_bind_ok hassert
    exact resumedApproval_of_resumeApproved hstatus hrequest hstep (.inr (by simpa using htype))
      hresumable hcleared h

/-- A request that may be resumed is approved, and its Step waits. -/
theorem assertResumable_ok {step : ExecutionStep} {request : ApprovalRequest}
    (h : assertResumable db step request = .ok ()) :
    request.executionId = db.execution.id ∧ request.stepExecutionId = step.id ∧
      request.status = .approved ∧ step.status = .waitingApproval := by
  unfold assertResumable at h
  obtain ⟨hrow, h⟩ := assertThat_bind_ok h
  obtain ⟨happroved, h⟩ := assertThat_bind_ok h
  have hwaiting := assertThat_eq_ok_iff.mp h
  simp only [Bool.and_eq_true, beq_iff_eq] at hrow happroved hwaiting
  exact ⟨hrow.1, hrow.2, happroved.1, hwaiting⟩

end Approval

end McpFlow
