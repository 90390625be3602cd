import McpFlow.Execution.Ended

/-!
# Lease fencing

A worker writes for its lease. Every transaction that it makes looks at the stored lease before it
writes, but two do not: the preparation of a wave finishes a requested cancellation for any worker,
and the settlement of a wave writes its stop before it looks. In a run without these two every write
of a worker is made under its lease, and a result `LEASE_MISMATCH` stops no wave.
-/

namespace McpFlow

open Mrtr (RunnerStage)

variable {env : RuntimeEnv} {worker : String} {token : UUID} {now : Time} {db db' : Db}

/-- The transaction changes no row unless the stored lease is the one of the worker. -/
def Db.Fenced (worker : String) (token : UUID) (now : Time) (db db' : Db) : Prop :=
  db' ≠ db → db.execution.holdsLease worker token now = true

namespace Db.Fenced

theorem of_eq (h : db' = db) : db.Fenced worker token now db' := fun hne => absurd h hne

theorem of_lease (h : db.execution.hasRunningLease worker token now = true) :
    db.Fenced worker token now db' := by
  simp only [Execution.hasRunningLease, Bool.and_eq_true] at h
  exact fun _ => h.2

theorem of_owned (h : db.execution.ownedInFlight worker token now = true) :
    db.Fenced worker token now db' :=
  fun _ => (Execution.ownedInFlight_iff.mp h).2

/-! ### The transactions of a worker -/

/-- The preparation of a wave is fenced unless it finishes a cancellation without the lease. -/
theorem preparedWave (hcancel : db.execution.status = .cancelRequested →
      db.listStartedToolCalls = [] → db.execution.holdsLease worker token now = true)
    {outcome : ProgressOutcome} (h : prepareWave env worker token now db = .ok (outcome, db')) :
    db.Fenced worker token now db' := by
  by_cases hstatus : db.execution.status = .cancelRequested
  · by_cases hcalls : db.listStartedToolCalls = []
    · exact fun _ => hcancel hstatus hcalls
    · have hsame : db' = db := by
        simp only [prepareWave, hstatus, ExecutionStatus.isTerminal, hcalls, ne_eq,
          not_false_eq_true, if_true, Bool.false_eq_true, if_false, Except.ok.injEq,
          Prod.mk.injEq] at h
        exact h.2.symm
      exact of_eq hsame
  · cases preparedWave_of_prepareWave h with
    | same => exact of_eq rfl
    | reconciled hrequested => exact absurd hrequested hstatus
    | running hlease => exact of_lease hlease
    | corrupt _ hlease => exact of_lease hlease
    | stopped hlease => exact of_lease hlease
    | corruptAfter _ hlease => exact of_lease hlease
    | reserved _ hlease => exact of_lease hlease

theorem prepare {penv : PrepareEnv} {stepId : UUID} {defer forbidWait forbidNewApprovalWait : Bool}
    {result : PrepareResult}
    (h : McpFlow.prepare penv stepId worker token now defer forbidWait forbidNewApprovalWait db =
      .ok (result, db')) : db.Fenced worker token now db' := by
  rcases prepare_ok h with ⟨hsame, -⟩ | ⟨-, hlease, -⟩ | ⟨step, -, -, -, -, howned⟩
  · exact of_eq hsame
  · exact fun _ => hlease
  · rcases prepareOwned_ok howned with ⟨hsame, -⟩ | ⟨howned, -⟩
    · exact of_eq hsame
    · exact of_owned howned

theorem finalPreSendGate {verdict : Option String} {p : PreparedCall} {result : GateResult}
    (h : McpFlow.finalPreSendGate verdict p now db = .ok (result, db')) :
    db.Fenced p.workerId p.leaseToken now db' := by
  rcases finalPreSendGate_ok h with ⟨-, hsame, -⟩ | ⟨howned, -⟩
  · exact of_eq hsame
  · exact of_owned howned

theorem finalizeLocked {pinned : Except AppError PinnedToolPolicy} {p : PreparedCall}
    {callEnd : CallEnd} {outcome : ToolRunOutcome}
    (h : McpFlow.finalizeLocked pinned p callEnd now db = .ok (outcome, db')) :
    db.Fenced p.workerId p.leaseToken now db' := by
  obtain ⟨step, attempt, toolCall, -, hfence, -⟩ := finalizeLocked_ok h
  exact of_owned (finalizeFence_some hfence).1

theorem finalizeInputRequired {p : PreparedCall} {mrtr : InputRequired} {requestId : UUID}
    {outcome : ToolRunOutcome}
    (h : McpFlow.finalizeInputRequired p mrtr requestId now db = .ok (outcome, db')) :
    db.Fenced p.workerId p.leaseToken now db' := by
  obtain ⟨step, attempt, toolCall, hfence, -⟩ := finalizeInputRequired_ok h
  exact of_owned (finalizeFence_some hfence).1

/-- The settlement is fenced unless it takes a stop, or finishes a cancellation under an expired
lease. -/
theorem settledWave {outcomes : List (UUID × ToolRunOutcome)} {planOrder : List String}
    (hstops : db.execution.ownedInFlight worker token now = true ∨
      (∃ dag, validateLineage env db = .ok dag) ∧
        pickStopCause (stopCauses planOrder db outcomes) = none ∧
        (db.execution.status = .cancelRequested → db.execution.workerId = some worker →
          db.execution.leaseToken = some token → db.execution.holdsLease worker token now = true))
    (h : SettledWave env worker token outcomes planOrder now db db') :
    db.Fenced worker token now db' := by
  rcases hstops with howned | ⟨⟨dag, hdag⟩, hnone, hcancel⟩
  · exact of_owned howned
  · cases h with
    | same => exact of_eq rfl
    | corrupt hlineage => cases hlineage.symm.trans hdag
    | stopCause hstop => cases hstop.symm.trans hnone
    | reconciled hstatus hworker htoken => exact fun _ => hcancel hstatus hworker htoken
    | stopped hlease => exact of_lease hlease
    | ended hlease => exact of_lease hlease
    | settled hlease => exact of_lease hlease

theorem finished (h : Finished env worker token now db db') : db.Fenced worker token now db' := by
  cases h with
  | same => exact of_eq rfl
  | corrupt _ hlease => exact of_lease hlease
  | stopped hlease => exact of_lease hlease
  | ended hlease => exact of_lease hlease
  | unfinished hlease => exact of_lease hlease

theorem renewLease {leaseSeconds : ℕ}
    (h : McpFlow.renewLease leaseSeconds worker token now db = .ok ((), db')) :
    db.Fenced worker token now db' := by
  unfold McpFlow.renewLease at h
  split at h
  · next hlease => exact fun _ => hlease.2
  · cases h

end Db.Fenced

/-! ### The end of an Execution stays an end -/

theorem StopCause.executionStatus_terminal (c : StopCause) : c.executionStatus.isTerminal = true := by
  unfold executionStatus
  split <;> rfl

/-- An Execution that has ended stays so, even where its verdict is written again. -/
def Db.StaysEnded (db db' : Db) : Prop :=
  db.execution.status.isTerminal = true → db'.execution.status.isTerminal = true

namespace Db.StaysEnded

theorem of_keepsVerdict (h : db.KeepsVerdict db') : db.StaysEnded db' := by
  intro hended
  have hstatus : db'.execution.status = db.execution.status := congrArg Prod.fst (h hended)
  rw [hstatus]
  exact hended

theorem settledWave {outcomes : List (UUID × ToolRunOutcome)} {planOrder : List String}
    (h : SettledWave env worker token outcomes planOrder now db db') : db.StaysEnded db' := by
  cases h with
  | same => exact fun hended => hended
  | corrupt => exact fun _ => rfl
  | @stopCause stop => exact fun _ => stop.executionStatus_terminal
  | reconciled hstatus => exact of_keepsVerdict (.of_status hstatus rfl)
  | stopped hlease => exact of_keepsVerdict (.of_lease hlease)
  | ended hlease => exact of_keepsVerdict (.of_lease hlease)
  | settled hlease => exact of_keepsVerdict (.of_lease hlease)

theorem decided {requestId : UUID} (h : Approval.Decided requestId now db db') :
    db.StaysEnded db' := by
  cases h with
  | same => exact fun hended => hended
  | approved => exact fun hended => hended
  | rejected => exact fun _ => rfl
  | expired => exact fun _ => rfl

end Db.StaysEnded

namespace World

variable {digest : TemplateDigest} {w w' : World}

theorem staysEnded_of_step {a : Action} (hstep : w.step digest a = some w') :
    w.db.StaysEnded w'.db := by
  by_cases hok : w.LeavesVerdict digest a
  · exact .of_keepsVerdict (keepsVerdict_of_step hok hstep)
  -- only a settlement and a decision write over a verdict
  have hdb := dbStep_of_step hstep
  generalize w'.db = db' at hdb ⊢
  cases hdb with
  | same => exact fun hended => hended
  | settle _ _ h => exact .settledWave (settledWave_of_settleWave h)
  | decide h => exact .decided (Approval.decided_of_decideApproval h)
  | _ => exact absurd trivial hok

end World

/-! ### The results of a lost lease -/

namespace ToolRunOutcome

/-- The no-op of a Tool Runner that found its lease gone. -/
def isLeaseMismatch (o : ToolRunOutcome) : Bool :=
  o.disposition == .noop && o.reason == "LEASE_MISMATCH"

/-- A no-op of a lost lease reports the status of the Execution, or none. -/
def Reports (o : ToolRunOutcome) (status : ExecutionStatus) : Prop :=
  o.isLeaseMismatch = true → o.terminalStatus = none ∨ o.terminalStatus = some status.value

variable {o : ToolRunOutcome} {status : ExecutionStatus}

theorem Reports.of_disposition (h : o.disposition ≠ .noop) : o.Reports status := by
  intro hmismatch
  simp only [isLeaseMismatch, Bool.and_eq_true, beq_iff_eq] at hmismatch
  exact absurd hmismatch.1 h

theorem Reports.of_reason (h : o.reason ≠ "LEASE_MISMATCH") : o.Reports status := by
  intro hmismatch
  simp only [isLeaseMismatch, Bool.and_eq_true, beq_iff_eq] at hmismatch
  exact absurd hmismatch.2 h

theorem Reports.of_none (h : o.terminalStatus = none) : o.Reports status := fun _ => .inl h

theorem Reports.of_status (h : o.terminalStatus = some status.value) : o.Reports status :=
  fun _ => .inr h

end ToolRunOutcome

section Reports

variable {o : ToolRunOutcome}

private theorem reports_of_prepareFatal {step : ExecutionStep} {errorCode : String}
    {defer : Bool} {db₁ : Db} {status : ExecutionStatus}
    (h : (PrepareResult.outcome o, db') = prepareFatal step errorCode now defer db₁) :
    o.Reports status := by
  have ho : o = .fatal errorCode := PrepareResult.outcome.inj (congrArg Prod.fst h)
  exact .of_disposition (by simp [ho, ToolRunOutcome.fatal])

private theorem reports_of_prepareStartFailed {step : ExecutionStep} {e : AppError}
    {defer : Bool} {db₁ : Db} {status : ExecutionStatus}
    (h : (PrepareResult.outcome o, db') = prepareStartFailed step e now defer db₁) :
    o.Reports status := by
  unfold prepareStartFailed at h
  split at h
  · cases h
    exact .of_reason (by simp [ToolRunOutcome.noop])
  split at h
  · cases h
    exact .of_none rfl
  split at h
  · cases h
    exact .of_none rfl
  · exact reports_of_prepareFatal h

private theorem reports_of_prepareStarted {penv : PrepareEnv} {step : ExecutionStep}
    {attempt : StepAttempt} {replayed defer forbidWait : Bool} {db₁ : Db}
    {status : ExecutionStatus}
    (h : prepareStarted penv step attempt replayed worker token now defer forbidWait db₁ =
      .ok (.outcome o, db')) : o.Reports status := by
  rcases prepareStarted_ok h with ⟨-, ho, -⟩ | ⟨-, ⟨errorCode, hfatal⟩ | ⟨catalog, resume, -, hcall⟩⟩
  · cases ho
    exact .of_none rfl
  · exact reports_of_prepareFatal hfatal
  · obtain ⟨c, toolCalls, -, -, -, -, ⟨p, hp, -⟩ | ⟨errorCode, ho, -⟩⟩ := prepareCall_ok hcall
    · cases hp
    · cases ho
      exact .of_disposition (CallEnd.disposition_ne _ _).1

private theorem reports_of_prepareAttempt {penv : PrepareEnv} {step : ExecutionStep}
    {defer forbidWait forbidNewApprovalWait : Bool} {status : ExecutionStatus}
    (h : prepareAttempt penv step worker token now defer forbidWait forbidNewApprovalWait db =
      .ok (.outcome o, db')) : o.Reports status := by
  obtain ⟨started, db₁, -, hrest⟩ := prepareAttempt_ok h
  dsimp only at hrest
  split at hrest
  · exact reports_of_prepareStartFailed hrest
  · rcases hrest with ⟨-, hfatal⟩ | ⟨-, -, ho⟩
    · exact reports_of_prepareFatal hfatal
    · cases ho
      exact .of_reason (by simp)
  · exact reports_of_prepareStarted hrest

private theorem reports_of_prepareOwned {penv : PrepareEnv} {step : ExecutionStep}
    {defer forbidWait forbidNewApprovalWait : Bool}
    (h : prepareOwned penv step worker token now defer forbidWait forbidNewApprovalWait db =
      .ok (.outcome o, db')) : o.Reports db.execution.status := by
  unfold prepareOwned at h
  split at h
  · cases h
    exact .of_status rfl
  split at h
  · cases h
    exact .of_status rfl
  split at h
  · cases h
    exact .of_reason (by simp [ToolRunOutcome.noop])
  split at h
  · cases h
  split at h
  · cases h
    exact .of_reason (by simp)
  · exact reports_of_prepareAttempt h

/-- What Phase A reports of a lost lease. -/
theorem reports_of_prepare {penv : PrepareEnv} {stepId : UUID}
    {defer forbidWait forbidNewApprovalWait : Bool}
    (h : prepare penv stepId worker token now defer forbidWait forbidNewApprovalWait db =
      .ok (.outcome o, db')) : o.Reports db.execution.status := by
  unfold prepare at h
  split at h
  · cases h
  split at h
  · cases h
  split at h
  · cases h
    exact .of_none rfl
  split at h
  · split at h
    · cases h
      exact .of_none rfl
    · cases h
    · cases h
      exact .of_reason (by simp [ToolRunOutcome.noop])
  split at h
  · cases h
    exact .of_none rfl
  split at h
  · split at h
    · split at h
      · cases h
        exact .of_none rfl
      · cases h
    · cases h
      exact .of_reason (by simp [ToolRunOutcome.noop])
  split at h
  · split at h
    · next r hr =>
      unfold prepareCancelRequested at hr
      split at hr
      · cases hr
        cases h
        exact .of_reason (by simp [ToolRunOutcome.noop])
      split at hr
      · cases hr
        cases h
        exact .of_status rfl
      split at hr
      · injection hr with hr
        subst hr
        split at h
        · cases h
        · cases h
          exact .of_reason (by simp [ToolRunOutcome.noop])
      · cases hr
    · exact reports_of_prepareOwned h
  · exact reports_of_prepareOwned h

/-- What the final gate reports of a lost lease. -/
theorem reports_of_finalPreSendGate {verdict : Option String} {p : PreparedCall}
    (h : finalPreSendGate verdict p now db = .ok (.outcome o, db')) :
    o.Reports db.execution.status := by
  rcases finalPreSendGate_ok h with ⟨-, -, ho⟩ |
    ⟨-, hcorrupt | ⟨_, _, _, -, -, -, -, ⟨-, outcome, -, ho⟩ | ⟨-, -, ho | ⟨_, ho⟩⟩⟩⟩
  · cases ho
    exact .of_status rfl
  · have ho : o = .fatal "RESOURCE_CONFLICT" :=
      GateResult.outcome.inj (congrArg Prod.fst hcorrupt)
    exact .of_disposition (by simp [ho, ToolRunOutcome.fatal])
  · cases ho
    exact .of_reason (by simp)
  · cases ho
  · cases ho

/-- A finalization never reports a lost lease. -/
theorem reports_of_finalizeLocked {pinned : Except AppError PinnedToolPolicy} {p : PreparedCall}
    {callEnd : CallEnd} {status : ExecutionStatus}
    (h : finalizeLocked pinned p callEnd now db = .ok (o, db')) : o.Reports status := by
  obtain ⟨step, attempt, toolCall, risk, -, ⟨e, -, -, hretry, -⟩ | hterminal⟩ := finalizeLocked_ok h
  · exact .of_disposition (by simp [hretry])
  · obtain ⟨-, hdisposition, -⟩ := finalizeTerminal_ok hterminal
    exact .of_disposition (hdisposition ▸ (CallEnd.disposition_ne _ _).1)

theorem reports_of_finalizeInputRequired {p : PreparedCall} {mrtr : InputRequired}
    {requestId : UUID} {status : ExecutionStatus}
    (h : finalizeInputRequired p mrtr requestId now db = .ok (o, db')) : o.Reports status := by
  unfold finalizeInputRequired at h
  split at h
  · cases h
  dsimp only [mrtrFatal] at h
  split at h
  · cases h
    exact .of_disposition (by simp)
  split at h
  · split at h
    · cases h
    · cases h
      exact .of_reason (by simp)
  split at h
  · split at h
    · cases h
    · cases h
      exact .of_reason (by simp)
  split at h
  · cases h
  split at h
  · cases h
    exact .of_disposition (by simp)
  split at h
  · cases h
    exact .of_disposition (by simp)
  · unfold openInputWait at h
    split at h
    · cases h
    dsimp only at h
    split at h
    · cases h
    · cases h
      exact .of_reason (by simp)

end Reports

/-! ### What the workers carry to a settlement -/

/-- A Tool Runner of the worker has returned the outcome. -/
def WorkerStage.HasResult (o : ToolRunOutcome) : WorkerStage → Prop
  | .running v => ∃ stepId, (stepId, .returned o) ∈ v.members
  | .settling outcomes _ => ∃ stepId, (stepId, o) ∈ outcomes
  | _ => False

section Results

variable {o : ToolRunOutcome}

private theorem not_hasResult_start (handoff singleTool allowApprovalWait : Bool)
    (planOrder : List String) (stepIds : List UUID) :
    ¬(WorkerStage.running (.start handoff singleTool allowApprovalWait planOrder
      stepIds)).HasResult o := by
  rintro ⟨stepId, hmem⟩
  obtain ⟨_, -, hmember⟩ := List.mem_map.mp hmem
  cases hmember

private theorem not_hasResult_afterPrepare (p : ProgressOutcome) :
    ¬(afterPrepare p).HasResult o := by
  unfold afterPrepare
  repeat' split
  all_goals first | exact not_hasResult_start _ _ _ _ _ | exact fun h => h

private theorem not_hasResult_afterSelect (stepIds : List UUID) (planOrder : List String)
    (selected : Except AppError (Option UUID)) :
    ¬(afterSelect stepIds planOrder selected).HasResult o := by
  unfold afterSelect
  split
  · exact fun h => h
  · exact not_hasResult_start _ _ _ _ _
  · exact not_hasResult_start _ _ _ _ _

private theorem not_hasResult_afterSettle (last : Option ToolRunOutcome) (p : ProgressOutcome) :
    ¬(afterSettle last p).HasResult o := by
  unfold afterSettle
  split <;> exact fun h => h

private theorem not_hasResult_afterFinish (last : Option ToolRunOutcome)
    (p : Option ProgressOutcome) : ¬(afterFinish last p).HasResult o := by
  cases p <;> exact fun h => h

private theorem not_hasResult_afterFailPolicy (p : ProgressOutcome) :
    ¬(afterFailPolicy p).HasResult o := fun h => h

private theorem hasResult_afterWave {v : Wave} {outcomes : List (UUID × ToolRunOutcome)}
    (h : (afterWave v outcomes).HasResult o) : ∃ stepId, (stepId, o) ∈ outcomes := by
  unfold afterWave at h
  repeat' split at h
  all_goals first | exact h | exact h.elim

/-- The outcomes of a wave are those that its Tool Runners returned. -/
private theorem returned_of_outcomes {v : Wave} {outcomes : List (UUID × ToolRunOutcome)}
    (houtcomes : v.outcomes? = some outcomes) {stepId : UUID} (ho : (stepId, o) ∈ outcomes) :
    (stepId, .returned o) ∈ v.members := by
  obtain ⟨⟨id, m⟩, hm, hread⟩ := List.mem_of_mapM_eq_some houtcomes ho
  cases m with
  | active stage => cases hread
  | returned outcome =>
    cases hread
    exact hm
  | raised => cases hread

end Results

namespace World

variable {digest : TemplateDigest} {w w' : World} {o : ToolRunOutcome}

/-- Some worker carries the outcome. -/
def HasResult (w : World) (o : ToolRunOutcome) : Prop := ∃ r ∈ w.workers, r.stage.HasResult o

private theorem hasResult_setStage {r : Worker} {stage : WorkerStage} (db : Db)
    (h : ((w.withDb db).setStage r stage).HasResult o) :
    w.HasResult o ∨ stage.HasResult o := by
  obtain ⟨q, hq, hresult⟩ := h
  obtain ⟨q₀, hq₀, rfl⟩ := List.mem_map.mp hq
  split at hresult
  · exact .inr hresult
  · exact .inl ⟨q₀, hq₀, hresult⟩

private theorem hasResult_progress {α : Type} {r : Worker} {next : α → WorkerStage} {tx : Tx α}
    (hnext : ∀ p, ¬(next p).HasResult o) (h : (w.progress r next tx).HasResult o) :
    w.HasResult o := by
  cases tx with
  | ok result => exact (hasResult_setStage _ h).resolve_right (hnext result.1)
  | error e => exact (hasResult_setStage w.db h).resolve_right fun hraised => hraised

/-- A Tool Runner that moves adds at most its own result. -/
private theorem hasResult_setMember {r : Worker} {v : Wave} {stepId : UUID} {m : Member} (db : Db)
    (hr : r ∈ w.workers) (hstage : r.stage = .running v)
    (h : ((w.withDb db).setMember r v stepId m).HasResult o) :
    w.HasResult o ∨ m = .returned o := by
  rcases hasResult_setStage _ h with hold | ⟨id, hmem⟩
  · exact .inl hold
  obtain ⟨⟨id', m'⟩, hm', heq⟩ := List.mem_map.mp hmem
  split at heq
  · exact .inr (congrArg Prod.snd heq)
  · cases heq
    exact .inl ⟨r, hr, by rw [hstage]; exact ⟨id, hm'⟩⟩

private theorem hasResult_runnerTx {α : Type} {r : Worker} {v : Wave} {stepId : UUID}
    {next : α → Member} {tx : Tx α} {status : ExecutionStatus} (hr : r ∈ w.workers)
    (hstage : r.stage = .running v)
    (hnext : ∀ result db', tx = .ok (result, db') → next result = .returned o → o.Reports status)
    (h : (w.runnerTx r v stepId next tx).HasResult o) : w.HasResult o ∨ o.Reports status := by
  cases tx with
  | ok result => exact (hasResult_setMember _ hr hstage h).imp_right (hnext result.1 result.2 rfl)
  | error e =>
    refine (hasResult_setMember w.db hr hstage h).imp_right fun hraised => ?_
    cases hraised

private theorem hasResult_runnerStep {r : Worker} {v : Wave} {stepId : UUID}
    {stage : RunnerStage} {action : RunnerAction} (hr : r ∈ w.workers)
    (hstage : r.stage = .running v) (hstep : w.runnerStep r v stepId stage action = some w')
    (h : w'.HasResult o) : w.HasResult o ∨ o.Reports w.db.execution.status := by
  have hphaseC {outcome : ToolRunOutcome} (hnext : afterPhaseC outcome = .returned o) :
      outcome = o := by
    unfold afterPhaseC at hnext
    split at hnext
    · cases hnext
    · exact Member.returned.inj hnext
  unfold runnerStep at hstep
  split at hstep
  · cases hstep
    refine hasResult_runnerTx hr hstage (fun result db' htx hnext => ?_) h
    cases result with
    | prepared p => cases hnext
    | outcome outcome =>
      cases hnext
      exact reports_of_prepare htx
  · cases hstep
    refine (hasResult_setMember w.db hr hstage h).imp_right fun hactive => ?_
    cases hactive
  · cases hstep
    refine hasResult_runnerTx hr hstage (fun result db' htx hnext => ?_) h
    cases result with
    | pass => cases hnext
    | failClosed errorCode => cases hnext
    | outcome outcome =>
      cases hnext
      exact reports_of_finalPreSendGate htx
  · cases hstep
    refine hasResult_runnerTx hr hstage (fun result db' htx hnext => ?_) h
    exact hphaseC hnext ▸ reports_of_finalizeLocked htx
  · split at hstep
    · cases hstep
      refine hasResult_runnerTx hr hstage (fun result db' htx hnext => ?_) h
      exact hphaseC hnext ▸ reports_of_finalizeLocked htx
    · cases hstep
  · cases hstep
    refine hasResult_runnerTx hr hstage (fun result db' htx hnext => ?_) h
    cases hnext
    exact reports_of_finalizeInputRequired htx
  · cases hstep

private theorem hasResult_workerStep {r : Worker} {action : WorkerAction} (hr : r ∈ w.workers)
    (hstep : w.workerStep digest r r.stage action = some w') (h : w'.HasResult o) :
    w.HasResult o ∨ o.Reports w.db.execution.status := by
  unfold workerStep at hstep
  split at hstep
  · cases hstep
    exact .inl h
  · cases hstep
    exact .inl (hasResult_progress not_hasResult_afterPrepare h)
  · cases hstep
    exact .inl ((hasResult_setStage w.db h).resolve_right (not_hasResult_afterSelect _ _ _))
  · cases hstep
    exact .inl (hasResult_progress not_hasResult_afterFailPolicy h)
  · next v stepId action hstage =>
    split at hstep
    · exact hasResult_runnerStep hr hstage hstep h
    · cases hstep
  · next v hstage =>
    obtain ⟨outcomes, houtcomes, rfl⟩ := Option.map_eq_some_iff.mp hstep
    obtain ⟨q, hq, hresult⟩ := h
    obtain ⟨q₀, hq₀, rfl⟩ := List.mem_map.mp hq
    split at hresult
    · obtain ⟨stepId, ho⟩ := hasResult_afterWave hresult
      exact .inl ⟨r, hr, by rw [hstage]; exact ⟨stepId, returned_of_outcomes houtcomes ho⟩⟩
    · exact .inl ⟨q₀, hq₀, hresult⟩
  · cases hstep
    exact .inl (hasResult_progress (not_hasResult_afterSettle _) h)
  · cases hstep
    exact .inl (hasResult_progress (not_hasResult_afterFinish _) h)
  · cases hstep

private theorem hasResult_startWorker {db : Db} {worker : String} {token : UUID}
    (h : ((w.withDb db).startWorker worker token).HasResult o) : w.HasResult o := by
  obtain ⟨q, hq, hresult⟩ := h
  rcases List.mem_append.mp hq with hq | hq
  · exact ⟨q, hq, hresult⟩
  · obtain rfl := List.mem_singleton.mp hq
    exact hresult.elim

/-- A result that a worker carries was there before, or reports the status that its Tool Runner
read. -/
theorem hasResult_of_step {a : Action} (hstep : w.step digest a = some w') (h : w'.HasResult o) :
    w.HasResult o ∨ o.Reports w.db.execution.status := by
  cases a with
  | worker token action =>
    obtain ⟨r, hr, hstep⟩ := Option.bind_eq_some_iff.mp hstep
    exact hasResult_workerStep (List.mem_of_find?_eq_some hr) hstep h
  | claim env claim now =>
    simp only [step, Option.ite_none_left_eq_some, Option.some.injEq] at hstep
    obtain ⟨-, rfl⟩ := hstep
    unfold World.claim at h
    split at h
    · split at h
      · exact .inl (hasResult_startWorker h)
      · exact .inl h
    · exact .inl h
  | cancel requestedBy now =>
    cases hstep
    exact .inl h
  | decide requestId env now =>
    cases hstep
    unfold World.decide at h
    split at h
    · split at h <;> exact .inl h
    · exact .inl h
    · exact .inl h
  | expire requestId now =>
    cases hstep
    exact .inl h
  | resumeApproval requestId env now =>
    simp only [step, Option.ite_none_right_eq_some, Option.some.injEq] at hstep
    obtain ⟨-, rfl⟩ := hstep
    unfold World.resumeApproval at h
    split at h
    · split at h
      · exact .inl (hasResult_startWorker h)
      · exact .inl h
    · exact .inl h
  | submit requestId actor responses resumeLineage now =>
    cases hstep
    unfold World.submit at h
    split at h
    · split at h <;> exact .inl h
    · exact .inl h
  | reject requestId actor resumeLineage now =>
    cases hstep
    exact .inl h
  | resumeInput requestId env now =>
    simp only [step, Option.ite_none_right_eq_some, Option.some.injEq] at hstep
    obtain ⟨-, rfl⟩ := hstep
    unfold World.resumeInput at h
    split at h
    · split at h
      · exact .inl (hasResult_startWorker h)
      · exact .inl h
    · exact .inl h
  | recover env now =>
    simp only [step, Option.ite_none_left_eq_some, Option.some.injEq] at hstep
    obtain ⟨-, rfl⟩ := hstep
    unfold World.recover at h
    split at h
    · split at h
      · exact .inl (hasResult_startWorker h)
      · exact .inl h
    · exact .inl h

/-! ### Runs -/

/-- A no-op of a lost lease that reports the end of the Execution was met after that end. -/
def MismatchesSeen (w : World) : Prop :=
  ∀ o, w.HasResult o → o.isLeaseMismatch = true →
    o.terminalStatus = none ∨ ∃ status : ExecutionStatus, o.terminalStatus = some status.value ∧
      (status.isTerminal = true → w.db.execution.status.isTerminal = true)

theorem MismatchesSeen.of_initial (h : w.Initial) : w.MismatchesSeen := by
  rintro o ⟨r, hr, -⟩ -
  rw [h.workers] at hr
  cases hr

theorem MismatchesSeen.step {a : Action} (h : w.MismatchesSeen)
    (hstep : w.step digest a = some w') : w'.MismatchesSeen := by
  intro o ho hmismatch
  have hstays := staysEnded_of_step hstep
  rcases hasResult_of_step hstep ho with hold | hreports
  · exact (h o hold hmismatch).imp_right fun ⟨status, hstatus, hended⟩ =>
      ⟨status, hstatus, fun hterminal => hstays (hended hterminal)⟩
  · exact (hreports hmismatch).imp_right fun hstatus => ⟨_, hstatus, hstays⟩

end World

/-- The moment at which a Tool Runner reads the lease. -/
def RunnerAction.now? : RunnerAction → Option Time
  | .prepare _ now => some now
  | .secretsUnavailable _ => none
  | .gate _ now => some now
  | .finalizeRefused _ now => some now
  | .finalize _ _ now => some now
  | .inputRequired _ _ now => some now

/-- The moment at which a worker reads the lease. -/
def WorkerAction.now? : WorkerAction → Option Time
  | .prepareWave _ now => some now
  | .select _ => none
  | .failPolicy now => some now
  | .runner _ action => action.now?
  | .join => none
  | .settle _ now => some now
  | .finish _ now => some now
  | .renew _ now => some now

/-- The worker finds no cancellation to finish, or holds the lease. -/
def Worker.preparesFenced (now : Time) (db : Db) (r : Worker) : Bool :=
  r.stage != .preparing || db.execution.status != .cancelRequested ||
    db.listStartedToolCalls != [] || db.execution.holdsLease r.worker r.token now

/-- The settlement is made under the lease, or takes no stop and finds no cancellation of its own
to finish. -/
def Worker.settlesFenced (env : RuntimeEnv) (now : Time) (db : Db) (r : Worker) : Bool :=
  match r.stage with
  | .settling outcomes planOrder =>
    db.execution.ownedInFlight r.worker r.token now ||
      ((validateLineage env db).isOk && (pickStopCause (stopCauses planOrder db outcomes)).isNone &&
        !(db.execution.status == .cancelRequested && db.execution.workerId == some r.worker &&
          db.execution.leaseToken == some r.token))
  | _ => true

/-- What `settlesFenced` decides. -/
theorem Worker.settlesFenced_iff {r : Worker} {outcomes : List (UUID × ToolRunOutcome)}
    {planOrder : List String} (hstage : r.stage = .settling outcomes planOrder) :
    r.settlesFenced env now db = true ↔
      db.execution.ownedInFlight r.worker r.token now = true ∨
        (∃ dag, validateLineage env db = .ok dag) ∧
          pickStopCause (stopCauses planOrder db outcomes) = none ∧
          ¬(db.execution.status = .cancelRequested ∧ db.execution.workerId = some r.worker ∧
            db.execution.leaseToken = some r.token) := by
  have hok : (validateLineage env db).isOk = true ↔ ∃ dag, validateLineage env db = .ok dag := by
    cases validateLineage env db <;> simp [Except.isOk, Except.toBool]
  simp only [settlesFenced, hstage, Bool.or_eq_true, Bool.and_eq_true, Bool.not_eq_true',
    Bool.and_eq_false_iff, beq_eq_false_iff_ne, Option.isNone_iff_eq_none, hok]
  tauto

namespace World

variable {digest : TemplateDigest} {w w' v v' : World}

/-- The step takes none of the branches that write without the lease. -/
def leaseChecked (digest : TemplateDigest) (w : World) : Action → Bool
  | .worker token (.prepareWave _ now) => (w.worker? token).all (·.preparesFenced now w.db)
  | .worker token (.settle env now) =>
    (w.worker? token).all (·.settlesFenced { env with digest := digest } now w.db)
  | _ => true

/-- A step of a worker changes rows under its lease only, and a Tool Runner that lost its lease does
not stop the wave that it ran in. -/
structure FencedStep (w : World) (a : Action) (w' : World) : Prop where
  rows : ∀ token action r now, a = .worker token action → w.worker? token = some r →
    action.now? = some now → w.db.Fenced r.worker r.token now w'.db
  silent : ∀ token action, a = .worker token action → action.now? = none → w'.db = w.db
  mismatch : ∀ token env now r outcomes planOrder stepId o,
    a = .worker token (.settle env now) → w.worker? token = some r →
    r.stage = .settling outcomes planOrder → (stepId, o) ∈ outcomes →
    o.isLeaseMismatch = true → stopCauseOf planOrder w.db stepId o = none

/-- The call of a Tool Runner carries the lease of its worker. -/
private theorem fenced_call {r : Worker} {wave : Wave} {stepId : UUID} {stage : RunnerStage}
    {p : PreparedCall} (hlive : w.Live) (hr : w.worker? r.token = some r)
    (hstage : r.stage = .running wave) (hmember : (stepId, .active stage) ∈ wave.members)
    (hp : stage.call? = some p) (h : w.db.Fenced p.workerId p.leaseToken now db') :
    w.db.Fenced r.worker r.token now db' := by
  obtain ⟨hof, -⟩ := hlive.calls r (List.mem_of_find?_eq_some hr) wave hstage stepId stage p hmember hp
  rw [← hof.workerId, ← hof.leaseToken]
  exact h

private theorem settlesFenced_of_checked {token : UUID} {r : Worker} {now : Time}
    (hok : w.leaseChecked digest (.worker token (.settle env now)) = true)
    (hr : w.worker? token = some r) :
    r.settlesFenced { env with digest := digest } now w.db = true := by
  simpa [leaseChecked, hr] using hok

/-- Every transaction of a worker is fenced, when the step takes none of the unchecked branches. -/
theorem fenced_rows {token : UUID} {action : WorkerAction} {r : Worker} {now : Time}
    (hlive : w.Live) (hok : w.leaseChecked digest (.worker token action) = true)
    (hr : w.worker? token = some r) (hnow : action.now? = some now)
    (hstep : w.step digest (.worker token action) = some w') :
    w.db.Fenced r.worker r.token now w'.db := by
  have hsame {q : Worker} (hq : w.worker? q.token = some q) (ht : q.token = token) : q = r := by
    rw [ht, hr] at hq
    exact (Option.some.inj hq).symm
  have hdb := dbStep_of_step hstep
  generalize w'.db = db' at hdb ⊢
  generalize ha : Action.worker token action = a at hdb
  cases hdb with
  | same => exact .of_eq rfl
  | prepareWave hq hstage h =>
    cases ha
    cases hnow
    obtain rfl := hsame hq rfl
    refine .preparedWave (fun hstatus hcalls => ?_) h
    simpa [leaseChecked, Worker.preparesFenced, hq, hstage, hstatus, hcalls] using hok
  | failPolicy hq _ h =>
    cases ha
    cases hnow
    obtain rfl := hsame hq rfl
    rcases failClosedPreWavePolicy_ok h with hrows | ⟨hlease, -⟩
    · exact .of_eq hrows
    · exact .of_lease hlease
  | prepare hq _ _ h =>
    cases ha
    cases hnow
    obtain rfl := hsame hq rfl
    exact .prepare h
  | gate hq hstage hmember h =>
    cases ha
    cases hnow
    obtain rfl := hsame hq rfl
    exact fenced_call hlive hq hstage hmember rfl (.finalPreSendGate h)
  | finalizeRefused hq hstage hmember h =>
    cases ha
    cases hnow
    obtain rfl := hsame hq rfl
    exact fenced_call hlive hq hstage hmember rfl (.finalizeLocked h)
  | finalize hq hstage hmember h =>
    cases ha
    cases hnow
    obtain rfl := hsame hq rfl
    exact fenced_call hlive hq hstage hmember rfl (.finalizeLocked h)
  | inputRequired hq hstage hmember h =>
    cases ha
    cases hnow
    obtain rfl := hsame hq rfl
    exact fenced_call hlive hq hstage hmember rfl (.finalizeInputRequired h)
  | settle hq hstage h =>
    cases ha
    cases hnow
    obtain rfl := hsame hq rfl
    refine .settledWave (((Worker.settlesFenced_iff hstage).mp (settlesFenced_of_checked hok hq)).imp_right
      ?_) (settledWave_of_settleWave h)
    rintro ⟨hdag, hnone, hcancel⟩
    exact ⟨hdag, hnone, fun hstatus hworker htoken => absurd ⟨hstatus, hworker, htoken⟩ hcancel⟩
  | finish hq _ h =>
    cases ha
    cases hnow
    obtain rfl := hsame hq rfl
    exact .finished (finished_of_finalizeNaturalEnd h)
  | renew hq h =>
    cases ha
    cases hnow
    obtain rfl := hsame hq rfl
    exact .renewLease h
  | _ => cases ha

/-- A no-op of a lost lease that does not report an end is no stop cause. -/
theorem stopCauseOf_mismatch {planOrder : List String} {stepId : UUID} {o : ToolRunOutcome}
    (hmismatch : o.isLeaseMismatch = true)
    (hstatus : o.terminalStatus = none ∨ ∃ status : ExecutionStatus,
      o.terminalStatus = some status.value ∧ status.isTerminal = false) :
    stopCauseOf planOrder db stepId o = none := by
  simp only [ToolRunOutcome.isLeaseMismatch, Bool.and_eq_true, beq_iff_eq] at hmismatch
  obtain ⟨hnoop, hreason⟩ := hmismatch
  have hdisposition : effectiveDisposition o = .noop ∧
      o.terminalStatus ≠ some StepStatus.unknownOutcome.value := by
    simp only [effectiveDisposition, hnoop, hreason, ne_eq, not_true_eq_false, if_false]
    rcases hstatus with hnone | ⟨status, hstatus, hopen⟩
    · rw [hnone]
      decide
    · rw [hstatus]
      cases status <;> first | exact absurd hopen (by decide) | decide
  unfold stopCauseOf
  cases db.steps.find? stepId with
  | none => rfl
  | some step => simp [hdisposition.1, hdisposition.2]

/-- A settlement under the lease finds no result of a lost lease that reports an end. -/
private theorem stopCauseOf_owned {planOrder : List String} {stepId : UUID} {o : ToolRunOutcome}
    {r : Worker} {now : Time} (hseen : w.MismatchesSeen) (ho : w.HasResult o)
    (howned : w.db.execution.ownedInFlight r.worker r.token now = true)
    (hmismatch : o.isLeaseMismatch = true) : stopCauseOf planOrder w.db stepId o = none := by
  have hopen : w.db.execution.status.isTerminal = false := by
    rcases (Execution.ownedInFlight_iff.mp howned).1 with hstatus | hstatus <;> rw [hstatus] <;> rfl
  refine stopCauseOf_mismatch hmismatch ((hseen o ho hmismatch).imp_right ?_)
  rintro ⟨status, hstatus, hended⟩
  refine ⟨status, hstatus, ?_⟩
  rw [← Bool.not_eq_true]
  intro hterminal
  rw [hended hterminal] at hopen
  cases hopen

/-- No stop means no cause. -/
private theorem pickStopCause_none {causes : List StopCause} (h : pickStopCause causes = none) :
    causes = [] := by
  cases causes with
  | nil => rfl
  | cons c causes =>
    rw [pickStopCause] at h
    split at h
    · cases h
    · split at h <;> cases h

/-- A step that takes none of the unchecked branches is fenced. -/
theorem fencedStep_of_step {a : Action} (hlive : w.Live) (hseen : w.MismatchesSeen)
    (hok : w.leaseChecked digest a = true) (hstep : w.step digest a = some w') :
    w.FencedStep a w' where
  rows := by
    rintro token action r now rfl hr hnow
    exact fenced_rows hlive hok hr hnow hstep
  silent := by
    rintro token action rfl hnow
    have hdb := dbStep_of_step hstep
    generalize w'.db = db' at hdb ⊢
    generalize ha : Action.worker token action = a at hdb
    cases hdb with
    | same => rfl
    | _ => first | (cases ha; cases hnow) | cases ha
  mismatch := by
    rintro token env now r outcomes planOrder stepId o rfl hr hstage ho hmismatch
    have hchecked := (Worker.settlesFenced_iff hstage).mp (settlesFenced_of_checked hok hr)
    rcases hchecked with howned | ⟨-, hnone, -⟩
    · refine stopCauseOf_owned hseen ⟨r, List.mem_of_find?_eq_some hr, ?_⟩ howned hmismatch
      rw [hstage]
      exact ⟨stepId, ho⟩
    · have hcauses := pickStopCause_none hnone
      exact List.filterMap_eq_nil_iff.mp hcauses (stepId, o) ho

end World

/-! ### A settlement without the lease -/

/-- The wave of `cancelledWave` without the cancellation, settled by the owner of the lease. -/
def settledWave : List Action :=
  cancelledWave.eraseIdx 7 ++ [.worker (.ofNat 6) (.settle (loopEnv true) 10)]

end McpFlow
