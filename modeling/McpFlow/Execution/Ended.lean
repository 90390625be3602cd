import McpFlow.Execution.Parallelism
import McpFlow.Execution.StopOrder
import McpFlow.Execution.WaveSettlement

/-!
# Executions that have ended

The status and the error code of an Execution are its verdict. Every transaction but two looks at the
status, at the lease or at a wait before it writes a verdict, and so leaves a terminal Execution alone.
The settlement of a wave writes its stop before it looks at the lease, and a decision ends an expired
request whatever its Execution is: those two write a verdict over another one.
-/

namespace McpFlow

variable {env : RuntimeEnv} {worker : String} {token : UUID} {now : Time} {db db' : Db}

/-- What a user reads of an Execution that has ended. -/
def Db.verdict (db : Db) : ExecutionStatus × Option String :=
  (db.execution.status, db.execution.errorCode)

/-- The transaction leaves the verdict of a terminal Execution alone. -/
def Db.KeepsVerdict (db db' : Db) : Prop :=
  db.execution.status.isTerminal = true → db'.verdict = db.verdict

namespace Db.KeepsVerdict

theorem refl (db : Db) : db.KeepsVerdict db := fun _ => rfl

/-- The Execution has not ended. -/
theorem of_status {status : ExecutionStatus} (hstatus : db.execution.status = status)
    (hopen : status.isTerminal = false) : db.KeepsVerdict db' := by
  intro hterminal
  rw [hstatus, hopen] at hterminal
  cases hterminal

/-- A worker under its lease finds the Execution RUNNING. -/
theorem of_lease (hlease : db.execution.hasRunningLease worker token now = true) :
    db.KeepsVerdict db' := by
  simp only [Execution.hasRunningLease, Bool.and_eq_true, beq_iff_eq] at hlease
  exact of_status hlease.1 rfl

/-- A Tool Runner under its lease finds the Execution RUNNING or CANCEL_REQUESTED. -/
theorem of_owned (howned : db.execution.ownedInFlight worker token now = true) :
    db.KeepsVerdict db' := by
  obtain ⟨hstatus | hstatus, -⟩ := Execution.ownedInFlight_iff.mp howned
  · exact of_status hstatus rfl
  · exact of_status hstatus rfl

/-! ### The transactions of a worker -/

theorem preparedWave (h : PreparedWave env worker token now db db') : db.KeepsVerdict db' := by
  cases h with
  | same => exact .refl db
  | reconciled hstatus => exact of_status hstatus rfl
  | running hlease => exact of_lease hlease
  | corrupt _ hlease => exact of_lease hlease
  | stopped hlease => exact of_lease hlease
  | corruptAfter _ hlease => exact of_lease hlease
  | reserved _ hlease => exact of_lease hlease

theorem prepare {penv : PrepareEnv} {stepId : UUID} {defer forbidWait forbidNewApprovalWait : Bool}
    {result : PrepareResult}
    (h : McpFlow.prepare penv stepId worker token now defer forbidWait forbidNewApprovalWait db =
      .ok (result, db')) : db.KeepsVerdict db' := by
  rcases prepare_ok h with ⟨rfl, -⟩ | ⟨-, -, hrequested, -⟩ | ⟨step, -, -, -, -, howned⟩
  · exact .refl _
  · -- only a RUNNING Execution is moved to CANCEL_REQUESTED
    rw [Db.enterCancelRequested] at hrequested
    split at hrequested
    · next hrunning => exact of_status hrunning rfl
    · exact of_status hrequested rfl
  · rcases prepareOwned_ok howned with ⟨rfl, -⟩ | ⟨howned, -⟩
    · exact .refl _
    · exact of_owned howned

theorem finalPreSendGate {verdict : Option String} {p : PreparedCall} {result : GateResult}
    (h : McpFlow.finalPreSendGate verdict p now db = .ok (result, db')) : db.KeepsVerdict db' := by
  rcases finalPreSendGate_ok h with ⟨-, rfl, -⟩ | ⟨howned, -⟩
  · exact .refl _
  · exact of_owned howned

theorem finalizeLocked {pinned : Except AppError PinnedToolPolicy} {p : PreparedCall}
    {callEnd : CallEnd} {outcome : ToolRunOutcome}
    (h : McpFlow.finalizeLocked pinned p callEnd now db = .ok (outcome, db')) :
    db.KeepsVerdict db' := by
  obtain ⟨step, attempt, toolCall, -, hfence, -⟩ := finalizeLocked_ok h
  exact of_owned (finalizeFence_some hfence).1

theorem finalizeInputRequired {p : PreparedCall} {mrtr : InputRequired} {requestId : UUID}
    {outcome : ToolRunOutcome}
    (h : McpFlow.finalizeInputRequired p mrtr requestId now db = .ok (outcome, db')) :
    db.KeepsVerdict db' := by
  obtain ⟨step, attempt, toolCall, hfence, -⟩ := finalizeInputRequired_ok h
  exact of_owned (finalizeFence_some hfence).1

/-- The settlement keeps the verdict when none of its two stops is taken. -/
theorem settledWave {outcomes : List (UUID × ToolRunOutcome)} {planOrder : List String}
    (hstops : db.execution.status.isTerminal = true → (∃ dag, validateLineage env db = .ok dag) ∧
      pickStopCause (stopCauses planOrder db outcomes) = none)
    (h : SettledWave env worker token outcomes planOrder now db db') : db.KeepsVerdict db' := by
  cases h with
  | same => exact .refl db
  | corrupt hlineage =>
    intro hterminal
    obtain ⟨⟨dag, hdag⟩, -⟩ := hstops hterminal
    cases hlineage.symm.trans hdag
  | stopCause hstop =>
    intro hterminal
    cases hstop.symm.trans (hstops hterminal).2
  | reconciled hstatus => exact of_status hstatus rfl
  | stopped hlease => exact of_lease hlease
  | ended hlease => exact of_lease hlease
  | settled hlease => exact of_lease hlease

theorem finished (h : Finished env worker token now db db') : db.KeepsVerdict db' := by
  cases h with
  | same => exact .refl db
  | corrupt _ hlease => exact of_lease hlease
  | stopped hlease => exact of_lease hlease
  | ended hlease => exact of_lease hlease
  | unfinished hlease => exact of_lease hlease

/-! ### The others -/

/-- The decision keeps the verdict when the request has not expired under a terminal Execution. -/
theorem decided {requestId : UUID}
    (hexpiry : db.execution.status.isTerminal = true → ∀ request,
      db.approvals.find? requestId = some request → request.status = .pending →
        now < request.expiresAt)
    (h : Approval.Decided requestId now db db') : db.KeepsVerdict db' := by
  cases h with
  | same => exact .refl db
  | approved => exact fun _ => rfl
  | rejected _ _ _ hwaits =>
    simp only [Approval.waitsForApproval, Bool.and_eq_true, beq_iff_eq] at hwaits
    exact of_status hwaits.1 rfl
  | expired hrequest hpending _ hexpired =>
    intro hterminal
    exact absurd (hexpiry hterminal _ hrequest hpending) (Nat.not_lt_of_le hexpired)

theorem expireRequest (requestId : UUID) (now : Time) (db : Db) :
    db.KeepsVerdict (Approval.expireRequest requestId now db) := by
  rcases Approval.expireRequest_cases requestId now db with
    hsame | ⟨request, step, -, -, -, -, hwaits, -⟩
  · rw [hsame]
    exact .refl db
  · simp only [Approval.waitsForApproval, Bool.and_eq_true, beq_iff_eq] at hwaits
    exact of_status hwaits.1 rfl

theorem resumedApproval {renv : Approval.ApprovalResumeEnv} {requestId : UUID}
    {outcome : Approval.ApprovalResumeClaimOutcome}
    (h : Approval.ResumedApproval renv requestId now db outcome db') : db.KeepsVerdict db' := by
  cases h with
  | stale => exact .refl db
  | failed _ hstatus => exact of_status hstatus rfl
  | claimed hstatus => exact of_status hstatus rfl

theorem recovered {renv : RecoveryEnv} {outcome : RecoveryOutcome}
    (h : Recovered renv now db outcome db') : db.KeepsVerdict db' := by
  cases h with
  | same => exact .refl db
  | cancelled hstatus => exact of_status hstatus rfl
  | foundation hstatus => exact of_status hstatus rfl
  | foundationInconsistent hstatus => exact of_status hstatus rfl
  | dag hstatus => exact of_status hstatus rfl
  | dagInconsistent hstatus => exact of_status hstatus rfl

end Db.KeepsVerdict

namespace World

variable {digest : TemplateDigest} {w w' w'' : World}

/-- The step takes neither of the two branches that write over the verdict of a terminal Execution:
its settlement finds the rows valid and no stop among its results, its decision finds no expired
request. -/
def LeavesVerdict (digest : TemplateDigest) (w : World) : Action → Prop
  | .worker token (.settle env _) => w.db.execution.status.isTerminal = true →
      ∀ r outcomes planOrder, w.worker? token = some r → r.stage = .settling outcomes planOrder →
        (∃ dag, validateLineage { env with digest := digest } w.db = .ok dag) ∧
          pickStopCause (stopCauses planOrder w.db outcomes) = none
  | .decide requestId _ now => w.db.execution.status.isTerminal = true →
      ∀ request, w.db.approvals.find? requestId = some request → request.status = .pending →
        now < request.expiresAt
  | _ => True

/-- A step that takes neither branch keeps the verdict. -/
theorem keepsVerdict_of_step {a : Action} (hok : w.LeavesVerdict digest a)
    (hstep : w.step digest a = some w') : w.db.KeepsVerdict w'.db := by
  have hdb := dbStep_of_step hstep
  generalize w'.db = db' at hdb ⊢
  cases hdb with
  | same => exact .refl w.db
  | claim h =>
    rcases claimExecution_ok h with ⟨-, hsame⟩ | ⟨-, hqueued, -⟩
    · rw [hsame]
      exact .refl w.db
    · exact .of_status hqueued rfl
  | prepareWave _ _ h => exact .preparedWave (preparedWave_of_prepareWave h)
  | failPolicy _ _ h =>
    rcases failClosedPreWavePolicy_ok h with hsame | ⟨hlease, -⟩
    · rw [hsame]
      exact .refl w.db
    · exact .of_lease hlease
  | prepare _ _ _ h => exact .prepare h
  | gate _ _ _ h => exact .finalPreSendGate h
  | finalizeRefused _ _ _ h => exact .finalizeLocked h
  | finalize _ _ _ h => exact .finalizeLocked h
  | inputRequired _ _ _ h => exact .finalizeInputRequired h
  | settle hr hstage h =>
    exact .settledWave (fun hterminal => hok hterminal _ _ _ hr hstage) (settledWave_of_settleWave h)
  | finish _ _ h => exact .finished (finished_of_finalizeNaturalEnd h)
  | renew _ h => exact .of_status (renewLease_ok h).1 rfl
  | cancel h =>
    rcases applyCancellation_ok h with ⟨hsame, -⟩ | ⟨hopen, -⟩
    · rw [hsame]
      exact .refl w.db
    · exact .of_status rfl hopen
  | decide h => exact .decided hok (Approval.decided_of_decideApproval h)
  | expire => exact .expireRequest _ _ _
  | resumeApproval _ h => exact .resumedApproval (Approval.resumedApproval_of_resumeClaim h)
  | submit h =>
    obtain ⟨-, ⟨-, hsame⟩ | ⟨-, hstatus, -⟩⟩ := Mrtr.submitResponse_ok h
    · rw [hsame]
      exact .refl w.db
    · exact .of_status hstatus rfl
  | reject h =>
    rcases Mrtr.reject_ok h with hsame | ⟨hstatus, -⟩
    · rw [hsame]
      exact .refl w.db
    · exact .of_status hstatus rfl
  | resumeInput _ h =>
    rcases Mrtr.claim_ok h with ⟨-, hsame, -⟩ | ⟨hstatus, -⟩
    · rw [hsame]
      exact .refl w.db
    · exact .of_status hstatus rfl
  | recover h => exact .recovered (recovered_of_recoverExecution h)

end World

/-! ### A stop after the cancellation -/

/-- The world of `twoCallPlan` before its first claim. -/
def twoCallWorld : World :=
  queuedWorld twoCallPlan
    ⟨[plannedStep (.ofNat 10)
        (rootPlanStep "load" .tool (.tool (.ofNat 4) []) nonBlank_load) pinned_load,
      plannedStep (.ofNat 11)
        (rootPlanStep "poll" .tool (.tool (.ofNat 4) []) nonBlank_poll) pinned_poll], by decide⟩

/-- Every check passes, and the call needs no approval. -/
def plainCall (attemptId toolCallId : UUID) (remoteRequestId : String) : PrepareEnv where
  start :=
    { authorization := .ok ⟨⟨.ofNat 5, false, false, none, .readOnly⟩, none⟩
      resolvedInput := .ok []
      argumentsValid := .ok ()
      approvedEvidence := .ok false
      computeCanonicalJsonHash := fun _ => .replicate 'a' Text.isLowerHex_a
      attemptId := attemptId
      approvalRequestId := .ofNat 50 }
  resumeLineage := .ok ()
  catalog := .ok ⟨.ofNat 30, .ofNat 4, .readOnly, 1000⟩
  preSendFailure := none
  toolCallId := toolCallId
  remoteRequestId := remoteRequestId

/-- Two calls side by side; a cancellation waits for both, the first one fails, and with the second
one the Execution is CANCELLED. -/
def cancelledWave : List Action :=
  let worker (action : WorkerAction) : Action := .worker (.ofNat 6) action
  let load (action : RunnerAction) : Action := worker (.runner (.ofNat 10) action)
  let poll (action : RunnerAction) : Action := worker (.runner (.ofNat 11) action)
  [.claim (loopEnv true) sampleClaim 1, worker (.prepareWave (loopEnv true) 2),
    worker (.select fun _ => .ok false),
    load (.prepare (plainCall (.ofNat 20) (.ofNat 30) "r1") 3), load (.gate none 4),
    poll (.prepare (plainCall (.ofNat 21) (.ofNat 31) "r2") 5), poll (.gate none 6),
    .cancel none 7,
    load (.finalize (.error ⟨"TOOL", "TOOL_ERROR", false, false, false⟩)
      (.ok ⟨none, none, false, none⟩) 8),
    poll (.finalize (.result (.ok .null)) (.ok ⟨none, none, false, none⟩) 9), worker .join]

end McpFlow
