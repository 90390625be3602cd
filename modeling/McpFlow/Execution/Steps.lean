import McpFlow.Execution.World

/-!
# What a step of the world writes

`DbStep` names the transaction behind every step of a run; a step without one leaves the rows as
they are. The properties of the rows are proved for its constructors.
-/

namespace McpFlow

open Mrtr (RunnerStage)

/-- The rows after a step: those of one committed transaction, or the same rows. -/
inductive DbStep (digest : TemplateDigest) (w : World) : Action → Db → Prop
  | same (a : Action) : DbStep digest w a w.db
  | claim {env : RuntimeEnv} {claim : ClaimEnv} {now : Time} {o : ExecutionClaimOutcome} {db' : Db}
      (h : claimExecution { env with digest := digest } claim now w.db = .ok (o, db')) :
      DbStep digest w (.claim env claim now) db'
  | prepareWave {r : Worker} {env : RuntimeEnv} {now : Time} {o : ProgressOutcome} {db' : Db}
      (hr : w.worker? r.token = some r) (hstage : r.stage = .preparing)
      (h : prepareWave { env with digest := digest } r.worker r.token now w.db = .ok (o, db')) :
      DbStep digest w (.worker r.token (.prepareWave env now)) db'
  | failPolicy {r : Worker} {errorCode : String} {now : Time} {o : ProgressOutcome} {db' : Db}
      (hr : w.worker? r.token = some r) (hstage : r.stage = .failingPolicy errorCode)
      (h : failClosedPreWavePolicy r.worker r.token errorCode now w.db = .ok (o, db')) :
      DbStep digest w (.worker r.token (.failPolicy now)) db'
  | prepare {r : Worker} {v : Wave} {stepId : UUID} {env : PrepareEnv} {now : Time}
      {result : PrepareResult} {db' : Db}
      (hr : w.worker? r.token = some r) (hstage : r.stage = .running v)
      (hmember : (stepId, .active .preparing) ∈ v.members)
      (h : prepare env stepId r.worker r.token now v.defer v.defer v.forbidNewApprovalWait w.db =
        .ok (result, db')) :
      DbStep digest w (.worker r.token (.runner stepId (.prepare env now))) db'
  | gate {r : Worker} {v : Wave} {stepId : UUID} {p : PreparedCall} {verdict : Option String}
      {now : Time} {result : GateResult} {db' : Db}
      (hr : w.worker? r.token = some r) (hstage : r.stage = .running v)
      (hmember : (stepId, .active (.prepared p)) ∈ v.members)
      (h : finalPreSendGate verdict p now w.db = .ok (result, db')) :
      DbStep digest w (.worker r.token (.runner stepId (.gate verdict now))) db'
  | finalizeRefused {r : Worker} {v : Wave} {stepId : UUID} {p : PreparedCall} {errorCode : String}
      {pinned : Except AppError PinnedToolPolicy} {now : Time} {o : ToolRunOutcome} {db' : Db}
      (hr : w.worker? r.token = some r) (hstage : r.stage = .running v)
      (hmember : (stepId, .active (.refusing p errorCode)) ∈ v.members)
      (h : finalizeLocked pinned p (.error (.preSendFailClosed errorCode)) now w.db =
        .ok (o, db')) :
      DbStep digest w (.worker r.token (.runner stepId (.finalizeRefused pinned now))) db'
  | finalize {r : Worker} {v : Wave} {stepId : UUID} {p : PreparedCall} {callEnd : CallEnd}
      {pinned : Except AppError PinnedToolPolicy} {now : Time} {o : ToolRunOutcome} {db' : Db}
      (hr : w.worker? r.token = some r) (hstage : r.stage = .running v)
      (hmember : (stepId, .active (.inFlight p)) ∈ v.members)
      (h : finalizeLocked pinned p callEnd now w.db = .ok (o, db')) :
      DbStep digest w (.worker r.token (.runner stepId (.finalize callEnd pinned now))) db'
  | inputRequired {r : Worker} {v : Wave} {stepId : UUID} {p : PreparedCall} {mrtr : InputRequired}
      {requestId : UUID} {now : Time} {o : ToolRunOutcome} {db' : Db}
      (hr : w.worker? r.token = some r) (hstage : r.stage = .running v)
      (hmember : (stepId, .active (.inFlight p)) ∈ v.members)
      (h : finalizeInputRequired p mrtr requestId now w.db = .ok (o, db')) :
      DbStep digest w (.worker r.token (.runner stepId (.inputRequired mrtr requestId now))) db'
  | settle {r : Worker} {outcomes : List (UUID × ToolRunOutcome)} {planOrder : List String}
      {env : RuntimeEnv} {now : Time} {o : ProgressOutcome} {db' : Db}
      (hr : w.worker? r.token = some r) (hstage : r.stage = .settling outcomes planOrder)
      (h : settleWave { env with digest := digest } r.worker r.token outcomes planOrder now w.db =
        .ok (o, db')) :
      DbStep digest w (.worker r.token (.settle env now)) db'
  | finish {r : Worker} {env : RuntimeEnv} {now : Time} {o : Option ProgressOutcome} {db' : Db}
      (hr : w.worker? r.token = some r) (hstage : r.stage = .finalizing)
      (h : finalizeNaturalEnd { env with digest := digest } r.worker r.token now w.db =
        .ok (o, db')) :
      DbStep digest w (.worker r.token (.finish env now)) db'
  | renew {r : Worker} {leaseSeconds : ℕ} {now : Time} {db' : Db}
      (hr : w.worker? r.token = some r)
      (h : renewLease leaseSeconds r.worker r.token now w.db = .ok ((), db')) :
      DbStep digest w (.worker r.token (.renew leaseSeconds now)) db'
  | cancel {requestedBy : Option UUID} {now : Time} {o : CancellationOutcome} {db' : Db}
      (h : applyCancellation now requestedBy w.db = .ok (o, db')) :
      DbStep digest w (.cancel requestedBy now) db'
  | decide {requestId : UUID} {env : Approval.DecisionEnv} {now : Time}
      {o : Except AppError Approval.ApprovalDecisionOutcome} {db' : Db}
      (h : Approval.decideApproval env requestId now w.db = .ok (o, db')) :
      DbStep digest w (.decide requestId env now) db'
  | expire (requestId : UUID) (now : Time) :
      DbStep digest w (.expire requestId now) (Approval.expireRequest requestId now w.db)
  | resumeApproval {requestId : UUID} {env : Approval.ApprovalResumeEnv} {now : Time}
      {o : Approval.ApprovalResumeClaimOutcome} {db' : Db} (hmem : requestId ∈ w.approvalOutbox)
      (h : Approval.resumeClaim env requestId now w.db = .ok (o, db')) :
      DbStep digest w (.resumeApproval requestId env now) db'
  | submit {requestId : UUID} {actor : Mrtr.Actor} {responses : List (String × Json.Value)}
      {resumeLineage : Except AppError Unit} {now : Time} {o : Mrtr.MrtrResponseOutcome} {db' : Db}
      (h : Mrtr.submitResponse resumeLineage requestId actor responses now w.db = .ok (o, db')) :
      DbStep digest w (.submit requestId actor responses resumeLineage now) db'
  | reject {requestId : UUID} {actor : Mrtr.Actor} {resumeLineage : Except AppError Unit}
      {now : Time} {db' : Db}
      (h : Mrtr.reject resumeLineage requestId actor now w.db = .ok ((), db')) :
      DbStep digest w (.reject requestId actor resumeLineage now) db'
  | resumeInput {requestId : UUID} {env : Mrtr.ResumeEnv} {now : Time}
      {o : Mrtr.ResumeClaimOutcome} {db' : Db} (hmem : requestId ∈ w.inputOutbox)
      (h : Mrtr.claim env requestId now w.db = .ok (o, db')) :
      DbStep digest w (.resumeInput requestId env now) db'
  | recover {env : RecoveryEnv} {now : Time} {o : RecoveryOutcome} {db' : Db}
      (h : recoverExecution { env with runtime := { env.runtime with digest := digest } } now w.db =
        .ok (o, db')) :
      DbStep digest w (.recover env now) db'

namespace World

variable {digest : TemplateDigest} {w w' : World}

@[simp] theorem db_setStage (w : World) (r : Worker) (stage : WorkerStage) :
    (w.setStage r stage).db = w.db := rfl

@[simp] theorem db_setMember (w : World) (r : Worker) (v : Wave) (stepId : UUID) (m : Member) :
    (w.setMember r v stepId m).db = w.db := rfl

@[simp] theorem db_startWorker (w : World) (worker : String) (token : UUID) :
    (w.startWorker worker token).db = w.db := rfl

@[simp] theorem db_withDb (w : World) (db : Db) : (w.withDb db).db = db := rfl

/-- The token of a looked-up worker. -/
theorem token_of_worker? {token : UUID} {r : Worker} (h : w.worker? token = some r) :
    r.token = token := by
  simpa using List.find?_some h

/-- The rows after a progress transaction. -/
private theorem db_progress {α : Type} {r : Worker} {next : α → WorkerStage} {tx : Tx α}
    {a : Action} (hok : ∀ o db', tx = .ok (o, db') → DbStep digest w a db') :
    DbStep digest w a (w.progress r next tx).db := by
  match tx with
  | .ok (o, db') => exact hok o db' rfl
  | .error _ => exact .same a

/-- The rows after a transaction of a Tool Runner. -/
private theorem db_runnerTx {α : Type} {r : Worker} {v : Wave} {stepId : UUID} {next : α → Member}
    {tx : Tx α} {a : Action} (hok : ∀ o db', tx = .ok (o, db') → DbStep digest w a db') :
    DbStep digest w a (w.runnerTx r v stepId next tx).db := by
  match tx with
  | .ok (o, db') => exact hok o db' rfl
  | .error _ => exact .same a

private theorem dbStep_of_runnerStep {r : Worker} {v : Wave} {stepId : UUID} {stage : RunnerStage}
    {action : RunnerAction} (hr : w.worker? r.token = some r) (hstage : r.stage = .running v)
    (hmember : (stepId, .active stage) ∈ v.members)
    (h : w.runnerStep r v stepId stage action = some w') :
    DbStep digest w (.worker r.token (.runner stepId action)) w'.db := by
  unfold runnerStep at h
  split at h
  · cases h
    exact db_runnerTx fun o db' => .prepare hr hstage hmember
  · cases h
    exact .same _
  · cases h
    exact db_runnerTx fun o db' => .gate hr hstage hmember
  · cases h
    exact db_runnerTx fun o db' => .finalizeRefused hr hstage hmember
  · split at h
    · cases h
      exact db_runnerTx fun o db' => .finalize hr hstage hmember
    · cases h
  · cases h
    exact db_runnerTx fun o db' => .inputRequired hr hstage hmember
  · cases h

private theorem dbStep_of_workerStep {r : Worker} {action : WorkerAction}
    (hr : w.worker? r.token = some r) (h : w.workerStep digest r r.stage action = some w') :
    DbStep digest w (.worker r.token action) w'.db := by
  unfold workerStep at h
  split at h
  · next leaseSeconds now =>
    cases h
    cases htx : renewLease leaseSeconds r.worker r.token now w.db with
    | ok result => exact .renew hr htx
    | error e => exact .same _
  · next hstage =>
    cases h
    exact db_progress fun o db' => .prepareWave hr hstage
  · cases h
    exact .same _
  · next hstage =>
    cases h
    exact db_progress fun o db' => .failPolicy hr hstage
  · next v stepId action hstage =>
    split at h
    · next k stage hfind =>
      have hk : k = stepId := by simpa using List.find?_some hfind
      subst hk
      exact dbStep_of_runnerStep hr hstage (List.mem_of_find?_eq_some hfind) h
    · cases h
  · obtain ⟨outcomes, -, rfl⟩ := Option.map_eq_some_iff.mp h
    exact .same _
  · next hstage =>
    cases h
    exact db_progress fun o db' => .settle hr hstage
  · next hstage =>
    cases h
    exact db_progress fun o db' => .finish hr hstage
  · cases h

/-- A step writes the rows of its transaction. -/
theorem dbStep_of_step {a : Action} (h : w.step digest a = some w') : DbStep digest w a w'.db := by
  cases a with
  | claim env claim now =>
    simp only [step, Option.ite_none_left_eq_some, Option.some.injEq] at h
    obtain ⟨-, rfl⟩ := h
    unfold World.claim
    split
    · next htx => split <;> exact .claim htx
    · exact .same _
  | worker token action =>
    obtain ⟨r, hr, hstep⟩ := Option.bind_eq_some_iff.mp h
    obtain rfl := token_of_worker? hr
    exact dbStep_of_workerStep hr hstep
  | cancel requestedBy now =>
    cases h
    cases htx : applyCancellation now requestedBy w.db with
    | ok result => exact .cancel htx
    | error e => exact .same _
  | decide requestId env now =>
    cases h
    unfold World.decide
    split
    · next htx => split <;> exact .decide htx
    · next htx => exact .decide htx
    · exact .same _
  | expire requestId now =>
    cases h
    exact .expire requestId now
  | resumeApproval requestId env now =>
    simp only [step, Option.ite_none_right_eq_some, Option.some.injEq] at h
    obtain ⟨hmem, rfl⟩ := h
    unfold World.resumeApproval
    split
    · next htx => split <;> exact .resumeApproval hmem.1 htx
    · exact .same _
  | submit requestId actor responses resumeLineage now =>
    cases h
    unfold World.submit
    split
    · next htx => split <;> exact .submit htx
    · exact .same _
  | reject requestId actor resumeLineage now =>
    cases h
    cases htx : Mrtr.reject resumeLineage requestId actor now w.db with
    | ok result => exact .reject htx
    | error e => exact .same _
  | resumeInput requestId env now =>
    simp only [step, Option.ite_none_right_eq_some, Option.some.injEq] at h
    obtain ⟨hmem, rfl⟩ := h
    unfold World.resumeInput
    split
    · next htx => split <;> exact .resumeInput hmem.1 htx
    · exact .same _
  | recover env now =>
    simp only [step, Option.ite_none_left_eq_some, Option.some.injEq] at h
    obtain ⟨-, rfl⟩ := h
    unfold World.recover
    split
    · next htx => split <;> exact .recover htx
    · exact .same _

end World

end McpFlow
