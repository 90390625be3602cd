import McpFlow.Execution.Orchestrator

/-!
# What a settlement does not read

The heartbeat and the MCPInputRequests of an Execution play no part in its local transitions. Two
states of the rows that differ in these alone settle alike: `forget` takes them out of a result, and
a transition is `Blind` when its results agree then.
-/

namespace McpFlow

/-- The columns and rows that no local transition reads. -/
structure Unread where
  heartbeatAt : Option Time
  inputRequests : Table McpInputRequest.id

/-- The rows with other unread parts. -/
def Db.setUnread (db : Db) (unread : Unread) : Db :=
  { db.putExecution { db.execution with heartbeatAt := unread.heartbeatAt } with
    inputRequests := unread.inputRequests }

/-- The rows without their unread parts. -/
def Db.readable (db : Db) : Db := db.setUnread ⟨none, Table.empty⟩

namespace Db

variable (db : Db) (unread : Unread)

@[simp] theorem steps_setUnread : (db.setUnread unread).steps = db.steps := rfl

@[simp] theorem approvals_setUnread : (db.setUnread unread).approvals = db.approvals := rfl

@[simp] theorem planSnapshot_setUnread :
    (db.setUnread unread).execution.planSnapshot = db.execution.planSnapshot := rfl

@[simp] theorem status_setUnread :
    (db.setUnread unread).execution.status = db.execution.status := rfl

@[simp] theorem readable_setUnread : (db.setUnread unread).readable = db.readable := rfl

theorem putStep_setUnread (s : ExecutionStep) :
    (db.setUnread unread).putStep s = (db.putStep s).setUnread unread := rfl

/-- Readable parts that agree belong to one state with other unread parts. -/
theorem eq_setUnread_of_readable_eq {db db' : Db} (h : db.readable = db'.readable) :
    db = db'.setUnread ⟨db.execution.heartbeatAt, db.inputRequests⟩ := by
  have hback : db = db.readable.setUnread ⟨db.execution.heartbeatAt, db.inputRequests⟩ := rfl
  rw [h] at hback
  exact hback

theorem steps_of_readable_eq {db db' : Db} (h : db.readable = db'.readable) :
    db.steps = db'.steps := by
  have hsteps := congrArg Db.steps h
  exact hsteps

end Db

/-- A flow without its unread parts. -/
def Flow.forget : Flow → Flow
  | .go changed db => .go changed db.readable
  | .stop outcome db => .stop outcome db.readable

/-- A local transition without its unread parts. -/
def Local.forget (result : Local) : Local := result.map Flow.forget

/-- The transition does not read them. -/
def Blind (f : Db → Local) : Prop :=
  ∀ (db : Db) (unread : Unread), (f (db.setUnread unread)).forget = (f db).forget

theorem Blind.congr {f : Db → Local} (h : Blind f) {db db' : Db}
    (hdb : db.readable = db'.readable) : (f db).forget = (f db').forget := by
  rw [Db.eq_setUnread_of_readable_eq hdb]
  exact h db' _

/-- Results that agree in what is read. -/
theorem Local.forget_eq_cases {x y : Local} (h : x.forget = y.forget) :
    (∃ e, x = .error e ∧ y = .error e) ∨
    (∃ changed a b, x = .ok (.go changed a) ∧ y = .ok (.go changed b) ∧
      a.readable = b.readable) ∨
    ∃ outcome a b, x = .ok (.stop outcome a) ∧ y = .ok (.stop outcome b) ∧
      a.readable = b.readable := by
  rcases x with e | (⟨changed, a⟩ | ⟨outcome, a⟩) <;>
    rcases y with e' | (⟨changed', b⟩ | ⟨outcome', b⟩) <;>
    simp only [forget, Except.map, Flow.forget, Except.ok.injEq, Except.error.injEq, reduceCtorEq,
      Flow.go.injEq, Flow.stop.injEq] at h
  · exact .inl ⟨e, rfl, h ▸ rfl⟩
  · exact .inr (.inl ⟨changed, a, b, rfl, h.1 ▸ rfl, h.2⟩)
  · exact .inr (.inr ⟨outcome, a, b, rfl, h.1 ▸ rfl, h.2⟩)

theorem Local.forget_ite {c : Prop} [Decidable c] {x y x' y' : Local}
    (ht : c → x.forget = x'.forget) (hf : ¬c → y.forget = y'.forget) :
    (if c then x else y).forget = (if c then x' else y').forget := by
  by_cases hc : c
  · rw [if_pos hc, if_pos hc, ht hc]
  · rw [if_neg hc, if_neg hc, hf hc]

/-- What the runtime learns from the rows is learnt from what is read. -/
structure RuntimeEnv.Blind (env : RuntimeEnv) : Prop where
  evaluate : ∀ predicate step db unread,
    env.evaluate predicate step (Db.setUnread db unread) = env.evaluate predicate step db
  resolveForeachCollection : ∀ step db unread,
    env.resolveForeachCollection step (Db.setUnread db unread) =
      env.resolveForeachCollection step db
  whileEvidenceHash : ∀ loop candidate db unread,
    env.whileEvidenceHash loop candidate (Db.setUnread db unread) =
      env.whileEvidenceHash loop candidate db

/-! ### Stops -/

section Stops

variable (now : Time) (db : Db) (unread : Unread)

theorem halt_failClosedLineage_blind (errorCode : String) :
    (Local.halt (failClosedLineage errorCode now (db.setUnread unread))).forget =
      (Local.halt (failClosedLineage errorCode now db)).forget := rfl

theorem halt_failFast_blind (step : ExecutionStep) :
    (Local.halt (failFast step now (db.setUnread unread))).forget =
      (Local.halt (failFast step now db)).forget := rfl

theorem halt_failClosedPredicate_blind (step : ExecutionStep) (errorCode : String) :
    (Local.halt (failClosedPredicate step errorCode now (db.setUnread unread))).forget =
      (Local.halt (failClosedPredicate step errorCode now db)).forget := by
  unfold failClosedPredicate
  dsimp only
  split <;> rfl

theorem halt_failLoopClosed_blind (loop : ExecutionStep) (e : AppError) :
    (Local.halt (failLoopClosed loop e now (db.setUnread unread))).forget =
      (Local.halt (failLoopClosed loop e now db)).forget := by
  unfold failLoopClosed
  dsimp only
  split
  · exact halt_failClosedPredicate_blind now (db.putStep _) unread _ e.code
  · exact halt_failClosedLineage_blind now (db.putStep _) unread e.code

theorem stopLoopOwnedUntouchedChildren_setUnread (children : List ExecutionStep) :
    stopLoopOwnedUntouchedChildren now children (db.setUnread unread) =
      ((stopLoopOwnedUntouchedChildren now children db).1,
        (stopLoopOwnedUntouchedChildren now children db).2.setUnread unread) := by
  induction children generalizing db with
  | nil => rfl
  | cons child children ih =>
    unfold stopLoopOwnedUntouchedChildren
    cases child.stopChild? now with
    | none => rfl
    | some stopped => exact ih (db.putStep stopped)

theorem endLoopKnown_blind (planStep : ExecutionPlanStep) (loop : ExecutionStep)
    (status : StepStatus) (errorCode : String) :
    Blind (endLoopKnown planStep loop status errorCode now) := by
  intro db unread
  unfold endLoopKnown applyLoopErrorPolicy
  dsimp only
  rw [Db.putStep_setUnread, stopLoopOwnedUntouchedChildren_setUnread, Db.steps_setUnread]
  rcases stopLoopOwnedUntouchedChildren now _ (db.putStep (loop.failLoop status errorCode now))
    with ⟨_ | _, db₁⟩
  · rfl
  · exact Local.forget_ite (fun _ => rfl) fun _ => rfl

end Stops

/-! ### The rows of an iteration -/

theorem insertStep_setUnread (db : Db) (unread : Unread) (s : ExecutionStep) :
    (db.setUnread unread).insertStep s = (db.insertStep s).map (·.setUnread unread) := by
  unfold Db.insertStep
  rw [Db.steps_setUnread]
  split
  · rfl
  · cases db.steps.insert? s <;> rfl

theorem foldlM_materializeBody_setUnread (env : RuntimeEnv) (loop : ExecutionStep) (iterationNo : ℕ)
    (bodyIds : List String) (db : Db) (unread : Unread) :
    bodyIds.foldlM (materializeBody env loop iterationNo) (db.setUnread unread) =
      (bodyIds.foldlM (materializeBody env loop iterationNo) db).map (·.setUnread unread) := by
  induction bodyIds generalizing db with
  | nil => rfl
  | cons bodyId bodyIds ih =>
    rw [List.foldlM_cons, List.foldlM_cons]
    have hbody : materializeBody env loop iterationNo (db.setUnread unread) bodyId =
        (materializeBody env loop iterationNo db bodyId).map (·.setUnread unread) := by
      unfold materializeBody
      rw [Db.planSnapshot_setUnread]
      split
      · rfl
      · exact insertStep_setUnread db unread _
    rw [hbody]
    cases materializeBody env loop iterationNo db bodyId with
    | error e => rfl
    | ok db₁ => exact ih db₁

theorem materializeIteration_setUnread (env : RuntimeEnv) (cfg : LoopStepConfigV1) (iterationNo : ℕ)
    (loop : ExecutionStep) (db : Db) (unread : Unread) :
    materializeIteration env cfg iterationNo loop (db.setUnread unread) =
      (materializeIteration env cfg iterationNo loop db).map (·.setUnread unread) := by
  unfold materializeIteration
  rw [Db.steps_setUnread, Db.planSnapshot_setUnread, foldlM_materializeBody_setUnread]
  dsimp only
  split
  · rfl
  split
  · split <;> rfl
  split <;> rfl

section Blind

variable {env : RuntimeEnv} (hblind : env.Blind) (dag : ToolJoinDag) (now : Time)

/-! ### Visits -/

theorem visitKeys_blind {visit : String → Db → Local} (h : ∀ key, Blind (visit key))
    (keys : List String) (changed : Bool) : Blind (visitKeys visit keys changed) := by
  induction keys generalizing changed with
  | nil => exact fun db unread => rfl
  | cons key keys ih =>
    intro db unread
    unfold visitKeys
    rcases Local.forget_eq_cases (h key db unread) with ⟨e, hx, hy⟩ | ⟨changed', a, b, hx, hy, hab⟩ |
      ⟨outcome, a, b, hx, hy, hab⟩
    · rw [hx, hy]
    · rw [hx, hy]
      exact (ih _).congr hab
    · rw [hx, hy]
      exact congrArg (fun db => Except.ok (Flow.stop outcome db)) hab

theorem Local.andThen_blind {x y : Local} {next : Bool → Db → Local} (h : x.forget = y.forget)
    (hnext : ∀ changed, Blind (next changed)) : (x.andThen next).forget = (y.andThen next).forget := by
  rcases forget_eq_cases h with ⟨e, rfl, rfl⟩ | ⟨changed, a, b, rfl, rfl, hab⟩ |
    ⟨outcome, a, b, rfl, rfl, hab⟩
  · rfl
  · exact (hnext changed).congr hab
  · exact congrArg (fun db => Except.ok (Flow.stop outcome db)) hab

theorem pruneStep_blind (key : String) : Blind (pruneStep dag now key) := by
  intro db unread
  unfold pruneStep
  rw [Db.steps_setUnread]
  cases rowByKey db.steps.rows key with
  | none => rfl
  | some step => exact Local.forget_ite (fun _ => rfl) fun _ => rfl

include hblind

theorem evaluateWhenGate_blind (planStep : ExecutionPlanStep) (step : ExecutionStep) (db : Db)
    (unread : Unread) :
    evaluateWhenGate env planStep step (db.setUnread unread) =
      evaluateWhenGate env planStep step db := by
  unfold evaluateWhenGate
  simp only [hblind.evaluate]

theorem evaluateWhileGate_blind (cfg : LoopStepConfigV1) (candidate : ℕ) (loop : ExecutionStep)
    (db : Db) (unread : Unread) :
    evaluateWhileGate env cfg candidate loop (db.setUnread unread) =
      evaluateWhileGate env cfg candidate loop db := by
  unfold evaluateWhileGate
  simp only [hblind.evaluate, hblind.whileEvidenceHash, Db.steps_setUnread, Db.planSnapshot_setUnread]

theorem advanceWhile_blind (planStep : ExecutionPlanStep) (cfg : LoopStepConfigV1) (candidate : ℕ)
    (loop : ExecutionStep) : Blind (advanceWhile env planStep cfg candidate loop now) := by
  intro db unread
  unfold advanceWhile
  rw [evaluateWhileGate_blind hblind]
  cases evaluateWhileGate env cfg candidate loop db with
  | error e =>
    cases e with
    | appError e => exact halt_failLoopClosed_blind now db unread loop e
    | integrityError => rfl
    | assertionError => rfl
  | ok result =>
    obtain ⟨gate, gated⟩ := result
    dsimp only
    rw [Db.putStep_setUnread, Db.planSnapshot_setUnread, Db.steps_setUnread]
    refine Local.forget_ite (fun _ => rfl) fun _ => ?_
    refine Local.forget_ite (fun _ => ?_) fun _ => ?_
    · exact endLoopKnown_blind now planStep gated _ _ (db.putStep gated) unread
    · cases assertWhileNextIterationMaxSteps (db.putStep gated).execution.planSnapshot
        (db.putStep gated).steps.rows cfg.bodyStepIds.length with
      | error e => exact halt_failLoopClosed_blind now (db.putStep gated) unread gated e
      | ok _ =>
        dsimp only
        rw [materializeIteration_setUnread]
        cases materializeIteration env cfg candidate gated (db.putStep gated) with
        | ok db₁ => rfl
        | error e =>
          cases e with
          | appError e => exact halt_failLoopClosed_blind now (db.putStep gated) unread gated e
          | integrityError => rfl
          | assertionError => rfl

/-! ### FOR_EACH -/

omit hblind in
theorem forEachStartFailed_blind (planStep : ExecutionPlanStep) (loop : ExecutionStep) (e : AppError) :
    Blind (forEachStartFailed planStep loop e now) := by
  intro db unread
  unfold forEachStartFailed
  exact Local.forget_ite (fun _ => endLoopKnown_blind now planStep loop _ _ db unread) fun _ => rfl

theorem startForEach_blind (planStep : ExecutionPlanStep) (cfg : LoopStepConfigV1)
    (loop : ExecutionStep) : Blind (startForEach env planStep cfg loop now) := by
  intro db unread
  unfold startForEach
  rw [hblind.resolveForeachCollection]
  cases env.resolveForeachCollection loop db with
  | error e => exact forEachStartFailed_blind now planStep loop e db unread
  | ok collection =>
    dsimp only
    rw [Db.putStep_setUnread, Db.planSnapshot_setUnread, Db.steps_setUnread]
    refine Local.forget_ite (fun _ => ?_) fun _ => ?_
    · exact endLoopKnown_blind now planStep _ _ _ (db.putStep _) unread
    · cases assertGlobalExpandedMaxSteps (db.putStep (loop.pinCollection collection)).execution.planSnapshot
        (db.putStep (loop.pinCollection collection)).steps.rows with
      | error e => exact forEachStartFailed_blind now planStep _ e (db.putStep _) unread
      | ok _ =>
        refine Local.forget_ite (fun _ => rfl) fun _ => ?_
        rw [materializeIteration_setUnread]
        cases materializeIteration env cfg 1 (loop.pinCollection collection)
          (db.putStep (loop.pinCollection collection)) <;> rfl

theorem startLoop_blind (planStep : ExecutionPlanStep) (cfg : LoopStepConfigV1)
    (step : ExecutionStep) : Blind (startLoop env planStep cfg step now) := by
  intro db unread
  unfold startLoop
  dsimp only
  split
  · exact startForEach_blind hblind now planStep cfg _ (db.putStep _) unread
  · exact Local.forget_ite
      (fun _ => endLoopKnown_blind now planStep _ _ _ (db.putStep _) unread)
      fun _ => advanceWhile_blind hblind now planStep cfg 1 _ (db.putStep _) unread

theorem advanceForEach_blind (cfg : LoopStepConfigV1) (loop : ExecutionStep) :
    Blind (advanceForEach env cfg loop now) := by
  intro db unread
  unfold advanceForEach
  rw [hblind.resolveForeachCollection, Db.steps_setUnread]
  dsimp only
  split
  · rfl
  next collectionSize _ =>
  simp only [materializeIteration_setUnread]
  refine Local.forget_ite (fun _ => ?_) fun _ =>
    Local.forget_ite (fun _ => rfl) fun _ =>
      Local.forget_ite (fun _ => ?_) fun _ => rfl
  · cases materializeIteration env cfg 1 loop db <;> rfl
  · cases materializeIteration env cfg (maxMaterializedIteration db.steps.rows loop.id + 1) loop db
      <;> rfl

theorem advanceLoop_blind (planStep : ExecutionPlanStep) (cfg : LoopStepConfigV1)
    (loop : ExecutionStep) : Blind (advanceLoop env planStep cfg loop now) := by
  intro db unread
  unfold advanceLoop
  refine Local.forget_ite (fun _ => endLoopKnown_blind now planStep loop _ _ db unread) fun _ => ?_
  rw [Db.steps_setUnread]
  cases cfg.mode with
  | forEach => exact advanceForEach_blind hblind now cfg loop db unread
  | «while» =>
    exact Local.forget_ite (fun _ => advanceWhile_blind hblind now planStep cfg 1 _ db unread)
      fun _ => Local.forget_ite (fun _ => rfl)
        fun _ => advanceWhile_blind hblind now planStep cfg _ loop db unread

/-! ### The phases of a pass -/

theorem visitLoop_blind (key : String) : Blind (visitLoop env dag now key) := by
  intro db unread
  unfold visitLoop
  rw [Db.steps_setUnread, Db.planSnapshot_setUnread]
  cases rowByKey db.steps.rows key with
  | none => rfl
  | some step =>
    refine Local.forget_ite (fun _ => rfl) fun _ => ?_
    refine Local.forget_ite (fun _ => rfl) fun _ => ?_
    refine Local.forget_ite (fun _ => ?_) fun _ => ?_
    · refine Local.forget_ite (fun _ => rfl) fun _ => ?_
      cases loopConfig db.execution.planSnapshot step with
      | error e => rfl
      | ok found =>
        dsimp only
        rw [evaluateWhenGate_blind hblind]
        cases evaluateWhenGate env found.1 step db with
        | error e =>
          cases e with
          | appError e => exact halt_failClosedPredicate_blind now db unread step e.code
          | integrityError => rfl
          | assertionError => rfl
        | ok gate =>
          cases gate with
          | true => rfl
          | false => exact startLoop_blind hblind now found.1 found.2 step db unread
    · refine Local.forget_ite (fun _ => ?_) fun _ => rfl
      cases loopConfig db.execution.planSnapshot step with
      | error e => rfl
      | ok found => exact advanceLoop_blind hblind now found.1 found.2 step db unread

theorem visitCondition_blind (key : String) : Blind (visitCondition env dag now key) := by
  intro db unread
  unfold visitCondition
  rw [Db.steps_setUnread, Db.planSnapshot_setUnread]
  cases rowByKey db.steps.rows key with
  | none => rfl
  | some step =>
    refine Local.forget_ite (fun _ => rfl) fun _ => ?_
    cases runtimePlanStep db.execution.planSnapshot step with
    | error e => rfl
    | ok planStep =>
      dsimp only
      rw [evaluateWhenGate_blind hblind]
      cases evaluateWhenGate env planStep step db with
      | error e =>
        cases e with
        | appError e => exact halt_failClosedPredicate_blind now db unread step e.code
        | integrityError => rfl
        | assertionError => rfl
      | ok gate =>
        cases gate with
        | true => rfl
        | false =>
          simp only [hblind.evaluate]
          split
          · exact halt_failClosedPredicate_blind now db unread step _
          · rfl

omit hblind in
variable (env) in
theorem completeApproval_blind (key : String) : Blind (completeApproval env now key) := by
  intro db unread
  unfold completeApproval
  rw [Db.steps_setUnread, Db.planSnapshot_setUnread]
  cases rowByKey db.steps.rows key with
  | none => rfl
  | some step =>
    refine Local.forget_ite (fun _ => rfl) fun _ => Local.forget_ite (fun _ => rfl) fun _ => ?_
    have hrequest : approvedAuthorableRequest (db.setUnread unread) step.id =
        approvedAuthorableRequest db step.id := rfl
    rw [hrequest]
    cases approvedAuthorableRequest db step.id with
    | none => rfl
    | some request =>
      dsimp only
      cases env.approvalContext request <;> rfl

omit hblind in
theorem insertApproval_setUnread (db : Db) (unread : Unread) (r : ApprovalRequest) :
    (db.setUnread unread).insertApproval r = (db.insertApproval r).map (·.setUnread unread) := by
  unfold Db.insertApproval
  rw [Db.approvals_setUnread]
  split
  · rfl
  · cases db.approvals.insert? r <;> rfl

omit hblind in
/-- A wait clears the heartbeat; the other unread parts stay as they are. -/
theorem enterForApprovalStep_readable (computeCanonicalJsonHash : Approval.CanonicalHash)
    (policy : ApprovalPolicy) (requestId : UUID) (step : ExecutionStep) (db : Db)
    (unread : Unread) :
    (Approval.enterForApprovalStep computeCanonicalJsonHash policy requestId now step
        (db.setUnread unread)).map (fun result => (result.1, result.2.readable)) =
      (Approval.enterForApprovalStep computeCanonicalJsonHash policy requestId now step db).map
        fun result => (result.1, result.2.readable) := by
  unfold Approval.enterForApprovalStep
  have hreuse : Approval.reusePending (db.setUnread unread) step = Approval.reusePending db step :=
    rfl
  have hpending : Approval.findPendingForStep (db.setUnread unread) step.id =
      Approval.findPendingForStep db step.id := rfl
  have hsnapshot : Approval.buildApprovalStepContextSnapshot computeCanonicalJsonHash
        (db.setUnread unread).execution step (db.setUnread unread).execution.planSnapshot policy
        (db.setUnread unread).steps.rows =
      Approval.buildApprovalStepContextSnapshot computeCanonicalJsonHash db.execution step
        db.execution.planSnapshot policy db.steps.rows := rfl
  rw [Db.status_setUnread, hreuse, hpending, hsnapshot]
  split
  · cases Approval.reusePending db step <;> rfl
  split
  · rfl
  split
  · rfl
  split
  · rfl
  split
  · rfl
  cases Approval.findPendingForStep db step.id with
  | some existing => rfl
  | none =>
    cases Approval.buildApprovalStepContextSnapshot computeCanonicalJsonHash db.execution step
      db.execution.planSnapshot policy db.steps.rows with
    | error e => rfl
    | ok snapshot =>
      have hrequest : Approval.newPendingApproval (db.setUnread unread) step policy requestId
          computeCanonicalJsonHash snapshot now = Approval.newPendingApproval db step policy
            requestId computeCanonicalJsonHash snapshot now := rfl
      dsimp only
      rw [hrequest, insertApproval_setUnread]
      cases db.insertApproval (Approval.newPendingApproval db step policy requestId
        computeCanonicalJsonHash snapshot now) <;> rfl

theorem enterApproval_blind (key : String) : Blind (enterApproval env dag now key) := by
  intro db unread
  unfold enterApproval
  rw [Db.steps_setUnread, Db.planSnapshot_setUnread]
  cases rowByKey db.steps.rows key with
  | none => rfl
  | some step =>
    refine Local.forget_ite (fun _ => rfl) fun _ => ?_
    cases db.execution.planSnapshot.byId? step.stepKey with
    | none => rfl
    | some planStep =>
      refine Local.forget_ite (fun _ => rfl) fun _ => ?_
      rw [evaluateWhenGate_blind hblind]
      cases evaluateWhenGate env planStep step db with
      | error e =>
        cases e with
        | appError e => exact halt_failClosedPredicate_blind now db unread step e.code
        | integrityError => rfl
        | assertionError => rfl
      | ok gate =>
        cases gate with
        | true => rfl
        | false =>
          dsimp only
          cases planStep.config with
          | approval approvalPolicyId =>
            dsimp only
            cases (env.approvalPolicy approvalPolicyId).filter (·.status = .active) with
            | none => rfl
            | some policy =>
              dsimp only
              generalize (if planStep.when = none then step
                else { step with conditionResult := some true }) = gated
              rw [Db.putStep_setUnread]
              have henter := enterForApprovalStep_readable now env.computeCanonicalJsonHash policy
                env.approvalRequestId gated (db.putStep gated) unread
              generalize Approval.enterForApprovalStep env.computeCanonicalJsonHash policy
                env.approvalRequestId now gated ((db.putStep gated).setUnread unread) = x at henter ⊢
              generalize Approval.enterForApprovalStep env.computeCanonicalJsonHash policy
                env.approvalRequestId now gated (db.putStep gated) = y at henter ⊢
              rcases x with e | ⟨a, x⟩ <;> rcases y with e' | ⟨b, y⟩ <;>
                simp only [Except.map, Except.ok.injEq, Except.error.injEq, reduceCtorEq,
                  Prod.mk.injEq] at henter
              · rw [henter]
              · exact congrArg (fun db => Except.ok (Flow.stop _ db)) henter.2
          | _ => rfl

theorem reconcileApprovals_blind : Blind (reconcileApprovals env dag now) := by
  intro db unread
  have hcomplete := visitKeys_blind (fun key => completeApproval_blind env now key)
    dag.orderedStepKeys false db unread
  unfold reconcileApprovals
  rcases Local.forget_eq_cases hcomplete with ⟨e, hx, hy⟩ | ⟨changed, a, b, hx, hy, hab⟩ |
    ⟨outcome, a, b, hx, hy, hab⟩
  · rw [hx, hy]
  · rw [hx, hy]
    have hpending : Approval.findPendingForExecution a.readable =
      Approval.findPendingForExecution b.readable := congrArg _ hab
    change Approval.findPendingForExecution a = Approval.findPendingForExecution b at hpending
    dsimp only
    rw [hpending]
    refine Local.forget_ite (fun _ => ?_) fun _ => ?_
    · exact congrArg (fun db => Except.ok (Flow.go changed db)) hab
    · exact (visitKeys_blind (enterApproval_blind hblind dag now) _ changed).congr hab
  · rw [hx, hy]
    exact congrArg (fun db => Except.ok (Flow.stop outcome db)) hab

theorem visitToolGate_blind (key : String) : Blind (visitToolGate env dag now key) := by
  intro db unread
  unfold visitToolGate
  rw [Db.steps_setUnread, Db.planSnapshot_setUnread]
  cases rowByKey db.steps.rows key with
  | none => rfl
  | some step =>
    refine Local.forget_ite (fun _ => rfl) fun _ => ?_
    cases runtimePlanStep db.execution.planSnapshot step with
    | error e => rfl
    | ok planStep =>
      refine Local.forget_ite (fun _ => rfl) fun _ => ?_
      rw [evaluateWhenGate_blind hblind]
      cases evaluateWhenGate env planStep step db with
      | error e =>
        cases e with
        | appError e => exact halt_failClosedPredicate_blind now db unread step e.code
        | integrityError => rfl
        | assertionError => rfl
      | ok gate => cases gate <;> rfl

theorem visitJoin_blind (key : String) : Blind (visitJoin env dag now key) := by
  intro db unread
  unfold visitJoin
  rw [Db.steps_setUnread, Db.planSnapshot_setUnread]
  cases rowByKey db.steps.rows key with
  | none => rfl
  | some step =>
    refine Local.forget_ite (fun _ => rfl) fun _ => ?_
    cases runtimePlanStep db.execution.planSnapshot step with
    | error e => rfl
    | ok planStep =>
      dsimp only
      rw [evaluateWhenGate_blind hblind]
      cases evaluateWhenGate env planStep step db with
      | error e =>
        cases e with
        | appError e => exact halt_failClosedPredicate_blind now db unread step e.code
        | integrityError => rfl
        | assertionError => rfl
      | ok gate =>
        cases gate with
        | true => rfl
        | false =>
          dsimp only
          cases planStep.config with
          | join policy => exact Local.forget_ite (fun _ => rfl) fun _ => rfl
          | _ => rfl

/-! ### Passes -/

theorem passAfterLoops_blind (changed : Bool) : Blind (passAfterLoops env dag now changed) := by
  intro db unread
  unfold passAfterLoops
  refine Local.andThen_blind
    (visitKeys_blind (visitCondition_blind hblind dag now) _ changed db unread) fun changed => ?_
  intro db unread
  refine Local.andThen_blind (reconcileApprovals_blind hblind dag now db unread)
    fun approvalsChanged => ?_
  intro db unread
  refine Local.andThen_blind (visitKeys_blind (visitToolGate_blind hblind dag now) _ _ db unread)
    fun changed => ?_
  exact visitKeys_blind (visitJoin_blind hblind dag now) _ changed

theorem localPasses_blind (passes : ℕ) : Blind (localPasses env now passes dag) := by
  induction passes generalizing dag with
  | zero => exact fun db unread => rfl
  | succ passes ih =>
    intro db unread
    unfold localPasses
    refine Local.andThen_blind (visitKeys_blind (pruneStep_blind dag now) _ false db unread)
      fun pruned => ?_
    intro db unread
    refine Local.andThen_blind (visitKeys_blind (visitLoop_blind hblind dag now) _ false db unread)
      fun loopsChanged => ?_
    intro db unread
    have hrest (dag : ToolJoinDag) :
        Local.forget ((passAfterLoops env dag now (pruned || loopsChanged) (db.setUnread unread)).andThen
          fun changed db => if changed then localPasses env now passes dag db else .ok (.go false db)) =
        Local.forget ((passAfterLoops env dag now (pruned || loopsChanged) db).andThen
          fun changed db => if changed then localPasses env now passes dag db else .ok (.go false db)) :=
      Local.andThen_blind (passAfterLoops_blind hblind dag now _ db unread) fun changed db unread =>
        Local.forget_ite (fun _ => ih dag db unread) fun _ => rfl
    unfold refreshDag
    beta_reduce
    rw [Db.steps_setUnread, Db.planSnapshot_setUnread]
    cases loopsChanged with
    | false => exact hrest dag
    | true =>
      cases hdag : validateToolJoinDag env.digest db.execution.planSnapshot db.steps.rows with
      | error e => rfl
      | ok dag => exact hrest dag

theorem localReconcile_blind : Blind (localReconcile env dag now) := fun db unread =>
  localPasses_blind hblind dag now (passBound dag db.steps.rows) db unread

end Blind

end McpFlow
