import McpFlow.Execution.OpenCalls
import McpFlow.Execution.Steps

/-!
# Calls under the lease

In every state of a run the workers have distinct tokens, and while a worker owns the Execution every
call that its Tool Runners prepared is open.
-/

namespace McpFlow

open Mrtr (RunnerStage)

variable {digest : TemplateDigest} {w w' : World} {db db' : Db} {now : Time}

/-! ### The call that Phase A prepares -/

/-- The identity of the call of a Tool Runner. -/
structure Worker.CallOf (r : Worker) (v : Wave) (stepId : UUID) (p : PreparedCall) : Prop where
  stepId : p.stepId = stepId
  workerId : p.workerId = r.worker
  leaseToken : p.leaseToken = r.token
  defer : p.deferExecutionTerminalization = v.defer
  forbidWait : p.forbidExecutionWait = v.defer

private theorem callOpen_of_prepareStarted {env : PrepareEnv} {step : ExecutionStep}
    {attempt : StepAttempt} {replayed defer forbidWait : Bool} {worker : String} {token : UUID}
    {p : PreparedCall} (hs : step ∈ db.steps) (htype : step.stepType = .tool)
    (hrunning : step.status = .running) (ha : attempt ∈ db.attempts)
    (hstep : attempt.stepExecutionId = step.id) (hstarted : attempt.status = .started)
    (h : prepareStarted env step attempt replayed worker token now defer forbidWait db =
      .ok (.prepared p, db')) :
    p.stepId = step.id ∧ p.workerId = worker ∧ p.leaseToken = token ∧
      p.deferExecutionTerminalization = defer ∧ p.forbidExecutionWait = forbidWait ∧
      db'.CallOpen p := by
  rcases prepareStarted_ok h with ⟨-, hres, -⟩ | ⟨-, ⟨errorCode, hfatal⟩ | ⟨catalog, resume, -, hcall⟩⟩
  · cases hres
  · cases congrArg Prod.fst hfatal
  · obtain ⟨c, toolCalls, hinsert, hattempt, hcstarted, -, hend⟩ := prepareCall_ok hcall
    rcases hend with ⟨q, hq, rfl, hqstep, hqattempt, hqcall, -, -, -, hworker, htoken, hdefer, hforbid,
      -⟩ | ⟨errorCode, hres, -⟩
    · cases hq
      exact ⟨hqstep, hworker, htoken, hdefer, hforbid, ⟨step, hs, hqstep.symm, htype, hrunning⟩,
        ⟨attempt, ha, hqattempt.symm, hstep.trans hqstep.symm, hstarted⟩,
        ⟨c, (Table.mem_of_insert? hinsert).mpr (.inr rfl), hqcall.symm,
          hattempt.trans hqattempt.symm, hcstarted⟩⟩
    · cases hres

private theorem callOpen_of_prepareAttempt {env : PrepareEnv} {step : ExecutionStep}
    {defer forbidWait forbidNewApprovalWait : Bool} {worker : String} {token : UUID}
    {p : PreparedCall} (hs : step ∈ db.steps) (htype : step.stepType = .tool)
    (h : prepareAttempt env step worker token now defer forbidWait forbidNewApprovalWait db =
      .ok (.prepared p, db')) :
    p.stepId = step.id ∧ p.workerId = worker ∧ p.leaseToken = token ∧
      p.deferExecutionTerminalization = defer ∧ p.forbidExecutionWait = forbidWait ∧
      db'.CallOpen p := by
  obtain ⟨started, db₁, hstarted, hrest⟩ := prepareAttempt_ok h
  have hnotFatal {s : ExecutionStep} {code : String} {db₂ : Db}
      (hf : (PrepareResult.prepared p, db') = prepareFatal s code now defer db₂) : False := by
    cases congrArg Prod.fst hf
  have hnotFailed {s : ExecutionStep} {e : AppError} {db₂ : Db}
      (hf : (PrepareResult.prepared p, db') = prepareStartFailed s e now defer db₂) : False := by
    unfold prepareStartFailed at hf
    split at hf
    · cases hf
    split at hf
    · cases hf
    split at hf
    · cases hf
    · exact hnotFatal hf
  cases hstarted with
  | refused e => exact (hnotFailed hrest).elim
  | reused outcome hwait =>
    rcases hrest with ⟨-, hfatal⟩ | ⟨-, -, hres⟩
    · exact (hnotFatal hfatal).elim
    · cases hres
  | replayed attempt hrunning hattempt =>
    obtain ⟨ha, hastep, hastarted⟩ := getStartedAttempt_some hattempt
    rw [Table.find?_key_of_mem hs] at hrest
    exact callOpen_of_prepareStarted hs htype hrunning ha hastep hastarted hrest
  | refusedPinned e input => exact (hnotFailed hrest).elim
  | waits outcome input request approvals =>
    rcases hrest with ⟨-, hfatal⟩ | ⟨-, -, hres⟩
    · exact (hnotFatal hfatal).elim
    · cases hres
  | created attempt input attempts hready _ _ hastep hastarted hinsert =>
    have hfind : ((db.steps.put (step.pinInput input)).put
        ((step.pinInput input).startRunning now)).find? step.id =
          some ((step.pinInput input).startRunning now) :=
      Table.find?_put_of_find? (Table.find?_put_of_find? (Table.find?_key_of_mem hs) rfl) rfl
    have hrest' := hrest
    simp only [Db.steps_putStep, hfind, Option.getD_some] at hrest'
    have hmem := Table.mem_of_find? hfind
    generalize hs₂ : (step.pinInput input).startRunning now = s₂ at hmem hrest'
    have htool : s₂.stepType = .tool := by rw [← hs₂]; exact htype
    have hrunning : s₂.status = .running := by rw [← hs₂]; rfl
    have hid : s₂.id = step.id := by rw [← hs₂]; rfl
    rw [← hid] at hastep ⊢
    exact callOpen_of_prepareStarted hmem htool hrunning
      ((Table.mem_of_insert? hinsert).mpr (.inr rfl)) hastep hastarted hrest'

/-- A call that Phase A prepares is open. -/
theorem callOpen_of_prepare {env : PrepareEnv} {r : Worker} {v : Wave} {stepId : UUID}
    {p : PreparedCall}
    (h : prepare env stepId r.worker r.token now v.defer v.defer v.forbidNewApprovalWait db =
      .ok (.prepared p, db')) : r.CallOf v stepId p ∧ db'.CallOpen p := by
  rcases prepare_ok h with ⟨-, _, _, hres⟩ | ⟨-, -, -, outcome, -, hres⟩ | ⟨step, hfind, htype, -, -, hown⟩
  · cases hres
  · cases hres
  rcases prepareOwned_ok hown with ⟨-, _, _, hres⟩ | ⟨-, -, ⟨-, -, hres⟩ | hattempt⟩
  · cases hres
  · cases hres
  · obtain ⟨hstep, hworker, htoken, hdefer, hforbid, hopen⟩ :=
      callOpen_of_prepareAttempt (Table.mem_of_find? hfind) htype hattempt
    exact ⟨⟨hstep.trans (Table.key_of_find? hfind), hworker, htoken, hdefer, hforbid⟩, hopen⟩

/-! ### What a step does to the workers -/

/-- The token that a step gives to a new worker. -/
def Action.newToken? : Action → Option UUID
  | .claim _ env _ => some env.leaseToken
  | .resumeApproval _ env _ => some env.leaseToken
  | .resumeInput _ env _ => some env.leaseToken
  | .recover env _ => some env.leaseToken
  | _ => none

/-- The worker and the Step of a Tool Runner that takes a step. -/
def Action.runner? : Action → Option (UUID × UUID)
  | .worker token (.runner stepId _) => some (token, stepId)
  | _ => none

/-- A stage without a prepared call. -/
def WorkerStage.Idle : WorkerStage → Prop
  | .running v => ∀ m ∈ v.members, m.2 = .active .preparing
  | _ => True

namespace World

/-- The workers after a step: nobody moves, a worker starts, a worker goes on to a stage without a
prepared call, or one of its Tool Runners moves. -/
inductive WorkersStep (w : World) (a : Action) (w' : World) : Prop
  | same (hact : a.runner? = none) (hworkers : w'.workers = w.workers)
      (htokens : w'.tokens = w.tokens)
  | started (worker : String) (token : UUID) (hfresh : token ∉ w.tokens)
      (hact : a.runner? = none)
      (hworkers : w'.workers = w.workers ++ [⟨worker, token, .preparing, none⟩])
      (htokens : w'.tokens = w.tokens ++ [token])
  | moved (r : Worker) (g : Worker → Worker) (stage : WorkerStage) (hact : a.runner? = none)
      (hidle : stage.Idle)
      (hg : ∀ q, (g q).worker = q.worker ∧ (g q).token = q.token ∧ (g q).stage = stage)
      (hworkers : w'.workers = w.workers.map fun q => if q.token = r.token then g q else q)
      (htokens : w'.tokens = w.tokens)
  | runner (r : Worker) (v : Wave) (stepId : UUID) (m : Member) (hr : w.worker? r.token = some r)
      (hstage : r.stage = .running v) (hact : a.runner? = some (r.token, stepId))
      (hcall : ∀ stage p, m = .active stage → stage.call? = some p →
        r.CallOf v stepId p ∧ w'.db.CallOpen p ∨
          (stepId, .active (.prepared p)) ∈ v.members ∧ w'.db = w.db)
      (hworkers : w'.workers = (w.setMember r v stepId m).workers) (htokens : w'.tokens = w.tokens)

variable {w w' : World}

private theorem workersStep_setStage {a : Action} (r : Worker) {stage : WorkerStage} (db : Db)
    (hact : a.runner? = none) (hidle : stage.Idle) :
    w.WorkersStep a ((w.withDb db).setStage r stage) :=
  .moved r (fun q => { q with stage }) stage hact hidle (fun _ => ⟨rfl, rfl, rfl⟩) rfl rfl

private theorem workersStep_progress {α : Type} {a : Action} (r : Worker) {next : α → WorkerStage}
    (tx : Tx α) (hact : a.runner? = none) (hidle : ∀ o, (next o).Idle) :
    w.WorkersStep a (w.progress r next tx) := by
  match tx with
  | .ok (o, db) => exact workersStep_setStage r db hact (hidle o)
  | .error _ => exact workersStep_setStage r w.db hact trivial

theorem idle_start (handoff singleTool allowApprovalWait : Bool) (planOrder : List String)
    (stepIds : List UUID) :
    (WorkerStage.running (.start handoff singleTool allowApprovalWait planOrder stepIds)).Idle := by
  intro m hm
  obtain ⟨stepId, -, rfl⟩ := List.mem_map.mp hm
  rfl

theorem idle_afterPrepare (o : ProgressOutcome) : (afterPrepare o).Idle := by
  unfold afterPrepare
  repeat' split
  all_goals first | trivial | exact idle_start _ _ _ _ _

theorem idle_afterSelect (stepIds : List UUID) (planOrder : List String)
    (selected : Except AppError (Option UUID)) :
    (afterSelect stepIds planOrder selected).Idle := by
  unfold afterSelect
  split
  · trivial
  · exact idle_start _ _ _ _ _
  · exact idle_start _ _ _ _ _

theorem idle_afterWave (v : Wave) (outcomes : List (UUID × ToolRunOutcome)) :
    (afterWave v outcomes).Idle := by
  unfold afterWave
  repeat' split
  all_goals trivial

theorem idle_afterSettle (last : Option ToolRunOutcome) (o : ProgressOutcome) :
    (afterSettle last o).Idle := by
  unfold afterSettle
  split <;> trivial

theorem idle_afterFinish (last : Option ToolRunOutcome) (o : Option ProgressOutcome) :
    (afterFinish last o).Idle := by
  cases o <;> trivial

/-- A transaction of a Tool Runner that raises leaves it without a call. -/
private theorem workersStep_runnerTx {α : Type} {r : Worker} {v : Wave} {stepId : UUID}
    {next : α → Member} {tx : Tx α} {action : RunnerAction} (hr : w.worker? r.token = some r)
    (hstage : r.stage = .running v)
    (hcall : ∀ o db', tx = .ok (o, db') → ∀ stage p, next o = .active stage →
      stage.call? = some p → r.CallOf v stepId p ∧ db'.CallOpen p ∨
        (stepId, .active (.prepared p)) ∈ v.members ∧ db' = w.db) :
    w.WorkersStep (.worker r.token (.runner stepId action)) (w.runnerTx r v stepId next tx) := by
  match tx with
  | .ok (o, db') => exact .runner r v stepId (next o) hr hstage rfl (hcall o db' rfl) rfl rfl
  | .error _ => exact .runner r v stepId .raised hr hstage rfl (fun _ _ h => by cases h) rfl rfl

private theorem workersStep_of_runnerStep {r : Worker} {v : Wave} {stepId : UUID}
    {stage : RunnerStage} {action : RunnerAction} (hr : w.worker? r.token = some r)
    (hstage : r.stage = .running v) (hmember : (stepId, .active stage) ∈ v.members)
    (h : w.runnerStep r v stepId stage action = some w') :
    w.WorkersStep (.worker r.token (.runner stepId action)) w' := by
  have hphaseC {o : ToolRunOutcome} {s : RunnerStage} {p : PreparedCall}
      (hnext : afterPhaseC o = .active s) (hp : s.call? = some p) : False := by
    unfold afterPhaseC at hnext
    split at hnext
    · cases hnext
      cases hp
    · cases hnext
  unfold runnerStep at h
  split at h
  · cases h
    refine workersStep_runnerTx hr hstage fun o db' htx s p hnext hp => .inl ?_
    cases o with
    | prepared q =>
      cases hnext
      cases hp
      exact callOpen_of_prepare htx
    | outcome o => cases hnext
  · next p _ =>
    cases h
    exact .runner r v stepId _ hr hstage rfl
      (fun s q hs hq => by cases hs; cases hq; exact .inr ⟨hmember, rfl⟩) rfl rfl
  · next p _ _ =>
    cases h
    refine workersStep_runnerTx hr hstage fun o db' htx s q hnext hq => .inr ?_
    have hsame : (∀ o', o ≠ .outcome o') → db' = w.db := by
      intro hout
      rcases finalPreSendGate_ok htx with
        ⟨-, -, ho⟩ | ⟨-, hcorrupt | ⟨_, _, _, -, -, -, -, ⟨-, _, -, ho⟩ | ⟨-, hdb, -⟩⟩⟩
      · exact absurd ho (hout _)
      · exact absurd (congrArg Prod.fst hcorrupt) (hout _)
      · exact absurd ho (hout _)
      · exact hdb
    cases o with
    | pass =>
      cases hnext
      cases hq
      exact ⟨hmember, hsame fun _ h => by cases h⟩
    | failClosed errorCode =>
      cases hnext
      cases hq
      exact ⟨hmember, hsame fun _ h => by cases h⟩
    | outcome o => cases hnext
  · cases h
    exact workersStep_runnerTx hr hstage fun o db' _ s q hnext hq => (hphaseC hnext hq).elim
  · split at h
    · cases h
      exact workersStep_runnerTx hr hstage fun o db' _ s q hnext hq => (hphaseC hnext hq).elim
    · cases h
  · cases h
    exact workersStep_runnerTx hr hstage fun o db' _ s q hnext _ => by cases hnext
  · cases h

private theorem workersStep_of_workerStep {r : Worker} {action : WorkerAction}
    (hr : w.worker? r.token = some r) (h : w.workerStep digest r r.stage action = some w') :
    w.WorkersStep (.worker r.token action) w' := by
  unfold workerStep at h
  split at h
  · cases h
    exact .same rfl rfl rfl
  · cases h
    exact workersStep_progress r _ rfl idle_afterPrepare
  · cases h
    exact workersStep_setStage r w.db rfl (idle_afterSelect _ _ _)
  · cases h
    exact workersStep_progress r _ rfl fun _ => trivial
  · next v stepId action hstage =>
    split at h
    · next k stage hfind =>
      have hk : k = stepId := by simpa using List.find?_some hfind
      subst hk
      exact workersStep_of_runnerStep hr hstage (List.mem_of_find?_eq_some hfind) h
    · cases h
  · next v hstage =>
    obtain ⟨outcomes, -, rfl⟩ := Option.map_eq_some_iff.mp h
    exact .moved r
      (fun q => { q with
        stage := afterWave v outcomes
        last := (outcomes.getLast?.map (·.2)).or q.last })
      _ rfl (idle_afterWave v outcomes) (fun _ => ⟨rfl, rfl, rfl⟩) rfl rfl
  · cases h
    exact workersStep_progress r _ rfl (idle_afterSettle _)
  · cases h
    exact workersStep_progress r _ rfl (idle_afterFinish _)
  · cases h

/-- What a step does to the workers. -/
theorem workersStep_of_step {a : Action} (h : w.step digest a = some w') : w.WorkersStep a w' := by
  cases a with
  | claim env claim now =>
    simp only [step, Option.ite_none_left_eq_some, Option.some.injEq] at h
    obtain ⟨hfresh, rfl⟩ := h
    unfold World.claim
    split
    · split
      · exact .started _ _ hfresh rfl rfl rfl
      · exact .same rfl rfl rfl
    · exact .same rfl rfl rfl
  | worker token action =>
    obtain ⟨r, hr, hstep⟩ := Option.bind_eq_some_iff.mp h
    obtain rfl := token_of_worker? hr
    exact workersStep_of_workerStep hr hstep
  | cancel requestedBy now =>
    cases h
    exact .same rfl rfl rfl
  | decide requestId env now =>
    cases h
    unfold World.decide
    split
    · split <;> exact .same rfl rfl rfl
    · exact .same rfl rfl rfl
    · exact .same rfl rfl rfl
  | expire requestId now =>
    cases h
    exact .same rfl rfl rfl
  | resumeApproval requestId env now =>
    simp only [step, Option.ite_none_right_eq_some, Option.some.injEq] at h
    obtain ⟨⟨-, hfresh⟩, rfl⟩ := h
    unfold World.resumeApproval
    split
    · split
      · exact .started _ _ hfresh rfl rfl rfl
      · exact .same rfl rfl rfl
    · exact .same rfl rfl rfl
  | submit requestId actor responses resumeLineage now =>
    cases h
    unfold World.submit
    split
    · split <;> exact .same rfl rfl rfl
    · exact .same rfl rfl rfl
  | reject requestId actor resumeLineage now =>
    cases h
    exact .same rfl rfl rfl
  | resumeInput requestId env now =>
    simp only [step, Option.ite_none_right_eq_some, Option.some.injEq] at h
    obtain ⟨⟨-, hfresh⟩, rfl⟩ := h
    unfold World.resumeInput
    split
    · split
      · exact .started _ _ hfresh rfl rfl rfl
      · exact .same rfl rfl rfl
    · exact .same rfl rfl rfl
  | recover env now =>
    simp only [step, Option.ite_none_left_eq_some, Option.some.injEq] at h
    obtain ⟨hfresh, rfl⟩ := h
    unfold World.recover
    split
    · split
      · exact .started _ _ hfresh rfl rfl rfl
      · exact .same rfl rfl rfl
    · exact .same rfl rfl rfl

end World

/-! ### The frame of a step -/

/-- Another worker or another Tool Runner does not act on a call. -/
def PreparedCall.Foreign (p : PreparedCall) (token stepId : UUID) : Prop :=
  p.leaseToken ≠ token ∨ p.stepId ≠ stepId

namespace Db.KeepsCall

variable {p q : PreparedCall}

/-- What keeps the calls of every other Step also keeps the calls of a worker that does not own the
Execution. -/
theorem of_foreign {stepId : UUID} (hnot : ¬db.OwnedBy p.leaseToken)
    (h : ∀ q : PreparedCall, q.leaseToken = p.leaseToken → stepId ≠ q.stepId →
      db.KeepsCall db' q) : db.KeepsCall db' p := by
  obtain ⟨x, hx⟩ : ∃ x : UUID, stepId ≠ x := by
    by_cases h0 : stepId = ⟨0, by norm_num⟩
    · exact ⟨⟨1, by norm_num⟩, by rw [h0]; decide⟩
    · exact ⟨_, h0⟩
  exact of_not_owned fun howned => hnot ((h { p with stepId := x } rfl hx).owned howned)

private theorem not_owned_of_token {token : UUID} (h : db.execution.leaseToken = some token)
    (hne : p.leaseToken ≠ token) : ¬db.OwnedBy p.leaseToken :=
  fun howned => hne (Option.some.inj (howned.2.symm.trans h))

theorem prepare_foreign {env : PrepareEnv} {stepId : UUID} {worker : String} {token : UUID}
    {defer forbidWait forbidNewApprovalWait : Bool} {result : PrepareResult}
    (hforeign : p.Foreign token stepId)
    (h : McpFlow.prepare env stepId worker token now defer forbidWait forbidNewApprovalWait db =
      .ok (result, db')) : db.KeepsCall db' p := by
  by_cases hstep : stepId ≠ p.stepId
  · exact prepare hstep h
  have htoken : p.leaseToken ≠ token := hforeign.resolve_right fun hne => hstep hne.symm
  by_cases howned : db.execution.leaseToken = some token
  · exact of_foreign (not_owned_of_token howned htoken) fun q _ hne => prepare hne h
  rcases prepare_ok h with ⟨rfl, -⟩ | ⟨-, hlease, -⟩ | ⟨step, -, -, -, -, hown⟩
  · exact refl db' p
  · exact absurd (Execution.holdsLease_iff.mp hlease).2.1 howned
  · rcases prepareOwned_ok hown with ⟨rfl, -⟩ | ⟨hlease, -⟩
    · exact refl db' p
    · exact absurd (Execution.leaseToken_of_ownedInFlight hlease) howned

theorem finalPreSendGate_foreign {verdict : Option String} {result : GateResult}
    (hopen : db.OwnedBy q.leaseToken → db.CallOpen q) (hforeign : p.Foreign q.leaseToken q.stepId)
    (h : McpFlow.finalPreSendGate verdict q now db = .ok (result, db')) : db.KeepsCall db' p := by
  by_cases hstep : q.stepId ≠ p.stepId
  · exact finalPreSendGate hopen hstep h
  have htoken : p.leaseToken ≠ q.leaseToken := hforeign.resolve_right fun hne => hstep hne.symm
  rcases finalPreSendGate_ok h with ⟨-, rfl, -⟩ | ⟨hlease, -⟩
  · exact refl db' p
  · exact of_foreign (not_owned_of_token (Execution.leaseToken_of_ownedInFlight hlease) htoken)
      fun _ _ hne => finalPreSendGate hopen hne h

theorem finalizeLocked_foreign {pinned : Except AppError PinnedToolPolicy} {callEnd : CallEnd}
    {outcome : ToolRunOutcome} (hopen : db.OwnedBy q.leaseToken → db.CallOpen q)
    (hforeign : p.Foreign q.leaseToken q.stepId)
    (h : McpFlow.finalizeLocked pinned q callEnd now db = .ok (outcome, db')) :
    db.KeepsCall db' p := by
  by_cases hstep : q.stepId ≠ p.stepId
  · exact finalizeLocked hopen hstep h
  have htoken : p.leaseToken ≠ q.leaseToken := hforeign.resolve_right fun hne => hstep hne.symm
  obtain ⟨_, _, _, _, hfence, -⟩ := finalizeLocked_ok h
  exact of_foreign (not_owned_of_token
    (Execution.leaseToken_of_ownedInFlight (finalizeFence_some hfence).1) htoken)
    fun _ _ hne => finalizeLocked hopen hne h

theorem finalizeInputRequired_foreign {mrtr : InputRequired} {requestId : UUID}
    {outcome : ToolRunOutcome} (hopen : db.OwnedBy q.leaseToken → db.CallOpen q)
    (hforeign : p.Foreign q.leaseToken q.stepId)
    (h : McpFlow.finalizeInputRequired q mrtr requestId now db = .ok (outcome, db')) :
    db.KeepsCall db' p := by
  by_cases hstep : q.stepId ≠ p.stepId
  · exact finalizeInputRequired hopen hstep h
  have htoken : p.leaseToken ≠ q.leaseToken := hforeign.resolve_right fun hne => hstep hne.symm
  obtain ⟨_, _, _, hfence, -⟩ := finalizeInputRequired_ok h
  exact of_foreign (not_owned_of_token
    (Execution.leaseToken_of_ownedInFlight (finalizeFence_some hfence).1) htoken)
    fun _ _ hne => finalizeInputRequired hopen hne h

end Db.KeepsCall

/-! ### The invariant -/

/-- The workers have distinct tokens, a wave runs each Step once, and every prepared call of the
owner of the Execution is open. -/
structure World.Live (w : World) : Prop where
  given : ∀ r ∈ w.workers, r.token ∈ w.tokens
  distinct : ∀ r ∈ w.workers, ∀ q ∈ w.workers, r.token = q.token → r = q
  members : ∀ r ∈ w.workers, ∀ v, r.stage = .running v →
    ∀ stepId m m', (stepId, m) ∈ v.members → (stepId, m') ∈ v.members → m = m'
  calls : ∀ r ∈ w.workers, ∀ v, r.stage = .running v → ∀ stepId stage p,
    (stepId, .active stage) ∈ v.members → stage.call? = some p →
      r.CallOf v stepId p ∧ (w.db.OwnedBy r.token → w.db.CallOpen p)

namespace World.Live

variable {w w' : World}

/-- Every call of the wave of a worker, as its Tool Runner sees it. -/
private theorem call {r : Worker} {v : Wave} {stepId : UUID} {stage : RunnerStage}
    {p : PreparedCall} (h : w.Live) (hr : w.worker? r.token = some r) (hstage : r.stage = .running v)
    (hmember : (stepId, .active stage) ∈ v.members) (hp : stage.call? = some p) :
    r.CallOf v stepId p ∧ (w.db.OwnedBy p.leaseToken → w.db.CallOpen p) := by
  obtain ⟨hof, hopen⟩ := h.calls r (List.mem_of_find?_eq_some hr) v hstage stepId stage p hmember hp
  exact ⟨hof, hof.leaseToken ▸ hopen⟩

/-- A call of the lease owner is open. -/
theorem callOpen {r : Worker} {v : Wave} {stepId : UUID} {stage : RunnerStage} {p : PreparedCall}
    (h : w.Live) (hr : w.worker? r.token = some r) (hstage : r.stage = .running v)
    (hmember : (stepId, .active stage) ∈ v.members) (hp : stage.call? = some p) :
    w.db.OwnedBy p.leaseToken → w.db.CallOpen p :=
  (h.call hr hstage hmember hp).2

/-- A step keeps the calls that it does not act on. -/
theorem keepsCall {a : Action} (h : w.Live) (hstep : w.step digest a = some w') {p : PreparedCall}
    (hnew : a.newToken? ≠ some p.leaseToken) (hrunner : a.runner? ≠ some (p.leaseToken, p.stepId)) :
    w.db.KeepsCall w'.db p := by
  have hfresh {token : UUID} (ha : a.newToken? = some token) : p.leaseToken ≠ token :=
    fun he => hnew (he ▸ ha)
  have hforeign {token stepId : UUID} (ha : a.runner? = some (token, stepId)) :
      p.Foreign token stepId := by
    by_cases htoken : p.leaseToken = token
    · exact .inr fun he => hrunner (by rw [ha, htoken, he])
    · exact .inl htoken
  have hdb := dbStep_of_step hstep
  generalize w'.db = db' at hdb ⊢
  cases hdb with
  | same => exact .refl w.db p
  | claim h => exact .claimExecution h (hfresh rfl)
  | prepareWave _ _ h => exact .preparedWave (preparedWave_of_prepareWave h)
  | failPolicy _ _ h => exact .failClosedPreWavePolicy h
  | prepare _ _ _ h => exact .prepare_foreign (hforeign rfl) h
  | gate hr hstage hmember htx =>
    obtain ⟨hof, hopen⟩ := h.call hr hstage hmember rfl
    refine .finalPreSendGate_foreign hopen ?_ htx
    rw [hof.leaseToken, hof.stepId]
    exact hforeign rfl
  | finalizeRefused hr hstage hmember htx =>
    obtain ⟨hof, hopen⟩ := h.call hr hstage hmember rfl
    refine .finalizeLocked_foreign hopen ?_ htx
    rw [hof.leaseToken, hof.stepId]
    exact hforeign rfl
  | finalize hr hstage hmember htx =>
    obtain ⟨hof, hopen⟩ := h.call hr hstage hmember rfl
    refine .finalizeLocked_foreign hopen ?_ htx
    rw [hof.leaseToken, hof.stepId]
    exact hforeign rfl
  | inputRequired hr hstage hmember htx =>
    obtain ⟨hof, hopen⟩ := h.call hr hstage hmember rfl
    refine .finalizeInputRequired_foreign hopen ?_ htx
    rw [hof.leaseToken, hof.stepId]
    exact hforeign rfl
  | settle _ _ h => exact .settledWave (settledWave_of_settleWave h)
  | finish _ _ h => exact .finished (finished_of_finalizeNaturalEnd h)
  | renew _ h => exact .renewLease h
  | cancel h => exact .applyCancellation h
  | decide h => exact .decided (Approval.decided_of_decideApproval h)
  | expire requestId now => exact .expireRequest requestId
  | resumeApproval _ h => exact .resumedApproval (Approval.resumedApproval_of_resumeClaim h) (hfresh rfl)
  | submit h => exact .submitResponse h
  | reject h => exact .rejectInput h
  | resumeInput _ h => exact .claimInput h (hfresh rfl)
  | recover h => exact .recovered (recovered_of_recoverExecution h) (hfresh rfl)

/-- A step gives no token twice. -/
theorem fresh_of_step {a : Action} {token : UUID} (h : w.step digest a = some w')
    (hnew : a.newToken? = some token) : token ∉ w.tokens := by
  cases a with
  | claim | recover =>
    simp only [World.step, Option.ite_none_left_eq_some] at h
    cases hnew
    exact h.1
  | resumeApproval | resumeInput =>
    simp only [World.step, Option.ite_none_right_eq_some] at h
    cases hnew
    exact h.1.2
  | _ => cases hnew

/-- The calls of the Tool Runners that do not move. -/
private theorem call_kept {a : Action} (h : w.Live) (hstep : w.step digest a = some w') {r : Worker}
    (hr : r ∈ w.workers) {v : Wave} (hstage : r.stage = .running v) {stepId : UUID}
    {stage : RunnerStage} {p : PreparedCall} (hmember : (stepId, .active stage) ∈ v.members)
    (hp : stage.call? = some p) (hact : a.runner? ≠ some (r.token, stepId)) :
    r.CallOf v stepId p ∧ (w'.db.OwnedBy r.token → w'.db.CallOpen p) := by
  obtain ⟨hof, hopen⟩ := h.calls r hr v hstage stepId stage p hmember hp
  have hkeeps : w.db.KeepsCall w'.db p :=
    h.keepsCall hstep (fun hnew => fresh_of_step hstep hnew (hof.leaseToken ▸ h.given r hr))
      (by rw [hof.leaseToken, hof.stepId]; exact hact)
  rw [← hof.leaseToken]
  exact ⟨hof, fun howned => hkeeps.opened howned
    (hopen (hof.leaseToken ▸ hkeeps.owned howned))⟩

/-- Nothing has started. -/
theorem of_initial (h : w.Initial) : w.Live where
  given r hr := by simp [h.workers] at hr
  distinct r hr := by simp [h.workers] at hr
  members r hr := by simp [h.workers] at hr
  calls r hr := by simp [h.workers] at hr

/-- Workers that keep their token, and their wave unless they start anew. -/
private theorem of_map {a : Action} (h : w.Live) (hstep : w.step digest a = some w')
    (hact : a.runner? = none) (f : Worker → Worker) (hworkers : w'.workers = w.workers.map f)
    (htokens : w'.tokens = w.tokens)
    (hf : ∀ q, (f q).worker = q.worker ∧ (f q).token = q.token ∧
      ((f q).stage = q.stage ∨ (f q).stage.Idle)) : w'.Live where
  given r hr := by
    rw [hworkers] at hr
    obtain ⟨q, hq, rfl⟩ := List.mem_map.mp hr
    rw [htokens, (hf q).2.1]
    exact h.given q hq
  distinct r hr q hq htoken := by
    rw [hworkers] at hr hq
    obtain ⟨r₀, hr₀, rfl⟩ := List.mem_map.mp hr
    obtain ⟨q₀, hq₀, rfl⟩ := List.mem_map.mp hq
    rw [(hf r₀).2.1, (hf q₀).2.1] at htoken
    rw [h.distinct r₀ hr₀ q₀ hq₀ htoken]
  members r hr v hstage stepId m m' hm hm' := by
    rw [hworkers] at hr
    obtain ⟨q, hq, rfl⟩ := List.mem_map.mp hr
    rcases (hf q).2.2 with hsame | hidle
    · exact h.members q hq v (hsame ▸ hstage) stepId m m' hm hm'
    · rw [hstage] at hidle
      exact (hidle _ hm).trans (hidle _ hm').symm
  calls r hr v hstage stepId stage p hmember hp := by
    rw [hworkers] at hr
    obtain ⟨q, hq, rfl⟩ := List.mem_map.mp hr
    obtain ⟨hworker, htoken, hsame | hidle⟩ := hf q
    · obtain ⟨hof, hopen⟩ := h.call_kept hstep hq (hsame ▸ hstage) hmember hp (by simp [hact])
      refine ⟨⟨hof.stepId, hof.workerId.trans hworker.symm, hof.leaseToken.trans htoken.symm,
        hof.defer, hof.forbidWait⟩, ?_⟩
      rw [htoken]
      exact hopen
    · rw [hstage] at hidle
      cases hidle _ hmember
      cases hp

/-- Every step keeps the invariant. -/
theorem step {a : Action} (h : w.Live) (hstep : w.step digest a = some w') : w'.Live := by
  cases workersStep_of_step hstep with
  | same hact hworkers htokens =>
    exact h.of_map hstep hact id (by simpa using hworkers) htokens fun q => ⟨rfl, rfl, .inl rfl⟩
  | moved r g stage hact hidle hg hworkers htokens =>
    refine h.of_map hstep hact _ hworkers htokens fun q => ?_
    by_cases hq : q.token = r.token
    · rw [if_pos hq]
      exact ⟨(hg q).1, (hg q).2.1, .inr ((hg q).2.2 ▸ hidle)⟩
    · rw [if_neg hq]
      exact ⟨rfl, rfl, .inl rfl⟩
  | started worker token hfresh hact hworkers htokens =>
    have hnew : ∀ r ∈ w'.workers, r ∈ w.workers ∨ r = ⟨worker, token, .preparing, none⟩ := by
      rw [hworkers]
      simp
    refine ⟨fun r hr => ?_, fun r hr q hq htoken => ?_, fun r hr v hstage => ?_,
      fun r hr v hstage stepId stage p hmember hp => ?_⟩
    · rw [htokens]
      rcases hnew r hr with hr | rfl
      · exact List.mem_append_left _ (h.given r hr)
      · simp
    · rcases hnew r hr with hr | rfl <;> rcases hnew q hq with hq | rfl
      · exact h.distinct r hr q hq htoken
      · exact absurd (show token ∈ w.tokens from (show r.token = token from htoken) ▸ h.given r hr)
          hfresh
      · exact absurd (show token ∈ w.tokens from (show token = q.token from htoken) ▸ h.given q hq)
          hfresh
      · rfl
    · rcases hnew r hr with hr | rfl
      · exact h.members r hr v hstage
      · cases hstage
    · rcases hnew r hr with hr | rfl
      · exact h.call_kept hstep hr hstage hmember hp (by simp [hact])
      · cases hstage
  | runner r v stepId m hr hstage hact hcall hworkers htokens =>
    have hrmem := List.mem_of_find?_eq_some hr
    -- Only the member of this Step moves, and only in the wave of `r`.
    have hmoved : ∀ q ∈ w'.workers, (q ∈ w.workers ∧ q.token ≠ r.token) ∨
        (q.worker = r.worker ∧ q.token = r.token ∧ q.stage = .running
          { v with members := v.members.map fun p => if p.1 = stepId then (stepId, m) else p }) := by
      intro q hq
      rw [hworkers] at hq
      obtain ⟨q₀, hq₀, rfl⟩ := List.mem_map.mp hq
      by_cases htoken : q₀.token = r.token
      · obtain rfl := h.distinct q₀ hq₀ r hrmem htoken
        exact .inr (by simp)
      · rw [if_neg htoken]
        exact .inl ⟨hq₀, htoken⟩
    have hold : ∀ k m', (k, m') ∈ (v.members.map fun p => if p.1 = stepId then (stepId, m) else p) →
        k = stepId ∧ m' = m ∨ k ≠ stepId ∧ (k, m') ∈ v.members := by
      intro k m' hm
      obtain ⟨⟨k', m''⟩, hmem, he⟩ := List.mem_map.mp hm
      by_cases hk : k' = stepId
      · rw [if_pos hk] at he
        cases he
        exact .inl ⟨rfl, rfl⟩
      · rw [if_neg hk] at he
        cases he
        exact .inr ⟨hk, hmem⟩
    refine ⟨fun q hq => ?_, fun q hq q' hq' htoken => ?_, fun q hq u hu k m₁ m₂ hm₁ hm₂ => ?_,
      fun q hq u hu k stage p hmember hp => ?_⟩
    · rw [htokens]
      rcases hmoved q hq with ⟨hq, -⟩ | ⟨-, htoken, -⟩
      · exact h.given q hq
      · exact htoken ▸ h.given r hrmem
    · rw [hworkers] at hq hq'
      obtain ⟨q₁, hq₁, rfl⟩ := List.mem_map.mp hq
      obtain ⟨q₂, hq₂, rfl⟩ := List.mem_map.mp hq'
      have hsame : q₁.token = q₂.token := by
        revert htoken
        split <;> split <;> exact id
      rw [h.distinct q₁ hq₁ q₂ hq₂ hsame]
    · rcases hmoved q hq with ⟨hq, -⟩ | ⟨-, -, hrun⟩
      · exact h.members q hq u hu k m₁ m₂ hm₁ hm₂
      · rw [hrun] at hu
        cases hu
        rcases hold k m₁ hm₁ with ⟨hk, h₁⟩ | ⟨hk, h₁⟩ <;> rcases hold k m₂ hm₂ with ⟨hk', h₂⟩ | ⟨hk', h₂⟩
        · exact h₁.trans h₂.symm
        · exact absurd hk hk'
        · exact absurd hk' hk
        · exact h.members r hrmem v hstage k m₁ m₂ h₁ h₂
    · rcases hmoved q hq with ⟨hq, hne⟩ | ⟨hworker, htoken, hrun⟩
      · exact h.call_kept hstep hq hu hmember hp (by
          rw [hact]
          intro he
          exact hne (congrArg Prod.fst (Option.some.inj he)).symm)
      · rw [hrun] at hu
        cases hu
        have hofq : r.CallOf v k p → q.CallOf { v with members := v.members.map fun p =>
            if p.1 = stepId then (stepId, m) else p } k p := fun hof =>
          ⟨hof.stepId, hof.workerId.trans hworker.symm, hof.leaseToken.trans htoken.symm, hof.defer,
            hof.forbidWait⟩
        rw [htoken]
        rcases hold k _ hmember with ⟨rfl, hm⟩ | ⟨hk, hmem⟩
        · rcases hcall stage p hm.symm hp with ⟨hof, hopen⟩ | ⟨hprepared, hdb⟩
          · exact ⟨hofq hof, fun _ => hopen⟩
          · obtain ⟨hof, hopen⟩ := h.calls r hrmem v hstage k _ p hprepared rfl
            exact ⟨hofq hof, hdb ▸ hopen⟩
        · obtain ⟨hof, hopen⟩ := h.call_kept hstep hrmem hstage hmem hp (by
            rw [hact]
            intro he
            exact hk (congrArg Prod.snd (Option.some.inj he)).symm)
          exact ⟨hofq hof, hopen⟩

/-- The invariant holds after every run. -/
theorem run {as : List Action} (h : w.Live) (hrun : Runs.run (World.step digest) w as = some w') :
    w'.Live :=
  Runs.run_invariant (fun _ _ _ hlive hstep => hlive.step hstep) h hrun

end World.Live

end McpFlow
