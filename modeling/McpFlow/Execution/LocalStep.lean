import Mathlib.Logic.Relation
import McpFlow.Execution.Evolution
import McpFlow.Execution.LocalReconcile
import McpFlow.Library.Lists

/-!
# What the local reconcile can do

`LocalStep` names the writes after which `_local_reconcile_locked` goes on, `LocalStop` the two that
end it: the stop of the Execution and the entry into an approval wait. Every run of the reconcile is
a chain of the first, closed by at most one of the second; the invariants of the rows are proved for
these constructors.
-/

namespace McpFlow

/-- The statuses from which a local transition ends a Step. -/
def ExecutionStep.LocallyOpen (s : ExecutionStep) : Prop :=
  s.status = .pending ∨ (s.stepType = .loop ∧ s.status = .running) ∨
    s.isUnusedReadyTool = true ∨ (s.stepType = .approval ∧ s.status = .ready)

/-- A row that a local transition ends. -/
structure LocalClose (s s' : ExecutionStep) : Prop where
  same : SameStep s s'
  attemptCount : s'.attemptCount = s.attemptCount
  terminal : s'.status.isTerminal = true
  known : s'.status ≠ .unknownOutcome
  opened : s.LocallyOpen

/-- A row of a LOOP that runs, with its evidence renewed. -/
structure RunsLoop (s s' : ExecutionStep) : Prop where
  same : SameStep s s'
  attemptCount : s'.attemptCount = s.attemptCount
  stepType : s.stepType = .loop
  status : s'.status = .running

/-- The writes of the local reconcile after which it goes on. -/
inductive LocalStep (env : RuntimeEnv) (db : Db) : Db → Prop
  | close {s s' : ExecutionStep} (hs : s ∈ db.steps) (h : LocalClose s s') :
    LocalStep env db (db.putStep s')
  /-- A `when` that is true. -/
  | gate {s : ExecutionStep} (hs : s ∈ db.steps) (hpending : s.status = .pending)
      (htype : s.stepType = .tool ∨ s.stepType = .approval) :
    LocalStep env db (db.putStep { s with conditionResult := some true })
  /-- A FOR_EACH LOOP starts: its collection is not empty and fits the row budget. -/
  | startForEach {s s' : ExecutionStep} {cfg : LoopStepConfigV1} {collectionHash : Sha256Hex}
      {collectionSize : ℕ} (hs : s ∈ db.steps) (hpending : s.status = .pending)
      (hparent : s.parentStepId = none) (h : RunsLoop s s')
      (hconfig : s.stepSnapshot.config = .loop cfg) (hmode : cfg.mode = .forEach)
      (hpin : s'.resolvedInput = some (.forEach collectionHash collectionSize))
      (hsize : collectionSize ≠ 0)
      (hadmitted : assertGlobalExpandedMaxSteps db.execution.planSnapshot
        (db.putStep s').steps.rows = .ok ()) :
    LocalStep env db (db.putStep s')
  /-- A WHILE LOOP starts. -/
  | startWhile {s s' : ExecutionStep} {cfg : LoopStepConfigV1} (hs : s ∈ db.steps)
      (hpending : s.status = .pending) (hparent : s.parentStepId = none) (h : RunsLoop s s')
      (hconfig : s.stepSnapshot.config = .loop cfg) (hmode : cfg.mode = .while)
      (hpin : s'.resolvedInput = some (.while [])) :
    LocalStep env db (db.putStep s')
  /-- A WHILE gate is appended or replayed. -/
  | whileGate {s s' : ExecutionStep} {cfg : LoopStepConfigV1} {history : List GateEntry}
      (hs : s ∈ db.steps) (hrunning : s.status = .running) (hparent : s.parentStepId = none)
      (h : RunsLoop s s') (hconfig : s.stepSnapshot.config = .loop cfg) (hmode : cfg.mode = .while)
      (hpin : s'.resolvedInput = some (.while history)) :
    LocalStep env db (db.putStep s')
  /-- A new iteration of a RUNNING FOR_EACH LOOP. -/
  | materialize {loop : ExecutionStep} {cfg : LoopStepConfigV1} {iterationNo : ℕ} {db' : Db}
      (hloop : loop ∈ db.steps) (htype : loop.stepType = .loop) (hrunning : loop.status = .running)
      (hparent : loop.parentStepId = none) (hconfig : loop.stepSnapshot.config = .loop cfg)
      (hmode : cfg.mode = .forEach)
      (hnext : iterationNo = 1 ∨
        iterationNo = maxMaterializedIteration db.steps.rows loop.id + 1)
      (hbound : iterationNo = 1 ∨
        ∃ pin, parseForeachCollectionPin loop.resolvedInput = .ok pin ∧ iterationNo ≤ pin.2)
      (hfresh : childInstancesForIteration db.steps.rows loop.id iterationNo = [])
      (hlimit : db.steps.rows.length + cfg.bodyStepIds.length ≤
        db.execution.planSnapshot.limits.maxSteps)
      (h : cfg.bodyStepIds.foldlM (materializeBody env loop iterationNo) db = .ok db') :
    LocalStep env db db'
  /-- A new iteration of a RUNNING WHILE LOOP, whose gate is true. -/
  | advanceWhile {s loop row : ExecutionStep} {cfg : LoopStepConfigV1} {predicate : Json.Value}
      {history : List GateEntry} {iterationNo : ℕ} {db' : Db} (hs : s ∈ db.steps)
      (hrunning : s.status = .running) (hparent : s.parentStepId = none) (h : RunsLoop s loop)
      (hconfig : s.stepSnapshot.config = .loop cfg) (hmode : cfg.mode = .while)
      (hpin : loop.resolvedInput = some (.while history)) (hpredicate : cfg.predicate = some predicate)
      (hrow : SameStep s row) (hgate : env.evaluate predicate row db = .ok true)
      (hnext : iterationNo = 1 ∨ iterationNo = maxMaterializedIteration db.steps.rows s.id + 1)
      (hmax : iterationNo ≤ cfg.maxIterations)
      (hadmitted : assertWhileNextIterationMaxSteps db.execution.planSnapshot
        (db.putStep loop).steps.rows cfg.bodyStepIds.length = .ok ())
      (hfresh : childInstancesForIteration (db.putStep loop).steps.rows loop.id iterationNo = [])
      (hlimit : (db.putStep loop).steps.rows.length + cfg.bodyStepIds.length ≤
        db.execution.planSnapshot.limits.maxSteps)
      (hrows : cfg.bodyStepIds.foldlM (materializeBody env loop iterationNo) (db.putStep loop) =
        .ok db') :
    LocalStep env db db'

/-- Writes of the local reconcile, one after another. -/
abbrev LocalSteps (env : RuntimeEnv) : Db → Db → Prop := Relation.ReflTransGen (LocalStep env)

/-- The writes that end the local reconcile. -/
inductive LocalStop (env : RuntimeEnv) (now : Time) (db : Db) : Db → Prop
  /-- The Execution stops. -/
  | stop (status : ExecutionStatus) (errorCode : Option String)
      (hstatus : status = .failed ∨ status = .timedOut) :
    LocalStop env now db ((db.stopUnstartedSteps now).terminateExecution status errorCode now)
  /-- An APPROVAL enters its wait. -/
  | enterApproval {step : ExecutionStep} {policy : ApprovalPolicy}
      {outcome : Approval.ApprovalWaitOutcome} {db' : Db} (hs : step ∈ db.steps)
      (hpending : step.status = .pending) (htype : step.stepType = .approval)
      (hnone : Approval.findPendingForExecution db = none)
      (h : Approval.enterForApprovalStep env.computeCanonicalJsonHash policy env.approvalRequestId
        now step db = .ok (outcome, db')) :
    LocalStop env now db db'

/-- What a local transition leaves behind; a raised error rolls everything back. -/
inductive Local.Does (env : RuntimeEnv) (now : Time) (db : Db) : Local → Prop
  | error (e : Raised) : Does env now db (.error e)
  | go {changed : Bool} {db' : Db} (h : LocalSteps env db db') : Does env now db (.ok (.go changed db'))
  | stop {outcome : ProgressOutcome} {db₁ db' : Db} (h : LocalSteps env db db₁)
      (hstop : LocalStop env now db₁ db') : Does env now db (.ok (.stop outcome db'))

/-! ### Composition -/

variable {env : RuntimeEnv} {now : Time} {db db' : Db}

namespace Local.Does

/-- Nothing is written. -/
theorem same (env : RuntimeEnv) (now : Time) (db : Db) (changed : Bool) :
    Does env now db (.ok (.go changed db)) :=
  .go .refl

/-- One write. -/
theorem one (changed : Bool) (h : LocalStep env db db') : Does env now db (.ok (.go changed db')) :=
  .go (.single h)

theorem after {r : Local} (h : LocalSteps env db db') (hr : Does env now db' r) :
    Does env now db r := by
  cases hr with
  | error e => exact .error e
  | go hgo => exact .go (h.trans hgo)
  | stop hgo hstop => exact .stop (h.trans hgo) hstop

/-- The Execution stops after the writes so far. -/
theorem halt {result : ProgressOutcome × Db} (h : LocalSteps env db db')
    (hstop : LocalStop env now db' result.2) : Does env now db (.halt result) :=
  .stop h hstop

theorem andThen {first : Local} {next : Bool → Db → Local} (hfirst : Does env now db first)
    (hnext : ∀ changed db', LocalSteps env db db' → Does env now db' (next changed db')) :
    Does env now db (first.andThen next) := by
  cases hfirst with
  | error e => exact .error e
  | go hgo => exact (hnext _ _ hgo).after hgo
  | stop hgo hstop => exact .stop hgo hstop

/-- Keys visited in order; `P` holds before each of them. -/
theorem visitKeys {visit : String → Db → Local} {P : Db → Prop}
    (hP : ∀ {db db'}, LocalSteps env db db' → P db → P db')
    (hvisit : ∀ key db, P db → Does env now db (visit key db)) (keys : List String)
    (changed : Bool) (db : Db) (hdb : P db) :
    Does env now db (McpFlow.visitKeys visit keys changed db) := by
  induction keys generalizing changed db with
  | nil => exact same env now db changed
  | cons key keys ih =>
    have hkey := hvisit key db hdb
    unfold McpFlow.visitKeys
    split
    · exact .error _
    · next outcome db' heq =>
      rw [heq] at hkey
      exact hkey
    · next changed' db' heq =>
      rw [heq] at hkey
      cases hkey with
      | go hgo => exact (ih _ _ (hP hgo hdb)).after hgo

/-- Keys visited in order, without a condition on the rows. -/
theorem visitKeys' {visit : String → Db → Local}
    (hvisit : ∀ key db, Does env now db (visit key db)) (keys : List String) (changed : Bool)
    (db : Db) : Does env now db (McpFlow.visitKeys visit keys changed db) :=
  visitKeys (P := fun _ => True) (fun _ _ => trivial) (fun key db _ => hvisit key db) keys changed db
    trivial

end Local.Does

/-! ### Materialized rows -/

/-- The iteration of a child is at most the highest one. -/
theorem le_maxMaterializedIteration {steps : List ExecutionStep} {parentStepId : UUID}
    {s : ExecutionStep} {n : ℕ} (hs : s ∈ steps) (hparent : s.parentStepId = some parentStepId)
    (hn : s.iterationNo = some n) : n ≤ maxMaterializedIteration steps parentStepId := by
  unfold maxMaterializedIteration
  have hchild : s ∈ childrenOf steps parentStepId := List.mem_filter.mpr ⟨hs, by simpa using hparent⟩
  exact List.le_foldl_max (.inr (List.mem_filterMap.mpr ⟨s, hchild, hn⟩))

/-- A row of an iteration, as it is inserted. -/
structure BodyRow (loop : ExecutionStep) (iterationNo : ℕ) (s : ExecutionStep) : Prop where
  parentStepId : s.parentStepId = some loop.id
  iterationNo : s.iterationNo = some iterationNo
  status : s.status = .pending
  attemptCount : s.attemptCount = 0
  resolvedInput : s.resolvedInput = none

theorem Db.insertStep_ok {db db' : Db} {s : ExecutionStep} (h : db.insertStep s = .ok db') :
    ∃ steps, db.steps.insert? s = some steps ∧ db' = { db with steps := steps } := by
  unfold insertStep at h
  split at h
  · cases h
  cases hi : db.steps.insert? s with
  | none =>
    rw [hi] at h
    cases h
  | some steps =>
    rw [hi] at h
    cases h
    exact ⟨steps, rfl, rfl⟩

theorem bodyRow_of_newIterationStep? {loop s : ExecutionStep} {iterationNo : ℕ}
    {template : ExecutionPlanStep} (h : newIterationStep? env loop iterationNo template = some s) :
    BodyRow loop iterationNo s := by
  unfold newIterationStep? at h
  split at h
  · cases h
    exact ⟨rfl, rfl, rfl, rfl, rfl⟩
  · cases h

/-- One row of an iteration is appended. -/
theorem materializeBody_ok {loop : ExecutionStep} {iterationNo : ℕ} {bodyId : String}
    (h : materializeBody env loop iterationNo db bodyId = .ok db') :
    ∃ s steps, BodyRow loop iterationNo s ∧ db' = { db with steps := steps } ∧
      db.steps.insert? s = some steps := by
  unfold materializeBody at h
  split at h
  · cases h
  next row hrow =>
  obtain ⟨template, -, hnew⟩ := Option.bind_eq_some_iff.mp hrow
  obtain ⟨steps, hsteps, rfl⟩ := Db.insertStep_ok h
  exact ⟨row, steps, bodyRow_of_newIterationStep? hnew, rfl, hsteps⟩

/-- The rows of an iteration are appended, one for each body id. -/
theorem foldlM_materializeBody_ok {loop : ExecutionStep} {iterationNo : ℕ} {bodyIds : List String}
    (h : bodyIds.foldlM (materializeBody env loop iterationNo) db = .ok db') :
    ∃ rows steps, db' = { db with steps := steps } ∧ steps.rows = db.steps.rows ++ rows ∧
      rows.length = bodyIds.length ∧ ∀ s ∈ rows, BodyRow loop iterationNo s := by
  induction bodyIds generalizing db with
  | nil =>
    cases h
    exact ⟨[], db'.steps, rfl, (List.append_nil _).symm, rfl, fun s hs => by cases hs⟩
  | cons bodyId bodyIds ih =>
    rw [List.foldlM_cons] at h
    obtain ⟨db₁, hbody, hrest⟩ : ∃ db₁, materializeBody env loop iterationNo db bodyId = .ok db₁ ∧
        bodyIds.foldlM (materializeBody env loop iterationNo) db₁ = .ok db' := by
      cases hb : materializeBody env loop iterationNo db bodyId with
      | error e =>
        rw [hb] at h
        cases h
      | ok db₁ =>
        rw [hb] at h
        exact ⟨db₁, rfl, h⟩
    obtain ⟨s, steps, hs, rfl, hsteps⟩ := materializeBody_ok hbody
    obtain ⟨rows, steps', rfl, hrows, hlength, hall⟩ := ih hrest
    refine ⟨s :: rows, steps', rfl, ?_, by rw [List.length_cons, hlength, List.length_cons], ?_⟩
    · rw [hrows, (Table.insert?_eq_some_iff.mp hsteps).2, List.append_assoc, List.singleton_append]
    · intro t ht
      rcases List.mem_cons.mp ht with rfl | ht
      · exact hs
      · exact hall t ht

/-- An iteration that exists is left alone; a new one fits the limit of the plan. -/
theorem materializeIteration_ok {cfg : LoopStepConfigV1} {loop : ExecutionStep} {iterationNo : ℕ}
    (h : materializeIteration env cfg iterationNo loop db = .ok db') :
    db' = db ∨
      (childInstancesForIteration db.steps.rows loop.id iterationNo = [] ∧
        db.steps.rows.length + cfg.bodyStepIds.length ≤
          db.execution.planSnapshot.limits.maxSteps ∧
        cfg.bodyStepIds.foldlM (materializeBody env loop iterationNo) db = .ok db') := by
  unfold materializeIteration at h
  dsimp only at h
  split at h
  · cases h
  split at h
  · split at h
    · cases h
    · cases h
      exact .inl rfl
  next hfresh =>
  split at h
  · cases h
  next hlimit => exact .inr ⟨not_not.mp hfresh, Nat.le_of_not_lt hlimit, h⟩

/-! ### The rows that a chain of writes keeps -/

/-- A local write changes no row but Steps. -/
theorem LocalStep.frame (h : LocalStep env db db') :
    ∃ steps, db' = { db with steps := steps } := by
  cases h with
  | materialize _ _ _ _ _ _ _ _ _ _ h =>
    obtain ⟨rows, steps, rfl, -⟩ := foldlM_materializeBody_ok h
    exact ⟨steps, rfl⟩
  | advanceWhile _ _ _ _ _ _ _ _ _ _ _ _ _ _ _ hrows =>
    obtain ⟨rows, steps, rfl, -⟩ := foldlM_materializeBody_ok hrows
    exact ⟨steps, rfl⟩
  | _ => exact ⟨_, rfl⟩

theorem LocalSteps.frame (h : LocalSteps env db db') : ∃ steps, db' = { db with steps := steps } := by
  induction h with
  | refl => exact ⟨db.steps, rfl⟩
  | tail _ hstep ih =>
    obtain ⟨steps, rfl⟩ := ih
    obtain ⟨steps', rfl⟩ := hstep.frame
    exact ⟨steps', rfl⟩

theorem LocalSteps.execution (h : LocalSteps env db db') : db'.execution = db.execution := by
  obtain ⟨steps, rfl⟩ := h.frame
  rfl

theorem LocalSteps.approvals (h : LocalSteps env db db') : db'.approvals = db.approvals := by
  obtain ⟨steps, rfl⟩ := h.frame
  rfl

/-! ### Pruning -/

theorem mem_of_rowByKey {steps : List ExecutionStep} {key : String} {s : ExecutionStep}
    (h : rowByKey steps key = some s) : s ∈ steps :=
  List.mem_of_find?_eq_some h

/-- A PENDING Step that is ended. -/
theorem LocalClose.of_pending {s s' : ExecutionStep} (hpending : s.status = .pending)
    (same : SameStep s s') (attemptCount : s'.attemptCount = s.attemptCount)
    (terminal : s'.status.isTerminal = true) (known : s'.status ≠ .unknownOutcome) :
    LocalClose s s' :=
  ⟨same, attemptCount, terminal, known, .inl hpending⟩

theorem LocalClose.whenFalse {s : ExecutionStep} (hpending : s.status = .pending) (now : Time) :
    LocalClose s (s.applyWhenFalse now) :=
  .of_pending hpending rfl rfl rfl (by simp [ExecutionStep.applyWhenFalse])

theorem LocalClose.failed {s : ExecutionStep} (hpending : s.status = .pending) (errorCode : String)
    (now : Time) : LocalClose s (s.failLoop .failed errorCode now) :=
  .of_pending hpending rfl rfl rfl (by simp [ExecutionStep.failLoop])

theorem failClosedLineage_stop (errorCode : String) (now : Time) (db : Db) :
    LocalStop env now db (failClosedLineage errorCode now db).2 :=
  .stop .failed _ (.inl rfl)

theorem failFast_stop (step : ExecutionStep) (now : Time) (db : Db) :
    LocalStop env now db (failFast step now db).2 := by
  refine .stop _ _ ?_
  unfold failFastExecutionStatus
  split
  · exact .inr rfl
  · exact .inl rfl

theorem failClosedPredicate_stop {step : ExecutionStep} (h : step.status ≠ .pending)
    (errorCode : String) (now : Time) (db : Db) :
    LocalStop env now db (failClosedPredicate step errorCode now db).2 := by
  simp only [failClosedPredicate, if_neg h]
  exact .stop .failed _ (.inl rfl)

/-- A failed predicate ends its PENDING Step with the Execution. -/
theorem failClosedPredicate_does {step : ExecutionStep} (hs : step ∈ db.steps) (errorCode : String)
    (now : Time) : Local.Does env now db (.halt (failClosedPredicate step errorCode now db)) := by
  by_cases hpending : step.status = .pending
  · simp only [failClosedPredicate, if_pos hpending]
    exact .halt (.single (.close hs (.failed hpending errorCode now))) (.stop .failed _ (.inl rfl))
  · exact .halt .refl (failClosedPredicate_stop hpending ..)

variable (env) in
theorem pruneStep_does (dag : ToolJoinDag) (key : String) (db : Db) :
    Local.Does env now db (pruneStep dag now key db) := by
  unfold pruneStep
  split
  · exact .same env now db false
  next step hrow =>
  split
  · next hprune =>
    refine .one true (.close (mem_of_rowByKey hrow) (.of_pending hprune.1 rfl rfl rfl ?_))
    simp [ExecutionStep.pruneConditionally]
  · exact .same env now db false

/-- The plan step of a row is its snapshot. -/
theorem eq_stepSnapshot_of_runtimePlanStep {plan : ExecutionPlanV1} {s : ExecutionStep}
    {planStep : ExecutionPlanStep} (h : runtimePlanStep plan s = .ok planStep) :
    planStep = s.stepSnapshot := by
  unfold runtimePlanStep at h
  split at h
  · cases h
  obtain ⟨u, heq, h⟩ := Except.bind_eq_ok_iff.mp h
  cases h
  exact beq_iff_eq.mp (assertThat_eq_ok_iff.mp heq)

/-! ### The end of a LOOP -/

/-- A RUNNING LOOP ends. -/
theorem LocalClose.of_runsLoop {s loop s' : ExecutionStep} (h : RunsLoop s loop)
    (hopen : s.status = .pending ∨ s.status = .running) (same : SameStep loop s')
    (attemptCount : s'.attemptCount = loop.attemptCount) (terminal : s'.status.isTerminal = true)
    (known : s'.status ≠ .unknownOutcome) : LocalClose s s' where
  same := h.same.trans same
  attemptCount := attemptCount.trans h.attemptCount
  terminal := terminal
  known := known
  opened := hopen.elim .inl fun hrunning => .inr (.inl ⟨h.stepType, hrunning⟩)

theorem LocalClose.failLoop {s loop : ExecutionStep} (h : RunsLoop s loop)
    (hopen : s.status = .pending ∨ s.status = .running) {status : StepStatus}
    (hstatus : status = .failed ∨ status = .timedOut) (errorCode : String) (now : Time) :
    LocalClose s (loop.failLoop status errorCode now) := by
  refine .of_runsLoop h hopen rfl rfl ?_ ?_ <;> rcases hstatus with rfl | rfl <;>
    simp [ExecutionStep.failLoop, StepStatus.isTerminal]

/-- An untouched child of a stopped LOOP is closed, or stays closed. -/
theorem stopChild?_cases {child stopped : ExecutionStep} {now : Time}
    (h : child.stopChild? now = some stopped) : stopped = child ∨ LocalClose child stopped := by
  unfold ExecutionStep.stopChild? at h
  split at h
  · cases h
    exact .inl rfl
  split at h
  · next hpending =>
    cases h
    exact .inr (.of_pending hpending rfl rfl rfl (by simp [ExecutionStep.failLoop]))
  split at h
  · next hunused =>
    cases h
    exact .inr ⟨rfl, rfl, rfl, by simp [ExecutionStep.failLoop], .inr (.inr (.inl hunused))⟩
  · cases h

/-- A write over the row of `id` hides the difference of the two states. -/
def Overwrites (db db' : Db) (id : UUID) : Prop :=
  ∀ s : ExecutionStep, s.id = id → db'.putStep s = db.putStep s

theorem Overwrites.refl (db : Db) (id : UUID) : Overwrites db db id := fun _ _ => rfl

theorem Overwrites.putStep {id : UUID} (h : Overwrites db db' id) {r : ExecutionStep}
    (hr : r.id = id) : Overwrites db (db'.putStep r) id := by
  intro s hs
  rw [← h s hs]
  exact congrArg (fun steps => { db' with steps := steps }) (Table.put_put (hr.trans hs.symm))

/-- The untouched children are closed one after another. -/
theorem stopChildren_steps (children : List ExecutionStep) (db : Db)
    (hmem : ∀ child ∈ children, child ∈ db.steps) (hnodup : (children.map (·.id)).Nodup) :
    LocalSteps env db (stopLoopOwnedUntouchedChildren now children db).2 := by
  induction children generalizing db with
  | nil => exact .refl
  | cons child children ih =>
    unfold stopLoopOwnedUntouchedChildren
    obtain ⟨hnot, hrest⟩ := List.nodup_cons.mp hnodup
    have hchild := hmem child List.mem_cons_self
    split
    · next stopped hstop =>
      rcases stopChild?_cases hstop with rfl | hclose
      · have hsame : db.putStep stopped = db :=
          congrArg (fun steps => { db with steps := steps }) (Table.put_of_mem hchild)
        rw [hsame]
        exact ih db (fun c hc => hmem c (List.mem_cons_of_mem _ hc)) hrest
      · refine .head (.close hchild hclose) (ih _ (fun c hc => ?_) hrest)
        refine Table.mem_put_of_ne (hmem c (List.mem_cons_of_mem _ hc)) fun hid => hnot ?_
        have hsame : child.id = c.id := hclose.same.id.symm.trans hid.symm
        exact List.mem_map.mpr ⟨c, hc, hsame.symm⟩
    · exact .refl

/-- The policy of an ended LOOP: its children are closed, then the Execution goes on or stops. -/
theorem applyLoopErrorPolicy_does (planStep : ExecutionPlanStep) (loop : ExecutionStep)
    (now : Time) (db : Db) :
    Local.Does env now db (applyLoopErrorPolicy planStep loop now db) := by
  have hchildren : LocalSteps env db
      (stopLoopOwnedUntouchedChildren now (childrenOf db.steps.rows loop.id) db).2 := by
    refine stopChildren_steps _ db (fun c hc => (List.mem_filter.mp hc).1) ?_
    exact db.steps.nodup_keys.sublist (List.filter_sublist.map _)
  unfold applyLoopErrorPolicy
  split
  · next heq =>
    rw [heq] at hchildren
    exact .halt hchildren (failClosedLineage_stop ..)
  · next heq =>
    rw [heq] at hchildren
    split
    · exact .halt hchildren (failFast_stop ..)
    · exact .go hchildren

variable (env) in
/-- A LOOP that starts or runs ends by a known failure. -/
theorem endLoopKnown_does {planStep : ExecutionPlanStep} {s loop : ExecutionStep}
    {status : StepStatus} {errorCode : String} (hs : s ∈ db.steps) (h : RunsLoop s loop)
    (hopen : s.status = .pending ∨ s.status = .running)
    (hstatus : status = .failed ∨ status = .timedOut) (hdb : Overwrites db db' s.id) :
    Local.Does env now db (endLoopKnown planStep loop status errorCode now db') := by
  unfold endLoopKnown
  dsimp only
  rw [hdb (loop.failLoop status errorCode now) h.same.id]
  exact (applyLoopErrorPolicy_does ..).after (.single (.close hs (.failLoop h hopen hstatus ..)))

/-- An integrity error ends a RUNNING LOOP with the Execution. -/
theorem failLoopClosed_does {s loop : ExecutionStep} (hs : s ∈ db.steps) (h : RunsLoop s loop)
    (hrunning : s.status = .running) (e : AppError) (now : Time) :
    Local.Does env now db (.halt (failLoopClosed loop e now db)) := by
  have hclose : LocalSteps env db (db.putStep (loop.failLoop .failed e.code now)) :=
    .single (.close hs (.failLoop h (.inr hrunning) (.inl rfl) ..))
  unfold failLoopClosed
  rw [if_pos h.status]
  split
  · exact .halt hclose (failClosedPredicate_stop (by simp [ExecutionStep.failLoop]) ..)
  · exact .halt hclose (failClosedLineage_stop ..)

/-! ### WHILE LOOPs -/

/-- Rows rewritten in place keep what their creation fixed. -/
theorem childrenOf_rewrites {steps steps' : Table ExecutionStep.id}
    (h : Table.Rewrites SameStep steps steps') (parentStepId : UUID) {β : Type}
    (f : ExecutionStep → β) (hf : ∀ {s s'}, SameStep s s' → f s' = f s) :
    (childrenOf steps'.rows parentStepId).map f = (childrenOf steps.rows parentStepId).map f := by
  obtain ⟨g, hrows, hsame⟩ := h
  unfold childrenOf
  have hfilter : steps.rows.filter ((fun s => decide (s.parentStepId = some parentStepId)) ∘ g) =
      steps.rows.filter fun s => decide (s.parentStepId = some parentStepId) :=
    List.filter_congr fun s hs =>
      congrArg (fun p => decide (p = some parentStepId)) (hsame s hs).parentStepId
  rw [hrows, List.filter_map, List.map_map, hfilter]
  exact List.map_congr_left fun s hs => hf (hsame s (List.mem_filter.mp hs).1)

theorem maxMaterializedIteration_rewrites {steps steps' : Table ExecutionStep.id}
    (h : Table.Rewrites SameStep steps steps') (parentStepId : UUID) :
    maxMaterializedIteration steps'.rows parentStepId =
      maxMaterializedIteration steps.rows parentStepId := by
  have hmap := congrArg (List.filterMap fun n => n) (childrenOf_rewrites h parentStepId
    (·.iterationNo) SameStep.iterationNo)
  simp only [List.filterMap_map, Function.comp_def] at hmap
  exact congrArg (List.foldl max 0) hmap

/-- A row written over its own state. -/
theorem rewrites_putStep {s s' : ExecutionStep} (hs : s ∈ db.steps) (h : SameStep s s') :
    Table.Rewrites SameStep db.steps (db.putStep s').steps :=
  .of_put SameStep.refl hs h.id h

/-- The gate of a LOOP is the value of its predicate, and renews its history. -/
theorem evaluateWhileGate_ok {cfg : LoopStepConfigV1} {candidate : ℕ} {loop gated : ExecutionStep}
    {gate : Bool} (h : evaluateWhileGate env cfg candidate loop db = .ok (gate, gated)) :
    ∃ predicate history, cfg.predicate = some predicate ∧
      env.evaluate predicate loop db = .ok gate ∧
      gated = { loop with resolvedInput := some (.while history) } := by
  unfold evaluateWhileGate at h
  split at h
  · cases h
  next predicate hpredicate =>
  dsimp only at h
  split at h
  · cases h
  split at h
  · cases h
  next result hresult =>
  split at h
  · cases h
  next updated happend =>
  cases h
  refine ⟨predicate, ?_⟩
  unfold appendOrReplayWhileHistory at happend
  obtain ⟨history, -, happend⟩ := Except.bind_eq_ok_iff.mp happend
  dsimp only at happend
  split at happend <;>
  · obtain ⟨-, -, happend⟩ := Except.bind_eq_ok_iff.mp happend
    obtain ⟨entries, -, happend⟩ := Except.bind_eq_ok_iff.mp happend
    obtain ⟨parsed, -, happend⟩ := Except.bind_eq_ok_iff.mp happend
    cases happend
    exact ⟨parsed, hpredicate, hresult, rfl⟩

/-- The next gate of a RUNNING WHILE LOOP and what follows from it. -/
theorem advanceWhile_does {planStep : ExecutionPlanStep} {cfg : LoopStepConfigV1} {candidate : ℕ}
    {s loop : ExecutionStep} (hs : s ∈ db.steps) (hrunning : s.status = .running)
    (hparent : s.parentStepId = none) (h : RunsLoop s loop)
    (hconfig : s.stepSnapshot.config = .loop cfg) (hmode : cfg.mode = .while)
    (hnext : candidate = 1 ∨ candidate = maxMaterializedIteration db.steps.rows s.id + 1) :
    Local.Does env now db (advanceWhile env planStep cfg candidate loop now db) := by
  unfold advanceWhile
  split
  · exact failLoopClosed_does hs h hrunning _ now
  · exact .error _
  next gate gated hgate =>
  obtain ⟨predicate, history, hpredicate, hvalue, rfl⟩ := evaluateWhileGate_ok hgate
  have hgated : RunsLoop s { loop with resolvedInput := some (.while history) } :=
    ⟨h.same, h.attemptCount, h.stepType, h.status⟩
  have hstep : LocalSteps env db (db.putStep { loop with resolvedInput := some (.while history) }) :=
    .single (.whileGate hs hrunning hparent hgated hconfig hmode rfl)
  have hself : RunsLoop { loop with resolvedInput := some (.while history) }
      { loop with resolvedInput := some (.while history) } :=
    ⟨.refl _, rfl, h.same.stepType.trans h.stepType, h.status⟩
  have hmem : { loop with resolvedInput := some (.while history) } ∈
      (db.putStep { loop with resolvedInput := some (.while history) }).steps :=
    Table.mem_put_self hs h.same.id.symm
  dsimp only
  split
  · refine .go (hstep.tail (.close hmem (.of_runsLoop hself (.inr h.status) rfl rfl rfl ?_)))
    simp [ExecutionStep.succeedWhileLoop]
  next htrue =>
  split
  · exact (endLoopKnown_does _ hmem hself (.inr h.status) (.inl rfl) (.refl _ _)).after hstep
  next hmax =>
  split
  · exact (failLoopClosed_does hmem hself h.status _ now).after hstep
  next hadmitted =>
  split
  · exact (failLoopClosed_does hmem hself h.status _ now).after hstep
  · exact .error _
  next db' hmaterialize =>
  rcases materializeIteration_ok hmaterialize with rfl | ⟨hfresh, hlimit, hrows⟩
  · exact .go hstep
  · have hgate : gate = true := by simpa using htrue
    exact .one true (.advanceWhile hs hrunning hparent hgated hconfig hmode rfl hpredicate h.same
      (hgate ▸ hvalue) hnext (Nat.le_of_not_lt hmax) hadmitted hfresh hlimit hrows)

/-! ### FOR_EACH LOOPs -/

/-- A FOR_EACH start that fails ends the LOOP. -/
theorem forEachStartFailed_does {planStep : ExecutionPlanStep} {s loop : ExecutionStep}
    (hs : s ∈ db.steps) (h : RunsLoop s loop) (hpending : s.status = .pending) (e : AppError)
    (hdb : Overwrites db db' s.id) :
    Local.Does env now db (forEachStartFailed planStep loop e now db') := by
  unfold forEachStartFailed
  split
  · exact endLoopKnown_does _ hs h (.inl hpending) (.inl rfl) hdb
  · rw [hdb (loop.failLoop .failed e.code now) h.same.id]
    exact .halt (.single (.close hs (.failLoop h (.inl hpending) (.inl rfl) ..)))
      (failClosedLineage_stop ..)

/-- The start of a FOR_EACH LOOP, over the row that already runs. -/
theorem startForEach_does {planStep : ExecutionPlanStep} {cfg : LoopStepConfigV1}
    {s loop : ExecutionStep} (hs : s ∈ db.steps) (h : RunsLoop s loop)
    (hpending : s.status = .pending) (hparent : s.parentStepId = none)
    (hconfig : s.stepSnapshot.config = .loop cfg) (hmode : cfg.mode = .forEach) :
    Local.Does env now db (startForEach env planStep cfg loop now (db.putStep loop)) := by
  have hrun : Overwrites db (db.putStep loop) s.id := (Overwrites.refl db s.id).putStep h.same.id
  unfold startForEach
  split
  · exact forEachStartFailed_does hs h hpending _ hrun
  next collection _ =>
  dsimp only
  have hpinned : RunsLoop s (loop.pinCollection collection) :=
    ⟨h.same, h.attemptCount, h.stepType, h.status⟩
  have hpin : Overwrites db ((db.putStep loop).putStep (loop.pinCollection collection)) s.id :=
    hrun.putStep hpinned.same.id
  split
  · exact endLoopKnown_does _ hs hpinned (.inl hpending) (.inl rfl) hpin
  split
  · exact forEachStartFailed_does hs hpinned hpending _ hpin
  next hadmitted =>
  split
  · rw [hpin ((loop.pinCollection collection).succeedLoop 0 0 now) hpinned.same.id]
    refine .one true (.close hs (.of_runsLoop hpinned (.inl hpending) rfl rfl rfl ?_))
    simp [ExecutionStep.succeedLoop]
  next hsize =>
  rw [hrun (loop.pinCollection collection) hpinned.same.id] at hadmitted ⊢
  have hstart : LocalSteps env db (db.putStep (loop.pinCollection collection)) :=
    .single (.startForEach hs hpending hparent hpinned hconfig hmode rfl hsize hadmitted)
  split
  · exact .error _
  next db' hmaterialize =>
  rcases materializeIteration_ok hmaterialize with rfl | ⟨hfresh, hlimit, hrows⟩
  · exact .go hstart
  · exact .go (hstart.tail (.materialize (Table.mem_put_self hs hpinned.same.id.symm)
      (h.same.stepType.trans h.stepType) h.status (h.same.parentStepId.trans hparent)
      (h.same.stepSnapshot ▸ hconfig) hmode (.inl rfl) (.inl rfl) hfresh hlimit hrows))

/-- The start of a LOOP. -/
theorem startLoop_does {planStep : ExecutionPlanStep} {cfg : LoopStepConfigV1} {s : ExecutionStep}
    (hs : s ∈ db.steps) (htype : s.stepType = .loop) (hpending : s.status = .pending)
    (hparent : s.parentStepId = none) (hconfig : s.stepSnapshot.config = .loop cfg) :
    Local.Does env now db (startLoop env planStep cfg s now db) := by
  unfold startLoop
  dsimp only
  split
  · next hmode =>
    exact startForEach_does hs ⟨rfl, rfl, htype, rfl⟩ hpending hparent hconfig hmode
  next hmode =>
  have hpinned : RunsLoop s (ExecutionStep.pinWhileControl
      { s with
        status := .running
        readyAt := some now
        startedAt := s.startedAt.or (some now) }) := ⟨rfl, rfl, htype, rfl⟩
  have hstart : LocalStep env db (db.putStep _) :=
    .startWhile hs hpending hparent hpinned hconfig hmode rfl
  have hself : RunsLoop _ _ := ⟨.refl _, rfl, hpinned.same.stepType.trans htype, hpinned.status⟩
  have hmem := Table.mem_put_self hs hpinned.same.id.symm
  split
  · exact (endLoopKnown_does _ hmem hself (.inr hpinned.status) (.inr rfl) (.refl _ _)).after
      (.single hstart)
  · exact (advanceWhile_does hmem hpinned.status hparent hself hconfig hmode (.inl rfl)).after
      (.single hstart)

/-- A RUNNING FOR_EACH LOOP. -/
theorem advanceForEach_does {cfg : LoopStepConfigV1} {s : ExecutionStep} (hs : s ∈ db.steps)
    (htype : s.stepType = .loop) (hrunning : s.status = .running) (hparent : s.parentStepId = none)
    (hconfig : s.stepSnapshot.config = .loop cfg) (hmode : cfg.mode = .forEach) :
    Local.Does env now db (advanceForEach env cfg s now db) := by
  have hself : RunsLoop s s := ⟨.refl s, rfl, htype, hrunning⟩
  unfold advanceForEach
  dsimp only
  split
  · exact .halt (.single (.close hs (.failLoop hself (.inr hrunning) (.inl rfl) ..)))
      (failClosedLineage_stop ..)
  next collectionSize hstable =>
  obtain ⟨collection, -, hstable⟩ := Except.bind_eq_ok_iff.mp hstable
  obtain ⟨u, hpin, hsize⟩ := Except.bind_eq_ok_iff.mp hstable
  have hparse : parseForeachCollectionPin s.resolvedInput = .ok collection := by
    unfold assertCollectionPinStable at hpin
    obtain ⟨pinned, hparse, hpin⟩ := Except.bind_eq_ok_iff.mp hpin
    split at hpin
    · next heq => exact heq ▸ hparse
    · cases hpin
  have hsize : collection.2 = collectionSize := Except.ok.inj hsize
  have hmaterialize {n : ℕ} {result : Local}
      (herror : ∀ e, materializeIteration env cfg n s db = .error e → result = .error e)
      (hok : ∀ db', materializeIteration env cfg n s db = .ok db' → result = .ok (.go true db'))
      (hnext : n = 1 ∨ n = maxMaterializedIteration db.steps.rows s.id + 1)
      (hbound : n = 1 ∨ n ≤ collection.2) : Local.Does env now db
        result := by
    cases hrows : materializeIteration env cfg n s db with
    | error e => exact herror e hrows ▸ .error _
    | ok db' =>
    rw [hok db' hrows]
    rcases materializeIteration_ok hrows with rfl | ⟨hfresh, hlimit, hrows⟩
    · exact .same ..
    · exact .one true (.materialize hs htype hrunning hparent hconfig hmode hnext
        (hbound.imp_right fun h => ⟨collection, hparse, h⟩) hfresh hlimit hrows)
  split
  · refine hmaterialize ?_ ?_ (.inl rfl) (.inl rfl) <;> (intro x hx; rw [hx])
  split
  · exact .same ..
  split
  · next hlt =>
    refine hmaterialize ?_ ?_ (.inr rfl) (.inr (by omega)) <;> (intro x hx; rw [hx])
  · refine .one true (.close hs (.of_runsLoop hself (.inr hrunning) rfl rfl rfl ?_))
    simp [ExecutionStep.succeedLoop]

/-- A RUNNING LOOP. -/
theorem advanceLoop_does {planStep : ExecutionPlanStep} {cfg : LoopStepConfigV1} {s : ExecutionStep}
    (hs : s ∈ db.steps) (htype : s.stepType = .loop) (hrunning : s.status = .running)
    (hparent : s.parentStepId = none) (hconfig : s.stepSnapshot.config = .loop cfg) :
    Local.Does env now db (advanceLoop env planStep cfg s now db) := by
  have hself : RunsLoop s s := ⟨.refl s, rfl, htype, hrunning⟩
  unfold advanceLoop
  split
  · exact endLoopKnown_does _ hs hself (.inr hrunning) (.inr rfl) (.refl _ _)
  split
  · next hmode => exact advanceForEach_does hs htype hrunning hparent hconfig hmode
  next hmode =>
  dsimp only
  split
  · refine advanceWhile_does hs hrunning hparent ?_ hconfig hmode (.inl rfl)
    split
    · exact ⟨rfl, rfl, htype, hrunning⟩
    · exact hself
  split
  · exact .same ..
  · exact advanceWhile_does hs hrunning hparent hself hconfig hmode (.inr rfl)

/-- The plan step of a LOOP row is its snapshot. -/
theorem loopConfig_ok {plan : ExecutionPlanV1} {s : ExecutionStep} {planStep : ExecutionPlanStep}
    {cfg : LoopStepConfigV1} (h : loopConfig plan s = .ok (planStep, cfg)) :
    s.stepSnapshot.config = .loop cfg := by
  unfold loopConfig at h
  obtain ⟨expected, hexpected, h⟩ := Except.bind_eq_ok_iff.mp h
  split at h
  · next cfg' hcfg =>
    cases h
    rwa [eq_stepSnapshot_of_runtimePlanStep hexpected] at hcfg
  · cases h

/-- One visit of a LOOP. -/
theorem visitLoop_does (dag : ToolJoinDag) (key : String) (db : Db) :
    Local.Does env now db (visitLoop env dag now key db) := by
  unfold visitLoop
  split
  · exact .same ..
  next s hrow =>
  have hs : s ∈ db.steps := mem_of_rowByKey hrow
  split
  · exact .same ..
  next htype =>
  have htype : s.stepType = .loop := not_not.mp htype
  split
  · exact .halt .refl (failClosedLineage_stop ..)
  next hparent =>
  have hparent : s.parentStepId = none := not_not.mp hparent
  split
  · next hpending =>
    split
    · exact .same ..
    split
    · exact .halt .refl (failClosedLineage_stop ..)
    next planStep cfg hcfg =>
    split
    · exact failClosedPredicate_does hs _ now
    · exact .error _
    · exact .one true (.close hs (.whenFalse hpending now))
    · exact startLoop_does hs htype hpending hparent (loopConfig_ok hcfg)
  split
  · next hrunning =>
    split
    · exact .halt .refl (failClosedLineage_stop ..)
    next planStep cfg hcfg =>
    exact advanceLoop_does hs htype hrunning hparent (loopConfig_ok hcfg)
  · exact .same ..

/-! ### CONDITIONs, APPROVALs, gates and JOINs -/

/-- An eligible CONDITION is PENDING. -/
theorem pending_of_conditionEligible {dag : ToolJoinDag} {steps : List ExecutionStep}
    {s : ExecutionStep} (h : conditionStructurallyEligible dag steps s = true) :
    s.status = .pending := by
  simp only [conditionStructurallyEligible, Bool.and_eq_true, beq_iff_eq] at h
  exact h.1.1.1

theorem visitCondition_does (dag : ToolJoinDag) (key : String) (db : Db) :
    Local.Does env now db (visitCondition env dag now key db) := by
  unfold visitCondition
  split
  · exact .same ..
  next s hrow =>
  have hs : s ∈ db.steps := mem_of_rowByKey hrow
  split
  · exact .same ..
  next heligible =>
  have hpending := pending_of_conditionEligible (by simpa using heligible)
  split
  · exact .halt .refl (failClosedLineage_stop ..)
  split
  · exact failClosedPredicate_does hs _ now
  · exact .error _
  · exact .one true (.close hs (.whenFalse hpending now))
  dsimp only
  split
  · exact failClosedPredicate_does hs _ now
  · refine .one true (.close hs (.of_pending hpending rfl rfl rfl ?_))
    simp [ExecutionStep.succeedCondition]

/-- A READY APPROVAL is completed, or fails with its Execution. -/
theorem completeApproval_does (key : String) (db : Db) :
    Local.Does env now db (completeApproval env now key db) := by
  unfold completeApproval
  split
  · exact .same ..
  next s hrow =>
  have hs : s ∈ db.steps := mem_of_rowByKey hrow
  split
  · exact .same ..
  next hready =>
  simp only [not_or, ne_eq, not_not] at hready
  have hopen : s.LocallyOpen := .inr (.inr (.inr hready))
  split
  · exact .halt .refl (failClosedLineage_stop ..)
  split
  · exact .halt .refl (failClosedLineage_stop ..)
  split
  · have hclose : LocalClose s (s.failLoop .failed approvalResumePreconditionFailed now) :=
      ⟨rfl, rfl, rfl, by simp [ExecutionStep.failLoop], hopen⟩
    exact .halt (.single (.close hs hclose)) (failFast_stop ..)
  · refine .one true (.close hs ⟨rfl, rfl, rfl, ?_, hopen⟩)
    simp [ExecutionStep.succeedApproval]

/-- The gate of a Step whose `when` is true, when it has one. -/
theorem gate_steps (env : RuntimeEnv) {s : ExecutionStep} (hs : s ∈ db.steps) (hpending : s.status = .pending)
    (htype : s.stepType = .tool ∨ s.stepType = .approval) (c : Prop) [Decidable c] :
    LocalSteps env db (db.putStep (if c then s else { s with conditionResult := some true })) := by
  split
  · have hsame : db.putStep s = db :=
      congrArg (fun steps => { db with steps := steps }) (Table.put_of_mem hs)
    rw [hsame]
  · exact .single (.gate hs hpending htype)

/-- The next APPROVAL enters its wait while no request is PENDING. -/
theorem enterApproval_does (dag : ToolJoinDag) (key : String) (db : Db)
    (hnone : Approval.findPendingForExecution db = none) :
    Local.Does env now db (enterApproval env dag now key db) := by
  unfold enterApproval
  split
  · exact .same ..
  next s hrow =>
  have hs : s ∈ db.steps := mem_of_rowByKey hrow
  split
  · exact .same ..
  next heligible =>
  have heligible : approvalStructurallyEligible dag db.steps.rows s = true := by
    simpa using heligible
  simp only [approvalStructurallyEligible, Bool.and_eq_true, beq_iff_eq] at heligible
  obtain ⟨⟨hpending, htype⟩, -⟩ := heligible
  split
  · exact .error _
  next planStep _ =>
  split
  · exact .halt .refl (failClosedLineage_stop ..)
  split
  · exact failClosedPredicate_does hs _ now
  · exact .error _
  · exact .one true (.close hs (.whenFalse hpending now))
  dsimp only
  have hgate := gate_steps env hs hpending (.inr htype) (planStep.when = none)
  split
  · split
    · exact .halt hgate (failClosedLineage_stop ..)
    split
    · exact .error _
    next outcome db' henter =>
    refine .stop hgate (.enterApproval (Table.mem_put_self hs ?_) ?_ ?_ ?_ henter)
    · split <;> rfl
    · split <;> exact hpending
    · split <;> exact htype
    · exact hnone
  · exact .halt hgate (failClosedLineage_stop ..)

theorem reconcileApprovals_does (dag : ToolJoinDag) (db : Db) :
    Local.Does env now db (reconcileApprovals env dag now db) := by
  have hcomplete : Local.Does env now db
      (visitKeys (completeApproval env now) dag.orderedStepKeys false db) :=
    .visitKeys' completeApproval_does dag.orderedStepKeys false db
  unfold reconcileApprovals
  split
  · next changed db' heq =>
    rw [heq] at hcomplete
    have hgo : LocalSteps env db db' := by
      cases hcomplete with
      | go hgo => exact hgo
    split
    · exact .go hgo
    next hnone =>
    refine (Local.Does.visitKeys (P := fun db => Approval.findPendingForExecution db = none) ?_
      (enterApproval_does dag) _ _ _ (by simpa using hnone)).after hgo
    intro db db' hsteps hnone
    obtain ⟨steps, rfl⟩ := hsteps.frame
    exact hnone
  · exact hcomplete

theorem visitToolGate_does (dag : ToolJoinDag) (key : String) (db : Db) :
    Local.Does env now db (visitToolGate env dag now key db) := by
  unfold visitToolGate
  split
  · exact .same ..
  next s hrow =>
  have hs : s ∈ db.steps := mem_of_rowByKey hrow
  split
  · exact .same ..
  next heligible =>
  have heligible : toolStructurallyEligible dag db.steps.rows s = true := by
    simpa using heligible
  simp only [toolStructurallyEligible, Bool.and_eq_true, beq_iff_eq] at heligible
  obtain ⟨⟨⟨hpending, htype⟩, -⟩, -⟩ := heligible
  split
  · exact .halt .refl (failClosedLineage_stop ..)
  split
  · exact .same ..
  split
  · exact failClosedPredicate_does hs _ now
  · exact .error _
  · exact .one true (.close hs (.whenFalse hpending now))
  · exact .one false (.gate hs hpending (.inl htype))

theorem visitJoin_does (dag : ToolJoinDag) (key : String) (db : Db) :
    Local.Does env now db (visitJoin env dag now key db) := by
  unfold visitJoin
  split
  · exact .same ..
  next s hrow =>
  have hs : s ∈ db.steps := mem_of_rowByKey hrow
  split
  · exact .same ..
  next heligible =>
  have heligible : joinBarrierReady dag db.steps.rows s = true := by simpa using heligible
  simp only [joinBarrierReady, Bool.and_eq_true, beq_iff_eq] at heligible
  have hpending : s.status = .pending := heligible.1.1.1.1
  split
  · exact .halt .refl (failClosedLineage_stop ..)
  next planStep _ =>
  split
  · exact failClosedPredicate_does hs _ now
  · exact .error _
  · exact .one true (.close hs (.whenFalse hpending now))
  split
  · dsimp only
    generalize hgated : (if planStep.when = none then s
      else ({ s with conditionResult := some true } : ExecutionStep)) = gated
    have hsame : SameStep s gated ∧ gated.attemptCount = s.attemptCount := by
      rw [← hgated]
      split <;> exact ⟨rfl, rfl⟩
    have hclose (succeeded : Bool) : LocalSteps env db (db.putStep (gated.closeJoin succeeded now)) := by
      refine .single (.close hs (.of_pending hpending hsame.1 hsame.2 ?_ ?_))
      · cases succeeded <;> rfl
      · cases succeeded <;> simp [ExecutionStep.closeJoin]
    split
    · exact .go (hclose _)
    · exact .halt (hclose _) (failFast_stop ..)
  · exact .error _

/-! ### Passes -/

theorem passAfterLoops_does (dag : ToolJoinDag) (changed : Bool) (db : Db) :
    Local.Does env now db (passAfterLoops env dag now changed db) :=
  .andThen (.visitKeys' (visitCondition_does dag) _ _ _) fun _ _ _ =>
    .andThen (reconcileApprovals_does dag _) fun _ _ _ =>
      .andThen (.visitKeys' (visitToolGate_does dag) _ _ _) fun _ _ _ =>
        .visitKeys' (visitJoin_does dag) _ _ _

theorem localPasses_does (passes : ℕ) (dag : ToolJoinDag) (db : Db) :
    Local.Does env now db (localPasses env now passes dag db) := by
  induction passes generalizing dag db with
  | zero => exact .same ..
  | succ passes ih =>
    unfold localPasses
    refine .andThen (.visitKeys' (pruneStep_does _ dag) _ _ _) fun _ db _ => ?_
    refine .andThen (.visitKeys' (visitLoop_does dag) _ _ _) fun loopsChanged db _ => ?_
    unfold refreshDag
    split
    · next result hrefresh =>
      split at hrefresh
      · split at hrefresh
        · cases hrefresh
          exact .halt .refl (failClosedLineage_stop ..)
        · cases hrefresh
      · cases hrefresh
    · refine .andThen (passAfterLoops_does _ _ _) fun changed db _ => ?_
      split
      · exact ih _ _
      · exact .same ..

/-- Every local reconcile is a chain of local steps, closed by at most one stop. -/
theorem localReconcile_does (env : RuntimeEnv) (dag : ToolJoinDag) (now : Time) (db : Db) :
    Local.Does env now db (localReconcile env dag now db) :=
  localPasses_does _ dag db

/-- A reconcile that goes on has only local steps. -/
theorem localSteps_of_localReconcile {dag : ToolJoinDag} {changed : Bool}
    (h : localReconcile env dag now db = .ok (.go changed db')) : LocalSteps env db db' := by
  have hdoes := localReconcile_does env dag now db
  rw [h] at hdoes
  cases hdoes with
  | go hgo => exact hgo

/-- A reconcile that stops has one stop after its local steps. -/
theorem localStop_of_localReconcile {dag : ToolJoinDag} {outcome : ProgressOutcome}
    (h : localReconcile env dag now db = .ok (.stop outcome db')) :
    ∃ db₁, LocalSteps env db db₁ ∧ LocalStop env now db₁ db' := by
  have hdoes := localReconcile_does env dag now db
  rw [h] at hdoes
  cases hdoes with
  | stop hgo hstop => exact ⟨_, hgo, hstop⟩

end McpFlow
