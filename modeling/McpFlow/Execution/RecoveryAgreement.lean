import McpFlow.Execution.RecoveryUnknown

/-!
# Two recoveries of one TOOL

An AgentRequest with a single TOOL and a Workflow classify the same rows by two decision trees.
`SameDecision` lists the evidence on which they decide alike: what both reject, and what both accept
once the Execution is one that the single-TOOL recovery takes. On every other evidence they differ.
-/

namespace McpFlow

/-- The decision that a classification asks for; an inactive Step asks for none. -/
def ToolStepClassification.decision : ToolStepClassification → RecoveryDecision
  | ready => .takeoverReady
  | resume _ => .resumeAttempt
  | safeRetry _ _ => .safeRetry
  | failExhausted _ _ _ => .failExhausted
  | fatalUnknown => .unknownOutcome
  | terminalOk => .noOp
  | «local» => .noOp

/-- The decision that `_decide` asks for. -/
def FoundationDecision.decision : FoundationDecision → RecoveryDecision
  | takeoverReady => .takeoverReady
  | resumeAttempt _ => .resumeAttempt
  | safeRetry _ _ => .safeRetry
  | failExhausted _ _ => .failExhausted
  | unknownOutcome _ _ => .unknownOutcome

/-- A refused decision: some codes fail the Execution closed, the others leave the transaction. -/
def recoveryRefused (codes : List String) (e : AppError) : Except Raised RecoveryDecision :=
  if e.code ∈ codes then .ok .failInconsistent else .error (.appError e)

/-- The decision of the Workflow recovery on one Step. -/
def classifiedDecision (env : RecoveryEnv) (db : Db) (step : ExecutionStep) :
    Except Raised RecoveryDecision :=
  match classifyStep env db step with
  | .ok c => .ok c.decision
  | .error e => recoveryRefused ["RESOURCE_CONFLICT", "EXECUTION_PRECONDITION_FAILED"] e

/-- The decision of the Workflow recovery on an Execution with one Step. -/
def workflowDecision (env : RecoveryEnv) (now : Time) (db : Db) (step : ExecutionStep) :
    Except Raised RecoveryDecision :=
  if db.execution.status = .cancelRequested then
    (recoverCancelRequested now db).map (·.1.decision)
  else if db.execution.status ≠ .running ∨ db.execution.leaseExpired now = false then .ok .noOp
  else classifiedDecision env db step

/-- `recover` takes the Execution for one of an agent. -/
def RecoveryEnv.IsAgent (env : RecoveryEnv) (db : Db) : Prop :=
  db.execution.sourceType = .agentRequest ∨
    db.execution.isAgentScheduleOccurrence env.agentRequestPinned = true

/-- `_lock_foundation_step` takes the only Step of the Execution. -/
def Db.foundationTakes (db : Db) (s : ExecutionStep) : Bool :=
  db.execution.sourceType == .agentRequest &&
    (s.stepKey == deterministicToolStepId && s.stepType == .tool && s.parentStepId.isNone &&
      s.mcpToolVersionId.isSome)

/-- The history of a READY Step admits another Attempt. -/
def Db.HistoryAdmits (db : Db) (s : ExecutionStep) (maxAttempts : ℕ) : Prop :=
  (db.listAttempts s.id = [] ∧ s.attemptCount = 0) ∨
    (db.listAttempts s.id ≠ [] ∧
      ((db.listAttempts s.id).map (·.attemptNo)).insertionSort (· ≤ ·) =
        List.range' 1 (db.listAttempts s.id).length ∧
      s.attemptCount = (db.listAttempts s.id).length ∧
      canSafeRetry s.attemptCount maxAttempts = true)

/-- The evidence of a TOOL on which both recoveries decide alike; `taken` when the single-TOOL
recovery takes the Step. -/
inductive SameDecision (env : RecoveryEnv) (db : Db) (s : ExecutionStep) (maxAttempts : ℕ) :
    (taken : Bool) → Prop where
  /-- The Step waits. -/
  | waiting {taken : Bool} (hs : s.status = .waitingApproval ∨ s.status = .waitingInput) :
      SameDecision env db s maxAttempts taken
  /-- A PENDING Step has work in flight. -/
  | pending {taken : Bool} (hs : s.status = .pending) (h : db.stepHasUnknownChild s.id = false)
      (hwork : db.stepHasStartedWork s.id = true) : SameDecision env db s maxAttempts taken
  /-- A READY Step has a STARTED Attempt. -/
  | readyStarted {taken : Bool} {a : StepAttempt} (hs : s.status = .ready)
      (ha : a ∈ db.listAttempts s.id) (hstarted : a.status = .started) :
      SameDecision env db s maxAttempts taken
  /-- A READY Step has a call in flight, and no UNKNOWN_OUTCOME call before it. -/
  | readyCall {taken : Bool} {before after : List StepAttempt} {a : StepAttempt}
      (hs : s.status = .ready) (hsplit : db.listAttempts s.id = before ++ a :: after)
      (hbefore : ∀ b ∈ before, db.Settled b) (ha : db.attemptHasStartedToolCall a.id = true) :
      SameDecision env db s maxAttempts taken
  /-- A RUNNING Step has no STARTED Attempt, or several. -/
  | noAttempt {taken : Bool} (hs : s.status = .running) (h : ∀ a, ¬db.OnlyStarted s a) :
      SameDecision env db s maxAttempts taken
  /-- The calls of the Attempt are none that could be decided on. -/
  | calls {taken : Bool} {a : StepAttempt} (hs : s.status = .running) (ha : db.OnlyStarted s a)
      (hu : db.attemptHasUnknownToolCall a.id = false) (hne : db.listToolCalls a.id ≠ [])
      (hc : ∀ c, (db.listToolCalls a.id).filter (·.normalizedStatus = .started) ≠ [c]) :
      SameDecision env db s maxAttempts taken
  /-- The call in flight is of another ToolVersion. -/
  | version {taken : Bool} {a : StepAttempt} {c : ToolCall} (hs : s.status = .running)
      (ha : db.OnlyStarted s a) (hu : db.attemptHasUnknownToolCall a.id = false)
      (hc : (db.listToolCalls a.id).filter (·.normalizedStatus = .started) = [c])
      (hversion : s.mcpToolVersionId ≠ some c.mcpToolVersionId) :
      SameDecision env db s maxAttempts taken
  /-- The lineage of the Attempt is in conflict. -/
  | lineage {taken : Bool} {a : StepAttempt} {e : AppError} (hs : s.status = .running)
      (ha : db.OnlyStarted s a) (hcalls : db.listToolCalls a.id = [])
      (hlineage : env.resumeLineage s a = .error e) (he : e.code = "RESOURCE_CONFLICT") :
      SameDecision env db s maxAttempts taken
  /-- The lineage of the Attempt fails a precondition, on a Step that is not taken. -/
  | precondition {a : StepAttempt} {e : AppError} (hs : s.status = .running)
      (ha : db.OnlyStarted s a) (hcalls : db.listToolCalls a.id = [])
      (hlineage : env.resumeLineage s a = .error e)
      (he : e.code = "EXECUTION_PRECONDITION_FAILED") : SameDecision env db s maxAttempts false
  /-- A READY Step whose calls have all ended, none UNKNOWN_OUTCOME, may run again. -/
  | ready (hs : s.status = .ready) (hstarted : ∀ a ∈ db.listAttempts s.id, a.status ≠ .started)
      (hcalls : ∀ a ∈ db.listAttempts s.id, db.Settled a)
      (hhistory : db.HistoryAdmits s maxAttempts) : SameDecision env db s maxAttempts true
  /-- The Attempt made no call, and its lineage is checked by both in the same way. -/
  | resume {a : StepAttempt} (hs : s.status = .running) (ha : db.OnlyStarted s a)
      (hcalls : db.listToolCalls a.id = [])
      (hlineage : ∀ e, env.resumeLineage s a = .error e →
        e.code ∉ ["RESOURCE_CONFLICT", "EXECUTION_PRECONDITION_FAILED"]) :
      SameDecision env db s maxAttempts true
  /-- The Attempt has one call, which is in flight. -/
  | call {a : StepAttempt} {c : ToolCall} (hs : s.status = .running) (ha : db.OnlyStarted s a)
      (hcalls : db.listToolCalls a.id = [c]) (hc : c.normalizedStatus = .started)
      (hversion : s.mcpToolVersionId = some c.mcpToolVersionId) :
      SameDecision env db s maxAttempts true

variable {env : RecoveryEnv} {db : Db} {s : ExecutionStep} {now : Time} {onError : PlanOnError}
  {risk : RiskClass} {maxAttempts : ℕ}

/-! ### The single-TOOL recovery -/

/-- The decision of the single-TOOL recovery. -/
def foundationDecision (env : RecoveryEnv) (db : Db) (s : ExecutionStep) (taken : Bool) :
    Except Raised RecoveryDecision :=
  if taken then
    match decideFoundation env db s with
    | .ok d => .ok d.decision
    | .error e => recoveryRefused ["RESOURCE_CONFLICT"] e
  else .ok .failInconsistent

theorem decision_applyFoundation (s : ExecutionStep) (d : FoundationDecision) :
    (applyFoundation env s now db d).1.decision = d.decision := by
  cases d <;> rfl

/-- The only Step is taken, or in conflict. -/
theorem foundationStep_cases (hrows : db.steps.rows = [s]) :
    (db.foundationTakes s = true ∧ foundationStep db = .ok s) ∨
      (db.foundationTakes s = false ∧
        ∃ e, foundationStep db = .error e ∧ e.code = "RESOURCE_CONFLICT") := by
  rw [foundationStep, hrows]
  dsimp only
  unfold assertThat Db.foundationTakes
  split
  next hsource =>
    rw [hsource, Bool.true_and]
    split
    next hshape => exact .inl ⟨hshape, rfl⟩
    next hshape => exact .inr ⟨Bool.not_eq_true _ ▸ hshape, _, rfl, rfl⟩
  next hsource =>
    rw [Bool.not_eq_true] at hsource
    rw [hsource, Bool.false_and]
    exact .inr ⟨rfl, _, rfl, rfl⟩

/-- The recovery of an agent's Execution decides by its only Step. -/
theorem recoverFoundation_decision (hrows : db.steps.rows = [s]) :
    (recoverFoundation env now db).map (·.1.decision) =
      foundationDecision env db s (db.foundationTakes s) := by
  unfold foundationDecision recoverFoundation
  rcases foundationStep_cases hrows with ⟨htaken, hstep⟩ | ⟨htaken, e, hstep, he⟩
  · rw [hstep, htaken, if_pos rfl]
    cases hd : decideFoundation env db s with
    | ok d =>
      simp only [bind, Except.bind, hd, pure, Except.pure, Except.map]
      exact congrArg Except.ok (decision_applyFoundation s d)
    | error e =>
      simp only [bind, Except.bind, hd, recoveryRefused, List.mem_singleton]
      split <;> rfl
  · rw [hstep, htaken]
    simp only [bind, Except.bind, if_pos he]
    rfl

/-! ### Both decisions on the rows -/

theorem classifiedDecision_of_classified {c : ToolStepClassification} (h : Classified env db s c) :
    classifiedDecision env db s = .ok c.decision := by
  rw [classifiedDecision, classifyStep_eq_ok_iff.mpr h]

theorem classifiedDecision_of_error {e : AppError} (h : classifyStep env db s = .error e)
    (he : e.code ∈ ["RESOURCE_CONFLICT", "EXECUTION_PRECONDITION_FAILED"]) :
    classifiedDecision env db s = .ok .failInconsistent := by
  rw [classifiedDecision, h]
  exact if_pos he

theorem foundationDecision_of_decided {d : FoundationDecision} (h : FoundationDecided env db s d) :
    foundationDecision env db s true = .ok d.decision := by
  rw [foundationDecision, decideFoundation_eq_ok_iff.mpr h, if_pos rfl]

theorem foundationDecision_of_error {taken : Bool} {e : AppError}
    (h : decideFoundation env db s = .error e) (he : e.code = "RESOURCE_CONFLICT") :
    foundationDecision env db s taken = .ok .failInconsistent := by
  cases taken with
  | false => rfl
  | true =>
    rw [foundationDecision, h, if_pos rfl]
    exact if_pos (List.mem_singleton.mpr he)

/-- What the single-TOOL recovery does not refuse, it takes and decides. -/
theorem decided_of_foundationDecision {taken : Bool} {r : RecoveryDecision}
    (h : foundationDecision env db s taken = .ok r) (hr : r ≠ .failInconsistent) :
    taken = true ∧ ∃ d, FoundationDecided env db s d ∧ d.decision = r := by
  unfold foundationDecision at h
  split at h
  next htaken =>
    refine ⟨htaken, ?_⟩
    split at h
    next d hd => exact ⟨d, decideFoundation_eq_ok_iff.mp hd, Except.ok.inj h⟩
    next e he =>
      unfold recoveryRefused at h
      split at h
      · exact absurd (Except.ok.inj h).symm hr
      · cases h
  next => exact absurd (Except.ok.inj h).symm hr

/-- Where the Workflow classifies the Step and both agree, the single-TOOL recovery decides too. -/
theorem decided_of_same {taken : Bool} {c : ToolStepClassification} (hc : Classified env db s c)
    (h : foundationDecision env db s taken = classifiedDecision env db s) :
    taken = true ∧ ∃ d, FoundationDecided env db s d ∧ d.decision = c.decision := by
  rw [classifiedDecision_of_classified hc] at h
  exact decided_of_foundationDecision h (by cases c <;> simp [ToolStepClassification.decision])

/-! ### Rejected evidence -/

theorem assertThat_bind_error {α : Type} {b : Bool} {message : String} {f : Unit → Except AppError α}
    (h : b = false) : (assertThat b message >>= f) = .error (conflict message) := by
  rw [h]
  rfl

/-- The facts of an open TOOL are read before its status. -/
theorem classifyActiveTool_eq (hfacts : ToolFacts env db s onError risk maxAttempts) :
    classifyActiveTool env db s =
      if s.status = .ready then
        assertThat (!(db.listAttempts s.id).any (·.status == .started))
          "READY TOOL Step has STARTED Attempt." >>= fun _ =>
            classifyReadyTool db (db.listAttempts s.id)
      else assertThat (s.status == .running) "TOOL Step status is not recoverable." >>= fun _ =>
        classifyRunningTool env db s onError risk maxAttempts := by
  obtain ⟨⟨p, hp, rfl⟩, hpolicy⟩ := hfacts
  rw [classifyActiveTool, hp]
  change (env.toolPolicy s >>= _) = _
  rw [hpolicy]
  rfl

/-- The walk over the Attempts of a READY Step stops at the first call in flight. -/
theorem classifyReadyTool_of_split {before after : List StepAttempt} {a : StepAttempt}
    (hbefore : ∀ b ∈ before, db.Settled b) (ha : db.attemptHasStartedToolCall a.id = true) :
    classifyReadyTool db (before ++ a :: after) =
      .error (conflict "READY TOOL Step has STARTED ToolCall evidence.") := by
  induction before with
  | nil => rw [List.nil_append, classifyReadyTool, if_pos ha]
  | cons b before ih =>
    obtain ⟨hb, hrest⟩ := List.forall_mem_cons.mp hbefore
    rw [List.cons_append, classifyReadyTool, db.any_listToolCalls_unknown, hb.1, hb.2,
      if_neg Bool.false_ne_true, if_neg Bool.false_ne_true]
    exact ih hrest

theorem split_of_classifyReadyTool {attempts : List StepAttempt} {e : AppError}
    (h : classifyReadyTool db attempts = .error e) :
    ∃ before a after, attempts = before ++ a :: after ∧ (∀ b ∈ before, db.Settled b) ∧
      db.attemptHasStartedToolCall a.id = true := by
  induction attempts with
  | nil => cases h
  | cons b attempts ih =>
    rw [classifyReadyTool, db.any_listToolCalls_unknown] at h
    split at h
    next hb => exact ⟨[], b, attempts, rfl, fun _ hmem => absurd hmem List.not_mem_nil, hb⟩
    next hb =>
      split at h
      · cases h
      next hu =>
        obtain ⟨before, a, after, rfl, hbefore, ha⟩ := ih h
        refine ⟨b :: before, a, after, rfl, List.forall_mem_cons.mpr ⟨⟨?_, ?_⟩, hbefore⟩, ha⟩
        · exact Bool.not_eq_true _ ▸ hb
        · exact Bool.not_eq_true _ ▸ hu

/-- A READY Step with work in flight is refused by the single-TOOL recovery. -/
theorem decideFoundation_ready_error (hs : s.status = .ready)
    (h : ∃ a ∈ db.listAttempts s.id, a.status = .started ∨ db.attemptHasStartedToolCall a.id = true) :
    ∃ e, decideFoundation env db s = .error e ∧ e.code = "RESOURCE_CONFLICT" := by
  rw [decideFoundation, if_pos hs, decideReadyCheckpoint]
  dsimp only
  cases hany : (db.listAttempts s.id).any (·.status == .started) with
  | true => exact ⟨_, rfl, rfl⟩
  | false =>
    have hcall : (db.listAttempts s.id).any (fun a => db.attemptHasStartedToolCall a.id) = true := by
      obtain ⟨a, ha, hstarted | hcall⟩ := h
      · rw [List.any_eq_false] at hany
        exact absurd (beq_iff_eq.mpr hstarted) (hany a ha)
      · exact List.any_eq_true.mpr ⟨a, ha, hcall⟩
    rw [hcall]
    exact ⟨_, rfl, rfl⟩

/-- The single-TOOL recovery refuses a RUNNING Step whose Attempt has a call that has ended, several
calls, or one of another ToolVersion. -/
theorem decideFoundation_running_error {a : StepAttempt} (hs : s.status = .running)
    (ha : db.OnlyStarted s a) (hne : db.listToolCalls a.id ≠ [])
    (h : ∀ c, db.listToolCalls a.id = [c] → c.normalizedStatus = .started →
      s.mcpToolVersionId ≠ some c.mcpToolVersionId) :
    ∃ e, decideFoundation env db s = .error e ∧ e.code = "RESOURCE_CONFLICT" := by
  rw [decideFoundation, hs, if_neg (by decide), if_neg (not_not.mpr rfl), ha]
  dsimp only
  rw [decideStartedAttempt]
  dsimp only
  cases hall : (db.listToolCalls a.id).all (·.normalizedStatus == .started) with
  | false => exact ⟨_, rfl, rfl⟩
  | true =>
    split
    next hnil => exact absurd hnil hne
    next c hc =>
      rw [List.all_eq_true] at hall
      have hstarted := beq_iff_eq.mp (hall c (hc ▸ List.mem_singleton_self c))
      have hversion : (s.mcpToolVersionId == some c.mcpToolVersionId) = false :=
        beq_eq_false_iff_ne.mpr (h c hc hstarted)
      rw [hversion]
      exact ⟨_, rfl, rfl⟩
    · exact ⟨_, rfl, rfl⟩

/-! ### Agreement -/

/-- The rows are in conflict. -/
def InConflict {α : Type} (x : Except AppError α) : Prop :=
  ∃ e, x = .error e ∧ e.code = "RESOURCE_CONFLICT"

/-- What both find in conflict, both fail closed. -/
theorem agree_of_inConflict {taken : Bool} (h : InConflict (decideFoundation env db s))
    (h' : InConflict (classifyStep env db s)) :
    foundationDecision env db s taken = classifiedDecision env db s := by
  obtain ⟨e, he, hcode⟩ := h
  obtain ⟨e', he', hcode'⟩ := h'
  rw [foundationDecision_of_error he hcode, classifiedDecision_of_error he' (by simp [hcode'])]

variable (env db) in
/-- Only a READY or a RUNNING Step is decided. -/
theorem decideFoundation_inactive (hready : s.status ≠ .ready) (hrunning : s.status ≠ .running) :
    InConflict (decideFoundation env db s) := by
  rw [decideFoundation, if_neg hready, if_pos hrunning]
  exact ⟨_, rfl, rfl⟩

section Agreement

variable {taken : Bool} {a : StepAttempt} (htype : s.stepType = .tool)
  (hfacts : ToolFacts env db s onError risk maxAttempts)

include htype hfacts

private theorem classifyStep_running (hs : s.status = .running) :
    classifyStep env db s = classifyRunningTool env db s onError risk maxAttempts :=
  (classifyStep_of_active htype (.inr hs)).trans (classifyActiveTool_of_running hs hfacts)

private theorem classifyStep_ready (hs : s.status = .ready) :
    classifyStep env db s = assertThat (!(db.listAttempts s.id).any (·.status == .started))
      "READY TOOL Step has STARTED Attempt." >>= fun _ =>
        classifyReadyTool db (db.listAttempts s.id) := by
  rw [classifyStep_of_active htype (.inl hs), classifyActiveTool_eq hfacts, if_pos hs]

/-- A STARTED Attempt without a call is resumed under its lineage, by both in the same way. -/
private theorem classifyStep_resume (hs : s.status = .running) (ha : db.OnlyStarted s a)
    (hcalls : db.listToolCalls a.id = []) :
    classifyStep env db s = (env.resumeLineage s a >>= fun _ => .ok (.resume a)) := by
  rw [classifyStep_running htype hfacts hs, classifyRunningTool, ha]
  dsimp only
  rw [hcalls, List.any_nil, if_neg Bool.false_ne_true]
  change classifyResume env db s a = _
  rw [classifyResume, hcalls]
  rfl

omit htype hfacts in
private theorem decideFoundation_resume (hs : s.status = .running) (ha : db.OnlyStarted s a)
    (hcalls : db.listToolCalls a.id = []) :
    decideFoundation env db s = (env.resumeLineage s a >>= fun _ => .ok (.resumeAttempt a)) := by
  rw [decideFoundation, hs, if_neg (by decide), if_neg (not_not.mpr rfl), ha]
  dsimp only
  rw [decideStartedAttempt, hcalls]
  rfl

/-- A READY Step with work in flight, seen before an UNKNOWN_OUTCOME call, is in conflict. -/
private theorem classifyStep_ready_inConflict (hs : s.status = .ready)
    (h : (∃ a ∈ db.listAttempts s.id, a.status = .started) ∨
      InConflict (classifyReadyTool db (db.listAttempts s.id))) :
    InConflict (classifyStep env db s) := by
  rw [classifyStep_ready htype hfacts hs]
  cases hany : (db.listAttempts s.id).any (·.status == .started) with
  | true => exact ⟨_, rfl, rfl⟩
  | false =>
    rcases h with ⟨a, ha, hstarted⟩ | h
    · rw [List.any_eq_false] at hany
      exact absurd (beq_iff_eq.mpr hstarted) (hany a ha)
    · exact h

/-- A RUNNING Step without a single STARTED Attempt is in conflict. -/
private theorem inConflict_noAttempt (hs : s.status = .running) (h : ∀ a, ¬db.OnlyStarted s a) :
    InConflict (decideFoundation env db s) ∧ InConflict (classifyStep env db s) := by
  rw [classifyStep_running htype hfacts hs, classifyRunningTool, decideFoundation, hs,
    if_neg (by decide), if_neg (not_not.mpr rfl)]
  constructor
  · split
    · exact ⟨_, rfl, rfl⟩
    next a ha => exact absurd ha (h a)
    · exact ⟨_, rfl, rfl⟩
  · split
    · exact ⟨_, rfl, rfl⟩
    next a ha => exact absurd ha (h a)
    · exact ⟨_, rfl, rfl⟩

/-- Calls of which none is in flight, or several are, or one of another ToolVersion. -/
private theorem classifyStep_calls (hs : s.status = .running) (ha : db.OnlyStarted s a)
    (hu : db.attemptHasUnknownToolCall a.id = false) (hne : db.listToolCalls a.id ≠ [])
    (hc : ∀ c, (db.listToolCalls a.id).filter (·.normalizedStatus = .started) = [c] →
      s.mcpToolVersionId ≠ some c.mcpToolVersionId) : InConflict (classifyStep env db s) := by
  rw [classifyStep_running htype hfacts hs, classifyRunningTool, ha]
  dsimp only
  rw [db.any_listToolCalls_unknown, hu, if_neg Bool.false_ne_true]
  split
  · rw [classifyResume, assertThat_bind_error (by simpa using hne)]
    exact ⟨_, rfl, rfl⟩
  next c hfilter =>
    rw [classifyStartedCall, assertThat_bind_error (beq_eq_false_iff_ne.mpr (hc c hfilter))]
    exact ⟨_, rfl, rfl⟩
  · exact ⟨_, rfl, rfl⟩

/-- On the listed evidence both decide alike. -/
theorem SameDecision.agrees (h : SameDecision env db s maxAttempts taken) :
    foundationDecision env db s taken = classifiedDecision env db s := by
  cases h with
  | waiting hs =>
    have hne : s.status ≠ .ready ∧ s.status ≠ .running := by
      rcases hs with hs | hs <;> rw [hs] <;> decide
    refine agree_of_inConflict (decideFoundation_inactive _ _ hne.1 hne.2) ?_
    rcases hs with hs | hs
    all_goals
      rw [classifyStep, hs, if_neg (by decide), if_neg (not_not.mpr htype), if_neg (by decide), if_neg (by decide),
        classifyActiveTool_eq hfacts, hs, if_neg (by decide)]
      exact ⟨_, rfl, rfl⟩
  | pending hs h hwork =>
    refine agree_of_inConflict (decideFoundation_inactive _ _ (by rw [hs]; decide) (by rw [hs]; decide)) ?_
    rw [classifyStep, hs, if_neg (by decide), if_neg (not_not.mpr htype), if_neg (by decide), if_pos rfl, h, hwork]
    exact ⟨_, rfl, rfl⟩
  | @readyStarted _ a hs ha hstarted =>
    exact agree_of_inConflict (decideFoundation_ready_error hs ⟨a, ha, .inl hstarted⟩)
      (classifyStep_ready_inConflict htype hfacts hs (.inl ⟨a, ha, hstarted⟩))
  | @readyCall _ before after a hs hsplit hbefore ha =>
    have hmem : a ∈ db.listAttempts s.id := by
      rw [hsplit]
      exact List.mem_append_right _ List.mem_cons_self
    refine agree_of_inConflict (decideFoundation_ready_error hs ⟨a, hmem, .inr ha⟩)
      (classifyStep_ready_inConflict htype hfacts hs (.inr ?_))
    rw [hsplit, classifyReadyTool_of_split hbefore ha]
    exact ⟨_, rfl, rfl⟩
  | noAttempt hs h =>
    obtain ⟨hfoundation, hworkflow⟩ := inConflict_noAttempt htype hfacts hs h
    exact agree_of_inConflict hfoundation hworkflow
  | calls hs ha hu hne hc =>
    refine agree_of_inConflict (decideFoundation_running_error hs ha hne fun c hone hstarted => ?_)
      (classifyStep_calls htype hfacts hs ha hu hne fun c hone => absurd hone (hc c))
    refine absurd ?_ (hc c)
    rw [hone, List.filter_cons_of_pos (by simpa using hstarted), List.filter_nil]
  | @version _ a c hs ha hu hc hversion =>
    have hne : db.listToolCalls a.id ≠ [] := by
      intro hnil
      rw [hnil] at hc
      cases hc
    refine agree_of_inConflict (decideFoundation_running_error hs ha hne fun d hone hstarted => ?_)
      (classifyStep_calls htype hfacts hs ha hu hne fun d hone => ?_)
    · rw [hone, List.filter_cons_of_pos (by simpa using hstarted), List.filter_nil] at hc
      cases hc
      exact hversion
    · rw [hone] at hc
      cases hc
      exact hversion
  | lineage hs ha hcalls hlineage he =>
    refine agree_of_inConflict ⟨_, ?_, he⟩ ⟨_, ?_, he⟩
    · rw [decideFoundation_resume hs ha hcalls, hlineage]
      rfl
    · rw [classifyStep_resume htype hfacts hs ha hcalls, hlineage]
      rfl
  | precondition hs ha hcalls hlineage he =>
    have herror := classifyStep_resume htype hfacts hs ha hcalls
    rw [hlineage] at herror
    exact (classifiedDecision_of_error herror (by simp [he])).symm
  | ready hs hstarted hcalls hhistory =>
    rw [classifiedDecision_of_classified (.ready htype hs hfacts hstarted hcalls)]
    rcases hhistory with ⟨hnil, hcount⟩ | ⟨hne, hnumbers, hcount, hretry⟩
    · exact foundationDecision_of_decided (.fresh hs hnil hcount)
    · exact foundationDecision_of_decided (.again hs hne (fun a ha => ⟨hstarted a ha, (hcalls a ha).1⟩)
        hnumbers hcount hfacts.policy hretry)
  | @resume a hs ha hcalls hlineage =>
    cases hl : env.resumeLineage s a with
    | ok u =>
      rw [classifiedDecision_of_classified (.resume htype hs hfacts ha hcalls hl)]
      exact foundationDecision_of_decided (.resume hs ha hcalls hl)
    | error e =>
      have hcode := hlineage e hl
      rw [foundationDecision, if_pos rfl, decideFoundation_resume hs ha hcalls, classifiedDecision,
        classifyStep_resume htype hfacts hs ha hcalls, hl]
      change recoveryRefused _ e = recoveryRefused _ e
      rw [recoveryRefused, recoveryRefused, if_neg hcode, if_neg fun h => hcode (by
        rw [List.mem_singleton.mp h]
        exact List.mem_cons_self)]
  | @call a c hs ha hcalls hc hversion =>
    have hu : db.attemptHasUnknownToolCall a.id = false := by
      rw [← db.any_listToolCalls_unknown, hcalls, List.any_cons, hc, List.any_nil]
      rfl
    have hone : (db.listToolCalls a.id).filter (·.normalizedStatus = .started) = [c] := by
      rw [hcalls, List.filter_cons_of_pos (by simpa using hc), List.filter_nil]
    rw [classifiedDecision_of_classified (.call htype hs hfacts ha hu hone hversion),
      foundationDecision_of_decided (.call hs ha hcalls hc hversion hfacts.policy)]
    unfold startedCallDecision startedCallClass
    split
    · rfl
    · split <;> rfl

private theorem of_agrees_ready (hs : s.status = .ready)
    (h : foundationDecision env db s taken = classifiedDecision env db s) :
    SameDecision env db s maxAttempts taken := by
  by_cases hany : ∃ a ∈ db.listAttempts s.id, a.status = .started
  · obtain ⟨a, ha, hstarted⟩ := hany
    exact .readyStarted hs ha hstarted
  have hnone : ∀ a ∈ db.listAttempts s.id, a.status ≠ .started :=
    fun a ha hstarted => hany ⟨a, ha, hstarted⟩
  cases hwalk : classifyReadyTool db (db.listAttempts s.id) with
  | error e =>
    obtain ⟨before, a, after, hsplit, hbefore, ha⟩ := split_of_classifyReadyTool hwalk
    exact .readyCall hs hsplit hbefore ha
  | ok c =>
    rcases classifyReadyTool_eq_ok_iff.mp hwalk with
      ⟨rfl, hcalls⟩ | ⟨rfl, before, a, after, hsplit, hbefore, ha, hu⟩
    · obtain ⟨rfl, d, hd, -⟩ := decided_of_same (.ready htype hs hfacts hnone hcalls) h
      refine .ready hs hnone hcalls ?_
      cases hd with
      | fresh _ hnil hcount => exact .inl ⟨hnil, hcount⟩
      | again _ hne _ hnumbers hcount hpolicy hretry =>
        rw [hfacts.policy] at hpolicy
        cases hpolicy
        exact .inr ⟨hne, hnumbers, hcount, hretry⟩
      | resume hrunning | call hrunning =>
        rw [hs] at hrunning
        cases hrunning
    · obtain ⟨-, d, hd, hdecision⟩ :=
        decided_of_same (.readyUnknown htype hs hfacts hnone hsplit hbefore ha hu) h
      cases hd with
      | fresh | again => cases hdecision
      | resume hrunning | call hrunning =>
        rw [hs] at hrunning
        cases hrunning

private theorem of_agrees_running (hs : s.status = .running)
    (h : foundationDecision env db s taken = classifiedDecision env db s) :
    SameDecision env db s maxAttempts taken := by
  by_cases honly : ∃ a, db.OnlyStarted s a
  swap
  · exact .noAttempt hs fun a ha => honly ⟨a, ha⟩
  obtain ⟨a, ha⟩ := honly
  have hsame {b : StepAttempt} (hb : db.OnlyStarted s b) : b = a := by
    have heq := hb.symm.trans ha
    cases heq
    rfl
  cases hu : db.attemptHasUnknownToolCall a.id with
  | true =>
    obtain ⟨-, d, hd, hdecision⟩ := decided_of_same (.runningUnknown htype hs hfacts ha hu) h
    rw [← db.any_listToolCalls_unknown] at hu
    cases hd with
    | fresh hready | again hready =>
      rw [hs] at hready
      cases hready
    | resume => cases hdecision
    | call _ hb hcalls hc =>
      cases hsame hb
      rw [hcalls, List.any_cons, hc] at hu
      cases hu
  | false =>
    by_cases hnil : db.listToolCalls a.id = []
    · cases hl : env.resumeLineage s a with
      | ok u =>
        obtain ⟨rfl, -⟩ := decided_of_same (.resume htype hs hfacts ha hnil hl) h
        refine .resume hs ha hnil fun e he => ?_
        rw [hl] at he
        cases he
      | error e =>
        by_cases hconflict : e.code = "RESOURCE_CONFLICT"
        · exact .lineage hs ha hnil hl hconflict
        have hworkflow := classifyStep_resume htype hfacts hs ha hnil
        rw [hl] at hworkflow
        cases taken with
        | true =>
          have hfoundation : foundationDecision env db s true = .error (.appError e) := by
            rw [foundationDecision, if_pos rfl, decideFoundation_resume hs ha hnil, hl]
            exact if_neg fun h => hconflict (List.mem_singleton.mp h)
          refine .resume hs ha hnil fun e' he' hcode => ?_
          rw [hl] at he'
          cases he'
          rw [hfoundation, classifiedDecision_of_error hworkflow hcode] at h
          cases h
        | false =>
          have hcode : e.code = "EXECUTION_PRECONDITION_FAILED" := by
            by_contra hne
            rw [classifiedDecision, hworkflow] at h
            change Except.ok _ = recoveryRefused _ e at h
            rw [recoveryRefused, if_neg (by simp [hconflict, hne])] at h
            cases h
          exact .precondition hs ha hnil hl hcode
    · by_cases hone : ∃ c, (db.listToolCalls a.id).filter (·.normalizedStatus = .started) = [c]
      swap
      · exact .calls hs ha hu hnil fun c hc => hone ⟨c, hc⟩
      obtain ⟨c, hc⟩ := hone
      by_cases hversion : s.mcpToolVersionId = some c.mcpToolVersionId
      · obtain ⟨rfl, d, hd, hdecision⟩ :=
          decided_of_same (.call htype hs hfacts ha hu hc hversion) h
        cases hd with
        | fresh hready | again hready =>
          rw [hs] at hready
          cases hready
        | resume _ hb hcalls =>
          cases hsame hb
          exact absurd hcalls hnil
        | call _ hb hcalls hstarted hversion' =>
          cases hsame hb
          exact .call hs ha hcalls hstarted hversion'
      · exact .version hs ha hu hc hversion

/-- Where both decide alike the evidence is listed. -/
theorem SameDecision.of_agrees
    (h : foundationDecision env db s taken = classifiedDecision env db s) :
    SameDecision env db s maxAttempts taken := by
  -- A classified Step is decided too, as a READY or a RUNNING one.
  have hdecided {c : ToolStepClassification} (hc : Classified env db s c) := decided_of_same hc h
  have hinactive {c : ToolStepClassification} (hc : Classified env db s c)
      (hready : s.status ≠ .ready) (hrunning : s.status ≠ .running) : False := by
    obtain ⟨-, d, hd, -⟩ := hdecided hc
    obtain ⟨e, he, -⟩ := decideFoundation_inactive env db hready hrunning
    rw [decideFoundation_eq_ok_iff.mpr hd] at he
    cases he
  by_cases hunknown : s.status = .unknownOutcome
  · exact (hinactive (.unknown hunknown) (by rw [hunknown]; decide) (by rw [hunknown]; decide)).elim
  by_cases hterminal : s.status.isTerminal = true
  · have hne : s.status ≠ .ready ∧ s.status ≠ .running := by
      constructor <;> intro heq <;> rw [heq] at hterminal <;> cases hterminal
    cases hchild : db.stepHasUnknownChild s.id with
    | true =>
      exact (hinactive (.unknownChild htype hunknown (.inl hterminal) hchild) hne.1 hne.2).elim
    | false => exact (hinactive (.terminal htype hunknown hterminal hchild) hne.1 hne.2).elim
  cases hs : s.status with
  | pending =>
    have hne : s.status ≠ .ready ∧ s.status ≠ .running := by
      rw [hs]
      decide
    cases hchild : db.stepHasUnknownChild s.id with
    | true => exact (hinactive (.unknownChild htype hunknown (.inr hs) hchild) hne.1 hne.2).elim
    | false =>
      cases hwork : db.stepHasStartedWork s.id with
      | true => exact .pending hs hchild hwork
      | false => exact (hinactive (.pending htype hs hchild hwork) hne.1 hne.2).elim
  | ready => exact of_agrees_ready htype hfacts hs h
  | running => exact of_agrees_running htype hfacts hs h
  | waitingApproval => exact .waiting (.inl hs)
  | waitingInput => exact .waiting (.inr hs)
  | succeeded | failed | timedOut | cancelled | skipped | unknownOutcome =>
    rw [hs] at hterminal
    exact absurd rfl hterminal

end Agreement

/-- The recovery of an agent's Execution with one TOOL decides as the Workflow recovery exactly when
its lease stands, or its evidence is listed for its source. -/
theorem recovery_agrees_iff (hrows : db.steps.rows = [s]) (htype : s.stepType = .tool)
    (hagent : env.IsAgent db) (hfacts : ToolFacts env db s onError risk maxAttempts) :
    (recoverExecution env now db).map (·.1.decision) = workflowDecision env now db s ↔
      (db.execution.status = .running → db.execution.leaseExpired now = true →
        SameDecision env db s maxAttempts (db.foundationTakes s)) := by
  unfold recoverExecution workflowDecision
  by_cases hcancel : db.execution.status = .cancelRequested
  · rw [if_pos hcancel, if_pos hcancel, hcancel]
    exact ⟨fun _ h => absurd h (by decide), fun _ => rfl⟩
  rw [if_neg hcancel, if_neg hcancel]
  by_cases hidle : db.execution.status ≠ .running ∨ db.execution.leaseExpired now = false
  · rw [if_pos hidle, if_pos hidle]
    refine ⟨fun _ hrunning hexpired => ?_, fun _ => rfl⟩
    rcases hidle with hne | hlive
    · exact absurd hrunning hne
    · rw [hlive] at hexpired
      cases hexpired
  unfold RecoveryEnv.IsAgent at hagent
  rw [if_neg hidle, if_neg hidle, recoverRunning, if_pos hagent, recoverFoundation_decision hrows]
  rw [not_or, not_not, Bool.not_eq_false] at hidle
  constructor
  · exact fun h _ _ => .of_agrees htype hfacts h
  · exact fun h => (h hidle.1 hidle.2).agrees htype hfacts

/-! ### A READY TOOL of an agent -/

/-- The plan step of an agent's TOOL. -/
def agentPlanStep : ExecutionPlanStep :=
  { lookupPlanStep with id := deterministicToolStepId, id_nonBlank := by decide }

/-- Its READY row, before any Attempt. -/
def agentStep : ExecutionStep :=
  { lookupStep with
    stepKey := deterministicToolStepId
    stepSnapshot := agentPlanStep
    attemptCount := 0 }

/-- An agent's RUNNING Execution whose lease ended at 5. -/
def agentDb (sourceType : ExecutionSourceType) : Db :=
  { lookupDb .failed with
    execution := { (lookupDb .failed).execution with
      sourceType
      agentVersionId := some (.ofNat 5)
      workflowVersionId := none
      scheduleOccurrenceId := some (.ofNat 7)
      planSnapshot := ⟨.ofNat 20 4 50, [agentPlanStep]⟩ }
    steps := ⟨[agentStep], List.nodup_singleton _⟩
    attempts := .empty }

/-- The recovery of an agent's Execution. -/
def agentEnv : RecoveryEnv := { lookupEnv with agentRequestPinned := true }

/-- From an AgentRequest the TOOL is taken over, as in a Workflow. -/
theorem recovery_agrees_agentRequest :
    (recoverExecution agentEnv 10 (agentDb .agentRequest)).map (·.1.decision) =
      workflowDecision agentEnv 10 (agentDb .agentRequest) agentStep := by
  have hfacts : ToolFacts agentEnv (agentDb .agentRequest) agentStep .failExecution .readOnly 3 :=
    ⟨⟨agentPlanStep, rfl, rfl⟩, rfl⟩
  refine (recovery_agrees_iff rfl rfl (.inl rfl) hfacts).mpr fun _ _ => ?_
  exact .ready rfl (fun a ha => absurd ha List.not_mem_nil) (fun a ha => absurd ha List.not_mem_nil)
    (.inl ⟨rfl, rfl⟩)

/-- From a schedule the same rows are failed as inconsistent. -/
theorem recovery_differs_scheduleOccurrence :
    agentEnv.IsAgent (agentDb .scheduleOccurrence) ∧
    (recoverExecution agentEnv 10 (agentDb .scheduleOccurrence)).map (·.1.decision) =
      .ok .failInconsistent ∧
    workflowDecision agentEnv 10 (agentDb .scheduleOccurrence) agentStep = .ok .takeoverReady ∧
    (recoverExecution agentEnv 10 (agentDb .agentRequest)).map (·.1.decision) =
      .ok .takeoverReady :=
  ⟨.inr rfl, rfl, rfl, rfl⟩

end McpFlow
