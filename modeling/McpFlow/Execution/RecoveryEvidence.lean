import McpFlow.Execution.Recovery
import McpFlow.Library.Except
import McpFlow.Library.Lists

/-!
# UNKNOWN_OUTCOME evidence under recovery

The evidence of an expired RUNNING Execution, stated on its rows: how a Step of a DAG is classified,
what is decided for the single TOOL of an AgentRequest, and which UNKNOWN_OUTCOME rows neither looks
at. From them, exactly when a recovery respects UNKNOWN_OUTCOME evidence: it does not take over an
Execution that has some, and ends it FAILED with those rows unchanged.
-/

namespace McpFlow

/-! ### UNKNOWN_OUTCOME rows -/

theorem Db.any_listToolCalls_unknown (db : Db) (attemptId : UUID) :
    (db.listToolCalls attemptId).any (·.normalizedStatus == .unknownOutcome) =
      db.attemptHasUnknownToolCall attemptId := by
  rw [Db.listToolCalls, List.any_filter, Db.attemptHasUnknownToolCall]
  simp only [beq_eq_decide, Bool.decide_and]

/-- Some row is UNKNOWN_OUTCOME. -/
def Db.HasUnknown (db : Db) : Prop :=
  (∃ s ∈ db.steps, s.status = .unknownOutcome) ∨
    (∃ a ∈ db.attempts, a.status = .unknownOutcome) ∨
      ∃ c ∈ db.toolCalls, c.normalizedStatus = .unknownOutcome

/-- The foreign keys of the Attempts and the ToolCalls. -/
structure Db.ForeignKeys (db : Db) : Prop where
  attempts : ∀ a ∈ db.attempts, ∃ s ∈ db.steps, s.id = a.stepExecutionId
  toolCalls : ∀ c ∈ db.toolCalls, ∃ a ∈ db.attempts, a.id = c.stepAttemptId

/-- The UNKNOWN_OUTCOME rows of `base` stand unchanged in `db`. -/
structure Db.KeepsUnknown (base db : Db) : Prop where
  steps : ∀ s ∈ base.steps, s.status = .unknownOutcome → s ∈ db.steps
  attempts : ∀ a ∈ base.attempts, a.status = .unknownOutcome → a ∈ db.attempts
  toolCalls : ∀ c ∈ base.toolCalls, c.normalizedStatus = .unknownOutcome → c ∈ db.toolCalls

/-- A recovery that respects UNKNOWN_OUTCOME evidence. -/
structure Db.RespectsUnknown (db : Db) (o : RecoveryOutcome) (db' : Db) : Prop where
  runner : o.invokeRunner = true → ¬db.HasUnknown
  ends : db.HasUnknown → db'.execution.status = .failed ∧ db.KeepsUnknown db'

/-! ### The evidence of a Step -/

section Evidence

variable (env : RecoveryEnv) (db : Db) (s : ExecutionStep)

/-- The only STARTED Attempt of a Step. -/
def Db.OnlyStarted (a : StepAttempt) : Prop :=
  (db.listAttempts s.id).filter (·.status = .started) = [a]

/-- The error handling, the risk class and the attempts of an open TOOL. -/
structure ToolFacts (onError : PlanOnError) (risk : RiskClass) (maxAttempts : ℕ) : Prop where
  plan : ∃ p, runtimePlanStep db.execution.planSnapshot s = .ok p ∧ p.onError = onError
  policy : env.toolPolicy s = .ok (risk, maxAttempts)

/-- No call of the Attempt is in flight or UNKNOWN_OUTCOME. -/
def Db.Settled (a : StepAttempt) : Prop :=
  db.attemptHasStartedToolCall a.id = false ∧ db.attemptHasUnknownToolCall a.id = false

/-- The class of a TOOL with a call in flight. -/
def startedCallClass (onError : PlanOnError) (risk : RiskClass) (maxAttempts : ℕ) (a : StepAttempt)
    (c : ToolCall) : ToolStepClassification :=
  if !risk.isSafe then .fatalUnknown
  else if canSafeRetry s.attemptCount maxAttempts then .safeRetry a c
  else .failExhausted onError a c

/-- The classification of a Step by its rows. -/
inductive Classified : ToolStepClassification → Prop where
  | unknown (h : s.status = .unknownOutcome) : Classified .fatalUnknown
  | control (htype : s.stepType ≠ .tool) (hs : s.status ≠ .unknownOutcome) :
      Classified (if s.status.isTerminal then .terminalOk else .local)
  | unknownChild (htype : s.stepType = .tool) (hs : s.status ≠ .unknownOutcome)
      (hstatus : s.status.isTerminal = true ∨ s.status = .pending)
      (h : db.stepHasUnknownChild s.id = true) : Classified .fatalUnknown
  | terminal (htype : s.stepType = .tool) (hs : s.status ≠ .unknownOutcome)
      (hstatus : s.status.isTerminal = true) (h : db.stepHasUnknownChild s.id = false) :
      Classified .terminalOk
  | pending (htype : s.stepType = .tool) (hs : s.status = .pending)
      (h : db.stepHasUnknownChild s.id = false) (hwork : db.stepHasStartedWork s.id = false) :
      Classified .local
  | ready {onError : PlanOnError} {risk : RiskClass} {maxAttempts : ℕ} (htype : s.stepType = .tool)
      (hs : s.status = .ready) (hfacts : ToolFacts env db s onError risk maxAttempts)
      (hstarted : ∀ a ∈ db.listAttempts s.id, a.status ≠ .started)
      (hcalls : ∀ a ∈ db.listAttempts s.id, db.Settled a) : Classified .ready
  | readyUnknown {onError : PlanOnError} {risk : RiskClass} {maxAttempts : ℕ}
      {before after : List StepAttempt} {a : StepAttempt} (htype : s.stepType = .tool)
      (hs : s.status = .ready) (hfacts : ToolFacts env db s onError risk maxAttempts)
      (hstarted : ∀ a ∈ db.listAttempts s.id, a.status ≠ .started)
      (hsplit : db.listAttempts s.id = before ++ a :: after)
      (hbefore : ∀ b ∈ before, db.Settled b) (ha : db.attemptHasStartedToolCall a.id = false)
      (hu : db.attemptHasUnknownToolCall a.id = true) : Classified .fatalUnknown
  | runningUnknown {onError : PlanOnError} {risk : RiskClass} {maxAttempts : ℕ} {a : StepAttempt}
      (htype : s.stepType = .tool) (hs : s.status = .running)
      (hfacts : ToolFacts env db s onError risk maxAttempts) (ha : db.OnlyStarted s a)
      (hu : db.attemptHasUnknownToolCall a.id = true) : Classified .fatalUnknown
  | resume {onError : PlanOnError} {risk : RiskClass} {maxAttempts : ℕ} {a : StepAttempt}
      (htype : s.stepType = .tool) (hs : s.status = .running)
      (hfacts : ToolFacts env db s onError risk maxAttempts) (ha : db.OnlyStarted s a)
      (hcalls : db.listToolCalls a.id = []) (hlineage : env.resumeLineage s a = .ok ()) :
      Classified (.resume a)
  | call {onError : PlanOnError} {risk : RiskClass} {maxAttempts : ℕ} {a : StepAttempt}
      {c : ToolCall} (htype : s.stepType = .tool) (hs : s.status = .running)
      (hfacts : ToolFacts env db s onError risk maxAttempts) (ha : db.OnlyStarted s a)
      (hu : db.attemptHasUnknownToolCall a.id = false)
      (hc : (db.listToolCalls a.id).filter (·.normalizedStatus = .started) = [c])
      (hversion : s.mcpToolVersionId = some c.mcpToolVersionId) :
      Classified (startedCallClass s onError risk maxAttempts a c)

/-- The decision on the call in flight of the single TOOL. -/
def startedCallDecision (risk : RiskClass) (maxAttempts : ℕ) (a : StepAttempt) (c : ToolCall) :
    FoundationDecision :=
  if !risk.isSafe then .unknownOutcome a c
  else if canSafeRetry s.attemptCount maxAttempts then .safeRetry a c
  else .failExhausted a c

/-- The decision for the single TOOL of an AgentRequest by its rows. -/
inductive FoundationDecided : FoundationDecision → Prop where
  | fresh (hs : s.status = .ready) (h : db.listAttempts s.id = []) (hcount : s.attemptCount = 0) :
      FoundationDecided .takeoverReady
  | again {risk : RiskClass} {maxAttempts : ℕ} (hs : s.status = .ready)
      (h : db.listAttempts s.id ≠ [])
      (hstarted : ∀ a ∈ db.listAttempts s.id, a.status ≠ .started ∧
        db.attemptHasStartedToolCall a.id = false)
      (hnumbers : ((db.listAttempts s.id).map (·.attemptNo)).insertionSort (· ≤ ·) =
        List.range' 1 (db.listAttempts s.id).length)
      (hcount : s.attemptCount = (db.listAttempts s.id).length)
      (hpolicy : env.toolPolicy s = .ok (risk, maxAttempts))
      (hretry : canSafeRetry s.attemptCount maxAttempts = true) : FoundationDecided .takeoverReady
  | resume {a : StepAttempt} (hs : s.status = .running) (ha : db.OnlyStarted s a)
      (hcalls : db.listToolCalls a.id = []) (hlineage : env.resumeLineage s a = .ok ()) :
      FoundationDecided (.resumeAttempt a)
  | call {risk : RiskClass} {maxAttempts : ℕ} {a : StepAttempt} {c : ToolCall}
      (hs : s.status = .running) (ha : db.OnlyStarted s a) (hcalls : db.listToolCalls a.id = [c])
      (hc : c.normalizedStatus = .started) (hversion : s.mcpToolVersionId = some c.mcpToolVersionId)
      (hpolicy : env.toolPolicy s = .ok (risk, maxAttempts)) :
      FoundationDecided (startedCallDecision s risk maxAttempts a c)

end Evidence

/-! ### The classification -/

section Classification

variable {env : RecoveryEnv} {db : Db} {s : ExecutionStep}

theorem classifyReadyTool_eq_ok_iff {attempts : List StepAttempt} {c : ToolStepClassification} :
    classifyReadyTool db attempts = .ok c ↔
      (c = .ready ∧ ∀ a ∈ attempts, db.Settled a) ∨
        (c = .fatalUnknown ∧ ∃ before a after, attempts = before ++ a :: after ∧
          (∀ b ∈ before, db.Settled b) ∧ db.attemptHasStartedToolCall a.id = false ∧
          db.attemptHasUnknownToolCall a.id = true) := by
  induction attempts with
  | nil =>
    rw [classifyReadyTool, Except.ok.injEq]
    constructor
    · rintro rfl
      exact .inl ⟨rfl, fun a ha => absurd ha List.not_mem_nil⟩
    · rintro (⟨rfl, -⟩ | ⟨-, before, a, after, hsplit, -⟩)
      · rfl
      · exact absurd hsplit (by simp)
  | cons a attempts ih =>
    rw [classifyReadyTool, db.any_listToolCalls_unknown]
    cases hstarted : db.attemptHasStartedToolCall a.id with
    | true =>
      rw [if_pos rfl]
      constructor
      · intro h
        cases h
      · rintro (⟨-, hall⟩ | ⟨-, before, b, after, hsplit, hbefore, hb, -⟩)
        · rw [(hall a List.mem_cons_self).1] at hstarted
          cases hstarted
        · obtain _ | ⟨d, before⟩ := before
          · cases hsplit
            rw [hb] at hstarted
            cases hstarted
          · cases hsplit
            rw [(hbefore a List.mem_cons_self).1] at hstarted
            cases hstarted
    | false =>
      rw [if_neg Bool.false_ne_true]
      cases hunknown : db.attemptHasUnknownToolCall a.id with
      | true =>
        rw [if_pos rfl, Except.ok.injEq]
        constructor
        · rintro rfl
          exact .inr ⟨rfl, [], a, attempts, rfl, fun b hb => absurd hb List.not_mem_nil, hstarted,
            hunknown⟩
        · rintro (⟨-, hall⟩ | ⟨rfl, -⟩)
          · rw [(hall a List.mem_cons_self).2] at hunknown
            cases hunknown
          · rfl
      | false =>
        rw [if_neg Bool.false_ne_true, ih, List.forall_mem_cons]
        refine or_congr (and_congr_right fun _ => (and_iff_right ⟨hstarted, hunknown⟩).symm)
          (and_congr_right fun _ => ⟨?_, ?_⟩)
        · rintro ⟨before, b, after, rfl, hbefore, hb⟩
          exact ⟨a :: before, b, after, rfl,
            List.forall_mem_cons.mpr ⟨⟨hstarted, hunknown⟩, hbefore⟩, hb⟩
        · rintro ⟨before, b, after, hsplit, hbefore, hb⟩
          obtain _ | ⟨d, before⟩ := before
          · cases hsplit
            rw [hb.2] at hunknown
            cases hunknown
          · cases hsplit
            exact ⟨before, b, after, rfl, (List.forall_mem_cons.mp hbefore).2, hb⟩

theorem classified_of_classifyActiveTool {c : ToolStepClassification} (htype : s.stepType = .tool)
    (h : classifyActiveTool env db s = .ok c) : Classified env db s c := by
  simp only [classifyActiveTool, Except.bind_eq_ok_iff] at h
  obtain ⟨p, hp, ⟨risk, maxAttempts⟩, hpolicy, h⟩ := h
  have hfacts : ToolFacts env db s p.onError risk maxAttempts := ⟨⟨p, hp, rfl⟩, hpolicy⟩
  split at h
  next hready =>
    simp only [Except.bind_eq_ok_iff, assertThat_eq_ok_iff, exists_const, Bool.not_eq_true',
      List.any_eq_false, beq_iff_eq] at h
    obtain ⟨hstarted, h⟩ := h
    rcases classifyReadyTool_eq_ok_iff.mp h with
      ⟨rfl, hcalls⟩ | ⟨rfl, before, a, after, hsplit, hbefore, ha, hu⟩
    · exact .ready htype hready hfacts hstarted hcalls
    · exact .readyUnknown htype hready hfacts hstarted hsplit hbefore ha hu
  next =>
    simp only [Except.bind_eq_ok_iff, assertThat_eq_ok_iff, exists_const, beq_iff_eq] at h
    obtain ⟨hrunning, h⟩ := h
    unfold classifyRunningTool at h
    split at h
    · cases h
    next a ha =>
      dsimp only at h
      rw [db.any_listToolCalls_unknown] at h
      split at h
      next hu =>
        cases h
        exact .runningUnknown htype hrunning hfacts ha hu
      next hu =>
        rw [Bool.not_eq_true] at hu
        split at h
        · simp only [classifyResume, Except.bind_eq_ok_iff, assertThat_eq_ok_iff, exists_const,
            List.isEmpty_iff] at h
          obtain ⟨hcalls, _, hlineage, h⟩ := h
          cases h
          exact .resume htype hrunning hfacts ha hcalls hlineage
        next toolCall hc =>
          simp only [classifyStartedCall, Except.bind_eq_ok_iff, assertThat_eq_ok_iff, exists_const,
            beq_iff_eq] at h
          obtain ⟨hversion, h⟩ := h
          have hclass : c = startedCallClass s p.onError risk maxAttempts a toolCall := by
            unfold startedCallClass
            split at h
            next hrisk =>
              cases h
              rw [if_pos hrisk]
            next hrisk =>
              rw [if_neg hrisk]
              split at h
              next hretry =>
                cases h
                rw [if_pos hretry]
              next hretry =>
                cases h
                rw [if_neg hretry]
          exact hclass ▸ .call htype hrunning hfacts ha hu hc hversion
        · cases h
    · cases h

theorem classifyStep_of_active (htype : s.stepType = .tool)
    (hs : s.status = .ready ∨ s.status = .running) :
    classifyStep env db s = classifyActiveTool env db s := by
  unfold classifyStep
  rcases hs with hs | hs <;> rw [hs, if_neg (by decide), if_neg (not_not.mpr htype), if_neg (by decide), if_neg (by decide)]

theorem classifyActiveTool_of_ready {onError : PlanOnError} {risk : RiskClass} {maxAttempts : ℕ}
    {c : ToolStepClassification} (hs : s.status = .ready)
    (hfacts : ToolFacts env db s onError risk maxAttempts)
    (hstarted : ∀ a ∈ db.listAttempts s.id, a.status ≠ .started)
    (h : classifyReadyTool db (db.listAttempts s.id) = .ok c) :
    classifyActiveTool env db s = .ok c := by
  obtain ⟨⟨p, hp, -⟩, hpolicy⟩ := hfacts
  refine Except.bind_eq_ok_iff.mpr ⟨p, hp, Except.bind_eq_ok_iff.mpr ⟨_, hpolicy, ?_⟩⟩
  dsimp only
  rw [if_pos hs]
  refine Except.bind_eq_ok_iff.mpr ⟨(), ?_, h⟩
  rw [assertThat_eq_ok_iff, Bool.not_eq_true', List.any_eq_false]
  exact fun a ha => by simpa using hstarted a ha

theorem classifyActiveTool_of_running {onError : PlanOnError} {risk : RiskClass} {maxAttempts : ℕ}
    (hs : s.status = .running) (hfacts : ToolFacts env db s onError risk maxAttempts) :
    classifyActiveTool env db s = classifyRunningTool env db s onError risk maxAttempts := by
  obtain ⟨⟨p, hp, rfl⟩, hpolicy⟩ := hfacts
  rw [classifyActiveTool, hp]
  change (env.toolPolicy s >>= _) = _
  rw [hpolicy]
  change (if s.status = .ready then _ else (assertThat (s.status == .running) _ >>= _)) = _
  rw [hs, if_neg (by decide)]
  rfl

/-- `_classify_step` by the rows. -/
theorem classifyStep_eq_ok_iff {c : ToolStepClassification} :
    classifyStep env db s = .ok c ↔ Classified env db s c := by
  constructor
  · intro h
    unfold classifyStep at h
    split at h
    next hs =>
      cases h
      exact .unknown hs
    next hs =>
    split at h
    next htype =>
      cases h
      exact .control htype hs
    next htype =>
    rw [ne_eq, not_not] at htype
    split at h
    next hstatus =>
      cases hu : db.stepHasUnknownChild s.id with
      | true =>
        rw [hu] at h
        cases h
        exact .unknownChild htype hs (.inl hstatus) hu
      | false =>
        rw [hu] at h
        cases h
        exact .terminal htype hs hstatus hu
    next =>
    split at h
    next hstatus =>
      split at h
      next hu =>
        cases h
        exact .unknownChild htype hs (.inr hstatus) hu
      next hu =>
      split at h
      · cases h
      next hwork =>
        cases h
        exact .pending htype hstatus (Bool.not_eq_true _ ▸ hu) (Bool.not_eq_true _ ▸ hwork)
    next => exact classified_of_classifyActiveTool htype h
  · intro h
    cases h with
    | unknown h => rw [classifyStep, if_pos h]
    | control htype hs => rw [classifyStep, if_neg hs, if_pos htype]
    | unknownChild htype hs hstatus h =>
      rw [classifyStep, if_neg hs, if_neg (not_not.mpr htype), h]
      split
      · rfl
      next hopen => rw [if_pos (hstatus.resolve_left hopen), if_pos rfl]
    | terminal htype hs hstatus h =>
      rw [classifyStep, if_neg hs, if_neg (not_not.mpr htype), if_pos hstatus, h]
      rfl
    | pending htype hs h hwork =>
      rw [classifyStep, hs, if_neg (by decide), if_neg (not_not.mpr htype), if_neg (by decide), if_pos rfl, h,
        hwork]
      rfl
    | ready htype hs hfacts hstarted hcalls =>
      rw [classifyStep_of_active htype (.inl hs)]
      exact classifyActiveTool_of_ready hs hfacts hstarted
        (classifyReadyTool_eq_ok_iff.mpr (.inl ⟨rfl, hcalls⟩))
    | readyUnknown htype hs hfacts hstarted hsplit hbefore ha hu =>
      rw [classifyStep_of_active htype (.inl hs)]
      exact classifyActiveTool_of_ready hs hfacts hstarted
        (classifyReadyTool_eq_ok_iff.mpr (.inr ⟨rfl, _, _, _, hsplit, hbefore, ha, hu⟩))
    | runningUnknown htype hs hfacts ha hu =>
      rw [classifyStep_of_active htype (.inr hs), classifyActiveTool_of_running hs hfacts,
        classifyRunningTool, ha]
      dsimp only
      rw [db.any_listToolCalls_unknown, if_pos hu]
    | resume htype hs hfacts ha hcalls hlineage =>
      rw [classifyStep_of_active htype (.inr hs), classifyActiveTool_of_running hs hfacts,
        classifyRunningTool, ha]
      dsimp only
      rw [hcalls, List.any_nil, if_neg Bool.false_ne_true]
      change classifyResume env db s _ = _
      rw [classifyResume, hcalls, hlineage]
      rfl
    | call htype hs hfacts ha hu hc hversion =>
      rw [classifyStep_of_active htype (.inr hs), classifyActiveTool_of_running hs hfacts,
        classifyRunningTool, ha]
      dsimp only
      rw [db.any_listToolCalls_unknown, hu, if_neg Bool.false_ne_true, hc]
      dsimp only
      rw [classifyStartedCall, hversion, beq_self_eq_true, startedCallClass]
      change (if _ then _ else if _ then _ else _) = _
      split
      · rfl
      · split <;> rfl

/-- What a DAG recovery checks before it classifies any Step. -/
structure DagChecked (env : RecoveryEnv) (db : Db) : Prop where
  source : env.sourceLineage = .ok ()
  plan : env.runtime.planLineage = .ok ()
  loops : if planHasLoop db.execution.planSnapshot then
      ∃ ownership, assertLoopRecoveryOwnership db.execution.planSnapshot = .ok ownership ∧
        assertExecutionLoopRecoveryCheckpoints env.runtime ownership db = .ok ()
    else ∀ s ∈ db.steps, s.stepType ≠ .loop
  waits : ∀ s ∈ db.steps, s.status ≠ .waitingApproval ∧ s.status ≠ .waitingInput

theorem mem_stepsByKey {s : ExecutionStep} : s ∈ stepsByKey db ↔ s ∈ db.steps :=
  (List.perm_insertionSort _ _).mem_iff

theorem classifyStep_pair_eq_ok_iff {p : ExecutionStep × ToolStepClassification} :
    (do
      let classification ← classifyStep env db s
      return (s, classification)) = Except.ok (ε := AppError) p ↔
      p.1 = s ∧ Classified env db s p.2 := by
  rw [Except.bind_eq_ok_iff]
  constructor
  · rintro ⟨c, hc, hp⟩
    cases hp
    exact ⟨rfl, classifyStep_eq_ok_iff.mp hc⟩
  · rintro ⟨rfl, hc⟩
    exact ⟨p.2, classifyStep_eq_ok_iff.mpr hc, rfl⟩

/-- The checks and the classification of every Step succeed exactly on these rows. -/
theorem classifySteps_eq_ok_iff {steps : List (ExecutionStep × ToolStepClassification)} :
    classifySteps env db = .ok steps ↔ DagChecked env db ∧
      List.Forall₂ (fun s p => p.1 = s ∧ Classified env db s p.2) (stepsByKey db) steps := by
  have hmap : (stepsByKey db).mapM (fun step => do
        let classification ← classifyStep env db step
        return (step, classification)) = Except.ok (ε := AppError) steps ↔
      List.Forall₂ (fun s p => p.1 = s ∧ Classified env db s p.2) (stepsByKey db) steps :=
    ⟨fun h => (List.forall₂_of_mapM_eq_ok h).imp fun _ _ => classifyStep_pair_eq_ok_iff.mp,
      fun h => List.mapM_eq_ok_of_forall₂ (h.imp fun _ _ => classifyStep_pair_eq_ok_iff.mpr)⟩
  have hwaits : (db.steps.rows.all fun s => s.status != .waitingApproval &&
      s.status != .waitingInput) = true ↔
      ∀ s ∈ db.steps, s.status ≠ .waitingApproval ∧ s.status ≠ .waitingInput := by
    simp [Table.mem_def]
  have hnoLoop : (db.steps.rows.all (·.stepType != .loop)) = true ↔
      ∀ s ∈ db.steps, s.stepType ≠ .loop := by
    simp [Table.mem_def]
  unfold classifySteps
  simp only [Except.bind_eq_ok_iff]
  constructor
  · rintro ⟨_, hsource, _, hplan, h⟩
    split at h
    next hloop =>
      simp only [Except.bind_eq_ok_iff, assertThat_eq_ok_iff, exists_const] at h
      obtain ⟨ownership, hownership, _, hloops, hw, h⟩ := h
      refine ⟨⟨hsource, hplan, ?_, hwaits.mp hw⟩, hmap.mp h⟩
      rw [if_pos hloop]
      exact ⟨ownership, hownership, hloops⟩
    next hloop =>
      simp only [Except.bind_eq_ok_iff, assertThat_eq_ok_iff, exists_const] at h
      obtain ⟨hloops, hw, h⟩ := h
      refine ⟨⟨hsource, hplan, ?_, hwaits.mp hw⟩, hmap.mp h⟩
      rw [if_neg hloop]
      exact hnoLoop.mp hloops
  · rintro ⟨⟨hsource, hplan, hloops, hw⟩, h⟩
    refine ⟨(), hsource, (), hplan, ?_⟩
    split at hloops
    next hloop =>
      obtain ⟨ownership, hownership, hloops⟩ := hloops
      simp only [if_pos hloop, Except.bind_eq_ok_iff, assertThat_eq_ok_iff, exists_const]
      exact ⟨ownership, hownership, (), hloops, hwaits.mpr hw, hmap.mpr h⟩
    next hloop =>
      simp only [if_neg hloop, Except.bind_eq_ok_iff, assertThat_eq_ok_iff, exists_const]
      exact ⟨hnoLoop.mpr hloops, hwaits.mpr hw, hmap.mpr h⟩

/-- `_decide` by the rows. -/
theorem decideFoundation_eq_ok_iff {d : FoundationDecision} :
    decideFoundation env db s = .ok d ↔ FoundationDecided env db s d := by
  constructor
  · intro h
    unfold decideFoundation at h
    split at h
    next hs =>
      simp only [decideReadyCheckpoint, Except.bind_eq_ok_iff, assertThat_eq_ok_iff, exists_const,
        Bool.not_eq_true', List.any_eq_false, beq_iff_eq] at h
      obtain ⟨hstarted, hcalls, h⟩ := h
      split at h
      next hnil =>
        simp only [Except.bind_eq_ok_iff, assertThat_eq_ok_iff, exists_const, beq_iff_eq] at h
        obtain ⟨hcount, h⟩ := h
        cases h
        exact .fresh hs hnil hcount
      next hne =>
        simp only [Except.bind_eq_ok_iff, assertThat_eq_ok_iff, exists_const, beq_iff_eq] at h
        obtain ⟨hnumbers, hcount, ⟨risk, maxAttempts⟩, hpolicy, hretry, h⟩ := h
        cases h
        exact .again hs hne (fun a ha => ⟨hstarted a ha, Bool.not_eq_true _ ▸ hcalls a ha⟩) hnumbers
          hcount hpolicy hretry
    next =>
    split at h
    · cases h
    next hs =>
    rw [ne_eq, not_not] at hs
    split at h
    · cases h
    next a ha =>
      simp only [decideStartedAttempt, Except.bind_eq_ok_iff, assertThat_eq_ok_iff, exists_const,
        List.all_eq_true, beq_iff_eq] at h
      obtain ⟨hall, h⟩ := h
      split at h
      next hcalls =>
        obtain ⟨_, hlineage, h⟩ := Except.bind_eq_ok_iff.mp h
        cases h
        exact .resume hs ha hcalls hlineage
      next c hcalls =>
        simp only [Except.bind_eq_ok_iff, assertThat_eq_ok_iff, exists_const, beq_iff_eq] at h
        obtain ⟨hversion, ⟨risk, maxAttempts⟩, hpolicy, h⟩ := h
        have hc : c.normalizedStatus = .started := hall c (hcalls ▸ List.mem_cons_self)
        have hd : d = startedCallDecision s risk maxAttempts a c := by
          unfold startedCallDecision
          split at h
          next hrisk =>
            cases h
            rw [if_pos hrisk]
          next hrisk =>
            rw [if_neg hrisk]
            split at h
            next hretry =>
              cases h
              rw [if_pos hretry]
            next hretry =>
              cases h
              rw [if_neg hretry]
        exact hd ▸ .call hs ha hcalls hc hversion hpolicy
      · cases h
    · cases h
  · intro h
    cases h with
    | fresh hs h hcount =>
      rw [decideFoundation, if_pos hs, decideReadyCheckpoint, h, hcount]
      rfl
    | again hs h hstarted hnumbers hcount hpolicy hretry =>
      rw [decideFoundation, if_pos hs]
      refine Except.bind_eq_ok_iff.mpr ⟨(), ?_, Except.bind_eq_ok_iff.mpr ⟨(), ?_, ?_⟩⟩
      · rw [assertThat_eq_ok_iff, Bool.not_eq_true', List.any_eq_false]
        exact fun a ha => by simpa using (hstarted a ha).1
      · rw [assertThat_eq_ok_iff, Bool.not_eq_true', List.any_eq_false]
        exact fun a ha => by simpa using (hstarted a ha).2
      · rw [if_neg h]
        simp only [Except.bind_eq_ok_iff, assertThat_eq_ok_iff, exists_const, beq_iff_eq]
        exact ⟨hnumbers, hcount, _, hpolicy, hretry, rfl⟩
    | resume hs ha hcalls hlineage =>
      rw [decideFoundation, hs, if_neg (by decide), if_neg (not_not.mpr rfl), ha]
      dsimp only
      rw [decideStartedAttempt, hcalls, hlineage]
      rfl
    | @call risk maxAttempts a c hs ha hcalls hc hversion hpolicy =>
      rw [decideFoundation, hs, if_neg (by decide), if_neg (not_not.mpr rfl), ha]
      dsimp only
      have hall : (db.listToolCalls a.id).all (·.normalizedStatus == .started) = true := by
        rw [hcalls, List.all_cons, hc, List.all_nil]
        rfl
      refine Except.bind_eq_ok_iff.mpr ⟨(), assertThat_eq_ok_iff.mpr hall, ?_⟩
      rw [hcalls]
      simp only [Except.bind_eq_ok_iff, assertThat_eq_ok_iff, exists_const, beq_iff_eq]
      refine ⟨hversion, _, hpolicy, ?_⟩
      unfold startedCallDecision
      cases risk.isSafe with
      | false => rfl
      | true => cases canSafeRetry s.attemptCount maxAttempts <;> rfl

end Classification

end McpFlow
