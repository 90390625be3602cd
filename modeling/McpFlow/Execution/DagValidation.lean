import McpFlow.Execution.DagSchedule
import McpFlow.Execution.CompletionLaw

/-!
# What the DAG validation accepts

The shape rules of the Step rows, said of the rows as a set, and the dependencies that a row declares.
`validate_tool_join_dag` accepts the rows that keep the rules and whose dependencies have no cycle,
whatever their order.
-/

namespace McpFlow

variable {digest : TemplateDigest} {plan : ExecutionPlanV1} {ownership : LoopBodyOwnership}
  {steps rows : List ExecutionStep}

/-! ### The rules of one row -/

/-- The row and its config agree, and a plan step of this type may have these dependencies. -/
def TypedConfig (ps : ExecutionPlanStep) (step : ExecutionStep) (dependsOn : List String)
    (allowLoop : Bool) : Prop :=
  match ps.type with
  | .tool => (∃ toolVersionId bindings, ps.config = .tool toolVersionId bindings ∧
      step.mcpToolVersionId = some toolVersionId) ∧ dependsOn.length ≤ 1
  | .condition => step.mcpToolVersionId = none ∧ ∃ predicate, ps.config = .condition predicate
  | .join => step.mcpToolVersionId = none ∧ (∃ policy, ps.config = .join policy) ∧ dependsOn ≠ []
  | .approval => step.mcpToolVersionId = none ∧ ∃ policyId, ps.config = .approval policyId
  | .loop => allowLoop = true ∧ step.mcpToolVersionId = none ∧ ∃ cfg, ps.config = .loop cfg

theorem validateTypedConfig_eq_ok_iff {ps : ExecutionPlanStep} {step : ExecutionStep}
    {dependsOn : List String} {allowLoop : Bool} {u : Unit} :
    validateTypedConfig ps step dependsOn allowLoop = .ok u ↔
      TypedConfig ps step dependsOn allowLoop := by
  unfold validateTypedConfig TypedConfig
  cases ps.type <;> cases ps.config <;>
    simp [Except.bind_eq_ok_iff, Option.isSome_iff_exists, -List.isEmpty_iff, List.isEmpty_eq_false_iff]
  all_goals grind

/-- A top-level plan step has its row, and depends on top-level steps. -/
structure TopLevelRule (topLevelIds : List String) (hasLoopBodies : Bool)
    (steps : List ExecutionStep) (ps : ExecutionPlanStep) : Prop where
  row : ∃ step ∈ steps, step.stepKey = ps.id ∧ step.parentStepId = none ∧ step.stepSnapshot = ps ∧
    step.stepType = ps.type ∧ TypedConfig ps step ps.dependsOn hasLoopBodies
  nodup : ps.dependsOn.Nodup
  known : ∀ d ∈ ps.dependsOn, d ∈ topLevelIds

theorem rowByKey_eq_some_iff (h : (steps.map (·.stepKey)).Nodup) {k : String} {s : ExecutionStep} :
    rowByKey steps k = some s ↔ s ∈ steps ∧ s.stepKey = k := by
  rw [rowByKey, List.find?_eq_some_iff_of_unique, decide_eq_true_iff]
  intro a ha b hb hak hbk
  exact List.inj_on_of_nodup_map h ha hb ((of_decide_eq_true hak).trans (of_decide_eq_true hbk).symm)

theorem validateTopLevelStep_eq_ok_iff (h : (steps.map (·.stepKey)).Nodup)
    {topLevelIds : List String} {hasLoopBodies : Bool} {ps : ExecutionPlanStep}
    {p : String × List String} :
    validateTopLevelStep topLevelIds hasLoopBodies steps ps = .ok p ↔
      TopLevelRule topLevelIds hasLoopBodies steps ps ∧ p = (ps.id, ps.dependsOn) := by
  cases hrow : rowByKey steps ps.id with
  | none =>
    refine iff_of_false (fun hvalid => ?_) fun hvalid => ?_
    · rw [validateTopLevelStep, hrow] at hvalid
      cases hvalid
    · obtain ⟨⟨⟨step, hmem, hkey, -⟩, -⟩, -⟩ := hvalid
      rw [(rowByKey_eq_some_iff h).mpr ⟨hmem, hkey⟩] at hrow
      cases hrow
  | some step =>
    obtain ⟨hmem, hkey⟩ := (rowByKey_eq_some_iff h).mp hrow
    have hcheck : validateTopLevelStep topLevelIds hasLoopBodies steps ps = .ok p ↔
        step.parentStepId = none ∧ (step.stepSnapshot = ps ∧ step.stepType = ps.type) ∧
          ps.dependsOn.Nodup ∧ (∀ d ∈ ps.dependsOn, d ∈ topLevelIds) ∧
          TypedConfig ps step ps.dependsOn hasLoopBodies ∧ p = (ps.id, ps.dependsOn) := by
      rw [validateTopLevelStep, hrow]
      simp only [assertExactPlanProjection, Except.bind_eq_ok_iff, assertThat_eq_ok_iff,
        validateTypedConfig_eq_ok_iff, Option.isNone_iff_eq_none, beq_iff_eq, decide_eq_true_iff,
        List.all_eq_true, List.contains_iff_mem, exists_const, pure, Except.pure,
        Except.ok.injEq, eq_comm (a := p)]
    rw [hcheck]
    constructor
    · rintro ⟨hparent, ⟨hsnapshot, htype⟩, hnodup, hknown, htyped, hp⟩
      exact ⟨⟨⟨step, hmem, hkey, hparent, hsnapshot, htype, htyped⟩, hnodup, hknown⟩, hp⟩
    · rintro ⟨⟨⟨row, hrow', hkey', hparent, hsnapshot, htype, htyped⟩, hnodup, hknown⟩, hp⟩
      obtain rfl : row = step :=
        List.inj_on_of_nodup_map h hrow' hmem (hkey'.trans hkey.symm)
      exact ⟨hparent, ⟨hsnapshot, htype⟩, hnodup, hknown, htyped, hp⟩

/-- What a body step depends on besides its LOOP. -/
def bodyDependencies (parent child : ExecutionStep) : List String :=
  child.stepSnapshot.dependsOn.filter (· ≠ parent.stepKey)

/-- A row is the instance of a body step in the iteration `n` of a top-level LOOP. -/
structure BodyInstanceRule (digest : TemplateDigest) (plan : ExecutionPlanV1)
    (ownership : LoopBodyOwnership) (parent child : ExecutionStep) (n : ℕ) : Prop where
  iterationNo : child.iterationNo = some n
  iterationNo_pos : 1 ≤ n
  parentStepId : child.parentStepId = some parent.id
  topLevel : parent.parentStepId = none
  loop : parent.stepType = .loop
  parentProjection : plan.byId? parent.stepKey = some parent.stepSnapshot
  parentType : parent.stepType = parent.stepSnapshot.type
  projection : plan.byId? child.stepSnapshot.id = some child.stepSnapshot
  owned : child.stepSnapshot.id ∈ ownership.bodyIds parent.stepKey
  type : child.stepType = child.stepSnapshot.type
  bodyType : child.stepType.isBodyRuntimeType = true
  stepKey : child.stepKey = iterationStepKey digest parent.id n child.stepSnapshot.id
  toolVersion : child.mcpToolVersionId = toolVersionForTemplate child.stepSnapshot
  known : ∀ d ∈ bodyDependencies parent child, d ∈ ownership.bodyIds parent.stepKey
  join : child.stepSnapshot.type = .join → child.stepSnapshot.dependsOn ≠ []
  typed : TypedConfig child.stepSnapshot child (bodyDependencies parent child) false

/-- A TOOL has at most one dependency. -/
theorem TypedConfig.toolFanIn {ps : ExecutionPlanStep} {step : ExecutionStep}
    {dependsOn : List String} {allowLoop : Bool} (h : TypedConfig ps step dependsOn allowLoop)
    (htype : ps.type = .tool) : dependsOn.length ≤ 1 := by
  rw [TypedConfig, htype] at h
  exact h.2

theorem childDependencies_eq_ok_iff {parent child : ExecutionStep} {n : ℕ} {bodyIds : List String}
    {deps : List String} :
    childDependencies digest parent n bodyIds child.stepSnapshot = .ok deps ↔
      (∀ d ∈ bodyDependencies parent child, d ∈ bodyIds) ∧
        (child.stepSnapshot.type = .tool → (bodyDependencies parent child).length ≤ 1) ∧
        (child.stepSnapshot.type = .join → child.stepSnapshot.dependsOn ≠ []) ∧
        deps = (bodyDependencies parent child).map (iterationStepKey digest parent.id n) := by
  unfold childDependencies bodyDependencies
  simp only [Except.bind_eq_ok_iff, assertThat_eq_ok_iff, List.all_eq_true, List.contains_iff_mem,
    exists_const, pure, Except.pure, Except.ok.injEq, Bool.or_eq_true, bne_iff_ne, ne_eq,
    decide_eq_true_iff, Bool.not_eq_true', List.isEmpty_eq_false_iff, eq_comm (a := deps),
    ← imp_iff_not_or]

theorem validateChild_eq_ok_iff (hids : (steps.map (·.id)).Nodup) {child : ExecutionStep}
    {p : String × List String} :
    validateChild digest plan ownership (steps.filter (·.parentStepId.isNone)) child = .ok p ↔
      ∃ parent ∈ steps, ∃ n, BodyInstanceRule digest plan ownership parent child n ∧
        p = (child.stepKey,
          (bodyDependencies parent child).map (iterationStepKey digest parent.id n)) := by
  have hfind (parent : ExecutionStep) :
      (steps.filter (·.parentStepId.isNone)).find? (fun s => some s.id = child.parentStepId) =
        some parent ↔
      parent ∈ steps ∧ parent.parentStepId = none ∧ child.parentStepId = some parent.id := by
    rw [List.find?_eq_some_iff_of_unique, List.mem_filter, decide_eq_true_iff, and_assoc,
      Option.isNone_iff_eq_none, eq_comm (b := child.parentStepId)]
    intro a ha b hb hac hbc
    have hab : some a.id = some b.id :=
      (of_decide_eq_true hac).trans (of_decide_eq_true hbc).symm
    exact List.inj_on_of_nodup_map hids (List.mem_of_mem_filter ha) (List.mem_of_mem_filter hb)
      (Option.some.inj hab)
  constructor
  · intro hvalid
    unfold validateChild at hvalid
    split at hvalid
    · next n parent hn hparent =>
      obtain ⟨hmem, htop, hpar⟩ := (hfind parent).mp hparent
      simp only [Except.bind_eq_ok_iff, assertThat_eq_ok_iff, decide_eq_true_iff, beq_iff_eq,
        exists_const] at hvalid
      obtain ⟨hpos, hloop, hvalid⟩ := hvalid
      split at hvalid
      · next loopPs template hloopPs htemplate =>
        simp only [assertExactPlanProjection, Except.bind_eq_ok_iff, assertThat_eq_ok_iff,
          beq_iff_eq, exists_const, List.contains_iff_mem, pure, Except.pure, Except.ok.injEq,
          validateTypedConfig_eq_ok_iff] at hvalid
        obtain ⟨⟨rfl, hparentType⟩, rfl, howned, htype, hbody, hkey, hversion, deps, hdeps, htyped,
          rfl⟩ := hvalid
        obtain ⟨hknown, -, hjoin, rfl⟩ := childDependencies_eq_ok_iff.mp hdeps
        exact ⟨parent, hmem, n, ⟨hn, hpos, hpar, htop, hloop, hloopPs, hparentType, htemplate,
          howned, htype, hbody, hkey, hversion, hknown, hjoin, htyped⟩, rfl⟩
      · cases hvalid
    · cases hvalid
    · cases hvalid
  · rintro ⟨parent, hmem, n, hrule, rfl⟩
    have hdeps : childDependencies digest parent n (ownership.bodyIds parent.stepKey)
        child.stepSnapshot =
          .ok ((bodyDependencies parent child).map (iterationStepKey digest parent.id n)) :=
      childDependencies_eq_ok_iff.mpr ⟨hrule.known, hrule.typed.toolFanIn, hrule.join, rfl⟩
    unfold validateChild
    rw [hrule.iterationNo, (hfind parent).mpr ⟨hmem, hrule.topLevel, hrule.parentStepId⟩]
    dsimp only
    rw [hrule.parentProjection, hrule.projection]
    simp only [assertExactPlanProjection, Except.bind_eq_ok_iff, assertThat_eq_ok_iff,
      decide_eq_true_iff, beq_iff_eq, exists_const, List.contains_iff_mem, pure, Except.pure,
      Except.ok.injEq, validateTypedConfig_eq_ok_iff]
    exact ⟨hrule.iterationNo_pos, hrule.loop, ⟨trivial, hrule.parentType⟩, trivial, hrule.owned,
      hrule.type, hrule.bodyType, hrule.stepKey, hrule.toolVersion, _, hdeps, hrule.typed, rfl⟩

/-! ### The order of the rows -/

section Perm

variable (hp : rows.Perm steps)
include hp

theorem childrenOf_perm (id : UUID) : (childrenOf rows id).Perm (childrenOf steps id) :=
  hp.filter _

theorem maxMaterializedIteration_perm (id : UUID) :
    maxMaterializedIteration rows id = maxMaterializedIteration steps id :=
  ((childrenOf_perm hp id).filterMap _).foldl_eq 0

theorem contiguousIterations_perm (maxN : ℕ) :
    contiguousIterations rows maxN = contiguousIterations steps maxN := by
  rw [contiguousIterations, contiguousIterations, Bool.eq_iff_iff, List.sameSet_iff,
    List.sameSet_iff]
  simp only [((hp.filterMap (·.iterationNo)).filter (· ≠ 0)).mem_iff]

theorem assertIterationShape_perm (parent : ExecutionStep) (bodyIds : List String) :
    assertIterationShape digest parent rows bodyIds =
      assertIterationShape digest parent steps bodyIds := by
  funext n
  have hiter : (rows.filter (·.iterationNo = some n)).Perm (steps.filter (·.iterationNo = some n)) :=
    hp.filter _
  have htemplates := hiter.map (·.stepSnapshot.id)
  unfold assertIterationShape
  dsimp only
  rw [decide_eq_decide.mpr htemplates.nodup_iff, hiter.length_eq, hiter.all_eq,
    Bool.eq_iff_iff.mpr (List.sameSet_iff.trans ((forall_congr' fun _ =>
      iff_congr htemplates.mem_iff .rfl).trans List.sameSet_iff.symm))]

theorem validateLoopIterationShape_perm (parent : ExecutionStep) :
    validateLoopIterationShape digest plan ownership parent rows =
      validateLoopIterationShape digest plan ownership parent steps := by
  unfold validateLoopIterationShape
  dsimp only
  rw [maxMaterializedIteration_perm hp]
  simp only [hp.all_eq, contiguousIterations_perm hp, assertIterationShape_perm hp,
    (hp.filter _).all_eq]

/-- The instances of an iteration that is complete have one row for each template. -/
theorem byTemplate?_perm {bodyStepIds : List String} (hnodup : bodyStepIds.Nodup)
    (hlength : steps.length = bodyStepIds.length)
    (hset : (steps.map (·.stepSnapshot.id)).sameSet bodyStepIds = true) (templateId : String) :
    byTemplate? rows templateId = byTemplate? steps templateId := by
  have hsub : bodyStepIds.Subperm (steps.map (·.stepSnapshot.id)) :=
    List.subperm_of_subset hnodup fun x hx => (List.sameSet_iff.mp hset x).mpr hx
  have htemplates : (steps.map (·.stepSnapshot.id)).Nodup :=
    (hsub.perm_of_length_le (by rw [List.length_map, hlength])).nodup_iff.mp hnodup
  have hfind : ∀ l : List ExecutionStep, l.Perm steps → ∀ s,
      l.reverse.find? (·.stepSnapshot.id = templateId) = some s ↔
        s ∈ steps ∧ s.stepSnapshot.id = templateId := by
    intro l hl s
    have hrev : l.reverse.Perm steps := (List.reverse_perm l).trans hl
    rw [List.find?_eq_some_iff_of_unique, decide_eq_true_iff, hrev.mem_iff]
    intro a ha b hb hat hbt
    exact List.inj_on_of_nodup_map htemplates (hrev.mem_iff.mp ha) (hrev.mem_iff.mp hb)
      ((of_decide_eq_true hat).trans (of_decide_eq_true hbt).symm)
  refine Option.ext fun s => ?_
  exact (hfind rows hp s).trans (hfind steps (.refl _) s).symm

theorem assertIterationSetCompleteTerminal_perm {parent : ExecutionStep} {bodyStepIds : List String}
    (hnodup : bodyStepIds.Nodup) {n : ℕ}
    (h : assertIterationSetCompleteTerminal digest plan steps parent bodyStepIds n = .ok ()) :
    assertIterationSetCompleteTerminal digest plan rows parent bodyStepIds n = .ok () := by
  have hiter : (childInstancesForIteration rows parent.id n).Perm
      (childInstancesForIteration steps parent.id n) := hp.filter _
  have htemplates := hiter.map (·.stepSnapshot.id)
  unfold assertIterationSetCompleteTerminal at h ⊢
  simp only [Except.bind_eq_ok_iff, assertThat_eq_ok_iff, beq_iff_eq, exists_const] at h ⊢
  obtain ⟨hlength, hset, hbody⟩ := h
  refine ⟨hiter.length_eq.trans hlength, ?_, ?_⟩
  · rw [List.sameSet_iff] at hset ⊢
    simpa only [htemplates.mem_iff] using hset
  · simpa only [byTemplate?_perm hiter hnodup hlength hset] using hbody

/-- Every iteration that was complete still is. -/
theorem forM_assertIterationSetCompleteTerminal_perm {parent : ExecutionStep}
    {bodyStepIds : List String} (hnodup : bodyStepIds.Nodup) {ns : List ℕ}
    (h : ns.forM (assertIterationSetCompleteTerminal digest plan steps parent bodyStepIds) =
      .ok ()) :
    ns.forM (assertIterationSetCompleteTerminal digest plan rows parent bodyStepIds) = .ok () :=
  List.forM_eq_ok_iff.mpr fun n hn =>
    assertIterationSetCompleteTerminal_perm hp hnodup (List.forM_eq_ok_iff.mp h n hn)

theorem assertTrueCompleteIterations_perm {parent : ExecutionStep} {bodyStepIds : List String}
    (hnodup : bodyStepIds.Nodup) {history : List GateEntry} {maxN : ℕ}
    (h : assertTrueCompleteIterations digest plan steps parent bodyStepIds history maxN = .ok ()) :
    assertTrueCompleteIterations digest plan rows parent bodyStepIds history maxN = .ok () := by
  obtain ⟨_, hiter, hgates⟩ := Except.bind_eq_ok_iff.mp h
  exact Except.bind_eq_ok_iff.mpr
    ⟨(), forM_assertIterationSetCompleteTerminal_perm hp hnodup hiter, hgates⟩

variable {parent : ExecutionStep} {cfg : LoopStepConfigV1} {history : List GateEntry}

theorem assertWhileSucceeded_perm
    (h : assertWhileSucceeded digest plan steps parent cfg history = .ok ()) :
    assertWhileSucceeded digest plan rows parent cfg history = .ok () := by
  unfold assertWhileSucceeded at h ⊢
  simp only [Except.bind_eq_ok_iff, maxMaterializedIteration_perm hp,
    contiguousIterations_perm (childrenOf_perm hp parent.id)] at h ⊢
  obtain ⟨_, hcontiguous, _, hiter, hrest⟩ := h
  exact ⟨_, hcontiguous, (),
    assertTrueCompleteIterations_perm hp cfg.bodyStepIds_nodup hiter, hrest⟩

theorem assertWhileMaxIterationsExceeded_perm
    (h : assertWhileMaxIterationsExceeded digest plan steps parent cfg history = .ok ()) :
    assertWhileMaxIterationsExceeded digest plan rows parent cfg history = .ok () := by
  unfold assertWhileMaxIterationsExceeded at h ⊢
  simp only [Except.bind_eq_ok_iff, maxMaterializedIteration_perm hp] at h ⊢
  obtain ⟨_, hmax, _, hiter, hrest⟩ := h
  exact ⟨_, hmax, (), assertTrueCompleteIterations_perm hp cfg.bodyStepIds_nodup hiter, hrest⟩

theorem assertWhileRunning_perm
    (h : assertWhileRunning digest plan steps parent cfg history = .ok ()) :
    assertWhileRunning digest plan rows parent cfg history = .ok () := by
  unfold assertWhileRunning at h ⊢
  simp only [maxMaterializedIteration_perm hp,
    contiguousIterations_perm (childrenOf_perm hp parent.id)] at h ⊢
  by_cases hfresh : maxMaterializedIteration steps parent.id < 1
  · rw [if_pos hfresh] at h ⊢
    exact h
  rw [if_neg hfresh] at h ⊢
  obtain ⟨_, hcontiguous, h⟩ := Except.bind_eq_ok_iff.mp h
  obtain ⟨_, hgates, h⟩ := Except.bind_eq_ok_iff.mp h
  refine Except.bind_eq_ok_iff.mpr ⟨_, hcontiguous, Except.bind_eq_ok_iff.mpr ⟨_, hgates, ?_⟩⟩
  -- Only a gate for the next iteration asks for the rows of the earlier ones.
  cases hentry : historyEntryFor history (maxMaterializedIteration steps parent.id + 1) with
  | none =>
    rw [hentry] at h
    exact h
  | some entry =>
    rw [hentry] at h
    obtain ⟨_, hiter, hlength⟩ := Except.bind_eq_ok_iff.mp h
    exact Except.bind_eq_ok_iff.mpr
      ⟨(), forM_assertIterationSetCompleteTerminal_perm hp cfg.bodyStepIds_nodup hiter, hlength⟩

theorem assertWhileParentControlState_perm
    (h : assertWhileParentControlState digest plan steps parent cfg = .ok ()) :
    assertWhileParentControlState digest plan rows parent cfg = .ok () := by
  have hempty : (childrenOf rows parent.id).isEmpty = (childrenOf steps parent.id).isEmpty :=
    (childrenOf_perm hp parent.id).isEmpty_eq
  unfold assertWhileParentControlState at h ⊢
  simp only [Except.bind_eq_ok_iff, hempty] at h ⊢
  obtain ⟨_, htop, _, hloop, _, hmode, _, hsnapshot, h⟩ := h
  refine ⟨_, htop, _, hloop, _, hmode, _, hsnapshot, ?_⟩
  split
  · next hskipped => rwa [if_pos hskipped] at h
  next hskipped =>
  rw [if_neg hskipped] at h
  split
  · next hinput => rwa [if_pos hinput] at h
  next hinput =>
  rw [if_neg hinput] at h
  obtain ⟨history, hhistory, h⟩ := Except.bind_eq_ok_iff.mp h
  refine Except.bind_eq_ok_iff.mpr ⟨history, hhistory, ?_⟩
  split
  · next hst =>
    rw [if_pos hst] at h
    exact assertWhileSucceeded_perm hp h
  next hsucceeded =>
  rw [if_neg hsucceeded] at h
  split
  · next hst =>
    rw [if_pos hst] at h
    exact assertWhileMaxIterationsExceeded_perm hp h
  next hexceeded =>
  rw [if_neg hexceeded] at h
  split
  · next hst =>
    rw [if_pos hst] at h
    exact assertWhileRunning_perm hp h
  next hrunning =>
  rw [if_neg hrunning] at h
  split
  · next hst =>
    rw [if_pos hst] at h
    rwa [assertWhileTimedOut, maxMaterializedIteration_perm hp]
  · rfl

theorem validateWhileParent_perm {top : ExecutionStep}
    (h : validateWhileParent digest plan steps top = .ok ()) :
    validateWhileParent digest plan rows top = .ok () := by
  unfold validateWhileParent at h ⊢
  split
  · rfl
  next hloop =>
  rw [if_neg hloop] at h
  split
  · next cfg hcfg =>
    rw [hcfg] at h
    dsimp only at h
    split
    · next hmode =>
      rw [if_pos hmode] at h
      exact assertWhileParentControlState_perm hp h
    · rfl
  · rfl

end Perm

/-! ### The rules of all rows -/

/-- The shape rules of `validate_tool_join_dag`. -/
structure ShapeRules (digest : TemplateDigest) (plan : ExecutionPlanV1)
    (ownership : LoopBodyOwnership) (steps : List ExecutionStep) : Prop where
  nonempty : steps ≠ []
  stepKeys : (steps.map (·.stepKey)).Nodup
  flat : ownership.bodyToLoop ≠ [] → assertFlatForeachRuntimeCompatible plan ownership = .ok ()
  bodyless : ownership.bodyToLoop = [] → ∀ s ∈ steps, s.parentStepId = none ∧ s.stepType ≠ .loop
  topIteration : ownership.bodyToLoop ≠ [] → ∀ s ∈ steps, s.parentStepId = none →
    s.iterationNo = none
  planned : ∀ s ∈ steps, s.parentStepId = none →
    ∃ ps ∈ plan.steps.filter ownership.isTopLevel, ps.id = s.stepKey
  topLevel : ∀ ps ∈ plan.steps.filter ownership.isTopLevel,
    TopLevelRule ((plan.steps.filter ownership.isTopLevel).map (·.id))
      (!ownership.bodyToLoop.isEmpty) steps ps
  instances : ∀ child ∈ steps, child.parentStepId ≠ none →
    ∃ parent ∈ steps, ∃ n, BodyInstanceRule digest plan ownership parent child n
  iterations : ∀ parent ∈ steps, parent.parentStepId = none → childrenOf steps parent.id ≠ [] →
    validateLoopIterationShape digest plan ownership parent (childrenOf steps parent.id) = .ok ()
  whiles : ∀ top ∈ steps, top.parentStepId = none →
    validateWhileParent digest plan steps top = .ok ()

/-- The rules do not look at the order of the rows. -/
theorem ShapeRules.perm (h : ShapeRules digest plan ownership steps) (hp : rows.Perm steps) :
    ShapeRules digest plan ownership rows where
  nonempty := fun hnil => h.nonempty (List.perm_nil.mp (hnil ▸ hp.symm))
  stepKeys := (hp.map _).nodup_iff.mpr h.stepKeys
  flat := h.flat
  bodyless := fun hbody s hs => h.bodyless hbody s (hp.mem_iff.mp hs)
  topIteration := fun hbody s hs => h.topIteration hbody s (hp.mem_iff.mp hs)
  planned := fun s hs => h.planned s (hp.mem_iff.mp hs)
  topLevel := fun ps hps => by
    obtain ⟨⟨step, hmem, hstep⟩, hnodup, hknown⟩ := h.topLevel ps hps
    exact ⟨⟨step, hp.mem_iff.mpr hmem, hstep⟩, hnodup, hknown⟩
  instances := fun child hchild hpar => by
    obtain ⟨parent, hmem, hrule⟩ := h.instances child (hp.mem_iff.mp hchild) hpar
    exact ⟨parent, hp.mem_iff.mpr hmem, hrule⟩
  iterations := fun parent hmem hpar hne => by
    have hchildren := childrenOf_perm hp parent.id
    rw [validateLoopIterationShape_perm hchildren]
    refine h.iterations parent (hp.mem_iff.mp hmem) hpar fun hnil => hne ?_
    exact List.perm_nil.mp (hnil ▸ hchildren)
  whiles := fun top hmem hpar =>
    validateWhileParent_perm hp (h.whiles top (hp.mem_iff.mp hmem) hpar)

/-! ### The declared dependencies -/

/-- The keys that a row depends on: those of its plan step, or for a body instance those of the
instances of its iteration. -/
def rowDependencies (digest : TemplateDigest) (steps : List ExecutionStep) (s : ExecutionStep) :
    List String :=
  match s.parentStepId with
  | none => s.stepSnapshot.dependsOn
  | some parentStepId => match steps.find? (·.id = parentStepId) with
    | none => []
    | some parent => (bodyDependencies parent s).map
        (iterationStepKey digest parent.id (s.iterationNo.getD 0))

/-- The keys that the row of a key depends on. -/
def dependencyKeys (digest : TemplateDigest) (steps : List ExecutionStep) (stepKey : String) :
    List String :=
  match rowByKey steps stepKey with
  | none => []
  | some s => rowDependencies digest steps s

theorem find?_id_iff (hids : (steps.map (·.id)).Nodup) {id : UUID} {s : ExecutionStep} :
    steps.find? (·.id = id) = some s ↔ s ∈ steps ∧ s.id = id := by
  rw [List.find?_eq_some_iff_of_unique, decide_eq_true_iff]
  intro a ha b hb hai hbi
  exact List.inj_on_of_nodup_map hids ha hb
    ((of_decide_eq_true hai).trans (of_decide_eq_true hbi).symm)

theorem dependencyKeys_perm (hids : (steps.map (·.id)).Nodup)
    (hkeys : (steps.map (·.stepKey)).Nodup) (hp : rows.Perm steps) :
    dependencyKeys digest rows = dependencyKeys digest steps := by
  have hfind (id : UUID) : rows.find? (·.id = id) = steps.find? (·.id = id) := by
    refine Option.ext fun s => ?_
    have hrows : (rows.map (·.id)).Nodup := (hp.map _).nodup_iff.mpr hids
    exact (find?_id_iff hrows).trans
      ((and_congr_left fun _ => hp.mem_iff).trans (find?_id_iff hids).symm)
  have hrow (k : String) : rowByKey rows k = rowByKey steps k := by
    refine Option.ext fun s => ?_
    have hrows : (rows.map (·.stepKey)).Nodup := (hp.map _).nodup_iff.mpr hkeys
    exact (rowByKey_eq_some_iff hrows).trans
      ((and_congr_left fun _ => hp.mem_iff).trans (rowByKey_eq_some_iff hkeys).symm)
  funext k
  unfold dependencyKeys rowDependencies
  rw [hrow]
  simp only [hfind]

/-- The dependencies of a body instance are those the validation computes. -/
theorem BodyInstanceRule.rowDependencies_eq (hids : (steps.map (·.id)).Nodup)
    {parent child : ExecutionStep} {n : ℕ} (hparent : parent ∈ steps)
    (h : BodyInstanceRule digest plan ownership parent child n) :
    rowDependencies digest steps child =
      (bodyDependencies parent child).map (iterationStepKey digest parent.id n) := by
  have hfind : steps.find? (·.id = parent.id) = some parent :=
    (find?_id_iff hids).mpr ⟨hparent, rfl⟩
  unfold rowDependencies
  rw [h.parentStepId]
  dsimp only
  rw [hfind, h.iterationNo]
  rfl

/-- The edges of the schedule. -/
def scheduleEdges (digest : TemplateDigest) (plan : ExecutionPlanV1)
    (ownership : LoopBodyOwnership) (steps : List ExecutionStep) : List (String × List String) :=
  (plan.steps.filter ownership.isTopLevel).map (fun ps => (ps.id, ps.dependsOn)) ++
    (steps.filter (·.parentStepId.isSome)).map fun c => (c.stepKey, rowDependencies digest steps c)

namespace ShapeRules

/-- The plan steps at the top level and the body instances are the rows. -/
theorem keys_scheduleEdges (h : ShapeRules digest plan ownership steps)
    (hplan : (plan.steps.map (·.id)).Nodup) :
    (Dict.keys (scheduleEdges digest plan ownership steps)).Nodup ∧
      ∀ k, k ∈ Dict.keys (scheduleEdges digest plan ownership steps) ↔
        k ∈ steps.map (·.stepKey) := by
  have hkeys : Dict.keys (scheduleEdges digest plan ownership steps) =
      (plan.steps.filter ownership.isTopLevel).map (·.id) ++
        (steps.filter (·.parentStepId.isSome)).map (·.stepKey) := by
    rw [Dict.keys, scheduleEdges, List.map_append, List.map_map, List.map_map]
    rfl
  rw [hkeys]
  constructor
  · refine List.nodup_append.mpr ⟨hplan.sublist (List.filter_sublist.map _),
      h.stepKeys.sublist (List.filter_sublist.map _), ?_⟩
    rintro a ha b hb rfl
    obtain ⟨ps, hps, rfl⟩ := List.mem_map.mp ha
    obtain ⟨c, hc, hkey⟩ := List.mem_map.mp hb
    obtain ⟨hc, hchild⟩ := List.mem_filter.mp hc
    obtain ⟨step, hstep, hid, htop, -⟩ := (h.topLevel ps hps).row
    obtain rfl := List.inj_on_of_nodup_map h.stepKeys hc hstep (hkey.trans hid.symm)
    rw [htop] at hchild
    cases hchild
  · intro k
    rw [List.mem_append, List.mem_map, List.mem_map, List.mem_map]
    constructor
    · rintro (⟨ps, hps, rfl⟩ | ⟨c, hc, rfl⟩)
      · obtain ⟨step, hstep, hid, -⟩ := (h.topLevel ps hps).row
        exact ⟨step, hstep, hid⟩
      · exact ⟨c, List.mem_of_mem_filter hc, rfl⟩
    · rintro ⟨s, hs, rfl⟩
      cases hpar : s.parentStepId with
      | none =>
        obtain ⟨ps, hps, hid⟩ := h.planned s hs hpar
        exact .inl ⟨ps, hps, hid⟩
      | some parentStepId =>
        exact .inr ⟨s, List.mem_filter.mpr ⟨hs, by rw [hpar]; rfl⟩, rfl⟩

/-- The edges before a key are the dependencies that its row declares. -/
theorem edgeDeps_scheduleEdges (h : ShapeRules digest plan ownership steps)
    (hplan : (plan.steps.map (·.id)).Nodup) :
    edgeDeps (scheduleEdges digest plan ownership steps) = dependencyKeys digest steps := by
  obtain ⟨hnodup, hmem⟩ := h.keys_scheduleEdges hplan
  funext k
  unfold dependencyKeys
  cases hrow : rowByKey steps k with
  | none =>
    refine edgeDeps_of_not_mem fun hk => ?_
    obtain ⟨s, hs, hkey⟩ := List.mem_map.mp ((hmem k).mp hk)
    rw [(rowByKey_eq_some_iff h.stepKeys).mpr ⟨hs, hkey⟩] at hrow
    cases hrow
  | some s =>
    obtain ⟨hs, rfl⟩ := (rowByKey_eq_some_iff h.stepKeys).mp hrow
    dsimp only
    cases hpar : s.parentStepId with
    | none =>
      obtain ⟨ps, hps, hid⟩ := h.planned s hs hpar
      obtain ⟨step, hstep, hkey, -, hsnapshot, -⟩ := (h.topLevel ps hps).row
      obtain rfl := List.inj_on_of_nodup_map h.stepKeys hs hstep (hid.symm.trans hkey.symm)
      have hedge : (ps.id, ps.dependsOn) ∈ scheduleEdges digest plan ownership steps :=
        List.mem_append_left _ (List.mem_map.mpr ⟨ps, hps, rfl⟩)
      rw [rowDependencies, hpar, hsnapshot, ← hid]
      exact edgeDeps_of_mem hnodup hedge
    | some parentStepId =>
      have hedge : (s.stepKey, rowDependencies digest steps s) ∈
          scheduleEdges digest plan ownership steps :=
        List.mem_append_right _ (List.mem_map.mpr
          ⟨s, List.mem_filter.mpr ⟨hs, by rw [hpar]; rfl⟩, rfl⟩)
      exact edgeDeps_of_mem hnodup hedge

/-- The instances of one iteration are there together, under their canonical keys. -/
theorem exists_sibling (h : ShapeRules digest plan ownership steps) {parent child : ExecutionStep}
    {n : ℕ} (hparent : parent ∈ steps) (hchild : child ∈ steps)
    (hrule : BodyInstanceRule digest plan ownership parent child n) {template : String}
    (htemplate : template ∈ ownership.bodyIds parent.stepKey) :
    ∃ t ∈ steps, t.stepKey = iterationStepKey digest parent.id n template ∧
      t.parentStepId = some parent.id ∧ t.iterationNo = some n := by
  have hmem : child ∈ childrenOf steps parent.id :=
    List.mem_filter.mpr ⟨hchild, decide_eq_true hrule.parentStepId⟩
  have hshape := h.iterations parent hparent hrule.topLevel (List.ne_nil_of_mem hmem)
  unfold validateLoopIterationShape at hshape
  dsimp only at hshape
  obtain ⟨_, -, hshape⟩ := Except.bind_eq_ok_iff.mp hshape
  split at hshape
  · next cfg hcfg =>
    simp only [Except.bind_eq_ok_iff] at hshape
    obtain ⟨_, -, bound, -, _, -, _, -, _, -, _, hiter, -⟩ := hshape
    have hle : n ≤ maxMaterializedIteration (childrenOf steps parent.id) parent.id := by
      refine List.le_foldl_max (.inr (List.mem_filterMap.mpr ⟨child, ?_, hrule.iterationNo⟩))
      exact List.mem_filter.mpr ⟨hmem, decide_eq_true hrule.parentStepId⟩
    have hrange : n ∈ List.range' 1
        (maxMaterializedIteration (childrenOf steps parent.id) parent.id) :=
      List.mem_range'_1.mpr ⟨hrule.iterationNo_pos, by omega⟩
    have hn := List.forM_eq_ok_iff.mp hiter n hrange
    unfold assertIterationShape at hn
    simp only [Except.bind_eq_ok_iff, assertThat_eq_ok_iff, exists_const, List.all_eq_true,
      beq_iff_eq] at hn
    obtain ⟨-, hset, -, hcanonical⟩ := hn
    obtain ⟨t, ht, rfl⟩ := List.mem_map.mp ((List.sameSet_iff.mp hset template).mpr htemplate)
    have hkey := hcanonical t ht
    obtain ⟨ht, hiterationNo⟩ := List.mem_filter.mp ht
    obtain ⟨ht, hpar⟩ := List.mem_filter.mp ht
    exact ⟨t, ht, hkey, of_decide_eq_true hpar, of_decide_eq_true hiterationNo⟩
  · cases hshape

/-- Every dependency names a row of the same scope: the top level, or the iteration. -/
theorem closed (h : ShapeRules digest plan ownership steps) (hids : (steps.map (·.id)).Nodup)
    {s : ExecutionStep} (hs : s ∈ steps) {d : String} (hd : d ∈ rowDependencies digest steps s) :
    ∃ t ∈ steps, t.stepKey = d ∧ t.parentStepId = s.parentStepId ∧
      (s.parentStepId ≠ none → t.iterationNo = s.iterationNo) := by
  cases hpar : s.parentStepId with
  | none =>
    obtain ⟨ps, hps, hid⟩ := h.planned s hs hpar
    obtain ⟨⟨step, hstep, hkey, -, hsnapshot, -⟩, -, hknown⟩ := h.topLevel ps hps
    obtain rfl := List.inj_on_of_nodup_map h.stepKeys hs hstep (hid.symm.trans hkey.symm)
    rw [rowDependencies, hpar, hsnapshot] at hd
    obtain ⟨dep, hdep, rfl⟩ := List.mem_map.mp (hknown d hd)
    obtain ⟨t, ht, htkey, htop, -⟩ := (h.topLevel dep hdep).row
    exact ⟨t, ht, htkey, htop, fun hne => absurd rfl hne⟩
  | some parentStepId =>
    obtain ⟨parent, hparent, n, hrule⟩ := h.instances s hs (by rw [hpar]; exact nofun)
    rw [hrule.rowDependencies_eq hids hparent] at hd
    obtain ⟨template, htemplate, rfl⟩ := List.mem_map.mp hd
    obtain ⟨t, ht, hkey, htpar, hiter⟩ :=
      h.exists_sibling hparent hs hrule (hrule.known template htemplate)
    exact ⟨t, ht, hkey, htpar.trans (hrule.parentStepId.symm.trans hpar),
      fun _ => hiter.trans hrule.iterationNo.symm⟩

theorem mem_of_mem_dependencyKeys (h : ShapeRules digest plan ownership steps)
    (hids : (steps.map (·.id)).Nodup) {k d : String} (hd : d ∈ dependencyKeys digest steps k) :
    d ∈ steps.map (·.stepKey) := by
  unfold dependencyKeys at hd
  cases hrow : rowByKey steps k with
  | none =>
    rw [hrow] at hd
    cases hd
  | some s =>
    rw [hrow] at hd
    obtain ⟨t, ht, hkey, -⟩ := h.closed hids ((rowByKey_eq_some_iff h.stepKeys).mp hrow).1 hd
    exact List.mem_map.mpr ⟨t, ht, hkey⟩

/-- A row without dependencies, or a TOOL with one, or a JOIN with some: the arity of each kind. -/
theorem arity (h : ShapeRules digest plan ownership steps) (hids : (steps.map (·.id)).Nodup)
    {s : ExecutionStep} (hs : s ∈ steps) :
    (s.stepType = .tool → (rowDependencies digest steps s).length ≤ 1) ∧
      (s.stepType = .join → rowDependencies digest steps s ≠ []) := by
  cases hpar : s.parentStepId with
  | none =>
    obtain ⟨ps, hps, hid⟩ := h.planned s hs hpar
    obtain ⟨step, hstep, hkey, -, hsnapshot, htype, htyped⟩ := (h.topLevel ps hps).row
    obtain rfl := List.inj_on_of_nodup_map h.stepKeys hs hstep (hid.symm.trans hkey.symm)
    rw [rowDependencies, hpar, hsnapshot, htype]
    dsimp only
    refine ⟨htyped.toolFanIn, fun hjoin => ?_⟩
    rw [TypedConfig, hjoin] at htyped
    exact htyped.2.2
  | some parentStepId =>
    obtain ⟨parent, hparent, n, hrule⟩ := h.instances s hs (by rw [hpar]; exact nofun)
    rw [hrule.rowDependencies_eq hids hparent, hrule.type, List.length_map]
    refine ⟨hrule.typed.toolFanIn, fun hjoin hnil => ?_⟩
    have htyped := hrule.typed
    rw [TypedConfig, hjoin] at htyped
    exact htyped.2.2 (List.map_eq_nil_iff.mp hnil)

end ShapeRules

/-! ### The validation -/

/-- Without LOOP bodies every plan step is at the top level. -/
theorem filter_isTopLevel_of_nil (h : ownership.bodyToLoop = []) :
    plan.steps.filter ownership.isTopLevel = plan.steps := by
  refine List.filter_eq_self.mpr fun ps _ => ?_
  rw [LoopBodyOwnership.isTopLevel, h]
  rfl

/-- What the rows have in common with the plan. -/
structure RowsMatch (plan : ExecutionPlanV1) (ownership : LoopBodyOwnership)
    (steps : List ExecutionStep) : Prop where
  bodyless : ownership.bodyToLoop = [] → ∀ s ∈ steps, s.parentStepId = none ∧ s.stepType ≠ .loop
  topIteration : ownership.bodyToLoop ≠ [] → ∀ s ∈ steps, s.parentStepId = none →
    s.iterationNo = none
  planned : ∀ s ∈ steps, s.parentStepId = none →
    ∃ ps ∈ plan.steps.filter ownership.isTopLevel, ps.id = s.stepKey
  present : ∀ ps ∈ plan.steps.filter ownership.isTopLevel,
    ∃ s ∈ steps, s.parentStepId = none ∧ s.stepKey = ps.id

theorem assertRowsMatchPlan_eq_ok_iff (hplan : (plan.steps.map (·.id)).Nodup)
    (hkeys : (steps.map (·.stepKey)).Nodup) :
    assertRowsMatchPlan plan (!ownership.bodyToLoop.isEmpty)
        (plan.steps.filter ownership.isTopLevel) steps = .ok () ↔
      RowsMatch plan ownership steps := by
  unfold assertRowsMatchPlan
  by_cases hbody : ownership.bodyToLoop = []
  · have hif : ¬(!ownership.bodyToLoop.isEmpty) = true := by rw [hbody]; exact nofun
    rw [if_neg hif]
    simp only [Except.bind_eq_ok_iff, assertThat_eq_ok_iff, exists_const, List.all_eq_true,
      Option.isNone_iff_eq_none, beq_iff_eq, bne_iff_ne, List.sameSet_iff]
    constructor
    · rintro ⟨htop, -, hset, hloop⟩
      refine ⟨fun _ s hs => ⟨htop s hs, hloop s hs⟩, fun hne => absurd hbody hne,
        fun s hs _ => ?_, fun ps hps => ?_⟩
      · rw [filter_isTopLevel_of_nil hbody]
        exact List.mem_map.mp ((hset _).mp (List.mem_map_of_mem hs))
      · obtain ⟨s, hs, hkey⟩ := List.mem_map.mp
          ((hset ps.id).mpr (List.mem_map_of_mem (List.mem_of_mem_filter hps)))
        exact ⟨s, hs, htop s hs, hkey⟩
    · intro h
      have hset : ∀ k, k ∈ steps.map (·.stepKey) ↔ k ∈ plan.steps.map (·.id) := fun k => by
        rw [List.mem_map, List.mem_map]
        constructor
        · rintro ⟨s, hs, rfl⟩
          obtain ⟨ps, hps, hid⟩ := h.planned s hs (h.bodyless hbody s hs).1
          exact ⟨ps, List.mem_of_mem_filter hps, hid⟩
        · rintro ⟨ps, hps, rfl⟩
          obtain ⟨s, hs, -, hkey⟩ := h.present ps (by rwa [filter_isTopLevel_of_nil hbody])
          exact ⟨s, hs, hkey⟩
      have hlength := ((List.perm_ext_iff_of_nodup hkeys hplan).mpr hset).length_eq
      rw [List.length_map, List.length_map] at hlength
      exact ⟨fun s hs => (h.bodyless hbody s hs).1, hlength.symm, hset,
        fun s hs => (h.bodyless hbody s hs).2⟩
  · have hif : (!ownership.bodyToLoop.isEmpty) = true := by
      rw [Bool.not_eq_true', List.isEmpty_eq_false_iff]
      exact hbody
    rw [if_pos hif]
    simp only [Except.bind_eq_ok_iff, assertThat_eq_ok_iff, exists_const, List.all_eq_true,
      Option.isNone_iff_eq_none, List.sameSet_iff, List.mem_filter, and_imp]
    constructor
    · rintro ⟨hiter, hset⟩
      refine ⟨fun hnil => absurd hnil hbody, fun _ => hiter, fun s hs hpar => ?_, fun ps hps => ?_⟩
      · have hmem : s.stepKey ∈ (steps.filter (·.parentStepId.isNone)).map (·.stepKey) :=
          List.mem_map_of_mem (List.mem_filter.mpr ⟨hs, by rw [hpar]; rfl⟩)
        exact List.mem_map.mp ((hset _).mp hmem)
      · obtain ⟨s, hs, hkey⟩ := List.mem_map.mp ((hset ps.id).mpr (List.mem_map_of_mem hps))
        obtain ⟨hs, hpar⟩ := List.mem_filter.mp hs
        exact ⟨s, hs, Option.isNone_iff_eq_none.mp hpar, hkey⟩
    · intro h
      refine ⟨h.topIteration hbody, fun k => ?_⟩
      rw [List.mem_map, List.mem_map]
      constructor
      · rintro ⟨s, hs, rfl⟩
        obtain ⟨hs, hpar⟩ := List.mem_filter.mp hs
        exact h.planned s hs (Option.isNone_iff_eq_none.mp hpar)
      · rintro ⟨ps, hps, rfl⟩
        obtain ⟨s, hs, hpar, hkey⟩ := h.present ps hps
        exact ⟨s, List.mem_filter.mpr ⟨hs, by rw [hpar]; rfl⟩, hkey⟩

/-- The rules make the rows match the plan. -/
theorem ShapeRules.rowsMatch (h : ShapeRules digest plan ownership steps) :
    RowsMatch plan ownership steps := by
  refine ⟨h.bodyless, h.topIteration, h.planned, fun ps hps => ?_⟩
  obtain ⟨s, hs, hkey, hpar, -⟩ := (h.topLevel ps hps).row
  exact ⟨s, hs, hpar, hkey⟩

/-- The checks of the rows as lists are the shape rules. -/
theorem ValidatedDag.shape {topDeps childDeps : List (String × List String)} {dag : ToolJoinDag}
    (h : ValidatedDag digest plan steps ownership topDeps childDeps dag)
    (hplan : (plan.steps.map (·.id)).Nodup) (hids : (steps.map (·.id)).Nodup) :
    ShapeRules digest plan ownership steps ∧
      topDeps ++ childDeps = scheduleEdges digest plan ownership steps := by
  have htop := (List.mapM_eq_ok_iff (g := fun ps : ExecutionPlanStep => (ps.id, ps.dependsOn))
    fun ps _ p hp => ((validateTopLevelStep_eq_ok_iff h.nodup).mp hp).2).mp h.top
  have hinstance : ∀ c ∈ steps.filter (·.parentStepId.isSome), ∀ p,
      validateChild digest plan ownership (steps.filter (·.parentStepId.isNone)) c = .ok p →
        p = (c.stepKey, rowDependencies digest steps c) := by
    intro c _ p hp
    obtain ⟨parent, hparent, n, hrule, rfl⟩ := (validateChild_eq_ok_iff hids).mp hp
    rw [hrule.rowDependencies_eq hids hparent]
  have hchildren := (List.mapM_eq_ok_iff hinstance).mp h.children
  refine ⟨?_, ?_⟩
  · have hrows := (assertRowsMatchPlan_eq_ok_iff hplan h.nodup).mp h.rows
    refine ⟨h.nonempty, h.nodup, h.flat, hrows.bodyless, hrows.topIteration, hrows.planned,
      fun ps hps => ((validateTopLevelStep_eq_ok_iff h.nodup).mp (htop.1 ps hps)).1,
      fun c hc hpar => ?_, fun parent hparent hpar hne => ?_, fun top hmem hpar => ?_⟩
    · have hsome : c.parentStepId.isSome = true := Option.isSome_iff_ne_none.mpr hpar
      obtain ⟨parent, hparent, n, hrule, -⟩ := (validateChild_eq_ok_iff hids).mp
        (hchildren.1 c (List.mem_filter.mpr ⟨hc, hsome⟩))
      exact ⟨parent, hparent, n, hrule⟩
    · refine List.forM_eq_ok_iff.mp h.iterations parent (List.mem_filter.mpr ⟨?_, ?_⟩)
      · exact List.mem_filter.mpr ⟨hparent, by rw [hpar]; rfl⟩
      · rw [Bool.not_eq_true', List.isEmpty_eq_false_iff]
        exact hne
    · exact List.forM_eq_ok_iff.mp h.whiles top
        (List.mem_filter.mpr ⟨hmem, by rw [hpar]; rfl⟩)
  · rw [htop.2, hchildren.2]
    rfl

/-- The checks pass when the rules hold, up to the order. -/
theorem ShapeRules.validate (h : ShapeRules digest plan ownership steps)
    (hplan : (plan.steps.map (·.id)).Nodup) (hids : (steps.map (·.id)).Nodup)
    (howned : buildLoopBodyOwnership plan = .ok ownership)
    (hacyclic : Acyclic (dependencyKeys digest steps)) :
    ∃ dag, validateToolJoinDag digest plan steps = .ok dag := by
  obtain ⟨hnodup, hmem⟩ := h.keys_scheduleEdges hplan
  have hdeps := h.edgeDeps_scheduleEdges hplan
  have hempty : (!steps.isEmpty) = true := by
    rw [Bool.not_eq_true', List.isEmpty_eq_false_iff]
    exact h.nonempty
  have hrows := (assertRowsMatchPlan_eq_ok_iff hplan h.stepKeys).mpr h.rowsMatch
  have htop := (List.mapM_eq_ok_iff (g := fun ps : ExecutionPlanStep => (ps.id, ps.dependsOn))
    fun ps _ p hp => ((validateTopLevelStep_eq_ok_iff h.stepKeys).mp hp).2).mpr
    ⟨fun ps hps => (validateTopLevelStep_eq_ok_iff h.stepKeys).mpr ⟨h.topLevel ps hps, rfl⟩, rfl⟩
  have hchildren : (steps.filter (·.parentStepId.isSome)).mapM
      (validateChild digest plan ownership (steps.filter (·.parentStepId.isNone))) =
      .ok ((steps.filter (·.parentStepId.isSome)).map
        fun c => (c.stepKey, rowDependencies digest steps c)) := by
    refine (List.mapM_eq_ok_iff fun c hc p hp => ?_).mpr ⟨fun c hc => ?_, rfl⟩
    · obtain ⟨parent, hparent, n, hrule, rfl⟩ := (validateChild_eq_ok_iff hids).mp hp
      rw [hrule.rowDependencies_eq hids hparent]
    · obtain ⟨hc, hsome⟩ := List.mem_filter.mp hc
      obtain ⟨parent, hparent, n, hrule⟩ :=
        h.instances c hc (Option.isSome_iff_ne_none.mp hsome)
      refine (validateChild_eq_ok_iff hids).mpr ⟨parent, hparent, n, hrule, ?_⟩
      rw [hrule.rowDependencies_eq hids hparent]
  have hiter : ((steps.filter (·.parentStepId.isNone)).filter
      fun s => !(childrenOf steps s.id).isEmpty).forM (fun parent =>
        validateLoopIterationShape digest plan ownership parent (childrenOf steps parent.id)) =
      .ok () := by
    refine List.forM_eq_ok_iff.mpr fun parent hparent => ?_
    obtain ⟨hparent, hne⟩ := List.mem_filter.mp hparent
    obtain ⟨hparent, hpar⟩ := List.mem_filter.mp hparent
    refine h.iterations parent hparent (Option.isNone_iff_eq_none.mp hpar) ?_
    rwa [Bool.not_eq_true', List.isEmpty_eq_false_iff] at hne
  have hwhile : (steps.filter (·.parentStepId.isNone)).forM
      (validateWhileParent digest plan steps) = .ok () := by
    refine List.forM_eq_ok_iff.mpr fun top htop => ?_
    obtain ⟨htop, hpar⟩ := List.mem_filter.mp htop
    exact h.whiles top htop (Option.isNone_iff_eq_none.mp hpar)
  have hlength : (scheduleOrder plan steps (scheduleEdges digest plan ownership steps)
      (Dict.ofPairs (scheduleEdges digest plan ownership steps))).length =
      (Dict.ofPairs (scheduleEdges digest plan ownership steps)).length := by
    rw [Dict.ofPairs_eq hnodup]
    have hperm := scheduleOrder_complete plan steps hnodup
      (fun k _ d hd => ?_) (hdeps ▸ hacyclic)
    · rw [hperm.length_eq, Dict.keys, List.length_map]
    · rw [hmem]
      exact h.mem_of_mem_dependencyKeys hids (hdeps ▸ hd)
  unfold validateToolJoinDag
  by_cases hbody : (!ownership.bodyToLoop.isEmpty) = true
  · have hflat : assertFlatForeachRuntimeCompatible plan ownership = .ok () := by
      refine h.flat fun hnil => ?_
      rw [hnil] at hbody
      cases hbody
    rw [hbody] at hrows htop
    simp only [Except.bind_eq_ok_iff, assertThat_eq_ok_iff, howned, hempty, h.stepKeys,
      Except.ok.injEq, exists_eq_left', hbody, if_true, decide_true, exists_const, true_and]
    exact ⟨_, (), hflat, (), hrows, _, htop, _, hchildren, (), hiter, (), hwhile,
      beq_iff_eq.mpr hlength, rfl⟩
  · rw [Bool.not_eq_true] at hbody
    rw [hbody] at hrows htop
    simp only [Except.bind_eq_ok_iff, assertThat_eq_ok_iff, howned, hempty, h.stepKeys,
      Except.ok.injEq, exists_eq_left', hbody, Bool.false_eq_true, if_false, decide_true,
      exists_const, true_and]
    exact ⟨_, (), hrows, _, htop, _, hchildren, (), hiter, (), hwhile,
      beq_iff_eq.mpr hlength, rfl⟩

/-- The schedule of a validated DAG. -/
structure Scheduled (digest : TemplateDigest) (plan : ExecutionPlanV1)
    (ownership : LoopBodyOwnership) (steps : List ExecutionStep) (dag : ToolJoinDag) : Prop where
  shape : ShapeRules digest plan ownership steps
  dependencies : dag.dependencies = scheduleEdges digest plan ownership steps
  dependenciesOf : dag.dependenciesOf = dependencyKeys digest steps
  topological : Topological (dependencyKeys digest steps) dag.orderedStepKeys
  ordered : dag.orderedStepKeys.Perm (steps.map (·.stepKey))
  dependents : dag.dependents = dependentsMap (scheduleEdges digest plan ownership steps)
    (scheduleEdges digest plan ownership steps)
  roots : dag.rootToolKeys = ((plan.steps.filter ownership.isTopLevel).map (·.id)).filter fun key =>
    (dag.dependencies.get? key).all (·.isEmpty) && (rowByKey steps key).any (·.stepType == .tool)

theorem ValidatedDag.scheduled {topDeps childDeps : List (String × List String)} {dag : ToolJoinDag}
    (h : ValidatedDag digest plan steps ownership topDeps childDeps dag)
    (hplan : (plan.steps.map (·.id)).Nodup) (hids : (steps.map (·.id)).Nodup) :
    Scheduled digest plan ownership steps dag := by
  obtain ⟨hshape, hedges⟩ := h.shape hplan hids
  obtain ⟨hnodup, hmem⟩ := hshape.keys_scheduleEdges hplan
  have hdeps := hshape.edgeDeps_scheduleEdges hplan
  have hdependencies : dag.dependencies = scheduleEdges digest plan ownership steps := by
    rw [h.dependencies, hedges, Dict.ofPairs_eq hnodup]
  have hordered : dag.orderedStepKeys = scheduleOrder plan steps
      (scheduleEdges digest plan ownership steps) (scheduleEdges digest plan ownership steps) := by
    rw [h.ordered, hedges, Dict.ofPairs_eq hnodup]
  refine ⟨hshape, hdependencies, ?_, ?_, ?_, ?_, h.roots⟩
  · rw [← hdeps]
    funext k
    rw [ToolJoinDag.dependenciesOf, hdependencies, edgeDeps]
  · rw [← hdeps, hordered]
    exact scheduleOrder_topological hnodup
  · obtain ⟨hnodupOrder, hsub⟩ := scheduleOrder_nodup plan steps hnodup
      fun p (hp : p ∈ scheduleEdges digest plan ownership steps) => List.mem_map_of_mem hp
    refine (List.perm_ext_iff_of_nodup ?_ hshape.stepKeys).mpr fun k => ⟨fun hk => ?_, fun hk => ?_⟩
    · rw [hordered]
      exact hnodupOrder
    · rw [hordered] at hk
      exact (hmem k).mp (hsub k hk)
    · obtain ⟨s, hs, rfl⟩ := List.mem_map.mp hk
      exact h.stepKey_mem hs
  · rw [h.dependents, hdependencies, hedges]

/-- A topological order of the rows rules out cycles. -/
theorem Scheduled.acyclic {dag : ToolJoinDag} (h : Scheduled digest plan ownership steps dag) :
    Acyclic (dependencyKeys digest steps) := by
  refine h.topological.acyclic fun k hk => ?_
  unfold dependencyKeys
  cases hrow : rowByKey steps k with
  | none => rfl
  | some s =>
    obtain ⟨hs, hkey⟩ := (rowByKey_eq_some_iff h.shape.stepKeys).mp hrow
    exact absurd (h.ordered.mem_iff.mpr (List.mem_map.mpr ⟨s, hs, hkey⟩)) hk

/-- The dependents are the inverse of the dependencies. -/
theorem Scheduled.mem_dependentsOf {dag : ToolJoinDag}
    (h : Scheduled digest plan ownership steps dag) (hplan : (plan.steps.map (·.id)).Nodup)
    (hids : (steps.map (·.id)).Nodup) (j k : String) :
    (k ∈ dag.dependentsOf j ↔ j ∈ dag.dependenciesOf k) ∧
      ((dag.dependents.get? j).isSome ↔ j ∈ steps.map (·.stepKey)) := by
  obtain ⟨hnodup, hmem⟩ := h.shape.keys_scheduleEdges hplan
  have hdeps := h.shape.edgeDeps_scheduleEdges hplan
  have hclosed : ∀ p ∈ scheduleEdges digest plan ownership steps, ∀ d ∈ p.2,
      d ∈ Dict.keys (scheduleEdges digest plan ownership steps) := by
    intro p hp d hd
    rw [hmem]
    refine h.shape.mem_of_mem_dependencyKeys hids (k := p.1) ?_
    rwa [← hdeps, edgeDeps_of_mem hnodup hp]
  obtain ⟨hval, hsome⟩ := get?_dependentsMap hclosed j
  refine ⟨?_, ?_⟩
  · rw [ToolJoinDag.dependentsOf, h.dependents, hval, McpFlow.mem_dependentsOf hnodup, hdeps,
      h.dependenciesOf]
  · rw [h.dependents, hsome, hmem]

/-- The root keys are those of the TOOL rows at the top level that depend on nothing. -/
theorem Scheduled.mem_rootToolKeys {dag : ToolJoinDag}
    (h : Scheduled digest plan ownership steps dag) (k : String) :
    k ∈ dag.rootToolKeys ↔ dag.dependenciesOf k = [] ∧
      ∃ s ∈ steps, s.stepKey = k ∧ s.parentStepId = none ∧ s.stepType = .tool := by
  have hempty : (dag.dependencies.get? k).all (·.isEmpty) = true ↔ dag.dependenciesOf k = [] := by
    unfold ToolJoinDag.dependenciesOf
    cases dag.dependencies.get? k <;> simp
  rw [h.roots, List.mem_filter, Bool.and_eq_true, hempty, List.mem_map]
  constructor
  · rintro ⟨⟨ps, hps, rfl⟩, hnone, htool⟩
    obtain ⟨step, hstep, hkey, hpar, -⟩ := (h.shape.topLevel ps hps).row
    rw [(rowByKey_eq_some_iff h.shape.stepKeys).mpr ⟨hstep, hkey⟩, Option.any_some,
      beq_iff_eq] at htool
    exact ⟨hnone, step, hstep, hkey, hpar, htool⟩
  · rintro ⟨hnone, s, hs, rfl, hpar, htool⟩
    refine ⟨h.shape.planned s hs hpar, hnone, ?_⟩
    rw [(rowByKey_eq_some_iff h.shape.stepKeys).mpr ⟨hs, rfl⟩, Option.any_some, beq_iff_eq]
    exact htool

/-- What `validate_tool_join_dag` accepts and returns, for a plan with distinct step ids and rows
with distinct ids: the rows keep the shape rules and their dependencies have no cycle, in whatever
order the rows come; the order is one of the rows after their dependencies, the dependents are the
inverse of the dependencies, and the root keys are the TOOL rows at the top level without any. -/
theorem validateToolJoinDag_iff (digest : TemplateDigest) (plan : ExecutionPlanV1)
    (steps : List ExecutionStep) (hplan : (plan.steps.map (·.id)).Nodup)
    (hids : (steps.map (·.id)).Nodup) :
    (∀ rows : List ExecutionStep, rows.Perm steps →
      ((∃ dag, validateToolJoinDag digest plan rows = .ok dag) ↔
        ∃ ownership, buildLoopBodyOwnership plan = .ok ownership ∧
          ShapeRules digest plan ownership steps ∧ Acyclic (dependencyKeys digest steps))) ∧
    (∀ ownership, ShapeRules digest plan ownership steps →
      ∀ s ∈ steps, (s.stepType = .tool → (rowDependencies digest steps s).length ≤ 1) ∧
        (s.stepType = .join → rowDependencies digest steps s ≠ []) ∧
        ∀ d ∈ rowDependencies digest steps s, ∃ t ∈ steps, t.stepKey = d ∧
          t.parentStepId = s.parentStepId ∧ (s.parentStepId ≠ none → t.iterationNo = s.iterationNo)) ∧
    ∀ dag, validateToolJoinDag digest plan steps = .ok dag →
      dag.orderedStepKeys.Perm (steps.map (·.stepKey)) ∧
        Topological dag.dependenciesOf dag.orderedStepKeys ∧
        (∀ s ∈ steps, dag.dependenciesOf s.stepKey = rowDependencies digest steps s) ∧
        (∀ j k, k ∈ dag.dependentsOf j ↔ j ∈ dag.dependenciesOf k) ∧
        (∀ k, (dag.dependents.get? k).isSome ↔ k ∈ steps.map (·.stepKey)) ∧
        ∀ k, k ∈ dag.rootToolKeys ↔ dag.dependenciesOf k = [] ∧
          ∃ s ∈ steps, s.stepKey = k ∧ s.parentStepId = none ∧ s.stepType = .tool := by
  refine ⟨fun rows hp => ⟨?_, ?_⟩, fun ownership h s hs => ?_, fun dag hdag => ?_⟩
  · rintro ⟨dag, hdag⟩
    obtain ⟨ownership, topDeps, childDeps, hvalid⟩ := validateToolJoinDag_ok hdag
    have hscheduled := hvalid.scheduled hplan ((hp.map _).nodup_iff.mpr hids)
    have hshape := hscheduled.shape.perm hp.symm
    refine ⟨ownership, hvalid.owned, hshape, ?_⟩
    rw [← dependencyKeys_perm hids hshape.stepKeys hp]
    exact hscheduled.acyclic
  · rintro ⟨ownership, howned, hshape, hacyclic⟩
    refine (hshape.perm hp).validate hplan ((hp.map _).nodup_iff.mpr hids) howned ?_
    rwa [dependencyKeys_perm hids hshape.stepKeys hp]
  · exact ⟨(h.arity hids hs).1, (h.arity hids hs).2, fun d hd => h.closed hids hs hd⟩
  · obtain ⟨ownership, topDeps, childDeps, hvalid⟩ := validateToolJoinDag_ok hdag
    have h := hvalid.scheduled hplan hids
    refine ⟨h.ordered, h.dependenciesOf ▸ h.topological, fun s hs => ?_,
      fun j k => (h.mem_dependentsOf hplan hids j k).1,
      fun k => (h.mem_dependentsOf hplan hids k k).2, h.mem_rootToolKeys⟩
    rw [h.dependenciesOf, dependencyKeys,
      (rowByKey_eq_some_iff h.shape.stepKeys).mpr ⟨hs, rfl⟩]

/-- The two LOOPs of `twoLoopPlan` are accepted, their rows in either order. -/
theorem validateToolJoinDag_twoLoop :
    (∃ dag, validateToolJoinDag sampleDigest twoLoopPlan twoLoopWorld.db.steps.rows = .ok dag) ∧
      ∃ dag, validateToolJoinDag sampleDigest twoLoopPlan
        twoLoopWorld.db.steps.rows.reverse = .ok dag := by
  have haccept : ∃ dag,
      validateToolJoinDag sampleDigest twoLoopPlan twoLoopWorld.db.steps.rows = .ok dag :=
    Except.isOk_iff.mp (by decide)
  have hiff := (validateToolJoinDag_iff sampleDigest twoLoopPlan twoLoopWorld.db.steps.rows
    (by decide) (by decide)).1
  exact ⟨haccept, (hiff _ (List.reverse_perm _)).mpr ((hiff _ (.refl _)).mp haccept)⟩

/-- A plan of one APPROVAL. -/
def gatePlan : ExecutionPlanV1 where
  limits := .ofNat 5 4 50
  steps := [rootPlanStep "gate" .approval (.approval (.ofNat 4)) (by decide)]

/-- The row of `gatePlan`. -/
def gateRow : ExecutionStep :=
  plannedStep (.ofNat 10)
    (rootPlanStep "gate" .approval (.approval (.ofNat 4)) (by decide)) (by decide)

/-- An APPROVAL that depends on nothing is no root of the DAG. -/
theorem validateToolJoinDag_gate : ∃ dag,
    validateToolJoinDag sampleDigest gatePlan [gateRow] = .ok dag ∧
      "gate" ∈ dag.orderedStepKeys ∧ dag.dependenciesOf "gate" = [] ∧
      "gate" ∉ dag.rootToolKeys :=
  ⟨⟨["gate"], [], 4, [("gate", [])], [("gate", [])]⟩, by decide, by decide, by decide, by decide⟩

end McpFlow
