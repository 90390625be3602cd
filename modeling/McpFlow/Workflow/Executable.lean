import McpFlow.Workflow.Preflight

/-!
# Published versions that can be executed

A published version whose surroundings are in order is executed exactly when its document is written
in full, declares inputs of supported types only, and has short step ids outside the LOOP bodies.
-/

namespace McpFlow.Workflow

open Json

variable {env : Platform} {workflowId : UUID} {w w₀ : World} {p : Plan} {ext : CreationEnv}
  {request : List (String × Value)} {r : WorkflowVersion}

/-- The platform reads canonical spellings as what they say, and hashes every value to a text that
is not blank. -/
structure Platform.Lawful (env : Platform) : Prop where
  coercion : env.pydantic.toCoercion.Lawful
  hash : ∀ v, ∃ text, env.hash v = some text ∧ Text.nonBlank text = true

/-- The surroundings of an execution are in order: the workflow is ACTIVE, the requester authorized,
the policies and tools of the plan executable without confirmation, and the inputs satisfy the
declarations. -/
structure Ready (env : Platform) (ext : CreationEnv) (p : Plan)
    (request : List (String × Value)) : Prop where
  authorized : ext.authorized = true
  active : ext.workflowActive = true
  approvals : ∀ s ∈ p.stepsOf .approval, ∀ id,
    readApprovalStepConfig env.pydantic.toCoercion s.config.1 = some id →
      ∃ row, ext.approvalPolicy id = some row ∧ row.active = true ∧ 1 ≤ row.requiredApprovals ∧
        0 < row.defaultExpirySeconds ∧ row.decisionMode ∈ ["ANY", "ALL", "QUORUM"]
  tools : ∀ s ∈ p.stepsOf .tool, ∀ cfg,
    ComplexToolStepConfig.read env.pydantic.toCoercion s.config.1 = some cfg →
      ∃ a, ext.authorizeTool cfg.toolVersionId s.timeoutSeconds = .ok a ∧
        a.confirmationRequired = false
  known : ∀ m ∈ request, (p.inputs.lookup m.1).isSome
  given : ∀ d ∈ p.inputs, d.2.required = true → (request.lookup d.1).isSome
  values : ∀ d ∈ p.inputs, ∀ raw, request.lookup d.1 = some raw →
    ∃ v, normalizeInput d.2 raw = .ok v

/-- The condition on the document `j` of the plan `p`. -/
structure Executable (c : Pydantic) (j : Value) (p : Plan) : Prop where
  written : writtenInFull c.toCoercion j = true
  types : ∀ d ∈ p.inputs, d.2.type ∈ supportedInputTypes
  keys : ∀ s ∈ p.steps, p.loopBodyOwner c s.id = none → s.id.length ≤ 128

/-! ### Inputs -/

theorem normalizeDeclared_ok_iff (h : Ready env ext p request) {d : String × PlanInputDefinition}
    (hd : d ∈ p.inputs) :
    (∃ v, normalizeDeclared request d = .ok v) ↔ d.2.type ∈ supportedInputTypes := by
  unfold normalizeDeclared
  simp only [Except.bind_eq_ok_iff, precondition_eq_ok_iff, decide_eq_true_eq]
  constructor
  · rintro ⟨v, -, htype, -⟩
    exact htype
  · intro htype
    cases hraw : request.lookup d.1 with
    | none =>
      have hoptional : d.2.required = false := by
        by_contra hrequired
        have hgiven := h.given d hd (by simpa using hrequired)
        rw [hraw] at hgiven
        cases hgiven
      exact ⟨none, (), htype, by simp [hoptional, require, pure, Except.pure, bind, Except.bind]⟩
    | some raw =>
      obtain ⟨v, hv⟩ := h.values d hd raw hraw
      exact ⟨some (d.1, v), (), htype, by simp [hv, pure, Except.pure, bind, Except.bind]⟩

theorem normalizePlanInputs_ok_iff (h : Ready env ext p request) :
    (∃ v, normalizePlanInputs p request = .ok v) ↔
      ∀ d ∈ p.inputs, d.2.type ∈ supportedInputTypes := by
  have hall : (∃ ys, p.inputs.mapM (normalizeDeclared request) = .ok ys) ↔
      ∀ d ∈ p.inputs, d.2.type ∈ supportedInputTypes := by
    rw [List.exists_mapM_eq_ok_iff]
    exact forall₂_congr fun d hd => normalizeDeclared_ok_iff h hd
  rw [← hall]
  unfold normalizePlanInputs
  simp only [Except.bind_eq_ok_iff, require_eq_ok_iff, List.all_eq_true]
  constructor
  · rintro ⟨v, -, -, ys, hys, -⟩
    exact ⟨ys, hys⟩
  · rintro ⟨ys, hys⟩
    exact ⟨_, (), h.known, ys, hys, rfl⟩

/-! ### Steps of an accepted plan -/

theorem tool_config (h : p.Accepted env.pydantic) {s : PlanStep} (hs : s ∈ p.stepsOf .tool) :
    ∃ cfg, ComplexToolStepConfig.read env.pydantic.toCoercion s.config.1 = some cfg := by
  obtain ⟨hmem, htype⟩ := List.mem_filter.mp hs
  have hcfg := h.config s hmem
  rw [decide_eq_true_eq] at htype
  rw [PlanStep.parseConfig, htype, Option.isSome_map] at hcfg
  exact Option.isSome_iff_exists.mp hcfg

theorem approval_config (h : p.Accepted env.pydantic) {s : PlanStep}
    (hs : s ∈ p.stepsOf .approval) :
    ∃ id, readApprovalStepConfig env.pydantic.toCoercion s.config.1 = some id := by
  obtain ⟨hmem, htype⟩ := List.mem_filter.mp hs
  have hcfg := h.config s hmem
  rw [decide_eq_true_eq] at htype
  rw [PlanStep.parseConfig, htype, Option.isSome_map] at hcfg
  exact Option.isSome_iff_exists.mp hcfg

theorem projectTools_ok (h : p.Accepted env.pydantic) :
    (p.stepsOf .tool).mapM (projectTool env) =
      .ok (p.toolProjection env.pydantic.toCoercion) := by
  have hcfg : ∀ s ∈ p.stepsOf .tool,
      ∃ cfg, ComplexToolStepConfig.read env.pydantic.toCoercion s.config.1 = some cfg :=
    fun s hs => tool_config h hs
  unfold Plan.toolProjection
  generalize p.stepsOf .tool = steps at hcfg
  induction steps with
  | nil => rfl
  | cons s steps ih =>
    rw [List.forall_mem_cons] at hcfg
    obtain ⟨⟨cfg, hs⟩, hrest⟩ := hcfg
    rw [List.mapM_cons, ih hrest, List.filterMap_cons_some (by rw [hs, Option.map_some]),
      projectTool, hs]
    rfl

theorem checkApprovalPolicies_ok (h : p.Accepted env.pydantic) (hready : Ready env ext p request) :
    ∃ us, (p.stepsOf .approval).mapM (checkApprovalPolicy env ext) = .ok us := by
  rw [List.exists_mapM_eq_ok_iff]
  intro s hs
  obtain ⟨id, hid⟩ := approval_config h hs
  obtain ⟨row, hrow, hactive, happrovals, hexpiry, hmode⟩ := hready.approvals s hs id hid
  refine ⟨(), ?_⟩
  unfold checkApprovalPolicy
  simp only [Except.bind_eq_ok_iff, found_eq_ok_iff, precondition_eq_ok_iff]
  exact ⟨id, hid, (), by simp [hrow, hactive, happrovals, hexpiry], by simpa [hrow] using hmode⟩

theorem authorizeSteps_ok (h : p.Accepted env.pydantic) (hready : Ready env ext p request) :
    ∃ ts, (p.stepsOf .tool).mapM (authorizeStep env ext) = .ok ts := by
  rw [List.exists_mapM_eq_ok_iff]
  intro s hs
  obtain ⟨cfg, hcfg⟩ := tool_config h hs
  obtain ⟨a, ha, hconfirmation⟩ := hready.tools s hs cfg hcfg
  refine ⟨(s.id, cfg.toolVersionId, a.policySnapshot), ?_⟩
  unfold authorizeStep
  simp only [Except.bind_eq_ok_iff, found_eq_ok_iff, require_eq_ok_iff]
  exact ⟨cfg, hcfg, a, by rw [ha]; rfl, (), by rw [hconfirmation]; rfl, rfl⟩

/-! ### LOOP bodies -/

/-- The body steps that the LOOPs among `steps` name. -/
def mentions (c : Coercion) (steps : List PlanStep) : List (String × String) :=
  (steps.filterMap fun s =>
    if s.type = .loop then (LoopStepConfig.read c s.config.1).map (Prod.mk s.id) else none).flatMap
      fun l => l.2.bodyStepIds.map fun b => (b, l.1)

theorem bodyMentions_eq {c : Pydantic} (h : p.Accepted c) :
    p.bodyMentions c = mentions c.toCoercion p.steps := by
  unfold Plan.bodyMentions mentions
  refine List.flatMap_congr fun l hl => congrArg _ (List.filter_eq_self.mpr fun b hb => ?_)
  simpa using h.owned l hl b hb

theorem ownBodies_ok {loopId : String} {bs : List String} {owned : List (String × String)}
    (hin : ∀ b ∈ bs, b ∈ p.stepIds ∧ b ≠ loopId)
    (hfree : ∀ b ∈ bs, ∀ l, owned.lookup b = some l → l = loopId) :
    ownBodies p loopId bs owned = .ok (owned ++ bs.map fun b => (b, loopId)) := by
  induction bs generalizing owned with
  | nil => rw [List.map_nil, List.append_nil, ownBodies]
  | cons b bs ih =>
    rw [List.forall_mem_cons] at hin hfree
    have hall : (owned.lookup b).all (· = loopId) = true := by
      cases hlookup : owned.lookup b with
      | none => rfl
      | some l => simpa using hfree.1 l hlookup
    have hrest : ownBodies p loopId bs (owned ++ [(b, loopId)]) =
        .ok (owned ++ [(b, loopId)] ++ bs.map fun b => (b, loopId)) :=
      ih hin.2 fun b' hb' l hl => ?_
    · simp only [ownBodies, Except.bind_eq_ok_iff, require_eq_ok_iff]
      refine ⟨(), by simpa using hin.1.1, (), by simpa using hin.1.2, (), hall, ?_⟩
      rw [hrest, List.append_assoc]
      rfl
    · rw [List.lookup_append] at hl
      cases hlookup : owned.lookup b' with
      | some l' =>
        rw [hlookup, Option.some_or] at hl
        cases hl
        exact hfree.2 b' hb' _ hlookup
      | none =>
        rw [hlookup, Option.none_or, List.lookup_cons] at hl
        split at hl
        · exact (Option.some.inj hl).symm
        · cases hl

theorem ownSteps_ok {c : Pydantic} (h : p.Accepted c) {steps : List PlanStep}
    {owned : List (String × String)} (hsteps : ∀ s ∈ steps, s ∈ p.steps)
    (hnodup : ((owned ++ mentions c.toCoercion steps).map Prod.fst).Nodup) :
    steps.foldlM (ownStep c.toCoercion p) owned = .ok (owned ++ mentions c.toCoercion steps) := by
  induction steps generalizing owned with
  | nil => simp [mentions, pure, Except.pure]
  | cons s steps ih =>
    rw [List.forall_mem_cons] at hsteps
    rw [List.foldlM_cons]
    by_cases hloop : s.type = .loop
    · have hcfg := h.config s hsteps.1
      rw [PlanStep.parseConfig, hloop, Option.isSome_map, Option.isSome_iff_exists] at hcfg
      obtain ⟨cfg, hcfg⟩ := hcfg
      have hmentions : mentions c.toCoercion (s :: steps) =
          (cfg.bodyStepIds.map fun b => (b, s.id)) ++ mentions c.toCoercion steps := by
        rw [mentions, List.filterMap_cons_some (by rw [if_pos hloop, hcfg, Option.map_some]),
          List.flatMap_cons]
        rfl
      rw [hmentions, ← List.append_assoc] at hnodup ⊢
      have hmem : (s.id, cfg) ∈ p.loopConfigs c :=
        List.mem_filterMap.mpr ⟨s, hsteps.1, by rw [if_pos hloop, hcfg, Option.map_some]⟩
      have hown : ownStep c.toCoercion p owned s =
          .ok (owned ++ cfg.bodyStepIds.map fun b => (b, s.id)) := by
        rw [ownStep, if_pos hloop, hcfg]
        refine ownBodies_ok (fun b hb => h.owned _ hmem b hb) fun b hb l hl => ?_
        -- The body is not owned yet: the mentions have distinct steps.
        rw [List.map_append, List.map_append] at hnodup
        have hdisjoint := (List.nodup_append.mp (List.nodup_append.mp hnodup).1).2.2
        have howned : b ∈ owned.map Prod.fst := by
          have hsome : (owned.lookup b).isSome := by
            rw [hl]
            rfl
          simpa using hsome
        exact absurd rfl (hdisjoint b howned b (by simpa using hb))
      rw [hown]
      exact ih hsteps.2 hnodup
    · have hmentions : mentions c.toCoercion (s :: steps) = mentions c.toCoercion steps := by
        rw [mentions, List.filterMap_cons_none (by rw [if_neg hloop])]
        rfl
      rw [hmentions] at hnodup ⊢
      rw [ownStep, if_neg hloop]
      exact ih hsteps.2 hnodup

theorem buildLoopBodyOwnership_ok {c : Pydantic} (h : p.Accepted c) :
    buildLoopBodyOwnership c.toCoercion p = .ok (p.bodyMentions c) := by
  have hnodup : (([] ++ mentions c.toCoercion p.steps).map Prod.fst).Nodup := by
    rw [List.nil_append, ← bodyMentions_eq h]
    exact h.owner
  rw [bodyMentions_eq h]
  exact ownSteps_ok h (fun s hs => hs) hnodup

/-! ### Materialization -/

theorem stepKey_of_projectStep {c : Coercion} {s : PlanStep} {n : ℕ} {x : StepProjection}
    (h : projectStep c s n = .ok x) : x.stepKey = s.id := by
  simp only [projectStep, Except.bind_eq_ok_iff] at h
  obtain ⟨cfg, -, h⟩ := h
  cases h
  rfl

theorem projectStep_ok {c : Pydantic} (h : p.Accepted c) {s : PlanStep} (hs : s ∈ p.steps) (n : ℕ) :
    ∃ x, projectStep c.toCoercion s n = .ok x := by
  obtain ⟨cfg, hcfg⟩ := Option.isSome_iff_exists.mp (h.config s hs)
  unfold projectStep
  rw [hcfg]
  exact ⟨_, rfl⟩

theorem createStep_ok_iff {x : StepProjection} :
    (∃ y, createStep x = .ok y) ↔ x.stepKey.length ≤ 128 := by
  unfold createStep
  split
  · next hle => exact iff_of_true ⟨x, rfl⟩ hle
  · next hlt => exact iff_of_false (by simp) hlt

/-- The rows of steps are created when their ids fit. -/
theorem createSteps_ok_iff {c : Pydantic} (h : p.Accepted c) {steps : List PlanStep}
    (hsteps : ∀ s ∈ steps, s ∈ p.steps) :
    (∃ rows, createSteps c.toCoercion steps = .ok rows) ↔ ∀ s ∈ steps, s.id.length ≤ 128 := by
  have hproject : ∃ xs, steps.zipIdx.mapM (fun s => projectStep c.toCoercion s.1 s.2) = .ok xs := by
    rw [List.exists_mapM_eq_ok_iff]
    intro s hs
    exact projectStep_ok h (hsteps s.1 (List.fst_mem_of_mem_zipIdx hs)) s.2
  obtain ⟨xs, hxs⟩ := hproject
  have hkeys : xs.map (·.stepKey) = steps.map (·.id) := by
    have hzip : xs.map (·.stepKey) = steps.zipIdx.map fun s => s.1.id := by
      generalize steps.zipIdx = pairs at hxs
      have hpairs := List.forall₂_of_mapM_eq_ok hxs
      clear hxs
      induction hpairs with
      | nil => rfl
      | cons hx _ ih => rw [List.map_cons, List.map_cons, stepKey_of_projectStep hx, ih]
    rw [hzip]
    conv_rhs => rw [← List.zipIdx_map_fst 0 steps, List.map_map]
    rfl
  have hall : (∃ rows, xs.mapM createStep = .ok rows) ↔ ∀ k ∈ xs.map (·.stepKey), k.length ≤ 128 := by
    rw [List.exists_mapM_eq_ok_iff, List.forall_mem_map]
    exact forall₂_congr fun x _ => createStep_ok_iff
  rw [hkeys, List.forall_mem_map] at hall
  rw [← hall]
  unfold createSteps
  rw [hxs]
  rfl

/-- The materialization of a dumped plan that the static validator accepts. -/
theorem materialize_ok_iff (henv : env.Lawful) (hstatic : p.validate env.pydantic = [])
    {hash : String} (hhash : env.hash p.modelDump = some hash) :
    (∃ rows, materialize env p.modelDump hash = .ok rows) ↔
      ∀ s ∈ p.steps, p.loopBodyOwner env.pydantic s.id = none → s.id.length ≤ 128 := by
  have haccepted := Plan.accepted_of_validate hstatic
  obtain ⟨text, htext, hblank⟩ := henv.hash p.modelDump
  rw [hhash] at htext
  cases htext
  have hparse := Plan.modelValidate_modelDump henv.coercion p
  have hrows : (∃ rows, materialize env p.modelDump hash = .ok rows) ↔
      ∃ rows, createSteps env.pydantic.toCoercion
        (p.steps.filter fun s => ((p.bodyMentions env.pydantic).lookup s.id).isNone) = .ok rows := by
    unfold materialize
    simp only [Except.bind_eq_ok_iff, precondition_eq_ok_iff, found_eq_ok_iff]
    constructor
    · rintro ⟨rows, -, -, -, -, p', hp', -, -, -, -, -, -, owned, howned, hrows⟩
      rw [hparse] at hp'
      cases hp'
      rw [buildLoopBodyOwnership_ok haccepted] at howned
      cases howned
      exact ⟨rows, hrows⟩
    · rintro ⟨rows, hrows⟩
      exact ⟨rows, (), rfl, (), hblank, p, hparse, hash, hhash, (), by simp, (), by simp [hstatic], _,
        buildLoopBodyOwnership_ok haccepted, hrows⟩
  rw [hrows, createSteps_ok_iff haccepted fun s hs => (List.mem_filter.mp hs).1]
  simp [Plan.loopBodyOwner]

/-! ### The preflight -/

theorem sameMap_of_mem_iff {a b : List (String × UUID)} (ha : (a.map Prod.fst).Nodup)
    (hb : (b.map Prod.fst).Nodup) (h : ∀ x, x ∈ a ↔ x ∈ b) : World.sameMap a b = true := by
  have hlookup (k : String) : a.reverse.lookup k = b.reverse.lookup k := by
    refine Option.ext fun v => ?_
    rw [← mem_iff_lookup_reverse ha, ← mem_iff_lookup_reverse hb]
    exact h (k, v)
  simp [World.sameMap, hlookup]

theorem plan_eq_ok {c : Content} (h : c.plan env = .ok p) : c.planSchemaVersion = "1.0" ∧
    Plan.modelValidate env.pydantic.toCoercion c.planDefinition = some p := by
  unfold Content.plan at h
  split at h
  · cases h
  next hversion =>
  rw [ne_eq, not_not] at hversion
  split at h
  · cases h
  · next hplan =>
    cases h
    exact ⟨hversion, hplan⟩

theorem isObj_of_modelValidate {c : Coercion} {j : Value} (h : Plan.modelValidate c j = some p) :
    j.isObj = true := by
  unfold Plan.modelValidate at h
  split at h
  · next hextra =>
    cases j with
    | obj ms => rfl
    | null | bool | int | float | str | arr => cases hextra
  · cases h

/-- What a successful preflight found. -/
theorem preflight_ok {ctx : Preflight} (hr : r ∈ w.versions) (hplan : r.content.plan env = .ok p)
    (hready : Ready env ext p request)
    (h : preflight env workflowId w ext r.id request = .ok ctx) :
    p.modelDump.pyEq r.content.planDefinition = true ∧
      (∀ d ∈ p.inputs, d.2.type ∈ supportedInputTypes) ∧ ctx.planDump = p.modelDump ∧
      env.hash p.modelDump = some ctx.planHash := by
  simp only [preflight, Except.bind_eq_ok_iff, precondition_eq_ok_iff, found_eq_ok_iff] at h
  obtain ⟨r', hr', -, -, -, -, -, -, -, -, -, -, -, -, -, -, p', hp', -, heq, -, -, -, -, -, -, -, -,
    -, -, -, -, -, -, inputs, hinputs, -, -, toolSteps, -, hash, hhash, hctx⟩ := h
  rw [Table.find?_key_of_mem hr] at hr'
  cases hr'
  rw [(plan_eq_ok hplan).2] at hp'
  cases hp'
  cases hctx
  exact ⟨heq, (normalizePlanInputs_ok_iff hready).mp ⟨inputs, hinputs⟩, rfl, hhash⟩

/-- The current version of a reachable world passes the preflight when its document is equal to its
dump and its inputs are of supported types. -/
theorem exists_preflight_ok (hinv : World.Inv env workflowId w) (henv : env.Lawful)
    (hr : r ∈ w.versions) (hcurrent : w.workflow.currentVersionId = some r.id) {deps : Dependencies}
    (hp : Validated env workflowId deps r.content p)
    (hrefs : ∀ x, x ∈ w.refsOf r.id ↔ x ∈ p.toolProjection env.pydantic.toCoercion)
    (hready : Ready env ext p request) (heq : p.modelDump.pyEq r.content.planDefinition = true)
    (htypes : ∀ d ∈ p.inputs, d.2.type ∈ supportedInputTypes) :
    ∃ ctx, preflight env workflowId w ext r.id request = .ok ctx := by
  have hpublished := (hinv.current r hr).mpr hcurrent
  have hsound := hinv.sound r hr (by rw [hpublished]; exact WorkflowVersionStatus.noConfusion)
  obtain ⟨rep, hrep, hvalid, hrephash⟩ := hsound.report
  obtain ⟨hversion, hplan⟩ := plan_eq_ok hp.plan
  have haccepted := Plan.accepted_of_validate hp.static
  have hsame := sameMap_of_mem_iff (nodup_refsOf w r.id) (nodup_toolProjection haccepted.nodup) hrefs
  obtain ⟨inputs, hinputs⟩ := (normalizePlanInputs_ok_iff hready).mpr htypes
  obtain ⟨us, hus⟩ := checkApprovalPolicies_ok haccepted hready
  obtain ⟨ts, hts⟩ := authorizeSteps_ok haccepted hready
  obtain ⟨hash, hhash, -⟩ := henv.hash p.modelDump
  refine ⟨⟨p.modelDump, hash, inputs, ts⟩, ?_⟩
  simp only [preflight, Except.bind_eq_ok_iff, precondition_eq_ok_iff, found_eq_ok_iff,
    require_eq_ok_iff]
  exact ⟨r, Table.find?_key_of_mem hr, (), hready.authorized, (), hready.active, (),
    by simpa using hcurrent, (), by simpa using hpublished, (), by simpa using hsound.status, (),
    by simpa using hversion, (), isObj_of_modelValidate hplan, p, hplan, (), heq, (),
    by simpa using hp.source, r.contentHash, hsound.hash, (), by simp, (),
    by simp [hrep, hvalid, hrephash], (), by simp [hp.static], _, projectTools_ok haccepted, (), hsame,
    inputs, hinputs, us, hus, ts, hts, hash, hhash, rfl⟩

/-- **Published implies executable.** The current version of a reachable world has a plan, and for
every surroundings in order an Execution of it is created if and only if its document meets the
condition. -/
theorem createExecution_ok_iff {env : Platform} {workflowId : UUID} {w₀ w : World}
    (henv : env.Lawful) (hinit : w₀.Initial) {as : List Action}
    (hrun : Runs.run (World.step env workflowId) w₀ as = some w) {r : WorkflowVersion}
    (hr : r ∈ w.versions) (hcurrent : w.workflow.currentVersionId = some r.id)
    (hkeys : r.content.planDefinition.distinctKeys = true) :
    ∃ p, r.content.plan env = .ok p ∧ ∀ ext request, Ready env ext p request →
      ((∃ rows, createExecution env workflowId w ext r.id request = .ok rows) ↔
        Executable env.pydantic r.content.planDefinition p) := by
  have hinv : World.Inv env workflowId w := (hinit.inv.run hrun).1
  have hpublished := (hinv.current r hr).mpr hcurrent
  have hsound := hinv.sound r hr (by rw [hpublished]; exact WorkflowVersionStatus.noConfusion)
  obtain ⟨p, deps, hp, hrefs⟩ := hsound.plan
  have hwritten := modelDump_pyEq_iff hkeys (plan_eq_ok hp.plan).2 hp.source
  refine ⟨p, hp.plan, fun ext request hready => ?_⟩
  constructor
  · rintro ⟨rows, hrows⟩
    obtain ⟨ctx, hctx, hmaterialize⟩ := Except.bind_eq_ok_iff.mp hrows
    obtain ⟨heq, htypes, hdump, hhash⟩ := preflight_ok hr hp.plan hready hctx
    rw [hdump] at hmaterialize
    exact ⟨hwritten.mp heq, htypes, (materialize_ok_iff henv hp.static hhash).mp ⟨rows, hmaterialize⟩⟩
  · intro hexecutable
    have heq := hwritten.mpr hexecutable.written
    obtain ⟨ctx, hctx⟩ :=
      exists_preflight_ok hinv henv hr hcurrent hp hrefs hready heq hexecutable.types
    obtain ⟨-, -, hdump, hhash⟩ := preflight_ok hr hp.plan hready hctx
    obtain ⟨rows, hrows⟩ := (materialize_ok_iff henv hp.static hhash).mpr hexecutable.keys
    exact ⟨rows, Except.bind_eq_ok_iff.mpr ⟨ctx, hctx, by rw [hdump]; exact hrows⟩⟩

/-! ### Published versions on the example platform -/

theorem canonicalPydantic_lawful : World.canonicalPydantic.toCoercion.Lawful where
  int_int _ := rfl
  bool_bool _ := rfl
  uuid_toString u := by
    have huuid : World.canonicalPydantic.toCoercion.uuid = fun j => j.str?.bind UUID.parse? := rfl
    rw [huuid]
    simp only [Value.str?, Option.bind_some, UUID.parse?_toString]

theorem examplePlatform_lawful : World.examplePlatform.Lawful :=
  ⟨canonicalPydantic_lawful, fun _ => ⟨_, rfl, by decide⟩⟩

/-- An authorized requester of an active workflow, whose tools need no confirmation. -/
def exampleCreationEnv : CreationEnv :=
  ⟨true, true, fun _ => none, fun _ _ => .ok ⟨false, .null⟩⟩

/-- A plan of TOOL steps with one input is ready for every value of this input. -/
theorem ready_example {v : Value} (happrovals : (p.stepsOf .approval).isEmpty = true)
    (hinputs : p.inputs.map Prod.fst = ["city"])
    (hvalues : p.inputs.all (fun d => (normalizeInput d.2 v).toBool) = true) :
    Ready World.examplePlatform exampleCreationEnv p [("city", v)] where
  authorized := rfl
  active := rfl
  approvals s hs := by
    rw [List.isEmpty_iff.mp happrovals] at hs
    cases hs
  tools _ _ _ _ := ⟨_, rfl, rfl⟩
  known m hm := by
    obtain rfl := List.mem_singleton.mp hm
    have hmem : "city" ∈ p.inputs.map Prod.fst := by
      rw [hinputs]
      exact List.mem_singleton_self _
    simpa using hmem
  given d hd _ := by
    have hname : d.1 ∈ p.inputs.map Prod.fst := List.mem_map_of_mem hd
    rw [hinputs, List.mem_singleton] at hname
    rw [hname]
    rfl
  values d hd raw hraw := by
    have hname : d.1 ∈ p.inputs.map Prod.fst := List.mem_map_of_mem hd
    rw [hinputs, List.mem_singleton] at hname
    rw [hname] at hraw
    cases hraw
    have hok := List.all_eq_true.mp hvalues d hd
    cases hnormal : normalizeInput d.2 v with
    | ok v' => exact ⟨v', rfl⟩
    | error e =>
      rw [hnormal] at hok
      cases hok

/-- A published version of the example platform is found by evaluation. -/
theorem exists_published (doc v : Value) (Q : World → WorkflowVersion → Plan → Prop)
    [∀ w r p, Decidable (Q w r p)]
    (h : (Runs.run (World.step World.examplePlatform ⟨7, by decide⟩) World.newWorkflow
      (World.publishedRun doc)).any (fun w => w.versions.rows.any fun r =>
        (r.content.plan World.examplePlatform).toOption.any fun p =>
          decide (w.workflow.currentVersionId = some r.id ∧
            r.content.planDefinition.distinctKeys = true ∧
            (p.stepsOf .approval).isEmpty = true ∧ p.inputs.map Prod.fst = ["city"] ∧
            p.inputs.all (fun d => (normalizeInput d.2 v).toBool) = true ∧ Q w r p)) = true) :
    ∃ w r p, Runs.run (World.step World.examplePlatform ⟨7, by decide⟩) World.newWorkflow
        (World.publishedRun doc) = some w ∧
      r ∈ w.versions ∧ w.workflow.currentVersionId = some r.id ∧
      r.content.planDefinition.distinctKeys = true ∧
      r.content.plan World.examplePlatform = .ok p ∧
      Ready World.examplePlatform exampleCreationEnv p [("city", v)] ∧ Q w r p := by
  obtain ⟨w, hw, hversions⟩ := (Option.any_eq_true _ _).mp h
  obtain ⟨r, hr, hplan⟩ := List.any_eq_true.mp hversions
  obtain ⟨p, hp, hchecks⟩ := (Option.any_eq_true _ _).mp hplan
  obtain ⟨hcurrent, hkeys, happrovals, hinputs, hvalues, hQ⟩ := of_decide_eq_true hchecks
  have hok : r.content.plan World.examplePlatform = .ok p := by
    cases hcontent : r.content.plan World.examplePlatform with
    | ok p' =>
      rw [hcontent] at hp
      exact congrArg _ (Option.some.inj hp)
    | error e =>
      rw [hcontent] at hp
      cases hp
  exact ⟨w, r, p, hw, hr, hcurrent, hkeys, hok, ready_example happrovals hinputs hvalues, hQ⟩

theorem publishedRun_createExecution :
    ∃ (w : World) (r : WorkflowVersion) (p : Plan) (rows : List StepProjection),
    Runs.run (World.step World.examplePlatform ⟨7, by decide⟩) World.newWorkflow
      (World.publishedRun (World.oneToolDocument "string" [("when", .null)])) = some w ∧
    w.workflow.currentVersionId = some r.id ∧
    Executable World.canonicalPydantic r.content.planDefinition p ∧
    createExecution World.examplePlatform ⟨7, by decide⟩ w exampleCreationEnv r.id
      [("city", .str "Seoul")] = .ok rows := by
  obtain ⟨w, r, p, hw, hr, hcurrent, hkeys, hplan, hready, hexecutable⟩ :=
    exists_published (World.oneToolDocument "string" [("when", .null)]) (.str "Seoul")
      (fun _ r p =>
        writtenInFull World.canonicalPydantic.toCoercion r.content.planDefinition = true ∧
          (∀ d ∈ p.inputs, d.2.type ∈ supportedInputTypes) ∧ ∀ s ∈ p.steps, s.id.length ≤ 128)
      (by decide +kernel)
  obtain ⟨p', hp', hiff⟩ := createExecution_ok_iff examplePlatform_lawful ⟨rfl, rfl, rfl, rfl⟩ hw hr
    hcurrent hkeys
  rw [hplan] at hp'
  cases hp'
  have hdocument : Executable World.canonicalPydantic r.content.planDefinition p :=
    ⟨hexecutable.1, hexecutable.2.1, fun s hs _ => hexecutable.2.2 s hs⟩
  obtain ⟨rows, hrows⟩ := (hiff _ _ hready).mpr hdocument
  exact ⟨w, r, p, rows, hw, hcurrent, hdocument, hrows⟩

/-- The document is validated and published, and every check of a creation outside the plan passes,
but the creation is refused with the message. -/
def RefusedAfterPublish (doc : Value) (message : String) : Prop :=
  ∃ (w : World) (r : WorkflowVersion) (p : Plan),
    Runs.run (World.step World.examplePlatform (.ofNat 7)) World.newWorkflow
      (World.publishedRun doc) = some w ∧
    r ∈ w.versions ∧ w.workflow.currentVersionId = some r.id ∧
    r.content.planDefinition.distinctKeys = true ∧
    r.content.plan World.examplePlatform = .ok p ∧
    Ready World.examplePlatform exampleCreationEnv p [("city", .str "Seoul")] ∧
    createExecution World.examplePlatform (.ofNat 7) w exampleCreationEnv r.id
      [("city", .str "Seoul")] = .error (.app ⟨"EXECUTION_PRECONDITION_FAILED", message⟩)

/-- A published plan without the optional member `when`, and one with an input of type `date`, are
refused at every execution. -/
theorem omitted_or_unsupported_not_executable :
    RefusedAfterPublish (World.oneToolDocument "string" []) "Plan snapshot semantic equality 실패." ∧
      RefusedAfterPublish (World.oneToolDocument "date" [("when", .null)])
        "unsupported Plan input type" :=
  ⟨exists_published _ _ _ (by decide +kernel), exists_published _ _ _ (by decide +kernel)⟩

end McpFlow.Workflow
