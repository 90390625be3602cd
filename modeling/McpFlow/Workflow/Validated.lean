import McpFlow.Workflow.Version

/-!
# What a valid version is

A version without validation errors has a plan that the static validator accepts, and the tool
references of its validation are the TOOL projection of that plan. Tool references that equal them
as a dictionary are the same pairs.
-/

namespace McpFlow.Workflow

open Json

/-- The TOOL projection of a plan. -/
def Plan.toolProjection (c : Coercion) (p : Plan) : List (String × UUID) :=
  (p.stepsOf .tool).filterMap fun s =>
    (ComplexToolStepConfig.read c s.config.1).map fun cfg => (s.id, cfg.toolVersionId)

/-! ### The static validator -/

namespace Plan

theorem nodup_of_repeated {seen l : List String} (h : repeated seen l = []) :
    l.Nodup ∧ ∀ x ∈ l, x ∉ seen := by
  induction l generalizing seen with
  | nil => exact ⟨List.nodup_nil, fun x hx => (by cases hx)⟩
  | cons x xs ih =>
    rw [repeated, List.append_eq_nil_iff] at h
    obtain ⟨hx, hrest⟩ := h
    obtain ⟨hnodup, hseen⟩ := ih hrest
    have hxseen : x ∉ seen := by
      intro hmem
      rw [if_pos hmem] at hx
      cases hx
    refine ⟨List.nodup_cons.mpr ⟨fun hmem => hseen x hmem List.mem_cons_self, hnodup⟩, ?_⟩
    intro y hy
    rcases List.mem_cons.mp hy with rfl | hmem
    · exact hxseen
    · exact fun hys => hseen y hmem (List.mem_cons_of_mem _ hys)

/-- A plan that the static validator accepts. -/
structure Accepted (c : Pydantic) (p : Plan) : Prop where
  nodup : p.stepIds.Nodup
  config : ∀ s ∈ p.steps, (s.parseConfig c.toCoercion).isSome
  owned : ∀ l ∈ p.loopConfigs c, ∀ b ∈ l.2.bodyStepIds, b ∈ p.stepIds ∧ b ≠ l.1
  owner : ((p.bodyMentions c).map Prod.fst).Nodup

theorem issueIf_eq_nil {test : Bool} {code : String} {id : Option String}
    (h : issueIf test code id = []) : test = false := by
  cases test with
  | false => rfl
  | true => cases h

theorem accepted_of_validate {c : Pydantic} {p : Plan} (h : p.validate c = []) : p.Accepted c := by
  simp only [validate, List.append_eq_nil_iff, List.map_eq_nil_iff, List.flatMap_eq_nil_iff] at h
  obtain ⟨⟨⟨⟨⟨⟨⟨⟨⟨⟨⟨⟨⟨-, hrepeated⟩, -⟩, -⟩, -⟩, -⟩, -⟩, howned⟩, -⟩, -⟩, hconfig⟩, -⟩, -⟩, -⟩ := h
  simp only [ownershipIssues, List.append_eq_nil_iff, List.map_eq_nil_iff,
    List.flatMap_eq_nil_iff] at howned
  refine ⟨(nodup_of_repeated hrepeated).1, fun s hs => ?_, fun l hl b hb => ?_,
    (nodup_of_repeated howned.2).1⟩
  · have hissues := (hconfig s hs).2
    unfold configIssues at hissues
    split at hissues
    · cases hissues
    all_goals simp_all
  · have htest := issueIf_eq_nil (howned.1 l hl b hb)
    simpa using htest

end Plan

/-! ### The validation report -/

theorem sortErrors_eq_nil_iff {errors : List ValidationError} : sortErrors errors = [] ↔ errors = [] := by
  rw [← List.length_eq_zero_iff, ← List.length_eq_zero_iff, sortErrors, List.length_insertionSort]

theorem filterMap_value?_of_error? {α β ε : Type} {f : α → Except ε β} {g : α → Option β}
    {l : List α} (hg : ∀ a b, f a = .ok b → g a = some b) (h : (l.map f).filterMap error? = []) :
    (l.map f).filterMap value? = l.filterMap g := by
  induction l with
  | nil => rfl
  | cons a l ih =>
    rw [List.map_cons] at h ⊢
    cases ha : f a with
    | error e => simp [ha, error?] at h
    | ok b =>
      rw [List.filterMap_cons_some (hg a b ha), ← ih (by simpa [ha, error?] using h)]
      exact List.filterMap_cons_some rfl

/-- The facts of a valid `_build_validation`. -/
structure Validated (env : Platform) (workflowId : UUID) (deps : Dependencies) (c : Content)
    (p : Plan) : Prop where
  plan : c.plan env = .ok p
  source : p.source = .workflow workflowId
  static : p.validate env.pydantic = []
  tools : ∀ s ∈ p.stepsOf .tool, ∃ item, toolDependency env deps s = .ok item
  approvals : ∀ s ∈ p.stepsOf .approval, approvalDependency env deps s = .ok ()

theorem source_of_sourceErrors {workflowId : UUID} {p : Plan} (h : sourceErrors workflowId p = []) :
    p.source = .workflow workflowId := by
  unfold sourceErrors at h
  split at h
  · next id hsource =>
    split at h
    · next heq => rw [hsource, heq]
    · cases h
  · cases h

theorem error?_eq_none_iff {ε α : Type} {x : Except ε α} : error? x = none ↔ ∃ a, x = .ok a := by
  cases x <;> simp [error?]

/-- A plan without errors. -/
theorem validated_of_planErrors {env : Platform} {workflowId : UUID} {deps : Dependencies}
    {c : Content} {p : Plan} (hplan : c.plan env = .ok p)
    (h : planErrors env workflowId deps c p = []) : Validated env workflowId deps c p := by
  simp only [planErrors, sortErrors_eq_nil_iff, List.append_eq_nil_iff, List.map_eq_nil_iff,
    collectDependencyErrors, List.filterMap_eq_nil_iff, List.mem_map, forall_exists_index,
    and_imp, forall_apply_eq_imp_iff₂, error?_eq_none_iff] at h
  obtain ⟨⟨⟨-, hsource⟩, hstatic⟩, htools, happrovals⟩ := h
  refine ⟨hplan, source_of_sourceErrors hsource, hstatic, htools, fun s hs => ?_⟩
  obtain ⟨⟨⟩, hok⟩ := happrovals s hs
  exact hok

theorem toolRefs_eq_toolProjection {env : Platform} {workflowId : UUID} {deps : Dependencies}
    {c : Content} {p : Plan} (h : Validated env workflowId deps c p) :
    (collectDependencyErrors env deps p).2.1 = p.toolProjection env.pydantic.toCoercion := by
  refine filterMap_value?_of_error? (fun s item hitem => ?_) ?_
  · unfold toolDependency at hitem
    split at hitem
    · cases hitem
    · next cfg hcfg =>
      split at hitem <;> cases hitem
      rw [hcfg, Option.map_some]
  · simp only [List.filterMap_eq_nil_iff, List.mem_map, forall_exists_index, and_imp,
      forall_apply_eq_imp_iff₂, error?_eq_none_iff]
    exact h.tools

/-- A valid `_build_validation`. -/
theorem validated_of_buildValidation {env : Platform} {workflowId : UUID} {deps : Dependencies}
    {c : Content} {contentHash : String} {report : ValidationReport} {items : List (String × UUID)}
    (h : buildValidation env workflowId deps c contentHash = (true, report, items)) :
    ∃ p, Validated env workflowId deps c p ∧
      items = p.toolProjection env.pydantic.toCoercion ∧ report.valid = true ∧
      report.contentHash = contentHash := by
  unfold buildValidation at h
  split at h
  · cases h
  next p hplan =>
  obtain ⟨hvalid, hrest⟩ := Prod.mk.inj h
  obtain ⟨hreport, hitems⟩ := Prod.mk.inj hrest
  have hok := validated_of_planErrors hplan (List.isEmpty_iff.mp hvalid)
  refine ⟨p, hok, ?_, ?_, ?_⟩
  · rw [← hitems, if_pos hvalid]
    exact toolRefs_eq_toolProjection hok
  · rw [← hreport, hvalid]
  · rw [← hreport]

/-! ### Tool references -/

theorem mem_iff_lookup_reverse {l : List (String × UUID)} (h : (l.map Prod.fst).Nodup)
    (k : String) (v : UUID) : (k, v) ∈ l ↔ l.reverse.lookup k = some v := by
  induction l generalizing v with
  | nil => simp
  | cons m l ih =>
    obtain ⟨k', v'⟩ := m
    rw [List.map_cons, List.nodup_cons] at h
    obtain ⟨hnew, hnodup⟩ := h
    rw [List.reverse_cons, List.lookup_append, List.mem_cons, ih hnodup v, Prod.mk.injEq]
    cases hlookup : l.reverse.lookup k with
    | some w =>
      have hmem := (ih hnodup w).mpr hlookup
      have hne : k ≠ k' := fun heq => hnew (List.mem_map.mpr ⟨(k, w), hmem, heq⟩)
      simp [hne]
    | none =>
      by_cases hk : k = k'
      · subst hk
        simp [eq_comm]
      · simp [hk, List.lookup_cons, beq_eq_false_iff_ne.mpr hk]

/-- Equal dictionaries with distinct keys have the same pairs. -/
theorem mem_iff_of_sameMap {a b : List (String × UUID)} (ha : (a.map Prod.fst).Nodup)
    (hb : (b.map Prod.fst).Nodup) (h : World.sameMap a b = true) {x : String × UUID} :
    x ∈ a ↔ x ∈ b := by
  simp only [World.sameMap, Bool.and_eq_true, List.all_eq_true, decide_eq_true_eq] at h
  obtain ⟨k, v⟩ := x
  constructor
  · intro hx
    rw [mem_iff_lookup_reverse hb, h.1 _ hx, ← mem_iff_lookup_reverse ha]
    exact hx
  · intro hx
    rw [mem_iff_lookup_reverse ha, h.2 _ hx, ← mem_iff_lookup_reverse hb]
    exact hx

theorem nodup_refsOf (w : World) (id : UUID) : ((w.refsOf id).map Prod.fst).Nodup := by
  unfold World.refsOf
  rw [List.map_map]
  refine List.Nodup.of_map (fun key => (id, key)) ?_
  rw [List.map_map]
  have hkeys : (w.toolRefs.rows.filter (·.versionId = id)).map
      ((fun key => (id, key)) ∘ Prod.fst ∘ fun r => (r.stepKey, r.toolVersionId)) =
      (w.toolRefs.rows.filter (·.versionId = id)).map ToolRef.key := by
    refine List.map_congr_left fun r hr => ?_
    have hid : r.versionId = id := by simpa using (List.mem_filter.mp hr).2
    simp [ToolRef.key, hid]
  rw [hkeys]
  exact w.toolRefs.nodup_keys.sublist (List.filter_sublist.map _)

theorem nodup_toolProjection {c : Coercion} {p : Plan} (h : p.stepIds.Nodup) :
    ((p.toolProjection c).map Prod.fst).Nodup := by
  have hsub : ((p.toolProjection c).map Prod.fst).Sublist p.stepIds := by
    unfold Plan.toolProjection Plan.stepsOf Plan.stepIds
    generalize p.steps = steps
    induction steps with
    | nil => simp
    | cons s steps ih =>
      rw [List.map_cons]
      by_cases hs : s.type = .tool
      · rw [List.filter_cons_of_pos (by simpa using hs)]
        cases hcfg : ComplexToolStepConfig.read c s.config.1 with
        | none =>
          rw [List.filterMap_cons_none (by simp [hcfg])]
          exact ih.cons _
        | some cfg =>
          rw [List.filterMap_cons_some (by simp [hcfg]; rfl), List.map_cons]
          exact ih.cons_cons _
      · rw [List.filter_cons_of_neg (by simpa using hs)]
        exact ih.cons _
  exact h.sublist hsub

end McpFlow.Workflow
