import McpFlow.Execution.Dag
import McpFlow.Library.Except
import McpFlow.Library.Lists

/-!
# The scheduling order

What the validation of a DAG has checked, and that its order names every row: the queue takes a key
when the last edge before it is dropped, so it takes no key twice, and an order as long as the
dictionary of the dependencies leaves none out.
-/

namespace McpFlow

variable {digest : TemplateDigest} {plan : ExecutionPlanV1} {steps : List ExecutionStep}
  {dag : ToolJoinDag} {edges : List (String × List String)}

/-! ### What a validated DAG is -/

/-- The checks of `validate_tool_join_dag`, and the DAG they end in. -/
structure ValidatedDag (digest : TemplateDigest) (plan : ExecutionPlanV1)
    (steps : List ExecutionStep) (ownership : LoopBodyOwnership)
    (topDeps childDeps : List (String × List String)) (dag : ToolJoinDag) : Prop where
  nonempty : steps ≠ []
  nodup : (steps.map (·.stepKey)).Nodup
  owned : buildLoopBodyOwnership plan = .ok ownership
  flat : ownership.bodyToLoop ≠ [] → assertFlatForeachRuntimeCompatible plan ownership = .ok ()
  rows : assertRowsMatchPlan plan (!ownership.bodyToLoop.isEmpty)
    (plan.steps.filter ownership.isTopLevel) steps = .ok ()
  top : (plan.steps.filter ownership.isTopLevel).mapM
    (validateTopLevelStep ((plan.steps.filter ownership.isTopLevel).map (·.id))
      (!ownership.bodyToLoop.isEmpty) steps) = .ok topDeps
  children : (steps.filter (·.parentStepId.isSome)).mapM
    (validateChild digest plan ownership (steps.filter (·.parentStepId.isNone))) = .ok childDeps
  iterations : ((steps.filter (·.parentStepId.isNone)).filter
    fun s => !(childrenOf steps s.id).isEmpty).forM (fun parent =>
      validateLoopIterationShape digest plan ownership parent (childrenOf steps parent.id)) = .ok ()
  whiles : (steps.filter (·.parentStepId.isNone)).forM (validateWhileParent digest plan steps) =
    .ok ()
  dependencies : dag.dependencies = Dict.ofPairs (topDeps ++ childDeps)
  ordered : dag.orderedStepKeys =
    scheduleOrder plan steps (topDeps ++ childDeps) (Dict.ofPairs (topDeps ++ childDeps))
  length : dag.orderedStepKeys.length = dag.dependencies.length
  maxParallelism : dag.maxParallelism = plan.limits.maxParallelism
  roots : dag.rootToolKeys = ((plan.steps.filter ownership.isTopLevel).map (·.id)).filter fun key =>
    (dag.dependencies.get? key).all (·.isEmpty) && (rowByKey steps key).any (·.stepType == .tool)
  dependents : dag.dependents = dependentsMap (topDeps ++ childDeps) dag.dependencies

theorem validateToolJoinDag_ok (h : validateToolJoinDag digest plan steps = .ok dag) :
    ∃ ownership topDeps childDeps,
      ValidatedDag digest plan steps ownership topDeps childDeps dag := by
  unfold validateToolJoinDag at h
  obtain ⟨_, hnonempty, h⟩ := Except.bind_eq_ok_iff.mp h
  obtain ⟨_, hnodup, h⟩ := Except.bind_eq_ok_iff.mp h
  obtain ⟨ownership, howned, h⟩ := Except.bind_eq_ok_iff.mp h
  rw [assertThat_eq_ok_iff] at hnonempty hnodup
  have hne : steps ≠ [] := by
    rintro rfl
    cases hnonempty
  have hkeys : (steps.map (·.stepKey)).Nodup := of_decide_eq_true hnodup
  dsimp only at h
  split at h
  · next hbodies =>
    obtain ⟨_, hflat, h⟩ := Except.bind_eq_ok_iff.mp h
    simp only [Except.bind_eq_ok_iff] at h
    obtain ⟨_, hrows, topDeps, htop, childDeps, hchildren, _, hiter, _, hwhile, _, hlength, h⟩ := h
    cases h
    exact ⟨ownership, topDeps, childDeps, hne, hkeys, howned, fun _ => hflat, hrows, htop, hchildren,
      hiter, hwhile, rfl, rfl, by simpa using hlength, rfl, rfl, rfl⟩
  · next hbodies =>
    simp only [Except.bind_eq_ok_iff] at h
    obtain ⟨_, hrows, topDeps, htop, childDeps, hchildren, _, hiter, _, hwhile, _, hlength, h⟩ := h
    cases h
    refine ⟨ownership, topDeps, childDeps, hne, hkeys, howned, fun hbody => ?_, hrows, htop,
      hchildren, hiter, hwhile, rfl, rfl, by simpa using hlength, rfl, rfl, rfl⟩
    exact absurd (by simpa using hbodies) hbody

/-! ### The queue -/

/-- The keys taken so far: each once, with no edge left before it. -/
structure QueueInv (keys : List String) (indeg : Dict ℤ) (taken : List String) : Prop where
  nodup : taken.Nodup
  known : ∀ k ∈ taken, k ∈ keys
  done : ∀ k ∈ taken, (indeg.get? k).getD 0 ≤ 0

namespace QueueInv

variable {keys taken : List String} {indeg : Dict ℤ}

theorem perm {taken' : List String} (h : QueueInv keys indeg taken) (hp : taken'.Perm taken) :
    QueueInv keys indeg taken' :=
  ⟨hp.nodup_iff.mpr h.nodup, fun k hk => h.known k (hp.mem_iff.mp hk),
    fun k hk => h.done k (hp.mem_iff.mp hk)⟩

/-- An edge is dropped: its row is taken when it was the last one. -/
theorem dropEdge {queue seen : List String} {k : String}
    (h : QueueInv keys indeg (seen ++ queue)) (hk : k ∈ keys) :
    QueueInv keys (McpFlow.dropEdge (indeg, queue) k).1
      (seen ++ (McpFlow.dropEdge (indeg, queue) k).2) := by
  unfold McpFlow.dropEdge
  dsimp only
  have hdone : ∀ j ∈ seen ++ queue,
      ((indeg.set k ((indeg.get? k).getD 0 - 1)).get? j).getD 0 ≤ 0 := by
    intro j hj
    have hold := h.done j hj
    rw [Dict.get?_set]
    split
    · next hkj =>
      subst hkj
      rw [Option.getD_some]
      omega
    · exact hold
  split
  · next hlast =>
    -- the row still had an edge before it, so it was not taken
    have hfresh : k ∉ seen ++ queue := fun hmem => by
      have := h.done k hmem
      omega
    rw [← List.append_assoc]
    refine ⟨List.nodup_append.mpr ⟨h.nodup, List.nodup_singleton k, ?_⟩, ?_, ?_⟩
    · rintro a ha b hb rfl
      exact hfresh (List.mem_singleton.mp hb ▸ ha)
    · intro j hj
      rcases List.mem_append.mp hj with hj | hj
      · exact h.known j hj
      · exact List.mem_singleton.mp hj ▸ hk
    · intro j hj
      rcases List.mem_append.mp hj with hj | hj
      · exact hdone j hj
      · rw [List.mem_singleton.mp hj, Dict.get?_set, if_pos rfl, Option.getD_some, hlast]
  · exact ⟨h.nodup, h.known, hdone⟩

theorem dropEdges {seen : List String} (next : List String) {indeg : Dict ℤ} {queue : List String}
    (h : QueueInv keys indeg (seen ++ queue)) (hnext : ∀ k ∈ next, k ∈ keys) :
    QueueInv keys (next.foldl McpFlow.dropEdge (indeg, queue)).1
      (seen ++ (next.foldl McpFlow.dropEdge (indeg, queue)).2) := by
  induction next generalizing indeg queue with
  | nil => exact h
  | cons k next ih =>
    rw [List.forall_mem_cons] at hnext
    exact ih (h.dropEdge hnext.1) hnext.2

end QueueInv

theorem perm_sortKeys (plan : ExecutionPlanV1) (steps : List ExecutionStep) (keys : List String) :
    (sortKeys plan steps keys).Perm keys :=
  List.perm_insertionSort _ keys

/-- What the queue has let through: each key once, and only keys of the edges. -/
theorem kahn_nodup {keys : List String} (hedges : ∀ p ∈ edges, p.1 ∈ keys) (fuel : ℕ)
    {indeg : Dict ℤ} {queue seen : List String} (h : QueueInv keys indeg (seen ++ queue)) :
    (kahn plan steps edges fuel indeg queue seen).Nodup ∧
      ∀ k ∈ kahn plan steps edges fuel indeg queue seen, k ∈ keys := by
  have hseen : ∀ {indeg : Dict ℤ} {queue seen : List String},
      QueueInv keys indeg (seen ++ queue) → seen.Nodup ∧ ∀ k ∈ seen, k ∈ keys :=
    fun h => ⟨h.nodup.of_append_left, fun k hk => h.known k (List.mem_append_left _ hk)⟩
  induction fuel generalizing indeg queue seen with
  | zero => exact hseen h
  | succ fuel ih =>
    cases queue with
    | nil => exact hseen h
    | cons cur queue =>
      rw [kahn]
      have hnext : ∀ k ∈ sortKeys plan steps (dependentsOf edges cur), k ∈ keys := by
        intro k hk
        obtain ⟨p, hp, hk⟩ := List.mem_flatMap.mp ((perm_sortKeys plan steps _).mem_iff.mp hk)
        obtain ⟨-, -, rfl⟩ := List.mem_map.mp hk
        exact hedges p hp
      have hcur : QueueInv keys indeg ((seen ++ [cur]) ++ queue) := by
        rw [List.append_assoc]
        exact h
      exact ih ((hcur.dropEdges _ hnext).perm ((perm_sortKeys plan steps _).append_left _))

variable (plan steps) in
theorem scheduleOrder_nodup {deps : Dict (List String)} (hdeps : deps.keys.Nodup)
    (hedges : ∀ p ∈ edges, p.1 ∈ deps.keys) :
    (scheduleOrder plan steps edges deps).Nodup ∧
      ∀ k ∈ scheduleOrder plan steps edges deps, k ∈ deps.keys := by
  refine kahn_nodup hedges _ ?_
  have hsub : ((deps.filter (·.2.isEmpty)).map Prod.fst).Sublist deps.keys :=
    List.filter_sublist.map Prod.fst
  refine QueueInv.perm ?_ (perm_sortKeys plan steps _)
  refine ⟨hdeps.sublist hsub, fun k hk => hsub.subset hk, fun k hk => ?_⟩
  obtain ⟨p, hp, rfl⟩ := List.mem_map.mp hk
  obtain ⟨hp, hempty⟩ := List.mem_filter.mp hp
  have hcount : (p.1, (p.2.length : ℤ)) ∈ deps.map fun p => (p.1, (p.2.length : ℤ)) :=
    List.mem_map_of_mem hp
  have hkeys : Dict.keys (deps.map fun p => (p.1, (p.2.length : ℤ))) = deps.keys := by
    rw [Dict.keys, List.map_map]
    rfl
  rw [Dict.get?_of_mem (hkeys ▸ hdeps) hcount, Option.getD_some, List.isEmpty_iff.mp hempty]
  rfl

/-! ### Every row is ordered -/

namespace ValidatedDag

variable {ownership : LoopBodyOwnership} {topDeps childDeps : List (String × List String)}

/-- The order is an enumeration of the keys that have dependencies. -/
theorem mem_orderedStepKeys_iff (h : ValidatedDag digest plan steps ownership topDeps childDeps dag)
    {key : String} : key ∈ dag.orderedStepKeys ↔ key ∈ (topDeps ++ childDeps).map Prod.fst := by
  have hkeys := Dict.nodup_keys_ofPairs (topDeps ++ childDeps)
  obtain ⟨hnodup, hsub⟩ := scheduleOrder_nodup plan steps hkeys
    fun p (hp : p ∈ topDeps ++ childDeps) =>
      Dict.mem_keys_ofPairs.mpr (List.mem_map_of_mem hp)
  rw [← h.ordered] at hnodup hsub
  have hlength : (Dict.ofPairs (topDeps ++ childDeps)).keys.length ≤ dag.orderedStepKeys.length := by
    rw [h.length, h.dependencies, Dict.keys, List.length_map]
  have hperm := (List.subperm_of_subset hnodup hsub).perm_of_length_le hlength
  rw [hperm.mem_iff, Dict.mem_keys_ofPairs]

/-- The plan steps at the top level are ordered. -/
theorem topLevel_mem (h : ValidatedDag digest plan steps ownership topDeps childDeps dag)
    {ps : ExecutionPlanStep} (hps : ps ∈ plan.steps.filter ownership.isTopLevel) :
    ps.id ∈ dag.orderedStepKeys := by
  obtain ⟨p, hp, hvalid⟩ := List.exists_right_of_forall₂ (List.forall₂_of_mapM_eq_ok h.top) hps
  have hid : p.1 = ps.id := by
    unfold validateTopLevelStep at hvalid
    split at hvalid
    · cases hvalid
    · simp only [Except.bind_eq_ok_iff] at hvalid
      obtain ⟨_, _, _, _, _, _, _, _, _, _, hvalid⟩ := hvalid
      cases hvalid
      rfl
  exact h.mem_orderedStepKeys_iff.mpr
    (hid ▸ List.mem_map_of_mem (List.mem_append_left childDeps hp))

/-- The instances of body steps are ordered. -/
theorem child_mem (h : ValidatedDag digest plan steps ownership topDeps childDeps dag)
    {s : ExecutionStep} (hs : s ∈ steps) (hchild : s.parentStepId.isSome = true) :
    s.stepKey ∈ dag.orderedStepKeys := by
  obtain ⟨p, hp, hvalid⟩ := List.exists_right_of_forall₂ (List.forall₂_of_mapM_eq_ok h.children)
    (List.mem_filter.mpr ⟨hs, hchild⟩)
  have hkey : p.1 = s.stepKey := by
    unfold validateChild at hvalid
    split at hvalid
    · simp only [Except.bind_eq_ok_iff] at hvalid
      obtain ⟨_, _, _, _, hvalid⟩ := hvalid
      split at hvalid
      · simp only [Except.bind_eq_ok_iff] at hvalid
        obtain ⟨_, _, _, _, _, _, _, _, _, _, _, _, _, _, deps, _, _, _, hvalid⟩ := hvalid
        cases hvalid
        rfl
      · cases hvalid
    · cases hvalid
    · cases hvalid
  exact h.mem_orderedStepKeys_iff.mpr
    (hkey ▸ List.mem_map_of_mem (List.mem_append_right topDeps hp))

/-- Every row is ordered. -/
theorem stepKey_mem (h : ValidatedDag digest plan steps ownership topDeps childDeps dag)
    {s : ExecutionStep} (hs : s ∈ steps) : s.stepKey ∈ dag.orderedStepKeys := by
  by_cases hchild : s.parentStepId.isSome = true
  · exact h.child_mem hs hchild
  have htop : s.parentStepId.isNone = true := by simpa using hchild
  obtain ⟨ps, hps, hid⟩ : ∃ ps ∈ plan.steps.filter ownership.isTopLevel, ps.id = s.stepKey := by
    have hrows := h.rows
    unfold assertRowsMatchPlan at hrows
    split at hrows
    · simp only [Except.bind_eq_ok_iff, assertThat_eq_ok_iff] at hrows
      obtain ⟨-, -, hrows⟩ := hrows
      have hmem := (List.sameSet_iff.mp hrows s.stepKey).mp
        (List.mem_map_of_mem (List.mem_filter.mpr ⟨hs, htop⟩))
      exact List.mem_map.mp hmem
    · next hbodies =>
      simp only [Except.bind_eq_ok_iff, assertThat_eq_ok_iff] at hrows
      obtain ⟨-, -, -, -, -, hrows, -⟩ := hrows
      obtain ⟨ps, hps, hid⟩ := List.mem_map.mp
        ((List.sameSet_iff.mp hrows s.stepKey).mp (List.mem_map_of_mem hs))
      refine ⟨ps, List.mem_filter.mpr ⟨hps, ?_⟩, hid⟩
      have hnone : ownership.bodyToLoop = [] := by simpa using hbodies
      rw [LoopBodyOwnership.isTopLevel, hnone]
      rfl
  exact hid ▸ h.topLevel_mem hps

end ValidatedDag

end McpFlow
