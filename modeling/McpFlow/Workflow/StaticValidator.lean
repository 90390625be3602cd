import McpFlow.Workflow.StepConfig

/-!
# The static validator of plans

`StaticComplexPlanValidator.validate`: the shape of the dependency graph, the limits, the ownership
of LOOP bodies, the typed configs and the bindings of every step, with no look at a database. The
depth-first searches carry a bound on their depth: a nested call has one more step id on its stack.
-/

namespace McpFlow.Workflow

open Json

/-- `ComplexPlanIssue`, without its text. -/
structure PlanIssue where
  code : String
  stepId : Option String
deriving DecidableEq

/-- The validation library: how it reads scalars, and whether the text of its exception for a config
contains `predicate`. -/
structure Pydantic extends Coercion where
  namesPredicate : Value → Bool

/-- The bounds of the system on the limits of a plan. -/
def systemHardMaxSteps : ℕ := 100

@[inherit_doc systemHardMaxSteps] def systemHardMaxDurationSeconds : ℕ := 3600

@[inherit_doc systemHardMaxSteps] def systemHardMaxParallelism : ℕ := 32

@[inherit_doc systemHardMaxSteps] def systemHardMaxLoopIterations : ℕ := 500

/-- `MAX_LOOP_NESTING_DEPTH`. -/
def maxLoopNestingDepth : ℕ := 3

/-- An issue when the test fails. -/
def issueIf (test : Bool) (code : String) (stepId : Option String) : List PlanIssue :=
  if test then [⟨code, stepId⟩] else []

namespace Plan

/-- The ids of the steps, in order. -/
def stepIds (p : Plan) : List String := p.steps.map (·.id)

/-- The ids that occur in the list before their place. -/
def repeated : List String → List String → List String
  | _, [] => []
  | seen, x :: xs => (if x ∈ seen then [x] else []) ++ repeated (x :: seen) xs

/-! ### The dependency graph -/

/-- The steps that depend on `id`, once for every mention. -/
def successors (p : Plan) (id : String) : List String :=
  p.steps.flatMap fun s => (s.dependsOn.filter (· = id)).map fun _ => s.id

/-- `visit` of `_has_dependency_cycle`: whether a cycle was met, and the nodes visited so far. -/
def visit (p : Plan) : ℕ → List String → Bool × List String → String → Bool × List String
  | 0, _, acc, _ => acc
  | depth + 1, stack, (found, visited), node =>
    if found = true ∨ node ∈ stack then (true, visited)
    else if node ∈ visited then (false, visited)
    else (p.successors node).foldl (fun acc next => visit p depth (node :: stack) acc next)
      (false, node :: visited)

/-- `_has_dependency_cycle`. -/
def hasDependencyCycle (p : Plan) : Bool :=
  (p.stepIds.eraseDups.foldl (p.visit (p.steps.length + 1) []) (false, [])).1

/-- The loop of `_reachable_from_roots`; every round takes one node off the queue, and a node enters
the queue at most once for every mention of a dependency. -/
def reach (p : Plan) : ℕ → List String → List String → List String
  | 0, seen, _ => seen
  | _ + 1, seen, [] => seen
  | n + 1, seen, node :: queue =>
    if node ∈ seen then reach p n seen queue
    else reach p n (node :: seen)
      (queue ++ (p.successors node).filter fun next => next ∉ node :: seen)

/-- `_reachable_from_roots`. -/
def reachableFromRoots (p : Plan) : List String :=
  let roots := (p.steps.filter fun s => s.dependsOn.isEmpty).map (·.id)
  reach p (p.steps.length + (p.steps.map (·.dependsOn.length)).sum + 1) [] roots

/-- The dependencies that exist; a later step of the same id replaces an earlier one. -/
def direct (p : Plan) (id : String) : List String :=
  ((p.steps.reverse.find? (·.id = id)).map fun s => s.dependsOn.filter (· ∈ p.stepIds)).getD []

/-- `ancestors_of` of `_transitive_ancestors`. Its cache changes nothing in an acyclic plan, and a
cyclic one has an issue of its own. -/
def ancestorsOf (p : Plan) : ℕ → List String → String → List String
  | 0, _, _ => []
  | depth + 1, stack, id =>
    if id ∈ stack then []
    else (p.direct id).flatMap fun dep => dep :: ancestorsOf p depth (id :: stack) dep

/-- The transitive dependencies of a step. -/
def ancestors (p : Plan) (id : String) : List String := p.ancestorsOf (p.steps.length + 1) [] id

/-! ### The issues -/

/-- The checks on `depends_on`. -/
def dependencyIssues (p : Plan) (s : PlanStep) : List PlanIssue :=
  (s.dependsOn.flatMap fun dep =>
    issueIf (dep ∉ p.stepIds) "PLAN_DEPENDENCY_MISSING" s.id ++
      issueIf (dep = s.id) "PLAN_DEPENDENCY_MISSING" s.id) ++
  (repeated [] s.dependsOn).map fun _ => ⟨"PLAN_DEPENDENCY_MISSING", s.id⟩

/-- `_validate_limit_hard_bounds`. -/
def limitIssues (p : Plan) : List PlanIssue :=
  [(p.limits.maxSteps, systemHardMaxSteps),
    (p.limits.maxDurationSeconds, systemHardMaxDurationSeconds),
    (p.limits.maxParallelism, systemHardMaxParallelism),
    (p.limits.maxLoopIterations, systemHardMaxLoopIterations)].flatMap fun limit =>
      issueIf (limit.2 < limit.1) "PLAN_LIMIT_EXCEEDED" none

/-- The parsed LOOP configs, by step. -/
def loopConfigs (c : Pydantic) (p : Plan) : List (String × LoopStepConfig) :=
  p.steps.filterMap fun s =>
    if s.type = .loop then (LoopStepConfig.read c.toCoercion s.config.1).map (Prod.mk s.id) else none

/-- Every body step with its LOOP, in order, but only where the LOOP may own it. -/
def bodyMentions (c : Pydantic) (p : Plan) : List (String × String) :=
  (p.loopConfigs c).flatMap fun l =>
    (l.2.bodyStepIds.filter fun b => b ∈ p.stepIds ∧ b ≠ l.1).map fun b => (b, l.1)

/-- `loop_body_owner`: the first LOOP that names the step. -/
def loopBodyOwner (c : Pydantic) (p : Plan) (id : String) : Option String :=
  (p.bodyMentions c).lookup id

/-- The checks on the ownership of LOOP bodies. -/
def ownershipIssues (c : Pydantic) (p : Plan) : List PlanIssue :=
  ((p.loopConfigs c).flatMap fun l => l.2.bodyStepIds.flatMap fun b =>
    issueIf (b ∉ p.stepIds ∨ b = l.1) "PLAN_SCHEMA_INVALID" l.1) ++
  (repeated [] ((p.bodyMentions c).map Prod.fst)).map fun b => ⟨"PLAN_SCHEMA_INVALID", b⟩

/-- The checks on `response_step_ids`. -/
def responseIssues (c : Pydantic) (p : Plan) : List PlanIssue :=
  if p.responseStepIds = [] ∨ ¬p.responseStepIds.Nodup then [⟨"PLAN_SCHEMA_INVALID", none⟩]
  else p.responseStepIds.flatMap fun id =>
    issueIf (id ∉ p.stepIds ∨ (p.loopBodyOwner c id).isSome) "PLAN_SCHEMA_INVALID" none

/-- A step outside the LOOP bodies does not depend on a body step. -/
def topLevelIssues (c : Pydantic) (p : Plan) (s : PlanStep) : List PlanIssue :=
  if (p.loopBodyOwner c s.id).isSome then []
  else s.dependsOn.flatMap fun dep =>
    issueIf (p.loopBodyOwner c dep).isSome "PLAN_SCHEMA_INVALID" s.id

/-- Whether a STEP_OUTPUT binding of `owner` may name `source`. -/
def stepOutputAllowed (c : Pydantic) (p : Plan) (owner source : String) : Bool :=
  source ≠ owner && source ∈ p.stepIds &&
    match p.loopBodyOwner c owner, p.loopBodyOwner c source with
    | none, some _ => false
    | none, none => source ∈ p.ancestors owner
    | some loop, some other => other = loop && source ∈ p.ancestors owner
    | some loop, none => source = loop || source ∈ p.ancestors loop

/-- `_validate_bindings`. -/
def bindingIssues (c : Pydantic) (p : Plan) (owner : String) (bindings : List PlanBinding) :
    List PlanIssue :=
  bindings.flatMap fun
    | .stepOutput source _ =>
      issueIf (!p.stepOutputAllowed c owner source) "PLAN_BINDING_INVALID" owner
    | _ => []

/-- `_validate_when`. -/
def whenIssues (c : Pydantic) (p : Plan) (s : PlanStep) : List PlanIssue :=
  match s.when with
  | none => []
  | some when =>
    match Predicate.read c.toCoercion when.1 with
    | none => [⟨"PLAN_CONDITION_INVALID", s.id⟩]
    | some pred =>
      issueIf (s.type = .loop && pred.bindings.any PlanBinding.isLoopContext)
        "PLAN_BINDING_INVALID" s.id ++ p.bindingIssues c s.id pred.bindings

/-- The bindings of a LOOP config that the graph checks look at. A FOR_EACH has no predicate, so the
check of its predicate for LOOP_CONTEXT never runs. -/
def loopBindings (cfg : LoopStepConfig) : List PlanBinding :=
  (cfg.collection.toList.filter fun b => !b.isLoopContext) ++
    (cfg.predicate.map Predicate.bindings).getD []

/-- The code for a config that does not parse. -/
def configCode (c : Pydantic) (s : PlanStep) : String :=
  if (s.type = .condition ∨ s.type = .loop) ∧ c.namesPredicate s.config.1 = true then
    "PLAN_CONDITION_INVALID"
  else "PLAN_SCHEMA_INVALID"

/-- `_validate_step_config`. -/
def configIssues (c : Pydantic) (p : Plan) (s : PlanStep) : List PlanIssue :=
  match s.parseConfig c.toCoercion with
  | none => [⟨configCode c s, s.id⟩]
  | some (.tool cfg) => p.bindingIssues c s.id (cfg.bindings.map Prod.snd)
  | some (.condition pred) => p.bindingIssues c s.id pred.bindings
  | some (.join _) | some (.approval _) => []
  | some (.loop cfg) =>
    issueIf (p.limits.maxLoopIterations < cfg.maxIterations) "PLAN_LIMIT_EXCEEDED" s.id ++
    issueIf (cfg.collection.any PlanBinding.isLoopContext) "PLAN_BINDING_INVALID" s.id ++
    p.bindingIssues c s.id (loopBindings cfg)

/-- The scope of the dependencies of LOOP body steps. -/
def bodyScopeIssues (c : Pydantic) (p : Plan) : List PlanIssue :=
  (p.loopConfigs c).flatMap fun l => l.2.bodyStepIds.flatMap fun (b : String) =>
    match p.steps.find? fun s => s.id = b with
    | none => []
    | some s => s.dependsOn.flatMap fun dep =>
        issueIf (dep ≠ l.1 ∧ dep ∉ l.2.bodyStepIds) "PLAN_SCHEMA_INVALID" b

/-- `depth_of` of `_validate_loop_nesting`. -/
def loopDepth (c : Pydantic) (p : Plan) : ℕ → List String → String → ℕ
  | 0, _, _ => maxLoopNestingDepth + 1
  | n + 1, stack, id =>
    if id ∈ stack then maxLoopNestingDepth + 1
    else match p.loopBodyOwner c id with
      | none => 1
      | some owner => 1 + loopDepth c p n (id :: stack) owner

/-- `_validate_loop_nesting`. -/
def nestingIssues (c : Pydantic) (p : Plan) : List PlanIssue :=
  (p.loopConfigs c).flatMap fun l =>
    issueIf (maxLoopNestingDepth < p.loopDepth c (p.steps.length + 1) [] l.1)
      "PLAN_LIMIT_EXCEEDED" l.1

/-- `StaticComplexPlanValidator.validate`. -/
def validate (c : Pydantic) (p : Plan) : List PlanIssue :=
  issueIf p.steps.isEmpty "PLAN_SCHEMA_INVALID" none ++
  (repeated [] p.stepIds).map (fun id => ⟨"PLAN_STEP_DUPLICATE", id⟩) ++
  p.steps.flatMap p.dependencyIssues ++
  issueIf p.hasDependencyCycle "PLAN_CYCLE_DETECTED" none ++
  (p.stepIds.eraseDups.filter (· ∉ p.reachableFromRoots)).map (fun id => ⟨"PLAN_SCHEMA_INVALID", id⟩) ++
  p.limitIssues ++
  issueIf (p.limits.maxSteps < p.steps.length) "PLAN_LIMIT_EXCEEDED" none ++
  p.ownershipIssues c ++ p.responseIssues c ++
  p.steps.flatMap (p.topLevelIssues c) ++
  p.steps.flatMap (fun s => p.whenIssues c s ++ p.configIssues c s) ++
  p.bodyScopeIssues c ++ p.nestingIssues c ++
  p.steps.flatMap fun s =>
    issueIf (s.type = .join && s.dependsOn.isEmpty) "PLAN_SCHEMA_INVALID" s.id

end Plan

end McpFlow.Workflow
