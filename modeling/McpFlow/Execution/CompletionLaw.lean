import McpFlow.Execution.Budget
import McpFlow.Execution.DagOrder

/-!
# The law of the natural end

What `aggregate_all_required` decides, said of the rows as a set: which rows a plan step judges,
which of them are neutral, and when the Execution has succeeded, partially or not at all. The order
of the rows plays no part, and no Step that ends better makes the Execution end worse.
-/

namespace McpFlow

variable {plan : ExecutionPlanV1} {topLevel : List ExecutionPlanStep} {steps rows : List ExecutionStep}
  {ps : ExecutionPlanStep} {s : ExecutionStep}

/-! ### The rows and what judges them -/

/-- Rows with unique ids, and unique keys at the top level. -/
structure UniqueRows (steps : List ExecutionStep) : Prop where
  ids : (steps.map (·.id)).Nodup
  topKeys : ((steps.filter (·.parentStepId.isNone)).map (·.stepKey)).Nodup

theorem UniqueRows.perm (h : UniqueRows steps) (hp : rows.Perm steps) : UniqueRows rows :=
  ⟨(hp.map _).nodup_iff.mpr h.ids, ((hp.filter _).map _).nodup_iff.mpr h.topKeys⟩

theorem UniqueRows.eq_of_id (h : UniqueRows steps) {t : ExecutionStep} (hs : s ∈ steps)
    (ht : t ∈ steps) (hid : s.id = t.id) : s = t :=
  List.inj_on_of_nodup_map h.ids hs ht hid

theorem UniqueRows.eq_of_topKey (h : UniqueRows steps) {t : ExecutionStep} (hs : s ∈ steps)
    (ht : t ∈ steps) (hst : s.parentStepId = none) (htt : t.parentStepId = none)
    (hkey : s.stepKey = t.stepKey) : s = t := by
  refine List.inj_on_of_nodup_map h.topKeys (List.mem_filter.mpr ⟨hs, ?_⟩)
    (List.mem_filter.mpr ⟨ht, ?_⟩) hkey
  · rw [hst, Option.isNone_none]
  · rw [htt, Option.isNone_none]

/-- The row of a top-level plan step. -/
def TopRow (steps : List ExecutionStep) (ps : ExecutionPlanStep) (s : ExecutionStep) : Prop :=
  s ∈ steps ∧ s.parentStepId = none ∧ s.stepKey = ps.id

/-- A plan step judges its own top-level row, and the snapshot of a LOOP body instance judges the
instance. -/
def Judges (topLevel : List ExecutionPlanStep) (steps : List ExecutionStep) (ps : ExecutionPlanStep)
    (s : ExecutionStep) : Prop :=
  (ps ∈ topLevel ∧ TopRow steps ps s) ∨ (s ∈ steps ∧ s.parentStepId.isSome ∧ ps = s.stepSnapshot)

theorem Judges.mem (h : Judges topLevel steps ps s) : s ∈ steps := by
  rcases h with ⟨-, hs, -⟩ | ⟨hs, -⟩ <;> exact hs

/-- A LOOP child that its own LOOP stopped, when that LOOP has failed and may go on. -/
def LoopStoppedNeutral (steps : List ExecutionStep) (s : ExecutionStep) : Prop :=
  s.errorCode = some "UPSTREAM_LOOP_STOPPED" ∧ (s.status = .skipped ∨ s.status = .cancelled) ∧
    ∃ parent ∈ steps, s.parentStepId = some parent.id ∧ parent.stepType = .loop ∧
      (parent.status = .failed ∨ parent.status = .timedOut) ∧
      (parent.stepSnapshot.onError = .continue ∨ parent.stepSnapshot.onError = .markPartial)

/-- Succeeded, or skipped by the conditional control flow. -/
def ExecutionStep.isSatisfied (s : ExecutionStep) : Bool :=
  s.status == .succeeded || s.isIntentionalConditionalSkip

/-! ### The law -/

/-- ALL_REQUIRED is met. -/
structure AllRequiredMet (topLevel : List ExecutionPlanStep) (steps : List ExecutionStep) :
    Prop where
  present : ∀ ps ∈ topLevel, ∃ s, TopRow steps ps s
  satisfied : ∀ ps s, Judges topLevel steps ps s → ¬LoopStoppedNeutral steps s →
    ps.required = true → s.isSatisfied = true
  unmarked : ∀ ps s, Judges topLevel steps ps s → ¬LoopStoppedNeutral steps s →
    ps.onError = .markPartial → s.status.isFailureLike = false

/-- Some Step succeeded, and some failure is one that its plan step lets pass. -/
structure PartialEvidence (topLevel : List ExecutionPlanStep) (steps : List ExecutionStep) :
    Prop where
  succeeded : ∃ s ∈ steps, s.status = .succeeded
  failed : ∃ ps s, Judges topLevel steps ps s ∧ ¬LoopStoppedNeutral steps s ∧
    s.status.isFailureLike = true ∧
    (ps.onError = .markPartial ∨ ps.required = true ∧ ps.onError = .continue)

/-- How good an end of an Execution is. -/
def ExecutionStatus.completionRank : ExecutionStatus → ℕ
  | succeeded => 2
  | partiallySucceeded => 1
  | _ => 0

/-! ### The evidence is a count over the judged rows -/

theorem isLoopStoppedChildNeutral_iff (h : UniqueRows steps) :
    isLoopStoppedChildNeutral steps s = true ↔ LoopStoppedNeutral steps s := by
  have hfind : ∀ id parent, steps.find? (·.id = id) = some parent ↔
      parent ∈ steps ∧ parent.id = id := fun id parent => by
    rw [List.find?_eq_some_iff_of_unique fun a ha b hb ha' hb' =>
      h.eq_of_id ha hb ((of_decide_eq_true ha').trans (of_decide_eq_true hb').symm),
      decide_eq_true_iff]
  unfold isLoopStoppedChildNeutral LoopStoppedNeutral
  cases hp : s.parentStepId with
  | none => simp
  | some id =>
    dsimp only
    cases hf : steps.find? (·.id = id) with
    | none =>
      simp only [Bool.and_false, Bool.false_eq_true, Option.some.injEq, false_iff, not_and,
        not_exists]
      rintro - - parent hmem rfl
      exact absurd ((hfind parent.id parent).mpr ⟨hmem, rfl⟩) (by rw [hf]; exact nofun)
    | some parent =>
      obtain ⟨hmem, rfl⟩ := (hfind _ _).mp hf
      simp only [Bool.and_eq_true, Bool.or_eq_true, beq_iff_eq, Option.some.injEq, and_assoc]
      refine and_congr_right fun _ => and_congr_right fun _ => ?_
      constructor
      · intro hall
        exact ⟨parent, hmem, rfl, hall⟩
      · rintro ⟨other, hother, hid, hall⟩
        rwa [h.eq_of_id hmem hother hid]

/-- The pairs that the aggregation goes through, a missing row among them. -/
def judgedRows (topLevel : List ExecutionPlanStep) (steps : List ExecutionStep) :
    List (ExecutionPlanStep × Option ExecutionStep) :=
  topLevel.map (fun ps =>
      (ps, steps.reverse.find? fun s => s.parentStepId = none ∧ s.stepKey = ps.id)) ++
    (steps.filter (·.parentStepId.isSome)).map fun s => (s.stepSnapshot, some s)

theorem find?_topRow (h : UniqueRows steps) :
    (steps.reverse.find? fun s => s.parentStepId = none ∧ s.stepKey = ps.id) = some s ↔
      TopRow steps ps s := by
  rw [List.find?_eq_some_iff_of_unique fun a ha b hb ha' hb' => by
    obtain ⟨hapar, hakey⟩ := of_decide_eq_true ha'
    obtain ⟨hbpar, hbkey⟩ := of_decide_eq_true hb'
    exact h.eq_of_topKey (List.mem_reverse.mp ha) (List.mem_reverse.mp hb) hapar hbpar
      (hakey.trans hbkey.symm), List.mem_reverse, decide_eq_true_iff]
  rfl

theorem mem_judgedRows_some (h : UniqueRows steps) :
    (ps, some s) ∈ judgedRows topLevel steps ↔ Judges topLevel steps ps s := by
  simp only [judgedRows, List.mem_append, List.mem_map, List.mem_filter, Prod.mk.injEq]
  constructor
  · rintro (⟨ps, hps, rfl, hrow⟩ | ⟨t, ⟨ht, hpar⟩, rfl, hts⟩)
    · exact .inl ⟨hps, (find?_topRow h).mp hrow⟩
    · cases hts
      exact .inr ⟨ht, hpar, rfl⟩
  · rintro (⟨hps, hrow⟩ | ⟨hs, hpar, rfl⟩)
    · exact .inl ⟨ps, hps, rfl, (find?_topRow h).mpr hrow⟩
    · exact .inr ⟨s, ⟨hs, hpar⟩, rfl, rfl⟩

theorem mem_judgedRows_none (h : UniqueRows steps) :
    (ps, none) ∈ judgedRows topLevel steps ↔ ps ∈ topLevel ∧ ∀ s, ¬TopRow steps ps s := by
  simp only [judgedRows, List.mem_append, List.mem_map, Prod.mk.injEq, reduceCtorEq, and_false,
    exists_false, or_false]
  constructor
  · rintro ⟨ps, hps, rfl, hrow⟩
    refine ⟨hps, fun s hs => ?_⟩
    rw [(find?_topRow h).mpr hs] at hrow
    cases hrow
  · rintro ⟨hps, hnone⟩
    refine ⟨ps, hps, rfl, ?_⟩
    cases hrow : steps.reverse.find? fun s => s.parentStepId = none ∧ s.stepKey = ps.id with
    | none => rfl
    | some s => exact absurd ((find?_topRow h).mp hrow) (hnone s)

/-- One pair of the aggregation. -/
def CompletionEvidence.judge (steps : List ExecutionStep) (ev : CompletionEvidence)
    (pair : ExecutionPlanStep × Option ExecutionStep) : CompletionEvidence :=
  match pair.2 with
  | none => { ev with requiredAllSucceeded := false }
  | some s => ev.apply steps pair.1 s

theorem completionEvidence_eq :
    completionEvidence topLevel steps =
      (judgedRows topLevel steps).foldl (CompletionEvidence.judge steps) ⟨false, false, true⟩ := by
  rw [judgedRows, List.foldl_append, List.foldl_map, List.foldl_map]
  rfl

/-- A failed row that is not neutral. -/
def failsVisibly (steps : List ExecutionStep) (s : ExecutionStep) : Bool :=
  !isLoopStoppedChildNeutral steps s && s.status.isFailureLike

/-- The evidence after some pairs: what it was, and what each of them adds. -/
theorem foldl_judge (pairs : List (ExecutionPlanStep × Option ExecutionStep))
    (ev : CompletionEvidence) :
    pairs.foldl (CompletionEvidence.judge steps) ev =
      { markPartialFailure := ev.markPartialFailure || pairs.any fun pair =>
          pair.2.any fun s => failsVisibly steps s && pair.1.onError == .markPartial
        continueRequiredFailure := ev.continueRequiredFailure || pairs.any fun pair =>
          pair.2.any fun s =>
            failsVisibly steps s && (pair.1.required && pair.1.onError == .continue)
        requiredAllSucceeded := ev.requiredAllSucceeded && pairs.all fun pair =>
          pair.2.any fun s =>
            isLoopStoppedChildNeutral steps s || !pair.1.required || s.isSatisfied } := by
  induction pairs generalizing ev with
  | nil => simp
  | cons pair pairs ih =>
    rw [List.foldl_cons, ih]
    obtain ⟨ps, _ | s⟩ := pair
    · simp [CompletionEvidence.judge]
    · cases hneutral : isLoopStoppedChildNeutral steps s <;>
        simp [CompletionEvidence.judge, CompletionEvidence.apply, hneutral, failsVisibly,
          ExecutionStep.isSatisfied, Bool.or_assoc, Bool.and_assoc]

theorem failsVisibly_iff (h : UniqueRows steps) :
    failsVisibly steps s = true ↔ ¬LoopStoppedNeutral steps s ∧ s.status.isFailureLike = true := by
  rw [failsVisibly, Bool.and_eq_true, Bool.not_eq_true', ← isLoopStoppedChildNeutral_iff h,
    Bool.not_eq_true]

theorem markPartialFailure_iff (h : UniqueRows steps) :
    (completionEvidence topLevel steps).markPartialFailure = true ↔
      ∃ ps s, Judges topLevel steps ps s ∧ ¬LoopStoppedNeutral steps s ∧
        s.status.isFailureLike = true ∧ ps.onError = .markPartial := by
  rw [completionEvidence_eq, foldl_judge]
  dsimp only
  rw [Bool.false_or, List.any_eq_true]
  constructor
  · rintro ⟨⟨ps, _ | s⟩, hpair, hs⟩
    · cases hs
    · rw [Option.any_some, Bool.and_eq_true, failsVisibly_iff h, beq_iff_eq] at hs
      exact ⟨ps, s, (mem_judgedRows_some h).mp hpair, hs.1.1, hs.1.2, hs.2⟩
  · rintro ⟨ps, s, hjudge, hneutral, hfailed, hmark⟩
    refine ⟨(ps, some s), (mem_judgedRows_some h).mpr hjudge, ?_⟩
    rw [Option.any_some, Bool.and_eq_true, failsVisibly_iff h, beq_iff_eq]
    exact ⟨⟨hneutral, hfailed⟩, hmark⟩

theorem continueRequiredFailure_iff (h : UniqueRows steps) :
    (completionEvidence topLevel steps).continueRequiredFailure = true ↔
      ∃ ps s, Judges topLevel steps ps s ∧ ¬LoopStoppedNeutral steps s ∧
        s.status.isFailureLike = true ∧ ps.required = true ∧ ps.onError = .continue := by
  rw [completionEvidence_eq, foldl_judge]
  dsimp only
  rw [Bool.false_or, List.any_eq_true]
  constructor
  · rintro ⟨⟨ps, _ | s⟩, hpair, hs⟩
    · cases hs
    · rw [Option.any_some, Bool.and_eq_true, failsVisibly_iff h, Bool.and_eq_true,
        beq_iff_eq] at hs
      exact ⟨ps, s, (mem_judgedRows_some h).mp hpair, hs.1.1, hs.1.2, hs.2⟩
  · rintro ⟨ps, s, hjudge, hneutral, hfailed, hcontinue⟩
    refine ⟨(ps, some s), (mem_judgedRows_some h).mpr hjudge, ?_⟩
    rw [Option.any_some, Bool.and_eq_true, failsVisibly_iff h, Bool.and_eq_true, beq_iff_eq]
    exact ⟨⟨hneutral, hfailed⟩, hcontinue⟩

theorem requiredAllSucceeded_iff (h : UniqueRows steps) :
    (completionEvidence topLevel steps).requiredAllSucceeded = true ↔
      (∀ ps ∈ topLevel, ∃ s, TopRow steps ps s) ∧
        ∀ ps s, Judges topLevel steps ps s → ¬LoopStoppedNeutral steps s → ps.required = true →
          s.isSatisfied = true := by
  rw [completionEvidence_eq, foldl_judge]
  dsimp only
  rw [Bool.true_and, List.all_eq_true]
  constructor
  · intro hall
    refine ⟨fun ps hps => ?_, fun ps s hjudge hneutral hrequired => ?_⟩
    · by_contra hnone
      have := hall (ps, none) ((mem_judgedRows_none h).mpr ⟨hps, not_exists.mp hnone⟩)
      cases this
    · have hs := hall (ps, some s) ((mem_judgedRows_some h).mpr hjudge)
      rw [Option.any_some, Bool.or_eq_true, Bool.or_eq_true, isLoopStoppedChildNeutral_iff h,
        hrequired] at hs
      rcases hs with (hs | hs) | hs
      · exact absurd hs hneutral
      · cases hs
      · exact hs
  · rintro ⟨hpresent, hsatisfied⟩ ⟨ps, _ | s⟩ hpair
    · obtain ⟨hps, hnone⟩ := (mem_judgedRows_none h).mp hpair
      obtain ⟨s, hs⟩ := hpresent ps hps
      exact absurd hs (hnone s)
    · rw [Option.any_some, Bool.or_eq_true, Bool.or_eq_true, isLoopStoppedChildNeutral_iff h,
        Bool.not_eq_true']
      by_cases hneutral : LoopStoppedNeutral steps s
      · exact .inl (.inl hneutral)
      cases hrequired : ps.required with
      | false => exact .inl (.inr rfl)
      | true =>
        exact .inr (hsatisfied ps s ((mem_judgedRows_some h).mp hpair) hneutral hrequired)

/-! ### The decision -/

theorem allRequiredMet_iff (h : UniqueRows steps) :
    AllRequiredMet topLevel steps ↔
      (completionEvidence topLevel steps).requiredAllSucceeded = true ∧
        (completionEvidence topLevel steps).markPartialFailure = false := by
  rw [requiredAllSucceeded_iff h, ← Bool.not_eq_true, markPartialFailure_iff h]
  constructor
  · rintro ⟨hpresent, hsatisfied, hunmarked⟩
    refine ⟨⟨hpresent, hsatisfied⟩, ?_⟩
    rintro ⟨ps, s, hjudge, hneutral, hfailed, hmark⟩
    rw [hunmarked ps s hjudge hneutral hmark] at hfailed
    cases hfailed
  · rintro ⟨⟨hpresent, hsatisfied⟩, hunmarked⟩
    refine ⟨hpresent, hsatisfied, fun ps s hjudge hneutral hmark => ?_⟩
    by_contra hfailed
    exact hunmarked ⟨ps, s, hjudge, hneutral, (Bool.not_eq_false _).mp hfailed, hmark⟩

theorem partialEvidence_iff (h : UniqueRows steps) :
    PartialEvidence topLevel steps ↔
      steps.any (·.status == .succeeded) = true ∧
        ((completionEvidence topLevel steps).markPartialFailure = true ∨
          (completionEvidence topLevel steps).continueRequiredFailure = true) := by
  rw [markPartialFailure_iff h, continueRequiredFailure_iff h, List.any_eq_true]
  simp only [beq_iff_eq]
  constructor
  · rintro ⟨hsucceeded, ps, s, hjudge, hneutral, hfailed, hmark | hcontinue⟩
    · exact ⟨hsucceeded, .inl ⟨ps, s, hjudge, hneutral, hfailed, hmark⟩⟩
    · exact ⟨hsucceeded, .inr ⟨ps, s, hjudge, hneutral, hfailed, hcontinue⟩⟩
  · rintro ⟨hsucceeded, ⟨ps, s, hjudge, hneutral, hfailed, hmark⟩ |
      ⟨ps, s, hjudge, hneutral, hfailed, hcontinue⟩⟩
    · exact ⟨hsucceeded, ps, s, hjudge, hneutral, hfailed, .inl hmark⟩
    · exact ⟨hsucceeded, ps, s, hjudge, hneutral, hfailed, .inr hcontinue⟩

/-- What the aggregation decides, by the law. -/
theorem aggregateAllRequired_cases (h : UniqueRows steps)
    (htop : topLevelPlanSteps plan = .ok topLevel) :
    (AllRequiredMet topLevel steps ∧ aggregateAllRequired plan steps = .ok ⟨.succeeded, none⟩) ∨
    (¬AllRequiredMet topLevel steps ∧ PartialEvidence topLevel steps ∧
      aggregateAllRequired plan steps = .ok ⟨.partiallySucceeded, none⟩) ∨
    (¬AllRequiredMet topLevel steps ∧ ¬PartialEvidence topLevel steps ∧
      aggregateAllRequired plan steps = .ok ⟨.failed, some "ALL_REQUIRED_UNSATISFIED"⟩) := by
  rw [allRequiredMet_iff h, partialEvidence_iff h, aggregateAllRequired, htop]
  dsimp only [bind, Except.bind, pure, Except.pure]
  split
  · next hmet =>
    rw [Bool.and_eq_true, Bool.not_eq_true'] at hmet
    exact .inl ⟨hmet, rfl⟩
  · next hmet =>
    rw [Bool.and_eq_true, Bool.not_eq_true'] at hmet
    split
    · next hpartial =>
      rw [Bool.and_eq_true, Bool.or_eq_true] at hpartial
      exact .inr (.inl ⟨hmet, hpartial, rfl⟩)
    · next hpartial =>
      rw [Bool.and_eq_true, Bool.or_eq_true] at hpartial
      exact .inr (.inr ⟨hmet, hpartial, rfl⟩)

/-! ### The order of the rows -/

theorem LoopStoppedNeutral.perm (hp : rows.Perm steps) :
    LoopStoppedNeutral rows s ↔ LoopStoppedNeutral steps s := by
  simp only [LoopStoppedNeutral, hp.mem_iff]

theorem TopRow.perm (hp : rows.Perm steps) : TopRow rows ps s ↔ TopRow steps ps s := by
  simp only [TopRow, hp.mem_iff]

theorem Judges.perm (hp : rows.Perm steps) :
    Judges topLevel rows ps s ↔ Judges topLevel steps ps s := by
  simp only [Judges, TopRow.perm hp, hp.mem_iff]

theorem AllRequiredMet.perm (hp : rows.Perm steps) (h : AllRequiredMet topLevel steps) :
    AllRequiredMet topLevel rows := by
  refine ⟨fun ps hps => ?_, fun ps s hjudge hneutral => ?_, fun ps s hjudge hneutral => ?_⟩
  · obtain ⟨s, hs⟩ := h.present ps hps
    exact ⟨s, (TopRow.perm hp).mpr hs⟩
  · rw [LoopStoppedNeutral.perm hp] at hneutral
    exact h.satisfied ps s ((Judges.perm hp).mp hjudge) hneutral
  · rw [LoopStoppedNeutral.perm hp] at hneutral
    exact h.unmarked ps s ((Judges.perm hp).mp hjudge) hneutral

theorem PartialEvidence.perm (hp : rows.Perm steps) (h : PartialEvidence topLevel steps) :
    PartialEvidence topLevel rows := by
  obtain ⟨⟨s, hs, hsucceeded⟩, ps, t, hjudge, hneutral, hfailed⟩ := h
  refine ⟨⟨s, hp.mem_iff.mpr hs, hsucceeded⟩, ps, t, (Judges.perm hp).mpr hjudge, ?_, hfailed⟩
  rwa [LoopStoppedNeutral.perm hp]

theorem aggregateAllRequired_perm (h : UniqueRows steps) (hp : rows.Perm steps) :
    aggregateAllRequired plan rows = aggregateAllRequired plan steps := by
  cases htop : topLevelPlanSteps plan with
  | error e =>
    rw [aggregateAllRequired, aggregateAllRequired, htop]
    rfl
  | ok topLevel =>
    have hmet : AllRequiredMet topLevel rows ↔ AllRequiredMet topLevel steps :=
      ⟨.perm hp.symm, .perm hp⟩
    have hpartial : PartialEvidence topLevel rows ↔ PartialEvidence topLevel steps :=
      ⟨.perm hp.symm, .perm hp⟩
    have hrows := aggregateAllRequired_cases (h.perm hp) htop
    rw [hmet, hpartial] at hrows
    rcases aggregateAllRequired_cases h htop with ⟨hm, heq⟩ | ⟨hm, hpe, heq⟩ | ⟨hm, hpe, heq⟩
    · rcases hrows with ⟨-, hrows⟩ | ⟨hno, -⟩ | ⟨hno, -⟩
      · rw [hrows, heq]
      · exact absurd hm hno
      · exact absurd hm hno
    · rcases hrows with ⟨hyes, -⟩ | ⟨-, -, hrows⟩ | ⟨-, hno, -⟩
      · exact absurd hyes hm
      · rw [hrows, heq]
      · exact absurd hpe hno
    · rcases hrows with ⟨hyes, -⟩ | ⟨-, hyes, -⟩ | ⟨-, -, hrows⟩
      · exact absurd hyes hm
      · exact absurd hyes hpe
      · rw [hrows, heq]

/-! ### A Step that ends better -/

/-- The rows that the orchestrator aggregates: every Step is terminal, the top-level plan steps have
their rows, and whatever is not satisfied has failed in a way its plan step lets pass. -/
structure NaturallyEnded (topLevel : List ExecutionPlanStep) (steps : List ExecutionStep) :
    Prop where
  terminal : ∀ s ∈ steps, s.status.isTerminal = true
  present : ∀ ps ∈ topLevel, ∃ s, TopRow steps ps s
  continuable : ∀ ps s, Judges topLevel steps ps s → ¬LoopStoppedNeutral steps s →
    ps.required = true → s.isSatisfied = false → isContinuableKnownFailure ps.onError s.status = true

/-- A validated DAG has the row of every top-level plan step. -/
theorem ValidatedDag.topRow {digest : TemplateDigest} {ownership : LoopBodyOwnership}
    {topDeps childDeps : List (String × List String)} {dag : ToolJoinDag}
    (h : ValidatedDag digest plan steps ownership topDeps childDeps dag)
    (hps : ps ∈ plan.steps.filter ownership.isTopLevel) : ∃ s, TopRow steps ps s := by
  obtain ⟨p, -, hvalid⟩ := List.exists_right_of_forall₂ (List.forall₂_of_mapM_eq_ok h.top) hps
  unfold validateTopLevelStep at hvalid
  split at hvalid
  · cases hvalid
  · next step hstep =>
    simp only [Except.bind_eq_ok_iff, assertThat_eq_ok_iff, Option.isNone_iff_eq_none] at hvalid
    obtain ⟨_, hparent, -⟩ := hvalid
    exact ⟨step, List.mem_of_find?_eq_some hstep, hparent, by simpa using List.find?_some hstep⟩

/-- The row of one id, once it has succeeded. -/
def ExecutionStep.succeedAt (id : UUID) (s : ExecutionStep) : ExecutionStep :=
  if s.id = id then { s with status := .succeeded, errorCode := none } else s

namespace ExecutionStep

variable {id : UUID}

@[simp] theorem succeedAt_id : (s.succeedAt id).id = s.id := by
  unfold succeedAt
  split <;> rfl

@[simp] theorem succeedAt_parentStepId : (s.succeedAt id).parentStepId = s.parentStepId := by
  unfold succeedAt
  split <;> rfl

@[simp] theorem succeedAt_stepKey : (s.succeedAt id).stepKey = s.stepKey := by
  unfold succeedAt
  split <;> rfl

@[simp] theorem succeedAt_stepType : (s.succeedAt id).stepType = s.stepType := by
  unfold succeedAt
  split <;> rfl

@[simp] theorem succeedAt_stepSnapshot : (s.succeedAt id).stepSnapshot = s.stepSnapshot := by
  unfold succeedAt
  split <;> rfl

theorem succeedAt_of_ne (h : s.id ≠ id) : s.succeedAt id = s := if_neg h

theorem succeedAt_status (h : s.id = id) : (s.succeedAt id).status = .succeeded := by
  rw [succeedAt, if_pos h]

end ExecutionStep

theorem UniqueRows.succeedAt (h : UniqueRows steps) (id : UUID) :
    UniqueRows (steps.map (·.succeedAt id)) := by
  constructor
  · have hids : (·.id) ∘ ExecutionStep.succeedAt id = (·.id) := funext fun s => s.succeedAt_id
    rw [List.map_map, hids]
    exact h.ids
  · have hkeys : (·.stepKey) ∘ ExecutionStep.succeedAt id = (·.stepKey) :=
      funext fun s => s.succeedAt_stepKey
    rw [List.filter_map_of_forall fun s _ => by rw [ExecutionStep.succeedAt_parentStepId],
      List.map_map, hkeys]
    exact h.topKeys

/-- The rows that are judged after a Step ended better were judged before. -/
theorem judges_succeedAt {id : UUID} :
    Judges topLevel (steps.map (·.succeedAt id)) ps s ↔
      ∃ t, Judges topLevel steps ps t ∧ t.succeedAt id = s := by
  constructor
  · rintro (⟨hps, hmem, hpar, hkey⟩ | ⟨hmem, hpar, rfl⟩)
    · obtain ⟨t, ht, rfl⟩ := List.mem_map.mp hmem
      rw [ExecutionStep.succeedAt_parentStepId] at hpar
      rw [ExecutionStep.succeedAt_stepKey] at hkey
      exact ⟨t, .inl ⟨hps, ht, hpar, hkey⟩, rfl⟩
    · obtain ⟨t, ht, rfl⟩ := List.mem_map.mp hmem
      rw [ExecutionStep.succeedAt_parentStepId] at hpar
      exact ⟨t, .inr ⟨ht, hpar, t.succeedAt_stepSnapshot⟩, rfl⟩
  · rintro ⟨t, ⟨hps, ht, hpar, hkey⟩ | ⟨ht, hpar, rfl⟩, rfl⟩
    · exact .inl ⟨hps, List.mem_map.mpr ⟨t, ht, rfl⟩, t.succeedAt_parentStepId.trans hpar,
        t.succeedAt_stepKey.trans hkey⟩
    · refine .inr ⟨List.mem_map.mpr ⟨t, ht, rfl⟩, ?_, t.succeedAt_stepSnapshot.symm⟩
      rwa [ExecutionStep.succeedAt_parentStepId]

/-- A Step that stopped no neutral child. -/
def StoppedNoChild (steps : List ExecutionStep) (s : ExecutionStep) : Prop :=
  ∀ c ∈ steps, LoopStoppedNeutral steps c → c.parentStepId ≠ some s.id

/-- Only a LOOP stops children. -/
theorem StoppedNoChild.of_ne_loop (h : UniqueRows steps) (hs : s ∈ steps)
    (htype : s.stepType ≠ .loop) : StoppedNoChild steps s := by
  rintro c - ⟨-, -, parent, hparent, hpar, hloop, -⟩ hcs
  have hid : parent.id = s.id := Option.some.inj (hpar.symm.trans hcs)
  exact htype (h.eq_of_id hparent hs hid ▸ hloop)

/-- A row that was neutral still is, unless it is the one that ended better. -/
theorem LoopStoppedNeutral.succeedAt (hs : StoppedNoChild steps s) {t : ExecutionStep}
    (ht : t ∈ steps) (hne : t.id ≠ s.id) (h : LoopStoppedNeutral steps t) :
    LoopStoppedNeutral (steps.map (·.succeedAt s.id)) (t.succeedAt s.id) := by
  have hnotParent := hs t ht h
  obtain ⟨hcode, hstatus, parent, hparent, hpar, hrest⟩ := h
  rw [ExecutionStep.succeedAt_of_ne hne]
  have hpne : parent.id ≠ s.id := fun hid => hnotParent (hid ▸ hpar)
  exact ⟨hcode, hstatus, parent,
    List.mem_map.mpr ⟨parent, hparent, ExecutionStep.succeedAt_of_ne hpne⟩, hpar, hrest⟩

theorem isSatisfied_of_succeeded (h : s.status = .succeeded) : s.isSatisfied = true := by
  rw [ExecutionStep.isSatisfied, h]
  rfl

/-- The end stays natural when a failed Step ends better. -/
theorem NaturallyEnded.succeedAt (h : NaturallyEnded topLevel steps) (hs : StoppedNoChild steps s) :
    NaturallyEnded topLevel (steps.map (·.succeedAt s.id)) := by
  refine ⟨fun t ht => ?_, fun ps hps => ?_, fun ps t hjudge hneutral hrequired hunsat => ?_⟩
  · obtain ⟨t, hmem, rfl⟩ := List.mem_map.mp ht
    by_cases hid : t.id = s.id
    · rw [ExecutionStep.succeedAt_status hid]
      rfl
    · rw [ExecutionStep.succeedAt_of_ne hid]
      exact h.terminal t hmem
  · obtain ⟨t, hmem, hpar, hkey⟩ := h.present ps hps
    exact ⟨t.succeedAt s.id, List.mem_map.mpr ⟨t, hmem, rfl⟩, t.succeedAt_parentStepId.trans hpar,
      t.succeedAt_stepKey.trans hkey⟩
  · obtain ⟨t, hbefore, rfl⟩ := judges_succeedAt.mp hjudge
    by_cases hid : t.id = s.id
    · rw [isSatisfied_of_succeeded (ExecutionStep.succeedAt_status hid)] at hunsat
      cases hunsat
    · have hold : ¬LoopStoppedNeutral steps t := fun hn =>
        hneutral (LoopStoppedNeutral.succeedAt hs hbefore.mem hid hn)
      rw [ExecutionStep.succeedAt_of_ne hid] at hunsat ⊢
      exact h.continuable ps t hbefore hold hrequired hunsat

/-- ALL_REQUIRED stays met when a Step ends better. -/
theorem AllRequiredMet.succeedAt (h : AllRequiredMet topLevel steps) (hs : StoppedNoChild steps s) :
    AllRequiredMet topLevel (steps.map (·.succeedAt s.id)) := by
  refine ⟨fun ps hps => ?_, fun ps t hjudge hneutral hrequired => ?_,
    fun ps t hjudge hneutral hmark => ?_⟩
  · obtain ⟨t, hmem, hpar, hkey⟩ := h.present ps hps
    exact ⟨t.succeedAt s.id, List.mem_map.mpr ⟨t, hmem, rfl⟩, t.succeedAt_parentStepId.trans hpar,
      t.succeedAt_stepKey.trans hkey⟩
  · obtain ⟨t, hbefore, rfl⟩ := judges_succeedAt.mp hjudge
    by_cases hid : t.id = s.id
    · exact isSatisfied_of_succeeded (ExecutionStep.succeedAt_status hid)
    · have hold : ¬LoopStoppedNeutral steps t := fun hn =>
        hneutral (LoopStoppedNeutral.succeedAt hs hbefore.mem hid hn)
      rw [ExecutionStep.succeedAt_of_ne hid]
      exact h.satisfied ps t hbefore hold hrequired
  · obtain ⟨t, hbefore, rfl⟩ := judges_succeedAt.mp hjudge
    by_cases hid : t.id = s.id
    · rw [ExecutionStep.succeedAt_status hid]
      rfl
    · have hold : ¬LoopStoppedNeutral steps t := fun hn =>
        hneutral (LoopStoppedNeutral.succeedAt hs hbefore.mem hid hn)
      rw [ExecutionStep.succeedAt_of_ne hid]
      exact h.unmarked ps t hbefore hold hmark

/-- At a natural end with a success, whatever keeps ALL_REQUIRED unmet is partial evidence. -/
theorem NaturallyEnded.some_succeeded (h : NaturallyEnded topLevel steps)
    (hsucceeded : ∃ s ∈ steps, s.status = .succeeded) (hmet : ¬AllRequiredMet topLevel steps) :
    PartialEvidence topLevel steps := by
  by_contra hno
  refine hmet ⟨h.present, fun ps s hjudge hneutral hrequired => ?_,
    fun ps s hjudge hneutral hmark => ?_⟩
  · by_contra hunsat
    have hfail := h.continuable ps s hjudge hneutral hrequired ((Bool.not_eq_true _).mp hunsat)
    simp only [isContinuableKnownFailure, Bool.and_eq_true, Bool.or_eq_true, beq_iff_eq] at hfail
    have hlike : s.status.isFailureLike = true := by
      rcases hfail.2 with hst | hst <;> rw [hst] <;> rfl
    exact hno ⟨hsucceeded, ps, s, hjudge, hneutral, hlike, hfail.1.imp_right fun hc => ⟨hrequired, hc⟩⟩
  · by_contra hfailed
    exact hno ⟨hsucceeded, ps, s, hjudge, hneutral, (Bool.not_eq_false _).mp hfailed, .inl hmark⟩

/-- A failed Step that ends better makes no natural end worse. -/
theorem aggregateAllRequired_mono (h : UniqueRows steps) (htop : topLevelPlanSteps plan = .ok topLevel)
    (hend : NaturallyEnded topLevel steps) (hs : s ∈ steps) (hstopped : StoppedNoChild steps s)
    {decision : CompletionDecision} (hdecision : aggregateAllRequired plan steps = .ok decision) :
    ∃ better, aggregateAllRequired plan (steps.map (·.succeedAt s.id)) = .ok better ∧
      decision.status.completionRank ≤ better.status.completionRank := by
  have hsucceeded : ∃ t ∈ steps.map (·.succeedAt s.id), t.status = .succeeded :=
    ⟨s.succeedAt s.id, List.mem_map.mpr ⟨s, hs, rfl⟩, ExecutionStep.succeedAt_status rfl⟩
  rcases aggregateAllRequired_cases (h.succeedAt s.id) htop with
    ⟨-, hnew⟩ | ⟨hmet, -, hnew⟩ | ⟨hmet, hpartial, -⟩
  · refine ⟨_, hnew, ?_⟩
    rcases aggregateAllRequired_ok hdecision with hst | hst | hst <;> rw [hst] <;> decide
  · refine ⟨_, hnew, ?_⟩
    rcases aggregateAllRequired_cases h htop with ⟨hold, -⟩ | ⟨-, -, hold⟩ | ⟨-, -, hold⟩
    · exact absurd (hold.succeedAt hstopped) hmet
    · rw [Except.ok.inj (hdecision.symm.trans hold)]
    · rw [Except.ok.inj (hdecision.symm.trans hold)]
      decide
  · exact absurd ((hend.succeedAt hstopped).some_succeeded hsucceeded hmet) hpartial

/-- The natural end of an Execution: the order of the rows plays no part, the decision is the law,
and no failed Step that had succeeded instead would have made it worse. A LOOP is the exception as
long as the children it stopped are neutral: they are not once it succeeds. -/
theorem aggregateAllRequired_law (plan : ExecutionPlanV1) (steps : List ExecutionStep)
    (h : UniqueRows steps) :
    (∀ rows : List ExecutionStep, rows.Perm steps →
      aggregateAllRequired plan rows = aggregateAllRequired plan steps) ∧
    ∀ topLevel, topLevelPlanSteps plan = .ok topLevel →
      ∃ decision, aggregateAllRequired plan steps = .ok decision ∧
        (decision.status = .succeeded ↔ AllRequiredMet topLevel steps) ∧
        (decision.status = .partiallySucceeded ↔
          ¬AllRequiredMet topLevel steps ∧ PartialEvidence topLevel steps) ∧
        (decision.status = .failed ↔
          ¬AllRequiredMet topLevel steps ∧ ¬PartialEvidence topLevel steps) ∧
        (NaturallyEnded topLevel steps → ∀ s ∈ steps, s.status.isFailureLike = true →
          s.stepType ≠ .loop ∨ StoppedNoChild steps s →
          ∃ better, aggregateAllRequired plan (steps.map (·.succeedAt s.id)) = .ok better ∧
            decision.status.completionRank ≤ better.status.completionRank) := by
  refine ⟨fun rows hp => aggregateAllRequired_perm h hp, fun topLevel htop => ?_⟩
  have hmono : ∀ decision, aggregateAllRequired plan steps = .ok decision →
      NaturallyEnded topLevel steps → ∀ s ∈ steps, s.status.isFailureLike = true →
      s.stepType ≠ .loop ∨ StoppedNoChild steps s →
      ∃ better, aggregateAllRequired plan (steps.map (·.succeedAt s.id)) = .ok better ∧
        decision.status.completionRank ≤ better.status.completionRank := by
    intro decision hdecision hend s hs _ hloop
    exact aggregateAllRequired_mono h htop hend hs
      (hloop.elim (StoppedNoChild.of_ne_loop h hs) id) hdecision
  rcases aggregateAllRequired_cases h htop with ⟨hm, heq⟩ | ⟨hm, hp, heq⟩ | ⟨hm, hp, heq⟩
  · exact ⟨_, heq, by simp [hm], by simp [hm], by simp [hm], hmono _ heq⟩
  · exact ⟨_, heq, by simp [hm], by simp [hm, hp], by simp [hp], hmono _ heq⟩
  · exact ⟨_, heq, by simp [hm], by simp [hp], by simp [hm, hp], hmono _ heq⟩

/-- The law at the two LOOPs of `twoLoopPlan`. -/
theorem aggregateAllRequired_twoLoop :
    UniqueRows twoLoopWorld.db.steps.rows ∧
      aggregateAllRequired twoLoopPlan twoLoopWorld.db.steps.rows.reverse =
        aggregateAllRequired twoLoopPlan twoLoopWorld.db.steps.rows := by
  have h : UniqueRows twoLoopWorld.db.steps.rows := ⟨by decide, by decide⟩
  exact ⟨h, (aggregateAllRequired_law twoLoopPlan _ h).1 _ (List.reverse_perm _)⟩

end McpFlow
