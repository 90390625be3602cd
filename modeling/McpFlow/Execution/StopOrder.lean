import Mathlib.Data.Prod.Lex
import Mathlib.Data.String.Basic
import McpFlow.Execution.DagOrder
import McpFlow.Execution.Orchestrator

/-!
# The stop cause of a wave

The causes of a wave are ranked by their kind, the position of their Step and its key. The one that is
picked has the least rank, and since two causes of one rank belong to one Step, the order in which the
results come plays no part in what a wave settles to.
-/

namespace McpFlow

/-! ### The rank of a cause -/

/-- The precedence of a cause: the least rank stops the Execution. -/
def StopCause.rank (c : StopCause) : ℕ ×ₗ ℕ ×ₗ String :=
  toLex (c.kind.precedence, toLex (c.planIndex, c.stepKey))

theorem StopCause.before_iff {a b : StopCause} : a.before b = true ↔ a.rank ≤ b.rank := by
  simp only [before, rank, Bool.or_eq_true, Bool.and_eq_true, decide_eq_true_iff, beq_iff_eq,
    Prod.Lex.toLex_le_toLex]

theorem StopCause.stepKey_of_rank_eq {a b : StopCause} (h : a.rank = b.rank) :
    a.stepKey = b.stepKey := by
  have hinner := congrArg (fun r => (ofLex (ofLex r).2).2) h
  exact hinner

/-- The cause that is picked is one of them, and none comes before it. -/
theorem pickStopCause_some {causes : List StopCause} {c : StopCause}
    (h : pickStopCause causes = some c) : c ∈ causes ∧ ∀ d ∈ causes, c.rank ≤ d.rank := by
  induction causes generalizing c with
  | nil => cases h
  | cons a causes ih =>
    rw [pickStopCause] at h
    split at h
    · next hnone =>
      cases h
      have hnil : causes = [] := by
        cases causes with
        | nil => rfl
        | cons b causes =>
          rw [pickStopCause] at hnone
          split at hnone
          · cases hnone
          · split at hnone <;> cases hnone
      subst hnil
      exact ⟨List.mem_cons_self, fun d hd => (List.mem_singleton.mp hd ▸ le_refl _)⟩
    · next b hb =>
      obtain ⟨hmem, hmin⟩ := ih hb
      split at h
      · next hab =>
        cases h
        refine ⟨List.mem_cons_self, fun d hd => ?_⟩
        rcases List.mem_cons.mp hd with rfl | hd
        · exact le_refl _
        · exact (StopCause.before_iff.mp hab).trans (hmin d hd)
      · next hab =>
        cases h
        refine ⟨List.mem_cons_of_mem a hmem, fun d hd => ?_⟩
        rcases List.mem_cons.mp hd with rfl | hd
        · exact (le_total _ _).resolve_left fun hle => hab (StopCause.before_iff.mpr hle)
        · exact hmin d hd

theorem pickStopCause_eq_none {causes : List StopCause} :
    pickStopCause causes = none ↔ causes = [] := by
  constructor
  · intro h
    cases causes with
    | nil => rfl
    | cons a causes =>
      rw [pickStopCause] at h
      split at h
      · cases h
      · split at h <;> cases h
  · rintro rfl
    rfl

/-- The order of the causes plays no part when no two have one rank. -/
theorem pickStopCause_perm {causes causes' : List StopCause} (hp : causes'.Perm causes)
    (h : ∀ a ∈ causes, ∀ b ∈ causes, a.rank = b.rank → a = b) :
    pickStopCause causes' = pickStopCause causes := by
  cases hpick : pickStopCause causes with
  | none =>
    rw [pickStopCause_eq_none] at hpick ⊢
    exact List.perm_nil.mp (hpick ▸ hp)
  | some c =>
    cases hpick' : pickStopCause causes' with
    | none =>
      rw [pickStopCause_eq_none] at hpick'
      rw [hpick'] at hp
      rw [List.nil_perm.mp hp] at hpick
      cases hpick
    | some c' =>
      obtain ⟨hmem, hmin⟩ := pickStopCause_some hpick
      obtain ⟨hmem', hmin'⟩ := pickStopCause_some hpick'
      have hc' := hp.mem_iff.mp hmem'
      have hrank : c'.rank = c.rank :=
        le_antisymm (hmin' c (hp.mem_iff.mpr hmem)) (hmin c' hc')
      rw [h c' hc' c hmem hrank]

/-! ### The causes of a wave -/

variable {planOrder : List String} {db : Db} {results results' : List (UUID × ToolRunOutcome)}

/-- `causes` of `_settle_wave`. -/
def stopCauses (planOrder : List String) (db : Db) (results : List (UUID × ToolRunOutcome)) :
    List StopCause :=
  results.filterMap fun (stepId, outcome) => stopCauseOf planOrder db stepId outcome

/-- A cause belongs to a row of the Execution. -/
theorem stopCauseOf_eq_some {stepId : UUID} {outcome : ToolRunOutcome} {c : StopCause}
    (h : stopCauseOf planOrder db stepId outcome = some c) :
    ∃ step ∈ db.steps, step.id = stepId ∧ c.stepKey = step.stepKey := by
  obtain ⟨step, hstep, h⟩ := Option.bind_eq_some_iff.mp h
  obtain ⟨hmem, hid⟩ := Table.find?_eq_some_iff.mp hstep
  refine ⟨step, hmem, hid, ?_⟩
  dsimp only at h
  split at h
  · cases h
    rfl
  split at h
  · cases h
  split at h
  · cases h
    rfl
  · cases h

/-- Two causes of one rank are one. -/
theorem stopCauses_eq_of_rank (hkeys : (db.steps.rows.map (·.stepKey)).Nodup)
    (hids : (results.map Prod.fst).Nodup) {a b : StopCause}
    (ha : a ∈ stopCauses planOrder db results) (hb : b ∈ stopCauses planOrder db results)
    (hrank : a.rank = b.rank) : a = b := by
  obtain ⟨⟨id, outcome⟩, hmem, ha⟩ := List.mem_filterMap.mp ha
  obtain ⟨⟨id', outcome'⟩, hmem', hb⟩ := List.mem_filterMap.mp hb
  obtain ⟨step, hstep, rfl, hkey⟩ := stopCauseOf_eq_some ha
  obtain ⟨step', hstep', rfl, hkey'⟩ := stopCauseOf_eq_some hb
  have hsame : step.stepKey = step'.stepKey := by
    rw [← hkey, ← hkey', StopCause.stepKey_of_rank_eq hrank]
  obtain rfl := List.inj_on_of_nodup_map hkeys hstep hstep' hsame
  obtain heq := List.inj_on_of_nodup_map hids hmem hmem' rfl
  rw [heq] at ha
  exact Option.some.inj (ha.symm.trans hb)

variable (planOrder) in
theorem pickStopCause_stopCauses_perm (hkeys : (db.steps.rows.map (·.stepKey)).Nodup)
    (hids : (results.map Prod.fst).Nodup) (hp : results'.Perm results) :
    pickStopCause (stopCauses planOrder db results') =
      pickStopCause (stopCauses planOrder db results) :=
  pickStopCause_perm (hp.filterMap _) fun _ ha _ hb hrank =>
    stopCauses_eq_of_rank hkeys hids ha hb hrank

/-- The cause that comes first is picked. -/
theorem pickStopCause_eq_some {causes : List StopCause} {c : StopCause} (hc : c ∈ causes)
    (hmin : ∀ d ∈ causes, c.rank ≤ d.rank) (huniq : ∀ d ∈ causes, d.rank = c.rank → d = c) :
    pickStopCause causes = some c := by
  cases hpick : pickStopCause causes with
  | none =>
    rw [pickStopCause_eq_none.mp hpick] at hc
    cases hc
  | some d =>
    obtain ⟨hd, hle⟩ := pickStopCause_some hpick
    rw [huniq d hd (le_antisymm (hle c hc) (hmin d hd))]

/-- A cause that comes later than the picked one changes nothing. -/
theorem pickStopCause_append_later {causes causes' : List StopCause} {own : Option StopCause}
    {c : StopCause} (hpick : pickStopCause (causes ++ causes') = some c)
    (huniq : ∀ d ∈ causes ++ causes', d.rank = c.rank → d = c)
    (hlater : ∀ d ∈ own, c.rank < d.rank) :
    pickStopCause (causes ++ own.toList ++ causes') = some c := by
  obtain ⟨hc, hmin⟩ := pickStopCause_some hpick
  have hcases {d : StopCause} (hd : d ∈ causes ++ own.toList ++ causes') :
      d ∈ causes ++ causes' ∨ d ∈ own := by
    simp only [List.mem_append, Option.mem_toList] at hd ⊢
    tauto
  refine pickStopCause_eq_some ?_ (fun d hd => ?_) fun d hd hrank => ?_
  · simp only [List.mem_append] at hc ⊢
    tauto
  · rcases hcases hd with hd | hd
    · exact hmin d hd
    · exact (hlater d hd).le
  · rcases hcases hd with hd | hd
    · exact huniq d hd hrank
    · exact absurd hrank (hlater d hd).ne'

/-- The rows of a valid lineage have distinct keys. -/
theorem validateLineage_nodup {env : RuntimeEnv} {dag : ToolJoinDag}
    (h : validateLineage env db = .ok dag) : (db.steps.rows.map (·.stepKey)).Nodup := by
  obtain ⟨_, -, h⟩ := Except.bind_eq_ok_iff.mp h
  obtain ⟨ownership, topDeps, childDeps, hvalid⟩ := validateToolJoinDag_ok h
  exact hvalid.nodup

/-- The order of the results plays no part in what a wave settles to. -/
theorem settleWave_perm (env : RuntimeEnv) (worker : String) (token : UUID) (now : Time)
    (hids : (results.map Prod.fst).Nodup) (hp : results'.Perm results) :
    settleWave env worker token results' planOrder now db =
      settleWave env worker token results planOrder now db := by
  unfold settleWave
  cases hlineage : validateLineage env db with
  | error e => rfl
  | ok dag =>
    have hpick := pickStopCause_stopCauses_perm planOrder
      (validateLineage_nodup hlineage) hids hp
    unfold stopCauses at hpick
    dsimp only
    rw [hpick]

end McpFlow
