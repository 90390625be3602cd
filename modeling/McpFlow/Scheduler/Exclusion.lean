import McpFlow.Scheduler.OverlapPasses

/-!
# Exclusion over whole runs

Every transition of a Schedule is put under the overlap policy: rows that change by themselves only
fade, a pass and a trigger fire, and the planner brings an Execution in later than its occurrence was
allowed. What a step must not do is fire a missed point before an occurrence that already runs, or
materialize a plan beside one.
-/

namespace McpFlow.Scheduler

open Recurrence Occurrences
open Planner (OccurrenceStatus)

variable {policy : ScheduleOverlapPolicy} {r r' x y : ScheduleOccurrence}
  {occs occs' occs₁ : Occurrences} {now t b : Instant} {s : Schedule} {env : FireEnv} {p : Spec}
  {specs : List Spec}

/-! ### The rows of an Execution that moves by itself -/

/-- A changed row stands as before, and a held one is not changed at all. -/
structure RowFades (policy : ScheduleOverlapPolicy) (r r' : ScheduleOccurrence) : Prop where
  regular : r'.Regular policy
  fades : Fades policy r r'
  held : r.isHeld = true → r' = r

/-- A live Execution that is not asked to cancel counts under every policy but ALLOW. -/
theorem ScheduleOccurrence.occupies_of_live {st : ExecutionStatus} (hpolicy : policy ≠ .allow)
    (hexec : r.execution = some st) (hlive : st.isTerminal = false) (hst : st ≠ .cancelRequested) :
    r.occupies policy = true := by
  cases policy with
  | allow => exact absurd rfl hpolicy
  | skip => simp only [occupies, isRunning, hexec, Option.any_some, hlive, Bool.not_false]
  | queue => simp only [occupies, isRunning, hexec, Option.any_some, hlive, Bool.not_false]
  | replace =>
    simp only [occupies, hexec, Option.any_some, hlive, Bool.not_false, Bool.true_and,
      decide_eq_true_eq]
    exact hst

/-- Rows with a live Execution may take any other status. -/
theorem rowFades_of_live {st : ExecutionStatus} (hpolicy : policy ≠ .allow)
    (hexec : r.execution = some st) (hlive : st.isTerminal = false) (hst : st ≠ .cancelRequested)
    (hregular : r'.Regular policy) (hkey : r'.scheduledFor = r.scheduledFor)
    (hsome : r'.execution ≠ none) : RowFades policy r r' := by
  have hocc := ScheduleOccurrence.occupies_of_live hpolicy hexec hlive hst
  have hnone : r.execution ≠ none := by
    rw [hexec]
    exact Option.some_ne_none _
  refine ⟨hregular, ⟨hkey.symm, fun _ => hocc,
    fun _ => ScheduleOccurrence.isRunning_of_occupies hocc, fun hheld => ?_⟩, fun hheld => ?_⟩
  · rw [ScheduleOccurrence.not_isHeld_of_execution hsome] at hheld
    cases hheld
  · rw [ScheduleOccurrence.not_isHeld_of_execution hnone] at hheld
    cases hheld

theorem rowFades_stage (hpolicy : policy ≠ .allow) (hr : r.Regular policy)
    (h : r.stage = some r') : RowFades policy r r' := by
  rw [ScheduleOccurrence.stage] at h
  split at h
  · case isTrue hcreated =>
    cases h
    exact rowFades_of_live hpolicy hcreated.2 rfl (by decide)
      ⟨fun _ => rfl, fun _ => rfl, hr.waits⟩ rfl (Option.some_ne_none _)
  · cases h

theorem rowFades_claim (hpolicy : policy ≠ .allow) (hr : r.Regular policy)
    (h : r.claim = some r') : RowFades policy r r' := by
  rw [ScheduleOccurrence.claim] at h
  split at h
  · case isTrue hqueued =>
    cases h
    exact rowFades_of_live hpolicy hqueued.2 rfl (by decide)
      ⟨fun _ => rfl, fun _ => rfl, hr.waits⟩ rfl (Option.some_ne_none _)
  · cases h

theorem rowFades_advance {status : ExecutionStatus} (hpolicy : policy ≠ .allow)
    (hr : r.Regular policy) (h : r.advance status = some r') : RowFades policy r r' := by
  rw [ScheduleOccurrence.advance] at h
  split at h
  · case isTrue hadvances =>
    cases h
    obtain ⟨st, hst, hadv⟩ := (Option.any_eq_true _ _).mp hadvances
    simp only [advances, Bool.and_eq_true, Bool.not_eq_true', Bool.or_eq_true,
      decide_eq_true_eq] at hadv
    obtain ⟨⟨hlive, hcancel⟩, -⟩ := hadv
    have hrun : r.isRunning = true := by
      rw [ScheduleOccurrence.isRunning, hst, Option.any_some, hlive]
      rfl
    have hregular : ScheduleOccurrence.Regular policy { r with execution := some status } :=
      ⟨fun _ => hr.isOpen hrun, fun _ => rfl, hr.waits⟩
    by_cases hrequested : st = .cancelRequested
    · -- a requested cancellation ends, and neither row counts
      have hterminal := hcancel.resolve_left (not_not.mpr hrequested)
      have hnot : ScheduleOccurrence.isRunning { r with execution := some status } = false := by
        rw [ScheduleOccurrence.isRunning, Option.any_some, hterminal]
        rfl
      refine ⟨hregular, ⟨rfl, fun hocc => ?_, fun _ => hrun, fun hheld => ?_⟩, fun hheld => ?_⟩
      · rw [ScheduleOccurrence.isRunning_of_occupies hocc] at hnot
        cases hnot
      · rw [ScheduleOccurrence.not_isHeld_of_execution (Option.some_ne_none _)] at hheld
        cases hheld
      · rw [ScheduleOccurrence.not_isHeld_of_execution
          (ScheduleOccurrence.execution_ne_none hrun)] at hheld
        cases hheld
    · exact rowFades_of_live hpolicy hst hlive hrequested hregular rfl (Option.some_ne_none _)
  · cases h

theorem rowFades_planFailed {refusal : Refusal} (hr : r.Regular policy)
    (hidle : r.isRunning = false ∧ r.isHeld = false) (h : r.planFailed refusal now = some r') :
    RowFades policy r r' := by
  have hself : RowFades policy r r := ⟨hr, .refl policy r, fun _ => rfl⟩
  rw [ScheduleOccurrence.planFailed] at h
  split at h
  · split at h
    · cases h
      have hwait : refusal.reason.isWait = false := by
        cases refusal <;> rfl
      refine ⟨ScheduleOccurrence.regular_failOrSkip (.inl rfl) hwait hidle.1,
        Fades.of_execution rfl rfl fun hheld => ?_, fun hheld => ?_⟩
      · have hnot := (ScheduleOccurrence.isHeld_iff.mp hheld).1
        rw [ScheduleOccurrence.isWaiting_failOrSkip (by decide)] at hnot
        cases hnot
      · rw [hidle.2] at hheld
        cases hheld
    · cases h
      exact hself
  · cases h

theorem rowFades_reconcile {finishedAt : Option Instant} (hr : r.Regular policy) :
    RowFades policy r (r.reconcile finishedAt now) := by
  have hself : RowFades policy r r := ⟨hr, .refl policy r, fun _ => rfl⟩
  rw [ScheduleOccurrence.reconcile]
  split
  · exact hself
  · case h_2 st hst =>
    have hheld : ∀ {x : ScheduleOccurrence}, x.isHeld = true → x.execution = r.execution →
        False := by
      intro x hheld hexec
      have hsome : x.execution ≠ none := by
        rw [hexec, hst]
        exact Option.some_ne_none st
      rw [ScheduleOccurrence.not_isHeld_of_execution hsome] at hheld
      cases hheld
    dsimp only
    split
    · exact hself
    · split
      · case isTrue hdone =>
        -- the projection of a terminal status; the Execution does not run
        refine ⟨⟨fun hrun => ?_, fun _ => by rw [hst]; rfl, hr.waits⟩,
          Fades.of_execution rfl rfl fun h => (hheld h rfl).elim, fun h => (hheld h rfl).elim⟩
        rw [ScheduleOccurrence.isRunning, hst, Option.any_some] at hrun
        cases st <;> simp [projectOccurrenceStatus, ExecutionStatus.isTerminal] at hdone hrun
      · case isFalse hopen =>
        refine ⟨⟨fun _ => ?_, fun _ => by rw [hst]; rfl, hr.waits⟩,
          Fades.of_execution rfl rfl fun h => (hheld h rfl).elim, fun h => (hheld h rfl).elim⟩
        rw [ScheduleOccurrence.isOpen]
        cases st <;> simp [projectOccurrenceStatus] at hopen ⊢

/-- The change of one row that only fades. -/
theorem updateRow_fades {f : ScheduleOccurrence → Option ScheduleOccurrence}
    (h : occs.updateRow t f = some occs')
    (hf : ∀ r ∈ occs, r.scheduledFor = t → ∀ r', f r = some r' → RowFades policy r r') :
    (∀ x ∈ occs', ∃ y ∈ occs, RowFades policy y x ∨ (x = y)) ∧
      ∀ y ∈ occs, y.isHeld = true → y ∈ occs' := by
  obtain ⟨r, r', hr, hrt, hfr, rfl⟩ := updateRow_cases h
  have hrow := hf r hr hrt r' hfr
  constructor
  · intro x hx
    rcases Table.mem_put hx with rfl | ⟨hx, -⟩
    · exact ⟨r, hr, .inl hrow⟩
    · exact ⟨x, hx, .inr rfl⟩
  · intro y hy hheld
    by_cases hkey : y.scheduledFor = r'.scheduledFor
    · obtain rfl := Table.eq_of_key_eq hy hr (hkey.trans hrow.fades.key.symm)
      obtain rfl := hrow.held hheld
      exact Table.mem_put_self hy rfl
    · exact Table.mem_put_of_ne hy hkey

/-! ### Instants in the past -/

/-- No occurrence lies after an instant. -/
def Occurrences.Past (occs : Occurrences) (b : Instant) : Prop := ∀ r ∈ occs, r.scheduledFor ≤ b

theorem past_skipPoint (h : occs.Past b) (hp : p.1 ≤ b) : Past (skipPoint now occs p) b := by
  intro x hx
  rcases mem_skipPoint hx with ⟨hx, -⟩ | ⟨r, hr, -, rfl⟩
  · exact h x hx
  · exact hr.scheduledFor_eq.trans_le hp

theorem past_firePoint (h : occs.Past b) (hp : p.1 ≤ b) : Past (firePoint s now env occs p) b := by
  intro x hx
  by_cases hkey : x.scheduledFor = p.1
  · exact hkey.trans_le hp
  · obtain ⟨y, hy, hyx⟩ := fades_firePoint .allow hx hkey
    exact hyx.key ▸ h y hy

theorem past_foldl {f : Occurrences → Spec → Occurrences}
    (hf : ∀ occs p, occs.Past b → p.1 ≤ b → (f occs p).Past b) (h : occs.Past b)
    (hspecs : ∀ p ∈ specs, p.1 ≤ b) : (specs.foldl f occs).Past b := by
  induction specs generalizing occs with
  | nil => exact h
  | cons p specs ih =>
    exact ih (hf occs p h (hspecs p List.mem_cons_self)) fun q hq =>
      hspecs q (List.mem_cons_of_mem p hq)

theorem past_firePoints {part : MisfirePartition} (h : occs.Past b)
    (hpoints : ∀ t ∈ part.points, t ≤ b) : Past (firePoints s now env occs (s.specs part)) b := by
  have hskip : ∀ p ∈ (s.specs part).2, p.1 ≤ b := fun p hp =>
    hpoints p.1 (mem_points_iff_specs.mpr (.inl (List.mem_map_of_mem hp)))
  have hfire : ∀ p ∈ (s.specs part).1, p.1 ≤ b := fun p hp =>
    hpoints p.1 (mem_points_iff_specs.mpr (.inr (List.mem_map_of_mem hp)))
  exact past_foldl (fun _ _ => past_firePoint) (past_foldl (fun _ _ => past_skipPoint) h hskip) hfire

theorem past_tryFire (h : occs.Past b) (hr : r.scheduledFor ≤ b) {trigger : TriggerType} :
    Past (tryFireOccurrence s occs r now env trigger).1 b := by
  intro x hx
  by_cases hkey : x.scheduledFor = r.scheduledFor
  · exact hkey.trans_le hr
  · obtain ⟨y, hy, hyx⟩ := fades_tryFire .allow hx hkey
    exact hyx.key ▸ h y hy

theorem past_releaseWaiting {ts : List Instant} (h : occs.Past b) :
    Past (releaseWaiting s now env ts occs) b := by
  induction ts generalizing occs with
  | nil => exact h
  | cons t ts ih =>
    rcases releaseWaiting_cons occs now t s env ts with
      ⟨-, heq⟩ | ⟨r, hr, -, ⟨-, heq⟩ | ⟨-, heq⟩⟩
    · rw [heq]
      exact ih h
    · rw [heq]
      exact past_tryFire h (h r hr)
    · rw [heq]
      exact ih (past_tryFire h (h r hr))

theorem past_entered (h : occs.Past b) (hr : r.scheduledFor ≤ b) : (occs.entered r).Past b := by
  intro x hx
  rcases mem_entered_iff.mp hx with rfl | ⟨hx, -⟩
  · exact hr
  · exact h x hx

/-! ### The condition -/

/-- The planner brings an Execution in: its occurrence is open, no other counts, and nothing older
runs or is held. -/
def PlanKeepsExclusion (policy : ScheduleOverlapPolicy) (occs : Occurrences) (t : Instant) : Prop :=
  ∀ r ∈ occs, r.scheduledFor = t → r.isOpen = true ∧ ∀ x ∈ occs, x.scheduledFor ≠ t →
    x.occupies policy = false ∧
      (x.scheduledFor < t → x.isRunning = false ∧ x.isHeld = false)

/-- The policy stays, and neither a missed point nor a plan brings an Execution in beside one that
counts. -/
def ExclusionOk (c : Calendar) (cfg : RuntimeConfig) (w : World) : Action → Prop
  | .due now env => ∀ next part, w.schedule.status = .active → w.schedule.nextRunAt = some next →
      next ≤ now → collectDuePoints c cfg w.schedule.definition next now = .ok part →
      part.scanExhausted = false → DueKeepsExclusion w.schedule w.occurrences env part
  | .update config => config.overlapPolicy = w.schedule.overlapPolicy
  | .planMaterialized t => PlanKeepsExclusion w.schedule.overlapPolicy w.occurrences t
  | .planFailed t _ => w.occurrences.IdleAt t
  | _ => True

instance (occs : Occurrences) (t : Instant) : Decidable (occs.IdleAt t) :=
  inferInstanceAs (Decidable
    (∀ r ∈ occs.rows, r.scheduledFor = t → r.isRunning = false ∧ r.isHeld = false))

instance (policy : ScheduleOverlapPolicy) (occs : Occurrences) (t : Instant) :
    Decidable (occs.NoneLater policy t) :=
  inferInstanceAs (Decidable (∀ r ∈ occs.rows, t < r.scheduledFor → r.occupies policy = false))

instance (s : Schedule) (occs : Occurrences) (env : FireEnv) (t : Instant) :
    Decidable (s.ClearAfter occs env t) :=
  inferInstanceAs (Decidable (s.targetType = .workflowVersion → env.refusal t = none →
    (∀ r ∈ occs.rows, r.scheduledFor = t → r.status = .planned ∧ r.execution = none) →
    occs.NoneLater s.overlapPolicy t))

instance (s : Schedule) (occs : Occurrences) (env : FireEnv) (part : MisfirePartition) :
    Decidable (DueKeepsExclusion s occs env part) :=
  decidable_of_iff ((∀ p ∈ (s.specs part).2, occs.IdleAt p.1) ∧
      ∀ p ∈ (s.specs part).1, s.ClearAfter occs env p.1)
    ⟨fun h => ⟨h.1, h.2⟩, fun h => ⟨h.1, h.2⟩⟩

instance (policy : ScheduleOverlapPolicy) (occs : Occurrences) (t : Instant) :
    Decidable (PlanKeepsExclusion policy occs t) :=
  inferInstanceAs (Decidable (∀ r ∈ occs.rows, r.scheduledFor = t → r.isOpen = true ∧
    ∀ x ∈ occs.rows, x.scheduledFor ≠ t → x.occupies policy = false ∧
      (x.scheduledFor < t → x.isRunning = false ∧ x.isHeld = false)))

variable {c : Calendar} {cfg : RuntimeConfig} {w w' : World}

/-- The due pass of the condition reads one partition. -/
theorem exclusionOk_due_iff {next : Instant} {part : MisfirePartition}
    (hnext : w.schedule.nextRunAt = some next)
    (hpart : collectDuePoints c cfg w.schedule.definition next now = .ok part) :
    ExclusionOk c cfg w (.due now env) ↔ (w.schedule.status = .active → next ≤ now →
      part.scanExhausted = false → DueKeepsExclusion w.schedule w.occurrences env part) := by
  constructor
  · exact fun h hactive hle => h next part hactive hnext hle hpart
  · intro h next' part' hactive hnext' hle hpart'
    obtain rfl := Option.some.inj (hnext.symm.trans hnext')
    obtain rfl := Except.ok.inj (hpart.symm.trans hpart')
    exact h hactive hle

instance (c : Calendar) (cfg : RuntimeConfig) (w : World) :
    (a : Action) → Decidable (ExclusionOk c cfg w a)
  | .due now env =>
    match hnext : w.schedule.nextRunAt with
    | none => isTrue fun _ _ _ h => absurd (h.symm.trans hnext) (Option.some_ne_none _)
    | some next =>
      match hpart : collectDuePoints c cfg w.schedule.definition next now with
      | .error _ => isTrue fun next' part _ h _ hp => by
          obtain rfl := Option.some.inj (hnext.symm.trans h)
          cases hpart.symm.trans hp
      | .ok _ => decidable_of_iff _ (exclusionOk_due_iff hnext hpart).symm
  | .update config => (inferInstance : Decidable (config.overlapPolicy = w.schedule.overlapPolicy))
  | .planMaterialized t =>
    (inferInstance : Decidable (PlanKeepsExclusion w.schedule.overlapPolicy w.occurrences t))
  | .planFailed t _ => (inferInstance : Decidable (w.occurrences.IdleAt t))
  | .tick _ | .waiting _ _ | .trigger _ | .activate | .pause | .resume | .stage _ | .claim _
  | .advance _ _ | .reconcile _ _ _ => isTrue trivial

/-! ### Steps -/

/-- The invariant of a run under one policy. -/
structure World.Excludes (policy : ScheduleOverlapPolicy) (w : World) : Prop where
  overlapPolicy : w.schedule.overlapPolicy = policy
  agentOnce : w.schedule.targetType = .agentVersion →
    w.schedule.definition.expression.isOnce = true
  past : w.occurrences.Past w.clock
  orderly : Orderly policy w.occurrences

/-- What a policy promises of one step. -/
structure Exchange (policy : ScheduleOverlapPolicy) (occs occs' : Occurrences) : Prop where
  queue : policy = .queue → QueueOrdered occs occs'
  replace : policy = .replace → NewestWins policy occs occs'

theorem Exchange.refl (policy : ScheduleOverlapPolicy) (occs : Occurrences) :
    Exchange policy occs occs :=
  ⟨fun _ => .refl occs, fun _ => .refl policy occs⟩

theorem World.Excludes.schedule (h : w.Excludes policy) (hpolicy : policy ≠ .allow) :
    w.schedule.Excludes :=
  ⟨h.overlapPolicy ▸ hpolicy, h.agentOnce⟩

/-- A step that leaves the occurrences alone. -/
theorem World.Excludes.of_schedule (h : w.Excludes policy) {s : Schedule} {clock : Instant}
    (hclock : w.clock ≤ clock) (hpolicy : s.overlapPolicy = w.schedule.overlapPolicy)
    (honce : s.targetType = .agentVersion → s.definition.expression.isOnce = true) :
    World.Excludes policy ⟨s, w.occurrences, clock⟩ :=
  ⟨hpolicy.trans h.overlapPolicy, honce, fun r hr => (h.past r hr).trans hclock, h.orderly⟩

theorem expression_anchored (d : Definition) (now : Instant) :
    (d.anchored now).expression = d.expression := by
  rw [Definition.anchored]
  split <;> rfl

theorem fields_activate {s s' : Schedule} (h : activateSchedule c s now = some s') :
    s'.overlapPolicy = s.overlapPolicy ∧ s'.targetType = s.targetType ∧
      s'.definition.expression = s.definition.expression := by
  rw [activateSchedule] at h
  split at h
  · cases h
    exact ⟨rfl, rfl, rfl⟩
  · split at h
    · cases h
    · split at h
      · cases h
      · split at h
        · cases h
        · cases h
        · cases h
          exact ⟨rfl, rfl, expression_anchored _ _⟩

theorem fields_pause {s s' : Schedule} (h : pauseSchedule s = some s') :
    s'.overlapPolicy = s.overlapPolicy ∧ s'.targetType = s.targetType ∧
      s'.definition.expression = s.definition.expression := by
  rw [pauseSchedule] at h
  split at h <;> cases h <;> exact ⟨rfl, rfl, rfl⟩

theorem fields_resume {s s' : Schedule} (h : resumeSchedule c s now = some s') :
    s'.overlapPolicy = s.overlapPolicy ∧ s'.targetType = s.targetType ∧
      s'.definition.expression = s.definition.expression := by
  rw [resumeSchedule] at h
  split at h
  · cases h
    exact ⟨rfl, rfl, rfl⟩
  · split at h
    · cases h
    · split at h
      · cases h
      · split at h
        · cases h
          exact ⟨rfl, rfl, expression_anchored _ _⟩
        · split at h
          · cases h
          · split at h
            · cases h
            · cases h
              exact ⟨rfl, rfl, expression_anchored _ _⟩

/-- A Schedule that may complete keeps its configuration. -/
theorem fields_complete (s : Schedule) (occs : Occurrences) :
    (maybeCompleteSchedule s occs).overlapPolicy = s.overlapPolicy ∧
      (maybeCompleteSchedule s occs).targetType = s.targetType ∧
      (maybeCompleteSchedule s occs).definition = s.definition := by
  rcases maybeCompleteSchedule_cases s occs with ⟨heq, -⟩ | ⟨-, -, -, heq⟩ <;> rw [heq] <;>
    exact ⟨rfl, rfl, rfl⟩

/-- A row that changes by itself. -/
theorem exchange_row (h : w.Excludes policy) {f : ScheduleOccurrence → Option ScheduleOccurrence}
    (hf : ∀ r ∈ w.occurrences, r.scheduledFor = t → ∀ r', f r = some r' → RowFades policy r r')
    (hstep : (w.occurrences.updateRow t f).map ({ w with occurrences := · }) = some w') :
    w'.Excludes policy ∧ Exchange policy w.occurrences w'.occurrences := by
  obtain ⟨occs, hupdate, rfl⟩ := Option.map_eq_some_iff.mp hstep
  obtain ⟨hrows, hheld⟩ := updateRow_fades hupdate hf
  have hfades : ∀ x ∈ occs, x.Regular policy ∧ ∃ y ∈ w.occurrences, Fades policy y x := by
    intro x hx
    obtain ⟨y, hy, hrow | rfl⟩ := hrows x hx
    · exact ⟨hrow.regular, y, hy, hrow.fades⟩
    · exact ⟨h.orderly.regular x hy, x, hy, .refl policy x⟩
  refine ⟨⟨h.overlapPolicy, h.agentOnce, fun x hx => ?_, h.orderly.of_fades fun x hx => ?_⟩,
    fun _ y hy hyheld => ⟨y, hheld y hy hyheld, rfl, .inl hyheld⟩, fun _ => .of_stood ?_⟩
  · obtain ⟨-, y, hy, hyx⟩ := hfades x hx
    exact hyx.key ▸ h.past y hy
  · exact ⟨(hfades x hx).1, .inr (hfades x hx).2⟩
  · intro x hx hstands
    obtain ⟨-, y, hy, hyx⟩ := hfades x hx
    exact ⟨y, hy, hyx.key, hyx.stands hstands⟩

/-- The planner brings in an Execution that nothing stands against. -/
theorem exchange_planMaterialized (h : w.Excludes policy)
    (hok : PlanKeepsExclusion policy w.occurrences t)
    (hstep : (w.occurrences.updateRow t (·.planMaterialized)).map ({ w with occurrences := · }) =
      some w') : w'.Excludes policy ∧ Exchange policy w.occurrences w'.occurrences := by
  obtain ⟨occs, hupdate, rfl⟩ := Option.map_eq_some_iff.mp hstep
  obtain ⟨r, r', hr, rfl, hf, rfl⟩ := updateRow_cases hupdate
  obtain ⟨hopen, hfree⟩ := hok r hr rfl
  rw [ScheduleOccurrence.planMaterialized] at hf
  split at hf
  swap
  · cases hf
  · case isTrue hplan =>
    cases hf
    have hnone : ∀ x ∈ w.occurrences, x.scheduledFor < r.scheduledFor →
        x.isRunning = false ∧ x.isHeld = false := fun x hx hlt => (hfree x hx hlt.ne).2 hlt
    refine ⟨⟨h.overlapPolicy, h.agentOnce, fun x hx => ?_, ?_⟩, fun _ => QueueTurn.queueOrdered
      (t := r.scheduledFor) ⟨fun x hne => ?_, fun g hg hkey hheld => ?_⟩,
      fun hreplace g hg hstands hnot => ?_⟩
    · rcases Table.mem_put hx with rfl | ⟨hx, -⟩
      · exact h.past r hr
      · exact h.past x hx
    · refine h.orderly.put ⟨fun _ => hopen, fun _ => rfl, (h.orderly.regular r hr).waits⟩
        (fun _ x hx hne => ⟨(hfree x hx hne).1, fun hrun => ?_, fun hheld => ?_⟩)
        (fun _ x hx hne hocc => ?_) fun hheld => ?_
      · refine lt_of_le_of_ne (not_lt.mp fun hlt => ?_) hne.symm
        rw [(hnone x hx hlt).1] at hrun
        cases hrun
      · refine lt_of_le_of_ne (not_lt.mp fun hlt => ?_) hne.symm
        rw [(hnone x hx hlt).2] at hheld
        cases hheld
      · rw [(hfree x hx hne).1] at hocc
        cases hocc
      · rw [ScheduleOccurrence.not_isHeld_of_execution (Option.some_ne_none _)] at hheld
        cases hheld
    · refine ⟨fun hx => ?_, fun hx => Table.mem_put_of_ne hx hne⟩
      rcases Table.mem_put hx with rfl | ⟨hx, -⟩
      · exact absurd rfl hne
      · exact hx
    · exact ⟨_, Table.mem_put_self hr rfl, rfl,
        .inr ⟨.inl rfl, fun z hz hlt => (hnone z hz hlt).2⟩⟩
    · -- only the planned occurrence comes to stand
      rcases Table.mem_put hg with rfl | ⟨hg, -⟩
      · intro x hx hlt
        rcases Table.mem_put hx with rfl | ⟨hx, hne⟩
        · exact absurd hlt (lt_irrefl _)
        · rw [ScheduleOccurrence.stands, (hfree x hx hne).1, (hnone x hx hlt).2]
          rfl
      · rw [hnot g hg rfl] at hstands
        cases hstands

/-- A due pass under the policy. -/
theorem exchange_due (h : w.Excludes policy) (hpolicy : policy ≠ .allow)
    (hok : ExclusionOk c cfg w (.due now env)) (hstep : w.step c cfg (.due now env) = some w') :
    w'.Excludes policy ∧ Exchange policy w.occurrences w'.occurrences := by
  have hs := h.schedule hpolicy
  have horderly : Orderly w.schedule.overlapPolicy w.occurrences := h.overlapPolicy ▸ h.orderly
  simp only [World.step] at hstep
  split at hstep
  · cases hstep
  · case isFalse hclock =>
    split at hstep
    · cases hstep
    · case h_2 s' occs' hdue =>
      cases hstep
      rcases processDueSchedule_cases hdue with ⟨hsame, -⟩ |
        ⟨next, part, hactive, hnext, hle, hpart, ⟨-, hsame⟩ | ⟨hscan, rfl, rfl⟩⟩
      · cases hsame
        exact ⟨h, .refl policy w.occurrences⟩
      · cases hsame
        exact ⟨h.of_schedule le_rfl rfl h.agentOnce, .refl policy w.occurrences⟩
      · have hkeeps := hok next part hactive hnext hle hpart hscan
        obtain ⟨hbounds, hsorted⟩ := sorted_points hpart hscan
        obtain ⟨hpol, htarget, hdef⟩ := fields_complete
          { w.schedule with nextRunAt := part.nextAfter }
          (firePoints w.schedule now env w.occurrences (w.schedule.specs part))
        refine ⟨⟨hpol.trans h.overlapPolicy, fun hagent => ?_, ?_, ?_⟩, fun hqueue => ?_, fun hreplace => ?_⟩
        · dsimp only
          rw [hdef]
          exact h.agentOnce (htarget.symm.trans hagent)
        · exact past_firePoints h.past fun t ht => (hbounds t ht).2.trans (not_lt.mp hclock)
        · exact h.overlapPolicy ▸ horderly.firePoints hs hsorted hkeeps
        · exact queueOrdered_firePoints (h.overlapPolicy.trans hqueue) hs hsorted hkeeps.idle
        · exact h.overlapPolicy ▸ newestWins_firePoints (h.overlapPolicy.trans hreplace) hs horderly hsorted hkeeps

/-- A release under the policy; under REPLACE it leaves nothing standing before a held one. -/
theorem exchange_waiting (h : w.Excludes policy) (hpolicy : policy ≠ .allow)
    (hstep : w.step c cfg (.waiting now env) = some w') :
    (w'.Excludes policy ∧ Exchange policy w.occurrences w'.occurrences) ∧
      (policy = .replace → w.schedule.status = .active → ∀ r ∈ w.occurrences, r.isHeld = true →
        w'.occurrences.NoneBefore policy r.scheduledFor) := by
  have hs := h.schedule hpolicy
  have horderly : Orderly w.schedule.overlapPolicy w.occurrences := h.overlapPolicy ▸ h.orderly
  have hsorted := sorted_listWaiting w.occurrences
  have hwaiting := waitingAt_listWaiting w.occurrences
  simp only [World.step] at hstep
  split at hstep
  · cases hstep
  · cases hstep
    rw [processWaitingSchedule]
    split
    · case isTrue hstatus =>
      exact ⟨⟨h, .refl policy w.occurrences⟩, fun _ hactive => absurd hactive hstatus⟩
    · dsimp only
      obtain ⟨hpol, htarget, hdef⟩ := fields_complete w.schedule
        (releaseWaiting w.schedule now env w.occurrences.listWaiting w.occurrences)
      refine ⟨⟨⟨hpol.trans h.overlapPolicy, fun hagent => ?_, past_releaseWaiting h.past, ?_⟩,
        fun hqueue => ?_, fun hreplace => ?_⟩, fun hreplace _ r hr hheld => ?_⟩
      · rw [hdef]
        exact h.agentOnce (htarget.symm.trans hagent)
      · exact h.overlapPolicy ▸ horderly.releaseWaiting hs hsorted hwaiting
      · exact queueOrdered_releaseWaiting (h.overlapPolicy.trans hqueue) hs hsorted
      · rw [← h.overlapPolicy]
        exact .of_stood (newestWins_releaseWaiting (h.overlapPolicy.trans hreplace) hs horderly hsorted
          hwaiting).1
      · rw [← h.overlapPolicy]
        refine (newestWins_releaseWaiting (h.overlapPolicy.trans hreplace) hs horderly hsorted
          hwaiting).2 r hr ?_
        exact mem_listWaiting.mpr ⟨r, hr, (ScheduleOccurrence.isHeld_iff.mp hheld).1, rfl⟩

/-- A manual trigger is the newest occurrence. -/
theorem exchange_trigger (h : w.Excludes policy) (hpolicy : policy ≠ .allow)
    (hstep : w.step c cfg (.trigger env) = some w') :
    w'.Excludes policy ∧ Exchange policy w.occurrences w'.occurrences := by
  have hs := h.schedule hpolicy
  have horderly : Orderly w.schedule.overlapPolicy w.occurrences := h.overlapPolicy ▸ h.orderly
  simp only [World.step, Option.map_eq_some_iff] at hstep
  obtain ⟨occs, htrigger, rfl⟩ := hstep
  obtain ⟨r, hr, heq⟩ := triggerSchedule_eq htrigger
  have hkey := hr.scheduledFor_eq
  refine ⟨⟨h.overlapPolicy, h.agentOnce, ?_, ?_⟩, fun hqueue => ?_, fun hreplace => ?_⟩
  · exact heq ▸ past_tryFire (past_entered h.past hkey.le) hkey.le
  · rw [← h.overlapPolicy]
    refine heq ▸ (horderly.entered hr rfl).tryFire hs (mem_entered_self _ _) fun _ _ _ _ x hx hlt => ?_
    rcases mem_entered_iff.mp hx with rfl | ⟨hx, -⟩
    · exact absurd hlt (lt_irrefl _)
    · exact absurd (h.past x hx) (not_le.mpr (hkey ▸ hlt))
  · exact heq ▸ (queueTurn_entered (h.overlapPolicy.trans hqueue) hs hr).queueOrdered
  · intro x hx hstands hnot
    rw [← h.overlapPolicy] at hstands hnot ⊢
    dsimp only at hx ⊢
    rw [heq] at hx ⊢
    rcases stands_tryFire_entered (h.overlapPolicy.trans hreplace) hs horderly.regular hr rfl hx hstands
      with ⟨y, hy, hyx, hystands⟩ | ⟨hxt, hnone⟩
    · rw [hnot y hy hyx] at hystands
      cases hystands
    · rw [hxt]
      exact hnone

theorem exchange_step (h : w.Excludes policy) (hpolicy : policy ≠ .allow) {a : Action}
    (hok : ExclusionOk c cfg w a) (hstep : w.step c cfg a = some w') :
    w'.Excludes policy ∧ Exchange policy w.occurrences w'.occurrences := by
  have hschedule : ∀ {s' : Schedule}, s'.overlapPolicy = w.schedule.overlapPolicy ∧
      s'.targetType = w.schedule.targetType ∧
      s'.definition.expression = w.schedule.definition.expression →
      World.Excludes policy { w with schedule := s' } ∧
        Exchange policy w.occurrences w.occurrences := by
    rintro s' ⟨hpol, htarget, hexpr⟩
    refine ⟨h.of_schedule le_rfl hpol fun hagent => ?_, .refl policy w.occurrences⟩
    rw [hexpr]
    exact h.agentOnce (htarget.symm.trans hagent)
  cases a with
  | tick now =>
    simp only [World.step] at hstep
    split at hstep
    · case isTrue hle =>
      cases hstep
      exact ⟨h.of_schedule hle rfl h.agentOnce, .refl policy w.occurrences⟩
    · cases hstep
  | due now env => exact exchange_due h hpolicy hok hstep
  | waiting now env => exact (exchange_waiting h hpolicy hstep).1
  | trigger env => exact exchange_trigger h hpolicy hstep
  | activate =>
    simp only [World.step, Option.map_eq_some_iff] at hstep
    obtain ⟨s', hactivate, rfl⟩ := hstep
    exact hschedule (fields_activate hactivate)
  | pause =>
    simp only [World.step, Option.map_eq_some_iff] at hstep
    obtain ⟨s', hpause, rfl⟩ := hstep
    exact hschedule (fields_pause hpause)
  | resume =>
    simp only [World.step, Option.map_eq_some_iff] at hstep
    obtain ⟨s', hresume, rfl⟩ := hstep
    exact hschedule (fields_resume hresume)
  | update config =>
    simp only [World.step, Option.map_eq_some_iff] at hstep
    obtain ⟨s', hupdate, rfl⟩ := hstep
    rw [updateSchedule] at hupdate
    split at hupdate
    · cases hupdate
    · split at hupdate
      · cases hupdate
      · split at hupdate
        · cases hupdate
        · case isFalse hagent =>
          cases hupdate
          refine ⟨h.of_schedule le_rfl hok fun htarget => ?_, .refl policy w.occurrences⟩
          by_contra hnot
          exact hagent ⟨htarget, hnot⟩
  | stage t =>
    exact exchange_row h (fun r hr _ r' => rowFades_stage hpolicy (h.orderly.regular r hr)) hstep
  | claim t =>
    exact exchange_row h (fun r hr _ r' => rowFades_claim hpolicy (h.orderly.regular r hr)) hstep
  | advance t status =>
    exact exchange_row h (fun r hr _ r' => rowFades_advance hpolicy (h.orderly.regular r hr)) hstep
  | planMaterialized t => exact exchange_planMaterialized h (h.overlapPolicy ▸ hok) hstep
  | planFailed t refusal =>
    exact exchange_row h (fun r hr hkey r' =>
      rowFades_planFailed (h.orderly.regular r hr) (hok r hr hkey)) hstep
  | reconcile t finishedAt now =>
    refine exchange_row h (fun r hr _ r' hr' => ?_) hstep
    cases hr'
    exact rowFades_reconcile (h.orderly.regular r hr)

theorem excludes_of_initial (h : w.Initial) : w.Excludes w.schedule.overlapPolicy := by
  have hnone : ∀ r, r ∉ w.occurrences := by
    intro r hr
    rw [Table.mem_def, h.noOccurrences] at hr
    cases hr
  exact ⟨rfl, h.agentOnce, fun r hr => absurd hr (hnone r), fun r hr => absurd hr (hnone r),
    fun r hr => absurd hr (hnone r), fun r hr => absurd hr (hnone r),
    fun r hr => absurd hr (hnone r)⟩

/-! ### Whole runs -/

/-- A manual trigger at 70 s while the Schedule is PAUSED, and then the pass over its due points. -/
def triggeredWhilePaused : List Action :=
  [.activate, .pause, .tick 70000000, .trigger calmEnv, .resume, .due 70000000 calmEnv]

end McpFlow.Scheduler
